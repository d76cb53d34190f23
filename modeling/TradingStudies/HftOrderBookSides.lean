import TradingStudies.HftOrderBookLevels

/-!
# Both sides of the book at once

`insert` and `updatePriceLevel` treat the two sides alike: they add to one
level, then move the cached best index of that side and touch nothing else.
Here the two calls are written as one write to the side `is_buy` selects.  The
level sums are left to wrap, so nothing is assumed of the quantities.
-/

namespace TradingStudies
namespace HftOrderBook

open BestIndex

variable {initBuckets MaxPriceLevels : ℕ} {Addr Price : Type*}

namespace OrderBook

def levels (book : OrderBook initBuckets MaxPriceLevels Addr)
    (is_buy : Bool) : Fin MaxPriceLevels → Int32 :=
  if is_buy then book.bidLevels_ else book.askLevels_

def bestIndex (book : OrderBook initBuckets MaxPriceLevels Addr)
    (is_buy : Bool) : ℤ :=
  if is_buy then book.bestBidIndex_ else book.bestAskIndex_

def setSide (book : OrderBook initBuckets MaxPriceLevels Addr)
    (is_buy : Bool) (levels : Fin MaxPriceLevels → Int32) (best : ℤ) :
    OrderBook initBuckets MaxPriceLevels Addr :=
  if is_buy then { book with bidLevels_ := levels, bestBidIndex_ := best }
  else { book with askLevels_ := levels, bestAskIndex_ := best }

variable (book : OrderBook initBuckets MaxPriceLevels Addr)
  (levels' : Fin MaxPriceLevels → Int32) (best : ℤ)

@[simp] theorem setSide_orderMap_ (is_buy : Bool) :
    (book.setSide is_buy levels' best).orderMap_ = book.orderMap_ := by
  cases is_buy <;> rfl

@[simp] theorem setSide_levels (is_buy side : Bool) :
    (book.setSide is_buy levels' best).levels side =
      if side = is_buy then levels' else book.levels side := by
  cases is_buy <;> cases side <;> rfl

@[simp] theorem setSide_bestIndex (is_buy side : Bool) :
    (book.setSide is_buy levels' best).bestIndex side =
      if side = is_buy then best else book.bestIndex side := by
  cases is_buy <;> cases side <;> rfl

end OrderBook

/-- The index `updatePriceLevel` falls back on when a side holds nothing
else. -/
def restingIndex (MaxPriceLevels : ℕ) (is_buy : Bool) : ℤ :=
  if is_buy then 0 else (MaxPriceLevels : ℤ) - 1

/-- The repair loop of `updatePriceLevel`, starting next to `idx`. -/
def nextIndex (is_buy : Bool) (levels : Fin MaxPriceLevels → Int32)
    (idx : Fin MaxPriceLevels) : ℤ :=
  match if is_buy then scanDown (positiveAt levels) idx.val
    else scanUp (positiveAt levels) (MaxPriceLevels - (idx.val + 1))
      (idx.val + 1) with
  | some i => i
  | none => restingIndex MaxPriceLevels is_buy

/-- `levels[idx] += quantity` inside of the array. -/
def addLevel (levels : Fin MaxPriceLevels → Int32)
    (idx : Fin MaxPriceLevels) (quantity : Int32) :
    Fin MaxPriceLevels → Int32 :=
  Function.update levels idx (levels idx + quantity)

variable {book : OrderBook initBuckets MaxPriceLevels Addr}
  {levels levels' : Fin MaxPriceLevels → Int32} {idx : Fin MaxPriceLevels}

@[simp] theorem addLevel_self (quantity : Int32) :
    addLevel levels idx quantity idx = levels idx + quantity :=
  Function.update_self _ _ _

theorem addLevel_of_ne (quantity : Int32) {other : Fin MaxPriceLevels}
    (hne : other ≠ idx) : addLevel levels idx quantity other = levels other :=
  Function.update_of_ne hne _ _

/-- Two additions to a level are one addition of the sum. -/
theorem addLevel_addLevel (first second : Int32) :
    addLevel (addLevel levels idx first) idx second =
      addLevel levels idx (first + second) := by
  unfold addLevel
  rw [Function.update_idem, Function.update_self, Int32.add_assoc]

theorem addAt_val (levels : Fin MaxPriceLevels → Int32)
    (idx : Fin MaxPriceLevels) (quantity : Int32) :
    addAt levels (idx.val : ℤ) quantity = some (addLevel levels idx quantity) :=
  addAt_eq (by omega) (by omega)

theorem levelAt_val (levels : Fin MaxPriceLevels → Int32)
    (idx : Fin MaxPriceLevels) :
    levelAt levels (idx.val : ℤ) = some (levels idx) :=
  levelAt_eq (by omega) (by omega)

theorem levelAt_of_outside {i : ℤ} (hout : i < 0 ∨ (MaxPriceLevels : ℤ) ≤ i) :
    levelAt levels i = none := by
  unfold levelAt
  by_cases hlow : 0 ≤ i
  · rw [dif_neg (by omega)]
  · by_cases hhigh : i.toNat < MaxPriceLevels
    · rw [dif_pos hhigh, if_neg hlow]
    · rw [dif_neg hhigh]

theorem exists_index {i : ℤ} (hlow : 0 ≤ i) (hhigh : i < MaxPriceLevels) :
    ∃ idx : Fin MaxPriceLevels, (idx.val : ℤ) = i :=
  ⟨⟨i.toNat, by omega⟩, Int.toNat_of_nonneg hlow⟩

/-! ## The repair loop -/

theorem positiveAt_congr
    (hsame : ∀ other ≠ idx, levels other = levels' other) {i : ℕ}
    (hne : i ≠ idx.val) : positiveAt levels i = positiveAt levels' i := by
  unfold positiveAt
  by_cases hi : i < MaxPriceLevels
  · have hother : (⟨i, hi⟩ : Fin MaxPriceLevels) ≠ idx := by
      intro heq
      exact hne (congrArg Fin.val heq)
    rw [dif_pos hi, dif_pos hi, hsame _ hother]
  · rw [dif_neg hi, dif_neg hi]

/-- The loop never looks at the level it starts from. -/
theorem nextIndex_congr (is_buy : Bool)
    (hsame : ∀ other ≠ idx, levels other = levels' other) :
    nextIndex is_buy levels idx = nextIndex is_buy levels' idx := by
  have hdown : scanDown (positiveAt levels) idx.val =
      scanDown (positiveAt levels') idx.val :=
    scanDown_congr fun i hi => positiveAt_congr hsame (by omega)
  have hup : scanUp (positiveAt levels) (MaxPriceLevels - (idx.val + 1))
        (idx.val + 1) =
      scanUp (positiveAt levels') (MaxPriceLevels - (idx.val + 1))
        (idx.val + 1) :=
    scanUp_congr fun i hi _ => positiveAt_congr hsame (by omega)
  unfold nextIndex
  rw [hdown, hup]

theorem nextIndex_range (is_buy : Bool)
    (levels : Fin MaxPriceLevels → Int32) (idx : Fin MaxPriceLevels) :
    0 ≤ nextIndex is_buy levels idx ∧
      nextIndex is_buy levels idx < MaxPriceLevels := by
  have hidx := idx.isLt
  cases is_buy with
  | true =>
      cases hscan : scanDown (positiveAt levels) idx.val with
      | none =>
          simp only [nextIndex, restingIndex, hscan, if_true]
          omega
      | some i =>
          obtain ⟨hlt, -, -⟩ := scanDown_eq_some hscan
          simp only [nextIndex, hscan, if_true]
          omega
  | false =>
      cases hscan : scanUp (positiveAt levels)
          (MaxPriceLevels - (idx.val + 1)) (idx.val + 1) with
      | none =>
          simp only [nextIndex, restingIndex, hscan, Bool.false_eq_true,
            if_false]
          omega
      | some i =>
          obtain ⟨-, hlt, -, -⟩ := scanUp_eq_some hscan
          simp only [nextIndex, hscan, Bool.false_eq_true, if_false]
          omega

/-- The loop ends where it began only at the end of the array. -/
theorem nextIndex_eq_iff (is_buy : Bool)
    (levels : Fin MaxPriceLevels → Int32) (idx : Fin MaxPriceLevels) :
    nextIndex is_buy levels idx = idx.val ↔
      (idx.val : ℤ) = restingIndex MaxPriceLevels is_buy := by
  have hidx := idx.isLt
  cases is_buy with
  | true =>
      cases hscan : scanDown (positiveAt levels) idx.val with
      | none =>
          simp only [nextIndex, restingIndex, hscan, if_true]
          omega
      | some i =>
          obtain ⟨hlt, -, -⟩ := scanDown_eq_some hscan
          simp only [nextIndex, restingIndex, hscan, if_true]
          omega
  | false =>
      cases hscan : scanUp (positiveAt levels)
          (MaxPriceLevels - (idx.val + 1)) (idx.val + 1) with
      | none =>
          simp only [nextIndex, restingIndex, hscan, Bool.false_eq_true,
            if_false]
          omega
      | some i =>
          obtain ⟨hstart, hlt, -, -⟩ := scanUp_eq_some hscan
          simp only [nextIndex, restingIndex, hscan, Bool.false_eq_true,
            if_false]
          omega

/-! ## The two writes to a side -/

/-- `updatePriceLevel` inside of the level array. -/
theorem updatePriceLevel_eq (is_buy : Bool)
    (book : OrderBook initBuckets MaxPriceLevels Addr)
    (idx : Fin MaxPriceLevels) (quantity : Int32) :
    updatePriceLevel is_buy book (idx.val : ℤ) quantity =
      some (book.setSide is_buy (addLevel (book.levels is_buy) idx quantity)
        (if (idx.val : ℤ) = book.bestIndex is_buy ∧
            book.levels is_buy idx + quantity = 0 then
          nextIndex is_buy (book.levels is_buy) idx
        else book.bestIndex is_buy)) := by
  have hnext : nextIndex is_buy (addLevel (book.levels is_buy) idx quantity)
      idx = nextIndex is_buy (book.levels is_buy) idx :=
    nextIndex_congr is_buy fun other hne => addLevel_of_ne quantity hne
  rw [← hnext]
  cases is_buy with
  | true =>
      simp only [updatePriceLevel, updateBidLevel, OrderBook.levels,
        OrderBook.bestIndex, OrderBook.setSide, if_true, addAt_val,
        levelAt_val, addLevel_self, Option.some.injEq]
      by_cases hempties : (idx.val : ℤ) = book.bestBidIndex_ ∧
          book.bidLevels_ idx + quantity = 0
      · rw [if_pos hempties, if_pos hempties]
        simp only [nextIndex, restingIndex, if_true, Int.toNat_natCast]
        cases scanDown (positiveAt (addLevel book.bidLevels_ idx quantity))
            idx.val <;> rfl
      · rw [if_neg hempties, if_neg hempties]
  | false =>
      simp only [updatePriceLevel, updateAskLevel, OrderBook.levels,
        OrderBook.bestIndex, OrderBook.setSide, Bool.false_eq_true, if_false,
        addAt_val, levelAt_val, addLevel_self, Option.some.injEq]
      by_cases hempties : (idx.val : ℤ) = book.bestAskIndex_ ∧
          book.askLevels_ idx + quantity = 0
      · rw [if_pos hempties, if_pos hempties]
        simp only [nextIndex, restingIndex, Bool.false_eq_true, if_false,
          Int.toNat_natCast]
        cases scanUp (positiveAt (addLevel book.askLevels_ idx quantity))
            (MaxPriceLevels - (idx.val + 1)) (idx.val + 1) <;> rfl
      · rw [if_neg hempties, if_neg hempties]

/-- `insert` improves the cached index, which starts outside of the array. -/
def betterIndex (is_buy : Bool) (best idx : ℤ) : ℤ :=
  if is_buy then if best < idx then idx else best
  else if idx < best then idx else best

/-- Where the constructor puts the cached index of a side. -/
def startIndex (MaxPriceLevels : ℕ) (is_buy : Bool) : ℤ :=
  if is_buy then -1 else MaxPriceLevels

theorem startIndex_outside (MaxPriceLevels : ℕ) (is_buy : Bool) :
    startIndex MaxPriceLevels is_buy < 0 ∨
      (MaxPriceLevels : ℤ) ≤ startIndex MaxPriceLevels is_buy := by
  cases is_buy with
  | true => exact Or.inl neg_one_lt_zero
  | false => exact Or.inr le_rfl

theorem startIndex_ne (is_buy : Bool) (idx : Fin MaxPriceLevels) :
    startIndex MaxPriceLevels is_buy ≠ idx.val := by
  have hout := startIndex_outside MaxPriceLevels is_buy
  omega

theorem betterIndex_range {is_buy : Bool} {best : ℤ}
    (idx : Fin MaxPriceLevels)
    (hbest : (0 ≤ best ∧ best < MaxPriceLevels) ∨
      best = startIndex MaxPriceLevels is_buy) :
    0 ≤ betterIndex is_buy best idx.val ∧
      betterIndex is_buy best idx.val < MaxPriceLevels := by
  have hlt := idx.isLt
  cases is_buy with
  | true =>
      simp only [betterIndex, startIndex, if_true] at hbest ⊢
      split <;> omega
  | false =>
      simp only [betterIndex, startIndex, Bool.false_eq_true, if_false]
        at hbest ⊢
      split <;> omega

theorem raiseLevel_eq (priceToIndex : Price → ℤ)
    (book : OrderBook initBuckets MaxPriceLevels Addr) {order : Order Price}
    {idx : Fin MaxPriceLevels}
    (hidx : (idx.val : ℤ) = priceToIndex order.price) :
    raiseLevel priceToIndex book order =
      some (book.setSide order.is_buy
        (addLevel (book.levels order.is_buy) idx order.quantity)
        (betterIndex order.is_buy (book.bestIndex order.is_buy) idx.val)) := by
  unfold raiseLevel
  rw [← hidx]
  cases order.is_buy <;>
    simp [addAt_val, OrderBook.setSide, OrderBook.levels,
      OrderBook.bestIndex, betterIndex]

end HftOrderBook
end TradingStudies
