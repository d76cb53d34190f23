import TradingStudies.HftOrderBookSides
import TradingStudies.HftOrderBookRefinement

/-!
# The ledger of a book

`insert` does not look whether its id is in use.  A live order whose id is
inserted again is abandoned: no call reaches it any more, but its quantity
stays in the level sums.  The ledger keeps such orders next to the live ones.

The callers promise only what keeps the calls defined: prices inside the level
arrays, and memory of a live order that is not reused for another id.  Ids may
repeat, quantities are arbitrary, the id index may run full, and the sums wrap
around as the machine's do.
-/

namespace TradingStudies
namespace HftOrderBook

variable {initBuckets MaxPriceLevels : ℕ} {Addr Price : Type*}

structure Ledger (Addr Price : Type*) where
  live : List (LiveOrder Addr Price)
  abandoned : List (LiveOrder Addr Price)
  accepted : List (LiveOrder Addr Price)
  deriving DecidableEq, Repr

namespace Ledger

def empty (Addr Price : Type*) : Ledger Addr Price := ⟨[], [], []⟩

/-- The orders whose quantities the levels hold. -/
def counted (ledger : Ledger Addr Price) : List (LiveOrder Addr Price) :=
  ledger.live ++ ledger.abandoned

/-- An order of this side has been inserted. -/
def Inserted (ledger : Ledger Addr Price) (side : Bool) : Prop :=
  ∃ entry ∈ ledger.accepted, entry.order.is_buy = side

instance (ledger : Ledger Addr Price) (side : Bool) :
    Decidable (ledger.Inserted side) :=
  inferInstanceAs
    (Decidable (∃ entry ∈ ledger.accepted, entry.order.is_buy = side))

def accept (ledger : Ledger Addr Price) (entry : LiveOrder Addr Price) :
    Ledger Addr Price where
  live := entry :: ledger.live.filter fun other =>
    other.order.order_id ≠ entry.order.order_id
  abandoned := (ledger.live.filter fun other =>
    other.order.order_id = entry.order.order_id) ++ ledger.abandoned
  accepted := entry :: ledger.accepted

end Ledger

/-- The calls on the ledger of a book whose id index has `capacity` nodes. -/
def ledgerCall (capacity : ℕ) (ledger : Ledger Addr Price) :
    Call Addr Price → Ledger Addr Price × Outcome
  | .insert ptr order =>
      if ¬ IsLive ledger.live order.order_id ∧
          ledger.live.length = capacity then
        (ledger, .threw "No free nodes available in the pool")
      else (ledger.accept ⟨ptr, order⟩, .done)
  | .update order_id new_quantity =>
      ({ ledger with
          live := (abstractCall ledger.live
            (.update order_id new_quantity)).1 },
        (abstractCall ledger.live (.update order_id new_quantity)).2)
  | .cancel order_id =>
      ({ ledger with
          live := (abstractCall ledger.live (.cancel order_id)).1 },
        (abstractCall ledger.live (.cancel order_id)).2)

section Promise

variable (priceToIndex : Price → ℤ)

/-- What the callers promise. -/
def KeepsOrders (MaxPriceLevels : ℕ) (ledger : Ledger Addr Price) :
    Call Addr Price → Prop
  | .insert ptr order =>
      (∀ entry ∈ ledger.live, entry.order.order_id ≠ order.order_id →
        entry.ptr ≠ ptr) ∧
      0 ≤ priceToIndex order.price ∧
        priceToIndex order.price < MaxPriceLevels
  | .update _ _ => True
  | .cancel _ => True

instance [DecidableEq Addr] (MaxPriceLevels : ℕ)
    (ledger : Ledger Addr Price) :
    ∀ c, Decidable (KeepsOrders priceToIndex MaxPriceLevels ledger c)
  | .insert ptr order =>
      inferInstanceAs (Decidable (
        (∀ entry ∈ ledger.live, entry.order.order_id ≠ order.order_id →
          entry.ptr ≠ ptr) ∧ 0 ≤ priceToIndex order.price ∧
            priceToIndex order.price < MaxPriceLevels))
  | .update _ _ => inferInstanceAs (Decidable True)
  | .cancel _ => inferInstanceAs (Decidable True)

end Promise

/-! ## What the calls do to the level sums -/

variable {priceToIndex : Price → ℤ} {ledger ledger' : Ledger Addr Price}

theorem Ledger.counted_accept (ledger : Ledger Addr Price)
    (entry : LiveOrder Addr Price) :
    (ledger.accept entry).counted.Perm (entry :: ledger.counted) := by
  have hparts := List.filter_append_perm
    (fun other : LiveOrder Addr Price =>
      decide (other.order.order_id ≠ entry.order.order_id)) ledger.live
  have hsame : (ledger.live.filter fun other =>
        !decide (other.order.order_id ≠ entry.order.order_id)) =
      ledger.live.filter fun other =>
        other.order.order_id = entry.order.order_id := by
    apply List.filter_congr
    intro other _
    simp
  rw [hsame] at hparts
  unfold Ledger.counted Ledger.accept
  rw [List.cons_append, ← List.append_assoc]
  exact (hparts.append_right _).cons _

theorem levelTotal_append (side : Bool)
    (first second : List (LiveOrder Addr Price)) (i : ℤ) :
    levelTotal priceToIndex side (first ++ second) i =
      levelTotal priceToIndex side first i +
        levelTotal priceToIndex side second i := by
  simp [levelTotal]

theorem levelTotal_perm {first second : List (LiveOrder Addr Price)}
    (hperm : first.Perm second) (side : Bool) (i : ℤ) :
    levelTotal priceToIndex side first i =
      levelTotal priceToIndex side second i :=
  ((hperm.filter _).map _).sum_eq

theorem levelTotal_of_no_side {live : List (LiveOrder Addr Price)}
    {side : Bool} (hnone : ∀ entry ∈ live, entry.order.is_buy ≠ side)
    (i : ℤ) : levelTotal priceToIndex side live i = 0 := by
  have hempty : (live.filter fun entry => entry.order.is_buy = side ∧
      priceToIndex entry.order.price = i) = [] := by
    apply List.filter_eq_nil_iff.mpr
    intro entry hentry
    simp [hnone entry hentry]
  unfold levelTotal
  rw [hempty]
  rfl

variable (priceToIndex) in
theorem shifted_accept (ledger : Ledger Addr Price)
    (entry : LiveOrder Addr Price) (side : Bool) :
    Shifted (levelTotal priceToIndex side ledger.counted)
      (levelTotal priceToIndex side (ledger.accept entry).counted)
      (priceToIndex entry.order.price)
      (if entry.order.is_buy = side then entry.order.quantity.toInt
        else 0) := by
  intro i
  rw [levelTotal_perm (ledger.counted_accept entry)]
  exact levelTotal_insert priceToIndex side entry ledger.counted i

/-- A shift of the live sums is one of the counted sums. -/
theorem shifted_counted {live : List (LiveOrder Addr Price)} {side : Bool}
    {idx delta : ℤ}
    (hshift : Shifted (levelTotal priceToIndex side ledger.live)
      (levelTotal priceToIndex side live) idx delta) :
    Shifted (levelTotal priceToIndex side ledger.counted)
      (levelTotal priceToIndex side
        ({ ledger with live := live } : Ledger Addr Price).counted)
      idx delta := by
  intro i
  show levelTotal priceToIndex side (live ++ ledger.abandoned) i =
    levelTotal priceToIndex side (ledger.live ++ ledger.abandoned) i + _
  rw [levelTotal_append, levelTotal_append, hshift i]
  omega

/-! ## The sides of the book -/

/-- The array holds these totals, modulo the width of an `int`. -/
def LevelsWrap (levels : Fin MaxPriceLevels → Int32) (total : ℤ → ℤ) : Prop :=
  ∀ i : Fin MaxPriceLevels, levels i = Int32.ofInt (total i.val)

/-- The levels are the counted sums, and a cached index is inside the array
from the first order of its side on. -/
structure SidesWrap (priceToIndex : Price → ℤ)
    (book : OrderBook initBuckets MaxPriceLevels Addr)
    (ledger : Ledger Addr Price) : Prop where
  levels : ∀ side, LevelsWrap (book.levels side)
    (levelTotal priceToIndex side ledger.counted)
  placed : ∀ side, ledger.Inserted side →
    0 ≤ book.bestIndex side ∧ book.bestIndex side < MaxPriceLevels
  waiting : ∀ side, ¬ ledger.Inserted side →
    book.bestIndex side = startIndex MaxPriceLevels side

theorem LevelsWrap.add {levels : Fin MaxPriceLevels → Int32}
    {total total' : ℤ → ℤ} (hlevels : LevelsWrap levels total)
    {idx : Fin MaxPriceLevels} {delta : ℤ}
    (hshift : Shifted total total' idx.val delta) :
    LevelsWrap (addLevel levels idx (Int32.ofInt delta)) total' := by
  intro i
  by_cases heq : i = idx
  · rw [heq, addLevel_self, hlevels idx, hshift.at_index, Int32.ofInt_add]
  · have hne : (i.val : ℤ) ≠ idx.val := by
      intro h
      exact heq (Fin.ext (by omega))
    rw [addLevel_of_ne _ heq, hlevels i, hshift.off_index hne]

variable {book : OrderBook initBuckets MaxPriceLevels Addr}

theorem fresh_sidesWrap :
    SidesWrap priceToIndex (fresh initBuckets MaxPriceLevels Addr)
      (Ledger.empty Addr Price) where
  levels := by
    intro side i
    cases side <;> rfl
  placed := by
    rintro side ⟨entry, hentry, -⟩
    exact absurd hentry List.not_mem_nil
  waiting := by
    intro side _
    cases side <;> rfl

theorem SidesWrap.withMap (hsides : SidesWrap priceToIndex book ledger)
    (orderMap : HashMap.FixedSizedChainingHashMap initBuckets UInt64
      (Option Addr)) :
    SidesWrap priceToIndex { book with orderMap_ := orderMap } ledger :=
  ⟨hsides.levels, hsides.placed, hsides.waiting⟩

/-- A write to one level of a side and to its cached index. -/
theorem SidesWrap.write (hsides : SidesWrap priceToIndex book ledger)
    {is_buy : Bool} {idx : Fin MaxPriceLevels} {delta best : ℤ}
    (hshift : ∀ side, Shifted
      (levelTotal priceToIndex side ledger.counted)
      (levelTotal priceToIndex side ledger'.counted) idx.val
      (if is_buy = side then delta else 0))
    (hplaced : ledger'.Inserted is_buy → 0 ≤ best ∧ best < MaxPriceLevels)
    (hwaiting : ¬ ledger'.Inserted is_buy →
      best = startIndex MaxPriceLevels is_buy)
    (hother : ∀ side ≠ is_buy,
      ledger'.Inserted side ↔ ledger.Inserted side) :
    SidesWrap priceToIndex
      (book.setSide is_buy
        (addLevel (book.levels is_buy) idx (Int32.ofInt delta)) best)
      ledger' := by
  constructor
  · intro side
    rw [OrderBook.setSide_levels]
    by_cases heq : side = is_buy
    · subst side
      rw [if_pos rfl]
      apply (hsides.levels is_buy).add
      simpa using hshift is_buy
    · have hsame := hshift side
      rw [if_neg (Ne.symm heq)] at hsame
      rw [if_neg heq, hsame.eq_of_zero]
      exact hsides.levels side
  · intro side hinserted
    rw [OrderBook.setSide_bestIndex]
    by_cases heq : side = is_buy
    · subst side
      rw [if_pos rfl]
      exact hplaced hinserted
    · rw [if_neg heq]
      exact hsides.placed side ((hother side heq).mp hinserted)
  · intro side hwaits
    rw [OrderBook.setSide_bestIndex]
    by_cases heq : side = is_buy
    · subst side
      rw [if_pos rfl]
      exact hwaiting hwaits
    · rw [if_neg heq]
      exact hsides.waiting side (mt (hother side heq).mpr hwaits)

theorem SidesWrap.raiseLevel (hsides : SidesWrap priceToIndex book ledger)
    (entry : LiveOrder Addr Price)
    (hlow : 0 ≤ priceToIndex entry.order.price)
    (hhigh : priceToIndex entry.order.price < MaxPriceLevels) :
    ∃ book', raiseLevel priceToIndex book entry.order = some book' ∧
      book'.orderMap_ = book.orderMap_ ∧
      SidesWrap priceToIndex book' (ledger.accept entry) := by
  obtain ⟨idx, hidx⟩ := exists_index hlow hhigh
  have hshift := shifted_accept priceToIndex ledger entry
  rw [← hidx] at hshift
  have hinserted : (ledger.accept entry).Inserted entry.order.is_buy :=
    ⟨entry, List.mem_cons_self, rfl⟩
  refine ⟨_, raiseLevel_eq priceToIndex book hidx,
    OrderBook.setSide_orderMap_ _ _ _ _, ?_⟩
  rw [← Int32.ofInt_toInt entry.order.quantity]
  apply hsides.write hshift
  · intro _
    have hold : (0 ≤ book.bestIndex entry.order.is_buy ∧
          book.bestIndex entry.order.is_buy < MaxPriceLevels) ∨
        book.bestIndex entry.order.is_buy =
          startIndex MaxPriceLevels entry.order.is_buy := by
      by_cases hbefore : ledger.Inserted entry.order.is_buy
      · exact Or.inl (hsides.placed _ hbefore)
      · exact Or.inr (hsides.waiting _ hbefore)
    exact betterIndex_range idx hold
  · exact fun hwaits => absurd hinserted hwaits
  · intro side hne
    constructor
    · rintro ⟨other, hother, rfl⟩
      rcases List.mem_cons.mp hother with rfl | hother
      · exact absurd rfl hne
      · exact ⟨other, hother, rfl⟩
    · rintro ⟨other, hother, hside⟩
      exact ⟨other, List.mem_cons_of_mem _ hother, hside⟩

theorem SidesWrap.updatePriceLevel
    (hsides : SidesWrap priceToIndex book ledger)
    {live : List (LiveOrder Addr Price)} {is_buy : Bool} {i delta : ℤ}
    (hlow : 0 ≤ i) (hhigh : i < MaxPriceLevels)
    (hshift : ∀ side, Shifted (levelTotal priceToIndex side ledger.live)
      (levelTotal priceToIndex side live) i
      (if is_buy = side then delta else 0)) :
    ∃ book', updatePriceLevel is_buy book i (Int32.ofInt delta) =
        some book' ∧
      book'.orderMap_ = book.orderMap_ ∧
      SidesWrap priceToIndex book' { ledger with live := live } := by
  obtain ⟨idx, rfl⟩ := exists_index hlow hhigh
  refine ⟨_, updatePriceLevel_eq is_buy book idx _,
    OrderBook.setSide_orderMap_ _ _ _ _, ?_⟩
  apply hsides.write fun side => shifted_counted (hshift side)
  · intro hinserted
    split
    · exact nextIndex_range is_buy _ idx
    · exact hsides.placed is_buy hinserted
  · intro hwaits
    have hstart := hsides.waiting is_buy hwaits
    rw [if_neg, hstart]
    rintro ⟨hbest, -⟩
    exact startIndex_ne is_buy idx (hstart.symm.trans hbest.symm)
  · exact fun side _ => Iff.rfl

/-! ## The book follows its ledger -/

section Refinement

variable [NeZero initBuckets]

structure LedgerRefines (hash : UInt64 → ℕ) (priceToIndex : Price → ℤ)
    (world : World initBuckets MaxPriceLevels Addr Price)
    (ledger : Ledger Addr Price) : Prop where
  index : IndexRefines hash world ledger.live
  range : ∀ entry ∈ ledger.live, 0 ≤ priceToIndex entry.order.price ∧
    priceToIndex entry.order.price < MaxPriceLevels
  sides : SidesWrap priceToIndex world.book ledger

variable {hash : UInt64 → ℕ}
  {world : World initBuckets MaxPriceLevels Addr Price}

theorem fresh_ledgerRefines (orders : Addr → Order Price) :
    LedgerRefines hash priceToIndex
      (⟨fresh initBuckets MaxPriceLevels Addr, orders⟩ :
        World initBuckets MaxPriceLevels Addr Price)
      (Ledger.empty Addr Price) where
  index := by
    have hrefines : BookRefines hash priceToIndex
        (⟨fresh initBuckets MaxPriceLevels Addr, orders⟩ :
          World initBuckets MaxPriceLevels Addr Price) [] :=
      fresh_bookRefines orders
    exact hrefines.indexRefines
  range := fun entry hentry => absurd hentry List.not_mem_nil
  sides := fresh_sidesWrap

theorem IndexRefines.length_le {live : List (LiveOrder Addr Price)}
    (hrefines : IndexRefines hash world live) :
    live.length ≤ 16 * initBuckets := by
  obtain ⟨chain, content, hrep, hindex⟩ := hrefines.index
  have hcount := hrep.count
  rw [hindex.card] at hcount
  omega

theorem IndexRefines.room_of_not_full {live : List (LiveOrder Addr Price)}
    (hrefines : IndexRefines hash world live) {order_id : UInt64}
    (hfull : ¬ (¬ IsLive live order_id ∧ live.length = 16 * initBuckets)) :
    IsLive live order_id ∨ live.length < 16 * initBuckets := by
  have hlength := hrefines.length_le
  by_contra hnot
  rw [not_or] at hnot
  exact hfull ⟨hnot.1, by omega⟩

variable [DecidableEq Addr]

theorem insert_ledgerRefines
    (hrefines : LedgerRefines hash priceToIndex world ledger)
    {ptr : Addr} {order : Order Price}
    (hkeeps : KeepsOrders priceToIndex MaxPriceLevels ledger
      (.insert ptr order)) :
    (call hash priceToIndex world (.insert ptr order)).2 =
        (ledgerCall (16 * initBuckets) ledger (.insert ptr order)).2 ∧
      LedgerRefines hash priceToIndex
        (call hash priceToIndex world (.insert ptr order)).1
        (ledgerCall (16 * initBuckets) ledger (.insert ptr order)).1 := by
  obtain ⟨hptr, hlow, hhigh⟩ := hkeeps
  by_cases hfull : ¬ IsLive ledger.live order.order_id ∧
      ledger.live.length = 16 * initBuckets
  · have hcall := insert_of_full priceToIndex hrefines.index ptr hfull.1
      hfull.2
    simp only [ledgerCall, if_pos hfull, hcall, true_and]
    constructor
    · constructor
      · exact hrefines.index.index
      · intro entry hentry
        have hother : entry.ptr ≠ ptr :=
          hptr entry hentry fun heq => hfull.1 ⟨entry, hentry, heq⟩
        simp only [Function.update_of_ne hother]
        exact hrefines.index.memory entry hentry
      · exact hrefines.index.distinct
    · exact hrefines.range
    · exact hrefines.sides
  · have hroom := hrefines.index.room_of_not_full hfull
    obtain ⟨orderMap, heval, hnext⟩ :=
      insert_index_of_room priceToIndex hrefines.index ptr order hptr hroom
    obtain ⟨book', hraise, hmap, hsides⟩ :=
      (hrefines.sides.withMap orderMap).raiseLevel ⟨ptr, order⟩ hlow hhigh
    rw [heval, hraise]
    simp only [ledgerCall, if_neg hfull, true_and]
    constructor
    · exact hnext book' hmap
    · intro entry hentry
      rcases List.mem_cons.mp hentry with rfl | hentry
      · exact ⟨hlow, hhigh⟩
      · exact hrefines.range entry (List.mem_filter.mp hentry).1
    · exact hsides

theorem update_ledgerRefines
    (hrefines : LedgerRefines hash priceToIndex world ledger)
    {entry : LiveOrder Addr Price} (hentry : entry ∈ ledger.live)
    (new_quantity : Int32) :
    (call hash priceToIndex world
        (.update entry.order.order_id new_quantity)).2 = .done ∧
      LedgerRefines hash priceToIndex
        (call hash priceToIndex world
          (.update entry.order.order_id new_quantity)).1
        { ledger with
          live := ledger.live.map
            (setQuantity entry.order.order_id new_quantity) } := by
  obtain ⟨hlow, hhigh⟩ := hrefines.range entry hentry
  obtain ⟨orderMap, heval, hnext⟩ :=
    update_index priceToIndex hrefines.index hentry new_quantity
  obtain ⟨book', hlevel, hmap, hsides⟩ :=
    (hrefines.sides.withMap orderMap).updatePriceLevel hlow hhigh
      (levelTotal_update hrefines.index.distinct hentry new_quantity)
  rw [Int32.ofInt_sub, Int32.ofInt_toInt, Int32.ofInt_toInt] at hlevel
  rw [heval, hlevel]
  refine ⟨rfl, hnext book' hmap, ?_, hsides⟩
  intro other hother
  obtain ⟨old, hold, rfl⟩ := List.mem_map.mp hother
  rw [setQuantity_price]
  exact hrefines.range old hold

theorem cancel_ledgerRefines
    (hrefines : LedgerRefines hash priceToIndex world ledger)
    {entry : LiveOrder Addr Price} (hentry : entry ∈ ledger.live) :
    (call hash priceToIndex world (.cancel entry.order.order_id)).2 = .done ∧
      LedgerRefines hash priceToIndex
        (call hash priceToIndex world (.cancel entry.order.order_id)).1
        { ledger with
          live := ledger.live.filter fun other =>
            other.order.order_id ≠ entry.order.order_id } := by
  obtain ⟨hlow, hhigh⟩ := hrefines.range entry hentry
  obtain ⟨orderMap, erasedMap, heval, hnext⟩ :=
    cancel_index priceToIndex hrefines.index hentry
  obtain ⟨book', hlevel, hmap, hsides⟩ :=
    (hrefines.sides.withMap orderMap).updatePriceLevel hlow hhigh
      (levelTotal_cancel hrefines.index.distinct hentry)
  rw [Int32.ofInt_neg, Int32.ofInt_toInt] at hlevel
  rw [heval book' hlevel hmap]
  refine ⟨rfl, hnext book', ?_, ?_⟩
  · intro other hother
    exact hrefines.range other (List.mem_filter.mp hother).1
  · exact hsides.withMap erasedMap

theorem call_ledgerRefines
    (hrefines : LedgerRefines hash priceToIndex world ledger)
    {c : Call Addr Price}
    (hkeeps : KeepsOrders priceToIndex MaxPriceLevels ledger c) :
    (call hash priceToIndex world c).2 =
        (ledgerCall (16 * initBuckets) ledger c).2 ∧
      LedgerRefines hash priceToIndex (call hash priceToIndex world c).1
        (ledgerCall (16 * initBuckets) ledger c).1 := by
  cases c with
  | insert ptr order => exact insert_ledgerRefines hrefines hkeeps
  | update order_id new_quantity =>
      by_cases hlive : IsLive ledger.live order_id
      · simp only [ledgerCall, abstractCall, if_pos hlive]
        obtain ⟨entry, hentry, rfl⟩ := hlive
        exact update_ledgerRefines hrefines hentry new_quantity
      · simp only [ledgerCall, abstractCall, if_neg hlive]
        rw [call_of_dead hrefines.index hlive (Or.inl ⟨new_quantity, rfl⟩)]
        exact ⟨rfl, hrefines⟩
  | cancel order_id =>
      by_cases hlive : IsLive ledger.live order_id
      · simp only [ledgerCall, abstractCall, if_pos hlive]
        obtain ⟨entry, hentry, rfl⟩ := hlive
        exact cancel_ledgerRefines hrefines hentry
      · simp only [ledgerCall, abstractCall, if_neg hlive]
        rw [call_of_dead hrefines.index hlive (Or.inr rfl)]
        exact ⟨rfl, hrefines⟩

end Refinement

variable (hash : UInt64 → ℕ) [DecidableEq Addr] in
/-- Every run answers as its ledger does and ends in a book that follows the
ledger. -/
theorem run_ledgerRefines (exponent : ℕ) (orders : Addr → Order Price)
    {calls : List (Call Addr Price)}
    (hkeeps : CallSystem.AllAllowed (ledgerCall (16 * 2 ^ exponent))
      (KeepsOrders priceToIndex MaxPriceLevels) (Ledger.empty Addr Price)
      calls) :
    let start : World (2 ^ exponent) MaxPriceLevels Addr Price :=
      ⟨fresh (2 ^ exponent) MaxPriceLevels Addr, orders⟩
    CallSystem.results (call hash priceToIndex) start calls =
        CallSystem.results (ledgerCall (16 * 2 ^ exponent))
          (Ledger.empty Addr Price) calls ∧
      LedgerRefines hash priceToIndex
        (CallSystem.stateAfter (call hash priceToIndex) start calls)
        (CallSystem.stateAfter (ledgerCall (16 * 2 ^ exponent))
          (Ledger.empty Addr Price) calls) := by
  intro start
  apply CallSystem.simulation_of_abstract
    (KeepsOrders priceToIndex MaxPriceLevels)
    (fun world ledger => LedgerRefines hash priceToIndex world ledger)
    ?_ (fresh_ledgerRefines orders) hkeeps
  intro world ledger c hrefines hallowed
  exact call_ledgerRefines hrefines hallowed

end HftOrderBook
end TradingStudies
