import TradingStudies.HftOrderBookCounted

/-!
# The top of the book stays inside the level arrays

`bestBid` and `bestAsk` use the cached indices as subscripts, whatever they
are.  The constructor puts them outside of the arrays, and there they stay
until a side sees its first order; from then on they are always inside.  A side
without live orders shows a quantity only if it still counts abandoned orders.
-/

namespace TradingStudies
namespace HftOrderBook

variable {initBuckets MaxPriceLevels : ℕ} {Addr Price : Type*}
  {priceToIndex : Price → ℤ}
  {book : OrderBook initBuckets MaxPriceLevels Addr}
  {ledger : Ledger Addr Price}

def Ledger.NoneLive (ledger : Ledger Addr Price) (side : Bool) : Prop :=
  ∀ entry ∈ ledger.live, entry.order.is_buy ≠ side

def Ledger.NoneAbandoned (ledger : Ledger Addr Price) (side : Bool) : Prop :=
  ∀ entry ∈ ledger.abandoned, entry.order.is_buy ≠ side

/-- `bestBid` or `bestAsk`. -/
def bestOf (indexToPrice : ℤ → Price)
    (book : OrderBook initBuckets MaxPriceLevels Addr) (side : Bool) :
    Option (Price × Int32) :=
  if side then bestBid indexToPrice book else bestAsk indexToPrice book

/-- Both queries read inside of the level arrays, and a side without live
orders is shown with size 0. -/
def TopInBounds (indexToPrice : ℤ → Price)
    (book : OrderBook initBuckets MaxPriceLevels Addr)
    (ledger : Ledger Addr Price) : Prop :=
  ∀ side, ∃ top, bestOf indexToPrice book side = some top ∧
    (ledger.NoneLive side → top.2 = 0)

theorem bestOf_eq (indexToPrice : ℤ → Price)
    (book : OrderBook initBuckets MaxPriceLevels Addr) (side : Bool) :
    bestOf indexToPrice book side =
      (levelAt (book.levels side) (book.bestIndex side)).map
        fun size => (indexToPrice (book.bestIndex side), size) := by
  cases side <;> rfl

/-! ## One side -/

theorem Ledger.NoneLive.total {side : Bool} (hnone : ledger.NoneLive side)
    (i : ℤ) :
    levelTotal priceToIndex side ledger.counted i =
      levelTotal priceToIndex side ledger.abandoned i := by
  unfold Ledger.counted
  rw [levelTotal_append, levelTotal_of_no_side hnone, zero_add]

theorem ofInt_eq_zero_iff (total : ℤ) :
    Int32.ofInt total = 0 ↔ (2 ^ 32 : ℤ) ∣ total := by
  rw [Int32.ofInt_eq_iff_bmod_eq_toInt]
  exact Int.dvd_iff_bmod_eq_zero.symm

/-- The query reads inside of the array once an order of the side has come;
the size it finds there is the one the ledger counts. -/
theorem bestOf_inserted (indexToPrice : ℤ → Price)
    (hsides : SidesWrap priceToIndex book ledger) {side : Bool}
    (hinserted : ledger.Inserted side) :
    bestOf indexToPrice book side =
      some (indexToPrice (book.bestIndex side),
        Int32.ofInt (levelTotal priceToIndex side ledger.counted
          (book.bestIndex side))) := by
  obtain ⟨hlow, hhigh⟩ := hsides.placed side hinserted
  obtain ⟨idx, hidx⟩ := exists_index hlow hhigh
  rw [bestOf_eq, ← hidx, levelAt_val, hsides.levels side idx]
  rfl

theorem bestOf_waiting (indexToPrice : ℤ → Price)
    (hsides : SidesWrap priceToIndex book ledger) {side : Bool}
    (hwaits : ¬ ledger.Inserted side) :
    bestOf indexToPrice book side = none := by
  have hout := startIndex_outside MaxPriceLevels side
  rw [bestOf_eq, hsides.waiting side hwaits, levelAt_of_outside hout]
  rfl

/-- What the abandoned orders of a side add up to at its cached index. -/
def abandonedAtBest (priceToIndex : Price → ℤ)
    (book : OrderBook initBuckets MaxPriceLevels Addr)
    (ledger : Ledger Addr Price) (side : Bool) : ℤ :=
  levelTotal priceToIndex side ledger.abandoned (book.bestIndex side)

theorem topInBounds_iff (indexToPrice : ℤ → Price)
    (hsides : SidesWrap priceToIndex book ledger) :
    TopInBounds indexToPrice book ledger ↔ ∀ side, ledger.Inserted side ∧
      (ledger.NoneLive side →
        (2 ^ 32 : ℤ) ∣ abandonedAtBest priceToIndex book ledger side) := by
  apply forall_congr'
  intro side
  by_cases hinserted : ledger.Inserted side
  · rw [bestOf_inserted indexToPrice hsides hinserted]
    constructor
    · rintro ⟨top, htop, hsize⟩
      cases htop
      refine ⟨hinserted, fun hnone => ?_⟩
      have hzero := hsize hnone
      rwa [ofInt_eq_zero_iff, hnone.total] at hzero
    · rintro ⟨-, hdvd⟩
      refine ⟨_, rfl, fun hnone => ?_⟩
      rw [ofInt_eq_zero_iff, hnone.total]
      exact hdvd hnone
  · rw [bestOf_waiting indexToPrice hsides hinserted]
    constructor
    · rintro ⟨top, htop, -⟩
      cases htop
    · rintro ⟨hinserted', -⟩
      exact absurd hinserted' hinserted

/-! ## Whole runs -/

theorem SidesHold.best_occupied {live : List (LiveOrder Addr Price)}
    (hsides : SidesHold priceToIndex book live) {side : Bool} {i : ℤ}
    (hoccupied : 0 < levelTotal priceToIndex side live i) :
    0 < levelTotal priceToIndex side live (book.bestIndex side) := by
  cases side with
  | true => exact (hsides.bidBest.greatest ⟨i, hoccupied⟩).1
  | false => exact (hsides.askBest.greatest ⟨i, hoccupied⟩).1

variable [NeZero initBuckets] {hash : UInt64 → ℕ}
  {world : World initBuckets MaxPriceLevels Addr Price}

/-- Sums that stay in range cannot hide an abandoned order. -/
theorem abandonedAtBest_iff
    (hrefines : CountedRefines hash priceToIndex world ledger) {side : Bool}
    (hnone : ledger.NoneLive side) :
    (2 ^ 32 : ℤ) ∣ abandonedAtBest priceToIndex world.book ledger side ↔
      ledger.NoneAbandoned side := by
  constructor
  · intro hdvd entry hentry hside
    subst side
    have hcounted : entry ∈ ledger.counted := List.mem_append_right _ hentry
    have hbest := hrefines.sides.best_occupied
      (levelTotal_pos hrefines.counted.positive hcounted)
    obtain ⟨hlow, hhigh⟩ :=
      (hrefines.counted.fit entry.order.is_buy).lt_of_occupied hbest
    obtain ⟨idx, hidx⟩ := exists_index hlow hhigh
    have hbound := hrefines.counted.bounded entry.order.is_buy idx
    rw [hidx] at hbound
    rw [hnone.total] at hbest hbound
    have hle := Int.le_of_dvd hbest hdvd
    omega
  · intro habandoned
    unfold abandonedAtBest
    rw [levelTotal_of_no_side habandoned]
    exact dvd_zero _

/-- The call does not insert an order under the id of a live one. -/
def NewId (ledger : Ledger Addr Price) (c : Call Addr Price) : Prop :=
  ∀ ptr order, c = .insert ptr order → ¬ IsLive ledger.live order.order_id

theorem abandoned_eq_nil (capacity : ℕ) {ledger : Ledger Addr Price}
    (hstart : ledger.abandoned = []) {calls : List (Call Addr Price)}
    (hnew : CallSystem.AllAllowed (ledgerCall capacity) NewId ledger calls) :
    (CallSystem.stateAfter (ledgerCall capacity) ledger calls).abandoned =
      [] := by
  induction calls generalizing ledger with
  | nil => exact hstart
  | cons c rest ih =>
      obtain ⟨hc, hrest⟩ := hnew
      refine ih ?_ hrest
      cases c with
      | insert ptr order =>
          by_cases hfull : ¬ IsLive ledger.live order.order_id ∧
              ledger.live.length = capacity
          · rw [ledgerCall, if_pos hfull]
            exact hstart
          · rw [ledgerCall, if_neg hfull]
            have hdead := hc ptr order rfl
            have hempty : (ledger.live.filter fun other =>
                other.order.order_id = order.order_id) = [] := by
              apply List.filter_eq_nil_iff.mpr
              intro other hother
              rw [decide_eq_true_eq]
              exact fun heq => hdead ⟨other, hother, heq⟩
            unfold Ledger.accept
            rw [hempty, hstart]
            rfl
      | update order_id new_quantity => exact hstart
      | cancel order_id => exact hstart

/-- With new ids the top of the book is in bounds exactly when an order of each
side has been inserted. -/
theorem topInBounds_iff_inserted [DecidableEq Addr]
    (indexToPrice : ℤ → Price) (exponent : ℕ) (orders : Addr → Order Price)
    {calls : List (Call Addr Price)}
    (hkeeps : CallSystem.AllAllowed (ledgerCall (16 * 2 ^ exponent))
      (KeepsOrders priceToIndex MaxPriceLevels) (Ledger.empty Addr Price)
      calls)
    (hnew : CallSystem.AllAllowed (ledgerCall (16 * 2 ^ exponent)) NewId
      (Ledger.empty Addr Price) calls) :
    let world := CallSystem.stateAfter (call hash priceToIndex)
      (⟨fresh (2 ^ exponent) MaxPriceLevels Addr, orders⟩ :
        World (2 ^ exponent) MaxPriceLevels Addr Price) calls
    let ledger := CallSystem.stateAfter (ledgerCall (16 * 2 ^ exponent))
      (Ledger.empty Addr Price) calls
    TopInBounds indexToPrice world.book ledger ↔
      ∀ side, ledger.Inserted side := by
  intro world ledger
  have hrefines := (run_ledgerRefines hash exponent orders hkeeps).2
  have hnil : ledger.abandoned = [] := abandoned_eq_nil _ rfl hnew
  rw [topInBounds_iff indexToPrice hrefines.sides]
  apply forall_congr'
  intro side
  constructor
  · exact And.left
  · intro hinserted
    refine ⟨hinserted, fun _ => ?_⟩
    unfold abandonedAtBest
    rw [hnil]
    exact dvd_zero _

/-- After every run the top of the book is in bounds exactly when an order of
each side has been inserted and a side without live orders has nothing
abandoned to show at its cached index.  If no sum overflows, it has no
abandoned order at all. -/
theorem topOfBook_inBounds_iff [DecidableEq Addr] (hash : UInt64 → ℕ)
    (priceToIndex : Price → ℤ) (indexToPrice : ℤ → Price)
    (exponent MaxPriceLevels : ℕ) (orders : Addr → Order Price)
    (calls : List (Call Addr Price))
    (hkeeps : CallSystem.AllAllowed (ledgerCall (16 * 2 ^ exponent))
      (KeepsOrders priceToIndex MaxPriceLevels) (Ledger.empty Addr Price)
      calls) :
    let start : World (2 ^ exponent) MaxPriceLevels Addr Price :=
      ⟨fresh (2 ^ exponent) MaxPriceLevels Addr, orders⟩
    let world := CallSystem.stateAfter (call hash priceToIndex) start calls
    let ledger := CallSystem.stateAfter (ledgerCall (16 * 2 ^ exponent))
      (Ledger.empty Addr Price) calls
    CallSystem.results (call hash priceToIndex) start calls =
        CallSystem.results (ledgerCall (16 * 2 ^ exponent))
          (Ledger.empty Addr Price) calls ∧
      (TopInBounds indexToPrice world.book ledger ↔
        ∀ side, ledger.Inserted side ∧
          (ledger.NoneLive side → (2 ^ 32 : ℤ) ∣
            abandonedAtBest priceToIndex world.book ledger side)) ∧
      (CallSystem.AllAllowed (ledgerCall (16 * 2 ^ exponent))
          (SumsFit priceToIndex (16 * 2 ^ exponent) MaxPriceLevels)
          (Ledger.empty Addr Price) calls →
        (TopInBounds indexToPrice world.book ledger ↔
          ∀ side, ledger.Inserted side ∧
            (ledger.NoneLive side → ledger.NoneAbandoned side))) := by
  intro start world ledger
  obtain ⟨hresults, hrefines⟩ :=
    run_ledgerRefines hash exponent orders hkeeps
  have htop := topInBounds_iff indexToPrice hrefines.sides
  refine ⟨hresults, htop, fun hfits => ?_⟩
  have hcounted := run_countedRefines hash exponent orders hkeeps hfits
  rw [htop]
  apply forall_congr'
  intro side
  apply and_congr_right
  intro _
  apply forall_congr'
  intro hnone
  exact abandonedAtBest_iff hcounted hnone

/-- Both sides were filled and then emptied. -/
theorem topOfBook_inBounds_emptied :
    let calls : List (Call ℕ ℤ) :=
      [.insert 0 ⟨1, 2, 5, true⟩, .insert 1 ⟨2, 3, 7, false⟩,
        .cancel 1, .cancel 2]
    TopInBounds id
      (CallSystem.stateAfter (call (fun id => id.toNat) id)
        (⟨fresh 1 4 ℕ, fun _ => ⟨0, 0, 0, false⟩⟩ : World 1 4 ℕ ℤ) calls).book
      (CallSystem.stateAfter (ledgerCall 16) (Ledger.empty ℕ ℤ) calls) := by
  intro calls
  have hrun := topOfBook_inBounds_iff (fun id => id.toNat) id id 0 4
    (fun _ : ℕ => ⟨0, 0, 0, false⟩) calls (by decide)
  apply (hrun.2.2 (by decide)).mpr
  intro side
  refine ⟨?_, fun _ => ?_⟩
  · cases side <;> decide
  · intro entry hentry
    exact absurd hentry List.not_mem_nil

/-- A fresh book reads `bidLevels_[-1]`. -/
theorem fresh_top_outOfBounds :
    ¬ TopInBounds id (fresh 1 4 ℕ) (Ledger.empty ℕ ℤ) := by
  intro hall
  obtain ⟨top, htop, -⟩ := hall true
  have hnone : bestOf id (fresh 1 4 ℕ) true = (none : Option (ℤ × Int32)) := by
    decide
  rw [hnone] at htop
  cases htop

end HftOrderBook
end TradingStudies
