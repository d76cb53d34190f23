import TradingStudies.HftOrderBookTop

/-!
# Cancelling everything

A cancel takes back the quantity of the order the id index leads to.  An order
that was abandoned is out of its reach: its quantity stays in the levels when
every id has been cancelled.  So the book drains exactly when no order was
inserted under the id of a live one, unless sums wrap around.
-/

namespace TradingStudies
namespace HftOrderBook

variable {initBuckets MaxPriceLevels : ℕ} {Addr Price : Type*}
  {priceToIndex : Price → ℤ} {ledger : Ledger Addr Price} {capacity : ℕ}

def cancelCalls (order_ids : List UInt64) : List (Call Addr Price) :=
  order_ids.map .cancel

/-- All entries of both level arrays are 0. -/
def LevelsEmpty (book : OrderBook initBuckets MaxPriceLevels Addr) : Prop :=
  ∀ i, book.bidLevels_ i = 0 ∧ book.askLevels_ i = 0

instance (book : OrderBook initBuckets MaxPriceLevels Addr) :
    Decidable (LevelsEmpty book) :=
  inferInstanceAs
    (Decidable (∀ i, book.bidLevels_ i = 0 ∧ book.askLevels_ i = 0))

/-! ## The ledger while orders are cancelled -/

theorem ledgerCall_cancel (capacity : ℕ) (ledger : Ledger Addr Price)
    (order_id : UInt64) :
    (ledgerCall capacity ledger (.cancel order_id)).1 =
      { ledger with
        live := ledger.live.filter fun entry =>
          entry.order.order_id ≠ order_id } := by
  unfold ledgerCall abstractCall
  by_cases hlive : IsLive ledger.live order_id
  · simp only [if_pos hlive]
  · have hfilter : (ledger.live.filter fun entry =>
        entry.order.order_id ≠ order_id) = ledger.live := by
      apply filter_of_ne
      intro entry hentry heq
      exact hlive ⟨entry, hentry, heq⟩
    simp only [if_neg hlive, hfilter]

theorem cancelCalls_ledger (capacity : ℕ) (ledger : Ledger Addr Price)
    (order_ids : List UInt64) :
    (CallSystem.stateAfter (ledgerCall capacity) ledger
          (cancelCalls order_ids)).abandoned = ledger.abandoned ∧
      ∀ entry ∈ (CallSystem.stateAfter (ledgerCall capacity) ledger
          (cancelCalls order_ids)).live,
        entry ∈ ledger.live ∧ entry.order.order_id ∉ order_ids := by
  induction order_ids generalizing ledger with
  | nil => exact ⟨rfl, fun entry hentry => ⟨hentry, List.not_mem_nil⟩⟩
  | cons order_id rest ih =>
      have hstep : CallSystem.stateAfter (ledgerCall capacity) ledger
            (cancelCalls (order_id :: rest)) =
          CallSystem.stateAfter (ledgerCall capacity)
            { ledger with
              live := ledger.live.filter fun entry =>
                entry.order.order_id ≠ order_id }
            (cancelCalls rest) := by
        rw [← ledgerCall_cancel capacity]
        rfl
      rw [hstep]
      constructor
      · exact (ih _).1
      · intro entry hentry
        obtain ⟨hkept, hother⟩ := (ih _).2 entry hentry
        obtain ⟨hold, hne⟩ := List.mem_filter.mp hkept
        refine ⟨hold, ?_⟩
        rw [List.mem_cons, not_or]
        exact ⟨by simpa using hne, hother⟩

/-! ## Abandoned orders -/

theorem abandoned_subset_call (c : Call Addr Price) :
    ledger.abandoned ⊆ (ledgerCall capacity ledger c).1.abandoned := by
  cases c with
  | insert ptr order =>
      unfold ledgerCall
      dsimp only
      split
      · exact List.Subset.refl _
      · exact List.subset_append_right _ _
  | update order_id new_quantity => exact List.Subset.refl _
  | cancel order_id => exact List.Subset.refl _

theorem abandoned_subset_run (calls : List (Call Addr Price)) :
    ledger.abandoned ⊆
      (CallSystem.stateAfter (ledgerCall capacity) ledger
        calls).abandoned := by
  induction calls generalizing ledger with
  | nil => exact List.Subset.refl _
  | cons c rest ih =>
      exact List.Subset.trans (abandoned_subset_call c) ih

theorem newId_insert_iff (ptr : Addr) (order : Order Price) :
    NewId ledger (.insert ptr order) ↔
      ¬ IsLive ledger.live order.order_id := by
  constructor
  · exact fun hnew => hnew ptr order rfl
  · rintro hdead _ _ ⟨⟩
    exact hdead

instance (ledger : Ledger Addr Price) : DecidablePred (NewId ledger)
  | .insert ptr order => decidable_of_iff _ (newId_insert_iff ptr order).symm
  | .update _ _ => .isTrue nofun
  | .cancel _ => .isTrue nofun

/-- Once something is abandoned it stays so. -/
theorem abandoned_eq_nil_iff (hstart : ledger.abandoned = [])
    (calls : List (Call Addr Price)) :
    (CallSystem.stateAfter (ledgerCall capacity) ledger calls).abandoned = [] ↔
      CallSystem.AllAllowed (ledgerCall capacity) NewId ledger calls := by
  constructor
  · intro hend
    induction calls generalizing ledger with
    | nil => trivial
    | cons c rest ih =>
        have hnext : (ledgerCall capacity ledger c).1.abandoned = [] :=
          List.subset_nil.mp (hend ▸ abandoned_subset_run rest)
        refine ⟨?_, ih hnext hend⟩
        rintro ptr order rfl hlive
        have haccept : ¬ (¬ IsLive ledger.live order.order_id ∧
            ledger.live.length = capacity) := fun hfull => hfull.1 hlive
        rw [ledgerCall, if_neg haccept] at hnext
        obtain ⟨entry, hentry, heq⟩ := hlive
        have hmem : entry ∈ (ledger.accept ⟨ptr, order⟩).abandoned := by
          apply List.mem_append_left
          exact List.mem_filter.mpr ⟨hentry, decide_eq_true heq⟩
        rw [hnext] at hmem
        exact List.not_mem_nil hmem
  · exact abandoned_eq_nil capacity hstart

/-! ## The levels of a drained book -/

variable {book : OrderBook initBuckets MaxPriceLevels Addr}

theorem SidesWrap.levelsEmpty_iff
    (hsides : SidesWrap priceToIndex book ledger) (hlive : ledger.live = []) :
    LevelsEmpty book ↔ ∀ (side : Bool) (i : Fin MaxPriceLevels),
      (2 ^ 32 : ℤ) ∣ levelTotal priceToIndex side ledger.abandoned i.val := by
  have hlevel (side : Bool) (i : Fin MaxPriceLevels) :
      book.levels side i = 0 ↔
        (2 ^ 32 : ℤ) ∣ levelTotal priceToIndex side ledger.abandoned i.val := by
    have hcounted : ledger.counted = ledger.abandoned := by
      rw [Ledger.counted, hlive, List.nil_append]
    rw [hsides.levels side i, hcounted, ofInt_eq_zero_iff]
  constructor
  · intro hempty side i
    rw [← hlevel]
    cases side with
    | true => exact (hempty i).1
    | false => exact (hempty i).2
  · intro hdvd i
    exact ⟨(hlevel true i).mpr (hdvd true i),
      (hlevel false i).mpr (hdvd false i)⟩

/-- Sums that stay in range show every abandoned order. -/
theorem CountedOk.abandoned_iff
    (hcounted : CountedOk priceToIndex MaxPriceLevels ledger) :
    (∀ (side : Bool) (i : Fin MaxPriceLevels),
      (2 ^ 32 : ℤ) ∣ levelTotal priceToIndex side ledger.abandoned i.val) ↔
      ledger.abandoned = [] := by
  constructor
  · intro hdvd
    rw [List.eq_nil_iff_forall_not_mem]
    intro entry hentry
    have hmem : entry ∈ ledger.counted := List.mem_append_right _ hentry
    obtain ⟨hlow, hhigh⟩ := hcounted.range entry hmem
    obtain ⟨idx, hidx⟩ := exists_index hlow hhigh
    have hpos : 0 < levelTotal priceToIndex entry.order.is_buy
        ledger.abandoned (priceToIndex entry.order.price) := by
      apply levelTotal_pos _ hentry
      intro other hother
      exact hcounted.positive other (List.mem_append_right _ hother)
    have hnonneg := levelTotal_nonneg priceToIndex
      (fun other hother =>
        hcounted.positive other (List.mem_append_left _ hother))
      entry.order.is_buy (priceToIndex entry.order.price)
    have hbound := hcounted.bounded entry.order.is_buy idx
    have hle := hdvd entry.order.is_buy idx
    rw [hidx] at hbound hle
    have hmost := Int.le_of_dvd hpos hle
    rw [Ledger.counted, levelTotal_append] at hbound
    omega
  · intro hnil side i
    rw [hnil]
    exact dvd_zero _

/-! ## Whole runs -/

theorem keepsOrders_cancelCalls (ledger : Ledger Addr Price)
    (order_ids : List UInt64) :
    CallSystem.AllAllowed (ledgerCall capacity)
      (KeepsOrders priceToIndex MaxPriceLevels) ledger
      (cancelCalls order_ids) := by
  induction order_ids generalizing ledger with
  | nil => trivial
  | cons order_id rest ih => exact ⟨trivial, ih _⟩

section Refinement

variable [NeZero initBuckets] {hash : UInt64 → ℕ}
  {world : World initBuckets MaxPriceLevels Addr Price}

theorem IndexRefines.storesId_iff {live : List (LiveOrder Addr Price)}
    (hrefines : IndexRefines hash world live) (order_id : UInt64) :
    StoresId hash world.book order_id ↔ IsLive live order_id := by
  obtain ⟨chain, content, hrep, hindex⟩ := hrefines.index
  rw [storesId_iff_mem hrep, hindex.mem_iff]

variable [DecidableEq Addr]

/-- Cancelling every id that the book stores leaves the abandoned orders. -/
theorem LedgerRefines.drain
    (hrefines : LedgerRefines hash priceToIndex world ledger)
    {order_ids : List UInt64}
    (hall : ∀ order_id, StoresId hash world.book order_id →
      order_id ∈ order_ids) :
    ∃ drained : Ledger Addr Price, drained.live = [] ∧
      drained.abandoned = ledger.abandoned ∧
      LedgerRefines hash priceToIndex
        (CallSystem.stateAfter (call hash priceToIndex) world
          (cancelCalls order_ids)) drained := by
  have hfinal : LedgerRefines hash priceToIndex
      (CallSystem.stateAfter (call hash priceToIndex) world
        (cancelCalls order_ids))
      (CallSystem.stateAfter (ledgerCall (16 * initBuckets)) ledger
        (cancelCalls order_ids)) := by
    refine (CallSystem.simulation_of_abstract
      (KeepsOrders priceToIndex MaxPriceLevels)
      (fun world ledger => LedgerRefines hash priceToIndex world ledger)
      ?_ hrefines (keepsOrders_cancelCalls ledger order_ids)).2
    intro world ledger c hrefines hallowed
    exact call_ledgerRefines hrefines hallowed
  obtain ⟨habandoned, hlive⟩ :=
    cancelCalls_ledger (16 * initBuckets) ledger order_ids
  refine ⟨_, ?_, habandoned, hfinal⟩
  rw [List.eq_nil_iff_forall_not_mem]
  intro entry hentry
  obtain ⟨hold, hother⟩ := hlive entry hentry
  apply hother
  apply hall
  rw [hrefines.index.storesId_iff]
  exact ⟨entry, hold, rfl⟩

end Refinement

/-- After every run and a cancel of each id that the book still stores, the
levels are empty exactly when the abandoned orders of each level add up to 0 in
machine arithmetic.  If no sum overflows in the run, this is so exactly when no
order was inserted under the id of a live one. -/
theorem cancelAll_empties_iff [DecidableEq Addr] (hash : UInt64 → ℕ)
    (priceToIndex : Price → ℤ) (exponent MaxPriceLevels : ℕ)
    (orders : Addr → Order Price) (calls : List (Call Addr Price))
    (order_ids : List UInt64)
    (hkeeps : CallSystem.AllAllowed (ledgerCall (16 * 2 ^ exponent))
      (KeepsOrders priceToIndex MaxPriceLevels) (Ledger.empty Addr Price)
      calls) :
    let world := CallSystem.stateAfter (call hash priceToIndex)
      (⟨fresh (2 ^ exponent) MaxPriceLevels Addr, orders⟩ :
        World (2 ^ exponent) MaxPriceLevels Addr Price) calls
    let ledger := CallSystem.stateAfter (ledgerCall (16 * 2 ^ exponent))
      (Ledger.empty Addr Price) calls
    let drained := CallSystem.stateAfter (call hash priceToIndex) world
      (cancelCalls order_ids)
    (∀ order_id, StoresId hash world.book order_id →
        order_id ∈ order_ids) →
      (∀ order_id, ¬ StoresId hash drained.book order_id) ∧
        (LevelsEmpty drained.book ↔
          ∀ (side : Bool) (i : Fin MaxPriceLevels), (2 ^ 32 : ℤ) ∣
            levelTotal priceToIndex side ledger.abandoned i.val) ∧
        (CallSystem.AllAllowed (ledgerCall (16 * 2 ^ exponent))
            (SumsFit priceToIndex (16 * 2 ^ exponent) MaxPriceLevels)
            (Ledger.empty Addr Price) calls →
          (LevelsEmpty drained.book ↔
            CallSystem.AllAllowed (ledgerCall (16 * 2 ^ exponent)) NewId
              (Ledger.empty Addr Price) calls)) := by
  intro world ledger drained hall
  have hrefines := (run_ledgerRefines hash exponent orders hkeeps).2
  obtain ⟨rest, hlive, habandoned, hdrained⟩ := hrefines.drain hall
  have hempty := hdrained.sides.levelsEmpty_iff hlive
  rw [habandoned] at hempty
  refine ⟨?_, hempty, ?_⟩
  · intro order_id
    rw [hdrained.index.storesId_iff, hlive]
    rintro ⟨entry, hentry, -⟩
    exact List.not_mem_nil hentry
  · intro hfits
    have hcounted := run_countedRefines hash exponent orders hkeeps hfits
    rw [hempty, hcounted.counted.abandoned_iff]
    exact abandoned_eq_nil_iff rfl calls

/-- Two orders at one level, one at the other side, all of them cancelled. -/
theorem cancelAll_empties_three :
    let world := CallSystem.stateAfter (call (fun id => id.toNat) id)
      (⟨fresh 1 4 ℕ, fun _ => ⟨0, 0, 0, false⟩⟩ : World 1 4 ℕ ℤ)
      [.insert 0 ⟨1, 2, 5, true⟩, .insert 1 ⟨2, 2, 3, true⟩,
        .insert 2 ⟨3, 3, 7, false⟩, .update 1 9]
    LevelsEmpty (CallSystem.stateAfter (call (fun id => id.toNat) id) world
      (cancelCalls [3, 1, 2])).book := by
  have hkeeps : CallSystem.AllAllowed (ledgerCall 16) (KeepsOrders id 4)
      (Ledger.empty ℕ ℤ)
      [.insert 0 ⟨1, 2, 5, true⟩, .insert 1 ⟨2, 2, 3, true⟩,
        .insert 2 ⟨3, 3, 7, false⟩, .update 1 9] := by
    decide
  have hrefines := (run_ledgerRefines (fun id => id.toNat) 0
    (fun _ : ℕ => ⟨0, 0, 0, false⟩) hkeeps).2
  have hdrain := cancelAll_empties_iff (fun id => id.toNat) id 0 4
    (fun _ : ℕ => ⟨0, 0, 0, false⟩) _ [3, 1, 2] hkeeps
  apply ((hdrain _).2.2 (by decide)).mpr (by decide)
  intro order_id hstores
  obtain ⟨entry, hentry, rfl⟩ := (hrefines.index.storesId_iff _).mp hstores
  clear hstores
  revert entry
  decide

/-- Id 1 is inserted a second time, from another `Order`.  The cancel reaches
the second order only, and the level keeps the quantity of the first. -/
theorem cancelAll_leaves_abandoned :
    let world := CallSystem.stateAfter (call (fun id => id.toNat) id)
      (⟨fresh 1 4 ℕ, fun _ => ⟨0, 0, 0, false⟩⟩ : World 1 4 ℕ ℤ)
      [.insert 0 ⟨1, 2, 5, true⟩, .insert 1 ⟨1, 2, 3, true⟩]
    let cancelled := call (fun id => id.toNat) id world (.cancel 1)
    cancelled.2 = .done ∧
      (call (fun id => id.toNat) id cancelled.1 (.cancel 1)).2 =
        .threw "Order not found" ∧
      cancelled.1.book.bidLevels_ 2 = 5 ∧
      ¬ LevelsEmpty cancelled.1.book := by
  intro world cancelled
  decide

end HftOrderBook
end TradingStudies
