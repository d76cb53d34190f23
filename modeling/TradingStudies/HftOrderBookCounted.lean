import TradingStudies.HftOrderBookLedger

/-!
# Level sums that stay in range

While quantities are positive and no level sum leaves the range of an `int`,
the levels are the exact sums over the counted orders, and a cached index leads
to the best level that holds any of them, be it live or abandoned.
-/

namespace TradingStudies
namespace HftOrderBook

variable {initBuckets MaxPriceLevels : ℕ} {Addr Price : Type*}

section Promise

variable (priceToIndex : Price → ℤ)

/-- The quantity of the call is positive and no sum overflows. -/
def SumsFit (capacity MaxPriceLevels : ℕ) (ledger : Ledger Addr Price)
    (c : Call Addr Price) : Prop :=
  (match c with
    | .insert _ order => 0 < order.quantity
    | .update _ new_quantity => 0 < new_quantity
    | .cancel _ => True) ∧
  ∀ side : Bool, ∀ i : Fin MaxPriceLevels,
    levelTotal priceToIndex side (ledgerCall capacity ledger c).1.counted
      i.val < 2 ^ 31

instance (capacity MaxPriceLevels : ℕ) (ledger : Ledger Addr Price) :
    ∀ c, Decidable (SumsFit priceToIndex capacity MaxPriceLevels ledger c)
  | .insert _ order =>
      inferInstanceAs (Decidable (0 < order.quantity ∧ _))
  | .update _ new_quantity =>
      inferInstanceAs (Decidable (0 < new_quantity ∧ _))
  | .cancel _ => inferInstanceAs (Decidable (True ∧ _))

end Promise

structure CountedOk (priceToIndex : Price → ℤ) (MaxPriceLevels : ℕ)
    (ledger : Ledger Addr Price) : Prop where
  positive : ∀ entry ∈ ledger.counted, 0 < entry.order.quantity.toInt
  range : ∀ entry ∈ ledger.counted, 0 ≤ priceToIndex entry.order.price ∧
    priceToIndex entry.order.price < MaxPriceLevels
  bounded : ∀ side : Bool, ∀ i : Fin MaxPriceLevels,
    levelTotal priceToIndex side ledger.counted i.val < 2 ^ 31

variable {priceToIndex : Price → ℤ} {ledger : Ledger Addr Price}
  {capacity : ℕ}

theorem CountedOk.fit (hcounted : CountedOk priceToIndex MaxPriceLevels ledger)
    (side : Bool) :
    TotalsFit MaxPriceLevels (levelTotal priceToIndex side ledger.counted) :=
  levelTotal_fit hcounted.positive hcounted.range side (hcounted.bounded side)

theorem empty_countedOk :
    CountedOk priceToIndex MaxPriceLevels (Ledger.empty Addr Price) where
  positive := fun entry hentry => absurd hentry List.not_mem_nil
  range := fun entry hentry => absurd hentry List.not_mem_nil
  bounded := by simp [Ledger.empty, Ledger.counted, levelTotal]

/-- A counted order was counted before, but for its quantity, or is the order
just inserted. -/
theorem mem_counted_call {c : Call Addr Price} {entry : LiveOrder Addr Price}
    (hentry : entry ∈ (ledgerCall capacity ledger c).1.counted) :
    (∃ ptr order, c = .insert ptr order ∧ entry = ⟨ptr, order⟩) ∨
    ∃ old ∈ ledger.counted, entry = old ∨
      ∃ order_id new_quantity, c = .update order_id new_quantity ∧
        entry = setQuantity order_id new_quantity old := by
  cases c with
  | insert ptr order =>
      by_cases hfull : ¬ IsLive ledger.live order.order_id ∧
          ledger.live.length = capacity
      · rw [ledgerCall, if_pos hfull] at hentry
        exact Or.inr ⟨entry, hentry, Or.inl rfl⟩
      · rw [ledgerCall, if_neg hfull] at hentry
        have hmem := (ledger.counted_accept ⟨ptr, order⟩).mem_iff.mp hentry
        rcases List.mem_cons.mp hmem with heq | hmem
        · exact Or.inl ⟨ptr, order, rfl, heq⟩
        · exact Or.inr ⟨entry, hmem, Or.inl rfl⟩
  | update order_id new_quantity =>
      by_cases hlive : IsLive ledger.live order_id
      · simp only [ledgerCall, abstractCall, if_pos hlive] at hentry
        rcases List.mem_append.mp hentry with hmem | hmem
        · obtain ⟨old, hold, rfl⟩ := List.mem_map.mp hmem
          exact Or.inr ⟨old, List.mem_append_left _ hold,
            Or.inr ⟨_, _, rfl, rfl⟩⟩
        · exact Or.inr ⟨entry, List.mem_append_right _ hmem, Or.inl rfl⟩
      · simp only [ledgerCall, abstractCall, if_neg hlive] at hentry
        exact Or.inr ⟨entry, hentry, Or.inl rfl⟩
  | cancel order_id =>
      by_cases hlive : IsLive ledger.live order_id
      · simp only [ledgerCall, abstractCall, if_pos hlive] at hentry
        rcases List.mem_append.mp hentry with hmem | hmem
        · have hold := (List.mem_filter.mp hmem).1
          exact Or.inr ⟨entry, List.mem_append_left _ hold, Or.inl rfl⟩
        · exact Or.inr ⟨entry, List.mem_append_right _ hmem, Or.inl rfl⟩
      · simp only [ledgerCall, abstractCall, if_neg hlive] at hentry
        exact Or.inr ⟨entry, hentry, Or.inl rfl⟩

theorem call_countedOk
    (hcounted : CountedOk priceToIndex MaxPriceLevels ledger)
    {c : Call Addr Price}
    (hkeeps : KeepsOrders priceToIndex MaxPriceLevels ledger c)
    (hfits : SumsFit priceToIndex capacity MaxPriceLevels ledger c) :
    CountedOk priceToIndex MaxPriceLevels (ledgerCall capacity ledger c).1 := by
  obtain ⟨hquantity, hbounded⟩ := hfits
  constructor
  · intro entry hentry
    obtain ⟨ptr, order, rfl, rfl⟩ | ⟨old, hold, hsame⟩ :=
      mem_counted_call hentry
    · exact toInt_pos hquantity
    · have hpositive := hcounted.positive old hold
      obtain rfl | ⟨order_id, new_quantity, rfl, rfl⟩ := hsame
      · exact hpositive
      · unfold setQuantity
        split
        · exact toInt_pos hquantity
        · exact hpositive
  · intro entry hentry
    obtain ⟨ptr, order, rfl, rfl⟩ | ⟨old, hold, hsame⟩ :=
      mem_counted_call hentry
    · exact hkeeps.2
    · have hrange := hcounted.range old hold
      obtain rfl | ⟨order_id, new_quantity, -, rfl⟩ := hsame
      · exact hrange
      · rw [setQuantity_price]
        exact hrange
  · exact hbounded

/-! ## The sides -/

theorem SidesHold.congr
    {book : OrderBook initBuckets MaxPriceLevels Addr}
    {live live' : List (LiveOrder Addr Price)}
    (hsides : SidesHold priceToIndex book live)
    (hsame : ∀ side, levelTotal priceToIndex side live' =
      levelTotal priceToIndex side live) :
    SidesHold priceToIndex book live' := by
  constructor
  · rw [hsame]
    exact hsides.bids
  · rw [hsame]
    exact hsides.asks
  · rw [hsame]
    exact hsides.bidBest
  · rw [hsame]
    exact hsides.askBest

section Refinement

variable [NeZero initBuckets] {hash : UInt64 → ℕ}

structure CountedRefines (hash : UInt64 → ℕ) (priceToIndex : Price → ℤ)
    (world : World initBuckets MaxPriceLevels Addr Price)
    (ledger : Ledger Addr Price) : Prop where
  refines : LedgerRefines hash priceToIndex world ledger
  counted : CountedOk priceToIndex MaxPriceLevels ledger
  sides : SidesHold priceToIndex world.book ledger.counted

variable {world : World initBuckets MaxPriceLevels Addr Price}

theorem fresh_countedRefines (orders : Addr → Order Price) :
    CountedRefines hash priceToIndex
      (⟨fresh initBuckets MaxPriceLevels Addr, orders⟩ :
        World initBuckets MaxPriceLevels Addr Price)
      (Ledger.empty Addr Price) where
  refines := fresh_ledgerRefines orders
  counted := empty_countedOk
  sides := fresh_sidesHold

variable [DecidableEq Addr]

theorem insert_sidesHold
    (hrefines : CountedRefines hash priceToIndex world ledger)
    {ptr : Addr} {order : Order Price}
    (hkeeps : KeepsOrders priceToIndex MaxPriceLevels ledger
      (.insert ptr order))
    (hquantity : 0 < order.quantity)
    (hnext : CountedOk priceToIndex MaxPriceLevels
      (ledgerCall (16 * initBuckets) ledger (.insert ptr order)).1) :
    SidesHold priceToIndex
      (call hash priceToIndex world (.insert ptr order)).1.book
      (ledgerCall (16 * initBuckets) ledger (.insert ptr order)).1.counted
      := by
  obtain ⟨hptr, hlow, hhigh⟩ := hkeeps
  have hindex := hrefines.refines.index
  by_cases hfull : ¬ IsLive ledger.live order.order_id ∧
      ledger.live.length = 16 * initBuckets
  · have hcall := insert_of_full priceToIndex hindex ptr hfull.1 hfull.2
    rw [hcall, ledgerCall, if_pos hfull]
    exact hrefines.sides
  · rw [ledgerCall, if_neg hfull] at hnext ⊢
    have hsame : ∀ side,
        levelTotal priceToIndex side (ledger.accept ⟨ptr, order⟩).counted =
          levelTotal priceToIndex side (⟨ptr, order⟩ :: ledger.counted) := by
      intro side
      funext i
      exact levelTotal_perm (ledger.counted_accept _) side i
    have hspec := insert_spec hindex hrefines.sides hrefines.counted.fit
      (fun side => hsame side ▸ hnext.fit side) hptr
      (hindex.room_of_not_full hfull) hlow hhigh hquantity
    exact hspec.2.2.congr hsame

theorem update_sidesHold
    (hrefines : CountedRefines hash priceToIndex world ledger)
    {entry : LiveOrder Addr Price} (hentry : entry ∈ ledger.live)
    {new_quantity : Int32} (hquantity : 0 < new_quantity)
    {next : Ledger Addr Price}
    (hledger : next = { ledger with
      live := ledger.live.map
        (setQuantity entry.order.order_id new_quantity) })
    (hnext : CountedOk priceToIndex MaxPriceLevels next) :
    SidesHold priceToIndex
      (call hash priceToIndex world
        (.update entry.order.order_id new_quantity)).1.book next.counted := by
  subst next
  have hindex := hrefines.refines.index
  have hspec := update_spec hindex hrefines.sides hrefines.counted.fit
    hnext.fit hrefines.counted.positive hentry
    (List.mem_append_left _ hentry) hquantity fun side =>
      shifted_counted
        (levelTotal_update hindex.distinct hentry new_quantity side)
  exact hspec.2.2

theorem cancel_sidesHold
    (hrefines : CountedRefines hash priceToIndex world ledger)
    {entry : LiveOrder Addr Price} (hentry : entry ∈ ledger.live)
    {next : Ledger Addr Price}
    (hledger : next = { ledger with
      live := ledger.live.filter fun other =>
        other.order.order_id ≠ entry.order.order_id })
    (hnext : CountedOk priceToIndex MaxPriceLevels next) :
    SidesHold priceToIndex
      (call hash priceToIndex world (.cancel entry.order.order_id)).1.book
      next.counted := by
  subst next
  have hindex := hrefines.refines.index
  have hspec := cancel_spec hindex hrefines.sides hrefines.counted.fit
    hnext.fit hrefines.counted.positive hentry
    (List.mem_append_left _ hentry) fun side =>
      shifted_counted (levelTotal_cancel hindex.distinct hentry side)
  exact hspec.2.2

theorem call_countedRefines
    (hrefines : CountedRefines hash priceToIndex world ledger)
    {c : Call Addr Price}
    (hkeeps : KeepsOrders priceToIndex MaxPriceLevels ledger c)
    (hfits : SumsFit priceToIndex (16 * initBuckets) MaxPriceLevels ledger
      c) :
    (call hash priceToIndex world c).2 =
        (ledgerCall (16 * initBuckets) ledger c).2 ∧
      CountedRefines hash priceToIndex (call hash priceToIndex world c).1
        (ledgerCall (16 * initBuckets) ledger c).1 := by
  obtain ⟨hanswer, hnext⟩ := call_ledgerRefines hrefines.refines hkeeps
  have hcounted := call_countedOk hrefines.counted hkeeps hfits
  refine ⟨hanswer, hnext, hcounted, ?_⟩
  cases c with
  | insert ptr order =>
      exact insert_sidesHold hrefines hkeeps hfits.1 hcounted
  | update order_id new_quantity =>
      by_cases hlive : IsLive ledger.live order_id
      · simp only [ledgerCall, abstractCall, if_pos hlive] at hcounted ⊢
        obtain ⟨entry, hentry, rfl⟩ := hlive
        exact update_sidesHold hrefines hentry hfits.1 rfl hcounted
      · simp only [ledgerCall, abstractCall, if_neg hlive]
        rw [call_of_dead hrefines.refines.index hlive
          (Or.inl ⟨new_quantity, rfl⟩)]
        exact hrefines.sides
  | cancel order_id =>
      by_cases hlive : IsLive ledger.live order_id
      · simp only [ledgerCall, abstractCall, if_pos hlive] at hcounted ⊢
        obtain ⟨entry, hentry, rfl⟩ := hlive
        exact cancel_sidesHold hrefines hentry rfl hcounted
      · simp only [ledgerCall, abstractCall, if_neg hlive]
        rw [call_of_dead hrefines.refines.index hlive (Or.inr rfl)]
        exact hrefines.sides

end Refinement

variable (hash : UInt64 → ℕ) [DecidableEq Addr] in
theorem run_countedRefines (exponent : ℕ) (orders : Addr → Order Price)
    {calls : List (Call Addr Price)}
    (hkeeps : CallSystem.AllAllowed (ledgerCall (16 * 2 ^ exponent))
      (KeepsOrders priceToIndex MaxPriceLevels) (Ledger.empty Addr Price)
      calls)
    (hfits : CallSystem.AllAllowed (ledgerCall (16 * 2 ^ exponent))
      (SumsFit priceToIndex (16 * 2 ^ exponent) MaxPriceLevels)
      (Ledger.empty Addr Price) calls) :
    CountedRefines hash priceToIndex
      (CallSystem.stateAfter (call hash priceToIndex)
        (⟨fresh (2 ^ exponent) MaxPriceLevels Addr, orders⟩ :
          World (2 ^ exponent) MaxPriceLevels Addr Price) calls)
      (CallSystem.stateAfter (ledgerCall (16 * 2 ^ exponent))
        (Ledger.empty Addr Price) calls) := by
  refine (CallSystem.simulation_of_abstract
    (fun ledger c => KeepsOrders priceToIndex MaxPriceLevels ledger c ∧
      SumsFit priceToIndex (16 * 2 ^ exponent) MaxPriceLevels ledger c)
    (fun world ledger => CountedRefines hash priceToIndex world ledger)
    ?_ (fresh_countedRefines orders) (hkeeps.and hfits)).2
  intro world ledger c hrefines hallowed
  exact call_countedRefines hrefines hallowed.1 hallowed.2

end HftOrderBook
end TradingStudies
