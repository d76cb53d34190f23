import TradingStudies.MatchingEngine

/-!
# Quantities in the matching engine

A trade consumes a whole resting order and the whole incoming one, whatever
their quantities, and records both.  An order that rests at a price where its
side already holds one is dropped by `emplace`.  Quantity is therefore
conserved as long as the two orders of every trade have one quantity and no
order rests at an occupied price, and only so long: what is lost once never
comes back at that step.
-/

namespace TradingStudies
namespace MatchingEngine

open OrderBook

/-- A book and the orders submitted to it. -/
structure Ledger where
  book : OrderBook
  submitted : List Order

def Ledger.empty : Ledger := ⟨OrderBook.empty, []⟩

def Ledger.call (ledger : Ledger) (order : Order) : Ledger × List String :=
  let (book, trades) := ledger.book.call order
  (⟨book, ledger.submitted ++ [order]⟩, trades)

def submittedQuantity (orders : List Order) (side : Side) : ℤ :=
  ((orders.filter fun order => order.side = side).map Order.quantity).sum

def restingQuantity (book : OrderBook) (side : Side) : ℤ :=
  ((book.resting side).entries.map Prod.snd).sum

def recordedQuantity (book : OrderBook) (side : Side) : ℤ :=
  ((book.done_trades.filter fun trade => trade.side = side).map
    Trade.quantity).sum

/-- On each side everything submitted rests or is recorded, and as much is
recorded bought as sold. -/
def Conserves (ledger : Ledger) : Prop :=
  (∀ side, submittedQuantity ledger.submitted side =
    restingQuantity ledger.book side + recordedQuantity ledger.book side) ∧
  recordedQuantity ledger.book .buy = recordedQuantity ledger.book .sell

/-- An order meets one of its own quantity, or rests at a price its side does
not hold yet. -/
def Balanced (ledger : Ledger) (order : Order) : Prop :=
  match ledger.book.meets order with
  | some (_, quantity) => quantity = order.quantity
  | none => ¬ (ledger.book.resting order.side).HasKey (-order.price)

instance (ledger : Ledger) (order : Order) :
    Decidable (Balanced ledger order) :=
  match hmeets : ledger.book.meets order with
  | some (_, quantity) =>
      decidable_of_iff (quantity = order.quantity) (by simp [Balanced, hmeets])
  | none =>
      decidable_of_iff
        (¬ (ledger.book.resting order.side).HasKey (-order.price))
        (by simp [Balanced, hmeets])

variable {book : OrderBook} {order : Order} {price quantity : ℤ}

theorem submittedQuantity_append (orders : List Order) (order : Order)
    (side : Side) :
    submittedQuantity (orders ++ [order]) side =
      submittedQuantity orders side +
        if order.side = side then order.quantity else 0 := by
  unfold submittedQuantity
  rw [List.filter_append, List.map_append, List.sum_append]
  by_cases hside : order.side = side
  · simp [hside]
  · simp [hside]

theorem meets_first? (hmeets : book.meets order = some (price, quantity)) :
    ∃ key, (book.resting order.side.other).first? = some (key, quantity) := by
  rcases order with ⟨side, limit, amount⟩
  cases side with
  | buy =>
      have hfirst := (Option.filter_eq_some_iff.mp hmeets).1
      exact ⟨price, hfirst⟩
  | sell =>
      have hfirst := (Option.filter_eq_some_iff.mp hmeets).1
      rcases Option.map_eq_some_iff.mp hfirst with ⟨entry, hentry, hprice⟩
      cases hprice
      exact ⟨entry.1, hentry⟩

/-! ## A trade -/

theorem recordedQuantity_trade (side : Side) :
    recordedQuantity (book.trade order price quantity) side =
      recordedQuantity book side +
        if order.side = side then order.quantity else quantity := by
  have htrades : (book.trade order price quantity).done_trades =
      book.done_trades ++ [⟨order.side, order.quantity, price⟩,
        ⟨order.side.other, quantity, price⟩] := by
    unfold trade
    cases order.side with
    | buy => rfl
    | sell => rfl
  unfold recordedQuantity
  rw [htrades, List.filter_append, List.map_append, List.sum_append]
  rcases order with ⟨own, limit, amount⟩
  cases own with
  | buy =>
      cases side with
      | buy => simp [Side.other]
      | sell => simp [Side.other]
  | sell =>
      cases side with
      | buy => simp [Side.other]
      | sell => simp [Side.other]

theorem restingQuantity_trade
    (hmeets : book.meets order = some (price, quantity)) (side : Side) :
    restingQuantity (book.trade order price quantity) side =
      restingQuantity book side -
        if order.side = side then 0 else quantity := by
  rcases meets_first? hmeets with ⟨key, hfirst⟩
  have hentries := OrderedMap.entries_of_first? hfirst
  have hsum : restingQuantity book order.side.other =
      quantity +
        ((book.resting order.side.other).eraseFirst.entries.map
          Prod.snd).sum := by
    unfold restingQuantity
    rw [hentries, List.map_cons, List.sum_cons]
  rcases order with ⟨own, limit, amount⟩
  cases own with
  | buy =>
      cases side with
      | buy =>
          rw [if_pos rfl, sub_zero]
          rfl
      | sell =>
          have hsell : restingQuantity book .sell = quantity +
              restingQuantity (book.trade ⟨.buy, limit, amount⟩ price
                quantity) .sell := hsum
          rw [if_neg (by simp)]
          omega
  | sell =>
      cases side with
      | buy =>
          have hbuy : restingQuantity book .buy = quantity +
              restingQuantity (book.trade ⟨.sell, limit, amount⟩ price
                quantity) .buy := hsum
          rw [if_neg (by simp)]
          omega
      | sell =>
          rw [if_pos rfl, sub_zero]
          rfl

/-! ## Resting -/

theorem recordedQuantity_rest (side : Side) :
    recordedQuantity (book.rest order) side = recordedQuantity book side := by
  rcases order with ⟨own, limit, amount⟩
  cases own with
  | buy => rfl
  | sell => rfl

theorem sum_emplace (map : OrderedMap ℤ ℤ) (key value : ℤ) :
    ((map.emplace key value).entries.map Prod.snd).sum =
      (map.entries.map Prod.snd).sum +
        if map.HasKey key then 0 else value := by
  by_cases hkey : map.HasKey key
  · rw [OrderedMap.emplace_of_hasKey hkey, if_pos hkey, add_zero]
  · have hperm : (map.emplace key value).entries.Perm
        ((key, value) :: map.entries) :=
      OrderedMap.emplace_perm_of_not_hasKey hkey
    rw [(hperm.map Prod.snd).sum_eq, if_neg hkey, List.map_cons,
      List.sum_cons, add_comm]

theorem restingQuantity_rest (side : Side) :
    restingQuantity (book.rest order) side =
      restingQuantity book side +
        if order.side = side ∧
            ¬ (book.resting order.side).HasKey (-order.price)
          then order.quantity else 0 := by
  rcases order with ⟨own, limit, amount⟩
  have hsum := sum_emplace (book.resting own) (-limit) amount
  cases own with
  | buy =>
      cases side with
      | buy =>
          refine hsum.trans ?_
          by_cases hkey : (book.resting .buy).HasKey (-limit)
          · simp [hkey, restingQuantity]
          · simp [hkey, restingQuantity]
      | sell =>
          rw [if_neg (by simp), add_zero]
          rfl
  | sell =>
      cases side with
      | buy =>
          rw [if_neg (by simp), add_zero]
          rfl
      | sell =>
          refine hsum.trans ?_
          by_cases hkey : (book.resting .sell).HasKey (-limit)
          · simp [hkey, restingQuantity]
          · simp [hkey, restingQuantity]

/-! ## Conservation -/

variable {ledger : Ledger}

theorem conserves_iff_of_trade (hconserves : Conserves ledger)
    (hmeets : ledger.book.meets order = some (price, quantity)) :
    Conserves (ledger.call order).1 ↔ quantity = order.quantity := by
  have hbook : (ledger.call order).1.book =
      ledger.book.trade order price quantity := submit_of_meets_some hmeets
  have hsides : ∀ side,
      submittedQuantity (ledger.submitted ++ [order]) side =
        restingQuantity (ledger.book.trade order price quantity) side +
          recordedQuantity (ledger.book.trade order price quantity) side := by
    intro side
    rw [submittedQuantity_append, restingQuantity_trade hmeets,
      recordedQuantity_trade, hconserves.1 side]
    by_cases hside : order.side = side
    · simp only [hside, if_true]
      ring
    · simp only [hside, if_false]
      ring
  have hequal := hconserves.2
  unfold Conserves
  rw [hbook, recordedQuantity_trade, recordedQuantity_trade]
  constructor
  · intro hnext
    have hrecorded := hnext.2
    cases hside : order.side with
    | buy =>
        simp only [hside, if_true, reduceCtorEq, if_false] at hrecorded
        omega
    | sell =>
        simp only [hside, if_true, reduceCtorEq, if_false] at hrecorded
        omega
  · intro hquantity
    refine ⟨hsides, ?_⟩
    rw [hquantity, hequal]
    simp

theorem conserves_iff_of_rest (hconserves : Conserves ledger)
    (hpositive : order.Positive)
    (hmeets : ledger.book.meets order = none) :
    Conserves (ledger.call order).1 ↔
      ¬ (ledger.book.resting order.side).HasKey (-order.price) := by
  have hbook : (ledger.call order).1.book = ledger.book.rest order :=
    submit_of_meets_none hmeets
  have hsubmitted : (ledger.call order).1.submitted =
      ledger.submitted ++ [order] := rfl
  unfold Conserves
  rw [hbook, hsubmitted]
  simp only [submittedQuantity_append, restingQuantity_rest,
    recordedQuantity_rest]
  constructor
  · intro hnext hkey
    have hown := hnext.1 order.side
    have hbefore := hconserves.1 order.side
    have hquantity := hpositive.2
    simp only [if_true, hkey, not_true_eq_false, and_false, if_false] at hown
    omega
  · intro hkey
    refine ⟨?_, hconserves.2⟩
    intro side
    rw [hconserves.1 side]
    by_cases hside : order.side = side
    · subst side
      simp only [hkey, if_true, not_false_eq_true, and_self]
      ring
    · simp only [hside, if_false, false_and]
      ring

theorem conserves_iff_balanced (hconserves : Conserves ledger)
    (hpositive : order.Positive) :
    Conserves (ledger.call order).1 ↔ Balanced ledger order := by
  unfold Balanced
  cases hmeets : ledger.book.meets order with
  | some met => exact conserves_iff_of_trade hconserves hmeets
  | none => exact conserves_iff_of_rest hconserves hpositive hmeets

theorem empty_conserves : Conserves Ledger.empty := by
  constructor
  · intro side
    cases side with
    | buy => rfl
    | sell => rfl
  · rfl

/-- Quantity is conserved after every order of a run if and only if every order
is balanced in the book it meets. -/
theorem matchingEngine_conserves_iff {orders : List Order}
    (hpositive : ∀ order ∈ orders, order.Positive) :
    CallSystem.AllAllowed Ledger.call
        (fun ledger order => Conserves (ledger.call order).1)
        Ledger.empty orders ↔
      CallSystem.AllAllowed Ledger.call Balanced Ledger.empty orders := by
  apply CallSystem.allAllowed_congr Conserves ?_ ?_ empty_conserves
    (CallSystem.allAllowed_of_forall hpositive)
  · intro ledger order hconserves hpos hbalanced
    exact (conserves_iff_balanced hconserves hpos).mpr hbalanced
  · intro ledger order hconserves hpos
    exact conserves_iff_balanced hconserves hpos

/-- Two buys at different prices, and a sell of the size of the better one. -/
theorem matchingEngine_conserves_equal_sizes :
    CallSystem.AllAllowed Ledger.call
      (fun ledger order => Conserves (ledger.call order).1) Ledger.empty
      [⟨.buy, 50, 100⟩, ⟨.buy, 51, 70⟩, ⟨.sell, 49, 70⟩] :=
  (matchingEngine_conserves_iff (by decide)).mpr (by decide)

/-- A sell of 30 takes a whole buy of 100, and a second buy at one price
disappears. -/
theorem matchingEngine_loses_quantity :
    ¬ Conserves (CallSystem.stateAfter Ledger.call Ledger.empty
        [⟨.buy, 50, 100⟩, ⟨.sell, 49, 30⟩]) ∧
      ¬ Conserves (CallSystem.stateAfter Ledger.call Ledger.empty
        [⟨.buy, 50, 100⟩, ⟨.buy, 50, 70⟩]) := by
  constructor
  · intro hconserves
    exact absurd hconserves.2 (by decide)
  · intro hconserves
    exact absurd (hconserves.1 .buy) (by decide)

end MatchingEngine
end TradingStudies
