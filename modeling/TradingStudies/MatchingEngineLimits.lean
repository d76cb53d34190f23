import TradingStudies.MatchingEngine

/-!
# Limit prices in the matching engine

The keys of both sides are negated limits, so they are all negative.  `addSell`
negates the first buy key and gets the highest resting buy.  `addBuy` uses the
first sell key as it is: a negative price, which every limit permits, and which
belongs to the highest resting sell.  Every buy that finds a sell resting
therefore trades at a price nobody asked for; every other order is handled
as a client expects.
-/

namespace TradingStudies
namespace MatchingEngine

namespace OrderBook

variable {book : OrderBook} {order : Order} {price quantity limit : ℤ}

theorem meets_buy (hside : order.side = .buy) :
    book.meets order =
      book.sell_side.first?.filter fun entry => entry.1 ≤ order.price := by
  unfold meets
  rw [hside]

theorem meets_sell (hside : order.side = .sell) :
    book.meets order =
      (book.buy_side.first?.map fun entry => (-1 * entry.1, entry.2)).filter
        fun entry => entry.1 ≥ order.price := by
  unfold meets
  rw [hside]

/-- The first buy key is the negated highest buy. -/
theorem best_buy_of_first? {key : ℤ}
    (hfirst : book.buy_side.first? = some (key, quantity)) :
    book.Best .buy (-key) := by
  have hleast := OrderedMap.isLeast_first? hfirst
  constructor
  · show book.buy_side.HasKey (- -key)
    rw [neg_neg]
    exact hleast.1
  · intro price hprice
    have hle : key ≤ -price := hleast.2 hprice
    omega

theorem best_buy_unique {best : ℤ} (hbest : book.Best .buy price)
    (hbest' : book.Best .buy best) : price = best :=
  IsGreatest.unique hbest hbest'

theorem not_restsAt_of_first?_none (side : Side)
    (hnone : (book.resting side).first? = none) (price : ℤ) :
    ¬ book.RestsAt side price :=
  OrderedMap.not_hasKey_of_first?_none hnone _

/-- Every key is a negated limit of a positive order. -/
def NegativeKeys (book : OrderBook) : Prop :=
  ∀ side key, (book.resting side).HasKey key → key < 0

/-- Every resting buy is below every resting sell. -/
def Uncrossed (book : OrderBook) : Prop :=
  ∀ buy sell, book.RestsAt .buy buy → book.RestsAt .sell sell → buy < sell

theorem restsAt_rest {side : Side} :
    (book.rest order).RestsAt side price ↔
      (side = order.side ∧ price = order.price) ∨ book.RestsAt side price := by
  rcases order with ⟨own, limit, amount⟩
  cases own with
  | buy =>
      cases side with
      | buy => simp [RestsAt, rest, resting, OrderedMap.hasKey_emplace]
      | sell => simp [RestsAt, rest, resting]
  | sell =>
      cases side with
      | buy => simp [RestsAt, rest, resting]
      | sell => simp [RestsAt, rest, resting, OrderedMap.hasKey_emplace]

theorem resting_trade_other :
    (book.trade order price quantity).resting order.side.other =
      (book.resting order.side.other).eraseFirst := by
  rcases order with ⟨own, _, _⟩
  cases own with
  | buy => rfl
  | sell => rfl

theorem restsAt_of_trade {side : Side}
    (hrests : (book.trade order price quantity).RestsAt side limit) :
    book.RestsAt side limit := by
  rcases order with ⟨own, _, _⟩
  cases own with
  | buy =>
      cases side with
      | buy => exact hrests
      | sell => exact OrderedMap.hasKey_of_hasKey_eraseFirst hrests
  | sell =>
      cases side with
      | buy => exact OrderedMap.hasKey_of_hasKey_eraseFirst hrests
      | sell => exact hrests

theorem restsAt_submit {side : Side}
    (hrests : (book.submit order).RestsAt side limit) :
    (side = order.side ∧ limit = order.price ∧ book.meets order = none) ∨
      book.RestsAt side limit := by
  cases hmeets : book.meets order with
  | none =>
      rw [submit_of_meets_none hmeets] at hrests
      rcases restsAt_rest.mp hrests with ⟨hside, hlimit⟩ | hold
      · exact Or.inl ⟨hside, hlimit, rfl⟩
      · exact Or.inr hold
  | some met =>
      rw [submit_of_meets_some hmeets] at hrests
      exact Or.inr (restsAt_of_trade hrests)

theorem NegativeKeys.submit (hnegative : book.NegativeKeys)
    (hpositive : order.Positive) : (book.submit order).NegativeKeys := by
  intro side key hkey
  have hrests : (book.submit order).RestsAt side (-key) := by
    show OrderedMap.HasKey _ (- -key)
    rw [neg_neg]
    exact hkey
  rcases restsAt_submit hrests with ⟨-, hlimit, -⟩ | hold
  · have hprice := hpositive.1
    omega
  · have hlt := hnegative side _ hold
    rw [neg_neg] at hlt
    exact hlt

theorem Uncrossed.submit (huncrossed : book.Uncrossed)
    (hsells : NoBuyIntoSells book order) :
    (book.submit order).Uncrossed := by
  intro buy sell hbuy hsell
  rcases restsAt_submit hbuy with ⟨hside, -, -⟩ | hbuy
  · -- The buy is new, so no sell rests.
    have hempty := hsells hside.symm
    rcases restsAt_submit hsell with ⟨hside', -, -⟩ | hsell
    · rw [← hside] at hside'
      cases hside'
    · have hnone : (book.resting .sell).first? = none :=
        List.head?_eq_none_iff.mpr hempty
      exact absurd hsell (not_restsAt_of_first?_none .sell hnone sell)
  · rcases restsAt_submit hsell with ⟨hside, hlimit, hmeets⟩ | hsell
    · -- The sell is new and did not meet the highest buy.
      rw [meets_sell hside.symm] at hmeets
      cases hfirst : book.buy_side.first? with
      | none =>
          exact absurd hbuy (not_restsAt_of_first?_none .buy hfirst buy)
      | some entry =>
          have hbest := (best_buy_of_first? hfirst).2 hbuy
          have hnot : ¬ -1 * entry.1 ≥ order.price := by
            simpa [hfirst] using hmeets
          omega
    · exact huncrossed buy sell hbuy hsell

end OrderBook

open OrderBook

variable {book : OrderBook} {order : Order}

/-- A buy that finds a sell resting trades at a negative price. -/
theorem buy_into_sells_breaks (hnegative : book.NegativeKeys)
    (hpositive : order.Positive) (hside : order.side = .buy)
    (hsells : book.sell_side.entries ≠ []) :
    ¬ RespectsLimits book order := by
  intro hrespects
  cases hfirst : book.sell_side.first? with
  | none => exact hsells (List.head?_eq_none_iff.mp hfirst)
  | some entry =>
      rcases entry with ⟨key, quantity⟩
      have hkey : key < 0 :=
        hnegative .sell key (OrderedMap.isLeast_first? hfirst).1
      have hle : key ≤ order.price := by
        have hprice := hpositive.1
        omega
      have hmeets : book.meets order = some (key, quantity) := by
        rw [meets_buy hside, hfirst]
        simp [hle]
      have hbest := hrespects.atBest
        ⟨order.side, order.quantity, key⟩ (by
          rw [newTrades_of_meets_some hmeets]
          exact List.mem_cons_self)
      rw [hside] at hbest
      have hrests : book.RestsAt .sell key := hbest.1
      have hneg := hnegative .sell (-key) hrests
      omega

theorem respectsLimits_of_meets_none (huncrossed : book.Uncrossed)
    (hsells : NoBuyIntoSells book order)
    (hmeets : book.meets order = none)
    (hbest : ¬ ∃ best, book.Best order.side.other best ∧
      order.side.Permits order.price best) :
    RespectsLimits book order where
  trades_iff := by
    rw [newTrades_of_meets_none hmeets]
    exact iff_of_false (fun hne => hne rfl) hbest
  atBest := by
    rw [newTrades_of_meets_none hmeets]
    intro trade htrade
    exact absurd htrade List.not_mem_nil
  between := by
    rw [newTrades_of_meets_none hmeets]
    intro trade htrade
    exact absurd htrade List.not_mem_nil
  uncrossed := by
    intro buy sell hbuy hsell
    exact huncrossed.submit hsells buy sell hbuy.1 hsell.1

/-- A buy on an empty sell side rests, as it should. -/
theorem buy_respects (huncrossed : book.Uncrossed)
    (hside : order.side = .buy) (hsells : book.sell_side.entries = []) :
    RespectsLimits book order := by
  have hfirst : book.sell_side.first? = none :=
    List.head?_eq_none_iff.mpr hsells
  have hmeets : book.meets order = none := by
    rw [meets_buy hside, hfirst]
    rfl
  apply respectsLimits_of_meets_none huncrossed (fun _ => hsells) hmeets
  intro hbest
  rcases hbest with ⟨best, hbest, -⟩
  rw [hside] at hbest
  have hrests : book.RestsAt .sell best := hbest.1
  exact not_restsAt_of_first?_none .sell hfirst best hrests

/-- A sell meets the highest resting buy, or rests above it. -/
theorem sell_respects (huncrossed : book.Uncrossed)
    (hside : order.side = .sell) : RespectsLimits book order := by
  have hsells : NoBuyIntoSells book order := by
    intro hbuy
    rw [hside] at hbuy
    cases hbuy
  cases hfirst : book.buy_side.first? with
  | none =>
      have hmeets : book.meets order = none := by
        rw [meets_sell hside, hfirst]
        rfl
      apply respectsLimits_of_meets_none huncrossed hsells hmeets
      intro hbest
      rcases hbest with ⟨best, hbest, -⟩
      rw [hside] at hbest
      have hrests : book.RestsAt .buy best := hbest.1
      exact not_restsAt_of_first?_none .buy hfirst best hrests
  | some entry =>
      rcases entry with ⟨key, quantity⟩
      have hhighest := best_buy_of_first? hfirst
      by_cases hge : -1 * key ≥ order.price
      · have hmeets : book.meets order = some (-1 * key, quantity) := by
          rw [meets_sell hside, hfirst]
          simp only [Option.map_some, Option.filter_some, hge,
            decide_true, if_true]
        have hprice : ∀ trade ∈ book.newTrades order,
            trade.price = -key := by
          rw [newTrades_of_meets_some hmeets]
          intro trade htrade
          simp only [List.mem_cons, List.not_mem_nil, or_false] at htrade
          rcases htrade with rfl | rfl
          · exact neg_one_mul key
          · exact neg_one_mul key
        rw [neg_one_mul] at hge
        constructor
        · constructor
          · intro _
            rw [hside]
            exact ⟨-key, hhighest, hge⟩
          · intro _
            rw [newTrades_of_meets_some hmeets]
            exact List.cons_ne_nil _ _
        · intro trade htrade
          rw [hprice trade htrade, hside]
          exact hhighest
        · intro trade htrade
          rw [hprice trade htrade, hside]
          refine ⟨hge, ?_⟩
          intro limit hrests herased
          -- Only the first buy has left the book.
          rw [submit_of_meets_some hmeets] at herased
          have hlimit : -limit = key := by
            apply OrderedMap.eq_first_of_erased hfirst hrests
            intro hkept
            apply herased
            unfold RestsAt
            rw [← hside, resting_trade_other, hside]
            exact hkept
          show -key ≤ limit
          omega
        · intro buy sell hbuy hsell
          exact huncrossed.submit hsells buy sell hbuy.1 hsell.1
      · have hmeets : book.meets order = none := by
          rw [meets_sell hside, hfirst]
          simp only [Option.map_some, Option.filter_some, hge,
            decide_false, Bool.false_eq_true, if_false]
        apply respectsLimits_of_meets_none huncrossed hsells hmeets
        intro hbest
        rcases hbest with ⟨best, hbest, hpermits⟩
        rw [hside] at hbest hpermits
        have hbestEq := best_buy_unique hbest hhighest
        have hle : order.price ≤ best := hpermits
        omega

theorem respectsLimits_iff (hnegative : book.NegativeKeys)
    (huncrossed : book.Uncrossed) (hpositive : order.Positive) :
    RespectsLimits book order ↔ NoBuyIntoSells book order := by
  constructor
  · intro hrespects hside
    apply Classical.byContradiction
    intro hsells
    exact buy_into_sells_breaks hnegative hpositive hside hsells hrespects
  · intro hsells
    cases hside : order.side with
    | buy => exact buy_respects huncrossed hside (hsells hside)
    | sell => exact sell_respects huncrossed hside

theorem empty_not_hasKey (side : Side) (key : ℤ) :
    ¬ (empty.resting side).HasKey key := by
  cases side with
  | buy => exact List.not_mem_nil
  | sell => exact List.not_mem_nil

/-- Every order of a run respects the limit prices if and only if no buy is
submitted while a sell rests. -/
theorem matchingEngine_respectsLimits_iff {orders : List Order}
    (hpositive : ∀ order ∈ orders, order.Positive) :
    CallSystem.AllAllowed call RespectsLimits empty orders ↔
      CallSystem.AllAllowed call NoBuyIntoSells empty orders := by
  apply CallSystem.allAllowed_congr
    (fun book => book.NegativeKeys ∧ book.Uncrossed) ?_ ?_ ?_
    (CallSystem.allAllowed_of_forall hpositive)
  · intro book order hinv hpos hsells
    exact ⟨hinv.1.submit hpos, hinv.2.submit hsells⟩
  · intro book order hinv hpos
    exact respectsLimits_iff hinv.1 hinv.2 hpos
  · constructor
    · intro side key hkey
      exact absurd hkey (empty_not_hasKey side key)
    · intro buy sell hbuy
      exact absurd hbuy (empty_not_hasKey .buy (-buy))

/-- The example of the source: a buy rests and a sell meets it. -/
theorem matchingEngine_respectsLimits_buy_first :
    CallSystem.AllAllowed call RespectsLimits empty
      [⟨.buy, 50, 100⟩, ⟨.sell, 49, 100⟩] :=
  (matchingEngine_respectsLimits_iff (by decide)).mpr (by decide)

/-- A sell rests at 60 and a buy with limit 50 trades with it at -60. -/
theorem matchingEngine_buy_at_negative_price :
    (CallSystem.stateAfter call empty
        [⟨.sell, 60, 100⟩, ⟨.buy, 50, 100⟩]).getTrades =
          ["Buy 100@-60", "Sell 100@-60"] ∧
      ¬ ∀ orders : List Order, (∀ order ∈ orders, order.Positive) →
        CallSystem.AllAllowed call RespectsLimits empty orders := by
  constructor
  · decide
  · intro hall
    have hrun := hall [⟨.sell, 60, 100⟩, ⟨.buy, 50, 100⟩] (by decide)
    have hbest := hrun.2.1.atBest ⟨.buy, 100, -60⟩ (by decide)
    have hrests : OrderedMap.HasKey
        (empty.addSell 60 100).sell_side (- -60) := hbest.1
    exact absurd hrests (by decide)

end MatchingEngine
end TradingStudies
