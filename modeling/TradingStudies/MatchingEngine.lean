import TradingStudies.Library.OrderedMap
import TradingStudies.Library.StepSystem

/-!
# The matching engine

`OrderBook.cpp` keeps the resting orders of each side in a `std::map` from a
price key to a quantity and matches an incoming order with the first entry of
the opposite side.  Both sides rest a limit under its negation.  That puts the
highest buy first, and the highest sell first as well; `addBuy` then takes the
key of the first sell for its price.

This file finds when limit prices are respected and when quantity is conserved.
-/

namespace TradingStudies
namespace MatchingEngine

inductive Side
  | buy
  | sell
  deriving DecidableEq, Repr

def Side.other : Side → Side
  | .buy => .sell
  | .sell => .buy

/-- One line of `done_trades`. -/
structure Trade where
  side : Side
  quantity : ℤ
  price : ℤ
  deriving DecidableEq, Repr

def Trade.text (trade : Trade) : String :=
  (match trade.side with
    | .buy => "Buy "
    | .sell => "Sell ") ++
    toString trade.quantity ++ "@" ++ toString trade.price

/-- Prices and quantities are `int`; the negation of a positive one is one
again. -/
structure OrderBook where
  buy_side : OrderedMap ℤ ℤ
  sell_side : OrderedMap ℤ ℤ
  done_trades : List Trade
  deriving DecidableEq

namespace OrderBook

def empty : OrderBook :=
  { buy_side := OrderedMap.empty ℤ ℤ
    sell_side := OrderedMap.empty ℤ ℤ
    done_trades := [] }

def addBuy (book : OrderBook) (price quantity : ℤ) : OrderBook :=
  let rested :=
    { book with buy_side := book.buy_side.emplace (-price) quantity }
  match book.sell_side.first? with
  | none => rested
  | some (sell_price, sell_quantity) =>
      if sell_price ≤ price then
        { book with
          sell_side := book.sell_side.eraseFirst
          done_trades := book.done_trades ++
            [⟨.buy, quantity, sell_price⟩,
              ⟨.sell, sell_quantity, sell_price⟩] }
      else rested

def addSell (book : OrderBook) (price quantity : ℤ) : OrderBook :=
  let rested :=
    { book with sell_side := book.sell_side.emplace (-price) quantity }
  match book.buy_side.first? with
  | none => rested
  | some (key, buy_quantity) =>
      let buy_price := -1 * key
      if buy_price ≥ price then
        { book with
          buy_side := book.buy_side.eraseFirst
          done_trades := book.done_trades ++
            [⟨.sell, quantity, buy_price⟩,
              ⟨.buy, buy_quantity, buy_price⟩] }
      else rested

def getTrades (book : OrderBook) : List String :=
  book.done_trades.map Trade.text

end OrderBook

structure Order where
  side : Side
  price : ℤ
  quantity : ℤ
  deriving DecidableEq, Repr

def Order.Positive (order : Order) : Prop :=
  0 < order.price ∧ 0 < order.quantity

instance (order : Order) : Decidable order.Positive :=
  inferInstanceAs (Decidable (_ ∧ _))

namespace OrderBook

def submit (book : OrderBook) (order : Order) : OrderBook :=
  match order.side with
  | .buy => book.addBuy order.price order.quantity
  | .sell => book.addSell order.price order.quantity

/-- An order, and the trades the client then sees. -/
def call (book : OrderBook) (order : Order) : OrderBook × List String :=
  (book.submit order, (book.submit order).getTrades)

/-- The trades an order adds. -/
def newTrades (book : OrderBook) (order : Order) : List Trade :=
  (book.submit order).done_trades.drop book.done_trades.length

def resting (book : OrderBook) : Side → OrderedMap ℤ ℤ
  | .buy => book.buy_side
  | .sell => book.sell_side

/-- An order with limit `price` rests on `side`: both `emplace` calls negate
the limit. -/
def RestsAt (book : OrderBook) (side : Side) (price : ℤ) : Prop :=
  (book.resting side).HasKey (-price)

/-- The highest resting buy and the lowest resting sell. -/
def Best (book : OrderBook) : Side → ℤ → Prop
  | .buy, price => IsGreatest { price | book.RestsAt .buy price } price
  | .sell, price => IsLeast { price | book.RestsAt .sell price } price

end OrderBook

/-- The price and the quantity of the resting order an order trades with, in
the reading of `addBuy` and `addSell`. -/
def OrderBook.meets (book : OrderBook) (order : Order) : Option (ℤ × ℤ) :=
  match order.side with
  | .buy =>
      book.sell_side.first?.filter fun entry => entry.1 ≤ order.price
  | .sell =>
      (book.buy_side.first?.map fun entry => (-1 * entry.1, entry.2)).filter
        fun entry => entry.1 ≥ order.price

/-- A limit on `side` permits a trade at `price`. -/
def Side.Permits (side : Side) (limit price : ℤ) : Prop :=
  match side with
  | .buy => price ≤ limit
  | .sell => limit ≤ price

/-- What a client expects of an order: it trades with the best price on the
other side if its limit permits, the price suits both orders, and the book is
not crossed afterwards. -/
structure RespectsLimits (book : OrderBook) (order : Order) : Prop where
  trades_iff : book.newTrades order ≠ [] ↔
    ∃ best, book.Best order.side.other best ∧
      order.side.Permits order.price best
  atBest : ∀ trade ∈ book.newTrades order,
    book.Best order.side.other trade.price
  between : ∀ trade ∈ book.newTrades order,
    order.side.Permits order.price trade.price ∧
      ∀ limit, book.RestsAt order.side.other limit →
        ¬ (book.submit order).RestsAt order.side.other limit →
          order.side.other.Permits limit trade.price
  uncrossed : ∀ buy sell, (book.submit order).Best .buy buy →
    (book.submit order).Best .sell sell → buy < sell

/-- No buy is submitted while a sell rests. -/
def NoBuyIntoSells (book : OrderBook) (order : Order) : Prop :=
  order.side = .buy → book.sell_side.entries = []

instance (book : OrderBook) (order : Order) :
    Decidable (NoBuyIntoSells book order) :=
  inferInstanceAs (Decidable (_ → _))

/-! ## What an order does -/

namespace OrderBook

variable {book : OrderBook} {order : Order} {price quantity : ℤ}

/-- The order rests. -/
def rest (book : OrderBook) (order : Order) : OrderBook :=
  match order.side with
  | .buy =>
      { book with
        buy_side := book.buy_side.emplace (-order.price) order.quantity }
  | .sell =>
      { book with
        sell_side := book.sell_side.emplace (-order.price) order.quantity }

/-- The order trades with the first entry of the other side. -/
def trade (book : OrderBook) (order : Order) (price quantity : ℤ) :
    OrderBook :=
  let trades := book.done_trades ++
    [⟨order.side, order.quantity, price⟩,
      ⟨order.side.other, quantity, price⟩]
  match order.side with
  | .buy =>
      { book with
        sell_side := book.sell_side.eraseFirst, done_trades := trades }
  | .sell =>
      { book with
        buy_side := book.buy_side.eraseFirst, done_trades := trades }

theorem submit_of_meets_none (hmeets : book.meets order = none) :
    book.submit order = book.rest order := by
  rcases order with ⟨side, limit, amount⟩
  cases side with
  | buy =>
      cases hfirst : book.sell_side.first? with
      | none => simp only [submit, addBuy, rest, hfirst]
      | some entry =>
          have hnot : ¬ entry.1 ≤ limit := by
            simpa [meets, hfirst] using hmeets
          simp only [submit, addBuy, rest, hfirst, if_neg hnot]
  | sell =>
      cases hfirst : book.buy_side.first? with
      | none => simp only [submit, addSell, rest, hfirst]
      | some entry =>
          have hnot : ¬ -1 * entry.1 ≥ limit := by
            simpa [meets, hfirst] using hmeets
          simp only [submit, addSell, rest, hfirst, if_neg hnot]

theorem submit_of_meets_some
    (hmeets : book.meets order = some (price, quantity)) :
    book.submit order = book.trade order price quantity := by
  rcases order with ⟨side, limit, amount⟩
  cases side with
  | buy =>
      cases hfirst : book.sell_side.first? with
      | none => simp [meets, hfirst] at hmeets
      | some entry =>
          simp only [meets, hfirst, Option.filter_eq_some_iff,
            Option.some.injEq, decide_eq_true_eq] at hmeets
          rcases hmeets with ⟨rfl, hle⟩
          simp only [submit, addBuy, trade, hfirst, if_pos hle, Side.other]
  | sell =>
      cases hfirst : book.buy_side.first? with
      | none => simp [meets, hfirst] at hmeets
      | some entry =>
          simp only [meets, hfirst, Option.map_some,
            Option.filter_eq_some_iff, Option.some.injEq,
            decide_eq_true_eq, Prod.mk.injEq] at hmeets
          rcases hmeets with ⟨⟨rfl, rfl⟩, hge⟩
          simp only [submit, addSell, trade, hfirst, if_pos hge, Side.other]

theorem newTrades_of_meets_none (hmeets : book.meets order = none) :
    book.newTrades order = [] := by
  unfold newTrades
  rw [submit_of_meets_none hmeets]
  cases hside : order.side with
  | buy => simp [rest, hside]
  | sell => simp [rest, hside]

theorem newTrades_of_meets_some
    (hmeets : book.meets order = some (price, quantity)) :
    book.newTrades order =
      [⟨order.side, order.quantity, price⟩,
        ⟨order.side.other, quantity, price⟩] := by
  unfold newTrades
  rw [submit_of_meets_some hmeets]
  cases hside : order.side with
  | buy => simp [trade, hside]
  | sell => simp [trade, hside]

end OrderBook

end MatchingEngine
end TradingStudies
