import TradingStudies.FixedSizedChainingHashMap
import TradingStudies.Library.BestIndex

/-!
# The price-level order book

`OrderBook<false>` keeps no copy of an order: its id index maps an order id to
the caller's `Order`, and `update` writes the new quantity through that
pointer.  The model therefore carries the memory that holds the callers'
orders next to the book itself.

Prices are of an arbitrary type.  `priceToIndex` and `indexToPrice` are the two
private conversions of the class; the floating-point arithmetic behind them
plays no part in the book-keeping.  `Const::MaxPriceLevels` is a parameter, and
an access to the level arrays outside of it is `undefined`.
-/

namespace TradingStudies
namespace HftOrderBook

open HashMap

structure Order (Price : Type*) where
  order_id : UInt64
  price : Price
  quantity : Int32
  is_buy : Bool
  deriving DecidableEq, Repr

/-- The non-storage fields of `OrderBook<false>`.  An `OrderPtr` is null or an
address. -/
structure OrderBook (initBuckets MaxPriceLevels : ℕ) (Addr : Type*) where
  orderMap_ : FixedSizedChainingHashMap initBuckets UInt64 (Option Addr)
  bidLevels_ : Fin MaxPriceLevels → Int32
  askLevels_ : Fin MaxPriceLevels → Int32
  bestBidIndex_ : ℤ
  bestAskIndex_ : ℤ

/-- A book together with the memory of its callers. -/
structure World (initBuckets MaxPriceLevels : ℕ) (Addr Price : Type*) where
  book : OrderBook initBuckets MaxPriceLevels Addr
  orders : Addr → Order Price

variable {initBuckets MaxPriceLevels : ℕ} {Addr Price : Type*}

/-- The constructor of `OrderBook<false>`. -/
def fresh (initBuckets MaxPriceLevels : ℕ) (Addr : Type*) :
    OrderBook initBuckets MaxPriceLevels Addr where
  orderMap_ := FixedSizedChainingHashMap.empty initBuckets UInt64 (Option Addr)
  bidLevels_ := fun _ => 0
  askLevels_ := fun _ => 0
  bestBidIndex_ := -1
  bestAskIndex_ := MaxPriceLevels

/-- `levels[idx]` for an `int` subscript. -/
def levelAt (levels : Fin MaxPriceLevels → Int32) (idx : ℤ) : Option Int32 :=
  if h : idx.toNat < MaxPriceLevels then
    if 0 ≤ idx then some (levels ⟨idx.toNat, h⟩) else none
  else none

/-- `levels[idx] += quantity`. -/
def addAt (levels : Fin MaxPriceLevels → Int32) (idx : ℤ) (quantity : Int32) :
    Option (Fin MaxPriceLevels → Int32) :=
  if h : idx.toNat < MaxPriceLevels then
    if 0 ≤ idx then
      some (Function.update levels ⟨idx.toNat, h⟩
        (levels ⟨idx.toNat, h⟩ + quantity))
    else none
  else none

/-- The loop test `levels[i] > 0`. -/
def positiveAt (levels : Fin MaxPriceLevels → Int32) (i : ℕ) : Bool :=
  if h : i < MaxPriceLevels then decide (0 < levels ⟨i, h⟩) else false

/-- `updatePriceLevel<true>` at the index of the order's price. -/
def updateBidLevel (book : OrderBook initBuckets MaxPriceLevels Addr)
    (idx : ℤ) (updateQuantity : Int32) :
    Option (OrderBook initBuckets MaxPriceLevels Addr) :=
  match addAt book.bidLevels_ idx updateQuantity with
  | none => none
  | some levels =>
      if idx = book.bestBidIndex_ ∧ levelAt levels idx = some 0 then
        match BestIndex.scanDown (positiveAt levels) idx.toNat with
        | some i => some { book with bidLevels_ := levels, bestBidIndex_ := i }
        | none => some { book with bidLevels_ := levels, bestBidIndex_ := 0 }
      else some { book with bidLevels_ := levels }

/-- `updatePriceLevel<false>` at the index of the order's price. -/
def updateAskLevel (book : OrderBook initBuckets MaxPriceLevels Addr)
    (idx : ℤ) (updateQuantity : Int32) :
    Option (OrderBook initBuckets MaxPriceLevels Addr) :=
  match addAt book.askLevels_ idx updateQuantity with
  | none => none
  | some levels =>
      if idx = book.bestAskIndex_ ∧ levelAt levels idx = some 0 then
        match BestIndex.scanUp (positiveAt levels)
            (MaxPriceLevels - (idx.toNat + 1)) (idx.toNat + 1) with
        | some i => some { book with askLevels_ := levels, bestAskIndex_ := i }
        | none => some { book with
            askLevels_ := levels
            bestAskIndex_ := (MaxPriceLevels : ℤ) - 1 }
      else some { book with askLevels_ := levels }

def updatePriceLevel (IS_BUY : Bool)
    (book : OrderBook initBuckets MaxPriceLevels Addr)
    (idx : ℤ) (updateQuantity : Int32) :
    Option (OrderBook initBuckets MaxPriceLevels Addr) :=
  if IS_BUY then updateBidLevel book idx updateQuantity
  else updateAskLevel book idx updateQuantity

/-- What the caller of a book operation sees. -/
inductive Outcome
  | done
  | threw (message : String)
  | undefined
  deriving DecidableEq, Repr

section Operations

variable [NeZero initBuckets]
variable (hash : UInt64 → ℕ) (priceToIndex : Price → ℤ)

/-- The price-level part of `insert`. -/
def raiseLevel (book : OrderBook initBuckets MaxPriceLevels Addr)
    (order : Order Price) :
    Option (OrderBook initBuckets MaxPriceLevels Addr) :=
  let idx := priceToIndex order.price
  if order.is_buy then
    match addAt book.bidLevels_ idx order.quantity with
    | none => none
    | some levels => some { book with
        bidLevels_ := levels
        bestBidIndex_ :=
          if book.bestBidIndex_ < idx then idx else book.bestBidIndex_ }
  else
    match addAt book.askLevels_ idx order.quantity with
    | none => none
    | some levels => some { book with
        askLevels_ := levels
        bestAskIndex_ :=
          if idx < book.bestAskIndex_ then idx else book.bestAskIndex_ }

def insert (world : World initBuckets MaxPriceLevels Addr Price)
    (ptr : Addr) :
    World initBuckets MaxPriceLevels Addr Price × Outcome :=
  let order := world.orders ptr
  match world.book.orderMap_.call hash (.assign order.order_id (some ptr)) with
  | (orderMap, .value _) =>
      match raiseLevel priceToIndex { world.book with orderMap_ := orderMap }
          order with
      | none => (world, .undefined)
      | some book => ({ world with book := book }, .done)
  | (orderMap, .threw message) =>
      ({ world with book := { world.book with orderMap_ := orderMap } },
        .threw message)
  | _ => (world, .undefined)

/-- `orderMap_.contains(order_id)` -/
def StoresId (book : OrderBook initBuckets MaxPriceLevels Addr)
    (order_id : UInt64) : Prop :=
  (book.orderMap_.call hash (.contains order_id)).2 = .flag true

/-- `orderMap_.contains(order_id)` and then `orderMap_[order_id]`, as `update`
and `cancel` begin. -/
def lookupOrder (book : OrderBook initBuckets MaxPriceLevels Addr)
    (order_id : UInt64) :
    OrderBook initBuckets MaxPriceLevels Addr × Except Outcome Addr :=
  match book.orderMap_.call hash (.contains order_id) with
  | (_, .flag false) => (book, .error (.threw "Order not found"))
  | (_, .flag true) =>
      match book.orderMap_.call hash (.subscript order_id) with
      | (orderMap, .value (some ptr)) =>
          ({ book with orderMap_ := orderMap }, .ok ptr)
      | (orderMap, .threw message) =>
          ({ book with orderMap_ := orderMap }, .error (.threw message))
      | _ => (book, .error .undefined)
  | _ => (book, .error .undefined)

variable [DecidableEq Addr]

def update (world : World initBuckets MaxPriceLevels Addr Price)
    (order_id : UInt64) (new_quantity : Int32) :
    World initBuckets MaxPriceLevels Addr Price × Outcome :=
  match lookupOrder hash world.book order_id with
  | (book, .error outcome) => ({ world with book := book }, outcome)
  | (book, .ok ord) =>
      let order := world.orders ord
      match updatePriceLevel order.is_buy book (priceToIndex order.price)
          (new_quantity - order.quantity) with
      | none => (world, .undefined)
      | some book =>
          ({ book := book
             orders := Function.update world.orders ord
               { order with quantity := new_quantity } }, .done)

def cancel (world : World initBuckets MaxPriceLevels Addr Price)
    (order_id : UInt64) :
    World initBuckets MaxPriceLevels Addr Price × Outcome :=
  match lookupOrder hash world.book order_id with
  | (book, .error outcome) => ({ world with book := book }, outcome)
  | (book, .ok ord) =>
      let order := world.orders ord
      match updatePriceLevel order.is_buy book (priceToIndex order.price)
          (-order.quantity) with
      | none => (world, .undefined)
      | some book =>
          match book.orderMap_.call hash (.erase order_id) with
          | (orderMap, .flag _) =>
              ({ world with book := { book with orderMap_ := orderMap } },
                .done)
          | _ => (world, .undefined)

/-- `bestBid()`; `none` is a read outside of the level array. -/
def bestBid (indexToPrice : ℤ → Price)
    (book : OrderBook initBuckets MaxPriceLevels Addr) :
    Option (Price × Int32) :=
  (levelAt book.bidLevels_ book.bestBidIndex_).map
    fun size => (indexToPrice book.bestBidIndex_, size)

def bestAsk (indexToPrice : ℤ → Price)
    (book : OrderBook initBuckets MaxPriceLevels Addr) :
    Option (Price × Int32) :=
  (levelAt book.askLevels_ book.bestAskIndex_).map
    fun size => (indexToPrice book.bestAskIndex_, size)

/-- One use of the book.  The caller of `insert` fills in the `Order` at the
address before it passes the address on. -/
inductive Call (Addr Price : Type*)
  | insert (ptr : Addr) (order : Order Price)
  | update (order_id : UInt64) (new_quantity : Int32)
  | cancel (order_id : UInt64)
  deriving DecidableEq, Repr

def call (world : World initBuckets MaxPriceLevels Addr Price) :
    Call Addr Price → World initBuckets MaxPriceLevels Addr Price × Outcome
  | .insert ptr order =>
      insert hash priceToIndex
        { world with orders := Function.update world.orders ptr order } ptr
  | .update order_id new_quantity =>
      update hash priceToIndex world order_id new_quantity
  | .cancel order_id => cancel hash priceToIndex world order_id

end Operations

end HftOrderBook
end TradingStudies
