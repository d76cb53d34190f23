import TradingStudies.HashMapInterface
import TradingStudies.HftOrderBookLive

/-!
# The mock order book

`MockOrderBook.cpp` is an earlier version of the price-level book.  It copies
each order into a pool slot taken from `order_memory` and finds it again
through a `std::unordered_map`, which is taken at its specification.  Its level
arrays and cached indices are those of the later book; after a change of a
level, however, every path that did not return early resets the cached index.

The pool part is related here to the list of live orders.
-/

namespace TradingStudies
namespace MockOrderBook

open HashMap (PartialMap)
open HftOrderBook (Order Outcome Call LiveOrder IsLive DistinctIds addAt
  levelAt positiveAt)

/-- An `Order*` is a position of `order_pool`; `order_memory` is written with
its `back()` first. -/
structure OrderBook (POOL_SIZE MAX_PRICE_LEVELS : ℕ) (Price : Type*) where
  order_pool : Fin POOL_SIZE → Order Price
  order_memory : List (Fin POOL_SIZE)
  order_count : ℕ
  order_map : PartialMap UInt64 (Fin POOL_SIZE)
  bid_levels : Fin MAX_PRICE_LEVELS → Int32
  ask_levels : Fin MAX_PRICE_LEVELS → Int32
  best_bid_index : ℤ
  best_ask_index : ℤ

variable {POOL_SIZE MAX_PRICE_LEVELS : ℕ} {Price : Type*}

def construct (POOL_SIZE MAX_PRICE_LEVELS : ℕ) (Price : Type*)
    [Inhabited Price] : OrderBook POOL_SIZE MAX_PRICE_LEVELS Price where
  order_pool := fun _ => ⟨0, default, 0, false⟩
  order_memory := (List.finRange POOL_SIZE).reverse
  order_count := 0
  order_map := ∅
  bid_levels := fun _ => 0
  ask_levels := fun _ => 0
  best_bid_index := -1
  best_ask_index := MAX_PRICE_LEVELS

/-- `update_price_level<true>` at the index of the order's price. -/
def updateBidLevel (book : OrderBook POOL_SIZE MAX_PRICE_LEVELS Price)
    (idx : ℤ) (update_quantity : Int32) :
    Option (OrderBook POOL_SIZE MAX_PRICE_LEVELS Price) :=
  match addAt book.bid_levels idx update_quantity with
  | none => none
  | some levels =>
      if idx = book.best_bid_index ∧ levelAt levels idx = some 0 then
        match BestIndex.scanDown (positiveAt levels) idx.toNat with
        | some i => some { book with bid_levels := levels, best_bid_index := i }
        | none => some { book with bid_levels := levels, best_bid_index := 0 }
      -- The reset stands outside of the `if`.
      else some { book with bid_levels := levels, best_bid_index := 0 }

/-- `update_price_level<false>` at the index of the order's price. -/
def updateAskLevel (book : OrderBook POOL_SIZE MAX_PRICE_LEVELS Price)
    (idx : ℤ) (update_quantity : Int32) :
    Option (OrderBook POOL_SIZE MAX_PRICE_LEVELS Price) :=
  match addAt book.ask_levels idx update_quantity with
  | none => none
  | some levels =>
      if idx = book.best_ask_index ∧ levelAt levels idx = some 0 then
        match BestIndex.scanUp (positiveAt levels)
            (MAX_PRICE_LEVELS - (idx.toNat + 1)) (idx.toNat + 1) with
        | some i => some { book with ask_levels := levels, best_ask_index := i }
        | none => some { book with
            ask_levels := levels
            best_ask_index := (MAX_PRICE_LEVELS : ℤ) - 1 }
      else some { book with
        ask_levels := levels
        best_ask_index := (MAX_PRICE_LEVELS : ℤ) - 1 }

def updatePriceLevel (IS_BUY : Bool)
    (book : OrderBook POOL_SIZE MAX_PRICE_LEVELS Price)
    (idx : ℤ) (update_quantity : Int32) :
    Option (OrderBook POOL_SIZE MAX_PRICE_LEVELS Price) :=
  if IS_BUY then updateBidLevel book idx update_quantity
  else updateAskLevel book idx update_quantity

section Operations

variable (priceToIndex : Price → ℤ)

/-- The price-level part of `insert`. -/
def raiseLevel (book : OrderBook POOL_SIZE MAX_PRICE_LEVELS Price)
    (order : Order Price) :
    Option (OrderBook POOL_SIZE MAX_PRICE_LEVELS Price) :=
  let idx := priceToIndex order.price
  if order.is_buy then
    match addAt book.bid_levels idx order.quantity with
    | none => none
    | some levels => some { book with
        bid_levels := levels
        best_bid_index :=
          if idx > book.best_bid_index then idx else book.best_bid_index }
  else
    match addAt book.ask_levels idx order.quantity with
    | none => none
    | some levels => some { book with
        ask_levels := levels
        best_ask_index :=
          if idx < book.best_ask_index then idx else book.best_ask_index }

def insert (book : OrderBook POOL_SIZE MAX_PRICE_LEVELS Price)
    (order : Order Price) :
    OrderBook POOL_SIZE MAX_PRICE_LEVELS Price × Outcome :=
  if book.order_count ≥ POOL_SIZE then (book, .threw "Order pool is full")
  else
    match raiseLevel priceToIndex
        { book with order_count := book.order_count + 1 } order with
    | none => (book, .undefined)
    | some raised =>
        match raised.order_memory with
        | [] => (raised, .undefined)
        | mem :: rest =>
            ({ raised with
                order_memory := rest
                order_pool := Function.update raised.order_pool mem order
                order_map := raised.order_map.insert order.order_id mem },
              .done)

def update (book : OrderBook POOL_SIZE MAX_PRICE_LEVELS Price)
    (order_id : UInt64) (new_quantity : Int32) :
    OrderBook POOL_SIZE MAX_PRICE_LEVELS Price × Outcome :=
  match book.order_map.lookup order_id with
  | none => (book, .threw "Order not found")
  | some ord =>
      let order := book.order_pool ord
      match updatePriceLevel order.is_buy book (priceToIndex order.price)
          (new_quantity - order.quantity) with
      | none => (book, .undefined)
      | some book =>
          ({ book with
              order_pool := Function.update book.order_pool ord
                { order with quantity := new_quantity } }, .done)

def cancel (book : OrderBook POOL_SIZE MAX_PRICE_LEVELS Price)
    (order_id : UInt64) :
    OrderBook POOL_SIZE MAX_PRICE_LEVELS Price × Outcome :=
  match book.order_map.lookup order_id with
  | none => (book, .threw "Order not found")
  | some ord =>
      let order := book.order_pool ord
      match updatePriceLevel order.is_buy book (priceToIndex order.price)
          (-order.quantity) with
      | none => (book, .undefined)
      | some book =>
          ({ book with
              order_memory := ord :: book.order_memory
              order_count := book.order_count - 1
              order_map := book.order_map.erase order_id }, .done)

def bestBid (indexToPrice : ℤ → Price)
    (book : OrderBook POOL_SIZE MAX_PRICE_LEVELS Price) :
    Option (Price × Int32) :=
  (levelAt book.bid_levels book.best_bid_index).map
    fun size => (indexToPrice book.best_bid_index, size)

def bestAsk (indexToPrice : ℤ → Price)
    (book : OrderBook POOL_SIZE MAX_PRICE_LEVELS Price) :
    Option (Price × Int32) :=
  (levelAt book.ask_levels book.best_ask_index).map
    fun size => (indexToPrice book.best_ask_index, size)

/-- The calls of the later book.  `insert` copies the order, so its address
does not matter. -/
def call {Addr : Type*} (book : OrderBook POOL_SIZE MAX_PRICE_LEVELS Price) :
    Call Addr Price → OrderBook POOL_SIZE MAX_PRICE_LEVELS Price × Outcome
  | .insert _ order => insert priceToIndex book order
  | .update order_id new_quantity =>
      update priceToIndex book order_id new_quantity
  | .cancel order_id => cancel priceToIndex book order_id

end Operations

/-! ## The pool and the id map -/

/-- Each live order has a slot of its own that is not free; nothing else is in
the map. -/
structure PoolRefines {Addr : Type*}
    (book : OrderBook POOL_SIZE MAX_PRICE_LEVELS Price)
    (live : List (LiveOrder Addr Price)) : Prop where
  entries : ∀ entry ∈ live, ∃ slot,
    book.order_map.lookup entry.order.order_id = some slot ∧
      book.order_pool slot = entry.order ∧ slot ∉ book.order_memory
  absent : ∀ order_id, ¬ IsLive live order_id →
    book.order_map.lookup order_id = none
  free : book.order_memory.Nodup
  count : book.order_count = live.length
  room : book.order_memory.length + live.length = POOL_SIZE

/-- The fields a change of the levels leaves alone. -/
structure SameStorage (book book' : OrderBook POOL_SIZE MAX_PRICE_LEVELS Price) :
    Prop where
  order_pool : book'.order_pool = book.order_pool
  order_memory : book'.order_memory = book.order_memory
  order_count : book'.order_count = book.order_count
  order_map : book'.order_map = book.order_map

variable {Addr : Type*} {book : OrderBook POOL_SIZE MAX_PRICE_LEVELS Price}
  {live : List (LiveOrder Addr Price)} {entry : LiveOrder Addr Price}

theorem construct_poolRefines [Inhabited Price] :
    PoolRefines (construct POOL_SIZE MAX_PRICE_LEVELS Price)
      ([] : List (LiveOrder Addr Price)) where
  entries := fun _ hentry => absurd hentry List.not_mem_nil
  absent := fun _ _ => Finmap.lookup_empty _
  free := List.nodup_reverse.mpr (List.nodup_finRange _)
  count := rfl
  room := by simp [construct]

theorem PoolRefines.insert (hrefines : PoolRefines book live)
    {mem : Fin POOL_SIZE} {rest : List (Fin POOL_SIZE)}
    (hmemory : book.order_memory = mem :: rest) (ptr : Addr)
    {order : Order Price} (hfresh : ¬ IsLive live order.order_id)
    {book' : OrderBook POOL_SIZE MAX_PRICE_LEVELS Price}
    (hpool : book'.order_pool = Function.update book.order_pool mem order)
    (hrest : book'.order_memory = rest)
    (hcount : book'.order_count = book.order_count + 1)
    (hmap : book'.order_map = book.order_map.insert order.order_id mem) :
    PoolRefines book' (⟨ptr, order⟩ :: live) where
  entries := by
    intro other hother
    rw [hpool, hrest, hmap]
    have hfree := hrefines.free
    rw [hmemory] at hfree
    rcases List.mem_cons.mp hother with rfl | hother
    · exact ⟨mem, Finmap.lookup_insert _, Function.update_self _ _ _,
        (List.nodup_cons.mp hfree).1⟩
    · rcases hrefines.entries other hother with
        ⟨slot, hlookup, hslot, hheld⟩
      rw [hmemory, List.mem_cons, not_or] at hheld
      have hne : other.order.order_id ≠ order.order_id := by
        intro heq
        exact hfresh ⟨other, hother, heq⟩
      refine ⟨slot, ?_, ?_, hheld.2⟩
      · rw [Finmap.lookup_insert_of_ne _ hne]
        exact hlookup
      · rw [Function.update_of_ne hheld.1]
        exact hslot
  absent := by
    intro order_id hdead
    have hne : order_id ≠ order.order_id := by
      intro heq
      exact hdead ⟨_, List.mem_cons_self, heq.symm⟩
    rw [hmap, Finmap.lookup_insert_of_ne _ hne]
    apply hrefines.absent
    intro hlive
    rcases hlive with ⟨other, hother, heq⟩
    exact hdead ⟨other, List.mem_cons_of_mem _ hother, heq⟩
  free := by
    have hfree := hrefines.free
    rw [hmemory] at hfree
    rw [hrest]
    exact (List.nodup_cons.mp hfree).2
  count := by
    rw [hcount, hrefines.count, List.length_cons]
  room := by
    have hroom := hrefines.room
    rw [hmemory, List.length_cons] at hroom
    rw [hrest, List.length_cons]
    omega

/-- Two live orders with one slot are one order. -/
theorem slot_unique (hdistinct : DistinctIds live)
    {other : LiveOrder Addr Price} {slot : Fin POOL_SIZE}
    (hentry : entry ∈ live) (hother : other ∈ live)
    (hslot : book.order_pool slot = entry.order)
    (hslot' : book.order_pool slot = other.order) : other = entry := by
  apply hdistinct.unique hother hentry
  rw [← hslot, ← hslot']

theorem PoolRefines.update (hrefines : PoolRefines book live)
    (hdistinct : DistinctIds live) (hentry : entry ∈ live)
    {slot : Fin POOL_SIZE}
    (hfound : book.order_map.lookup entry.order.order_id = some slot)
    (hslot : book.order_pool slot = entry.order) (new_quantity : Int32)
    {book' : OrderBook POOL_SIZE MAX_PRICE_LEVELS Price}
    (hpool : book'.order_pool = Function.update book.order_pool slot
      { entry.order with quantity := new_quantity })
    (hmemory : book'.order_memory = book.order_memory)
    (hcount : book'.order_count = book.order_count)
    (hmap : book'.order_map = book.order_map) :
    PoolRefines book' (live.map
      (HftOrderBook.setQuantity entry.order.order_id new_quantity)) where
  entries := by
    intro changed hchanged
    rcases List.mem_map.mp hchanged with ⟨other, hother, rfl⟩
    rcases hrefines.entries other hother with ⟨held, hlookup, hheld, hfree⟩
    rw [hpool, hmemory, hmap, HftOrderBook.setQuantity_order_id]
    refine ⟨held, hlookup, ?_, hfree⟩
    unfold HftOrderBook.setQuantity
    by_cases heq : held = slot
    · subst held
      have hsame := slot_unique hdistinct hentry hother hslot hheld
      rw [hsame, if_pos rfl, Function.update_self]
    · have hne : other.order.order_id ≠ entry.order.order_id := by
        intro hid
        rw [hid, hfound, Option.some.injEq] at hlookup
        exact heq hlookup.symm
      rw [if_neg hne, Function.update_of_ne heq]
      exact hheld
  absent := by
    intro order_id hdead
    rw [hmap]
    apply hrefines.absent
    intro hlive
    rcases hlive with ⟨other, hother, heq⟩
    refine hdead ⟨_, List.mem_map_of_mem hother, ?_⟩
    rw [HftOrderBook.setQuantity_order_id]
    exact heq
  free := by
    rw [hmemory]
    exact hrefines.free
  count := by
    rw [hcount, List.length_map]
    exact hrefines.count
  room := by
    rw [hmemory, List.length_map]
    exact hrefines.room

theorem PoolRefines.cancel (hrefines : PoolRefines book live)
    (hdistinct : DistinctIds live) (hentry : entry ∈ live)
    {slot : Fin POOL_SIZE} (hslot : book.order_pool slot = entry.order)
    (hfree : slot ∉ book.order_memory)
    {book' : OrderBook POOL_SIZE MAX_PRICE_LEVELS Price}
    (hpool : book'.order_pool = book.order_pool)
    (hmemory : book'.order_memory = slot :: book.order_memory)
    (hcount : book'.order_count = book.order_count - 1)
    (hmap : book'.order_map = book.order_map.erase entry.order.order_id) :
    PoolRefines book' (live.filter fun other =>
      other.order.order_id ≠ entry.order.order_id) := by
  have hlength := HftOrderBook.length_filter_of_distinct hdistinct hentry
  constructor
  · intro other hkept
    rcases List.mem_filter.mp hkept with ⟨hother, hne⟩
    have hid : other.order.order_id ≠ entry.order.order_id := by
      simpa using hne
    rcases hrefines.entries other hother with ⟨held, hlookup, hheld, hnot⟩
    rw [hpool, hmemory, hmap]
    refine ⟨held, ?_, hheld, ?_⟩
    · rw [Finmap.lookup_erase_ne hid]
      exact hlookup
    · rw [List.mem_cons, not_or]
      refine ⟨?_, hnot⟩
      intro heq
      subst held
      exact hid (congrArg (fun entry => entry.order.order_id)
        (slot_unique hdistinct hentry hother hslot hheld))
  · intro order_id hdead
    rw [hmap]
    by_cases heq : order_id = entry.order.order_id
    · rw [heq]
      exact Finmap.lookup_erase _ _
    · rw [Finmap.lookup_erase_ne heq]
      apply hrefines.absent
      intro hlive
      rcases hlive with ⟨other, hother, hid⟩
      refine hdead ⟨other, List.mem_filter.mpr ⟨hother, ?_⟩, hid⟩
      rw [hid]
      simpa using heq
  · rw [hmemory]
    exact List.nodup_cons.mpr ⟨hfree, hrefines.free⟩
  · have hold := hrefines.count
    omega
  · have hroom := hrefines.room
    rw [hmemory, List.length_cons]
    omega

end MockOrderBook
end TradingStudies
