import TradingStudies.HftOrderBookRefinement

/-!
# The order book with its own storage

`OrderBook<true>` copies an order into a slot of its own.  `insert` counts the
order, takes the slot at the back of `freeMsgPtrs_` and copies the order into
it before it writes to the id index; `cancel` puts the slot back.  The
constructor reserves room in `freeMsgPtrs_` and fills it with the addresses of
the elements of `orderPool_`.  That vector has no initializer, so at this point
it has no elements, and nothing adds any later.

A vector is a list whose last element is `back()`.
-/

namespace TradingStudies
namespace HftOrderBook

open HashMap

/-- `Const::PoolSize` -/
def PoolSize : UInt64 := 10000000

theorem PoolSize_pos : 0 < PoolSize := by decide

theorem PoolSize_ne_zero : PoolSize.toNat ≠ 0 := by decide

/-- An `OrderBook<true>`.  `orderPool_` lists the addresses of the elements of
the vector; what they hold is in `orders`. -/
structure StorageWorld (initBuckets MaxPriceLevels : ℕ) (Addr Price : Type*)
    extends World initBuckets MaxPriceLevels Addr Price where
  orderPool_ : List Addr
  freeMsgPtrs_ : List Addr
  orderCount_ : UInt64

variable {initBuckets MaxPriceLevels : ℕ} {Addr Price : Type*}

/-- The constructor of `OrderBook<true>`, with the vector its loop runs
over. -/
def storageOver (initBuckets MaxPriceLevels : ℕ) (orderPool_ : List Addr)
    (orders : Addr → Order Price) :
    StorageWorld initBuckets MaxPriceLevels Addr Price where
  book := fresh initBuckets MaxPriceLevels Addr
  orders := orders
  orderPool_ := orderPool_
  freeMsgPtrs_ := orderPool_.foldl (fun free order => free ++ [order]) []
  orderCount_ := 0

/-- `orderPool_` is default-constructed. -/
def storageFresh (initBuckets MaxPriceLevels : ℕ)
    (orders : Addr → Order Price) :
    StorageWorld initBuckets MaxPriceLevels Addr Price :=
  storageOver initBuckets MaxPriceLevels [] orders

section Operations

variable [NeZero initBuckets] [DecidableEq Addr]
variable (hash : UInt64 → ℕ) (priceToIndex : Price → ℤ)

namespace StorageWorld

/-- `insert` of the caller's order. -/
def insert (world : StorageWorld initBuckets MaxPriceLevels Addr Price)
    (order : Order Price) :
    StorageWorld initBuckets MaxPriceLevels Addr Price × Outcome :=
  if PoolSize ≤ world.orderCount_ then (world, .threw "Order pool is full")
  else
    match world.freeMsgPtrs_.getLast? with
    -- `back()` of an empty vector
    | none => (world, .undefined)
    | some mem =>
        let taken : StorageWorld initBuckets MaxPriceLevels Addr Price :=
          { world with
            orderCount_ := world.orderCount_ + 1
            freeMsgPtrs_ := world.freeMsgPtrs_.dropLast
            orders := Function.update world.orders mem order }
        match world.book.orderMap_.call hash
            (.assign order.order_id (some mem)) with
        | (orderMap, .value _) =>
            match raiseLevel priceToIndex
                { world.book with orderMap_ := orderMap } order with
            | none => (world, .undefined)
            | some book => ({ taken with book := book }, .done)
        | (orderMap, .threw message) =>
            ({ taken with book := { world.book with orderMap_ := orderMap } },
              .threw message)
        | _ => (world, .undefined)

/-- `update` is the same for both variants. -/
def update (world : StorageWorld initBuckets MaxPriceLevels Addr Price)
    (order_id : UInt64) (new_quantity : Int32) :
    StorageWorld initBuckets MaxPriceLevels Addr Price × Outcome :=
  let (after, outcome) := HftOrderBook.update hash priceToIndex world.toWorld
    order_id new_quantity
  ({ world with toWorld := after }, outcome)

def cancel (world : StorageWorld initBuckets MaxPriceLevels Addr Price)
    (order_id : UInt64) :
    StorageWorld initBuckets MaxPriceLevels Addr Price × Outcome :=
  match lookupOrder hash world.book order_id with
  | (book, .error outcome) => ({ world with book := book }, outcome)
  | (book, .ok ord) =>
      let order := world.orders ord
      match updatePriceLevel order.is_buy book (priceToIndex order.price)
          (-order.quantity) with
      | none => (world, .undefined)
      | some book =>
          match book.orderMap_.call hash (.subscript order_id) with
          | (orderMap, .value (some mem)) =>
              let freed : StorageWorld initBuckets MaxPriceLevels Addr Price :=
                { world with
                  freeMsgPtrs_ := world.freeMsgPtrs_ ++ [mem]
                  orderCount_ := world.orderCount_ - 1 }
              match orderMap.call hash (.erase order_id) with
              | (orderMap, .flag _) =>
                  ({ freed with book := { book with orderMap_ := orderMap } },
                    .done)
              | _ => (world, .undefined)
          | (orderMap, .threw message) =>
              ({ world with book := { book with orderMap_ := orderMap } },
                .threw message)
          | _ => (world, .undefined)

end StorageWorld

/-- One use of an `OrderBook<true>`. -/
inductive StorageCall (Price : Type*)
  | insert (order : Order Price)
  | update (order_id : UInt64) (new_quantity : Int32)
  | cancel (order_id : UInt64)
  deriving DecidableEq, Repr

def storageCall (world : StorageWorld initBuckets MaxPriceLevels Addr Price) :
    StorageCall Price →
      StorageWorld initBuckets MaxPriceLevels Addr Price × Outcome
  | .insert order => world.insert hash priceToIndex order
  | .update order_id new_quantity =>
      world.update hash priceToIndex order_id new_quantity
  | .cancel order_id => world.cancel hash priceToIndex order_id

end Operations

/-! ## Storage accounting -/

/-- What the counter, the free list and the id index should say of each
other. -/
structure StorageAccounts [NeZero initBuckets] (hash : UInt64 → ℕ)
    (world : StorageWorld initBuckets MaxPriceLevels Addr Price) : Prop where
  live : world.orderCount_.toNat =
    Set.ncard { order_id | StoresId hash world.book order_id }
  conserved : world.orderCount_.toNat + world.freeMsgPtrs_.length =
    PoolSize.toNat
  distinct : world.freeMsgPtrs_.Nodup
  apart : ∀ mem ∈ world.freeMsgPtrs_, ∀ order_id,
    (world.book.orderMap_.call hash (.find order_id)).2 ≠
      .found (some (some mem))

/-- Where the check of `insert` passes, `back()` has an element. -/
def SlotForInsert
    (world : StorageWorld initBuckets MaxPriceLevels Addr Price) : Prop :=
  world.orderCount_ < PoolSize → world.freeMsgPtrs_ ≠ []

theorem foldl_emplace_back (pool free : List Addr) :
    pool.foldl (fun free order => free ++ [order]) free = free ++ pool := by
  induction pool generalizing free with
  | nil => exact (List.append_nil free).symm
  | cons order rest ih =>
      rw [List.foldl_cons, ih, List.append_assoc, List.singleton_append]

/-- The constructor accounts for its storage if the pool has its size. -/
theorem storageOver_conserved_iff (orderPool_ : List Addr)
    (orders : Addr → Order Price) :
    (storageOver initBuckets MaxPriceLevels orderPool_ orders).orderCount_.toNat
          + (storageOver initBuckets MaxPriceLevels orderPool_
            orders).freeMsgPtrs_.length = PoolSize.toNat ↔
      orderPool_.length = PoolSize.toNat := by
  unfold storageOver
  dsimp only
  rw [foldl_emplace_back, List.nil_append, UInt64.toNat_zero, Nat.zero_add]

section Never

variable [NeZero initBuckets] (hash : UInt64 → ℕ)
  (orders : Addr → Order Price)

theorem storageFresh_lookupOrder (order_id : UInt64) :
    lookupOrder hash (storageFresh initBuckets MaxPriceLevels orders).book
        order_id =
      ((storageFresh initBuckets MaxPriceLevels orders).book,
        .error (.threw "Order not found")) :=
  lookupOrder_of_absent (FixedSizedChainingHashMap.empty_represents hash)
    Finmap.notMem_empty

variable [DecidableEq Addr] (priceToIndex : Price → ℤ)

theorem storageFresh_insert (order : Order Price) :
    (storageFresh initBuckets MaxPriceLevels orders).insert hash priceToIndex
        order =
      (storageFresh initBuckets MaxPriceLevels orders, .undefined) :=
  rfl

/-- No call gets anywhere: `insert` has no slot to take, and without it there
is no order to update or to cancel. -/
theorem storageFresh_call (c : StorageCall Price) :
    (storageCall hash priceToIndex
      (storageFresh initBuckets MaxPriceLevels orders) c).1 =
        storageFresh initBuckets MaxPriceLevels orders := by
  cases c with
  | insert order =>
      rw [storageCall, storageFresh_insert]
  | update order_id new_quantity =>
      simp only [storageCall, StorageWorld.update, HftOrderBook.update,
        storageFresh_lookupOrder]
  | cancel order_id =>
      simp only [storageCall, StorageWorld.cancel,
        storageFresh_lookupOrder]

/-- In no reachable state is the storage accounted for, and in each of them
`insert` takes `back()` of an empty vector. -/
theorem storage_never_accounts (calls : List (StorageCall Price)) :
    let last := CallSystem.stateAfter (storageCall hash priceToIndex)
      (storageFresh initBuckets MaxPriceLevels orders) calls
    ¬ StorageAccounts hash last ∧ ¬ SlotForInsert last ∧
      ∀ order, (last.insert hash priceToIndex order).2 = .undefined := by
  intro last
  have hcall : ∀ world c,
      world = storageFresh initBuckets MaxPriceLevels orders →
        (storageCall hash priceToIndex world c).1 =
          storageFresh initBuckets MaxPriceLevels orders := by
    rintro world c rfl
    exact storageFresh_call hash orders priceToIndex c
  have hlast : last = storageFresh initBuckets MaxPriceLevels orders :=
    CallSystem.stateAfter_invariant hcall rfl calls
  rw [hlast]
  refine ⟨?_, ?_, ?_⟩
  · intro haccounts
    have hsize := (storageOver_conserved_iff [] orders).mp haccounts.conserved
    exact PoolSize_ne_zero hsize.symm
  · intro hslot
    exact hslot PoolSize_pos rfl
  · exact fun order => congrArg Prod.snd
      (storageFresh_insert hash orders priceToIndex order)

end Never

/-- Nor after an order has been offered and its cancellation asked for. -/
theorem storage_never_accounts_offered :
    let last := CallSystem.stateAfter
      (storageCall (fun id => id.toNat) (id : ℤ → ℤ))
      (storageFresh 4 4 fun _ : ℕ => ⟨0, 0, 0, false⟩)
      [.insert ⟨1, 2, 5, true⟩, .cancel 1]
    ¬ StorageAccounts (fun id => id.toNat) last ∧ ¬ SlotForInsert last ∧
      (last.insert (fun id => id.toNat) id ⟨2, 2, 5, true⟩).2 =
        .undefined := by
  intro last
  obtain ⟨haccounts, hslot, hinsert⟩ :=
    @storage_never_accounts 4 4 ℕ ℤ _ (fun id => id.toNat)
      (fun _ => ⟨0, 0, 0, false⟩) _ id [.insert ⟨1, 2, 5, true⟩, .cancel 1]
  exact ⟨haccounts, hslot, hinsert _⟩

/-- The first order of a new book. -/
theorem storage_first_insert :
    let world : StorageWorld 4 4 ℕ ℤ :=
      storageFresh 4 4 fun _ => ⟨0, 0, 0, false⟩
    world.orderCount_ + 0 = 0 ∧ world.freeMsgPtrs_ = [] ∧
      (world.insert (fun id => id.toNat) id ⟨1, 2, 5, true⟩).2 = .undefined ∧
      ¬ StorageAccounts (fun id => id.toNat) world := by
  intro world
  refine ⟨rfl, rfl, rfl, ?_⟩
  intro haccounts
  exact absurd haccounts.conserved (by decide)

/-! ## An insert that throws -/

/-- The counter, the free list, the id index, the levels and the cached indices
are the same. -/
def SameBook (before after : StorageWorld initBuckets MaxPriceLevels Addr Price) :
    Prop :=
  after.book = before.book ∧ after.freeMsgPtrs_ = before.freeMsgPtrs_ ∧
    after.orderCount_ = before.orderCount_

section Failure

variable [NeZero initBuckets] [DecidableEq Addr] (hash : UInt64 → ℕ)
  (priceToIndex : Price → ℤ)

omit [DecidableEq Addr] in
/-- Without storage the id index is the first thing `insert` changes. -/
theorem insert_threw (world : World initBuckets MaxPriceLevels Addr Price)
    (ptr : Addr) {message : String}
    (hthrew : (insert hash priceToIndex world ptr).2 = .threw message) :
    (insert hash priceToIndex world ptr).1 = world := by
  have hindex : ∀ text,
      (world.book.orderMap_.call hash
          (.assign (world.orders ptr).order_id (some ptr))).2 = .threw text →
        (world.book.orderMap_.call hash
          (.assign (world.orders ptr).order_id (some ptr))).1 =
            world.book.orderMap_ :=
    fun _ => FixedSizedChainingHashMap.call_threw world.book.orderMap_
  unfold insert at hthrew ⊢
  dsimp only at hthrew ⊢
  generalize world.book.orderMap_.call hash
    (.assign (world.orders ptr).order_id (some ptr)) = answer at hthrew hindex ⊢
  obtain ⟨orderMap, outcome⟩ := answer
  cases outcome with
  | threw text =>
      have hmap : orderMap = world.book.orderMap_ := hindex text rfl
      subst hmap
      rfl
  | value _ =>
      dsimp only at hthrew
      split at hthrew <;> cases hthrew
  | done | flag _ | found _ | undefined => cases hthrew

variable {world : StorageWorld initBuckets MaxPriceLevels Addr Price}
  {order : Order Price}

theorem StorageWorld.insert_of_full (hfull : PoolSize ≤ world.orderCount_) :
    world.insert hash priceToIndex order =
      (world, .threw "Order pool is full") :=
  if_pos hfull

/-- The id index throws after the counter and the free list have changed. -/
theorem StorageWorld.insert_of_refused
    (hroom : ¬ PoolSize ≤ world.orderCount_) {mem : Addr}
    (hmem : world.freeMsgPtrs_.getLast? = some mem)
    (hrefuses : world.book.orderMap_.Refuses hash order.order_id) :
    world.insert hash priceToIndex order =
      ({ world with
          orderCount_ := world.orderCount_ + 1
          freeMsgPtrs_ := world.freeMsgPtrs_.dropLast
          orders := Function.update world.orders mem order },
        .threw "No free nodes available in the pool") := by
  have hindex : world.book.orderMap_.call hash
      (.assign order.order_id (some mem)) =
        (world.book.orderMap_,
          .threw "No free nodes available in the pool") := by
    simp only [FixedSizedChainingHashMap.call,
      FixedSizedChainingHashMap.subscript_refused hrefuses]
  unfold StorageWorld.insert
  rw [if_neg hroom]
  simp only [hmem, hindex]

theorem StorageWorld.insert_not_threw
    (hroom : ¬ PoolSize ≤ world.orderCount_)
    (htakes : ¬ world.book.orderMap_.Refuses hash order.order_id)
    (message : String) :
    (world.insert hash priceToIndex order).2 ≠ .threw message := by
  unfold StorageWorld.insert
  rw [if_neg hroom]
  rcases world.freeMsgPtrs_.getLast? with _ | mem
  · exact nofun
  · have hindex : ∀ text, (world.book.orderMap_.call hash
        (.assign order.order_id (some mem))).2 ≠ .threw text := by
      intro text hthrew
      exact htakes
        (FixedSizedChainingHashMap.assign_threw_iff.mp ⟨text, hthrew⟩)
    dsimp only
    generalize world.book.orderMap_.call hash
      (.assign order.order_id (some mem)) = answer at hindex ⊢
    obtain ⟨orderMap, outcome⟩ := answer
    cases outcome with
    | threw text => exact absurd rfl (hindex text)
    | value _ =>
        dsimp only
        split <;> exact nofun
    | done | flag _ | found _ | undefined => exact nofun

/-- With storage, a failed `insert` leaves the book as it was unless it fails
in the id index. -/
theorem StorageWorld.insert_atomic_iff
    (hfree : world.freeMsgPtrs_.length =
      PoolSize.toNat - world.orderCount_.toNat) :
    (∀ message, (world.insert hash priceToIndex order).2 = .threw message →
        SameBook world (world.insert hash priceToIndex order).1) ↔
      PoolSize ≤ world.orderCount_ ∨
        ¬ world.book.orderMap_.Refuses hash order.order_id := by
  by_cases hfull : PoolSize ≤ world.orderCount_
  · rw [StorageWorld.insert_of_full hash priceToIndex hfull]
    exact ⟨fun _ => Or.inl hfull, fun _ _ _ => ⟨rfl, rfl, rfl⟩⟩
  · by_cases hrefuses : world.book.orderMap_.Refuses hash order.order_id
    · have hlt : world.orderCount_.toNat < PoolSize.toNat :=
        UInt64.lt_iff_toNat_lt.mp (UInt64.not_le.mp hfull)
      have hne : world.freeMsgPtrs_ ≠ [] := by
        intro hnil
        rw [hnil, List.length_nil] at hfree
        omega
      rw [StorageWorld.insert_of_refused hash priceToIndex hfull
        (List.getLast?_eq_some_getLast hne) hrefuses]
      constructor
      · intro hsame
        -- the counter has moved by one
        have hcount : world.orderCount_ + 1 = world.orderCount_ :=
          (hsame _ rfl).2.2
        simp at hcount
      · rintro (hfull' | htakes)
        · exact absurd hfull' hfull
        · exact absurd hrefuses htakes
    · constructor
      · exact fun _ => Or.inr hrefuses
      · intro _ message hthrew
        exact absurd hthrew
          (StorageWorld.insert_not_threw hash priceToIndex hfull hrefuses
            message)

/-- A failed `insert` of an `OrderBook<false>` leaves the book as it was.  That
of an `OrderBook<true>` does so exactly when it is refused by the check of the
counter, and not by the id index. -/
theorem insert_failure_keeps_book_iff
    (world : World initBuckets MaxPriceLevels Addr Price) (ptr : Addr)
    (storage : StorageWorld initBuckets MaxPriceLevels Addr Price)
    (order : Order Price)
    (hfree : storage.freeMsgPtrs_.length =
      PoolSize.toNat - storage.orderCount_.toNat) :
    (∀ message, (insert hash priceToIndex world ptr).2 = .threw message →
        (insert hash priceToIndex world ptr).1 = world) ∧
      ((∀ message,
          (storage.insert hash priceToIndex order).2 = .threw message →
            SameBook storage (storage.insert hash priceToIndex order).1) ↔
        PoolSize ≤ storage.orderCount_ ∨
          ¬ storage.book.orderMap_.Refuses hash order.order_id) := by
  constructor
  · intro message hthrew
    exact insert_threw hash priceToIndex world ptr hthrew
  · exact StorageWorld.insert_atomic_iff hash priceToIndex hfree

end Failure

/-- An id index with 16 nodes, all of them used. -/
def sixteenIds : FixedSizedChainingHashMap (2 ^ 0) UInt64 (Option ℕ) :=
  CallSystem.stateAfter (FixedSizedChainingHashMap.call fun id => id.toNat)
    (FixedSizedChainingHashMap.empty (2 ^ 0) UInt64 (Option ℕ))
    ((List.range 16).map fun id => .assign (UInt64.ofNat id) (some id))

/-- All slots but one are taken, by orders under 16 ids. -/
def oneSlotLeft : StorageWorld (2 ^ 0) 4 ℕ ℤ where
  book := { fresh (2 ^ 0) 4 ℕ with orderMap_ := sixteenIds }
  orders := fun _ => ⟨0, 0, 0, false⟩
  orderPool_ := []
  freeMsgPtrs_ := [16]
  orderCount_ := PoolSize - 1

/-- An order under one of the ids is taken by the last slot. -/
theorem insert_failure_keeps_book_stored_id :
    let after := oneSlotLeft.insert (fun id => id.toNat) id ⟨3, 2, 5, true⟩
    oneSlotLeft.freeMsgPtrs_.length =
        PoolSize.toNat - oneSlotLeft.orderCount_.toNat ∧
      ∀ message, after.2 = .threw message → SameBook oneSlotLeft after.1 := by
  intro after
  have hfree : oneSlotLeft.freeMsgPtrs_.length =
      PoolSize.toNat - oneSlotLeft.orderCount_.toNat := by decide
  refine ⟨hfree, ?_⟩
  apply (insert_failure_keeps_book_iff (fun id => id.toNat) id
    oneSlotLeft.toWorld 0 oneSlotLeft ⟨3, 2, 5, true⟩ hfree).2.mpr
  right
  rintro ⟨hmissing, -⟩
  revert hmissing
  decide

/-- An order under another id is refused by the index; the counter and the free
list do not go back. -/
theorem insert_failure_loses_slot :
    let after := oneSlotLeft.insert (fun id => id.toNat) id ⟨99, 2, 5, true⟩
    oneSlotLeft.freeMsgPtrs_.length =
        PoolSize.toNat - oneSlotLeft.orderCount_.toNat ∧
      after.2 = .threw "No free nodes available in the pool" ∧
      after.1.orderCount_ = oneSlotLeft.orderCount_ + 1 ∧
      after.1.freeMsgPtrs_ = [] ∧ ¬ SameBook oneSlotLeft after.1 := by
  intro after
  have hcount : after.1.orderCount_ = oneSlotLeft.orderCount_ + 1 := by decide
  refine ⟨by decide, by decide, hcount, by decide, ?_⟩
  rintro ⟨-, -, hsame⟩
  revert hsame
  decide

end HftOrderBook
end TradingStudies
