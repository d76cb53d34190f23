import TradingStudies.HftOrderBookRefinement
import TradingStudies.MockOrderBook

/-!
# The two order books side by side

Both books are given the same calls.  Their level arrays stay equal whatever
the quantities are.  Their cached indices stay equal as long as every changed
level either is emptied while it is the best one, or belongs to a side whose
best index already is the reset value; any other change leaves the later book's
index alone and resets the one of the mock book.
-/

namespace TradingStudies
namespace MockOrderBook

open HftOrderBook (Outcome Call LiveOrder IsLive DistinctIds addAt levelAt
  positiveAt World IndexRefines)

variable {initBuckets POOL_SIZE MaxPriceLevels : ℕ} {Addr Price : Type*}

/-- The two books and the list of live orders. -/
structure Books (initBuckets POOL_SIZE MaxPriceLevels : ℕ)
    (Addr Price : Type*) where
  hft : World initBuckets MaxPriceLevels Addr Price
  mock : OrderBook POOL_SIZE MaxPriceLevels Price
  live : List (LiveOrder Addr Price)

structure SameLevels (hft : HftOrderBook.OrderBook initBuckets MaxPriceLevels Addr)
    (mock : OrderBook POOL_SIZE MaxPriceLevels Price) : Prop where
  bids : mock.bid_levels = hft.bidLevels_
  asks : mock.ask_levels = hft.askLevels_

structure SameBest (hft : HftOrderBook.OrderBook initBuckets MaxPriceLevels Addr)
    (mock : OrderBook POOL_SIZE MaxPriceLevels Price) : Prop where
  bid : mock.best_bid_index = hft.bestBidIndex_
  ask : mock.best_ask_index = hft.bestAskIndex_

/-- A change of a level is harmless if it empties the best level of its side or
finds the best index at the reset value. -/
def Harmless (hft : HftOrderBook.OrderBook initBuckets MaxPriceLevels Addr)
    (is_buy : Bool) (idx : ℤ) (updateQuantity : Int32) : Prop :=
  if is_buy then
    (idx = hft.bestBidIndex_ ∧
      (levelAt hft.bidLevels_ idx).map (· + updateQuantity) = some 0) ∨
        hft.bestBidIndex_ = 0
  else
    (idx = hft.bestAskIndex_ ∧
      (levelAt hft.askLevels_ idx).map (· + updateQuantity) = some 0) ∨
        hft.bestAskIndex_ = (MaxPriceLevels : ℤ) - 1

instance (hft : HftOrderBook.OrderBook initBuckets MaxPriceLevels Addr)
    (is_buy : Bool) (idx : ℤ) (updateQuantity : Int32) :
    Decidable (Harmless hft is_buy idx updateQuantity) :=
  match is_buy with
  | true => inferInstanceAs (Decidable (_ ∨ _))
  | false => inferInstanceAs (Decidable (_ ∨ _))

/-! ## Writes to the levels -/

variable {hft : HftOrderBook.OrderBook initBuckets MaxPriceLevels Addr}
  {mock : OrderBook POOL_SIZE MaxPriceLevels Price} {idx : ℤ}

/-- The written level is the sum of the old one and the quantity. -/
theorem levelAt_added (levels : Fin MaxPriceLevels → Int32)
    (hlow : 0 ≤ idx) (hhigh : idx < MaxPriceLevels) (quantity : Int32) :
    ∃ added, addAt levels idx quantity = some added ∧
      levelAt added idx = (levelAt levels idx).map (· + quantity) := by
  refine ⟨_, HftOrderBook.addAt_eq hlow hhigh, ?_⟩
  rw [HftOrderBook.levelAt_eq hlow hhigh, HftOrderBook.levelAt_eq hlow hhigh,
    Function.update_self]
  rfl

theorem raiseLevel_agrees {priceToIndex : Price → ℤ}
    (hlevels : SameLevels hft mock) (hbest : SameBest hft mock)
    (order : HftOrderBook.Order Price)
    (hlow : 0 ≤ priceToIndex order.price)
    (hhigh : priceToIndex order.price < MaxPriceLevels) :
    ∃ hft' mock',
      HftOrderBook.raiseLevel priceToIndex hft order = some hft' ∧
        raiseLevel priceToIndex mock order = some mock' ∧
        hft'.orderMap_ = hft.orderMap_ ∧ SameStorage mock mock' ∧
        SameLevels hft' mock' ∧ SameBest hft' mock' := by
  unfold HftOrderBook.raiseLevel raiseLevel
  rw [hlevels.bids, hlevels.asks, hbest.bid, hbest.ask]
  cases hside : order.is_buy with
  | true =>
      rcases levelAt_added hft.bidLevels_ hlow hhigh
        order.quantity with ⟨added, hadded, -⟩
      simp only [if_true, hadded]
      exact ⟨_, _, rfl, rfl, rfl, ⟨rfl, rfl, rfl, rfl⟩,
        ⟨rfl, rfl⟩, ⟨rfl, rfl⟩⟩
  | false =>
      rcases levelAt_added hft.askLevels_ hlow hhigh
        order.quantity with ⟨added, hadded, -⟩
      simp only [Bool.false_eq_true, if_false, hadded]
      exact ⟨_, _, rfl, rfl, rfl, ⟨rfl, rfl, rfl, rfl⟩,
        ⟨rfl, rfl⟩, ⟨rfl, rfl⟩⟩

theorem updateBidLevel_agrees (hlevels : SameLevels hft mock)
    (hbest : SameBest hft mock) (hlow : 0 ≤ idx)
    (hhigh : idx < MaxPriceLevels) (quantity : Int32) :
    ∃ hft' mock',
      HftOrderBook.updateBidLevel hft idx quantity = some hft' ∧
        updateBidLevel mock idx quantity = some mock' ∧
        hft'.orderMap_ = hft.orderMap_ ∧ SameStorage mock mock' ∧
        SameLevels hft' mock' ∧
        (SameBest hft' mock' ↔ Harmless hft true idx quantity) := by
  rcases levelAt_added hft.bidLevels_ hlow hhigh quantity with
    ⟨added, hadded, hlevel⟩
  have hharmless : Harmless hft true idx quantity ↔
      (idx = hft.bestBidIndex_ ∧ levelAt added idx = some 0) ∨
        hft.bestBidIndex_ = 0 := by
    rw [hlevel]
    rfl
  rw [hharmless]
  unfold HftOrderBook.updateBidLevel updateBidLevel
  rw [hlevels.bids, hbest.bid, hadded]
  by_cases hempties : idx = hft.bestBidIndex_ ∧ levelAt added idx = some 0
  · simp only [if_pos hempties]
    cases BestIndex.scanDown (positiveAt added) idx.toNat with
    | some i =>
        exact ⟨_, _, rfl, rfl, rfl, ⟨rfl, rfl, rfl, rfl⟩,
          ⟨rfl, hlevels.asks⟩,
          iff_of_true ⟨rfl, hbest.ask⟩ (Or.inl hempties)⟩
    | none =>
        exact ⟨_, _, rfl, rfl, rfl, ⟨rfl, rfl, rfl, rfl⟩,
          ⟨rfl, hlevels.asks⟩,
          iff_of_true ⟨rfl, hbest.ask⟩ (Or.inl hempties)⟩
  · simp only [if_neg hempties]
    refine ⟨_, _, rfl, rfl, rfl, ⟨rfl, rfl, rfl, rfl⟩,
      ⟨rfl, hlevels.asks⟩, ?_⟩
    constructor
    · intro hsame
      exact Or.inr hsame.bid.symm
    · intro hharmless
      rcases hharmless with habsurd | hreset
      · exact absurd habsurd hempties
      · exact ⟨hreset.symm, hbest.ask⟩

theorem updateAskLevel_agrees (hlevels : SameLevels hft mock)
    (hbest : SameBest hft mock) (hlow : 0 ≤ idx)
    (hhigh : idx < MaxPriceLevels) (quantity : Int32) :
    ∃ hft' mock',
      HftOrderBook.updateAskLevel hft idx quantity = some hft' ∧
        updateAskLevel mock idx quantity = some mock' ∧
        hft'.orderMap_ = hft.orderMap_ ∧ SameStorage mock mock' ∧
        SameLevels hft' mock' ∧
        (SameBest hft' mock' ↔ Harmless hft false idx quantity) := by
  rcases levelAt_added hft.askLevels_ hlow hhigh quantity with
    ⟨added, hadded, hlevel⟩
  have hharmless : Harmless hft false idx quantity ↔
      (idx = hft.bestAskIndex_ ∧ levelAt added idx = some 0) ∨
        hft.bestAskIndex_ = (MaxPriceLevels : ℤ) - 1 := by
    rw [hlevel]
    rfl
  rw [hharmless]
  unfold HftOrderBook.updateAskLevel updateAskLevel
  rw [hlevels.asks, hbest.ask, hadded]
  by_cases hempties : idx = hft.bestAskIndex_ ∧ levelAt added idx = some 0
  · simp only [if_pos hempties]
    cases BestIndex.scanUp (positiveAt added)
        (MaxPriceLevels - (idx.toNat + 1)) (idx.toNat + 1) with
    | some i =>
        exact ⟨_, _, rfl, rfl, rfl, ⟨rfl, rfl, rfl, rfl⟩,
          ⟨hlevels.bids, rfl⟩,
          iff_of_true ⟨hbest.bid, rfl⟩ (Or.inl hempties)⟩
    | none =>
        exact ⟨_, _, rfl, rfl, rfl, ⟨rfl, rfl, rfl, rfl⟩,
          ⟨hlevels.bids, rfl⟩,
          iff_of_true ⟨hbest.bid, rfl⟩ (Or.inl hempties)⟩
  · simp only [if_neg hempties]
    refine ⟨_, _, rfl, rfl, rfl, ⟨rfl, rfl, rfl, rfl⟩,
      ⟨hlevels.bids, rfl⟩, ?_⟩
    constructor
    · intro hsame
      exact Or.inr hsame.ask.symm
    · intro hharmless
      rcases hharmless with habsurd | hreset
      · exact absurd habsurd hempties
      · exact ⟨hbest.bid, hreset.symm⟩

theorem updatePriceLevel_agrees (hlevels : SameLevels hft mock)
    (hbest : SameBest hft mock) (is_buy : Bool) (hlow : 0 ≤ idx)
    (hhigh : idx < MaxPriceLevels) (quantity : Int32) :
    ∃ hft' mock',
      HftOrderBook.updatePriceLevel is_buy hft idx quantity = some hft' ∧
        updatePriceLevel is_buy mock idx quantity = some mock' ∧
        hft'.orderMap_ = hft.orderMap_ ∧ SameStorage mock mock' ∧
        SameLevels hft' mock' ∧
        (SameBest hft' mock' ↔ Harmless hft is_buy idx quantity) := by
  cases is_buy with
  | true => exact updateBidLevel_agrees hlevels hbest hlow hhigh quantity
  | false => exact updateAskLevel_agrees hlevels hbest hlow hhigh quantity

/-! ## Runs -/

/-- A condition on the order with an id, where ids are distinct. -/
theorem forall_entry_iff {live : List (LiveOrder Addr Price)}
    (hdistinct : DistinctIds live) {entry : LiveOrder Addr Price}
    (hentry : entry ∈ live) (condition : LiveOrder Addr Price → Prop) :
    (∀ other ∈ live, other.order.order_id = entry.order.order_id →
        condition other) ↔ condition entry := by
  constructor
  · intro hall
    exact hall entry hentry rfl
  · intro hcondition other hother hid
    rw [hdistinct.unique hother hentry hid]
    exact hcondition

theorem forall_entry_of_dead {live : List (LiveOrder Addr Price)}
    {order_id : UInt64} (hdead : ¬ IsLive live order_id)
    (condition : LiveOrder Addr Price → Prop) :
    ∀ entry ∈ live, entry.order.order_id = order_id → condition entry := by
  intro entry hentry hid
  exact absurd ⟨entry, hentry, hid⟩ hdead

section Runs

variable [NeZero initBuckets] [DecidableEq Addr]
variable (hash : UInt64 → ℕ) (priceToIndex : Price → ℤ)

def Books.call (books : Books initBuckets POOL_SIZE MaxPriceLevels Addr Price)
    (c : Call Addr Price) :
    Books initBuckets POOL_SIZE MaxPriceLevels Addr Price ×
      Outcome × Outcome :=
  let (hft, outcome) := HftOrderBook.call hash priceToIndex books.hft c
  let (mock, outcome') := MockOrderBook.call priceToIndex books.mock c
  (⟨hft, mock, (HftOrderBook.abstractCall books.live c).1⟩,
    outcome, outcome')

/-- What the callers promise: fresh ids, orders that are not overwritten while
they are live, prices inside the level arrays, and room in both books. -/
def Promised (books : Books initBuckets POOL_SIZE MaxPriceLevels Addr Price) :
    Call Addr Price → Prop
  | .insert ptr order =>
      ¬ IsLive books.live order.order_id ∧
        (∀ entry ∈ books.live, entry.ptr ≠ ptr) ∧
          0 ≤ priceToIndex order.price ∧
          priceToIndex order.price < MaxPriceLevels ∧
          books.live.length < 16 * initBuckets ∧
          books.live.length < POOL_SIZE
  | .update _ _ => True
  | .cancel _ => True

/-- The level changes of a call are harmless. -/
def HarmlessCall
    (books : Books initBuckets POOL_SIZE MaxPriceLevels Addr Price) :
    Call Addr Price → Prop
  | .insert _ _ => True
  | .update order_id new_quantity =>
      ∀ entry ∈ books.live, entry.order.order_id = order_id →
        Harmless books.hft.book entry.order.is_buy
          (priceToIndex entry.order.price)
          (new_quantity - entry.order.quantity)
  | .cancel order_id =>
      ∀ entry ∈ books.live, entry.order.order_id = order_id →
        Harmless books.hft.book entry.order.is_buy
          (priceToIndex entry.order.price) (-entry.order.quantity)

/-- The tops of both books, as the client reads them. -/
def TopsAgree (indexToPrice : ℤ → Price)
    (books : Books initBuckets POOL_SIZE MaxPriceLevels Addr Price) : Prop :=
  bestBid indexToPrice books.mock =
      HftOrderBook.bestBid indexToPrice books.hft.book ∧
    bestAsk indexToPrice books.mock =
      HftOrderBook.bestAsk indexToPrice books.hft.book

def BestIndicesAgree
    (books : Books initBuckets POOL_SIZE MaxPriceLevels Addr Price) : Prop :=
  SameBest books.hft.book books.mock

/-- Both books hold the live orders and have the same level arrays. -/
structure BooksRefine
    (books : Books initBuckets POOL_SIZE MaxPriceLevels Addr Price) :
    Prop where
  index : IndexRefines hash books.hft books.live
  pool : PoolRefines books.mock books.live
  range : ∀ entry ∈ books.live, 0 ≤ priceToIndex entry.order.price ∧
    priceToIndex entry.order.price < MaxPriceLevels
  levels : SameLevels books.hft.book books.mock

variable {hash priceToIndex}
  {books : Books initBuckets POOL_SIZE MaxPriceLevels Addr Price}

theorem insert_agrees (hrefine : BooksRefine hash priceToIndex books)
    (hbest : BestIndicesAgree books) {ptr : Addr}
    {order : HftOrderBook.Order Price}
    (hpromised : Promised priceToIndex books (.insert ptr order)) :
    BooksRefine hash priceToIndex
        (books.call hash priceToIndex (.insert ptr order)).1 ∧
      BestIndicesAgree
        (books.call hash priceToIndex (.insert ptr order)).1 := by
  rcases hpromised with ⟨hfresh, hptr, hlow, hhigh, hroom, hroom'⟩
  obtain ⟨orderMap, heval, hindex⟩ := HftOrderBook.insert_index priceToIndex
    hrefine.index hfresh hptr hroom
  have hlevels : SameLevels { books.hft.book with orderMap_ := orderMap }
      { books.mock with order_count := books.mock.order_count + 1 } :=
    ⟨hrefine.levels.bids, hrefine.levels.asks⟩
  have hsame : SameBest { books.hft.book with orderMap_ := orderMap }
      { books.mock with order_count := books.mock.order_count + 1 } :=
    ⟨hbest.bid, hbest.ask⟩
  obtain ⟨hft', mock', hraise, hraise', hmap, hstorage, hlevels', hbest'⟩ :=
    raiseLevel_agrees hlevels hsame order hlow hhigh
  have hcount : ¬ books.mock.order_count ≥ POOL_SIZE := by
    rw [hrefine.pool.count]
    omega
  -- A slot is free, since fewer orders are live than there are slots.
  cases hmemory : books.mock.order_memory with
  | nil =>
      have hfull := hrefine.pool.room
      rw [hmemory, List.length_nil] at hfull
      omega
  | cons mem rest =>
      have hmemory' : mock'.order_memory = mem :: rest := by
        rw [hstorage.order_memory]
        exact hmemory
      have hmock : MockOrderBook.call priceToIndex books.mock
          (.insert ptr order) =
        ({ mock' with
            order_memory := rest
            order_pool := Function.update mock'.order_pool mem order
            order_map := mock'.order_map.insert order.order_id mem },
          .done) := by
        simp only [MockOrderBook.call, MockOrderBook.insert, if_neg hcount,
          hraise', hmemory']
      rw [hraise] at heval
      simp only [Books.call, heval, hmock]
      constructor
      · constructor
        · exact hindex hft' hmap
        · apply hrefine.pool.insert hmemory ptr hfresh
          · simp only [hstorage.order_pool]
          · rfl
          · exact hstorage.order_count
          · simp only [hstorage.order_map]
        · intro entry hentry
          rcases List.mem_cons.mp hentry with rfl | hold
          · exact ⟨hlow, hhigh⟩
          · exact hrefine.range entry hold
        · exact ⟨hlevels'.bids, hlevels'.asks⟩
      · exact ⟨hbest'.bid, hbest'.ask⟩

theorem update_agrees (hrefine : BooksRefine hash priceToIndex books)
    (hbest : BestIndicesAgree books) {entry : LiveOrder Addr Price}
    (hentry : entry ∈ books.live) (new_quantity : Int32) :
    BooksRefine hash priceToIndex (books.call hash priceToIndex
        (.update entry.order.order_id new_quantity)).1 ∧
      (BestIndicesAgree (books.call hash priceToIndex
          (.update entry.order.order_id new_quantity)).1 ↔
        Harmless books.hft.book entry.order.is_buy
          (priceToIndex entry.order.price)
          (new_quantity - entry.order.quantity)) := by
  rcases hrefine.range entry hentry with ⟨hlow, hhigh⟩
  obtain ⟨orderMap, heval, hindex⟩ := HftOrderBook.update_index priceToIndex
    hrefine.index hentry new_quantity
  rcases hrefine.pool.entries entry hentry with
    ⟨slot, hfound, hslot, hfree⟩
  have hlevels : SameLevels { books.hft.book with orderMap_ := orderMap }
      books.mock := ⟨hrefine.levels.bids, hrefine.levels.asks⟩
  have hsame : SameBest { books.hft.book with orderMap_ := orderMap }
      books.mock := ⟨hbest.bid, hbest.ask⟩
  obtain ⟨hft', mock', hlevel, hlevel', hmap, hstorage, hlevels', hbest'⟩ :=
    updatePriceLevel_agrees hlevels hsame entry.order.is_buy hlow hhigh
      (new_quantity - entry.order.quantity)
  have hmock : MockOrderBook.call priceToIndex books.mock
      (.update entry.order.order_id new_quantity : Call Addr Price) =
    ({ mock' with
        order_pool := Function.update mock'.order_pool slot
          { entry.order with quantity := new_quantity } }, .done) := by
    simp only [MockOrderBook.call, MockOrderBook.update, hfound, hslot,
      hlevel']
  have hlive : IsLive books.live entry.order.order_id :=
    ⟨entry, hentry, rfl⟩
  rw [hlevel] at heval
  simp only [Books.call, heval, hmock, HftOrderBook.abstractCall,
    if_pos hlive]
  constructor
  · constructor
    · exact hindex hft' hmap
    · apply hrefine.pool.update hrefine.index.distinct hentry hfound hslot
        new_quantity
      · simp only [hstorage.order_pool]
      · exact hstorage.order_memory
      · exact hstorage.order_count
      · exact hstorage.order_map
    · intro changed hchanged
      rcases List.mem_map.mp hchanged with ⟨other, hother, rfl⟩
      rw [HftOrderBook.setQuantity_price]
      exact hrefine.range other hother
    · exact ⟨hlevels'.bids, hlevels'.asks⟩
  · refine Iff.trans ?_ hbest'
    constructor
    · intro hagree
      exact ⟨hagree.bid, hagree.ask⟩
    · intro hagree
      exact ⟨hagree.bid, hagree.ask⟩

theorem cancel_agrees (hrefine : BooksRefine hash priceToIndex books)
    (hbest : BestIndicesAgree books) {entry : LiveOrder Addr Price}
    (hentry : entry ∈ books.live) :
    BooksRefine hash priceToIndex (books.call hash priceToIndex
        (.cancel entry.order.order_id)).1 ∧
      (BestIndicesAgree (books.call hash priceToIndex
          (.cancel entry.order.order_id)).1 ↔
        Harmless books.hft.book entry.order.is_buy
          (priceToIndex entry.order.price) (-entry.order.quantity)) := by
  rcases hrefine.range entry hentry with ⟨hlow, hhigh⟩
  obtain ⟨orderMap, erasedMap, heval, hindex⟩ :=
    HftOrderBook.cancel_index priceToIndex hrefine.index hentry
  rcases hrefine.pool.entries entry hentry with
    ⟨slot, hfound, hslot, hfree⟩
  have hlevels : SameLevels { books.hft.book with orderMap_ := orderMap }
      books.mock := ⟨hrefine.levels.bids, hrefine.levels.asks⟩
  have hsame : SameBest { books.hft.book with orderMap_ := orderMap }
      books.mock := ⟨hbest.bid, hbest.ask⟩
  obtain ⟨hft', mock', hlevel, hlevel', hmap, hstorage, hlevels', hbest'⟩ :=
    updatePriceLevel_agrees hlevels hsame entry.order.is_buy hlow hhigh
      (-entry.order.quantity)
  have hmock : MockOrderBook.call priceToIndex books.mock
      (.cancel entry.order.order_id : Call Addr Price) =
    ({ mock' with
        order_memory := slot :: mock'.order_memory
        order_count := mock'.order_count - 1
        order_map := mock'.order_map.erase entry.order.order_id },
      .done) := by
    simp only [MockOrderBook.call, MockOrderBook.cancel, hfound, hslot,
      hlevel']
  have hlive : IsLive books.live entry.order.order_id :=
    ⟨entry, hentry, rfl⟩
  simp only [Books.call, heval hft' hlevel hmap, hmock,
    HftOrderBook.abstractCall, if_pos hlive]
  constructor
  · constructor
    · exact hindex hft'
    · apply hrefine.pool.cancel hrefine.index.distinct hentry hslot hfree
      · exact hstorage.order_pool
      · simp only [hstorage.order_memory]
      · simp only [hstorage.order_count]
      · simp only [hstorage.order_map]
    · intro other hother
      exact hrefine.range other (List.mem_filter.mp hother).1
    · exact ⟨hlevels'.bids, hlevels'.asks⟩
  · refine Iff.trans ?_ hbest'
    constructor
    · intro hagree
      exact ⟨hagree.bid, hagree.ask⟩
    · intro hagree
      exact ⟨hagree.bid, hagree.ask⟩

/-- An unknown id is refused by both books. -/
theorem dead_agrees (hrefine : BooksRefine hash priceToIndex books)
    {order_id : UInt64} (hdead : ¬ IsLive books.live order_id)
    {c : Call Addr Price}
    (hc : (∃ new_quantity, c = .update order_id new_quantity) ∨
      c = .cancel order_id) :
    (books.call hash priceToIndex c).1 = books := by
  have hhft : HftOrderBook.call hash priceToIndex books.hft c =
      (books.hft, .threw "Order not found") :=
    HftOrderBook.call_of_dead hrefine.index hdead hc
  have habsent := hrefine.pool.absent order_id hdead
  rcases hc with ⟨new_quantity, rfl⟩ | rfl
  · simp only [Books.call, hhft, MockOrderBook.call, MockOrderBook.update,
      habsent, HftOrderBook.abstractCall, if_neg hdead]
  · simp only [Books.call, hhft, MockOrderBook.call, MockOrderBook.cancel,
      habsent, HftOrderBook.abstractCall, if_neg hdead]

theorem call_agrees (hrefine : BooksRefine hash priceToIndex books)
    (hbest : BestIndicesAgree books) {c : Call Addr Price}
    (hpromised : Promised priceToIndex books c) :
    BooksRefine hash priceToIndex (books.call hash priceToIndex c).1 ∧
      (BestIndicesAgree (books.call hash priceToIndex c).1 ↔
        HarmlessCall priceToIndex books c) := by
  cases c with
  | insert ptr order =>
      rcases insert_agrees hrefine hbest hpromised with ⟨hnext, hagree⟩
      exact ⟨hnext, iff_of_true hagree trivial⟩
  | update order_id new_quantity =>
      by_cases hlive : IsLive books.live order_id
      · rcases hlive with ⟨entry, hentry, rfl⟩
        rcases update_agrees hrefine hbest hentry new_quantity with
          ⟨hnext, hagree⟩
        refine ⟨hnext, hagree.trans ?_⟩
        exact (forall_entry_iff hrefine.index.distinct hentry fun other =>
          Harmless books.hft.book other.order.is_buy
            (priceToIndex other.order.price)
            (new_quantity - other.order.quantity)).symm
      · rw [dead_agrees hrefine hlive (Or.inl ⟨new_quantity, rfl⟩)]
        exact ⟨hrefine,
          iff_of_true hbest (forall_entry_of_dead hlive _)⟩
  | cancel order_id =>
      by_cases hlive : IsLive books.live order_id
      · rcases hlive with ⟨entry, hentry, rfl⟩
        rcases cancel_agrees hrefine hbest hentry with ⟨hnext, hagree⟩
        refine ⟨hnext, hagree.trans ?_⟩
        exact (forall_entry_iff hrefine.index.distinct hentry fun other =>
          Harmless books.hft.book other.order.is_buy
            (priceToIndex other.order.price)
            (-other.order.quantity)).symm
      · rw [dead_agrees hrefine hlive (Or.inr rfl)]
        exact ⟨hrefine,
          iff_of_true hbest (forall_entry_of_dead hlive _)⟩

omit [DecidableEq Addr] in
theorem topsAgree_of_best (hrefine : BooksRefine hash priceToIndex books)
    (hbest : BestIndicesAgree books) (indexToPrice : ℤ → Price) :
    TopsAgree indexToPrice books := by
  unfold TopsAgree bestBid bestAsk HftOrderBook.bestBid HftOrderBook.bestAsk
  rw [hrefine.levels.bids, hrefine.levels.asks, hbest.bid, hbest.ask]
  exact ⟨rfl, rfl⟩

/-- Two new books. -/
def Books.start (initBuckets POOL_SIZE MaxPriceLevels : ℕ)
    [Inhabited Price] (orders : Addr → HftOrderBook.Order Price) :
    Books initBuckets POOL_SIZE MaxPriceLevels Addr Price where
  hft := ⟨HftOrderBook.fresh initBuckets MaxPriceLevels Addr, orders⟩
  mock := construct POOL_SIZE MaxPriceLevels Price
  live := []

omit [DecidableEq Addr] in
theorem start_booksRefine [Inhabited Price]
    (orders : Addr → HftOrderBook.Order Price) :
    BooksRefine hash priceToIndex
      (Books.start initBuckets POOL_SIZE MaxPriceLevels orders) where
  index := by
    have hfresh : HftOrderBook.BookRefines hash priceToIndex
        ⟨HftOrderBook.fresh initBuckets MaxPriceLevels Addr, orders⟩ [] :=
      HftOrderBook.fresh_bookRefines orders
    exact hfresh.indexRefines
  pool := construct_poolRefines
  range := fun _ hentry => absurd hentry List.not_mem_nil
  levels := ⟨rfl, rfl⟩

/-- The cached indices of the two books agree after every call of a run if and
only if every call changes its level harmlessly, and then both books have the
same top after every call. -/
theorem mockOrderBook_agrees_iff [Inhabited Price]
    (hash : UInt64 → ℕ) (priceToIndex : Price → ℤ) (indexToPrice : ℤ → Price)
    (orders : Addr → HftOrderBook.Order Price)
    {calls : List (Call Addr Price)}
    (hpromised : CallSystem.AllAllowed (Books.call hash priceToIndex)
      (Promised priceToIndex)
      (Books.start initBuckets POOL_SIZE MaxPriceLevels orders) calls) :
    (CallSystem.AllAllowed (Books.call hash priceToIndex)
          (fun books c =>
            BestIndicesAgree (books.call hash priceToIndex c).1)
          (Books.start initBuckets POOL_SIZE MaxPriceLevels orders) calls ↔
        CallSystem.AllAllowed (Books.call hash priceToIndex)
          (HarmlessCall priceToIndex)
          (Books.start initBuckets POOL_SIZE MaxPriceLevels orders) calls) ∧
      (CallSystem.AllAllowed (Books.call hash priceToIndex)
          (HarmlessCall priceToIndex)
          (Books.start initBuckets POOL_SIZE MaxPriceLevels orders) calls →
        CallSystem.AllAllowed (Books.call hash priceToIndex)
          (fun books c =>
            TopsAgree indexToPrice (books.call hash priceToIndex c).1)
          (Books.start initBuckets POOL_SIZE MaxPriceLevels orders)
          calls) := by
  have hstart : BooksRefine hash priceToIndex
        (Books.start initBuckets POOL_SIZE MaxPriceLevels orders) ∧
      BestIndicesAgree
        (Books.start initBuckets POOL_SIZE MaxPriceLevels orders) :=
    ⟨start_booksRefine orders, ⟨rfl, rfl⟩⟩
  constructor
  · apply CallSystem.allAllowed_congr (fun books =>
      BooksRefine hash priceToIndex books ∧ BestIndicesAgree books)
      ?_ ?_ hstart hpromised
    · intro books c hinv hcall hharmless
      rcases call_agrees hinv.1 hinv.2 hcall with ⟨hnext, hagree⟩
      exact ⟨hnext, hagree.mpr hharmless⟩
    · intro books c hinv hcall
      exact (call_agrees hinv.1 hinv.2 hcall).2
  · intro hharmless
    apply CallSystem.allAllowed_of_invariant (fun books =>
      BooksRefine hash priceToIndex books ∧ BestIndicesAgree books)
      ?_ hstart (hpromised.and hharmless)
    intro books c hinv hcall
    rcases call_agrees hinv.1 hinv.2 hcall.1 with ⟨hnext, hagree⟩
    have hbest := hagree.mpr hcall.2
    exact ⟨topsAgree_of_best hnext hbest indexToPrice, hnext, hbest⟩

instance (books : Books initBuckets POOL_SIZE MaxPriceLevels Addr Price) :
    ∀ c, Decidable (Promised priceToIndex books c)
  | .insert _ _ => inferInstanceAs (Decidable (_ ∧ _))
  | .update _ _ => inferInstanceAs (Decidable True)
  | .cancel _ => inferInstanceAs (Decidable True)

instance (books : Books initBuckets POOL_SIZE MaxPriceLevels Addr Price) :
    ∀ c, Decidable (HarmlessCall priceToIndex books c)
  | .insert _ _ => inferInstanceAs (Decidable True)
  | .update _ _ => inferInstanceAs (Decidable (∀ entry ∈ books.live, _))
  | .cancel _ => inferInstanceAs (Decidable (∀ entry ∈ books.live, _))

/-- Two buys, the better of which is cancelled. -/
theorem mockOrderBook_agrees_cancel_best :
    CallSystem.AllAllowed (Books.call (fun id => id.toNat) id)
      (fun books c => TopsAgree id
        (books.call (fun id => id.toNat) id c).1)
      (Books.start 1 4 4 (fun _ : ℕ => ⟨0, (0 : ℤ), 0, false⟩))
      [.insert 0 ⟨1, 1, 5, true⟩, .insert 1 ⟨2, 2, 7, true⟩,
        .insert 2 ⟨3, 3, 9, false⟩, .cancel 2] :=
  (mockOrderBook_agrees_iff (fun id => id.toNat) id id
    (fun _ : ℕ => ⟨0, (0 : ℤ), 0, false⟩) (by decide)).2 (by decide)

/-- A buy at index 2 is made larger: the mock book now takes index 0 for its
best bid. -/
theorem mockOrderBook_update_resets_best :
    let books := CallSystem.stateAfter (Books.call (fun id => id.toNat) id)
      (Books.start 1 4 4 (fun _ : ℕ => ⟨0, (0 : ℤ), 0, false⟩))
      [.insert 0 ⟨1, 2, 5, true⟩, .insert 1 ⟨2, 3, 7, false⟩, .update 1 9]
    HftOrderBook.bestBid id books.hft.book = some (2, 9) ∧
      bestBid id books.mock = some (0, 0) ∧
        ¬ TopsAgree id books := by
  intro books
  have hhft : HftOrderBook.bestBid id books.hft.book = some (2, 9) := by
    decide
  have hmock : bestBid id books.mock = some (0, 0) := by decide
  refine ⟨hhft, hmock, ?_⟩
  intro hagree
  have heq := hagree.1
  rw [hhft, hmock] at heq
  exact absurd heq (by decide)

end Runs

end MockOrderBook
end TradingStudies
