import TradingStudies.HftOrderBookLedger

/-!
# Two updates of one order

The later of two updates ought to decide what the book shows.  Both ways add
the same quantity to the level in the end, so only the cached index can differ:
`updatePriceLevel` moves it away from a level that becomes empty, and does not
move it back when the level fills again.
-/

namespace TradingStudies
namespace HftOrderBook

variable {initBuckets MaxPriceLevels : ℕ} {Addr Price : Type*}
  {book book' : OrderBook initBuckets MaxPriceLevels Addr}

/-- Both books have the same levels and the same cached indices. -/
def SameSides (book book' : OrderBook initBuckets MaxPriceLevels Addr) :
    Prop :=
  book.bidLevels_ = book'.bidLevels_ ∧ book.askLevels_ = book'.askLevels_ ∧
    book.bestBidIndex_ = book'.bestBidIndex_ ∧
    book.bestAskIndex_ = book'.bestAskIndex_

theorem sameSides_iff :
    SameSides book book' ↔ ∀ side, book.levels side = book'.levels side ∧
      book.bestIndex side = book'.bestIndex side := by
  constructor
  · rintro ⟨hbids, hasks, hbid, hask⟩ side
    cases side with
    | true => exact ⟨hbids, hbid⟩
    | false => exact ⟨hasks, hask⟩
  · intro hsame
    exact ⟨(hsame true).1, (hsame false).1, (hsame true).2, (hsame false).2⟩

/-- Setting the order to `quantity` takes the last of the best level of its
side, and that level is not the one the repair loop ends at. -/
def EmptiesBest (priceToIndex : Price → ℤ)
    (book : OrderBook initBuckets MaxPriceLevels Addr) (order : Order Price)
    (quantity : Int32) : Prop :=
  priceToIndex order.price = book.bestIndex order.is_buy ∧
    priceToIndex order.price ≠ restingIndex MaxPriceLevels order.is_buy ∧
    levelAt (book.levels order.is_buy) (priceToIndex order.price) =
      some (order.quantity - quantity)

/-! ## The cached index after one and after two additions -/

/-- The cached index `updatePriceLevel` leaves behind. -/
def movedIndex (is_buy : Bool) (levels : Fin MaxPriceLevels → Int32)
    (best : ℤ) (idx : Fin MaxPriceLevels) (quantity : Int32) : ℤ :=
  if (idx.val : ℤ) = best ∧ levels idx + quantity = 0 then
    nextIndex is_buy levels idx
  else best

theorem movedIndex_twice (is_buy : Bool)
    (levels : Fin MaxPriceLevels → Int32) (best : ℤ)
    (idx : Fin MaxPriceLevels) (first second : Int32) :
    movedIndex is_buy (addLevel levels idx first)
          (movedIndex is_buy levels best idx first) idx second =
        movedIndex is_buy levels best idx (first + second) ↔
      second = 0 ∨ ¬ ((idx.val : ℤ) = best ∧
        (idx.val : ℤ) ≠ restingIndex MaxPriceLevels is_buy ∧
        levels idx + first = 0) := by
  have hnext : nextIndex is_buy (addLevel levels idx first) idx =
      nextIndex is_buy levels idx :=
    nextIndex_congr is_buy fun other hne => addLevel_of_ne first hne
  by_cases hempties : (idx.val : ℤ) = best ∧ levels idx + first = 0
  · -- the first addition moves the index, the second one leaves it there
    obtain ⟨rfl, hzero⟩ := hempties
    have hfirst : movedIndex is_buy levels idx.val idx first =
        nextIndex is_buy levels idx := if_pos ⟨rfl, hzero⟩
    have hsecond : movedIndex is_buy (addLevel levels idx first)
          (nextIndex is_buy levels idx) idx second =
        nextIndex is_buy levels idx := by
      unfold movedIndex
      rw [hnext, ite_self]
    have honce : movedIndex is_buy levels idx.val idx (first + second) =
        if second = 0 then nextIndex is_buy levels idx else idx.val := by
      unfold movedIndex
      rw [← Int32.add_assoc, hzero, Int32.zero_add]
      simp
    rw [hfirst, hsecond, honce]
    by_cases hsame : second = 0
    · simp [hsame]
    · rw [if_neg hsame, nextIndex_eq_iff]
      simp [hsame, hzero]
  · have hfirst : movedIndex is_buy levels best idx first = best :=
      if_neg hempties
    rw [hfirst]
    unfold movedIndex
    rw [hnext, addLevel_self, Int32.add_assoc]
    constructor
    · intro _
      exact Or.inr fun hall => hempties ⟨hall.1, hall.2.2⟩
    · intro _
      rfl

/-! ## One update of a live order -/

section Update

variable [NeZero initBuckets] [DecidableEq Addr] {hash : UInt64 → ℕ}
  {priceToIndex : Price → ℤ}
  {world : World initBuckets MaxPriceLevels Addr Price}
  {ledger : Ledger Addr Price} {entry : LiveOrder Addr Price}
  {idx : Fin MaxPriceLevels}

theorem update_sides
    (hrefines : LedgerRefines hash priceToIndex world ledger)
    (hentry : entry ∈ ledger.live)
    (hidx : (idx.val : ℤ) = priceToIndex entry.order.price)
    (quantity : Int32) (side : Bool) :
    (call hash priceToIndex world
        (.update entry.order.order_id quantity)).1.book.levels side =
        (if side = entry.order.is_buy then
          addLevel (world.book.levels side) idx
            (quantity - entry.order.quantity)
        else world.book.levels side) ∧
      (call hash priceToIndex world
        (.update entry.order.order_id quantity)).1.book.bestIndex side =
        (if side = entry.order.is_buy then
          movedIndex side (world.book.levels side)
            (world.book.bestIndex side) idx (quantity - entry.order.quantity)
        else world.book.bestIndex side) := by
  obtain ⟨orderMap, heval, -⟩ :=
    update_index priceToIndex hrefines.index hentry quantity
  rw [← hidx, updatePriceLevel_eq] at heval
  rw [heval, OrderBook.setSide_levels, OrderBook.setSide_bestIndex]
  by_cases hside : side = entry.order.is_buy
  · subst side
    exact ⟨rfl, rfl⟩
  · rw [if_neg hside, if_neg hside, if_neg hside, if_neg hside]
    exact ⟨rfl, rfl⟩

theorem update_twice_sides
    (hrefines : LedgerRefines hash priceToIndex world ledger)
    (hentry : entry ∈ ledger.live)
    (hidx : (idx.val : ℤ) = priceToIndex entry.order.price)
    (q1 q2 : Int32) (side : Bool) :
    let first := (call hash priceToIndex world
      (.update entry.order.order_id q1)).1
    let second := (call hash priceToIndex first
      (.update entry.order.order_id q2)).1
    second.book.levels side =
        (if side = entry.order.is_buy then
          addLevel (world.book.levels side) idx
            ((q1 - entry.order.quantity) + (q2 - q1))
        else world.book.levels side) ∧
      second.book.bestIndex side =
        (if side = entry.order.is_buy then
          movedIndex side
            (addLevel (world.book.levels side) idx
              (q1 - entry.order.quantity))
            (movedIndex side (world.book.levels side)
              (world.book.bestIndex side) idx (q1 - entry.order.quantity))
            idx (q2 - q1)
        else world.book.bestIndex side) := by
  intro first second
  have hupdated := (update_ledgerRefines hrefines hentry q1).2
  have hentry' := List.mem_map_of_mem
    (f := setQuantity entry.order.order_id q1) hentry
  have hset : setQuantity entry.order.order_id q1 entry =
      ⟨entry.ptr, { entry.order with quantity := q1 }⟩ := by
    simp [setQuantity]
  rw [hset] at hentry'
  have hfirst := update_sides hrefines hentry hidx q1 side
  have hsecond := update_sides hupdated hentry' hidx q2 side
  rw [hfirst.1, hfirst.2] at hsecond
  by_cases hside : side = entry.order.is_buy
  · simp only [if_pos hside, addLevel_addLevel] at hsecond ⊢
    exact hsecond
  · simp only [if_neg hside] at hsecond ⊢
    exact hsecond

/-- Two updates end as the second one alone unless the first one empties the
best level. -/
theorem sameSides_updates_iff
    (hrefines : LedgerRefines hash priceToIndex world ledger)
    (hentry : entry ∈ ledger.live) (q1 q2 : Int32) :
    SameSides
        (call hash priceToIndex
          (call hash priceToIndex world
            (.update entry.order.order_id q1)).1
          (.update entry.order.order_id q2)).1.book
        (call hash priceToIndex world
          (.update entry.order.order_id q2)).1.book ↔
      q1 = q2 ∨ ¬ EmptiesBest priceToIndex world.book entry.order q1 := by
  obtain ⟨hlow, hhigh⟩ := hrefines.range entry hentry
  obtain ⟨idx, hidx⟩ := exists_index hlow hhigh
  have htwice := update_twice_sides hrefines hentry hidx q1 q2
  have honce := update_sides hrefines hentry hidx q2
  have hsum : (q1 - entry.order.quantity) + (q2 - q1) =
      q2 - entry.order.quantity := by
    grind
  have hmoved := movedIndex_twice entry.order.is_buy
    (world.book.levels entry.order.is_buy)
    (world.book.bestIndex entry.order.is_buy) idx
    (q1 - entry.order.quantity) (q2 - q1)
  have hsame : q2 - q1 = 0 ↔ q1 = q2 := by
    grind
  have hempties : EmptiesBest priceToIndex world.book entry.order q1 ↔
      (idx.val : ℤ) = world.book.bestIndex entry.order.is_buy ∧
        (idx.val : ℤ) ≠ restingIndex MaxPriceLevels entry.order.is_buy ∧
        world.book.levels entry.order.is_buy idx +
          (q1 - entry.order.quantity) = 0 := by
    have hlevel : world.book.levels entry.order.is_buy idx =
          entry.order.quantity - q1 ↔
        world.book.levels entry.order.is_buy idx +
          (q1 - entry.order.quantity) = 0 := by
      grind
    unfold EmptiesBest
    rw [← hidx, levelAt_val, Option.some.injEq, hlevel]
  rw [hsum, hsame, ← hempties] at hmoved
  rw [sameSides_iff, ← hmoved]
  constructor
  · intro hall
    have hbest := (hall entry.order.is_buy).2
    rw [(htwice _).2, (honce _).2, if_pos rfl, if_pos rfl] at hbest
    exact hbest
  · intro hbest side
    rw [(htwice side).1, (honce side).1, (htwice side).2, (honce side).2,
      hsum]
    by_cases hside : side = entry.order.is_buy
    · subst side
      rw [if_pos rfl, if_pos rfl, if_pos rfl]
      exact ⟨rfl, hbest⟩
    · rw [if_neg hside, if_neg hside, if_neg hside]
      exact ⟨rfl, rfl⟩

end Update

/-- After every run, updating a live order twice leaves the sides of the book
as the second update alone does exactly when the quantities are equal or the
first update does not empty the best level. -/
theorem update_lastWriteWins_iff (hash : UInt64 → ℕ)
    (priceToIndex : Price → ℤ) [DecidableEq Addr]
    (exponent MaxPriceLevels : ℕ) (orders : Addr → Order Price)
    (calls : List (Call Addr Price))
    (hkeeps : CallSystem.AllAllowed (ledgerCall (16 * 2 ^ exponent))
      (KeepsOrders priceToIndex MaxPriceLevels) (Ledger.empty Addr Price)
      calls) :
    let world := CallSystem.stateAfter (call hash priceToIndex)
      (⟨fresh (2 ^ exponent) MaxPriceLevels Addr, orders⟩ :
        World (2 ^ exponent) MaxPriceLevels Addr Price) calls
    let ledger := CallSystem.stateAfter (ledgerCall (16 * 2 ^ exponent))
      (Ledger.empty Addr Price) calls
    ∀ entry ∈ ledger.live, ∀ q1 q2 : Int32,
      let first := call hash priceToIndex world
        (.update entry.order.order_id q1)
      let second := call hash priceToIndex first.1
        (.update entry.order.order_id q2)
      let alone := call hash priceToIndex world
        (.update entry.order.order_id q2)
      (first.2 = .done ∧ second.2 = .done ∧ alone.2 = .done) ∧
        (SameSides second.1.book alone.1.book ↔
          q1 = q2 ∨ ¬ EmptiesBest priceToIndex world.book entry.order q1) := by
  intro world ledger entry hentry q1 q2
  have hrefines := (run_ledgerRefines hash exponent orders hkeeps).2
  have hfirst := update_ledgerRefines hrefines hentry q1
  have hentry' := List.mem_map_of_mem
    (f := setQuantity entry.order.order_id q1) hentry
  have hsecond := (update_ledgerRefines hfirst.2 hentry' q2).1
  rw [setQuantity_order_id] at hsecond
  have halone := (update_ledgerRefines hrefines hentry q2).1
  exact ⟨⟨hfirst.1, hsecond, halone⟩,
    sameSides_updates_iff hrefines hentry q1 q2⟩

/-- Two buy orders share the best level, so emptying one of them is undone. -/
theorem update_lastWriteWins_shared_level :
    let world := CallSystem.stateAfter (call (fun id => id.toNat) id)
      (⟨fresh 1 4 ℕ, fun _ => ⟨0, 0, 0, false⟩⟩ : World 1 4 ℕ ℤ)
      [.insert 0 ⟨1, 2, 5, true⟩, .insert 1 ⟨2, 2, 3, true⟩]
    SameSides
      (CallSystem.stateAfter (call (fun id => id.toNat) id) world
        [.update 1 0, .update 1 4]).book
      (call (fun id => id.toNat) id world (.update 1 4)).1.book := by
  have hupdates := update_lastWriteWins_iff (fun id => id.toNat) id 0 4
    (fun _ : ℕ => ⟨0, 0, 0, false⟩)
    [.insert 0 ⟨1, 2, 5, true⟩, .insert 1 ⟨2, 2, 3, true⟩] (by decide)
    ⟨0, ⟨1, 2, 5, true⟩⟩ (by decide) 0 4
  apply hupdates.2.mpr
  right
  rintro ⟨-, -, hlevel⟩
  revert hlevel
  decide

/-- The last quantity of the best level goes and comes back; the cached index
stays at the lowest level. -/
theorem update_through_zero_loses_best :
    let world := CallSystem.stateAfter (call (fun id => id.toNat) id)
      (⟨fresh 1 4 ℕ, fun _ => ⟨0, 0, 0, false⟩⟩ : World 1 4 ℕ ℤ)
      [.insert 0 ⟨1, 2, 5, true⟩]
    ¬ SameSides
      (CallSystem.stateAfter (call (fun id => id.toNat) id) world
        [.update 1 0, .update 1 5]).book
      (call (fun id => id.toNat) id world (.update 1 5)).1.book := by
  rintro world ⟨-, -, hbest, -⟩
  revert hbest
  decide

end HftOrderBook
end TradingStudies
