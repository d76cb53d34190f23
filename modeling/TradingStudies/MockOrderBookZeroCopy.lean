import TradingStudies.MockOrderBookAgreement

/-!
# The order book without copies

`MockOrderBook_ZeroCopy.cpp` keeps the callers' `Order*` in its id map.  Its
level indices are of type `size_t`: the cached bid index starts at the largest
one, and the repair scan counts downwards as long as the index is not negative,
which it never is.  A scan that finds no positive level goes on with the
largest index, outside of `bid_levels`.

`Side::BUY` is `is_buy` here, and `price_to_index` is a parameter.
-/

namespace TradingStudies
namespace MockOrderBookZeroCopy

open HashMap (PartialMap)
open HftOrderBook (Order Outcome Call LiveOrder IsLive DistinctIds addAt
  levelAt positiveAt abstractCall levelTotal Shifted setQuantity)
open MockOrderBook (forall_entry_iff forall_entry_of_dead)

def MAX_PRICE_LEVELS : ℕ := 100000

structure OrderBook (Addr : Type*) where
  order_map : PartialMap UInt64 Addr
  bid_levels : Fin MAX_PRICE_LEVELS → Int32
  ask_levels : Fin MAX_PRICE_LEVELS → Int32
  best_bid_index : UInt64
  best_ask_index : UInt64

structure World (Addr Price : Type*) where
  book : OrderBook Addr
  orders : Addr → Order Price

variable {Addr Price : Type*}

def construct (Addr : Type*) : OrderBook Addr where
  order_map := ∅
  bid_levels := fun _ => 0
  ask_levels := fun _ => 0
  best_bid_index := -1
  best_ask_index := UInt64.ofNat MAX_PRICE_LEVELS

/-- The indices a scan reads, and the index at which it stops.  A scan that
has left the array does not stop. -/
structure Scan where
  reads : List UInt64
  found : Option UInt64
  deriving DecidableEq, Repr

def Scan.InBounds (scan : Scan) : Prop :=
  scan.found.isSome ∧ ∀ i ∈ scan.reads, i.toNat < MAX_PRICE_LEVELS

/-- `for (; i >= 0; --i)`, at most `fuel` times. -/
def scanBids (levels : Fin MAX_PRICE_LEVELS → Int32) : ℕ → UInt64 → Scan
  | 0, _ => ⟨[], none⟩
  | fuel + 1, i =>
      match levelAt levels i.toNat with
      | none => ⟨[i], none⟩
      | some level =>
          if 0 < level then ⟨[i], some i⟩
          else
            let rest := scanBids levels fuel (i - 1)
            ⟨i :: rest.reads, rest.found⟩

/-- The scan from `idx - 1`.  After `idx` reads it is at the largest
`size_t`. -/
def rescan (levels : Fin MAX_PRICE_LEVELS → Int32) (idx : UInt64) : Scan :=
  scanBids levels (idx.toNat + 1) (idx - 1)

/-- `update_price_level<Side::BUY>` at the index of the order's price. -/
def updateBidLevel (book : OrderBook Addr) (idx : UInt64)
    (update_quantity : Int32) : Option (OrderBook Addr) :=
  match addAt book.bid_levels idx.toNat update_quantity with
  | none => none
  | some levels =>
      if idx = book.best_bid_index ∧ levelAt levels idx.toNat = some 0 then
        match (rescan levels idx).found with
        | some i => some { book with bid_levels := levels, best_bid_index := i }
        | none => none
      -- The reset stands outside of the `if`.
      else some { book with bid_levels := levels, best_bid_index := 0 }

/-- `update_price_level<Side::SELL>` at the index of the order's price. -/
def updateAskLevel (book : OrderBook Addr) (idx : UInt64)
    (update_quantity : Int32) : Option (OrderBook Addr) :=
  match addAt book.ask_levels idx.toNat update_quantity with
  | none => none
  | some levels =>
      if idx = book.best_ask_index ∧ levelAt levels idx.toNat = some 0 then
        match BestIndex.scanUp (positiveAt levels)
            (MAX_PRICE_LEVELS - (idx.toNat + 1)) (idx.toNat + 1) with
        | some i => some { book with
            ask_levels := levels
            best_ask_index := UInt64.ofNat i }
        | none => some { book with
            ask_levels := levels
            best_ask_index := UInt64.ofNat (MAX_PRICE_LEVELS - 1) }
      else some { book with
        ask_levels := levels
        best_ask_index := UInt64.ofNat (MAX_PRICE_LEVELS - 1) }

def updatePriceLevel (is_buy : Bool) (book : OrderBook Addr) (idx : UInt64)
    (update_quantity : Int32) : Option (OrderBook Addr) :=
  if is_buy then updateBidLevel book idx update_quantity
  else updateAskLevel book idx update_quantity

section Operations

variable [DecidableEq Addr] (priceToIndex : Price → UInt64)

def raiseLevel (book : OrderBook Addr) (order : Order Price) :
    Option (OrderBook Addr) :=
  let idx := priceToIndex order.price
  if order.is_buy then
    match addAt book.bid_levels idx.toNat order.quantity with
    | none => none
    | some levels => some { book with
        bid_levels := levels
        best_bid_index :=
          if idx > book.best_bid_index then idx else book.best_bid_index }
  else
    match addAt book.ask_levels idx.toNat order.quantity with
    | none => none
    | some levels => some { book with
        ask_levels := levels
        best_ask_index :=
          if idx < book.best_ask_index then idx else book.best_ask_index }

def insert (world : World Addr Price) (ptr : Addr) :
    World Addr Price × Outcome :=
  let order := world.orders ptr
  match raiseLevel priceToIndex world.book order with
  | none => (world, .undefined)
  | some book =>
      ({ world with book := { book with
          order_map := book.order_map.insert order.order_id ptr } }, .done)

def update (world : World Addr Price) (order_id : UInt64)
    (new_quantity : Int32) : World Addr Price × Outcome :=
  match world.book.order_map.lookup order_id with
  | none => (world, .threw "Order not found")
  | some ord =>
      let order := world.orders ord
      match updatePriceLevel order.is_buy world.book (priceToIndex order.price)
          (new_quantity - order.quantity) with
      | none => (world, .undefined)
      | some book =>
          ({ book := book
             orders := Function.update world.orders ord
               { order with quantity := new_quantity } }, .done)

def cancel (world : World Addr Price) (order_id : UInt64) :
    World Addr Price × Outcome :=
  match world.book.order_map.lookup order_id with
  | none => (world, .threw "Order not found")
  | some ord =>
      let order := world.orders ord
      match updatePriceLevel order.is_buy world.book (priceToIndex order.price)
          (-order.quantity) with
      | none => (world, .undefined)
      | some book =>
          ({ world with book := { book with
              order_map := book.order_map.erase order_id } }, .done)

/-- The caller of `insert` fills in the `Order` before it passes the address
on. -/
def call (world : World Addr Price) :
    Call Addr Price → World Addr Price × Outcome
  | .insert ptr order =>
      insert priceToIndex
        { world with orders := Function.update world.orders ptr order } ptr
  | .update order_id new_quantity =>
      update priceToIndex world order_id new_quantity
  | .cancel order_id => cancel priceToIndex world order_id

end Operations

/-! ## The scan -/

section Scans

variable {levels : Fin MAX_PRICE_LEVELS → Int32} {book : OrderBook Addr}
  {idx : UInt64} {quantity : Int32}

theorem positiveAt_iff {i : ℕ} (hi : i < MAX_PRICE_LEVELS) :
    positiveAt levels i = true ↔ 0 < levels ⟨i, hi⟩ := by
  unfold positiveAt
  rw [dif_pos hi, decide_eq_true_eq]

/-- The scan from below `n` stops inside of the array if and only if there is
a positive level to stop at. -/
theorem scanBids_inBounds_iff {n : ℕ} (hn : n ≤ MAX_PRICE_LEVELS) :
    (scanBids levels (n + 1) (UInt64.ofNat n - 1)).InBounds ↔
      ∃ i < n, positiveAt levels i = true := by
  induction n with
  | zero =>
      have hout : levelAt levels ((UInt64.ofNat 0 - 1).toNat : ℤ) = none :=
        dif_neg (by decide)
      rw [scanBids, hout]
      constructor
      · rintro ⟨hfound, -⟩
        exact absurd hfound Bool.false_ne_true
      · rintro ⟨i, hi, -⟩
        exact absurd hi (Nat.not_lt_zero i)
  | succ n ih =>
      have hnext : UInt64.ofNat (n + 1) - 1 = UInt64.ofNat n := by
        rw [UInt64.ofNat_add]
        exact UInt64.add_sub_cancel _ _
      have hlt : n < MAX_PRICE_LEVELS := hn
      have hvalue : (UInt64.ofNat n).toNat = n := by
        have hsize : UInt64.size = 2 ^ 64 := rfl
        have hmax : MAX_PRICE_LEVELS = 100000 := rfl
        exact UInt64.toNat_ofNat_of_lt' (by omega)
      have hlevel : levelAt levels ((UInt64.ofNat n).toNat : ℤ) =
          some (levels ⟨n, hlt⟩) := by
        rw [hvalue]
        exact HftOrderBook.levelAt_eq (Int.natCast_nonneg n) (by exact_mod_cast hlt)
      rw [hnext, scanBids, hlevel]
      by_cases hpos : 0 < levels ⟨n, hlt⟩
      · simp only [if_pos hpos]
        refine iff_of_true ⟨rfl, ?_⟩ ⟨n, n.lt_succ_self, ?_⟩
        · intro i hi
          rw [List.mem_singleton.mp hi, hvalue]
          exact hlt
        · exact (positiveAt_iff hlt).mpr hpos
      · simp only [if_neg hpos]
        have hrest : ∀ rest : Scan,
            Scan.InBounds ⟨UInt64.ofNat n :: rest.reads, rest.found⟩ ↔
              rest.InBounds := by
          intro rest
          unfold Scan.InBounds
          rw [List.forall_mem_cons, hvalue]
          exact and_congr_right fun _ => and_iff_right hlt
        rw [hrest, ih hlt.le]
        constructor
        · rintro ⟨i, hi, hfound⟩
          exact ⟨i, Nat.lt_succ_of_lt hi, hfound⟩
        · rintro ⟨i, hi, hfound⟩
          have hne : i ≠ n := by
            rintro rfl
            exact hpos ((positiveAt_iff hlt).mp hfound)
          exact ⟨i, by omega, hfound⟩

theorem rescan_inBounds_iff (hidx : idx.toNat < MAX_PRICE_LEVELS) :
    (rescan levels idx).InBounds ↔
      ∃ i < idx.toNat, positiveAt levels i = true := by
  have hscan : (scanBids levels (idx.toNat + 1)
      (UInt64.ofNat idx.toNat - 1)).InBounds ↔
        ∃ i < idx.toNat, positiveAt levels i = true :=
    scanBids_inBounds_iff hidx.le
  rw [UInt64.ofNat_toNat] at hscan
  exact hscan

/-- `levels[idx] += quantity` inside of the array. -/
def added (levels : Fin MAX_PRICE_LEVELS → Int32)
    (hidx : idx.toNat < MAX_PRICE_LEVELS) (quantity : Int32) :
    Fin MAX_PRICE_LEVELS → Int32 :=
  Function.update levels ⟨idx.toNat, hidx⟩
    (levels ⟨idx.toNat, hidx⟩ + quantity)

theorem addAt_index (hidx : idx.toNat < MAX_PRICE_LEVELS) :
    addAt levels idx.toNat quantity = some (added levels hidx quantity) :=
  HftOrderBook.addAt_eq (Int.natCast_nonneg _) (by exact_mod_cast hidx)

theorem levelAt_index (hidx : idx.toNat < MAX_PRICE_LEVELS) :
    levelAt levels idx.toNat = some (levels ⟨idx.toNat, hidx⟩) :=
  HftOrderBook.levelAt_eq (Int.natCast_nonneg _) (by exact_mod_cast hidx)

/-- The scan that a change of a bid level leads to, if there is one. -/
def bidRescan (book : OrderBook Addr) (idx : UInt64)
    (update_quantity : Int32) : Option Scan :=
  match addAt book.bid_levels idx.toNat update_quantity with
  | none => none
  | some levels =>
      if idx = book.best_bid_index ∧ levelAt levels idx.toNat = some 0 then
        some (rescan levels idx)
      else none

theorem bidRescan_inBounds_iff (hidx : idx.toNat < MAX_PRICE_LEVELS) :
    (∀ scan ∈ bidRescan book idx quantity, scan.InBounds) ↔
      (idx = book.best_bid_index →
        added book.bid_levels hidx quantity ⟨idx.toNat, hidx⟩ = 0 →
          ∃ i < idx.toNat,
            positiveAt (added book.bid_levels hidx quantity) i = true) := by
  unfold bidRescan
  rw [addAt_index hidx]
  simp only [levelAt_index hidx, Option.some.injEq]
  split
  · rename_i hempties
    rw [← rescan_inBounds_iff hidx]
    constructor
    · intro hinside _ _
      exact hinside _ rfl
    · intro hall scan hscan
      cases hscan
      exact hall hempties.1 hempties.2
  · rename_i hkept
    simp only [Option.mem_def, reduceCtorEq, false_implies, implies_true,
      true_iff]
    intro hbest hzero
    exact absurd ⟨hbest, hzero⟩ hkept

/-- A change of a level whose scan stays inside of the array. -/
theorem updatePriceLevel_spec (hidx : idx.toNat < MAX_PRICE_LEVELS)
    (is_buy : Bool)
    (hscan : is_buy = true →
      ∀ scan ∈ bidRescan book idx quantity, scan.InBounds) :
    ∃ book', updatePriceLevel is_buy book idx quantity = some book' ∧
      book'.order_map = book.order_map ∧
      book'.bid_levels =
        if is_buy then added book.bid_levels hidx quantity
        else book.bid_levels := by
  cases is_buy with
  | true =>
      have hinside := hscan rfl
      unfold updatePriceLevel updateBidLevel
      unfold bidRescan at hinside
      rw [addAt_index hidx] at hinside ⊢
      simp only [if_true] at hinside ⊢
      split at hinside
      · rename_i hempties
        rw [if_pos hempties]
        have hfound := (hinside _ rfl).1
        rcases Option.isSome_iff_exists.mp hfound with ⟨best, hbest⟩
        rw [hbest]
        exact ⟨_, rfl, rfl, rfl⟩
      · rename_i hkept
        rw [if_neg hkept]
        exact ⟨_, rfl, rfl, rfl⟩
  | false =>
      unfold updatePriceLevel updateAskLevel
      rw [addAt_index hidx]
      simp only [Bool.false_eq_true, if_false]
      split
      · split
        · exact ⟨_, rfl, rfl, rfl⟩
        · exact ⟨_, rfl, rfl, rfl⟩
      · exact ⟨_, rfl, rfl, rfl⟩

end Scans

/-! ## The live orders -/

structure Session (Addr Price : Type*) where
  world : World Addr Price
  live : List (LiveOrder Addr Price)

section Sessions

variable (priceToIndex : Price → UInt64)

def indexOf (price : Price) : ℤ := (priceToIndex price).toNat

/-- The `int` sum of the quantities of the live bids at an index. -/
def bidLevel (live : List (LiveOrder Addr Price)) (i : ℤ) : Int32 :=
  Int32.ofInt (levelTotal (indexOf priceToIndex) true live i)

/-- If the best bid level is emptied, an order below it keeps its level
positive. -/
def LevelSupported (best_bid_index : UInt64)
    (live : List (LiveOrder Addr Price)) (idx : UInt64) : Prop :=
  idx = best_bid_index → bidLevel priceToIndex live idx.toNat = 0 →
    ∃ other ∈ live, other.order.is_buy = true ∧
      (priceToIndex other.order.price).toNat < idx.toNat ∧
      0 < bidLevel priceToIndex live (indexOf priceToIndex other.order.price)

instance (best_bid_index : UInt64) (live : List (LiveOrder Addr Price))
    (idx : UInt64) :
    Decidable (LevelSupported priceToIndex best_bid_index live idx) :=
  inferInstanceAs (Decidable (_ → _ → ∃ other ∈ live, _))

/-- The bid stored under the id, if there is one, leaves its level
supported. -/
def ChangeSupported (session : Session Addr Price) (order_id : UInt64)
    (live' : List (LiveOrder Addr Price)) : Prop :=
  ∀ entry ∈ session.live, entry.order.order_id = order_id →
    entry.order.is_buy = true →
      LevelSupported priceToIndex session.world.book.best_bid_index live'
        (priceToIndex entry.order.price)

instance (session : Session Addr Price) (order_id : UInt64)
    (live' : List (LiveOrder Addr Price)) :
    Decidable (ChangeSupported priceToIndex session order_id live') :=
  inferInstanceAs (Decidable (∀ entry ∈ session.live, _))

/-- The condition on the live orders before a call. -/
def Supported (session : Session Addr Price) : Call Addr Price → Prop
  | .insert _ _ => True
  | .update order_id new_quantity =>
      ChangeSupported priceToIndex session order_id
        (session.live.map (setQuantity order_id new_quantity))
  | .cancel order_id =>
      ChangeSupported priceToIndex session order_id
        (session.live.filter fun other => other.order.order_id ≠ order_id)

instance (session : Session Addr Price) :
    ∀ c, Decidable (Supported priceToIndex session c)
  | .insert _ _ => inferInstanceAs (Decidable True)
  | .update _ _ => inferInstanceAs (Decidable (ChangeSupported _ _ _ _))
  | .cancel _ => inferInstanceAs (Decidable (ChangeSupported _ _ _ _))

/-- If the order stored under the id is a bid, the scan after the change of
its quantity stays inside of `bid_levels` and stops. -/
def ChangeInBounds (world : World Addr Price) (order_id : UInt64)
    (change : Order Price → Int32) : Prop :=
  ∀ ord ∈ world.book.order_map.lookup order_id,
    (world.orders ord).is_buy = true →
      ∀ scan ∈ bidRescan world.book (priceToIndex (world.orders ord).price)
        (change (world.orders ord)), scan.InBounds

def RescanInBounds (session : Session Addr Price) : Call Addr Price → Prop
  | .insert _ _ => True
  | .update order_id new_quantity =>
      ChangeInBounds priceToIndex session.world order_id
        fun order => new_quantity - order.quantity
  | .cancel order_id =>
      ChangeInBounds priceToIndex session.world order_id
        fun order => -order.quantity

/-- What the callers promise: fresh ids, orders that are not overwritten while
they are live, and prices inside of the level arrays. -/
def Promised (session : Session Addr Price) : Call Addr Price → Prop
  | .insert ptr order =>
      ¬ IsLive session.live order.order_id ∧
        (∀ entry ∈ session.live, entry.ptr ≠ ptr) ∧
          (priceToIndex order.price).toNat < MAX_PRICE_LEVELS
  | .update _ _ => True
  | .cancel _ => True

instance [DecidableEq Addr] (session : Session Addr Price) :
    ∀ c, Decidable (Promised priceToIndex session c)
  | .insert _ _ => inferInstanceAs (Decidable (_ ∧ _))
  | .update _ _ => inferInstanceAs (Decidable True)
  | .cancel _ => inferInstanceAs (Decidable True)

def Session.start (orders : Addr → Order Price) : Session Addr Price :=
  ⟨⟨construct Addr, orders⟩, []⟩

def Session.call [DecidableEq Addr] (session : Session Addr Price)
    (c : Call Addr Price) : Session Addr Price × Outcome :=
  let (world, outcome) := MockOrderBookZeroCopy.call priceToIndex session.world c
  (⟨world, (abstractCall session.live c).1⟩, outcome)

/-- The id map leads to the live orders, and the bid levels are their `int`
sums. -/
structure Refines (session : Session Addr Price) : Prop where
  entries : ∀ entry ∈ session.live,
    session.world.book.order_map.lookup entry.order.order_id = some entry.ptr
  absent : ∀ order_id, ¬ IsLive session.live order_id →
    session.world.book.order_map.lookup order_id = none
  memory : ∀ entry ∈ session.live,
    session.world.orders entry.ptr = entry.order
  distinct : DistinctIds session.live
  range : ∀ entry ∈ session.live,
    (priceToIndex entry.order.price).toNat < MAX_PRICE_LEVELS
  bids : ∀ i : Fin MAX_PRICE_LEVELS,
    session.world.book.bid_levels i = bidLevel priceToIndex session.live i.val

variable {priceToIndex} {session : Session Addr Price}
  {live live' : List (LiveOrder Addr Price)} {entry : LiveOrder Addr Price}
  {idx : UInt64}

theorem start_refines (orders : Addr → Order Price) :
    Refines priceToIndex (Session.start orders) where
  entries := fun _ hentry => absurd hentry List.not_mem_nil
  absent := fun _ _ => Finmap.lookup_empty _
  memory := fun _ hentry => absurd hentry List.not_mem_nil
  distinct := List.nodup_nil
  range := fun _ hentry => absurd hentry List.not_mem_nil
  bids := fun _ => rfl

theorem exists_of_bidLevel_pos {i : ℤ}
    (hpos : 0 < bidLevel priceToIndex live i) :
    ∃ entry ∈ live, entry.order.is_buy = true ∧
      indexOf priceToIndex entry.order.price = i := by
  by_contra hnone
  push Not at hnone
  have hfilter : (live.filter fun entry => entry.order.is_buy = true ∧
      indexOf priceToIndex entry.order.price = i) = [] := by
    apply List.filter_eq_nil_iff.mpr
    intro entry hentry
    rw [decide_eq_true_eq]
    intro hmatches
    exact hnone entry hentry hmatches.1 hmatches.2
  unfold bidLevel levelTotal at hpos
  rw [hfilter, List.map_nil, List.sum_nil] at hpos
  exact absurd hpos (by decide)

theorem added_holds {levels : Fin MAX_PRICE_LEVELS → Int32}
    {total total' : ℤ → ℤ}
    (hlevels : ∀ i : Fin MAX_PRICE_LEVELS,
      levels i = Int32.ofInt (total i.val))
    (hidx : idx.toNat < MAX_PRICE_LEVELS) {delta : ℤ}
    (hshift : Shifted total total' idx.toNat delta)
    (i : Fin MAX_PRICE_LEVELS) :
    added levels hidx (Int32.ofInt delta) i = Int32.ofInt (total' i.val) := by
  unfold added
  by_cases hi : i = ⟨idx.toNat, hidx⟩
  · subst i
    rw [Function.update_self, hlevels, hshift.at_index, Int32.ofInt_add]
  · have hne : (i.val : ℤ) ≠ idx.toNat := by
      intro heq
      exact hi (Fin.ext (by exact_mod_cast heq))
    rw [Function.update_of_ne hi, hlevels, hshift.off_index hne]

theorem Refines.rescan_iff (hrefines : Refines priceToIndex session)
    (hidx : idx.toNat < MAX_PRICE_LEVELS) {delta : ℤ}
    (hshift : Shifted (levelTotal (indexOf priceToIndex) true session.live)
      (levelTotal (indexOf priceToIndex) true live') idx.toNat delta) :
    (∀ scan ∈ bidRescan session.world.book idx (Int32.ofInt delta),
        scan.InBounds) ↔
      LevelSupported priceToIndex session.world.book.best_bid_index live'
        idx := by
  have hlevels := added_holds hrefines.bids hidx hshift
  rw [bidRescan_inBounds_iff hidx, hlevels ⟨idx.toNat, hidx⟩]
  apply imp_congr_right
  intro _
  apply imp_congr_right
  intro _
  constructor
  · rintro ⟨i, hi, hpos⟩
    rw [positiveAt_iff (hi.trans hidx), hlevels] at hpos
    obtain ⟨other, hother, hbuy, hindex⟩ := exists_of_bidLevel_pos hpos
    refine ⟨other, hother, hbuy, ?_, ?_⟩
    · have hvalue : ((priceToIndex other.order.price).toNat : ℤ) = i := hindex
      omega
    · rw [hindex]
      exact hpos
  · rintro ⟨other, -, -, hlt, hpos⟩
    refine ⟨(priceToIndex other.order.price).toNat, hlt, ?_⟩
    rw [positiveAt_iff (hlt.trans hidx), hlevels]
    exact hpos

/-- A new order adds to the level of its price. -/
theorem Refines.raise (hrefines : Refines priceToIndex session)
    {order : Order Price}
    (hidx : (priceToIndex order.price).toNat < MAX_PRICE_LEVELS) (ptr : Addr) :
    ∃ book', raiseLevel priceToIndex session.world.book order = some book' ∧
      book'.order_map = session.world.book.order_map ∧
      ∀ i : Fin MAX_PRICE_LEVELS, book'.bid_levels i =
        bidLevel priceToIndex (⟨ptr, order⟩ :: session.live) i.val := by
  have hshift := HftOrderBook.levelTotal_insert (indexOf priceToIndex) true
    ⟨ptr, order⟩ session.live
  unfold raiseLevel
  simp only [addAt_index hidx]
  by_cases hbuy : order.is_buy = true
  · simp only [if_pos hbuy] at hshift ⊢
    refine ⟨_, rfl, rfl, ?_⟩
    have hadded := added_holds hrefines.bids hidx hshift
    rw [Int32.ofInt_toInt] at hadded
    exact hadded
  · simp only [if_neg hbuy] at hshift ⊢
    refine ⟨_, rfl, rfl, ?_⟩
    intro i
    unfold bidLevel
    rw [hshift.eq_of_zero]
    exact hrefines.bids i

section Changes

variable {delta : ℤ} (hrefines : Refines priceToIndex session)
  (hentry : entry ∈ session.live)
  (hshift : Shifted (levelTotal (indexOf priceToIndex) true session.live)
    (levelTotal (indexOf priceToIndex) true live')
    (indexOf priceToIndex entry.order.price)
    (if entry.order.is_buy = true then delta else 0))
include hrefines hentry hshift

theorem Refines.change_inBounds_iff :
    (entry.order.is_buy = true →
        ∀ scan ∈ bidRescan session.world.book
          (priceToIndex entry.order.price) (Int32.ofInt delta),
          scan.InBounds) ↔
      (entry.order.is_buy = true →
        LevelSupported priceToIndex session.world.book.best_bid_index live'
          (priceToIndex entry.order.price)) := by
  apply imp_congr_right
  intro hbuy
  rw [if_pos hbuy] at hshift
  exact hrefines.rescan_iff (hrefines.range entry hentry) hshift

theorem Refines.change
    (hsupported : entry.order.is_buy = true →
      LevelSupported priceToIndex session.world.book.best_bid_index live'
        (priceToIndex entry.order.price)) :
    ∃ book', updatePriceLevel entry.order.is_buy session.world.book
        (priceToIndex entry.order.price) (Int32.ofInt delta) = some book' ∧
      book'.order_map = session.world.book.order_map ∧
      ∀ i : Fin MAX_PRICE_LEVELS,
        book'.bid_levels i = bidLevel priceToIndex live' i.val := by
  have hidx := hrefines.range entry hentry
  obtain ⟨book', heval, hmap, hbids⟩ := updatePriceLevel_spec hidx
    entry.order.is_buy
    ((hrefines.change_inBounds_iff hentry hshift).mpr hsupported)
  refine ⟨book', heval, hmap, ?_⟩
  rw [hbids]
  intro i
  by_cases hbuy : entry.order.is_buy = true
  · rw [if_pos hbuy] at hshift ⊢
    exact added_holds hrefines.bids hidx hshift i
  · rw [if_neg hbuy] at hshift ⊢
    rw [hrefines.bids]
    unfold bidLevel
    rw [hshift.eq_of_zero]

end Changes

variable [DecidableEq Addr]

theorem Refines.insert (hrefines : Refines priceToIndex session) {ptr : Addr}
    {order : Order Price}
    (hpromised : Promised priceToIndex session (.insert ptr order)) :
    Refines priceToIndex (session.call priceToIndex (.insert ptr order)).1 := by
  rcases hpromised with ⟨hfresh, hptr, hidx⟩
  obtain ⟨book', heval, hmap, hbids⟩ := hrefines.raise hidx ptr
  simp only [Session.call, MockOrderBookZeroCopy.call,
    MockOrderBookZeroCopy.insert, Function.update_self, heval, abstractCall]
  constructor
  · intro other hother
    rw [hmap]
    rcases List.mem_cons.mp hother with rfl | hother
    · exact Finmap.lookup_insert _
    · have hne : other.order.order_id ≠ order.order_id := by
        intro heq
        exact hfresh ⟨other, hother, heq⟩
      rw [Finmap.lookup_insert_of_ne _ hne]
      exact hrefines.entries other hother
  · intro order_id hdead
    have hne : order_id ≠ order.order_id := by
      intro heq
      exact hdead ⟨_, List.mem_cons_self, heq.symm⟩
    rw [hmap, Finmap.lookup_insert_of_ne _ hne]
    apply hrefines.absent
    rintro ⟨other, hother, heq⟩
    exact hdead ⟨other, List.mem_cons_of_mem _ hother, heq⟩
  · intro other hother
    rcases List.mem_cons.mp hother with rfl | hother
    · exact Function.update_self _ _ _
    · exact (Function.update_of_ne (hptr other hother) _ _).trans
        (hrefines.memory other hother)
  · exact hrefines.distinct.cons hfresh
  · intro other hother
    rcases List.mem_cons.mp hother with rfl | hother
    · exact hidx
    · exact hrefines.range other hother
  · exact hbids

theorem Refines.update (hrefines : Refines priceToIndex session)
    (hentry : entry ∈ session.live) {new_quantity : Int32}
    (hsupported : entry.order.is_buy = true →
      LevelSupported priceToIndex session.world.book.best_bid_index
        (session.live.map (setQuantity entry.order.order_id new_quantity))
        (priceToIndex entry.order.price)) :
    Refines priceToIndex (session.call priceToIndex
      (.update entry.order.order_id new_quantity)).1 := by
  have hshift := @HftOrderBook.levelTotal_update _ _ (indexOf priceToIndex)
    _ hrefines.distinct _ hentry new_quantity true
  obtain ⟨book', heval, hmap, hbids⟩ :=
    hrefines.change hentry hshift hsupported
  rw [Int32.ofInt_sub, Int32.ofInt_toInt, Int32.ofInt_toInt] at heval
  have hlive : IsLive session.live entry.order.order_id :=
    ⟨entry, hentry, rfl⟩
  simp only [Session.call, MockOrderBookZeroCopy.call,
    MockOrderBookZeroCopy.update, hrefines.entries entry hentry,
    hrefines.memory entry hentry, heval, abstractCall, if_pos hlive]
  constructor
  · intro changed hchanged
    obtain ⟨other, hother, rfl⟩ := List.mem_map.mp hchanged
    rw [hmap, HftOrderBook.setQuantity_order_id, HftOrderBook.setQuantity_ptr]
    exact hrefines.entries other hother
  · intro order_id hdead
    rw [hmap]
    apply hrefines.absent
    rintro ⟨other, hother, heq⟩
    refine hdead ⟨_, List.mem_map_of_mem hother, ?_⟩
    rw [HftOrderBook.setQuantity_order_id]
    exact heq
  · intro changed hchanged
    obtain ⟨other, hother, rfl⟩ := List.mem_map.mp hchanged
    rw [HftOrderBook.setQuantity_ptr]
    unfold setQuantity
    by_cases hsame : other.order.order_id = entry.order.order_id
    · rw [if_pos hsame, hrefines.distinct.unique hother hentry hsame]
      exact Function.update_self _ _ _
    · have hne : other.ptr ≠ entry.ptr := by
        intro heq
        apply hsame
        rw [← hrefines.memory other hother, heq,
          hrefines.memory entry hentry]
      rw [if_neg hsame]
      exact (Function.update_of_ne hne _ _).trans
        (hrefines.memory other hother)
  · exact hrefines.distinct.setQuantity _ new_quantity
  · intro changed hchanged
    obtain ⟨other, hother, rfl⟩ := List.mem_map.mp hchanged
    rw [HftOrderBook.setQuantity_price]
    exact hrefines.range other hother
  · exact hbids

theorem Refines.cancel (hrefines : Refines priceToIndex session)
    (hentry : entry ∈ session.live)
    (hsupported : entry.order.is_buy = true →
      LevelSupported priceToIndex session.world.book.best_bid_index
        (session.live.filter fun other =>
          other.order.order_id ≠ entry.order.order_id)
        (priceToIndex entry.order.price)) :
    Refines priceToIndex (session.call priceToIndex
      (.cancel entry.order.order_id)).1 := by
  have hshift := @HftOrderBook.levelTotal_cancel _ _ (indexOf priceToIndex)
    _ hrefines.distinct _ hentry true
  obtain ⟨book', heval, hmap, hbids⟩ :=
    hrefines.change hentry hshift hsupported
  rw [Int32.ofInt_neg, Int32.ofInt_toInt] at heval
  have hlive : IsLive session.live entry.order.order_id :=
    ⟨entry, hentry, rfl⟩
  simp only [Session.call, MockOrderBookZeroCopy.call,
    MockOrderBookZeroCopy.cancel, hrefines.entries entry hentry,
    hrefines.memory entry hentry, heval, abstractCall, if_pos hlive]
  constructor
  · intro other hkept
    obtain ⟨hother, hne⟩ := List.mem_filter.mp hkept
    rw [hmap, Finmap.lookup_erase_ne (by simpa using hne)]
    exact hrefines.entries other hother
  · intro order_id hdead
    rw [hmap]
    by_cases heq : order_id = entry.order.order_id
    · rw [heq]
      exact Finmap.lookup_erase _ _
    · rw [Finmap.lookup_erase_ne heq]
      apply hrefines.absent
      rintro ⟨other, hother, hid⟩
      refine hdead ⟨other, List.mem_filter.mpr ⟨hother, ?_⟩, hid⟩
      rw [hid]
      simpa using heq
  · intro other hkept
    exact hrefines.memory other (List.mem_filter.mp hkept).1
  · exact hrefines.distinct.sublist (List.filter_sublist.map _)
  · intro other hkept
    exact hrefines.range other (List.mem_filter.mp hkept).1
  · exact hbids

theorem Refines.call_dead (hrefines : Refines priceToIndex session)
    {order_id : UInt64} (hdead : ¬ IsLive session.live order_id)
    (new_quantity : Int32) :
    (session.call priceToIndex (.update order_id new_quantity)).1 = session ∧
      (session.call priceToIndex (.cancel order_id)).1 = session := by
  have habsent := hrefines.absent order_id hdead
  constructor
  · simp only [Session.call, MockOrderBookZeroCopy.call,
      MockOrderBookZeroCopy.update, habsent, abstractCall, if_neg hdead]
  · simp only [Session.call, MockOrderBookZeroCopy.call,
      MockOrderBookZeroCopy.cancel, habsent, abstractCall, if_neg hdead]

/-- A supported call keeps the relation to the live orders. -/
theorem Refines.call (hrefines : Refines priceToIndex session)
    {c : Call Addr Price} (hpromised : Promised priceToIndex session c)
    (hsupported : Supported priceToIndex session c) :
    Refines priceToIndex (session.call priceToIndex c).1 := by
  cases c with
  | insert ptr order => exact hrefines.insert hpromised
  | update order_id new_quantity =>
      by_cases hlive : IsLive session.live order_id
      · obtain ⟨entry, hentry, rfl⟩ := hlive
        exact hrefines.update hentry (hsupported entry hentry rfl)
      · rw [(hrefines.call_dead hlive new_quantity).1]
        exact hrefines
  | cancel order_id =>
      by_cases hlive : IsLive session.live order_id
      · obtain ⟨entry, hentry, rfl⟩ := hlive
        exact hrefines.cancel hentry (hsupported entry hentry rfl)
      · rw [(hrefines.call_dead hlive 0).2]
        exact hrefines

omit [DecidableEq Addr] in
theorem Refines.changeInBounds_iff (hrefines : Refines priceToIndex session)
    {order_id : UInt64} {change : Order Price → Int32}
    (hchange : ∀ entry ∈ session.live, entry.order.order_id = order_id →
      ∃ delta, Int32.ofInt delta = change entry.order ∧
        Shifted (levelTotal (indexOf priceToIndex) true session.live)
          (levelTotal (indexOf priceToIndex) true live')
          (indexOf priceToIndex entry.order.price)
          (if entry.order.is_buy = true then delta else 0)) :
    ChangeInBounds priceToIndex session.world order_id change ↔
      ChangeSupported priceToIndex session order_id live' := by
  unfold ChangeInBounds ChangeSupported
  by_cases hlive : IsLive session.live order_id
  · obtain ⟨entry, hentry, rfl⟩ := hlive
    obtain ⟨delta, hdelta, hshift⟩ := hchange entry hentry rfl
    have hscan := hrefines.change_inBounds_iff hentry hshift
    rw [hdelta] at hscan
    rw [forall_entry_iff hrefines.distinct hentry, ← hscan,
      hrefines.entries entry hentry]
    simp only [Option.mem_def, Option.some.injEq, forall_eq',
      hrefines.memory entry hentry]
  · rw [hrefines.absent order_id hlive]
    exact iff_of_true (fun _ hord => nomatch hord)
      (forall_entry_of_dead hlive _)

omit [DecidableEq Addr] in
theorem Refines.call_inBounds_iff (hrefines : Refines priceToIndex session)
    (c : Call Addr Price) :
    RescanInBounds priceToIndex session c ↔
      Supported priceToIndex session c := by
  cases c with
  | insert ptr order => exact Iff.rfl
  | update order_id new_quantity =>
      simp only [RescanInBounds, Supported]
      apply hrefines.changeInBounds_iff
      rintro entry hentry rfl
      refine ⟨_, ?_, HftOrderBook.levelTotal_update hrefines.distinct hentry
        new_quantity true⟩
      rw [Int32.ofInt_sub, Int32.ofInt_toInt, Int32.ofInt_toInt]
  | cancel order_id =>
      simp only [RescanInBounds, Supported]
      apply hrefines.changeInBounds_iff
      rintro entry hentry rfl
      refine ⟨_, ?_,
        HftOrderBook.levelTotal_cancel hrefines.distinct hentry true⟩
      rw [Int32.ofInt_neg, Int32.ofInt_toInt]

/-- In every run the scans stop inside of `bid_levels` if and only if each
change that empties the best bid level leaves a positive level below it. -/
theorem bidRescan_inBounds_iff_supported (priceToIndex : Price → UInt64)
    (orders : Addr → Order Price) {calls : List (Call Addr Price)}
    (hpromised : CallSystem.AllAllowed (Session.call priceToIndex)
      (Promised priceToIndex) (Session.start orders) calls) :
    CallSystem.AllAllowed (Session.call priceToIndex)
        (RescanInBounds priceToIndex) (Session.start orders) calls ↔
      CallSystem.AllAllowed (Session.call priceToIndex)
        (Supported priceToIndex) (Session.start orders) calls := by
  apply CallSystem.allAllowed_congr (Refines priceToIndex) ?_ ?_
    (start_refines orders) hpromised
  · intro session c hrefines hcall hsupported
    exact hrefines.call hcall hsupported
  · intro session c hrefines _
    exact hrefines.call_inBounds_iff c

/-- Of two bids, the better one is cancelled. -/
theorem bidRescan_inBounds_cancel_best :
    CallSystem.AllAllowed (Session.call id) (RescanInBounds id)
      (Session.start fun _ : ℕ => ⟨0, (0 : UInt64), 0, false⟩)
      [.insert 0 ⟨1, 3, 5, true⟩, .cancel 1, .insert 0 ⟨1, 3, 5, true⟩,
        .insert 1 ⟨2, 7, 9, true⟩, .update 1 6, .insert 2 ⟨3, 8, 2, true⟩,
        .cancel 3] :=
  (bidRescan_inBounds_iff_supported id
    (fun _ : ℕ => ⟨0, (0 : UInt64), 0, false⟩) (by decide)).mpr (by decide)

/-- A bid, its cancellation, a bid and its cancellation: the last scan reads
the levels below the bid and then `bid_levels[2^64 - 1]`. -/
theorem bidRescan_leaves_bid_levels :
    let session := CallSystem.stateAfter (Session.call id)
      (Session.start fun _ : ℕ => ⟨0, (0 : UInt64), 0, false⟩)
      [.insert 0 ⟨1, 5, 10, true⟩, .cancel 1, .insert 1 ⟨2, 5, 10, true⟩]
    bidRescan session.world.book 5 (-10) =
        some ⟨[4, 3, 2, 1, 0, 18446744073709551615], none⟩ ∧
      (session.call id (.cancel 2)).2 = .undefined ∧
        ¬ RescanInBounds id session (.cancel 2) := by
  intro session
  have hscan : bidRescan session.world.book 5 (-10) =
      some ⟨[4, 3, 2, 1, 0, 18446744073709551615], none⟩ := by
    decide
  have hlookup : session.world.book.order_map.lookup 2 = some 1 := by decide
  refine ⟨hscan, by decide, ?_⟩
  intro hinside
  exact absurd (hinside 1 hlookup rfl _ hscan).1 (by decide)

end Sessions

end MockOrderBookZeroCopy
end TradingStudies
