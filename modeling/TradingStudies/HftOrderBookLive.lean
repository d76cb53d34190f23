import TradingStudies.HftOrderBookLevels

/-!
# The list of live orders

What a book is for is a list of live orders: `insert` adds one, `update`
changes a quantity, `cancel` removes one, and an unknown id is refused.  The
level totals and best prices are functions of that list.

This file says how each call shifts the level totals of the list and what the
list keeps while the callers keep their promises.
-/

namespace TradingStudies
namespace HftOrderBook

variable {initBuckets MaxPriceLevels : ℕ} {Addr Price : Type*}

/-- A live order and the address at which its caller keeps it. -/
structure LiveOrder (Addr Price : Type*) where
  ptr : Addr
  order : Order Price
  deriving DecidableEq, Repr

def IsLive (live : List (LiveOrder Addr Price)) (order_id : UInt64) : Prop :=
  ∃ entry ∈ live, entry.order.order_id = order_id

instance (live : List (LiveOrder Addr Price)) (order_id : UInt64) :
    Decidable (IsLive live order_id) :=
  inferInstanceAs
    (Decidable (∃ entry ∈ live, entry.order.order_id = order_id))

def setQuantity (order_id : UInt64) (new_quantity : Int32)
    (entry : LiveOrder Addr Price) : LiveOrder Addr Price :=
  if entry.order.order_id = order_id then
    { entry with order := { entry.order with quantity := new_quantity } }
  else entry

/-- The purpose of the book. -/
def abstractCall (live : List (LiveOrder Addr Price)) :
    Call Addr Price → List (LiveOrder Addr Price) × Outcome
  | .insert ptr order => (⟨ptr, order⟩ :: live, .done)
  | .update order_id new_quantity =>
      if IsLive live order_id then
        (live.map (setQuantity order_id new_quantity), .done)
      else (live, .threw "Order not found")
  | .cancel order_id =>
      if IsLive live order_id then
        (live.filter fun entry => entry.order.order_id ≠ order_id, .done)
      else (live, .threw "Order not found")

variable (priceToIndex : Price → ℤ)

/-- The sum of the quantities of the live orders of one side at an index. -/
def levelTotal (is_buy : Bool) (live : List (LiveOrder Addr Price)) (i : ℤ) :
    ℤ :=
  ((live.filter fun entry =>
    entry.order.is_buy = is_buy ∧ priceToIndex entry.order.price = i).map
      fun entry => entry.order.quantity.toInt).sum

/-- The indices which hold a live order of one side. -/
def liveIndices (is_buy : Bool) (live : List (LiveOrder Addr Price)) : Set ℤ :=
  { i | ∃ entry ∈ live, entry.order.is_buy = is_buy ∧
      priceToIndex entry.order.price = i }

/-- What the callers of the book promise: fresh ids, orders that are not
overwritten while they are live, positive quantities, prices inside the level
arrays, a free node in the id index and level totals that are `int`s. -/
def Promised (initBuckets MaxPriceLevels : ℕ)
    (live : List (LiveOrder Addr Price)) (c : Call Addr Price) : Prop :=
  (match c with
    | .insert ptr order =>
        ¬ IsLive live order.order_id ∧ (∀ entry ∈ live, entry.ptr ≠ ptr) ∧
          0 < order.quantity ∧ 0 ≤ priceToIndex order.price ∧
          priceToIndex order.price < MaxPriceLevels ∧
          live.length < 16 * initBuckets
    | .update _ new_quantity => 0 < new_quantity
    | .cancel _ => True) ∧
  ∀ is_buy : Bool, ∀ i : Fin MaxPriceLevels,
    levelTotal priceToIndex is_buy (abstractCall live c).1 i.val < 2 ^ 31

instance (initBuckets MaxPriceLevels : ℕ) (live : List (LiveOrder Addr Price))
    [DecidableEq Addr] :
    ∀ c, Decidable (Promised priceToIndex initBuckets MaxPriceLevels live c)
  | .insert ptr order =>
      inferInstanceAs (Decidable ((¬ IsLive live order.order_id ∧
        (∀ entry ∈ live, entry.ptr ≠ ptr) ∧ 0 < order.quantity ∧
          0 ≤ priceToIndex order.price ∧
          priceToIndex order.price < MaxPriceLevels ∧
          live.length < 16 * initBuckets) ∧ _))
  | .update _ new_quantity =>
      inferInstanceAs (Decidable (0 < new_quantity ∧ _))
  | .cancel _ => inferInstanceAs (Decidable (True ∧ _))

variable {priceToIndex}

/-! ## Level totals of the list -/

theorem levelTotal_cons (is_buy : Bool) (entry : LiveOrder Addr Price)
    (live : List (LiveOrder Addr Price)) (i : ℤ) :
    levelTotal priceToIndex is_buy (entry :: live) i =
      (if entry.order.is_buy = is_buy ∧
          priceToIndex entry.order.price = i then
        entry.order.quantity.toInt else 0) +
        levelTotal priceToIndex is_buy live i := by
  unfold levelTotal
  by_cases hentry : entry.order.is_buy = is_buy ∧
      priceToIndex entry.order.price = i
  · rw [List.filter_cons_of_pos (by simpa using hentry), if_pos hentry]
    simp
  · rw [List.filter_cons_of_neg (by simpa using hentry), if_neg hentry]
    simp

variable (priceToIndex) in
theorem levelTotal_nonneg {live : List (LiveOrder Addr Price)}
    (hpositive : ∀ entry ∈ live, 0 < entry.order.quantity.toInt)
    (is_buy : Bool) (i : ℤ) :
    0 ≤ levelTotal priceToIndex is_buy live i := by
  induction live with
  | nil => simp [levelTotal]
  | cons entry rest ih =>
      rw [levelTotal_cons]
      have hrest := ih fun other hother =>
        hpositive other (List.mem_cons_of_mem _ hother)
      have hentry := hpositive entry List.mem_cons_self
      split <;> omega

variable (priceToIndex) in
theorem occupiedBy_levelTotal {live : List (LiveOrder Addr Price)}
    (hpositive : ∀ entry ∈ live, 0 < entry.order.quantity.toInt)
    (is_buy : Bool) :
    occupiedBy (levelTotal priceToIndex is_buy live) =
      liveIndices priceToIndex is_buy live := by
  ext i
  show 0 < levelTotal priceToIndex is_buy live i ↔
    ∃ entry ∈ live, entry.order.is_buy = is_buy ∧
      priceToIndex entry.order.price = i
  induction live with
  | nil => simp [levelTotal]
  | cons entry rest ih =>
      have hrest := fun other hother =>
        hpositive other (List.mem_cons_of_mem _ hother)
      have hnonneg := levelTotal_nonneg priceToIndex hrest is_buy i
      have hentry := hpositive entry List.mem_cons_self
      rw [levelTotal_cons, List.exists_mem_cons_iff, ← ih hrest]
      by_cases hhere : entry.order.is_buy = is_buy ∧
          priceToIndex entry.order.price = i
      · rw [if_pos hhere]
        exact ⟨fun _ => Or.inl hhere, fun _ => by omega⟩
      · rw [if_neg hhere, zero_add]
        exact ⟨Or.inr, fun h => h.resolve_left hhere⟩

theorem levelTotal_pos {live : List (LiveOrder Addr Price)}
    (hpositive : ∀ entry ∈ live, 0 < entry.order.quantity.toInt)
    {entry : LiveOrder Addr Price} (hentry : entry ∈ live) :
    0 < levelTotal priceToIndex entry.order.is_buy live
      (priceToIndex entry.order.price) := by
  have hmem : priceToIndex entry.order.price ∈
      liveIndices priceToIndex entry.order.is_buy live :=
    ⟨entry, hentry, rfl, rfl⟩
  rw [← occupiedBy_levelTotal priceToIndex hpositive] at hmem
  exact hmem

theorem levelTotal_fit {live : List (LiveOrder Addr Price)}
    (hpositive : ∀ entry ∈ live, 0 < entry.order.quantity.toInt)
    (hrange : ∀ entry ∈ live, 0 ≤ priceToIndex entry.order.price ∧
      priceToIndex entry.order.price < MaxPriceLevels)
    (is_buy : Bool)
    (hbounded : ∀ i : Fin MaxPriceLevels,
      levelTotal priceToIndex is_buy live i.val < 2 ^ 31) :
    TotalsFit MaxPriceLevels (levelTotal priceToIndex is_buy live) where
  nonneg := levelTotal_nonneg priceToIndex hpositive is_buy
  bounded := hbounded
  outside := by
    intro i hi
    have hnonneg := levelTotal_nonneg priceToIndex hpositive is_buy i
    by_contra hne
    have hmem : i ∈ occupiedBy (levelTotal priceToIndex is_buy live) := by
      show 0 < levelTotal priceToIndex is_buy live i
      omega
    rw [occupiedBy_levelTotal priceToIndex hpositive] at hmem
    rcases hmem with ⟨entry, hentry, -, rfl⟩
    have := hrange entry hentry
    omega

variable (priceToIndex) in
/-- The other side, or the same side elsewhere, does not change. -/
theorem levelTotal_insert (is_buy : Bool) (entry : LiveOrder Addr Price)
    (live : List (LiveOrder Addr Price)) :
    Shifted (levelTotal priceToIndex is_buy live)
      (levelTotal priceToIndex is_buy (entry :: live))
      (priceToIndex entry.order.price)
      (if entry.order.is_buy = is_buy then entry.order.quantity.toInt
        else 0) := by
  intro i
  rw [levelTotal_cons]
  by_cases hside : entry.order.is_buy = is_buy
  · by_cases hindex : priceToIndex entry.order.price = i
    · simp [hside, hindex, add_comm]
    · have hindex' : ¬ i = priceToIndex entry.order.price :=
        fun h => hindex h.symm
      simp [hindex, hindex']
  · simp [hside]

theorem setQuantity_of_ne {order_id : UInt64} {new_quantity : Int32}
    {live : List (LiveOrder Addr Price)}
    (hne : ∀ other ∈ live, other.order.order_id ≠ order_id) :
    live.map (setQuantity order_id new_quantity) = live := by
  conv_rhs => rw [← List.map_id live]
  apply List.map_congr_left
  intro other hother
  simp [setQuantity, hne other hother]

theorem filter_of_ne {order_id : UInt64} {live : List (LiveOrder Addr Price)}
    (hne : ∀ other ∈ live, other.order.order_id ≠ order_id) :
    (live.filter fun other => other.order.order_id ≠ order_id) = live := by
  apply List.filter_eq_self.mpr
  intro other hother
  simpa using hne other hother

theorem not_isLive_filter (live : List (LiveOrder Addr Price))
    (order_id : UInt64) :
    ¬ IsLive (live.filter fun other => other.order.order_id ≠ order_id)
      order_id := by
  rintro ⟨other, hother, heq⟩
  have hne := (List.mem_filter.mp hother).2
  simp [heq] at hne

/-- Live orders have distinct ids. -/
def DistinctIds (live : List (LiveOrder Addr Price)) : Prop :=
  (live.map fun entry => entry.order.order_id).Nodup

theorem DistinctIds.tail {entry : LiveOrder Addr Price}
    {live : List (LiveOrder Addr Price)}
    (hdistinct : DistinctIds (entry :: live)) :
    DistinctIds live ∧
      ∀ other ∈ live, other.order.order_id ≠ entry.order.order_id := by
  have hcons := List.nodup_cons.mp hdistinct
  refine ⟨hcons.2, ?_⟩
  intro other hother heq
  exact hcons.1 (List.mem_map.mpr ⟨other, hother, heq⟩)

theorem DistinctIds.unique {live : List (LiveOrder Addr Price)}
    (hdistinct : DistinctIds live) {entry entry' : LiveOrder Addr Price}
    (hentry : entry ∈ live) (hentry' : entry' ∈ live)
    (hid : entry.order.order_id = entry'.order.order_id) : entry = entry' :=
  List.inj_on_of_nodup_map hdistinct hentry hentry' hid

theorem levelTotal_update {live : List (LiveOrder Addr Price)}
    (hdistinct : DistinctIds live) {entry : LiveOrder Addr Price}
    (hentry : entry ∈ live) (new_quantity : Int32) (is_buy : Bool) :
    Shifted (levelTotal priceToIndex is_buy live)
      (levelTotal priceToIndex is_buy
        (live.map (setQuantity entry.order.order_id new_quantity)))
      (priceToIndex entry.order.price)
      (if entry.order.is_buy = is_buy then
        new_quantity.toInt - entry.order.quantity.toInt else 0) := by
  induction live with
  | nil => simp at hentry
  | cons head rest ih =>
      intro i
      rcases hdistinct.tail with ⟨hrest, hhead⟩
      rw [List.map_cons, levelTotal_cons, levelTotal_cons]
      rcases List.mem_cons.mp hentry with rfl | hentry
      · rw [setQuantity_of_ne hhead]
        simp only [setQuantity, if_true]
        by_cases hside : entry.order.is_buy = is_buy
        · by_cases hindex : priceToIndex entry.order.price = i
          · simp only [hside, hindex, true_and, if_true]
            omega
          · have hindex' : ¬ i = priceToIndex entry.order.price :=
              fun h => hindex h.symm
            simp [hindex, hindex']
        · simp [hside]
      · have hne : head.order.order_id ≠ entry.order.order_id :=
          fun heq => hhead entry hentry heq.symm
        have htail := ih hrest hentry i
        simp only [setQuantity, if_neg hne]
        rw [htail]
        omega

theorem levelTotal_cancel {live : List (LiveOrder Addr Price)}
    (hdistinct : DistinctIds live) {entry : LiveOrder Addr Price}
    (hentry : entry ∈ live) (is_buy : Bool) :
    Shifted (levelTotal priceToIndex is_buy live)
      (levelTotal priceToIndex is_buy
        (live.filter fun other =>
          other.order.order_id ≠ entry.order.order_id))
      (priceToIndex entry.order.price)
      (if entry.order.is_buy = is_buy then
        -entry.order.quantity.toInt else 0) := by
  induction live with
  | nil => simp at hentry
  | cons head rest ih =>
      intro i
      rcases hdistinct.tail with ⟨hrest, hhead⟩
      rcases List.mem_cons.mp hentry with rfl | hentry
      · rw [List.filter_cons_of_neg (by simp), filter_of_ne hhead,
          levelTotal_cons]
        by_cases hside : entry.order.is_buy = is_buy
        · by_cases hindex : priceToIndex entry.order.price = i
          · simp [hside, hindex]
          · have hindex' : ¬ i = priceToIndex entry.order.price :=
              fun h => hindex h.symm
            simp [hindex, hindex']
        · simp [hside]
      · have hne : head.order.order_id ≠ entry.order.order_id :=
          fun heq => hhead entry hentry heq.symm
        have htail := ih hrest hentry i
        rw [List.filter_cons_of_pos (by simpa using hne), levelTotal_cons,
          levelTotal_cons, htail]
        omega

/-! ## What the promises keep -/

/-- What holds of the list itself while the callers keep their promises. -/
structure LiveOk (MaxPriceLevels : ℕ) (priceToIndex : Price → ℤ)
    (live : List (LiveOrder Addr Price)) : Prop where
  distinct : DistinctIds live
  positive : ∀ entry ∈ live, 0 < entry.order.quantity.toInt
  range : ∀ entry ∈ live, 0 ≤ priceToIndex entry.order.price ∧
    priceToIndex entry.order.price < MaxPriceLevels
  bounded : ∀ is_buy : Bool, ∀ i : Fin MaxPriceLevels,
    levelTotal priceToIndex is_buy live i.val < 2 ^ 31

variable {live : List (LiveOrder Addr Price)} {entry : LiveOrder Addr Price}

theorem setQuantity_order_id (order_id : UInt64) (new_quantity : Int32)
    (entry : LiveOrder Addr Price) :
    (setQuantity order_id new_quantity entry).order.order_id =
      entry.order.order_id := by
  unfold setQuantity
  split <;> rfl

theorem setQuantity_ptr (order_id : UInt64) (new_quantity : Int32)
    (entry : LiveOrder Addr Price) :
    (setQuantity order_id new_quantity entry).ptr = entry.ptr := by
  unfold setQuantity
  split <;> rfl

theorem setQuantity_price (order_id : UInt64) (new_quantity : Int32)
    (entry : LiveOrder Addr Price) :
    (setQuantity order_id new_quantity entry).order.price =
      entry.order.price := by
  unfold setQuantity
  split <;> rfl

theorem DistinctIds.cons {ptr : Addr} {order : Order Price}
    (hdistinct : DistinctIds live) (hfresh : ¬ IsLive live order.order_id) :
    DistinctIds (⟨ptr, order⟩ :: live) := by
  refine List.nodup_cons.mpr ⟨?_, hdistinct⟩
  intro hmem
  rcases List.mem_map.mp hmem with ⟨other, hother, heq⟩
  exact hfresh ⟨other, hother, heq⟩

theorem DistinctIds.setQuantity (hdistinct : DistinctIds live)
    (order_id : UInt64) (new_quantity : Int32) :
    DistinctIds
      (live.map (HftOrderBook.setQuantity order_id new_quantity)) := by
  have hids : (live.map (HftOrderBook.setQuantity order_id new_quantity)).map
      (fun entry => entry.order.order_id) =
      live.map fun entry => entry.order.order_id := by
    rw [List.map_map]
    apply List.map_congr_left
    intro entry _
    exact setQuantity_order_id order_id new_quantity entry
  unfold DistinctIds
  rw [hids]
  exact hdistinct

theorem length_filter_of_distinct
    (hdistinct : DistinctIds live) (hentry : entry ∈ live) :
    (live.filter fun other =>
      other.order.order_id ≠ entry.order.order_id).length + 1 =
        live.length := by
  induction live with
  | nil => simp at hentry
  | cons head rest ih =>
      obtain ⟨hrest, hhead⟩ := hdistinct.tail
      rcases List.mem_cons.mp hentry with rfl | hentry
      · rw [List.filter_cons_of_neg (by simp), filter_of_ne hhead]
        rfl
      · have hne : head.order.order_id ≠ entry.order.order_id :=
          fun heq => hhead entry hentry heq.symm
        rw [List.filter_cons_of_pos (by simpa using hne), List.length_cons,
          ih hrest hentry, List.length_cons]

theorem LiveOk.fit (hlive : LiveOk MaxPriceLevels priceToIndex live)
    (is_buy : Bool) :
    TotalsFit MaxPriceLevels (levelTotal priceToIndex is_buy live) :=
  levelTotal_fit hlive.positive hlive.range is_buy (hlive.bounded is_buy)

theorem toInt_pos {quantity : Int32} (hquantity : 0 < quantity) :
    0 < quantity.toInt := by
  simpa [Int32.lt_iff_toInt_lt] using hquantity

theorem LiveOk.insert (hlive : LiveOk MaxPriceLevels priceToIndex live)
    {ptr : Addr} {order : Order Price}
    (hpromised : Promised priceToIndex initBuckets MaxPriceLevels live
      (.insert ptr order)) :
    LiveOk MaxPriceLevels priceToIndex (⟨ptr, order⟩ :: live) := by
  rcases hpromised with ⟨⟨hfresh, -, hquantity, hlow, hhigh, -⟩, hbounded⟩
  constructor
  · exact hlive.distinct.cons hfresh
  · intro other hother
    rcases List.mem_cons.mp hother with rfl | hother
    · exact toInt_pos hquantity
    · exact hlive.positive other hother
  · intro other hother
    rcases List.mem_cons.mp hother with rfl | hother
    · exact ⟨hlow, hhigh⟩
    · exact hlive.range other hother
  · exact hbounded

theorem LiveOk.update (hlive : LiveOk MaxPriceLevels priceToIndex live)
    {order_id : UInt64} {new_quantity : Int32} (hquantity : 0 < new_quantity)
    (hbounded : ∀ is_buy : Bool, ∀ i : Fin MaxPriceLevels,
      levelTotal priceToIndex is_buy
        (live.map (setQuantity order_id new_quantity)) i.val < 2 ^ 31) :
    LiveOk MaxPriceLevels priceToIndex
      (live.map (setQuantity order_id new_quantity)) := by
  constructor
  · exact hlive.distinct.setQuantity order_id new_quantity
  · intro other hother
    rcases List.mem_map.mp hother with ⟨entry, hentry, rfl⟩
    unfold setQuantity
    split
    · exact toInt_pos hquantity
    · exact hlive.positive entry hentry
  · intro other hother
    obtain ⟨entry, hentry, rfl⟩ := List.mem_map.mp hother
    rw [setQuantity_price]
    exact hlive.range entry hentry
  · exact hbounded

theorem LiveOk.cancel (hlive : LiveOk MaxPriceLevels priceToIndex live)
    {order_id : UInt64}
    (hbounded : ∀ is_buy : Bool, ∀ i : Fin MaxPriceLevels,
      levelTotal priceToIndex is_buy
        (live.filter fun entry => entry.order.order_id ≠ order_id) i.val <
          2 ^ 31) :
    LiveOk MaxPriceLevels priceToIndex
      (live.filter fun entry => entry.order.order_id ≠ order_id) where
  distinct := hlive.distinct.sublist (List.filter_sublist.map _)
  positive := fun entry hentry =>
    hlive.positive entry (List.mem_filter.mp hentry).1
  range := fun entry hentry => hlive.range entry (List.mem_filter.mp hentry).1
  bounded := hbounded

end HftOrderBook
end TradingStudies
