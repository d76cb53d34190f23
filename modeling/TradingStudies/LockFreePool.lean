import TradingStudies.Library.RingIndex
import TradingStudies.Library.StepSystem

/-!
# The pool of LockFreeQueue.cpp in one thread

`LockFreePool` keeps its free objects in a ring.  The two counters run modulo
twice the capacity, which tells a full ring from an empty one.  `acquire`
compares them for equality; `release` takes their difference, as a `size_t` and
without reducing it.  A full ring whose `head_` has started over is not
recognised, and the object released last ends up in the place of the oldest
one.
-/

namespace TradingStudies
namespace LockFreePool

open RingIndex

structure Pool (capacity : ℕ) (Obj : Type*) where
  freelist_ : Fin capacity → Obj
  head_ : UInt64
  tail_ : UInt64

inductive Call (Obj : Type*)
  | acquire
  | release (obj : Obj)
  deriving DecidableEq, Repr

/-- `acquired none` is the null pointer. -/
inductive Outcome (Obj : Type*)
  | acquired (obj : Option Obj)
  | released
  | threw (message : String)
  deriving DecidableEq, Repr

variable {capacity : ℕ} {Obj : Type*}

def capacity_ (capacity : ℕ) : UInt64 := UInt64.ofNat capacity

/-- `max_size()` of a vector of pointers. -/
def maxSize : ℕ := (2 ^ 63 - 1) / 8

/-- The free list holds all elements of `storage_` at first. -/
def fresh (storage_ : Fin capacity → Obj) : Pool capacity Obj where
  freelist_ := storage_
  head_ := capacity_ capacity
  tail_ := 0

def construct (storage_ : Fin capacity → Obj) :
    Except String (Pool capacity Obj) :=
  if capacity ≤ maxSize then .ok (fresh storage_)
  else .error "cannot create std::vector larger than max_size()"

section Operations

variable [NeZero capacity]

/-- `freelist_[pos % capacity_]` -/
def slotOf (capacity : ℕ) [NeZero capacity] (pos : UInt64) : Fin capacity :=
  ⟨(pos % capacity_ capacity).toNat, by
    have hpos := Nat.pos_of_neZero capacity
    have hword := pos.toNat_lt
    unfold capacity_
    rw [UInt64.toNat_mod, UInt64.toNat_ofNat']
    rcases Nat.lt_or_ge capacity (2 ^ 64) with hsmall | hlarge
    · rw [Nat.mod_eq_of_lt hsmall]
      exact Nat.mod_lt _ hpos
    · exact lt_of_le_of_lt (Nat.mod_le _ _) (by omega)⟩

def acquire (pool : Pool capacity Obj) : Option Obj × Pool capacity Obj :=
  let tail := pool.tail_
  let head := pool.head_
  if tail = head then (none, pool)
  else
    (some (pool.freelist_ (slotOf capacity tail)),
      { pool with tail_ := (tail + 1) % (2 * capacity_ capacity) })

def release (pool : Pool capacity Obj) (obj : Obj) :
    Except String (Pool capacity Obj) :=
  let head := pool.head_
  if head - pool.tail_ = capacity_ capacity then .error "Pool overflow"
  else
    .ok { pool with
      freelist_ := Function.update pool.freelist_ (slotOf capacity head) obj
      head_ := (head + 1) % (2 * capacity_ capacity) }

def call (pool : Pool capacity Obj) :
    Call Obj → Pool capacity Obj × Outcome Obj
  | .acquire =>
      let (obj, pool) := acquire pool
      (pool, .acquired obj)
  | .release obj =>
      match release pool obj with
      | .ok pool => (pool, .released)
      | .error message => (pool, .threw message)

end Operations

/-! ## The free objects -/

/-- The free objects, the one released longest ago first, and the number of
objects acquired so far. -/
structure FreeRing (Obj : Type*) where
  free : List Obj
  acquired : ℕ

def freeRing (capacity : ℕ) (ring : FreeRing Obj) :
    Call Obj → FreeRing Obj × Outcome Obj
  | .acquire =>
      match ring.free with
      | [] => (ring, .acquired none)
      | obj :: rest => (⟨rest, ring.acquired + 1⟩, .acquired (some obj))
  | .release obj =>
      if ring.free.length = capacity then (ring, .threw "Pool overflow")
      else (⟨ring.free ++ [obj], ring.acquired⟩, .released)

/-- A release into a full ring comes while `tail_` is in the first half of its
range. -/
def Detected (capacity : ℕ) (ring : FreeRing Obj) : Call Obj → Prop
  | .acquire => True
  | .release _ =>
      ring.free.length = capacity →
        ring.acquired % (2 * capacity) < capacity

instance (capacity : ℕ) (ring : FreeRing Obj) :
    ∀ c : Call Obj, Decidable (Detected capacity ring c)
  | .acquire => inferInstanceAs (Decidable True)
  | .release _ => inferInstanceAs (Decidable (_ → _))

/-- `written` lists the objects that were put into the ring, and `acquired`
counts those that were taken out again. -/
structure Represents [NeZero capacity] (pool : Pool capacity Obj)
    (acquired : ℕ) (written : List Obj) : Prop where
  head : pool.head_.toNat = written.length % (2 * capacity)
  tail : pool.tail_.toNat = acquired % (2 * capacity)
  acquired_le : acquired ≤ written.length
  bounded : written.length ≤ acquired + capacity
  slots : HoldsLast (fun index => some (pool.freelist_ index)) written

section Words

theorem toNat_capacity_ (hcapacity : capacity ≤ maxSize) :
    (capacity_ capacity).toNat = capacity := by
  have hsize : UInt64.size = 2 ^ 64 := rfl
  unfold maxSize at hcapacity
  exact UInt64.toNat_ofNat_of_lt' (by omega)

theorem toNat_double (hcapacity : capacity ≤ maxSize) :
    (2 * capacity_ capacity).toNat = 2 * capacity := by
  have hword := toNat_capacity_ hcapacity
  have htwo : (2 : UInt64).toNat = 2 := rfl
  unfold maxSize at hcapacity
  rw [UInt64.toNat_mul, hword, htwo]
  omega

variable [NeZero capacity]

theorem toNat_advance (hcapacity : capacity ≤ maxSize) {pos : UInt64}
    {count : ℕ} (hpos : pos.toNat = count % (2 * capacity)) :
    ((pos + 1) % (2 * capacity_ capacity)).toNat =
      (count + 1) % (2 * capacity) := by
  have hlt : count % (2 * capacity) < 2 * capacity :=
    Nat.mod_lt _ (Nat.mul_pos Nat.two_pos (Nat.pos_of_neZero capacity))
  have hsum : (pos + 1).toNat = count % (2 * capacity) + 1 := by
    have hone : (1 : UInt64).toNat = 1 := rfl
    unfold maxSize at hcapacity
    rw [UInt64.toNat_add, hpos, hone]
    omega
  rw [UInt64.toNat_mod, hsum, toNat_double hcapacity, Nat.mod_add_mod]

/-- A counter modulo twice the capacity names the place of its number. -/
theorem slotOf_eq_place (hcapacity : capacity ≤ maxSize) {pos : UInt64}
    {count : ℕ} (hpos : pos.toNat = count % (2 * capacity)) :
    slotOf capacity pos = place capacity count := by
  apply Fin.ext
  show (pos % capacity_ capacity).toNat = count % capacity
  rw [UInt64.toNat_mod, hpos, toNat_capacity_ hcapacity]
  exact Nat.mod_mod_of_dvd count (Nat.dvd_mul_left capacity 2)

end Words

section Rings

variable [NeZero capacity] {pool : Pool capacity Obj} {acquired : ℕ}
  {written : List Obj}

theorem fresh_represents (hcapacity : capacity ≤ maxSize)
    (storage_ : Fin capacity → Obj) :
    Represents (fresh storage_) 0 (List.ofFn storage_) where
  head := by
    have hpos := Nat.pos_of_neZero capacity
    rw [List.length_ofFn, Nat.mod_eq_of_lt (by omega)]
    exact toNat_capacity_ hcapacity
  tail := (Nat.zero_mod _).symm
  acquired_le := Nat.zero_le _
  bounded := by
    rw [List.length_ofFn]
    omega
  slots := by
    intro ticket hticket _
    rw [List.length_ofFn] at hticket
    have hplace : place capacity ticket = ⟨ticket, hticket⟩ :=
      place_val ⟨ticket, hticket⟩
    rw [hplace, List.getElem?_eq_getElem (by rwa [List.length_ofFn]),
      List.getElem_ofFn]
    rfl

/-- Equal counters are never a whole round apart. -/
theorem Represents.empty_iff (hrep : Represents pool acquired written) :
    pool.tail_ = pool.head_ ↔ acquired = written.length := by
  have hpos := Nat.pos_of_neZero capacity
  have hle := hrep.acquired_le
  have hbounded := hrep.bounded
  rw [← UInt64.toNat_inj, hrep.tail, hrep.head]
  constructor
  · intro hmod
    have hdvd : 2 * capacity ∣ written.length - acquired :=
      (Nat.modEq_iff_dvd' hle).mp hmod
    have hzero : written.length - acquired = 0 :=
      Nat.eq_zero_of_dvd_of_lt hdvd (by omega)
    omega
  · intro hsame
    rw [hsame]

/-- The difference of the counters is the capacity when the ring is full and
`head_` has not started over. -/
theorem Represents.overflow_iff (hrep : Represents pool acquired written)
    (hcapacity : capacity ≤ maxSize) :
    pool.head_ - pool.tail_ = capacity_ capacity ↔
      written.length = acquired + capacity ∧
        acquired % (2 * capacity) < capacity := by
  have hpos := Nat.pos_of_neZero capacity
  have hle := hrep.acquired_le
  have hbounded := hrep.bounded
  have htail := hrep.tail
  have hhead := hrep.head
  have hlt : acquired % (2 * capacity) < 2 * capacity :=
    Nat.mod_lt _ (by omega)
  have hfree : written.length - acquired < 2 * capacity := by omega
  -- `head_` is ahead of `tail_` by the number of free objects, or behind it
  -- by what is missing to a whole round
  have hsplit : written.length % (2 * capacity) =
      if 2 * capacity ≤
          acquired % (2 * capacity) + (written.length - acquired) then
        acquired % (2 * capacity) + (written.length - acquired) - 2 * capacity
      else acquired % (2 * capacity) + (written.length - acquired) := by
    have hsum : written.length = acquired + (written.length - acquired) := by
      omega
    conv_lhs => rw [hsum]
    rw [Nat.add_mod_eq_ite, Nat.mod_eq_of_lt hfree]
  rw [hsplit] at hhead
  unfold maxSize at hcapacity
  rw [← UInt64.toNat_inj, toNat_capacity_ hcapacity, UInt64.toNat_sub]
  split at hhead <;> omega

theorem Represents.acquire_empty (hrep : Represents pool acquired written)
    (hempty : acquired = written.length) :
    LockFreePool.acquire pool = (none, pool) :=
  if_pos (hrep.empty_iff.mpr hempty)

theorem Represents.acquire (hrep : Represents pool acquired written)
    (hcapacity : capacity ≤ maxSize) (hsome : acquired < written.length) :
    ∃ pool', LockFreePool.acquire pool = (some written[acquired], pool') ∧
      Represents pool' (acquired + 1) written := by
  have hnot : pool.tail_ ≠ pool.head_ := by
    rw [Ne, hrep.empty_iff]
    omega
  have hbounded := hrep.bounded
  have hobj : some (pool.freelist_ (slotOf capacity pool.tail_)) =
      some written[acquired] := by
    have hslot := hrep.slots acquired hsome hbounded
    rw [List.getElem?_eq_getElem hsome] at hslot
    rw [slotOf_eq_place hcapacity hrep.tail]
    exact hslot
  refine ⟨{ pool with
    tail_ := (pool.tail_ + 1) % (2 * capacity_ capacity) }, ?_, ?_⟩
  · rw [LockFreePool.acquire, if_neg hnot, hobj]
  · constructor
    · exact hrep.head
    · exact toNat_advance hcapacity hrep.tail
    · exact hsome
    · omega
    · exact hrep.slots

theorem Represents.release_full (hrep : Represents pool acquired written)
    (hcapacity : capacity ≤ maxSize)
    (hfull : written.length = acquired + capacity)
    (hfirst : acquired % (2 * capacity) < capacity) (obj : Obj) :
    LockFreePool.release pool obj = .error "Pool overflow" :=
  if_pos ((hrep.overflow_iff hcapacity).mpr ⟨hfull, hfirst⟩)

theorem Represents.release_overflows
    (hrep : Represents pool acquired written)
    (hcapacity : capacity ≤ maxSize)
    (hsecond : ¬ acquired % (2 * capacity) < capacity) (obj : Obj) :
    ∃ pool', LockFreePool.release pool obj = .ok pool' :=
  ⟨_, if_neg fun hoverflow =>
    hsecond ((hrep.overflow_iff hcapacity).mp hoverflow).2⟩

theorem Represents.release (hrep : Represents pool acquired written)
    (hcapacity : capacity ≤ maxSize)
    (hroom : written.length < acquired + capacity) (obj : Obj) :
    ∃ pool', LockFreePool.release pool obj = .ok pool' ∧
      Represents pool' acquired (written ++ [obj]) := by
  have hnot : ¬ pool.head_ - pool.tail_ = capacity_ capacity := by
    rw [hrep.overflow_iff hcapacity]
    omega
  have hle := hrep.acquired_le
  refine ⟨_, if_neg hnot, ?_⟩
  constructor
  · rw [List.length_append, List.length_singleton]
    exact toNat_advance hcapacity hrep.head
  · exact hrep.tail
  · rw [List.length_append]
    omega
  · rw [List.length_append, List.length_singleton]
    omega
  · have hring : (fun index => some (Function.update pool.freelist_
        (slotOf capacity pool.head_) obj index)) =
          Function.update (fun index => some (pool.freelist_ index))
            (place capacity written.length) (some obj) := by
      rw [slotOf_eq_place hcapacity hrep.head]
      exact Function.comp_update some pool.freelist_ _ obj
    rw [hring]
    exact hrep.slots.write obj

/-! ## Whole runs -/

theorem Represents.call_simulates (hrep : Represents pool acquired written)
    (hcapacity : capacity ≤ maxSize) {c : Call Obj}
    (hdetected : Detected capacity ⟨written.drop acquired, acquired⟩ c) :
    (call pool c).2 =
        (freeRing capacity ⟨written.drop acquired, acquired⟩ c).2 ∧
      ∃ acquired' written', Represents (call pool c).1 acquired' written' ∧
        (freeRing capacity ⟨written.drop acquired, acquired⟩ c).1 =
          ⟨written'.drop acquired', acquired'⟩ := by
  have hle := hrep.acquired_le
  have hbounded := hrep.bounded
  cases c with
  | acquire =>
      rcases Nat.eq_or_lt_of_le hle with hempty | hsome
      · have hnone : written.drop acquired = [] :=
          List.drop_eq_nil_of_le hempty.ge
        simp only [call, hrep.acquire_empty hempty, freeRing, hnone, true_and]
        exact ⟨acquired, written, hrep, by rw [hnone]⟩
      · obtain ⟨pool', heval, hrep'⟩ := hrep.acquire hcapacity hsome
        simp only [call, heval, freeRing, List.drop_eq_getElem_cons hsome,
          true_and]
        exact ⟨acquired + 1, written, hrep', rfl⟩
  | release obj =>
      have hlength := List.length_drop (i := acquired) (l := written)
      by_cases hfull : written.length = acquired + capacity
      · have hall : (written.drop acquired).length = capacity := by omega
        have hfirst := hdetected hall
        simp only [call, hrep.release_full hcapacity hfull hfirst, freeRing,
          if_pos hall, true_and]
        exact ⟨acquired, written, hrep, rfl⟩
      · have hroom : ¬ (written.drop acquired).length = capacity := by omega
        obtain ⟨pool', heval, hrep'⟩ :=
          hrep.release hcapacity (by omega) obj
        simp only [call, heval, freeRing, if_neg hroom, true_and]
        exact ⟨acquired, _, hrep',
          by rw [List.drop_append_of_le_length hle]⟩

/-- A full ring in the second half takes one object more. -/
theorem Represents.call_differs (hrep : Represents pool acquired written)
    (hcapacity : capacity ≤ maxSize) {c : Call Obj}
    (hmissed : ¬ Detected capacity ⟨written.drop acquired, acquired⟩ c) :
    (call pool c).2 ≠
      (freeRing capacity ⟨written.drop acquired, acquired⟩ c).2 := by
  cases c with
  | acquire => exact absurd trivial hmissed
  | release obj =>
      unfold Detected at hmissed
      rw [Classical.not_imp] at hmissed
      obtain ⟨hall, hsecond⟩ := hmissed
      obtain ⟨pool', heval⟩ := hrep.release_overflows hcapacity hsecond obj
      simp only [call, heval, freeRing, if_pos hall]
      exact nofun

/-- The pool is answered as by a ring that holds `capacity` objects exactly
when no object is released into a full ring with `tail_` in the second half of
its range. -/
theorem lockFreePool_detects_iff (hcapacity : capacity ≤ maxSize)
    (storage_ : Fin capacity → Obj) (calls : List (Call Obj)) :
    ∃ pool, construct storage_ = .ok pool ∧
      (CallSystem.results call pool calls =
          CallSystem.results (freeRing capacity) ⟨List.ofFn storage_, 0⟩
            calls ↔
        CallSystem.AllAllowed (freeRing capacity) (Detected capacity)
          ⟨List.ofFn storage_, 0⟩ calls) := by
  refine ⟨_, if_pos hcapacity, ?_⟩
  apply CallSystem.results_iff_allAllowed (Detected capacity)
    fun pool ring => ∃ acquired written, Represents pool acquired written ∧
      ring = ⟨written.drop acquired, acquired⟩
  · rintro pool ring c ⟨acquired, written, hrep, rfl⟩ hdetected
    exact hrep.call_simulates hcapacity hdetected
  · rintro pool ring c ⟨acquired, written, hrep, rfl⟩ hmissed
    exact hrep.call_differs hcapacity hmissed
  · exact ⟨0, _, fresh_represents hcapacity storage_, rfl⟩

end Rings

/-- A pool of two objects: the overflow of the first round is reported, and
objects come back in the order of their release. -/
theorem lockFreePool_detects_two :
    ∃ pool, construct (fun slot : Fin 2 => slot.val) = .ok pool ∧
      CallSystem.results call pool
          [.release 7, .acquire, .acquire, .acquire, .release 1, .acquire] =
        [.threw "Pool overflow", .acquired (some 0), .acquired (some 1),
          .acquired none, .released, .acquired (some 1)] := by
  obtain ⟨pool, hpool, hiff⟩ := lockFreePool_detects_iff (by decide)
    (fun slot : Fin 2 => slot.val)
    [.release 7, .acquire, .acquire, .acquire, .release 1, .acquire]
  exact ⟨pool, hpool, (hiff.mpr (by decide)).trans (by decide)⟩

/-- One object, taken and given back: another release is not reported, and
then the ring seems to be empty. -/
theorem lockFreePool_misses_overflow :
    ∃ pool, construct (fun slot : Fin 1 => slot.val) = .ok pool ∧
      CallSystem.results call pool
          [.acquire, .release 0, .release 7, .acquire] =
        [.acquired (some 0), .released, .released, .acquired none] ∧
      CallSystem.results (freeRing 1)
          ⟨List.ofFn fun slot : Fin 1 => slot.val, 0⟩
          [.acquire, .release 0, .release 7, .acquire] =
        [.acquired (some 0), .released, .threw "Pool overflow",
          .acquired (some 0)] :=
  ⟨_, if_pos (by decide), by decide, by decide⟩

end LockFreePool
end TradingStudies
