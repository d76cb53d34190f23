import TradingStudies.Library.RingIndex
import TradingStudies.Library.StepSystem

/-!
# The ring of CustomSPSCLockFreeQueue

One producer and one consumer share a ring of pointers with two 64-bit
counters that only grow.  The consumer advances `head_` first and reads the
slot of the ticket it has drawn afterwards; the producer compares its next
ticket with `head_` before it writes.

A state also keeps the values whose `enqueue` has been accepted and the
non-null values which `dequeue` has returned.
-/

namespace TradingStudies
namespace CustomSPSCLockFreeQueue

open RingIndex

/-- The shared words of the queue; `none` is the null pointer. -/
structure Queue (capacity : ℕ) (Value : Type*) where
  buffer_ : Fin capacity → Option Value
  head_ : UInt64
  tail_ : UInt64

def capacity_ (capacity : ℕ) : UInt64 := UInt64.ofNat capacity

def mask_ (capacity : ℕ) : UInt64 := UInt64.ofNat (capacity - 1)

/-- Inside `enqueue`: before the load of `head_`, before the write of the
slot, before the store of `tail_`. -/
inductive Producer (Value : Type*)
  | idle
  | loaded (ptr : Value) (tail : UInt64)
  | checked (ptr : Value) (tail : UInt64)
  | written (ptr : Value) (tail : UInt64)
  deriving DecidableEq, Repr

/-- Inside `dequeue`: between the two loads, which come in either order,
before the `fetch_add`, and before the read of the slot. -/
inductive Consumer
  | idle
  | loadedHead (head : UInt64)
  | loadedTail (tail : UInt64)
  | nonEmpty
  | claimed (head : UInt64)
  deriving DecidableEq, Repr

structure State (capacity : ℕ) (Value : Type*) where
  queue : Queue capacity Value
  producer : Producer Value
  consumer : Consumer
  accepted : List Value
  returned : List Value

inductive Move (Value : Type*)
  | enqueue (ptr : Value)
  | checkHead
  | writeSlot
  | storeTail
  | loadHead
  | loadTail
  | fetchAdd
  | readSlot
  deriving DecidableEq, Repr

variable {Value : Type*} {capacity : ℕ}

def fresh (capacity : ℕ) (Value : Type*) : Queue capacity Value :=
  { buffer_ := fun _ => none
    head_ := 0
    tail_ := 0 }

def construct (capacity : ℕ) (Value : Type*) :
    Except String (Queue capacity Value) :=
  if capacity_ capacity = 0 ∨ capacity_ capacity &&& mask_ capacity ≠ 0 then
    .error "Capacity must be a power of two and greater than zero."
  else
    .ok (fresh capacity Value)

def initial (queue : Queue capacity Value) : State capacity Value :=
  { queue := queue
    producer := .idle
    consumer := .idle
    accepted := []
    returned := [] }

variable [NeZero capacity]

/-- `buffer_[pos & mask_]` -/
def slotOf (capacity : ℕ) [NeZero capacity] (pos : UInt64) : Fin capacity :=
  ⟨(pos &&& mask_ capacity).toNat, by
    have hpos := Nat.pos_of_neZero capacity
    have hle : (pos &&& mask_ capacity).toNat ≤ (mask_ capacity).toNat := by
      rw [UInt64.toNat_and]
      exact Nat.and_le_right
    have hmask : (mask_ capacity).toNat ≤ capacity - 1 := by
      unfold mask_
      rw [UInt64.toNat_ofNat']
      exact Nat.mod_le _ _
    omega⟩

/-- The test at the head of `dequeue`. -/
def State.compare (state : State capacity Value) (head tail : UInt64) :
    State capacity Value :=
  { state with consumer := if head = tail then .idle else .nonEmpty }

def step (state : State capacity Value) :
    Move Value → Option (State capacity Value)
  | .enqueue ptr =>
      match state.producer with
      | .idle =>
          some { state with producer := .loaded ptr state.queue.tail_ }
      | _ => none
  | .checkHead =>
      match state.producer with
      | .loaded ptr tail =>
          let next_tail := tail + 1
          if next_tail - state.queue.head_ > capacity_ capacity then
            some { state with producer := .idle }
          else
            some { state with producer := .checked ptr tail }
      | _ => none
  | .writeSlot =>
      match state.producer with
      | .checked ptr tail =>
          some { state with
            producer := .written ptr tail
            queue := { state.queue with
              buffer_ := Function.update state.queue.buffer_
                (slotOf capacity tail) (some ptr) } }
      | _ => none
  | .storeTail =>
      match state.producer with
      | .written ptr tail =>
          some { state with
            producer := .idle
            queue := { state.queue with tail_ := tail + 1 }
            accepted := state.accepted ++ [ptr] }
      | _ => none
  | .loadHead =>
      match state.consumer with
      | .idle =>
          some { state with consumer := .loadedHead state.queue.head_ }
      | .loadedTail tail => some (state.compare state.queue.head_ tail)
      | _ => none
  | .loadTail =>
      match state.consumer with
      | .idle =>
          some { state with consumer := .loadedTail state.queue.tail_ }
      | .loadedHead head => some (state.compare head state.queue.tail_)
      | _ => none
  | .fetchAdd =>
      match state.consumer with
      | .nonEmpty =>
          some { state with
            consumer := .claimed state.queue.head_
            queue := { state.queue with head_ := state.queue.head_ + 1 } }
      | _ => none
  | .readSlot =>
      match state.consumer with
      | .claimed head =>
          some { state with
            consumer := .idle
            returned := state.returned ++
              (state.queue.buffer_ (slotOf capacity head)).toList }
      | _ => none

/-! ## Counters that wrap -/

theorem pow_lt_size {exponent : ℕ} (hexponent : exponent < 64) :
    2 ^ exponent < UInt64.size :=
  Nat.pow_lt_pow_right Nat.one_lt_two hexponent

theorem toNat_capacity_ {exponent : ℕ} (hexponent : exponent < 64) :
    (capacity_ (2 ^ exponent)).toNat = 2 ^ exponent := by
  apply UInt64.toNat_ofNat_of_lt'
  exact pow_lt_size hexponent

theorem toNat_mask_ {exponent : ℕ} (hexponent : exponent < 64) :
    (mask_ (2 ^ exponent)).toNat = 2 ^ exponent - 1 := by
  apply UInt64.toNat_ofNat_of_lt'
  exact lt_of_le_of_lt (Nat.sub_le _ _) (pow_lt_size hexponent)

theorem construct_pow_two {exponent : ℕ} (hexponent : exponent < 64) :
    construct (2 ^ exponent) Value = .ok (fresh (2 ^ exponent) Value) := by
  have hcapacity := toNat_capacity_ hexponent
  have hzero : capacity_ (2 ^ exponent) ≠ 0 := by
    intro hzero
    rw [hzero] at hcapacity
    exact (Nat.two_pow_pos exponent).ne hcapacity
  have hand : capacity_ (2 ^ exponent) &&& mask_ (2 ^ exponent) = 0 := by
    apply UInt64.toNat.inj
    rw [UInt64.toNat_and, hcapacity, toNat_mask_ hexponent,
      Nat.and_two_pow_sub_one_eq_mod, Nat.mod_self]
    rfl
  simp [construct, hzero, hand]

/-- The capacity divides `2 ^ 64`, so a wrapped counter still names the place
of its ticket. -/
theorem slotOf_ofNat {exponent : ℕ} (hexponent : exponent < 64)
    (ticket : ℕ) :
    slotOf (2 ^ exponent) (UInt64.ofNat ticket) =
      place (2 ^ exponent) ticket := by
  apply Fin.ext
  have hdvd : 2 ^ exponent ∣ 2 ^ 64 := Nat.pow_dvd_pow 2 hexponent.le
  calc
    (UInt64.ofNat ticket &&& mask_ (2 ^ exponent)).toNat =
        ticket % 2 ^ 64 &&& (2 ^ exponent - 1) := by
          rw [UInt64.toNat_and, UInt64.toNat_ofNat', toNat_mask_ hexponent]
    _ = ticket % 2 ^ 64 % 2 ^ exponent :=
          Nat.and_two_pow_sub_one_eq_mod _ _
    _ = ticket % 2 ^ exponent := Nat.mod_mod_of_dvd _ hdvd

/-- The check of `enqueue` compares true distances. -/
theorem full_iff {exponent : ℕ} (hexponent : exponent < 64) {head tail : ℕ}
    (hle : head ≤ tail) (hbound : tail ≤ head + 2 ^ exponent) :
    UInt64.ofNat tail + 1 - UInt64.ofNat head > capacity_ (2 ^ exponent) ↔
      2 ^ exponent < tail + 1 - head := by
  have hsub : UInt64.ofNat tail + 1 - UInt64.ofNat head =
      UInt64.ofNat (tail + 1 - head) := by
    rw [UInt64.ofNat_sub (by omega), UInt64.ofNat_add]
    rfl
  have hhalf : 2 ^ exponent ≤ 2 ^ 63 :=
    Nat.pow_le_pow_right Nat.two_pos (by omega)
  have hsize : UInt64.size = 2 ^ 64 := rfl
  rw [hsub, gt_iff_lt, UInt64.lt_iff_toNat_lt, toNat_capacity_ hexponent,
    UInt64.toNat_ofNat_of_lt' (by omega)]

theorem ofNat_ne_of_lt {head tail : ℕ}
    (hne : UInt64.ofNat head ≠ UInt64.ofNat tail) (hle : head ≤ tail) :
    head < tail := by
  rcases Nat.eq_or_lt_of_le hle with heq | hlt
  · exact absurd (congrArg UInt64.ofNat heq) hne
  · exact hlt

end CustomSPSCLockFreeQueue
end TradingStudies
