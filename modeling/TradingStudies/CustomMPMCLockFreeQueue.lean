import TradingStudies.Library.RingIndex
import TradingStudies.Library.StepSystem

/-!
# The bounded queue of CustomMPMCLockFreeQueue

Producers and consumers draw tickets from `tail_` and `head_`.  The cell of a
ticket carries a sequence number: `pos` when the enqueue with ticket `pos` may
write it, `pos + 1` when the dequeue with ticket `pos` may read it, and then
`pos + capacity` for the enqueue one round later.

The counters are natural numbers, as long as the 64-bit ones have not wrapped.
A state also keeps what happened so far: the tickets drawn on either side and
the values returned.
-/

namespace TradingStudies
namespace CustomMPMCLockFreeQueue

open RingIndex

structure Cell (Value : Type*) where
  seq : ℕ
  data : Value
  deriving DecidableEq, Repr

/-- The shared words of the queue. -/
structure Queue (capacity : ℕ) (Value : Type*) where
  buffer_ : Fin capacity → Cell Value
  head_ : ℕ
  tail_ : ℕ

/-- Where a call stands: about to load its counter, about to read the cell's
number, about to exchange the counter, about to access the cell's data, and
about to publish the cell. -/
inductive Progress (Value : Type*)
  | idle
  | enqueueLoading (ptr : Value)
  | enqueueLoaded (ptr : Value) (pos : ℕ)
  | enqueueReady (ptr : Value) (pos : ℕ)
  | enqueueWon (ptr : Value) (pos : ℕ)
  | enqueueWritten (ptr : Value) (pos : ℕ)
  | dequeueLoading
  | dequeueLoaded (pos : ℕ)
  | dequeueReady (pos : ℕ)
  | dequeueWon (pos : ℕ)
  | dequeueRead (pos : ℕ) (value : Value)
  deriving DecidableEq, Repr

/-- `enqueued` and `dequeued` list the tickets in the order they were won,
`returned` the values that finished calls of `dequeue` have returned. -/
structure State (Thread : Type*) (capacity : ℕ) (Value : Type*) where
  queue : Queue capacity Value
  threads : Thread → Progress Value
  enqueued : List (Thread × ℕ × Value)
  dequeued : List (Thread × ℕ)
  returned : List (Thread × ℕ × Value)

inductive Move (Value : Type*)
  | enqueue (ptr : Value)
  | dequeue
  | load
  | readSeq
  | exchange (spurious : Bool)
  | access
  | publish
  deriving DecidableEq, Repr

variable {Thread Value : Type*} {capacity : ℕ}

section Constructor

variable [Inhabited Value]

/-- A value-initialised cell holds a null pointer, here `default`. -/
def fresh (capacity : ℕ) (Value : Type*) [Inhabited Value] :
    Queue capacity Value :=
  { buffer_ := fun i => { seq := i.val, data := default }
    head_ := 0
    tail_ := 0 }

def construct (capacity : ℕ) (Value : Type*) [Inhabited Value] :
    Except String (Queue capacity Value) :=
  if capacity = 0 ∨ capacity &&& (capacity - 1) ≠ 0 then
    .error "Capacity must be a power of two and greater than zero."
  else
    .ok (fresh capacity Value)

def initial (Thread : Type*) (queue : Queue capacity Value) :
    State Thread capacity Value :=
  { queue := queue
    threads := fun _ => .idle
    enqueued := []
    dequeued := []
    returned := [] }

end Constructor

variable [NeZero capacity]

/-- `pos & mask_` -/
def cellOf (capacity : ℕ) [NeZero capacity] (pos : ℕ) : Fin capacity :=
  ⟨pos &&& (capacity - 1), by
    have hpos := Nat.pos_of_neZero capacity
    have hle : pos &&& (capacity - 1) ≤ capacity - 1 := Nat.and_le_right
    omega⟩

def Queue.cell (queue : Queue capacity Value) (pos : ℕ) : Cell Value :=
  queue.buffer_ (cellOf capacity pos)

def Queue.setCell (queue : Queue capacity Value) (pos : ℕ)
    (cell : Cell Value) : Queue capacity Value :=
  { queue with
    buffer_ := Function.update queue.buffer_ (cellOf capacity pos) cell }

variable [DecidableEq Thread]

def State.continue (state : State Thread capacity Value) (thread : Thread)
    (progress : Progress Value) : State Thread capacity Value :=
  { state with threads := Function.update state.threads thread progress }

def step (state : State Thread capacity Value) :
    Thread × Move Value → Option (State Thread capacity Value)
  | (thread, move) =>
      let queue := state.queue
      match move, state.threads thread with
      | .enqueue ptr, .idle => some (state.continue thread (.enqueueLoading ptr))
      | .load, .enqueueLoading ptr =>
          some (state.continue thread (.enqueueLoaded ptr queue.tail_))
      | .readSeq, .enqueueLoaded ptr pos =>
          let diff : ℤ := (queue.cell pos).seq - pos
          if diff = 0 then
            some (state.continue thread (.enqueueReady ptr pos))
          else if diff < 0 then
            some (state.continue thread .idle)
          else
            some (state.continue thread (.enqueueLoading ptr))
      | .exchange spurious, .enqueueReady ptr pos =>
          if queue.tail_ = pos ∧ spurious = false then
            some { state.continue thread (.enqueueWon ptr pos) with
              queue := { queue with tail_ := pos + 1 }
              enqueued := state.enqueued ++ [(thread, pos, ptr)] }
          else
            some (state.continue thread (.enqueueLoaded ptr queue.tail_))
      | .access, .enqueueWon ptr pos =>
          some { state.continue thread (.enqueueWritten ptr pos) with
            queue := queue.setCell pos { queue.cell pos with data := ptr } }
      | .publish, .enqueueWritten _ pos =>
          some { state.continue thread .idle with
            queue := queue.setCell pos
              { queue.cell pos with seq := pos + 1 } }
      | .dequeue, .idle => some (state.continue thread .dequeueLoading)
      | .load, .dequeueLoading =>
          some (state.continue thread (.dequeueLoaded queue.head_))
      | .readSeq, .dequeueLoaded pos =>
          let diff : ℤ := (queue.cell pos).seq - (pos + 1 : ℕ)
          if diff = 0 then
            some (state.continue thread (.dequeueReady pos))
          else if diff < 0 then
            some (state.continue thread .idle)
          else
            some (state.continue thread .dequeueLoading)
      | .exchange spurious, .dequeueReady pos =>
          if queue.head_ = pos ∧ spurious = false then
            some { state.continue thread (.dequeueWon pos) with
              queue := { queue with head_ := pos + 1 }
              dequeued := state.dequeued ++ [(thread, pos)] }
          else
            some (state.continue thread (.dequeueLoaded queue.head_))
      | .access, .dequeueWon pos =>
          some (state.continue thread
            (.dequeueRead pos (queue.cell pos).data))
      | .publish, .dequeueRead pos value =>
          some { state.continue thread .idle with
            queue := queue.setCell pos
              { queue.cell pos with seq := pos + capacity }
            returned := state.returned ++ [(thread, pos, value)] }
      | _, _ => none

/-! ## Cells and tickets -/

theorem construct_pow_two [Inhabited Value] (exponent : ℕ) :
    construct (2 ^ exponent) Value = .ok (fresh (2 ^ exponent) Value) := by
  have hand : 2 ^ exponent &&& (2 ^ exponent - 1) = 0 := by
    rw [Nat.and_two_pow_sub_one_eq_mod, Nat.mod_self]
  simp [construct, hand]

theorem cellOf_eq_place (exponent pos : ℕ) :
    cellOf (2 ^ exponent) pos = place (2 ^ exponent) pos := by
  apply Fin.ext
  exact Nat.and_two_pow_sub_one_eq_mod pos exponent

theorem Queue.cell_setCell_of_eq {queue : Queue capacity Value}
    {pos other : ℕ} (hcell : cellOf capacity other = cellOf capacity pos)
    (cell : Cell Value) : (queue.setCell pos cell).cell other = cell := by
  unfold Queue.cell Queue.setCell
  dsimp only
  rw [hcell, Function.update_self]

theorem Queue.cell_setCell_of_ne {queue : Queue capacity Value}
    {pos other : ℕ} (hcell : cellOf capacity other ≠ cellOf capacity pos)
    (cell : Cell Value) :
    (queue.setCell pos cell).cell other = queue.cell other := by
  unfold Queue.cell Queue.setCell
  dsimp only
  rw [Function.update_of_ne hcell]

end CustomMPMCLockFreeQueue
end TradingStudies
