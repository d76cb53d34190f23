import TradingStudies.CustomSPSCLockFreeQueue

/-!
# CustomSPSCLockFreeQueue in one thread

One thread calls `enqueue` and `dequeue` in turn, so a call goes through all
its steps before the next one begins.  The two counters are never reduced; they
wrap around after `2 ^ 64` calls.  A power of two below that keeps the distance
of the counters and the masked index consistent.
-/

namespace TradingStudies
namespace CustomSPSCLockFreeQueue
namespace Sequential

open RingIndex

inductive Call (Value : Type*)
  | enqueue (ptr : Value)
  | dequeue
  deriving DecidableEq, Repr

inductive Outcome (Value : Type*)
  | accepted (flag : Bool)
  | taken (value : Option Value)
  deriving DecidableEq, Repr

variable {capacity : ℕ} {Value : Type*}

section Operations

variable [NeZero capacity]

def enqueue (queue : Queue capacity Value) (ptr : Value) :
    Bool × Queue capacity Value :=
  let tail := queue.tail_
  let next_tail := tail + 1
  if next_tail - queue.head_ > capacity_ capacity then (false, queue)
  else
    (true, { queue with
      buffer_ :=
        Function.update queue.buffer_ (slotOf capacity tail) (some ptr)
      tail_ := next_tail })

def dequeue (queue : Queue capacity Value) :
    Option Value × Queue capacity Value :=
  if queue.head_ = queue.tail_ then (none, queue)
  else
    let head := queue.head_
    (queue.buffer_ (slotOf capacity head), { queue with head_ := head + 1 })

def call (queue : Queue capacity Value) :
    Call Value → Queue capacity Value × Outcome Value
  | .enqueue ptr =>
      let (flag, queue) := enqueue queue ptr
      (queue, .accepted flag)
  | .dequeue =>
      let (value, queue) := dequeue queue
      (queue, .taken value)

/-! ## The calls as steps of the two routines -/

def enqueueMoves (queue : Queue capacity Value) (ptr : Value) :
    List (Move Value) :=
  if (enqueue queue ptr).1 then
    [.enqueue ptr, .checkHead, .writeSlot, .storeTail]
  else [.enqueue ptr, .checkHead]

def dequeueMoves (queue : Queue capacity Value) : List (Move Value) :=
  if queue.head_ = queue.tail_ then [.loadHead, .loadTail]
  else [.loadHead, .loadTail, .fetchAdd, .readSlot]

theorem run_enqueueMoves {state : State capacity Value}
    (hidle : state.producer = .idle) (ptr : Value) :
    StepSystem.run step (enqueueMoves state.queue ptr) state =
      some { state with
        queue := (enqueue state.queue ptr).2
        accepted := state.accepted ++
          if (enqueue state.queue ptr).1 then [ptr] else [] } := by
  obtain ⟨queue, producer, consumer, accepted, returned⟩ := state
  subst hidle
  by_cases hfull : queue.tail_ + 1 - queue.head_ > capacity_ capacity
  · simp [enqueueMoves, enqueue, hfull, StepSystem.run, step]
  · simp [enqueueMoves, enqueue, hfull, StepSystem.run, step]

theorem run_dequeueMoves {state : State capacity Value}
    (hidle : state.consumer = .idle) :
    StepSystem.run step (dequeueMoves state.queue) state =
      some { state with
        queue := (dequeue state.queue).2
        returned := state.returned ++ (dequeue state.queue).1.toList } := by
  obtain ⟨queue, producer, consumer, accepted, returned⟩ := state
  subst hidle
  by_cases hempty : queue.head_ = queue.tail_
  · simp [dequeueMoves, dequeue, hempty, StepSystem.run, step, State.compare]
  · simp [dequeueMoves, dequeue, hempty, StepSystem.run, step, State.compare]

end Operations

/-! ## The values stored -/

/-- A bounded first-in-first-out queue; the front of the list is the oldest
value. -/
def boundedFifo (capacity : ℕ) (stored : List Value) :
    Call Value → List Value × Outcome Value
  | .enqueue ptr =>
      if stored.length < capacity then (stored ++ [ptr], .accepted true)
      else (stored, .accepted false)
  | .dequeue =>
      match stored with
      | [] => ([], .taken none)
      | value :: rest => (rest, .taken (some value))

/-- `written` lists the values accepted so far, and `head` counts those that
were dequeued. -/
structure Represents [NeZero capacity] (queue : Queue capacity Value)
    (head : ℕ) (written : List Value) : Prop where
  headWord : queue.head_ = UInt64.ofNat head
  tailWord : queue.tail_ = UInt64.ofNat written.length
  head_le : head ≤ written.length
  bounded : written.length ≤ head + capacity
  slots : HoldsLast queue.buffer_ written

section Rings

variable {exponent : ℕ} {queue : Queue (2 ^ exponent) Value}
  {head : ℕ} {written : List Value}

theorem fresh_represents (exponent : ℕ) :
    Represents (fresh (2 ^ exponent) Value) 0 [] where
  headWord := rfl
  tailWord := rfl
  head_le := le_rfl
  bounded := Nat.zero_le _
  slots := holdsLast_nil _

theorem Represents.full_iff (hrep : Represents queue head written)
    (hexponent : exponent < 64) :
    queue.tail_ + 1 - queue.head_ > capacity_ (2 ^ exponent) ↔
      written.length = head + 2 ^ exponent := by
  have hle := hrep.head_le
  have hbounded := hrep.bounded
  rw [hrep.headWord, hrep.tailWord,
    CustomSPSCLockFreeQueue.full_iff hexponent hle hbounded]
  omega

theorem Represents.enqueue (hrep : Represents queue head written)
    (hexponent : exponent < 64)
    (hroom : written.length < head + 2 ^ exponent) (ptr : Value) :
    ∃ queue', Sequential.enqueue queue ptr = (true, queue') ∧
      Represents queue' head (written ++ [ptr]) := by
  have hnot : ¬ queue.tail_ + 1 - queue.head_ > capacity_ (2 ^ exponent) := by
    rw [hrep.full_iff hexponent]
    omega
  have hhead := hrep.head_le
  refine ⟨_, if_neg hnot, ?_⟩
  constructor
  · exact hrep.headWord
  · rw [List.length_append, List.length_singleton]
    rw [hrep.tailWord]
    exact (UInt64.ofNat_add written.length 1).symm
  · rw [List.length_append]
    omega
  · rw [List.length_append, List.length_singleton]
    omega
  · dsimp only
    rw [hrep.tailWord, slotOf_ofNat hexponent]
    exact hrep.slots.write ptr

theorem Represents.enqueue_full (hrep : Represents queue head written)
    (hexponent : exponent < 64)
    (hfull : written.length = head + 2 ^ exponent) (ptr : Value) :
    Sequential.enqueue queue ptr = (false, queue) :=
  if_pos ((hrep.full_iff hexponent).mpr hfull)

/-- Equal counters stand for equal numbers: they are never a whole round of
`2 ^ 64` apart. -/
theorem Represents.empty_iff (hrep : Represents queue head written)
    (hexponent : exponent < 64) :
    queue.head_ = queue.tail_ ↔ head = written.length := by
  have hle := hrep.head_le
  have hbounded := hrep.bounded
  have hsize := pow_lt_size hexponent
  have hword : UInt64.size = 2 ^ 64 := rfl
  rw [hrep.headWord, hrep.tailWord]
  constructor
  · intro hwords
    have hmod := congrArg UInt64.toNat hwords
    rw [UInt64.toNat_ofNat', UInt64.toNat_ofNat'] at hmod
    have hdvd : 2 ^ 64 ∣ written.length - head :=
      (Nat.modEq_iff_dvd' hle).mp hmod
    have hzero : written.length - head = 0 :=
      Nat.eq_zero_of_dvd_of_lt hdvd (by omega)
    omega
  · intro hnumbers
    rw [hnumbers]

theorem Represents.dequeue_empty (hrep : Represents queue head written)
    (hexponent : exponent < 64) (hempty : head = written.length) :
    Sequential.dequeue queue = (none, queue) :=
  if_pos ((hrep.empty_iff hexponent).mpr hempty)

theorem Represents.dequeue (hrep : Represents queue head written)
    (hexponent : exponent < 64) (hsome : head < written.length) :
    ∃ queue', Sequential.dequeue queue = (some written[head], queue') ∧
      Represents queue' (head + 1) written := by
  have hnot : queue.head_ ≠ queue.tail_ := by
    rw [Ne, hrep.empty_iff hexponent]
    omega
  have hbounded := hrep.bounded
  have hvalue : queue.buffer_ (slotOf (2 ^ exponent) queue.head_) =
      some written[head] := by
    rw [hrep.headWord, slotOf_ofNat hexponent,
      hrep.slots head hsome hbounded, List.getElem?_eq_getElem hsome]
  refine ⟨{ queue with head_ := queue.head_ + 1 }, ?_, ?_⟩
  · rw [Sequential.dequeue, if_neg hnot]
    dsimp only
    rw [hvalue]
  · constructor
    · dsimp only
      rw [hrep.headWord]
      exact (UInt64.ofNat_add head 1).symm
    · exact hrep.tailWord
    · exact hsome
    · omega
    · exact hrep.slots

/-! ## Whole runs -/

theorem Represents.call_simulates (hrep : Represents queue head written)
    (hexponent : exponent < 64) (c : Call Value) :
    (call queue c).2 =
        (boundedFifo (2 ^ exponent) (written.drop head) c).2 ∧
      ∃ head' written', Represents (call queue c).1 head' written' ∧
        (boundedFifo (2 ^ exponent) (written.drop head) c).1 =
          written'.drop head' := by
  have hle := hrep.head_le
  have hbounded := hrep.bounded
  cases c with
  | enqueue ptr =>
      have hlength := List.length_drop (i := head) (l := written)
      by_cases hroom : written.length < head + 2 ^ exponent
      · obtain ⟨queue', heval, hrep'⟩ := hrep.enqueue hexponent hroom ptr
        have hspace : (written.drop head).length < 2 ^ exponent := by omega
        simp only [call, heval, boundedFifo, if_pos hspace, true_and]
        exact ⟨head, _, hrep', (List.drop_append_of_le_length hle).symm⟩
      · have hfull : written.length = head + 2 ^ exponent := by omega
        have hspace : ¬ (written.drop head).length < 2 ^ exponent := by omega
        simp only [call, hrep.enqueue_full hexponent hfull, boundedFifo,
          if_neg hspace, true_and]
        exact ⟨head, written, hrep, rfl⟩
  | dequeue =>
      rcases Nat.eq_or_lt_of_le hle with hempty | hsome
      · have hnone : written.drop head = [] :=
          List.drop_eq_nil_of_le hempty.ge
        simp only [call, hrep.dequeue_empty hexponent hempty, boundedFifo,
          hnone, true_and]
        exact ⟨head, written, hrep, hnone.symm⟩
      · obtain ⟨queue', heval, hrep'⟩ := hrep.dequeue hexponent hsome
        simp only [call, heval, boundedFifo,
          List.drop_eq_getElem_cons hsome, true_and]
        exact ⟨head + 1, written, hrep', rfl⟩

/-- In one thread the queue is a bounded FIFO, however often its counters
wrap around. -/
theorem customSPSC_boundedFifo (exponent : ℕ) (hexponent : exponent < 64)
    (calls : List (Call Value)) :
    ∃ queue, construct (2 ^ exponent) Value = .ok queue ∧
      CallSystem.results call queue calls =
        CallSystem.results (boundedFifo (2 ^ exponent)) [] calls := by
  refine ⟨_, construct_pow_two hexponent, ?_⟩
  have hcall : ∀ (queue : Queue (2 ^ exponent) Value) (stored : List Value) c,
      (∃ head written, Represents queue head written ∧
        stored = written.drop head) → True →
      (call queue c).2 = (boundedFifo (2 ^ exponent) stored c).2 ∧
        ∃ head written, Represents (call queue c).1 head written ∧
          (boundedFifo (2 ^ exponent) stored c).1 = written.drop head := by
    rintro queue stored c ⟨head, written, hrep, rfl⟩ -
    exact hrep.call_simulates hexponent c
  exact (CallSystem.simulation (fun _ _ => True) _ hcall
    ⟨0, [], fresh_represents exponent, rfl⟩
    (CallSystem.allAllowed_of_forall fun _ _ => trivial)).1

end Rings

/-- Two slots, filled, emptied and refilled across the end of the ring. -/
theorem customSPSC_two_slots :
    ∃ queue, construct (2 ^ 1) ℕ = .ok queue ∧
      CallSystem.results call queue
          [.enqueue 5, .enqueue 6, .enqueue 7, .dequeue, .enqueue 8,
            .dequeue, .dequeue, .dequeue] =
        [.accepted true, .accepted true, .accepted false, .taken (some 5),
          .accepted true, .taken (some 6), .taken (some 8), .taken none] := by
  obtain ⟨queue, hqueue, hresults⟩ := customSPSC_boundedFifo 1 (by decide)
    ([.enqueue 5, .enqueue 6, .enqueue 7, .dequeue, .enqueue 8, .dequeue,
      .dequeue, .dequeue] : List (Call ℕ))
  exact ⟨queue, hqueue, hresults.trans (by decide)⟩

end Sequential
end CustomSPSCLockFreeQueue
end TradingStudies
