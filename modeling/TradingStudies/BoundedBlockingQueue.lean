import TradingStudies.Library.Monitor

/-!
# BoundedBlockingQueue

A queue that blocks on both sides: `enqueue` waits until there is room,
`dequeue` until there is an element, and each wakes one thread of the other
side.  `size` only takes the lock.

`capacity` is an `int` and compared with a `size_t`, so that a negative one
stands for a bound near 2^64.  The results hold for all of them.
-/

namespace TradingStudies
namespace BoundedBlockingQueue

inductive Cond
  | cv_enqueue
  | cv_dequeue
  deriving DecidableEq, Repr

inductive Op
  | enqueue (element : ℤ)
  | dequeue
  | size
  deriving DecidableEq, Repr

/-- `dequeued none` stands for `front` of an empty queue. -/
inductive Result
  | enqueued
  | dequeued (front : Option ℤ)
  | size (size : ℤ)
  deriving DecidableEq, Repr

/-- `capacity` as it is compared with `q.size()`. -/
def room (capacity : ℤ) : ℕ := (capacity % 2 ^ 64).toNat

/-- The conversion of `q.size()` to `int`. -/
def sizeResult (size : ℕ) : Result := .size ((size : ℤ).bmod (2 ^ 32))

def monitor (capacity : ℤ) : Monitor (List ℤ) Cond Op Result where
  waitsOn
    | .enqueue _ => some .cv_enqueue
    | .dequeue => some .cv_dequeue
    | .size => none
  ready
    | .enqueue _, q => q.length < room capacity
    | .dequeue, q => !q.isEmpty
    | .size, _ => true
  body
    | .enqueue element, q => (q ++ [element], .enqueued)
    | .dequeue, [] => ([], .dequeued none)
    | .dequeue, front :: rest => (rest, .dequeued (some front))
    | .size, q => (q, sizeResult q.length)
  notifies
    | .enqueue _ => some .cv_dequeue
    | .dequeue => some .cv_enqueue
    | .size => none

variable {Thread : Type*} {capacity : ℤ}

abbrev Entry (Thread : Type*) := Thread × Op × Result

/-- The values in the order of the `push`es, and in the order of the `pop`s. -/
def pushed (log : List (Entry Thread)) : List ℤ :=
  log.filterMap fun
    | (_, .enqueue element, _) => some element
    | _ => none

def popped (log : List (Entry Thread)) : List (Option ℤ) :=
  log.filterMap fun
    | (_, _, .dequeued front) => some front
    | _ => none

/-- `size` answers with what has been put in and not taken out. -/
def SizeExact (before : List (Entry Thread)) : Entry Thread → Prop
  | (_, .size, result) =>
      result = sizeResult ((pushed before).length - (popped before).length)
  | _ => True

structure Sequential (capacity : ℤ) (q : List ℤ)
    (log : List (Entry Thread)) : Prop where
  bounded : q.length ≤ room capacity
  order : popped log ++ q.map some = (pushed log).map some
  sizes : Monitor.EachEntry SizeExact log

theorem Sequential.lengths {q : List ℤ} {log : List (Entry Thread)}
    (hsequential : Sequential capacity q log) :
    (pushed log).length - (popped log).length = q.length := by
  have hlength := congrArg List.length hsequential.order
  rw [List.length_append, List.length_map, List.length_map] at hlength
  omega

variable [DecidableEq Thread] [Fintype Thread]

/-- First in, first out, each value once, at most `capacity` of them inside,
and `size` tells how many, for every interleaving of any number of threads. -/
theorem boundedBlockingQueue_sequential
    {actions : List (Monitor.Action Thread Op)}
    {state : Monitor.State Thread (List ℤ) Op Result}
    (hrun : StepSystem.run (monitor capacity).step actions
      (Monitor.initial Thread Op Result []) = some state) :
    Sequential capacity state.resource state.log := by
  have hreach := StepSystem.reachable_of_run hrun
    (StepSystem.allAllowed_trivial _ _ _)
  apply Monitor.reachable_invariant (Sequential capacity) hreach
  · exact ⟨Nat.zero_le _, rfl, Monitor.eachEntry_nil _⟩
  · intro q log thread op hsequential hpasses
    have horder := hsequential.order
    cases op with
    | enqueue element =>
        have hroom : q.length < room capacity := by
          simpa [Monitor.passes, monitor] using hpasses
        refine ⟨?_, ?_, hsequential.sizes.snoc ?_⟩
        · simpa [monitor] using hroom
        · simp only [popped, pushed, monitor, List.filterMap_append] at horder ⊢
          simp [← horder]
        · trivial
    | dequeue =>
        cases q with
        | nil => simp [Monitor.passes, monitor] at hpasses
        | cons front rest =>
            have hbounded := hsequential.bounded
            refine ⟨?_, ?_, hsequential.sizes.snoc ?_⟩
            · rw [List.length_cons] at hbounded
              exact Nat.le_of_succ_le hbounded
            · simp only [popped, pushed, monitor, List.filterMap_append]
                at horder ⊢
              simp [← horder]
            · trivial
    | size =>
        refine ⟨hsequential.bounded, ?_, hsequential.sizes.snoc ?_⟩
        · simp only [popped, pushed, monitor, sizeResult, List.filterMap_append]
            at horder ⊢
          simpa using horder
        · simp only [SizeExact, hsequential.lengths]
          rfl

/-- What the threads that wait on a condition variable find. -/
def available (capacity : ℤ) : Cond → List ℤ → ℕ
  | .cv_enqueue, q => room capacity - q.length
  | .cv_dequeue, q => q.length

theorem announced : (monitor capacity).Announced (available capacity) where
  ready_iff := by
    intro op cond q hwaits
    cases op with
    | enqueue element =>
        cases hwaits
        simp [monitor, available]
    | dequeue =>
        cases hwaits
        cases q <;> simp [monitor, available]
    | size => cases hwaits
  taken := by
    intro op cond q hwaits hready
    cases op with
    | enqueue element =>
        cases hwaits
        simp [monitor, available] at hready ⊢
        omega
    | dequeue =>
        cases hwaits
        cases q <;> simp [monitor, available] at hready ⊢
    | size => cases hwaits
  added := by
    intro op cond q _
    cases op with
    | enqueue element =>
        cases cond <;> simp [monitor, available]
        omega
    | dequeue =>
        cases q with
        | nil => cases cond <;> simp [monitor, available]
        | cons front rest =>
            cases cond <;> simp [monitor, available]
            omega
    | size => simp [monitor]

/-- Once no more calls are made the threads settle.  Then `dequeue` is left
waiting only beside an empty queue, `enqueue` only beside a full one. -/
theorem boundedBlockingQueue_settles
    {actions more : List (Monitor.Action Thread Op)}
    {state last : Monitor.State Thread (List ℤ) Op Result}
    (hrun : StepSystem.run (monitor capacity).step actions
      (Monitor.initial Thread Op Result []) = some state)
    (hinternal : ∀ action ∈ more, action.internal = true)
    (hmore : StepSystem.run (monitor capacity).step more state = some last) :
    more.length ≤ 7 * Fintype.card Thread ∧
      ((∀ action : Monitor.Action Thread Op, action.internal = true →
          (monitor capacity).step last action = none) →
        ∀ thread, last.phases thread = .idle ∨
          (last.phases thread = .waiting .dequeue ∧ last.resource = []) ∨
          ∃ element, last.phases thread = .waiting (.enqueue element) ∧
            room capacity ≤ last.resource.length) := by
  obtain ⟨hlength, hrest⟩ :=
    Monitor.settles announced hrun hinternal hmore
  refine ⟨hlength, ?_⟩
  intro hquiet thread
  rcases hrest hquiet thread with hidle | ⟨op, cond, hphase, hwaits, hnone⟩
  · exact Or.inl hidle
  · cases op with
    | enqueue element =>
        cases hwaits
        refine Or.inr (Or.inr ⟨element, hphase, ?_⟩)
        exact Nat.le_of_sub_eq_zero hnone
    | dequeue =>
        cases hwaits
        exact Or.inr (Or.inl ⟨hphase, List.length_eq_zero_iff.mp hnone⟩)
    | size => cases hwaits

/-- One call that does not wait. -/
def wholeCall (thread : Fin 2) (op : Op) : List (Monitor.Action (Fin 2) Op) :=
  [.call thread op, .lock thread, .test thread, .body thread,
    .notify thread none, .unlock thread]

/-- The third `enqueue` of `main` has to wait for the consumer. -/
def thirdEnqueue : List (Monitor.Action (Fin 2) Op) :=
  wholeCall 0 (.enqueue 1) ++ wholeCall 0 (.enqueue 2) ++
    [.call 0 (.enqueue 3), .lock 0, .test 0, .call 1 .dequeue, .lock 1, .test 1]

def makeRoom : List (Monitor.Action (Fin 2) Op) :=
  [.body 1, .notify 1 (some 0), .unlock 1, .lock 0, .test 0, .body 0,
    .notify 0 none, .unlock 0]

theorem boundedBlockingQueue_sequential_third :
    ∃ state, StepSystem.run (monitor 2).step (thirdEnqueue ++ makeRoom)
        (Monitor.initial (Fin 2) Op Result []) = some state ∧
      Sequential 2 state.resource state.log := by
  have hsome : (StepSystem.run (monitor 2).step (thirdEnqueue ++ makeRoom)
      (Monitor.initial (Fin 2) Op Result [])).isSome = true := by
    decide
  obtain ⟨state, hrun⟩ := Option.isSome_iff_exists.mp hsome
  exact ⟨state, hrun, boundedBlockingQueue_sequential hrun⟩

theorem boundedBlockingQueue_settles_third :
    ∃ state last, StepSystem.run (monitor 2).step thirdEnqueue
        (Monitor.initial (Fin 2) Op Result []) = some state ∧
      StepSystem.run (monitor 2).step makeRoom state = some last ∧
      ((∀ action : Monitor.Action (Fin 2) Op, action.internal = true →
          (monitor 2).step last action = none) →
        ∀ thread, last.phases thread = .idle ∨
          (last.phases thread = .waiting .dequeue ∧ last.resource = []) ∨
          ∃ element, last.phases thread = .waiting (.enqueue element) ∧
            room 2 ≤ last.resource.length) := by
  have hsome : ((StepSystem.run (monitor 2).step thirdEnqueue
      (Monitor.initial (Fin 2) Op Result [])).bind
      (StepSystem.run (monitor 2).step makeRoom)).isSome = true := by
    decide
  obtain ⟨last, hlast⟩ := Option.isSome_iff_exists.mp hsome
  obtain ⟨state, hrun, hmore⟩ := Option.bind_eq_some_iff.mp hlast
  exact ⟨state, last, hrun, hmore,
    (boundedBlockingQueue_settles hrun (by decide) hmore).2⟩

end BoundedBlockingQueue
end TradingStudies
