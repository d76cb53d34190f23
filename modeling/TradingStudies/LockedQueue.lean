import TradingStudies.Library.Monitor

/-!
# LockedQueue

The queue of `Queue.hpp` that blocks: a `std::queue` behind a mutex, and a
condition variable on which `dequeue` waits.  `enqueue` never waits and wakes
one thread.

Any number of threads call both.  What they take out is what they put in, once
each and in the same order, and no thread is left waiting beside a message.
-/

namespace TradingStudies
namespace LockedQueue

variable {T : Type*}

inductive Op (T : Type*)
  | enqueue (ptr : T)
  | dequeue
  deriving DecidableEq, Repr

/-- `dequeued none` stands for `front` of an empty queue. -/
inductive Result (T : Type*)
  | enqueued (accepted : Bool)
  | dequeued (msg : Option T)
  deriving DecidableEq, Repr

/-- `queue_`, the only condition variable `cv_`, and the two functions. -/
def monitor (T : Type*) : Monitor (List T) Unit (Op T) (Result T) where
  waitsOn
    | .enqueue _ => none
    | .dequeue => some ()
  ready _ queue_ := !queue_.isEmpty
  body
    | .enqueue ptr, queue_ => (queue_ ++ [ptr], .enqueued true)
    | .dequeue, [] => ([], .dequeued none)
    | .dequeue, msg :: rest => (rest, .dequeued (some msg))
  notifies
    | .enqueue _ => some ()
    | .dequeue => none

abbrev Entry (Thread T : Type*) := Thread × Op T × Result T

def Entry.pushed {Thread : Type*} : Entry Thread T → List T
  | (_, .enqueue ptr, _) => [ptr]
  | (_, .dequeue, _) => []

def Entry.popped {Thread : Type*} : Entry Thread T → List (Option T)
  | (_, _, .dequeued msg) => [msg]
  | (_, _, .enqueued _) => []

variable {Thread : Type*} [DecidableEq Thread] [Fintype Thread]

/-- The values in the order of the `push`es, and in the order of the `pop`s. -/
def pushed (log : List (Entry Thread T)) : List T := log.flatMap Entry.pushed

def popped (log : List (Entry Thread T)) : List (Option T) :=
  log.flatMap Entry.popped

/-- First in, first out, each value once, for every interleaving of any number
of producers and consumers. -/
theorem lockedQueue_fifo {actions : List (Monitor.Action Thread (Op T))}
    {state : Monitor.State Thread (List T) (Op T) (Result T)}
    (hrun : StepSystem.run (monitor T).step actions
      (Monitor.initial Thread (Op T) (Result T) []) = some state) :
    popped state.log ++ state.resource.map some =
      (pushed state.log).map some := by
  have hreach := StepSystem.reachable_of_run hrun
    (StepSystem.allAllowed_trivial _ _ _)
  refine Monitor.reachable_invariant
    (fun (queue_ : List T) log =>
      popped log ++ queue_.map some = (pushed log).map some) hreach rfl ?_
  intro queue_ log thread op hinv hpasses
  cases op with
  | enqueue ptr =>
      simp [monitor, popped, pushed, Entry.popped, Entry.pushed] at hinv ⊢
      rw [← hinv]
      simp
  | dequeue =>
      cases queue_ with
      | nil => simp [Monitor.passes, monitor] at hpasses
      | cons msg rest =>
          simp [monitor, popped, pushed, Entry.popped, Entry.pushed] at hinv ⊢
          exact hinv

theorem announced :
    (monitor T).Announced (fun _ queue_ => queue_.length) where
  ready_iff := by
    intro op cond queue_ _
    cases queue_ <;> simp [monitor]
  taken := by
    intro op cond queue_ hwaits hready
    cases op with
    | enqueue ptr => simp [monitor] at hwaits
    | dequeue =>
        cases queue_ with
        | nil => simp [monitor] at hready
        | cons msg rest => simp [monitor]
  added := by
    intro op cond queue_ _
    cases op with
    | enqueue ptr => simp [monitor]
    | dequeue => cases queue_ <;> simp [monitor]

/-- Once no more calls are made the threads settle, and then a thread is left
in `dequeue` only beside an empty queue. -/
theorem lockedQueue_settles {actions more : List (Monitor.Action Thread (Op T))}
    {state last : Monitor.State Thread (List T) (Op T) (Result T)}
    (hrun : StepSystem.run (monitor T).step actions
      (Monitor.initial Thread (Op T) (Result T) []) = some state)
    (hinternal : ∀ action ∈ more, action.internal = true)
    (hmore : StepSystem.run (monitor T).step more state = some last) :
    more.length ≤ 7 * Fintype.card Thread ∧
      ((∀ action : Monitor.Action Thread (Op T), action.internal = true →
          (monitor T).step last action = none) →
        ∀ thread, last.phases thread = .idle ∨
          (last.phases thread = .waiting .dequeue ∧ last.resource = [])) := by
  obtain ⟨hlength, hrest⟩ :=
    Monitor.settles announced hrun hinternal hmore
  refine ⟨hlength, ?_⟩
  intro hquiet thread
  rcases hrest hquiet thread with hidle | ⟨op, cond, hphase, hwaits, hnone⟩
  · exact Or.inl hidle
  · cases op with
    | enqueue ptr => simp [monitor] at hwaits
    | dequeue => exact Or.inr ⟨hphase, List.length_eq_zero_iff.mp hnone⟩

/-- A consumer that came too early, and a producer. -/
def earlyConsumer : List (Monitor.Action Bool (Op ℕ)) :=
  [.call false .dequeue, .lock false, .test false, .call true (.enqueue 7),
    .lock true, .test true, .body true]

def wakeConsumer : List (Monitor.Action Bool (Op ℕ)) :=
  [.notify true (some false), .unlock true, .lock false, .test false,
    .body false, .notify false none, .unlock false]

theorem lockedQueue_fifo_early :
    ∃ state, StepSystem.run (monitor ℕ).step (earlyConsumer ++ wakeConsumer)
        (Monitor.initial Bool (Op ℕ) (Result ℕ) []) = some state ∧
      popped state.log ++ state.resource.map some =
        (pushed state.log).map some := by
  have hsome : (StepSystem.run (monitor ℕ).step (earlyConsumer ++ wakeConsumer)
      (Monitor.initial Bool (Op ℕ) (Result ℕ) [])).isSome = true := by
    decide
  obtain ⟨state, hrun⟩ := Option.isSome_iff_exists.mp hsome
  exact ⟨state, hrun, lockedQueue_fifo hrun⟩

theorem lockedQueue_settles_early :
    ∃ state last, StepSystem.run (monitor ℕ).step earlyConsumer
        (Monitor.initial Bool (Op ℕ) (Result ℕ) []) = some state ∧
      StepSystem.run (monitor ℕ).step wakeConsumer state = some last ∧
      ((∀ action : Monitor.Action Bool (Op ℕ), action.internal = true →
          (monitor ℕ).step last action = none) →
        ∀ thread, last.phases thread = .idle ∨
          (last.phases thread = .waiting .dequeue ∧ last.resource = [])) := by
  have hsome : ((StepSystem.run (monitor ℕ).step earlyConsumer
      (Monitor.initial Bool (Op ℕ) (Result ℕ) [])).bind
      (StepSystem.run (monitor ℕ).step wakeConsumer)).isSome = true := by
    decide
  obtain ⟨last, hlast⟩ := Option.isSome_iff_exists.mp hsome
  obtain ⟨state, hrun, hmore⟩ := Option.bind_eq_some_iff.mp hlast
  exact ⟨state, last, hrun, hmore,
    (lockedQueue_settles hrun (by decide) hmore).2⟩

end LockedQueue
end TradingStudies
