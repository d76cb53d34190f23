import TradingStudies.Library.Monitor
import TradingStudies.MemoryPoolEquivalence

/-!
# CustomLockedPool between threads

With `ThreadSafe` both functions of `CustomLockedPool` run under `mutex_`.  Any
number of threads allocate messages, hand them to one another and give them
back.  A message is given back once, by a thread that got hold of it; it counts
as given back from the call of `deallocate` on.

Under these calls no message is ever handed out twice, and `allocate` throws
only when all messages are out.
-/

namespace TradingStudies
namespace CustomLockedPool

open MemoryPool SlotPartition

variable {poolMsgCount : ℕ}

def monitor (poolMsgCount : ℕ) : Monitor (CustomLockedPool poolMsgCount) Unit
    (Call poolMsgCount) (Outcome poolMsgCount) where
  waitsOn _ := none
  ready _ _ := true
  body
    | .allocate, pool => pool.allocate
    | .deallocate msg, pool => pool.deallocate msg
  notifies _ := none

abbrev State (Thread : Type*) (poolMsgCount : ℕ) :=
  Monitor.State Thread (CustomLockedPool poolMsgCount) (Call poolMsgCount)
    (Outcome poolMsgCount)

abbrev Entry (Thread : Type*) (poolMsgCount : ℕ) :=
  Thread × Call poolMsgCount × Outcome poolMsgCount

variable {Thread : Type*}

/-- The messages that were handed out and not given back. -/
def outstanding (log : List (Entry Thread poolMsgCount)) :
    List (Fin poolMsgCount) :=
  log.foldl (fun before entry => entry.2.2.outstanding before entry.2.1) []

theorem outstanding_snoc (log : List (Entry Thread poolMsgCount))
    (entry : Entry Thread poolMsgCount) :
    outstanding (log ++ [entry]) =
      entry.2.2.outstanding (outstanding log) entry.2.1 :=
  List.foldl_append

/-- What a call of `deallocate` that has not got to its body gives back. -/
def givenBack : Monitor.Phase (Call poolMsgCount) (Outcome poolMsgCount) →
    Option (Option (Fin poolMsgCount))
  | .locking (.deallocate msg) | .testing (.deallocate msg)
  | .waiting (.deallocate msg) | .updating (.deallocate msg) => some msg
  | _ => none

/-- Only what is out is given back, and only once. -/
def GivesBackOnce (state : State Thread poolMsgCount) :
    Monitor.Action Thread (Call poolMsgCount) → Prop
  | .call _ (.deallocate msg) =>
      (∃ held ∈ outstanding state.log, msg = some held) ∧
        ∀ other, givenBack (state.phases other) ≠ some msg
  | _ => True

instance [Fintype Thread] (state : State Thread poolMsgCount) :
    ∀ action, Decidable (GivesBackOnce state action)
  | .call _ (.deallocate _) => inferInstanceAs (Decidable (_ ∧ _))
  | .call _ .allocate | .lock _ | .test _ | .body _ | .notify _ _ | .unlock _
  | .spurious _ => inferInstanceAs (Decidable True)

/-- `allocate` handed out a message that was not out, or threw because all
were. -/
def Served (before : List (Entry Thread poolMsgCount)) :
    Entry Thread poolMsgCount → Prop
  | (_, .allocate, outcome) =>
      (∃ msg, outcome = .message msg ∧ msg ∉ outstanding before) ∨
        (outcome = .threw "No free messages available in the pool" ∧
          ∀ msg, msg ∈ outstanding before)
  | (_, .deallocate _, outcome) => outcome = .deallocated

structure Owned (state : State Thread poolMsgCount) : Prop where
  stack : ∃ free, state.resource.Holds free ∧
    Partition free (fun _ : Unit => outstanding state.log)
  given : ∀ thread msg, givenBack (state.phases thread) = some msg →
    ∃ held ∈ outstanding state.log, msg = some held
  once : ∀ thread other msg, givenBack (state.phases thread) = some msg →
    givenBack (state.phases other) = some msg → thread = other
  served : Monitor.EachEntry Served state.log

theorem initial_owned : Owned
    (Monitor.initial Thread (Call poolMsgCount) (Outcome poolMsgCount)
      (construct poolMsgCount)) := by
  constructor
  · refine ⟨_, construct_holds, ?_⟩
    constructor
    · exact List.nodup_reverse.mpr (List.nodup_finRange poolMsgCount)
    · intro _
      exact List.nodup_nil
    · intro _ slot hslot
      simp [outstanding, Monitor.initial] at hslot
    · intro _ _ _ _ _
      rfl
    · intro slot
      exact Or.inl (List.mem_reverse.mpr (List.mem_finRange slot))
  · intro thread msg hgiven
    simp [Monitor.initial, givenBack] at hgiven
  · intro thread other msg hgiven
    simp [Monitor.initial, givenBack] at hgiven
  · exact Monitor.eachEntry_nil _

section Steps

variable [DecidableEq Thread] {state next : State Thread poolMsgCount}
  {thread : Thread}

theorem Owned.move (howned : Owned state)
    {phase : Monitor.Phase (Call poolMsgCount) (Outcome poolMsgCount)}
    (mutex : Option Thread)
    (hgiven : ∀ msg, givenBack phase = some msg →
      givenBack (state.phases thread) = some msg) :
    Owned { state.setPhase thread phase with mutex := mutex } := by
  have hbefore : ∀ other msg,
      givenBack (Function.update state.phases thread phase other) = some msg →
        givenBack (state.phases other) = some msg := by
    intro other msg hother
    by_cases heq : other = thread
    · subst other
      rw [Function.update_self] at hother
      exact hgiven msg hother
    · rwa [Function.update_of_ne heq] at hother
  refine ⟨howned.stack, ?_, ?_, howned.served⟩
  · intro other msg hother
    exact howned.given other msg (hbefore other msg hother)
  · intro first second msg hfirst hsecond
    exact howned.once first second msg (hbefore first msg hfirst)
      (hbefore second msg hsecond)

theorem Owned.call_deallocate (howned : Owned state)
    {msg : Option (Fin poolMsgCount)}
    (hallowed : GivesBackOnce state (.call thread (.deallocate msg))) :
    Owned (state.setPhase thread (.locking (.deallocate msg))) := by
  obtain ⟨hheld, hfresh⟩ := hallowed
  have hcases : ∀ other msg', givenBack
      ((state.setPhase thread (.locking (.deallocate msg))).phases other) =
        some msg' →
      (other = thread ∧ msg' = msg) ∨
        (other ≠ thread ∧ givenBack (state.phases other) = some msg') := by
    intro other msg' hother
    simp only [Monitor.State.setPhase] at hother
    by_cases heq : other = thread
    · subst other
      rw [Function.update_self] at hother
      exact Or.inl ⟨rfl, (Option.some.inj hother).symm⟩
    · rw [Function.update_of_ne heq] at hother
      exact Or.inr ⟨heq, hother⟩
  refine ⟨howned.stack, ?_, ?_, howned.served⟩
  · intro other msg' hother
    rcases hcases other msg' hother with ⟨_, rfl⟩ | ⟨_, hbefore⟩
    · exact hheld
    · exact howned.given other msg' hbefore
  · intro first second msg' hfirst hsecond
    rcases hcases first msg' hfirst with ⟨rfl, rfl⟩ | ⟨_, hold⟩
    · rcases hcases second msg' hsecond with ⟨rfl, _⟩ | ⟨_, hold⟩
      · rfl
      · exact absurd hold (hfresh second)
    · rcases hcases second msg' hsecond with ⟨rfl, rfl⟩ | ⟨_, hold'⟩
      · exact absurd hold (hfresh first)
      · exact howned.once first second msg' hold hold'

/-- The body of a call. -/
theorem Owned.finish (howned : Owned state) {call : Call poolMsgCount}
    {outcome : Outcome poolMsgCount} {pool : CustomLockedPool poolMsgCount}
    (hstack : ∃ free, pool.Holds free ∧ Partition free
      (fun _ : Unit => outcome.outstanding (outstanding state.log) call))
    (hgiven : ∀ other msg, other ≠ thread →
      givenBack (state.phases other) = some msg →
        ∃ held ∈ outcome.outstanding (outstanding state.log) call,
          msg = some held)
    (hserved : Served state.log (thread, call, outcome)) :
    Owned { state.setPhase thread (.notifying call outcome) with
      resource := pool
      log := state.log ++ [(thread, call, outcome)] } := by
  have hbefore : ∀ other msg, givenBack (Function.update state.phases thread
      (.notifying call outcome) other) = some msg →
      other ≠ thread ∧ givenBack (state.phases other) = some msg := by
    intro other msg hother
    by_cases heq : other = thread
    · subst other
      simp [givenBack] at hother
    · rw [Function.update_of_ne heq] at hother
      exact ⟨heq, hother⟩
  constructor
  · simp only [outstanding_snoc]
    exact hstack
  · intro other msg hother
    simp only [outstanding_snoc]
    obtain ⟨hne, hold⟩ := hbefore other msg hother
    exact hgiven other msg hne hold
  · intro first second msg hfirst hsecond
    exact howned.once first second msg (hbefore first msg hfirst).2
      (hbefore second msg hsecond).2
  · exact howned.served.snoc hserved

theorem Owned.allocate (howned : Owned state) :
    Owned { state.setPhase thread (.notifying .allocate
        state.resource.allocate.2) with
      resource := state.resource.allocate.1
      log := state.log ++ [(thread, .allocate, state.resource.allocate.2)] } := by
  obtain ⟨free, hholds, hpartition⟩ := howned.stack
  cases free with
  | nil =>
      have hthrew : state.resource.allocate = (state.resource,
          .threw "No free messages available in the pool") := by
        unfold CustomLockedPool.allocate
        rw [hholds]
        rfl
      rw [hthrew]
      apply howned.finish
      · exact ⟨[], hholds, hpartition⟩
      · intro other msg _ hother
        exact howned.given other msg hother
      · refine Or.inr ⟨rfl, ?_⟩
        intro msg
        rcases hpartition.cover msg with hfree | ⟨_, hheld⟩
        · exact absurd hfree List.not_mem_nil
        · exact hheld
  | cons top rest =>
      obtain ⟨hmessage, hrest⟩ := servesStack.allocate hholds 0
      change state.resource.allocate.2 = .message top at hmessage
      rw [hmessage]
      apply howned.finish
      · refine ⟨rest, hrest, ?_⟩
        exact hpartition.exchange_single List.perm_middle
      · intro other msg _ hother
        obtain ⟨held, hheld, rfl⟩ := howned.given other msg hother
        exact ⟨held, List.mem_cons_of_mem top hheld, rfl⟩
      · refine Or.inl ⟨top, rfl, ?_⟩
        intro hout
        exact hpartition.notFree () top hout List.mem_cons_self

theorem Owned.deallocate (howned : Owned state)
    {msg : Option (Fin poolMsgCount)}
    (hphase : state.phases thread = .updating (.deallocate msg)) :
    Owned { state.setPhase thread (.notifying (.deallocate msg)
        (state.resource.deallocate msg).2) with
      resource := (state.resource.deallocate msg).1
      log := state.log ++ [(thread, .deallocate msg,
        (state.resource.deallocate msg).2)] } := by
  obtain ⟨free, hholds, hpartition⟩ := howned.stack
  have hmine : givenBack (state.phases thread) = some msg := by
    rw [hphase]
    rfl
  obtain ⟨held, hheld, rfl⟩ := howned.given thread msg hmine
  have hnodup : (held :: free).Nodup :=
    List.nodup_cons.mpr
      ⟨hpartition.notFree () held hheld, hpartition.freeNodup⟩
  obtain ⟨hanswer, hpushed⟩ := servesStack.deallocate hholds hnodup 0
  apply howned.finish
  · refine ⟨held :: free, hpushed, ?_⟩
    apply hpartition.exchange_single
    refine List.perm_middle.symm.trans ?_
    exact (List.perm_cons_erase hheld).symm.append_left free
  · intro other msg hne hother
    obtain ⟨held', hheld', rfl⟩ := howned.given other msg hother
    refine ⟨held', ?_, rfl⟩
    -- Two calls never give back the same message.
    have hdistinct : held' ≠ held := by
      rintro rfl
      exact hne (howned.once other thread _ hother hmine)
    exact (List.mem_erase_of_ne hdistinct).mpr hheld'
  · exact hanswer

theorem moves_owned {action : Monitor.Action Thread (Call poolMsgCount)}
    (howned : Owned state) (hallowed : GivesBackOnce state action)
    (hmoves : (monitor poolMsgCount).Moves state action next) :
    Owned next := by
  cases hmoves with
  | @call thread op hphase =>
      cases op with
      | allocate => exact howned.move state.mutex (by simp [givenBack])
      | deallocate msg => exact howned.call_deallocate hallowed
  | @lock thread op hphase hmutex =>
      apply howned.move
      cases op <;> simp [hphase, givenBack]
  | @passed thread op hphase hpasses =>
      apply howned.move state.mutex
      cases op <;> simp [hphase, givenBack]
  | blocked hphase hpasses => simp [Monitor.passes, monitor] at hpasses
  | @body thread op resource result hphase hbody =>
      cases op with
      | allocate =>
          obtain rfl : state.resource.allocate.1 = resource :=
            congrArg Prod.fst hbody
          obtain rfl : state.resource.allocate.2 = result :=
            congrArg Prod.snd hbody
          exact howned.allocate
      | deallocate msg =>
          obtain rfl : (state.resource.deallocate msg).1 = resource :=
            congrArg Prod.fst hbody
          obtain rfl : (state.resource.deallocate msg).2 = result :=
            congrArg Prod.snd hbody
          exact howned.deallocate hphase
  | unheard hphase hnone =>
      exact howned.move state.mutex (by simp [givenBack])
  | woken hphase hcond hwaiting hwaits => cases hcond
  | unlock hphase => exact howned.move none (by simp [givenBack])
  | @spurious thread op hphase =>
      apply howned.move state.mutex
      cases op <;> simp [hphase, givenBack]

end Steps

/-- Every message is free or handed out, never both and never twice, however
the threads interleave. -/
theorem customLockedPool_exclusive [DecidableEq Thread] [Fintype Thread]
    {actions : List (Monitor.Action Thread (Call poolMsgCount))}
    {state : State Thread poolMsgCount}
    (hrun : StepSystem.run (monitor poolMsgCount).step actions
      (Monitor.initial Thread (Call poolMsgCount) (Outcome poolMsgCount)
        (construct poolMsgCount)) = some state)
    (hallowed : StepSystem.AllAllowed (monitor poolMsgCount).step
      GivesBackOnce actions (Monitor.initial Thread (Call poolMsgCount)
        (Outcome poolMsgCount) (construct poolMsgCount))) :
    (∃ free, state.resource.freeMsgs_ = free.map some ∧
        Partition free (fun _ : Unit => outstanding state.log)) ∧
      Monitor.EachEntry Served state.log := by
  have howned : Owned state := by
    apply (StepSystem.reachable_of_run hrun hallowed).invariant initial_owned
    intro state next action howned hallowed hstep
    exact moves_owned howned hallowed (Monitor.moves_of_step hstep)
  exact ⟨howned.stack, howned.served⟩

/-- The only message goes from the first thread to the second, which gives it
back; a call made in between finds none. -/
def handOver : List (Monitor.Action Bool (Call 1)) :=
  [.call false .allocate, .lock false, .test false, .call true .allocate,
    .body false, .notify false none, .unlock false, .lock true, .test true,
    .body true, .notify true none, .unlock true,
    .call true (.deallocate (some ⟨0, Nat.one_pos⟩)), .lock true, .test true,
    .body true]

theorem customLockedPool_exclusive_handOver :
    ∃ state, StepSystem.run (monitor 1).step handOver
        (Monitor.initial Bool (Call 1) (Outcome 1) (construct 1)) =
          some state ∧
      (∃ free, state.resource.freeMsgs_ = free.map some ∧
        Partition free (fun _ : Unit => outstanding state.log)) ∧
      Monitor.EachEntry Served state.log := by
  have hsome : (StepSystem.run (monitor 1).step handOver (Monitor.initial
      Bool (Call 1) (Outcome 1) (construct 1))).isSome = true := by
    decide
  obtain ⟨state, hrun⟩ := Option.isSome_iff_exists.mp hsome
  exact ⟨state, hrun, customLockedPool_exclusive hrun (by decide)⟩

end CustomLockedPool
end TradingStudies
