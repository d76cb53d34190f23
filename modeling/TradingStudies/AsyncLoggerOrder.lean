import TradingStudies.AsyncLoggerShutdown

/-!
# What the lines of the log are

A run is observed from the side of the callers: which thread is in a call of
`log` with which text, and the calls that found room on the queue, in the order
in which they did.  Whatever the interleaving, the lines of the stream are the
texts of these calls, one line each and in this order; no line shows a slot
that was formatted again before it was written.  With a pool that has no null
pointer for an empty free list, the run ends with the first call that finds
the pool empty.
-/

namespace TradingStudies
namespace Logging
namespace AsyncLogger

variable {Thread : Type*} [DecidableEq Thread] {poolMsgCount : ℕ}

structure Observed (Thread : Type*) (poolMsgCount : ℕ) where
  logger : AsyncLogger Thread poolMsgCount
  calling : Thread → List Char
  accepted : List (Thread × List Char)

namespace Observed

def initial (Thread : Type*) (poolMsgCount : ℕ)
    (memory : Fin poolMsgCount → LogMsg) : Observed Thread poolMsgCount where
  logger := AsyncLogger.initial Thread poolMsgCount memory
  calling := fun _ => []
  accepted := []

/-- The text which a call of `log` begins with. -/
def callingAfter (observed : Observed Thread poolMsgCount) :
    Action Thread → Thread → List Char
  | .log thread (.allocate text) =>
      Function.update observed.calling thread text
  | _ => observed.calling

def acceptedAfter (queueCapacity : ℕ)
    (observed : Observed Thread poolMsgCount) :
    Action Thread → List (Thread × List Char)
  | .log thread .enqueue =>
      if observed.logger.queue_.length < queueCapacity then
        observed.accepted ++ [(thread, observed.calling thread)]
      else observed.accepted
  | _ => observed.accepted

def step [Fintype Thread] (emptyPool : EmptyPool)
    (queueCapacity LogBufferSize : ℕ)
    (observed : Observed Thread poolMsgCount) (action : Action Thread) :
    Option (Observed Thread poolMsgCount) :=
  (observed.logger.step emptyPool queueCapacity LogBufferSize action).map
    fun logger =>
      { logger := logger
        calling := observed.callingAfter action
        accepted := observed.acceptedAfter queueCapacity action }

/-- The lines which the accepted calls ask for. -/
def lines (LogBufferSize : ℕ) (observed : Observed Thread poolMsgCount) :
    List (List Char) :=
  observed.accepted.map fun entry => entry.2.take (LogBufferSize - 1)

end Observed

/-- A thread in `log` has the text of its call, or has formatted it. -/
def Formats (LogBufferSize : ℕ) (memory : Fin poolMsgCount → LogMsg)
    (text : List Char) : Producer poolMsgCount → Prop
  | .formatting _ own => own = text
  | .formatted msg => (memory msg).text = text.take (LogBufferSize - 1)
  | .idle => True
  | .failed _ => True

structure InOrder [Fintype Thread] (LogBufferSize : ℕ)
    (observed : Observed Thread poolMsgCount) : Prop where
  orderly : Orderly observed.logger
  accounted : observed.logger.accounted = observed.lines LogBufferSize
  formats : ∀ thread, Formats LogBufferSize observed.logger.memory
    (observed.calling thread) (observed.logger.producers thread)

variable [Fintype Thread] {emptyPool : EmptyPool}
  {queueCapacity LogBufferSize : ℕ}
  {logger next : AsyncLogger Thread poolMsgCount}

omit [DecidableEq Thread] in
theorem initial_inOrder (memory : Fin poolMsgCount → LogMsg) :
    InOrder LogBufferSize (Observed.initial Thread poolMsgCount memory) where
  orderly := orderly_initial memory
  accounted := rfl
  formats := fun _ => trivial

/-- Two producers never hold the same slot. -/
theorem held_ne (horderly : Orderly logger) {thread other : Thread}
    (hne : thread ≠ other) {msg msg' : Fin poolMsgCount}
    (hheld : msg ∈ (logger.producers thread).held)
    (hheld' : msg' ∈ (logger.producers other).held) : msg ≠ msg' := by
  rintro rfl
  have hone := horderly.occurrences_le msg
  have hpair : (logger.producers thread).held.count msg +
      (logger.producers other).held.count msg ≤
        ∑ each, (logger.producers each).held.count msg := by
    rw [← Finset.sum_pair (f := fun each =>
      (logger.producers each).held.count msg) hne]
    exact Finset.sum_le_sum_of_subset (Finset.subset_univ _)
  have hpositive := List.count_pos_iff.mpr hheld
  have hpositive' := List.count_pos_iff.mpr hheld'
  unfold occurrences at hone
  omega

omit [Fintype Thread] in
theorem formats_update {memory : Fin poolMsgCount → LogMsg}
    {calling : Thread → List Char} {thread : Thread}
    {producer : Producer poolMsgCount}
    (hown : Formats LogBufferSize memory (calling thread) producer)
    (hothers : ∀ other, other ≠ thread →
      Formats LogBufferSize memory (calling other) (logger.producers other))
    (other : Thread) :
    Formats LogBufferSize memory (calling other)
      (Function.update logger.producers thread producer other) := by
  by_cases hother : other = thread
  · rw [hother, Function.update_self]
    exact hown
  · rw [Function.update_of_ne hother]
    exact hothers other hother

variable {observed : Observed Thread poolMsgCount}

theorem ProducerStep.inOrder (hinv : InOrder LogBufferSize observed)
    {thread : Thread} {action : ProducerAction}
    (hstep : ProducerStep emptyPool queueCapacity LogBufferSize
      observed.logger thread action next) :
    InOrder LogBufferSize
      { logger := next
        calling := observed.callingAfter (.log thread action)
        accepted :=
          observed.acceptedAfter queueCapacity (.log thread action) } := by
  have horderly := hstep.orderly hinv.orderly
  have haccounted := hinv.accounted
  have hformats := hinv.formats
  have hown := hformats thread
  have hcalling : ∀ text other, other ≠ thread →
      Function.update observed.calling thread text other =
        observed.calling other :=
    fun text other hother => Function.update_of_ne hother _ _
  cases hstep with
  | @exhausted text hidle | @overran text hidle =>
      refine ⟨horderly, haccounted, ?_⟩
      intro other
      by_cases hother : other = thread
      · subst hother
        simp only [hidle, Formats]
      · have hsame := hformats other
        dsimp only [Observed.callingAfter]
        rw [hcalling text other hother]
        exact hsame
  | @allocated text msg pool hidle hcalled hpool =>
      refine ⟨horderly, haccounted, ?_⟩
      apply formats_update
      · dsimp only [Observed.callingAfter, Formats]
        rw [Function.update_self]
      · intro other hother
        dsimp only [Observed.callingAfter]
        rw [hcalling text other hother]
        exact hformats other
  | encodingFailed hformatting =>
      refine ⟨horderly, haccounted, ?_⟩
      exact formats_update trivial fun other _ => hformats other
  | deallocated hfailed =>
      refine ⟨horderly, haccounted, ?_⟩
      exact formats_update trivial fun other _ => hformats other
  | @formatted msg text hformatting =>
      have hheld : msg ∈ (observed.logger.producers thread).held := by
        rw [hformatting]
        exact List.mem_singleton_self msg
      rw [hformatting] at hown
      refine ⟨horderly, ?_, ?_⟩
      · have hfresh := notMem_of_held hinv.orderly hheld
        have htexts := textOf_update observed.logger.memory
          (snprintf LogBufferSize text) hfresh
        simp only [accounted, setProducer, htexts]
        exact haccounted
      · apply formats_update
        · dsimp only [Observed.callingAfter, Formats]
          rw [Function.update_self, text_snprintf, show text = _ from hown]
        · intro other hother
          have hsame := hformats other
          cases hproducer : observed.logger.producers other with
          | idle => trivial
          | failed _ => trivial
          | formatting _ own =>
              rw [hproducer] at hsame
              exact hsame
          | formatted msg' =>
              have hheld' : msg' ∈ (observed.logger.producers other).held := by
                rw [hproducer]
                exact List.mem_singleton_self msg'
              have hne := held_ne hinv.orderly hother hheld' hheld
              rw [hproducer] at hsame
              dsimp only [Observed.callingAfter, Formats] at hsame ⊢
              rw [Function.update_of_ne hne]
              exact hsame
  | @enqueued msg hformatted hroom =>
      rw [hformatted] at hown
      refine ⟨horderly, ?_, ?_⟩
      · have htext : (observed.logger.memory msg).text = _ := hown
        simp only [accounted, setProducer, Observed.lines,
          Observed.acceptedAfter, if_pos hroom, List.map_append,
          List.map_singleton, textOf, htext] at haccounted ⊢
        rw [← haccounted, List.append_assoc, List.append_assoc]
      · exact formats_update trivial fun other _ => hformats other
  | dropped hformatted hfull =>
      refine ⟨horderly, ?_, ?_⟩
      · simp only [Observed.lines, Observed.acceptedAfter, if_neg hfull]
        exact haccounted
      · exact formats_update trivial fun other _ => hformats other

theorem step_inOrder (hinv : InOrder LogBufferSize observed)
    {after : Observed Thread poolMsgCount} {action : Action Thread}
    (hstep : observed.step emptyPool queueCapacity LogBufferSize action =
      some after) :
    InOrder LogBufferSize after := by
  simp only [Observed.step, Option.map_eq_some_iff] at hstep
  obtain ⟨next, hstep, rfl⟩ := hstep
  have horderly := orderly_step hinv.orderly hstep
  have hnext := (stepThreads_of_step hstep).2
  cases action with
  | log thread action => exact (producerStep_of_step hnext).inOrder hinv
  | logger action =>
      have hlogger : LoggerStep observed.logger action next :=
        loggerStep_of_step hnext
      have hmemory : next.memory = observed.logger.memory := by
        cases hlogger <;> rfl
      obtain ⟨_, _, _, hproducers, _, haccounted⟩ := hlogger.frame
      refine ⟨horderly, haccounted.trans hinv.accounted, ?_⟩
      dsimp only
      rw [hmemory, hproducers]
      exact hinv.formats
  | clearRunFlag =>
      obtain ⟨_, _, rfl⟩ := step_clearRunFlag hnext
      exact ⟨horderly, hinv.accounted, hinv.formats⟩
  | join =>
      obtain ⟨_, _, rfl⟩ := step_join hnext
      exact ⟨horderly, hinv.accounted, hinv.formats⟩

/-- In every run with a correct free list, and up to the first call that finds
the pool empty with one that reads out of bounds there, the lines written so far
are the texts of the first calls of `log` that found room on the queue, cut to
the size of the buffer and in the order in which they were accepted; at most one
message more than the queue holds is still on its way, and when none is, all of
them are written. -/
theorem asyncLogger_lines_in_order (memory : Fin poolMsgCount → LogMsg)
    {observed : Observed Thread poolMsgCount}
    (hreach : StepSystem.Reachable
      (Observed.step emptyPool queueCapacity LogBufferSize) (fun _ _ => True)
      (Observed.initial Thread poolMsgCount memory) observed) :
    observed.logger.outStream_.map Prod.snd <+:
        observed.lines LogBufferSize ∧
      observed.accepted.length ≤ observed.logger.outStream_.length +
        observed.logger.queue_.length + 1 ∧
      (observed.logger.queue_ = [] →
        observed.logger.loggerThread_.unwritten = [] →
          observed.logger.outStream_.map Prod.snd =
            observed.lines LogBufferSize) := by
  have hinv : InOrder LogBufferSize observed :=
    hreach.invariant (initial_inOrder memory)
      (fun hinv _ hstep => step_inOrder hinv hstep)
  have hsame := hinv.accounted
  refine ⟨?_, ?_, ?_⟩
  · rw [← hsame]
    exact List.prefix_append _ _
  · have hlength := congrArg List.length hsame
    have hhand : observed.logger.loggerThread_.unwritten.length ≤ 1 := by
      cases observed.logger.loggerThread_ <;>
        simp [LoggerThread.unwritten]
    simp only [accounted, Observed.lines, List.length_append,
      List.length_map] at hlength
    omega
  · intro hqueue hhand
    rw [← hsame, accounted, hqueue, hhand]
    simp

/-- Two threads whose calls overlap, and a buffer of three characters. -/
theorem asyncLogger_lines_overlapping :
    let actions : List (Action (Fin 2)) :=
      [.log 0 (.allocate ['a', 'b', 'c']), .log 1 (.allocate ['d']),
        .log 1 .format, .log 0 .format, .log 1 .enqueue, .log 0 .enqueue,
        .logger .load, .logger .dequeue, .logger (.write 5),
        .logger .deallocate, .logger .load, .logger .dequeue,
        .log 1 (.allocate ['e', 'f']), .log 1 .format, .logger (.write 9)]
    let start := Observed.initial (Fin 2) 4 fun _ => ⟨[], 0⟩
    ∃ observed,
      StepSystem.run (Observed.step .outOfBounds 2 3) actions start =
        some observed ∧
      observed.logger.outStream_.map Prod.snd = [['d'], ['a', 'b']] := by
  intro actions start
  have hallowed : StepSystem.AllAllowed (Observed.step .outOfBounds 2 3)
      (fun _ _ => True) actions start :=
    StepSystem.allAllowed_trivial _ _ _
  have hdone : ∃ observed,
      StepSystem.run (Observed.step .outOfBounds 2 3) actions start =
        some observed ∧ observed.logger.queue_ = [] ∧
      observed.logger.loggerThread_.unwritten = [] ∧
      observed.lines 3 = [['d'], ['a', 'b']] :=
    ⟨_, rfl, rfl, rfl, rfl⟩
  obtain ⟨observed, hrun, hqueue, hhand, hlines⟩ := hdone
  refine ⟨observed, hrun, ?_⟩
  rw [← hlines]
  exact (asyncLogger_lines_in_order (fun _ => ⟨[], 0⟩)
    (StepSystem.reachable_of_run hrun hallowed)).2.2 hqueue hhand

end AsyncLogger
end Logging
end TradingStudies
