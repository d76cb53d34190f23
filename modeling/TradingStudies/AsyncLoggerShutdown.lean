import TradingStudies.AsyncLoggerSteps

/-!
# What the logger has written when the destructor returns

The lines already written, the message in the thread's hand and the messages
on the queue are the texts of the calls that returned, in this order, until a
message is dropped.  A message is dropped by a call that finds the queue full,
and those on the queue are when the thread stops.  A call that finds the pool
empty reads out of bounds, for the pool is a `LockFreeThreadSafePool`, and
nothing more is said about a run which does.
-/

namespace TradingStudies
namespace Logging
namespace AsyncLogger

variable {Thread : Type*} {poolMsgCount : ℕ}

structure Lossless (logger : AsyncLogger Thread poolMsgCount) : Prop where
  defined : logger.outOfBounds = false
  accounted_eq : logger.accounted = logger.returned
  drained : logger.loggerThread_ = .finished → logger.queue_ = []

/-- A read out of bounds, or fewer lines than calls that returned and nothing
to make up for it. -/
def Lossy (logger : AsyncLogger Thread poolMsgCount) : Prop :=
  logger.outOfBounds = true ∨
    logger.outStream_.length + logger.loggerThread_.unwritten.length +
      logger.queue_.length < logger.returned.length ∨
    (logger.loggerThread_ = .finished ∧
      logger.outStream_.length < logger.returned.length)

variable [DecidableEq Thread] {emptyPool : EmptyPool}
  {queueCapacity LogBufferSize : ℕ}
  {logger next : AsyncLogger Thread poolMsgCount}

/-! ## No message is dropped -/

section Lossless

variable [Fintype Thread]

omit [DecidableEq Thread] in
/-- A slot in the hands of a producer is neither on the queue nor in the hands
of `LoggerThread`. -/
theorem notMem_of_held (horderly : Orderly logger) {thread : Thread}
    {msg : Fin poolMsgCount}
    (hheld : msg ∈ (logger.producers thread).held) :
    msg ∉ logger.loggerThread_.unwritten ++ logger.queue_ := by
  intro hmem
  have hone := horderly.occurrences_le msg
  have hproducer : (logger.producers thread).held.count msg ≤
      ∑ other, (logger.producers other).held.count msg :=
    Finset.single_le_sum
      (f := fun other => (logger.producers other).held.count msg)
      (fun _ _ => Nat.zero_le _) (Finset.mem_univ thread)
  have hpositive := List.count_pos_iff.mpr hheld
  have hother : 0 < logger.queue_.count msg +
      logger.loggerThread_.held.count msg := by
    rcases List.mem_append.mp hmem with hhand | hqueue
    · have hin : msg ∈ logger.loggerThread_.held := by
        cases hthread : logger.loggerThread_ <;>
          simp only [hthread, LoggerThread.unwritten, List.not_mem_nil]
            at hhand
        exact hhand
      have hcount := List.count_pos_iff.mpr hin
      omega
    · have hcount := List.count_pos_iff.mpr hqueue
      omega
  unfold occurrences at hone
  omega

omit [DecidableEq Thread] [Fintype Thread] in
/-- Formatting one slot leaves the texts in the other slots. -/
theorem textOf_update (memory : Fin poolMsgCount → LogMsg)
    (formatted : LogMsg) {msg : Fin poolMsgCount}
    {slots : List (Fin poolMsgCount)} (hfresh : msg ∉ slots) :
    slots.map (textOf (Function.update memory msg formatted)) =
      slots.map (textOf memory) := by
  have hsame := congrArg (List.map LogMsg.text)
    (SlotPartition.map_update_of_notMem memory hfresh formatted)
  rw [List.map_map, List.map_map] at hsame
  exact hsame

theorem ProducerStep.lossless (horderly : Orderly logger)
    (hlossless : Lossless logger) {thread : Thread} {action : ProducerAction}
    (hpasses : logger.Passes queueCapacity (.log thread action))
    (hstep : ProducerStep emptyPool queueCapacity LogBufferSize logger thread
      action next) : Lossless next := by
  have hcalled := hstep.notCalled horderly
  have hunfinished : logger.loggerThread_ ≠ .finished :=
    horderly.unfinished (horderly.running hcalled)
  have hthread := hstep.frame.2.2.1
  constructor
  · cases hstep with
    | overran hidle hnotCalled hpool => exact absurd hpool hpasses
    | exhausted | allocated | encodingFailed | formatted | deallocated
    | enqueued | dropped => exact hlossless.defined
  · have hsame := hlossless.accounted_eq
    cases hstep with
    | overran hidle hnotCalled hpool => exact absurd hpool hpasses
    | exhausted | allocated | encodingFailed | deallocated => exact hsame
    | @formatted msg text hformatting =>
        have hheld : msg ∈ (logger.producers thread).held := by
          rw [hformatting]
          exact List.mem_singleton_self msg
        have hfresh := notMem_of_held horderly hheld
        have htexts := textOf_update logger.memory
          (snprintf LogBufferSize text) hfresh
        simp only [accounted, setProducer, htexts]
        exact hsame
    | enqueued hformatted hroom =>
        simp only [accounted, setProducer, ← hsame, List.map_append,
          List.map_singleton, List.append_assoc, textOf]
    | dropped hformatted hfull => exact absurd hpasses hfull
  · intro hfinished
    rw [hthread] at hfinished
    exact absurd hfinished hunfinished

omit [DecidableEq Thread] [Fintype Thread] in
theorem LoggerStep.lossless (hlossless : Lossless logger)
    {action : LoggerAction}
    (hpasses : logger.Passes queueCapacity (.logger action))
    (hstep : LoggerStep logger action next) : Lossless next := by
  rcases hstep.frame with ⟨_, _, _, _, hreturned, haccounted⟩
  constructor
  · cases hstep <;> exact hlossless.defined
  · rw [haccounted, hreturned]
    exact hlossless.accounted_eq
  · intro hfinished
    cases hstep with
    | stopped _ hflag => exact hpasses hflag
    | running | empty | dequeued | wrote | deallocated =>
        simp at hfinished

/-- Clearing the flag and joining touch neither the queue nor the stream. -/
theorem lossless_step (horderly : Orderly logger)
    (hlossless : Lossless logger) {action : Action Thread}
    (hpasses : logger.Passes queueCapacity action)
    (hstep : logger.step emptyPool queueCapacity LogBufferSize action =
      some next) :
    Lossless next := by
  have hthreads := (stepThreads_of_step hstep).2
  cases action with
  | log thread action =>
      exact (producerStep_of_step hthreads).lossless horderly hlossless hpasses
  | logger action =>
      exact (loggerStep_of_step hthreads).lossless hlossless hpasses
  | clearRunFlag =>
      rcases step_clearRunFlag hthreads with ⟨_, _, rfl⟩
      exact ⟨hlossless.defined, hlossless.accounted_eq, hlossless.drained⟩
  | join =>
      rcases step_join hthreads with ⟨_, _, rfl⟩
      exact ⟨hlossless.defined, hlossless.accounted_eq, hlossless.drained⟩

end Lossless

/-! ## A dropped message -/

omit [DecidableEq Thread] in
theorem length_accounted (logger : AsyncLogger Thread poolMsgCount) :
    logger.accounted.length =
      logger.outStream_.length + logger.loggerThread_.unwritten.length +
        logger.queue_.length := by
  unfold accounted
  rw [List.length_append, List.length_map, List.length_map,
    List.length_append, Nat.add_assoc]

section Lossy

variable [Fintype Thread]

theorem lossy_of_not_passes (hlossless : Lossless logger)
    {action : Action Thread}
    (hpasses : ¬ logger.Passes queueCapacity action)
    (hstep : logger.step .outOfBounds queueCapacity LogBufferSize action =
      some next) :
    Lossy next := by
  have hthreads := (stepThreads_of_step hstep).2
  have hlength := congrArg List.length hlossless.accounted_eq
  rw [length_accounted] at hlength
  cases action with
  | clearRunFlag => exact absurd trivial hpasses
  | join => exact absurd trivial hpasses
  | log thread action =>
      cases producerStep_of_step hthreads with
      | exhausted hidle hcalled hpool hnull => cases hnull
      | overran => exact Or.inl rfl
      | allocated hidle hcalled hpool =>
          have hnonempty : logger.pool_ ≠ [] := by simp [hpool]
          exact absurd hnonempty hpasses
      | enqueued _ hroom => exact absurd hroom hpasses
      | dropped hformatted hfull =>
          right
          left
          simp only [setProducer, List.length_append, List.length_singleton]
          omega
      | encodingFailed | formatted | deallocated =>
          exact absurd trivial hpasses
  | logger action =>
      cases loggerStep_of_step hthreads with
      | running _ hflag =>
          have hpassed : logger.runFlag_ = false → logger.queue_ = [] := by
            intro hcleared
            simp [hflag] at hcleared
          exact absurd hpassed hpasses
      | stopped hchecking hflag =>
          have hleft : logger.queue_ ≠ [] :=
            fun hempty => hpasses fun _ => hempty
          have hpositive := List.length_pos_iff.mpr hleft
          right
          right
          refine ⟨rfl, ?_⟩
          dsimp only
          omega
      | empty | dequeued | wrote | deallocated =>
          exact absurd trivial hpasses

theorem lossy_step (hlossy : Lossy logger) {action : Action Thread}
    (hstep : logger.step emptyPool queueCapacity LogBufferSize action =
      some next) :
    Lossy next := by
  rcases stepThreads_of_step hstep with ⟨hdefined, hthreads⟩
  unfold Lossy at hlossy
  rw [hdefined] at hlossy
  replace hlossy := hlossy.resolve_left Bool.false_ne_true
  cases action with
  | log thread action =>
      have hproducer := producerStep_of_step hthreads
      rcases hproducer.frame with ⟨_, _, hthread, hstream⟩
      have hlengths := hproducer.lengths
      unfold Lossy
      rw [hthread, hstream]
      rcases hlossy with hfewer | ⟨hfinished, hfewer⟩
      · right
        left
        omega
      · right
        right
        exact ⟨hfinished, by omega⟩
  | logger action =>
      rcases (loggerStep_of_step hthreads).frame with
        ⟨hunfinished, _, _, _, hreturned, haccounted⟩
      have hlength := congrArg List.length haccounted
      rw [length_accounted, length_accounted] at hlength
      rcases hlossy with hfewer | ⟨hfinished, _⟩
      · right
        left
        rw [hreturned, hlength]
        exact hfewer
      · exact absurd hfinished hunfinished
  | clearRunFlag =>
      rcases step_clearRunFlag hthreads with ⟨_, _, rfl⟩
      exact Or.inr hlossy
  | join =>
      rcases step_join hthreads with ⟨_, _, rfl⟩
      exact Or.inr hlossy

end Lossy

omit [DecidableEq Thread] in
theorem not_writesReturned_of_lossy (hlossy : Lossy logger) :
    ¬ logger.WritesReturned := by
  rintro ⟨hdefined, hwrites⟩
  have hperm : (logger.outStream_.map Prod.snd).Perm logger.returned :=
    List.perm_iff_count.mpr hwrites
  have hlength := hperm.length_eq
  rw [List.length_map] at hlength
  rcases hlossy with hread | hfewer | ⟨_, hfewer⟩
  · exact Bool.noConfusion (hdefined.symm.trans hread)
  · omega
  · omega

omit [DecidableEq Thread] in
theorem writesReturned_of_lossless [Fintype Thread]
    (horderly : Orderly logger) (hlossless : Lossless logger)
    (hended : logger.Ended) : logger.WritesReturned := by
  have hreturned : logger.destructor = .returned := by
    apply hended.resolve_right
    rw [hlossless.defined]
    exact Bool.false_ne_true
  have hfinished := horderly.joined hreturned
  have hsame := hlossless.accounted_eq
  unfold accounted at hsame
  rw [hlossless.drained hfinished, hfinished, LoggerThread.unwritten,
    List.append_nil, List.map_nil, List.append_nil] at hsame
  refine ⟨hlossless.defined, fun text => ?_⟩
  rw [hsame]

/-- When the destructor has returned or a call of `log` has read out of bounds,
no call has read out of bounds and every one that returned normally has been
written once, if and only if each `log` found a free slot and each `enqueue`
room, and `LoggerThread` found the queue empty when it saw the cleared flag. -/
theorem asyncLogger_writesReturned_iff [Fintype Thread]
    (memory : Fin poolMsgCount → LogMsg) {actions : List (Action Thread)}
    {last : AsyncLogger Thread poolMsgCount}
    (hrun : StepSystem.run
      (fun logger action =>
        logger.step .outOfBounds queueCapacity LogBufferSize action)
      actions (initial Thread poolMsgCount memory) = some last)
    (hended : last.Ended) :
    last.WritesReturned ↔
      StepSystem.AllAllowed
        (fun logger action =>
          logger.step .outOfBounds queueCapacity LogBufferSize action)
        (Passes queueCapacity) actions
        (initial Thread poolMsgCount memory) := by
  apply StepSystem.last_iff_allAllowed
    (fun logger => Orderly logger ∧ Lossless logger) Lossy
  · rintro logger next action ⟨horderly, hlossless⟩ hpasses hstep
    exact ⟨orderly_step horderly hstep,
      lossless_step horderly hlossless hpasses hstep⟩
  · rintro logger next action ⟨_, hlossless⟩ hpasses hstep
    exact lossy_of_not_passes hlossless hpasses hstep
  · intro logger next action hlossy hstep
    exact lossy_step hlossy hstep
  · refine ⟨orderly_initial memory, ?_⟩
    exact ⟨rfl, rfl, fun _ => rfl⟩
  · exact hrun
  · rintro ⟨horderly, hlossless⟩
    exact writesReturned_of_lossless horderly hlossless hended
  · exact not_writesReturned_of_lossy

/-- The flag is cleared before the thread has looked at the queue. -/
theorem asyncLogger_stops_early :
    ¬ ∀ (queueCapacity LogBufferSize threads poolMsgCount : ℕ)
        (memory : Fin poolMsgCount → LogMsg)
        (actions : List (Action (Fin threads)))
        (last : AsyncLogger (Fin threads) poolMsgCount),
      StepSystem.run (fun logger action =>
          logger.step .outOfBounds queueCapacity LogBufferSize action) actions
        (initial (Fin threads) poolMsgCount memory) = some last →
      last.destructor = .returned → last.WritesReturned := by
  intro hall
  have hwrites := hall 2 512 1 1 (fun _ => ⟨[], 0⟩)
    (logCall 0 ['a'] ++ [.clearRunFlag, .logger .load, .join]) _ rfl rfl
  have hcount := hwrites.2 ['a']
  exact absurd hcount (by decide)

/-- A message is logged and written, then the logger is destroyed. -/
def logAndStop : List (Action (Fin 1)) :=
  logCall 0 ['a'] ++ [.logger .load, .logger .dequeue, .logger (.write 7),
    .logger .deallocate, .clearRunFlag, .logger .load, .join]

theorem asyncLogger_writesReturned_one :
    ∃ last : AsyncLogger (Fin 1) 1,
      StepSystem.run
          (fun logger action => logger.step .outOfBounds 2 512 action)
          logAndStop (initial (Fin 1) 1 (fun _ => ⟨[], 0⟩)) = some last ∧
        last.outStream_ = [(7, ['a'])] ∧ last.WritesReturned := by
  have hallowed : StepSystem.AllAllowed
      (fun logger action => logger.step .outOfBounds 2 512 action) (Passes 2)
      logAndStop
      (initial (Fin 1) 1 (fun _ => ⟨[], 0⟩)) := by
    decide
  exact ⟨_, rfl, rfl, (@asyncLogger_writesReturned_iff (Fin 1) 1 _ 2 512 _
    (fun _ => ⟨[], 0⟩) logAndStop _ rfl (Or.inl rfl)).mpr hallowed⟩

end AsyncLogger
end Logging
end TradingStudies
