import TradingStudies.AsyncLogger

/-!
# The steps of the logger

What the threads of the logger can do, one case for each kind of step, and the
invariant which every step keeps: a slot is never in two places, and the flag,
the threads and the destructor agree.
-/

namespace TradingStudies
namespace Logging

open SlotPartition

variable {Thread : Type*} {poolMsgCount : ℕ}

def Producer.held : Producer poolMsgCount → List (Fin poolMsgCount)
  | .idle => []
  | .formatting msg _ | .failed msg | .formatted msg => [msg]

def LoggerThread.held : LoggerThread poolMsgCount → List (Fin poolMsgCount)
  | .writing msg | .written msg => [msg]
  | .checking | .dequeueing | .finished => []

/-- The message that is off the queue and not yet written. -/
def LoggerThread.unwritten :
    LoggerThread poolMsgCount → List (Fin poolMsgCount)
  | .writing msg => [msg]
  | .checking | .dequeueing | .written _ | .finished => []

namespace AsyncLogger

section Definitions

variable [Fintype Thread]

/-- How often a slot occurs in the pool, on the queue and in the hands of the
threads. -/
def occurrences (logger : AsyncLogger Thread poolMsgCount)
    (slot : Fin poolMsgCount) : ℕ :=
  logger.pool_.count slot + logger.queue_.count slot +
    logger.loggerThread_.held.count slot +
    ∑ thread, (logger.producers thread).held.count slot

/-- No slot is in two places, and the threads agree with the destructor. -/
structure Orderly (logger : AsyncLogger Thread poolMsgCount) : Prop where
  occurrences_le : ∀ slot, logger.occurrences slot ≤ 1
  idle : logger.destructor ≠ .notCalled →
    ∀ thread, logger.producers thread = .idle
  running : logger.destructor = .notCalled → logger.runFlag_ = true
  unfinished : logger.runFlag_ = true → logger.loggerThread_ ≠ .finished
  joined : logger.destructor = .returned → logger.loggerThread_ = .finished

end Definitions

def textOf (memory : Fin poolMsgCount → LogMsg) (slot : Fin poolMsgCount) :
    List Char :=
  (memory slot).text

/-- The messages that were written or still will be. -/
def accounted (logger : AsyncLogger Thread poolMsgCount) :
    List (List Char) :=
  logger.outStream_.map Prod.snd ++
    (logger.loggerThread_.unwritten ++ logger.queue_).map
      (textOf logger.memory)

variable [DecidableEq Thread] {emptyPool : EmptyPool}
  {queueCapacity LogBufferSize : ℕ}
  {logger next : AsyncLogger Thread poolMsgCount}

/-! ## What one step can do -/

/-- The steps of a thread in `log`. -/
inductive ProducerStep (emptyPool : EmptyPool)
    (queueCapacity LogBufferSize : ℕ)
    (logger : AsyncLogger Thread poolMsgCount) (thread : Thread) :
    ProducerAction → AsyncLogger Thread poolMsgCount → Prop
  | exhausted {text : List Char} (hidle : logger.producers thread = .idle)
      (hcalled : logger.destructor = .notCalled) (hpool : logger.pool_ = [])
      (hnull : emptyPool = .nullptr) :
      ProducerStep emptyPool queueCapacity LogBufferSize logger thread
        (.allocate text)
        { logger with threw := logger.threw ++ ["Logger Pool Exhausted"] }
  | overran {text : List Char} (hidle : logger.producers thread = .idle)
      (hcalled : logger.destructor = .notCalled) (hpool : logger.pool_ = [])
      (hread : emptyPool = .outOfBounds) :
      ProducerStep emptyPool queueCapacity LogBufferSize logger thread
        (.allocate text) { logger with outOfBounds := true }
  | allocated {text : List Char} {msg : Fin poolMsgCount}
      {pool : List (Fin poolMsgCount)}
      (hidle : logger.producers thread = .idle)
      (hcalled : logger.destructor = .notCalled)
      (hpool : logger.pool_ = msg :: pool) :
      ProducerStep emptyPool queueCapacity LogBufferSize logger thread
        (.allocate text)
        { logger.setProducer thread (.formatting msg text) with pool_ := pool }
  | encodingFailed {msg : Fin poolMsgCount} {text : List Char}
      (hformatting : logger.producers thread = .formatting msg text) :
      ProducerStep emptyPool queueCapacity LogBufferSize logger thread
        .encodingError (logger.setProducer thread (.failed msg))
  | formatted {msg : Fin poolMsgCount} {text : List Char}
      (hformatting : logger.producers thread = .formatting msg text) :
      ProducerStep emptyPool queueCapacity LogBufferSize logger thread
        .format
        { logger.setProducer thread (.formatted msg) with
          memory := Function.update logger.memory msg
            (snprintf LogBufferSize text) }
  | deallocated {msg : Fin poolMsgCount}
      (hfailed : logger.producers thread = .failed msg) :
      ProducerStep emptyPool queueCapacity LogBufferSize logger thread
        .deallocate
        { logger.setProducer thread .idle with
          pool_ := msg :: logger.pool_
          threw := logger.threw ++ ["Encoding error during formatting"] }
  | enqueued {msg : Fin poolMsgCount}
      (hformatted : logger.producers thread = .formatted msg)
      (hroom : logger.queue_.length < queueCapacity) :
      ProducerStep emptyPool queueCapacity LogBufferSize logger thread
        .enqueue
        { logger.setProducer thread .idle with
          queue_ := logger.queue_ ++ [msg]
          returned := logger.returned ++ [(logger.memory msg).text] }
  | dropped {msg : Fin poolMsgCount}
      (hformatted : logger.producers thread = .formatted msg)
      (hfull : ¬ logger.queue_.length < queueCapacity) :
      ProducerStep emptyPool queueCapacity LogBufferSize logger thread
        .enqueue
        { logger.setProducer thread .idle with
          returned := logger.returned ++ [(logger.memory msg).text] }

theorem producerStep_of_step {thread : Thread} {action : ProducerAction}
    (hstep : logger.stepProducer emptyPool queueCapacity LogBufferSize thread
      action = some next) :
    ProducerStep emptyPool queueCapacity LogBufferSize logger thread action
      next := by
  cases hproducer : logger.producers thread <;> cases action <;>
    simp only [stepProducer, hproducer, reduceCtorEq] at hstep
  case idle.allocate text =>
    by_cases hcalled : logger.destructor = .notCalled
    · rw [if_pos hcalled] at hstep
      split at hstep
      next _ _ hpool =>
        cases hstep
        exact .exhausted hproducer hcalled hpool rfl
      next _ _ hpool =>
        cases hstep
        exact .overran hproducer hcalled hpool rfl
      next _ _ msg pool hpool =>
        cases hstep
        exact .allocated hproducer hcalled hpool
    · simp [hcalled] at hstep
  case formatting.encodingError msg text =>
    cases hstep
    exact .encodingFailed hproducer
  case formatting.format msg text =>
    cases hstep
    exact .formatted hproducer
  case failed.deallocate msg =>
    cases hstep
    exact .deallocated hproducer
  case formatted.enqueue msg =>
    by_cases hroom : logger.queue_.length < queueCapacity
    · rw [if_pos hroom] at hstep
      cases hstep
      exact .enqueued hproducer hroom
    · rw [if_neg hroom] at hstep
      cases hstep
      exact .dropped hproducer hroom

/-- The steps of `LoggerThread`. -/
inductive LoggerStep (logger : AsyncLogger Thread poolMsgCount) :
    LoggerAction → AsyncLogger Thread poolMsgCount → Prop
  | running (hchecking : logger.loggerThread_ = .checking)
      (hflag : logger.runFlag_ = true) :
      LoggerStep logger .load { logger with loggerThread_ := .dequeueing }
  | stopped (hchecking : logger.loggerThread_ = .checking)
      (hflag : logger.runFlag_ = false) :
      LoggerStep logger .load { logger with loggerThread_ := .finished }
  | empty (hdequeueing : logger.loggerThread_ = .dequeueing)
      (hqueue : logger.queue_ = []) :
      LoggerStep logger .dequeue { logger with loggerThread_ := .checking }
  | dequeued {msg : Fin poolMsgCount} {rest : List (Fin poolMsgCount)}
      (hdequeueing : logger.loggerThread_ = .dequeueing)
      (hqueue : logger.queue_ = msg :: rest) :
      LoggerStep logger .dequeue
        { logger with queue_ := rest, loggerThread_ := .writing msg }
  | wrote {msg : Fin poolMsgCount} {now : ℕ}
      (hwriting : logger.loggerThread_ = .writing msg) :
      LoggerStep logger (.write now)
        { logger with
          outStream_ := logger.outStream_ ++ [(now, (logger.memory msg).text)]
          loggerThread_ := .written msg }
  | deallocated {msg : Fin poolMsgCount}
      (hwritten : logger.loggerThread_ = .written msg) :
      LoggerStep logger .deallocate
        { logger with
          pool_ := msg :: logger.pool_
          loggerThread_ := .checking }

omit [DecidableEq Thread] in
theorem loggerStep_of_step {action : LoggerAction}
    (hstep : logger.stepLogger action = some next) :
    LoggerStep logger action next := by
  cases hthread : logger.loggerThread_ <;> cases action <;>
    simp only [stepLogger, hthread, reduceCtorEq] at hstep
  case checking.load =>
    by_cases hflag : logger.runFlag_ = true
    · rw [if_pos hflag] at hstep
      cases hstep
      exact .running hthread hflag
    · rw [if_neg hflag] at hstep
      cases hstep
      exact .stopped hthread (Bool.eq_false_iff.mpr hflag)
  case dequeueing.dequeue =>
    split at hstep
    next hqueue =>
      cases hstep
      exact .empty hthread hqueue
    next msg rest hqueue =>
      cases hstep
      exact .dequeued hthread hqueue
  case writing.write msg now =>
    cases hstep
    exact .wrote hthread
  case written.deallocate msg =>
    cases hstep
    exact .deallocated hthread

/-! ## Slots -/

section Slots

variable [Fintype Thread]

theorem sum_held_setProducer (thread : Thread)
    (producer : Producer poolMsgCount) (slot : Fin poolMsgCount) :
    ∑ other, ((logger.setProducer thread producer).producers other).held.count
          slot + (logger.producers thread).held.count slot =
      ∑ other, (logger.producers other).held.count slot +
        producer.held.count slot :=
  sum_update_add (fun mine : Producer poolMsgCount => mine.held.count slot)
    logger.producers thread producer

/-- A call of `log` moves a slot, unless the queue refuses it. -/
theorem ProducerStep.occurrences_cases {thread : Thread}
    {action : ProducerAction}
    (hstep : ProducerStep emptyPool queueCapacity LogBufferSize logger thread
      action next) :
    ((action = .enqueue → logger.queue_.length < queueCapacity) ∧
        ∀ slot, next.occurrences slot = logger.occurrences slot) ∨
      (action = .enqueue ∧ ¬ logger.queue_.length < queueCapacity ∧
        ∃ msg, ∀ slot, next.occurrences slot + [msg].count slot =
          logger.occurrences slot) := by
  cases hstep with
  | exhausted hidle hcalled hpool | overran hidle hcalled hpool =>
      exact Or.inl ⟨by simp, fun _ => rfl⟩
  | @allocated text msg pool hidle hcalled hpool =>
      refine Or.inl ⟨by simp, fun slot => ?_⟩
      have hsum := logger.sum_held_setProducer thread
        (.formatting msg text) slot
      rw [hidle] at hsum
      simp only [occurrences, hpool, setProducer, Producer.held,
        List.count_nil, List.count_cons] at hsum ⊢
      omega
  | @encodingFailed msg text hformatting =>
      refine Or.inl ⟨by simp, fun slot => ?_⟩
      have hsum := logger.sum_held_setProducer thread (.failed msg) slot
      rw [hformatting] at hsum
      simp only [occurrences, setProducer, Producer.held] at hsum ⊢
      omega
  | @formatted msg text hformatting =>
      refine Or.inl ⟨by simp, fun slot => ?_⟩
      have hsum := logger.sum_held_setProducer thread (.formatted msg) slot
      rw [hformatting] at hsum
      simp only [occurrences, setProducer, Producer.held] at hsum ⊢
      omega
  | @deallocated msg hfailed =>
      refine Or.inl ⟨by simp, fun slot => ?_⟩
      have hsum := logger.sum_held_setProducer thread .idle slot
      rw [hfailed] at hsum
      simp only [occurrences, setProducer, Producer.held, List.count_nil,
        List.count_cons] at hsum ⊢
      omega
  | @enqueued msg hformatted hroom =>
      refine Or.inl ⟨fun _ => hroom, fun slot => ?_⟩
      have hsum := logger.sum_held_setProducer thread .idle slot
      rw [hformatted] at hsum
      simp only [occurrences, setProducer, Producer.held, List.count_nil,
        List.count_append] at hsum ⊢
      omega
  | @dropped msg hformatted hfull =>
      refine Or.inr ⟨rfl, hfull, msg, fun slot => ?_⟩
      have hsum := logger.sum_held_setProducer thread .idle slot
      rw [hformatted] at hsum
      simp only [occurrences, setProducer, Producer.held, List.count_nil]
        at hsum ⊢
      omega

theorem ProducerStep.occurrences_le {thread : Thread}
    {action : ProducerAction}
    (hstep : ProducerStep emptyPool queueCapacity LogBufferSize logger thread
      action next) (slot : Fin poolMsgCount) :
    next.occurrences slot ≤ logger.occurrences slot := by
  rcases hstep.occurrences_cases with ⟨-, hsame⟩ | ⟨-, -, msg, hlost⟩
  · rw [hsame slot]
  · have hslot := hlost slot
    omega

omit [DecidableEq Thread] in
theorem LoggerStep.occurrences_eq {action : LoggerAction}
    (hstep : LoggerStep logger action next) (slot : Fin poolMsgCount) :
    next.occurrences slot = logger.occurrences slot := by
  cases hstep with
  | running hchecking hflag =>
      simp only [occurrences, hchecking, LoggerThread.held]
  | stopped hchecking hflag =>
      simp only [occurrences, hchecking, LoggerThread.held]
  | empty hdequeueing hqueue =>
      simp only [occurrences, hdequeueing, LoggerThread.held]
  | dequeued hdequeueing hqueue =>
      simp only [occurrences, hdequeueing, hqueue, LoggerThread.held,
        List.count_cons, List.count_nil]
      omega
  | wrote hwriting => simp only [occurrences, hwriting, LoggerThread.held]
  | deallocated hwritten =>
      simp only [occurrences, hwritten, LoggerThread.held, List.count_cons,
        List.count_nil]
      omega

end Slots

/-! ## What one step changes -/

theorem ProducerStep.frame {thread : Thread} {action : ProducerAction}
    (hstep : ProducerStep emptyPool queueCapacity LogBufferSize logger thread
      action next) :
    next.destructor = logger.destructor ∧ next.runFlag_ = logger.runFlag_ ∧
      next.loggerThread_ = logger.loggerThread_ ∧
      next.outStream_ = logger.outStream_ := by
  cases hstep <;> exact ⟨rfl, rfl, rfl, rfl⟩

/-- The queue gains at most what `returned` gains. -/
theorem ProducerStep.lengths {thread : Thread} {action : ProducerAction}
    (hstep : ProducerStep emptyPool queueCapacity LogBufferSize logger thread
      action next) :
    next.queue_.length + logger.returned.length ≤
        logger.queue_.length + next.returned.length ∧
      logger.returned.length ≤ next.returned.length := by
  cases hstep with
  | enqueued hformatted hroom =>
      simp only [List.length_append, List.length_singleton]
      omega
  | dropped hformatted hfull =>
      simp only [setProducer, List.length_append, List.length_singleton]
      omega
  | exhausted | overran | allocated | encodingFailed | formatted
  | deallocated =>
      exact ⟨Nat.le_refl _, Nat.le_refl _⟩

omit [DecidableEq Thread] in
/-- `LoggerThread` only moves messages from the queue to the stream. -/
theorem LoggerStep.frame {action : LoggerAction}
    (hstep : LoggerStep logger action next) :
    logger.loggerThread_ ≠ .finished ∧
      next.destructor = logger.destructor ∧
      next.runFlag_ = logger.runFlag_ ∧ next.producers = logger.producers ∧
      next.returned = logger.returned ∧
      next.accounted = logger.accounted := by
  cases hstep with
  | running hchecking hflag =>
      simp [accounted, hchecking, LoggerThread.unwritten]
  | stopped hchecking hflag =>
      simp [accounted, hchecking, LoggerThread.unwritten]
  | empty hdequeueing hqueue =>
      simp [accounted, hdequeueing, LoggerThread.unwritten]
  | dequeued hdequeueing hqueue =>
      simp [accounted, hdequeueing, hqueue, LoggerThread.unwritten]
  | wrote hwriting =>
      simp [accounted, hwriting, LoggerThread.unwritten, textOf]
  | deallocated hwritten =>
      simp [accounted, hwritten, LoggerThread.unwritten]

/-- A step is taken as long as nothing has been read out of bounds. -/
theorem stepThreads_of_step [Fintype Thread] {action : Action Thread}
    (hstep : logger.step emptyPool queueCapacity LogBufferSize action =
      some next) :
    logger.outOfBounds = false ∧
      logger.stepThreads emptyPool queueCapacity LogBufferSize action =
        some next := by
  unfold step at hstep
  split at hstep
  next => cases hstep
  next hdefined => exact ⟨Bool.eq_false_iff.mpr hdefined, hstep⟩

theorem step_clearRunFlag [Fintype Thread]
    (hstep : logger.stepThreads emptyPool queueCapacity LogBufferSize
      .clearRunFlag = some next) :
    logger.destructor = .notCalled ∧
      (∀ thread, logger.producers thread = .idle) ∧
      next = { logger with runFlag_ := false, destructor := .joining } := by
  by_cases hready : logger.destructor = .notCalled ∧
      ∀ thread, logger.producers thread = .idle
  · simp only [stepThreads, if_pos hready, Option.some.injEq] at hstep
    exact ⟨hready.1, hready.2, hstep.symm⟩
  · simp [stepThreads, hready] at hstep

theorem step_join [Fintype Thread]
    (hstep : logger.stepThreads emptyPool queueCapacity LogBufferSize .join =
      some next) :
    logger.destructor = .joining ∧ logger.loggerThread_ = .finished ∧
      next = { logger with destructor := .returned } := by
  by_cases hjoin : logger.destructor = .joining ∧
      logger.loggerThread_ = .finished
  · simp only [stepThreads, if_pos hjoin, Option.some.injEq] at hstep
    exact ⟨hjoin.1, hjoin.2, hstep.symm⟩
  · simp [stepThreads, hjoin] at hstep

/-! ## Runs stay orderly -/

section Orderly

variable [Fintype Thread]

theorem ProducerStep.notCalled (horderly : Orderly logger)
    {thread : Thread} {action : ProducerAction}
    (hstep : ProducerStep emptyPool queueCapacity LogBufferSize logger thread
      action next) : logger.destructor = .notCalled := by
  by_contra hcalled
  have hidle := horderly.idle hcalled thread
  cases hstep with
  | exhausted _ hnotCalled => exact hcalled hnotCalled
  | overran _ hnotCalled => exact hcalled hnotCalled
  | allocated _ hnotCalled _ => exact hcalled hnotCalled
  | encodingFailed hformatting => simp [hidle] at hformatting
  | formatted hformatting => simp [hidle] at hformatting
  | deallocated hfailed => simp [hidle] at hfailed
  | enqueued hformatted _ => simp [hidle] at hformatted
  | dropped hformatted _ => simp [hidle] at hformatted

theorem ProducerStep.orderly (horderly : Orderly logger) {thread : Thread}
    {action : ProducerAction}
    (hstep : ProducerStep emptyPool queueCapacity LogBufferSize logger thread
      action next) : Orderly next := by
  rcases hstep.frame with ⟨hdestructor, hflag, hthread, _⟩
  have hcalled := hstep.notCalled horderly
  constructor
  · intro slot
    exact (hstep.occurrences_le slot).trans (horderly.occurrences_le slot)
  · intro hnot
    exact absurd (hdestructor.trans hcalled) hnot
  · rw [hdestructor, hflag]
    exact horderly.running
  · rw [hflag, hthread]
    exact horderly.unfinished
  · rw [hdestructor, hthread]
    exact horderly.joined

omit [DecidableEq Thread] in
theorem LoggerStep.orderly (horderly : Orderly logger) {action : LoggerAction}
    (hstep : LoggerStep logger action next) : Orderly next := by
  rcases hstep.frame with
    ⟨hunfinished, hdestructor, hflag, hproducers, _, _⟩
  constructor
  · intro slot
    rw [hstep.occurrences_eq slot]
    exact horderly.occurrences_le slot
  · rw [hdestructor, hproducers]
    exact horderly.idle
  · rw [hdestructor, hflag]
    exact horderly.running
  · intro hrunning
    rw [hflag] at hrunning
    -- Only a cleared flag leads to the end of the loop.
    cases hstep with
    | stopped _ hcleared => simp [hrunning] at hcleared
    | running | empty | dequeued | wrote | deallocated => simp
  · intro hreturned
    rw [hdestructor] at hreturned
    exact absurd (horderly.joined hreturned) hunfinished

theorem orderly_step (horderly : Orderly logger) {action : Action Thread}
    (hstep : logger.step emptyPool queueCapacity LogBufferSize action =
      some next) :
    Orderly next := by
  have hthreads := (stepThreads_of_step hstep).2
  cases action with
  | log thread action =>
      exact (producerStep_of_step hthreads).orderly horderly
  | logger action => exact (loggerStep_of_step hthreads).orderly horderly
  | clearRunFlag =>
      rcases step_clearRunFlag hthreads with ⟨hnotCalled, hidle, rfl⟩
      exact ⟨horderly.occurrences_le, fun _ => hidle,
        fun hcalled => Destructor.noConfusion hcalled,
        fun hrunning => Bool.noConfusion hrunning,
        fun hreturned => Destructor.noConfusion hreturned⟩
  | join =>
      rcases step_join hthreads with ⟨hjoining, hfinished, rfl⟩
      have hcalled : logger.destructor ≠ .notCalled := by
        rw [hjoining]
        exact Destructor.noConfusion
      exact ⟨horderly.occurrences_le, fun _ => horderly.idle hcalled,
        fun hnot => Destructor.noConfusion hnot, horderly.unfinished,
        fun _ => hfinished⟩

omit [DecidableEq Thread] in
theorem occurrences_initial (memory : Fin poolMsgCount → LogMsg)
    (slot : Fin poolMsgCount) :
    (initial Thread poolMsgCount memory).occurrences slot = 1 := by
  have hslot : (List.finRange poolMsgCount).count slot = 1 :=
    List.count_eq_one_of_mem (List.nodup_finRange poolMsgCount)
      (List.mem_finRange slot)
  simp [occurrences, initial, LoggerThread.held, Producer.held, hslot]

omit [DecidableEq Thread] in
theorem orderly_initial (memory : Fin poolMsgCount → LogMsg) :
    Orderly (initial Thread poolMsgCount memory) := by
  constructor
  · exact fun slot => (occurrences_initial memory slot).le
  · intro hcalled
    exact absurd rfl hcalled
  · intro _
    rfl
  · intro _
    simp [initial]
  · intro hreturned
    exact Destructor.noConfusion hreturned

end Orderly

end AsyncLogger
end Logging
end TradingStudies
