import TradingStudies.AsyncLoggerSteps

/-!
# The slots of the logger

A slot is free, in the hands of a call of `log`, on the queue or in the hands
of `LoggerThread`.  A call that finds the queue full returns without its slot,
and nobody gives it back.  The pool is a correct free list here, which answers
with a null pointer when it is empty.
-/

namespace TradingStudies
namespace Logging
namespace AsyncLogger

variable {Thread : Type*} [Fintype Thread] {poolMsgCount : ℕ}

/-- Every slot is in exactly one place; all are free when nothing is under
way. -/
structure KeepsSlots (logger : AsyncLogger Thread poolMsgCount) : Prop where
  onePlace : ∀ slot, logger.occurrences slot = 1
  allFree : logger.queue_ = [] → logger.loggerThread_.held = [] →
    (∀ thread, logger.producers thread = .idle) →
      logger.pool_.length = poolMsgCount

/-- An `enqueue` finds room. -/
def FindsRoom (queueCapacity : ℕ) (logger : AsyncLogger Thread poolMsgCount) :
    Action Thread → Prop
  | .log _ .enqueue => logger.queue_.length < queueCapacity
  | _ => True

omit [Fintype Thread] in
instance (queueCapacity : ℕ) (logger : AsyncLogger Thread poolMsgCount) :
    ∀ action, Decidable (FindsRoom queueCapacity logger action)
  | .log _ .enqueue => inferInstanceAs (Decidable (_ < _))
  | .log _ (.allocate _) | .log _ .encodingError | .log _ .format
  | .log _ .deallocate | .logger _ | .clearRunFlag
  | .join => inferInstanceAs (Decidable True)

variable {logger next : AsyncLogger Thread poolMsgCount}

theorem keepsSlots_of_occurrences
    (hone : ∀ slot, logger.occurrences slot = 1) : KeepsSlots logger := by
  constructor
  · exact hone
  · intro hqueue hheld hidle
    have hperm : logger.pool_.Perm (List.finRange poolMsgCount) := by
      apply List.perm_iff_count.mpr
      intro slot
      have hslot := hone slot
      simp only [occurrences, hqueue, hheld, hidle, Producer.held,
        List.count_nil, Finset.sum_const_zero, Nat.add_zero] at hslot
      rw [hslot, List.count_eq_one_of_mem (List.nodup_finRange poolMsgCount)
        (List.mem_finRange slot)]
    rw [hperm.length_eq, List.length_finRange]

variable [DecidableEq Thread] {emptyPool : EmptyPool}
  {queueCapacity LogBufferSize : ℕ}

theorem step_occurrences {action : Action Thread}
    (hroom : FindsRoom queueCapacity logger action)
    (hstep : logger.step emptyPool queueCapacity LogBufferSize action =
      some next)
    (slot : Fin poolMsgCount) :
    next.occurrences slot = logger.occurrences slot := by
  have hthreads := (stepThreads_of_step hstep).2
  cases action with
  | log thread action =>
      rcases (producerStep_of_step hthreads).occurrences_cases with
        ⟨-, hsame⟩ | ⟨rfl, hfull, -⟩
      · exact hsame slot
      · exact absurd hroom hfull
  | logger action => exact (loggerStep_of_step hthreads).occurrences_eq slot
  | clearRunFlag =>
      rcases step_clearRunFlag hthreads with ⟨-, -, rfl⟩
      rfl
  | join =>
      rcases step_join hthreads with ⟨-, -, rfl⟩
      rfl

/-- The slot of a refused message is nowhere. -/
theorem not_keepsSlots_step (hkeeps : KeepsSlots logger)
    {action : Action Thread} (hroom : ¬ FindsRoom queueCapacity logger action)
    (hstep : logger.step emptyPool queueCapacity LogBufferSize action =
      some next) :
    ¬ KeepsSlots next := by
  intro hnext
  cases action with
  | log thread action =>
      have hthreads := (stepThreads_of_step hstep).2
      rcases (producerStep_of_step hthreads).occurrences_cases with
        ⟨hfound, -⟩ | ⟨-, -, msg, hlost⟩
      · apply hroom
        cases action with
        | enqueue => exact hfound rfl
        | allocate | encodingError | format | deallocate => trivial
      · have hmsg := hlost msg
        rw [hnext.onePlace, hkeeps.onePlace, List.count_singleton_self]
          at hmsg
        omega
  | logger action => exact hroom trivial
  | clearRunFlag => exact hroom trivial
  | join => exact hroom trivial

/-- Along a run every slot stays in exactly one place if and only if no
message is refused by the queue. -/
theorem asyncLogger_keepsSlots_iff (memory : Fin poolMsgCount → LogMsg)
    {actions : List (Action Thread)}
    {last : AsyncLogger Thread poolMsgCount}
    (hrun : StepSystem.run
      (fun logger action =>
        logger.step .nullptr queueCapacity LogBufferSize action)
      actions (initial Thread poolMsgCount memory) = some last) :
    StepSystem.AllStates
        (fun logger action =>
          logger.step .nullptr queueCapacity LogBufferSize action)
        KeepsSlots actions (initial Thread poolMsgCount memory) ↔
      StepSystem.AllAllowed
        (fun logger action =>
          logger.step .nullptr queueCapacity LogBufferSize action)
        (FindsRoom queueCapacity) actions
        (initial Thread poolMsgCount memory) := by
  apply StepSystem.allStates_iff_allAllowed KeepsSlots
  · exact fun _ hkeeps => hkeeps
  · intro logger next action hkeeps hroom hstep
    apply keepsSlots_of_occurrences
    intro slot
    rw [step_occurrences hroom hstep slot, hkeeps.onePlace]
  · intro logger next action hkeeps hroom hstep
    exact not_keepsSlots_step hkeeps hroom hstep
  · exact keepsSlots_of_occurrences (occurrences_initial memory)
  · exact hrun

/-- `LoggerThread` takes a message off the queue and writes it. -/
def writeOne {threads : ℕ} (now : ℕ) : List (Action (Fin threads)) :=
  [.logger .load, .logger .dequeue, .logger (.write now),
    .logger .deallocate]

/-- The third message is refused.  When the others have been written, two
slots of three are free. -/
theorem asyncLogger_loses_slot :
    ∃ last : AsyncLogger (Fin 1) 3,
      StepSystem.run (fun logger action => logger.step .nullptr 2 512 action)
          (logCall 0 ['a'] ++ logCall 0 ['b'] ++ logCall 0 ['c'] ++
            writeOne 7 ++ writeOne 8)
          (initial (Fin 1) 3 (fun _ => ⟨[], 0⟩)) = some last ∧
        last.queue_ = [] ∧ last.loggerThread_ = .checking ∧
        last.producers 0 = .idle ∧ last.pool_.length = 2 ∧
        ¬ KeepsSlots last := by
  refine ⟨_, rfl, rfl, rfl, rfl, rfl, ?_⟩
  intro hkeeps
  exact absurd (hkeeps.onePlace 0) (by decide)

/-- A queue with room for both keeps both slots. -/
theorem asyncLogger_keepsSlots_two :
    ∃ last : AsyncLogger (Fin 1) 2,
      StepSystem.run (fun logger action => logger.step .nullptr 2 512 action)
          (logCall 0 ['a'] ++ logCall 0 ['b'] ++ writeOne 7)
          (initial (Fin 1) 2 (fun _ => ⟨[], 0⟩)) = some last ∧
        StepSystem.AllStates
          (fun logger action => logger.step .nullptr 2 512 action)
          KeepsSlots (logCall 0 ['a'] ++ logCall 0 ['b'] ++ writeOne 7)
          (initial (Fin 1) 2 (fun _ => ⟨[], 0⟩)) := by
  have hallowed : StepSystem.AllAllowed
      (fun logger action => logger.step .nullptr 2 512 action) (FindsRoom 2)
      (logCall 0 ['a'] ++ logCall 0 ['b'] ++ writeOne 7)
      (initial (Fin 1) 2 (fun _ => ⟨[], 0⟩)) := by
    decide
  exact ⟨_, rfl, (@asyncLogger_keepsSlots_iff (Fin 1) _ 2 _ 2 512
    (fun _ => ⟨[], 0⟩) _ _ rfl).mpr hallowed⟩

end AsyncLogger
end Logging
end TradingStudies
