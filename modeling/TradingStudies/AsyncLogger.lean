import TradingStudies.Library.SlotPartition
import TradingStudies.Library.StepSystem

/-!
# The asynchronous logger

`log` formats a message into a slot of the pool and puts the slot on a bounded
queue; `LoggerThread` takes the slots off again, writes them and gives them
back.  The destructor clears `runFlag_` and joins the thread.  Any number of
threads call `log`, and all steps are interleaved freely.

The queue and the pool are their abstract selves here, a bounded queue that
hands out each element once and a stack of free slots.  What an `allocate` does
when no slot is free is a parameter: `AsyncLogger` is built on
`LockFreeThreadSafePool`, which has no null pointer for this case.  After a read
out of bounds nothing is said about the program any more.

`returned` records the texts of the calls of `log` that returned normally and
`threw` what the others threw; the program itself keeps neither.
-/

namespace TradingStudies
namespace Logging

structure LogMsg where
  buffer : List Char
  len : ℕ
  deriving DecidableEq, Repr

/-- What `write(msg->buffer, msg->len)` puts out. -/
def LogMsg.text (msg : LogMsg) : List Char := msg.buffer.take msg.len

/-- `snprintf` into the buffer, and the length that `log` records. -/
def snprintf (LogBufferSize : ℕ) (text : List Char) : LogMsg where
  buffer := text.take (LogBufferSize - 1)
  len := if text.length < LogBufferSize then text.length else LogBufferSize - 1

theorem text_snprintf (LogBufferSize : ℕ) (text : List Char) :
    (snprintf LogBufferSize text).text = text.take (LogBufferSize - 1) := by
  unfold snprintf LogMsg.text
  apply List.take_of_length_le
  rw [List.length_take]
  by_cases hfits : text.length < LogBufferSize
  · simp only [if_pos hfits]
    omega
  · simp only [if_neg hfits]
    omega

/-- What `allocate` does when no slot is free.  A correct free list answers
with a null pointer; `LockFreeThreadSafePool` takes the empty list for the slot
`4294967295` and reads its entry of `nextFree_`. -/
inductive EmptyPool
  | nullptr
  | outOfBounds
  deriving DecidableEq, Repr

/-- Where a call of `log` stands. -/
inductive Producer (poolMsgCount : ℕ)
  | idle
  | formatting (msg : Fin poolMsgCount) (text : List Char)
  | failed (msg : Fin poolMsgCount)
  | formatted (msg : Fin poolMsgCount)
  deriving DecidableEq, Repr

/-- Where `LoggerThread` stands.  How it waits for the next message is left
out. -/
inductive LoggerThread (poolMsgCount : ℕ)
  | checking
  | dequeueing
  | writing (msg : Fin poolMsgCount)
  | written (msg : Fin poolMsgCount)
  | finished
  deriving DecidableEq, Repr

inductive Destructor
  | notCalled
  | joining
  | returned
  deriving DecidableEq, Repr

structure AsyncLogger (Thread : Type*) (poolMsgCount : ℕ) where
  pool_ : List (Fin poolMsgCount)
  memory : Fin poolMsgCount → LogMsg
  queue_ : List (Fin poolMsgCount)
  runFlag_ : Bool
  outStream_ : List (ℕ × List Char)
  producers : Thread → Producer poolMsgCount
  loggerThread_ : LoggerThread poolMsgCount
  destructor : Destructor
  returned : List (List Char)
  threw : List String
  outOfBounds : Bool

inductive ProducerAction
  | allocate (text : List Char)
  | encodingError
  | format
  | deallocate
  | enqueue
  deriving DecidableEq, Repr

/-- `now` is the time that a line begins with. -/
inductive LoggerAction
  | load
  | dequeue
  | write (now : ℕ)
  | deallocate
  deriving DecidableEq, Repr

inductive Action (Thread : Type*)
  | log (thread : Thread) (action : ProducerAction)
  | logger (action : LoggerAction)
  | clearRunFlag
  | join
  deriving DecidableEq, Repr

variable {Thread : Type*} [DecidableEq Thread] {poolMsgCount : ℕ}

namespace AsyncLogger

def initial (Thread : Type*) (poolMsgCount : ℕ)
    (memory : Fin poolMsgCount → LogMsg) :
    AsyncLogger Thread poolMsgCount where
  pool_ := (List.finRange poolMsgCount).reverse
  memory := memory
  queue_ := []
  runFlag_ := true
  outStream_ := []
  producers := fun _ => .idle
  loggerThread_ := .checking
  destructor := .notCalled
  returned := []
  threw := []
  outOfBounds := false

section Steps

variable (emptyPool : EmptyPool) (queueCapacity LogBufferSize : ℕ)
  (logger : AsyncLogger Thread poolMsgCount)

def setProducer (thread : Thread) (producer : Producer poolMsgCount) :
    AsyncLogger Thread poolMsgCount :=
  { logger with
    producers := Function.update logger.producers thread producer }

/-- `log`. -/
def stepProducer (thread : Thread) (action : ProducerAction) :
    Option (AsyncLogger Thread poolMsgCount) :=
  match logger.producers thread, action with
  | .idle, .allocate text =>
      -- No call begins once the destructor runs.
      if logger.destructor = .notCalled then
        match logger.pool_, emptyPool with
        | [], .nullptr =>
            some { logger with
              threw := logger.threw ++ ["Logger Pool Exhausted"] }
        | [], .outOfBounds => some { logger with outOfBounds := true }
        | msg :: pool, _ =>
            some { logger.setProducer thread (.formatting msg text) with
              pool_ := pool }
      else none
  | .formatting msg _, .encodingError =>
      some (logger.setProducer thread (.failed msg))
  | .formatting msg text, .format =>
      some { logger.setProducer thread (.formatted msg) with
        memory := Function.update logger.memory msg
          (snprintf LogBufferSize text) }
  | .failed msg, .deallocate =>
      some { logger.setProducer thread .idle with
        pool_ := msg :: logger.pool_
        threw := logger.threw ++ ["Encoding error during formatting"] }
  -- The result of `enqueue` is not looked at.
  | .formatted msg, .enqueue =>
      some { logger.setProducer thread .idle with
        queue_ :=
          if logger.queue_.length < queueCapacity then logger.queue_ ++ [msg]
          else logger.queue_
        returned := logger.returned ++ [(logger.memory msg).text] }
  | _, _ => none

def stepLogger (action : LoggerAction) :
    Option (AsyncLogger Thread poolMsgCount) :=
  match logger.loggerThread_, action with
  | .checking, .load =>
      if logger.runFlag_ then
        some { logger with loggerThread_ := .dequeueing }
      -- The queue is not looked at again.
      else
        some { logger with loggerThread_ := .finished }
  | .dequeueing, .dequeue =>
      match logger.queue_ with
      | [] => some { logger with loggerThread_ := .checking }
      | msg :: rest =>
          some { logger with queue_ := rest, loggerThread_ := .writing msg }
  | .writing msg, .write now =>
      some { logger with
        outStream_ := logger.outStream_ ++ [(now, (logger.memory msg).text)]
        loggerThread_ := .written msg }
  | .written msg, .deallocate =>
      some { logger with
        pool_ := msg :: logger.pool_
        loggerThread_ := .checking }
  | _, _ => none

/-- The destructor is called when all calls of `log` have returned. -/
def stepThreads [Fintype Thread] :
    Action Thread → Option (AsyncLogger Thread poolMsgCount)
  | .log thread action =>
      logger.stepProducer emptyPool queueCapacity LogBufferSize thread action
  | .logger action => logger.stepLogger action
  | .clearRunFlag =>
      if logger.destructor = .notCalled ∧
          ∀ thread, logger.producers thread = .idle then
        some { logger with runFlag_ := false, destructor := .joining }
      else none
  | .join =>
      if logger.destructor = .joining ∧ logger.loggerThread_ = .finished then
        some { logger with destructor := .returned }
      else none

def step [Fintype Thread] (action : Action Thread) :
    Option (AsyncLogger Thread poolMsgCount) :=
  if logger.outOfBounds then none
  else logger.stepThreads emptyPool queueCapacity LogBufferSize action

end Steps

/-- One call of `log`, without an error. -/
def logCall {threads : ℕ} (thread : Fin threads) (text : List Char) :
    List (Action (Fin threads)) :=
  [.log thread (.allocate text), .log thread .format, .log thread .enqueue]

/-- No call of `log` has read out of bounds, and every one that returned
normally has a line of its own. -/
def WritesReturned (logger : AsyncLogger Thread poolMsgCount) : Prop :=
  logger.outOfBounds = false ∧
    ∀ text, (logger.outStream_.map Prod.snd).count text =
      logger.returned.count text

/-- The destructor has returned, or nothing is said about what follows. -/
def Ended (logger : AsyncLogger Thread poolMsgCount) : Prop :=
  logger.destructor = .returned ∨ logger.outOfBounds = true

/-- An `allocate` finds a slot and an `enqueue` finds room, and the thread
stops only at an empty queue. -/
def Passes (queueCapacity : ℕ) (logger : AsyncLogger Thread poolMsgCount) :
    Action Thread → Prop
  | .log _ (.allocate _) => logger.pool_ ≠ []
  | .log _ .enqueue => logger.queue_.length < queueCapacity
  | .logger .load => logger.runFlag_ = false → logger.queue_ = []
  | _ => True

instance (queueCapacity : ℕ) (logger : AsyncLogger Thread poolMsgCount) :
    ∀ action, Decidable (Passes queueCapacity logger action)
  | .log _ (.allocate _) => inferInstanceAs (Decidable (_ ≠ _))
  | .log _ .enqueue => inferInstanceAs (Decidable (_ < _))
  | .logger .load => inferInstanceAs (Decidable (_ = _ → _ = _))
  | .log _ .encodingError | .log _ .format
  | .log _ .deallocate | .logger .dequeue | .logger (.write _)
  | .logger .deallocate | .clearRunFlag
  | .join => inferInstanceAs (Decidable True)

end AsyncLogger
end Logging
end TradingStudies
