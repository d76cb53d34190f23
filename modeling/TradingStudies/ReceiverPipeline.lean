import TradingStudies.Library.SlotPartition
import TradingStudies.TradeDataSequencer

/-!
# The receiver pipeline

`MulticastTradeDataReceiver::run` takes message slots from the pool, has the
socket fill them and passes them on through `recvQueue_`.  The other thread,
`TradeDataSequencer::run` with the recovery it calls, passes them on to
`sendQueue_` or gives them back.  Nothing in the repository reads `sendQueue_`.

A thread takes one step at a time and the two are interleaved freely.  The
pool and the two queues are their abstract selves here: a stack of free slots
and bounded queues.  Whatever arrives in a slot is left open, so a datagram may
leave any record there, and `recv` may answer the recovery in any way.

The pool is the `LockFreeThreadSafePool` of `main`.  It hands out no null
pointer: an `allocate` that finds no slot free reads `nextFree_` out of bounds,
and nothing is said about the program after that.  An exception leaves a
routine without returning what it holds.
-/

namespace TradingStudies
namespace Ticker

open SlotPartition

/-- Where `MulticastTradeDataReceiver::run` stands. -/
inductive Receiver (poolMsgCount : ℕ)
  | looping
  | receiving (msg : Fin poolMsgCount)
  | failed (msg : Fin poolMsgCount)
  | received (msg : Fin poolMsgCount)
  | stopped
  deriving DecidableEq, Repr

/-- Where the other thread stands.  `pending` is the message that opened the
gap; from `reading` on, `receiveRecoveryMessages` has a message of its own. -/
inductive Sequencer (poolMsgCount : ℕ)
  | dequeueing
  | old (msg : Fin poolMsgCount)
  | forwarding (msg : Fin poolMsgCount)
  | requesting (pending : Fin poolMsgCount) (startSeq endSeq : UInt64)
  | receiving (pending : Fin poolMsgCount)
      (messagesReceived numMessages : UInt64)
  | reading (pending : Fin poolMsgCount)
      (messagesReceived numMessages : UInt64) (msg : Fin poolMsgCount)
  | failed (pending : Fin poolMsgCount)
      (messagesReceived numMessages : UInt64) (msg : Fin poolMsgCount)
      (closed : Bool)
  | recovered (pending : Fin poolMsgCount)
      (messagesReceived numMessages : UInt64) (msg : Fin poolMsgCount)
  | stopped
  | terminated (what : String)
  deriving DecidableEq, Repr

structure Pipeline (poolMsgCount : ℕ) where
  free : List (Fin poolMsgCount)
  memory : Fin poolMsgCount → ITCHTradeMsg
  recvQueue_ : List (Fin poolMsgCount)
  sendQueue_ : List (Fin poolMsgCount)
  nextSequence_ : UInt64
  receiver : Receiver poolMsgCount
  sequencer : Sequencer poolMsgCount
  outOfBounds : Bool

inductive ReceiverAction
  | allocate
  | recvFailed
  | recvDatagram (content : ITCHTradeMsg)
  | deallocate
  | enqueue
  | stop
  deriving DecidableEq, Repr

inductive SequencerAction
  | dequeue
  | deallocateOld
  | forward
  | requestSent
  | requestFailed (what : String)
  | timeout
  | notResponded
  | allocate
  | recvRecord (content : ITCHTradeMsg)
  | recvPartial
  | recvClosed
  | deallocate
  | forwardRecovered
  | stop
  deriving DecidableEq, Repr

inductive PipelineAction
  | receiver (action : ReceiverAction)
  | sequencer (action : SequencerAction)
  deriving DecidableEq, Repr

variable {poolMsgCount : ℕ}

/-- `CustomSPSCLockFreeQueue::enqueue`. -/
def enqueue (capacity : ℕ) (queue : List (Fin poolMsgCount))
    (msg : Fin poolMsgCount) : List (Fin poolMsgCount) × Bool :=
  if queue.length < capacity then (queue ++ [msg], true) else (queue, false)

namespace Pipeline

def initial (poolMsgCount : ℕ) (memory : Fin poolMsgCount → ITCHTradeMsg)
    (start : UInt64) : Pipeline poolMsgCount where
  free := (List.finRange poolMsgCount).reverse
  memory := memory
  recvQueue_ := []
  sendQueue_ := []
  nextSequence_ := start
  receiver := .looping
  sequencer := .dequeueing
  outOfBounds := false

section Steps

variable (recvCapacity sendCapacity : ℕ) (pipeline : Pipeline poolMsgCount)

/-- `MulticastTradeDataReceiver::run`. -/
def stepReceiver (action : ReceiverAction) : Option (Pipeline poolMsgCount) :=
  match pipeline.receiver, action with
  | .looping, .stop => some { pipeline with receiver := .stopped }
  | .looping, .allocate =>
      match pipeline.free with
      -- The exception for a null pointer is not reached.
      | [] => some { pipeline with outOfBounds := true }
      | msg :: free =>
          some { pipeline with free := free, receiver := .receiving msg }
  | .receiving msg, .recvFailed =>
      some { pipeline with receiver := .failed msg }
  -- Any length that is not negative counts as a message.
  | .receiving msg, .recvDatagram content =>
      some { pipeline with
        memory := Function.update pipeline.memory msg content
        receiver := .received msg }
  | .failed msg, .deallocate =>
      some { pipeline with free := msg :: pipeline.free, receiver := .looping }
  -- The result of `enqueue` is not looked at.
  | .received msg, .enqueue =>
      some { pipeline with
        recvQueue_ := (Ticker.enqueue recvCapacity pipeline.recvQueue_ msg).1
        receiver := .looping }
  | _, _ => none

/-- The body of the loop in `run`, for a message that was dequeued. -/
def onMulticastMsg (msg : Fin poolMsgCount) : Sequencer poolMsgCount :=
  let sequence_number := (pipeline.memory msg).sequence_number
  if sequence_number > pipeline.nextSequence_ then
    .requesting msg pipeline.nextSequence_ (sequence_number - 1)
  else if sequence_number < pipeline.nextSequence_ then .old msg
  else .forwarding msg

/-- The head of the loop in `receiveRecoveryMessages`. -/
def receiveRecoveryMessages (pending : Fin poolMsgCount)
    (messagesReceived numMessages : UInt64) : Sequencer poolMsgCount :=
  if messagesReceived < numMessages then
    .receiving pending messagesReceived numMessages
  else .forwarding pending

/-- `sendQueue_.enqueue(msg); ++nextSequence_;` -/
def send (msg : Fin poolMsgCount) (sequencer : Sequencer poolMsgCount) :
    Pipeline poolMsgCount :=
  { pipeline with
    sendQueue_ := (Ticker.enqueue sendCapacity pipeline.sendQueue_ msg).1
    nextSequence_ := pipeline.nextSequence_ + 1
    sequencer := sequencer }

/-- `TradeDataSequencer::run` and what it calls. -/
def stepSequencer (action : SequencerAction) :
    Option (Pipeline poolMsgCount) :=
  match pipeline.sequencer, action with
  | .dequeueing, .stop => some { pipeline with sequencer := .stopped }
  | .dequeueing, .dequeue =>
      match pipeline.recvQueue_ with
      | [] => some pipeline
      | msg :: rest =>
          some { pipeline with
            recvQueue_ := rest
            sequencer := pipeline.onMulticastMsg msg }
  | .old msg, .deallocateOld =>
      some { pipeline with
        free := msg :: pipeline.free
        sequencer := .dequeueing }
  | .forwarding msg, .forward =>
      some (pipeline.send sendCapacity msg .dequeueing)
  | .requesting pending startSeq endSeq, .requestSent =>
      some { pipeline with
        sequencer :=
          receiveRecoveryMessages pending 0 (endSeq - startSeq + 1) }
  | .requesting _ _ _, .requestFailed what =>
      some { pipeline with sequencer := .terminated what }
  | .receiving _ _ _, .timeout => some pipeline
  | .receiving pending _ _, .notResponded =>
      some { pipeline with sequencer := .forwarding pending }
  | .receiving pending messagesReceived numMessages, .allocate =>
      match pipeline.free with
      | [] => some { pipeline with outOfBounds := true }
      | msg :: free =>
          some { pipeline with
            free := free
            sequencer := .reading pending messagesReceived numMessages msg }
  | .reading pending messagesReceived numMessages msg, .recvPartial =>
      some { pipeline with
        sequencer := .failed pending messagesReceived numMessages msg false }
  | .reading pending messagesReceived numMessages msg, .recvClosed =>
      some { pipeline with
        sequencer := .failed pending messagesReceived numMessages msg true }
  -- `onRecoveredMsg` begins here.
  | .reading pending messagesReceived numMessages msg, .recvRecord content =>
      if content.sequence_number ≠ pipeline.nextSequence_ then
        some { pipeline with
          memory := Function.update pipeline.memory msg content
          sequencer := .terminated "Failed to recover message" }
      else
        some { pipeline with
          memory := Function.update pipeline.memory msg content
          sequencer := .recovered pending messagesReceived numMessages msg }
  | .failed pending messagesReceived numMessages msg closed, .deallocate =>
      some { pipeline with
        free := msg :: pipeline.free
        sequencer :=
          if closed then .forwarding pending
          else receiveRecoveryMessages pending messagesReceived numMessages }
  | .recovered pending messagesReceived numMessages msg, .forwardRecovered =>
      some (pipeline.send sendCapacity msg
        (receiveRecoveryMessages pending (messagesReceived + 1) numMessages))
  | _, _ => none

def stepThreads : PipelineAction → Option (Pipeline poolMsgCount)
  | .receiver action => pipeline.stepReceiver recvCapacity action
  | .sequencer action => pipeline.stepSequencer sendCapacity action

def step (action : PipelineAction) : Option (Pipeline poolMsgCount) :=
  if pipeline.outOfBounds then none
  else pipeline.stepThreads recvCapacity sendCapacity action

end Steps

end Pipeline

/-! ## Where the slots are -/

def Receiver.held : Receiver poolMsgCount → List (Fin poolMsgCount)
  | .receiving msg | .failed msg | .received msg => [msg]
  | .looping | .stopped => []

/-- What `TradeDataSequencer::run` holds. -/
def Sequencer.held : Sequencer poolMsgCount → List (Fin poolMsgCount)
  | .old msg | .forwarding msg => [msg]
  | .requesting pending _ _ | .receiving pending _ _ |
    .reading pending _ _ _ | .failed pending _ _ _ _ |
    .recovered pending _ _ _ => [pending]
  | .dequeueing | .stopped | .terminated _ => []

/-- What `receiveRecoveryMessages` holds. -/
def Sequencer.recoveryHeld : Sequencer poolMsgCount → List (Fin poolMsgCount)
  | .reading _ _ _ msg | .failed _ _ _ msg _ | .recovered _ _ _ msg => [msg]
  | _ => []

/-- The places of a slot besides the pool. -/
inductive Place
  | multicastTradeDataReceiver
  | tradeDataSequencer
  | tradeRecoveryManager
  | recvQueue_
  | sendQueue_
  deriving DecidableEq, Repr

instance : Fintype Place where
  elems := {.multicastTradeDataReceiver, .tradeDataSequencer,
    .tradeRecoveryManager, .recvQueue_, .sendQueue_}
  complete := by
    intro place
    cases place <;> decide

namespace Pipeline

def slotsAt (pipeline : Pipeline poolMsgCount) :
    Place → List (Fin poolMsgCount)
  | .multicastTradeDataReceiver => pipeline.receiver.held
  | .tradeDataSequencer => pipeline.sequencer.held
  | .tradeRecoveryManager => pipeline.sequencer.recoveryHeld
  | .recvQueue_ => pipeline.recvQueue_
  | .sendQueue_ => pipeline.sendQueue_

/-- Nothing was read out of bounds, every slot is in one place, and the
sequence number has advanced by the messages placed on `sendQueue_`. -/
structure KeepsSlots (start : UInt64) (pipeline : Pipeline poolMsgCount) :
    Prop where
  defined : pipeline.outOfBounds = false
  partition : Partition pipeline.free pipeline.slotsAt
  nextSequence_eq : pipeline.nextSequence_ =
    start + UInt64.ofNat pipeline.sendQueue_.length

/-- The step does not drop a message: an `allocate` finds a slot, an `enqueue`
finds room, and no exception is thrown by a routine that holds a slot. -/
def Passes (recvCapacity sendCapacity : ℕ)
    (pipeline : Pipeline poolMsgCount) : PipelineAction → Prop
  | .receiver .allocate | .sequencer .allocate => pipeline.free ≠ []
  | .receiver .enqueue => pipeline.recvQueue_.length < recvCapacity
  | .sequencer .forward | .sequencer .forwardRecovered =>
      pipeline.sendQueue_.length < sendCapacity
  | .sequencer (.requestFailed _) => False
  | .sequencer (.recvRecord content) =>
      content.sequence_number = pipeline.nextSequence_
  | _ => True

instance (recvCapacity sendCapacity : ℕ) (pipeline : Pipeline poolMsgCount) :
    ∀ action, Decidable (Passes recvCapacity sendCapacity pipeline action)
  | .receiver .allocate => inferInstanceAs (Decidable (_ ≠ _))
  | .receiver .enqueue => inferInstanceAs (Decidable (_ < _))
  | .receiver .recvFailed
  | .receiver (.recvDatagram _) | .receiver .deallocate
  | .receiver .stop => inferInstanceAs (Decidable True)
  | .sequencer .forward => inferInstanceAs (Decidable (_ < _))
  | .sequencer .forwardRecovered => inferInstanceAs (Decidable (_ < _))
  | .sequencer (.requestFailed _) => inferInstanceAs (Decidable False)
  | .sequencer .allocate => inferInstanceAs (Decidable (_ ≠ _))
  | .sequencer (.recvRecord _) => inferInstanceAs (Decidable (_ = _))
  | .sequencer .dequeue | .sequencer .deallocateOld
  | .sequencer .requestSent | .sequencer .timeout
  | .sequencer .notResponded | .sequencer .recvPartial
  | .sequencer .recvClosed | .sequencer .deallocate
  | .sequencer .stop => inferInstanceAs (Decidable True)

end Pipeline

end Ticker
end TradingStudies
