import TradingStudies.ReceiverPipeline

/-!
# When the receiver pipeline keeps its slots

A step moves slots between the places or drops what a routine has in hand; the
slots at all places and the dropped ones together stay the same.  So, as long
as no `allocate` reads out of bounds, a slot is lost exactly when a step is
taken that drops one.
-/

namespace TradingStudies
namespace Ticker
namespace Pipeline

open SlotPartition

variable {poolMsgCount : ℕ} {recvCapacity sendCapacity : ℕ}

/-- How often a slot occurs at all the places together. -/
def occurrences (pipeline : Pipeline poolMsgCount)
    (slot : Fin poolMsgCount) : ℕ :=
  pipeline.free.count slot + pipeline.receiver.held.count slot +
    pipeline.sequencer.held.count slot +
    pipeline.sequencer.recoveryHeld.count slot +
    pipeline.recvQueue_.count slot + pipeline.sendQueue_.count slot

theorem sum_places (weight : Place → ℕ) :
    ∑ place, weight place =
      weight .multicastTradeDataReceiver + weight .tradeDataSequencer +
        weight .tradeRecoveryManager + weight .recvQueue_ +
        weight .sendQueue_ := by
  have huniv : (Finset.univ : Finset Place) =
      {.multicastTradeDataReceiver, .tradeDataSequencer,
        .tradeRecoveryManager, .recvQueue_, .sendQueue_} := rfl
  rw [huniv]
  simp [add_assoc]

theorem partition_iff_occurrences (pipeline : Pipeline poolMsgCount) :
    Partition pipeline.free pipeline.slotsAt ↔
      ∀ slot, pipeline.occurrences slot = 1 := by
  rw [partition_iff_count]
  apply forall_congr'
  intro slot
  rw [sum_places]
  simp only [occurrences, slotsAt, add_assoc]

/-- What the routine has in hand at a step that can drop it. -/
def inHand (pipeline : Pipeline poolMsgCount) :
    PipelineAction → List (Fin poolMsgCount)
  | .receiver .allocate | .sequencer .allocate => []
  | .receiver _ => pipeline.receiver.held
  | .sequencer .forward => pipeline.sequencer.held
  | .sequencer .forwardRecovered => pipeline.sequencer.recoveryHeld
  | .sequencer _ => pipeline.sequencer.held ++ pipeline.sequencer.recoveryHeld

def dropped (recvCapacity sendCapacity : ℕ)
    (pipeline : Pipeline poolMsgCount) (action : PipelineAction) :
    List (Fin poolMsgCount) :=
  if pipeline.Passes recvCapacity sendCapacity action then []
  else pipeline.inHand action

/-! ## What one step can do -/

variable {pipeline next : Pipeline poolMsgCount}

theorem held_receiveRecoveryMessages (pending : Fin poolMsgCount)
    (messagesReceived numMessages : UInt64) :
    (receiveRecoveryMessages pending messagesReceived numMessages).held =
        [pending] ∧
      (receiveRecoveryMessages pending messagesReceived
        numMessages).recoveryHeld = [] := by
  unfold receiveRecoveryMessages
  by_cases hmore : messagesReceived < numMessages
  · rw [if_pos hmore]
    exact ⟨rfl, rfl⟩
  · rw [if_neg hmore]
    exact ⟨rfl, rfl⟩

theorem held_onMulticastMsg (msg : Fin poolMsgCount) :
    (pipeline.onMulticastMsg msg).held = [msg] ∧
      (pipeline.onMulticastMsg msg).recoveryHeld = [] := by
  unfold onMulticastMsg
  dsimp only
  by_cases hgap : (pipeline.memory msg).sequence_number >
      pipeline.nextSequence_
  · rw [if_pos hgap]
    exact ⟨rfl, rfl⟩
  · by_cases hold : (pipeline.memory msg).sequence_number <
        pipeline.nextSequence_
    · rw [if_neg hgap, if_pos hold]
      exact ⟨rfl, rfl⟩
    · rw [if_neg hgap, if_neg hold]
      exact ⟨rfl, rfl⟩

/-- The steps of `MulticastTradeDataReceiver::run`. -/
inductive ReceiverStep (recvCapacity : ℕ) (pipeline : Pipeline poolMsgCount) :
    ReceiverAction → Pipeline poolMsgCount → Prop
  | stopped (hlooping : pipeline.receiver = .looping) :
      ReceiverStep recvCapacity pipeline .stop
        { pipeline with receiver := .stopped }
  | overran (hlooping : pipeline.receiver = .looping)
      (hfree : pipeline.free = []) :
      ReceiverStep recvCapacity pipeline .allocate
        { pipeline with outOfBounds := true }
  | allocated {msg : Fin poolMsgCount} {free : List (Fin poolMsgCount)}
      (hlooping : pipeline.receiver = .looping)
      (hfree : pipeline.free = msg :: free) :
      ReceiverStep recvCapacity pipeline .allocate
        { pipeline with free := free, receiver := .receiving msg }
  | failed {msg : Fin poolMsgCount}
      (hreceiving : pipeline.receiver = .receiving msg) :
      ReceiverStep recvCapacity pipeline .recvFailed
        { pipeline with receiver := .failed msg }
  | received {msg : Fin poolMsgCount} {content : ITCHTradeMsg}
      (hreceiving : pipeline.receiver = .receiving msg) :
      ReceiverStep recvCapacity pipeline (.recvDatagram content)
        { pipeline with
          memory := Function.update pipeline.memory msg content
          receiver := .received msg }
  | deallocated {msg : Fin poolMsgCount}
      (hfailed : pipeline.receiver = .failed msg) :
      ReceiverStep recvCapacity pipeline .deallocate
        { pipeline with
          free := msg :: pipeline.free
          receiver := .looping }
  | enqueued {msg : Fin poolMsgCount}
      (hreceived : pipeline.receiver = .received msg) :
      ReceiverStep recvCapacity pipeline .enqueue
        { pipeline with
          recvQueue_ := (enqueue recvCapacity pipeline.recvQueue_ msg).1
          receiver := .looping }

theorem receiverStep_of_step {action : ReceiverAction}
    (hstep : pipeline.stepReceiver recvCapacity action = some next) :
    ReceiverStep recvCapacity pipeline action next := by
  cases hreceiver : pipeline.receiver <;> cases action <;>
    simp only [stepReceiver, hreceiver, reduceCtorEq] at hstep
  case looping.allocate =>
    split at hstep
    next hfree =>
      cases hstep
      rw [← hreceiver]
      exact .overran hreceiver hfree
    next msg free hfree =>
      cases hstep
      exact .allocated hreceiver hfree
  case looping.stop =>
    cases hstep
    exact .stopped hreceiver
  case receiving.recvFailed msg =>
    cases hstep
    exact .failed hreceiver
  case receiving.recvDatagram msg content =>
    cases hstep
    exact .received hreceiver
  case failed.deallocate msg =>
    cases hstep
    exact .deallocated hreceiver
  case received.enqueue msg =>
    cases hstep
    exact .enqueued hreceiver

/-- The steps of `TradeDataSequencer::run`.  `moved` stands for those that
leave all slots where they are. -/
inductive SequencerStep (sendCapacity : ℕ)
    (pipeline : Pipeline poolMsgCount) :
    SequencerAction → Pipeline poolMsgCount → Prop
  | moved {action : SequencerAction} {sequencer : Sequencer poolMsgCount}
      {memory : Fin poolMsgCount → ITCHTradeMsg}
      (hheld : sequencer.held = pipeline.sequencer.held)
      (hrecovery : sequencer.recoveryHeld = pipeline.sequencer.recoveryHeld)
      (hpasses : ∀ recvCapacity,
        pipeline.Passes recvCapacity sendCapacity (.sequencer action)) :
      SequencerStep sendCapacity pipeline action
        { pipeline with memory := memory, sequencer := sequencer }
  | dequeued {msg : Fin poolMsgCount} {rest : List (Fin poolMsgCount)}
      (hdequeueing : pipeline.sequencer = .dequeueing)
      (hqueue : pipeline.recvQueue_ = msg :: rest) :
      SequencerStep sendCapacity pipeline .dequeue
        { pipeline with
          recvQueue_ := rest
          sequencer := pipeline.onMulticastMsg msg }
  | deallocatedOld {msg : Fin poolMsgCount}
      (hold : pipeline.sequencer = .old msg) :
      SequencerStep sendCapacity pipeline .deallocateOld
        { pipeline with
          free := msg :: pipeline.free
          sequencer := .dequeueing }
  | forwarded {msg : Fin poolMsgCount}
      (hforwarding : pipeline.sequencer = .forwarding msg) :
      SequencerStep sendCapacity pipeline .forward
        (pipeline.send sendCapacity msg .dequeueing)
  | overran (hfree : pipeline.free = []) :
      SequencerStep sendCapacity pipeline .allocate
        { pipeline with outOfBounds := true }
  | allocated {pending msg : Fin poolMsgCount}
      {messagesReceived numMessages : UInt64}
      {free : List (Fin poolMsgCount)}
      (hreceiving : pipeline.sequencer =
        .receiving pending messagesReceived numMessages)
      (hfree : pipeline.free = msg :: free) :
      SequencerStep sendCapacity pipeline .allocate
        { pipeline with
          free := free
          sequencer := .reading pending messagesReceived numMessages msg }
  | deallocated {pending msg : Fin poolMsgCount}
      {messagesReceived numMessages : UInt64} {closed : Bool}
      {sequencer : Sequencer poolMsgCount}
      (hfailed : pipeline.sequencer =
        .failed pending messagesReceived numMessages msg closed)
      (hheld : sequencer.held = [pending])
      (hrecovery : sequencer.recoveryHeld = []) :
      SequencerStep sendCapacity pipeline .deallocate
        { pipeline with
          free := msg :: pipeline.free
          sequencer := sequencer }
  | forwardedRecovered {pending msg : Fin poolMsgCount}
      {messagesReceived numMessages : UInt64}
      (hrecovered : pipeline.sequencer =
        .recovered pending messagesReceived numMessages msg) :
      SequencerStep sendCapacity pipeline .forwardRecovered
        (pipeline.send sendCapacity msg (receiveRecoveryMessages pending
          (messagesReceived + 1) numMessages))
  | threw {action : SequencerAction} {pending : Fin poolMsgCount}
      {what : String} {memory : Fin poolMsgCount → ITCHTradeMsg}
      (hheld : pipeline.sequencer.held = [pending])
      (hhand : pipeline.inHand (.sequencer action) =
        pipeline.sequencer.held ++ pipeline.sequencer.recoveryHeld)
      (hpasses : ∀ recvCapacity,
        ¬ pipeline.Passes recvCapacity sendCapacity (.sequencer action)) :
      SequencerStep sendCapacity pipeline action
        { pipeline with memory := memory, sequencer := .terminated what }

theorem sequencerStep_of_step {action : SequencerAction}
    (hstep : pipeline.stepSequencer sendCapacity action = some next) :
    SequencerStep sendCapacity pipeline action next := by
  cases hsequencer : pipeline.sequencer <;> cases action <;>
    simp only [stepSequencer, hsequencer, reduceCtorEq] at hstep
  case dequeueing.stop =>
    cases hstep
    exact .moved (by rw [hsequencer]; rfl) (by rw [hsequencer]; rfl)
      fun _ => trivial
  case dequeueing.dequeue =>
    split at hstep
    next =>
      cases hstep
      exact .moved rfl rfl fun _ => trivial
    next msg rest hqueue =>
      cases hstep
      exact .dequeued hsequencer hqueue
  case old.deallocateOld msg =>
    cases hstep
    exact .deallocatedOld hsequencer
  case forwarding.forward msg =>
    cases hstep
    exact .forwarded hsequencer
  case requesting.requestSent pending startSeq endSeq =>
    cases hstep
    rcases held_receiveRecoveryMessages pending 0 (endSeq - startSeq + 1)
      with ⟨hheld, hrecovery⟩
    exact .moved (by rw [hsequencer, hheld]; rfl)
      (by rw [hsequencer, hrecovery]; rfl) fun _ => trivial
  case requesting.requestFailed pending startSeq endSeq what =>
    cases hstep
    exact .threw (by rw [hsequencer]; rfl) rfl fun _ hpasses => hpasses
  case receiving.timeout =>
    cases hstep
    exact .moved rfl rfl fun _ => trivial
  case receiving.notResponded pending messagesReceived numMessages =>
    cases hstep
    exact .moved (by rw [hsequencer]; rfl) (by rw [hsequencer]; rfl)
      fun _ => trivial
  case receiving.allocate pending messagesReceived numMessages =>
    split at hstep
    next hfree =>
      cases hstep
      rw [← hsequencer]
      exact .overran hfree
    next msg free hfree =>
      cases hstep
      exact .allocated hsequencer hfree
  case reading.recvPartial =>
    cases hstep
    exact .moved (by rw [hsequencer]; rfl) (by rw [hsequencer]; rfl)
      fun _ => trivial
  case reading.recvClosed =>
    cases hstep
    exact .moved (by rw [hsequencer]; rfl) (by rw [hsequencer]; rfl)
      fun _ => trivial
  case reading.recvRecord pending messagesReceived numMessages msg content =>
    by_cases hnumber : content.sequence_number = pipeline.nextSequence_
    · rw [if_neg (not_not.mpr hnumber)] at hstep
      cases hstep
      exact .moved (by rw [hsequencer]; rfl) (by rw [hsequencer]; rfl)
        fun _ => hnumber
    · rw [if_pos hnumber] at hstep
      cases hstep
      exact .threw (by rw [hsequencer]; rfl) rfl
        fun _ hpasses => hnumber hpasses
  case failed.deallocate pending messagesReceived numMessages msg closed =>
    cases hstep
    cases closed with
    | true => exact .deallocated hsequencer rfl rfl
    | false =>
        rcases held_receiveRecoveryMessages pending messagesReceived
          numMessages with ⟨hheld, hrecovery⟩
        exact .deallocated hsequencer hheld hrecovery
  case recovered.forwardRecovered pending messagesReceived numMessages msg =>
    cases hstep
    exact .forwardedRecovered hsequencer

/-! ## Slots are moved or dropped -/

theorem enqueue_count (capacity : ℕ) (queue : List (Fin poolMsgCount))
    (msg slot : Fin poolMsgCount) :
    (enqueue capacity queue msg).1.count slot +
        (if queue.length < capacity then [] else [msg]).count slot =
      queue.count slot + [msg].count slot := by
  unfold enqueue
  by_cases hroom : queue.length < capacity
  · simp [hroom, List.count_append]
  · simp [hroom]

theorem dropped_of_passes {action : PipelineAction}
    (hpasses : pipeline.Passes recvCapacity sendCapacity action) :
    pipeline.dropped recvCapacity sendCapacity action = [] :=
  if_pos hpasses

theorem ReceiverStep.occurrences {action : ReceiverAction}
    (hstep : ReceiverStep recvCapacity pipeline action next)
    (slot : Fin poolMsgCount) :
    next.occurrences slot +
        (pipeline.dropped recvCapacity sendCapacity
          (.receiver action)).count slot =
      pipeline.occurrences slot := by
  cases hstep with
  | stopped hlooping =>
      simp [dropped, Passes, Pipeline.occurrences, hlooping, Receiver.held]
  | overran hlooping hfree =>
      simp [dropped, inHand, Pipeline.occurrences]
  | allocated hlooping hfree =>
      simp [dropped, Passes, Pipeline.occurrences, hlooping, hfree,
        Receiver.held, List.count_cons]
  | failed hreceiving | received hreceiving =>
      simp [dropped, Passes, Pipeline.occurrences, hreceiving, Receiver.held]
  | deallocated hfailed =>
      simp [dropped, Passes, Pipeline.occurrences, hfailed, Receiver.held,
        List.count_cons]
  | @enqueued msg hreceived =>
      have hqueue := enqueue_count recvCapacity pipeline.recvQueue_ msg slot
      simp only [Pipeline.occurrences, dropped, Passes, inHand, hreceived,
        Receiver.held, List.count_nil] at hqueue ⊢
      omega

theorem SequencerStep.occurrences {action : SequencerAction}
    (hstep : SequencerStep sendCapacity pipeline action next)
    (slot : Fin poolMsgCount) :
    next.occurrences slot +
        (pipeline.dropped recvCapacity sendCapacity
          (.sequencer action)).count slot =
      pipeline.occurrences slot := by
  cases hstep with
  | moved hheld hrecovery hpasses =>
      rw [dropped_of_passes (hpasses recvCapacity)]
      simp only [Pipeline.occurrences, hheld, hrecovery, List.count_nil,
        Nat.add_zero]
  | @dequeued msg rest hdequeueing hqueue =>
      rcases pipeline.held_onMulticastMsg msg with ⟨hheld, hrecovery⟩
      simp only [dropped, Passes, reduceIte, Pipeline.occurrences, hheld,
        hrecovery, hdequeueing, hqueue]
      simp only [Sequencer.held, Sequencer.recoveryHeld, List.count_cons,
        List.count_nil]
      omega
  | deallocatedOld hold =>
      simp only [dropped, Passes, reduceIte, Pipeline.occurrences, hold,
        Sequencer.held, Sequencer.recoveryHeld, List.count_cons,
        List.count_nil]
      omega
  | @forwarded msg hforwarding =>
      have hqueue := enqueue_count sendCapacity pipeline.sendQueue_ msg slot
      simp only [Pipeline.occurrences, dropped, Passes, inHand, send,
        hforwarding, Sequencer.held, Sequencer.recoveryHeld, List.count_nil]
        at hqueue ⊢
      omega
  | overran hfree =>
      simp [dropped, inHand, Pipeline.occurrences]
  | allocated hreceiving hfree =>
      have hpasses : pipeline.Passes recvCapacity sendCapacity
          (.sequencer .allocate) := by
        simp [Passes, hfree]
      rw [dropped_of_passes hpasses]
      simp only [Pipeline.occurrences, hreceiving, hfree, Sequencer.held,
        Sequencer.recoveryHeld, List.count_cons, List.count_nil]
      omega
  | deallocated hfailed hheld hrecovery =>
      simp only [dropped, Passes, reduceIte, Pipeline.occurrences, hheld,
        hrecovery, hfailed]
      simp only [Sequencer.held, Sequencer.recoveryHeld, List.count_cons,
        List.count_nil]
      omega
  | @forwardedRecovered pending msg messagesReceived numMessages hrecovered =>
      have hqueue := enqueue_count sendCapacity pipeline.sendQueue_ msg slot
      rcases held_receiveRecoveryMessages pending (messagesReceived + 1)
        numMessages with ⟨hheld, hrecovery⟩
      simp only [Pipeline.occurrences, send, hrecovered, hheld, hrecovery]
      simp only [dropped, Passes, inHand, hrecovered, Sequencer.held,
        Sequencer.recoveryHeld, List.count_nil] at hqueue ⊢
      omega
  | threw hheld hhand hpasses =>
      unfold dropped
      rw [if_neg (hpasses recvCapacity), hhand, List.count_append]
      simp only [Pipeline.occurrences]
      simp only [Sequencer.held, Sequencer.recoveryHeld, List.count_nil]
      omega

theorem stepThreads_of_step {action : PipelineAction}
    (hstep : pipeline.step recvCapacity sendCapacity action = some next) :
    pipeline.stepThreads recvCapacity sendCapacity action = some next := by
  unfold step at hstep
  split at hstep
  next => cases hstep
  next => exact hstep

theorem step_occurrences {action : PipelineAction}
    (hstep : pipeline.step recvCapacity sendCapacity action = some next)
    (slot : Fin poolMsgCount) :
    next.occurrences slot +
        (pipeline.dropped recvCapacity sendCapacity action).count slot =
      pipeline.occurrences slot := by
  have hthreads := stepThreads_of_step hstep
  cases action with
  | receiver action => exact (receiverStep_of_step hthreads).occurrences slot
  | sequencer action =>
      exact (sequencerStep_of_step hthreads).occurrences slot

/-- A step that does not pass reads out of bounds or drops a slot. -/
theorem outOfBounds_or_exists_mem_dropped {action : PipelineAction}
    (hstep : pipeline.step recvCapacity sendCapacity action = some next)
    (hpasses : ¬ pipeline.Passes recvCapacity sendCapacity action) :
    next.outOfBounds = true ∨
      ∃ slot, slot ∈ pipeline.dropped recvCapacity sendCapacity action := by
  have hthreads := stepThreads_of_step hstep
  unfold dropped
  rw [if_neg hpasses]
  cases action with
  | receiver action =>
      cases receiverStep_of_step hthreads with
      | overran => exact Or.inl rfl
      | @enqueued msg hreceived =>
          exact Or.inr ⟨msg, by simp [inHand, hreceived, Receiver.held]⟩
      | allocated _ hfree => simp [Passes, hfree] at hpasses
      | stopped | failed | received | deallocated =>
          exact absurd trivial hpasses
  | sequencer action =>
      cases sequencerStep_of_step hthreads with
      | moved _ _ hpassed => exact absurd (hpassed recvCapacity) hpasses
      | overran => exact Or.inl rfl
      | @forwarded msg hforwarding =>
          exact Or.inr ⟨msg, by simp [inHand, hforwarding, Sequencer.held]⟩
      | @forwardedRecovered pending msg _ _ hrecovered =>
          exact Or.inr
            ⟨msg, by simp [inHand, hrecovered, Sequencer.recoveryHeld]⟩
      | allocated _ hfree => simp [Passes, hfree] at hpasses
      | @threw _ pending _ _ hheld hhand _ =>
          exact Or.inr ⟨pending, by simp [hhand, hheld]⟩
      | dequeued | deallocatedOld | deallocated =>
          exact absurd trivial hpasses

/-- A step that passes reads nothing out of bounds. -/
theorem defined_step {action : PipelineAction}
    (hstep : pipeline.step recvCapacity sendCapacity action = some next)
    (hpasses : pipeline.Passes recvCapacity sendCapacity action)
    (hdefined : pipeline.outOfBounds = false) :
    next.outOfBounds = false := by
  have hthreads := stepThreads_of_step hstep
  cases action with
  | receiver action =>
      cases receiverStep_of_step hthreads with
      | overran _ hfree => exact absurd hfree hpasses
      | stopped | allocated | failed | received | deallocated | enqueued =>
          exact hdefined
  | sequencer action =>
      cases sequencerStep_of_step hthreads with
      | overran hfree => exact absurd hfree hpasses
      | moved | dequeued | deallocatedOld | forwarded | allocated
      | deallocated | forwardedRecovered | threw => exact hdefined

/-! ## The sequence number -/

/-- The sequence number advances together with `sendQueue_`. -/
theorem send_of_room {msg : Fin poolMsgCount}
    {sequencer : Sequencer poolMsgCount}
    (hroom : pipeline.sendQueue_.length < sendCapacity) {start : UInt64}
    (hnumber : pipeline.nextSequence_ =
      start + UInt64.ofNat pipeline.sendQueue_.length) :
    (pipeline.send sendCapacity msg sequencer).nextSequence_ =
      start + UInt64.ofNat
        (pipeline.send sendCapacity msg sequencer).sendQueue_.length := by
  simp only [send, enqueue, hroom, if_true, List.length_append,
    List.length_singleton, hnumber, UInt64.ofNat_add]
  rw [UInt64.add_assoc]
  rfl

theorem step_nextSequence {action : PipelineAction} {start : UInt64}
    (hstep : pipeline.step recvCapacity sendCapacity action = some next)
    (hpasses : pipeline.Passes recvCapacity sendCapacity action)
    (hnumber : pipeline.nextSequence_ =
      start + UInt64.ofNat pipeline.sendQueue_.length) :
    next.nextSequence_ =
      start + UInt64.ofNat next.sendQueue_.length := by
  have hthreads := stepThreads_of_step hstep
  cases action with
  | receiver action =>
      cases receiverStep_of_step hthreads <;> exact hnumber
  | sequencer action =>
      cases sequencerStep_of_step hthreads with
      | forwarded hforwarding => exact send_of_room hpasses hnumber
      | forwardedRecovered hrecovered => exact send_of_room hpasses hnumber
      | moved | dequeued | deallocatedOld | overran | allocated | deallocated
      | threw => exact hnumber

/-! ## Runs -/

theorem keepsSlots_initial (memory : Fin poolMsgCount → ITCHTradeMsg)
    (start : UInt64) :
    (initial poolMsgCount memory start).KeepsSlots start := by
  constructor
  · rfl
  · apply (partition_iff_occurrences _).mpr
    intro slot
    have hslot : (List.finRange poolMsgCount).count slot = 1 :=
      List.count_eq_one_of_mem (List.nodup_finRange poolMsgCount)
        (List.mem_finRange slot)
    simp [occurrences, initial, Receiver.held, Sequencer.held,
      Sequencer.recoveryHeld, hslot]
  · simp [initial]

theorem keepsSlots_step {start : UInt64} {action : PipelineAction}
    (hkeeps : pipeline.KeepsSlots start)
    (hpasses : pipeline.Passes recvCapacity sendCapacity action)
    (hstep : pipeline.step recvCapacity sendCapacity action = some next) :
    next.KeepsSlots start := by
  constructor
  · exact defined_step hstep hpasses hkeeps.defined
  · apply (partition_iff_occurrences next).mpr
    intro slot
    have hold := (partition_iff_occurrences pipeline).mp hkeeps.partition slot
    have hmoved := step_occurrences hstep slot
    unfold dropped at hmoved
    rw [if_pos hpasses, List.count_nil, Nat.add_zero] at hmoved
    exact hmoved.trans hold
  · exact step_nextSequence hstep hpasses hkeeps.nextSequence_eq

/-- A dropped slot is at no place, and a read out of bounds ends the run. -/
theorem not_keepsSlots_step {start : UInt64} {action : PipelineAction}
    (hkeeps : pipeline.KeepsSlots start)
    (hpasses : ¬ pipeline.Passes recvCapacity sendCapacity action)
    (hstep : pipeline.step recvCapacity sendCapacity action = some next) :
    ¬ next.KeepsSlots start := by
  intro hnext
  rcases outOfBounds_or_exists_mem_dropped hstep hpasses with
    hread | ⟨slot, hslot⟩
  · exact Bool.noConfusion (hnext.defined.symm.trans hread)
  have hpositive := List.count_pos_iff.mpr hslot
  have hold := (partition_iff_occurrences pipeline).mp hkeeps.partition slot
  have hnew := (partition_iff_occurrences next).mp hnext.partition slot
  have hmoved := step_occurrences hstep slot
  omega

/-- Along a run nothing is read out of bounds, every slot stays in one place
and the sequence number counts the messages placed on `sendQueue_`, if and only
if no step of the run drops a message or allocates from an empty pool. -/
theorem receiverPipeline_keepsSlots_iff
    (memory : Fin poolMsgCount → ITCHTradeMsg) (start : UInt64)
    {actions : List PipelineAction} {last : Pipeline poolMsgCount}
    (hrun : StepSystem.run (step recvCapacity sendCapacity) actions
      (initial poolMsgCount memory start) = some last) :
    StepSystem.AllStates (step recvCapacity sendCapacity) (KeepsSlots start)
        actions (initial poolMsgCount memory start) ↔
      StepSystem.AllAllowed (step recvCapacity sendCapacity)
        (Passes recvCapacity sendCapacity) actions
        (initial poolMsgCount memory start) :=
  StepSystem.allStates_iff_allAllowed (KeepsSlots start)
    (fun _ hkeeps => hkeeps)
    (fun _ _ _ hkeeps hpasses hstep => keepsSlots_step hkeeps hpasses hstep)
    (fun _ _ _ hkeeps hpasses hstep =>
      not_keepsSlots_step hkeeps hpasses hstep)
    (keepsSlots_initial memory start) hrun

/-- One datagram goes from the socket to `sendQueue_`. -/
def passOn (content : ITCHTradeMsg) : List PipelineAction :=
  [.receiver .allocate, .receiver (.recvDatagram content), .receiver .enqueue,
    .sequencer .dequeue, .sequencer .forward]

def tradeNumbered (sequence_number : UInt64) : ITCHTradeMsg :=
  { message_type := 'P', sequence_number := sequence_number, trade_id := 7,
    timestamp := 0, price := 0, quantity := 0, buyer_is_maker := false,
    best_match := true }

/-- The second message finds `sendQueue_` full: its slot is lost and its number
is passed over. -/
theorem receiverPipeline_full_sendQueue :
    ¬ ∀ (poolMsgCount recvCapacity sendCapacity : ℕ)
        (memory : Fin poolMsgCount → ITCHTradeMsg) (start : UInt64)
        (actions : List PipelineAction) (last : Pipeline poolMsgCount),
      StepSystem.run (step recvCapacity sendCapacity) actions
          (initial poolMsgCount memory start) = some last →
        StepSystem.AllStates (step recvCapacity sendCapacity)
          (KeepsSlots start) actions (initial poolMsgCount memory start) := by
  intro hall
  have hlast := (hall 2 1 1 (fun _ => tradeNumbered 0) 0
    (passOn (tradeNumbered 0) ++ passOn (tradeNumbered 1)) _ rfl).last rfl
  have hlost := (partition_iff_occurrences _).mp hlast.partition 0
  exact absurd hlost (by decide)

/-- With room in both queues the message arrives. -/
theorem receiverPipeline_keepsSlots_one :
    StepSystem.AllStates (step 1 1) (KeepsSlots 0)
      (passOn (tradeNumbered 0)) (initial 2 (fun _ => tradeNumbered 0) 0) :=
  (receiverPipeline_keepsSlots_iff (fun _ => tradeNumbered 0) 0
    rfl).mpr (by decide)

end Pipeline
end Ticker
end TradingStudies
