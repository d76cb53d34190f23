import TradingStudies.ReceiverPipelineSlots

/-!
# The sequencer inside the receiver pipeline

`TradeDataSequencer` is modelled twice.  On its own it has records and a
`sendQueue_` that takes everything; in the receiver pipeline it has slots,
which the receiver fills again as soon as they are given back, and a
`sendQueue_` which may be full.  As long as there is room on `sendQueue_`, the
second is an instance of the first: no slot on `sendQueue_` or in the hands of
the sequencer is written by anyone else.

The sequencer on its own forwards a message in the step that receives it.  In
the pipeline this is a step of its own, so a message which is still to be
forwarded counts as forwarded already.
-/

namespace TradingStudies
namespace Ticker

/-- The recovery loop breaks before it has received what it asked for. -/
def PipelineAction.cutsRecovery : PipelineAction → Bool
  | .sequencer .notResponded | .sequencer .recvClosed => true
  | _ => false

namespace Pipeline

variable {poolMsgCount : ℕ} {recvCapacity sendCapacity : ℕ}

/-- The sequencer with nothing under way, its slots read as records. -/
def sequencerAtRest (pipeline : Pipeline poolMsgCount)
    (dropped : List ITCHTradeMsg) : TradeDataSequencer where
  nextSequence_ := pipeline.nextSequence_
  sendQueue_ := pipeline.sendQueue_.map pipeline.memory
  dropped := dropped
  routine := .dequeueing

end Pipeline

/-- The sequencer on its own, where the other one stands. -/
def Sequencer.onItsOwn {poolMsgCount : ℕ}
    (memory : Fin poolMsgCount → ITCHTradeMsg)
    (atRest : TradeDataSequencer) :
    Sequencer poolMsgCount → TradeDataSequencer
  | .dequeueing | .old _ | .stopped => atRest
  | .forwarding msg => atRest.forward (memory msg)
  | .requesting pending startSeq endSeq =>
      { atRest with
        routine := .requesting (memory pending) startSeq endSeq }
  | .receiving pending messagesReceived numMessages
  | .reading pending messagesReceived numMessages _ =>
      { atRest with
        routine := .receiving (memory pending) messagesReceived numMessages }
  | .failed pending messagesReceived numMessages _ closed =>
      if closed then atRest.afterRecovery (memory pending)
      else atRest.receiveRecoveryMessages (memory pending) messagesReceived
        numMessages
  | .recovered pending messagesReceived numMessages msg =>
      (atRest.forward (memory msg)).receiveRecoveryMessages (memory pending)
        (messagesReceived + 1) numMessages
  | .terminated what => { atRest with routine := .terminated what }

namespace Pipeline

open SlotPartition

variable {poolMsgCount : ℕ} {recvCapacity sendCapacity : ℕ}

def toTradeDataSequencer (pipeline : Pipeline poolMsgCount)
    (dropped : List ITCHTradeMsg) : TradeDataSequencer :=
  pipeline.sequencer.onItsOwn pipeline.memory
    (pipeline.sequencerAtRest dropped)

/-- A message is put on `sendQueue_` only while there is room. -/
def FindsRoom (sendCapacity : ℕ) (pipeline : Pipeline poolMsgCount) :
    PipelineAction → Prop
  | .sequencer .forward | .sequencer .forwardRecovered =>
      pipeline.sendQueue_.length < sendCapacity
  | _ => True

instance (sendCapacity : ℕ) (pipeline : Pipeline poolMsgCount) :
    ∀ action, Decidable (FindsRoom sendCapacity pipeline action)
  | .sequencer .forward => inferInstanceAs (Decidable (_ < _))
  | .sequencer .forwardRecovered => inferInstanceAs (Decidable (_ < _))
  | .receiver _ | .sequencer .dequeue | .sequencer .deallocateOld
  | .sequencer .requestSent | .sequencer (.requestFailed _)
  | .sequencer .timeout | .sequencer .notResponded | .sequencer .allocate
  | .sequencer (.recvRecord _) | .sequencer .recvPartial
  | .sequencer .recvClosed | .sequencer .deallocate
  | .sequencer .stop => inferInstanceAs (Decidable True)

/-! ## Slots of the sequencer -/

/-- No slot is at two places. -/
def Exclusive (pipeline : Pipeline poolMsgCount) : Prop :=
  ∀ slot, pipeline.occurrences slot ≤ 1

/-- What the receiver fills is not what the sequencer works with. -/
def ApartFromSequencer (pipeline : Pipeline poolMsgCount)
    (msg : Fin poolMsgCount) : Prop :=
  msg ∉ pipeline.sendQueue_ ∧ msg ∉ pipeline.sequencer.held ∧
    msg ∉ pipeline.sequencer.recoveryHeld

variable {pipeline next : Pipeline poolMsgCount}

theorem exclusive_step {action : PipelineAction}
    (hexclusive : pipeline.Exclusive)
    (hstep : pipeline.step recvCapacity sendCapacity action = some next) :
    next.Exclusive := by
  intro slot
  have hmoved := step_occurrences hstep slot
  have hone := hexclusive slot
  omega

theorem apart_of_receiver (hexclusive : pipeline.Exclusive)
    {msg : Fin poolMsgCount} (hheld : msg ∈ pipeline.receiver.held) :
    pipeline.ApartFromSequencer msg := by
  have hone := hexclusive msg
  have hpositive := List.count_pos_iff.mpr hheld
  unfold occurrences at hone
  refine ⟨?_, ?_, ?_⟩ <;> rw [← List.count_eq_zero] <;> omega

theorem apart_of_recovery (hexclusive : pipeline.Exclusive)
    {msg : Fin poolMsgCount} (hheld : msg ∈ pipeline.sequencer.recoveryHeld) :
    msg ∉ pipeline.sendQueue_ ∧ msg ∉ pipeline.sequencer.held := by
  have hone := hexclusive msg
  have hpositive := List.count_pos_iff.mpr hheld
  unfold occurrences at hone
  refine ⟨?_, ?_⟩ <;> rw [← List.count_eq_zero] <;> omega

/-- The sequencer does not see what is written into a slot apart from its
own. -/
theorem toTradeDataSequencer_update {msg : Fin poolMsgCount}
    (hapart : pipeline.ApartFromSequencer msg) (content : ITCHTradeMsg)
    (receiver : Receiver poolMsgCount) (dropped : List ITCHTradeMsg) :
    ({ pipeline with
        memory := Function.update pipeline.memory msg content
        receiver := receiver }).toTradeDataSequencer dropped =
      pipeline.toTradeDataSequencer dropped := by
  obtain ⟨hsend, hheld, hrecovery⟩ := hapart
  have hsent := map_update_of_notMem pipeline.memory hsend content
  have hother : ∀ {slot : Fin poolMsgCount}, ¬ msg = slot →
      Function.update pipeline.memory msg content slot =
        pipeline.memory slot :=
    fun hne => Function.update_of_ne (Ne.symm hne) _ _
  unfold toTradeDataSequencer sequencerAtRest
  dsimp only
  rw [hsent]
  cases hsequencer : pipeline.sequencer <;>
    simp only [hsequencer, Sequencer.held, Sequencer.recoveryHeld,
      List.mem_singleton] at hheld hrecovery <;>
    simp only [Sequencer.onItsOwn, hother, hheld, hrecovery,
      not_false_eq_true]

/-! ## Steps -/

theorem stepReceiver_toTradeDataSequencer (hexclusive : pipeline.Exclusive)
    {action : ReceiverAction}
    (hstep : pipeline.stepReceiver recvCapacity action = some next)
    (dropped : List ITCHTradeMsg) :
    next.toTradeDataSequencer dropped =
      pipeline.toTradeDataSequencer dropped := by
  cases receiverStep_of_step hstep with
  | @received msg content hreceiving =>
      have hheld : msg ∈ pipeline.receiver.held := by
        rw [hreceiving]
        exact List.mem_singleton_self msg
      exact toTradeDataSequencer_update (apart_of_receiver hexclusive hheld)
        content (.received msg) dropped
  | stopped | overran | allocated | failed | deallocated | enqueued => rfl

/-- Both loops begin alike. -/
theorem toTradeDataSequencer_receiveRecoveryMessages
    (pipeline : Pipeline poolMsgCount) (pending : Fin poolMsgCount)
    (messagesReceived numMessages : UInt64) (dropped : List ITCHTradeMsg) :
    ({ pipeline with
        sequencer := receiveRecoveryMessages pending messagesReceived
          numMessages }).toTradeDataSequencer dropped =
      (pipeline.sequencerAtRest dropped).receiveRecoveryMessages
        (pipeline.memory pending) messagesReceived numMessages := by
  unfold receiveRecoveryMessages
    TradeDataSequencer.receiveRecoveryMessages
  by_cases hmore : messagesReceived < numMessages
  · simp only [if_pos hmore]
    rfl
  · simp only [if_neg hmore]
    rfl

/-- With room, `send` forwards the record in the slot. -/
theorem sequencerAtRest_send {msg : Fin poolMsgCount}
    (hroom : pipeline.sendQueue_.length < sendCapacity)
    (sequencer : Sequencer poolMsgCount) (dropped : List ITCHTradeMsg) :
    (pipeline.send sendCapacity msg sequencer).sequencerAtRest dropped =
      (pipeline.sequencerAtRest dropped).forward (pipeline.memory msg) := by
  simp [sequencerAtRest, send, Ticker.enqueue, hroom,
    TradeDataSequencer.forward]

theorem onMulticastMsg_toTradeDataSequencer
    (pipeline : Pipeline poolMsgCount) (msg : Fin poolMsgCount)
    (dropped : List ITCHTradeMsg) :
    ∃ dropped', ({ pipeline with
        sequencer := pipeline.onMulticastMsg msg }).toTradeDataSequencer
          dropped' =
      (pipeline.sequencerAtRest dropped).onMulticastMsg
        (pipeline.memory msg) := by
  unfold onMulticastMsg TradeDataSequencer.onMulticastMsg
  dsimp only
  by_cases hgap : (pipeline.memory msg).sequence_number >
      pipeline.nextSequence_
  · refine ⟨dropped, ?_⟩
    rw [if_pos hgap, if_pos (by exact hgap)]
    rfl
  · by_cases hold : (pipeline.memory msg).sequence_number <
        pipeline.nextSequence_
    · refine ⟨dropped ++ [pipeline.memory msg], ?_⟩
      rw [if_neg hgap, if_pos hold, if_neg (by exact hgap),
        if_pos (by exact hold)]
      rfl
    · refine ⟨dropped, ?_⟩
      rw [if_neg hgap, if_neg hold, if_neg (by exact hgap),
        if_neg (by exact hold)]
      rfl

/-- A step of the sequencing thread is a step of the sequencer on its own, or
one which that has taken already. -/
theorem stepSequencer_toTradeDataSequencer (hexclusive : pipeline.Exclusive)
    {action : SequencerAction}
    (hroom : FindsRoom sendCapacity pipeline (.sequencer action))
    (hstep : pipeline.stepSequencer sendCapacity action = some next)
    (dropped : List ITCHTradeMsg) :
    ∃ dropped', next.toTradeDataSequencer dropped' =
        pipeline.toTradeDataSequencer dropped ∨
      ∃ event : Event,
        event.cutsRecovery =
          (PipelineAction.sequencer action).cutsRecovery ∧
        (pipeline.toTradeDataSequencer dropped).step event =
          some (next.toTradeDataSequencer dropped') := by
  unfold toTradeDataSequencer
  cases hsequencer : pipeline.sequencer <;> cases action <;>
    simp only [stepSequencer, hsequencer, reduceCtorEq] at hstep
  case dequeueing.stop =>
    cases hstep
    exact ⟨dropped, Or.inl rfl⟩
  case dequeueing.dequeue =>
    split at hstep
    next =>
      cases hstep
      exact ⟨dropped, Or.inl (by rw [hsequencer])⟩
    next msg rest hqueue =>
      cases hstep
      obtain ⟨dropped', hmulticast⟩ :=
        pipeline.onMulticastMsg_toTradeDataSequencer msg dropped
      refine ⟨dropped', Or.inr ⟨.multicast (pipeline.memory msg), rfl, ?_⟩⟩
      exact congrArg some hmulticast.symm
  case old.deallocateOld msg =>
    cases hstep
    exact ⟨dropped, Or.inl rfl⟩
  case forwarding.forward msg =>
    cases hstep
    exact ⟨dropped, Or.inl (sequencerAtRest_send hroom .dequeueing dropped)⟩
  case requesting.requestSent pending startSeq endSeq =>
    cases hstep
    refine ⟨dropped, Or.inr ⟨.requestSent, rfl, ?_⟩⟩
    exact congrArg some (pipeline.toTradeDataSequencer_receiveRecoveryMessages
      pending 0 (endSeq - startSeq + 1) dropped).symm
  case requesting.requestFailed pending startSeq endSeq what =>
    cases hstep
    exact ⟨dropped, Or.inr ⟨.requestFailed what, rfl, rfl⟩⟩
  case receiving.timeout =>
    cases hstep
    exact ⟨dropped, Or.inl (by rw [hsequencer])⟩
  case receiving.notResponded pending messagesReceived numMessages =>
    cases hstep
    exact ⟨dropped, Or.inr ⟨.recovery .notResponded, rfl, rfl⟩⟩
  case receiving.allocate pending messagesReceived numMessages =>
    refine ⟨dropped, Or.inl ?_⟩
    split at hstep <;> cases hstep <;> rfl
  case reading.recvPartial pending messagesReceived numMessages msg =>
    cases hstep
    exact ⟨dropped, Or.inr ⟨.recovery .partialRecord, rfl, rfl⟩⟩
  case reading.recvClosed pending messagesReceived numMessages msg =>
    cases hstep
    exact ⟨dropped, Or.inr ⟨.recovery .closed, rfl, rfl⟩⟩
  case reading.recvRecord pending messagesReceived numMessages msg content =>
    refine ⟨dropped, Or.inr ⟨.recovery (.record content), rfl, ?_⟩⟩
    -- The slot of the record is neither on `sendQueue_` nor the pending one.
    have hhand : msg ∈ pipeline.sequencer.recoveryHeld := by
      rw [hsequencer]
      exact List.mem_singleton_self msg
    obtain ⟨hsend, hheld⟩ := apart_of_recovery hexclusive hhand
    have hne : pending ≠ msg := by
      rintro rfl
      rw [hsequencer] at hheld
      exact hheld (List.mem_singleton_self pending)
    have hsent := map_update_of_notMem pipeline.memory hsend content
    by_cases hnumber : content.sequence_number = pipeline.nextSequence_
    · rw [if_neg (not_not.mpr hnumber)] at hstep
      cases hstep
      simp only [Sequencer.onItsOwn, sequencerAtRest, TradeDataSequencer.step,
        TradeDataSequencer.onRecvEvent, TradeDataSequencer.onRecoveredMsg,
        hnumber, hsent, Function.update_self, Function.update_of_ne hne,
        ne_eq, not_true_eq_false, if_false]
      rfl
    · rw [if_pos hnumber] at hstep
      cases hstep
      simp only [Sequencer.onItsOwn, sequencerAtRest, TradeDataSequencer.step,
        TradeDataSequencer.onRecvEvent, TradeDataSequencer.onRecoveredMsg,
        hnumber, hsent, ne_eq, not_false_eq_true, if_true]
  case failed.deallocate pending messagesReceived numMessages msg closed =>
    cases hstep
    refine ⟨dropped, Or.inl ?_⟩
    cases closed with
    | true => rfl
    | false =>
        exact pipeline.toTradeDataSequencer_receiveRecoveryMessages pending
          messagesReceived numMessages dropped
  case recovered.forwardRecovered pending messagesReceived numMessages msg =>
    cases hstep
    refine ⟨dropped, Or.inl ?_⟩
    have hloop := toTradeDataSequencer_receiveRecoveryMessages
      (pipeline.send sendCapacity msg .dequeueing) pending
      (messagesReceived + 1) numMessages dropped
    rw [sequencerAtRest_send hroom] at hloop
    exact hloop

/-! ## Runs -/

theorem exclusive_initial (memory : Fin poolMsgCount → ITCHTradeMsg)
    (start : UInt64) : (initial poolMsgCount memory start).Exclusive := by
  have hpartition := (keepsSlots_initial memory start).partition
  intro slot
  exact ((partition_iff_occurrences _).mp hpartition slot).le

/-- As long as each message that is forwarded finds room, the sequencing thread
of the pipeline is the sequencer on its own.  `Good` lets a run be confined to
recoveries that are not cut short. -/
theorem reachable_toTradeDataSequencer (Good : Bool → Prop)
    (memory : Fin poolMsgCount → ITCHTradeMsg) (start : UInt64)
    (hreach : StepSystem.Reachable (step recvCapacity sendCapacity)
      (fun pipeline action =>
        FindsRoom sendCapacity pipeline action ∧ Good action.cutsRecovery)
      (initial poolMsgCount memory start) pipeline) :
    ∃ dropped, StepSystem.Reachable TradeDataSequencer.step
      (fun _ event => Good event.cutsRecovery) (.fresh start)
      (pipeline.toTradeDataSequencer dropped) := by
  have hinv : pipeline.Exclusive ∧
      ∃ dropped, StepSystem.Reachable TradeDataSequencer.step
        (fun _ event => Good event.cutsRecovery) (.fresh start)
        (pipeline.toTradeDataSequencer dropped) := by
    apply hreach.invariant ⟨exclusive_initial memory start, [], .refl⟩
    rintro pipeline next action ⟨hexclusive, dropped, hsequencer⟩
      ⟨hroom, hgood⟩ hstep
    refine ⟨exclusive_step hexclusive hstep, ?_⟩
    have hthreads := stepThreads_of_step hstep
    cases action with
    | receiver action =>
        refine ⟨dropped, ?_⟩
        rw [stepReceiver_toTradeDataSequencer hexclusive hthreads dropped]
        exact hsequencer
    | sequencer action =>
        obtain ⟨dropped', hsame | ⟨event, hcuts, hevent⟩⟩ :=
          stepSequencer_toTradeDataSequencer hexclusive hroom hthreads dropped
        · refine ⟨dropped', ?_⟩
          rw [hsame]
          exact hsequencer
        · refine ⟨dropped', hsequencer.tail ?_ hevent⟩
          rw [hcuts]
          exact hgood
  exact hinv.2

/-- The sequencer on its own may have forwarded more already. -/
def Ahead (behind sequencer : TradeDataSequencer) : Prop :=
  ∃ more, sequencer.sendQueue_ = behind.sendQueue_ ++ more ∧
    sequencer.nextSequence_ = behind.nextSequence_ + UInt64.ofNat more.length

variable {behind sequencer : TradeDataSequencer}

theorem ahead_of_same (hsend : sequencer.sendQueue_ = behind.sendQueue_)
    (hnext : sequencer.nextSequence_ = behind.nextSequence_) :
    Ahead behind sequencer :=
  ⟨[], by rw [hsend, List.append_nil], by simp [hnext]⟩

theorem Ahead.forward (hahead : Ahead behind sequencer)
    (msg : ITCHTradeMsg) : Ahead behind (sequencer.forward msg) := by
  obtain ⟨more, hsend, hnext⟩ := hahead
  refine ⟨more ++ [msg], ?_, ?_⟩
  · simp only [TradeDataSequencer.forward, hsend, List.append_assoc]
  · simp only [TradeDataSequencer.forward, hnext, List.length_append,
      List.length_singleton, UInt64.ofNat_add, UInt64.add_assoc]
    rfl

theorem Ahead.receiveRecoveryMessages (hahead : Ahead behind sequencer)
    (pending : ITCHTradeMsg) (messagesReceived numMessages : UInt64) :
    Ahead behind (sequencer.receiveRecoveryMessages pending messagesReceived
      numMessages) := by
  unfold TradeDataSequencer.receiveRecoveryMessages
  by_cases hmore : messagesReceived < numMessages
  · rw [if_pos hmore]
    exact hahead
  · rw [if_neg hmore]
    exact hahead.forward pending

theorem toTradeDataSequencer_ahead (pipeline : Pipeline poolMsgCount)
    (dropped : List ITCHTradeMsg) :
    Ahead (pipeline.sequencerAtRest dropped)
      (pipeline.toTradeDataSequencer dropped) := by
  have hrest : Ahead (pipeline.sequencerAtRest dropped)
      (pipeline.sequencerAtRest dropped) := ahead_of_same rfl rfl
  unfold toTradeDataSequencer
  cases pipeline.sequencer with
  | dequeueing | old | stopped | requesting | receiving | reading
  | terminated => exact ahead_of_same rfl rfl
  | forwarding msg => exact hrest.forward _
  | failed pending messagesReceived numMessages msg closed =>
      cases closed with
      | true => exact hrest.forward _
      | false => exact hrest.receiveRecoveryMessages _ _ _
  | recovered pending messagesReceived numMessages msg =>
      exact (hrest.forward _).receiveRecoveryMessages _ _ _

/-- What was forwarded before is in sequence as well. -/
theorem Ahead.inSequence {start : UInt64} (hahead : Ahead behind sequencer)
    (hseq : TradeDataSequencer.InSequence start sequencer) :
    TradeDataSequencer.InSequence start behind := by
  obtain ⟨more, hsend, hnext⟩ := hahead
  constructor
  · intro index hindex
    have hlonger : index < sequencer.sendQueue_.length := by
      rw [hsend, List.length_append]
      omega
    have hnumber := hseq.consecutive index hlonger
    simp only [hsend, List.getElem_append_left hindex] at hnumber
    exact hnumber
  · have hlast := hseq.next
    rw [hnext, hsend, List.length_append, UInt64.ofNat_add,
      ← UInt64.add_assoc] at hlast
    exact UInt64.add_left_inj _ |>.mp hlast

theorem inSequence_of_reachable {start : UInt64}
    (hreach : StepSystem.Reachable TradeDataSequencer.step
      (fun _ event => event.cutsRecovery = false) (.fresh start) sequencer) :
    TradeDataSequencer.InSequence start sequencer := by
  have hinv : TradeDataSequencer.InSequence start sequencer ∧
      sequencer.Counting := by
    apply hreach.invariant ⟨TradeDataSequencer.fresh_inSequence start,
      TradeDataSequencer.fresh_counting start⟩
    intro sequencer next event hinv hcut hstep
    exact TradeDataSequencer.step_inSequence hcut hinv.1 hinv.2 hstep
  exact hinv.1

/-- Whatever the datagrams, the interleaving and the recycling of the slots, up
to the first `allocate` that finds the pool empty: as long as each message that
is forwarded finds room and no recovery is cut short, the records on
`sendQueue_` are numbered from `start` on without a gap, and `nextSequence_` is
the number after them. -/
theorem receiverPipeline_inSequence
    (memory : Fin poolMsgCount → ITCHTradeMsg) (start : UInt64)
    (hreach : StepSystem.Reachable (step recvCapacity sendCapacity)
      (fun pipeline action => FindsRoom sendCapacity pipeline action ∧
        action.cutsRecovery = false)
      (initial poolMsgCount memory start) pipeline) :
    (∀ (index : ℕ) (hindex : index < pipeline.sendQueue_.length),
      (pipeline.memory pipeline.sendQueue_[index]).sequence_number =
        start + UInt64.ofNat index) ∧
      pipeline.nextSequence_ =
        start + UInt64.ofNat pipeline.sendQueue_.length := by
  obtain ⟨dropped, hsequencer⟩ := reachable_toTradeDataSequencer
    (fun cuts => cuts = false) memory start hreach
  have hseq := (pipeline.toTradeDataSequencer_ahead dropped).inSequence
    (inSequence_of_reachable hsequencer)
  have hlength : (pipeline.sequencerAtRest dropped).sendQueue_.length =
      pipeline.sendQueue_.length := List.length_map _
  constructor
  · intro index hindex
    have hnumber := hseq.consecutive index (by omega)
    simp only [sequencerAtRest, List.getElem_map] at hnumber
    exact hnumber
  · rw [← hlength]
    exact hseq.next

/-- Message 0 goes through the pipeline, then message 2 opens a gap; message 1
is recovered in a slot of its own, while the receiver fills the third. -/
def recoverOne : List PipelineAction :=
  passOn (tradeNumbered 0) ++
    [.receiver .allocate, .receiver (.recvDatagram (tradeNumbered 2)),
      .receiver .enqueue, .sequencer .dequeue, .sequencer .requestSent,
      .receiver .allocate, .sequencer .allocate, .sequencer .recvPartial,
      .sequencer .deallocate, .sequencer .allocate,
      .sequencer (.recvRecord (tradeNumbered 1)),
      .receiver (.recvDatagram (tradeNumbered 2)),
      .sequencer .forwardRecovered, .sequencer .forward, .receiver .enqueue,
      .sequencer .dequeue, .sequencer .deallocateOld]

theorem receiverPipeline_inSequence_recoverOne :
    ∃ last : Pipeline 4,
      StepSystem.run (step 1 4) recoverOne
          (initial 4 (fun _ => tradeNumbered 9) 0) = some last ∧
        last.sendQueue_.map
            (fun msg => (last.memory msg).sequence_number) = [0, 1, 2] ∧
        last.nextSequence_ = 0 + UInt64.ofNat last.sendQueue_.length := by
  have hallowed : StepSystem.AllAllowed (step 1 4)
      (fun pipeline action => FindsRoom 4 pipeline action ∧
        action.cutsRecovery = false)
      recoverOne (initial 4 (fun _ => tradeNumbered 9) 0) := by
    decide
  refine ⟨_, rfl, rfl, ?_⟩
  exact (receiverPipeline_inSequence (fun _ => tradeNumbered 9) 0
    (StepSystem.reachable_of_run rfl hallowed)).2

end Pipeline
end Ticker
end TradingStudies
