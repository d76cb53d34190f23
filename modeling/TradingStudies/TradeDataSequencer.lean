import TradingStudies.Library.StepSystem
import TradingStudies.TickerServer

/-!
# The trade data sequencer

`TradeDataSequencer::run` and the recovery it calls are one thread.  The model
stops where that thread waits for its surroundings: for a message of
`recvQueue_`, for the request to be sent, and for the answers of `epoll_wait`
and `recv`.  Between two such points the code runs without interruption, so
one event carries it from one to the next.  There is room on `sendQueue_` for
every message; the receiver pipeline has the same thread with a queue that may
be full.

The second half of the file settles when the forwarded messages stay in
sequence.  A recovery that breaks out of its loop reports nothing to `run`,
which then forwards the pending message although the gap before it is open.
-/

namespace TradingStudies
namespace Ticker

/-- What one turn of the receive loop meets: `epoll_wait` times out or fails,
or `recv` returns a whole record, a shorter count, or at most zero. -/
inductive RecvEvent
  | timeout
  | notResponded
  | record (msg : ITCHTradeMsg)
  | partialRecord
  | closed
  deriving DecidableEq, Repr

/-- Where the thread waits. -/
inductive Routine
  | dequeueing
  | requesting (pending : ITCHTradeMsg) (startSeq endSeq : UInt64)
  | receiving (pending : ITCHTradeMsg) (messagesReceived numMessages : UInt64)
  | terminated (what : String)
  deriving DecidableEq, Repr

/-- `sendQueue_` lists everything ever put on the queue and `dropped` the
multicast messages that went back to the pool. -/
structure TradeDataSequencer where
  nextSequence_ : UInt64
  sendQueue_ : List ITCHTradeMsg
  dropped : List ITCHTradeMsg
  routine : Routine
  deriving DecidableEq, Repr

namespace TradeDataSequencer

def fresh (start : UInt64) : TradeDataSequencer :=
  { nextSequence_ := start, sendQueue_ := [], dropped := [],
    routine := .dequeueing }

/-- `sendQueue_.enqueue(msg); ++nextSequence_;` -/
def forward (sequencer : TradeDataSequencer) (msg : ITCHTradeMsg) :
    TradeDataSequencer :=
  { sequencer with
    sendQueue_ := sequencer.sendQueue_ ++ [msg]
    nextSequence_ := sequencer.nextSequence_ + 1 }

def onRecoveredMsg (sequencer : TradeDataSequencer) (msg : ITCHTradeMsg) :
    Except String TradeDataSequencer :=
  if msg.sequence_number ≠ sequencer.nextSequence_ then
    .error "Failed to recover message"
  else
    .ok (sequencer.forward msg)

/-- `recover` has returned, however its loop was left: `run` goes on with the
message that opened the gap. -/
def afterRecovery (sequencer : TradeDataSequencer) (pending : ITCHTradeMsg) :
    TradeDataSequencer :=
  { sequencer.forward pending with routine := .dequeueing }

/-- The head of the loop in `receiveRecoveryMessages`. -/
def receiveRecoveryMessages (sequencer : TradeDataSequencer)
    (pending : ITCHTradeMsg) (messagesReceived numMessages : UInt64) :
    TradeDataSequencer :=
  if messagesReceived < numMessages then
    { sequencer with
      routine := .receiving pending messagesReceived numMessages }
  else
    sequencer.afterRecovery pending

/-- The body of that loop. -/
def onRecvEvent (sequencer : TradeDataSequencer) (pending : ITCHTradeMsg)
    (messagesReceived numMessages : UInt64) :
    RecvEvent → TradeDataSequencer
  | .timeout | .partialRecord =>
      sequencer.receiveRecoveryMessages pending messagesReceived numMessages
  | .notResponded | .closed => sequencer.afterRecovery pending
  | .record msg =>
      match sequencer.onRecoveredMsg msg with
      | .error what => { sequencer with routine := .terminated what }
      | .ok sequencer =>
          sequencer.receiveRecoveryMessages pending (messagesReceived + 1)
            numMessages

/-- The body of the loop in `run`, for a message that was dequeued. -/
def onMulticastMsg (sequencer : TradeDataSequencer) (msg : ITCHTradeMsg) :
    TradeDataSequencer :=
  if msg.sequence_number > sequencer.nextSequence_ then
    { sequencer with
      routine := .requesting msg sequencer.nextSequence_
        (msg.sequence_number - 1) }
  else if msg.sequence_number < sequencer.nextSequence_ then
    { sequencer with dropped := sequencer.dropped ++ [msg] }
  else
    sequencer.forward msg

end TradeDataSequencer

/-- What the thread waits for.  `requestFailed` is an exception of the system
calls before the receive loop. -/
inductive Event
  | multicast (msg : ITCHTradeMsg)
  | requestSent
  | requestFailed (what : String)
  | recovery (event : RecvEvent)
  deriving DecidableEq, Repr

/-- The recovery loop breaks before it has received what it asked for. -/
def Event.cutsRecovery : Event → Bool
  | .recovery .notResponded | .recovery .closed => true
  | _ => false

namespace TradeDataSequencer

def step (sequencer : TradeDataSequencer) :
    Event → Option TradeDataSequencer
  | .multicast msg =>
      match sequencer.routine with
      | .dequeueing => some (sequencer.onMulticastMsg msg)
      | _ => none
  | .requestSent =>
      match sequencer.routine with
      | .requesting pending startSeq endSeq =>
          some (sequencer.receiveRecoveryMessages pending 0
            (endSeq - startSeq + 1))
      | _ => none
  | .requestFailed what =>
      match sequencer.routine with
      | .requesting _ _ _ =>
          some { sequencer with routine := .terminated what }
      | _ => none
  | .recovery event =>
      match sequencer.routine with
      | .receiving pending messagesReceived numMessages =>
          some (sequencer.onRecvEvent pending messagesReceived numMessages
            event)
      | _ => none

/-! ## What one step can do -/

/-- While a recovery is under way, the messages which the loop still counts are
those between the next number and the pending message. -/
def Counting (sequencer : TradeDataSequencer) : Prop :=
  match sequencer.routine with
  | .dequeueing => True
  | .requesting pending startSeq endSeq =>
      sequencer.nextSequence_ < pending.sequence_number ∧
        startSeq = sequencer.nextSequence_ ∧
        endSeq = pending.sequence_number - 1
  | .receiving pending messagesReceived numMessages =>
      messagesReceived.toNat < numMessages.toNat ∧
        sequencer.nextSequence_.toNat +
            (numMessages.toNat - messagesReceived.toNat) =
          pending.sequence_number.toNat
  | .terminated _ => True

variable {sequencer next : TradeDataSequencer}

theorem step_multicast {msg : ITCHTradeMsg}
    (hstep : sequencer.step (.multicast msg) = some next) :
    sequencer.routine = .dequeueing ∧
      ((sequencer.nextSequence_ < msg.sequence_number ∧
          next = { sequencer with
            routine := .requesting msg sequencer.nextSequence_
              (msg.sequence_number - 1) }) ∨
        (msg.sequence_number < sequencer.nextSequence_ ∧
          next = { sequencer with dropped := sequencer.dropped ++ [msg] }) ∨
        (msg.sequence_number = sequencer.nextSequence_ ∧
          next = sequencer.forward msg)) := by
  unfold step at hstep
  cases hroutine : sequencer.routine with
  | dequeueing =>
      simp only [hroutine, Option.some.injEq] at hstep
      subst next
      refine ⟨rfl, ?_⟩
      unfold onMulticastMsg
      by_cases hgap : msg.sequence_number > sequencer.nextSequence_
      · rw [if_pos hgap]
        exact Or.inl ⟨hgap, rfl⟩
      · by_cases hold : msg.sequence_number < sequencer.nextSequence_
        · rw [if_neg hgap, if_pos hold]
          exact Or.inr (Or.inl ⟨hold, by rw [hroutine]⟩)
        · rw [if_neg hgap, if_neg hold]
          have heq : msg.sequence_number = sequencer.nextSequence_ :=
            UInt64.le_antisymm (UInt64.not_lt.mp hgap) (UInt64.not_lt.mp hold)
          exact Or.inr (Or.inr ⟨heq, rfl⟩)
  | requesting _ _ _ => simp [hroutine] at hstep
  | receiving _ _ _ => simp [hroutine] at hstep
  | terminated _ => simp [hroutine] at hstep

/-- The request names the whole gap, so the loop is entered and counts it. -/
theorem step_requestSent (hcounting : sequencer.Counting)
    (hstep : sequencer.step .requestSent = some next) :
    ∃ pending numMessages,
      sequencer.routine = .requesting pending sequencer.nextSequence_
        (pending.sequence_number - 1) ∧
      sequencer.nextSequence_ < pending.sequence_number ∧
      next = { sequencer with
        routine := .receiving pending 0 numMessages } ∧
      next.Counting := by
  unfold step at hstep
  cases hroutine : sequencer.routine with
  | dequeueing => simp [hroutine] at hstep
  | receiving _ _ _ => simp [hroutine] at hstep
  | terminated _ => simp [hroutine] at hstep
  | requesting pending startSeq endSeq =>
      unfold Counting at hcounting
      simp only [hroutine] at hcounting
      rcases hcounting with ⟨hgap, rfl, rfl⟩
      have hlt : sequencer.nextSequence_.toNat <
          pending.sequence_number.toNat := hgap
      have hnum : (pending.sequence_number - 1 - sequencer.nextSequence_ +
          1).toNat = pending.sequence_number.toNat -
            sequencer.nextSequence_.toNat := by
        have hbound := pending.sequence_number.toNat_lt
        have hone : (1 : UInt64).toNat = 1 := UInt64.toNat_one
        rw [UInt64.toNat_add, UInt64.toNat_sub_of_le, UInt64.toNat_sub_of_le,
          hone]
        · omega
        · rw [UInt64.le_iff_toNat_le, hone]
          omega
        · rw [UInt64.le_iff_toNat_le, UInt64.toNat_sub_of_le, hone]
          · omega
          · rw [UInt64.le_iff_toNat_le, hone]
            omega
      have hzero : (0 : UInt64).toNat = 0 := UInt64.toNat_zero
      simp only [hroutine, Option.some.injEq] at hstep
      unfold receiveRecoveryMessages at hstep
      rw [if_pos (UInt64.lt_iff_toNat_lt.mpr (by omega))] at hstep
      subst next
      refine ⟨pending, _, rfl, hgap, rfl, ?_⟩
      unfold Counting
      dsimp only
      omega

/-- Once the loop is entered, every turn leaves it in place, ends the thread,
forwards the recovered message, forwards it and the pending one, or breaks off
and forwards the pending one alone. -/
theorem step_recovery (hcounting : sequencer.Counting) {event : RecvEvent}
    (hstep : sequencer.step (.recovery event) = some next) :
    ∃ pending messagesReceived numMessages,
      sequencer.routine =
        .receiving pending messagesReceived numMessages ∧
      match event with
      | .timeout | .partialRecord => next = sequencer
      | .notResponded | .closed => next = sequencer.afterRecovery pending
      | .record msg =>
          (msg.sequence_number ≠ sequencer.nextSequence_ ∧
            ∃ what, next = { sequencer with routine := .terminated what }) ∨
          (msg.sequence_number = sequencer.nextSequence_ ∧
            next = { sequencer.forward msg with
              routine := .receiving pending (messagesReceived + 1)
                numMessages } ∧
            next.Counting) ∨
          (msg.sequence_number = sequencer.nextSequence_ ∧
            pending.sequence_number = sequencer.nextSequence_ + 1 ∧
            next = (sequencer.forward msg).afterRecovery pending) := by
  unfold step at hstep
  cases hroutine : sequencer.routine with
  | dequeueing => simp [hroutine] at hstep
  | requesting _ _ _ => simp [hroutine] at hstep
  | terminated _ => simp [hroutine] at hstep
  | receiving pending messagesReceived numMessages =>
      unfold Counting at hcounting
      simp only [hroutine] at hcounting
      obtain ⟨hlt, hcount⟩ := hcounting
      simp only [hroutine, Option.some.injEq] at hstep
      subst next
      refine ⟨pending, messagesReceived, numMessages, rfl, ?_⟩
      have hstay : sequencer.receiveRecoveryMessages pending messagesReceived
          numMessages = sequencer := by
        unfold receiveRecoveryMessages
        rw [if_pos (UInt64.lt_iff_toNat_lt.mpr hlt), ← hroutine]
      cases event with
      | timeout => exact hstay
      | partialRecord => exact hstay
      | notResponded => rfl
      | closed => rfl
      | record msg =>
          dsimp only [onRecvEvent]
          unfold onRecoveredMsg
          by_cases hseq : msg.sequence_number = sequencer.nextSequence_
          · rw [if_neg (not_not.mpr hseq)]
            have hone : (1 : UInt64).toNat = 1 := UInt64.toNat_one
            have hbound := pending.sequence_number.toNat_lt
            have hreceived : (messagesReceived + 1).toNat =
                messagesReceived.toNat + 1 := by
              have hnum := numMessages.toNat_lt
              rw [UInt64.toNat_add, hone]
              omega
            have hnext : (sequencer.nextSequence_ + 1).toNat =
                sequencer.nextSequence_.toNat + 1 := by
              rw [UInt64.toNat_add, hone]
              omega
            dsimp only
            unfold receiveRecoveryMessages
            by_cases hmore : messagesReceived + 1 < numMessages
            · rw [if_pos hmore]
              refine Or.inr (Or.inl ⟨hseq, rfl, ?_⟩)
              have hmoreNat : (messagesReceived + 1).toNat <
                  numMessages.toNat := hmore
              unfold Counting
              dsimp only [forward]
              omega
            · rw [if_neg hmore]
              have hdone : ¬ (messagesReceived + 1).toNat <
                  numMessages.toNat := hmore
              refine Or.inr (Or.inr ⟨hseq, ?_, rfl⟩)
              apply UInt64.toNat_inj.mp
              omega
          · rw [if_pos hseq]
            exact Or.inl ⟨hseq, _, rfl⟩

/-! ## When the forwarded messages are in sequence -/

/-- The numbers put on `sendQueue_` are consecutive from `start`, and
`nextSequence_` is the number after them. -/
structure InSequence (start : UInt64) (sequencer : TradeDataSequencer) :
    Prop where
  consecutive : ∀ (index : ℕ) (hindex : index < sequencer.sendQueue_.length),
    sequencer.sendQueue_[index].sequence_number = start + UInt64.ofNat index
  next : sequencer.nextSequence_ =
    start + UInt64.ofNat sequencer.sendQueue_.length

variable {start : UInt64}

theorem fresh_inSequence (start : UInt64) : InSequence start (fresh start) where
  consecutive := by
    intro index hindex
    exact absurd hindex (Nat.not_lt_zero index)
  next := by simp [fresh]

theorem InSequence.next_eq_last (hseq : InSequence start sequencer)
    {msg : ITCHTradeMsg} (hlast : sequencer.sendQueue_.getLast? = some msg) :
    sequencer.nextSequence_ = msg.sequence_number + 1 := by
  have hpos : 0 < sequencer.sendQueue_.length := by
    apply List.length_pos_iff.mpr
    intro hnil
    rw [hnil] at hlast
    cases hlast
  rw [List.getLast?_eq_getElem?, List.getElem?_eq_getElem (by omega),
    Option.some.injEq] at hlast
  have hnumber := hseq.consecutive (sequencer.sendQueue_.length - 1) (by omega)
  rw [hlast] at hnumber
  rw [hseq.next, hnumber, UInt64.add_assoc,
    show (1 : UInt64) = UInt64.ofNat 1 from rfl, ← UInt64.ofNat_add,
    Nat.sub_add_cancel hpos]

/-- No number is forwarded twice before the 64-bit numbers run out. -/
theorem InSequence.nodup (hseq : InSequence start sequencer)
    (hshort : sequencer.sendQueue_.length ≤ 2 ^ 64) :
    (sequencer.sendQueue_.map ITCHTradeMsg.sequence_number).Nodup := by
  rw [List.nodup_iff_injective_get]
  intro first second heq
  have hfirst : first.val < sequencer.sendQueue_.length := by
    simpa using first.isLt
  have hsecond : second.val < sequencer.sendQueue_.length := by
    simpa using second.isLt
  simp only [List.get_eq_getElem, List.getElem_map] at heq
  rw [hseq.consecutive _ hfirst, hseq.consecutive _ hsecond] at heq
  have hnat := congrArg UInt64.toNat (UInt64.add_right_inj start |>.mp heq)
  rw [UInt64.toNat_ofNat', UInt64.toNat_ofNat', Nat.mod_eq_of_lt (by omega),
    Nat.mod_eq_of_lt (by omega)] at hnat
  exact Fin.ext hnat

theorem InSequence.forward (hseq : InSequence start sequencer)
    {msg : ITCHTradeMsg}
    (hmsg : msg.sequence_number = sequencer.nextSequence_) :
    InSequence start (sequencer.forward msg) where
  consecutive := by
    intro index hindex
    dsimp only [TradeDataSequencer.forward] at hindex ⊢
    by_cases hold : index < sequencer.sendQueue_.length
    · rw [List.getElem_append_left hold]
      exact hseq.consecutive index hold
    · have hlast : index = sequencer.sendQueue_.length := by
        rw [List.length_append, List.length_singleton] at hindex
        omega
      subst index
      rw [List.getElem_concat_length rfl, hmsg]
      exact hseq.next
  next := by
    dsimp only [TradeDataSequencer.forward]
    rw [hseq.next, List.length_append, List.length_singleton,
      UInt64.ofNat_add, UInt64.add_assoc]
    rfl

/-- Forwarding a message with another number leaves the sequence. -/
theorem InSequence.not_afterRecovery (hseq : InSequence start sequencer)
    {pending : ITCHTradeMsg}
    (hpending : pending.sequence_number ≠ sequencer.nextSequence_) :
    ¬ InSequence start (sequencer.afterRecovery pending) := by
  intro hafter
  apply hpending
  have hlength : sequencer.sendQueue_.length <
      (sequencer.afterRecovery pending).sendQueue_.length := by
    simp [afterRecovery, TradeDataSequencer.forward]
  have hnumber := hafter.consecutive sequencer.sendQueue_.length hlength
  simp only [afterRecovery, TradeDataSequencer.forward,
    List.getElem_concat_length] at hnumber
  rw [hnumber, hseq.next]

theorem fresh_counting (start : UInt64) : (fresh start).Counting := trivial

/-- Every step that is not a break of the recovery loop keeps the sequence. -/
theorem step_inSequence {event : Event} (hcut : event.cutsRecovery = false)
    (hseq : InSequence start sequencer) (hcounting : sequencer.Counting)
    (hstep : sequencer.step event = some next) :
    InSequence start next ∧ next.Counting := by
  cases event with
  | multicast msg =>
      rcases step_multicast hstep with ⟨hroutine, hcases⟩
      rcases hcases with ⟨hgap, rfl⟩ | ⟨hold, rfl⟩ | ⟨heq, rfl⟩
      · exact ⟨⟨hseq.consecutive, hseq.next⟩, hgap, rfl, rfl⟩
      · refine ⟨⟨hseq.consecutive, hseq.next⟩, ?_⟩
        unfold Counting
        simp only [hroutine]
      · refine ⟨hseq.forward heq, ?_⟩
        unfold Counting
        simp only [TradeDataSequencer.forward, hroutine]
  | requestSent =>
      obtain ⟨pending, numMessages, -, -, rfl, hcount⟩ :=
        step_requestSent hcounting hstep
      exact ⟨⟨hseq.consecutive, hseq.next⟩, hcount⟩
  | requestFailed what =>
      unfold step at hstep
      cases hroutine : sequencer.routine with
      | requesting _ _ _ =>
          simp only [hroutine, Option.some.injEq] at hstep
          subst next
          exact ⟨⟨hseq.consecutive, hseq.next⟩, trivial⟩
      | dequeueing => simp [hroutine] at hstep
      | receiving _ _ _ => simp [hroutine] at hstep
      | terminated _ => simp [hroutine] at hstep
  | recovery event =>
      obtain ⟨pending, messagesReceived, numMessages, -, hcases⟩ :=
        step_recovery hcounting hstep
      cases event with
      | timeout =>
          rw [show next = sequencer from hcases]
          exact ⟨hseq, hcounting⟩
      | partialRecord =>
          rw [show next = sequencer from hcases]
          exact ⟨hseq, hcounting⟩
      | notResponded => simp [Event.cutsRecovery] at hcut
      | closed => simp [Event.cutsRecovery] at hcut
      | record msg =>
          rcases hcases with ⟨-, what, rfl⟩ | ⟨heq, hnext, hcount⟩ |
            ⟨heq, hlast, rfl⟩
          · exact ⟨⟨hseq.consecutive, hseq.next⟩, trivial⟩
          · refine ⟨?_, hcount⟩
            subst next
            have hforward := hseq.forward heq
            exact ⟨hforward.consecutive, hforward.next⟩
          · have hforward := (hseq.forward heq).forward hlast
            exact ⟨⟨hforward.consecutive, hforward.next⟩, trivial⟩

/-- A break forwards the pending message while its gap is open. -/
theorem step_cut_not_inSequence {event : Event}
    (hcut : event.cutsRecovery = true) (hseq : InSequence start sequencer)
    (hcounting : sequencer.Counting)
    (hstep : sequencer.step event = some next) : ¬ InSequence start next := by
  cases event with
  | multicast _ => cases hcut
  | requestSent => cases hcut
  | requestFailed _ => cases hcut
  | recovery event =>
      obtain ⟨pending, messagesReceived, numMessages, hroutine, hcases⟩ :=
        step_recovery hcounting hstep
      have hgap : pending.sequence_number ≠ sequencer.nextSequence_ := by
        unfold Counting at hcounting
        simp only [hroutine] at hcounting
        intro heq
        rw [heq] at hcounting
        omega
      cases event with
      | timeout => cases hcut
      | partialRecord => cases hcut
      | record _ => cases hcut
      | notResponded =>
          rw [show next = sequencer.afterRecovery pending from hcases]
          exact hseq.not_afterRecovery hgap
      | closed =>
          rw [show next = sequencer.afterRecovery pending from hcases]
          exact hseq.not_afterRecovery hgap

/-- All along a run the forwarded numbers are consecutive from the first one
if and only if no recovery is cut short. -/
theorem inSequence_iff_no_recovery_cut (start : UInt64) {events : List Event}
    {last : TradeDataSequencer}
    (hrun : StepSystem.run step events (fresh start) = some last) :
    StepSystem.AllStates step (InSequence start) events (fresh start) ↔
      ∀ event ∈ events, event.cutsRecovery = false := by
  rw [← StepSystem.allAllowed_iff_forall hrun]
  apply StepSystem.allStates_iff_allAllowed
    (fun sequencer => InSequence start sequencer ∧ sequencer.Counting)
    ?_ ?_ ?_ ⟨fresh_inSequence start, fresh_counting start⟩ hrun
  · intro sequencer hinv
    exact hinv.1
  · intro sequencer next event hinv hcut hstep
    exact step_inSequence hcut hinv.1 hinv.2 hstep
  · intro sequencer next event hinv hcut hstep
    exact step_cut_not_inSequence (Bool.not_eq_false _ ▸ hcut) hinv.1 hinv.2
      hstep

/-- A trade with the given number, for the runs below. -/
def numberedTrade (sequence_number : UInt64) : ITCHTradeMsg :=
  ⟨'P', sequence_number, 0, 0, 0, 0, false, false⟩

/-- A gap of one trade is recovered before its pending message goes out. -/
theorem recovered_gap_inSequence :
    StepSystem.AllStates step (InSequence 3)
      [.multicast (numberedTrade 4), .requestSent, .recovery .timeout,
        .recovery (.record (numberedTrade 3)), .multicast (numberedTrade 3)]
      (fresh 3) :=
  (inSequence_iff_no_recovery_cut 3 rfl).mpr (by decide)

/-- The connection closes before anything is received, and message 5 goes out
first. -/
theorem closed_recovery_breaks_sequence :
    ¬ ∀ (start : UInt64) (events : List Event) (last : TradeDataSequencer),
      StepSystem.run step events (fresh start) = some last →
        InSequence start last := by
  intro hall
  have hseq := hall 0
    [.multicast (numberedTrade 5), .requestSent, .recovery .closed] _ rfl
  have hnumber := hseq.consecutive 0 (by decide)
  exact absurd hnumber (by decide)

end TradeDataSequencer
end Ticker
end TradingStudies
