import TradingStudies.GapRecovery
import TradingStudies.GapRequestRange

/-!
# Gap recovery comes to an end

A recovery that has begun is a fixed amount of work: the request is sent and
read, each record of the gap is sent and received once, and the loop of the
server is left.  Every step of the two parties does a part of it, and as long
as a recovery is under way one of them can make a step.  Time-outs of
`epoll_wait` take nothing away and add nothing.
-/

namespace TradingStudies
namespace Ticker

/-- The steps that need neither the multicast channel nor a clock. -/
def RecoveryAction.internal : RecoveryAction → Bool
  | .sendRequest | .readRequest | .serve | .receive => true
  | .multicast _ | .timeout => false

def RecoveryAction.isMulticast : RecoveryAction → Bool
  | .multicast _ => true
  | _ => false

def RecoveryAction.isTimeout : RecoveryAction → Bool
  | .timeout => true
  | _ => false

namespace RecoverySystem

def serverWork (store : TradeMsgStore) (server : SnapshotServer) : ℕ :=
  2 * (server.toSend store).length + if server = .reading then 0 else 1

def requestWork (store : TradeMsgStore) (requests : List ITCHGapRequestMsg) :
    ℕ :=
  (requests.map fun request => 2 + 2 * (requested store request).length).sum

def sequencerWork (sequencer : TradeDataSequencer) : ℕ :=
  match sequencer.routine with
  | .requesting pending _ _ =>
      3 + 2 * (pending.sequence_number.toNat - sequencer.nextSequence_.toNat)
  | _ => 0

/-- The steps which a recovery has before it at most. -/
def work (store : TradeMsgStore) (system : RecoverySystem) : ℕ :=
  system.answers.length + serverWork store system.server +
    requestWork store system.requests + sequencerWork system.sequencer

/-- The number after the message at which the sequencer goes on. -/
def resumesAt (sequencer : TradeDataSequencer) : ℕ :=
  match sequencer.routine with
  | .requesting pending _ _ => pending.sequence_number.toNat + 1
  | .receiving pending _ _ => pending.sequence_number.toNat + 1
  | _ => sequencer.nextSequence_.toNat

variable {store : TradeMsgStore} {system next : RecoverySystem}

/-! ## Every step does a part of the work -/

theorem length_between_le (store : TradeMsgStore) (start stop : ℕ) :
    (store.between start stop).length ≤ stop - start :=
  List.length_take_le _ _

/-- A turn sends one record, or leaves the loop. -/
theorem iterate_cases {server after : SnapshotServer}
    {sent : List ITCHTradeMsg} (hrange : server.InRange store)
    (hiterate : SnapshotServer.iterate store server = some (after, sent)) :
    server ≠ .reading ∧
      ((after = .reading ∧ sent = []) ∨ sent.length = 1) := by
  cases server with
  | reading => simp [SnapshotServer.iterate] at hiterate
  | overflowed => simp [SnapshotServer.iterate] at hiterate
  | serving i end_seq =>
      rcases hrange with ⟨hnonneg, hbound, hend⟩
      refine ⟨by simp, ?_⟩
      have hcast := toNat_toUInt64 hnonneg
      dsimp only [SnapshotServer.iterate] at hiterate
      by_cases hle : toUInt64 i ≤ end_seq
      · have hlt : (toUInt64 i).toNat ≤ end_seq.toNat := hle
        rw [if_pos hle,
          SnapshotServer.get_of_inRange hnonneg (by omega)] at hiterate
        cases hiterate
        exact Or.inr rfl
      · rw [if_neg hle] at hiterate
        cases hiterate
        exact Or.inl ⟨rfl, rfl⟩
  | replaying i =>
      rcases hrange with ⟨hnonneg, hbound⟩
      refine ⟨by simp, ?_⟩
      have hcast := toNat_toUInt64 hnonneg
      have hsize : store.size = store.vec_.length := rfl
      dsimp only [SnapshotServer.iterate] at hiterate
      by_cases hlt : (toUInt64 i).toNat < store.size
      · rw [if_pos hlt,
          SnapshotServer.get_of_inRange hnonneg (by omega)] at hiterate
        cases hiterate
        exact Or.inr rfl
      · rw [if_neg hlt] at hiterate
        cases hiterate
        exact Or.inl ⟨rfl, rfl⟩

/-- One turn of the server's loop moves one record to the answers. -/
theorem iterate_work (hsmall : store.vec_.length < 2 ^ 31)
    {server after : SnapshotServer} {sent : List ITCHTradeMsg}
    (hrange : server.InRange store)
    (hiterate : SnapshotServer.iterate store server = some (after, sent)) :
    sent.length + serverWork store after < serverWork store server := by
  obtain ⟨hserver, hcases⟩ := iterate_cases hrange hiterate
  obtain ⟨-, hsplit⟩ := SnapshotServer.iterate_spec hsmall hrange hiterate
  have hlength := congrArg List.length hsplit
  rw [List.length_append] at hlength
  unfold serverWork
  rw [if_neg hserver]
  rcases hcases with ⟨rfl, rfl⟩ | hone
  · rw [if_pos rfl, List.length_nil] at *
    omega
  · split <;> omega

theorem sendRequest_work (hinv : Recovering store system)
    (hstep : system.step store .sendRequest = some next) :
    work store next < work store system ∧
      resumesAt next.sequencer = resumesAt system.sequencer := by
  unfold step at hstep
  cases hroutine : system.sequencer.routine with
  | dequeueing => simp [hroutine] at hstep
  | receiving _ _ _ => simp [hroutine] at hstep
  | terminated _ => simp [hroutine] at hstep
  | requesting pending startSeq endSeq =>
      simp only [hroutine, stepSequencer, Option.map_eq_some_iff] at hstep
      obtain ⟨sequencer, hstep, rfl⟩ := hstep
      obtain ⟨pending', numMessages, hsame, hgap, rfl, -⟩ :=
        TradeDataSequencer.step_requestSent hinv.counting hstep
      rw [hroutine] at hsame
      cases hsame
      have hlt : system.sequencer.nextSequence_.toNat <
          pending.sequence_number.toNat := hgap
      have hpred : (pending.sequence_number - 1).toNat =
          pending.sequence_number.toNat - 1 := by
        rw [UInt64.toNat_sub_of_le, UInt64.toNat_one]
        rw [UInt64.le_iff_toNat_le, UInt64.toNat_one]
        omega
      have hlength : (requested store
          ⟨'0', system.sequencer.nextSequence_,
            pending.sequence_number - 1⟩).length ≤
          pending.sequence_number.toNat -
            system.sequencer.nextSequence_.toNat := by
        unfold requested
        apply le_trans (length_between_le _ _ _)
        dsimp only
        omega
      constructor
      · simp only [work, sequencerWork, requestWork, hroutine,
          List.map_append, List.sum_append, List.map_cons, List.map_nil,
          List.sum_cons, List.sum_nil]
        omega
      · simp only [resumesAt, hroutine]

theorem readRequest_work (hsmall : store.vec_.length < 2 ^ 31)
    (hinv : Recovering store system)
    (hstep : system.step store .readRequest = some next) :
    work store next < work store system ∧
      resumesAt next.sequencer = resumesAt system.sequencer := by
  unfold step at hstep
  cases hserver : system.server with
  | serving _ _ => simp [hserver] at hstep
  | replaying _ => simp [hserver] at hstep
  | overflowed => simp [hserver] at hstep
  | reading =>
      cases hlist : system.requests with
      | nil => simp [hserver, hlist] at hstep
      | cons request rest =>
          simp only [hserver, hlist, Option.some.injEq] at hstep
          subst next
          obtain ⟨htype, horder, hend⟩ :=
            hinv.requests request (by simp [hlist])
          obtain ⟨-, hsend⟩ :=
            SnapshotServer.serveGapRequest_spec hsmall horder hend
          refine ⟨?_, rfl⟩
          have hdispatch : SnapshotServer.serveClients request =
              SnapshotServer.serveGapRequest request := by
            unfold SnapshotServer.serveClients
            rw [if_pos htype]
          have hserve : serverWork store
              (SnapshotServer.serveClients request) =
              2 * (requested store request).length + 1 := by
            unfold serverWork
            rw [hdispatch, hsend]
            rfl
          have hreading : serverWork store .reading = 0 := rfl
          simp only [work, hserve, hserver, hreading, hlist, requestWork,
            List.map_cons, List.sum_cons]
          omega

theorem serve_work (hsmall : store.vec_.length < 2 ^ 31)
    (hinv : Recovering store system)
    (hstep : system.step store .serve = some next) :
    work store next < work store system ∧
      resumesAt next.sequencer = resumesAt system.sequencer := by
  simp only [step, Option.map_eq_some_iff] at hstep
  rcases hstep with ⟨⟨server, sent⟩, hiterate, rfl⟩
  have hless := iterate_work hsmall hinv.server hiterate
  refine ⟨?_, rfl⟩
  simp only [work, List.length_append]
  omega

/-- A record is received; the last one brings the pending message with it. -/
theorem receive_work (hsmall : store.vec_.length < 2 ^ 31)
    (hinv : Recovering store system)
    (hstep : system.step store .receive = some next) :
    work store next < work store system ∧
      resumesAt next.sequencer = resumesAt system.sequencer := by
  have hnext := receive_recovering hsmall hinv hstep
  unfold step at hstep
  cases hanswers : system.answers with
  | nil => simp [hanswers] at hstep
  | cons msg rest =>
      simp only [hanswers, stepSequencer, Option.map_eq_some_iff] at hstep
      obtain ⟨sequencer, hstep, rfl⟩ := hstep
      obtain ⟨pending, messagesReceived, numMessages, hroutine, hcases⟩ :=
        TradeDataSequencer.step_recovery hinv.counting hstep
      rcases hcases with ⟨-, what, rfl⟩ | ⟨-, rfl, -⟩ | ⟨-, hlast, rfl⟩
      · exact hnext.pending.elim
      · refine ⟨?_, ?_⟩
        · simp only [work, hanswers, sequencerWork, List.length_cons]
          omega
        · simp only [resumesAt, hroutine]
      · refine ⟨?_, ?_⟩
        · simp only [work, hanswers, sequencerWork,
            TradeDataSequencer.afterRecovery, List.length_cons]
          omega
        · have hbound := hnext.forwarded.bound
          have hindex : pending ∈ store.vec_ := by
            have hpending := hinv.pending
            unfold Pending at hpending
            simpa only [hroutine] using hpending
          rcases TradeMsgStore.getElem_of_mem (by omega) hindex with ⟨hlt, -⟩
          simp only [resumesAt, hroutine, TradeDataSequencer.afterRecovery,
            TradeDataSequencer.forward]
          rw [← hlast, UInt64.toNat_add, UInt64.toNat_one]
          omega

theorem timeout_eq (hinv : Recovering store system)
    (hstep : system.step store .timeout = some next) : next = system := by
  simp only [step, stepSequencer, Option.map_eq_some_iff] at hstep
  rcases hstep with ⟨sequencer, hstep, rfl⟩
  obtain ⟨pending, messagesReceived, numMessages, -, hsame⟩ :=
    TradeDataSequencer.step_recovery hinv.counting hstep
  rw [show sequencer = system.sequencer from hsame]

/-! ## How much work there is -/

theorem requested_pos {request : ITCHGapRequestMsg}
    (horder : request.start_seq ≤ request.end_seq)
    (hend : request.end_seq.toNat < store.vec_.length) :
    0 < (requested store request).length := by
  have hle : request.start_seq.toNat ≤ request.end_seq.toNat := horder
  unfold requested
  rw [SnapshotServer.length_between (by omega) (by omega)]
  omega

theorem requestWork_le {requests : List ITCHGapRequestMsg}
    (hrequests : ∀ request ∈ requests, request.type = '0' ∧
      request.start_seq ≤ request.end_seq ∧
      request.end_seq.toNat < store.vec_.length) :
    requestWork store requests ≤
      4 * (requests.flatMap (requested store)).length := by
  induction requests with
  | nil => exact Nat.le_refl _
  | cons request rest ih =>
      obtain ⟨-, horder, hend⟩ := hrequests request List.mem_cons_self
      have hpos := requested_pos horder hend
      have hrest := ih fun other hother =>
        hrequests other (List.mem_cons_of_mem _ hother)
      unfold requestWork at hrest ⊢
      rw [List.flatMap_cons, List.length_append, List.map_cons, List.sum_cons]
      omega

theorem sequencer_work_le (hsmall : store.vec_.length < 2 ^ 31)
    (hinv : Recovering store system) :
    4 * (awaited store system.sequencer).length +
      sequencerWork system.sequencer ≤ 4 * store.vec_.length + 3 := by
  have hpending := hinv.pending
  unfold Pending at hpending
  unfold awaited sequencerWork
  cases hroutine : system.sequencer.routine with
  | dequeueing => simp
  | terminated _ => simp
  | requesting pending _ _ =>
      simp only [hroutine] at hpending
      rcases TradeMsgStore.getElem_of_mem (by omega) hpending with ⟨hlt, -⟩
      simp only [List.length_nil]
      omega
  | receiving pending _ _ =>
      simp only [hroutine] at hpending
      rcases TradeMsgStore.getElem_of_mem (by omega) hpending with ⟨hlt, -⟩
      have hlength := length_between_le store
        system.sequencer.nextSequence_.toNat pending.sequence_number.toNat
      simp only
      omega

theorem work_le (hsmall : store.vec_.length < 2 ^ 31)
    (hinv : Recovering store system) :
    work store system ≤ 4 * store.vec_.length + 4 := by
  have hrequests := requestWork_le hinv.requests
  have hsequencer := sequencer_work_le hsmall hinv
  have htransit := congrArg List.length hinv.transit
  simp only [inTransit, List.length_append] at htransit
  have hserver : serverWork store system.server ≤
      2 * (system.server.toSend store).length + 1 := by
    unfold serverWork
    split <;> omega
  unfold work
  omega

/-! ## A recovery under way can make a step -/

theorem internal_enabled (hsmall : store.vec_.length < 2 ^ 31)
    (hinv : Recovering store system)
    (hbusy : system.sequencer.routine ≠ .dequeueing) :
    ∃ action next, action.internal = true ∧
      system.step store action = some next := by
  have hpending := hinv.pending
  have hcounting := hinv.counting
  unfold Pending at hpending
  unfold TradeDataSequencer.Counting at hcounting
  cases hroutine : system.sequencer.routine with
  | dequeueing => exact absurd hroutine hbusy
  | terminated _ => simp only [hroutine] at hpending
  | requesting pending startSeq endSeq =>
      refine ⟨.sendRequest, ?_⟩
      simp [RecoveryAction.internal, step, stepSequencer, hroutine,
        TradeDataSequencer.step]
  | receiving pending messagesReceived numMessages =>
      simp only [hroutine] at hcounting
      cases hanswers : system.answers with
      | cons msg rest =>
          refine ⟨.receive, ?_⟩
          simp [RecoveryAction.internal, step, stepSequencer, hroutine,
            hanswers, TradeDataSequencer.step]
      | nil =>
          cases hserver : system.server with
          | overflowed =>
              have hrange := hinv.server
              rw [hserver] at hrange
              exact hrange.elim
          | serving i end_seq =>
              refine ⟨.serve, ?_⟩
              simp only [RecoveryAction.internal, step, hserver,
                SnapshotServer.iterate]
              split <;> simp
          | replaying i =>
              refine ⟨.serve, ?_⟩
              simp only [RecoveryAction.internal, step, hserver,
                SnapshotServer.iterate]
              split <;> simp
          | reading =>
              cases hrequests : system.requests with
              | cons request rest =>
                  refine ⟨.readRequest, ?_⟩
                  simp [RecoveryAction.internal, step, hserver, hrequests]
              | nil =>
                  -- Nothing is in transit, so nothing could be awaited.
                  have htransit := congrArg List.length hinv.transit
                  simp only [inTransit, awaited, hroutine, hanswers, hserver,
                    hrequests, SnapshotServer.toSend, List.flatMap_nil,
                    List.nil_append, List.length_nil] at htransit
                  simp only [hroutine] at hpending
                  rcases TradeMsgStore.getElem_of_mem (by omega) hpending
                    with ⟨hlt, -⟩
                  rw [SnapshotServer.length_between (by omega) (by omega)]
                    at htransit
                  omega

/-! ## Runs -/

theorem silent_step (hsmall : store.vec_.length < 2 ^ 31)
    (hinv : Recovering store system) {action : RecoveryAction}
    (hsilent : action.isMulticast = false)
    (hstep : system.step store action = some next) :
    Recovering store next ∧
      resumesAt next.sequencer = resumesAt system.sequencer ∧
      work store next + 1 ≤ work store system +
        if action.isTimeout then 1 else 0 := by
  cases action with
  | multicast msg => cases hsilent
  | timeout =>
      rw [timeout_eq hinv hstep]
      exact ⟨hinv, rfl, le_rfl⟩
  | sendRequest =>
      obtain ⟨hwork, hresumes⟩ := sendRequest_work hinv hstep
      exact ⟨sendRequest_recovering hsmall hinv hstep, hresumes, hwork⟩
  | readRequest =>
      obtain ⟨hwork, hresumes⟩ := readRequest_work hsmall hinv hstep
      exact ⟨readRequest_recovering hsmall hinv hstep, hresumes, hwork⟩
  | serve =>
      obtain ⟨hwork, hresumes⟩ := serve_work hsmall hinv hstep
      exact ⟨serve_recovering hsmall hinv hstep, hresumes, hwork⟩
  | receive =>
      obtain ⟨hwork, hresumes⟩ := receive_work hsmall hinv hstep
      exact ⟨receive_recovering hsmall hinv hstep, hresumes, hwork⟩

/-- From any reachable state on, the two parties make at most four steps for
each trade of the store before the channel has to deliver again, whatever
their order and however often `epoll_wait` times out.  They cannot stop before
the recovery is over, and then the pending message and all before it have been
forwarded. -/
theorem gapRecovery_completes (store : TradeMsgStore)
    (hsmall : store.size < 2 ^ 31) {system last : RecoverySystem}
    {actions : List RecoveryAction}
    (hreach : StepSystem.Reachable (step store) (Delivers store) initial
      system)
    (hsilent : ∀ action ∈ actions, action.isMulticast = false)
    (hrun : StepSystem.run (step store) actions system = some last) :
    actions.length ≤ 4 * store.size + 4 +
        actions.countP RecoveryAction.isTimeout ∧
      (last.sequencer.routine = .dequeueing →
        last.sequencer.sendQueue_ =
          store.vec_.take (resumesAt system.sequencer)) ∧
      (last.sequencer.routine ≠ .dequeueing →
        ∃ action next, action.internal = true ∧
          step store last action = some next) := by
  have hsize : store.size = store.vec_.length := rfl
  have hinv : Recovering store system :=
    hreach.invariant (initial_recovering store)
      (fun hinv hdelivers hstep => step_recovering hsmall hinv hdelivers hstep)
  have hle := work_le hsmall hinv
  obtain ⟨⟨hlast, hresumes⟩, hwork⟩ := StepSystem.length_add_work_le
    (fun other => Recovering store other ∧
      resumesAt other.sequencer = resumesAt system.sequencer)
    (work store) RecoveryAction.isTimeout 1
    (fun _ _ _ hinv hsilent hstep =>
      have hnext := silent_step hsmall hinv.1 hsilent hstep
      ⟨⟨hnext.1, hnext.2.1.trans hinv.2⟩, hnext.2.2⟩)
    ⟨hinv, rfl⟩ hsilent hrun
  refine ⟨by omega, ?_, internal_enabled hsmall hlast⟩
  intro hroutine
  rw [← hresumes, hlast.forwarded.queue]
  unfold resumesAt
  simp only [hroutine]

/-- Three trades of which only the last one is delivered. -/
theorem gapRecovery_completes_last_trade :
    let store : TradeMsgStore :=
      .load [⟨70, 0, 0, 0, true, false⟩, ⟨71, 0, 0, 0, false, false⟩,
        ⟨72, 0, 0, 0, false, true⟩]
    let actions : List RecoveryAction :=
      [.sendRequest, .timeout, .readRequest, .serve, .receive, .timeout,
        .serve, .receive]
    ∃ system last,
      StepSystem.run (step store) [.multicast ⟨'P', 2, 72, 0, 0, 0, false,
        true⟩] initial = some system ∧
      StepSystem.run (step store) actions system = some last ∧
      last.sequencer.sendQueue_ = store.vec_.take 3 := by
  intro store actions
  have hallowed : StepSystem.AllAllowed (step store) (Delivers store)
      [.multicast ⟨'P', 2, 72, 0, 0, 0, false, true⟩] initial := by
    decide
  have hsilent : ∀ action ∈ actions, action.isMulticast = false := by decide
  refine ⟨_, _, rfl, rfl, ?_⟩
  exact (gapRecovery_completes store (by decide)
    (StepSystem.reachable_of_run rfl hallowed) hsilent rfl).2.1 rfl

end RecoverySystem
end Ticker
end TradingStudies
