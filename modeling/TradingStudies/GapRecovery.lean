import TradingStudies.TradeDataSequencer

/-!
# Gap recovery from end to end

The receiver and the snapshot server exchange whole messages: requests travel
one way, trade records the other, and both arrive in order.  The connection is not
closed, and there are buffers and room on `sendQueue_` for every message.
Multicast messages are copies of stored trades and may be lost, repeated or
reordered.

The invariant watches the records in transit: those already sent, those the
server's loop has still to send, and those named by a request it has not read.
At any time they are the trades between the next number and the message that
opened the gap.
-/

namespace TradingStudies
namespace Ticker

/-- The sequencer, the snapshot server and the connection between them. -/
structure RecoverySystem where
  sequencer : TradeDataSequencer
  requests : List ITCHGapRequestMsg
  server : SnapshotServer
  answers : List ITCHTradeMsg
  deriving DecidableEq, Repr

inductive RecoveryAction
  | multicast (msg : ITCHTradeMsg)
  | sendRequest
  | readRequest
  | serve
  | timeout
  | receive
  deriving DecidableEq, Repr

namespace RecoverySystem

def initial : RecoverySystem :=
  { sequencer := .fresh 0, requests := [], server := .reading, answers := [] }

def stepSequencer (system : RecoverySystem) (event : Event) :
    Option RecoverySystem :=
  (system.sequencer.step event).map fun sequencer =>
    { system with sequencer := sequencer }

def step (store : TradeMsgStore) (system : RecoverySystem) :
    RecoveryAction → Option RecoverySystem
  | .multicast msg => system.stepSequencer (.multicast msg)
  | .sendRequest =>
      match system.sequencer.routine with
      | .requesting _ startSeq endSeq =>
          stepSequencer { system with
            requests := system.requests ++ [⟨'0', startSeq, endSeq⟩] }
            .requestSent
      | _ => none
  | .readRequest =>
      match system.server, system.requests with
      | .reading, msg :: rest =>
          some { system with
            server := SnapshotServer.serveClients msg, requests := rest }
      | _, _ => none
  | .serve =>
      (SnapshotServer.iterate store system.server).map fun (server, sent) =>
        { system with server := server, answers := system.answers ++ sent }
  | .timeout => system.stepSequencer (.recovery .timeout)
  | .receive =>
      match system.answers with
      | [] => none
      | msg :: rest =>
          stepSequencer { system with answers := rest }
            (.recovery (.record msg))

/-- The multicast channel invents nothing. -/
def Delivers (store : TradeMsgStore) (_ : RecoverySystem) :
    RecoveryAction → Prop
  | .multicast msg => msg ∈ store.vec_
  | _ => True

instance (store : TradeMsgStore) (system : RecoverySystem)
    (action : RecoveryAction) : Decidable (Delivers store system action) :=
  match action with
  | .multicast msg => inferInstanceAs (Decidable (msg ∈ store.vec_))
  | .sendRequest | .readRequest | .serve | .timeout | .receive =>
      inferInstanceAs (Decidable True)

/-! ## The records in transit -/

def requested (store : TradeMsgStore) (request : ITCHGapRequestMsg) :
    List ITCHTradeMsg :=
  store.between request.start_seq.toNat (request.end_seq.toNat + 1)

def inTransit (store : TradeMsgStore) (system : RecoverySystem) :
    List ITCHTradeMsg :=
  system.answers ++ system.server.toSend store ++
    system.requests.flatMap (requested store)

/-- The records for which the receive loop waits. -/
def awaited (store : TradeMsgStore) (sequencer : TradeDataSequencer) :
    List ITCHTradeMsg :=
  match sequencer.routine with
  | .receiving pending _ _ =>
      store.between sequencer.nextSequence_.toNat
        pending.sequence_number.toNat
  | _ => []

/-- The message that opened the gap is kept until the gap is closed. -/
def Pending (store : TradeMsgStore) (sequencer : TradeDataSequencer) : Prop :=
  match sequencer.routine with
  | .dequeueing => True
  | .requesting pending _ _ => pending ∈ store.vec_
  | .receiving pending _ _ => pending ∈ store.vec_
  | .terminated _ => False

/-- What the sequencer has put on `sendQueue_` and given back to the pool. -/
structure Forwarded (store : TradeMsgStore) (sequencer : TradeDataSequencer) :
    Prop where
  bound : sequencer.nextSequence_.toNat ≤ store.vec_.length
  queue : sequencer.sendQueue_ =
    store.vec_.take sequencer.nextSequence_.toNat
  dropped : ∀ msg ∈ sequencer.dropped,
    msg.sequence_number < sequencer.nextSequence_

structure Recovering (store : TradeMsgStore) (system : RecoverySystem) :
    Prop where
  forwarded : Forwarded store system.sequencer
  counting : system.sequencer.Counting
  pending : Pending store system.sequencer
  transit : system.inTransit store = awaited store system.sequencer
  requests : ∀ request ∈ system.requests, request.type = '0' ∧
    request.start_seq ≤ request.end_seq ∧
    request.end_seq.toNat < store.vec_.length
  server : system.server.InRange store

section Steps

variable {store : TradeMsgStore} {system next : RecoverySystem}

theorem initial_recovering (store : TradeMsgStore) :
    Recovering store initial where
  forwarded :=
    { bound := Nat.zero_le _
      queue := by simp [initial, TradeDataSequencer.fresh]
      dropped := by simp [initial, TradeDataSequencer.fresh] }
  counting := trivial
  pending := trivial
  transit := by
    simp [inTransit, awaited, initial, TradeDataSequencer.fresh,
      SnapshotServer.toSend]
  requests := by simp [initial]
  server := trivial

theorem Forwarded.forward (hsmall : store.vec_.length < 2 ^ 31)
    {sequencer : TradeDataSequencer} (hforwarded : Forwarded store sequencer)
    {msg : ITCHTradeMsg} (hmem : msg ∈ store.vec_)
    (hmsg : msg.sequence_number = sequencer.nextSequence_) :
    Forwarded store (sequencer.forward msg) ∧
      (sequencer.forward msg).nextSequence_.toNat =
        sequencer.nextSequence_.toNat + 1 := by
  rcases TradeMsgStore.getElem_of_mem (by omega) hmem with ⟨hindex, hget⟩
  rw [hmsg] at hindex
  have hnext : (sequencer.forward msg).nextSequence_.toNat =
      sequencer.nextSequence_.toNat + 1 := by
    dsimp only [TradeDataSequencer.forward]
    rw [UInt64.toNat_add, UInt64.toNat_one]
    omega
  refine ⟨⟨?_, ?_, ?_⟩, hnext⟩
  · omega
  · rw [hnext, TradeMsgStore.take_succ hindex]
    simp only [hmsg] at hget
    rw [hget]
    dsimp only [TradeDataSequencer.forward]
    rw [hforwarded.queue]
  · intro other hother
    have hold := hforwarded.dropped other hother
    rw [UInt64.lt_iff_toNat_lt] at hold ⊢
    omega

theorem multicast_recovering (hsmall : store.vec_.length < 2 ^ 31)
    (hinv : Recovering store system) {msg : ITCHTradeMsg}
    (hmem : msg ∈ store.vec_)
    (hstep : system.step store (.multicast msg) = some next) :
    Recovering store next := by
  simp only [step, stepSequencer, Option.map_eq_some_iff] at hstep
  rcases hstep with ⟨sequencer, hstep, rfl⟩
  rcases TradeDataSequencer.step_multicast hstep with ⟨hroutine, hcases⟩
  have hnone : awaited store system.sequencer = [] := by
    unfold awaited
    simp only [hroutine]
  have htransit := hinv.transit
  rw [hnone] at htransit
  rcases hcases with ⟨hgap, rfl⟩ | ⟨hold, rfl⟩ | ⟨heq, rfl⟩
  · exact
      { forwarded :=
          ⟨hinv.forwarded.bound, hinv.forwarded.queue, hinv.forwarded.dropped⟩
        counting := ⟨hgap, rfl, rfl⟩
        pending := hmem
        transit := htransit
        requests := hinv.requests
        server := hinv.server }
  · refine
      { forwarded := ⟨hinv.forwarded.bound, hinv.forwarded.queue, ?_⟩
        counting := ?_
        pending := ?_
        transit := ?_
        requests := hinv.requests
        server := hinv.server }
    · intro other hother
      rcases List.mem_append.mp hother with hother | hother
      · exact hinv.forwarded.dropped other hother
      · rw [List.mem_singleton.mp hother]
        exact hold
    · unfold TradeDataSequencer.Counting
      simp only [hroutine]
    · unfold Pending
      simp only [hroutine]
    · unfold awaited
      simp only [hroutine]
      exact htransit
  · refine
      { forwarded := (hinv.forwarded.forward hsmall hmem heq).1
        counting := ?_
        pending := ?_
        transit := ?_
        requests := hinv.requests
        server := hinv.server }
    · unfold TradeDataSequencer.Counting
      simp only [TradeDataSequencer.forward, hroutine]
    · unfold Pending
      simp only [TradeDataSequencer.forward, hroutine]
    · unfold awaited
      simp only [TradeDataSequencer.forward, hroutine]
      exact htransit

theorem sendRequest_recovering (hsmall : store.vec_.length < 2 ^ 31)
    (hinv : Recovering store system)
    (hstep : system.step store .sendRequest = some next) :
    Recovering store next := by
  unfold step at hstep
  cases hroutine : system.sequencer.routine with
  | dequeueing => simp [hroutine] at hstep
  | receiving _ _ _ => simp [hroutine] at hstep
  | terminated _ => simp [hroutine] at hstep
  | requesting pending startSeq endSeq =>
      simp only [hroutine, stepSequencer, Option.map_eq_some_iff] at hstep
      obtain ⟨sequencer, hstep, rfl⟩ := hstep
      obtain ⟨pending', numMessages, hsame, hgap, rfl, hcount⟩ :=
        TradeDataSequencer.step_requestSent hinv.counting hstep
      rw [hroutine] at hsame
      cases hsame
      have hmem : pending ∈ store.vec_ := by
        have hpending := hinv.pending
        unfold Pending at hpending
        simpa only [hroutine] using hpending
      rcases TradeMsgStore.getElem_of_mem (by omega) hmem with ⟨hindex, -⟩
      have hlt : system.sequencer.nextSequence_.toNat <
          pending.sequence_number.toNat := hgap
      have hpred : (pending.sequence_number - 1).toNat =
          pending.sequence_number.toNat - 1 := by
        rw [UInt64.toNat_sub_of_le, UInt64.toNat_one]
        rw [UInt64.le_iff_toNat_le, UInt64.toNat_one]
        omega
      have hnone : awaited store system.sequencer = [] := by
        unfold awaited
        simp only [hroutine]
      have htransit := hinv.transit
      rw [hnone] at htransit
      refine
        { forwarded :=
            ⟨hinv.forwarded.bound, hinv.forwarded.queue,
              hinv.forwarded.dropped⟩
          counting := hcount
          pending := hmem
          transit := ?_
          requests := ?_
          server := hinv.server }
      · unfold inTransit at htransit ⊢
        dsimp only
        rw [List.flatMap_append, ← List.append_assoc, htransit]
        dsimp only [awaited]
        simp only [List.nil_append, List.flatMap_cons, List.flatMap_nil,
          List.append_nil, requested, hpred]
        rw [show pending.sequence_number.toNat - 1 + 1 =
          pending.sequence_number.toNat by omega]
      · intro request hrequest
        rcases List.mem_append.mp hrequest with hrequest | hrequest
        · exact hinv.requests request hrequest
        · rw [List.mem_singleton.mp hrequest]
          refine ⟨rfl, ?_, ?_⟩
          · rw [UInt64.le_iff_toNat_le]
            dsimp only
            omega
          · dsimp only
            omega

theorem readRequest_recovering (hsmall : store.vec_.length < 2 ^ 31)
    (hinv : Recovering store system)
    (hstep : system.step store .readRequest = some next) :
    Recovering store next := by
  unfold step at hstep
  cases hserver : system.server with
  | serving _ _ => simp [hserver] at hstep
  | replaying _ => simp [hserver] at hstep
  | overflowed => simp [hserver] at hstep
  | reading =>
      cases hlist : system.requests with
      | nil => simp [hserver, hlist] at hstep
      | cons request rest =>
          simp only [hserver, hlist, Option.some.injEq] at hstep
          subst next
          obtain ⟨htype, horder, hend⟩ :=
            hinv.requests request (by simp [hlist])
          obtain ⟨hrange, hsend⟩ :=
            SnapshotServer.serveGapRequest_spec hsmall horder hend
          have hdispatch : SnapshotServer.serveClients request =
              SnapshotServer.serveGapRequest request := by
            unfold SnapshotServer.serveClients
            rw [if_pos htype]
          have htransit := hinv.transit
          unfold inTransit at htransit
          rw [hserver, hlist, List.flatMap_cons] at htransit
          refine
            { forwarded := hinv.forwarded
              counting := hinv.counting
              pending := hinv.pending
              transit := ?_
              requests := ?_
              server := ?_ }
          · rw [← htransit]
            dsimp only [inTransit]
            rw [hdispatch, hsend]
            simp [SnapshotServer.toSend, requested]
          · intro other hother
            exact hinv.requests other (by simp [hlist, hother])
          · dsimp only
            rw [hdispatch]
            exact hrange

theorem serve_recovering (hsmall : store.vec_.length < 2 ^ 31)
    (hinv : Recovering store system)
    (hstep : system.step store .serve = some next) :
    Recovering store next := by
  simp only [step, Option.map_eq_some_iff] at hstep
  rcases hstep with ⟨⟨server, sent⟩, hiterate, rfl⟩
  obtain ⟨hrange, hsend⟩ :=
    SnapshotServer.iterate_spec hsmall hinv.server hiterate
  refine
    { forwarded := hinv.forwarded
      counting := hinv.counting
      pending := hinv.pending
      transit := ?_
      requests := hinv.requests
      server := hrange }
  have htransit := hinv.transit
  unfold inTransit at htransit ⊢
  dsimp only
  rw [List.append_assoc system.answers sent, hsend]
  exact htransit

theorem timeout_recovering (hinv : Recovering store system)
    (hstep : system.step store .timeout = some next) :
    Recovering store next := by
  simp only [step, stepSequencer, Option.map_eq_some_iff] at hstep
  rcases hstep with ⟨sequencer, hstep, rfl⟩
  obtain ⟨pending, messagesReceived, numMessages, -, hsame⟩ :=
    TradeDataSequencer.step_recovery hinv.counting hstep
  rw [show sequencer = system.sequencer from hsame]
  exact hinv

/-- The first record that arrives is the one expected next. -/
theorem receive_recovering (hsmall : store.vec_.length < 2 ^ 31)
    (hinv : Recovering store system)
    (hstep : system.step store .receive = some next) :
    Recovering store next := by
  unfold step at hstep
  cases hanswers : system.answers with
  | nil => simp [hanswers] at hstep
  | cons msg rest =>
      simp only [hanswers, stepSequencer, Option.map_eq_some_iff] at hstep
      obtain ⟨sequencer, hstep, rfl⟩ := hstep
      obtain ⟨pending, messagesReceived, numMessages, hroutine, hcases⟩ :=
        TradeDataSequencer.step_recovery hinv.counting hstep
      have hcounting := hinv.counting
      unfold TradeDataSequencer.Counting at hcounting
      simp only [hroutine] at hcounting
      have hmem : pending ∈ store.vec_ := by
        have hpending := hinv.pending
        unfold Pending at hpending
        simpa only [hroutine] using hpending
      rcases TradeMsgStore.getElem_of_mem (by omega) hmem with ⟨hindex, -⟩
      have hnext : system.sequencer.nextSequence_.toNat <
          store.vec_.length := by omega
      have htransit := hinv.transit
      unfold inTransit awaited at htransit
      simp only [hroutine, hanswers] at htransit
      rw [TradeMsgStore.between_of_lt (by omega) hnext, List.cons_append,
        List.cons_append, List.cons.injEq] at htransit
      rcases htransit with ⟨hmsg, hrest⟩
      have hmsgMem : msg ∈ store.vec_ := by
        rw [hmsg]
        exact List.getElem_mem hnext
      have hseq : msg.sequence_number = system.sequencer.nextSequence_ := by
        rw [hmsg, store.numbered _ hnext, UInt64.ofNat_toNat]
      obtain ⟨hforwarded, hsucc⟩ :=
        hinv.forwarded.forward hsmall hmsgMem hseq
      rcases hcases with ⟨hne, -⟩ | ⟨-, rfl, hcount⟩ | ⟨-, hlast, rfl⟩
      · exact absurd hseq hne
      · exact
          { forwarded :=
              ⟨hforwarded.bound, hforwarded.queue, hforwarded.dropped⟩
            counting := hcount
            pending := hmem
            transit := by
              dsimp only [inTransit, awaited]
              rw [hsucc]
              exact hrest
            requests := hinv.requests
            server := hinv.server }
      · have hboth := (hforwarded.forward hsmall hmem hlast).1
        have hpendingNat := congrArg UInt64.toNat hlast
        have hnextNat : (system.sequencer.nextSequence_ + 1).toNat =
            system.sequencer.nextSequence_.toNat + 1 := hsucc
        exact
          { forwarded := ⟨hboth.bound, hboth.queue, hboth.dropped⟩
            counting := trivial
            pending := trivial
            transit := by
              dsimp only [inTransit, awaited,
                TradeDataSequencer.afterRecovery]
              rw [hrest, hpendingNat, hnextNat, TradeMsgStore.between_self]
            requests := hinv.requests
            server := hinv.server }

theorem step_recovering (hsmall : store.vec_.length < 2 ^ 31)
    (hinv : Recovering store system) {action : RecoveryAction}
    (hdelivers : Delivers store system action)
    (hstep : system.step store action = some next) :
    Recovering store next := by
  cases action with
  | multicast msg => exact multicast_recovering hsmall hinv hdelivers hstep
  | sendRequest => exact sendRequest_recovering hsmall hinv hstep
  | readRequest => exact readRequest_recovering hsmall hinv hstep
  | serve => exact serve_recovering hsmall hinv hstep
  | timeout => exact timeout_recovering hinv hstep
  | receive => exact receive_recovering hsmall hinv hstep

end Steps

/-- At every point of every run the messages on `sendQueue_` are the first
`nextSequence_` trades of the store, no recovered message is refused, and what
was dropped had been forwarded before. -/
theorem gapRecovery_forwards_store (store : TradeMsgStore)
    (hsmall : store.size < 2 ^ 31) {system : RecoverySystem}
    (hreach : StepSystem.Reachable (step store) (Delivers store) initial
      system) :
    system.sequencer.sendQueue_ =
        store.vec_.take system.sequencer.nextSequence_.toNat ∧
      system.sequencer.nextSequence_.toNat ≤ store.size ∧
      (∀ what, system.sequencer.routine ≠ .terminated what) ∧
      ∀ msg ∈ system.sequencer.dropped, ∃ sent ∈ system.sequencer.sendQueue_,
        sent.sequence_number = msg.sequence_number := by
  have hinv : Recovering store system :=
    hreach.invariant (initial_recovering store)
      (fun hinv hdelivers hstep => step_recovering hsmall hinv hdelivers hstep)
  have hsize : store.size = store.vec_.length := rfl
  refine ⟨hinv.forwarded.queue, hinv.forwarded.bound, ?_, ?_⟩
  · intro what hroutine
    have hpending := hinv.pending
    unfold Pending at hpending
    simp only [hroutine] at hpending
  · intro msg hmsg
    have hold : msg.sequence_number.toNat <
        system.sequencer.nextSequence_.toNat :=
      hinv.forwarded.dropped msg hmsg
    have hbound := hinv.forwarded.bound
    have hindex : msg.sequence_number.toNat < store.vec_.length := by omega
    refine ⟨store.vec_[msg.sequence_number.toNat], ?_, ?_⟩
    · rw [hinv.forwarded.queue, List.mem_take_iff_getElem]
      exact ⟨_, by omega, rfl⟩
    · rw [store.numbered _ hindex, UInt64.ofNat_toNat]

/-- Two trades; the second is delivered alone, and the first once it is old. -/
theorem gapRecovery_two_trades :
    let store : TradeMsgStore :=
      .load [⟨70, 0, 0, 0, true, false⟩, ⟨71, 0, 0, 0, false, false⟩]
    let actions : List RecoveryAction :=
      [.multicast ⟨'P', 1, 71, 0, 0, 0, false, false⟩, .sendRequest, .timeout,
        .readRequest, .serve, .receive,
        .multicast ⟨'P', 0, 70, 0, 0, 0, true, false⟩, .serve]
    ∃ system, StepSystem.run (step store) actions initial = some system ∧
      system.sequencer.sendQueue_ = store.vec_.take 2 := by
  intro store actions
  have hallowed :
      StepSystem.AllAllowed (step store) (Delivers store) actions initial := by
    decide
  refine ⟨_, rfl, ?_⟩
  exact (gapRecovery_forwards_store store (by decide)
    (StepSystem.reachable_of_run rfl hallowed)).1

end RecoverySystem
end Ticker
end TradingStudies
