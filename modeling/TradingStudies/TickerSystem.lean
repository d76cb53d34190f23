import TradingStudies.GapRecoveryProgress

/-!
# The ticker system from the multicast server to `sendQueue_`

`MulticastServer` sends each trade of the store once, less those it leaves out
on purpose and those that `sendto` refuses.  The network may lose, repeat and
reorder the datagrams.  The receiver puts what arrives on `recvQueue_`, which
loses it when it is full, and the sequencer asks the snapshot server for
whatever is missing.  As in gap recovery, its connection is never closed, and
`sendQueue_` has room for every message.

`wire` and `handled` only observe: the datagrams that were sent and the
messages which the sequencer has dequeued.
-/

namespace TradingStudies
namespace Ticker

/-- The loop of `MulticastServer::serveClients`. -/
inductive MulticastServer
  | serving (i : Int32)
  | finished
  | overflowed
  deriving DecidableEq, Repr

namespace MulticastServer

/-- `(i+1) % 1000 == 0 || (i+2) % 1000 == 0`, unless a sum overflows. -/
def createsGap (i : Int32) : Option Bool :=
  if i = Int32.maxValue then none
  else if (i + 1) % 1000 = 0 then some true
  else if i + 1 = Int32.maxValue then none
  else some (decide ((i + 1 + 1) % 1000 = 0))

def increment (i : Int32) : MulticastServer :=
  if i = Int32.maxValue then .overflowed else .serving (i + 1)

/-- One turn of the loop, and what it puts on the wire if `sendto` succeeds. -/
def serveClients (createMulticastGap : Bool) (store : TradeMsgStore)
    (sends : Bool) :
    MulticastServer → Option (MulticastServer × List ITCHTradeMsg)
  | .serving i =>
      if (toUInt64 i).toNat < store.size then
        match if createMulticastGap then createsGap i else some false with
        | none => some (.overflowed, [])
        | some true => some (increment i, [])
        | some false =>
            some (increment i,
              if sends then (store.get (toUInt64 i)).toList else [])
      else
        some (.finished, [])
  | .finished => none
  | .overflowed => none

/-- The trades which the server leaves out on purpose. -/
def LeftOut (createMulticastGap : Bool) (index : ℕ) : Prop :=
  createMulticastGap = true ∧
    ((index + 1) % 1000 = 0 ∨ (index + 2) % 1000 = 0)

instance (createMulticastGap : Bool) (index : ℕ) :
    Decidable (LeftOut createMulticastGap index) :=
  inferInstanceAs (Decidable (_ ∧ _))

/-- What is offered to the network of the first `stop` trades. -/
def offered (createMulticastGap : Bool) (store : TradeMsgStore) (stop : ℕ) :
    List ITCHTradeMsg :=
  (store.vec_.take stop).filter fun msg =>
    ¬ LeftOut createMulticastGap msg.sequence_number.toNat

/-- What has been sent is part of what the loop has passed. -/
def Broadcast (createMulticastGap : Bool) (store : TradeMsgStore)
    (wire : List ITCHTradeMsg) : MulticastServer → Prop
  | .serving i => 0 ≤ i.toInt ∧ i.toInt ≤ store.size ∧
      wire.Sublist (offered createMulticastGap store i.toInt.toNat)
  | .finished =>
      wire.Sublist (offered createMulticastGap store store.size)
  | .overflowed => False

variable {createMulticastGap : Bool} {store : TradeMsgStore}

theorem ne_maxValue_of_lt {i : Int32} (hi : i.toInt < 2 ^ 31 - 1) :
    i ≠ Int32.maxValue := by
  intro heq
  subst i
  have hvalue : Int32.maxValue.toInt = 2 ^ 31 - 1 := rfl
  omega

theorem mod_1000_eq_zero_iff {value : Int32} (hvalue : 0 ≤ value.toInt) :
    value % 1000 = 0 ↔ value.toInt.toNat % 1000 = 0 := by
  rw [← Int32.toInt_inj, Int32.toInt_mod,
    show (1000 : Int32).toInt = 1000 from rfl,
    show (0 : Int32).toInt = 0 from rfl, Int.tmod_eq_emod_of_nonneg hvalue]
  omega

theorem createsGap_spec {i : Int32} (hnonneg : 0 ≤ i.toInt)
    (hi : i.toInt < 2 ^ 31 - 2) :
    createsGap i = some (decide (LeftOut true i.toInt.toNat)) := by
  have hfirst : (i + 1).toInt = i.toInt + 1 := toInt_succ (by omega)
  have hsecond : (i + 1 + 1).toInt = i.toInt + 2 := by
    rw [toInt_succ (by omega), hfirst]
    omega
  have hmod := mod_1000_eq_zero_iff (hfirst ▸ by omega : 0 ≤ (i + 1).toInt)
  have hmod' :=
    mod_1000_eq_zero_iff (hsecond ▸ by omega : 0 ≤ (i + 1 + 1).toInt)
  rw [hfirst, show (i.toInt + 1).toNat = i.toInt.toNat + 1 by omega] at hmod
  rw [hsecond, show (i.toInt + 2).toNat = i.toInt.toNat + 2 by omega] at hmod'
  unfold createsGap
  rw [if_neg (ne_maxValue_of_lt (by omega)),
    if_neg (c := i + 1 = Int32.maxValue) (ne_maxValue_of_lt (by omega))]
  by_cases hleft : (i + 1) % 1000 = 0
  · rw [if_pos hleft, decide_eq_true ⟨rfl, Or.inl (hmod.mp hleft)⟩]
  · have hnot : ¬ (i.toInt.toNat + 1) % 1000 = 0 :=
      fun heq => hleft (hmod.mpr heq)
    rw [if_neg hleft, Option.some.injEq, decide_eq_decide, hmod']
    constructor
    · intro heq
      exact ⟨rfl, Or.inr heq⟩
    · intro hout
      exact hout.2.resolve_left hnot

theorem offered_succ {index : ℕ} (hsmall : store.vec_.length < 2 ^ 31)
    (hindex : index < store.vec_.length) :
    offered createMulticastGap store (index + 1) =
      offered createMulticastGap store index ++
        if LeftOut createMulticastGap index then [] else
          [store.vec_[index]] := by
  have hnumber : store.vec_[index].sequence_number.toNat = index := by
    rw [store.numbered index hindex, UInt64.toNat_ofNat']
    exact Nat.mod_eq_of_lt (by omega)
  unfold offered
  rw [TradeMsgStore.take_succ hindex, List.filter_append]
  congr 1
  by_cases hleft : LeftOut createMulticastGap index
  · simp [hnumber, hleft]
  · simp [hnumber, hleft]

/-- A turn puts the next trade on the wire, or passes over it. -/
theorem serveClients_broadcast (hsmall : store.size + 1 < 2 ^ 31)
    {server next : MulticastServer} {wire sent : List ITCHTradeMsg}
    {sends : Bool} (hinv : Broadcast createMulticastGap store wire server)
    (hturn : serveClients createMulticastGap store sends server =
      some (next, sent)) :
    Broadcast createMulticastGap store (wire ++ sent) next := by
  have hsize : store.size = store.vec_.length := rfl
  cases server with
  | finished => simp [serveClients] at hturn
  | overflowed => simp [serveClients] at hturn
  | serving i =>
      obtain ⟨hnonneg, hbound, hsublist⟩ := hinv
      have hcast := toNat_toUInt64 hnonneg
      dsimp only [serveClients] at hturn
      by_cases hlt : (toUInt64 i).toNat < store.size
      · have hindex : i.toInt.toNat < store.vec_.length := by omega
        have hsucc : (i + 1).toInt = i.toInt + 1 := toInt_succ (by omega)
        have hnext : increment i = .serving (i + 1) := by
          unfold increment
          rw [if_neg (ne_maxValue_of_lt (by omega))]
        have hgap : (if createMulticastGap then createsGap i
            else some false) =
              some (decide (LeftOut createMulticastGap i.toInt.toNat)) := by
          cases createMulticastGap with
          | true => exact createsGap_spec hnonneg (by omega)
          | false => rw [if_neg (by simp), decide_eq_false (by simp [LeftOut])]
        rw [if_pos hlt, hgap, hnext,
          SnapshotServer.get_of_inRange hnonneg hindex] at hturn
        -- Whatever the turn did, it added at most the trade it passed.
        have hsent : next = .serving (i + 1) ∧ sent.Sublist
            (if LeftOut createMulticastGap i.toInt.toNat then [] else
              [store.vec_[i.toInt.toNat]]) := by
          by_cases hleft : LeftOut createMulticastGap i.toInt.toNat
          · rw [decide_eq_true hleft] at hturn
            cases hturn
            exact ⟨rfl, List.nil_sublist _⟩
          · rw [decide_eq_false hleft] at hturn
            cases hturn
            rw [if_neg hleft]
            cases sends
            · exact ⟨rfl, List.nil_sublist _⟩
            · exact ⟨rfl, List.Sublist.refl _⟩
        obtain ⟨rfl, hsent⟩ := hsent
        refine ⟨by omega, by omega, ?_⟩
        rw [hsucc, show (i.toInt + 1).toNat = i.toInt.toNat + 1 by omega,
          offered_succ (by omega) hindex]
        exact hsublist.append hsent
      · have hexit : i.toInt.toNat = store.size := by omega
        rw [if_neg hlt] at hturn
        cases hturn
        rw [hexit] at hsublist
        simpa [Broadcast] using hsublist

theorem Broadcast.sublist {server : MulticastServer}
    {wire : List ITCHTradeMsg}
    (hinv : Broadcast createMulticastGap store wire server) :
    wire.Sublist (offered createMulticastGap store store.size) := by
  cases server with
  | finished => exact hinv
  | overflowed => exact hinv.elim
  | serving i =>
      obtain ⟨-, hbound, hsublist⟩ := hinv
      apply hsublist.trans
      apply List.Sublist.filter
      exact (List.take_prefix_take_left (by omega)).sublist

end MulticastServer

/-! ## The whole system -/

structure TickerSystem where
  multicast : MulticastServer
  wire : List ITCHTradeMsg
  recvQueue_ : List ITCHTradeMsg
  handled : List ITCHTradeMsg
  recovery : RecoverySystem
  deriving DecidableEq, Repr

inductive TickerAction
  | broadcast (sends : Bool)
  | recv (msg : ITCHTradeMsg)
  | dequeue
  | recover (action : RecoveryAction)
  deriving DecidableEq, Repr

namespace TickerSystem

open MulticastServer (offered LeftOut)

def initial : TickerSystem :=
  { multicast := .serving 0, wire := [], recvQueue_ := [], handled := [],
    recovery := .initial }

/-- `queueCapacity` bounds `recvQueue_`; the result of its `enqueue` is not
looked at. -/
def step (createMulticastGap : Bool) (queueCapacity : ℕ)
    (store : TradeMsgStore) (system : TickerSystem) :
    TickerAction → Option TickerSystem
  | .broadcast sends =>
      (MulticastServer.serveClients createMulticastGap store sends
        system.multicast).map fun (multicast, sent) =>
          { system with
            multicast := multicast, wire := system.wire ++ sent }
  | .recv msg =>
      if system.recvQueue_.length < queueCapacity then
        some { system with recvQueue_ := system.recvQueue_ ++ [msg] }
      else some system
  | .dequeue =>
      match system.recvQueue_ with
      | [] => none
      | msg :: rest =>
          (system.recovery.step store (.multicast msg)).map fun recovery =>
            { system with
              recvQueue_ := rest
              handled := system.handled ++ [msg]
              recovery := recovery }
  | .recover action =>
      if action.isMulticast then none
      else (system.recovery.step store action).map fun recovery =>
        { system with recovery := recovery }

/-- The network delivers only what was sent. -/
def Carries (system : TickerSystem) : TickerAction → Prop
  | .recv msg => msg ∈ system.wire
  | _ => True

instance (system : TickerSystem) (action : TickerAction) :
    Decidable (Carries system action) :=
  match action with
  | .recv msg => inferInstanceAs (Decidable (msg ∈ system.wire))
  | .broadcast _ | .dequeue | .recover _ => inferInstanceAs (Decidable True)

/-- The trades up to the last one among `msgs`. -/
def upTo (store : TradeMsgStore) (msgs : List ITCHTradeMsg) :
    List ITCHTradeMsg :=
  store.vec_.filter fun trade =>
    msgs.any fun msg => trade.sequence_number ≤ msg.sequence_number

/-- The sequencer goes on after the last of the messages it has handled. -/
structure Reached (sequencer : TradeDataSequencer)
    (handled : List ITCHTradeMsg) : Prop where
  below : ∀ msg ∈ handled, msg.sequence_number.toNat <
    RecoverySystem.resumesAt sequencer
  last : RecoverySystem.resumesAt sequencer = 0 ∨ ∃ msg ∈ handled,
    msg.sequence_number.toNat + 1 = RecoverySystem.resumesAt sequencer

structure InStep (createMulticastGap : Bool) (store : TradeMsgStore)
    (system : TickerSystem) : Prop where
  broadcast : system.multicast.Broadcast createMulticastGap store system.wire
  received : ∀ msg ∈ system.recvQueue_, msg ∈ system.wire
  handled : ∀ msg ∈ system.handled, msg ∈ system.wire
  recovering : RecoverySystem.Recovering store system.recovery
  reached : Reached system.recovery.sequencer system.handled

section Steps

variable {createMulticastGap : Bool} {queueCapacity : ℕ}
  {store : TradeMsgStore} {system next : TickerSystem}

theorem initial_inStep (createMulticastGap : Bool) (store : TradeMsgStore) :
    InStep createMulticastGap store initial where
  broadcast := ⟨by decide, Int.natCast_nonneg _, List.nil_sublist _⟩
  received := by simp [initial]
  handled := by simp [initial]
  recovering := RecoverySystem.initial_recovering store
  reached := ⟨by simp [initial], Or.inl rfl⟩

/-- A datagram is a stored trade that was not left out. -/
theorem InStep.mem_wire (hinv : InStep createMulticastGap store system)
    {msg : ITCHTradeMsg} (hmsg : msg ∈ system.wire) :
    msg ∈ store.vec_ ∧
      ¬ LeftOut createMulticastGap msg.sequence_number.toNat := by
  have hoffered := hinv.broadcast.sublist.mem hmsg
  unfold offered at hoffered
  obtain ⟨htake, hleft⟩ := List.mem_filter.mp hoffered
  exact ⟨List.mem_of_mem_take htake, of_decide_eq_true hleft⟩

theorem nextSequence_le_resumesAt {sequencer : TradeDataSequencer}
    (hcounting : sequencer.Counting) :
    sequencer.nextSequence_.toNat ≤ RecoverySystem.resumesAt sequencer := by
  unfold TradeDataSequencer.Counting at hcounting
  unfold RecoverySystem.resumesAt
  cases hroutine : sequencer.routine with
  | dequeueing => exact Nat.le_refl _
  | terminated _ => exact Nat.le_refl _
  | requesting pending startSeq endSeq =>
      simp only [hroutine] at hcounting
      have hlt : sequencer.nextSequence_.toNat <
          pending.sequence_number.toNat := hcounting.1
      dsimp only
      omega
  | receiving pending messagesReceived numMessages =>
      simp only [hroutine] at hcounting
      dsimp only
      omega

/-- A message beyond the next number moves the point where the sequencer goes
on, the next one does so too, an old one does not. -/
theorem multicast_reached {recovery after : RecoverySystem}
    {handled : List ITCHTradeMsg} {msg : ITCHTradeMsg}
    (hsmall : store.vec_.length < 2 ^ 31) (hmem : msg ∈ store.vec_)
    (hreached : Reached recovery.sequencer handled)
    (hstep : recovery.step store (.multicast msg) = some after) :
    Reached after.sequencer (handled ++ [msg]) := by
  rcases TradeMsgStore.getElem_of_mem (by omega) hmem with ⟨hindex, -⟩
  simp only [RecoverySystem.step, RecoverySystem.stepSequencer,
    Option.map_eq_some_iff] at hstep
  obtain ⟨sequencer, hstep, rfl⟩ := hstep
  obtain ⟨hroutine, hcases⟩ := TradeDataSequencer.step_multicast hstep
  obtain ⟨hbelow, hlast⟩ := hreached
  have hresumes : RecoverySystem.resumesAt recovery.sequencer =
      recovery.sequencer.nextSequence_.toNat := by
    simp only [RecoverySystem.resumesAt, hroutine]
  rw [hresumes] at hbelow hlast
  have hmsg : msg ∈ handled ++ [msg] := by simp
  rcases hcases with ⟨hgap, rfl⟩ | ⟨hold, rfl⟩ | ⟨heq, rfl⟩
  · have hlt : recovery.sequencer.nextSequence_.toNat <
        msg.sequence_number.toNat := hgap
    constructor
    · intro other hother
      dsimp only [RecoverySystem.resumesAt]
      rcases List.mem_append.mp hother with hother | hother
      · have hless := hbelow other hother
        omega
      · rw [List.mem_singleton.mp hother]
        omega
    · exact Or.inr ⟨msg, hmsg, rfl⟩
  · have hlt : msg.sequence_number.toNat <
        recovery.sequencer.nextSequence_.toNat := hold
    have hsame : RecoverySystem.resumesAt { recovery.sequencer with
        dropped := recovery.sequencer.dropped ++ [msg] } =
          recovery.sequencer.nextSequence_.toNat := by
      simp only [RecoverySystem.resumesAt, hroutine]
    constructor
    · intro other hother
      dsimp only
      rw [hsame]
      rcases List.mem_append.mp hother with hother | hother
      · exact hbelow other hother
      · rw [List.mem_singleton.mp hother]
        exact hlt
    · dsimp only
      rw [hsame]
      rcases hlast with hzero | ⟨other, hother, hequal⟩
      · exact Or.inl hzero
      · exact Or.inr ⟨other, List.mem_append_left _ hother, hequal⟩
  · have hsame : RecoverySystem.resumesAt (recovery.sequencer.forward msg) =
        msg.sequence_number.toNat + 1 := by
      simp only [RecoverySystem.resumesAt, TradeDataSequencer.forward,
        hroutine]
      rw [← heq, UInt64.toNat_add, UInt64.toNat_one]
      omega
    rw [← heq] at hbelow
    constructor
    · intro other hother
      dsimp only
      rw [hsame]
      rcases List.mem_append.mp hother with hother | hother
      · have hless := hbelow other hother
        omega
      · rw [List.mem_singleton.mp hother]
        omega
    · exact Or.inr ⟨msg, hmsg, hsame.symm⟩

theorem broadcast_inStep (hsmall : store.size + 1 < 2 ^ 31)
    (hinv : InStep createMulticastGap store system) {sends : Bool}
    (hstep : step createMulticastGap queueCapacity store system
      (.broadcast sends) = some next) :
    InStep createMulticastGap store next := by
  simp only [step, Option.map_eq_some_iff] at hstep
  obtain ⟨⟨multicast, sent⟩, hturn, rfl⟩ := hstep
  exact
    { broadcast :=
        MulticastServer.serveClients_broadcast hsmall hinv.broadcast hturn
      received := fun msg hmsg =>
        List.mem_append_left _ (hinv.received msg hmsg)
      handled := fun msg hmsg =>
        List.mem_append_left _ (hinv.handled msg hmsg)
      recovering := hinv.recovering
      reached := hinv.reached }

theorem recv_inStep (hinv : InStep createMulticastGap store system)
    {msg : ITCHTradeMsg} (hmsg : msg ∈ system.wire)
    (hstep : step createMulticastGap queueCapacity store system (.recv msg) =
      some next) : InStep createMulticastGap store next := by
  dsimp only [step] at hstep
  by_cases hroom : system.recvQueue_.length < queueCapacity
  · rw [if_pos hroom, Option.some.injEq] at hstep
    subst next
    refine { hinv with received := ?_ }
    intro other hother
    rcases List.mem_append.mp hother with hother | hother
    · exact hinv.received other hother
    · rw [List.mem_singleton.mp hother]
      exact hmsg
  · rw [if_neg hroom, Option.some.injEq] at hstep
    rw [← hstep]
    exact hinv

theorem dequeue_inStep (hsmall : store.size + 1 < 2 ^ 31)
    (hinv : InStep createMulticastGap store system)
    (hstep : step createMulticastGap queueCapacity store system .dequeue =
      some next) : InStep createMulticastGap store next := by
  have hsize : store.size = store.vec_.length := rfl
  unfold step at hstep
  cases hqueue : system.recvQueue_ with
  | nil => simp [hqueue] at hstep
  | cons msg rest =>
      simp only [hqueue, Option.map_eq_some_iff] at hstep
      obtain ⟨recovery, hstep, rfl⟩ := hstep
      have hwire : msg ∈ system.wire :=
        hinv.received msg (by simp [hqueue])
      have hmem := (hinv.mem_wire hwire).1
      exact
        { broadcast := hinv.broadcast
          received := fun other hother =>
            hinv.received other (by simp [hqueue, hother])
          handled := by
            intro other hother
            rcases List.mem_append.mp hother with hother | hother
            · exact hinv.handled other hother
            · rw [List.mem_singleton.mp hother]
              exact hwire
          recovering := RecoverySystem.multicast_recovering (by omega)
            hinv.recovering hmem hstep
          reached := multicast_reached (by omega) hmem hinv.reached hstep }

theorem recover_inStep (hsmall : store.size + 1 < 2 ^ 31)
    (hinv : InStep createMulticastGap store system) {action : RecoveryAction}
    (hstep : step createMulticastGap queueCapacity store system
      (.recover action) = some next) :
    InStep createMulticastGap store next := by
  have hsize : store.size = store.vec_.length := rfl
  dsimp only [step] at hstep
  cases hmulticast : action.isMulticast with
  | true => simp [hmulticast] at hstep
  | false =>
      simp only [hmulticast, Bool.false_eq_true, if_false,
        Option.map_eq_some_iff] at hstep
      obtain ⟨recovery, hstep, rfl⟩ := hstep
      obtain ⟨hrecovering, hresumes, -⟩ := RecoverySystem.silent_step
        (by omega) hinv.recovering hmulticast hstep
      have hreached := hinv.reached
      exact
        { broadcast := hinv.broadcast
          received := hinv.received
          handled := hinv.handled
          recovering := hrecovering
          reached :=
            { below := by
                rw [hresumes]
                exact hreached.below
              last := by
                rw [hresumes]
                exact hreached.last } }

theorem step_inStep (hsmall : store.size + 1 < 2 ^ 31)
    (hinv : InStep createMulticastGap store system) {action : TickerAction}
    (hcarries : Carries system action)
    (hstep : step createMulticastGap queueCapacity store system action =
      some next) : InStep createMulticastGap store next := by
  cases action with
  | broadcast sends => exact broadcast_inStep hsmall hinv hstep
  | recv msg => exact recv_inStep hinv hcarries hstep
  | dequeue => exact dequeue_inStep hsmall hinv hstep
  | recover action => exact recover_inStep hsmall hinv hstep

end Steps

/-! ## What has been forwarded -/

variable {store : TradeMsgStore}

theorem filter_sequence_lt (hsmall : store.vec_.length < 2 ^ 31) (stop : ℕ) :
    (store.vec_.filter fun trade => trade.sequence_number.toNat < stop) =
      store.vec_.take stop := by
  have hnumber : ∀ (index : ℕ) (hindex : index < store.vec_.length),
      store.vec_[index].sequence_number.toNat = index := by
    intro index hindex
    rw [store.numbered index hindex, UInt64.toNat_ofNat']
    exact Nat.mod_eq_of_lt (by omega)
  have hbefore : ∀ trade ∈ store.vec_.take stop,
      decide (trade.sequence_number.toNat < stop) = true := by
    intro trade htrade
    obtain ⟨index, hindex, rfl⟩ := List.mem_take_iff_getElem.mp htrade
    rw [decide_eq_true_iff, hnumber index (by omega)]
    omega
  have hafter : ∀ trade ∈ store.vec_.drop stop,
      ¬ decide (trade.sequence_number.toNat < stop) = true := by
    intro trade htrade
    obtain ⟨index, hindex, rfl⟩ := List.mem_drop_iff_getElem.mp htrade
    rw [decide_eq_true_iff, hnumber (stop + index) (by omega)]
    omega
  conv_lhs => rw [← List.take_append_drop stop store.vec_]
  rw [List.filter_append, List.filter_eq_self.mpr hbefore,
    List.filter_eq_nil_iff.mpr hafter, List.append_nil]

theorem Reached.upTo_eq {sequencer : TradeDataSequencer}
    {handled : List ITCHTradeMsg} (hreached : Reached sequencer handled)
    (hsmall : store.vec_.length < 2 ^ 31) :
    upTo store handled =
      store.vec_.take (RecoverySystem.resumesAt sequencer) := by
  rw [← filter_sequence_lt hsmall, upTo]
  congr 1
  funext trade
  rw [Bool.eq_iff_iff, decide_eq_true_iff, List.any_eq_true]
  constructor
  · rintro ⟨msg, hmsg, hle⟩
    have hless := hreached.below msg hmsg
    have hnat : trade.sequence_number.toNat ≤ msg.sequence_number.toNat :=
      of_decide_eq_true hle
    omega
  · intro hlt
    rcases hreached.last with hzero | ⟨msg, hmsg, hlast⟩
    · omega
    · refine ⟨msg, hmsg, decide_eq_true ?_⟩
      rw [UInt64.le_iff_toNat_le]
      omega

/-- At every point of every run, whatever the network loses, repeats or
reorders: each datagram is sent once and in order, no recovery fails, and what
has been forwarded are trades up to the last one handled, without a hole and
all of them once no recovery is under way.  The whole store is forwarded only
if its last trade is not left out on purpose. -/
theorem tickerSystem_forwards (createMulticastGap : Bool) (queueCapacity : ℕ)
    (store : TradeMsgStore) (hsmall : store.size + 1 < 2 ^ 31)
    {system : TickerSystem}
    (hreach : StepSystem.Reachable
      (step createMulticastGap queueCapacity store) Carries initial system) :
    let sequencer := system.recovery.sequencer
    system.wire.Sublist (offered createMulticastGap store store.size) ∧
      (∀ msg ∈ system.handled, msg ∈ system.wire) ∧
      (∀ what, sequencer.routine ≠ .terminated what) ∧
      sequencer.sendQueue_ <+: upTo store system.handled ∧
      (sequencer.routine = .dequeueing →
        sequencer.sendQueue_ = upTo store system.handled) ∧
      (0 < store.size → sequencer.sendQueue_ = store.vec_ →
        ¬ LeftOut createMulticastGap (store.size - 1)) := by
  intro sequencer
  have hsize : store.size = store.vec_.length := rfl
  have hinv : InStep createMulticastGap store system :=
    hreach.invariant (initial_inStep createMulticastGap store)
      (fun hinv hcarries hstep => step_inStep hsmall hinv hcarries hstep)
  have hqueue : sequencer.sendQueue_ =
      store.vec_.take sequencer.nextSequence_.toNat :=
    hinv.recovering.forwarded.queue
  have hreached : Reached sequencer system.handled := hinv.reached
  have hshort : store.vec_.length < 2 ^ 31 := by omega
  have hupTo := hreached.upTo_eq hshort
  have hle : sequencer.nextSequence_.toNat ≤
      RecoverySystem.resumesAt sequencer :=
    nextSequence_le_resumesAt hinv.recovering.counting
  refine ⟨hinv.broadcast.sublist, hinv.handled, ?_, ?_, ?_, ?_⟩
  · intro what hroutine
    have hpending := hinv.recovering.pending
    unfold RecoverySystem.Pending at hpending
    rw [hroutine] at hpending
    exact hpending
  · rw [hqueue, hupTo]
    exact List.take_prefix_take_left hle
  · intro hroutine
    rw [hqueue, hupTo, RecoverySystem.resumesAt, hroutine]
  · intro hpos hall
    have hlength := congrArg List.length hqueue
    rw [hall, List.length_take] at hlength
    rcases hreached.last with hzero | ⟨msg, hmsg, hlast⟩
    · omega
    · obtain ⟨hmem, hleft⟩ := hinv.mem_wire (hinv.handled msg hmsg)
      obtain ⟨hindex, -⟩ := TradeMsgStore.getElem_of_mem (by omega) hmem
      rw [show store.size - 1 = msg.sequence_number.toNat by omega]
      exact hleft

/-- Of three trades the first is refused by `sendto` and the second is lost on
the way; both are recovered when the third arrives, twice. -/
theorem tickerSystem_forwards_three :
    let store : TradeMsgStore :=
      .load [⟨70, 0, 0, 0, true, false⟩, ⟨71, 0, 0, 0, false, false⟩,
        ⟨72, 0, 0, 0, false, true⟩]
    let third : ITCHTradeMsg := ⟨'P', 2, 72, 0, 0, 0, false, true⟩
    let actions : List TickerAction :=
      [.broadcast false, .broadcast true, .broadcast true, .recv third,
        .recv third, .dequeue, .recover .sendRequest, .recover .readRequest,
        .recover .serve, .recover .serve, .recover .receive,
        .recover .receive, .dequeue]
    ∃ system, StepSystem.run (step true 1024 store) actions initial =
        some system ∧
      system.recovery.sequencer.sendQueue_ = upTo store [third, third] := by
  intro store third actions
  have hallowed : StepSystem.AllAllowed (step true 1024 store) Carries actions
      initial := by
    decide
  have hdone : (StepSystem.run (step true 1024 store) actions initial).map
      (fun system => (system.recovery.sequencer.routine, system.handled)) =
        some (.dequeueing, [third, third]) := by
    decide
  obtain ⟨system, hrun, hlast⟩ := Option.map_eq_some_iff.mp hdone
  obtain ⟨hroutine, hhandled⟩ := Prod.mk.injEq _ _ _ _ ▸ hlast
  refine ⟨system, hrun, ?_⟩
  rw [← hhandled]
  exact (tickerSystem_forwards true 1024 store (by decide)
    (StepSystem.reachable_of_run hrun hallowed)).2.2.2.2.1 hroutine

end TickerSystem
end Ticker
end TradingStudies
