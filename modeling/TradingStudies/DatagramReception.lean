import TradingStudies.ReceiverPipeline
import TradingStudies.TradeRecoveryManager

/-!
# Datagrams in recycled slots

`MulticastTradeDataReceiver::run` has `recv` write a datagram over whatever the
slot from the pool holds, and looks only at the sign of the length.  Here the
slots are kept as bytes, and a slot keeps those behind a short datagram.

The rest of the program takes slots off `queue_`, takes slots from the pool
itself, fills slots it holds and gives them back, in any order.  `datagram` and
`put` record what the loop received last and what it has put on `queue_`.  An
`allocate` that finds the pool empty reads out of bounds, as in the receiver
pipeline, and nothing more is said about the run.

The loop is modelled a second time here, for the pipeline keeps records and not
bytes in its slots.  `stepRun_toPipeline` says that it is the same loop: each
step, with the bytes read as records, is a step of the pipeline's receiver.
-/

namespace TradingStudies
namespace Ticker

/-- `recv` into the memory of a message: at most its size, from the front. -/
def PackedTradeMsg.receive (packed : PackedTradeMsg) (datagram : List UInt8) :
    PackedTradeMsg where
  bytes := datagram.take ITCHTradeMsgSize ++
    packed.bytes.drop datagram.length
  size_eq := by
    rw [List.length_append, List.length_take, List.length_drop,
      packed.size_eq]
    omega

structure Reception (poolMsgCount : ℕ) where
  free : List (Fin poolMsgCount)
  memory : Fin poolMsgCount → PackedTradeMsg
  queue_ : List (Fin poolMsgCount)
  others : List (Fin poolMsgCount)
  receiver : Receiver poolMsgCount
  datagram : List UInt8
  put : List (List UInt8 × PackedTradeMsg)
  outOfBounds : Bool

inductive RunAction
  | allocate
  | recvFailed
  | recvDatagram (datagram : List UInt8)
  | deallocate
  | enqueue
  | stop
  deriving DecidableEq, Repr

/-- What the rest of the program does with the slots. -/
inductive OtherAction (poolMsgCount : ℕ)
  | dequeue
  | allocate
  | fill (msg : Fin poolMsgCount) (bytes : List UInt8)
  | deallocate (msg : Fin poolMsgCount)
  deriving DecidableEq, Repr

inductive ReceptionAction (poolMsgCount : ℕ)
  | run (action : RunAction)
  | other (action : OtherAction poolMsgCount)
  deriving DecidableEq, Repr

variable {poolMsgCount : ℕ}

namespace Reception

def initial (memory : Fin poolMsgCount → PackedTradeMsg) :
    Reception poolMsgCount where
  free := (List.finRange poolMsgCount).reverse
  memory := memory
  queue_ := []
  others := []
  receiver := .looping
  datagram := []
  put := []
  outOfBounds := false

section Steps

variable (capacity : ℕ) (reception : Reception poolMsgCount)

def stepRun (action : RunAction) : Option (Reception poolMsgCount) :=
  match reception.receiver, action with
  | .looping, .stop => some { reception with receiver := .stopped }
  | .looping, .allocate =>
      match reception.free with
      | [] => some { reception with outOfBounds := true }
      | msg :: free =>
          some { reception with free := free, receiver := .receiving msg }
  | .receiving msg, .recvFailed =>
      some { reception with receiver := .failed msg }
  | .receiving msg, .recvDatagram datagram =>
      some { reception with
        memory := Function.update reception.memory msg
          ((reception.memory msg).receive datagram)
        datagram := datagram
        receiver := .received msg }
  | .failed msg, .deallocate =>
      some { reception with
        free := msg :: reception.free
        receiver := .looping }
  | .received msg, .enqueue =>
      let (queue, accepted) := Ticker.enqueue capacity reception.queue_ msg
      some { reception with
        queue_ := queue
        receiver := .looping
        put :=
          if accepted then
            reception.put ++ [(reception.datagram, reception.memory msg)]
          else reception.put }
  | _, _ => none

def stepOther (action : OtherAction poolMsgCount) :
    Option (Reception poolMsgCount) :=
  match action with
  | .dequeue =>
      match reception.queue_ with
      | [] => some reception
      | msg :: rest =>
          some { reception with
            queue_ := rest
            others := msg :: reception.others }
  | .allocate =>
      match reception.free with
      | [] => some { reception with outOfBounds := true }
      | msg :: free =>
          some { reception with
            free := free
            others := msg :: reception.others }
  | .fill msg bytes =>
      if msg ∈ reception.others then
        some { reception with
          memory := Function.update reception.memory msg
            ((reception.memory msg).receive bytes) }
      else none
  | .deallocate msg =>
      if msg ∈ reception.others then
        some { reception with
          others := reception.others.erase msg
          free := msg :: reception.free }
      else none

def stepThreads :
    ReceptionAction poolMsgCount → Option (Reception poolMsgCount)
  | .run action => reception.stepRun capacity action
  | .other action => reception.stepOther action

def step (action : ReceptionAction poolMsgCount) :
    Option (Reception poolMsgCount) :=
  if reception.outOfBounds then none
  else reception.stepThreads capacity action

end Steps

/-! ## The loop of the pipeline -/

/-- The same slots with their records read. -/
def toPipeline (reception : Reception poolMsgCount)
    (sendQueue_ : List (Fin poolMsgCount)) (nextSequence_ : UInt64)
    (sequencer : Sequencer poolMsgCount) : Pipeline poolMsgCount where
  free := reception.free
  memory := fun msg => (reception.memory msg).unpack
  recvQueue_ := reception.queue_
  sendQueue_ := sendQueue_
  nextSequence_ := nextSequence_
  receiver := reception.receiver
  sequencer := sequencer
  outOfBounds := reception.outOfBounds

/-- A datagram leaves in the slot the record that its bytes make together with
the old ones. -/
def pipelineAction (reception : Reception poolMsgCount) :
    RunAction → ReceiverAction
  | .allocate => .allocate
  | .recvFailed => .recvFailed
  | .recvDatagram datagram =>
      match reception.receiver with
      | .receiving msg =>
          .recvDatagram ((reception.memory msg).receive datagram).unpack
      | _ => .stop
  | .deallocate => .deallocate
  | .enqueue => .enqueue
  | .stop => .stop

/-- The loop is the one of the receiver pipeline. -/
theorem stepRun_toPipeline {capacity : ℕ}
    {reception next : Reception poolMsgCount} {action : RunAction}
    (hstep : reception.stepRun capacity action = some next)
    (sendQueue_ : List (Fin poolMsgCount)) (nextSequence_ : UInt64)
    (sequencer : Sequencer poolMsgCount) :
    (reception.toPipeline sendQueue_ nextSequence_ sequencer).stepReceiver
        capacity (reception.pipelineAction action) =
      some (next.toPipeline sendQueue_ nextSequence_ sequencer) := by
  have hmemory : ∀ (msg : Fin poolMsgCount) (packed : PackedTradeMsg),
      (fun slot => (Function.update reception.memory msg packed slot).unpack) =
        Function.update (fun slot => (reception.memory slot).unpack) msg
          packed.unpack :=
    fun msg packed =>
      Function.comp_update PackedTradeMsg.unpack reception.memory msg packed
  unfold stepRun at hstep
  unfold Pipeline.stepReceiver
  cases hreceiver : reception.receiver <;> cases action <;>
    simp only [hreceiver, reduceCtorEq] at hstep
  case looping.allocate =>
    cases hfree : reception.free with
    | nil =>
        simp only [hfree, Option.some.injEq] at hstep
        subst next
        simp [toPipeline, pipelineAction, hreceiver, hfree]
    | cons msg free =>
        simp only [hfree, Option.some.injEq] at hstep
        subst next
        simp [toPipeline, pipelineAction, hreceiver, hfree]
  all_goals
    simp only [Option.some.injEq] at hstep
    subst next
    simp [toPipeline, pipelineAction, hreceiver, hmemory]

/-! ## What is put on the queue -/

/-- The message begins with the datagram, as far as both go. -/
def Fronts (datagram : List UInt8) (packed : PackedTradeMsg) : Prop :=
  packed.bytes.take datagram.length = datagram.take ITCHTradeMsgSize

/-- The message is the front of a datagram which is long enough. -/
def WholeDatagram (entry : List UInt8 × PackedTradeMsg) : Prop :=
  ITCHTradeMsgSize ≤ entry.1.length ∧
    entry.2.bytes = entry.1.take ITCHTradeMsgSize

theorem receive_fronts (packed : PackedTradeMsg) (datagram : List UInt8) :
    Fronts datagram (packed.receive datagram) := by
  have hsize := packed.size_eq
  show (datagram.take ITCHTradeMsgSize ++
    packed.bytes.drop datagram.length).take datagram.length = _
  rcases Nat.le_total datagram.length ITCHTradeMsgSize with hshort | hlong
  · rw [List.take_of_length_le hshort, List.take_left]
  · have hnone : packed.bytes.drop datagram.length = [] :=
      List.drop_eq_nil_of_le (by omega)
    rw [hnone, List.append_nil, List.take_take, Nat.min_eq_right hlong]

theorem wholeDatagram_iff {entry : List UInt8 × PackedTradeMsg}
    (hfronts : Fronts entry.1 entry.2) :
    WholeDatagram entry ↔ ITCHTradeMsgSize ≤ entry.1.length := by
  refine and_iff_left_of_imp ?_
  intro hlong
  unfold Fronts at hfronts
  rw [List.take_of_length_le (by rw [entry.2.size_eq]; exact hlong)] at hfronts
  exact hfronts

theorem eq_of_wholeDatagrams {put put' : List (List UInt8 × PackedTradeMsg)}
    (hwhole : ∀ entry ∈ put, WholeDatagram entry)
    (hwhole' : ∀ entry ∈ put', WholeDatagram entry)
    (hdatagrams : put.map Prod.fst = put'.map Prod.fst) : put = put' := by
  induction put generalizing put' with
  | nil =>
      rw [List.map_nil] at hdatagrams
      exact (List.map_eq_nil_iff.mp hdatagrams.symm).symm
  | cons entry rest ih =>
      cases put' with
      | nil => cases hdatagrams
      | cons entry' rest' =>
          rw [List.map_cons, List.map_cons, List.cons.injEq] at hdatagrams
          rw [List.forall_mem_cons] at hwhole hwhole'
          have hbytes : entry.2.bytes = entry'.2.bytes := by
            rw [hwhole.1.2, hwhole'.1.2, hdatagrams.1]
          have hentry : entry = entry' :=
            Prod.ext hdatagrams.1 (PackedTradeMsg.bytes_injective hbytes)
          rw [hentry, ih hwhole.2 hwhole'.2 hdatagrams.2]

/-- How often a slot occurs among those in use and the free ones. -/
def occurrences (reception : Reception poolMsgCount)
    (slot : Fin poolMsgCount) : ℕ :=
  reception.receiver.held.count slot + reception.free.count slot +
    reception.queue_.count slot + reception.others.count slot

structure Consistent (reception : Reception poolMsgCount) : Prop where
  exclusive : ∀ slot, reception.occurrences slot ≤ 1
  slot : ∀ msg, reception.receiver = .received msg →
    Fronts reception.datagram (reception.memory msg)
  put : ∀ entry ∈ reception.put, Fronts entry.1 entry.2

theorem initial_consistent (memory : Fin poolMsgCount → PackedTradeMsg) :
    Consistent (initial memory) where
  exclusive := by
    intro slot
    simp [occurrences, initial, Receiver.held]
  slot := nofun
  put := fun _ hentry => absurd hentry List.not_mem_nil

variable {capacity : ℕ} {reception next : Reception poolMsgCount}

theorem Consistent.not_other (hconsistent : Consistent reception)
    {msg : Fin poolMsgCount} (hreceiver : reception.receiver = .received msg) :
    msg ∉ reception.others := by
  intro hother
  have hcount := List.count_pos_iff.mpr hother
  have hexclusive := hconsistent.exclusive msg
  simp only [occurrences, hreceiver, Receiver.held, List.count_singleton_self]
    at hexclusive
  omega

inductive RunStep (capacity : ℕ) (reception : Reception poolMsgCount) :
    RunAction → Reception poolMsgCount → Prop
  | stopped (hlooping : reception.receiver = .looping) :
      RunStep capacity reception .stop
        { reception with receiver := .stopped }
  | overran (hlooping : reception.receiver = .looping)
      (hfree : reception.free = []) :
      RunStep capacity reception .allocate
        { reception with outOfBounds := true }
  | allocated {msg : Fin poolMsgCount} {free : List (Fin poolMsgCount)}
      (hlooping : reception.receiver = .looping)
      (hfree : reception.free = msg :: free) :
      RunStep capacity reception .allocate
        { reception with free := free, receiver := .receiving msg }
  | failed {msg : Fin poolMsgCount}
      (hreceiving : reception.receiver = .receiving msg) :
      RunStep capacity reception .recvFailed
        { reception with receiver := .failed msg }
  | received {msg : Fin poolMsgCount} {datagram : List UInt8}
      (hreceiving : reception.receiver = .receiving msg) :
      RunStep capacity reception (.recvDatagram datagram)
        { reception with
          memory := Function.update reception.memory msg
            ((reception.memory msg).receive datagram)
          datagram := datagram
          receiver := .received msg }
  | deallocated {msg : Fin poolMsgCount}
      (hfailed : reception.receiver = .failed msg) :
      RunStep capacity reception .deallocate
        { reception with
          free := msg :: reception.free
          receiver := .looping }
  | placed {msg : Fin poolMsgCount}
      (hreceived : reception.receiver = .received msg)
      (hroom : reception.queue_.length < capacity) :
      RunStep capacity reception .enqueue
        { reception with
          queue_ := reception.queue_ ++ [msg]
          receiver := .looping
          put := reception.put ++
            [(reception.datagram, reception.memory msg)] }
  | refused {msg : Fin poolMsgCount}
      (hreceived : reception.receiver = .received msg)
      (hfull : ¬ reception.queue_.length < capacity) :
      RunStep capacity reception .enqueue
        { reception with receiver := .looping }

theorem runStep_of_step {action : RunAction}
    (hstep : reception.stepRun capacity action = some next) :
    RunStep capacity reception action next := by
  cases hreceiver : reception.receiver <;> cases action <;>
    simp only [stepRun, hreceiver, reduceCtorEq] at hstep
  case looping.allocate =>
    split at hstep
    next hfree =>
      cases hstep
      rw [← hreceiver]
      exact .overran hreceiver hfree
    next msg free hfree =>
      cases hstep
      exact .allocated hreceiver hfree
  case looping.stop =>
    cases hstep
    exact .stopped hreceiver
  case receiving.recvFailed msg =>
    cases hstep
    exact .failed hreceiver
  case receiving.recvDatagram msg datagram =>
    cases hstep
    exact .received hreceiver
  case failed.deallocate msg =>
    cases hstep
    exact .deallocated hreceiver
  case received.enqueue msg =>
    by_cases hroom : reception.queue_.length < capacity
    · simp only [Ticker.enqueue, if_pos hroom, if_true] at hstep
      cases hstep
      exact .placed hreceiver hroom
    · simp only [Ticker.enqueue, if_neg hroom, Bool.false_eq_true,
        if_false] at hstep
      cases hstep
      exact .refused hreceiver hroom

/-- A step moves a slot from one place to another, or loses it at a full
queue. -/
theorem RunStep.occurrences_le {action : RunAction}
    (hstep : RunStep capacity reception action next)
    (slot : Fin poolMsgCount) :
    next.occurrences slot ≤ reception.occurrences slot := by
  cases hstep with
  | overran => exact le_rfl
  | stopped hreceiver | failed hreceiver | received hreceiver
  | refused hreceiver =>
      simp [occurrences, hreceiver, Receiver.held]
  | allocated hreceiver hfree =>
      simp only [occurrences, hreceiver, hfree, Receiver.held,
        List.count_cons, List.count_nil]
      omega
  | deallocated hreceiver =>
      simp only [occurrences, hreceiver, Receiver.held, List.count_cons,
        List.count_nil]
      omega
  | placed hreceiver =>
      simp only [occurrences, hreceiver, Receiver.held, List.count_append,
        List.count_nil]
      omega

theorem stepOther_occurrences {action : OtherAction poolMsgCount}
    (hstep : reception.stepOther action = some next)
    (slot : Fin poolMsgCount) :
    next.occurrences slot ≤ reception.occurrences slot := by
  cases action with
  | dequeue =>
      simp only [stepOther] at hstep
      split at hstep
      · cases hstep
        exact le_rfl
      · rename_i msg rest hqueue
        cases hstep
        simp only [occurrences, hqueue, List.count_cons]
        omega
  | allocate =>
      simp only [stepOther] at hstep
      split at hstep
      · cases hstep
        exact le_rfl
      · rename_i msg free hfree
        cases hstep
        simp only [occurrences, hfree, List.count_cons]
        omega
  | fill msg bytes =>
      simp only [stepOther] at hstep
      split at hstep
      · cases hstep
        exact le_rfl
      · cases hstep
  | deallocate msg =>
      simp only [stepOther] at hstep
      split at hstep
      · rename_i hheld
        cases hstep
        have hperm := (List.perm_cons_erase hheld).count_eq slot
        simp only [occurrences, List.count_cons] at hperm ⊢
        omega
      · cases hstep

theorem Consistent.stepRun (hconsistent : Consistent reception)
    {action : RunAction}
    (hstep : reception.stepRun capacity action = some next) :
    Consistent next := by
  have hrun := runStep_of_step hstep
  have hexclusive : ∀ slot, next.occurrences slot ≤ 1 := fun slot =>
    (hrun.occurrences_le slot).trans (hconsistent.exclusive slot)
  cases hrun with
  | overran => exact ⟨hexclusive, hconsistent.slot, hconsistent.put⟩
  | stopped | allocated | failed | deallocated | refused =>
      exact ⟨hexclusive, nofun, hconsistent.put⟩
  | @received msg datagram hreceiving =>
      refine ⟨hexclusive, ?_, hconsistent.put⟩
      rintro other ⟨⟩
      simp only [Function.update_self]
      exact receive_fronts _ datagram
  | @placed msg hreceived =>
      refine ⟨hexclusive, nofun, ?_⟩
      intro entry hentry
      rcases List.mem_append.mp hentry with hold | hnew
      · exact hconsistent.put entry hold
      · rw [List.mem_singleton.mp hnew]
        exact hconsistent.slot msg hreceived

theorem Consistent.stepOther (hconsistent : Consistent reception)
    {action : OtherAction poolMsgCount}
    (hstep : reception.stepOther action = some next) : Consistent next := by
  have hexclusive : ∀ slot, next.occurrences slot ≤ 1 := fun slot =>
    (stepOther_occurrences hstep slot).trans (hconsistent.exclusive slot)
  cases action with
  | dequeue =>
      simp only [Reception.stepOther] at hstep
      split at hstep <;> cases hstep <;>
        exact ⟨hexclusive, hconsistent.slot, hconsistent.put⟩
  | allocate =>
      simp only [Reception.stepOther] at hstep
      split at hstep <;> cases hstep <;>
        exact ⟨hexclusive, hconsistent.slot, hconsistent.put⟩
  | fill msg bytes =>
      simp only [Reception.stepOther] at hstep
      split at hstep
      · rename_i hheld
        cases hstep
        refine ⟨hexclusive, ?_, hconsistent.put⟩
        intro received hreceiver
        have hne : received ≠ msg := by
          rintro rfl
          exact hconsistent.not_other hreceiver hheld
        simp only [Function.update_of_ne hne]
        exact hconsistent.slot received hreceiver
      · cases hstep
  | deallocate msg =>
      simp only [Reception.stepOther] at hstep
      split at hstep
      · cases hstep
        exact ⟨hexclusive, hconsistent.slot, hconsistent.put⟩
      · cases hstep

theorem stepThreads_of_step {action : ReceptionAction poolMsgCount}
    (hstep : reception.step capacity action = some next) :
    reception.outOfBounds = false ∧
      reception.stepThreads capacity action = some next := by
  unfold step at hstep
  split at hstep
  next => cases hstep
  next hdefined => exact ⟨Bool.eq_false_iff.mpr hdefined, hstep⟩

theorem Consistent.step (hconsistent : Consistent reception)
    {action : ReceptionAction poolMsgCount}
    (hstep : reception.step capacity action = some next) :
    Consistent next := by
  have hthreads := (stepThreads_of_step hstep).2
  cases action with
  | run action => exact hconsistent.stepRun hthreads
  | other action => exact hconsistent.stepOther hthreads

/-! ## Runs -/

/-- The datagram whose message is put on the queue is long enough, and an
`allocate` finds a slot. -/
def Passes (capacity : ℕ) (reception : Reception poolMsgCount) :
    ReceptionAction poolMsgCount → Prop
  | .run .allocate | .other .allocate => reception.free ≠ []
  | .run .enqueue => reception.queue_.length < capacity →
      ITCHTradeMsgSize ≤ reception.datagram.length
  | _ => True

instance (capacity : ℕ) (reception : Reception poolMsgCount) :
    ∀ action, Decidable (Passes capacity reception action)
  | .run .allocate | .other .allocate => inferInstanceAs (Decidable (_ ≠ _))
  | .run .enqueue => inferInstanceAs (Decidable (_ → _))
  | .run .recvFailed | .run (.recvDatagram _) | .run .deallocate
  | .run .stop | .other .dequeue | .other (.fill _ _)
  | .other (.deallocate _) => inferInstanceAs (Decidable True)

/-- Nothing was read out of bounds, and the datagrams put on the queue are long
enough. -/
def PutsLong (reception : Reception poolMsgCount) : Prop :=
  reception.outOfBounds = false ∧
    ∀ entry ∈ reception.put, ITCHTradeMsgSize ≤ entry.1.length

theorem step_putsLong_iff {action : ReceptionAction poolMsgCount}
    (hstep : reception.step capacity action = some next) :
    next.PutsLong ↔ Passes capacity reception action ∧
      reception.PutsLong := by
  obtain ⟨hdefined, hthreads⟩ := stepThreads_of_step hstep
  cases action with
  | other action =>
      cases action with
      | allocate =>
          simp only [stepThreads, stepOther] at hthreads
          split at hthreads
          next hfree =>
            cases hthreads
            simp [PutsLong, Passes, hfree]
          next msg free hfree =>
            cases hthreads
            simp [PutsLong, Passes, hfree]
      | dequeue | fill | deallocate =>
          simp only [stepThreads, stepOther] at hthreads
          split at hthreads <;> cases hthreads <;>
            exact (and_iff_right trivial).symm
  | run action =>
      have hrun : RunStep capacity reception action next :=
        runStep_of_step hthreads
      cases hrun with
      | overran _ hfree => simp [PutsLong, Passes, hfree]
      | allocated _ hfree => simp [PutsLong, Passes, hfree]
      | stopped | failed | received | deallocated =>
          exact (and_iff_right trivial).symm
      | placed _ hroom =>
          have hlong : Passes capacity reception (.run .enqueue) ↔
              ITCHTradeMsgSize ≤ reception.datagram.length :=
            ⟨fun h => h hroom, fun h _ => h⟩
          rw [hlong]
          simp only [PutsLong, List.forall_mem_append,
            List.forall_mem_singleton]
          tauto
      | refused _ hfull =>
          exact (and_iff_right fun hroom => absurd hroom hfull).symm

theorem run_putsLong_iff {actions : List (ReceptionAction poolMsgCount)}
    {last : Reception poolMsgCount}
    (hrun : StepSystem.run (step capacity) actions reception = some last) :
    last.PutsLong ↔
      StepSystem.AllAllowed (step capacity) (Passes capacity) actions
          reception ∧ reception.PutsLong := by
  induction actions generalizing reception with
  | nil =>
      rw [StepSystem.run_nil, Option.some.injEq] at hrun
      rw [hrun]
      exact (and_iff_right trivial).symm
  | cons action rest ih =>
      cases hstep : reception.step capacity action with
      | none => simp [StepSystem.run, hstep] at hrun
      | some next =>
          rw [StepSystem.run_cons_of_step hstep] at hrun
          simp only [StepSystem.AllAllowed, hstep]
          rw [ih hrun, step_putsLong_iff hstep]
          tauto

/-! ## Two runs -/

/-- The action without the bytes that others write into their slots. -/
def withoutContents :
    ReceptionAction poolMsgCount → ReceptionAction poolMsgCount
  | .other (.fill msg _) => .other (.fill msg [])
  | action => action

/-- Everything but the contents of the slots. -/
structure SameSchedule (reception other : Reception poolMsgCount) : Prop where
  free : other.free = reception.free
  queue_ : other.queue_ = reception.queue_
  others : other.others = reception.others
  receiver : other.receiver = reception.receiver
  datagram : other.datagram = reception.datagram
  put : other.put.map Prod.fst = reception.put.map Prod.fst
  outOfBounds : other.outOfBounds = reception.outOfBounds

variable {other : Reception poolMsgCount}

theorem SameSchedule.stepRun (hsame : SameSchedule reception other)
    {action : RunAction}
    (hstep : reception.stepRun capacity action = some next) :
    ∃ next', other.stepRun capacity action = some next' ∧
      SameSchedule next next' := by
  rcases hsame with
    ⟨hfree, hqueue, hothers, hreceiver, hdatagram, hput, hdefined⟩
  cases runStep_of_step hstep with
  | stopped hlooping =>
      simp only [Reception.stepRun, hreceiver, hlooping]
      exact ⟨_, rfl, hfree, hqueue, hothers, rfl, hdatagram, hput, hdefined⟩
  | overran hlooping hnone =>
      simp only [Reception.stepRun, hreceiver, hlooping, hfree, hnone]
      exact ⟨_, rfl, rfl, hqueue, hothers, rfl, hdatagram, hput, rfl⟩
  | allocated hlooping hsome =>
      simp only [Reception.stepRun, hreceiver, hlooping, hfree, hsome]
      exact ⟨_, rfl, rfl, hqueue, hothers, rfl, hdatagram, hput, hdefined⟩
  | failed hreceiving =>
      simp only [Reception.stepRun, hreceiver, hreceiving]
      exact ⟨_, rfl, hfree, hqueue, hothers, rfl, hdatagram, hput, hdefined⟩
  | received hreceiving =>
      simp only [Reception.stepRun, hreceiver, hreceiving]
      exact ⟨_, rfl, hfree, hqueue, hothers, rfl, rfl, hput, hdefined⟩
  | deallocated hfailed =>
      simp only [Reception.stepRun, hreceiver, hfailed, hfree]
      exact ⟨_, rfl, rfl, hqueue, hothers, rfl, hdatagram, hput, hdefined⟩
  | placed hreceived hroom =>
      simp only [Reception.stepRun, hreceiver, hreceived, Ticker.enqueue,
        hqueue, if_pos hroom, if_true]
      refine ⟨_, rfl, hfree, rfl, hothers, rfl, hdatagram, ?_, hdefined⟩
      rw [List.map_append, List.map_append, hput, hdatagram]
      rfl
  | refused hreceived hfull =>
      simp only [Reception.stepRun, hreceiver, hreceived, Ticker.enqueue,
        hqueue, if_neg hfull, Bool.false_eq_true, if_false]
      exact ⟨_, rfl, hfree, rfl, hothers, rfl, hdatagram, hput, hdefined⟩

theorem SameSchedule.stepOther (hsame : SameSchedule reception other)
    {action action' : OtherAction poolMsgCount}
    (haction : withoutContents (.other action') =
      withoutContents (.other action))
    (hstep : reception.stepOther action = some next) :
    ∃ next', other.stepOther action' = some next' ∧
      SameSchedule next next' := by
  have hsame' := hsame
  rcases hsame' with
    ⟨hfree, hqueue, hothers, hreceiver, hdatagram, hput, hdefined⟩
  cases action <;> cases action' <;>
    simp only [withoutContents, reduceCtorEq, ReceptionAction.other.injEq,
      OtherAction.fill.injEq, OtherAction.deallocate.injEq, and_true]
      at haction
  case dequeue.dequeue =>
    simp only [Reception.stepOther, hqueue] at hstep ⊢
    split at hstep
    · cases hstep
      exact ⟨_, rfl, hsame⟩
    · cases hstep
      exact ⟨_, rfl, hfree, rfl, congrArg (List.cons _) hothers, hreceiver,
        hdatagram, hput, hdefined⟩
  case allocate.allocate =>
    simp only [Reception.stepOther, hfree] at hstep ⊢
    split at hstep
    · cases hstep
      exact ⟨_, rfl, rfl, hqueue, hothers, hreceiver, hdatagram, hput, rfl⟩
    · cases hstep
      exact ⟨_, rfl, rfl, hqueue, congrArg (List.cons _) hothers, hreceiver,
        hdatagram, hput, hdefined⟩
  case fill.fill msg bytes msg' bytes' =>
    subst haction
    simp only [Reception.stepOther, hothers] at hstep ⊢
    split at hstep
    · rename_i hheld
      cases hstep
      rw [if_pos hheld]
      exact ⟨_, rfl, hfree, hqueue, rfl, hreceiver, hdatagram, hput, hdefined⟩
    · cases hstep
  case deallocate.deallocate msg msg' =>
    subst haction
    simp only [Reception.stepOther, hothers] at hstep ⊢
    split at hstep
    · rename_i hheld
      cases hstep
      rw [if_pos hheld]
      exact ⟨_, rfl, congrArg (List.cons _) hfree, hqueue, rfl, hreceiver,
        hdatagram, hput, hdefined⟩
    · cases hstep

theorem SameSchedule.step (hsame : SameSchedule reception other)
    {action action' : ReceptionAction poolMsgCount}
    (haction : withoutContents action' = withoutContents action)
    (hstep : reception.step capacity action = some next) :
    ∃ next', other.step capacity action' = some next' ∧
      SameSchedule next next' := by
  obtain ⟨hdefined, hthreads⟩ := stepThreads_of_step hstep
  have hother : other.outOfBounds = false := hsame.outOfBounds.trans hdefined
  unfold Reception.step
  rw [if_neg (Bool.eq_false_iff.mp hother)]
  cases action with
  | run action =>
      have heq : action' = .run action := by
        cases action' with
        | run action' => exact haction
        | other action' => cases action' <;> cases haction
      subst heq
      exact hsame.stepRun hthreads
  | other action =>
      cases action' with
      | run action' => cases action <;> cases haction
      | other action' => exact hsame.stepOther haction hthreads

/-- The same schedule leads through the same datagrams, whatever the slots
hold. -/
theorem SameSchedule.run (hsame : SameSchedule reception other)
    {actions actions' : List (ReceptionAction poolMsgCount)}
    {last : Reception poolMsgCount}
    (hactions : actions'.map withoutContents = actions.map withoutContents)
    (hrun : StepSystem.run (Reception.step capacity) actions reception =
      some last) :
    ∃ last', StepSystem.run (Reception.step capacity) actions' other =
        some last' ∧ SameSchedule last last' := by
  induction actions generalizing reception other actions' with
  | nil =>
      rw [List.map_nil, List.map_eq_nil_iff] at hactions
      subst hactions
      rw [StepSystem.run_nil, Option.some.injEq] at hrun
      subst hrun
      exact ⟨other, rfl, hsame⟩
  | cons action rest ih =>
      cases actions' with
      | nil => cases hactions
      | cons action' rest' =>
          rw [List.map_cons, List.map_cons, List.cons.injEq] at hactions
          cases hstep : reception.step capacity action with
          | none => simp [StepSystem.run, hstep] at hrun
          | some next =>
              rw [StepSystem.run_cons_of_step hstep] at hrun
              obtain ⟨next', hstep', hnext⟩ := hsame.step hactions.1 hstep
              rw [StepSystem.run_cons_of_step hstep']
              exact ih hnext hactions.2 hrun

/-- Nothing is read out of bounds, the messages on the queue are the datagrams,
and they do not depend on what the slots held before, if and only if each
datagram put on the queue has the size of a message and no `allocate` finds the
pool empty. -/
theorem multicastReceiver_wholeDatagrams_iff
    {memory : Fin poolMsgCount → PackedTradeMsg}
    {actions : List (ReceptionAction poolMsgCount)}
    {last : Reception poolMsgCount}
    (hrun : StepSystem.run (step capacity) actions (initial memory) =
      some last) :
    (last.outOfBounds = false ∧ (∀ entry ∈ last.put, WholeDatagram entry) ∧
        ∀ (memory' : Fin poolMsgCount → PackedTradeMsg)
          (actions' : List (ReceptionAction poolMsgCount)),
          actions'.map withoutContents = actions.map withoutContents →
            ∃ last', StepSystem.run (step capacity) actions'
                (initial memory') = some last' ∧
              last'.put = last.put) ↔
      StepSystem.AllAllowed (step capacity) (Passes capacity) actions
        (initial memory) := by
  have hfronts : ∀ {memory : Fin poolMsgCount → PackedTradeMsg}
      {actions : List (ReceptionAction poolMsgCount)}
      {last : Reception poolMsgCount},
      StepSystem.run (step capacity) actions (initial memory) = some last →
        Consistent last := fun hrun =>
    StepSystem.run_invariant (fun _ _ _ hinv hstep => hinv.step hstep)
      (initial_consistent _) hrun
  have hlong : last.PutsLong ↔ StepSystem.AllAllowed (step capacity)
      (Passes capacity) actions (initial memory) :=
    (run_putsLong_iff hrun).trans
      (and_iff_left ⟨rfl, fun _ hentry => absurd hentry List.not_mem_nil⟩)
  rw [← hlong]
  constructor
  · rintro ⟨hdefined, hwhole, -⟩
    exact ⟨hdefined, fun entry hentry => (hwhole entry hentry).1⟩
  · rintro ⟨hdefined, hputs⟩
    have hwhole : ∀ entry ∈ last.put, WholeDatagram entry := fun entry hentry =>
      (wholeDatagram_iff ((hfronts hrun).put entry hentry)).mpr
        (hputs entry hentry)
    refine ⟨hdefined, hwhole, ?_⟩
    intro memory' actions' hactions
    have hsame : SameSchedule (initial memory) (initial memory') :=
      ⟨rfl, rfl, rfl, rfl, rfl, rfl, rfl⟩
    obtain ⟨last', hrun', hlast⟩ := hsame.run hactions hrun
    refine ⟨last', hrun', ?_⟩
    -- The datagrams are the same, and with them the messages.
    have hwhole' : ∀ entry ∈ last'.put, WholeDatagram entry := by
      intro entry hentry
      apply (wholeDatagram_iff ((hfronts hrun').put entry hentry)).mpr
      have hmem : entry.1 ∈ last.put.map Prod.fst := by
        rw [← hlast.put]
        exact List.mem_map_of_mem hentry
      obtain ⟨original, horiginal, heq⟩ := List.mem_map.mp hmem
      rw [← heq]
      exact hputs original horiginal
    exact eq_of_wholeDatagrams hwhole' hwhole hlast.put

/-- A datagram longer than a message, in a slot that comes back later. -/
theorem multicastReceiver_wholeDatagrams_two :
    let first := ITCHTradeMsg.pack ⟨'P', 5, 70, 0, 0, 0, true, false⟩
    let second := ITCHTradeMsg.pack ⟨'P', 6, 71, 0, 0, 0, false, true⟩
    let slot : Fin (2 ^ 0) := ⟨0, by decide⟩
    let actions : List (ReceptionAction (2 ^ 0)) :=
      [.run .allocate, .run (.recvDatagram (first.bytes ++ [1, 2, 3])),
        .run .enqueue, .other .dequeue, .other (.deallocate slot),
        .run .allocate, .run (.recvDatagram second.bytes), .run .enqueue]
    ∃ last, StepSystem.run (step 4) actions (initial fun _ => second) =
        some last ∧ ∀ entry ∈ last.put, WholeDatagram entry := by
  intro first second slot actions
  have hsome : (StepSystem.run (step 4) actions
      (initial fun _ => second)).isSome := by
    decide
  obtain ⟨last, hrun⟩ := Option.isSome_iff_exists.mp hsome
  have hlong : StepSystem.AllAllowed (step 4) (Passes 4) actions
      (initial fun _ => second) := by
    decide
  exact ⟨last, hrun,
    ((multicastReceiver_wholeDatagrams_iff hrun).mpr hlong).2.1⟩

/-- An empty datagram puts the message once more that its slot still holds. -/
theorem multicastReceiver_replays_stale :
    let old := ITCHTradeMsg.pack ⟨'P', 5, 70, 0, 0, 0, true, false⟩
    let other := ITCHTradeMsg.pack ⟨'P', 6, 71, 0, 0, 0, false, true⟩
    let slot : Fin (2 ^ 0) := ⟨0, by decide⟩
    let put := fun (memory : Fin (2 ^ 0) → PackedTradeMsg) actions =>
      (StepSystem.run (step 4) actions (initial memory)).map Reception.put
    put (fun _ => other)
        [.run .allocate, .run (.recvDatagram old.bytes), .run .enqueue,
          .other .dequeue, .other (.deallocate slot),
          .run .allocate, .run (.recvDatagram []), .run .enqueue] =
        some [(old.bytes, old), ([], old)] ∧
      ¬ WholeDatagram ([], old) ∧
      put (fun _ => old)
          [.run .allocate, .run (.recvDatagram []), .run .enqueue] ≠
        put (fun _ => other)
          [.run .allocate, .run (.recvDatagram []), .run .enqueue] := by
  intro old other slot put
  refine ⟨by decide, ?_, by decide⟩
  intro hwhole
  exact absurd hwhole.1 (by decide)

end Reception

end Ticker
end TradingStudies
