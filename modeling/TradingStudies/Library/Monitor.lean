import TradingStudies.Library.SlotPartition
import TradingStudies.Library.StepSystem

/-!
# Monitors

A monitor is a resource behind a mutex, with condition variables.  An operation
locks the mutex, waits on its condition variable until its predicate holds,
changes the resource, wakes one waiting thread and unlocks.  Each of these is a
step of its own, so that any number of threads interleave at every point.

Three rules are proved for all monitors.  The mutex excludes, so that the
resource changes as in a sequential run of the operations in the order of their
bodies.  If every change of the resource is announced, no wakeup is lost: a
thread is left waiting only while its predicate is false.  And a call needs
boundedly many steps, so that the threads settle once no more calls are made.
-/

structure Monitor (Resource Cond Op Result : Type*) where
  waitsOn : Op → Option Cond
  ready : Op → Resource → Bool
  body : Op → Resource → Resource × Result
  notifies : Op → Option Cond

namespace Monitor

/-- Where a thread stands in a call of an operation. -/
inductive Phase (Op Result : Type*)
  | idle
  | locking (op : Op)
  | testing (op : Op)
  | waiting (op : Op)
  | updating (op : Op)
  | notifying (op : Op) (result : Result)
  | unlocking (op : Op) (result : Result)
  deriving DecidableEq, Repr

/-- `log` lists the bodies that were carried out, oldest first. -/
structure State (Thread Resource Op Result : Type*) where
  resource : Resource
  mutex : Option Thread
  phases : Thread → Phase Op Result
  log : List (Thread × Op × Result)

/-- A spurious wakeup ends a wait without a notification. -/
inductive Action (Thread Op : Type*)
  | call (thread : Thread) (op : Op)
  | lock (thread : Thread)
  | test (thread : Thread)
  | body (thread : Thread)
  | notify (thread : Thread) (woken : Option Thread)
  | unlock (thread : Thread)
  | spurious (thread : Thread)
  deriving DecidableEq, Repr

variable {Resource Cond Op Result Thread : Type*}
  (monitor : Monitor Resource Cond Op Result)

/-- The predicate of the wait; an operation without a condition variable does
not wait. -/
def passes (op : Op) (resource : Resource) : Bool :=
  (monitor.waitsOn op).isNone || monitor.ready op resource

def Phase.waitsAt [DecidableEq Cond] (cond : Cond) : Phase Op Result → Bool
  | .waiting op => monitor.waitsOn op = some cond
  | _ => false

def Phase.inside : Phase Op Result → Bool
  | .testing _ | .updating _ | .notifying _ _ | .unlocking _ _ => true
  | .idle | .locking _ | .waiting _ => false

def Phase.resting : Phase Op Result → Bool
  | .idle | .waiting _ => true
  | _ => false

def Action.internal : Action Thread Op → Bool
  | .call _ _ | .spurious _ => false
  | _ => true

def initial (Thread : Type*) (Op Result : Type*) (resource : Resource) :
    State Thread Resource Op Result where
  resource := resource
  mutex := none
  phases := fun _ => .idle
  log := []

/-- How many steps a thread has before it at most.  A wakeup is paid for by the
thread that gives it. -/
def Phase.weight : Phase Op Result → ℕ
  | .idle => 0
  | .unlocking _ _ => 1
  | .notifying _ _ => 4
  | .updating _ => 5
  | .waiting _ => 5
  | .testing _ => 6
  | .locking _ => 7

/-- The mutex is held by the one thread that is inside, and a body runs only
where its predicate holds. -/
structure Consistent (state : State Thread Resource Op Result) : Prop where
  inside : ∀ thread, (state.phases thread).inside = true ↔
    state.mutex = some thread
  passed : ∀ thread op, state.phases thread = .updating op →
    monitor.passes op state.resource = true
  waits : ∀ thread op, state.phases thread = .waiting op →
    monitor.waitsOn op ≠ none

theorem initial_consistent (resource : Resource) :
    monitor.Consistent (initial Thread Op Result resource) := by
  constructor
  · intro thread
    simp [initial, Phase.inside]
  · intro thread op hphase
    simp [initial] at hphase
  · intro thread op hphase
    simp [initial] at hphase

variable {monitor} in
theorem Consistent.outside {state : State Thread Resource Op Result}
    {thread other : Thread} (hconsistent : monitor.Consistent state)
    (hinside : (state.phases thread).inside = true) (hne : other ≠ thread) :
    (state.phases other).inside = false := by
  have hmutex := (hconsistent.inside thread).mp hinside
  by_contra hother
  have hother := (hconsistent.inside other).mp (by simpa using hother)
  rw [hmutex] at hother
  exact hne (Option.some.inj hother).symm

section Steps

variable [DecidableEq Thread]

def State.setPhase (state : State Thread Resource Op Result) (thread : Thread)
    (phase : Phase Op Result) : State Thread Resource Op Result :=
  { state with phases := Function.update state.phases thread phase }

@[simp] theorem State.setPhase_resource
    (state : State Thread Resource Op Result) (thread : Thread)
    (phase : Phase Op Result) :
    (state.setPhase thread phase).resource = state.resource := rfl

variable [DecidableEq Cond]

/-- `notify_one`: any of the threads that wait is woken, if there is one.  An
operation that notifies nobody goes on. -/
def notifyOne [Fintype Thread] (state : State Thread Resource Op Result) :
    Option Cond → Option Thread → Option (State Thread Resource Op Result)
  | none, none => some state
  | none, some _ => none
  | some cond, none =>
      if ∀ thread, (state.phases thread).waitsAt monitor cond = false then
        some state
      else none
  | some cond, some thread =>
      match state.phases thread with
      | .waiting op =>
          if monitor.waitsOn op = some cond then
            some (state.setPhase thread (.locking op))
          else none
      | _ => none

def step [Fintype Thread] (state : State Thread Resource Op Result) :
    Action Thread Op → Option (State Thread Resource Op Result)
  | .call thread op =>
      match state.phases thread with
      | .idle => some (state.setPhase thread (.locking op))
      | _ => none
  | .lock thread =>
      match state.phases thread, state.mutex with
      | .locking op, none =>
          some { state.setPhase thread (.testing op) with mutex := some thread }
      | _, _ => none
  | .test thread =>
      match state.phases thread with
      | .testing op =>
          if monitor.passes op state.resource then
            some (state.setPhase thread (.updating op))
          -- Blocking and unlocking are one step of `wait`.
          else
            some { state.setPhase thread (.waiting op) with mutex := none }
      | _ => none
  | .body thread =>
      match state.phases thread with
      | .updating op =>
          let (resource, result) := monitor.body op state.resource
          some { state.setPhase thread (.notifying op result) with
            resource := resource
            log := state.log ++ [(thread, op, result)] }
      | _ => none
  | .notify thread woken =>
      match state.phases thread with
      | .notifying op result =>
          (notifyOne monitor state (monitor.notifies op) woken).map fun next =>
            next.setPhase thread (.unlocking op result)
      | _ => none
  | .unlock thread =>
      match state.phases thread with
      | .unlocking _ _ =>
          some { state.setPhase thread .idle with mutex := none }
      | _ => none
  | .spurious thread =>
      match state.phases thread with
      | .waiting op => some (state.setPhase thread (.locking op))
      | _ => none

/-- What the steps do. -/
inductive Moves (state : State Thread Resource Op Result) :
    Action Thread Op → State Thread Resource Op Result → Prop
  | call {thread : Thread} {op : Op} (hphase : state.phases thread = .idle) :
      Moves state (.call thread op) (state.setPhase thread (.locking op))
  | lock {thread : Thread} {op : Op}
      (hphase : state.phases thread = .locking op)
      (hmutex : state.mutex = none) :
      Moves state (.lock thread)
        { state.setPhase thread (.testing op) with mutex := some thread }
  | passed {thread : Thread} {op : Op}
      (hphase : state.phases thread = .testing op)
      (hpasses : monitor.passes op state.resource = true) :
      Moves state (.test thread) (state.setPhase thread (.updating op))
  | blocked {thread : Thread} {op : Op}
      (hphase : state.phases thread = .testing op)
      (hpasses : monitor.passes op state.resource = false) :
      Moves state (.test thread)
        { state.setPhase thread (.waiting op) with mutex := none }
  | body {thread : Thread} {op : Op} {resource : Resource} {result : Result}
      (hphase : state.phases thread = .updating op)
      (hbody : monitor.body op state.resource = (resource, result)) :
      Moves state (.body thread)
        { state.setPhase thread (.notifying op result) with
          resource := resource
          log := state.log ++ [(thread, op, result)] }
  | unheard {thread : Thread} {op : Op} {result : Result}
      (hphase : state.phases thread = .notifying op result)
      (hnone : ∀ cond, monitor.notifies op = some cond →
        ∀ other, (state.phases other).waitsAt monitor cond = false) :
      Moves state (.notify thread none)
        (state.setPhase thread (.unlocking op result))
  | woken {thread woken : Thread} {op other : Op} {result : Result}
      {cond : Cond} (hphase : state.phases thread = .notifying op result)
      (hcond : monitor.notifies op = some cond)
      (hwaiting : state.phases woken = .waiting other)
      (hwaits : monitor.waitsOn other = some cond) :
      Moves state (.notify thread (some woken))
        ((state.setPhase woken (.locking other)).setPhase thread
          (.unlocking op result))
  | unlock {thread : Thread} {op : Op} {result : Result}
      (hphase : state.phases thread = .unlocking op result) :
      Moves state (.unlock thread)
        { state.setPhase thread .idle with mutex := none }
  | spurious {thread : Thread} {op : Op}
      (hphase : state.phases thread = .waiting op) :
      Moves state (.spurious thread) (state.setPhase thread (.locking op))

variable {monitor}

theorem moves_of_step [Fintype Thread]
    {state next : State Thread Resource Op Result} {action : Action Thread Op}
    (hstep : monitor.step state action = some next) :
    monitor.Moves state action next := by
  cases action with
  | call thread op =>
      cases hphase : state.phases thread <;> simp [step, hphase] at hstep
      subst next
      exact .call hphase
  | lock thread =>
      cases hphase : state.phases thread <;> simp [step, hphase] at hstep
      cases hmutex : state.mutex <;> simp [hmutex] at hstep
      subst next
      exact .lock hphase hmutex
  | test thread =>
      cases hphase : state.phases thread <;> simp [step, hphase] at hstep
      case testing op =>
        cases hpasses : monitor.passes op state.resource
        · simp [hpasses] at hstep
          subst next
          exact .blocked hphase hpasses
        · simp [hpasses] at hstep
          subst next
          exact .passed hphase hpasses
  | body thread =>
      cases hphase : state.phases thread <;> simp [step, hphase] at hstep
      subst next
      exact .body hphase rfl
  | notify thread woken =>
      cases hphase : state.phases thread <;> simp [step, hphase] at hstep
      case notifying op result =>
        obtain ⟨middle, hmiddle, rfl⟩ := hstep
        cases woken with
        | none =>
            cases hcond : monitor.notifies op with
            | none =>
                rw [hcond] at hmiddle
                cases hmiddle
                exact .unheard hphase (by simp [hcond])
            | some cond =>
                simp only [hcond, notifyOne] at hmiddle
                split at hmiddle
                · next hnone =>
                    cases hmiddle
                    refine .unheard hphase ?_
                    intro cond' hcond'
                    rw [hcond] at hcond'
                    cases hcond'
                    exact hnone
                · cases hmiddle
        | some woken =>
            cases hcond : monitor.notifies op with
            | none =>
                rw [hcond] at hmiddle
                cases hmiddle
            | some cond =>
                simp only [hcond, notifyOne] at hmiddle
                split at hmiddle
                · next other hwaiting =>
                    split at hmiddle
                    · next hwaits =>
                        cases hmiddle
                        exact .woken hphase hcond hwaiting hwaits
                    · cases hmiddle
                · cases hmiddle
  | unlock thread =>
      cases hphase : state.phases thread <;> simp [step, hphase] at hstep
      subst next
      exact .unlock hphase
  | spurious thread =>
      cases hphase : state.phases thread <;> simp [step, hphase] at hstep
      subst next
      exact .spurious hphase

/-! ## Mutual exclusion and the order of the bodies -/

section Exclusion

variable {state next : State Thread Resource Op Result}
  {action : Action Thread Op} {thread : Thread}

omit [DecidableEq Cond] in
/-- A step of one thread.  It may change the resource only inside. -/
theorem Consistent.move (hconsistent : monitor.Consistent state)
    {phase : Phase Op Result} {resource : Resource} {mutex : Option Thread}
    {log : List (Thread × Op × Result)}
    (hinside : phase.inside = true ↔ mutex = some thread)
    (hothers : ∀ other, other ≠ thread →
      (mutex = some other ↔ state.mutex = some other))
    (hpassed : ∀ op, phase = .updating op →
      monitor.passes op resource = true)
    (hwaits : ∀ op, phase = .waiting op → monitor.waitsOn op ≠ none)
    (hresource : resource = state.resource ∨
      (state.phases thread).inside = true) :
    monitor.Consistent
      { resource := resource
        mutex := mutex
        phases := Function.update state.phases thread phase
        log := log } := by
  constructor
  · intro other
    show (Function.update state.phases thread phase other).inside = true ↔
      mutex = some other
    by_cases hother : other = thread
    · subst other
      rw [Function.update_self]
      exact hinside
    · rw [Function.update_of_ne hother, hconsistent.inside other,
        hothers other hother]
  · intro other op hphase
    change Function.update state.phases thread phase other = .updating op
      at hphase
    by_cases hother : other = thread
    · subst other
      rw [Function.update_self] at hphase
      exact hpassed op hphase
    · rw [Function.update_of_ne hother] at hphase
      show monitor.passes op resource = true
      rcases hresource with heq | hinside
      · rw [heq]
        exact hconsistent.passed other op hphase
      · have houtside := hconsistent.outside hinside hother
        rw [hphase] at houtside
        cases houtside
  · intro other op hphase
    change Function.update state.phases thread phase other = .waiting op
      at hphase
    by_cases hother : other = thread
    · subst other
      rw [Function.update_self] at hphase
      exact hwaits op hphase
    · rw [Function.update_of_ne hother] at hphase
      exact hconsistent.waits other op hphase

omit [DecidableEq Cond] in
/-- A step that leaves the mutex and the resource alone. -/
theorem Consistent.setPhase (hconsistent : monitor.Consistent state)
    {phase : Phase Op Result}
    (hinside : phase.inside = (state.phases thread).inside)
    (hpassed : ∀ op, phase = .updating op →
      monitor.passes op state.resource = true)
    (hwaits : ∀ op, phase = .waiting op → monitor.waitsOn op ≠ none) :
    monitor.Consistent (state.setPhase thread phase) := by
  apply hconsistent.move _ _ hpassed hwaits (Or.inl rfl)
  · rw [hinside]
    exact hconsistent.inside thread
  · intro other _
    rfl

omit [DecidableEq Cond] in
theorem Consistent.unlock (hconsistent : monitor.Consistent state)
    {phase : Phase Op Result} (hinside : (state.phases thread).inside = true)
    (hphase : phase.inside = false)
    (hwaits : ∀ op, phase = .waiting op → monitor.waitsOn op ≠ none) :
    monitor.Consistent { state.setPhase thread phase with mutex := none } := by
  have hmutex := (hconsistent.inside thread).mp hinside
  apply hconsistent.move
  · simp [hphase]
  · intro other hne
    simp [hmutex, Ne.symm hne]
  · intro op heq
    rw [heq] at hphase
    cases hphase
  · exact hwaits
  · exact Or.inl rfl

theorem moves_consistent (hconsistent : monitor.Consistent state)
    (hmoves : monitor.Moves state action next) : monitor.Consistent next := by
  cases hmoves with
  | call hphase =>
      apply hconsistent.setPhase
      · simp [hphase, Phase.inside]
      · simp
      · simp
  | lock hphase hmutex =>
      apply hconsistent.move
      · simp [Phase.inside]
      · intro other hne
        simp [hmutex, Ne.symm hne]
      · simp
      · simp
      · exact Or.inl rfl
  | passed hphase hpasses =>
      apply hconsistent.setPhase
      · simp [hphase, Phase.inside]
      · intro op heq
        cases heq
        exact hpasses
      · simp
  | blocked hphase hpasses =>
      apply hconsistent.unlock _ rfl
      · intro op heq hnone
        cases heq
        simp [passes, hnone] at hpasses
      · rw [hphase]
        rfl
  | @body thread op resource result hphase hbody =>
      have hinside : (state.phases thread).inside = true := by
        rw [hphase]
        rfl
      apply hconsistent.move _ _ _ _ (Or.inr hinside)
      · have hmutex := (hconsistent.inside thread).mp hinside
        simp [Phase.inside, State.setPhase, hmutex]
      · intro other _
        rfl
      · simp
      · simp
  | unheard hphase hnone =>
      apply hconsistent.setPhase
      · simp [hphase, Phase.inside]
      · simp
      · simp
  | @woken thread woken op other result cond hphase hcond hwaiting hwaits =>
      have hne : thread ≠ woken := by
        rintro rfl
        rw [hphase] at hwaiting
        cases hwaiting
      have hmiddle : monitor.Consistent
          (state.setPhase woken (.locking other)) := by
        apply hconsistent.setPhase
        · simp [hwaiting, Phase.inside]
        · simp
        · simp
      apply hmiddle.setPhase
      · simp [State.setPhase, Function.update_of_ne hne, hphase, Phase.inside]
      · simp
      · simp
  | unlock hphase =>
      apply hconsistent.unlock _ rfl
      · simp
      · rw [hphase]
        rfl
  | spurious hphase =>
      apply hconsistent.setPhase
      · simp [hphase, Phase.inside]
      · simp
      · simp

/-- The bodies follow one another, each where its predicate holds. -/
theorem moves_resource (hconsistent : monitor.Consistent state)
    (hmoves : monitor.Moves state action next) :
    (next.resource = state.resource ∧ next.log = state.log) ∨
      ∃ thread op, action = .body thread ∧
        state.phases thread = .updating op ∧
        monitor.passes op state.resource = true ∧
        next.resource = (monitor.body op state.resource).1 ∧
        next.log = state.log ++
          [(thread, op, (monitor.body op state.resource).2)] := by
  cases hmoves with
  | @body thread op resource result hphase hbody =>
      refine Or.inr ⟨thread, op, rfl, hphase, ?_, ?_, ?_⟩
      · exact hconsistent.passed thread op hphase
      · rw [hbody]
      · rw [hbody]
  | _ => exact Or.inl ⟨rfl, rfl⟩

end Exclusion

/-! ## Rules for whole runs -/

/-- Each entry of a log meets `Good` with what was logged before it. -/
def EachEntry {Entry : Type*} (Good : List Entry → Entry → Prop)
    (log : List Entry) : Prop :=
  ∀ before entry after, log = before ++ entry :: after → Good before entry

theorem eachEntry_nil {Entry : Type*} (Good : List Entry → Entry → Prop) :
    EachEntry Good [] := by
  intro before entry after hlog
  simp at hlog

theorem EachEntry.snoc {Entry : Type*} {Good : List Entry → Entry → Prop}
    {log : List Entry} {last : Entry} (hlog : EachEntry Good log)
    (hlast : Good log last) : EachEntry Good (log ++ [last]) := by
  intro before entry after heq
  rcases List.eq_nil_or_concat after with rfl | ⟨rest, final, rfl⟩
  · obtain ⟨rfl, hentry⟩ := List.append_inj' heq rfl
    obtain rfl : last = entry := List.head_eq_of_cons_eq hentry
    exact hlast
  · apply hlog before entry rest
    rw [List.concat_eq_append, ← List.cons_append, ← List.append_assoc] at heq
    exact List.append_inj_left' heq rfl

section Runs

variable [Fintype Thread] {start : Resource}
  {Allowed : State Thread Resource Op Result → Action Thread Op → Prop}
  {state : State Thread Resource Op Result}

theorem reachable_consistent
    (hreach : StepSystem.Reachable monitor.step Allowed
      (initial Thread Op Result start) state) : monitor.Consistent state := by
  apply hreach.invariant (monitor.initial_consistent start)
  intro state next action hconsistent _ hstep
  exact moves_consistent hconsistent (moves_of_step hstep)

/-- What the bodies keep, one after the other, is kept by every run of any
number of threads. -/
theorem reachable_invariant
    (Inv : Resource → List (Thread × Op × Result) → Prop)
    (hreach : StepSystem.Reachable monitor.step Allowed
      (initial Thread Op Result start) state)
    (hstart : Inv start [])
    (hbody : ∀ resource log thread op, Inv resource log →
      monitor.passes op resource = true →
      Inv (monitor.body op resource).1
        (log ++ [(thread, op, (monitor.body op resource).2)])) :
    Inv state.resource state.log := by
  have hboth : monitor.Consistent state ∧ Inv state.resource state.log := by
    apply hreach.invariant ⟨monitor.initial_consistent start, hstart⟩
    rintro state next action ⟨hconsistent, hinv⟩ _ hstep
    have hmoves := moves_of_step hstep
    refine ⟨moves_consistent hconsistent hmoves, ?_⟩
    rcases moves_resource hconsistent hmoves with
      ⟨hresource, hlog⟩ | ⟨thread, op, _, _, hpasses, hresource, hlog⟩
    · rw [hresource, hlog]
      exact hinv
    · rw [hresource, hlog]
      exact hbody _ _ thread op hinv hpasses
  exact hboth.2

end Runs

/-! ## No lost wakeup -/

variable (monitor) in
/-- `available cond` counts what the operations that wait on `cond` find in the
resource.  Each of them takes some of it, and nothing is added without a
notification. -/
structure Announced (available : Cond → Resource → ℕ) : Prop where
  ready_iff : ∀ op cond resource, monitor.waitsOn op = some cond →
    (monitor.ready op resource = true ↔ 0 < available cond resource)
  taken : ∀ op cond resource, monitor.waitsOn op = some cond →
    monitor.ready op resource = true →
    available cond (monitor.body op resource).1 + 1 ≤ available cond resource
  added : ∀ op cond resource, monitor.passes op resource = true →
    available cond (monitor.body op resource).1 ≤
      available cond resource +
        if monitor.notifies op = some cond then 1 else 0

/-- The threads that will look at `cond` or announce it without being woken. -/
def Phase.pending (monitor : Monitor Resource Cond Op Result) (cond : Cond) :
    Phase Op Result → ℕ
  | .locking op | .testing op | .updating op =>
      if monitor.waitsOn op = some cond then 1 else 0
  | .notifying op _ => if monitor.notifies op = some cond then 1 else 0
  | _ => 0

section Wakeups

variable [Fintype Thread] {available : Cond → Resource → ℕ}
  {state next : State Thread Resource Op Result} {action : Action Thread Op}
  {thread : Thread}

variable (monitor) in
def pendingAt (state : State Thread Resource Op Result) (cond : Cond) : ℕ :=
  ∑ thread, (state.phases thread).pending monitor cond

variable (monitor available) in
/-- As long as a thread waits, what there is for it is matched by threads that
are on their way. -/
def Covered (state : State Thread Resource Op Result) : Prop :=
  ∀ thread cond, (state.phases thread).waitsAt monitor cond = true →
    available cond state.resource ≤ monitor.pendingAt state cond

theorem Covered.move (hcovered : monitor.Covered available state)
    {phase : Phase Op Result} {resource : Resource} {mutex : Option Thread}
    {log : List (Thread × Op × Result)}
    (hwaits : ∀ cond, phase.waitsAt monitor cond = true →
      available cond resource = 0)
    (hothers : ∀ cond, available cond resource = 0 ∨
      (∀ other, (state.phases other).waitsAt monitor cond = false) ∨
      available cond resource + (state.phases thread).pending monitor cond ≤
        available cond state.resource + phase.pending monitor cond) :
    monitor.Covered available
      { resource := resource
        mutex := mutex
        phases := Function.update state.phases thread phase
        log := log } := by
  intro other cond hwaiting
  change (Function.update state.phases thread phase other).waitsAt monitor cond
    = true at hwaiting
  show available cond resource ≤
    ∑ t, (Function.update state.phases thread phase t).pending monitor cond
  by_cases hother : other = thread
  · subst other
    rw [Function.update_self] at hwaiting
    rw [hwaits cond hwaiting]
    exact Nat.zero_le _
  · rw [Function.update_of_ne hother] at hwaiting
    rcases hothers cond with hzero | hnone | hle
    · rw [hzero]
      exact Nat.zero_le _
    · rw [hnone other] at hwaiting
      cases hwaiting
    · have hbefore := hcovered other cond hwaiting
      have hsum := SlotPartition.sum_update_add
        (fun phase : Phase Op Result => phase.pending monitor cond)
        state.phases thread phase
      unfold pendingAt at hbefore
      omega

/-- A woken thread is on its way in place of the one that woke it. -/
theorem Covered.woken (hcovered : monitor.Covered available state)
    {woken : Thread} {op other : Op} {result : Result} {cond : Cond}
    (hphase : state.phases thread = .notifying op result)
    (hcond : monitor.notifies op = some cond)
    (hwaiting : state.phases woken = .waiting other)
    (hwaits : monitor.waitsOn other = some cond) :
    monitor.Covered available
      ((state.setPhase woken (.locking other)).setPhase thread
        (.unlocking op result)) := by
  have hne : thread ≠ woken := by
    rintro rfl
    rw [hphase] at hwaiting
    cases hwaiting
  intro waiter cond' hwaiter
  have hbefore : (state.phases waiter).waitsAt monitor cond' = true := by
    simp only [State.setPhase] at hwaiter
    by_cases hthread : waiter = thread
    · subst waiter
      simp [Phase.waitsAt] at hwaiter
    · rw [Function.update_of_ne hthread] at hwaiter
      by_cases hwoken : waiter = woken
      · subst waiter
        simp [Phase.waitsAt] at hwaiter
      · rwa [Function.update_of_ne hwoken] at hwaiter
  have hle := hcovered waiter cond' hbefore
  have hsum := SlotPartition.sum_update_update_add
    (fun phase : Phase Op Result => phase.pending monitor cond') state.phases
    hne (.locking other) (.unlocking op result)
  have htaken : (state.phases thread).pending monitor cond' =
      if cond = cond' then 1 else 0 := by
    simp [hphase, Phase.pending, hcond]
  have hadded : (Phase.locking other : Phase Op Result).pending monitor cond' =
      if cond = cond' then 1 else 0 := by
    simp [Phase.pending, hwaits]
  have hidle : (state.phases woken).pending monitor cond' = 0 := by
    simp [hwaiting, Phase.pending]
  have hdone : (Phase.unlocking op result).pending monitor cond' = 0 := rfl
  show available cond' state.resource ≤ ∑ t, (Function.update
    (Function.update state.phases woken (.locking other)) thread
      (.unlocking op result) t).pending monitor cond'
  unfold pendingAt at hle
  omega

theorem moves_covered (hannounced : monitor.Announced available)
    (hconsistent : monitor.Consistent state)
    (hcovered : monitor.Covered available state)
    (hmoves : monitor.Moves state action next) :
    monitor.Covered available next := by
  cases hmoves with
  | call hphase =>
      apply hcovered.move
      · simp [Phase.waitsAt]
      · intro cond
        simp [hphase, Phase.pending]
  | lock hphase hmutex =>
      apply hcovered.move
      · simp [Phase.waitsAt]
      · intro cond
        simp [hphase, Phase.pending]
  | passed hphase hpasses =>
      apply hcovered.move
      · simp [Phase.waitsAt]
      · intro cond
        simp [hphase, Phase.pending]
  | @blocked thread op hphase hpasses =>
      -- The predicate is false, so there is nothing for this condition.
      have hzero : ∀ cond, monitor.waitsOn op = some cond →
          available cond state.resource = 0 := by
        intro cond hcond
        have hready : monitor.ready op state.resource ≠ true := by
          intro hready
          simp [passes, hready] at hpasses
        rw [ne_eq, hannounced.ready_iff op cond _ hcond] at hready
        omega
      apply hcovered.move
      · intro cond hwaits
        exact hzero cond (by simpa [Phase.waitsAt] using hwaits)
      · intro cond
        by_cases hcond : monitor.waitsOn op = some cond
        · exact Or.inl (hzero cond hcond)
        · simp [hphase, Phase.pending, hcond]
  | @body thread op resource result hphase hbody =>
      have hpasses := hconsistent.passed thread op hphase
      have hnew : resource = (monitor.body op state.resource).1 := by
        rw [hbody]
      apply hcovered.move
      · simp [Phase.waitsAt]
      · intro cond
        refine Or.inr (Or.inr ?_)
        rw [hphase, hnew]
        by_cases hcond : monitor.waitsOn op = some cond
        · have hready : monitor.ready op state.resource = true := by
            simpa [passes, hcond] using hpasses
          have htaken := hannounced.taken op cond _ hcond hready
          simp only [Phase.pending, if_pos hcond]
          omega
        · simp only [Phase.pending, if_neg hcond]
          exact hannounced.added op cond _ hpasses
  | @unheard thread op result hphase hnone =>
      apply hcovered.move
      · simp [Phase.waitsAt]
      · intro cond
        by_cases hcond : monitor.notifies op = some cond
        · exact Or.inr (Or.inl (hnone cond hcond))
        · simp [hphase, Phase.pending, hcond]
  | woken hphase hcond hwaiting hwaits =>
      exact hcovered.woken hphase hcond hwaiting hwaits
  | unlock hphase =>
      apply hcovered.move
      · simp [Phase.waitsAt]
      · intro cond
        simp [hphase, Phase.pending]
  | spurious hphase =>
      apply hcovered.move
      · simp [Phase.waitsAt]
      · intro cond
        simp [hphase, Phase.pending]

theorem reachable_covered (hannounced : monitor.Announced available)
    {start : Resource}
    {Allowed : State Thread Resource Op Result → Action Thread Op → Prop}
    (hreach : StepSystem.Reachable monitor.step Allowed
      (initial Thread Op Result start) state) :
    monitor.Covered available state := by
  have hboth : monitor.Consistent state ∧ monitor.Covered available state := by
    apply hreach.invariant
    · refine ⟨monitor.initial_consistent start, ?_⟩
      intro thread cond hwaiting
      simp [initial, Phase.waitsAt] at hwaiting
    · rintro state next action ⟨hconsistent, hcovered⟩ _ hstep
      have hmoves := moves_of_step hstep
      exact ⟨moves_consistent hconsistent hmoves,
        moves_covered hannounced hconsistent hcovered hmoves⟩
  exact hboth.2

/-! ## The threads settle -/

def totalWeight (state : State Thread Resource Op Result) : ℕ :=
  ∑ thread, (state.phases thread).weight

omit [DecidableEq Cond] in
theorem weight_move {phase : Phase Op Result}
    (hlt : phase.weight < (state.phases thread).weight) :
    ∑ other, (Function.update state.phases thread phase other).weight <
      totalWeight state := by
  have hsum := SlotPartition.sum_update_add
    (fun phase : Phase Op Result => phase.weight) state.phases thread phase
  unfold totalWeight
  omega

theorem moves_weight (hmoves : monitor.Moves state action next)
    (hinternal : action.internal = true) :
    totalWeight next < totalWeight state := by
  cases hmoves with
  | call hphase => cases hinternal
  | lock hphase hmutex =>
      apply weight_move
      simp [hphase, Phase.weight]
  | passed hphase hpasses =>
      apply weight_move
      simp [hphase, Phase.weight]
  | blocked hphase hpasses =>
      apply weight_move
      simp [hphase, Phase.weight]
  | @body thread op resource result hphase hbody =>
      apply weight_move
      simp [hphase, Phase.weight]
  | unheard hphase hnone =>
      apply weight_move
      simp [hphase, Phase.weight]
  | @woken thread woken op other result cond hphase hcond hwaiting hwaits =>
      have hne : thread ≠ woken := by
        rintro rfl
        rw [hphase] at hwaiting
        cases hwaiting
      have hsum := SlotPartition.sum_update_update_add
        (fun phase : Phase Op Result => phase.weight) state.phases hne
        (.locking other) (.unlocking op result)
      have hbefore : (state.phases woken).weight +
          (state.phases thread).weight = 9 := by
        rw [hwaiting, hphase]
        rfl
      have hafter : (Phase.locking other : Phase Op Result).weight +
          (Phase.unlocking op result).weight = 8 := rfl
      simp only [totalWeight, State.setPhase]
      omega
  | unlock hphase =>
      apply weight_move
      simp [hphase, Phase.weight]
  | spurious hphase => cases hinternal

/-- Calls and spurious wakeups apart, a run is no longer than the weight of the
state it begins in. -/
theorem length_le_totalWeight {actions : List (Action Thread Op)}
    (hinternal : ∀ action ∈ actions, action.internal = true)
    (hrun : StepSystem.run monitor.step actions state = some next) :
    actions.length + totalWeight next ≤ totalWeight state := by
  induction actions generalizing state with
  | nil =>
      cases hrun
      simp
  | cons action rest ih =>
      cases hstep : monitor.step state action with
      | none => simp [StepSystem.run, hstep] at hrun
      | some middle =>
          rw [StepSystem.run_cons_of_step hstep] at hrun
          have hrest := ih (fun other hother =>
            hinternal other (List.mem_cons_of_mem _ hother)) hrun
          have hfirst := moves_weight (moves_of_step hstep)
            (hinternal action List.mem_cons_self)
          rw [List.length_cons]
          omega

omit [DecidableEq Thread] in
theorem totalWeight_le (state : State Thread Resource Op Result) :
    totalWeight state ≤ 7 * Fintype.card Thread := by
  have hle : ∀ thread ∈ Finset.univ, (state.phases thread).weight ≤ 7 := by
    intro thread _
    cases state.phases thread <;> simp [Phase.weight]
  have hsum := Finset.sum_le_card_nsmul Finset.univ _ 7 hle
  rw [smul_eq_mul, Finset.card_univ, Nat.mul_comm] at hsum
  exact hsum

/-- A thread that is inside can go on. -/
theorem inside_enabled
    (hinside : (state.phases thread).inside = true) :
    ∃ action : Action Thread Op, action.internal = true ∧
      monitor.step state action ≠ none := by
  cases hphase : state.phases thread with
  | idle | locking op | waiting op =>
      rw [hphase] at hinside
      cases hinside
  | testing op =>
      refine ⟨.test thread, rfl, ?_⟩
      simp only [step, hphase]
      split <;> simp
  | updating op =>
      refine ⟨.body thread, rfl, ?_⟩
      simp [step, hphase]
  | unlocking op result =>
      refine ⟨.unlock thread, rfl, ?_⟩
      simp [step, hphase]
  | notifying op result =>
      cases hcond : monitor.notifies op with
      | none =>
          refine ⟨.notify thread none, rfl, ?_⟩
          simp [step, hphase, hcond, notifyOne]
      | some cond =>
          by_cases hnone : ∀ other,
              (state.phases other).waitsAt monitor cond = false
          · refine ⟨.notify thread none, rfl, ?_⟩
            simp [step, hphase, hcond, notifyOne, hnone]
          · rw [not_forall] at hnone
            obtain ⟨woken, hwoken⟩ := hnone
            refine ⟨.notify thread (some woken), rfl, ?_⟩
            cases hwaiting : state.phases woken with
            | waiting other =>
                have hwaits : monitor.waitsOn other = some cond := by
                  simpa [hwaiting, Phase.waitsAt] using hwoken
                simp [step, hphase, hcond, notifyOne, hwaiting, hwaits]
            | _ => simp [hwaiting, Phase.waitsAt] at hwoken

/-- Where no thread can go on, all of them are at rest. -/
theorem Consistent.resting (hconsistent : monitor.Consistent state)
    (hquiet : ∀ action : Action Thread Op, action.internal = true →
      monitor.step state action = none) (thread : Thread) :
    (state.phases thread).resting = true := by
  have hnotInside : ∀ other, (state.phases other).inside = false := by
    intro other
    by_contra hinside
    rw [Bool.not_eq_false] at hinside
    have hsome : ∃ action : Action Thread Op, action.internal = true ∧
        monitor.step state action ≠ none := inside_enabled hinside
    obtain ⟨action, hinternal, henabled⟩ := hsome
    exact henabled (hquiet action hinternal)
  have hmutex : state.mutex = none := by
    cases hholder : state.mutex with
    | none => rfl
    | some holder =>
        have hinside := (hconsistent.inside holder).mpr hholder
        rw [hnotInside holder] at hinside
        cases hinside
  cases hphase : state.phases thread with
  | idle | waiting op => rfl
  | locking op =>
      have hlock := hquiet (.lock thread) rfl
      simp [step, hphase, hmutex] at hlock
  | testing op | updating op | notifying op result | unlocking op result =>
      have hinside := hnotInside thread
      rw [hphase] at hinside
      cases hinside

/-- No wakeup is lost: where no thread can go on, a thread is left waiting only
if its predicate is false. -/
theorem waits_in_vain (hannounced : monitor.Announced available)
    {start : Resource}
    {Allowed : State Thread Resource Op Result → Action Thread Op → Prop}
    (hreach : StepSystem.Reachable monitor.step Allowed
      (initial Thread Op Result start) state)
    (hquiet : ∀ action : Action Thread Op, action.internal = true →
      monitor.step state action = none) (thread : Thread) :
    state.phases thread = .idle ∨ ∃ op cond,
      state.phases thread = .waiting op ∧ monitor.waitsOn op = some cond ∧
        available cond state.resource = 0 := by
  have hconsistent := reachable_consistent hreach
  have hresting := hconsistent.resting hquiet
  have hthread := hresting thread
  cases hphase : state.phases thread with
  | idle => exact Or.inl rfl
  | waiting op =>
      obtain ⟨cond, hcond⟩ :=
        Option.ne_none_iff_exists'.mp (hconsistent.waits thread op hphase)
      refine Or.inr ⟨op, cond, rfl, hcond, ?_⟩
      have hle := reachable_covered hannounced hreach thread cond
        (by simp [hphase, Phase.waitsAt, hcond])
      have hnone : monitor.pendingAt state cond = 0 := by
        apply Finset.sum_eq_zero
        intro other _
        have hother := hresting other
        cases hphase' : state.phases other <;>
          simp_all [Phase.resting, Phase.pending]
      omega
  | locking op | testing op | updating op | notifying op result
  | unlocking op result =>
      rw [hphase] at hthread
      cases hthread

/-- Once no more calls are made and no wakeup is spurious, the threads come to
rest after boundedly many steps, and then no thread waits for what is there. -/
theorem settles (hannounced : monitor.Announced available) {start : Resource}
    {actions more : List (Action Thread Op)}
    {last : State Thread Resource Op Result}
    (hrun : StepSystem.run monitor.step actions
      (initial Thread Op Result start) = some state)
    (hinternal : ∀ action ∈ more, action.internal = true)
    (hmore : StepSystem.run monitor.step more state = some last) :
    more.length ≤ 7 * Fintype.card Thread ∧
      ((∀ action : Action Thread Op, action.internal = true →
          monitor.step last action = none) →
        ∀ thread, last.phases thread = .idle ∨ ∃ op cond,
          last.phases thread = .waiting op ∧ monitor.waitsOn op = some cond ∧
            available cond last.resource = 0) := by
  constructor
  · have hlength := length_le_totalWeight hinternal hmore
    have hweight := totalWeight_le state
    omega
  · intro hquiet thread
    have hfirst := StepSystem.reachable_of_run hrun
      (StepSystem.allAllowed_trivial _ _ _)
    have hrest := StepSystem.reachable_of_run hmore
      (StepSystem.allAllowed_trivial _ _ _)
    exact waits_in_vain hannounced (hfirst.trans hrest) hquiet thread

end Wakeups

end Steps

end Monitor
