import TradingStudies.LockFreePool

/-!
# LockFreePool between an acquiring and a releasing thread

One thread calls `acquire`, another one `release`; only the former stores
`tail_` and only the latter stores `head_`.  Objects that were acquired find
their way to the releasing thread, which gives each of them back once.

Under these calls the ring never overflows, so that the defect of the overflow
test stays out of reach: the calls are answered as by a queue of free objects,
each object is free or out, and the threads never meet in a cell of
`freelist_`.
-/

namespace TradingStudies
namespace LockFreePool

open RingIndex

/-- Inside `acquire`: before the load of `head_`, before the read of the free
list, before the store of `tail_`. -/
inductive Acquirer (Obj : Type*)
  | idle
  | loaded (tail : UInt64)
  | checked (tail : UInt64)
  | read (tail : UInt64) (obj : Obj)
  deriving DecidableEq, Repr

/-- Inside `release`: before the load of `tail_`, before the write of the free
list, before the store of `head_`. -/
inductive Releaser (Obj : Type*)
  | idle
  | loaded (obj : Obj) (head : UInt64)
  | checked (obj : Obj) (head : UInt64)
  | written (obj : Obj) (head : UInt64)
  deriving DecidableEq, Repr

/-- `log` are the calls that have taken effect, with their outcomes. -/
structure State (capacity : ℕ) (Obj : Type*) where
  pool : Pool capacity Obj
  acquirer : Acquirer Obj
  releaser : Releaser Obj
  log : List (Call Obj × Outcome Obj)

/-- `acquire` and `release` are the beginnings of the calls. -/
inductive Move (Obj : Type*)
  | acquire
  | loadHead
  | readSlot
  | storeTail
  | release (obj : Obj)
  | loadTail
  | writeSlot
  | storeHead
  deriving DecidableEq, Repr

variable {capacity : ℕ} {Obj : Type*}

def initial (pool : Pool capacity Obj) : State capacity Obj :=
  { pool := pool
    acquirer := .idle
    releaser := .idle
    log := [] }

section Moves

variable [NeZero capacity]

def step (state : State capacity Obj) : Move Obj → Option (State capacity Obj)
  | .acquire =>
      match state.acquirer with
      | .idle => some { state with acquirer := .loaded state.pool.tail_ }
      | _ => none
  | .loadHead =>
      match state.acquirer with
      | .loaded tail =>
          if tail = state.pool.head_ then
            some { state with
              acquirer := .idle
              log := state.log ++ [(.acquire, .acquired none)] }
          else some { state with acquirer := .checked tail }
      | _ => none
  | .readSlot =>
      match state.acquirer with
      | .checked tail =>
          some { state with
            acquirer := .read tail
              (state.pool.freelist_ (slotOf capacity tail)) }
      | _ => none
  | .storeTail =>
      match state.acquirer with
      | .read tail obj =>
          some { state with
            acquirer := .idle
            pool := { state.pool with
              tail_ := (tail + 1) % (2 * capacity_ capacity) }
            log := state.log ++ [(.acquire, .acquired (some obj))] }
      | _ => none
  | .release obj =>
      match state.releaser with
      | .idle => some { state with releaser := .loaded obj state.pool.head_ }
      | _ => none
  | .loadTail =>
      match state.releaser with
      | .loaded obj head =>
          if head - state.pool.tail_ = capacity_ capacity then
            some { state with
              releaser := .idle
              log := state.log ++ [(.release obj, .threw "Pool overflow")] }
          else some { state with releaser := .checked obj head }
      | _ => none
  | .writeSlot =>
      match state.releaser with
      | .checked obj head =>
          some { state with
            releaser := .written obj head
            pool := { state.pool with
              freelist_ := Function.update state.pool.freelist_
                (slotOf capacity head) obj } }
      | _ => none
  | .storeHead =>
      match state.releaser with
      | .written obj head =>
          some { state with
            releaser := .idle
            pool := { state.pool with
              head_ := (head + 1) % (2 * capacity_ capacity) }
            log := state.log ++ [(.release obj, .released)] }
      | _ => none

end Moves

/-! ## The calls as seen by the callers -/

section Callers

variable [DecidableEq Obj]

/-- The objects that were handed out and not given back. -/
def outstanding (log : List (Call Obj × Outcome Obj)) : List Obj :=
  log.foldl (fun before entry =>
    match entry with
    | (.acquire, .acquired (some obj)) => obj :: before
    | (.release obj, .released) => before.erase obj
    | _ => before) []

theorem outstanding_acquired (log : List (Call Obj × Outcome Obj))
    (obj : Obj) :
    outstanding (log ++ [(.acquire, .acquired (some obj))]) =
      obj :: outstanding log :=
  List.foldl_append

theorem outstanding_refused (log : List (Call Obj × Outcome Obj)) :
    outstanding (log ++ [(.acquire, .acquired none)]) = outstanding log :=
  List.foldl_append

theorem outstanding_released (log : List (Call Obj × Outcome Obj))
    (obj : Obj) :
    outstanding (log ++ [(.release obj, .released)]) =
      (outstanding log).erase obj :=
  List.foldl_append

/-- An object is given back only while it is out. -/
def GivesBack (state : State capacity Obj) : Move Obj → Prop
  | .release obj => obj ∈ outstanding state.log
  | _ => True

instance (state : State capacity Obj) : DecidablePred (GivesBack state)
  | .release obj => inferInstanceAs (Decidable (obj ∈ outstanding state.log))
  | .acquire | .loadHead | .readSlot | .storeTail | .loadTail | .writeSlot
  | .storeHead => inferInstanceAs (Decidable True)

end Callers

/-! ## What the threads share -/

section Invariant

variable [NeZero capacity]

/-- The pool once the write that `head_` does not show yet is made. -/
def pending (base : Pool capacity Obj) : Releaser Obj → Pool capacity Obj
  | .written obj head =>
      { base with
        freelist_ := Function.update base.freelist_ (slotOf capacity head)
          obj }
  | _ => base

@[simp] theorem pending_head_ (base : Pool capacity Obj)
    (releaser : Releaser Obj) :
    (pending base releaser).head_ = base.head_ := by
  cases releaser <;> rfl

@[simp] theorem pending_tail_ (base : Pool capacity Obj)
    (releaser : Releaser Obj) :
    (pending base releaser).tail_ = base.tail_ := by
  cases releaser <;> rfl

/-- What the acquiring thread knows of the objects `written` into the ring. -/
def Acquirer.Consistent (tail_ : UInt64) (acquired : ℕ) (written : List Obj) :
    Acquirer Obj → Prop
  | .idle => True
  | .loaded tail => tail = tail_
  | .checked tail => tail = tail_ ∧ acquired < written.length
  | .read tail obj => tail = tail_ ∧ written[acquired]? = some obj

def Releaser.Consistent (head_ : UInt64) (out : List Obj) :
    Releaser Obj → Prop
  | .idle => True
  | .loaded obj head | .checked obj head | .written obj head =>
      head = head_ ∧ obj ∈ out

theorem Acquirer.Consistent.append {acquirer : Acquirer Obj} {tail_ : UInt64}
    {acquired : ℕ} {written : List Obj}
    (hacquirer : acquirer.Consistent tail_ acquired written) (obj : Obj) :
    acquirer.Consistent tail_ acquired (written ++ [obj]) := by
  cases acquirer with
  | checked tail =>
      refine ⟨hacquirer.1, ?_⟩
      rw [List.length_append]
      exact Nat.lt_add_right 1 hacquirer.2
  | read tail held =>
      have hlt := (List.getElem?_eq_some_iff.mp hacquirer.2).1
      refine ⟨hacquirer.1, ?_⟩
      rw [List.getElem?_append_left hlt]
      exact hacquirer.2
  | _ => exact hacquirer

theorem Releaser.Consistent.cons {releaser : Releaser Obj} {head_ : UInt64}
    {out : List Obj} (hreleaser : releaser.Consistent head_ out) (obj : Obj) :
    releaser.Consistent head_ (obj :: out) := by
  cases releaser with
  | idle => trivial
  | _ => exact ⟨hreleaser.1, List.mem_cons_of_mem obj hreleaser.2⟩

/-- `base` is the pool without the pending write. -/
structure Shares [DecidableEq Obj] (storage_ : Fin capacity → Obj)
    (state : State capacity Obj) (base : Pool capacity Obj) (acquired : ℕ)
    (written : List Obj) : Prop where
  ring : Represents base acquired written
  pool : state.pool = pending base state.releaser
  free : CallSystem.stateAfter (freeRing capacity) ⟨List.ofFn storage_, 0⟩
    (state.log.map Prod.fst) = ⟨written.drop acquired, acquired⟩
  answers : CallSystem.results (freeRing capacity) ⟨List.ofFn storage_, 0⟩
    (state.log.map Prod.fst) = state.log.map Prod.snd
  quiet : ∀ entry ∈ state.log, entry.2 ≠ .threw "Pool overflow"
  objects : (written.drop acquired ++ outstanding state.log).Perm
    (List.ofFn storage_)
  acquirer : state.acquirer.Consistent base.tail_ acquired written
  releaser : state.releaser.Consistent base.head_ (outstanding state.log)

variable [DecidableEq Obj] {storage_ : Fin capacity → Obj}
  {state next : State capacity Obj} {base : Pool capacity Obj}
  {acquired : ℕ} {written : List Obj}

theorem initial_shares (hcapacity : capacity ≤ maxSize)
    (storage_ : Fin capacity → Obj) :
    Shares storage_ (initial (fresh storage_)) (fresh storage_) 0
      (List.ofFn storage_) where
  ring := fresh_represents hcapacity storage_
  pool := rfl
  free := rfl
  answers := rfl
  quiet := fun _ hentry => absurd hentry List.not_mem_nil
  objects := by
    show (List.ofFn storage_ ++ []).Perm _
    rw [List.append_nil]
  acquirer := trivial
  releaser := trivial

omit [NeZero capacity] [DecidableEq Obj] in
theorem forall_mem_snoc {log : List (Call Obj × Outcome Obj)}
    {Good : Call Obj × Outcome Obj → Prop} (hlog : ∀ entry ∈ log, Good entry)
    {entry : Call Obj × Outcome Obj} (hentry : Good entry) :
    ∀ other ∈ log ++ [entry], Good other := by
  intro other hother
  rcases List.mem_append.mp hother with hbefore | hlast
  · exact hlog other hbefore
  · rw [List.mem_singleton.mp hlast]
    exact hentry

/-- A call that returns is answered as by the ring of free objects. -/
theorem Shares.returned
    (hshares : Shares storage_ state base acquired written) {call : Call Obj}
    {outcome : Outcome Obj} {ring : FreeRing Obj}
    (hcall : freeRing capacity ⟨written.drop acquired, acquired⟩ call =
      (ring, outcome))
    (hreturns : outcome ≠ .threw "Pool overflow") :
    CallSystem.stateAfter (freeRing capacity) ⟨List.ofFn storage_, 0⟩
        ((state.log ++ [(call, outcome)]).map Prod.fst) = ring ∧
      CallSystem.results (freeRing capacity) ⟨List.ofFn storage_, 0⟩
          ((state.log ++ [(call, outcome)]).map Prod.fst) =
        (state.log ++ [(call, outcome)]).map Prod.snd ∧
      ∀ entry ∈ state.log ++ [(call, outcome)],
        entry.2 ≠ .threw "Pool overflow" := by
  refine ⟨?_, ?_, forall_mem_snoc hshares.quiet hreturns⟩
  · rw [List.map_append, List.map_singleton, CallSystem.stateAfter_snoc,
      hshares.free, hcall]
  · rw [List.map_append, List.map_append, List.map_singleton,
      CallSystem.results_snoc, hshares.answers, hshares.free, hcall]
    rfl

/-- While an object is out, the ring has room for it. -/
theorem Shares.room (hshares : Shares storage_ state base acquired written)
    {obj : Obj} (hout : obj ∈ outstanding state.log) :
    written.length < acquired + capacity := by
  have hlength := hshares.objects.length_eq
  have hpos := List.length_pos_of_mem hout
  have hle := hshares.ring.acquired_le
  rw [List.length_append, List.length_drop, List.length_ofFn] at hlength
  omega

/-! ## One step -/

theorem Shares.acquire (hshares : Shares storage_ state base acquired written)
    (hstep : step state .acquire = some next) :
    Shares storage_ next base acquired written := by
  simp only [step] at hstep
  split at hstep
  · cases hstep
    refine { hshares with acquirer := ?_ }
    show state.pool.tail_ = base.tail_
    rw [hshares.pool, pending_tail_]
  · cases hstep

theorem Shares.loadHead
    (hshares : Shares storage_ state base acquired written)
    (hstep : step state .loadHead = some next) :
    Shares storage_ next base acquired written := by
  have hacquirer := hshares.acquirer
  have hhead : state.pool.head_ = base.head_ := by
    rw [hshares.pool, pending_head_]
  simp only [step] at hstep
  split at hstep
  next tail hphase =>
    rw [hphase] at hacquirer
    obtain rfl : tail = base.tail_ := hacquirer
    rw [hhead] at hstep
    by_cases hempty : base.tail_ = base.head_
    · rw [if_pos hempty] at hstep
      cases hstep
      have hnone : written.drop acquired = [] :=
        List.drop_eq_nil_of_le (hshares.ring.empty_iff.mp hempty).ge
      have hcall : freeRing capacity ⟨written.drop acquired, acquired⟩
          .acquire = (⟨written.drop acquired, acquired⟩, .acquired none) := by
        rw [hnone]
        rfl
      have hreturns : (.acquired none : Outcome Obj) ≠
          .threw "Pool overflow" := by
        intro hthrew
        cases hthrew
      obtain ⟨hfree, hanswers, hquiet⟩ := hshares.returned hcall hreturns
      constructor
      · exact hshares.ring
      · exact hshares.pool
      · exact hfree
      · exact hanswers
      · exact hquiet
      · rw [outstanding_refused]
        exact hshares.objects
      · trivial
      · rw [outstanding_refused]
        exact hshares.releaser
    · rw [if_neg hempty] at hstep
      cases hstep
      refine { hshares with acquirer := ⟨rfl, ?_⟩ }
      have hle := hshares.ring.acquired_le
      have hne := mt hshares.ring.empty_iff.mpr hempty
      omega
  next => cases hstep

/-- A pending write is not where the acquiring thread reads. -/
theorem Shares.apart (hshares : Shares storage_ state base acquired written)
    (hcapacity : capacity ≤ maxSize) (hsome : acquired < written.length)
    {obj : Obj} (hout : obj ∈ outstanding state.log) :
    slotOf capacity base.tail_ ≠ slotOf capacity base.head_ := by
  rw [slotOf_eq_place hcapacity hshares.ring.tail,
    slotOf_eq_place hcapacity hshares.ring.head]
  intro hplace
  have heq := eq_of_place_eq hplace hsome.le (hshares.room hout)
  omega

theorem Shares.oldest (hshares : Shares storage_ state base acquired written)
    (hcapacity : capacity ≤ maxSize) (hsome : acquired < written.length) :
    written[acquired]? =
      some (state.pool.freelist_ (slotOf capacity base.tail_)) := by
  have hslot := hshares.ring.slots acquired hsome hshares.ring.bounded
  rw [← slotOf_eq_place hcapacity hshares.ring.tail] at hslot
  have hreleaser := hshares.releaser
  have hpool := hshares.pool
  rw [← hslot, hpool]
  cases hphase : state.releaser with
  | written obj head =>
      rw [hphase] at hreleaser
      obtain ⟨rfl, hout⟩ := hreleaser
      have hapart := hshares.apart hcapacity hsome hout
      simp only [pending, Function.update_of_ne hapart]
  | _ => rfl

theorem Shares.readSlot
    (hshares : Shares storage_ state base acquired written)
    (hcapacity : capacity ≤ maxSize)
    (hstep : step state .readSlot = some next) :
    Shares storage_ next base acquired written := by
  have hacquirer := hshares.acquirer
  simp only [step] at hstep
  split at hstep
  next tail hphase =>
    cases hstep
    rw [hphase] at hacquirer
    obtain ⟨rfl, hsome⟩ := hacquirer
    refine { hshares with acquirer := ⟨rfl, ?_⟩ }
    exact hshares.oldest hcapacity hsome
  next => cases hstep

theorem Shares.storeTail
    (hshares : Shares storage_ state base acquired written)
    (hcapacity : capacity ≤ maxSize)
    (hstep : step state .storeTail = some next) :
    ∃ base', Shares storage_ next base' (acquired + 1) written := by
  have hacquirer := hshares.acquirer
  simp only [step] at hstep
  split at hstep
  next tail obj hphase =>
    cases hstep
    rw [hphase] at hacquirer
    obtain ⟨rfl, hread⟩ := hacquirer
    obtain ⟨hsome, hobj⟩ := List.getElem?_eq_some_iff.mp hread
    have hdrop : written.drop acquired = obj :: written.drop (acquired + 1) := by
      rw [List.drop_eq_getElem_cons hsome, hobj]
    have hcall : freeRing capacity ⟨written.drop acquired, acquired⟩
        .acquire = (⟨written.drop (acquired + 1), acquired + 1⟩,
          .acquired (some obj)) := by
      rw [hdrop]
      rfl
    have hreturns : (.acquired (some obj) : Outcome Obj) ≠
        .threw "Pool overflow" := by
      intro hthrew
      cases hthrew
    obtain ⟨hfree, hanswers, hquiet⟩ := hshares.returned hcall hreturns
    have hring := hshares.ring
    refine ⟨{ base with
      tail_ := (base.tail_ + 1) % (2 * capacity_ capacity) }, ?_⟩
    constructor
    · constructor
      · exact hring.head
      · exact toNat_advance hcapacity hring.tail
      · exact hsome
      · have hbounded := hring.bounded
        omega
      · exact hring.slots
    · rw [hshares.pool]
      cases state.releaser <;> rfl
    · exact hfree
    · exact hanswers
    · exact hquiet
    · rw [outstanding_acquired]
      refine List.perm_middle.trans ?_
      have hobjects := hshares.objects
      rwa [hdrop] at hobjects
    · trivial
    · rw [outstanding_acquired]
      exact hshares.releaser.cons obj
  next => cases hstep

theorem Shares.release (hshares : Shares storage_ state base acquired written)
    {obj : Obj} (hout : obj ∈ outstanding state.log)
    (hstep : step state (.release obj) = some next) :
    Shares storage_ next base acquired written := by
  have hpool := hshares.pool
  simp only [step] at hstep
  split at hstep
  next hphase =>
    cases hstep
    rw [hphase] at hpool
    refine { hshares with pool := hpool, releaser := ⟨?_, hout⟩ }
    show state.pool.head_ = base.head_
    rw [hpool]
    rfl
  next => cases hstep

/-- The overflow test never finds the ring full. -/
theorem Shares.loadTail
    (hshares : Shares storage_ state base acquired written)
    (hcapacity : capacity ≤ maxSize)
    (hstep : step state .loadTail = some next) :
    Shares storage_ next base acquired written := by
  have hreleaser := hshares.releaser
  have hpool := hshares.pool
  simp only [step] at hstep
  split at hstep
  next obj head hphase =>
    rw [hphase] at hreleaser hpool
    obtain ⟨rfl, hout⟩ := hreleaser
    have hroom := hshares.room hout
    have hnot : ¬ base.head_ - base.tail_ = capacity_ capacity := by
      rw [hshares.ring.overflow_iff hcapacity]
      omega
    rw [hpool, pending_tail_, if_neg hnot] at hstep
    cases hstep
    exact { hshares with pool := rfl, releaser := ⟨rfl, hout⟩ }
  next => cases hstep

theorem Shares.writeSlot
    (hshares : Shares storage_ state base acquired written)
    (hstep : step state .writeSlot = some next) :
    Shares storage_ next base acquired written := by
  have hreleaser := hshares.releaser
  have hpool := hshares.pool
  simp only [step] at hstep
  split at hstep
  next obj head hphase =>
    cases hstep
    rw [hphase] at hreleaser hpool
    refine { hshares with pool := ?_, releaser := hreleaser }
    rw [hpool]
    rfl
  next => cases hstep

omit [DecidableEq Obj] in
theorem Represents.store (hring : Represents base acquired written)
    (hcapacity : capacity ≤ maxSize)
    (hroom : written.length < acquired + capacity) (obj : Obj) :
    Represents
      { base with
        freelist_ := Function.update base.freelist_
          (slotOf capacity base.head_) obj
        head_ := (base.head_ + 1) % (2 * capacity_ capacity) }
      acquired (written ++ [obj]) := by
  obtain ⟨base', heval, hring'⟩ := hring.release hcapacity hroom obj
  have hnot : ¬ base.head_ - base.tail_ = capacity_ capacity := by
    rw [hring.overflow_iff hcapacity]
    omega
  rw [LockFreePool.release, if_neg hnot] at heval
  cases heval
  exact hring'

theorem Shares.storeHead
    (hshares : Shares storage_ state base acquired written)
    (hcapacity : capacity ≤ maxSize)
    (hstep : step state .storeHead = some next) :
    ∃ base' obj, Shares storage_ next base' acquired (written ++ [obj]) := by
  have hreleaser := hshares.releaser
  have hpool := hshares.pool
  simp only [step] at hstep
  split at hstep
  next obj head hphase =>
    cases hstep
    rw [hphase] at hreleaser hpool
    obtain ⟨rfl, hout⟩ := hreleaser
    have hroom := hshares.room hout
    have hle := hshares.ring.acquired_le
    have hnotFull : ¬ (written.drop acquired).length = capacity := by
      rw [List.length_drop]
      omega
    have hcall : freeRing capacity ⟨written.drop acquired, acquired⟩
        (.release obj) =
          (⟨(written ++ [obj]).drop acquired, acquired⟩, .released) := by
      rw [freeRing, if_neg hnotFull, List.drop_append_of_le_length hle]
    have hreturns : (.released : Outcome Obj) ≠ .threw "Pool overflow" := by
      intro hthrew
      cases hthrew
    obtain ⟨hfree, hanswers, hquiet⟩ := hshares.returned hcall hreturns
    refine ⟨_, obj, hshares.ring.store hcapacity hroom obj, ?_, hfree,
      hanswers, hquiet, ?_, ?_, ?_⟩
    · rw [hpool]
      rfl
    · rw [outstanding_released, List.drop_append_of_le_length hle,
        List.append_assoc, List.singleton_append]
      refine List.Perm.trans ?_ hshares.objects
      exact (List.perm_cons_erase hout).symm.append_left _
    · exact hshares.acquirer.append obj
    · trivial
  next => cases hstep

/-! ## Whole runs -/

theorem step_shares (hcapacity : capacity ≤ maxSize)
    (hshares : Shares storage_ state base acquired written) {move : Move Obj}
    (hgives : GivesBack state move) (hstep : step state move = some next) :
    ∃ base' acquired' written',
      Shares storage_ next base' acquired' written' := by
  cases move with
  | acquire => exact ⟨_, _, _, hshares.acquire hstep⟩
  | loadHead => exact ⟨_, _, _, hshares.loadHead hstep⟩
  | readSlot => exact ⟨_, _, _, hshares.readSlot hcapacity hstep⟩
  | storeTail =>
      obtain ⟨base', hnext⟩ := hshares.storeTail hcapacity hstep
      exact ⟨base', _, _, hnext⟩
  | release obj => exact ⟨_, _, _, hshares.release hgives hstep⟩
  | loadTail => exact ⟨_, _, _, hshares.loadTail hcapacity hstep⟩
  | writeSlot => exact ⟨_, _, _, hshares.writeSlot hstep⟩
  | storeHead =>
      obtain ⟨base', obj, hnext⟩ := hshares.storeHead hcapacity hstep
      exact ⟨base', _, _, hnext⟩

/-- The acquiring thread is about to read a cell of `freelist_` which the
releasing thread is about to write. -/
def Races (state : State capacity Obj) : Prop :=
  ∃ tail obj head, state.acquirer = .checked tail ∧
    state.releaser = .checked obj head ∧
    slotOf capacity tail = slotOf capacity head

theorem Shares.not_races
    (hshares : Shares storage_ state base acquired written)
    (hcapacity : capacity ≤ maxSize) : ¬ Races state := by
  rintro ⟨tail, obj, head, hacquirer, hreleaser, hsame⟩
  have hknows := hshares.acquirer
  have hholds := hshares.releaser
  rw [hacquirer] at hknows
  rw [hreleaser] at hholds
  obtain ⟨rfl, hsome⟩ := hknows
  obtain ⟨rfl, hout⟩ := hholds
  exact hshares.apart hcapacity hsome hout hsame

/-- However the two threads interleave, their calls are answered as by a queue
of free objects which never overflows, every object is in that queue or out,
and no cell of `freelist_` is read and written at the same time. -/
theorem lockFreePool_twoThreads (hcapacity : capacity ≤ maxSize)
    (storage_ : Fin capacity → Obj) {moves : List (Move Obj)}
    {state : State capacity Obj}
    (hrun : StepSystem.run step moves (initial (fresh storage_)) = some state)
    (hgives : StepSystem.AllAllowed step GivesBack moves
      (initial (fresh storage_))) :
    let calls := state.log.map Prod.fst
    CallSystem.results (freeRing capacity) ⟨List.ofFn storage_, 0⟩ calls =
        state.log.map Prod.snd ∧
      (∀ entry ∈ state.log, entry.2 ≠ .threw "Pool overflow") ∧
      ((CallSystem.stateAfter (freeRing capacity) ⟨List.ofFn storage_, 0⟩
        calls).free ++ outstanding state.log).Perm (List.ofFn storage_) ∧
      ¬ Races state := by
  intro calls
  have hshares : ∃ base acquired written,
      Shares storage_ state base acquired written := by
    apply (StepSystem.reachable_of_run hrun hgives).invariant
      ⟨_, _, _, initial_shares hcapacity storage_⟩
    rintro state move next ⟨base, acquired, written, hshares⟩ hgives hstep
    exact step_shares hcapacity hshares hgives hstep
  obtain ⟨base, acquired, written, hshares⟩ := hshares
  refine ⟨hshares.answers, hshares.quiet, ?_, hshares.not_races hcapacity⟩
  rw [hshares.free]
  exact hshares.objects

end Invariant

/-- The only object is acquired, given back and acquired again while `release`
is on its way; the ring has started over by then. -/
def goesAround : List (Move ℕ) :=
  [.acquire, .loadHead, .readSlot, .storeTail, .release 7, .loadTail,
    .acquire, .writeSlot, .loadHead, .acquire, .storeHead, .loadHead,
    .readSlot, .storeTail]

theorem lockFreePool_twoThreads_one :
    ∃ state, StepSystem.run step goesAround
        (initial (fresh fun _ : Fin 1 => 7)) = some state ∧
      state.log.map Prod.snd =
        [.acquired (some 7), .acquired none, .released, .acquired (some 7)] ∧
      (∀ entry ∈ state.log, entry.2 ≠ .threw "Pool overflow") ∧
      ¬ Races state := by
  have hlog : (StepSystem.run step goesAround
      (initial (fresh fun _ : Fin 1 => 7))).map (fun state => state.log) =
        some [(.acquire, .acquired (some 7)), (.acquire, .acquired none),
          (.release 7, .released), (.acquire, .acquired (some 7))] := by
    decide
  obtain ⟨state, hrun, hvalue⟩ := Option.map_eq_some_iff.mp hlog
  obtain ⟨-, hquiet, -, hraces⟩ :=
    lockFreePool_twoThreads (by decide) (fun _ : Fin 1 => 7) hrun (by decide)
  refine ⟨state, hrun, ?_, hquiet, hraces⟩
  rw [hvalue]
  rfl

end LockFreePool
end TradingStudies
