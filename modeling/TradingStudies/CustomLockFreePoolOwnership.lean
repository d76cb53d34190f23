import TradingStudies.CustomLockFreePool

/-!
# Exclusive ownership without disturbance

The free part of the array and the messages held by the threads partition the
pool.  An exchange that finds its entry intact moves one message across, and a
write above the top leaves the free part alone.  So the partition survives
every run in which no entry is disturbed between its access and the exchange.

The last section is such a disturbance: the index returns to its old value
while the entry below it changes hands.
-/

namespace TradingStudies
namespace CustomLockFreePool

open SlotPartition

variable {Thread : Type*} {poolMsgCount : ℕ}

/-- The indices which a thread carries lie in the array. -/
def Progress.InBounds : Progress poolMsgCount → Prop
  | .idle => True
  | .allocateLoaded currentHead | .allocateRead currentHead _ =>
      0 ≤ currentHead ∧ currentHead < poolMsgCount
  | .deallocateLoaded currentHead _ | .deallocateWritten currentHead _ =>
      -1 ≤ currentHead ∧ currentHead + 1 < poolMsgCount
  | .outOfBounds _ | .threw _ => False

structure PoolInvariant (state : State Thread poolMsgCount) : Prop where
  size : state.pool.freeMsgs_.length = poolMsgCount
  head : -1 ≤ state.pool.head_ ∧ state.pool.head_ < poolMsgCount
  partition : Partition state.pool.free
    (fun thread => (state.threads thread).holds)
  inBounds : ∀ thread, (state.threads thread).progress.InBounds

theorem initial_poolInvariant :
    PoolInvariant (initial Thread poolMsgCount) where
  size := List.length_finRange
  head := by
    dsimp only [initial, construct]
    omega
  partition := by
    have hfree : (construct poolMsgCount).free =
        List.finRange poolMsgCount := by
      unfold Pool.free construct
      apply List.take_of_length_le
      rw [List.length_finRange]
      dsimp only
      omega
    dsimp only [initial]
    rw [hfree]
    exact
      { freeNodup := List.nodup_finRange poolMsgCount
        holdsNodup := fun _ => List.nodup_nil
        notFree := fun _ _ hmsg => absurd hmsg List.not_mem_nil
        exclusive := fun _ _ _ hmsg => absurd hmsg List.not_mem_nil
        cover := fun msg => Or.inl (List.mem_finRange msg) }
  inBounds := fun _ => trivial

section Steps

variable [DecidableEq Thread] {state next : State Thread poolMsgCount}
  {thread : Thread}

/-- A step which exchanges messages between its thread and the array. -/
theorem PoolInvariant.continue (hinv : PoolInvariant state)
    {pool : Pool poolMsgCount} {mine : ThreadState poolMsgCount}
    (hsize : pool.freeMsgs_.length = state.pool.freeMsgs_.length)
    (hhead : -1 ≤ pool.head_ ∧ pool.head_ < poolMsgCount)
    (hperm : (pool.free ++ mine.holds).Perm
      (state.pool.free ++ (state.threads thread).holds))
    (hmine : mine.progress.InBounds) :
    PoolInvariant (state.continue thread pool mine) where
  size := hsize.trans hinv.size
  head := hhead
  partition := hinv.partition.update_thread thread hperm
  inBounds := by
    apply (Function.forall_update_iff state.threads
      (fun _ mine => mine.progress.InBounds)).mpr
    exact ⟨hmine, fun other _ => hinv.inBounds other⟩

/-- A step that moves no message. -/
theorem PoolInvariant.stay (hinv : PoolInvariant state)
    {mine : ThreadState poolMsgCount}
    (hholds : mine.holds.Perm (state.threads thread).holds)
    (hmine : mine.progress.InBounds) :
    PoolInvariant (state.continue thread state.pool mine) :=
  hinv.continue rfl hinv.head (hholds.append_left _) hmine

omit [DecidableEq Thread] in
theorem PoolInvariant.allocateFrom_inBounds (hinv : PoolInvariant state) :
    (allocateFrom state.pool.head_ : Progress poolMsgCount).InBounds := by
  unfold allocateFrom
  by_cases hnonneg : state.pool.head_ ≥ 0
  · rw [if_pos hnonneg]
    exact ⟨hnonneg, hinv.head.2⟩
  · rw [if_neg hnonneg]
    trivial

theorem deallocating_allocateFrom (currentHead : ℤ) :
    (allocateFrom currentHead : Progress poolMsgCount).deallocating = [] := by
  unfold allocateFrom
  by_cases hnonneg : currentHead ≥ 0
  · rw [if_pos hnonneg]
    rfl
  · rw [if_neg hnonneg]
    rfl

omit [DecidableEq Thread] in
/-- A thread that holds a message finds room for it. -/
theorem PoolInvariant.head_lt (hinv : PoolInvariant state)
    {msg : Fin poolMsgCount} (hmsg : msg ∈ (state.threads thread).holds) :
    state.pool.head_ + 1 < poolMsgCount := by
  have hnotFree := hinv.partition.notFree thread msg hmsg
  have hnodup : (msg :: state.pool.free).Nodup :=
    List.nodup_cons.mpr ⟨hnotFree, hinv.partition.freeNodup⟩
  have hcard := hnodup.length_le_card
  have hhead := hinv.head
  have hsize := hinv.size
  unfold Pool.free at hcard
  rw [List.length_cons, List.length_take, Fintype.card_fin] at hcard
  omega

omit [DecidableEq Thread] in
theorem PoolInvariant.deallocateFrom_eq (hinv : PoolInvariant state)
    {msg : Fin poolMsgCount} (hmsg : msg ∈ (state.threads thread).holds)
    (owned : List (Fin poolMsgCount)) :
    deallocateFrom state.pool.head_ msg owned =
      { progress := .deallocateLoaded state.pool.head_ msg
        owned := owned } := by
  have hroom := hinv.head_lt hmsg
  unfold deallocateFrom
  rw [if_neg (by omega)]

theorem allocate_poolInvariant (hinv : PoolInvariant state)
    (hstep : step state (thread, .allocate) = some next) :
    PoolInvariant next := by
  unfold step at hstep
  cases hprogress : (state.threads thread).progress with
  | idle =>
      simp only [hprogress, Option.some.injEq] at hstep
      subst next
      apply hinv.stay
      · unfold ThreadState.holds
        rw [hprogress, deallocating_allocateFrom]
        exact List.Perm.refl _
      · exact hinv.allocateFrom_inBounds
  | allocateLoaded _ => simp [hprogress] at hstep
  | allocateRead _ _ => simp [hprogress] at hstep
  | deallocateLoaded _ _ => simp [hprogress] at hstep
  | deallocateWritten _ _ => simp [hprogress] at hstep
  | outOfBounds _ => simp [hprogress] at hstep
  | threw _ => simp [hprogress] at hstep

theorem readSlot_poolInvariant (hinv : PoolInvariant state)
    (hstep : step state (thread, .readSlot) = some next) :
    PoolInvariant next := by
  unfold step at hstep
  have hmine := hinv.inBounds thread
  cases hprogress : (state.threads thread).progress with
  | allocateLoaded currentHead =>
      rw [hprogress] at hmine
      rcases hmine with ⟨hlow, hhigh⟩
      have hsize := hinv.size
      have hget := List.getElem?_eq_getElem
        (show currentHead.toNat < state.pool.freeMsgs_.length by omega)
      simp only [hprogress, hget, Option.some.injEq] at hstep
      subst next
      apply hinv.stay
      · unfold ThreadState.holds
        rw [hprogress]
        exact List.Perm.refl _
      · exact ⟨hlow, hhigh⟩
  | idle => simp [hprogress] at hstep
  | allocateRead _ _ => simp [hprogress] at hstep
  | deallocateLoaded _ _ => simp [hprogress] at hstep
  | deallocateWritten _ _ => simp [hprogress] at hstep
  | outOfBounds _ => simp [hprogress] at hstep
  | threw _ => simp [hprogress] at hstep

theorem deallocate_poolInvariant (hinv : PoolInvariant state)
    {msg : Fin poolMsgCount} (howned : msg ∈ (state.threads thread).owned)
    (hstep : step state (thread, .deallocate msg) = some next) :
    PoolInvariant next := by
  unfold step at hstep
  cases hprogress : (state.threads thread).progress with
  | idle =>
      have hholds : (state.threads thread).holds =
          (state.threads thread).owned := by
        unfold ThreadState.holds
        rw [hprogress]
        rfl
      have hmsg : msg ∈ (state.threads thread).holds := hholds ▸ howned
      simp only [hprogress, hinv.deallocateFrom_eq hmsg,
        Option.some.injEq] at hstep
      subst next
      apply hinv.stay
      · rw [hholds]
        exact (List.perm_cons_erase howned).symm
      · exact ⟨hinv.head.1, hinv.head_lt hmsg⟩
  | allocateLoaded _ => simp [hprogress] at hstep
  | allocateRead _ _ => simp [hprogress] at hstep
  | deallocateLoaded _ _ => simp [hprogress] at hstep
  | deallocateWritten _ _ => simp [hprogress] at hstep
  | outOfBounds _ => simp [hprogress] at hstep
  | threw _ => simp [hprogress] at hstep

theorem writeSlot_poolInvariant (hinv : PoolInvariant state)
    (habove : (state.threads thread).progress.WritesAbove state.pool)
    (hstep : step state (thread, .writeSlot) = some next) :
    PoolInvariant next := by
  unfold step at hstep
  have hmine := hinv.inBounds thread
  cases hprogress : (state.threads thread).progress with
  | deallocateLoaded currentHead msg =>
      rw [hprogress] at hmine habove
      have hlt : state.pool.head_ < currentHead + 1 := habove
      simp only [hprogress, Option.some.injEq] at hstep
      subst next
      apply hinv.continue
      · exact List.length_set
      · exact hinv.head
      · -- The entries up to `head_` are not written.
        have hfree : Pool.free { state.pool with
            freeMsgs_ := state.pool.freeMsgs_.set (currentHead + 1).toNat
              msg } = state.pool.free := by
          have hhead := hinv.head
          unfold Pool.free
          dsimp only
          exact List.take_set_of_le (by omega)
        rw [hfree]
        unfold ThreadState.holds
        rw [hprogress]
        exact List.Perm.refl _
      · exact hmine
  | idle => simp [hprogress] at hstep
  | allocateLoaded _ => simp [hprogress] at hstep
  | allocateRead _ _ => simp [hprogress] at hstep
  | deallocateWritten _ _ => simp [hprogress] at hstep
  | outOfBounds _ => simp [hprogress] at hstep
  | threw _ => simp [hprogress] at hstep

/-- The free part up to `top` is the part below it and its entry. -/
theorem take_top {freeMsgs_ : List (Fin poolMsgCount)} {top : ℤ}
    (htop : 0 ≤ top) {msg : Fin poolMsgCount}
    (hentry : freeMsgs_[top.toNat]? = some msg) :
    freeMsgs_.take (top + 1).toNat =
      freeMsgs_.take top.toNat ++ [msg] := by
  rw [show (top + 1).toNat = top.toNat + 1 by omega, List.take_add_one,
    hentry]
  rfl

theorem exchange_poolInvariant (hinv : PoolInvariant state) {spurious : Bool}
    (hintact : (state.threads thread).progress.Intact state.pool spurious)
    (hstep : step state (thread, .exchange spurious) = some next) :
    PoolInvariant next := by
  unfold step at hstep
  have hmine := hinv.inBounds thread
  cases hprogress : (state.threads thread).progress with
  | allocateRead currentHead msg =>
      rw [hprogress] at hmine hintact
      simp only [hprogress] at hstep
      by_cases hsuccess : state.pool.head_ = currentHead ∧ spurious = false
      · have hentry := hintact hsuccess
        rcases hmine with ⟨hlow, hhigh⟩
        rw [if_pos hsuccess, Option.some.injEq] at hstep
        subst next
        apply hinv.continue
        · rfl
        · dsimp only
          omega
        · have htop := take_top hlow hentry
          unfold Pool.free ThreadState.holds
          rw [hprogress, hsuccess.1, htop, Int.sub_add_cancel,
            List.append_assoc]
          exact List.Perm.refl _
        · trivial
      · rw [if_neg hsuccess, Option.some.injEq] at hstep
        subst next
        apply hinv.stay
        · unfold ThreadState.holds
          rw [hprogress, deallocating_allocateFrom]
          exact List.Perm.refl _
        · exact hinv.allocateFrom_inBounds
  | deallocateWritten currentHead msg =>
      rw [hprogress] at hmine hintact
      simp only [hprogress] at hstep
      have hmsg : msg ∈ (state.threads thread).holds := by
        unfold ThreadState.holds
        rw [hprogress]
        exact List.mem_cons_self
      by_cases hsuccess : state.pool.head_ = currentHead ∧ spurious = false
      · have hentry := hintact hsuccess
        rcases hmine with ⟨hlow, hhigh⟩
        rw [if_pos hsuccess, Option.some.injEq] at hstep
        subst next
        apply hinv.continue
        · rfl
        · dsimp only
          omega
        · have htop := take_top (by omega) hentry
          unfold Pool.free ThreadState.holds
          rw [hprogress, hsuccess.1, htop, List.append_assoc]
          exact List.Perm.refl _
        · trivial
      · rw [if_neg hsuccess, Option.some.injEq] at hstep
        rw [hinv.deallocateFrom_eq hmsg] at hstep
        subst next
        apply hinv.stay
        · unfold ThreadState.holds
          rw [hprogress]
          exact List.Perm.refl _
        · exact ⟨hinv.head.1, hinv.head_lt hmsg⟩
  | idle => simp [hprogress] at hstep
  | allocateLoaded _ => simp [hprogress] at hstep
  | deallocateLoaded _ _ => simp [hprogress] at hstep
  | outOfBounds _ => simp [hprogress] at hstep
  | threw _ => simp [hprogress] at hstep

theorem step_poolInvariant (hinv : PoolInvariant state)
    {action : Thread × Move poolMsgCount}
    (hdeallocates : DeallocatesOwned state action)
    (hundisturbed : Undisturbed state action)
    (hstep : step state action = some next) : PoolInvariant next := by
  rcases action with ⟨thread, move⟩
  cases move with
  | allocate => exact allocate_poolInvariant hinv hstep
  | readSlot => exact readSlot_poolInvariant hinv hstep
  | deallocate msg => exact deallocate_poolInvariant hinv hdeallocates hstep
  | writeSlot => exact writeSlot_poolInvariant hinv hundisturbed hstep
  | exchange spurious => exact exchange_poolInvariant hinv hundisturbed hstep

omit [DecidableEq Thread] in
theorem PoolInvariant.exclusive (hinv : PoolInvariant state) :
    Exclusive state where
  exclusive := by
    intro thread thread' msg hmsg hmsg'
    apply hinv.partition.exclusive thread thread' msg
    · exact List.mem_append_right _ hmsg
    · exact List.mem_append_right _ hmsg'
  finished := by
    intro hidle
    have hholds : (fun thread => (state.threads thread).holds) =
        fun thread => (state.threads thread).owned := by
      funext thread
      unfold ThreadState.holds
      rw [hidle thread]
      rfl
    rw [← hholds]
    exact hinv.partition

/-! ## Whole runs -/

/-- In every run in which each exchange finds its entry intact and each
deallocation writes above the top, no message has two owners and none is
lost. -/
theorem customLockFreePool_exclusive {state : State Thread poolMsgCount}
    (hreach : StepSystem.Reachable step
      (fun state action =>
        DeallocatesOwned state action ∧ Undisturbed state action)
      (initial Thread poolMsgCount) state) : Exclusive state := by
  have hinv : PoolInvariant state :=
    hreach.invariant initial_poolInvariant
      (fun hinv hallowed hstep =>
        step_poolInvariant hinv hallowed.1 hallowed.2 hstep)
  exact hinv.exclusive

/-- Two threads take a message each; one exchange fails and is repeated, and
one message goes back. -/
theorem customLockFreePool_race :
    let actions : List (Bool × Move 2) :=
      [(false, .allocate), (false, .readSlot), (true, .allocate),
        (true, .readSlot), (true, .exchange false), (false, .exchange false),
        (false, .readSlot), (false, .exchange false),
        (true, .deallocate 1), (true, .writeSlot), (true, .exchange false)]
    ∃ state, StepSystem.run step actions (initial Bool 2) = some state ∧
      Exclusive state := by
  intro actions
  have hallowed : StepSystem.AllAllowed step
      (fun state action =>
        DeallocatesOwned state action ∧ Undisturbed state action)
      actions (initial Bool 2) := by
    decide
  refine ⟨_, rfl, ?_⟩
  exact customLockFreePool_exclusive
    (StepSystem.reachable_of_run rfl hallowed)

/-- One thread reads the top message 1 and stalls.  The other takes both
messages and gives them back in the other order, so that `head_` is as before
and the stalled exchange succeeds; then it is handed message 1 as well. -/
theorem customLockFreePool_two_owners :
    ¬ ∀ (poolMsgCount : ℕ) (state : State Bool poolMsgCount),
      StepSystem.Reachable step DeallocatesOwned (initial Bool poolMsgCount)
        state → Exclusive state := by
  intro hall
  let actions : List (Bool × Move 2) :=
    [(false, .allocate), (false, .readSlot),
      (true, .allocate), (true, .readSlot), (true, .exchange false),
      (true, .allocate), (true, .readSlot), (true, .exchange false),
      (true, .deallocate 1), (true, .writeSlot), (true, .exchange false),
      (true, .deallocate 0), (true, .writeSlot), (true, .exchange false),
      (false, .exchange false),
      (true, .allocate), (true, .readSlot), (true, .exchange false)]
  have hallowed :
      StepSystem.AllAllowed step DeallocatesOwned actions (initial Bool 2) := by
    decide
  have hexclusive := hall 2 _ (StepSystem.reachable_of_run rfl hallowed)
  have hsame := hexclusive.exclusive false true 1 (by decide) (by decide)
  exact Bool.false_ne_true hsame

end Steps
end CustomLockFreePool
end TradingStudies
