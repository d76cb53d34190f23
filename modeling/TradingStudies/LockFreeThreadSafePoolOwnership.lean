import TradingStudies.LockFreeThreadSafePoolFreeList

/-!
# Exclusive ownership under every interleaving

A thread that holds an old `head_` may have read a `nextFree_` entry which has
since been overwritten.  The tag makes its exchange fail: the tag of `head_` is
the number of exchanges so far, so with fewer than `2 ^ 32` exchanges since the
thread obtained `head_`, equal words mean that no exchange came between.  Then
the free list is the one the thread saw, and nobody writes the entry of a free
slot.
-/

namespace TradingStudies
namespace LockFreeThreadSafePool

open LinkedSegment SlotPartition

variable {Thread : Type*} {poolMsgCount : ℕ}

/-- The slot whose deallocation is under way. -/
def Progress.deallocating : Progress poolMsgCount → List (Fin poolMsgCount)
  | .deallocateLoaded _ slot => [slot]
  | .deallocateWritten _ slot => [slot]
  | _ => []

/-- The slots a thread owns or is giving back. -/
def ThreadState.holds (mine : ThreadState poolMsgCount) :
    List (Fin poolMsgCount) :=
  mine.progress.deallocating ++ mine.owned

/-- The exchange of an `allocate` fails and obtains `head_` anew. -/
def Progress.reloads (head : UInt64) (spurious : Bool) :
    Progress poolMsgCount → Bool
  | .allocateRead oldHead _ _ => !decide (head = oldHead ∧ spurious = false)
  | _ => false

/-- What the threads promise: they deallocate what they own, no `allocate`
obtains `head_` while the free list is empty, and fewer than `2 ^ 32` exchanges
lie between obtaining `head_` and exchanging it. -/
def Allowed (state : State Thread poolMsgCount) :
    Thread × Move poolMsgCount → Prop
  | (_, .allocate) => state.pool.headSlot ≠ none
  | (thread, .deallocate slot) => slot ∈ (state.threads thread).owned
  | (thread, .exchange spurious) =>
      state.exchanges < (state.threads thread).seen + 2 ^ 32 ∧
        ((state.threads thread).progress.reloads state.pool.head_ spurious →
          state.pool.headSlot ≠ none)
  | (_, .readNext) | (_, .writeNext) => True

instance (state : State Thread poolMsgCount) :
    ∀ action, Decidable (Allowed state action)
  | (_, .allocate) => inferInstanceAs (Decidable (_ ≠ none))
  | (_, .deallocate _) => inferInstanceAs (Decidable (_ ∈ _))
  | (_, .exchange _) => inferInstanceAs (Decidable (_ ∧ (_ → _ ≠ none)))
  | (_, .readNext) | (_, .writeNext) => inferInstanceAs (Decidable True)

/-- The chain from `head_` is finite and visits each free slot once, and every
slot is free or held by exactly one thread. -/
def Exclusive (state : State Thread poolMsgCount) : Prop :=
  ∃ free, state.pool.Chain free ∧
    Partition free (fun thread => (state.threads thread).holds)

/-! ## The invariant -/

/-- `oldHead` was the value of `head_` after `seen` exchanges. -/
structure Obtained (pool : Pool poolMsgCount) (exchanges seen : ℕ)
    (oldHead : UInt64) : Prop where
  past : seen ≤ exchanges
  tag : unpackTag oldHead = UInt32.ofNat seen
  current : seen = exchanges → oldHead = pool.head_

/-- What is known of a thread in the middle of a call. -/
def Consistent (pool : Pool poolMsgCount) (exchanges : ℕ)
    (mine : ThreadState poolMsgCount) : Prop :=
  match mine.progress with
  | .idle => True
  | .allocateLoaded oldHead =>
      Obtained pool exchanges mine.seen oldHead ∧
        slotOf poolMsgCount (unpackIndex oldHead) ≠ none
  | .allocateRead oldHead slot nextIndex =>
      Obtained pool exchanges mine.seen oldHead ∧
        slotOf poolMsgCount (unpackIndex oldHead) = some slot ∧
        (mine.seen = exchanges → nextIndex = pool.nextFree_ slot)
  | .deallocateLoaded oldHead _ => Obtained pool exchanges mine.seen oldHead
  | .deallocateWritten oldHead slot =>
      Obtained pool exchanges mine.seen oldHead ∧
        pool.nextFree_ slot = unpackIndex oldHead
  | .outOfBounds _ => False

structure PoolInvariant (state : State Thread poolMsgCount)
    (free : List (Fin poolMsgCount)) : Prop where
  chain : state.pool.Chain free
  partition : Partition free (fun thread => (state.threads thread).holds)
  tag : unpackTag state.pool.head_ = UInt32.ofNat state.exchanges
  consistent : ∀ thread,
    Consistent state.pool state.exchanges (state.threads thread)

theorem initial_poolInvariant (hcount : poolMsgCount ≤ 2 ^ 32 - 1) :
    PoolInvariant (initial Thread poolMsgCount)
      (descending poolMsgCount poolMsgCount le_rfl) where
  chain := construct_chain hcount
  partition :=
    { freeNodup := Segment.nodup (construct_chain hcount)
      holdsNodup := fun _ => List.nodup_nil
      notFree := fun _ _ hslot => absurd hslot List.not_mem_nil
      exclusive := fun _ _ _ hslot => absurd hslot List.not_mem_nil
      cover := fun slot => Or.inl ((mem_descending le_rfl slot).mpr slot.isLt) }
  tag := unpackTag_pack _ _
  consistent := fun _ => trivial

section Threads

variable {pool pool' : Pool poolMsgCount} {exchanges : ℕ}
  {mine : ThreadState poolMsgCount}

theorem obtained_now (htag : unpackTag pool.head_ = UInt32.ofNat exchanges) :
    Obtained pool exchanges exchanges pool.head_ where
  past := le_rfl
  tag := htag
  current := fun _ => rfl

/-- The tag tells old values of `head_` from the current one. -/
theorem Obtained.seen_eq {seen : ℕ} {oldHead : UInt64}
    (hobtained : Obtained pool exchanges seen oldHead)
    (htag : unpackTag pool.head_ = UInt32.ofNat exchanges)
    (hrecent : exchanges < seen + 2 ^ 32) (hequal : pool.head_ = oldHead) :
    seen = exchanges := by
  have hpast := hobtained.past
  have hold := hobtained.tag
  rw [← hequal, htag] at hold
  have hnat := congrArg UInt32.toNat hold
  rw [UInt32.toNat_ofNat', UInt32.toNat_ofNat'] at hnat
  omega

/-- After an exchange every value obtained before is an old one. -/
theorem Consistent.exchanged (hmine : Consistent pool exchanges mine)
    (hnext : pool'.nextFree_ = pool.nextFree_) :
    Consistent pool' (exchanges + 1) mine := by
  have hobtained : ∀ oldHead, Obtained pool exchanges mine.seen oldHead →
      Obtained pool' (exchanges + 1) mine.seen oldHead := by
    intro oldHead hold
    have hpast := hold.past
    exact ⟨by omega, hold.tag, fun heq => by omega⟩
  unfold Consistent at hmine ⊢
  cases hprogress : mine.progress with
  | idle => trivial
  | allocateLoaded oldHead =>
      simp only [hprogress] at hmine
      exact ⟨hobtained _ hmine.1, hmine.2⟩
  | allocateRead oldHead slot nextIndex =>
      simp only [hprogress] at hmine
      have hpast := hmine.1.past
      exact ⟨hobtained _ hmine.1, hmine.2.1, fun heq => by omega⟩
  | deallocateLoaded oldHead slot =>
      simp only [hprogress] at hmine
      exact hobtained _ hmine
  | deallocateWritten oldHead slot =>
      simp only [hprogress] at hmine
      rw [← hnext] at hmine
      exact ⟨hobtained _ hmine.1, hmine.2⟩
  | outOfBounds index => simp only [hprogress] at hmine

/-- Another thread writes to a slot that is neither at the head nor being given
back here. -/
theorem Consistent.writeNext (hmine : Consistent pool exchanges mine)
    {slot : Fin poolMsgCount} (oldHead : UInt64)
    (hhead : pool.headSlot ≠ some slot) (hheld : slot ∉ mine.holds) :
    Consistent (pool.writeNext oldHead slot) exchanges mine := by
  have hobtained : ∀ other, Obtained pool exchanges mine.seen other →
      Obtained (pool.writeNext oldHead slot) exchanges mine.seen other :=
    fun _ hold => ⟨hold.past, hold.tag, hold.current⟩
  have hsame : ∀ other, other ≠ slot →
      (pool.writeNext oldHead slot).nextFree_ other =
        pool.nextFree_ other := by
    intro other hne
    exact Function.update_of_ne hne _ _
  unfold Consistent at hmine ⊢
  cases hprogress : mine.progress with
  | idle => trivial
  | allocateLoaded other =>
      simp only [hprogress] at hmine
      exact ⟨hobtained _ hmine.1, hmine.2⟩
  | allocateRead other first nextIndex =>
      simp only [hprogress] at hmine
      rcases hmine with ⟨hold, hslot, hread⟩
      refine ⟨hobtained _ hold, hslot, ?_⟩
      intro heq
      have hne : first ≠ slot := by
        intro hfirst
        subst first
        apply hhead
        rw [hold.current heq] at hslot
        exact hslot
      rw [hsame first hne]
      exact hread heq
  | deallocateLoaded other _ =>
      simp only [hprogress] at hmine
      exact hobtained _ hmine
  | deallocateWritten other first =>
      simp only [hprogress] at hmine
      have hne : first ≠ slot := by
        intro hfirst
        subst first
        apply hheld
        unfold ThreadState.holds Progress.deallocating
        rw [hprogress]
        exact List.mem_cons_self
      refine ⟨hobtained _ hmine.1, ?_⟩
      rw [hsame first hne]
      exact hmine.2
  | outOfBounds index => simp only [hprogress] at hmine

end Threads

/-! ## One step -/

section Steps

variable [DecidableEq Thread] {state next : State Thread poolMsgCount}
  {free free' : List (Fin poolMsgCount)} {thread : Thread}

omit [DecidableEq Thread] in
theorem PoolInvariant.mine (hinv : PoolInvariant state free)
    {progress : Progress poolMsgCount}
    (hprogress : (state.threads thread).progress = progress) :
    Consistent state.pool state.exchanges
      { state.threads thread with progress := progress } := by
  subst progress
  exact hinv.consistent thread

theorem PoolInvariant.continue (hinv : PoolInvariant state free)
    {mine : ThreadState poolMsgCount}
    (hheld : mine.holds.Perm (state.threads thread).holds)
    (hmine : Consistent state.pool state.exchanges mine) :
    PoolInvariant (state.continue thread mine) free where
  chain := hinv.chain
  partition := hinv.partition.update_thread thread (hheld.append_left free)
  tag := hinv.tag
  consistent := by
    apply (Function.forall_update_iff state.threads
      (fun _ mine => Consistent state.pool state.exchanges mine)).mpr
    exact ⟨hmine, fun other _ => hinv.consistent other⟩

theorem PoolInvariant.exchanged (hinv : PoolInvariant state free)
    {pool : Pool poolMsgCount} {owned : List (Fin poolMsgCount)}
    (hchain : pool.Chain free')
    (hnext : pool.nextFree_ = state.pool.nextFree_)
    (htag : unpackTag pool.head_ = unpackTag state.pool.head_ + 1)
    (hperm : (free' ++ owned).Perm
      (free ++ (state.threads thread).holds)) :
    PoolInvariant (state.exchanged thread pool owned) free' where
  chain := hchain
  partition := hinv.partition.update_thread thread hperm
  tag := by
    unfold State.exchanged
    dsimp only
    rw [htag, hinv.tag, UInt32.ofNat_add]
    rfl
  consistent := by
    apply (Function.forall_update_iff state.threads
      (fun _ mine => Consistent pool (state.exchanges + 1) mine)).mpr
    exact ⟨trivial, fun other _ => (hinv.consistent other).exchanged hnext⟩

theorem allocate_poolInvariant (hinv : PoolInvariant state free)
    (hallowed : Allowed state (thread, .allocate))
    (hstep : step state (thread, .allocate) = some next) :
    PoolInvariant next free := by
  unfold step at hstep
  cases hprogress : (state.threads thread).progress with
  | idle =>
      simp only [hprogress, Option.some.injEq] at hstep
      subst next
      refine hinv.continue ?_ ⟨obtained_now hinv.tag, hallowed⟩
      unfold ThreadState.holds
      rw [hprogress]
      exact List.Perm.refl _
  | allocateLoaded _ => simp [hprogress] at hstep
  | allocateRead _ _ _ => simp [hprogress] at hstep
  | deallocateLoaded _ _ => simp [hprogress] at hstep
  | deallocateWritten _ _ => simp [hprogress] at hstep
  | outOfBounds _ => simp [hprogress] at hstep

theorem readNext_poolInvariant (hinv : PoolInvariant state free)
    (hstep : step state (thread, .readNext) = some next) :
    PoolInvariant next free := by
  unfold step at hstep
  cases hprogress : (state.threads thread).progress with
  | allocateLoaded oldHead =>
      obtain ⟨hobtained, hhead⟩ := hinv.mine hprogress
      rcases Option.ne_none_iff_exists'.mp hhead with ⟨slot, hslot⟩
      simp only [hprogress, Pool.readNext_of_head hslot,
        Option.some.injEq] at hstep
      subst next
      refine hinv.continue ?_ ⟨hobtained, hslot, fun _ => rfl⟩
      unfold ThreadState.holds
      rw [hprogress]
      exact List.Perm.refl _
  | idle => simp [hprogress] at hstep
  | allocateRead _ _ _ => simp [hprogress] at hstep
  | deallocateLoaded _ _ => simp [hprogress] at hstep
  | deallocateWritten _ _ => simp [hprogress] at hstep
  | outOfBounds _ => simp [hprogress] at hstep

theorem deallocate_poolInvariant (hinv : PoolInvariant state free)
    {slot : Fin poolMsgCount}
    (hallowed : Allowed state (thread, .deallocate slot))
    (hstep : step state (thread, .deallocate slot) = some next) :
    PoolInvariant next free := by
  unfold step at hstep
  cases hprogress : (state.threads thread).progress with
  | idle =>
      have howned : slot ∈ (state.threads thread).owned := hallowed
      simp only [hprogress, Option.some.injEq] at hstep
      subst next
      refine hinv.continue ?_ (obtained_now hinv.tag)
      unfold ThreadState.holds
      rw [hprogress]
      exact (List.perm_cons_erase howned).symm
  | allocateLoaded _ => simp [hprogress] at hstep
  | allocateRead _ _ _ => simp [hprogress] at hstep
  | deallocateLoaded _ _ => simp [hprogress] at hstep
  | deallocateWritten _ _ => simp [hprogress] at hstep
  | outOfBounds _ => simp [hprogress] at hstep

theorem writeNext_poolInvariant (hinv : PoolInvariant state free)
    (hstep : step state (thread, .writeNext) = some next) :
    PoolInvariant next free := by
  unfold step at hstep
  cases hprogress : (state.threads thread).progress with
  | deallocateLoaded oldHead slot =>
      have hobtained := hinv.mine hprogress
      simp only [hprogress, Option.some.injEq] at hstep
      subst next
      have hheld : slot ∈ (state.threads thread).holds := by
        unfold ThreadState.holds
        rw [hprogress]
        exact List.mem_cons_self
      have hnotFree := hinv.partition.notFree thread slot hheld
      have hhead : state.pool.headSlot ≠ some slot := by
        intro heq
        rcases hinv.chain.pop heq 0 with ⟨rest, hfree, -⟩
        exact hnotFree (hfree ▸ List.mem_cons_self)
      have hperm : ThreadState.holds { state.threads thread with
          progress := .deallocateWritten oldHead slot } =
          (state.threads thread).holds := by
        unfold ThreadState.holds
        rw [hprogress]
        rfl
      constructor
      · exact hinv.chain.writeNext hnotFree oldHead
      · exact hinv.partition.update_thread thread (hperm ▸ List.Perm.refl _)
      · exact hinv.tag
      · apply (Function.forall_update_iff state.threads (fun _ mine =>
          Consistent (state.pool.writeNext oldHead slot) state.exchanges
            mine)).mpr
        constructor
        · refine ⟨⟨hobtained.past, hobtained.tag, hobtained.current⟩, ?_⟩
          exact Function.update_self _ _ _
        · intro other hne
          apply (hinv.consistent other).writeNext oldHead hhead
          intro hother
          exact hne (hinv.partition.exclusive other thread slot hother hheld)
  | idle => simp [hprogress] at hstep
  | allocateLoaded _ => simp [hprogress] at hstep
  | allocateRead _ _ _ => simp [hprogress] at hstep
  | deallocateWritten _ _ => simp [hprogress] at hstep
  | outOfBounds _ => simp [hprogress] at hstep

/-- Both exchanges: what succeeds acts on the list the thread saw. -/
theorem exchange_poolInvariant (hcount : poolMsgCount ≤ 2 ^ 32 - 1)
    (hinv : PoolInvariant state free) {spurious : Bool}
    (hallowed : Allowed state (thread, .exchange spurious))
    (hstep : step state (thread, .exchange spurious) = some next) :
    ∃ free', PoolInvariant next free' := by
  unfold step at hstep
  unfold Allowed at hallowed
  cases hprogress : (state.threads thread).progress with
  | allocateRead oldHead slot nextIndex =>
      rcases hinv.mine hprogress with ⟨hobtained, hslot, hread⟩
      simp only [hprogress] at hstep hallowed
      by_cases hsuccess : state.pool.head_ = oldHead ∧ spurious = false
      · rw [if_pos hsuccess, Option.some.injEq] at hstep
        subst next
        have hseen := hobtained.seen_eq hinv.tag hallowed.1 hsuccess.1
        have hhead : state.pool.headSlot = some slot := by
          unfold Pool.headSlot
          rw [hsuccess.1]
          exact hslot
        obtain ⟨rest, hfree, hchain⟩ := hinv.chain.pop hhead oldHead
        rw [← hread hseen] at hchain
        refine ⟨rest, hinv.exchanged hchain rfl ?_ ?_⟩
        · rw [hsuccess.1]
          exact unpackTag_pack _ _
        · unfold ThreadState.holds
          rw [hprogress, hfree]
          exact List.perm_middle
      · rw [if_neg hsuccess, Option.some.injEq] at hstep
        subst next
        have hhead := hallowed.2 (by simp [Progress.reloads, hsuccess])
        refine ⟨free, hinv.continue ?_ ⟨obtained_now hinv.tag, hhead⟩⟩
        unfold ThreadState.holds
        rw [hprogress]
        exact List.Perm.refl _
  | deallocateWritten oldHead slot =>
      rcases hinv.mine hprogress with ⟨hobtained, hwritten⟩
      simp only [hprogress] at hstep hallowed
      by_cases hsuccess : state.pool.head_ = oldHead ∧ spurious = false
      · rw [if_pos hsuccess, Option.some.injEq] at hstep
        subst next
        rw [← hsuccess.1] at hwritten
        have hchain := hinv.chain.push hcount hwritten oldHead
        refine ⟨slot :: free, hinv.exchanged hchain rfl ?_ ?_⟩
        · rw [hsuccess.1]
          exact unpackTag_pack _ _
        · unfold ThreadState.holds
          rw [hprogress]
          exact List.perm_middle.symm
      · rw [if_neg hsuccess, Option.some.injEq] at hstep
        subst next
        refine ⟨free, hinv.continue ?_ (obtained_now hinv.tag)⟩
        unfold ThreadState.holds
        rw [hprogress]
        exact List.Perm.refl _
  | idle => simp [hprogress] at hstep
  | allocateLoaded _ => simp [hprogress] at hstep
  | deallocateLoaded _ _ => simp [hprogress] at hstep
  | outOfBounds _ => simp [hprogress] at hstep

theorem step_poolInvariant (hcount : poolMsgCount ≤ 2 ^ 32 - 1)
    (hinv : ∃ free, PoolInvariant state free)
    {action : Thread × Move poolMsgCount} (hallowed : Allowed state action)
    (hstep : step state action = some next) :
    ∃ free, PoolInvariant next free := by
  rcases hinv with ⟨free, hinv⟩
  rcases action with ⟨thread, move⟩
  cases move with
  | allocate => exact ⟨free, allocate_poolInvariant hinv hallowed hstep⟩
  | readNext => exact ⟨free, readNext_poolInvariant hinv hstep⟩
  | deallocate slot =>
      exact ⟨free, deallocate_poolInvariant hinv hallowed hstep⟩
  | writeNext => exact ⟨free, writeNext_poolInvariant hinv hstep⟩
  | exchange spurious =>
      exact exchange_poolInvariant hcount hinv hallowed hstep

/-- With at most `2 ^ 32 - 1` slots, every reachable state has the free slots
on the chain from `head_` and no slot in two hands. -/
theorem lockFreeThreadSafePool_exclusive
    (hcount : poolMsgCount ≤ 2 ^ 32 - 1) {state : State Thread poolMsgCount}
    (hreach : StepSystem.Reachable step Allowed (initial Thread poolMsgCount)
      state) : Exclusive state := by
  have hinv : ∃ free, PoolInvariant state free :=
    hreach.invariant ⟨_, initial_poolInvariant hcount⟩
      (fun hinv hallowed hstep =>
        step_poolInvariant hcount hinv hallowed hstep)
  rcases hinv with ⟨free, hinv⟩
  exact ⟨free, hinv.chain, hinv.partition⟩

/-- Two threads race for the slots of a pool of two; the loser's exchange fails
and it takes the other slot, which it then gives back. -/
theorem lockFreeThreadSafePool_race :
    let actions : List (Bool × Move 2) :=
      [(false, .allocate), (false, .readNext), (true, .allocate),
        (true, .readNext), (true, .exchange false), (false, .exchange false),
        (false, .readNext), (false, .exchange false),
        (false, .deallocate 0), (false, .writeNext), (false, .exchange true),
        (false, .writeNext), (false, .exchange false)]
    ∃ state, StepSystem.run step actions (initial Bool 2) = some state ∧
      Exclusive state ∧ (state.threads true).owned = [1] := by
  intro actions
  have hallowed :
      StepSystem.AllAllowed step Allowed actions (initial Bool 2) := by
    decide
  refine ⟨_, rfl, ?_, by decide⟩
  exact lockFreeThreadSafePool_exclusive (by decide)
    (StepSystem.reachable_of_run rfl hallowed)

/-- The number of the last slot of a larger pool loses its high bits in `pack`:
the constructed `head_` names slot 0, whose end mark names a slot as well. -/
theorem lockFreeThreadSafePool_too_many_slots :
    ¬ ∀ (poolMsgCount : ℕ) (state : State Unit poolMsgCount),
      StepSystem.Reachable step Allowed (initial Unit poolMsgCount) state →
        Exclusive state := by
  intro hall
  obtain ⟨free, hchain, -⟩ :=
    hall (2 ^ 32 + 1) (initial Unit (2 ^ 32 + 1)) .refl
  have hnamed : ∀ packed, slotOf (2 ^ 32 + 1) (unpackIndex packed) ≠ none := by
    intro packed
    have hlt := unpackIndex_lt packed
    unfold slotOf
    rw [dif_pos (by omega)]
    exact Option.some_ne_none _
  have hhead := Segment.start_eq_none hchain (fun slot => hnamed _)
  exact hnamed _ hhead

end Steps
end LockFreeThreadSafePool
end TradingStudies
