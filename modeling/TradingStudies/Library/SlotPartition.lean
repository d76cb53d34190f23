import Mathlib

/-!
# Slots that are free or held by one thread

A pool hands out slots to threads.  `Partition free holds` says that the free
slots and the slots held by the threads are all slots, each exactly once.  An
operation of one thread exchanges slots between its own list and the free
list; it keeps the partition as soon as the two lists together are permuted.
-/

namespace SlotPartition

variable {Thread Slot : Type*}

structure Partition (free : List Slot) (holds : Thread → List Slot) :
    Prop where
  freeNodup : free.Nodup
  holdsNodup : ∀ thread, (holds thread).Nodup
  notFree : ∀ thread slot, slot ∈ holds thread → slot ∉ free
  exclusive : ∀ thread thread' slot, slot ∈ holds thread →
    slot ∈ holds thread' → thread = thread'
  cover : ∀ slot, slot ∈ free ∨ ∃ thread, slot ∈ holds thread

variable {free free' : List Slot} {holds : Thread → List Slot}

theorem Partition.append_nodup (hpartition : Partition free holds)
    (thread : Thread) : (free ++ holds thread).Nodup := by
  apply List.nodup_append.mpr
  refine ⟨hpartition.freeNodup, hpartition.holdsNodup thread, ?_⟩
  intro slot hfree other hheld heq
  subst other
  exact hpartition.notFree thread slot hheld hfree

/-- An exchange between one thread and the free list. -/
theorem Partition.exchange [DecidableEq Thread]
    (hpartition : Partition free holds) (thread : Thread) {held : List Slot}
    (hperm : (free' ++ held).Perm (free ++ holds thread)) :
    Partition free' (Function.update holds thread held) := by
  have hnodup : (free' ++ held).Nodup :=
    hperm.nodup_iff.mpr (hpartition.append_nodup thread)
  have hmem : ∀ slot, slot ∈ free' ∨ slot ∈ held ↔
      slot ∈ free ∨ slot ∈ holds thread := by
    intro slot
    have hiff := hperm.mem_iff (a := slot)
    simpa only [List.mem_append] using hiff
  rcases List.nodup_append.mp hnodup with ⟨hfree', hheld, hseparate⟩
  -- Another thread's slots are neither free nor held by `thread`.
  have hother : ∀ other slot, other ≠ thread → slot ∈ holds other →
      slot ∉ free' ∧ slot ∉ held := by
    intro other slot hne hslot
    have hnew : ¬ (slot ∈ free' ∨ slot ∈ held) := by
      rw [hmem]
      rintro (hin | hin)
      · exact hpartition.notFree other slot hslot hin
      · exact hne (hpartition.exclusive other thread slot hslot hin)
    exact not_or.mp hnew
  constructor
  · exact hfree'
  · intro other
    by_cases heq : other = thread
    · subst other
      rw [Function.update_self]
      exact hheld
    · rw [Function.update_of_ne heq]
      exact hpartition.holdsNodup other
  · intro other slot hslot
    by_cases heq : other = thread
    · subst other
      rw [Function.update_self] at hslot
      intro hin
      exact hseparate slot hin slot hslot rfl
    · rw [Function.update_of_ne heq] at hslot
      exact (hother other slot heq hslot).1
  · intro first second slot hfirst hsecond
    by_cases heq : first = thread
    · by_cases heq' : second = thread
      · rw [heq, heq']
      · rw [Function.update_of_ne heq'] at hsecond
        rw [heq, Function.update_self] at hfirst
        exact absurd hfirst (hother second slot heq' hsecond).2
    · rw [Function.update_of_ne heq] at hfirst
      by_cases heq' : second = thread
      · rw [heq', Function.update_self] at hsecond
        exact absurd hsecond (hother first slot heq hfirst).2
      · rw [Function.update_of_ne heq'] at hsecond
        exact hpartition.exclusive first second slot hfirst hsecond
  · intro slot
    by_cases hmine : slot ∈ free' ∨ slot ∈ held
    · rcases hmine with hin | hin
      · exact Or.inl hin
      · refine Or.inr ⟨thread, ?_⟩
        rw [Function.update_self]
        exact hin
    · have hold := hpartition.cover slot
      rw [hmem, not_or] at hmine
      rcases hold with hin | ⟨other, hin⟩
      · exact absurd hin hmine.1
      · have hne : other ≠ thread := by
          intro heq
          subst other
          exact hmine.2 hin
        refine Or.inr ⟨other, ?_⟩
        rw [Function.update_of_ne hne]
        exact hin

/-- The same where the lists are read off the states of the threads. -/
theorem Partition.update_thread [DecidableEq Thread] {ThreadState : Type*}
    {threads : Thread → ThreadState} {held : ThreadState → List Slot}
    (hpartition : Partition free (fun thread => held (threads thread)))
    (thread : Thread) {mine : ThreadState}
    (hperm : (free' ++ held mine).Perm (free ++ held (threads thread))) :
    Partition free'
      (fun other => held (Function.update threads thread mine other)) := by
  have hupdate : (fun other => held (Function.update threads thread mine
      other)) = Function.update (fun other => held (threads other)) thread
        (held mine) :=
    Function.comp_update held threads thread mine
  rw [hupdate]
  exact hpartition.exchange thread hperm

/-- The same with a single holder. -/
theorem Partition.exchange_single {held held' : List Slot}
    (hpartition : Partition free (fun _ : Unit => held))
    (hperm : (free' ++ held').Perm (free ++ held)) :
    Partition free' (fun _ : Unit => held') := by
  have hupdate : Function.update (fun _ : Unit => held) () held' =
      fun _ => held' := by
    funext thread
    exact Function.update_self _ _ _
  rw [← hupdate]
  exact hpartition.exchange () hperm

/-- What a sum over the threads gains when the state of one is replaced. -/
theorem sum_update_add [Fintype Thread] [DecidableEq Thread]
    {ThreadState : Type*} (weight : ThreadState → ℕ)
    (threads : Thread → ThreadState) (thread : Thread) (mine : ThreadState) :
    ∑ other, weight (Function.update threads thread mine other) +
        weight (threads thread) =
      ∑ other, weight (threads other) + weight mine := by
  have hnew := Finset.add_sum_erase Finset.univ
    (fun other => weight (Function.update threads thread mine other))
    (Finset.mem_univ thread)
  have hold := Finset.add_sum_erase Finset.univ
    (fun other => weight (threads other)) (Finset.mem_univ thread)
  have hothers : ∑ other ∈ Finset.univ.erase thread,
        weight (Function.update threads thread mine other) =
      ∑ other ∈ Finset.univ.erase thread, weight (threads other) := by
    apply Finset.sum_congr rfl
    intro other hother
    rw [Function.update_of_ne (Finset.ne_of_mem_erase hother)]
  simp only [Function.update_self] at hnew
  omega

/-- The same when the states of two threads are replaced. -/
theorem sum_update_update_add [Fintype Thread] [DecidableEq Thread]
    {ThreadState : Type*} (weight : ThreadState → ℕ)
    (threads : Thread → ThreadState) {first second : Thread}
    (hne : second ≠ first) (mine other : ThreadState) :
    ∑ thread, weight (Function.update (Function.update threads first mine)
        second other thread) +
        (weight (threads first) + weight (threads second)) =
      ∑ thread, weight (threads thread) + (weight mine + weight other) := by
  have hfirst := sum_update_add weight threads first mine
  have hsecond := sum_update_add weight (Function.update threads first mine)
    second other
  rw [Function.update_of_ne hne] at hsecond
  omega

theorem Partition.count_eq_one [Fintype Thread] [DecidableEq Slot]
    (hpartition : Partition free holds) (slot : Slot) :
    free.count slot + ∑ thread, (holds thread).count slot = 1 := by
  rcases hpartition.cover slot with hfree | ⟨thread, hheld⟩
  · have hnone : ∀ thread ∈ Finset.univ,
        (holds thread).count slot = 0 := by
      intro thread _
      apply List.count_eq_zero_of_not_mem
      intro hheld
      exact hpartition.notFree thread slot hheld hfree
    rw [List.count_eq_one_of_mem hpartition.freeNodup hfree,
      Finset.sum_eq_zero hnone, Nat.add_zero]
  · have hsingle : ∑ other, (holds other).count slot =
        (holds thread).count slot := by
      apply Finset.sum_eq_single thread
      · intro other _ hne
        apply List.count_eq_zero_of_not_mem
        intro hother
        exact hne (hpartition.exclusive other thread slot hother hheld)
      · intro hnot
        exact absurd (Finset.mem_univ thread) hnot
    rw [hsingle, List.count_eq_one_of_mem (hpartition.holdsNodup thread)
      hheld, List.count_eq_zero_of_not_mem
        (hpartition.notFree thread slot hheld)]

theorem partition_of_count [Fintype Thread] [DecidableEq Slot]
    (hcount : ∀ slot,
      free.count slot + ∑ thread, (holds thread).count slot = 1) :
    Partition free holds := by
  have hle : ∀ thread slot, (holds thread).count slot ≤
      ∑ other, (holds other).count slot := by
    intro thread slot
    exact Finset.single_le_sum
      (f := fun other => (holds other).count slot)
      (fun _ _ => Nat.zero_le _) (Finset.mem_univ thread)
  constructor
  · apply List.nodup_iff_count_le_one.mpr
    intro slot
    have hslot := hcount slot
    omega
  · intro thread
    apply List.nodup_iff_count_le_one.mpr
    intro slot
    have hslot := hcount slot
    have hthread := hle thread slot
    omega
  · intro thread slot hheld hfree
    have hslot := hcount slot
    have hthread := hle thread slot
    have hpositive := List.count_pos_iff.mpr hheld
    have hfreePositive := List.count_pos_iff.mpr hfree
    omega
  · intro thread thread' slot hheld hheld'
    apply Classical.byContradiction
    intro hne
    have hpair : (holds thread).count slot + (holds thread').count slot ≤
        ∑ other, (holds other).count slot :=
      Finset.add_le_sum (f := fun other => (holds other).count slot)
        (fun _ _ => Nat.zero_le _) (Finset.mem_univ thread)
        (Finset.mem_univ thread') hne
    have hslot := hcount slot
    have hpositive := List.count_pos_iff.mpr hheld
    have hpositive' := List.count_pos_iff.mpr hheld'
    omega
  · intro slot
    by_cases hfree : slot ∈ free
    · exact Or.inl hfree
    · have hslot := hcount slot
      rw [List.count_eq_zero_of_not_mem hfree, Nat.zero_add] at hslot
      have hsome : ∑ thread, (holds thread).count slot ≠ 0 := by
        rw [hslot]
        exact Nat.one_ne_zero
      rcases Finset.exists_ne_zero_of_sum_ne_zero hsome with
        ⟨thread, _, hthread⟩
      refine Or.inr ⟨thread, ?_⟩
      exact List.count_pos_iff.mp (Nat.pos_of_ne_zero hthread)

/-- The same by counting: every slot occurs once in all the lists together. -/
theorem partition_iff_count [Fintype Thread] [DecidableEq Slot] :
    Partition free holds ↔
      ∀ slot, free.count slot + ∑ thread, (holds thread).count slot = 1 :=
  ⟨Partition.count_eq_one, partition_of_count⟩

/-- Writing to a slot leaves what the other slots contain. -/
theorem map_update_of_notMem {Content : Type*} [DecidableEq Slot]
    (memory : Slot → Content) {slot : Slot} {slots : List Slot}
    (hfresh : slot ∉ slots) (content : Content) :
    slots.map (Function.update memory slot content) = slots.map memory := by
  apply List.map_congr_left
  intro other hother
  have hne : other ≠ slot := by
    rintro rfl
    exact hfresh hother
  exact Function.update_of_ne hne _ _

end SlotPartition
