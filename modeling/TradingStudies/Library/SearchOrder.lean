import Mathlib

/-!
# The in-order sequence of a search tree

A binary search tree stands for the list its in-order walk writes.  While the
list is in non-decreasing order, a search that turns left below the value of a
node and right above it meets every occurrence of a value, wherever equal
values have ended up.

A node contributes `before ++ root :: after`.  The lemmas say what becomes of
that list when one of its three parts changes.
-/

namespace SearchOrder

variable {Value : Type*} [LinearOrder Value]

def InOrder (order : List Value) : Prop := order.Pairwise (· ≤ ·)

variable {before after before' after' order order' : List Value}
  {root value : Value}

theorem inOrder_node_iff :
    InOrder (before ++ root :: after) ↔
      InOrder before ∧ InOrder after ∧
        (∀ other ∈ before, other ≤ root) ∧ ∀ other ∈ after, root ≤ other := by
  unfold InOrder
  rw [List.pairwise_append, List.pairwise_cons]
  constructor
  · rintro ⟨hbefore, ⟨hroot, hafter⟩, hcross⟩
    refine ⟨hbefore, hafter, ?_, hroot⟩
    intro other hother
    exact hcross other hother root List.mem_cons_self
  · rintro ⟨hbefore, hafter, hbelow, habove⟩
    refine ⟨hbefore, ⟨habove, hafter⟩, ?_⟩
    intro other hother later hlater
    rcases List.mem_cons.mp hlater with rfl | hlater
    · exact hbelow other hother
    · exact (hbelow other hother).trans (habove later hlater)

/-- One value more, still in order. -/
structure Adds (value : Value) (order order' : List Value) : Prop where
  inOrder : InOrder order'
  perm : order'.Perm (value :: order)

/-- One occurrence of the value less, if there was one, still in order. -/
structure Removes (value : Value) (order order' : List Value) : Prop where
  inOrder : InOrder order'
  perm : order'.Perm (order.erase value)

/-! ## Adding a value -/

theorem adds_nil (value : Value) : Adds value [] [value] :=
  ⟨List.pairwise_singleton _ _, List.Perm.refl _⟩

theorem Adds.left (horder : InOrder (before ++ root :: after))
    (hadds : Adds value before before') (hle : value ≤ root) :
    Adds value (before ++ root :: after) (before' ++ root :: after) := by
  rcases inOrder_node_iff.mp horder with ⟨-, hafter, hbelow, habove⟩
  constructor
  · refine inOrder_node_iff.mpr ⟨hadds.inOrder, hafter, ?_, habove⟩
    intro other hother
    rcases List.mem_cons.mp (hadds.perm.mem_iff.mp hother) with rfl | hold
    · exact hle
    · exact hbelow other hold
  · exact hadds.perm.append_right (root :: after)

theorem Adds.right (horder : InOrder (before ++ root :: after))
    (hadds : Adds value after after') (hle : root ≤ value) :
    Adds value (before ++ root :: after) (before ++ root :: after') := by
  rcases inOrder_node_iff.mp horder with ⟨hbefore, -, hbelow, habove⟩
  constructor
  · refine inOrder_node_iff.mpr ⟨hbefore, hadds.inOrder, hbelow, ?_⟩
    intro other hother
    rcases List.mem_cons.mp (hadds.perm.mem_iff.mp hother) with rfl | hold
    · exact hle
    · exact habove other hold
  · have hswap : (root :: after').Perm (value :: root :: after) :=
      (hadds.perm.cons root).trans (List.Perm.swap value root after)
    exact (hswap.append_left before).trans List.perm_middle

/-! ## Removing a value -/

theorem removes_nil (value : Value) : Removes value [] [] :=
  ⟨List.Pairwise.nil, List.Perm.refl _⟩

theorem Removes.mem (hremoves : Removes value order order') {other : Value}
    (hother : other ∈ order') : other ∈ order :=
  List.mem_of_mem_erase (hremoves.perm.mem_iff.mp hother)

theorem Removes.left (horder : InOrder (before ++ root :: after))
    (hremoves : Removes value before before') (hlt : value < root) :
    Removes value (before ++ root :: after) (before' ++ root :: after) := by
  rcases inOrder_node_iff.mp horder with ⟨-, hafter, hbelow, habove⟩
  constructor
  · refine inOrder_node_iff.mpr ⟨hremoves.inOrder, hafter, ?_, habove⟩
    intro other hother
    exact hbelow other (hremoves.mem hother)
  · have hrest : value ∉ root :: after := by
      intro hmem
      rcases List.mem_cons.mp hmem with heq | hlater
      · exact hlt.ne heq
      · exact absurd (habove value hlater) (not_le.mpr hlt)
    have herase : (before ++ root :: after).erase value =
        before.erase value ++ root :: after := by
      rw [List.erase_append]
      by_cases hmem : value ∈ before
      · rw [if_pos hmem]
      · rw [if_neg hmem, List.erase_of_not_mem hrest,
          List.erase_of_not_mem hmem]
    rw [herase]
    exact hremoves.perm.append_right (root :: after)

theorem Removes.right (horder : InOrder (before ++ root :: after))
    (hremoves : Removes value after after') (hlt : root < value) :
    Removes value (before ++ root :: after) (before ++ root :: after') := by
  rcases inOrder_node_iff.mp horder with ⟨hbefore, -, hbelow, habove⟩
  constructor
  · refine inOrder_node_iff.mpr ⟨hbefore, hremoves.inOrder, hbelow, ?_⟩
    intro other hother
    exact habove other (hremoves.mem hother)
  · have hbefore : value ∉ before := by
      intro hmem
      exact absurd (hbelow value hmem) (not_le.mpr hlt)
    rw [List.erase_append_right _ hbefore,
      List.erase_cons_tail (by simpa using hlt.ne)]
    exact (hremoves.perm.cons root).append_left before

/-- The root itself goes, and the two sides are joined. -/
theorem removes_root (horder : InOrder (before ++ root :: after)) :
    Removes root (before ++ root :: after) (before ++ after) := by
  constructor
  · unfold InOrder at horder ⊢
    exact horder.sublist
      ((List.sublist_cons_self root after).append_left before)
  · have hperm : (before ++ root :: after).Perm (root :: (before ++ after)) :=
      List.perm_middle
    have herase := hperm.erase root
    rw [List.erase_cons_head] at herase
    exact herase.symm

/-- The root is replaced by the least value of its right side, of which one
occurrence is removed there. -/
theorem Removes.successor (horder : InOrder (before ++ root :: after))
    {next : Value} (hnext : next ∈ after) (hleast : ∀ other ∈ after, next ≤ other)
    (hremoves : Removes next after after') :
    Removes root (before ++ root :: after) (before ++ next :: after') := by
  rcases inOrder_node_iff.mp horder with ⟨hbefore, -, hbelow, habove⟩
  constructor
  · refine inOrder_node_iff.mpr ⟨hbefore, hremoves.inOrder, ?_, ?_⟩
    · intro other hother
      exact (hbelow other hother).trans (habove next hnext)
    · intro other hother
      exact hleast other (hremoves.mem hother)
  · have hafter : (next :: after').Perm after :=
      (hremoves.perm.cons next).trans (List.perm_cons_erase hnext).symm
    exact (hafter.append_left before).trans (removes_root horder).perm

/-- The first value is a least one. -/
theorem exists_head_least (horder : InOrder order) (hne : order ≠ []) :
    ∃ next, order.head? = some next ∧ next ∈ order ∧
      ∀ other ∈ order, next ≤ other := by
  cases order with
  | nil => exact absurd rfl hne
  | cons next rest =>
      refine ⟨next, rfl, List.mem_cons_self, ?_⟩
      intro other hother
      rcases List.mem_cons.mp hother with rfl | hrest
      · exact le_rfl
      · exact (List.pairwise_cons.mp horder).1 other hrest

/-! ## Contents -/

/-- The list shows these values in order. -/
def Shows (order : List Value) (values : Multiset Value) : Prop :=
  InOrder order ∧ (order : Multiset Value) = values

variable {values : Multiset Value}

theorem shows_nil : Shows ([] : List Value) 0 := ⟨List.Pairwise.nil, rfl⟩

/-- A multiset is shown by one list only. -/
theorem Shows.eq_sort (hshows : Shows order values) :
    order = values.sort (· ≤ ·) := by
  have hperm : order.Perm (values.sort (· ≤ ·)) := by
    apply Multiset.coe_eq_coe.mp
    rw [hshows.2, Multiset.sort_eq]
  exact hperm.eq_of_pairwise (fun _ _ _ _ => le_antisymm) hshows.1
    (Multiset.pairwise_sort values (· ≤ ·))

theorem Shows.adds (hshows : Shows order values)
    (hadds : Adds value order order') : Shows order' (value ::ₘ values) := by
  refine ⟨hadds.inOrder, ?_⟩
  rw [← hshows.2, Multiset.cons_coe]
  exact Multiset.coe_eq_coe.mpr hadds.perm

theorem Shows.removes (hshows : Shows order values)
    (hremoves : Removes value order order') :
    Shows order' (values.erase value) := by
  refine ⟨hremoves.inOrder, ?_⟩
  rw [← hshows.2, Multiset.coe_erase]
  exact Multiset.coe_eq_coe.mpr hremoves.perm

end SearchOrder
