import TradingStudies.Library.KWayMerge

/-!
# The most recent items of each class

A log holds its newest item first.  Of every class only the most recent items
are kept, up to a bound.  For a selection of classes this loses none of the most
recent items up to the same bound: an item that has so many newer ones in its
class has at least as many newer ones in the selection.
-/

namespace RecentItems

variable {Item Class : Type*} [DecidableEq Class]

/-- The most recent items of a class. -/
def recent (classOf : Item → Class) (bound : ℕ) (log : List Item)
    (selected : Class) : List Item :=
  (log.filter fun item => classOf item = selected).take bound

/-- A new item comes to the front of its class, and the oldest one that is kept
goes if there are too many. -/
theorem recent_cons_self (classOf : Item → Class) (bound : ℕ) (log : List Item)
    (item : Item) :
    recent classOf bound (item :: log) (classOf item) =
      (item :: recent classOf bound log (classOf item)).take bound := by
  unfold recent
  rw [List.filter_cons_of_pos (by simp)]
  cases bound with
  | zero => rfl
  | succ bound =>
      rw [List.take_succ_cons, List.take_succ_cons, List.take_take,
        min_eq_left (Nat.le_succ bound)]

theorem recent_cons_of_ne (classOf : Item → Class) (bound : ℕ)
    (log : List Item) {item : Item} {selected : Class}
    (hne : classOf item ≠ selected) :
    recent classOf bound (item :: log) selected =
      recent classOf bound log selected := by
  unfold recent
  rw [List.filter_cons_of_neg (by simpa using hne)]

omit [DecidableEq Class] in
/-- A filter that drops none of the first items. -/
theorem take_filter_of_forall {keep : Item → Bool} {items : List Item}
    {bound : ℕ} (hkeep : ∀ item ∈ items.take bound, keep item = true) :
    (items.filter keep).take bound = items.take bound := by
  have hfirst : (items.take bound).filter keep = items.take bound :=
    List.filter_eq_self.mpr hkeep
  conv_lhs => rw [← List.take_append_drop bound items, List.filter_append,
    hfirst]
  by_cases hle : bound ≤ items.length
  · exact List.take_left' (List.length_take_of_le hle)
  · have hdrop : items.drop bound = [] := List.drop_of_length_le (by omega)
    rw [hdrop, List.filter_nil, List.append_nil]
    exact List.take_of_length_le (List.length_take_le _ _)

omit [DecidableEq Class] in
theorem mem_take_filter {select : Item → Bool} {items : List Item} {bound : ℕ}
    {item : Item} (hitem : item ∈ items.take bound)
    (hselect : select item = true) :
    item ∈ (items.filter select).take bound := by
  have hprefix : (items.take bound).filter select <+:
      (items.filter select).take bound := by
    rw [List.prefix_take_iff]
    constructor
    · exact (List.take_prefix bound items).filter select
    · exact (List.length_filter_le _ _).trans (List.length_take_le _ _)
  exact hprefix.subset (List.mem_filter.mpr ⟨hitem, hselect⟩)

omit [DecidableEq Class] in
theorem filter_mem_take [DecidableEq Item] {items : List Item}
    (hnodup : items.Nodup) (bound : ℕ) :
    items.filter (fun item => item ∈ items.take bound) = items.take bound := by
  have hparts : (items.take bound ++ items.drop bound).Nodup := by
    rw [List.take_append_drop]
    exact hnodup
  have hdisjoint := List.disjoint_of_nodup_append hparts
  conv_lhs =>
    rw [← List.take_append_drop bound items, List.filter_append]
    simp only [List.take_append_drop]
  have hfirst : (items.take bound).filter (fun item => item ∈ items.take bound) =
      items.take bound :=
    List.filter_eq_self.mpr fun _ hitem => decide_eq_true hitem
  have hrest : (items.drop bound).filter (fun item => item ∈ items.take bound) =
      [] := by
    apply List.filter_eq_nil_iff.mpr
    intro item hdrop htake
    exact hdisjoint (of_decide_eq_true htake) hdrop
  rw [hfirst, hrest, List.append_nil]

/-- What is kept of the selected classes holds the most recent of their
items. -/
theorem exists_kept (classOf : Item → Class) (bound : ℕ) {log : List Item}
    (hnodup : log.Nodup) {classes : List Class} (hclasses : classes.Nodup) :
    ∃ kept : List Item, kept.Sublist log ∧
      kept.Perm (classes.flatMap (recent classOf bound log)) ∧
      kept.take bound =
        (log.filter fun item => classOf item ∈ classes).take bound := by
  classical
  let keep : Item → Bool :=
    fun item => item ∈ recent classOf bound log (classOf item)
  have hclass : ∀ selected ∈ classes,
      ((log.filter fun item => classOf item ∈ classes).filter fun item =>
        classOf item = selected) =
        log.filter fun item => classOf item = selected := by
    intro selected hselected
    rw [List.filter_filter]
    apply List.filter_congr
    intro item _
    by_cases heq : classOf item = selected
    · simp [heq, hselected]
    · simp [heq]
  refine ⟨(log.filter fun item => classOf item ∈ classes).filter keep,
    List.filter_sublist.trans List.filter_sublist, ?_, ?_⟩
  · have hselect : ((log.filter fun item => classOf item ∈ classes).filter
        keep) = (log.filter keep).filter fun item => classOf item ∈ classes := by
      rw [List.filter_filter, List.filter_filter]
      apply List.filter_congr
      intro item _
      exact Bool.and_comm _ _
    rw [hselect]
    apply (KWayMerge.filter_perm_flatMap classOf (log.filter keep)
      hclasses).trans
    apply List.Perm.of_eq
    apply List.flatMap_congr
    intro selected _
    -- Within a class the kept items are the recent ones.
    have hrecent : (log.filter fun item => classOf item = selected).filter
        (fun item => item ∈ recent classOf bound log selected) =
          recent classOf bound log selected := by
      unfold recent
      exact filter_mem_take (hnodup.filter _) bound
    rw [List.filter_filter]
    conv_rhs => rw [← hrecent]
    rw [List.filter_filter]
    apply List.filter_congr
    intro item _
    by_cases heq : classOf item = selected
    · simp [keep, heq]
    · simp [heq]
  · apply take_filter_of_forall
    intro item hitem
    have hmem := List.mem_of_mem_take hitem
    rw [List.mem_filter, decide_eq_true_eq] at hmem
    have hfirst : item ∈ ((log.filter fun item => classOf item ∈ classes).filter
        fun other => classOf other = classOf item).take bound :=
      mem_take_filter hitem (by simp)
    rw [hclass _ hmem.2] at hfirst
    exact decide_eq_true hfirst

end RecentItems
