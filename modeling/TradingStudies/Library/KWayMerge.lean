import Mathlib

/-!
# Merging sorted lists through a priority queue

The queue holds one cursor for each list that still has something to be read.
Every round removes the cursor whose front has the greatest key, writes that
front to the output and puts the cursor back at the next item of its list.

The target of the merge is fixed first: a list in strictly descending order of
the keys which holds what all the cursors together have not read yet.  Each
round writes the head of the target.
-/

namespace KWayMerge

/-- A position in a list which is not at its end. -/
structure Cursor (Item : Type*) where
  front : Item
  behind : List Item
  deriving DecidableEq, Repr

variable {Item Key : Type*} [LinearOrder Key]

def Cursor.unread (cursor : Cursor Item) : List Item :=
  cursor.front :: cursor.behind

/-- What the cursors of a queue have not read yet. -/
def unread (cursors : List (Cursor Item)) : List Item :=
  cursors.flatMap Cursor.unread

/-- `top()` and `pop()` of the queue which holds a cursor and others. -/
def extractTop (key : Item → Key) :
    Cursor Item → List (Cursor Item) → Cursor Item × List (Cursor Item)
  | cursor, [] => (cursor, [])
  | cursor, next :: rest =>
      let (top, others) := extractTop key next rest
      if key top.front ≤ key cursor.front then (cursor, next :: rest)
      else (top, cursor :: others)

/-- Put a cursor back at its next item, unless it has reached the end. -/
def advance (cursor : Cursor Item) (cursors : List (Cursor Item)) :
    List (Cursor Item) :=
  match cursor.behind with
  | [] => cursors
  | next :: behind => ⟨next, behind⟩ :: cursors

/-- At most so many rounds of the merge. -/
def merge (key : Item → Key) : ℕ → List (Cursor Item) → List Item
  | 0, _ => []
  | _ + 1, [] => []
  | rounds + 1, cursor :: rest =>
      let (top, others) := extractTop key cursor rest
      top.front :: merge key rounds (advance top others)

/-! ## One round -/

theorem extractTop_perm (key : Item → Key) (cursor : Cursor Item)
    (rest : List (Cursor Item)) :
    ((extractTop key cursor rest).1 :: (extractTop key cursor rest).2).Perm
      (cursor :: rest) := by
  induction rest generalizing cursor with
  | nil => exact List.Perm.refl _
  | cons next rest ih =>
      unfold extractTop
      by_cases hle : key (extractTop key next rest).1.front ≤ key cursor.front
      · simp only [hle, if_true]
        exact List.Perm.refl _
      · simp only [hle, if_false]
        exact (List.Perm.swap _ _ _).trans ((ih next).cons cursor)

theorem le_extractTop (key : Item → Key) (cursor : Cursor Item)
    (rest : List (Cursor Item)) :
    ∀ other ∈ cursor :: rest,
      key other.front ≤ key (extractTop key cursor rest).1.front := by
  induction rest generalizing cursor with
  | nil =>
      intro other hother
      rw [List.mem_singleton.mp hother]
      exact le_refl _
  | cons next rest ih =>
      intro other hother
      unfold extractTop
      by_cases hle : key (extractTop key next rest).1.front ≤ key cursor.front
      · simp only [hle, if_true]
        rcases List.mem_cons.mp hother with rfl | hrest
        · exact le_refl _
        · exact (ih next other hrest).trans hle
      · simp only [hle, if_false]
        rcases List.mem_cons.mp hother with rfl | hrest
        · exact (not_le.mp hle).le
        · exact ih next other hrest

theorem unread_perm {cursors cursors' : List (Cursor Item)}
    (hperm : cursors.Perm cursors') :
    (unread cursors).Perm (unread cursors') :=
  hperm.flatMap_right _

theorem unread_advance (cursor : Cursor Item) (cursors : List (Cursor Item)) :
    unread (advance cursor cursors) = cursor.behind ++ unread cursors := by
  unfold advance
  cases cursor.behind with
  | nil => rfl
  | cons next behind => rfl

/-- The list of every cursor is in strictly descending order. -/
def Descending (key : Item → Key) (cursors : List (Cursor Item)) : Prop :=
  ∀ cursor ∈ cursors,
    cursor.unread.Pairwise fun item later => key later < key item

theorem Descending.advance {key : Item → Key} {cursor : Cursor Item}
    {cursors : List (Cursor Item)}
    (hdescending : Descending key (cursor :: cursors)) :
    Descending key (advance cursor cursors) := by
  have hcursor := hdescending cursor List.mem_cons_self
  have hrest : Descending key cursors :=
    fun other hother => hdescending other (List.mem_cons_of_mem _ hother)
  unfold KWayMerge.advance
  cases hbehind : cursor.behind with
  | nil => exact hrest
  | cons next behind =>
      intro other hother
      rcases List.mem_cons.mp hother with rfl | hold
      · unfold Cursor.unread at hcursor
        rw [hbehind] at hcursor
        exact (List.pairwise_cons.mp hcursor).2
      · exact hrest other hold

/-- A front bounds what its cursor has not read. -/
theorem Descending.le_front {key : Item → Key} {cursors : List (Cursor Item)}
    (hdescending : Descending key cursors) {cursor : Cursor Item}
    (hcursor : cursor ∈ cursors) {item : Item} (hitem : item ∈ cursor.unread) :
    key item ≤ key cursor.front := by
  rcases List.mem_cons.mp hitem with rfl | hbehind
  · exact le_refl _
  · exact ((List.pairwise_cons.mp (hdescending cursor hcursor)).1 item
      hbehind).le

theorem le_top {key : Item → Key} {cursor : Cursor Item}
    {rest : List (Cursor Item)}
    (hdescending : Descending key (cursor :: rest)) {item : Item}
    (hitem : item ∈ unread (cursor :: rest)) :
    key item ≤ key (extractTop key cursor rest).1.front := by
  rcases List.mem_flatMap.mp hitem with ⟨owner, howner, hmem⟩
  calc
    key item ≤ key owner.front := hdescending.le_front howner hmem
    _ ≤ key (extractTop key cursor rest).1.front :=
      le_extractTop key cursor rest owner howner

/-! ## The whole merge -/

/-- The merge writes the beginning of its target. -/
theorem merge_eq_take {key : Item → Key} {cursors : List (Cursor Item)}
    {target : List Item} (hdescending : Descending key cursors)
    (hsorted : target.Pairwise fun item later => key later < key item)
    (htarget : target.Perm (unread cursors)) (rounds : ℕ) :
    merge key rounds cursors = target.take rounds := by
  induction rounds generalizing cursors target with
  | zero => rw [List.take_zero, merge]
  | succ rounds ih =>
      cases cursors with
      | nil =>
          have hnil : target = [] := List.Perm.eq_nil htarget
          rw [hnil, List.take_nil, merge]
      | cons cursor rest =>
          have hperm := extractTop_perm key cursor rest
          have hbound : ∀ item ∈ unread (cursor :: rest),
              key item ≤ key (extractTop key cursor rest).1.front :=
            fun _ hitem => le_top hdescending hitem
          unfold merge
          cases hextract : extractTop key cursor rest with
          | mk top others =>
              simp only
              rw [hextract] at hperm
              simp only [hextract] at hbound
              have hsplit : target.Perm (top.front ::
                  unread (advance top others)) := by
                rw [unread_advance]
                exact htarget.trans (unread_perm hperm.symm)
              -- The greatest key that is unread stands at the head.
              cases target with
              | nil => exact absurd hsplit.symm.eq_nil (List.cons_ne_nil _ _)
              | cons head later =>
                  rcases List.pairwise_cons.mp hsorted with ⟨hhead, hlater⟩
                  have hsame : head = top.front := by
                    rcases List.mem_cons.mp
                        (hsplit.mem_iff.mpr List.mem_cons_self) with heq | hmem
                    · exact heq.symm
                    · have hle := hbound head
                        (htarget.mem_iff.mp List.mem_cons_self)
                      exact absurd (hhead top.front hmem) (not_lt.mpr hle)
                  subst hsame
                  have hrest : Descending key (advance top others) := by
                    apply Descending.advance
                    intro other hother
                    exact hdescending other (hperm.subset hother)
                  rw [List.take_succ_cons,
                    ih hrest hlater (List.Perm.cons_inv hsplit)]

/-- Selecting by the class of an item is collecting the selected classes. -/
theorem filter_perm_flatMap {Class : Type*} [DecidableEq Class]
    (classOf : Item → Class) (items : List Item) {classes : List Class}
    (hnodup : classes.Nodup) :
    (items.filter fun item => classOf item ∈ classes).Perm
      (classes.flatMap fun selected =>
        items.filter fun item => classOf item = selected) := by
  induction classes with
  | nil => simp
  | cons selected rest ih =>
      rcases List.nodup_cons.mp hnodup with ⟨hfresh, hrest⟩
      rw [List.flatMap_cons]
      have hsplit := List.filter_append_perm
        (fun item => decide (classOf item = selected))
        (items.filter fun item => classOf item ∈ selected :: rest)
      rw [List.filter_filter, List.filter_filter] at hsplit
      apply hsplit.symm.trans
      apply List.Perm.append
      · apply List.Perm.of_eq
        apply List.filter_congr
        intro item _
        by_cases heq : classOf item = selected
        · simp [heq]
        · simp [heq]
      · have hothers : (items.filter fun item =>
            (!decide (classOf item = selected)) &&
              decide (classOf item ∈ selected :: rest)) =
            items.filter fun item => classOf item ∈ rest := by
          apply List.filter_congr
          intro item _
          by_cases heq : classOf item = selected
          · simp [heq, hfresh]
          · simp [heq]
        rw [hothers]
        exact ih hrest

end KWayMerge
