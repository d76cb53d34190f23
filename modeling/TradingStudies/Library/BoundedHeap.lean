import Mathlib

/-!
# Keeping the greatest items in a bounded heap

A heap with its least key on top takes every item and gives up its top as soon
as it holds too many.  What remains are the items with the greatest keys.  When
the heap is emptied into a vector from the back, they stand in descending order.

The keys of all items are different.
-/

namespace BoundedHeap

variable {Item Key : Type*} [LinearOrder Key]

/-- `top()` and `pop()` of the heap which holds an item and others. -/
def extractLeast (key : Item → Key) : Item → List Item → Item × List Item
  | item, [] => (item, [])
  | item, next :: rest =>
      let (least, others) := extractLeast key next rest
      if key item ≤ key least then (item, next :: rest)
      else (least, item :: others)

/-- Push an item, then pop if there are too many. -/
def offer (key : Item → Key) (bound : ℕ) (heap : List Item) (item : Item) :
    List Item :=
  if heap.length + 1 > bound then (extractLeast key item heap).2
  else item :: heap

/-- Write the top to the last free place, pop, and go on.  There are as many
rounds as items. -/
def drain {Out : Type*} (key : Item → Key) (write : Item → Out) :
    ℕ → List Item → List Out → List Out
  | 0, _, out => out
  | _ + 1, [], out => out
  | rounds + 1, item :: rest, out =>
      let (least, others) := extractLeast key item rest
      drain key write rounds others (out.set rest.length (write least))

variable {key : Item → Key}

theorem extractLeast_perm (key : Item → Key) (item : Item)
    (rest : List Item) :
    ((extractLeast key item rest).1 :: (extractLeast key item rest).2).Perm
      (item :: rest) := by
  induction rest generalizing item with
  | nil => exact List.Perm.refl _
  | cons next rest ih =>
      unfold extractLeast
      by_cases hle : key item ≤ key (extractLeast key next rest).1
      · simp only [hle, if_true]
        exact List.Perm.refl _
      · simp only [hle, if_false]
        exact (List.Perm.swap _ _ _).trans ((ih next).cons item)

theorem extractLeast_le (key : Item → Key) (item : Item) (rest : List Item) :
    ∀ other ∈ item :: rest,
      key (extractLeast key item rest).1 ≤ key other := by
  induction rest generalizing item with
  | nil =>
      intro other hother
      rw [List.mem_singleton.mp hother]
      exact le_refl _
  | cons next rest ih =>
      intro other hother
      unfold extractLeast
      by_cases hle : key item ≤ key (extractLeast key next rest).1
      · simp only [hle, if_true]
        obtain rfl | hrest := List.mem_cons.mp hother
        · exact le_refl _
        · exact hle.trans (ih next other hrest)
      · simp only [hle, if_false]
        obtain rfl | hrest := List.mem_cons.mp hother
        · exact (not_le.mp hle).le
        · exact ih next other hrest

/-! ## What is kept -/

/-- The heap holds the greatest of the items seen so far, up to the bound. -/
structure Keeps (key : Item → Key) (bound : ℕ) (seen heap : List Item) :
    Prop where
  split : ∃ given, seen.Perm (heap ++ given) ∧
    ∀ item ∈ heap, ∀ other ∈ given, key other < key item
  length_eq : heap.length = min bound seen.length

/-- Different items have different keys. -/
def DistinctKeys (key : Item → Key) (items : List Item) : Prop :=
  (items.map key).Nodup

theorem keeps_nil (key : Item → Key) (bound : ℕ) : Keeps key bound [] [] where
  split := ⟨[], List.Perm.refl _, fun _ hitem => absurd hitem List.not_mem_nil⟩
  length_eq := (Nat.min_zero bound).symm

omit [LinearOrder Key] in
theorem key_ne_of_perm {least : Item} {others items : List Item}
    (hdistinct : DistinctKeys key items) (hperm : items.Perm (least :: others))
    {other : Item} (hother : other ∈ others) : key least ≠ key other := by
  have hnodup : ((least :: others).map key).Nodup :=
    ((hperm.map key).nodup_iff).mp hdistinct
  rw [List.map_cons, List.nodup_cons] at hnodup
  intro heq
  exact hnodup.1 (List.mem_map.mpr ⟨other, hother, heq.symm⟩)

theorem Keeps.offer {bound : ℕ} {seen heap : List Item} {item : Item}
    (hkeeps : Keeps key bound seen heap)
    (hdistinct : DistinctKeys key (item :: seen)) :
    Keeps key bound (item :: seen) (offer key bound heap item) := by
  obtain ⟨given, hperm, hbelow⟩ := hkeeps.split
  have hlength := hkeeps.length_eq
  unfold BoundedHeap.offer
  by_cases hfull : heap.length + 1 > bound
  · rw [if_pos hfull]
    have hextract := extractLeast_perm key item heap
    have hleast := extractLeast_le key item heap
    have hsplit : (item :: seen).Perm
        ((extractLeast key item heap).1 ::
          ((extractLeast key item heap).2 ++ given)) := by
      have hcons : (item :: seen).Perm (item :: heap ++ given) :=
        hperm.cons item
      exact hcons.trans (hextract.symm.append_right given)
    constructor
    · refine ⟨(extractLeast key item heap).1 :: given, ?_, ?_⟩
      · exact hsplit.trans List.perm_middle.symm
      · -- The top lies below what stays, and above what was given up.
        intro kept hkept other hother
        have habove : key (extractLeast key item heap).1 < key kept := by
          apply lt_of_le_of_ne
          · exact hleast kept
              (hextract.subset (List.mem_cons_of_mem _ hkept))
          · exact key_ne_of_perm hdistinct hsplit
              (List.mem_append_left given hkept)
        obtain rfl | hgiven := List.mem_cons.mp hother
        · exact habove
        · have hmem : kept ∈ item :: heap :=
            hextract.subset (List.mem_cons_of_mem _ hkept)
          obtain rfl | hheap := List.mem_cons.mp hmem
          · have htop : (extractLeast key kept heap).1 ∈ kept :: heap :=
              hextract.subset List.mem_cons_self
            obtain hsame | hold := List.mem_cons.mp htop
            · rw [hsame] at habove
              exact absurd habove (lt_irrefl _)
            · exact (hbelow _ hold other hgiven).trans habove
          · exact hbelow kept hheap other hgiven
    · have hsize := hextract.length_eq
      rw [List.length_cons, List.length_cons] at hsize
      rw [List.length_cons]
      omega
  · rw [if_neg hfull]
    have hnone : given = [] := by
      have hsize := hperm.length_eq
      rw [List.length_append] at hsize
      apply List.eq_nil_of_length_eq_zero
      omega
    subst given
    constructor
    · exact ⟨[], hperm.cons item, fun _ _ _ hother =>
        absurd hother List.not_mem_nil⟩
    · rw [List.length_cons, List.length_cons]
      omega

/-- Offering a whole list. -/
theorem Keeps.foldl_offer {bound : ℕ} {seen heap : List Item}
    (hkeeps : Keeps key bound seen heap) (items : List Item)
    (hdistinct : DistinctKeys key (items.reverse ++ seen)) :
    Keeps key bound (items.reverse ++ seen)
      (items.foldl (BoundedHeap.offer key bound) heap) := by
  induction items generalizing seen heap with
  | nil => exact hkeeps
  | cons item rest ih =>
      rw [List.reverse_cons, List.append_assoc] at hdistinct ⊢
      have hfirst : DistinctKeys key (item :: seen) := by
        unfold DistinctKeys at hdistinct ⊢
        rw [List.map_append] at hdistinct
        exact hdistinct.of_append_right
      exact ih (hkeeps.offer hfirst) hdistinct

/-- What is kept is the beginning of the items in descending order. -/
theorem Keeps.perm_take {bound : ℕ} {seen heap target : List Item}
    (hkeeps : Keeps key bound seen heap)
    (hsorted : target.Pairwise fun item later => key later < key item)
    (htarget : target.Perm seen) : (target.take bound).Perm heap := by
  classical
  obtain ⟨given, hperm, hbelow⟩ := hkeeps.split
  have hnodup : target.Nodup := by
    apply hsorted.imp
    intro item later hlt heq
    rw [heq] at hlt
    exact lt_irrefl _ hlt
  have hall : target.Perm (heap ++ given) := htarget.trans hperm
  have hdisjoint : (heap ++ given).Nodup := hall.nodup_iff.mp hnodup
  have hkept : (target.filter fun item => item ∈ heap).Perm heap := by
    apply (List.perm_ext_iff_of_nodup (hnodup.filter _)
      hdisjoint.of_append_left).mpr
    intro item
    rw [List.mem_filter, decide_eq_true_eq]
    constructor
    · exact And.right
    · intro hitem
      exact ⟨hall.mem_iff.mpr (List.mem_append_left _ hitem), hitem⟩
  have hparts : (target.filter (fun item => item ∈ heap) ++
      target.filter fun item => !decide (item ∈ heap)) = target := by
    apply List.Perm.eq_of_pairwise _ _ hsorted
      (List.filter_append_perm _ target)
    · intro item other _ _ hlt hgt
      exact absurd hgt (lt_asymm hlt)
    · rw [List.pairwise_append]
      refine ⟨hsorted.filter _, hsorted.filter _, ?_⟩
      intro item hitem other hother
      rw [List.mem_filter, decide_eq_true_eq] at hitem
      rw [List.mem_filter, Bool.not_eq_true', decide_eq_false_iff_not] at hother
      apply hbelow item hitem.2 other
      obtain hheap | hgiven :=
        List.mem_append.mp (hall.mem_iff.mp hother.1)
      · exact absurd hheap hother.2
      · exact hgiven
  have hlength := hkeeps.length_eq
  rw [← hkept.length_eq, ← htarget.length_eq] at hlength
  have htake : target.take bound =
      target.filter fun item => item ∈ heap := by
    conv_lhs => rw [← hparts]
    by_cases hle : bound ≤ target.length
    · rw [min_eq_left hle] at hlength
      rw [← hlength, List.take_left]
    · have hrest : (target.filter fun item => !decide (item ∈ heap)) = [] := by
        have hsum := congrArg List.length hparts
        rw [List.length_append] at hsum
        apply List.eq_nil_of_length_eq_zero
        omega
      rw [hrest, List.append_nil]
      apply List.take_of_length_le
      omega
  rw [htake]
  exact hkept

/-! ## Emptying the heap -/

/-- The least item is the last one of the target. -/
theorem drain_eq {Out : Type*} (write : Item → Out) {heap target : List Item}
    (hsorted : target.Pairwise fun item later => key later < key item)
    (htarget : target.Perm heap) {out : List Out}
    (hlength : heap.length ≤ out.length) :
    drain key write heap.length heap out =
      target.map write ++ out.drop heap.length := by
  induction hrounds : heap.length generalizing heap target out with
  | zero =>
      rw [List.eq_nil_of_length_eq_zero hrounds] at htarget
      rw [htarget.eq_nil, drain, List.map_nil, List.drop_zero, List.nil_append]
  | succ rounds ih =>
      cases heap with
      | nil => cases hrounds
      | cons item rest =>
          have hrest : rest.length = rounds := Nat.succ.inj hrounds
          have hextract := extractLeast_perm key item rest
          have hleast := extractLeast_le key item rest
          unfold drain
          cases hpair : extractLeast key item rest with
          | mk least others =>
              simp only [hpair] at hextract hleast
              simp only
              have hothers : others.length = rounds := by
                have hsize := hextract.length_eq
                rw [List.length_cons, List.length_cons] at hsize
                omega
              obtain rfl | ⟨before, last, rfl⟩ := List.eq_nil_or_concat target
              · have hsize := htarget.length_eq
                rw [List.length_nil, List.length_cons] at hsize
                omega
              · rw [List.concat_eq_append] at hsorted htarget ⊢
                obtain ⟨hbefore, -, hlast⟩ := List.pairwise_append.mp hsorted
                have hsame : last = least := by
                  have hmem : least ∈ before ++ [last] :=
                    htarget.mem_iff.mpr (hextract.subset List.mem_cons_self)
                  obtain hold | hend := List.mem_append.mp hmem
                  · have hlt := hlast least hold last (List.mem_singleton_self _)
                    have hle := hleast last (htarget.mem_iff.mp
                      (List.mem_append_right _ (List.mem_singleton_self _)))
                    exact absurd hlt (not_lt.mpr hle)
                  · exact (List.mem_singleton.mp hend).symm
                subst last
                have hperm : before.Perm others := by
                  have hcons : (least :: before).Perm (least :: others) :=
                    List.perm_append_singleton least before |>.symm.trans
                      (htarget.trans hextract.symm)
                  exact hcons.cons_inv
                have hfits : rounds < out.length := by
                  rw [List.length_cons] at hlength
                  omega
                rw [ih hbefore hperm (by rw [List.length_set]; omega) hothers,
                  hrest, List.map_append, List.append_assoc]
                congr 1
                rw [List.drop_set, if_neg (lt_irrefl _), Nat.sub_self,
                  List.drop_eq_getElem_cons hfits]
                rfl

end BoundedHeap
