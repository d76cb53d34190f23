import TradingStudies.Leet1382BSTContents

/-!
# Rebuilding a tree from its traversals

The pre-order walk of `Leet/bst.py` writes a root before what is below it, and
the post-order walk writes it after.  Inserting the one list, or the other one
from its end, puts every value where it was as long as the values to the left
of a node are below it: `insert` sends equal values to the right, where
`balance` may leave some of them on the left.
-/

namespace TradingStudies
namespace BST

open SearchOrder
open Leet1382BST (grow grow_node)

variable {α : Type*}

namespace Tree

/-- `BST.__preorder_traversal`, which appends to `lst`. -/
def preorderTraversal : Tree α → List α → List α
  | nil, lst => lst
  | node value left right, lst =>
      preorderTraversal right (preorderTraversal left (lst ++ [value]))

/-- `BST.__postorder_traversal`, which appends to `lst`. -/
def postorderTraversal : Tree α → List α → List α
  | nil, lst => lst
  | node value left right, lst =>
      postorderTraversal right (postorderTraversal left lst) ++ [value]

end Tree

def preorderTraversal (self : BST α) : List α :=
  self.root.preorderTraversal []

def postorderTraversal (self : BST α) : List α :=
  self.root.postorderTraversal []

/-- The values are inserted one after the other into a new tree. -/
def ofValues [LinearOrder α] (values : List α) : BST α :=
  values.foldl insert (construct α)

namespace Tree

def preorder : Tree α → List α
  | nil => []
  | node value left right => value :: (left.preorder ++ right.preorder)

def postorder : Tree α → List α
  | nil => []
  | node value left right => left.postorder ++ right.postorder ++ [value]

theorem preorderTraversal_eq (tree : Tree α) (lst : List α) :
    tree.preorderTraversal lst = lst ++ tree.preorder := by
  induction tree generalizing lst with
  | nil => exact (List.append_nil lst).symm
  | node value left right ihLeft ihRight =>
      rw [preorderTraversal, ihLeft, ihRight, preorder]
      simp

theorem postorderTraversal_eq (tree : Tree α) (lst : List α) :
    tree.postorderTraversal lst = lst ++ tree.postorder := by
  induction tree generalizing lst with
  | nil => exact (List.append_nil lst).symm
  | node value left right ihLeft ihRight =>
      rw [postorderTraversal, ihLeft, ihRight, postorder]
      simp

theorem preorder_perm (tree : Tree α) : tree.preorder.Perm tree.inorder := by
  induction tree with
  | nil => exact List.Perm.refl _
  | node value left right ihLeft ihRight =>
      rw [preorder, inorder_node]
      exact ((ihLeft.append ihRight).cons value).trans List.perm_middle.symm

theorem postorder_perm (tree : Tree α) : tree.postorder.Perm tree.inorder := by
  induction tree with
  | nil => exact List.Perm.refl _
  | node value left right ihLeft ihRight =>
      rw [postorder, inorder_node]
      have hroot := List.perm_append_singleton value
        (left.postorder ++ right.postorder)
      exact (hroot.trans ((ihLeft.append ihRight).cons value)).trans
        List.perm_middle.symm

variable [LinearOrder α]

/-! ## Values in their places -/

/-- The values are where `insert` looks for a place for them. -/
def Placed : Tree α → Prop
  | nil => True
  | node value left right =>
      (∀ other ∈ left.inorder, other < value) ∧
        (∀ other ∈ right.inorder, value ≤ other) ∧
        Placed left ∧ Placed right

theorem Placed.inOrder {tree : Tree α} (hplaced : tree.Placed) :
    InOrder tree.inorder := by
  induction tree with
  | nil => exact List.Pairwise.nil
  | node value left right ihLeft ihRight =>
      obtain ⟨hbelow, habove, hleft, hright⟩ := hplaced
      rw [inorder_node]
      exact inOrder_node_iff.mpr ⟨ihLeft hleft, ihRight hright,
        fun other hother => (hbelow other hother).le, habove⟩

theorem mem_insert_iff {tree : Tree α} (hplaced : tree.Placed)
    {value other : α} :
    other ∈ (tree.insert value).inorder ↔
      other = value ∨ other ∈ tree.inorder :=
  (insert_adds hplaced.inOrder value).perm.mem_iff.trans List.mem_cons

theorem placed_insert {tree : Tree α} (hplaced : tree.Placed) (value : α) :
    (tree.insert value).Placed := by
  induction tree with
  | nil =>
      exact ⟨fun _ hother => absurd hother List.not_mem_nil,
        fun _ hother => absurd hother List.not_mem_nil, trivial, trivial⟩
  | node parentValue left right ihLeft ihRight =>
      obtain ⟨hbelow, habove, hleft, hright⟩ := hplaced
      by_cases hlt : value < parentValue
      · rw [insert, if_pos hlt]
        refine ⟨?_, habove, ihLeft hleft, hright⟩
        intro other hother
        rcases (mem_insert_iff hleft).mp hother with rfl | hold
        · exact hlt
        · exact hbelow other hold
      · rw [insert, if_neg hlt]
        refine ⟨hbelow, ?_, hleft, ihRight hright⟩
        intro other hother
        rcases (mem_insert_iff hright).mp hother with rfl | hold
        · exact not_lt.mp hlt
        · exact habove other hold

theorem placed_grow (values : List α) {tree : Tree α}
    (hplaced : tree.Placed) : (grow tree values).Placed := by
  induction values generalizing tree with
  | nil => exact hplaced
  | cons value values ih => exact ih (placed_insert hplaced value)

theorem mem_of_mem_delete {tree tree' : Tree α} (hplaced : tree.Placed)
    {value : α} (hdelete : tree.delete value = some tree') :
    ∀ other ∈ tree'.inorder, other ∈ tree.inorder := by
  obtain ⟨found, hfound, hremoves⟩ := delete_removes hplaced.inOrder value
  rw [hdelete, Option.some_inj] at hfound
  subst hfound
  exact fun other hother => hremoves.mem hother

theorem placed_delete {tree tree' : Tree α} (hplaced : tree.Placed)
    {value : α} (hdelete : tree.delete value = some tree') :
    tree'.Placed := by
  induction tree generalizing tree' value with
  | nil =>
      cases hdelete
      trivial
  | node parentValue left right ihLeft ihRight =>
      obtain ⟨hbelow, habove, hleft, hright⟩ := hplaced
      rcases lt_trichotomy parentValue value with hlt | heq | hgt
      · rw [delete_of_lt hlt] at hdelete
        obtain ⟨right', hright', rfl⟩ := Option.map_eq_some_iff.mp hdelete
        exact ⟨hbelow, fun other hother =>
          habove other (mem_of_mem_delete hright hright' other hother),
          hleft, ihRight hright hright'⟩
      · subst heq
        by_cases hnoLeft : left = nil
        · subst hnoLeft
          rw [delete_root_nil_left] at hdelete
          cases hdelete
          exact hright
        by_cases hnoRight : right = nil
        · subst hnoRight
          rw [delete_root_nil_right] at hdelete
          cases hdelete
          exact hleft
        obtain ⟨next, hmin, hnext, hleast⟩ :=
          exists_min hright.inOrder hnoRight
        rw [delete_root_two hnoLeft hnoRight, hmin, Option.bind_some]
          at hdelete
        obtain ⟨right', hright', rfl⟩ := Option.map_eq_some_iff.mp hdelete
        -- The successor is not below the value it replaces.
        refine ⟨?_, ?_, hleft, ihRight hright hright'⟩
        · intro other hother
          exact (hbelow other hother).trans_le (habove next hnext)
        · intro other hother
          exact hleast other (mem_of_mem_delete hright hright' other hother)
      · rw [delete_of_gt hgt] at hdelete
        obtain ⟨left', hleft', rfl⟩ := Option.map_eq_some_iff.mp hdelete
        exact ⟨fun other hother =>
          hbelow other (mem_of_mem_delete hleft hleft' other hother),
          habove, ihLeft hleft hleft', hright⟩

/-- Different values are in their places as soon as they are in order. -/
theorem placed_of_nodup {tree : Tree α} (horder : InOrder tree.inorder)
    (hnodup : tree.inorder.Nodup) : tree.Placed := by
  induction tree with
  | nil => trivial
  | node value left right ihLeft ihRight =>
      rw [inorder_node] at horder hnodup
      obtain ⟨hleft, hright, hbelow, habove⟩ := inOrder_node_iff.mp horder
      obtain ⟨hleftNodup, hrest, hapart⟩ := List.nodup_append.mp hnodup
      refine ⟨?_, habove, ihLeft hleft hleftNodup,
        ihRight hright (List.nodup_cons.mp hrest).2⟩
      intro other hother
      exact lt_of_le_of_ne (hbelow other hother)
        (hapart other hother value List.mem_cons_self)

/-! ## Rebuilding -/

/-- Values which belong to different sides of a node do not meet, whichever of
them come first. -/
theorem grow_sides {value : α} {below above : List α}
    (hbelow : ∀ other ∈ below, other < value)
    (habove : ∀ other ∈ above, value ≤ other) :
    grow nil (value :: (below ++ above)) =
        node value (grow nil below) (grow nil above) ∧
      grow nil (value :: (above ++ below)) =
        node value (grow nil below) (grow nil above) := by
  have hleft : below.filter (· < value) = below :=
    List.filter_eq_self.mpr fun other hother =>
      decide_eq_true (hbelow other hother)
  have hleftNone : above.filter (· < value) = [] :=
    List.filter_eq_nil_iff.mpr fun other hother hlt =>
      absurd (of_decide_eq_true hlt) (habove other hother).not_gt
  have hright : above.filter (value ≤ ·) = above :=
    List.filter_eq_self.mpr fun other hother =>
      decide_eq_true (habove other hother)
  have hrightNone : below.filter (value ≤ ·) = [] :=
    List.filter_eq_nil_iff.mpr fun other hother hle =>
      absurd (of_decide_eq_true hle) (hbelow other hother).not_ge
  constructor
  · show grow (node value nil nil) (below ++ above) = _
    rw [grow_node, List.filter_append, List.filter_append, hleft, hleftNone,
      hright, hrightNone, List.append_nil, List.nil_append]
  · show grow (node value nil nil) (above ++ below) = _
    rw [grow_node, List.filter_append, List.filter_append, hleft, hleftNone,
      hright, hrightNone, List.append_nil, List.nil_append]

theorem Placed.grow_preorder {tree : Tree α} (hplaced : tree.Placed) :
    grow nil tree.preorder = tree := by
  induction tree with
  | nil => rfl
  | node value left right ihLeft ihRight =>
      obtain ⟨hbelow, habove, hleft, hright⟩ := hplaced
      obtain ⟨hsides, -⟩ := grow_sides
        (fun other hother => hbelow other (left.preorder_perm.mem_iff.mp hother))
        (fun other hother => habove other (right.preorder_perm.mem_iff.mp hother))
      rw [preorder, hsides, ihLeft hleft, ihRight hright]

theorem Placed.grow_postorder {tree : Tree α} (hplaced : tree.Placed) :
    grow nil tree.postorder.reverse = tree := by
  induction tree with
  | nil => rfl
  | node value left right ihLeft ihRight =>
      obtain ⟨hbelow, habove, hleft, hright⟩ := hplaced
      obtain ⟨-, hsides⟩ := grow_sides
        (fun other hother => hbelow other
          (left.postorder_perm.mem_iff.mp (List.mem_reverse.mp hother)))
        (fun other hother => habove other
          (right.postorder_perm.mem_iff.mp (List.mem_reverse.mp hother)))
      rw [postorder, List.reverse_append, List.reverse_append,
        List.reverse_singleton, List.singleton_append, hsides, ihLeft hleft,
        ihRight hright]

end Tree

/-! ## Whole runs -/

section Runs

variable [LinearOrder α]

theorem root_ofValues (values : List α) :
    (ofValues values).root = grow .nil values := by
  have hfold : ∀ self : BST α,
      (values.foldl insert self).root = grow self.root values := by
    induction values with
    | nil => exact fun _ => rfl
    | cons value values ih => exact fun self => ih (self.insert value)
  exact hfold (construct α)

omit [LinearOrder α] in
theorem preorderTraversal_eq (self : BST α) :
    self.preorderTraversal = self.root.preorder :=
  (Tree.preorderTraversal_eq self.root []).trans (List.nil_append _)

omit [LinearOrder α] in
theorem postorderTraversal_eq (self : BST α) :
    self.postorderTraversal = self.root.postorder :=
  (Tree.postorderTraversal_eq self.root []).trans (List.nil_append _)

theorem ofValues_eq_iff {self : BST α} {values : List α}
    (hgrow : self.root.Placed → grow .nil values = self.root) :
    ofValues values = self ↔ self.root.Placed := by
  have hroot := root_ofValues values
  constructor
  · rintro rfl
    rw [hroot]
    exact Tree.placed_grow values trivial
  · intro hplaced
    rw [hgrow hplaced] at hroot
    exact congrArg BST.mk hroot

theorem placed_step {self next : BST α} {c : Call α} (hc : c ≠ .balance)
    (hplaced : self.root.Placed) (hstep : self.step c = some next) :
    next.root.Placed := by
  cases c with
  | insert value =>
      cases hstep
      exact Tree.placed_insert hplaced value
  | delete value =>
      obtain ⟨root, hdelete, rfl⟩ := Option.map_eq_some_iff.mp hstep
      exact Tree.placed_delete hplaced hdelete
  | balance => exact absurd rfl hc

theorem placed_run {calls : List (Call α)} (hcalls : .balance ∉ calls)
    {self last : BST α} (hplaced : self.root.Placed)
    (hrun : StepSystem.run BST.step calls self = some last) :
    last.root.Placed := by
  have hallowed : StepSystem.AllAllowed BST.step (fun _ c => c ≠ .balance)
      calls self :=
    (StepSystem.allAllowed_iff_forall hrun).mpr fun c hc heq =>
      hcalls (heq ▸ hc)
  exact (StepSystem.reachable_of_run hrun hallowed).invariant hplaced
    fun hplaced hc hstep => placed_step hc hplaced hstep

/-- After every word of calls, each of the two traversals gives back the whole
tree exactly when the values are in their places, as they are without calls of
`balance` and whenever all values are different. -/
theorem bst_traversals_rebuild (calls : List (Call α)) :
    ∃ self, StepSystem.run BST.step calls (construct α) = some self ∧
      (ofValues self.preorderTraversal = self ↔ self.root.Placed) ∧
      (ofValues self.postorderTraversal.reverse = self ↔ self.root.Placed) ∧
      (.balance ∉ calls ∨ (contents calls).Nodup → self.root.Placed) := by
  obtain ⟨self, hrun, hholds⟩ := run_holds calls
  refine ⟨self, hrun, ?_, ?_, ?_⟩
  · rw [preorderTraversal_eq]
    exact ofValues_eq_iff Tree.Placed.grow_preorder
  · rw [postorderTraversal_eq]
    exact ofValues_eq_iff Tree.Placed.grow_postorder
  · rintro (hcalls | hnodup)
    · have hstart : (construct α).root.Placed := trivial
      exact placed_run hcalls hstart hrun
    · apply Tree.placed_of_nodup hholds.1
      rw [← Multiset.coe_nodup, hholds.2]
      exact hnodup

end Runs

end BST
end TradingStudies
