import TradingStudies.AVL

/-!
# The contents of the AVL tree

Rotations keep the in-order list, so whichever of them the stored heights
provoke, an insertion adds its value to the list and a deletion removes one
occurrence.  Equal values may stand on either side of a node: all that the
searches need is that the list is in non-decreasing order.
-/

namespace TradingStudies
namespace AVL

open SearchOrder

variable {α : Type*}

namespace Tree

theorem findMin_eq_head? (tree : Tree α) :
    tree.findMin = tree.inorder.head? := by
  induction tree with
  | nil => rfl
  | node value left right height ihLeft ihRight =>
      cases left with
      | nil => simp [findMin]
      | node leftValue leftLeft leftRight leftHeight =>
          rw [findMin, ihLeft, inorder_node]
          simp

variable [LinearOrder α]

/-- The successor is a least value of the right subtree. -/
theorem exists_findMin {tree : Tree α} (horder : InOrder tree.inorder)
    (hne : tree ≠ nil) :
    ∃ next, tree.findMin = some next ∧ next ∈ tree.inorder ∧
      ∀ other ∈ tree.inorder, next ≤ other := by
  rw [findMin_eq_head?]
  apply exists_head_least horder
  cases tree with
  | nil => exact absurd rfl hne
  | node value left right height => simp

theorem insert_adds {tree : Tree α} (horder : InOrder tree.inorder)
    (value : α) :
    ∃ tree', tree.insert value = some tree' ∧
      Adds value tree.inorder tree'.inorder := by
  induction tree with
  | nil => exact ⟨_, rfl, adds_nil value⟩
  | node parentValue left right height ihLeft ihRight =>
      rw [inorder_node] at horder ⊢
      rcases inOrder_node_iff.mp horder with ⟨hleft, hright, -, -⟩
      by_cases hlt : parentValue < value
      · obtain ⟨right', hinsert, hadds⟩ := ihRight hright
        obtain ⟨tree', hrebalance, hcases⟩ :=
          rebalance_spec parentValue left right' value
        refine ⟨tree', ?_, ?_⟩
        · rw [insert, if_pos hlt, hinsert, Option.bind_some, hrebalance]
        · rw [hcases.inorder]
          exact Adds.right horder hadds hlt.le
      · obtain ⟨left', hinsert, hadds⟩ := ihLeft hleft
        obtain ⟨tree', hrebalance, hcases⟩ :=
          rebalance_spec parentValue left' right value
        refine ⟨tree', ?_, ?_⟩
        · rw [insert, if_neg hlt, hinsert, Option.bind_some, hrebalance]
        · rw [hcases.inorder]
          exact Adds.left horder hadds (not_lt.mp hlt)

/-! ## The cases of a deletion -/

theorem delete_of_lt {parentValue value : α} (hlt : parentValue < value)
    (left right : Tree α) (height : ℕ) :
    (node parentValue left right height).delete value =
      (right.delete value).bind fun right' =>
        rebalance parentValue left right' value := by
  conv_lhs => rw [delete.eq_def]
  simp only [if_pos hlt]

theorem delete_of_gt {parentValue value : α} (hgt : value < parentValue)
    (left right : Tree α) (height : ℕ) :
    (node parentValue left right height).delete value =
      (left.delete value).bind fun left' =>
        rebalance parentValue left' right value := by
  conv_lhs => rw [delete.eq_def]
  simp only [if_neg hgt.not_gt, if_pos hgt]

theorem delete_root_nil_left (value : α) (right : Tree α) (height : ℕ) :
    (node value nil right height).delete value = some right := by
  simp [delete]

theorem delete_root_nil_right (value : α) (left : Tree α) (height : ℕ) :
    (node value left nil height).delete value = some left := by
  cases left with
  | nil => simp [delete]
  | node leftValue leftLeft leftRight leftHeight => simp [delete]

theorem delete_root_two {left right : Tree α} (hleft : left ≠ nil)
    (hright : right ≠ nil) (value : α) (height : ℕ) :
    (node value left right height).delete value =
      right.findMin.bind fun successor =>
        (right.delete successor).bind fun right' =>
          rebalance successor left right' value := by
  cases left with
  | nil => exact absurd rfl hleft
  | node leftValue leftLeft leftRight leftHeight =>
      cases right with
      | nil => exact absurd rfl hright
      | node rightValue rightLeft rightRight rightHeight => simp [delete]

theorem delete_removes {tree : Tree α} (horder : InOrder tree.inorder)
    (value : α) :
    ∃ tree', tree.delete value = some tree' ∧
      Removes value tree.inorder tree'.inorder := by
  induction tree generalizing value with
  | nil => exact ⟨nil, rfl, removes_nil value⟩
  | node parentValue left right height ihLeft ihRight =>
      rw [inorder_node] at horder ⊢
      rcases inOrder_node_iff.mp horder with ⟨hleft, hright, -, -⟩
      rcases lt_trichotomy parentValue value with hlt | heq | hgt
      · obtain ⟨right', hdelete, hremoves⟩ := ihRight hright value
        obtain ⟨tree', hrebalance, hcases⟩ :=
          rebalance_spec parentValue left right' value
        refine ⟨tree', ?_, ?_⟩
        · rw [delete_of_lt hlt, hdelete, Option.bind_some, hrebalance]
        · rw [hcases.inorder]
          exact Removes.right horder hremoves hlt
      · subst value
        have hroot := removes_root horder
        by_cases hnoLeft : left = nil
        · subst left
          exact ⟨right, delete_root_nil_left _ _ _, by simpa using hroot⟩
        by_cases hnoRight : right = nil
        · subst right
          exact ⟨left, delete_root_nil_right _ _ _, by simpa using hroot⟩
        obtain ⟨next, hmin, hnext, hleast⟩ := exists_findMin hright hnoRight
        obtain ⟨right', hdelete, hremoves⟩ := ihRight hright next
        obtain ⟨tree', hrebalance, hcases⟩ :=
          rebalance_spec next left right' parentValue
        refine ⟨tree', ?_, ?_⟩
        · rw [delete_root_two hnoLeft hnoRight, hmin, Option.bind_some,
            hdelete, Option.bind_some, hrebalance]
        · rw [hcases.inorder]
          exact Removes.successor horder hnext hleast hremoves
      · obtain ⟨left', hdelete, hremoves⟩ := ihLeft hleft value
        obtain ⟨tree', hrebalance, hcases⟩ :=
          rebalance_spec parentValue left' right value
        refine ⟨tree', ?_, ?_⟩
        · rw [delete_of_gt hgt, hdelete, Option.bind_some, hrebalance]
        · rw [hcases.inorder]
          exact Removes.left horder hremoves hgt

end Tree

variable [LinearOrder α]

/-! ## Whole runs -/

/-- The tree shows the recorded values. -/
def Holds (self : AVL α) (values : Multiset α) : Prop :=
  Shows self.root.inorder values

theorem step_delete {self : AVL α} {value : α} {root : Tree α}
    (hdelete : self.root.delete value = some root) :
    self.step (.delete value) = some ⟨root⟩ := by
  rw [AVL.step, AVL.delete]
  cases hroot : self.root with
  | nil =>
      rw [hroot] at hdelete
      cases hdelete
      cases self
      cases hroot
      rfl
  | node parentValue left right height =>
      rw [hroot] at hdelete
      simp only [hdelete, Option.map_some]

theorem Holds.step {self : AVL α} {values : Multiset α}
    (hholds : self.Holds values) (c : Call α) :
    ∃ next, self.step c = some next ∧ next.Holds (recordCall values c) := by
  cases c with
  | insert value =>
      obtain ⟨root, hinsert, hadds⟩ := Tree.insert_adds hholds.1 value
      refine ⟨⟨root⟩, ?_, Shows.adds hholds hadds⟩
      rw [AVL.step, AVL.insert, hinsert, Option.map_some]
  | delete value =>
      obtain ⟨root, hdelete, hremoves⟩ := Tree.delete_removes hholds.1 value
      exact ⟨⟨root⟩, step_delete hdelete, Shows.removes hholds hremoves⟩

/-- After every word of calls, none of which raises, the in-order walk writes
the recorded values in order. -/
theorem avl_inorderTraversal_sorted (calls : List (Call α)) :
    ∃ self, StepSystem.run AVL.step calls (construct α) = some self ∧
      self.inorderTraversal = (contents calls).sort (· ≤ ·) := by
  have hall := StepSystem.allAllowed_trivial AVL.step calls (construct α)
  have hstart : Holds (construct α) 0 := shows_nil
  have hrun : ∃ self, StepSystem.run AVL.step calls (construct α) = some self ∧
      Holds self (contents calls) := by
    apply StepSystem.run_simulation Holds ?_ hstart hall
    intro state values c hholds _
    exact hholds.step c
  obtain ⟨self, hrun, hholds⟩ := hrun
  exact ⟨self, hrun, Shows.eq_sort hholds⟩

end AVL
end TradingStudies
