import TradingStudies.BST

/-!
# The contents and the height of the binary search tree

`balance` may put equal values into a left subtree, against the habit of
`insert`.  The order of the in-order list is not disturbed by that, and it is
all that insertions and deletions rely on.

The range of positions which `balance` works on loses its middle and is cut in
halves, of which the right one is the larger.  The height of the new tree
follows the halving.
-/

namespace TradingStudies
namespace BST

open SearchOrder

variable {α : Type*}

namespace Tree

/-- The number of levels of a tree. -/
def height : Tree α → ℕ
  | nil => 0
  | node _ left right => 1 + max left.height right.height

/-! ## Balancing -/

/-- The least number of levels that has room for so many nodes. -/
def leastHeight (size : ℕ) : ℕ := if size = 0 then 0 else Nat.log 2 size + 1

theorem leastHeight_succ (size : ℕ) :
    leastHeight (size + 1) = leastHeight ((size + 1) / 2) + 1 := by
  unfold leastHeight
  rw [if_neg (Nat.succ_ne_zero size)]
  by_cases hzero : (size + 1) / 2 = 0
  · have hone : size = 0 := by omega
    subst size
    simp
  · rw [if_neg hzero, Nat.log_div_base]
    have hpos : 0 < Nat.log 2 (size + 1) := Nat.log_pos (by omega) (by omega)
    omega

theorem leastHeight_mono {small large : ℕ} (hle : small ≤ large) :
    leastHeight small ≤ leastHeight large := by
  unfold leastHeight
  by_cases hzero : small = 0
  · rw [if_pos hzero]
    exact Nat.zero_le _
  · rw [if_neg hzero, if_neg (by omega)]
    exact Nat.succ_le_succ (Nat.log_mono_right hle)

theorem item_of_lt {order : List α} {index : ℕ} (hlt : index < order.length) :
    item order index = some order[index] := by
  unfold item
  rw [if_pos (Int.natCast_nonneg index), Int.toNat_natCast,
    List.getElem?_eq_getElem hlt]

/-- The positions of a range are its middle and those before and after it. -/
theorem take_drop_middle {order : List α} {start before : ℕ}
    (hfits : start + before < order.length) (after : ℕ) :
    (order.drop start).take (before + 1 + after) =
      (order.drop start).take before ++
        order[start + before] ::
          (order.drop (start + before + 1)).take after := by
  have hmiddle : order.drop (start + before) =
      order[start + before] :: order.drop (start + before + 1) :=
    List.drop_eq_getElem_cons hfits
  rw [Nat.add_assoc, List.take_add, List.drop_drop, hmiddle,
    Nat.add_comm 1 after, List.take_succ_cons]

theorem balance_range {order : List α} (size start : ℕ)
    (hfits : start + size ≤ order.length) :
    ∃ tree, balance order start ((start : ℤ) + size - 1) = some tree ∧
      tree.inorder = (order.drop start).take size ∧
      tree.height = leastHeight size := by
  induction size using Nat.strong_induction_on generalizing start with
  | _ size ih =>
      cases size with
      | zero =>
          refine ⟨nil, ?_, by simp, by simp [height, leastHeight]⟩
          rw [balance, if_pos (by omega)]
      | succ size =>
          -- The middle, with `size / 2` positions before it.
          have hmid : ((start : ℤ) + (size + 1 : ℕ) - 1 - start) / 2 + start =
              ((start + size / 2 : ℕ) : ℤ) := by
            push_cast
            omega
          obtain ⟨leftTree, hleft, hleftOrder, hleftHeight⟩ :=
            ih (size / 2) (by omega) start (by omega)
          obtain ⟨rightTree, hright, hrightOrder, hrightHeight⟩ :=
            ih ((size + 1) / 2) (by omega) (start + size / 2 + 1) (by omega)
          have hleftEnd : ((start + size / 2 : ℕ) : ℤ) - 1 =
              (start : ℤ) + (size / 2 : ℕ) - 1 := by
            push_cast
            ring
          have hrightStart : ((start + size / 2 : ℕ) : ℤ) + 1 =
              ((start + size / 2 + 1 : ℕ) : ℤ) := by
            push_cast
            ring
          have hrightEnd : (start : ℤ) + (size + 1 : ℕ) - 1 =
              ((start + size / 2 + 1 : ℕ) : ℤ) + ((size + 1) / 2 : ℕ) - 1 := by
            push_cast
            omega
          have hsize : size + 1 = size / 2 + 1 + (size + 1) / 2 := by omega
          refine ⟨node order[start + size / 2] leftTree rightTree, ?_, ?_, ?_⟩
          · have hitem : item order ((start + size / 2 : ℕ) : ℤ) =
                some order[start + size / 2] := item_of_lt (by omega)
            rw [balance, if_neg (by omega), hmid]
            simp only [hitem, hleftEnd, hleft, hrightStart, hrightEnd,
              hright, Option.bind_some]
          · rw [inorder_node, hleftOrder, hrightOrder]
            conv_rhs => rw [hsize]
            rw [take_drop_middle (by omega)]
          · rw [height, hleftHeight, hrightHeight, leastHeight_succ,
              max_eq_right (leastHeight_mono (by omega)), Nat.add_comm]

variable [LinearOrder α]

/-! ## Insertion and deletion -/

theorem insert_adds {tree : Tree α} (horder : InOrder tree.inorder)
    (value : α) : Adds value tree.inorder (tree.insert value).inorder := by
  induction tree with
  | nil => exact adds_nil value
  | node parentValue left right ihLeft ihRight =>
      rw [inorder_node] at horder
      rcases inOrder_node_iff.mp horder with ⟨hleft, hright, -, -⟩
      by_cases hlt : value < parentValue
      · rw [insert, if_pos hlt, inorder_node, inorder_node]
        exact Adds.left horder (ihLeft hleft) hlt.le
      · rw [insert, if_neg hlt, inorder_node, inorder_node]
        exact Adds.right horder (ihRight hright) (not_lt.mp hlt)

theorem exists_min {tree : Tree α} (horder : InOrder tree.inorder)
    (hne : tree ≠ nil) :
    ∃ next, tree.min = some next ∧ next ∈ tree.inorder ∧
      ∀ other ∈ tree.inorder, next ≤ other := by
  rw [min_eq_head?]
  apply exists_head_least horder
  cases tree with
  | nil => exact absurd rfl hne
  | node value left right => simp

theorem delete_of_lt {parentValue value : α} (hlt : parentValue < value)
    (left right : Tree α) :
    (node parentValue left right).delete value =
      (right.delete value).map fun right' => node parentValue left right' := by
  conv_lhs => rw [delete.eq_def]
  simp only [if_pos hlt]

theorem delete_of_gt {parentValue value : α} (hgt : value < parentValue)
    (left right : Tree α) :
    (node parentValue left right).delete value =
      (left.delete value).map fun left' => node parentValue left' right := by
  conv_lhs => rw [delete.eq_def]
  simp only [if_neg hgt.not_gt, if_pos hgt]

theorem delete_root_nil_left (value : α) (right : Tree α) :
    (node value nil right).delete value = some right := by
  simp [delete]

theorem delete_root_nil_right (value : α) (left : Tree α) :
    (node value left nil).delete value = some left := by
  cases left with
  | nil => simp [delete]
  | node leftValue leftLeft leftRight => simp [delete]

theorem delete_root_two {left right : Tree α} (hleft : left ≠ nil)
    (hright : right ≠ nil) (value : α) :
    (node value left right).delete value =
      right.min.bind fun successor =>
        (right.delete successor).map fun right' =>
          node successor left right' := by
  cases left with
  | nil => exact absurd rfl hleft
  | node leftValue leftLeft leftRight =>
      cases right with
      | nil => exact absurd rfl hright
      | node rightValue rightLeft rightRight => simp [delete]

theorem delete_removes {tree : Tree α} (horder : InOrder tree.inorder)
    (value : α) :
    ∃ tree', tree.delete value = some tree' ∧
      Removes value tree.inorder tree'.inorder := by
  induction tree generalizing value with
  | nil => exact ⟨nil, rfl, removes_nil value⟩
  | node parentValue left right ihLeft ihRight =>
      rw [inorder_node] at horder ⊢
      rcases inOrder_node_iff.mp horder with ⟨hleft, hright, -, -⟩
      rcases lt_trichotomy parentValue value with hlt | heq | hgt
      · obtain ⟨right', hdelete, hremoves⟩ := ihRight hright value
        refine ⟨node parentValue left right', ?_, ?_⟩
        · rw [delete_of_lt hlt, hdelete, Option.map_some]
        · rw [inorder_node]
          exact Removes.right horder hremoves hlt
      · subst value
        have hroot := removes_root horder
        by_cases hnoLeft : left = nil
        · subst left
          exact ⟨right, delete_root_nil_left _ _, by simpa using hroot⟩
        by_cases hnoRight : right = nil
        · subst right
          exact ⟨left, delete_root_nil_right _ _, by simpa using hroot⟩
        obtain ⟨next, hmin, hnext, hleast⟩ := exists_min hright hnoRight
        obtain ⟨right', hdelete, hremoves⟩ := ihRight hright next
        refine ⟨node next left right', ?_, ?_⟩
        · rw [delete_root_two hnoLeft hnoRight, hmin, Option.bind_some,
            hdelete, Option.map_some]
        · rw [inorder_node]
          exact Removes.successor horder hnext hleast hremoves
      · obtain ⟨left', hdelete, hremoves⟩ := ihLeft hleft value
        refine ⟨node parentValue left' right, ?_, ?_⟩
        · rw [delete_of_gt hgt, hdelete, Option.map_some]
        · rw [inorder_node]
          exact Removes.left horder hremoves hgt

end Tree

/-! ## Whole runs -/

theorem balance_spec (self : BST α) :
    ∃ next, self.balance = some next ∧
      next.root.inorder = self.root.inorder ∧
      next.root.height = Tree.leastHeight self.root.inorder.length := by
  obtain ⟨tree, hbalance, horder, hheight⟩ :=
    Tree.balance_range self.root.inorder.length 0
      (show 0 + self.root.inorder.length ≤ self.inorderTraversal.length from
        (Nat.zero_add _).le)
  rw [Nat.cast_zero, zero_add] at hbalance
  refine ⟨⟨tree⟩, ?_, ?_, hheight⟩
  · show (Tree.balance self.inorderTraversal 0
      ((self.root.inorder.length : ℤ) - 1)).map BST.mk = some ⟨tree⟩
    rw [hbalance, Option.map_some]
  · show tree.inorder = self.root.inorder
    rw [horder, List.drop_zero]
    exact List.take_length

variable [LinearOrder α]

/-- The tree shows the recorded values. -/
def Holds (self : BST α) (values : Multiset α) : Prop :=
  Shows self.root.inorder values

theorem Holds.step {self : BST α} {values : Multiset α}
    (hholds : self.Holds values) (c : Call α) :
    ∃ next, self.step c = some next ∧ next.Holds (recordCall values c) := by
  cases c with
  | insert value =>
      exact ⟨_, rfl, Shows.adds hholds (Tree.insert_adds hholds.1 value)⟩
  | delete value =>
      obtain ⟨root, hdelete, hremoves⟩ := Tree.delete_removes hholds.1 value
      refine ⟨⟨root⟩, ?_, Shows.removes hholds hremoves⟩
      rw [BST.step, BST.delete, hdelete, Option.map_some]
  | balance =>
      obtain ⟨next, hbalance, horder, -⟩ := self.balance_spec
      refine ⟨next, hbalance, ?_⟩
      unfold Holds
      rw [horder]
      exact hholds

theorem run_holds (calls : List (Call α)) :
    ∃ self, StepSystem.run BST.step calls (construct α) = some self ∧
      self.Holds (contents calls) := by
  have hall := StepSystem.allAllowed_trivial BST.step calls (construct α)
  have hstart : Holds (construct α) 0 := shows_nil
  apply StepSystem.run_simulation Holds ?_ hstart hall
  intro self values c hholds _
  exact hholds.step c

/-- After every word of calls the in-order walk writes the recorded values in
order, and a call of `balance` would give the tree the least height. -/
theorem bst_inorderTraversal_sorted (calls : List (Call α)) :
    ∃ self, StepSystem.run BST.step calls (construct α) = some self ∧
      self.inorderTraversal = (contents calls).sort (· ≤ ·) ∧
      ∃ next, self.step .balance = some next ∧
        next.root.height =
          if (contents calls).card = 0 then 0
          else Nat.log 2 (contents calls).card + 1 := by
  obtain ⟨self, hrun, hholds⟩ := run_holds calls
  obtain ⟨next, hbalance, -, hheight⟩ := self.balance_spec
  refine ⟨self, hrun, Shows.eq_sort hholds, next, hbalance, ?_⟩
  have hcard : self.root.inorder.length = (contents calls).card := by
    rw [← hholds.2, Multiset.coe_card]
  rw [hheight, hcard, Tree.leastHeight]

end BST
end TradingStudies
