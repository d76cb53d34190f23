import TradingStudies.Leet1382BST

/-!
# The contents and the height of the tree of `leet1382_bst.py`

`find` looks below the root without returning what it finds there.

`balance` inserts a list of values one by one.  In a tree that grows by
insertion the first value is the root, the values below it make the left side,
and the others make the right side, each side in the same order of insertion.
The height of the tree can therefore be read off the list.

A slice contributes its middle, then the left half, then the right half.  The
copies of the middle in the left half do not stay on its left: they go to the
right, one under the other, and the right half hangs below them.  Whether the
tree still has the least height depends on how many levels are to spare there.
-/

namespace TradingStudies
namespace Leet1382BST

open SearchOrder
open BST.Tree (height inorder leastHeight)

variable {α : Type*} [LinearOrder α]

/-! ## Growing by insertion -/

def grow (tree : BST.Tree α) (values : List α) : BST.Tree α :=
  values.foldl BST.Tree.insert tree

theorem grow_adds (values : List α) {tree : BST.Tree α}
    (horder : InOrder tree.inorder) :
    InOrder (grow tree values).inorder ∧
      (grow tree values).inorder.Perm (values ++ tree.inorder) := by
  induction values generalizing tree with
  | nil => exact ⟨horder, List.Perm.refl _⟩
  | cons value values ih =>
      have hadds := BST.Tree.insert_adds horder value
      obtain ⟨hnext, hperm⟩ := ih hadds.inOrder
      refine ⟨hnext, hperm.trans ?_⟩
      exact (hadds.perm.append_left values).trans List.perm_middle

/-- The values go to the sides of a node independently. -/
theorem grow_node (root : α) (left right : BST.Tree α) (values : List α) :
    grow (.node root left right) values =
      .node root (grow left (values.filter (· < root)))
        (grow right (values.filter (root ≤ ·))) := by
  induction values generalizing left right with
  | nil => rfl
  | cons value values ih =>
      show grow ((BST.Tree.node root left right).insert value) values = _
      by_cases hlt : value < root
      · have hnot : ¬ root ≤ value := not_le.mpr hlt
        rw [BST.Tree.insert, if_pos hlt, ih]
        simp only [List.filter_cons, hlt, hnot, decide_true, decide_false,
          if_true, Bool.false_eq_true, if_false]
        rfl
      · have hle : root ≤ value := not_lt.mp hlt
        rw [BST.Tree.insert, if_neg hlt, ih]
        simp only [List.filter_cons, hlt, hle, decide_true, decide_false,
          if_true, Bool.false_eq_true, if_false]
        rfl

def grownHeight (values : List α) : ℕ := (grow .nil values).height

theorem grownHeight_nil : grownHeight ([] : List α) = 0 := rfl

theorem grownHeight_cons (root : α) (values : List α) :
    grownHeight (root :: values) =
      1 + max (grownHeight (values.filter (· < root)))
        (grownHeight (values.filter (root ≤ ·))) := by
  show (grow (.node root .nil .nil) values).height = _
  rw [grow_node]
  rfl

theorem grownHeight_replicate_append (copies : ℕ) {root : α}
    {values : List α} (habove : ∀ value ∈ values, root ≤ value) :
    grownHeight (List.replicate copies root ++ values) =
      copies + grownHeight values := by
  induction copies with
  | zero => simp
  | succ copies ih =>
      have hall : ∀ value ∈ List.replicate copies root ++ values,
          root ≤ value := by
        intro value hvalue
        rcases List.mem_append.mp hvalue with hcopy | hmem
        · exact (List.eq_of_mem_replicate hcopy).ge
        · exact habove value hmem
      have hbelow : (List.replicate copies root ++ values).filter
          (· < root) = [] := by
        rw [List.filter_eq_nil_iff]
        intro value hvalue
        simpa using hall value hvalue
      have hkept : (List.replicate copies root ++ values).filter
          (root ≤ ·) = List.replicate copies root ++ values := by
        rw [List.filter_eq_self]
        intro value hvalue
        simpa using hall value hvalue
      rw [List.replicate_succ, List.cons_append, grownHeight_cons, hbelow,
        hkept, ih, grownHeight_nil]
      omega

omit [LinearOrder α] in
theorem length_inorder_lt (tree : BST.Tree α) :
    tree.inorder.length < 2 ^ tree.height := by
  induction tree with
  | nil => simp [height]
  | node value left right ihLeft ihRight =>
      have hleft := Nat.pow_le_pow_right (show 0 < 2 by omega)
        (le_max_left left.height right.height)
      have hright := Nat.pow_le_pow_right (show 0 < 2 by omega)
        (le_max_right left.height right.height)
      rw [BST.Tree.inorder_node, List.length_append, List.length_cons,
        height, Nat.pow_add]
      omega

/-! ## The order of insertion -/

/-- The order in which `__balance` inserts the values of a slice. -/
def order (lst : List α) : List α :=
  if hshort : lst.length ≤ 2 then lst
  else
    lst[lst.length / 2] ::
      (order (lst.take (lst.length / 2)) ++
        order (lst.drop (lst.length / 2 + 1)))
termination_by lst.length
decreasing_by
  · rw [List.length_take]
    omega
  · rw [List.length_drop]
    omega

omit [LinearOrder α] in
theorem split_at {lst : List α} {middle : ℕ} (hlt : middle < lst.length) :
    lst.take middle ++ lst[middle] :: lst.drop (middle + 1) = lst := by
  rw [← List.drop_eq_getElem_cons hlt, List.take_append_drop]

omit [LinearOrder α] in
/-- What holds of the halves of a slice is carried over to the slice. -/
theorem cut_induction {motive : List α → Prop} (empty : motive [])
    (cut : ∀ lst : List α, lst.length / 2 < lst.length →
      motive (lst.take (lst.length / 2)) →
        motive (lst.drop (lst.length / 2 + 1)) → motive lst)
    (lst : List α) : motive lst := by
  induction hlength : lst.length using Nat.strong_induction_on
    generalizing lst with
  | _ length ih =>
      subst hlength
      by_cases hempty : lst.length = 0
      · rw [List.eq_nil_of_length_eq_zero hempty]
        exact empty
      · apply cut lst (by omega)
        · exact ih _ (by rw [List.length_take]; omega) _ rfl
        · exact ih _ (by rw [List.length_drop]; omega) _ rfl

omit [LinearOrder α] in
theorem order_perm (lst : List α) : (order lst).Perm lst := by
  induction lst using cut_induction with
  | empty => simp [order]
  | cut lst hlt ihLeft ihRight =>
      rw [order]
      by_cases hshort : lst.length ≤ 2
      · rw [dif_pos hshort]
      · rw [dif_neg hshort]
        refine ((ihLeft.append ihRight).cons _).trans ?_
        refine List.perm_middle.symm.trans ?_
        rw [split_at hlt]

@[simp] theorem toTree_insert (self : Leet1382BST α) (value : α) :
    (self.insert value).toTree = self.toTree.insert value := by
  unfold insert toTree
  rw [BST.Tree.insert]
  by_cases hlt : value < self.value
  · rw [if_pos hlt, if_pos hlt]
  · rw [if_neg hlt, if_neg hlt]

theorem toTree_balanceInto (tree : Leet1382BST α) (lst : List α) :
    (balanceInto tree lst).toTree = grow tree.toTree (order lst) := by
  induction lst using cut_induction generalizing tree with
  | empty =>
      rw [balanceInto, order]
      rfl
  | cut lst hlt ihLeft ihRight =>
      rw [balanceInto, order]
      match lst with
      | [value] => exact toTree_insert tree value
      | [value, later] =>
          show ((tree.insert value).insert later).toTree = _
          rw [toTree_insert, toTree_insert]
          rfl
      | value :: later :: last :: rest =>
          rw [dif_neg (by simp), dif_neg (by simp), dif_neg (by simp),
            dif_neg (by simp), ihRight, ihLeft, toTree_insert]
          exact (List.foldl_append ..).symm

theorem toTree_balance (self : Leet1382BST α) :
    self.balance.toTree =
      grow .nil
        (self.inorderTraversal.get ⟨_, self.middle_lt⟩ ::
          (order (self.inorderTraversal.take
              (self.inorderTraversal.length / 2)) ++
            order (self.inorderTraversal.drop
              (self.inorderTraversal.length / 2 + 1)))) := by
  have hlt := self.middle_lt
  have hrest := List.eraseIdx_eq_take_drop_succ self.inorderTraversal
    (self.inorderTraversal.length / 2)
  have hsize : (self.inorderTraversal.take
      (self.inorderTraversal.length / 2)).length =
        self.inorderTraversal.length / 2 := by
    rw [List.length_take, min_eq_left hlt.le]
  unfold balance
  simp only
  rw [hrest, toTree_balanceInto, toTree_balanceInto,
    List.take_left' hsize, List.drop_left' hsize]
  exact (List.foldl_append ..).symm

/-! ## Room for the copies -/

/-- The values of a sorted slice which are below a bound find room in so many
levels.  Its middle takes a level.  The copies of the middle in the left half
take a level each above the right half. -/
def Fits (bound : WithTop α) (levels : ℕ) (lst : List α) : Prop :=
  if hempty : lst.length = 0 then True
  else
    let middle := lst[lst.length / 2]
    let left := lst.take (lst.length / 2)
    let right := lst.drop (lst.length / 2 + 1)
    if middle < bound then
      0 < levels ∧ Fits middle (levels - 1) left ∧
        left.count middle ≤ levels - 1 ∧
        Fits bound (levels - 1 - left.count middle) right
    else Fits bound levels left
termination_by lst.length
decreasing_by
  · rw [List.length_take]
    omega
  · rw [List.length_drop]
    omega
  · rw [List.length_take]
    omega

def below (bound : WithTop α) (value : α) : Bool :=
  decide ((value : WithTop α) < bound)

theorem below_coe (bound : α) : below (bound : WithTop α) = (· < bound) := by
  funext value
  simp [below]

variable {bound : WithTop α} {root : α} {before after : List α}

/-- A node of the new tree: what goes to its left and to its right. -/
theorem grownHeight_below (hbound : (root : WithTop α) < bound)
    (hbefore : ∀ value ∈ before, value ≤ root)
    (hafter : ∀ value ∈ after, root ≤ value) :
    grownHeight ((root :: (before ++ after)).filter (below bound)) =
      1 + max (grownHeight (before.filter (below root)))
        (before.count root + grownHeight (after.filter (below bound))) := by
  have hall : before.filter (below bound) = before := by
    rw [List.filter_eq_self]
    intro value hvalue
    have hle : (value : WithTop α) ≤ root :=
      WithTop.coe_le_coe.mpr (hbefore value hvalue)
    simpa [below] using hle.trans_lt hbound
  have hnone : (after.filter (below bound)).filter (· < root) = [] := by
    rw [List.filter_eq_nil_iff]
    intro value hvalue
    simpa using hafter value (List.mem_of_mem_filter hvalue)
  have hcopies : before.filter (root ≤ ·) =
      List.replicate (before.count root) root := by
    rw [← List.filter_eq]
    apply List.filter_congr
    intro value hvalue
    have hle := hbefore value hvalue
    simp only [decide_eq_decide]
    exact ⟨fun hge => le_antisymm hle hge, fun heq => heq.ge⟩
  have hkept : (after.filter (below bound)).filter (root ≤ ·) =
      after.filter (below bound) := by
    rw [List.filter_eq_self]
    intro value hvalue
    simpa using hafter value (List.mem_of_mem_filter hvalue)
  have hroot : below bound root = true := by simpa [below] using hbound
  rw [List.filter_cons_of_pos hroot, List.filter_append, hall,
    grownHeight_cons, List.filter_append, List.filter_append, hnone, hcopies,
    hkept, List.append_nil, below_coe]
  rw [grownHeight_replicate_append]
  intro value hvalue
  exact hafter value (List.mem_of_mem_filter hvalue)

/-- A middle which is not below the bound has only its left half there. -/
theorem filter_below_of_le (hbound : bound ≤ (root : WithTop α))
    (hafter : ∀ value ∈ after, root ≤ value) :
    (root :: (before ++ after)).filter (below bound) =
      before.filter (below bound) := by
  have hroot : ¬ below bound root = true := by simpa [below] using hbound
  have hnone : after.filter (below bound) = [] := by
    rw [List.filter_eq_nil_iff]
    intro value hvalue
    have hle : (root : WithTop α) ≤ value :=
      WithTop.coe_le_coe.mpr (hafter value hvalue)
    simpa [below] using hbound.trans hle
  rw [List.filter_cons_of_neg hroot, List.filter_append, hnone,
    List.append_nil]

theorem grownHeight_pair (value later : α) :
    grownHeight [value, later] = 2 := by
  rw [grownHeight_cons]
  by_cases hlt : later < value
  · have hnot : ¬ value ≤ later := not_le.mpr hlt
    simp [hlt, hnot, grownHeight_cons, grownHeight_nil]
  · have hle : value ≤ later := not_lt.mp hlt
    simp [hlt, hle, grownHeight_cons, grownHeight_nil]

/-- A slice of two values is inserted from the front, to the same height. -/
theorem grownHeight_order {lst : List α}
    (hlt : lst.length / 2 < lst.length) (kept : α → Bool) :
    grownHeight ((order lst).filter kept) =
      grownHeight ((lst[lst.length / 2] ::
        (order (lst.take (lst.length / 2)) ++
          order (lst.drop (lst.length / 2 + 1)))).filter kept) := by
  match lst with
  | [value] => simp [order]
  | [value, later] =>
      by_cases hvalue : kept value = true
      · by_cases hlater : kept later = true
        · simp [order, hvalue, hlater, grownHeight_pair]
        · simp [order, hvalue, hlater]
      · by_cases hlater : kept later = true
        · simp [order, hvalue, hlater]
        · simp [order, hvalue, hlater]
  | value :: later :: last :: rest =>
      rw [order, dif_neg (by simp)]

theorem grownHeight_le_iff_fits {lst : List α} (hsorted : InOrder lst)
    (bound : WithTop α) (levels : ℕ) :
    grownHeight ((order lst).filter (below bound)) ≤ levels ↔
      Fits bound levels lst := by
  induction lst using cut_induction generalizing bound levels with
  | empty => simp [order, grownHeight_nil, Fits]
  | cut lst hlt ihLeft ihRight =>
      rw [← split_at hlt] at hsorted
      rcases inOrder_node_iff.mp hsorted with ⟨hleft, hright, hle, hge⟩
      have hleftPerm := order_perm (lst.take (lst.length / 2))
      have hrightPerm := order_perm (lst.drop (lst.length / 2 + 1))
      have hbefore : ∀ value ∈ order (lst.take (lst.length / 2)),
          value ≤ lst[lst.length / 2] :=
        fun value hvalue => hle value (hleftPerm.mem_iff.mp hvalue)
      have hafter : ∀ value ∈ order (lst.drop (lst.length / 2 + 1)),
          lst[lst.length / 2] ≤ value :=
        fun value hvalue => hge value (hrightPerm.mem_iff.mp hvalue)
      rw [Fits, dif_neg (by omega), grownHeight_order hlt]
      by_cases hbound : (lst[lst.length / 2] : WithTop α) < bound
      · rw [grownHeight_below hbound hbefore hafter, hleftPerm.count_eq]
        simp only [hbound, if_true]
        rw [← ihLeft hleft, ← ihRight hright]
        omega
      · rw [filter_below_of_le (not_lt.mp hbound) hafter]
        simp only [hbound, if_false]
        exact ihLeft hleft bound levels

/-! ## The balanced tree -/

theorem balance_inOrder_perm (self : Leet1382BST α) :
    InOrder self.balance.inorderTraversal ∧
      self.balance.inorderTraversal.Perm self.inorderTraversal := by
  rw [← inorder_toTree, toTree_balance]
  have hempty : InOrder (BST.Tree.nil : BST.Tree α).inorder :=
    List.Pairwise.nil
  obtain ⟨horder, hperm⟩ := grow_adds _ hempty
  refine ⟨horder, hperm.trans ?_⟩
  rw [BST.Tree.inorder_nil, List.append_nil]
  have hsplit := split_at self.middle_lt
  have hparts := (order_perm (self.inorderTraversal.take
    (self.inorderTraversal.length / 2))).append (order_perm
      (self.inorderTraversal.drop (self.inorderTraversal.length / 2 + 1)))
  refine (hparts.cons _).trans ?_
  refine List.perm_middle.symm.trans ?_
  conv_rhs => rw [← hsplit]
  rfl

theorem balance_inorderTraversal {self : Leet1382BST α}
    (horder : InOrder self.inorderTraversal) :
    self.balance.inorderTraversal = self.inorderTraversal := by
  obtain ⟨hbalanced, hperm⟩ := self.balance_inOrder_perm
  exact hperm.eq_of_pairwise (fun _ _ _ _ => le_antisymm) hbalanced horder

theorem maxdepth_balance_le_iff {self : Leet1382BST α}
    (horder : InOrder self.inorderTraversal) (levels : ℕ) :
    self.balance.maxdepth ≤ levels ↔
      Fits ⊤ levels self.inorderTraversal := by
  have hall : ∀ values : List α, values.filter (below ⊤) = values := by
    intro values
    rw [List.filter_eq_self]
    intro value _
    simp [below]
  rw [maxdepth_eq_height, toTree_balance,
    ← grownHeight_le_iff_fits horder, grownHeight_order self.middle_lt, hall]
  rfl

omit [LinearOrder α] in
theorem leastHeight_le_maxdepth (self : Leet1382BST α) :
    leastHeight self.inorderTraversal.length ≤ self.maxdepth := by
  have hlt := length_inorder_lt self.toTree
  have hne : self.inorderTraversal.length ≠ 0 := by
    have hmiddle := self.middle_lt
    omega
  rw [leastHeight, if_neg hne, maxdepth_eq_height]
  exact Nat.log_lt_of_lt_pow hne hlt

/-- Different values need no more than the least height. -/
theorem fits_of_lt {lst : List α} (hsorted : lst.Pairwise (· < ·))
    {bound : WithTop α} (hbound : ∀ value ∈ lst, (value : WithTop α) < bound)
    {levels : ℕ} (hle : leastHeight lst.length ≤ levels) :
    Fits bound levels lst := by
  induction lst using cut_induction generalizing bound levels with
  | empty => simp [Fits]
  | cut lst hlt ihLeft ihRight =>
      rw [← split_at hlt, List.pairwise_append, List.pairwise_cons]
        at hsorted
      rcases hsorted with ⟨hleft, ⟨-, hright⟩, hcross⟩
      have hbelow : ∀ value ∈ lst.take (lst.length / 2),
          value < lst[lst.length / 2] :=
        fun value hvalue => hcross value hvalue _ List.mem_cons_self
      have hcount : (lst.take (lst.length / 2)).count
          lst[lst.length / 2] = 0 := by
        rw [List.count_eq_zero]
        intro hmem
        exact lt_irrefl _ (hbelow _ hmem)
      have hhalf : leastHeight (lst.length / 2) + 1 ≤ levels := by
        have hsucc := BST.Tree.leastHeight_succ (lst.length - 1)
        rw [Nat.sub_add_cancel (by omega)] at hsucc
        omega
      have hmono : leastHeight (lst.length - (lst.length / 2 + 1)) ≤
          leastHeight (lst.length / 2) :=
        BST.Tree.leastHeight_mono (by omega)
      have hmiddle := hbound _ (List.getElem_mem hlt)
      rw [Fits, dif_neg (by omega)]
      simp only [hmiddle, if_true, hcount]
      refine ⟨by omega, ihLeft hleft ?_ ?_, by omega, ihRight hright ?_ ?_⟩
      · intro value hvalue
        exact WithTop.coe_lt_coe.mpr (hbelow value hvalue)
      · rw [List.length_take, min_eq_left hlt.le]
        omega
      · intro value hvalue
        exact hbound value (List.mem_of_mem_drop hvalue)
      · rw [List.length_drop]
        omega

/-! ## Trees built by insertion -/

theorem toTree_insertAll (self : Leet1382BST α) (values : List α) :
    (self.insertAll values).toTree = grow self.toTree values := by
  induction values generalizing self with
  | nil => rfl
  | cons value values ih =>
      show ((self.insert value).insertAll values).toTree = _
      rw [ih, toTree_insert]
      rfl

theorem insertAll_shows (value : α) (rest : List α) :
    Shows ((construct value).insertAll rest).inorderTraversal
      (value :: rest : List α) := by
  rw [← inorder_toTree, toTree_insertAll]
  have hsingle : InOrder (construct value).toTree.inorder :=
    List.pairwise_singleton _ _
  obtain ⟨horder, hperm⟩ := grow_adds rest hsingle
  refine ⟨horder, Multiset.coe_eq_coe.mpr (hperm.trans ?_)⟩
  exact List.perm_append_singleton value rest

theorem fits_of_nodup {value : α} {rest : List α}
    (hnodup : (value :: rest).Nodup) :
    Fits ⊤ (Nat.log 2 (rest.length + 1) + 1)
      (((value :: rest : List α) : Multiset α).sort (· ≤ ·)) := by
  have hsorted := Multiset.pairwise_sort
    ((value :: rest : List α) : Multiset α) (· ≤ ·)
  have hperm : (((value :: rest : List α) : Multiset α).sort (· ≤ ·)).Perm
      (value :: rest) := by
    apply Multiset.coe_eq_coe.mp
    rw [Multiset.sort_eq]
  have hdistinct := hperm.nodup_iff.mpr hnodup
  apply fits_of_lt
  · apply (hsorted.and hdistinct).imp
    rintro earlier later ⟨hle, hne⟩
    exact lt_of_le_of_ne hle hne
  · intro other _
    exact WithTop.coe_lt_top other
  · rw [Multiset.length_sort, leastHeight, if_neg (by simp)]
    exact le_rfl

/-- Balancing a tree built by insertion keeps the in-order list and reaches the
least height exactly when the copies of the middles find room. -/
theorem balance_least_iff_fits (value : α) (rest : List α) :
    let self := (construct value).insertAll rest
    (self.balance.inorderTraversal = self.inorderTraversal ∧
        self.balance.maxdepth = Nat.log 2 (rest.length + 1) + 1) ↔
      Fits ⊤ (Nat.log 2 (rest.length + 1) + 1)
        (((value :: rest : List α) : Multiset α).sort (· ≤ ·)) := by
  intro self
  have hshows := insertAll_shows value rest
  have hlength : self.balance.inorderTraversal.length = rest.length + 1 := by
    rw [balance_inorderTraversal hshows.1, hshows.eq_sort,
      Multiset.length_sort]
    rfl
  have hleast := self.balance.leastHeight_le_maxdepth
  rw [hlength, leastHeight, if_neg (Nat.succ_ne_zero _)] at hleast
  rw [← hshows.eq_sort, ← maxdepth_balance_le_iff hshows.1]
  constructor
  · rintro ⟨-, hdepth⟩
    exact hdepth.le
  · intro hdepth
    exact ⟨balance_inorderTraversal hshows.1, le_antisymm hdepth hleast⟩

/-- The second 5 goes above the right half, and the tree has a level too many.
Inserted after the 6, it would have found room. -/
theorem not_balance_least_middle_twice :
    let self := (construct (5 : ℕ)).insertAll [1, 5, 6, 7]
    let other := (construct (5 : ℕ)).insertAll [1, 6, 5, 7]
    ¬ (self.balance.inorderTraversal = self.inorderTraversal ∧
        self.balance.maxdepth = Nat.log 2 5 + 1) ∧
      other.inorderTraversal = self.inorderTraversal ∧
      other.maxdepth = Nat.log 2 5 + 1 := by
  decide +kernel

/-! ## Search -/

theorem step_inOrder {self : Leet1382BST α}
    (horder : InOrder self.inorderTraversal) (c : Call α) :
    InOrder (self.step c).inorderTraversal := by
  cases c with
  | insert value =>
      show InOrder (self.insert value).toTree.inorder
      rw [toTree_insert]
      exact (BST.Tree.insert_adds horder value).inOrder
  | balance => exact self.balance_inOrder_perm.1

theorem runCalls_inOrder {self : Leet1382BST α}
    (horder : InOrder self.inorderTraversal) (calls : List (Call α)) :
    InOrder (self.runCalls calls).inorderTraversal := by
  induction calls generalizing self with
  | nil => exact horder
  | cons c calls ih => exact ih (step_inOrder horder c)

omit [LinearOrder α] in
theorem mem_inorderTraversal {self : Leet1382BST α} {value : α} :
    value ∈ self.inorderTraversal ↔
      value ∈ self.left.inorder ∨ value = self.value ∨
        value ∈ self.right.inorder := by
  rw [inorderTraversal_eq, List.mem_append, List.mem_cons]

/-- The value stands at the root, or the side where it belongs is `None`. -/
def SettledAtRoot (self : Leet1382BST α) (value : α) : Prop :=
  value = self.value ∨ value < self.value ∧ self.left = .nil ∨
    self.value < value ∧ self.right = .nil

theorem find_settled {self : Leet1382BST α}
    (horder : InOrder self.inorderTraversal) {value : α}
    (hsettled : self.SettledAtRoot value) :
    self.find value = some (decide (value ∈ self.inorderTraversal)) := by
  rw [inorderTraversal_eq] at horder
  rcases inOrder_node_iff.mp horder with ⟨-, -, hle, hge⟩
  rw [find, toTree, findIn.eq_def]
  rcases hsettled with heq | ⟨hlt, hnone⟩ | ⟨hgt, hnone⟩
  · have hmem : value ∈ self.inorderTraversal :=
      mem_inorderTraversal.mpr (Or.inr (Or.inl heq))
    simp [heq.le.not_gt, heq.ge.not_gt, hmem]
  · have hmem : value ∉ self.inorderTraversal := by
      rw [mem_inorderTraversal, hnone]
      rintro (hleft | heq | hright)
      · exact List.not_mem_nil hleft
      · exact hlt.ne heq
      · exact hlt.not_ge (hge value hright)
    simp [hlt, hnone, hmem]
  · have hmem : value ∉ self.inorderTraversal := by
      rw [mem_inorderTraversal, hnone]
      rintro (hleft | heq | hright)
      · exact hgt.not_ge (hle value hleft)
      · exact hgt.ne' heq
      · exact List.not_mem_nil hright
    simp [hgt, hgt.not_gt, hnone, hmem]

theorem find_of_not_settled {self : Leet1382BST α} {value : α}
    (hsettled : ¬ self.SettledAtRoot value) : self.find value = none := by
  obtain ⟨root, left, right⟩ := self
  unfold SettledAtRoot at hsettled
  rw [find, toTree, findIn.eq_def]
  rcases lt_trichotomy value root with hlt | heq | hgt
  · cases left with
    | nil => exact absurd (Or.inr (Or.inl ⟨hlt, rfl⟩)) hsettled
    | node leftValue leftLeft leftRight => simp [hlt, notReturned]
  · exact absurd (Or.inl heq) hsettled
  · cases right with
    | nil => exact absurd (Or.inr (Or.inr ⟨hgt, rfl⟩)) hsettled
    | node rightValue rightLeft rightRight =>
        simp [hgt, hgt.not_gt, notReturned]

/-- After insertions and balancing in any order, `find` answers whether a value
occurs exactly when it has its answer at the root. -/
theorem find_iff_settledAtRoot (first : α) (calls : List (Call α))
    (value : α) :
    let self := (construct first).runCalls calls
    self.find value = some (decide (value ∈ self.inorderTraversal)) ↔
      self.SettledAtRoot value := by
  intro self
  have hfirst : InOrder (construct first).inorderTraversal :=
    List.pairwise_singleton _ _
  have horder := runCalls_inOrder hfirst calls
  constructor
  · intro hfind
    by_contra hsettled
    rw [find_of_not_settled hsettled] at hfind
    cases hfind
  · exact find_settled horder

/-- A value in the left child of the root. -/
theorem find_left_child :
    let self := (construct (5 : ℕ)).runCalls [.insert 3]
    ¬ self.find 3 = some (decide (3 ∈ self.inorderTraversal)) := by
  decide

end Leet1382BST
end TradingStudies
