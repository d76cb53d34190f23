import TradingStudies.BSTTraversals

/-!
# The same tree with shared nodes

`Leet/leet1382_bst.cpp` holds its nodes by `std::shared_ptr`, and no node has
two owners.  Unlike `Leet/bst.py`, its walks look for a null pointer before they
go down and not when they arrive, so that they read through a null pointer where
the tree is empty; such a read has no outcome here, and neither has a read past
the end of a vector.
-/

namespace TradingStudies
namespace Leet1382SharedBST

variable {α : Type*}

/-- `parent.get()`, as a condition. -/
def get : BST.Tree α → Bool
  | .nil => false
  | .node _ _ _ => true

def inorderTraversal : BST.Tree α → List α → Option (List α)
  | .nil, _ => none
  | .node value left right, vec =>
      (if get left then inorderTraversal left vec else some vec).bind
        fun vec =>
          if get right then inorderTraversal right (vec ++ [value])
          else some (vec ++ [value])

def preorderTraversal : BST.Tree α → List α → Option (List α)
  | .nil, _ => none
  | .node value left right, vec =>
      (if get left then preorderTraversal left (vec ++ [value])
        else some (vec ++ [value])).bind fun vec =>
          if get right then preorderTraversal right vec else some vec

def postorderTraversal : BST.Tree α → List α → Option (List α)
  | .nil, _ => none
  | .node value left right, vec =>
      (if get left then postorderTraversal left vec else some vec).bind
        fun vec =>
          (if get right then postorderTraversal right vec else some vec).map
            fun vec => vec ++ [value]

def depth : BST.Tree α → Option ℤ
  | .nil => none
  | .node _ left right =>
      (if get left then depth left else some 0).bind fun d1 =>
        (if get right then depth right else some 0).map fun d2 =>
          1 + (if d1 > d2 then d1 else d2)

/-- `order[index]` -/
def item (order : List α) (index : ℤ) : Option α :=
  if 0 ≤ index then order[index.toNat]? else none

theorem tdiv_two_bounds (left right : ℤ) :
    (left ≤ right → (right - left).tdiv 2 = (right - left) / 2) ∧
      (right < left → right - left < (right - left).tdiv 2 ∧
        (right - left).tdiv 2 ≤ 0) := by
  constructor
  · intro hle
    exact Int.tdiv_eq_ediv_of_nonneg (by omega)
  · intro hlt
    have hneg : (right - left).tdiv 2 = -((left - right) / 2) := by
      rw [← Int.tdiv_eq_ediv_of_nonneg (by omega), ← Int.neg_tdiv,
        Int.neg_sub]
    omega

/-- `__balance` -/
def balance (order : List α) (left right : ℤ) : Option (BST.Tree α) :=
  let mid := (right - left).tdiv 2 + left
  (item order mid).bind fun value =>
    (if (mid - 1) - left ≥ 0 then balance order left (mid - 1)
      else some .nil).bind fun leftTree =>
        (if right - (mid + 1) ≥ 0 then balance order (mid + 1) right
          else some .nil).map fun rightTree => .node value leftTree rightTree
termination_by (right + 1 - left).toNat
decreasing_by
  all_goals
    have hbounds := tdiv_two_bounds left right
    omega

/-- `(int)inorder.size()-1`, unless the difference overflows. -/
def lastIndex (size : ℕ) : Option ℤ :=
  let last : ℤ := Int.bmod size (2 ^ 32) - 1
  if last < -2 ^ 31 then none else some last

def balanceTree (root : BST.Tree α) : Option (BST.Tree α) :=
  (inorderTraversal root []).bind fun inorder =>
    (lastIndex inorder.length).bind fun last => balance inorder 0 last

variable [LinearOrder α]

/-- `__insert` -/
def insertUnder : BST.Tree α → α → Option (BST.Tree α)
  | .nil, _ => none
  | .node parentValue left right, value =>
      if parentValue > value then
        if get left then
          (insertUnder left value).map fun left =>
            .node parentValue left right
        else some (.node parentValue (.node value .nil .nil) right)
      else if get right then
        (insertUnder right value).map fun right =>
          .node parentValue left right
      else some (.node parentValue left (.node value .nil .nil))

def insert (root : BST.Tree α) (value : α) : Option (BST.Tree α) :=
  if get root then insertUnder root value
  else some (.node value .nil .nil)

inductive Call (α : Type*)
  | insert (value : α)
  | balanceTree
  deriving DecidableEq, Repr

def Call.toCall : Call α → BST.Call α
  | .insert value => .insert value
  | .balanceTree => .balance

def step (root : BST.Tree α) : Call α → Option (BST.Tree α)
  | .insert value => insert root value
  | .balanceTree => balanceTree root

/-! ## One walk -/

section Walks

omit [LinearOrder α]

/-- What a walk does with a child, which may be null. -/
theorem child_eq {Result : Type*} {child : BST.Tree α}
    {walked : Option Result} {start last : Result}
    (hwalked : walked = if get child then some last else none)
    (hnull : get child = false → start = last) :
    (if get child then walked else some start) = some last := by
  cases hget : get child with
  | false => exact congrArg some (hnull hget)
  | true =>
      rw [hwalked, hget]
      rfl

theorem eq_nil_of_get {root : BST.Tree α} (hget : get root = false) :
    root = .nil := by
  cases root with
  | nil => rfl
  | node value left right => cases hget

theorem inorderTraversal_eq (root : BST.Tree α) (vec : List α) :
    inorderTraversal root vec =
      if get root then some (root.inorderTraversal vec) else none := by
  induction root generalizing vec with
  | nil => rfl
  | node value left right ihLeft ihRight =>
      rw [inorderTraversal, child_eq (ihLeft vec), Option.bind_some,
        child_eq (ihRight _)]
      · rfl
      · intro hget
        rw [eq_nil_of_get hget]
        rfl
      · intro hget
        rw [eq_nil_of_get hget]
        rfl

theorem preorderTraversal_eq (root : BST.Tree α) (vec : List α) :
    preorderTraversal root vec =
      if get root then some (root.preorderTraversal vec) else none := by
  induction root generalizing vec with
  | nil => rfl
  | node value left right ihLeft ihRight =>
      rw [preorderTraversal, child_eq (ihLeft _), Option.bind_some,
        child_eq (ihRight _)]
      · rfl
      · intro hget
        rw [eq_nil_of_get hget]
        rfl
      · intro hget
        rw [eq_nil_of_get hget]
        rfl

theorem postorderTraversal_eq (root : BST.Tree α) (vec : List α) :
    postorderTraversal root vec =
      if get root then some (root.postorderTraversal vec) else none := by
  induction root generalizing vec with
  | nil => rfl
  | node value left right ihLeft ihRight =>
      rw [postorderTraversal, child_eq (ihLeft vec), Option.bind_some,
        child_eq (ihRight _)]
      · rfl
      · intro hget
        rw [eq_nil_of_get hget]
        rfl
      · intro hget
        rw [eq_nil_of_get hget]
        rfl

theorem depth_eq (root : BST.Tree α) :
    depth root = if get root then some (root.height : ℤ) else none := by
  induction root with
  | nil => rfl
  | node value left right ihLeft ihRight =>
      rw [depth, child_eq ihLeft, Option.bind_some, child_eq ihRight]
      · show some (1 + if (left.height : ℤ) > right.height then _ else _) =
          some ((1 + max left.height right.height : ℕ) : ℤ)
        congr 1
        split <;> omega
      · intro hget
        rw [eq_nil_of_get hget]
        rfl
      · intro hget
        rw [eq_nil_of_get hget]
        rfl

/-- A range that is not empty is divided at the same position. -/
theorem balance_eq (order : List α) {left right : ℤ} (hleft : 0 ≤ left)
    (hle : left ≤ right) :
    balance order left right = BST.Tree.balance order left right := by
  induction hsize : (right + 1 - left).toNat using Nat.strong_induction_on
    generalizing left right with
  | _ size ih =>
      have hmid := (tdiv_two_bounds left right).1 hle
      have hitem : item order ((right - left) / 2 + left) =
          BST.Tree.item order ((right - left) / 2 + left) := by
        unfold item BST.Tree.item
        rw [if_pos (by omega), if_pos (by omega)]
      have hbefore : (if (right - left) / 2 + left - 1 - left ≥ 0 then
            balance order left ((right - left) / 2 + left - 1)
          else some .nil) =
          BST.Tree.balance order left ((right - left) / 2 + left - 1) := by
        split
        · exact ih _ (by omega) hleft (by omega) rfl
        · rw [BST.Tree.balance, if_pos (by omega)]
      have hafter : (if right - ((right - left) / 2 + left + 1) ≥ 0 then
            balance order ((right - left) / 2 + left + 1) right
          else some .nil) =
          BST.Tree.balance order ((right - left) / 2 + left + 1) right := by
        split
        · exact ih _ (by omega) (by omega) (by omega) rfl
        · rw [BST.Tree.balance, if_pos (by omega)]
      conv_rhs => rw [BST.Tree.balance, if_neg (by omega)]
      rw [balance]
      dsimp only
      rw [hmid, hitem, hbefore, hafter]
      -- The two sides are built in the other order.
      cases BST.Tree.balance order left ((right - left) / 2 + left - 1) with
      | none =>
          cases BST.Tree.balance order ((right - left) / 2 + left + 1)
            right <;> rfl
      | some leftTree =>
          cases BST.Tree.balance order ((right - left) / 2 + left + 1)
            right <;> rfl

end Walks

theorem insertUnder_eq (root : BST.Tree α) (value : α) :
    insertUnder root value =
      if get root then some (root.insert value) else none := by
  induction root with
  | nil => rfl
  | node parentValue left right ihLeft ihRight =>
      rw [insertUnder, BST.Tree.insert]
      show _ = some _
      split
      · cases left with
        | nil => rfl
        | node _ _ _ =>
            rw [ihLeft]
            rfl
      · cases right with
        | nil => rfl
        | node _ _ _ =>
            rw [ihRight]
            rfl

theorem insert_eq (root : BST.Tree α) (value : α) :
    insert root value = some (root.insert value) := by
  unfold insert
  rw [insertUnder_eq]
  cases root with
  | nil => rfl
  | node _ _ _ => rfl

/-! ## Whole programs -/

theorem length_insert (root : BST.Tree α) (value : α) :
    (root.insert value).inorder.length = root.inorder.length + 1 := by
  induction root with
  | nil => rfl
  | node parentValue left right ihLeft ihRight =>
      rw [BST.Tree.insert]
      split
      · rw [BST.Tree.inorder_node, BST.Tree.inorder_node, List.length_append,
          List.length_append, ihLeft, List.length_cons]
        omega
      · rw [BST.Tree.inorder_node, BST.Tree.inorder_node, List.length_append,
          List.length_append, List.length_cons, List.length_cons, ihRight]
        omega

omit [LinearOrder α] in
theorem get_eq_true_iff (root : BST.Tree α) :
    get root = true ↔ root ≠ .nil := by
  cases root with
  | nil => exact iff_of_false nofun fun hne => hne rfl
  | node value left right => exact iff_of_true rfl nofun

omit [LinearOrder α] in
theorem inorder_eq_nil_iff (root : BST.Tree α) :
    root.inorder = [] ↔ root = .nil := by
  cases root with
  | nil => exact iff_of_true rfl rfl
  | node value left right =>
      rw [BST.Tree.inorder_node]
      exact iff_of_false (by simp) nofun

omit [LinearOrder α] in
theorem lastIndex_eq {size : ℕ} (hshort : size < 2 ^ 31) :
    lastIndex size = some ((size : ℤ) - 1) := by
  have hcast : Int.bmod size (2 ^ 32) = size := by
    rw [Int.bmod_eq_of_le (by omega) (by omega)]
  unfold lastIndex
  rw [hcast]
  dsimp only
  rw [if_neg (by omega)]

omit [LinearOrder α] in
theorem balanceTree_eq {self : BST α} (hroot : self.root ≠ .nil)
    (hshort : self.root.inorder.length < 2 ^ 31) :
    balanceTree self.root = self.balance.map BST.root := by
  have hpos : 0 < (self.root.inorderTraversal []).length :=
    List.length_pos_iff.mpr fun hnone =>
      hroot ((inorder_eq_nil_iff self.root).mp hnone)
  have hsize : (self.root.inorderTraversal []).length < 2 ^ 31 := hshort
  unfold balanceTree
  rw [inorderTraversal_eq, if_pos ((get_eq_true_iff self.root).mpr hroot),
    Option.bind_some, lastIndex_eq hsize, Option.bind_some,
    balance_eq _ (le_refl 0) (by omega)]
  unfold BST.balance
  rw [Option.map_map]
  exact Option.map_id'.symm

/-- One call, in a tree that a null pointer does not stand for. -/
theorem step_eq {self : BST α} {c : Call α}
    (hroot : self.root ≠ .nil ∨ c ≠ .balanceTree)
    (hshort : self.root.inorder.length < 2 ^ 31) :
    ∃ next : BST α, self.step c.toCall = some next ∧
      step self.root c = some next.root ∧ next.root ≠ .nil ∧
      next.root.inorder.length ≤ self.root.inorder.length + 1 := by
  cases c with
  | insert value =>
      refine ⟨self.insert value, rfl, insert_eq _ _, ?_,
        (length_insert _ _).le⟩
      intro hnil
      have hlength := length_insert self.root value
      have hnone : self.root.insert value = .nil := hnil
      rw [hnone] at hlength
      cases hlength
  | balanceTree =>
      have hne := hroot.resolve_right fun hc => hc rfl
      obtain ⟨next, hbalance, horder, -⟩ := self.balance_spec
      refine ⟨next, hbalance, ?_, ?_, ?_⟩
      · show balanceTree self.root = _
        rw [balanceTree_eq hne hshort, hbalance]
        rfl
      · rwa [Ne, ← inorder_eq_nil_iff, horder, inorder_eq_nil_iff]
      · rw [horder]
        exact Nat.le_succ _

theorem run_eq (calls : List (Call α)) {self : BST α}
    (hroot : self.root ≠ .nil ∨ calls.head? ≠ some .balanceTree)
    (hshort : self.root.inorder.length + calls.length < 2 ^ 31) :
    ∃ last : BST α,
      StepSystem.run BST.step (calls.map Call.toCall) self = some last ∧
      StepSystem.run step calls self.root = some last.root ∧
      last.root.inorder.length < 2 ^ 31 := by
  induction calls generalizing self with
  | nil => exact ⟨self, rfl, rfl, by simpa using hshort⟩
  | cons c rest ih =>
      rw [List.length_cons] at hshort
      have hfirst : self.root ≠ .nil ∨ c ≠ .balanceTree :=
        hroot.imp_right fun hne hc => hne (congrArg some hc)
      obtain ⟨next, habstract, hstep, hne, hlength⟩ :=
        step_eq hfirst (by omega)
      obtain ⟨last, hruns, hrun, hlast⟩ := ih (Or.inl hne) (by omega)
      refine ⟨last, ?_, ?_, hlast⟩
      · rw [List.map_cons, StepSystem.run_cons_of_step habstract]
        exact hruns
      · rw [StepSystem.run_cons_of_step hstep]
        exact hrun

/-- Every program makes the same tree as `Leet/bst.py`, unless it balances a
tree without nodes first; a tree with nodes shows the same three traversals,
and balancing gives it the least depth. -/
theorem leet1382_cpp_agrees (calls : List (Call α))
    (hshort : calls.length < 2 ^ 31) :
    (calls.head? = some .balanceTree → StepSystem.run step calls .nil = none) ∧
      (calls.head? ≠ some .balanceTree → ∃ self : BST α,
        StepSystem.run BST.step (calls.map Call.toCall) (BST.construct α) =
            some self ∧
          StepSystem.run step calls .nil = some self.root ∧
          (self.root ≠ .nil →
            inorderTraversal self.root [] = some self.inorderTraversal ∧
            preorderTraversal self.root [] = some self.preorderTraversal ∧
            postorderTraversal self.root [] = some self.postorderTraversal ∧
            ∃ balanced, step self.root .balanceTree = some balanced ∧
              depth balanced =
                some (Nat.log 2 self.inorderTraversal.length + 1 : ℕ))) := by
  constructor
  · intro hhead
    obtain ⟨rest, rfl⟩ := List.head?_eq_some_iff.mp hhead
    rfl
  · intro hhead
    obtain ⟨self, hruns, hrun, hlength⟩ := @run_eq α _ calls
      (BST.construct α) (Or.inr hhead) ((Nat.zero_add _).trans_lt hshort)
    refine ⟨self, hruns, hrun, ?_⟩
    intro hne
    have hget := (get_eq_true_iff self.root).mpr hne
    obtain ⟨next, hbalance, horder, hheight⟩ := self.balance_spec
    refine ⟨?_, ?_, ?_, next.root, ?_, ?_⟩
    · rw [inorderTraversal_eq, if_pos hget]
      rfl
    · rw [preorderTraversal_eq, if_pos hget]
      rfl
    · rw [postorderTraversal_eq, if_pos hget]
      rfl
    · show balanceTree self.root = _
      rw [balanceTree_eq hne hlength, hbalance]
      rfl
    · have hnext : next.root ≠ .nil := by
        rwa [Ne, ← inorder_eq_nil_iff, horder, inorder_eq_nil_iff]
      have hsize : self.root.inorder.length ≠ 0 := fun hzero =>
        hne ((inorder_eq_nil_iff self.root).mp (List.length_eq_zero_iff.mp hzero))
      rw [depth_eq, if_pos ((get_eq_true_iff next.root).mpr hnext), hheight,
        BST.Tree.leastHeight, if_neg hsize]
      rfl

/-- Three values in ascending order, before and after balancing. -/
theorem leet1382_cpp_agrees_three :
    ∃ self : BST ℕ,
      StepSystem.run step [.insert 1, .insert 2, .insert 3] .nil =
          some self.root ∧
        depth self.root = some 3 ∧
        preorderTraversal self.root [] = some [1, 2, 3] ∧
        ∃ balanced, step self.root .balanceTree = some balanced ∧
          depth balanced = some 2 := by
  obtain ⟨self, -, hrun, hshown⟩ := (leet1382_cpp_agrees
    ([.insert 1, .insert 2, .insert 3] : List (Call ℕ)) (by decide)).2
      (by decide)
  have hroot : self.root =
      .node 1 .nil (.node 2 .nil (.node 3 .nil .nil)) :=
    Option.some.inj (hrun.symm.trans (by decide))
  obtain ⟨-, -, -, balanced, hbalanced, hdepth⟩ := hshown (by rw [hroot]; nofun)
  have horder : self.inorderTraversal = [1, 2, 3] := by
    show self.root.inorderTraversal [] = _
    rw [hroot]
    rfl
  rw [horder] at hdepth
  have hlog : Nat.log 2 ([1, 2, 3] : List ℕ).length = 1 := by
    rw [Nat.log_eq_iff] <;> decide
  rw [hlog] at hdepth
  refine ⟨self, hrun, ?_, ?_, balanced, hbalanced, hdepth⟩
  · rw [hroot]
    rfl
  · rw [hroot]
    rfl

end Leet1382SharedBST
end TradingStudies
