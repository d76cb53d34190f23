import TradingStudies.Library.SearchOrder
import TradingStudies.Library.StepSystem

/-!
# The AVL tree of `Leet/avl.py`

A `Node` keeps its height beside its value and its two children; `None` is the
empty tree.  No node is ever the child of two nodes, so the tree is a value.

A function which may read an attribute of `None` returns `none` there: it
raises.  Both `__insert` and `__delete` end in the same lines, which refresh
the height of the node and rotate by comparing the value of the call with the
value of a child.
-/

namespace TradingStudies
namespace AVL

inductive Tree (α : Type*)
  | nil
  | node (value : α) (left right : Tree α) (height : ℕ)
  deriving DecidableEq, Repr

namespace Tree

variable {α : Type*}

/-- `AVL.height`, which is 0 for `None`. -/
def height : Tree α → ℕ
  | nil => 0
  | node _ _ _ height => height

/-- `node.value`, which raises for `None`. -/
def value? : Tree α → Option α
  | nil => none
  | node value _ _ _ => some value

def rightRotate : Tree α → Tree α
  | node xValue (node yValue yLeft k _) xRight _ =>
      let xHeight := 1 + max k.height xRight.height
      let x := node xValue k xRight xHeight
      node yValue yLeft x (1 + max yLeft.height x.height)
  | x => x

/-- The height of `x` is computed while its new child `y` still has the height
it had above `x`. -/
def leftRotate : Tree α → Tree α
  | node yValue yLeft (node xValue k xRight _) yHeight =>
      let xHeight := 1 + max yHeight xRight.height
      let y := node yValue yLeft k (1 + max yLeft.height k.height)
      node xValue y xRight xHeight
  | y => y

/-- `AVL.get_balance` of a node with these children. -/
def getBalance (left right : Tree α) : ℤ := (left.height : ℤ) - right.height

/-- The node after `parent.height = 1 + max(...)`. -/
def refresh (value : α) (left right : Tree α) : Tree α :=
  node value left right (1 + max left.height right.height)

/-- `condition and test(child.value)`: the value is read only if the condition
holds. -/
def andChild (condition : Prop) [Decidable condition] (child : Tree α)
    (test : α → Bool) : Option Bool :=
  if condition then child.value?.map test else some false

variable [LinearOrder α]

/-- The end of `__insert` and `__delete` at a node with the value
`parentValue` and these children. -/
def rebalance (parentValue : α) (left right : Tree α) (value : α) :
    Option (Tree α) :=
  let parent := refresh parentValue left right
  let balance := getBalance left right
  (andChild (1 < balance) left fun child => value < child).bind fun rotates =>
  if rotates then some (rightRotate parent)
  else
  (andChild (balance < -1) right fun child => child < value).bind fun rotates =>
  if rotates then some (leftRotate parent)
  else
  (andChild (1 < balance) left fun child => child < value).bind fun rotates =>
  if rotates then
    some (rightRotate
      (node parentValue (leftRotate left) right parent.height))
  else
  (andChild (balance < -1) right fun child => value < child).bind fun rotates =>
  if rotates then
    some (leftRotate
      (node parentValue left (rightRotate right) parent.height))
  else some parent

/-- `AVL.__insert`. -/
def insert : Tree α → α → Option (Tree α)
  | nil, value => some (node value nil nil 1)
  | node parentValue left right _, value =>
      if parentValue < value then
        (insert right value).bind fun right =>
          rebalance parentValue left right value
      else
        (insert left value).bind fun left =>
          rebalance parentValue left right value

omit [LinearOrder α] in
/-- The value of `AVL.__find_min`. -/
def findMin : Tree α → Option α
  | nil => none
  | node value nil _ _ => some value
  | node _ (node value left right height) _ _ =>
      findMin (node value left right height)

/-- `AVL.__delete`. -/
def delete : Tree α → α → Option (Tree α)
  | nil, _ => some nil
  | node parentValue left right _, value =>
      if parentValue < value then
        (delete right value).bind fun right =>
          rebalance parentValue left right value
      else if value < parentValue then
        (delete left value).bind fun left =>
          rebalance parentValue left right value
      else
        match left, right with
        | nil, right => some right
        | left, nil => some left
        | left, right =>
            (findMin right).bind fun successor =>
              (delete right successor).bind fun right =>
                rebalance successor left right value

omit [LinearOrder α] in
/-- `AVL.__inorder_traversal`, which appends to `lst`. -/
def inorderTraversal : Tree α → List α → List α
  | nil, lst => lst
  | node value left right _, lst =>
      inorderTraversal right (inorderTraversal left lst ++ [value])

end Tree

end AVL

structure AVL (α : Type*) where
  root : AVL.Tree α
  deriving DecidableEq, Repr

namespace AVL

variable {α : Type*}

def construct (α : Type*) : AVL α := ⟨.nil⟩

def inorderTraversal (self : AVL α) : List α :=
  self.root.inorderTraversal []

/-- One use of the class. -/
inductive Call (α : Type*)
  | insert (value : α)
  | delete (value : α)
  deriving DecidableEq, Repr

variable [LinearOrder α]

def insert (self : AVL α) (value : α) : Option (AVL α) :=
  (self.root.insert value).map AVL.mk

def delete (self : AVL α) (value : α) : Option (AVL α) :=
  match self.root with
  | .nil => some self
  | root => (root.delete value).map AVL.mk

/-- A call that raises has no next state. -/
def step (self : AVL α) : Call α → Option (AVL α)
  | .insert value => self.insert value
  | .delete value => self.delete value

/-- The purpose of the class: a multiset of values. -/
def recordCall (values : Multiset α) : Call α → Multiset α
  | .insert value => value ::ₘ values
  | .delete value => values.erase value

def contents (calls : List (Call α)) : Multiset α := calls.foldl recordCall 0

/-! ## The in-order list -/

namespace Tree

/-- The list which the walk of a tree writes. -/
def inorder (tree : Tree α) : List α := tree.inorderTraversal []

omit [LinearOrder α]

theorem inorderTraversal_eq (tree : Tree α) (lst : List α) :
    tree.inorderTraversal lst = lst ++ tree.inorder := by
  unfold inorder
  induction tree generalizing lst with
  | nil => simp [inorderTraversal]
  | node value left right height ihLeft ihRight =>
      simp only [inorderTraversal]
      rw [ihRight, ihLeft, ihRight (inorderTraversal left [] ++ [value])]
      simp

@[simp] theorem inorder_nil : (nil : Tree α).inorder = [] := rfl

@[simp] theorem inorder_node (value : α) (left right : Tree α) (height : ℕ) :
    (node value left right height).inorder =
      left.inorder ++ value :: right.inorder := by
  show inorderTraversal right (inorderTraversal left [] ++ [value]) = _
  rw [inorderTraversal_eq right, inorderTraversal_eq left]
  simp

/-! ## Rotations keep the in-order list -/

@[simp] theorem inorder_refresh (value : α) (left right : Tree α) :
    (refresh value left right).inorder =
      left.inorder ++ value :: right.inorder :=
  inorder_node _ _ _ _

@[simp] theorem inorder_rightRotate (tree : Tree α) :
    (rightRotate tree).inorder = tree.inorder := by
  cases tree with
  | nil => rfl
  | node xValue left xRight xHeight =>
      cases left with
      | nil => rfl
      | node yValue yLeft k yHeight => simp [rightRotate]

@[simp] theorem inorder_leftRotate (tree : Tree α) :
    (leftRotate tree).inorder = tree.inorder := by
  cases tree with
  | nil => rfl
  | node yValue yLeft right yHeight =>
      cases right with
      | nil => rfl
      | node xValue k xRight xHeight => simp [leftRotate]

/-! ## What the end of a call does -/

theorem exists_value_of_height_pos {tree : Tree α} (hheight : 0 < tree.height) :
    ∃ value, tree.value? = some value := by
  cases tree with
  | nil => exact absurd hheight (lt_irrefl 0)
  | node value left right height => exact ⟨value, rfl⟩

theorem andChild_of_not {condition : Prop} [Decidable condition]
    (hcondition : ¬ condition) (child : Tree α) (test : α → Bool) :
    andChild condition child test = some false :=
  if_neg hcondition

theorem andChild_of_value {condition : Prop} [Decidable condition]
    (hcondition : condition) {child : Tree α} {value : α}
    (hvalue : child.value? = some value) (test : α → Bool) :
    andChild condition child test = some (test value) := by
  rw [andChild, if_pos hcondition, hvalue, Option.map_some]

end Tree

/-- How `rebalance` may end.  A child whose value is compared is there. -/
inductive Rebalanced [LinearOrder α] (parentValue : α) (left right : Tree α)
    (value : α) : Tree α → Prop
  | kept
      (hkept : (left.height ≤ right.height + 1 ∨
          left.value? = some value) ∧
        (right.height ≤ left.height + 1 ∨ right.value? = some value)) :
      Rebalanced parentValue left right value
        (Tree.refresh parentValue left right)
  | leftLeft {child : α} (hbalance : right.height + 1 < left.height)
      (hchild : left.value? = some child) (hvalue : value < child) :
      Rebalanced parentValue left right value
        (Tree.rightRotate (Tree.refresh parentValue left right))
  | rightRight {child : α} (hbalance : left.height + 1 < right.height)
      (hchild : right.value? = some child) (hvalue : child < value) :
      Rebalanced parentValue left right value
        (Tree.leftRotate (Tree.refresh parentValue left right))
  | leftRight {child : α} (hbalance : right.height + 1 < left.height)
      (hchild : left.value? = some child) (hvalue : child < value) :
      Rebalanced parentValue left right value
        (Tree.rightRotate (.node parentValue (Tree.leftRotate left) right
          (1 + max left.height right.height)))
  | rightLeft {child : α} (hbalance : left.height + 1 < right.height)
      (hchild : right.value? = some child) (hvalue : value < child) :
      Rebalanced parentValue left right value
        (Tree.leftRotate (.node parentValue left (Tree.rightRotate right)
          (1 + max left.height right.height)))

/-- `rebalance` never raises, whatever the stored heights are. -/
theorem rebalance_spec (parentValue : α) (left right : Tree α) (value : α) :
    ∃ tree, Tree.rebalance parentValue left right value = some tree ∧
      Rebalanced parentValue left right value tree := by
  unfold Tree.rebalance
  by_cases hleft : right.height + 1 < left.height
  · -- The left child is there, and the right side is not the heavy one.
    rcases Tree.exists_value_of_height_pos (Nat.zero_lt_of_lt hleft)
      with ⟨child, hchild⟩
    have hpos : 1 < Tree.getBalance left right := by
      unfold Tree.getBalance
      omega
    have hnot : ¬ Tree.getBalance left right < -1 := by
      unfold Tree.getBalance
      omega
    simp only [Tree.andChild_of_value hpos hchild, Tree.andChild_of_not hnot]
    rcases lt_trichotomy value child with hlt | heq | hgt
    · exact ⟨_, by simp [hlt], .leftLeft hleft hchild hlt⟩
    · refine ⟨_, by simp [heq], .kept ⟨Or.inr ?_, Or.inl (by omega)⟩⟩
      rw [hchild, heq]
    · exact ⟨_, by simp [hgt, hgt.not_gt]; rfl, .leftRight hleft hchild hgt⟩
  · have hnotLeft : ¬ 1 < Tree.getBalance left right := by
      unfold Tree.getBalance
      omega
    by_cases hright : left.height + 1 < right.height
    · rcases Tree.exists_value_of_height_pos (Nat.zero_lt_of_lt hright)
        with ⟨child, hchild⟩
      have hneg : Tree.getBalance left right < -1 := by
        unfold Tree.getBalance
        omega
      simp only [Tree.andChild_of_value hneg hchild,
        Tree.andChild_of_not hnotLeft]
      rcases lt_trichotomy value child with hlt | heq | hgt
      · exact ⟨_, by simp [hlt, hlt.not_gt]; rfl, .rightLeft hright hchild hlt⟩
      · refine ⟨_, by simp [heq], .kept ⟨Or.inl (by omega), Or.inr ?_⟩⟩
        rw [hchild, heq]
      · exact ⟨_, by simp [hgt], .rightRight hright hchild hgt⟩
    · have hnotRight : ¬ Tree.getBalance left right < -1 := by
        unfold Tree.getBalance
        omega
      simp only [Tree.andChild_of_not hnotLeft, Tree.andChild_of_not hnotRight]
      exact ⟨_, by simp, .kept ⟨Or.inl (by omega), Or.inl (by omega)⟩⟩

theorem Rebalanced.inorder {parentValue : α} {left right tree : Tree α}
    {value : α} (hrebalanced : Rebalanced parentValue left right value tree) :
    tree.inorder = left.inorder ++ parentValue :: right.inorder := by
  cases hrebalanced with
  | kept hkept => simp
  | leftLeft hbalance hchild hvalue => simp
  | rightRight hbalance hchild hvalue => simp
  | leftRight hbalance hchild hvalue => simp
  | rightLeft hbalance hchild hvalue => simp

end AVL
end TradingStudies
