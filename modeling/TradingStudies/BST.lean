import TradingStudies.Library.SearchOrder
import TradingStudies.Library.StepSystem

/-!
# The binary search tree of `Leet/bst.py`

`None` is the empty tree.  `insert` and `delete` walk down by comparisons;
`balance` writes the values of the tree into a list and builds a new tree from
it, taking the middle of each range of positions as a root.

A function which may read an attribute of `None`, or a position that the list
does not have, returns `none` there: it raises.
-/

namespace TradingStudies
namespace BST

inductive Tree (α : Type*)
  | nil
  | node (value : α) (left right : Tree α)
  deriving DecidableEq, Repr

namespace Tree

variable {α : Type*}

/-- The value of `BST.__min`. -/
def min : Tree α → Option α
  | nil => none
  | node value nil _ => some value
  | node _ (node value left right) _ => min (node value left right)

/-- `BST.__inorder_traversal`, which appends to `lst`. -/
def inorderTraversal : Tree α → List α → List α
  | nil, lst => lst
  | node value left right, lst =>
      inorderTraversal right (inorderTraversal left lst ++ [value])

/-- `order[index]`, where a negative index counts from the end. -/
def item (order : List α) (index : ℤ) : Option α :=
  if 0 ≤ index then order[index.toNat]?
  else if 0 ≤ index + order.length then order[(index + order.length).toNat]?
  else none

/-- `BST.__balance`. -/
def balance (order : List α) (left right : ℤ) : Option (Tree α) :=
  if right - left < 0 then some nil
  else
    let mid := (right - left) / 2 + left
    (item order mid).bind fun value =>
      (balance order (mid + 1) right).bind fun rightTree =>
        (balance order left (mid - 1)).bind fun leftTree =>
          some (node value leftTree rightTree)
termination_by (right + 1 - left).toNat
decreasing_by all_goals omega

variable [LinearOrder α]

/-- `BST.insert` and `BST.__insert`, which look one step ahead for `None`. -/
def insert : Tree α → α → Tree α
  | nil, value => node value nil nil
  | node parentValue left right, value =>
      if value < parentValue then node parentValue (insert left value) right
      else node parentValue left (insert right value)

/-- `BST.__delete`. -/
def delete : Tree α → α → Option (Tree α)
  | nil, _ => some nil
  | node parentValue left right, value =>
      if parentValue < value then
        (delete right value).map fun right => node parentValue left right
      else if value < parentValue then
        (delete left value).map fun left => node parentValue left right
      else
        match left, right with
        | nil, right => some right
        | left, nil => some left
        | left, right =>
            (min right).bind fun successor =>
              (delete right successor).map fun right =>
                node successor left right

end Tree

end BST

structure BST (α : Type*) where
  root : BST.Tree α
  deriving DecidableEq, Repr

namespace BST

variable {α : Type*}

def construct (α : Type*) : BST α := ⟨.nil⟩

def inorderTraversal (self : BST α) : List α :=
  self.root.inorderTraversal []

def balance (self : BST α) : Option (BST α) :=
  let order := self.inorderTraversal
  (Tree.balance order 0 ((order.length : ℤ) - 1)).map BST.mk

/-- One use of the class. -/
inductive Call (α : Type*)
  | insert (value : α)
  | delete (value : α)
  | balance
  deriving DecidableEq, Repr

variable [LinearOrder α]

def insert (self : BST α) (value : α) : BST α :=
  ⟨self.root.insert value⟩

def delete (self : BST α) (value : α) : Option (BST α) :=
  (self.root.delete value).map BST.mk

/-- A call that raises has no next state. -/
def step (self : BST α) : Call α → Option (BST α)
  | .insert value => some (self.insert value)
  | .delete value => self.delete value
  | .balance => self.balance

/-- The purpose of the class: a multiset of values. -/
def recordCall (values : Multiset α) : Call α → Multiset α
  | .insert value => value ::ₘ values
  | .delete value => values.erase value
  | .balance => values

def contents (calls : List (Call α)) : Multiset α := calls.foldl recordCall 0

namespace Tree

omit [LinearOrder α]

/-- The list which the walk of a tree writes. -/
def inorder (tree : Tree α) : List α := tree.inorderTraversal []

theorem inorderTraversal_eq (tree : Tree α) (lst : List α) :
    tree.inorderTraversal lst = lst ++ tree.inorder := by
  unfold inorder
  induction tree generalizing lst with
  | nil => simp [inorderTraversal]
  | node value left right ihLeft ihRight =>
      simp only [inorderTraversal]
      rw [ihRight, ihLeft, ihRight (inorderTraversal left [] ++ [value])]
      simp

@[simp] theorem inorder_nil : (nil : Tree α).inorder = [] := rfl

@[simp] theorem inorder_node (value : α) (left right : Tree α) :
    (node value left right).inorder =
      left.inorder ++ value :: right.inorder := by
  show inorderTraversal right (inorderTraversal left [] ++ [value]) = _
  rw [inorderTraversal_eq right, inorderTraversal_eq left]
  simp

theorem min_eq_head? (tree : Tree α) : tree.min = tree.inorder.head? := by
  induction tree with
  | nil => rfl
  | node value left right ihLeft ihRight =>
      cases left with
      | nil => simp [min]
      | node leftValue leftLeft leftRight =>
          rw [min, ihLeft, inorder_node]
          simp

end Tree

end BST
end TradingStudies
