import TradingStudies.BSTContents

/-!
# The search tree of `Leet/leet1382_bst.py`

An object of the class is a node: a tree is never empty, and a side which is
`None` is the empty tree of `Leet/bst.py`.  `insert` compares as the class of
that file does, equal values going to the right, and the in-order walks are the
same.  `balance` is not: it inserts the middles of the slices of the in-order
list into a new tree, each one from the root.

A function without a `return` on its way returns `None`.
-/

namespace TradingStudies

/-- An object of the class `BST` of `leet1382_bst.py`. -/
structure Leet1382BST (α : Type*) where
  value : α
  left : BST.Tree α
  right : BST.Tree α
  deriving DecidableEq, Repr

namespace Leet1382BST

variable {α : Type*}

/-- `BST(value)`. -/
def construct (value : α) : Leet1382BST α := ⟨value, .nil, .nil⟩

/-- The object as a tree which may be `None`. -/
def toTree (self : Leet1382BST α) : BST.Tree α :=
  .node self.value self.left self.right

def inorderTraversal (self : Leet1382BST α) : List α :=
  self.toTree.inorderTraversal []

/-- A side which is `None` has height 0. -/
def maxdepth (self : Leet1382BST α) : ℕ :=
  1 + max self.left.height self.right.height

theorem maxdepth_eq_height (self : Leet1382BST α) :
    self.maxdepth = self.toTree.height := rfl

theorem inorder_toTree (self : Leet1382BST α) :
    self.toTree.inorder = self.inorderTraversal := rfl

theorem inorderTraversal_eq (self : Leet1382BST α) :
    self.inorderTraversal =
      self.left.inorder ++ self.value :: self.right.inorder :=
  BST.Tree.inorder_node self.value self.left self.right

theorem middle_lt (self : Leet1382BST α) :
    self.inorderTraversal.length / 2 < self.inorderTraversal.length := by
  rw [inorderTraversal_eq, List.length_append, List.length_cons]
  omega

variable [LinearOrder α]

/-- A side which is `None` becomes a new node. -/
def insert (self : Leet1382BST α) (value : α) : Leet1382BST α :=
  if value < self.value then { self with left := self.left.insert value }
  else { self with right := self.right.insert value }

def insertAll (self : Leet1382BST α) (values : List α) : Leet1382BST α :=
  values.foldl insert self

/-- A recursive call as a statement, whose value is not returned. -/
def notReturned (_ : Option Bool) : Option Bool := none

/-- `find` below the root, where it is called on nodes only.  `none` is the
`None` of a function that ends without a `return`. -/
def findIn : BST.Tree α → α → Option Bool
  | .nil, _ => none
  | .node nodeValue left right, value =>
      if value < nodeValue then
        match left with
        | .nil => some false
        | .node _ _ _ => notReturned (findIn left value)
      else if nodeValue < value then
        match right with
        | .nil => some false
        | .node _ _ _ => notReturned (findIn right value)
      else some true

def find (self : Leet1382BST α) (value : α) : Option Bool :=
  findIn self.toTree value

/-- `__balance(tree, lst)`. -/
def balanceInto (tree : Leet1382BST α) (lst : List α) : Leet1382BST α :=
  if hzero : lst.length = 0 then tree
  else if hone : lst.length = 1 then tree.insert lst[0]
  else if htwo : lst.length = 2 then (tree.insert lst[0]).insert lst[1]
  else
    balanceInto
      (balanceInto (tree.insert lst[lst.length / 2])
        (lst.take (lst.length / 2)))
      (lst.drop (lst.length / 2 + 1))
termination_by lst.length
decreasing_by
  · rw [List.length_take]
    omega
  · rw [List.length_drop]
    omega

def balance (self : Leet1382BST α) : Leet1382BST α :=
  let lst := self.inorderTraversal
  let middle := lst.length / 2
  let bst := construct (lst.get ⟨middle, self.middle_lt⟩)
  let rest := lst.eraseIdx middle
  balanceInto (balanceInto bst (rest.take middle)) (rest.drop middle)

/-- A call which changes the object a program holds: `balance` replaces it. -/
inductive Call (α : Type*)
  | insert (value : α)
  | balance
  deriving DecidableEq, Repr

def step (self : Leet1382BST α) : Call α → Leet1382BST α
  | .insert value => self.insert value
  | .balance => self.balance

def runCalls (self : Leet1382BST α) (calls : List (Call α)) :
    Leet1382BST α :=
  calls.foldl step self

end Leet1382BST
end TradingStudies
