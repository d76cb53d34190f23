import TradingStudies.AVLContents

/-!
# The balance of the AVL tree

Two slips of `Leet/avl.py` decide when the tree stays balanced.  `left_rotate`
computes the height of the new root while its left child still has the height
of the old root, so the stored height is wrong unless a right rotation follows
at once.  `__delete` chooses between a single and a double rotation by the
value it has deleted, and so always takes the double one on the left.

`grows` and `shrinks` say beforehand whether a call changes the height of a
subtree; `insertSafe` and `deleteSafe` say with their help that a call meets
neither slip.
-/

namespace TradingStudies
namespace AVL

open SearchOrder

variable {α : Type*}

namespace Tree

def realHeight : Tree α → ℕ
  | nil => 0
  | node _ left right _ => 1 + max left.realHeight right.realHeight

/-- Stored heights are real heights, and the real heights of the two subtrees
of a node differ by at most one. -/
def Balanced : Tree α → Prop
  | nil => True
  | node _ left right height =>
      height = 1 + max left.realHeight right.realHeight ∧
        left.realHeight ≤ right.realHeight + 1 ∧
        right.realHeight ≤ left.realHeight + 1 ∧
        left.Balanced ∧ right.Balanced

instance Balanced.decidable : ∀ tree : Tree α, Decidable tree.Balanced
  | nil => inferInstanceAs (Decidable True)
  | node _ left right _ =>
      have := Balanced.decidable left
      have := Balanced.decidable right
      inferInstanceAs (Decidable (_ ∧ _))

/-- Whether a node whose left subtree is two levels higher is balanced again
by a left rotation of that subtree and a right rotation of the node. -/
def doubleRotationFits : Tree α → Bool
  | node _ left (node _ innerLeft innerRight height) _ =>
      left.height < height ||
        (left.height = height && innerRight.height ≤ innerLeft.height)
  | _ => true

/-- Whether a node gets lower when its right subtree does. -/
def lowersRight (left right : Tree α) : Bool :=
  match left with
  | nil => true
  | node _ outer inner height =>
      height < right.height ||
        (right.height < height && outer.height ≠ inner.height)

section Conditions

variable [LinearOrder α]

/-- Whether the insertion of a new value makes the tree higher. -/
def grows : Tree α → α → Bool
  | nil, _ => true
  | node parentValue left right _, value =>
      (left.height = right.height) &&
        if parentValue < value then grows right value else grows left value

/-- The insertion of a new value makes no right subtree too high. -/
def insertSafe : Tree α → α → Bool
  | nil, _ => true
  | node parentValue left right _, value =>
      if parentValue < value then
        insertSafe right value &&
          !(left.height < right.height && grows right value)
      else insertSafe left value

/-- Whether a safe deletion makes the tree lower. -/
def shrinks : Tree α → α → Bool
  | nil, _ => false
  | node parentValue left right _, value =>
      if parentValue < value then shrinks right value && lowersRight left right
      else if value < parentValue then
        shrinks left value && right.height < left.height
      else if left = nil || right = nil then true
      else match findMin right with
        | some next => shrinks right next && lowersRight left right
        | none => false

/-- The deletion makes no right subtree too high, and where it makes a left
subtree too high, the double rotation fits. -/
def deleteSafe : Tree α → α → Bool
  | nil, _ => true
  | node parentValue left right _, value =>
      if parentValue < value then
        deleteSafe right value &&
          !(shrinks right value && right.height < left.height &&
            !doubleRotationFits left)
      else if value < parentValue then
        deleteSafe left value &&
          !(shrinks left value && left.height < right.height)
      else if left = nil || right = nil then true
      else match findMin right with
        | some next =>
            deleteSafe right next &&
              !(shrinks right next && right.height < left.height &&
                !doubleRotationFits left)
        | none => true

end Conditions

/-! ## Balanced nodes -/

theorem Balanced.realHeight_eq {tree : Tree α} (hbalanced : tree.Balanced) :
    tree.realHeight = tree.height := by
  cases tree with
  | nil => rfl
  | node value left right height => exact hbalanced.1.symm

theorem balanced_node_iff {value : α} {left right : Tree α} {height : ℕ} :
    (node value left right height).Balanced ↔
      left.Balanced ∧ right.Balanced ∧
        height = 1 + max left.height right.height ∧
        left.height ≤ right.height + 1 ∧ right.height ≤ left.height + 1 := by
  constructor
  · rintro ⟨hheight, hright, hleft, hbalancedLeft, hbalancedRight⟩
    rw [hbalancedLeft.realHeight_eq, hbalancedRight.realHeight_eq] at *
    exact ⟨hbalancedLeft, hbalancedRight, hheight, hright, hleft⟩
  · rintro ⟨hbalancedLeft, hbalancedRight, hheight, hright, hleft⟩
    refine ⟨?_, ?_, ?_, hbalancedLeft, hbalancedRight⟩
    all_goals rw [hbalancedLeft.realHeight_eq, hbalancedRight.realHeight_eq]
    · exact hheight
    · exact hright
    · exact hleft

@[simp] theorem height_node (value : α) (left right : Tree α) (height : ℕ) :
    (node value left right height).height = height := rfl

@[simp] theorem height_nil : (nil : Tree α).height = 0 := rfl

@[simp] theorem height_refresh (value : α) (left right : Tree α) :
    (refresh value left right).height = 1 + max left.height right.height := rfl

theorem balanced_refresh {left right : Tree α} (hleft : left.Balanced)
    (hright : right.Balanced) (hupper : left.height ≤ right.height + 1)
    (hlower : right.height ≤ left.height + 1) (value : α) :
    (refresh value left right).Balanced :=
  balanced_node_iff.mpr ⟨hleft, hright, rfl, hupper, hlower⟩

/-! ## The two rotations that repair a node -/

/-- A right rotation of a node whose left child does not lean to the right. -/
theorem rightRotate_balanced {childValue : α} {outer inner right : Tree α}
    {childHeight : ℕ}
    (hleft : (node childValue outer inner childHeight).Balanced)
    (hright : right.Balanced) (hheavy : childHeight = right.height + 2)
    (hlean : inner.height ≤ outer.height) (value : α) (height : ℕ) :
    (rightRotate (node value (node childValue outer inner childHeight) right
        height)).Balanced ∧
      (rightRotate (node value (node childValue outer inner childHeight) right
        height)).height =
          childHeight + if outer.height = inner.height then 1 else 0 := by
  rcases balanced_node_iff.mp hleft with
    ⟨houter, hinner, hchild, hupper, hlower⟩
  have hnew : (node value inner right
      (1 + max inner.height right.height)).Balanced := by
    apply balanced_node_iff.mpr
    exact ⟨hinner, hright, rfl, by omega, by omega⟩
  constructor
  · refine balanced_node_iff.mpr ⟨houter, hnew, rfl, ?_, ?_⟩
    · rw [height_node]
      omega
    · rw [height_node]
      omega
  · show 1 + max outer.height (1 + max inner.height right.height) = _
    by_cases heq : outer.height = inner.height
    · rw [if_pos heq]
      omega
    · rw [if_neg heq]
      omega

/-- The double rotation, where it fits. -/
theorem doubleRotate_balanced {left right : Tree α} (hleft : left.Balanced)
    (hright : right.Balanced) (hheavy : left.height = right.height + 2)
    (hfits : doubleRotationFits left) (value : α) (height : ℕ) :
    ∃ childValue outer inner,
      left = node childValue outer inner left.height ∧
      (rightRotate (node value (leftRotate left) right height)).Balanced ∧
        (rightRotate (node value (leftRotate left) right height)).height =
          left.height + if outer.height = inner.height then 1 else 0 := by
  cases left with
  | nil => simp at hheavy
  | node childValue outer inner childHeight =>
      refine ⟨childValue, outer, inner, rfl, ?_⟩
      rw [height_node] at hheavy ⊢
      cases inner with
      | nil =>
          -- The left rotation finds no right child and does nothing.
          exact rightRotate_balanced hleft hright hheavy (Nat.zero_le _) value
            height
      | node innerValue innerLeft innerRight innerHeight =>
          rcases balanced_node_iff.mp hleft with
            ⟨houter, hinner, hchild, hupper, hlower⟩
          rcases balanced_node_iff.mp hinner with
            ⟨hinnerLeft, hinnerRight, hinnerHeight, hinnerUpper, hinnerLower⟩
          rw [height_node] at hchild hupper hlower
          simp only [doubleRotationFits, Bool.or_eq_true, Bool.and_eq_true,
            decide_eq_true_eq] at hfits
          have hnewLeft : (node childValue outer innerLeft
              (1 + max outer.height innerLeft.height)).Balanced := by
            apply balanced_node_iff.mpr
            exact ⟨houter, hinnerLeft, rfl, by omega, by omega⟩
          have hnewRight : (node value innerRight right
              (1 + max innerRight.height right.height)).Balanced := by
            apply balanced_node_iff.mpr
            exact ⟨hinnerRight, hright, rfl, by omega, by omega⟩
          constructor
          · refine balanced_node_iff.mpr ⟨hnewLeft, hnewRight, rfl, ?_, ?_⟩
            · simp only [height_node]
              omega
            · simp only [height_node]
              omega
          · show 1 + max (1 + max outer.height innerLeft.height)
              (1 + max innerRight.height right.height) = _
            rw [height_node]
            by_cases heq : outer.height = innerHeight
            · rw [if_pos heq]
              omega
            · rw [if_neg heq]
              omega

/-- Where the double rotation does not fit, it leaves the old left child
unbalanced. -/
theorem not_balanced_of_misfit {left right : Tree α} (hleft : left.Balanced)
    (hmisfit : doubleRotationFits left = false) (value : α) (height : ℕ) :
    ¬ (rightRotate (node value (leftRotate left) right height)).Balanced := by
  intro hbalanced
  cases left with
  | nil => cases hmisfit
  | node child outer inner childHeight =>
      cases inner with
      | nil => cases hmisfit
      | node innerValue innerLeft innerRight innerHeight =>
          rcases balanced_node_iff.mp hleft with ⟨-, hinner, -, -, -⟩
          rcases balanced_node_iff.mp hinner with ⟨-, -, hinnerHeight, -, -⟩
          rcases balanced_node_iff.mp hbalanced with ⟨hnew, -, -, -, -⟩
          rcases balanced_node_iff.mp hnew with ⟨-, -, -, hupper, -⟩
          simp only [doubleRotationFits, Bool.or_eq_false_iff,
            Bool.and_eq_false_iff, decide_eq_false_iff_not] at hmisfit
          omega

/-! ## The end of a call on balanced children -/

section Rebalance

variable [LinearOrder α] {parentValue value : α} {left right : Tree α}

theorem rebalance_even (hupper : left.height ≤ right.height + 1)
    (hlower : right.height ≤ left.height + 1) :
    rebalance parentValue left right value =
      some (refresh parentValue left right) := by
  obtain ⟨tree, hrebalance, hcases⟩ :=
    rebalance_spec parentValue left right value
  rw [hrebalance]
  cases hcases with
  | kept hkept => rfl
  | leftLeft hbalance hchild hvalue => omega
  | rightRight hbalance hchild hvalue => omega
  | leftRight hbalance hchild hvalue => omega
  | rightLeft hbalance hchild hvalue => omega

/-- A left subtree that leans away from its value `child` and is two levels
higher is repaired by the single rotation. -/
theorem rebalance_leftLeft {child : α} {outer inner : Tree α}
    {childHeight : ℕ}
    (hleft : (node child outer inner childHeight).Balanced)
    (hright : right.Balanced) (hheavy : childHeight = right.height + 2)
    (hlean : inner.height < outer.height) (hvalue : value < child) :
    ∃ tree, rebalance parentValue (node child outer inner childHeight) right
        value = some tree ∧
      tree.Balanced ∧ tree.height = childHeight := by
  obtain ⟨tree, hrebalance, hcases⟩ := rebalance_spec parentValue
    (node child outer inner childHeight) right value
  refine ⟨tree, hrebalance, ?_⟩
  cases hcases with
  | kept hkept =>
      rcases hkept.1 with hle | heq
      · rw [height_node] at hle
        omega
      · cases heq
        exact absurd hvalue (lt_irrefl _)
  | leftLeft hbalance hchild hlt =>
      have hrotated := rightRotate_balanced hleft hright hheavy hlean.le
        parentValue (1 + max childHeight right.height)
      rw [if_neg hlean.ne', Nat.add_zero] at hrotated
      exact hrotated
  | rightRight hbalance hchild hlt =>
      rw [height_node] at hbalance
      omega
  | leftRight hbalance hchild hlt =>
      cases hchild
      exact absurd hvalue hlt.not_gt
  | rightLeft hbalance hchild hlt =>
      rw [height_node] at hbalance
      omega

/-- A left subtree that is two levels higher and whose value is below the
value of the call gets the double rotation. -/
theorem rebalance_leftRight (hleft : left.Balanced) (hright : right.Balanced)
    (hheavy : left.height = right.height + 2)
    (hfits : doubleRotationFits left)
    (hbelow : ∀ child, left.value? = some child → child < value) :
    ∃ tree child outer inner,
      rebalance parentValue left right value = some tree ∧
        left = node child outer inner left.height ∧ tree.Balanced ∧
        tree.height =
          left.height + if outer.height = inner.height then 1 else 0 := by
  obtain ⟨tree, hrebalance, hcases⟩ :=
    rebalance_spec parentValue left right value
  cases hcases with
  | kept hkept =>
      rcases hkept.1 with hle | heq
      · omega
      · exact absurd (hbelow value heq) (lt_irrefl value)
  | leftLeft hbalance hchild hlt =>
      exact absurd (hbelow _ hchild) hlt.not_gt
  | rightRight hbalance hchild hlt => omega
  | leftRight hbalance hchild hlt =>
      obtain ⟨child, outer, inner, hshape, hrotated⟩ :=
        doubleRotate_balanced hleft hright hheavy hfits parentValue
          (1 + max left.height right.height)
      exact ⟨_, child, outer, inner, hrebalance, hshape, hrotated⟩
  | rightLeft hbalance hchild hlt => omega

/-- A right subtree that has become two levels higher is never repaired: the
height which the left rotation stores is too large. -/
theorem not_balanced_of_rightHeavy (hright : right.Balanced)
    (hheavy : left.height + 1 < right.height)
    {tree : Tree α} (hcases : Rebalanced parentValue left right value tree) :
    ¬ tree.Balanced := by
  intro hbalanced
  cases hcases with
  | kept hkept =>
      rcases balanced_node_iff.mp hbalanced with ⟨-, -, -, -, hlower⟩
      omega
  | leftLeft hbalance hchild hlt => omega
  | rightRight hbalance hchild hlt =>
      cases right with
      | nil => exact absurd hheavy (Nat.not_lt_zero _)
      | node child inner outer childHeight =>
          rcases balanced_node_iff.mp hright with ⟨-, -, hchildHeight, -, -⟩
          rcases balanced_node_iff.mp hbalanced with ⟨-, -, hstored, -, -⟩
          simp only [height_node] at hheavy hstored
          omega
  | leftRight hbalance hchild hlt => omega
  | rightLeft hbalance hchild hlt =>
      cases right with
      | nil => exact absurd hheavy (Nat.not_lt_zero _)
      | node child inner outer childHeight =>
          rcases balanced_node_iff.mp hright with
            ⟨hinner, -, hchildHeight, -, -⟩
          cases inner with
          | nil =>
              rcases balanced_node_iff.mp hbalanced with ⟨-, -, hstored, -, -⟩
              simp only [height_node, height_nil] at hheavy hstored hchildHeight
              omega
          | node innerValue innerLeft innerRight innerHeight =>
              rcases balanced_node_iff.mp hinner with
                ⟨-, -, hinnerHeight, -, -⟩
              rcases balanced_node_iff.mp hbalanced with ⟨-, -, hstored, -, -⟩
              simp only [height_node] at hheavy hstored hchildHeight
              omega

end Rebalance

/-! ## Insertion -/

variable [LinearOrder α]

/-- A tree that has grown leans towards the value it has received. -/
def LeansTo (tree : Tree α) (value : α) : Prop :=
  match tree with
  | nil => False
  | node parentValue left right height =>
      (parentValue = value ∧ height = 1) ∨
        (parentValue < value ∧ right.height = left.height + 1) ∨
        (value < parentValue ∧ left.height = right.height + 1)

/-- What a safe insertion does to the heights. -/
structure Inserted (tree : Tree α) (value : α) (tree' : Tree α) : Prop where
  balanced : tree'.Balanced
  height_eq : tree'.height = tree.height + if grows tree value then 1 else 0
  leans : grows tree value = true → LeansTo tree' value

/-- The left subtree has grown to be two levels higher than the right one. -/
theorem rebalance_grown {parentValue value : α} {left right : Tree α}
    (hleft : left.Balanced) (hright : right.Balanced)
    (hheavy : left.height = right.height + 2) (hleans : LeansTo left value) :
    ∃ tree, rebalance parentValue left right value = some tree ∧
      tree.Balanced ∧ tree.height = left.height := by
  cases left with
  | nil => exact absurd hleans id
  | node child outer inner childHeight =>
      rw [height_node] at hheavy ⊢
      rcases hleans with ⟨-, hleaf⟩ | ⟨hlt, hlean⟩ | ⟨hgt, hlean⟩
      · omega
      · have hfits : doubleRotationFits
            (node child outer inner childHeight) = true := by
          cases inner with
          | nil => simp at hlean
          | node innerValue innerLeft innerRight innerHeight =>
              rw [height_node] at hlean
              simp only [doubleRotationFits, Bool.or_eq_true,
                decide_eq_true_eq]
              left
              omega
        have hbelow : ∀ found,
            (node child outer inner childHeight).value? = some found →
              found < value := by
          intro found hfound
          cases hfound
          exact hlt
        obtain ⟨tree, _, outer', inner', hrebalance, hshape, hbalanced,
          hheight⟩ := rebalance_leftRight hleft hright hheavy hfits hbelow
        cases hshape
        rw [if_neg (by omega), Nat.add_zero] at hheight
        exact ⟨tree, hrebalance, hbalanced, hheight⟩
      · exact rebalance_leftLeft hleft hright hheavy (by omega) hgt

section Insertion

variable {parentValue value : α} {left right child : Tree α} {height : ℕ}

theorem inserted_even {tree left' right' : Tree α} (hleft : left'.Balanced)
    (hright : right'.Balanced) (hupper : left'.height ≤ right'.height + 1)
    (hlower : right'.height ≤ left'.height + 1)
    (hheight : 1 + max left'.height right'.height =
      tree.height + if grows tree value then 1 else 0)
    (hleans : grows tree value = true →
      LeansTo (refresh parentValue left' right') value) :
    ∃ tree', rebalance parentValue left' right' value = some tree' ∧
      Inserted tree value tree' :=
  ⟨_, rebalance_even hupper hlower,
    balanced_refresh hleft hright hupper hlower parentValue, hheight, hleans⟩

theorem inserted_right
    (hbalanced : (node parentValue left right height).Balanced)
    (hlt : parentValue < value) (hchild : Inserted right value child)
    (hsafe : ¬ left.height < right.height ∨ grows right value = false) :
    ∃ tree', rebalance parentValue left child value = some tree' ∧
      Inserted (node parentValue left right height) value tree' := by
  rcases balanced_node_iff.mp hbalanced with
    ⟨hleft, -, hheight, hupper, hlower⟩
  have hgrows : grows (node parentValue left right height) value =
      (decide (left.height = right.height) && grows right value) := by
    simp only [grows, if_pos hlt]
  have hgrown := hchild.height_eq
  cases hcase : grows right value with
  | false =>
      rw [hcase, Bool.and_false] at hgrows
      simp only [hcase, Bool.false_eq_true, if_false, Nat.add_zero] at hgrown
      apply inserted_even hleft hchild.balanced (by omega) (by omega)
      · rw [hgrows, height_node, hgrown, hheight]
        rfl
      · rw [hgrows]
        intro hfalse
        cases hfalse
  | true =>
      rw [hcase, Bool.and_true] at hgrows
      simp only [hcase, if_true] at hgrown
      have hle : ¬ left.height < right.height := by simpa [hcase] using hsafe
      apply inserted_even hleft hchild.balanced (by omega) (by omega)
      · rw [hgrows, height_node]
        by_cases heq : left.height = right.height
        · simp only [heq, decide_true, if_true]
          omega
        · simp only [heq, decide_false, Bool.false_eq_true, if_false]
          omega
      · rw [hgrows, decide_eq_true_eq]
        intro heq
        exact Or.inr (Or.inl ⟨hlt, by omega⟩)

/-- The value has gone into the left subtree, which is rotated if it has
become too high. -/
theorem inserted_left
    (hbalanced : (node parentValue left right height).Balanced)
    (hlt : value < parentValue) (hchild : Inserted left value child) :
    ∃ tree', rebalance parentValue child right value = some tree' ∧
      Inserted (node parentValue left right height) value tree' := by
  rcases balanced_node_iff.mp hbalanced with
    ⟨-, hright, hheight, hupper, hlower⟩
  have hgrows : grows (node parentValue left right height) value =
      (decide (left.height = right.height) && grows left value) := by
    simp only [grows, if_neg hlt.not_gt]
  have hgrown := hchild.height_eq
  cases hcase : grows left value with
  | false =>
      rw [hcase, Bool.and_false] at hgrows
      simp only [hcase, Bool.false_eq_true, if_false, Nat.add_zero] at hgrown
      apply inserted_even hchild.balanced hright (by omega) (by omega)
      · rw [hgrows, height_node, hgrown, hheight]
        rfl
      · rw [hgrows]
        intro hfalse
        cases hfalse
  | true =>
      rw [hcase, Bool.and_true] at hgrows
      simp only [hcase, if_true] at hgrown
      by_cases hheavy : right.height < left.height
      · have hne : ¬ left.height = right.height := by omega
        rw [decide_eq_false hne] at hgrows
        obtain ⟨tree', hrebalance, htree', hsame⟩ :=
          rebalance_grown hchild.balanced hright (by omega)
            (hchild.leans hcase)
        refine ⟨tree', hrebalance, htree', ?_, ?_⟩
        · simp only [hgrows, Bool.false_eq_true, if_false, height_node]
          omega
        · rw [hgrows]
          intro hfalse
          cases hfalse
      · apply inserted_even hchild.balanced hright (by omega) (by omega)
        · rw [hgrows, height_node]
          by_cases heq : left.height = right.height
          · simp only [heq, decide_true, if_true]
            omega
          · simp only [heq, decide_false, Bool.false_eq_true, if_false]
            omega
        · rw [hgrows, decide_eq_true_eq]
          intro heq
          exact Or.inr (Or.inr ⟨hlt, by omega⟩)

end Insertion

theorem insert_balanced {tree : Tree α} {value : α}
    (hbalanced : tree.Balanced) (hnew : value ∉ tree.inorder)
    (hsafe : insertSafe tree value = true) :
    ∃ tree', tree.insert value = some tree' ∧ Inserted tree value tree' := by
  induction tree with
  | nil =>
      refine ⟨_, rfl, ?_, rfl, ?_⟩
      · simp [Balanced, realHeight]
      · intro _
        exact Or.inl ⟨rfl, rfl⟩
  | node parentValue left right height ihLeft ihRight =>
      rcases balanced_node_iff.mp hbalanced with ⟨hleft, hright, -, -, -⟩
      rw [inorder_node, List.mem_append, List.mem_cons, not_or, not_or] at hnew
      rcases hnew with ⟨hnewLeft, hne, hnewRight⟩
      by_cases hlt : parentValue < value
      · simp only [insertSafe, if_pos hlt, Bool.and_eq_true,
          Bool.not_eq_true', Bool.and_eq_false_iff, decide_eq_false_iff_not]
          at hsafe
        obtain ⟨child, hinsert, hchild⟩ := ihRight hright hnewRight hsafe.1
        rw [insert, if_pos hlt, hinsert, Option.bind_some]
        exact inserted_right hbalanced hlt hchild hsafe.2
      · have hgt : value < parentValue := lt_of_le_of_ne (not_lt.mp hlt) hne
        simp only [insertSafe, if_neg hlt] at hsafe
        obtain ⟨child, hinsert, hchild⟩ := ihLeft hleft hnewLeft hsafe
        rw [insert, if_neg hlt, hinsert, Option.bind_some]
        exact inserted_left hbalanced hgt hchild

/-! ## Deletion -/

/-- What a safe deletion does to the heights, where `lower` tells whether the
tree gets lower. -/
structure Deleted (tree : Tree α) (lower : Bool) (tree' : Tree α) : Prop where
  balanced : tree'.Balanced
  height_eq : tree'.height + (if lower then 1 else 0) = tree.height

section Deletion

variable {parentValue value newValue : α} {left right child : Tree α}
  {height : ℕ} {lower : Bool}

/-- The node stays even enough to be kept. -/
theorem deleted_even
    (hbalanced : (node parentValue left right height).Balanced)
    {left' right' : Tree α} (hleft : left'.Balanced) (hright : right'.Balanced)
    (hupper : left'.height ≤ right'.height + 1)
    (hlower : right'.height ≤ left'.height + 1)
    (hheight : max left'.height right'.height + (if lower then 1 else 0) =
      max left.height right.height) :
    ∃ tree', rebalance newValue left' right' value = some tree' ∧
      Deleted (node parentValue left right height) lower tree' := by
  rcases balanced_node_iff.mp hbalanced with ⟨-, -, hnode, -, -⟩
  refine ⟨_, rebalance_even hupper hlower,
    balanced_refresh hleft hright hupper hlower newValue, ?_⟩
  rw [height_refresh, height_node]
  omega

/-- One value has been taken from the right subtree.  The node may have got a
new value, which does not matter for the heights. -/
theorem deleted_right
    (hbalanced : (node parentValue left right height).Balanced)
    (hbelow : ∀ other, left.value? = some other → other < value)
    (hchild : Deleted right lower child)
    (hsafe : lower = true → right.height < left.height →
      doubleRotationFits left = true) :
    ∃ tree', rebalance newValue left child value = some tree' ∧
      Deleted (node parentValue left right height)
        (lower && lowersRight left right) tree' := by
  rcases balanced_node_iff.mp hbalanced with
    ⟨hleft, -, hheight, hupper, hlower⟩
  have hless := hchild.height_eq
  cases lower with
  | false =>
      simp only [Bool.false_eq_true, if_false, Nat.add_zero] at hless
      apply deleted_even hbalanced hleft hchild.balanced (by omega) (by omega)
      simp only [Bool.false_and, Bool.false_eq_true, if_false]
      omega
  | true =>
      simp only [if_true] at hless
      rw [Bool.true_and]
      cases left with
      | nil =>
          apply deleted_even hbalanced hleft hchild.balanced
          · exact Nat.zero_le _
          · rw [height_nil] at hlower ⊢
            omega
          · simp only [lowersRight, if_true, height_nil]
            omega
      | node leftValue outer inner leftHeight =>
          rw [height_node] at hupper hlower hsafe hheight
          by_cases hheavy : right.height < leftHeight
          · -- The left side is two levels higher now.
            obtain ⟨tree', _, outer', inner', hrebalance, hshape, htree',
              hsame⟩ := rebalance_leftRight hleft hchild.balanced
                (by rw [height_node]; omega) (hsafe rfl hheavy) hbelow
            cases hshape
            refine ⟨tree', hrebalance, htree', ?_⟩
            rw [hsame, height_node, height_node, hheight]
            by_cases heq : outer.height = inner.height
            · simp only [lowersRight, heq, not_true, ne_eq, decide_false,
                Bool.and_false, Bool.or_false, decide_eq_true_eq, if_true]
              rw [if_neg hheavy.not_gt]
              omega
            · simp only [lowersRight, hheavy, ne_eq, heq, not_false_eq_true,
                decide_true, Bool.and_true, Bool.or_true, if_true, if_false]
              omega
          · apply deleted_even hbalanced hleft hchild.balanced
            · rw [height_node]
              omega
            · rw [height_node]
              omega
            · simp only [lowersRight, hheavy, decide_false, Bool.false_and,
                Bool.or_false, decide_eq_true_eq, height_node]
              split <;> omega

theorem deleted_left
    (hbalanced : (node parentValue left right height).Balanced)
    (hchild : Deleted left lower child)
    (hsafe : lower = true → ¬ left.height < right.height) :
    ∃ tree', rebalance parentValue child right value = some tree' ∧
      Deleted (node parentValue left right height)
        (lower && decide (right.height < left.height)) tree' := by
  rcases balanced_node_iff.mp hbalanced with
    ⟨-, hright, hheight, hupper, hlower⟩
  have hless := hchild.height_eq
  cases lower with
  | false =>
      simp only [Bool.false_eq_true, if_false, Nat.add_zero] at hless
      apply deleted_even hbalanced hchild.balanced hright (by omega) (by omega)
      simp only [Bool.false_and, Bool.false_eq_true, if_false]
      omega
  | true =>
      simp only [if_true] at hless
      have hle := hsafe rfl
      apply deleted_even hbalanced hchild.balanced hright (by omega) (by omega)
      simp only [Bool.true_and, decide_eq_true_eq]
      split <;> omega

end Deletion

theorem delete_balanced {tree : Tree α} {value : α}
    (hbalanced : tree.Balanced) (hstrict : tree.inorder.Pairwise (· < ·))
    (hsafe : deleteSafe tree value = true) :
    ∃ tree', tree.delete value = some tree' ∧
      Deleted tree (shrinks tree value) tree' := by
  induction tree generalizing value with
  | nil => exact ⟨nil, rfl, trivial, rfl⟩
  | node parentValue left right height ihLeft ihRight =>
      rcases balanced_node_iff.mp hbalanced with
        ⟨hleft, hright, hheight, hupper, hlower⟩
      rw [inorder_node] at hstrict
      rcases List.pairwise_append.mp hstrict with ⟨hleftStrict, hrest, hcross⟩
      rcases List.pairwise_cons.mp hrest with ⟨-, hrightStrict⟩
      have hroot : ∀ other, left.value? = some other → other < parentValue := by
        intro other hother
        cases left with
        | nil => cases hother
        | node leftValue leftLeft leftRight leftHeight =>
            cases hother
            exact hcross other (by simp) parentValue List.mem_cons_self
      rcases lt_trichotomy parentValue value with hlt | heq | hgt
      · simp only [deleteSafe, if_pos hlt, Bool.and_eq_true,
          Bool.not_eq_true', Bool.and_eq_false_iff] at hsafe
        obtain ⟨child, hdelete, hchild⟩ :=
          ihRight hright hrightStrict hsafe.1
        rw [delete_of_lt hlt, hdelete, Option.bind_some]
        simp only [shrinks, if_pos hlt]
        apply deleted_right hbalanced
          (fun other hother => (hroot other hother).trans hlt) hchild
        intro hshrinks hheavy
        simpa [hshrinks, hheavy] using hsafe.2
      · subst value
        by_cases hnoLeft : left = nil
        · subst left
          refine ⟨right, delete_root_nil_left _ _ _, hright, ?_⟩
          simp [shrinks, hheight, Nat.add_comm]
        by_cases hnoRight : right = nil
        · subst right
          refine ⟨left, delete_root_nil_right _ _ _, hleft, ?_⟩
          simp [shrinks, hheight, Nat.add_comm]
        have horder : InOrder right.inorder :=
          hrightStrict.imp fun hlt => hlt.le
        obtain ⟨next, hmin, -, -⟩ := exists_findMin horder hnoRight
        simp only [deleteSafe, lt_irrefl, if_false, hnoLeft, hnoRight,
          decide_false, Bool.or_false, Bool.false_eq_true, hmin,
          Bool.and_eq_true, Bool.not_eq_true', Bool.and_eq_false_iff] at hsafe
        obtain ⟨child, hdelete, hchild⟩ :=
          ihRight hright hrightStrict hsafe.1
        rw [delete_root_two hnoLeft hnoRight, hmin, Option.bind_some, hdelete,
          Option.bind_some]
        simp only [shrinks, lt_irrefl, if_false, hnoLeft, hnoRight,
          decide_false, Bool.or_false, Bool.false_eq_true, hmin]
        apply deleted_right hbalanced hroot hchild
        intro hshrinks hheavy
        simpa [hshrinks, hheavy] using hsafe.2
      · simp only [deleteSafe, if_neg hgt.not_gt, if_pos hgt,
          Bool.and_eq_true, Bool.not_eq_true', Bool.and_eq_false_iff] at hsafe
        obtain ⟨child, hdelete, hchild⟩ := ihLeft hleft hleftStrict hsafe.1
        rw [delete_of_gt hgt, hdelete, Option.bind_some]
        simp only [shrinks, if_neg hgt.not_gt, if_pos hgt]
        apply deleted_left hbalanced hchild
        intro hshrinks
        simpa [hshrinks] using hsafe.2

end Tree

/-! ## Whole runs -/

variable [LinearOrder α]

/-- Only values that are not in the tree are inserted. -/
def KeepsDistinct (self : AVL α) : Call α → Prop
  | .insert value => value ∉ self.inorderTraversal
  | .delete _ => True

/-- The call meets neither slip. -/
def Safe (self : AVL α) : Call α → Prop
  | .insert value => self.root.insertSafe value = true
  | .delete value => self.root.deleteSafe value = true

instance (self : AVL α) : ∀ c, Decidable (self.KeepsDistinct c)
  | .insert value =>
      inferInstanceAs (Decidable (value ∉ self.inorderTraversal))
  | .delete _ => inferInstanceAs (Decidable True)

instance (self : AVL α) : ∀ c, Decidable (self.Safe c)
  | .insert value =>
      inferInstanceAs (Decidable (self.root.insertSafe value = true))
  | .delete value =>
      inferInstanceAs (Decidable (self.root.deleteSafe value = true))

structure Sound (avl : AVL α) : Prop where
  balanced : avl.root.Balanced
  strict : avl.root.inorder.Pairwise (· < ·)

theorem strict_of_nodup {order : List α} (horder : InOrder order)
    (hnodup : order.Nodup) : order.Pairwise (· < ·) := by
  have hboth := List.pairwise_and_iff.mpr ⟨horder, hnodup⟩
  exact hboth.imp fun hpair => lt_of_le_of_ne hpair.1 hpair.2

theorem Sound.inOrder {self : AVL α} (hsound : self.Sound) :
    InOrder self.root.inorder :=
  hsound.strict.imp fun hlt => hlt.le

theorem Sound.nodup {self : AVL α} (hsound : self.Sound) :
    self.root.inorder.Nodup :=
  hsound.strict.imp fun hlt => hlt.ne

theorem Sound.step {self : AVL α} (hsound : self.Sound) {c : Call α}
    (hdistinct : self.KeepsDistinct c) (hsafe : self.Safe c) :
    ∃ next, self.step c = some next ∧ next.Sound := by
  cases c with
  | insert value =>
      obtain ⟨root, hinsert, hadds⟩ :=
        Tree.insert_adds hsound.inOrder value
      obtain ⟨root', hinsert', hinserted⟩ :=
        Tree.insert_balanced hsound.balanced hdistinct hsafe
      rw [hinsert] at hinsert'
      cases hinsert'
      refine ⟨⟨root⟩, ?_, hinserted.balanced, ?_⟩
      · rw [AVL.step, AVL.insert, hinsert, Option.map_some]
      · apply strict_of_nodup hadds.inOrder
        exact hadds.perm.nodup_iff.mpr
          (List.nodup_cons.mpr ⟨hdistinct, hsound.nodup⟩)
  | delete value =>
      obtain ⟨root, hdelete, hremoves⟩ :=
        Tree.delete_removes hsound.inOrder value
      obtain ⟨root', hdelete', hdeleted⟩ :=
        Tree.delete_balanced hsound.balanced hsound.strict hsafe
      rw [hdelete] at hdelete'
      cases hdelete'
      refine ⟨⟨root⟩, step_delete hdelete, hdeleted.balanced, ?_⟩
      apply strict_of_nodup hremoves.inOrder
      exact hremoves.perm.nodup_iff.mpr (hsound.nodup.erase value)

/-- In a run with distinct live values whose calls meet neither slip, every
state is balanced and stores its real heights. -/
theorem avl_balanced_of_safe (calls : List (Call α))
    (hdistinct : StepSystem.AllAllowed AVL.step KeepsDistinct calls
      (construct α))
    (hsafe : StepSystem.AllAllowed AVL.step Safe calls (construct α)) (n : ℕ) :
    ∃ self, StepSystem.run AVL.step (calls.take n) (construct α) = some self ∧
      self.root.Balanced := by
  have hall := (hdistinct.and hsafe).take n
  have hstart : Sound (construct α) := ⟨trivial, List.Pairwise.nil⟩
  have hrun : ∃ self,
      StepSystem.run AVL.step (calls.take n) (construct α) = some self ∧
        Sound self := by
    apply StepSystem.run_of_allAllowed ?_ hstart hall
    intro self c hsound hboth
    exact hsound.step hboth.1 hboth.2
  obtain ⟨self, hlast, hsound⟩ := hrun
  exact ⟨self, hlast, hsound.balanced⟩

/-- A right rotation at the root, and two deletions. -/
theorem avl_balanced_of_safe_short :
    ∃ avl : AVL ℕ,
      StepSystem.run AVL.step
          [.insert 50, .insert 30, .insert 70, .insert 20, .insert 40,
            .insert 10, .delete 70, .delete 10] (construct ℕ) = some avl ∧
        avl.root.Balanced :=
  avl_balanced_of_safe
    [.insert 50, .insert 30, .insert 70, .insert 20, .insert 40, .insert 10,
      .delete 70, .delete 10] (by decide) (by decide) 8

/-- Three ascending values make the first left rotation, after which the root
stores the height 4. -/
theorem avl_left_rotation_height :
    StepSystem.AllAllowed AVL.step KeepsDistinct
        [.insert 1, .insert 2, .insert 3] (construct ℕ) ∧
      StepSystem.run AVL.step [.insert 1, .insert 2, .insert 3]
          (construct ℕ) =
        some ⟨.node 2 (.node 1 .nil .nil 1) (.node 3 .nil .nil 1) 4⟩ ∧
      ¬ (Tree.node 2 (.node 1 .nil .nil 1) (.node 3 .nil .nil 1) 4).Balanced := by
  decide

end AVL
end TradingStudies
