import Mathlib

/-!
# Adding digit lists, from `Leet/leetx.cpp`

A `ListNode*` is the list of the values from that node on, the lowest digit
first; `nullptr` is the empty list.  `Solution` builds the list of the sum from
its end, on the way back from the recursion.  `Solution2` appends one node after
another behind a dummy.

Both go on while a digit or a carry is left.  Every sum on the way stays below
20, so an `int` holds every value.
-/

namespace TradingStudies
namespace AddTwoNumbers

/-- What a list adds to the sum: `l->val`, or nothing for `nullptr`. -/
def nodeVal (l : List ℕ) : ℕ := l.headD 0

theorem next_decreases {l1 l2 : List ℕ} {carry : ℕ}
    (hmore : ¬ (l1 = [] ∧ l2 = [] ∧ carry = 0)) :
    Prod.Lex (· < ·) (· < ·)
      (l1.tail.length + l2.tail.length,
        (carry + nodeVal l1 + nodeVal l2) / 10)
      (l1.length + l2.length, carry) := by
  cases l1 with
  | nil =>
      cases l2 with
      | nil =>
          have hpos : 0 < carry := by
            apply Nat.pos_of_ne_zero
            intro hzero
            exact hmore ⟨rfl, rfl, hzero⟩
          exact Prod.Lex.right _ (Nat.div_lt_self hpos (by decide))
      | cons digit l2 =>
          apply Prod.Lex.left
          simp
  | cons digit l1 =>
      apply Prod.Lex.left
      simp only [List.length_tail, List.length_cons]
      omega

/-! ## The two solutions -/

/-- `Solution::__addTwoNumbers`. -/
def addForward (l1 l2 : List ℕ) (forward : ℕ) : List ℕ :=
  if l1 = [] ∧ l2 = [] ∧ forward = 0 then []
  else
    let vl3 := forward + nodeVal l1 + nodeVal l2
    vl3 % 10 :: addForward l1.tail l2.tail (vl3 / 10)
termination_by (l1.length + l2.length, forward)
decreasing_by exact next_decreases ‹_›

def addTwoNumbers (l1 l2 : List ℕ) : List ℕ := addForward l1 l2 0

/-- The loop of `Solution2::addTwoNumbers`, where `nodes` are the nodes behind
the dummy.  It runs while `l1 || l2 || carry`. -/
def addLoop (l1 l2 : List ℕ) (carry : ℕ) (nodes : List ℕ) : List ℕ :=
  if l1 = [] ∧ l2 = [] ∧ carry = 0 then nodes
  else
    let sum := carry + nodeVal l1 + nodeVal l2
    addLoop l1.tail l2.tail (sum / 10) (nodes ++ [sum % 10])
termination_by (l1.length + l2.length, carry)
decreasing_by exact next_decreases ‹_›

/-- `Solution2::addTwoNumbers`. -/
def addTwoNumbers2 (l1 l2 : List ℕ) : List ℕ := addLoop l1 l2 0 []

/-! ## The sums on the way -/

/-- The values of `vl3`, and of `sum` in the loop. -/
def sums (l1 l2 : List ℕ) (forward : ℕ) : List ℕ :=
  if l1 = [] ∧ l2 = [] ∧ forward = 0 then []
  else
    let vl3 := forward + nodeVal l1 + nodeVal l2
    vl3 :: sums l1.tail l2.tail (vl3 / 10)
termination_by (l1.length + l2.length, forward)
decreasing_by exact next_decreases ‹_›

theorem addForward_eq_map (l1 l2 : List ℕ) (forward : ℕ) :
    addForward l1 l2 forward = (sums l1 l2 forward).map (· % 10) := by
  induction l1, l2, forward using addForward.induct with
  | case1 l1 l2 forward hnone =>
      rw [addForward, sums, if_pos hnone, if_pos hnone, List.map_nil]
  | case2 l1 l2 forward hmore vl3 ih =>
      rw [addForward, sums, if_neg hmore, if_neg hmore]
      exact congrArg (vl3 % 10 :: ·) ih

theorem nodeVal_lt_ten {l : List ℕ} (hl : ∀ digit ∈ l, digit < 10) :
    nodeVal l < 10 := by
  cases l with
  | nil => decide
  | cons digit l => exact hl digit List.mem_cons_self

/-- In a whole addition of digits no sum reaches 20. -/
theorem sums_lt_twenty {l1 l2 : List ℕ} {forward : ℕ}
    (hl1 : ∀ digit ∈ l1, digit < 10) (hl2 : ∀ digit ∈ l2, digit < 10)
    (hforward : forward ≤ 1) : ∀ sum ∈ sums l1 l2 forward, sum < 20 := by
  induction l1, l2, forward using addForward.induct with
  | case1 l1 l2 forward hnone =>
      rw [sums, if_pos hnone]
      intro sum hsum
      exact absurd hsum List.not_mem_nil
  | case2 l1 l2 forward hmore vl3 ih =>
      have hfirst := nodeVal_lt_ten hl1
      have hsecond := nodeVal_lt_ten hl2
      have hvl3 : vl3 = forward + nodeVal l1 + nodeVal l2 := rfl
      rw [sums, if_neg hmore]
      intro sum hsum
      rcases List.mem_cons.mp hsum with rfl | hlater
      · omega
      · -- The next carry is 0 or 1 again.
        exact ih (fun digit hdigit => hl1 digit (List.mem_of_mem_tail hdigit))
          (fun digit hdigit => hl2 digit (List.mem_of_mem_tail hdigit))
          (by omega) sum hlater

/-! ## What they return -/

/-- The loop appends what the recursion returns. -/
theorem addLoop_eq (l1 l2 : List ℕ) (carry : ℕ) (nodes : List ℕ) :
    addLoop l1 l2 carry nodes = nodes ++ addForward l1 l2 carry := by
  induction l1, l2, carry using addForward.induct generalizing nodes with
  | case1 l1 l2 carry hnone =>
      rw [addLoop, if_pos hnone, addForward, if_pos hnone, List.append_nil]
  | case2 l1 l2 carry hmore vl3 ih =>
      rw [addLoop, if_neg hmore, addForward, if_neg hmore]
      exact (ih _).trans (List.append_assoc ..)

theorem addForward_lt_ten (l1 l2 : List ℕ) (forward : ℕ) :
    ∀ digit ∈ addForward l1 l2 forward, digit < 10 := by
  rw [addForward_eq_map]
  intro digit hdigit
  obtain ⟨sum, -, rfl⟩ := List.mem_map.mp hdigit
  exact Nat.mod_lt sum (by decide)

theorem ofDigits_eq (l : List ℕ) :
    Nat.ofDigits 10 l = nodeVal l + 10 * Nat.ofDigits 10 l.tail := by
  cases l with
  | nil => rfl
  | cons digit l => exact Nat.ofDigits_cons

theorem ofDigits_addForward (l1 l2 : List ℕ) (forward : ℕ) :
    Nat.ofDigits 10 (addForward l1 l2 forward) =
      Nat.ofDigits 10 l1 + Nat.ofDigits 10 l2 + forward := by
  induction l1, l2, forward using addForward.induct with
  | case1 l1 l2 forward hnone =>
      obtain ⟨rfl, rfl, rfl⟩ := hnone
      rw [addForward, if_pos ⟨rfl, rfl, rfl⟩]
      rfl
  | case2 l1 l2 forward hmore vl3 ih =>
      rw [addForward, if_neg hmore, Nat.ofDigits_cons, ih, ofDigits_eq l1,
        ofDigits_eq l2]
      have hsplit := Nat.mod_add_div vl3 10
      have hsum : vl3 = forward + nodeVal l1 + nodeVal l2 := rfl
      omega

/-- Both solutions return the digits of the sum. -/
theorem addTwoNumbers_add (l1 l2 : List ℕ) :
    addTwoNumbers l1 l2 = addTwoNumbers2 l1 l2 ∧
      (∀ digit ∈ addTwoNumbers l1 l2, digit < 10) ∧
      Nat.ofDigits 10 (addTwoNumbers l1 l2) =
        Nat.ofDigits 10 l1 + Nat.ofDigits 10 l2 := by
  refine ⟨?_, addForward_lt_ten l1 l2 0, ?_⟩
  · unfold addTwoNumbers addTwoNumbers2
    rw [addLoop_eq, List.nil_append]
  · exact ofDigits_addForward l1 l2 0

end AddTwoNumbers
end TradingStudies
