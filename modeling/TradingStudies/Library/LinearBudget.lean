import Mathlib

/-!
# Fractions under a budget

Each item has a profit and a weight, a fraction of it may be taken, and the
weight of what is taken must stay within a budget.

A rate certifies a choice: items that pay more than the rate for their weight
are taken whole, items that pay less are left, and the budget is used up unless
the rate is zero.  No choice within the budget has a greater profit.
-/

namespace LinearBudget

variable {Item R : Type*} [Fintype Item] [CommRing R] [LinearOrder R]
  [IsStrictOrderedRing R]

structure Feasible (weights : Item → R) (budget : R) (x : Item → R) :
    Prop where
  nonneg : ∀ i, 0 ≤ x i
  le_one : ∀ i, x i ≤ 1
  within : ∑ i, x i * weights i ≤ budget

structure Certified (profits weights : Item → R) (budget rate : R)
    (x : Item → R) : Prop where
  rate_nonneg : 0 ≤ rate
  whole : ∀ i, x i = 1 ∨ profits i ≤ rate * weights i
  none_left : ∀ i, x i = 0 ∨ rate * weights i ≤ profits i
  used_up : rate = 0 ∨ ∑ i, x i * weights i = budget

variable {profits weights x y : Item → R} {budget rate : R}

/-- A move away from a certified choice gains less than the rate allows. -/
theorem Certified.gain_le (hcertified : Certified profits weights budget rate x)
    (hfeasible : Feasible weights budget y) (i : Item) :
    (y i - x i) * profits i ≤ (y i - x i) * (rate * weights i) := by
  rcases hcertified.whole i with hone | hlow
  · rcases hcertified.none_left i with hzero | hhigh
    · exact absurd (hone.symm.trans hzero) one_ne_zero
    · have hless : y i - x i ≤ 0 := by
        rw [hone]
        exact sub_nonpos.mpr (hfeasible.le_one i)
      exact mul_le_mul_of_nonpos_left hhigh hless
  · rcases hcertified.none_left i with hzero | hhigh
    · have hmore : 0 ≤ y i - x i := by
        rw [hzero, sub_zero]
        exact hfeasible.nonneg i
      exact mul_le_mul_of_nonneg_left hlow hmore
    · rw [le_antisymm hlow hhigh]

theorem Certified.optimal (hcertified : Certified profits weights budget rate x)
    (hfeasible : Feasible weights budget y) :
    ∑ i, y i * profits i ≤ ∑ i, x i * profits i := by
  have hgain : ∑ i, (y i - x i) * profits i ≤ 0 := by
    calc ∑ i, (y i - x i) * profits i
        ≤ ∑ i, (y i - x i) * (rate * weights i) :=
          Finset.sum_le_sum fun i _ => hcertified.gain_le hfeasible i
      _ = rate * (∑ i, y i * weights i - ∑ i, x i * weights i) := by
          rw [← Finset.sum_sub_distrib, Finset.mul_sum]
          apply Finset.sum_congr rfl
          intro i _
          ring
      _ ≤ 0 := by
          rcases hcertified.used_up with hzero | hbudget
          · rw [hzero, zero_mul]
          · rw [hbudget]
            exact mul_nonpos_of_nonneg_of_nonpos hcertified.rate_nonneg
              (sub_nonpos.mpr hfeasible.within)
  simp only [sub_mul, Finset.sum_sub_distrib] at hgain
  exact sub_nonpos.mp hgain

omit [LinearOrder R] [IsStrictOrderedRing R] in
theorem sum_update_mul [DecidableEq Item] (x weights : Item → R)
    (item : Item) (fraction : R) :
    ∑ i, Function.update x item fraction i * weights i =
      ∑ i, x i * weights i + (fraction - x item) * weights item := by
  have hother : ∑ i, (Function.update x item fraction i - x i) * weights i =
      (fraction - x item) * weights item := by
    rw [Finset.sum_eq_single item]
    · rw [Function.update_self]
    · intro i _ hne
      rw [Function.update_of_ne hne, sub_self, zero_mul]
    · intro hnot
      exact absurd (Finset.mem_univ item) hnot
  rw [← hother, ← Finset.sum_add_distrib]
  apply Finset.sum_congr rfl
  intro i _
  ring

end LinearBudget
