import TradingStudies.Library.BoundedHeap
import TradingStudies.Library.LinearBudget

/-!
# The fractional knapsack of `Leet/knapsack_greedy.py`

The script reads as a function of `profits`, `weights` and `capacity`, with the
division taken exactly.  An entry of the heap is the negated ratio of an item
with its index; `heappop` takes out the least entry in the order of tuples, in
which the index decides between equal ratios.

While the loop runs, the items that have left the heap are taken whole, and no
item in the heap has a better ratio than one of these.
-/

namespace TradingStudies
namespace KnapsackGreedy

open BoundedHeap LinearBudget

variable {n : ℕ}

/-- The tuple `(-profits[i]/weights[i], i)`. -/
abbrev Entry (n : ℕ) := ℚ × Fin n

def entry (profits weights : Fin n → ℚ) (i : Fin n) : Entry n :=
  (-profits i / weights i, i)

def tupleOrder (q : Entry n) : ℚ ×ₗ Fin n := toLex q

/-- The heap after the loop of `heappush`, as the entries it holds. -/
def pushAll (profits weights : Fin n → ℚ) : List (Entry n) :=
  (List.finRange n).foldl (fun heap i => entry profits weights i :: heap) []

/-- `while heap:`, with `capacity` and `x` as they are on entry. -/
def takeAll (weights : Fin n → ℚ) (heap : List (Entry n)) (capacity : ℚ)
    (x : Fin n → ℚ) : Fin n → ℚ :=
  match heap with
  | [] => x
  | first :: rest =>
      let q := (extractLeast tupleOrder first rest).1
      if weights q.2 ≤ capacity then
        takeAll weights (extractLeast tupleOrder first rest).2
          (capacity - weights q.2) (Function.update x q.2 1)
      else Function.update x q.2 (capacity / weights q.2)
termination_by heap.length
decreasing_by
  have hlength := (extractLeast_perm tupleOrder first rest).length_eq
  rw [List.length_cons, List.length_cons] at hlength
  rw [List.length_cons]
  omega

def greedy (profits weights : Fin n → ℚ) (capacity : ℚ) : Fin n → ℚ :=
  takeAll weights (pushAll profits weights) capacity fun _ => 0

/-- The loop that adds up `profit`. -/
def totalProfit (profits x : Fin n → ℚ) : ℚ :=
  (List.finRange n).foldl (fun profit i => profit + profits i * x i) 0

theorem foldl_add_eq (term : Fin n → ℚ) (items : List (Fin n)) (start : ℚ) :
    items.foldl (fun total i => total + term i) start =
      start + (items.map term).sum := by
  induction items generalizing start with
  | nil => simp
  | cons i items ih =>
      rw [List.foldl_cons, ih, List.map_cons, List.sum_cons, add_assoc]

theorem totalProfit_eq_sum (profits x : Fin n → ℚ) :
    totalProfit profits x = ∑ i, x i * profits i := by
  unfold totalProfit
  rw [foldl_add_eq, zero_add, ← Fin.sum_univ_def]
  exact Finset.sum_congr rfl fun i _ => mul_comm _ _

/-- What holds before every round, for the items outside the heap and the
entries in it. -/
structure Taking (profits weights : Fin n → ℚ) (budget : ℚ)
    (heap : List (Entry n)) (capacity : ℚ) (x : Fin n → ℚ) : Prop where
  entries : ∀ q ∈ heap, q = entry profits weights q.2
  nodup : (heap.map Prod.snd).Nodup
  waiting : ∀ q ∈ heap, x q.2 = 0
  taken : ∀ i, i ∉ heap.map Prod.snd → x i = 1
  better : ∀ i, i ∉ heap.map Prod.snd → ∀ q ∈ heap,
    -profits i / weights i ≤ q.1
  capacity_nonneg : 0 ≤ capacity
  spent : ∑ i, x i * weights i + capacity = budget

variable {profits weights x : Fin n → ℚ} {budget capacity : ℚ}
  {heap : List (Entry n)}

theorem pushAll_eq (profits weights : Fin n → ℚ) :
    pushAll profits weights =
      ((List.finRange n).map (entry profits weights)).reverse := by
  unfold pushAll
  rw [List.foldl_flip_cons_eq_append, List.append_nil]

theorem snd_pushAll (profits weights : Fin n → ℚ) :
    (pushAll profits weights).map Prod.snd = (List.finRange n).reverse := by
  rw [pushAll_eq, List.map_reverse, List.map_map]
  congr 1
  exact List.map_id _

theorem taking_start (profits weights : Fin n → ℚ) (hbudget : 0 ≤ budget) :
    Taking profits weights budget (pushAll profits weights) budget
      fun _ => 0 := by
  have hall : ∀ i, i ∈ (pushAll profits weights).map Prod.snd := by
    intro i
    rw [snd_pushAll, List.mem_reverse]
    exact List.mem_finRange i
  constructor
  · intro q hq
    rw [pushAll_eq, List.mem_reverse, List.mem_map] at hq
    obtain ⟨i, -, rfl⟩ := hq
    rfl
  · rw [snd_pushAll]
    exact List.nodup_reverse.mpr (List.nodup_finRange n)
  · intro q _
    rfl
  · intro i hout
    exact absurd (hall i) hout
  · intro i hout
    exact absurd (hall i) hout
  · exact hbudget
  · simp

/-- The popped entry is one of the heap, and no entry has a better ratio. -/
structure Pops (q : Entry n) (others heap : List (Entry n)) : Prop where
  perm : heap.Perm (q :: others)
  le : ∀ other ∈ heap, q.1 ≤ other.1

theorem extractLeast_pops (first : Entry n) (rest : List (Entry n)) :
    Pops (extractLeast tupleOrder first rest).1
      (extractLeast tupleOrder first rest).2 (first :: rest) where
  perm := (extractLeast_perm tupleOrder first rest).symm
  le := fun other hother =>
    Prod.Lex.monotone_fst _ _
      (extractLeast_le tupleOrder first rest other hother)

variable {q : Entry n} {others : List (Entry n)}

theorem Pops.mem_snd (hpops : Pops q others heap) (i : Fin n) :
    i ∈ heap.map Prod.snd ↔ i = q.2 ∨ i ∈ others.map Prod.snd := by
  rw [(hpops.perm.map Prod.snd).mem_iff, List.map_cons, List.mem_cons]

theorem Taking.popped (htaking : Taking profits weights budget heap capacity x)
    (hpops : Pops q others heap) :
    q = entry profits weights q.2 ∧ x q.2 = 0 ∧
      q.2 ∉ others.map Prod.snd ∧ (others.map Prod.snd).Nodup := by
  have hq : q ∈ heap := hpops.perm.mem_iff.mpr List.mem_cons_self
  have hnodup := (hpops.perm.map Prod.snd).nodup_iff.mp htaking.nodup
  rw [List.map_cons, List.nodup_cons] at hnodup
  exact ⟨htaking.entries q hq, htaking.waiting q hq, hnodup⟩

theorem Taking.take (htaking : Taking profits weights budget heap capacity x)
    (hpops : Pops q others heap) (hfits : weights q.2 ≤ capacity) :
    Taking profits weights budget others (capacity - weights q.2)
      (Function.update x q.2 1) := by
  obtain ⟨hentry, hzero, hout, hnodup⟩ := htaking.popped hpops
  have hmem : ∀ other ∈ others, other ∈ heap := fun other hother =>
    hpops.perm.mem_iff.mpr (List.mem_cons_of_mem q hother)
  constructor
  · intro other hother
    exact htaking.entries other (hmem other hother)
  · exact hnodup
  · intro other hother
    have hne : other.2 ≠ q.2 := by
      intro heq
      exact hout (heq ▸ List.mem_map_of_mem hother)
    rw [Function.update_of_ne hne]
    exact htaking.waiting other (hmem other hother)
  · intro i hi
    by_cases heq : i = q.2
    · rw [heq, Function.update_self]
    · rw [Function.update_of_ne heq]
      apply htaking.taken
      rw [hpops.mem_snd]
      exact not_or_intro heq hi
  · intro i hi other hother
    by_cases heq : i = q.2
    · have hratio : -profits i / weights i = q.1 := by
        rw [heq, hentry]
        rfl
      rw [hratio]
      exact hpops.le other (hmem other hother)
    · apply htaking.better i _ other (hmem other hother)
      rw [hpops.mem_snd]
      exact not_or_intro heq hi
  · exact sub_nonneg.mpr hfits
  · rw [sum_update_mul, hzero, sub_zero, one_mul, ← htaking.spent]
    ring

/-- The heap is empty: every item is taken whole. -/
theorem Taking.certified_nil
    (htaking : Taking profits weights budget [] capacity x)
    (hprofits : ∀ i, 0 ≤ profits i) :
    Feasible weights budget x ∧ Certified profits weights budget 0 x := by
  have hone : ∀ i, x i = 1 := fun i => htaking.taken i List.not_mem_nil
  have hspent := htaking.spent
  have hrest := htaking.capacity_nonneg
  constructor
  · constructor
    · intro i
      rw [hone]
      exact zero_le_one
    · intro i
      exact (hone i).le
    · linarith
  · constructor
    · exact le_rfl
    · intro i
      exact Or.inl (hone i)
    · intro i
      rw [zero_mul]
      exact Or.inr (hprofits i)
    · exact Or.inl rfl

/-- The ratio of the popped item lies between those of the items outside the
heap and those of the items that stay. -/
theorem Taking.ratio_cases
    (htaking : Taking profits weights budget heap capacity x)
    (hpops : Pops q others heap) (hweights : ∀ i, 0 < weights i)
    (i : Fin n) :
    i = q.2 ∨
      (i ≠ q.2 ∧ x i = 1 ∧
        profits q.2 / weights q.2 * weights i ≤ profits i) ∨
      (i ≠ q.2 ∧ x i = 0 ∧
        profits i ≤ profits q.2 / weights q.2 * weights i) := by
  by_cases heq : i = q.2
  · exact Or.inl heq
  obtain ⟨hentry, -, -, -⟩ := htaking.popped hpops
  have hratio : q.1 = -(profits q.2 / weights q.2) := by
    rw [← neg_div]
    exact congrArg Prod.fst hentry
  by_cases hin : i ∈ heap.map Prod.snd
  · obtain ⟨other, hother, rfl⟩ := List.mem_map.mp hin
    refine Or.inr (Or.inr ⟨heq, htaking.waiting other hother, ?_⟩)
    have hle := hpops.le other hother
    rw [hratio, htaking.entries other hother] at hle
    have hle' : profits other.2 / weights other.2 ≤
        profits q.2 / weights q.2 := by
      simpa [entry, neg_div] using hle
    exact (div_le_iff₀ (hweights other.2)).mp hle'
  · refine Or.inr (Or.inl ⟨heq, htaking.taken i hin, ?_⟩)
    have hle := htaking.better i hin q
      (hpops.perm.mem_iff.mpr List.mem_cons_self)
    rw [hratio, neg_div, neg_le_neg_iff] at hle
    exact (le_div_iff₀ (hweights i)).mp hle

/-- The popped item does not fit: its ratio is the rate. -/
theorem Taking.certified_part
    (htaking : Taking profits weights budget heap capacity x)
    (hpops : Pops q others heap) (hprofits : ∀ i, 0 ≤ profits i)
    (hweights : ∀ i, 0 < weights i) (hlarge : capacity < weights q.2) :
    let x' := Function.update x q.2 (capacity / weights q.2)
    Feasible weights budget x' ∧
      Certified profits weights budget (profits q.2 / weights q.2) x' := by
  intro x'
  obtain ⟨-, hzero, -, -⟩ := htaking.popped hpops
  have hself : x' q.2 = capacity / weights q.2 := Function.update_self _ _ _
  have hsame : ∀ i, i ≠ q.2 → x' i = x i :=
    fun i hne => Function.update_of_ne hne _ _
  have hused : ∑ i, x' i * weights i = budget := by
    rw [sum_update_mul, hzero, sub_zero, div_mul_cancel₀ _ (hweights q.2).ne']
    exact htaking.spent
  have hcases := htaking.ratio_cases hpops hweights
  constructor
  · constructor
    · intro i
      rcases hcases i with rfl | ⟨hne, hone, -⟩ | ⟨hne, hnone, -⟩
      · rw [hself]
        exact div_nonneg htaking.capacity_nonneg (hweights q.2).le
      · rw [hsame i hne, hone]
        exact zero_le_one
      · exact ((hsame i hne).trans hnone).ge
    · intro i
      rcases hcases i with rfl | ⟨hne, hone, -⟩ | ⟨hne, hnone, -⟩
      · rw [hself]
        exact (div_le_one (hweights q.2)).mpr hlarge.le
      · exact ((hsame i hne).trans hone).le
      · rw [hsame i hne, hnone]
        exact zero_le_one
    · exact hused.le
  · have hrate : profits q.2 / weights q.2 * weights q.2 = profits q.2 :=
      div_mul_cancel₀ _ (hweights q.2).ne'
    constructor
    · exact div_nonneg (hprofits q.2) (hweights q.2).le
    · intro i
      rcases hcases i with rfl | ⟨hne, hone, -⟩ | ⟨-, -, hle⟩
      · exact Or.inr hrate.ge
      · exact Or.inl ((hsame i hne).trans hone)
      · exact Or.inr hle
    · intro i
      rcases hcases i with rfl | ⟨-, -, hle⟩ | ⟨hne, hnone, -⟩
      · exact Or.inr hrate.le
      · exact Or.inr hle
      · exact Or.inl ((hsame i hne).trans hnone)
    · exact Or.inr hused

theorem takeAll_certified
    (htaking : Taking profits weights budget heap capacity x)
    (hprofits : ∀ i, 0 ≤ profits i) (hweights : ∀ i, 0 < weights i) :
    Feasible weights budget (takeAll weights heap capacity x) ∧
      ∃ rate, Certified profits weights budget rate
        (takeAll weights heap capacity x) := by
  induction hlength : heap.length generalizing heap capacity x with
  | zero =>
      rw [List.eq_nil_of_length_eq_zero hlength] at htaking ⊢
      rw [takeAll]
      obtain ⟨hfeasible, hcertified⟩ := htaking.certified_nil hprofits
      exact ⟨hfeasible, 0, hcertified⟩
  | succ size ih =>
      cases heap with
      | nil => cases hlength
      | cons first rest =>
          have hpops := extractLeast_pops first rest
          rw [takeAll]
          by_cases hfits : weights (extractLeast tupleOrder first rest).1.2 ≤
              capacity
          · rw [if_pos hfits]
            apply ih (htaking.take hpops hfits)
            have hsize := hpops.perm.length_eq
            rw [hlength, List.length_cons] at hsize
            exact (Nat.succ.inj hsize).symm
          · rw [if_neg hfits]
            obtain ⟨hfeasible, hcertified⟩ := htaking.certified_part hpops
              hprofits hweights (not_le.mp hfits)
            exact ⟨hfeasible, _, hcertified⟩

/-- The loop fills the knapsack as well as any choice of fractions. -/
theorem greedy_optimal (profits weights : Fin n → ℚ) (capacity : ℚ)
    (hprofits : ∀ i, 0 ≤ profits i) (hweights : ∀ i, 0 < weights i)
    (hcapacity : 0 ≤ capacity) :
    Feasible weights capacity (greedy profits weights capacity) ∧
      ∀ y, Feasible weights capacity y →
        totalProfit profits y ≤
          totalProfit profits (greedy profits weights capacity) := by
  obtain ⟨hfeasible, rate, hcertified⟩ := takeAll_certified
    (taking_start profits weights hcapacity) hprofits hweights
  refine ⟨hfeasible, ?_⟩
  intro y hy
  rw [totalProfit_eq_sum, totalProfit_eq_sum]
  exact hcertified.optimal hy

/-- With capacity 2 there is room for the second item and a third of the
first. -/
theorem greedy_optimal_two_items :
    Feasible ![3, 1] 2 (greedy ![6, 4] ![3, 1] 2) ∧
      ∀ y, Feasible ![3, 1] 2 y →
        totalProfit ![6, 4] y ≤
          totalProfit ![6, 4] (greedy ![6, 4] ![3, 1] 2) :=
  greedy_optimal ![6, 4] ![3, 1] 2 (by decide) (by decide) (by decide)

end KnapsackGreedy
end TradingStudies
