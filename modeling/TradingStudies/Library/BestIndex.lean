import Mathlib

/-!
# A cached best index

A table of levels is often accompanied by the index of its best occupied
level.  The cache is raised when a level is filled and repaired by a linear
scan when the best level is emptied; while no level is occupied it rests on
some idle value.

`Tracks` states what such a cache knows, over an arbitrary linear order, so
that a cache of the least index is the same notion for the dual order.  The two
scans are the loops which repair it.
-/

namespace BestIndex

section Scans

variable {found : ℕ → Bool}

/-- `for (i = bound - 1; i >= 0; --i) if (found i) return i;` -/
def scanDown (found : ℕ → Bool) : ℕ → Option ℕ
  | 0 => none
  | bound + 1 => if found bound then some bound else scanDown found bound

/-- `for (i = start; i < start + steps; ++i) if (found i) return i;` -/
def scanUp (found : ℕ → Bool) : ℕ → ℕ → Option ℕ
  | 0, _ => none
  | steps + 1, start =>
      if found start then some start else scanUp found steps (start + 1)

theorem scanDown_eq_none {bound : ℕ} (hscan : scanDown found bound = none) :
    ∀ index < bound, found index = false := by
  induction bound with
  | zero => intro index hindex; omega
  | succ bound ih =>
      by_cases hfound : found bound
      · simp [scanDown, hfound] at hscan
      · simp only [scanDown, hfound, Bool.false_eq_true, if_false] at hscan
        intro index hindex
        by_cases heq : index = bound
        · subst index
          simpa using hfound
        · exact ih hscan index (by omega)

theorem scanDown_eq_some {bound best : ℕ}
    (hscan : scanDown found bound = some best) :
    best < bound ∧ found best = true ∧
      ∀ index, best < index → index < bound → found index = false := by
  induction bound with
  | zero => simp [scanDown] at hscan
  | succ bound ih =>
      by_cases hfound : found bound
      · simp only [scanDown, hfound, if_true, Option.some.injEq] at hscan
        subst best
        exact ⟨by omega, hfound, fun index hlow hhigh => by omega⟩
      · simp only [scanDown, hfound, Bool.false_eq_true, if_false] at hscan
        rcases ih hscan with ⟨hlt, hbest, habove⟩
        refine ⟨by omega, hbest, ?_⟩
        intro index hlow hhigh
        by_cases heq : index = bound
        · subst index
          simpa using hfound
        · exact habove index hlow (by omega)

theorem scanUp_eq_none {steps start : ℕ}
    (hscan : scanUp found steps start = none) :
    ∀ index, start ≤ index → index < start + steps → found index = false := by
  induction steps generalizing start with
  | zero => intro index hlow hhigh; omega
  | succ steps ih =>
      by_cases hfound : found start
      · simp [scanUp, hfound] at hscan
      · simp only [scanUp, hfound, Bool.false_eq_true, if_false] at hscan
        intro index hlow hhigh
        by_cases heq : index = start
        · subst index
          simpa using hfound
        · exact ih hscan index (by omega) (by omega)

theorem scanUp_eq_some {steps start best : ℕ}
    (hscan : scanUp found steps start = some best) :
    start ≤ best ∧ best < start + steps ∧ found best = true ∧
      ∀ index, start ≤ index → index < best → found index = false := by
  induction steps generalizing start with
  | zero => simp [scanUp] at hscan
  | succ steps ih =>
      by_cases hfound : found start
      · simp only [scanUp, hfound, if_true, Option.some.injEq] at hscan
        subst best
        exact ⟨le_rfl, by omega, hfound, fun index hlow hhigh => by omega⟩
      · simp only [scanUp, hfound, Bool.false_eq_true, if_false] at hscan
        rcases ih hscan with ⟨hstart, hlt, hbest, hbelow⟩
        refine ⟨by omega, by omega, hbest, ?_⟩
        intro index hlow hhigh
        by_cases heq : index = start
        · subst index
          simpa using hfound
        · exact hbelow index (by omega) hhigh

theorem scanDown_congr {other : ℕ → Bool} {bound : ℕ}
    (hsame : ∀ index < bound, found index = other index) :
    scanDown found bound = scanDown other bound := by
  induction bound with
  | zero => rfl
  | succ bound ih =>
      simp only [scanDown]
      rw [hsame bound (by omega), ih fun index hindex =>
        hsame index (by omega)]

theorem scanUp_congr {other : ℕ → Bool} {steps start : ℕ}
    (hsame : ∀ index, start ≤ index → index < start + steps →
      found index = other index) :
    scanUp found steps start = scanUp other steps start := by
  induction steps generalizing start with
  | zero => rfl
  | succ steps ih =>
      simp only [scanUp]
      rw [hsame start le_rfl (by omega), ih fun index hlow hhigh =>
        hsame index (by omega) (by omega)]

variable {Row : Type*}

/-- `for (i = bound - 1; i >= 0 && rows.size() < count; --i)
if (found i) rows.push_back(row i);` -/
def collectDown (found : ℕ → Bool) (row : ℕ → Row) (count : ℕ) :
    ℕ → List Row → List Row
  | 0, rows => rows
  | bound + 1, rows =>
      if rows.length < count then
        collectDown found row count bound
          (if found bound then rows ++ [row bound] else rows)
      else rows

/-- `for (i = start; i < start + steps && rows.size() < count; ++i)
if (found i) rows.push_back(row i);` -/
def collectUp (found : ℕ → Bool) (row : ℕ → Row) (count : ℕ) :
    ℕ → ℕ → List Row → List Row
  | 0, _, rows => rows
  | steps + 1, start, rows =>
      if rows.length < count then
        collectUp found row count steps (start + 1)
          (if found start then rows ++ [row start] else rows)
      else rows

/-- One round of either loop, on what is still to be looked at. -/
theorem collect_step {row : ℕ → Row} {count index : ℕ} (rest : List ℕ)
    {rows : List Row} (hroom : rows.length < count) :
    (if found index then rows ++ [row index] else rows) ++
        ((rest.filter found).take (count -
          (if found index then rows ++ [row index] else rows).length)).map
            row =
      rows ++ (((index :: rest).filter found).take
        (count - rows.length)).map row := by
  by_cases hfound : found index
  · have hleft : count - rows.length = count - (rows.length + 1) + 1 := by
      omega
    rw [if_pos hfound, List.filter_cons_of_pos hfound, hleft,
      List.take_succ_cons, List.map_cons, List.length_append,
      List.length_singleton, List.append_assoc, List.singleton_append]
  · rw [if_neg hfound, List.filter_cons_of_neg hfound]

/-- The rows are those of the first indices found, going down. -/
theorem collectDown_eq (row : ℕ → Row) (count bound : ℕ) (rows : List Row) :
    collectDown found row count bound rows =
      rows ++ (((List.range bound).reverse.filter found).take
        (count - rows.length)).map row := by
  induction bound generalizing rows with
  | zero => simp [collectDown]
  | succ bound ih =>
      rw [collectDown]
      by_cases hroom : rows.length < count
      · rw [if_pos hroom, ih, collect_step _ hroom, List.range_succ,
          List.reverse_append, List.reverse_singleton, List.singleton_append]
      · have hfull : count - rows.length = 0 := by omega
        rw [if_neg hroom, hfull, List.take_zero, List.map_nil,
          List.append_nil]

/-- The rows are those of the first indices found, going up. -/
theorem collectUp_eq (row : ℕ → Row) (count steps start : ℕ)
    (rows : List Row) :
    collectUp found row count steps start rows =
      rows ++ (((List.range' start steps).filter found).take
        (count - rows.length)).map row := by
  induction steps generalizing start rows with
  | zero => simp [collectUp]
  | succ steps ih =>
      rw [collectUp]
      by_cases hroom : rows.length < count
      · rw [if_pos hroom, ih, collect_step _ hroom, List.range'_succ]
      · have hfull : count - rows.length = 0 := by omega
        rw [if_neg hroom, hfull, List.take_zero, List.map_nil,
          List.append_nil]

theorem range_split {start bound : ℕ} (hstart : start ≤ bound) :
    List.range bound =
      List.range start ++ List.range' start (bound - start) := by
  have happend := @List.range'_append_1 0 start (bound - start)
  rw [Nat.zero_add, Nat.add_sub_cancel' hstart] at happend
  rw [List.range_eq_range', List.range_eq_range', happend]

/-- What lies below the first index found may as well be looked at. -/
theorem filter_range'_of_below {start bound : ℕ} (hstart : start ≤ bound)
    (hbelow : ∀ index < start, found index = false) :
    (List.range' start (bound - start)).filter found =
      (List.range bound).filter found := by
  have hnone : (List.range start).filter found = [] := by
    apply List.filter_eq_nil_iff.mpr
    intro index hindex
    simp [hbelow index (List.mem_range.mp hindex)]
  rw [range_split hstart, List.filter_append, hnone, List.nil_append]

/-- What lies above the last index found may as well be looked at. -/
theorem filter_range_of_above {start bound : ℕ} (hstart : start ≤ bound)
    (habove : ∀ index, start ≤ index → index < bound →
      found index = false) :
    (List.range start).filter found = (List.range bound).filter found := by
  have hnone : (List.range' start (bound - start)).filter found = [] := by
    apply List.filter_eq_nil_iff.mpr
    intro index hindex
    obtain ⟨hlow, hhigh⟩ := List.mem_range'_1.mp hindex
    simp [habove index hlow (by omega)]
  rw [range_split hstart, List.filter_append, hnone, List.append_nil]

end Scans

section Tracking

variable {ι : Type*} [LinearOrder ι] {occupied occupied' idle : Set ι}
  {best index : ι}

/-- The cache holds the greatest occupied index, or an idle value while
nothing is occupied. -/
structure Tracks (occupied idle : Set ι) (best : ι) : Prop where
  greatest : occupied.Nonempty → IsGreatest occupied best
  resting : ¬ occupied.Nonempty → best ∈ idle

theorem Tracks.fill (htracks : Tracks occupied idle best)
    (hidle : ∀ value ∈ idle, value ≤ index)
    (hmem : ∀ other, other ∈ occupied' ↔ other ∈ occupied ∨ other = index) :
    Tracks occupied' idle (if best < index then index else best) := by
  have hnonempty : occupied'.Nonempty := ⟨index, (hmem index).mpr (Or.inr rfl)⟩
  refine ⟨fun _ => ?_, fun hempty => absurd hnonempty hempty⟩
  by_cases hoccupied : occupied.Nonempty
  · obtain ⟨hbest, hupper⟩ := htracks.greatest hoccupied
    by_cases hlt : best < index
    · rw [if_pos hlt]
      refine ⟨(hmem index).mpr (Or.inr rfl), ?_⟩
      intro other hother
      rcases (hmem other).mp hother with hother | rfl
      · exact (hupper hother).trans hlt.le
      · exact le_rfl
    · rw [if_neg hlt]
      refine ⟨(hmem best).mpr (Or.inl hbest), ?_⟩
      intro other hother
      rcases (hmem other).mp hother with hother | rfl
      · exact hupper hother
      · exact not_lt.mp hlt
  · have hle := hidle best (htracks.resting hoccupied)
    have hvalue : (if best < index then index else best) = index := by
      by_cases hlt : best < index
      · rw [if_pos hlt]
      · rw [if_neg hlt]
        exact le_antisymm hle (not_lt.mp hlt)
    rw [hvalue]
    refine ⟨(hmem index).mpr (Or.inr rfl), ?_⟩
    intro other hother
    rcases (hmem other).mp hother with hother | rfl
    · exact absurd ⟨other, hother⟩ hoccupied
    · exact le_rfl

theorem Tracks.congr (htracks : Tracks occupied idle best)
    (hmem : ∀ other, other ∈ occupied' ↔ other ∈ occupied) :
    Tracks occupied' idle best := by
  have heq : occupied' = occupied := Set.ext hmem
  rw [heq]
  exact htracks

/-- Emptying a level that is not the best one leaves the cache right. -/
theorem Tracks.drain_other (htracks : Tracks occupied idle best)
    (hindex : index ∈ occupied) (hne : index ≠ best)
    (hmem : ∀ other, other ∈ occupied' ↔ other ∈ occupied ∧ other ≠ index) :
    Tracks occupied' idle best := by
  rcases htracks.greatest ⟨index, hindex⟩ with ⟨hbest, hupper⟩
  have hbest' : best ∈ occupied' := (hmem best).mpr ⟨hbest, hne.symm⟩
  refine ⟨fun _ => ⟨hbest', ?_⟩, fun hempty => absurd ⟨best, hbest'⟩ hempty⟩
  intro other hother
  exact hupper ((hmem other).mp hother).1

/-- The repaired cache after the best level was emptied. -/
theorem tracks_of_found (hbest : best ∈ occupied')
    (hupper : ∀ other ∈ occupied', other ≤ best) :
    Tracks occupied' idle best :=
  ⟨fun _ => ⟨hbest, hupper⟩, fun hempty => absurd ⟨best, hbest⟩ hempty⟩

theorem tracks_of_exhausted (hempty : ∀ other, other ∉ occupied')
    (hidle : best ∈ idle) :
    Tracks occupied' idle best :=
  ⟨fun hnonempty => absurd hnonempty.some_mem (hempty _), fun _ => hidle⟩

end Tracking

end BestIndex
