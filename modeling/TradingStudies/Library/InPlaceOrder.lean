import TradingStudies.Library.SearchOrder

/-!
# Sorting a list in place

A program that sorts in place exchanges two entries at a time and keeps a part
of the list in its final order: a prefix that takes in the next value, a prefix
of the least values, or a suffix of the greatest.  Each of the three loops has
a rule which says what one round owes and what the whole loop then leaves.

The list is written as the part before an index and the part from it on, so an
index is the length of what stands before it.
-/

namespace InPlaceOrder

open SearchOrder

variable {α : Type*}

/-- Exchange two entries, both of which the list must have. -/
def exchange (lst : List α) (first second : ℕ) : Option (List α) :=
  lst[first]?.bind fun a =>
    lst[second]?.bind fun b => some ((lst.set first b).set second a)

theorem getElem?_length_append (front : List α) (value : α)
    (rest : List α) : (front ++ value :: rest)[front.length]? = some value := by
  simp

theorem getElem?_length_append_succ (front : List α) (value later : α)
    (rest : List α) :
    (front ++ value :: later :: rest)[front.length + 1]? = some later := by
  simp

theorem set_length_append (front : List α) (value next : α)
    (rest : List α) :
    (front ++ value :: rest).set front.length next =
      front ++ next :: rest := by
  simp

/-- The first index is the length of `front`, and `between` lies between the
two entries. -/
theorem exchange_apart (front : List α) (value : α) (between : List α)
    (later : α) (rest : List α) :
    exchange (front ++ value :: (between ++ later :: rest)) front.length
        (front.length + 1 + between.length) =
      some (front ++ later :: (between ++ value :: rest)) := by
  have hlength : front.length + 1 + between.length =
      (front ++ value :: between).length := by
    rw [List.length_append, List.length_cons]
    omega
  have hlength' : front.length + 1 + between.length =
      (front ++ later :: between).length := by
    rw [List.length_append, List.length_cons]
    omega
  have hsecond : (front ++ value :: (between ++ later :: rest))[
      front.length + 1 + between.length]? = some later := by
    rw [hlength, ← List.cons_append, ← List.append_assoc]
    exact getElem?_length_append _ _ _
  unfold exchange
  rw [getElem?_length_append, Option.bind_some, hsecond, Option.bind_some,
    set_length_append, hlength', ← List.cons_append, ← List.append_assoc,
    set_length_append, List.append_assoc, List.cons_append]

theorem exchange_comm (lst : List α) (first second : ℕ) :
    exchange lst first second = exchange lst second first := by
  unfold exchange
  cases hfirst : lst[first]? with
  | none => cases lst[second]? <;> rfl
  | some a =>
      cases hsecond : lst[second]? with
      | none => rfl
      | some b =>
          simp only [Option.bind_some, Option.some.injEq]
          by_cases hsame : first = second
          · subst hsame
            rw [hfirst] at hsecond
            cases hsecond
            rfl
          · exact List.set_comm b a hsame

theorem exchange_adjacent (front : List α) (value later : α)
    (rest : List α) :
    exchange (front ++ value :: later :: rest) front.length
        (front.length + 1) =
      some (front ++ later :: value :: rest) :=
  exchange_apart front value [] later rest

variable [LinearOrder α]

/-! ## A prefix which takes in the next value -/

theorem insertions_run (step : List α → ℕ → Option (List α))
    (hstep : ∀ front value rest, InOrder front →
      ∃ front', step (front ++ value :: rest) front.length =
        some (front' ++ rest) ∧ Adds value front front')
    {front : List α} (hfront : InOrder front) (rest : List α) :
    ∃ final, (List.range' front.length rest.length).foldlM step
        (front ++ rest) = some final ∧
      Shows final (front ++ rest : List α) := by
  induction rest generalizing front with
  | nil => exact ⟨front, by simp, hfront, by simp⟩
  | cons value rest ih =>
      obtain ⟨front', hround, hadds⟩ := hstep front value rest hfront
      have hlength : front.length + 1 = front'.length := by
        rw [hadds.perm.length_eq, List.length_cons]
      obtain ⟨final, hrun, horder, hsame⟩ := ih hadds.inOrder
      refine ⟨final, ?_, horder, hsame.trans (Multiset.coe_eq_coe.mpr ?_)⟩
      · rw [List.length_cons, List.range'_succ, List.foldlM_cons, hround,
          hlength]
        exact hrun
      · exact (hadds.perm.append_right rest).trans List.perm_middle.symm

/-! ## A prefix of the least values -/

structure Selects (least : α) (others lst : List α) : Prop where
  perm : (least :: others).Perm lst
  le : ∀ other ∈ others, least ≤ other

/-- The front is sorted, and below everything else. -/
structure Placed (front rest : List α) : Prop where
  inOrder : InOrder front
  le : ∀ value ∈ front, ∀ later ∈ rest, value ≤ later

variable {front rest others : List α} {least : α}

theorem placed_nil (rest : List α) : Placed [] rest :=
  ⟨List.Pairwise.nil, fun _ hvalue => absurd hvalue List.not_mem_nil⟩

theorem Placed.select (hplaced : Placed front rest)
    (hselects : Selects least others rest) :
    Placed (front ++ [least]) others := by
  have hmem : ∀ value ∈ least :: others, value ∈ rest :=
    fun value hvalue => hselects.perm.mem_iff.mp hvalue
  constructor
  · refine inOrder_node_iff.mpr ⟨hplaced.inOrder, List.Pairwise.nil, ?_, ?_⟩
    · intro value hvalue
      exact hplaced.le value hvalue least (hmem least List.mem_cons_self)
    · intro value hvalue
      exact absurd hvalue List.not_mem_nil
  · intro value hvalue later hlater
    rcases List.mem_append.mp hvalue with hfront | hleast
    · exact hplaced.le value hfront later
        (hmem later (List.mem_cons_of_mem least hlater))
    · rw [List.mem_singleton.mp hleast]
      exact hselects.le later hlater

theorem Selects.append_perm (hselects : Selects least others rest)
    (front : List α) :
    (front ++ [least] ++ others).Perm (front ++ rest) := by
  rw [List.append_assoc]
  exact hselects.perm.append_left front

/-- The last entry has its place when the others have theirs. -/
theorem Placed.shows_last (hplaced : Placed front rest)
    (hlast : rest.length = 1) :
    Shows (front ++ rest) (front ++ rest : List α) := by
  obtain ⟨value, rfl⟩ := List.length_eq_one_iff.mp hlast
  have hselects : Selects value [] [value] :=
    ⟨List.Perm.refl _, fun _ hother => absurd hother List.not_mem_nil⟩
  exact ⟨(hplaced.select hselects).inOrder, rfl⟩

theorem selections_run (step : List α → ℕ → Option (List α))
    (hstep : ∀ front rest : List α, rest ≠ [] →
      ∃ least others, step (front ++ rest) front.length =
        some (front ++ [least] ++ others) ∧ Selects least others rest)
    (rounds : ℕ) (hplaced : Placed front rest)
    (hrounds : rest.length = rounds + 1) :
    ∃ final, (List.range' front.length rounds).foldlM step (front ++ rest) =
        some final ∧
      Shows final (front ++ rest : List α) := by
  induction rounds generalizing front rest with
  | zero => exact ⟨front ++ rest, by simp, hplaced.shows_last hrounds⟩
  | succ rounds ih =>
      have hne : rest ≠ [] := by
        rintro rfl
        cases hrounds
      obtain ⟨least, others, hround, hselects⟩ := hstep front rest hne
      have hothers : others.length = rounds + 1 := by
        have hlength := hselects.perm.length_eq
        rw [List.length_cons] at hlength
        omega
      obtain ⟨final, hrun, horder, hsame⟩ := ih (hplaced.select hselects) hothers
      refine ⟨final, ?_, horder, hsame.trans (Multiset.coe_eq_coe.mpr ?_)⟩
      · rw [List.length_append, List.length_singleton] at hrun
        rw [List.range'_succ, List.foldlM_cons, hround]
        exact hrun
      · exact hselects.append_perm front

/-! ## A suffix of the greatest values -/

/-- The tail is sorted, and above everything else. -/
structure Settled (front tail : List α) : Prop where
  inOrder : InOrder tail
  le : ∀ value ∈ front, ∀ later ∈ tail, value ≤ later

theorem settlings_run (step : List α → ℕ → Option (List α))
    (hstep : ∀ front tail : List α, front ≠ [] →
      ∃ front' greatest, step (front ++ tail) tail.length =
          some (front' ++ greatest :: tail) ∧
        (front' ++ [greatest]).Perm front ∧
        ∀ value ∈ front', value ≤ greatest)
    (rounds : ℕ) {tail : List α} (hsettled : Settled front tail)
    (hrounds : front.length = rounds) :
    ∃ final, (List.range' tail.length rounds).foldlM step (front ++ tail) =
        some final ∧
      Shows final (front ++ tail : List α) := by
  induction rounds generalizing front tail with
  | zero =>
      rw [List.length_eq_zero_iff.mp hrounds]
      exact ⟨tail, by simp, hsettled.inOrder, rfl⟩
  | succ rounds ih =>
      have hne : front ≠ [] := by
        rintro rfl
        cases hrounds
      obtain ⟨front', greatest, hround, hperm, hle⟩ := hstep front tail hne
      have hlength : front'.length = rounds := by
        have hsize := hperm.length_eq
        rw [List.length_append, List.length_singleton] at hsize
        omega
      have hmem : ∀ value ∈ front' ++ [greatest], value ∈ front :=
        fun value hvalue => hperm.mem_iff.mp hvalue
      have hnext : Settled front' (greatest :: tail) := by
        constructor
        · refine List.pairwise_cons.mpr ⟨?_, hsettled.inOrder⟩
          exact hsettled.le greatest (hmem greatest (by simp))
        · intro value hvalue later hlater
          rcases List.mem_cons.mp hlater with rfl | htail
          · exact hle value hvalue
          · exact hsettled.le value (hmem value (by simp [hvalue])) later htail
      obtain ⟨final, hrun, horder, hsame⟩ := ih hnext hlength
      refine ⟨final, ?_, horder, hsame.trans (Multiset.coe_eq_coe.mpr ?_)⟩
      · rw [List.range'_succ, List.foldlM_cons, hround]
        exact hrun
      · have happend := hperm.append_right tail
        rw [List.append_assoc] at happend
        exact happend

end InPlaceOrder
