import Mathlib

/-!
# Places of tickets in a ring

Tickets are handed out in order and the ticket `n` uses the place
`n % capacity` of a ring.  Tickets which are less than `capacity` apart use
different places, and the next ticket with the same place is `capacity` later.

A ring that is written in the order of the tickets therefore holds the last
`capacity` values written.
-/

namespace RingIndex

variable {capacity : ℕ} [NeZero capacity]

def place (capacity : ℕ) [NeZero capacity] (ticket : ℕ) : Fin capacity :=
  ⟨ticket % capacity, Nat.mod_lt _ (Nat.pos_of_neZero capacity)⟩

@[simp] theorem place_add_capacity (ticket : ℕ) :
    place capacity (ticket + capacity) = place capacity ticket := by
  apply Fin.ext
  exact Nat.add_mod_right ticket capacity

theorem place_val (index : Fin capacity) :
    place capacity index.val = index := by
  apply Fin.ext
  exact Nat.mod_eq_of_lt index.isLt

/-- Within one round a place determines its ticket. -/
theorem eq_of_place_eq {first second : ℕ}
    (hplace : place capacity first = place capacity second)
    (hle : first ≤ second) (hlt : second < first + capacity) :
    first = second := by
  have hmod : first ≡ second [MOD capacity] := congrArg Fin.val hplace
  have hdvd : capacity ∣ second - first :=
    (Nat.modEq_iff_dvd' hle).mp hmod
  have hzero : second - first = 0 :=
    Nat.eq_zero_of_dvd_of_lt hdvd (by omega)
  omega

theorem place_add_ne {first second : ℕ} (hfirst : first < capacity)
    (hsecond : second < capacity) (hne : first ≠ second) (ticket : ℕ) :
    place capacity (ticket + first) ≠ place capacity (ticket + second) := by
  intro hplace
  rcases Nat.lt_or_gt_of_ne hne with hlt | hgt
  · have heq := eq_of_place_eq hplace (by omega) (by omega)
    omega
  · have heq := eq_of_place_eq hplace.symm (by omega) (by omega)
    omega

theorem place_succ_ne (htwo : 2 ≤ capacity) (ticket : ℕ) :
    place capacity (ticket + 1) ≠ place capacity ticket := by
  intro hplace
  have heq := eq_of_place_eq hplace.symm (by omega) (by omega)
  omega

/-! ## The values a ring holds -/

variable {Value : Type*}

/-- Of the values written so far, the ring holds the last `capacity` ones. -/
def HoldsLast (buffer : Fin capacity → Option Value) (written : List Value) :
    Prop :=
  ∀ ticket, ticket < written.length → written.length ≤ ticket + capacity →
    buffer (place capacity ticket) = written[ticket]?

theorem holdsLast_nil (buffer : Fin capacity → Option Value) :
    HoldsLast buffer [] := by
  intro ticket hticket
  simp at hticket

theorem HoldsLast.write
    {buffer : Fin capacity → Option Value} {written : List Value}
    (hholds : HoldsLast buffer written) (value : Value) :
    HoldsLast
      (Function.update buffer (place capacity written.length) (some value))
      (written ++ [value]) := by
  intro ticket hticket hrecent
  simp only [List.length_append, List.length_singleton] at hticket hrecent
  by_cases hlast : ticket = written.length
  · subst hlast
    simp
  · have hearlier : ticket < written.length := by omega
    have hplace : place capacity ticket ≠ place capacity written.length := by
      intro heq
      exact hlast (eq_of_place_eq heq hearlier.le (by omega))
    rw [Function.update_of_ne hplace, List.getElem?_append_left hearlier]
    exact hholds ticket hearlier (by omega)

end RingIndex
