import Mathlib

/-!
# Loops that probe one place after the other

A probe loop visits `start`, `next start`, `next (next start)` and so on.  It
ends at the first place that stops it, or when it is back at `origin`, if it
watches for that.  The loop carries a number of steps and has no result when
they are used up.
-/

namespace ProbeLoop

variable {Place : Type*}

inductive Outcome (Place : Type*)
  | stopped (place : Place)
  | wrapped
  deriving DecidableEq, Repr

section FirstStop

variable {next : Place → Place} {stop : Place → Bool}

/-- The place `distance` is the first one on the way that stops the loop. -/
structure FirstStop (next : Place → Place) (stop : Place → Bool)
    (start : Place) (distance : ℕ) : Prop where
  stops : stop (next^[distance] start) = true
  before : ∀ earlier < distance, stop (next^[earlier] start) = false

theorem exists_firstStop {start : Place} {distance : ℕ}
    (hstop : stop (next^[distance] start) = true) :
    ∃ first ≤ distance, FirstStop next stop start first := by
  have hexists : ∃ d, stop (next^[d] start) = true := ⟨distance, hstop⟩
  refine ⟨Nat.find hexists, Nat.find_min' hexists hstop, ?_⟩
  exact
    { stops := Nat.find_spec hexists
      before := fun earlier hearlier =>
        Bool.eq_false_iff.mpr (Nat.find_min hexists hearlier) }

theorem FirstStop.tail {start : Place} {distance : ℕ}
    (hfirst : FirstStop next stop start (distance + 1)) :
    FirstStop next stop (next start) distance where
  stops := hfirst.stops
  before := fun earlier hearlier =>
    hfirst.before (earlier + 1) (Nat.succ_lt_succ hearlier)

end FirstStop

variable [DecidableEq Place]

def probe (next : Place → Place) (stop : Place → Bool)
    (origin : Option Place) : ℕ → Place → Option (Outcome Place)
  | 0, _ => none
  | steps + 1, place =>
      if stop place then some (.stopped place)
      else if origin = some (next place) then some .wrapped
      else probe next stop origin steps (next place)

variable {next : Place → Place} {stop : Place → Bool}
  {origin : Option Place}

theorem probe_of_firstStop {start : Place} {distance steps : ℕ}
    (hfirst : FirstStop next stop start distance)
    (horigin : ∀ earlier < distance,
      origin ≠ some (next^[earlier + 1] start))
    (hsteps : distance < steps) :
    probe next stop origin steps start =
      some (.stopped (next^[distance] start)) := by
  induction distance generalizing start steps with
  | zero =>
      obtain ⟨more, rfl⟩ : ∃ more, steps = more + 1 :=
        ⟨steps - 1, by omega⟩
      have hstop : stop start = true := hfirst.stops
      simp [probe, hstop]
  | succ distance ih =>
      obtain ⟨more, rfl⟩ : ∃ more, steps = more + 1 :=
        ⟨steps - 1, by omega⟩
      have hpass : stop start = false :=
        hfirst.before 0 (Nat.succ_pos distance)
      have hgo : origin ≠ some (next start) :=
        horigin 0 (Nat.succ_pos distance)
      have hrest := ih hfirst.tail
        (fun earlier hearlier =>
          horigin (earlier + 1) (Nat.succ_lt_succ hearlier))
        (Nat.lt_of_succ_lt_succ hsteps)
      rw [probe, if_neg (by simp [hpass]), if_neg hgo, hrest]
      rfl

/-- No place of the round stops a loop that watches for its origin. -/
theorem probe_of_round (length : ℕ) {start : Place} {steps : ℕ}
    (hpass : ∀ earlier ≤ length, stop (next^[earlier] start) = false)
    (horigin : ∀ earlier < length,
      origin ≠ some (next^[earlier + 1] start))
    (hround : origin = some (next^[length + 1] start))
    (hsteps : length < steps) :
    probe next stop origin steps start = some .wrapped := by
  induction length generalizing start steps with
  | zero =>
      obtain ⟨more, rfl⟩ : ∃ more, steps = more + 1 :=
        ⟨steps - 1, by omega⟩
      have hstart : stop start = false := hpass 0 le_rfl
      have hback : origin = some (next start) := hround
      simp [probe, hstart, hback]
  | succ length ih =>
      obtain ⟨more, rfl⟩ : ∃ more, steps = more + 1 :=
        ⟨steps - 1, by omega⟩
      have hstart : stop start = false := hpass 0 (Nat.zero_le _)
      have hgo : origin ≠ some (next start) :=
        horigin 0 (Nat.succ_pos length)
      rw [probe, if_neg (by simp [hstart]), if_neg hgo]
      exact ih
        (fun earlier hearlier =>
          hpass (earlier + 1) (Nat.succ_le_succ hearlier))
        (fun earlier hearlier =>
          horigin (earlier + 1) (Nat.succ_lt_succ hearlier))
        hround (Nat.lt_of_succ_lt_succ hsteps)

end ProbeLoop
