import Mathlib

/-!
# Reading a line field by field

A reader takes characters up to a delimiter and stores them in a token.  At
the end of the line it is no longer good, and a further read leaves the token
as it is.

So the fields of the line come out one after the other, and then the last one
over and over.
-/

namespace DelimitedFields

variable {α : Type*} [DecidableEq α]

structure Reader (α : Type*) where
  rest : List α
  good : Bool
  token : List α
  deriving DecidableEq, Repr

def start (line : List α) : Reader α := ⟨line, true, []⟩

def getline (delim : α) (reader : Reader α) : Reader α :=
  if reader.good then
    match reader.rest.dropWhile (· ≠ delim) with
    | [] => ⟨[], false, reader.rest⟩
    | _ :: rest => ⟨rest, true, reader.rest.takeWhile (· ≠ delim)⟩
  else reader

/-- The field with this index, or the last one. -/
def fieldAt (fields : List (List α)) (index : ℕ) : List α :=
  fields.getD (min index (fields.length - 1)) []

omit [DecidableEq α] in
theorem fieldAt_of_lt {fields : List (List α)} {index : ℕ}
    (hindex : index < fields.length) : fieldAt fields index = fields[index] := by
  unfold fieldAt
  rw [Nat.min_eq_left (by omega)]
  exact List.getD_eq_getElem fields [] hindex

def fieldsLeft (delim : α) (reader : Reader α) : List (List α) :=
  if reader.good then reader.rest.splitOn delim else []

theorem getline_good {delim : α} {reader : Reader α}
    (hgood : reader.good = true) :
    fieldsLeft delim reader =
      (getline delim reader).token ::
        fieldsLeft delim (getline delim reader) := by
  have hsplit := List.takeWhile_append_dropWhile
    (p := fun c => decide (c ≠ delim)) (l := reader.rest)
  have hfront : delim ∉ reader.rest.takeWhile (· ≠ delim) := by
    intro hmem
    have hne := List.mem_takeWhile_imp hmem
    simp at hne
  unfold getline fieldsLeft
  rw [if_pos hgood, if_pos hgood]
  cases hrest : reader.rest.dropWhile (· ≠ delim) with
  | nil =>
      have hall : reader.rest.takeWhile (· ≠ delim) = reader.rest := by
        rw [hrest, List.append_nil] at hsplit
        exact hsplit
      rw [hall] at hfront
      exact List.splitOn_eq_singleton hfront
  | cons c rest =>
      have hdelim : c = delim := by
        have hhead := List.head?_dropWhile_not
          (fun c => decide (c ≠ delim)) reader.rest
        rw [hrest] at hhead
        simpa using hhead
      subst hdelim
      rw [hrest] at hsplit
      conv_lhs => rw [← hsplit]
      exact List.splitOn_append_cons_self_of_not_mem hfront rest

theorem getline_bad {delim : α} {reader : Reader α}
    (hbad : reader.good = false) : getline delim reader = reader := by
  unfold getline
  rw [hbad, if_neg Bool.false_ne_true]

/-- What a reader has left and what it holds after some reads. -/
structure HasRead (delim : α) (fields : List (List α)) (count : ℕ)
    (reader : Reader α) : Prop where
  left : fieldsLeft delim reader = fields.drop count
  token : 0 < count → reader.token = fieldAt fields (count - 1)

theorem start_hasRead (delim : α) (line : List α) :
    HasRead delim (line.splitOn delim) 0 (start line) where
  left := rfl
  token := fun hcount => absurd hcount (lt_irrefl 0)

theorem HasRead.getline {delim : α} {fields : List (List α)} {count : ℕ}
    {reader : Reader α} (hread : HasRead delim fields count reader)
    (hfields : fields ≠ []) :
    HasRead delim fields (count + 1) (getline delim reader) := by
  have hleft := hread.left
  cases hgood : reader.good with
  | true =>
      rw [getline_good hgood] at hleft
      have hlt : count < fields.length := by
        by_contra hge
        rw [List.drop_eq_nil_of_le (by omega)] at hleft
        cases hleft
      rw [List.drop_eq_getElem_cons hlt, List.cons.injEq] at hleft
      refine ⟨hleft.2, ?_⟩
      intro _
      rw [hleft.1, Nat.add_sub_cancel, fieldAt_of_lt hlt]
  | false =>
      rw [fieldsLeft, hgood, if_neg Bool.false_ne_true] at hleft
      have hge : fields.length ≤ count := List.drop_eq_nil_iff.mp hleft.symm
      have hpositive : 0 < fields.length := List.length_pos_iff.mpr hfields
      rw [getline_bad hgood]
      constructor
      · rw [hread.left, ← hleft]
        exact (List.drop_eq_nil_of_le (by omega)).symm
      · intro _
        rw [hread.token (by omega), fieldAt, fieldAt,
          Nat.min_eq_right (by omega), Nat.min_eq_right (by omega)]

/-- The token after a number of reads. -/
theorem token_getline (delim : α) (line : List α) (index : ℕ) :
    ((getline delim)^[index + 1] (start line)).token =
      fieldAt (line.splitOn delim) index := by
  have hread : HasRead delim (line.splitOn delim) (index + 1)
      ((getline delim)^[index + 1] (start line)) := by
    induction index with
    | zero =>
        exact (start_hasRead delim line).getline
          (List.splitOn_ne_nil delim line)
    | succ index ih =>
        rw [Function.iterate_succ_apply']
        exact ih.getline (List.splitOn_ne_nil delim line)
  rw [hread.token (Nat.succ_pos index), Nat.add_sub_cancel]

end DelimitedFields
