import Mathlib

/-!
# Frames of a fixed size

A stream is written in frames of one size and read back in pieces.  A reader
which keeps the pieces that have the size of a frame, and drops the others,
finds the frames again exactly when the pieces are the frames.

Numbers are laid down with their least significant byte first.
-/

namespace FixedFraming

variable {Byte : Type*} {size : ℕ}

/-- The pieces that have the size of a frame. -/
def whole (size : ℕ) (pieces : List (List Byte)) : List (List Byte) :=
  pieces.filter fun piece => piece.length = size

theorem whole_eq_self {pieces : List (List Byte)}
    (hpieces : ∀ piece ∈ pieces, piece.length = size) :
    whole size pieces = pieces := by
  apply List.filter_eq_self.mpr
  intro piece hpiece
  exact decide_eq_true (hpieces piece hpiece)

theorem length_flatten_of_frames {frames : List (List Byte)}
    (hframes : ∀ frame ∈ frames, frame.length = size) :
    frames.flatten.length = size * frames.length := by
  induction frames with
  | nil => rfl
  | cons frame rest ih =>
      rw [List.forall_mem_cons] at hframes
      rw [List.flatten_cons, List.length_append, hframes.1, ih hframes.2,
        List.length_cons, Nat.mul_succ, Nat.add_comm]

/-- Whole pieces take up no more than all pieces. -/
theorem whole_length_le (size : ℕ) (pieces : List (List Byte)) :
    size * (whole size pieces).length ≤ pieces.flatten.length := by
  have hwhole : ∀ piece ∈ whole size pieces, piece.length = size := by
    intro piece hpiece
    exact of_decide_eq_true (List.mem_filter.mp hpiece).2
  rw [← length_flatten_of_frames hwhole]
  exact (List.filter_sublist.flatten).length_le

/-- A piece of another size leaves less for the whole ones. -/
theorem whole_length_lt {pieces : List (List Byte)} {short : List Byte}
    (hshort : short ∈ pieces) (hne : short ≠ [])
    (hlength : short.length ≠ size) :
    size * (whole size pieces).length < pieces.flatten.length := by
  obtain ⟨before, after, rfl⟩ := List.append_of_mem hshort
  have hbefore := whole_length_le size before
  have hafter := whole_length_le size after
  have hpositive : 0 < short.length := List.length_pos_iff.mpr hne
  have hwhole : whole size (before ++ short :: after) =
      whole size before ++ whole size after := by
    unfold whole
    rw [List.filter_append, List.filter_cons_of_neg (by simpa using hlength)]
  rw [hwhole, List.length_append, Nat.mul_add, List.flatten_append,
    List.flatten_cons, List.length_append, List.length_append]
  omega

/-- One size for all frames leaves one way to cut the stream into frames. -/
theorem eq_of_flatten_eq (hsize : 0 < size) {frames pieces : List (List Byte)}
    (hframes : ∀ frame ∈ frames, frame.length = size)
    (hpieces : ∀ piece ∈ pieces, piece.length = size)
    (hstream : pieces.flatten = frames.flatten) : pieces = frames := by
  induction pieces generalizing frames with
  | nil =>
      cases frames with
      | nil => rfl
      | cons frame rest =>
          have hlength := congrArg List.length hstream
          rw [length_flatten_of_frames hframes, List.length_cons,
            Nat.mul_succ, List.flatten_nil, List.length_nil] at hlength
          omega
  | cons piece rest ih =>
      cases frames with
      | nil =>
          have hlength := congrArg List.length hstream
          rw [length_flatten_of_frames hpieces, List.length_cons,
            Nat.mul_succ, List.flatten_nil, List.length_nil] at hlength
          omega
      | cons frame others =>
          rw [List.forall_mem_cons] at hframes hpieces
          rw [List.flatten_cons, List.flatten_cons] at hstream
          have hsame : piece.length = frame.length :=
            hpieces.1.trans hframes.1.symm
          rcases List.append_inj hstream hsame with ⟨hhead, htail⟩
          rw [hhead, ih hframes.2 hpieces.2 htail]

/-- The exact condition under which the whole pieces, up to a limit, are the
frames that were written. -/
theorem take_whole_eq_iff (hsize : 0 < size) (limit : ℕ)
    {frames pieces : List (List Byte)}
    (hframes : ∀ frame ∈ frames, frame.length = size)
    (hpieces : ∀ piece ∈ pieces, piece ≠ [])
    (hstream : pieces.flatten = frames.flatten) :
    (whole size pieces).take limit = frames ↔
      (∀ piece ∈ pieces, piece.length = size) ∧ frames.length ≤ limit := by
  constructor
  · intro htake
    have hlength := congrArg List.length htake
    rw [List.length_take] at hlength
    constructor
    · intro piece hpiece
      by_contra hshort
      have hlt := whole_length_lt hpiece (hpieces piece hpiece) hshort
      rw [hstream, length_flatten_of_frames hframes] at hlt
      have hfewer : (whole size pieces).length < frames.length :=
        Nat.lt_of_mul_lt_mul_left hlt
      omega
    · omega
  · rintro ⟨hwhole, hlimit⟩
    have hsame : pieces = frames :=
      eq_of_flatten_eq hsize hframes hwhole hstream
    rw [whole_eq_self hwhole, hsame, List.take_of_length_le hlimit]

/-! ## Numbers as bytes -/

def bytesOf : ℕ → ℕ → List UInt8
  | 0, _ => []
  | count + 1, value => UInt8.ofNat value :: bytesOf count (value / 256)

def valueOf : List UInt8 → ℕ
  | [] => 0
  | byte :: rest => byte.toNat + 256 * valueOf rest

@[simp] theorem length_bytesOf (count value : ℕ) :
    (bytesOf count value).length = count := by
  induction count generalizing value with
  | zero => rfl
  | succ count ih => rw [bytesOf, List.length_cons, ih]

theorem valueOf_bytesOf {count value : ℕ} (hvalue : value < 256 ^ count) :
    valueOf (bytesOf count value) = value := by
  induction count generalizing value with
  | zero =>
      rw [pow_zero, Nat.lt_one_iff] at hvalue
      rw [hvalue, bytesOf, valueOf]
  | succ count ih =>
      have hrest : value / 256 < 256 ^ count := by
        rw [pow_succ'] at hvalue
        exact Nat.div_lt_of_lt_mul hvalue
      rw [bytesOf, valueOf, ih hrest, UInt8.toNat_ofNat']
      omega

end FixedFraming
