import TradingStudies.BSTContents

/-!
# The search of `Leet/binary_search.py`

`__binary_search` reads the middle of a range and goes on before it and, where
that fails, after it.  It never asks on which side the value should be, so that
it does not depend on the order of the array.

The positions it reads are returned beside its result; they only observe.
-/

namespace TradingStudies
namespace BinarySearch

variable {α : Type*} [DecidableEq α]

/-- `__binary_search`; a read beyond the array raises. -/
def searchRange (array : List α) (value : α) (left right : ℤ) :
    Option (Bool × List ℤ) :=
  if right - left < 0 then some (false, [])
  else
    let mid := (right - left) / 2 + left
    (BST.Tree.item array mid).bind fun found =>
      if found = value then some (true, [mid])
      else
        (searchRange array value left (mid - 1)).bind fun before =>
          if before.1 then some (true, mid :: before.2)
          else
            (searchRange array value (mid + 1) right).map fun after =>
              (after.1, mid :: (before.2 ++ after.2))
termination_by (right + 1 - left).toNat
decreasing_by all_goals omega

def binarySearch (array : List α) (value : α) : Option (Bool × List ℤ) :=
  searchRange array value 0 ((array.length : ℤ) - 1)

/-- What a search of a range finds and reads. -/
structure Searched (array : List α) (value : α) (left right : ℤ)
    (found : Bool) (read : List ℤ) : Prop where
  hit : found = true ↔
    ∃ index : ℕ, left ≤ index ∧ index ≤ right ∧ array[index]? = some value
  range : ∀ index ∈ read, left ≤ index ∧ index ≤ right
  nodup : read.Nodup
  missed : found = false → (read.length : ℤ) = max 0 (right + 1 - left)

theorem searchRange_searched {array : List α} (value : α) {left right : ℤ}
    (hleft : 0 ≤ left) (hright : right < array.length) :
    ∃ found read, searchRange array value left right = some (found, read) ∧
      Searched array value left right found read := by
  induction hsize : (right + 1 - left).toNat using Nat.strong_induction_on
    generalizing left right with
  | _ size ih =>
      rw [searchRange]
      split
      · rename_i hempty
        refine ⟨false, [], rfl, ?_, ?_, List.nodup_nil, ?_⟩
        · refine iff_of_false Bool.false_ne_true ?_
          rintro ⟨index, hle, hge, -⟩
          omega
        · exact fun _ hindex => absurd hindex List.not_mem_nil
        · intro _
          rw [max_eq_left (by omega)]
          rfl
      · rename_i hsome
        obtain ⟨mid, hmid⟩ : ∃ mid : ℕ,
            (right - left) / 2 + left = (mid : ℤ) :=
          ⟨((right - left) / 2 + left).toNat, by omega⟩
        have hlt : mid < array.length := by omega
        have hbounds : left ≤ mid ∧ (mid : ℤ) ≤ right := by omega
        dsimp only
        rw [hmid, BST.Tree.item_of_lt hlt, Option.bind_some]
        have hitem : array[mid]? = some array[mid] :=
          List.getElem?_eq_getElem hlt
        split
        · rename_i hfound
          refine ⟨true, [(mid : ℤ)], rfl, ?_, ?_, List.nodup_singleton _, nofun⟩
          · exact iff_of_true rfl
              ⟨mid, hbounds.1, hbounds.2, hitem.trans (congrArg some hfound)⟩
          · intro index hindex
            rw [List.mem_singleton.mp hindex]
            exact hbounds
        · rename_i hother
          obtain ⟨found, read, hbefore, before⟩ :=
            ih _ (by omega) hleft (by omega : (mid : ℤ) - 1 < _) rfl
          rw [hbefore, Option.bind_some]
          have hnotBefore : (mid : ℤ) ∉ read := fun hmem =>
            absurd (before.range _ hmem).2 (by omega)
          cases found with
          | true =>
              refine ⟨true, mid :: read, rfl, ?_, ?_,
                List.nodup_cons.mpr ⟨hnotBefore, before.nodup⟩, nofun⟩
              · obtain ⟨index, hle, hge, hvalue⟩ := before.hit.mp rfl
                exact iff_of_true rfl ⟨index, hle, by omega, hvalue⟩
              · intro index hindex
                rcases List.mem_cons.mp hindex with rfl | hindex
                · exact hbounds
                · have hrange := before.range index hindex
                  omega
          | false =>
              obtain ⟨found, read', hafter, after⟩ :=
                ih _ (by omega) (by omega : 0 ≤ (mid : ℤ) + 1) hright rfl
              rw [if_neg Bool.false_ne_true, hafter, Option.map_some]
              refine ⟨found, mid :: (read ++ read'), rfl, ?_, ?_, ?_, ?_⟩
              · rw [after.hit]
                constructor
                · rintro ⟨index, hle, hge, hvalue⟩
                  exact ⟨index, by omega, hge, hvalue⟩
                · rintro ⟨index, hle, hge, hvalue⟩
                  -- The value is not before the middle, nor at it.
                  have hnot : ¬ (index : ℤ) ≤ mid - 1 := fun hsmall =>
                    absurd (before.hit.mpr ⟨index, hle, hsmall, hvalue⟩)
                      Bool.false_ne_true
                  have hne : index ≠ mid := by
                    rintro rfl
                    exact hother (Option.some.inj (hitem.symm.trans hvalue))
                  exact ⟨index, by omega, hge, hvalue⟩
              · intro index hindex
                rcases List.mem_cons.mp hindex with rfl | hindex
                · exact hbounds
                · rcases List.mem_append.mp hindex with hindex | hindex
                  · have hrange := before.range index hindex
                    omega
                  · have hrange := after.range index hindex
                    omega
              · refine List.nodup_cons.mpr ⟨?_, before.nodup.append after.nodup ?_⟩
                · intro hmem
                  rcases List.mem_append.mp hmem with hmem | hmem
                  · exact hnotBefore hmem
                  · exact absurd (after.range _ hmem).1 (by omega)
                · intro index hindex hindex'
                  have hsmall := (before.range index hindex).2
                  have hlarge := (after.range index hindex').1
                  omega
              · intro hmissed
                have hfirst := before.missed rfl
                have hsecond := after.missed hmissed
                rw [List.length_cons, List.length_append]
                push_cast
                omega

/-- The search of any array, sorted or not, tells whether it has the value.  No
position is read twice, and a search that fails reads all of them. -/
theorem binarySearch_any_array (array : List α) (value : α) :
    ∃ found read, binarySearch array value = some (found, read) ∧
      (found = true ↔ value ∈ array) ∧ read.Nodup ∧
      (∀ index ∈ read, 0 ≤ index ∧ index < array.length) ∧
      (found = false → read.length = array.length) := by
  obtain ⟨found, read, hsearch, hsearched⟩ := searchRange_searched value
    (le_refl 0) (by omega : (array.length : ℤ) - 1 < array.length)
  refine ⟨found, read, hsearch, ?_, hsearched.nodup, ?_, ?_⟩
  · rw [hsearched.hit, List.mem_iff_getElem?]
    constructor
    · rintro ⟨index, -, -, hvalue⟩
      exact ⟨index, hvalue⟩
    · rintro ⟨index, hvalue⟩
      have hlt := (List.getElem?_eq_some_iff.mp hvalue).1
      exact ⟨index, by omega, by omega, hvalue⟩
  · intro index hindex
    have hrange := hsearched.range index hindex
    omega
  · intro hmissed
    have hlength := hsearched.missed hmissed
    omega

end BinarySearch
end TradingStudies
