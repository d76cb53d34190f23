import Mathlib

/-!
# Lists with at most one item per key

A hash bucket is a short list which is searched by key.  Each change of such a
list is described by what happens to membership: the item of one key is
replaced, added or removed, and the items of the other keys stay.
-/

namespace KeyedList

variable {Item Key : Type*} (keyOf : Item → Key)

/-- No two positions hold items of one key. -/
def UniqueKeys (items : List Item) : Prop := (items.map keyOf).Nodup

variable {keyOf} {items : List Item} {item other : Item}

theorem uniqueKeys_nil : UniqueKeys keyOf ([] : List Item) :=
  List.nodup_nil

theorem UniqueKeys.position_eq (hunique : UniqueKeys keyOf items)
    {i j : ℕ} (hi : items[i]? = some item) (hj : items[j]? = some other)
    (hkey : keyOf item = keyOf other) : i = j := by
  rcases List.getElem?_eq_some_iff.mp hi with ⟨hilt, hi⟩
  have hmap : (items.map keyOf)[i]? = (items.map keyOf)[j]? := by
    rw [List.getElem?_map, List.getElem?_map, hj,
      List.getElem?_eq_getElem hilt, hi, Option.map_some, Option.map_some,
      hkey]
  have hlt : i < (items.map keyOf).length := by
    rw [List.length_map]
    exact hilt
  exact (List.getElem?_inj hlt hunique).mp hmap

/-! ## Changing the item of a key -/

theorem UniqueKeys.modify (hunique : UniqueKeys keyOf items)
    (position : ℕ) {change : Item → Item}
    (hkeep : ∀ item, keyOf (change item) = keyOf item) :
    UniqueKeys keyOf (items.modify position change) := by
  have hkeys : (items.modify position change).map keyOf =
      items.map keyOf := by
    apply List.ext_getElem?
    intro i
    rw [List.getElem?_map, List.getElem?_map, List.getElem?_modify]
    cases items[i]? with
    | none => rfl
    | some item =>
        by_cases heq : position = i
        · simp [heq, hkeep]
        · simp [heq]
  unfold UniqueKeys
  rw [hkeys]
  exact hunique

theorem UniqueKeys.mem_modify (hunique : UniqueKeys keyOf items)
    {position : ℕ} (hposition : items[position]? = some item)
    (change : Item → Item) :
    other ∈ items.modify position change ↔
      other = change item ∨ other ∈ items ∧ keyOf other ≠ keyOf item := by
  constructor
  · intro hother
    rcases List.mem_iff_getElem?.mp hother with ⟨i, hi⟩
    rw [List.getElem?_modify] at hi
    by_cases heq : position = i
    · subst i
      rw [hposition] at hi
      left
      simpa using hi.symm
    · right
      have hold : items[i]? = some other := by simpa [heq] using hi
      refine ⟨List.mem_of_getElem? hold, ?_⟩
      intro hkey
      exact heq (hunique.position_eq hposition hold hkey.symm)
  · intro hother
    apply List.mem_iff_getElem?.mpr
    rcases hother with heq | ⟨hmem, hkey⟩
    · refine ⟨position, ?_⟩
      rw [List.getElem?_modify, hposition, heq]
      simp
    · rcases List.mem_iff_getElem?.mp hmem with ⟨i, hi⟩
      have hne : position ≠ i := by
        intro heq
        subst i
        rw [hposition] at hi
        cases hi
        exact hkey rfl
      refine ⟨i, ?_⟩
      rw [List.getElem?_modify, hi]
      simp [hne]

/-! ## A new key at the end -/

theorem UniqueKeys.append (hunique : UniqueKeys keyOf items)
    (hfresh : ∀ other ∈ items, keyOf other ≠ keyOf item) :
    UniqueKeys keyOf (items ++ [item]) := by
  have hnotMem : keyOf item ∉ items.map keyOf := by
    intro hmem
    rcases List.mem_map.mp hmem with ⟨other, hother, hkey⟩
    exact hfresh other hother hkey
  unfold UniqueKeys
  rw [List.map_append, List.map_singleton, ← List.concat_eq_append]
  exact List.Nodup.concat hnotMem hunique

theorem mem_append_of_fresh
    (hfresh : ∀ other ∈ items, keyOf other ≠ keyOf item) :
    other ∈ items ++ [item] ↔
      other = item ∨ other ∈ items ∧ keyOf other ≠ keyOf item := by
  rw [List.mem_append, List.mem_singleton]
  constructor
  · intro hother
    rcases hother with hmem | heq
    · exact Or.inr ⟨hmem, hfresh other hmem⟩
    · exact Or.inl heq
  · intro hother
    rcases hother with heq | ⟨hmem, -⟩
    · exact Or.inr heq
    · exact Or.inl hmem

/-! ## Removing keys -/

theorem UniqueKeys.filter (hunique : UniqueKeys keyOf items)
    (keep : Item → Bool) : UniqueKeys keyOf (items.filter keep) :=
  hunique.sublist (List.filter_sublist.map keyOf)

end KeyedList
