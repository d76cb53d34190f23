import Mathlib

/-!
# Grouping words by their letters

`groupAnagrams` in `Leet/leet49.cpp` sorts the letters of each word and appends
the word to the entry of the result, in a `std::unordered_map`.  The order in
which such a map enumerates its keys is an argument.
-/

namespace TradingStudies
namespace GroupAnagrams

variable {α : Type*} [LinearOrder α]

/-- The letters after `std::sort`. -/
def sorted (word : List α) : List α := word.insertionSort (· ≤ ·)

/-- `anagrams[key].push_back(word)` -/
def add (anagrams : Finmap fun _ : List α => List (List α)) (word : List α) :
    Finmap fun _ : List α => List (List α) :=
  anagrams.insert (sorted word)
    (((anagrams.lookup (sorted word)).getD []) ++ [word])

def anagrams (strs : List (List α)) : Finmap fun _ : List α => List (List α) :=
  strs.foldl add ∅

/-- `keys` are those of the map in the order of its iterators. -/
def groupAnagrams (keys : List (List α)) (strs : List (List α)) :
    List (List (List α)) :=
  keys.map fun key => ((anagrams strs).lookup key).getD []

theorem sorted_eq_iff {word other : List α} :
    sorted word = sorted other ↔ word.Perm other := by
  have hword := List.perm_insertionSort (· ≤ ·) word
  have hother := List.perm_insertionSort (· ≤ ·) other
  constructor
  · intro hsame
    have hmiddle : (sorted word).Perm other := hsame ▸ hother
    exact hword.symm.trans hmiddle
  · intro hperm
    exact (hword.trans (hperm.trans hother.symm)).eq_of_pairwise'
      (List.pairwise_insertionSort _ word) (List.pairwise_insertionSort _ other)

/-- Every entry has the words of its key, in the order of the input. -/
theorem lookup_anagrams (strs : List (List α)) (key : List α) :
    ((anagrams strs).lookup key).getD [] =
        strs.filter (fun word => sorted word = key) ∧
      (key ∈ anagrams strs ↔ ∃ word ∈ strs, sorted word = key) := by
  induction strs using List.reverseRecOn with
  | nil =>
      refine ⟨rfl, iff_of_false Finmap.notMem_empty ?_⟩
      rintro ⟨word, hword, -⟩
      cases hword
  | append_singleton strs word ih =>
      have hfold : anagrams (strs ++ [word]) = add (anagrams strs) word := by
        unfold anagrams
        rw [List.foldl_append]
        rfl
      rw [hfold, List.filter_append]
      unfold add
      constructor
      · by_cases heq : key = sorted word
        · subst heq
          rw [Finmap.lookup_insert, Option.getD_some, ih.1]
          simp
        · rw [Finmap.lookup_insert_of_ne _ heq, ih.1]
          simp [Ne.symm heq]
      · rw [Finmap.mem_insert, ih.2]
        constructor
        · rintro (rfl | ⟨other, hother, hkey⟩)
          · exact ⟨word, List.mem_concat_self, rfl⟩
          · exact ⟨other, List.mem_append_left _ hother, hkey⟩
        · rintro ⟨other, hother, hkey⟩
          rcases List.mem_append.mp hother with hold | hlast
          · exact Or.inr ⟨other, hold, hkey⟩
          · rw [List.mem_singleton] at hlast
            exact Or.inl (hlast ▸ hkey.symm)

/-- The words with the same letters as a word. -/
def anagramsOf (strs : List (List α)) (word : List α) : List (List α) :=
  strs.filter fun other => other.Perm word

theorem filter_sorted (strs : List (List α)) (word : List α) :
    strs.filter (fun other => sorted other = sorted word) =
      anagramsOf strs word := by
  simp only [anagramsOf, sorted_eq_iff]

/-- Lists that are told apart by their keys. -/
theorem flatten_filter_perm {Key Word : Type*} [DecidableEq Key]
    (keyOf : Word → Key) (strs : List Word) {keys : List Key}
    (hnodup : keys.Nodup) :
    (keys.map fun key => strs.filter fun word => keyOf word = key).flatten.Perm
      (strs.filter fun word => keyOf word ∈ keys) := by
  induction keys with
  | nil => simp
  | cons key keys ih =>
      obtain ⟨hkey, hrest⟩ := List.nodup_cons.mp hnodup
      have hsplit := List.filter_append_perm (fun word => keyOf word = key)
        (strs.filter fun word => keyOf word ∈ key :: keys)
      have hfirst : (strs.filter fun word => keyOf word ∈ key :: keys).filter
            (fun word => keyOf word = key) =
          strs.filter fun word => keyOf word = key := by
        rw [List.filter_filter]
        apply List.filter_congr
        intro word _
        by_cases heq : keyOf word = key <;> simp [heq]
      have hothers : (strs.filter fun word => keyOf word ∈ key :: keys).filter
            (fun word => !decide (keyOf word = key)) =
          strs.filter fun word => keyOf word ∈ keys := by
        rw [List.filter_filter]
        apply List.filter_congr
        intro word _
        by_cases heq : keyOf word = key <;> simp [heq, hkey]
      rw [hfirst, hothers] at hsplit
      rw [List.map_cons, List.flatten_cons]
      exact ((ih hrest).append_left _).trans hsplit

theorem flatten_filter_perm_of_mem {Key Word : Type*} [DecidableEq Key]
    {keyOf : Word → Key} {strs : List Word} {keys : List Key}
    (hnodup : keys.Nodup) (hkeys : ∀ word ∈ strs, keyOf word ∈ keys) :
    (keys.map fun key => strs.filter fun word => keyOf word = key).flatten.Perm
      strs := by
  have hperm := flatten_filter_perm keyOf strs hnodup
  rwa [List.filter_eq_self.mpr fun word hword =>
    decide_eq_true (hkeys word hword)] at hperm

/-- However the map enumerates its keys, the groups are the classes of words
with the same letters, each class once and in the order of the input. -/
theorem groupAnagrams_classes (strs keys : List (List α))
    (hnodup : keys.Nodup) (hkeys : ∀ key, key ∈ keys ↔ key ∈ anagrams strs) :
    (∀ group, group ∈ groupAnagrams keys strs ↔
        ∃ word ∈ strs, group = anagramsOf strs word) ∧
      (groupAnagrams keys strs).Pairwise (fun group other =>
        ∀ word ∈ group, ∀ word' ∈ other, ¬ word.Perm word') ∧
      (groupAnagrams keys strs).flatten.Perm strs := by
  have hgroups : groupAnagrams keys strs =
      keys.map fun key => strs.filter fun word => sorted word = key :=
    List.map_congr_left fun key _ => (lookup_anagrams strs key).1
  have hkey : ∀ key, key ∈ keys ↔ ∃ word ∈ strs, sorted word = key :=
    fun key => (hkeys key).trans (lookup_anagrams strs key).2
  rw [hgroups]
  refine ⟨?_, ?_, ?_⟩
  · intro group
    rw [List.mem_map]
    constructor
    · rintro ⟨key, hmem, rfl⟩
      obtain ⟨word, hword, rfl⟩ := (hkey key).mp hmem
      exact ⟨word, hword, filter_sorted strs word⟩
    · rintro ⟨word, hword, rfl⟩
      exact ⟨sorted word, (hkey _).mpr ⟨word, hword, rfl⟩,
        filter_sorted strs word⟩
  · rw [List.pairwise_map]
    refine hnodup.imp ?_
    intro key other hne word hword word' hword' hperm
    have hsame := of_decide_eq_true (List.mem_filter.mp hword).2
    have hsame' := of_decide_eq_true (List.mem_filter.mp hword').2
    exact hne (hsame.symm.trans ((sorted_eq_iff.mpr hperm).trans hsame'))
  · exact flatten_filter_perm_of_mem hnodup fun word hword =>
      (hkey _).mpr ⟨word, hword, rfl⟩

/-- Two classes, in an order of the map's own. -/
theorem groupAnagrams_classes_two :
    let strs : List (List ℕ) := [[5, 1, 9], [9, 5, 1], [9, 1, 4], [1, 5, 9]]
    groupAnagrams [[1, 4, 9], [1, 5, 9]] strs =
        [[[9, 1, 4]], [[5, 1, 9], [9, 5, 1], [1, 5, 9]]] ∧
      (groupAnagrams [[1, 4, 9], [1, 5, 9]] strs).flatten.Perm strs := by
  intro strs
  have hkeys : ∀ key, key ∈ ([[1, 4, 9], [1, 5, 9]] : List (List ℕ)) ↔
      key ∈ anagrams strs := by
    intro key
    have hsorted : strs.map sorted =
        [[1, 5, 9], [1, 5, 9], [1, 4, 9], [1, 5, 9]] := by decide
    rw [(lookup_anagrams strs key).2, ← List.mem_map, hsorted]
    simp only [List.mem_cons, List.not_mem_nil]
    tauto
  exact ⟨by decide,
    (groupAnagrams_classes strs [[1, 4, 9], [1, 5, 9]] (by decide) hkeys).2.2⟩

end GroupAnagrams
end TradingStudies
