import Mathlib

/-!
# Ordered maps

A map whose entries are kept in increasing order of their keys, as `std::map`
keeps them.  The first entry is the one with the least key.  `emplace` leaves
a key that is already there alone.
-/

/-- The entries carry the proof that they are in order. -/
structure OrderedMap (Key Value : Type*) [LinearOrder Key] where
  entries : List (Key × Value)
  sorted : entries.Pairwise fun entry later => entry.1 < later.1
  deriving DecidableEq

namespace OrderedMap

variable {Key Value : Type*} [LinearOrder Key]

def empty (Key Value : Type*) [LinearOrder Key] : OrderedMap Key Value :=
  ⟨[], List.Pairwise.nil⟩

/-- `*begin()`, if the map is not empty. -/
def first? (map : OrderedMap Key Value) : Option (Key × Value) :=
  map.entries.head?

/-- `erase(begin())`. -/
def eraseFirst (map : OrderedMap Key Value) : OrderedMap Key Value :=
  ⟨map.entries.tail, map.sorted.tail⟩

/-- The entries with a new one in its place, unless the key is there. -/
def place (key : Key) (value : Value) :
    List (Key × Value) → List (Key × Value)
  | [] => [(key, value)]
  | entry :: rest =>
      if key < entry.1 then (key, value) :: entry :: rest
      else if key = entry.1 then entry :: rest
      else entry :: place key value rest

def HasKey (map : OrderedMap Key Value) (key : Key) : Prop :=
  key ∈ map.entries.map Prod.fst

instance (map : OrderedMap Key Value) (key : Key) :
    Decidable (map.HasKey key) :=
  inferInstanceAs (Decidable (_ ∈ _))

theorem key_mem_place {key other : Key} {value : Value}
    {entries : List (Key × Value)} :
    other ∈ (place key value entries).map Prod.fst ↔
      other = key ∨ other ∈ entries.map Prod.fst := by
  induction entries with
  | nil => simp [place]
  | cons entry rest ih =>
      unfold place
      by_cases hlt : key < entry.1
      · simp [hlt]
      · by_cases heq : key = entry.1
        · simp [heq]
        · rw [if_neg hlt, if_neg heq, List.map_cons, List.mem_cons, ih,
            List.map_cons, List.mem_cons]
          exact or_left_comm

theorem pairwise_place {key : Key} {value : Value}
    {entries : List (Key × Value)}
    (hsorted : entries.Pairwise fun entry later => entry.1 < later.1) :
    (place key value entries).Pairwise
      fun entry later => entry.1 < later.1 := by
  induction entries with
  | nil => exact List.pairwise_singleton _ _
  | cons entry rest ih =>
      rcases List.pairwise_cons.mp hsorted with ⟨hentry, hrest⟩
      unfold place
      by_cases hlt : key < entry.1
      · rw [if_pos hlt]
        refine List.pairwise_cons.mpr ⟨?_, hsorted⟩
        intro later hlater
        rcases List.mem_cons.mp hlater with rfl | hmem
        · exact hlt
        · exact hlt.trans (hentry later hmem)
      · rw [if_neg hlt]
        by_cases heq : key = entry.1
        · rw [if_pos heq]
          exact hsorted
        · rw [if_neg heq]
          refine List.pairwise_cons.mpr ⟨?_, ih hrest⟩
          intro later hlater
          have hkey := key_mem_place.mp (List.mem_map_of_mem hlater)
          rcases hkey with hnew | hold
          · rw [hnew]
            exact lt_of_le_of_ne (not_lt.mp hlt) (Ne.symm heq)
          · rcases List.mem_map.mp hold with ⟨other, hother, hsame⟩
            rw [← hsame]
            exact hentry other hother

def emplace (map : OrderedMap Key Value) (key : Key) (value : Value) :
    OrderedMap Key Value :=
  ⟨place key value map.entries, pairwise_place map.sorted⟩

variable {map : OrderedMap Key Value} {key other : Key} {value : Value}

theorem hasKey_emplace :
    (map.emplace key value).HasKey other ↔
      other = key ∨ map.HasKey other :=
  key_mem_place

/-- A key that is there keeps its value. -/
theorem place_eq_self {entries : List (Key × Value)}
    (hsorted : entries.Pairwise fun entry later => entry.1 < later.1)
    (hkey : key ∈ entries.map Prod.fst) :
    place key value entries = entries := by
  induction entries with
  | nil => exact absurd hkey List.not_mem_nil
  | cons entry rest ih =>
      rcases List.pairwise_cons.mp hsorted with ⟨hentry, hrest⟩
      unfold place
      rw [List.map_cons, List.mem_cons] at hkey
      rcases hkey with heq | hmem
      · simp [heq]
      · rcases List.mem_map.mp hmem with ⟨found, hfound, hsame⟩
        have hlt : entry.1 < key := by
          rw [← hsame]
          exact hentry found hfound
        rw [if_neg hlt.not_gt, if_neg hlt.ne', ih hrest hmem]

theorem emplace_of_hasKey (hkey : map.HasKey key) :
    (map.emplace key value).entries = map.entries :=
  place_eq_self map.sorted hkey

/-- A new key adds its entry and nothing else. -/
theorem place_perm {entries : List (Key × Value)}
    (hkey : key ∉ entries.map Prod.fst) :
    (place key value entries).Perm ((key, value) :: entries) := by
  induction entries with
  | nil => exact List.Perm.refl _
  | cons entry rest ih =>
      rw [List.map_cons, List.mem_cons, not_or] at hkey
      unfold place
      by_cases hlt : key < entry.1
      · rw [if_pos hlt]
      · rw [if_neg hlt, if_neg hkey.1]
        exact ((ih hkey.2).cons entry).trans (List.Perm.swap _ _ _)

theorem emplace_perm_of_not_hasKey (hkey : ¬ map.HasKey key) :
    (map.emplace key value).entries.Perm ((key, value) :: map.entries) :=
  place_perm hkey

/-! ## The first entry -/

theorem entries_of_first? {entry : Key × Value}
    (hfirst : map.first? = some entry) :
    map.entries = entry :: map.eraseFirst.entries :=
  (List.cons_head?_tail hfirst).symm

theorem isLeast_first? {entry : Key × Value}
    (hfirst : map.first? = some entry) :
    IsLeast { key | map.HasKey key } entry.1 := by
  have hentries := entries_of_first? hfirst
  have hsorted := map.sorted
  rw [hentries] at hsorted
  constructor
  · show entry.1 ∈ map.entries.map Prod.fst
    rw [hentries]
    exact List.mem_cons_self
  · intro key hkey
    have hmem : key ∈ map.entries.map Prod.fst := hkey
    rw [hentries, List.map_cons, List.mem_cons] at hmem
    rcases hmem with heq | hlater
    · exact heq.ge
    · rcases List.mem_map.mp hlater with ⟨later, hlater, hsame⟩
      rw [← hsame]
      exact ((List.pairwise_cons.mp hsorted).1 later hlater).le

theorem not_hasKey_of_first?_none (hnone : map.first? = none) (key : Key) :
    ¬ map.HasKey key := by
  have hnil : map.entries = [] := List.head?_eq_none_iff.mp hnone
  unfold HasKey
  rw [hnil]
  exact List.not_mem_nil

theorem hasKey_of_hasKey_eraseFirst (hkey : map.eraseFirst.HasKey key) :
    map.HasKey key :=
  ((List.tail_sublist map.entries).map Prod.fst).subset hkey

/-- Erasing the first entry takes the least key only. -/
theorem eq_first_of_erased {entry : Key × Value}
    (hfirst : map.first? = some entry) (hkey : map.HasKey key)
    (herased : ¬ map.eraseFirst.HasKey key) : key = entry.1 := by
  unfold HasKey at hkey
  rw [entries_of_first? hfirst, List.map_cons, List.mem_cons] at hkey
  rcases hkey with heq | hlater
  · exact heq
  · exact absurd hlater herased

end OrderedMap
