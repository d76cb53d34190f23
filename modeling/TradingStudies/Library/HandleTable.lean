import Mathlib

/-!
# Tables of named handles

Finitely many names have a handle each.  Reference counting keeps, for every
target, the number of names whose handle refers to it.  That number changes by
what the name at which the table is changed contributed before and contributes
afterwards.
-/

namespace HandleTable

variable {Name Handle : Type*} [DecidableEq Name]

abbrev Table (Name Handle : Type*) := Finmap fun _ : Name => Handle

/-- The number of names whose handle passes the test. -/
def count (test : Handle → Bool) (table : Table Name Handle) : ℕ :=
  (table.keys.filter fun name => (table.lookup name).any test).card

/-- What a name contributes to the count. -/
def share (test : Handle → Bool) (handle : Option Handle) : ℕ :=
  if handle.any test then 1 else 0

variable {test : Handle → Bool} {table : Table Name Handle} {name : Name}
  {handle : Handle}

/-! ## Lookups as a function -/

theorem lookup_insert_eq (table : Table Name Handle) (name : Name)
    (handle : Handle) :
    (table.insert name handle).lookup =
      Function.update table.lookup name (some handle) := by
  funext other
  by_cases heq : other = name
  · subst heq
    rw [Finmap.lookup_insert, Function.update_self]
  · rw [Finmap.lookup_insert_of_ne _ heq, Function.update_of_ne heq]

theorem lookup_erase_eq (table : Table Name Handle) (name : Name) :
    (table.erase name).lookup = Function.update table.lookup name none := by
  funext other
  by_cases heq : other = name
  · subst heq
    rw [Finmap.lookup_erase, Function.update_self]
  · rw [Finmap.lookup_erase_ne heq, Function.update_of_ne heq]

theorem map_lookup_insert {α : Type*} (f : Handle → α)
    (table : Table Name Handle) (name : Name) (handle : Handle) :
    (fun other => ((table.insert name handle).lookup other).map f) =
      Function.update (fun other => (table.lookup other).map f) name
        (some (f handle)) := by
  have hcomp := Function.comp_update (Option.map f) table.lookup name
    (some handle)
  rw [← lookup_insert_eq] at hcomp
  exact hcomp

theorem map_lookup_erase {α : Type*} (f : Handle → α)
    (table : Table Name Handle) (name : Name) :
    (fun other => ((table.erase name).lookup other).map f) =
      Function.update (fun other => (table.lookup other).map f) name none := by
  have hcomp := Function.comp_update (Option.map f) table.lookup name none
  rw [← lookup_erase_eq] at hcomp
  exact hcomp

/-! ## Counting -/

theorem mem_counted_iff :
    name ∈ (table.keys.filter fun name => (table.lookup name).any test) ↔
      (table.lookup name).any test = true := by
  rw [Finset.mem_filter]
  constructor
  · exact And.right
  · intro htest
    refine ⟨?_, htest⟩
    cases hlookup : table.lookup name with
    | none =>
        rw [hlookup] at htest
        cases htest
    | some found => exact Finmap.mem_of_lookup_eq_some hlookup

theorem count_erase (test : Handle → Bool) (table : Table Name Handle)
    (name : Name) :
    count test (table.erase name) + share test (table.lookup name) =
      count test table := by
  have hset : ((table.erase name).keys.filter fun other =>
        ((table.erase name).lookup other).any test) =
      (table.keys.filter fun other => (table.lookup other).any test).erase
        name := by
    ext other
    rw [mem_counted_iff, Finset.mem_erase, mem_counted_iff]
    by_cases heq : other = name
    · subst other
      rw [Finmap.lookup_erase]
      simp
    · rw [Finmap.lookup_erase_ne heq]
      simp [heq]
  unfold count share
  rw [hset]
  by_cases htest : (table.lookup name).any test = true
  · rw [if_pos htest, Finset.card_erase_add_one (mem_counted_iff.mpr htest)]
  · rw [if_neg htest, Nat.add_zero, Finset.erase_eq_of_notMem]
    rwa [mem_counted_iff]

theorem erase_insert (table : Table Name Handle) (name : Name)
    (handle : Handle) :
    (table.insert name handle).erase name = table.erase name := by
  apply Finmap.ext_lookup
  intro other
  by_cases heq : other = name
  · subst other
    rw [Finmap.lookup_erase, Finmap.lookup_erase]
  · rw [Finmap.lookup_erase_ne heq, Finmap.lookup_erase_ne heq,
      Finmap.lookup_insert_of_ne _ heq]

theorem count_insert (test : Handle → Bool) (table : Table Name Handle)
    (name : Name) (handle : Handle) :
    count test (table.insert name handle) + share test (table.lookup name) =
      count test table + share test (some handle) := by
  have hnew := count_erase test (table.insert name handle) name
  have hold := count_erase test table name
  rw [erase_insert, Finmap.lookup_insert] at hnew
  omega

theorem count_pos_iff :
    0 < count test table ↔
      ∃ name handle, table.lookup name = some handle ∧ test handle = true := by
  unfold count
  rw [Finset.card_pos]
  constructor
  · rintro ⟨name, hname⟩
    rw [mem_counted_iff] at hname
    cases hlookup : table.lookup name with
    | none =>
        rw [hlookup] at hname
        cases hname
    | some handle =>
        rw [hlookup] at hname
        exact ⟨name, handle, hlookup, hname⟩
  · rintro ⟨name, handle, hlookup, htest⟩
    refine ⟨name, ?_⟩
    rw [mem_counted_iff, hlookup]
    exact htest

/-! ## Weights -/

def weigh (weight : Handle → ℕ) (handle : Option Handle) : ℕ :=
  (handle.map weight).getD 0

/-- The sum of the weights of all handles. -/
def total (weight : Handle → ℕ) (table : Table Name Handle) : ℕ :=
  ∑ name ∈ table.keys, weigh weight (table.lookup name)

theorem total_erase (weight : Handle → ℕ) (table : Table Name Handle)
    (name : Name) :
    total weight (table.erase name) + weigh weight (table.lookup name) =
      total weight table := by
  have hothers : total weight (table.erase name) =
      ∑ other ∈ table.keys.erase name, weigh weight (table.lookup other) := by
    unfold total
    rw [Finmap.keys_erase]
    apply Finset.sum_congr rfl
    intro other hother
    rw [Finmap.lookup_erase_ne (Finset.ne_of_mem_erase hother)]
  rw [hothers]
  by_cases hname : name ∈ table.keys
  · exact Finset.sum_erase_add _ _ hname
  · have hnone : table.lookup name = none := by
      rwa [Finmap.lookup_eq_none, ← Finmap.mem_keys]
    rw [hnone, Finset.erase_eq_of_notMem hname]
    rfl

theorem total_insert (weight : Handle → ℕ) (table : Table Name Handle)
    (name : Name) (handle : Handle) :
    total weight (table.insert name handle) +
        weigh weight (table.lookup name) =
      total weight table + weight handle := by
  have hnew := total_erase weight (table.insert name handle) name
  have hold := total_erase weight table name
  rw [erase_insert, Finmap.lookup_insert] at hnew
  have hweigh : weigh weight (some handle) = weight handle := rfl
  omega

section Targets

variable {Target : Type*} [DecidableEq Target] {target : Handle → Option Target}
  {place : Target}

/-- The number of names whose handle refers to each target. -/
def refs (target : Handle → Option Target) (table : Table Name Handle)
    (place : Target) : ℕ :=
  count (fun handle => target handle = some place) table

theorem share_target (target : Handle → Option Target) (place : Target)
    (handle : Option Handle) :
    share (fun handle => target handle = some place) handle =
      if handle.bind target = some place then 1 else 0 := by
  cases handle <;> simp [share]

theorem refs_insert (target : Handle → Option Target)
    (table : Table Name Handle) (name : Name) (handle : Handle)
    (place : Target) :
    refs target (table.insert name handle) place +
        (if (table.lookup name).bind target = some place then 1 else 0) =
      refs target table place +
        (if target handle = some place then 1 else 0) := by
  have hinsert :=
    count_insert (fun handle => target handle = some place) table name handle
  rw [share_target, share_target] at hinsert
  exact hinsert

/-- No more names refer to a target than there are names. -/
theorem refs_le_card (target : Handle → Option Target)
    (table : Table Name Handle) (place : Target) :
    refs target table place ≤ table.keys.card :=
  Finset.card_filter_le _ _

theorem refs_pos_iff :
    0 < refs target table place ↔
      ∃ name handle, table.lookup name = some handle ∧
        target handle = some place := by
  unfold refs
  rw [count_pos_iff]
  simp only [decide_eq_true_eq]

theorem refs_pos (hlookup : table.lookup name = some handle)
    (htarget : target handle = some place) : 0 < refs target table place :=
  refs_pos_iff.mpr ⟨name, handle, hlookup, htarget⟩

/-- A handle is made to refer to nothing. -/
theorem refs_clear (hold : (table.lookup name).bind target = some place)
    (hnew : target handle = none) :
    refs target (table.insert name handle) =
      Function.update (refs target table) place
        (refs target table place - 1) := by
  funext other
  have hinsert := refs_insert target table name handle other
  rw [hold, hnew] at hinsert
  by_cases heq : other = place
  · subst other
    rw [Function.update_self]
    simp at hinsert
    omega
  · rw [Function.update_of_ne heq]
    simpa [Ne.symm heq] using hinsert

/-- A handle that refers to nothing is made to refer to a target. -/
theorem refs_set (hold : (table.lookup name).bind target = none)
    (hnew : target handle = some place) :
    refs target (table.insert name handle) =
      Function.update (refs target table) place
        (refs target table place + 1) := by
  funext other
  have hinsert := refs_insert target table name handle other
  rw [hold, hnew] at hinsert
  by_cases heq : other = place
  · subst other
    rw [Function.update_self]
    simpa using hinsert
  · rw [Function.update_of_ne heq]
    simpa [Ne.symm heq] using hinsert

/-- What a name refers to is not changed. -/
theorem refs_insert_same
    (hsame : (table.lookup name).bind target = target handle) :
    refs target (table.insert name handle) = refs target table := by
  funext other
  have hinsert := refs_insert target table name handle other
  rw [hsame] at hinsert
  exact Nat.add_right_cancel hinsert

theorem refs_erase_idle (hold : (table.lookup name).bind target = none) :
    refs target (table.erase name) = refs target table := by
  funext other
  have herase :=
    count_erase (fun handle => target handle = some other) table name
  rw [share_target, hold] at herase
  simpa [refs] using herase

/-- A reference is handed from one name to another. -/
theorem refs_move {source : Name} {empty : Handle}
    (hsource : (table.lookup source).bind target = some place)
    (hname : (table.lookup name).bind target = none) (hne : name ≠ source)
    (hempty : target empty = none) (hnew : target handle = some place) :
    refs target ((table.insert source empty).insert name handle) =
      refs target table := by
  have hpos : 0 < refs target table place := by
    cases hlookup : table.lookup source with
    | none =>
        rw [hlookup] at hsource
        cases hsource
    | some found =>
        rw [hlookup] at hsource
        exact refs_pos hlookup hsource
  have hidle : ((table.insert source empty).lookup name).bind target = none := by
    rw [Finmap.lookup_insert_of_ne _ hne]
    exact hname
  rw [refs_set hidle hnew, refs_clear hsource hempty, Function.update_idem,
    Function.update_self, Nat.sub_add_cancel hpos, Function.update_eq_self]

end Targets

end HandleTable
