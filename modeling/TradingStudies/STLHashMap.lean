import TradingStudies.ChainingRefinement

/-!
# Swapping the chaining map for the standard one

`STLHashMap` forwards the map interface to `std::unordered_map`, which is taken
here at its specification: a finite partial map.  The two backends differ in
one place.  `ChainingHashMap::insert` writes the value of a key that is already
there, `std::unordered_map::insert` leaves it.
-/

namespace TradingStudies
namespace HashMap

structure STLHashMap (Key Value : Type*) where
  map_ : PartialMap Key Value

namespace STLHashMap

variable {Key Value : Type*} [DecidableEq Key]

def empty (Key Value : Type*) : STLHashMap Key Value := ⟨∅⟩

/-- `map_.insert({key, value})`. -/
def insert (map : STLHashMap Key Value) (key : Key) (value : Value) :
    STLHashMap Key Value :=
  if key ∈ map.map_ then map else ⟨map.map_.insert key value⟩

/-- `map_[key]`: the value the returned reference denotes. -/
def subscript [Inhabited Value] (map : STLHashMap Key Value) (key : Key) :
    Value × STLHashMap Key Value :=
  match map.map_.lookup key with
  | some value => (value, map)
  | none => (default, ⟨map.map_.insert key default⟩)

/-- A write through the reference `map_[key]`. -/
def store (map : STLHashMap Key Value) (key : Key) (value : Value) :
    STLHashMap Key Value := ⟨map.map_.insert key value⟩

def contains (map : STLHashMap Key Value) (key : Key) : Bool :=
  decide (key ∈ map.map_)

def erase (map : STLHashMap Key Value) (key : Key) :
    Bool × STLHashMap Key Value :=
  (decide (key ∈ map.map_), ⟨map.map_.erase key⟩)

def find (map : STLHashMap Key Value) (key : Key) : Option Value :=
  map.map_.lookup key

def call [Inhabited Value] (map : STLHashMap Key Value) :
    Call Key Value → STLHashMap Key Value × Outcome Value
  | .insert key value => (map.insert key value, .done)
  | .subscript key =>
      let (value, next) := map.subscript key
      (next, .value value)
  | .assign key value =>
      let (_, next) := map.subscript key
      (next.store key value, .value value)
  | .contains key => (map, .flag (map.contains key))
  | .erase key =>
      let (flag, next) := map.erase key
      (next, .flag flag)
  | .find key => (map, .found (map.find key))

/-- An `insert` that would not change the value of its key. -/
def InsertKeepsValue (map : STLHashMap Key Value) : Call Key Value → Prop
  | .insert key value =>
      map.map_.lookup key = none ∨ map.map_.lookup key = some value
  | _ => True

instance [DecidableEq Value] (map : STLHashMap Key Value)
    (c : Call Key Value) : Decidable (map.InsertKeepsValue c) :=
  match c with
  | .insert key value =>
      inferInstanceAs (Decidable (map.map_.lookup key = none ∨
        map.map_.lookup key = some value))
  | .subscript _ => inferInstanceAs (Decidable True)
  | .assign _ _ => inferInstanceAs (Decidable True)
  | .contains _ => inferInstanceAs (Decidable True)
  | .erase _ => inferInstanceAs (Decidable True)
  | .find _ => inferInstanceAs (Decidable True)

section Calls

variable {map : STLHashMap Key Value}

theorem insert_map_eq_of_keepsValue {key : Key} {value : Value}
    (hkeeps : map.InsertKeepsValue (.insert key value)) :
    (map.insert key value).map_ = map.map_.insert key value := by
  unfold insert
  rcases hkeeps with hnone | hsome
  · rw [if_neg (Finmap.lookup_eq_none.mp hnone)]
  · rw [if_pos (Finmap.mem_of_lookup_eq_some hsome)]
    apply Finmap.ext_lookup
    intro other
    by_cases heq : other = key
    · rw [heq, hsome, Finmap.lookup_insert]
    · rw [Finmap.lookup_insert_of_ne _ heq]

variable [Inhabited Value]

/-- Away from such an `insert` the standard map does what the partial map
does. -/
theorem call_eq_abstractCall {c : Call Key Value}
    (hkeeps : map.InsertKeepsValue c) :
    (map.call c).2 = (abstractCall unbounded map.map_ c).2 ∧
      (map.call c).1.map_ = (abstractCall unbounded map.map_ c).1 := by
  cases c with
  | insert key value =>
      have hinsert := insert_map_eq_of_keepsValue hkeeps
      by_cases hmem : key ∈ map.map_
      · simpa [call, abstractCall, hmem] using hinsert
      · simpa [call, abstractCall, hmem, unbounded] using hinsert
  | subscript key =>
      cases hlookup : map.map_.lookup key with
      | some value => simp [call, abstractCall, subscript, hlookup]
      | none => simp [call, abstractCall, subscript, hlookup, unbounded]
  | assign key value =>
      cases hlookup : map.map_.lookup key with
      | some old =>
          have hmem := Finmap.mem_of_lookup_eq_some hlookup
          simp [call, abstractCall, subscript, store, hlookup, hmem]
      | none =>
          have hmem := Finmap.lookup_eq_none.mp hlookup
          simp [call, abstractCall, subscript, store, hlookup, hmem,
            unbounded]
  | contains key => exact ⟨rfl, rfl⟩
  | erase key => exact ⟨rfl, rfl⟩
  | find key => exact ⟨rfl, rfl⟩

/-- A call which fails the condition inserts another value for a key that is
present, and the standard map stays as it is. -/
theorem insert_of_not_keepsValue {c : Call Key Value}
    (hnot : ¬ map.InsertKeepsValue c) :
    ∃ key value old, c = .insert key value ∧
      map.map_.lookup key = some old ∧ old ≠ value ∧
        (map.call c).1 = map := by
  cases c with
  | insert key value =>
      have hneither := not_or.mp hnot
      cases hlookup : map.map_.lookup key with
      | none => exact absurd hlookup hneither.1
      | some old =>
          refine ⟨key, value, old, rfl, hlookup, ?_, ?_⟩
          · intro heq
            subst old
            exact hneither.2 hlookup
          · exact if_pos (Finmap.mem_of_lookup_eq_some hlookup)
  | subscript key => exact absurd trivial hnot
  | assign key value => exact absurd trivial hnot
  | contains key => exact absurd trivial hnot
  | erase key => exact absurd trivial hnot
  | find key => exact absurd trivial hnot

end Calls

/-! ## The two backends side by side -/

section Backends

open ChainingHashMap (Represents)

variable [Inhabited Value] {initBuckets : ℕ} [NeZero initBuckets]
  {hash : Key → ℕ} {map : STLHashMap Key Value}
  {chaining : ChainingHashMap initBuckets Key Value}

/-- The pairs in the buckets are the pairs of the standard map. -/
def SameMapping (map : STLHashMap Key Value)
    (chaining : ChainingHashMap initBuckets Key Value) : Prop :=
  Describes map.map_ chaining.Stores

theorem call_agrees (hrep : Represents hash chaining map.map_)
    {c : Call Key Value} (hkeeps : map.InsertKeepsValue c) :
    (map.call c).2 = (ChainingHashMap.call hash chaining c).2 ∧
      Represents hash (ChainingHashMap.call hash chaining c).1
        (map.call c).1.map_ := by
  rcases call_eq_abstractCall hkeeps with ⟨hresult, hnext⟩
  rcases ChainingHashMap.call_represents hrep c with ⟨hresult', hnext'⟩
  rw [hresult, hresult', hnext]
  exact ⟨rfl, hnext'⟩

theorem call_separates (hrep : Represents hash chaining map.map_)
    {c : Call Key Value} (hnot : ¬ map.InsertKeepsValue c) :
    ¬ SameMapping (map.call c).1 (ChainingHashMap.call hash chaining c).1 := by
  rcases insert_of_not_keepsValue hnot with
    ⟨key, value, old, rfl, hold, hne, hsame⟩
  intro hmapping
  rw [hsame] at hmapping
  have hstored := ((hrep.insert key value).describes key value).mp
    (Finmap.lookup_insert _)
  have hnew : map.map_.lookup key = some value :=
    (hmapping key value).mpr hstored
  rw [hold, Option.some.injEq] at hnew
  exact hne hnew

/-- The backends agree on a word of calls and on each of its beginnings if and
only if no `insert` gives a present key another value. -/
theorem stlHashMap_agrees_chainingHashMap_iff (hash : Key → ℕ)
    {start : ChainingHashMap initBuckets Key Value}
    (hconstruct :
      ChainingHashMap.construct initBuckets Key Value = .ok start)
    (calls : List (Call Key Value)) :
    (∀ n, CallSystem.results call (empty Key Value) (calls.take n) =
          CallSystem.results (ChainingHashMap.call hash) start
            (calls.take n) ∧
        SameMapping
          (CallSystem.stateAfter call (empty Key Value) (calls.take n))
          (CallSystem.stateAfter (ChainingHashMap.call hash) start
            (calls.take n))) ↔
      CallSystem.AllAllowed call InsertKeepsValue (empty Key Value)
        calls := by
  have hstart : Represents hash start ∅ := by
    rw [ChainingHashMap.construct_eq_empty hconstruct]
    exact ChainingHashMap.empty_represents hash
  have hinv : ∀ n, ∃ content, Represents hash
      (CallSystem.stateAfter (ChainingHashMap.call hash) start
        (calls.take n)) content := by
    intro n
    exact ⟨_, (ChainingHashMap.run_represents hstart (calls.take n)).2⟩
  have hmapping : ∀ n,
      SameMapping
          (CallSystem.stateAfter call (empty Key Value) (calls.take n))
          (CallSystem.stateAfter (ChainingHashMap.call hash) start
            (calls.take n)) ↔
        Represents hash
          (CallSystem.stateAfter (ChainingHashMap.call hash) start
            (calls.take n))
          (CallSystem.stateAfter call (empty Key Value)
            (calls.take n)).map_ := by
    intro n
    constructor
    · intro hsame
      rcases hinv n with ⟨content, hrep⟩
      exact ⟨hrep.keyed, hrep.unique, hsame⟩
    · intro hrep
      exact hrep.describes
  simp only [hmapping]
  apply CallSystem.agree_iff_allAllowed InsertKeepsValue
    (fun map chaining => Represents hash chaining map.map_)
  · intro map chaining c hrep hkeeps
    exact call_agrees hrep hkeeps
  · intro map chaining c hrep hnot hnext
    exact call_separates hrep hnot hnext.describes
  · exact hstart

/-- A key inserted once: both backends return the same. -/
theorem stlHashMap_agrees_chainingHashMap_once :
    ChainingHashMap.construct 2 ℕ ℕ = .ok (ChainingHashMap.empty 2 ℕ ℕ) ∧
      CallSystem.results call (empty ℕ ℕ)
          ([.insert 1 7, .assign 1 8, .insert 3 9, .find 1].take 4) =
        CallSystem.results (ChainingHashMap.call (fun _ => 1))
          (ChainingHashMap.empty 2 ℕ ℕ)
          ([.insert 1 7, .assign 1 8, .insert 3 9, .find 1].take 4) := by
  have hconstruct : ChainingHashMap.construct 2 ℕ ℕ =
      .ok (ChainingHashMap.empty 2 ℕ ℕ) := rfl
  have hkeeps : CallSystem.AllAllowed call InsertKeepsValue (empty ℕ ℕ)
      [.insert 1 7, .assign 1 8, .insert 3 9, .find 1] := by
    decide
  exact ⟨hconstruct, ((stlHashMap_agrees_chainingHashMap_iff (fun _ => 1)
    hconstruct _).mpr hkeeps 4).1⟩

/-- A key inserted twice: one backend finds the second value, the other the
first. -/
theorem stlHashMap_repeated_insert :
    CallSystem.results call (empty ℕ ℕ)
          [.insert 1 7, .insert 1 8, .find 1] =
        [.done, .done, .found (some 7)] ∧
      CallSystem.results (ChainingHashMap.call (fun _ => 1))
          (ChainingHashMap.empty 2 ℕ ℕ)
          [.insert 1 7, .insert 1 8, .find 1] =
        [.done, .done, .found (some 8)] := by
  constructor
  · decide
  · decide

end Backends

end STLHashMap
end HashMap
end TradingStudies
