import TradingStudies.OpenAddressingReHash

/-!
# The open-addressing map against the partial map

`insert` and `operator[]` reuse the first free slot on the way without looking
for the key behind it.  As long as no call does this for a key that is in the
table, the map answers like a partial map.  The first call that does leaves the
key in two occupied slots.
-/

namespace TradingStudies
namespace HashMap
namespace OpenAddressingHashMap

open ProbeLoop

variable {Key Value : Type*} [Inhabited Key] [Inhabited Value]
  [DecidableEq Key]

instance (hash : Key → ℕ) (map : OpenAddressingHashMap Key Value)
    (key : Key) : Decidable (map.Detoured hash key) :=
  inferInstanceAs (Decidable (∃ far < map.table_.length,
    (map.nodeAt (map.probed hash key far)).holds key = true ∧
      ∃ near < far,
        (map.nodeAt (map.probed hash key near)).status ≠ .OCCUPIED))

/-- The condition on a call, in the state before it: the key is not behind a
free slot, or the load check moves the table first. -/
def Direct (exceeds : ℕ → ℕ → Bool) (hash : Key → ℕ)
    (map : OpenAddressingHashMap Key Value) : Call Key Value → Prop
  | .insert key _ | .subscript key | .assign key _ =>
      exceeds (map.size_ + 1) map.table_.length = true ∨
        ¬ map.Detoured hash key
  | .contains _ | .erase _ | .find _ => True

instance (exceeds : ℕ → ℕ → Bool) (hash : Key → ℕ)
    (map : OpenAddressingHashMap Key Value) :
    DecidablePred (Direct exceeds hash map)
  | .insert key _ | .subscript key | .assign key _ =>
      inferInstanceAs (Decidable
        (exceeds (map.size_ + 1) map.table_.length = true ∨
          ¬ map.Detoured hash key))
  | .contains _ | .erase _ | .find _ => inferInstanceAs (Decidable True)

variable {exceeds : ℕ → ℕ → Bool} {hash : Key → ℕ} {exponent : ℕ}
  {map : OpenAddressingHashMap Key Value} {content : PartialMap Key Value}
  {key : Key}

/-! ## insert -/

theorem Represents.insertNested_spec (hrule : GrowthRule exceeds)
    (hrep : Represents exceeds hash exponent map content)
    (hdirect : exceeds (map.size_ + 1) map.table_.length = true ∨
      ¬ map.Detoured hash key) (nesting : ℕ) (value : Value) :
    ∃ after exponent',
      insertNested exceeds hash (nesting + 2) map key value = some after ∧
        Represents exceeds hash exponent' after
          (content.insert key value) := by
  rw [insertNested]
  by_cases hload : exceeds (map.size_ + 1) map.table_.length = true
  · rcases hrep.reHash_spec hrule with ⟨new, heval, hnew, hclean, hsize⟩
    rcases hnew.place_spec hrule (hnew.not_detoured hclean key)
      (hrep.loaded.new_room hrule hsize) value with
      ⟨after, hplace, hafter, _⟩
    rw [if_pos hload,
      heval _ (insertNested_placesBelowLoad Value exceeds hash nesting)]
    exact ⟨after, exponent + 1, hplace, hafter⟩
  · have hroom := Bool.eq_false_iff.mpr hload
    rw [hrep.length] at hroom
    rcases hrep.place_spec hrule (hdirect.resolve_left hload) hroom value with
      ⟨after, hplace, hafter, _⟩
    rw [if_neg hload]
    exact ⟨after, exponent, hplace, hafter⟩

/-! ## operator[] -/

/-- What the subscript leaves behind: the table of the map with the key added
if it was absent, and the slot of the key. -/
structure Subscripted (exceeds : ℕ → ℕ → Bool) (hash : Key → ℕ)
    (content : PartialMap Key Value) (key : Key)
    (after : OpenAddressingHashMap Key Value) (index : ℕ) : Prop where
  represents : ∃ exponent, Represents exceeds hash exponent after
    (match content.lookup key with
    | some _ => content
    | none => content.insert key default)
  holds : (after.nodeAt index).holds key = true
  value : (after.nodeAt index).value_ =
    (content.lookup key).getD default

theorem Represents.subscripted_hit
    (hrep : Represents exceeds hash exponent map content) {index : ℕ}
    (hholds : (map.nodeAt index).holds key = true) :
    Subscripted exceeds hash content key map index := by
  have hlookup := hrep.lookup_hit hholds
  exact
    { represents := by
        rw [hlookup]
        exact ⟨exponent, hrep⟩
      holds := hholds
      value := by
        rw [hlookup]
        rfl }

theorem Represents.subscripted_occupy
    (hrep : Represents exceeds hash exponent map content)
    (habsent : ∀ index, (map.nodeAt index).holds key = false) {index : ℕ}
    (hindex : index < map.table_.length)
    (hoccupy : Represents exceeds hash exponent
      (map.occupy index key default) (content.insert key default)) :
    Subscripted exceeds hash content key (map.occupy index key default)
      index := by
  have hlookup := hrep.lookup_miss habsent
  have hnode : (map.occupy index key default).nodeAt index =
      ⟨key, default, .OCCUPIED⟩ := by
    have hset := nodeAt_setNode hindex ⟨key, default, .OCCUPIED⟩ index
    rw [if_pos rfl] at hset
    exact hset
  exact
    { represents := by
        rw [hlookup]
        exact ⟨exponent, hoccupy⟩
      holds := by
        rw [hnode, Node.holds_iff]
        exact ⟨rfl, rfl⟩
      value := by
        rw [hnode, hlookup]
        rfl }

/-- A subscript which need not move the table. -/
theorem Represents.subscriptNested_room (hrule : GrowthRule exceeds)
    (hrep : Represents exceeds hash exponent map content)
    (hdirect : ¬ map.Detoured hash key)
    (hload : exceeds (map.size_ + 1) (2 ^ exponent) = false) (nesting : ℕ) :
    ∃ after index,
      subscriptNested exceeds hash (nesting + 1) map key =
          some (after, .ok index) ∧
        Subscripted exceeds hash content key after index := by
  rcases hrep.insertStop_cases hrule key with
    ⟨distance, hdistance, hfirst, hholds⟩ |
    ⟨distance, hdistance, hfirst, hstatus, habsent | hfar⟩
  · have hnode := Node.holds_iff.mp hholds
    rw [hrep.loaded.subscriptNested_eq hdistance hfirst, if_pos hnode.1]
    exact ⟨map, _, rfl, hrep.subscripted_hit hholds⟩
  · have hlt := hrep.loaded.pathOf_lt_length hash key distance
    have hoccupy :=
      hrep.occupy_stop hdistance hfirst hstatus habsent hload default
    rw [hrep.loaded.subscriptNested_eq hdistance hfirst, if_neg hstatus,
      if_neg (Bool.eq_false_iff.mp hload)]
    exact ⟨_, _, rfl, hrep.subscripted_occupy habsent hlt hoccupy⟩
  · rcases hfar with ⟨far, hfar, hnear, hholds⟩
    exact absurd (hrep.detoured_of_far hfar hnear hholds hstatus) hdirect

theorem Represents.subscript_spec (hrule : GrowthRule exceeds)
    (hrep : Represents exceeds hash exponent map content)
    (hdirect : exceeds (map.size_ + 1) map.table_.length = true ∨
      ¬ map.Detoured hash key) :
    ∃ after index,
      map.subscript exceeds hash key = some (after, .ok index) ∧
        Subscripted exceeds hash content key after index := by
  unfold subscript nestingSteps
  rw [hrep.length] at hdirect
  by_cases hload : exceeds (map.size_ + 1) (2 ^ exponent) = true
  · rcases hrep.insertStop_cases hrule key with
      ⟨distance, hdistance, hfirst, hholds⟩ |
      ⟨distance, hdistance, hfirst, hstatus, _⟩
    · have hnode := Node.holds_iff.mp hholds
      rw [hrep.loaded.subscriptNested_eq hdistance hfirst, if_pos hnode.1]
      exact ⟨map, _, rfl, hrep.subscripted_hit hholds⟩
    · -- the table moves, and the call is made again on the new one
      rcases hrep.reHash_spec hrule with ⟨new, heval, hnew, hclean, hsize⟩
      have hmoved : map.reHash exceeds hash = some new :=
        heval _ (insertNested_placesBelowLoad Value exceeds hash _)
      rw [hrep.loaded.subscriptNested_eq hdistance hfirst, if_neg hstatus,
        if_pos hload, hmoved]
      exact hnew.subscriptNested_room hrule (hnew.not_detoured hclean key)
        (hrep.loaded.new_room hrule hsize) _
  · exact hrep.subscriptNested_room hrule (hdirect.resolve_left hload)
      (Bool.eq_false_iff.mpr hload) _

/-! ## A call on a key behind a free slot -/

/-- Without a move, the loop stops at a free slot before the key. -/
theorem Represents.detour_stop (hrule : GrowthRule exceeds)
    (hrep : Represents exceeds hash exponent map content)
    (hdetoured : map.Detoured hash key) :
    ∃ near < 2 ^ exponent, ∃ far < 2 ^ exponent, near < far ∧
      FirstStop (nextIndex map.mask_) (map.stopsInsert key)
        (map.getHash hash key) near ∧
      (map.nodeAt (pathOf hash exponent key near)).status ≠ .OCCUPIED ∧
      (map.nodeAt (pathOf hash exponent key far)).holds key = true := by
  rcases hdetoured with ⟨far, hfar, hholds, near, hnear, hstatus⟩
  rw [hrep.loaded.probed_eq] at hholds hstatus
  rw [hrep.length] at hfar
  rcases hrep.insertStop_cases hrule key with
    ⟨distance, hdistance, hfirst, hstop⟩ |
    ⟨distance, hdistance, hfirst, hstop, habsent | hbehind⟩
  · -- the loop cannot reach the key past the free slot
    have hsame := hrep.distance_unique hdistance hfar hstop hholds
    have hoccupied := hrep.loaded.occupied_before hfirst (hsame ▸ hnear)
    exact absurd hoccupied hstatus
  · rw [habsent] at hholds
    cases hholds
  · rcases hbehind with ⟨key_far, hkey, hbefore, hagain⟩
    exact ⟨distance, hdistance, key_far, hkey, hbefore, hfirst, hstop, hagain⟩

/-- A node with the key in a slot other than the one that has it already. -/
theorem occupy_not_keysOnce {index other : ℕ}
    (hindex : index < map.table_.length) (hne : other ≠ index)
    (hholds : (map.nodeAt other).holds key = true) (value : Value) :
    ¬ (map.occupy index key value).KeysOnce := by
  intro honce
  have hnode (slot : ℕ) :
      (map.occupy index key value).nodeAt slot =
        if slot = index then ⟨key, value, .OCCUPIED⟩ else map.nodeAt slot :=
    nodeAt_setNode hindex _ slot
  apply hne
  apply honce other index key
  · rw [hnode, if_neg hne]
    exact hholds
  · rw [hnode, if_pos rfl, Node.holds_iff]
    exact ⟨rfl, rfl⟩

theorem holds_setValue {index : ℕ} (hindex : index < map.table_.length)
    (value : Value) (other : ℕ) :
    ((map.setValue index value).nodeAt other).holds key =
      (map.nodeAt other).holds key := by
  unfold setValue
  rw [nodeAt_setNode hindex]
  by_cases heq : other = index
  · rw [if_pos heq, heq]
    rfl
  · rw [if_neg heq]

/-! ## Calls -/

theorem Represents.call_simulates (hrule : GrowthRule exceeds)
    (hrep : Represents exceeds hash exponent map content)
    {c : Call Key Value} (hdirect : Direct exceeds hash map c) :
    (map.call exceeds hash c).2 = (abstractCall unbounded content c).2 ∧
      ∃ exponent', Represents exceeds hash exponent'
        (map.call exceeds hash c).1 (abstractCall unbounded content c).1 := by
  cases c with
  | insert key value =>
      rcases hrep.insertNested_spec hrule hdirect map.table_.length value with
        ⟨after, exponent', heval, hafter⟩
      have hinsert : map.insert exceeds hash key value = some after := heval
      simp only [call, hinsert, abstractCall, unbounded, ite_self, true_and]
      exact ⟨exponent', hafter⟩
  | subscript key =>
      rcases hrep.subscript_spec hrule hdirect with
        ⟨after, index, heval, hafter⟩
      have hrepresents := hafter.represents
      have hvalue := hafter.value
      simp only [call, heval, abstractCall, unbounded]
      cases hlookup : content.lookup key with
      | some value =>
          rw [hlookup] at hrepresents hvalue
          exact ⟨congrArg Outcome.value hvalue, hrepresents⟩
      | none =>
          rw [hlookup] at hrepresents hvalue
          exact ⟨congrArg Outcome.value hvalue, hrepresents⟩
  | assign key value =>
      rcases hrep.subscript_spec hrule hdirect with
        ⟨after, index, heval, hafter⟩
      have hrepresents := hafter.represents
      simp only [call, heval, abstractCall, unbounded, ite_self, true_and]
      cases hlookup : content.lookup key with
      | some old =>
          rw [hlookup] at hrepresents
          rcases hrepresents with ⟨exponent', hmid⟩
          exact ⟨exponent', hmid.setValue hafter.holds value⟩
      | none =>
          rw [hlookup] at hrepresents
          rcases hrepresents with ⟨exponent', hmid⟩
          have hstored := hmid.setValue hafter.holds value
          rw [Finmap.insert_insert] at hstored
          exact ⟨exponent', hstored⟩
  | contains key =>
      rcases map.holds_cases key with ⟨index, hholds⟩ | habsent
      · have hpresent : key ∈ content :=
          Finmap.mem_of_lookup_eq_some (hrep.lookup_hit hholds)
        simp only [call, contains, hrep.search_hit hholds, Option.map_some,
          Option.isSome_some, abstractCall, hpresent, decide_true, true_and]
        exact ⟨exponent, hrep⟩
      · have hmissing : key ∉ content :=
          Finmap.lookup_eq_none.mp (hrep.lookup_miss habsent)
        simp only [call, contains, hrep.search_miss habsent, Option.map_some,
          Option.isSome_none, abstractCall, hmissing, decide_false, true_and]
        exact ⟨exponent, hrep⟩
  | erase key =>
      rcases map.holds_cases key with ⟨index, hholds⟩ | habsent
      · have hpresent : key ∈ content :=
          Finmap.mem_of_lookup_eq_some (hrep.lookup_hit hholds)
        simp only [call, erase, hrep.search_hit hholds, Option.map_some,
          abstractCall, hpresent, decide_true, true_and]
        exact ⟨exponent, hrep.vacate hrule hholds⟩
      · have hmissing : key ∉ content :=
          Finmap.lookup_eq_none.mp (hrep.lookup_miss habsent)
        simp only [call, erase, hrep.search_miss habsent, Option.map_some,
          abstractCall, hmissing, decide_false, true_and]
        rw [erase_eq_self hmissing]
        exact ⟨exponent, hrep⟩
  | find key =>
      simp only [call, hrep.find_eq key, abstractCall, true_and]
      exact ⟨exponent, hrep⟩

/-- A table as a client of a map expects it: every key at most once, and gone
once it is erased. -/
def SoundTable (exceeds : ℕ → ℕ → Bool) (hash : Key → ℕ)
    (map : OpenAddressingHashMap Key Value) : Prop :=
  map.KeysOnce ∧ ∀ key index,
    ((map.call exceeds hash (.erase key)).1.nodeAt index).holds key = false

theorem Represents.soundTable (hrule : GrowthRule exceeds)
    (hrep : Represents exceeds hash exponent map content) :
    SoundTable exceeds hash map := by
  refine ⟨hrep.once, ?_⟩
  intro key index
  have hdirect : Direct exceeds hash map (.erase key) := trivial
  rcases (hrep.call_simulates hrule hdirect).2 with ⟨exponent', herased⟩
  rw [Bool.eq_false_iff]
  intro hholds
  have hlookup := herased.lookup_hit hholds
  dsimp only [abstractCall] at hlookup
  rw [Finmap.lookup_erase] at hlookup
  cases hlookup

/-- Behind a free slot, and without a move, the key gets a second slot. -/
theorem Represents.detour_occupies (hrule : GrowthRule exceeds)
    (hrep : Represents exceeds hash exponent map content)
    (hload : ¬ exceeds (map.size_ + 1) map.table_.length = true)
    (hdetoured : map.Detoured hash key) :
    ∃ index < map.table_.length,
      (∀ value, map.insert exceeds hash key value =
        some (map.occupy index key value)) ∧
      map.subscript exceeds hash key =
        some (map.occupy index key default, .ok index) ∧
      ∀ value, ¬ (map.occupy index key value).KeysOnce := by
  rcases hrep.detour_stop hrule hdetoured with
    ⟨near, hnear, far, hfar, hlt, hfirst, hstatus, hholds⟩
  have hindex := hrep.loaded.pathOf_lt_length hash key near
  refine ⟨_, hindex, ?_, ?_, ?_⟩
  · intro value
    unfold insert nestingSteps
    rw [insertNested, if_neg hload,
      hrep.loaded.place_eq hnear hfirst, if_neg hstatus]
  · unfold subscript nestingSteps
    rw [hrep.length] at hload
    rw [hrep.loaded.subscriptNested_eq hnear hfirst, if_neg hstatus,
      if_neg hload]
  · intro value
    apply occupy_not_keysOnce hindex _ hholds
    intro hsame
    have heq := pathOf_inj hfar hnear hsame
    omega

theorem Represents.call_breaks (hrule : GrowthRule exceeds)
    (hrep : Represents exceeds hash exponent map content)
    {c : Call Key Value} (hdirect : ¬ Direct exceeds hash map c) :
    ¬ (map.call exceeds hash c).1.KeysOnce := by
  cases c with
  | insert key value =>
      simp only [Direct, not_or, not_not] at hdirect
      rcases hrep.detour_occupies hrule hdirect.1 hdirect.2 with
        ⟨index, _, hinsert, _, htwice⟩
      simp only [call, hinsert]
      exact htwice value
  | subscript key =>
      simp only [Direct, not_or, not_not] at hdirect
      rcases hrep.detour_occupies hrule hdirect.1 hdirect.2 with
        ⟨index, _, _, hsubscript, htwice⟩
      simp only [call, hsubscript]
      exact htwice default
  | assign key value =>
      simp only [Direct, not_or, not_not] at hdirect
      rcases hrep.detour_occupies hrule hdirect.1 hdirect.2 with
        ⟨index, hindex, _, hsubscript, htwice⟩
      simp only [call, hsubscript]
      intro honce
      have hlt : index < (map.occupy index key default).table_.length := by
        unfold OpenAddressingHashMap.occupy setNode
        rw [List.length_set]
        exact hindex
      apply htwice default
      intro first second k hfirst hsecond
      rw [← holds_setValue hlt value] at hfirst hsecond
      exact honce first second k hfirst hsecond
  | contains key => exact absurd trivial hdirect
  | erase key => exact absurd trivial hdirect
  | find key => exact absurd trivial hdirect

/-! ## Runs -/

/-- Every run from the empty map is answered like the partial map, with every
key in at most one occupied slot and erased by `erase`, exactly when no
`insert` and no subscript of the run meets its key behind a free slot. -/
theorem openAddressing_refines_iff_direct
    (hash : Key → ℕ) (exponent : ℕ) (calls : List (Call Key Value)) :
    let map := construct (2 ^ exponent) Key Value
    (CallSystem.results (call exceedsLoad hash) map calls =
          CallSystem.results (abstractCall unbounded) ∅ calls ∧
        CallSystem.AllStates (call exceedsLoad hash)
          (SoundTable exceedsLoad hash) map calls) ↔
      CallSystem.AllAllowed (call exceedsLoad hash)
        (Direct exceedsLoad hash) map calls := by
  intro map
  apply CallSystem.simulation_iff_allAllowed (Direct exceedsLoad hash)
    (fun map content =>
      ∃ exponent, Represents exceedsLoad hash exponent map content)
  · intro map content hrelated
    rcases hrelated with ⟨exponent, hrep⟩
    exact hrep.soundTable exceedsLoad_growthRule
  · intro map content c hrelated hdirect
    rcases hrelated with ⟨exponent, hrep⟩
    exact hrep.call_simulates exceedsLoad_growthRule hdirect
  · intro map content c hrelated hdirect hsound
    rcases hrelated with ⟨exponent, hrep⟩
    exact hrep.call_breaks exceedsLoad_growthRule hdirect hsound.1
  · exact ⟨exponent, ofSize_represents exceedsLoad_growthRule hash exponent⟩

example : CallSystem.AllAllowed (call exceedsLoad fun key => key)
    (Direct exceedsLoad fun key => key) (construct (2 ^ 1) ℕ ℕ)
    [.insert 0 1, .insert 2 2, .erase 0, .insert 4 3, .assign 2 5,
      .find 2] := by
  decide

/-- Key 8 is put behind key 0, which is then erased.  The second insertion of
8 stops at the slot left by 0; `erase` finds one of the two 8s and the other
one stays. -/
theorem openAddressing_key_twice :
    let hash : ℕ → ℕ := fun key => key
    let map := construct (2 ^ 3) ℕ ℕ
    let calls : List (Call ℕ ℕ) :=
      [.insert 0 1, .insert 8 2, .erase 0, .insert 8 3, .erase 8,
        .contains 8, .find 8]
    CallSystem.results (call exceedsLoad hash) map calls =
        [.done, .done, .flag true, .done, .flag true, .flag true,
          .found (some 2)] ∧
      CallSystem.results (abstractCall unbounded) ∅ calls =
        [.done, .done, .flag true, .done, .flag true, .flag false,
          .found none] := by
  decide

end OpenAddressingHashMap
end HashMap
end TradingStudies
