import TradingStudies.OpenAddressingReHash

/-!
# Moving a well-formed table

A table is well formed by what can be read off its slots: each key at most
once, every occupied slot open to the search for its key, a true count, and a
load of at most 0.7.  Such a table represents a finite map, and `reHash` builds
a table twice as large for the same map.

The load check of `insert` compares in single precision.  While `reHash` fills
the new table, its count stays below the old size, which is far enough from the
bound for the rounding not to matter.
-/

namespace TradingStudies
namespace HashMap

/-- Finitely many stored pairs, one for each key, are the content of a map. -/
theorem exists_describes {Key Value : Type*} [DecidableEq Key]
    {stored : Key → Value → Prop} (entries : List (Sigma fun _ : Key => Value))
    (hentries : ∀ key value, ⟨key, value⟩ ∈ entries ↔ stored key value)
    (hunique : ∀ key value other, stored key value → stored key other →
      value = other) :
    ∃ content : PartialMap Key Value, Describes content stored := by
  refine ⟨entries.toFinmap, ?_⟩
  intro key value
  rw [Finmap.dlookup_list_toFinmap]
  constructor
  · intro hlookup
    exact (hentries key value).mp (List.of_mem_dlookup hlookup)
  · intro hstored
    have hmem := (hentries key value).mpr hstored
    have hsome := List.dlookup_isSome.mpr (List.mem_keys_of_mem hmem)
    obtain ⟨found, hfound⟩ := Option.isSome_iff_exists.mp hsome
    have hother := (hentries key found).mp (List.of_mem_dlookup hfound)
    rw [hfound, hunique key found value hother hstored]

namespace OpenAddressingHashMap

variable {Key Value : Type*} [Inhabited Key] [Inhabited Value]
  [DecidableEq Key]

/-- Probing forward from the hash index of the key, the slot is reached over
slots that are not empty. -/
def Reachable (hash : Key → ℕ) (map : OpenAddressingHashMap Key Value)
    (key : Key) (index : ℕ) : Prop :=
  ∃ distance, map.probed hash key distance = index ∧
    ∀ earlier < distance,
      (map.nodeAt (map.probed hash key earlier)).status ≠ .EMPTY

structure WellFormed (hash : Key → ℕ) (exponent : ℕ)
    (map : OpenAddressingHashMap Key Value) : Prop where
  length : map.table_.length = 2 ^ exponent
  mask : map.mask_ = map.table_.length - 1
  once : map.KeysOnce
  reachable : ∀ key index, (map.nodeAt index).holds key = true →
    map.Reachable hash key index
  size : map.size_ = occupiedCount map.table_
  load : (map.size_ : ℚ) ≤ 7 / 10 * (map.table_.length : ℚ)

variable {hash : Key → ℕ} {exponent : ℕ}
  {map : OpenAddressingHashMap Key Value} {content : PartialMap Key Value}

theorem WellFormed.loaded (hwell : WellFormed hash exponent map) :
    Loaded exceedsExact exponent map where
  length := hwell.length
  mask := by
    rw [← hwell.length]
    exact hwell.mask
  size := hwell.size
  load := by
    rw [exceedsExact_eq_false_iff, ← hwell.length]
    exact hwell.load

theorem WellFormed.pathsOpen (hwell : WellFormed hash exponent map) :
    map.PathsOpen hash exponent := by
  intro key distance hdistance hholds earlier hearlier
  obtain ⟨steps, hsteps, hopen⟩ := hwell.reachable key _ hholds
  simp only [hwell.loaded.probed_eq] at hsteps hopen
  apply hopen
  -- The search has reached the slot after `distance` steps, or gone round.
  rcases Nat.lt_or_ge steps (2 ^ exponent) with hlt | hround
  · rw [pathOf_inj hlt hdistance hsteps]
    exact hearlier
  · omega

theorem WellFormed.represents (hwell : WellFormed hash exponent map) :
    ∃ content, Represents exceedsExact hash exponent map content := by
  have hentries : ∀ (key : Key) (value : Value),
      (⟨key, value⟩ : Sigma fun _ : Key => Value) ∈
          (map.table_.filter Node.occupied).map
            (fun node => ⟨node.key_, node.value_⟩) ↔
        map.Maps key value := by
    intro key value
    rw [maps_iff_mem, List.mem_map]
    constructor
    · rintro ⟨node, hnode, heq⟩
      cases heq
      rw [List.mem_filter] at hnode
      have hstatus : node.status = .OCCUPIED := of_decide_eq_true hnode.2
      exact ⟨node, hnode.1, Node.holds_iff.mpr ⟨hstatus, rfl⟩, rfl⟩
    · rintro ⟨node, hnode, hholds, rfl⟩
      obtain ⟨hstatus, rfl⟩ := Node.holds_iff.mp hholds
      refine ⟨node, List.mem_filter.mpr ⟨hnode, ?_⟩, rfl⟩
      exact decide_eq_true hstatus
  have hunique : ∀ key value other, map.Maps key value →
      map.Maps key other → value = other := by
    rintro key value other ⟨index, hholds, rfl⟩ ⟨again, hagain, rfl⟩
    rw [hwell.once index again key hholds hagain]
  obtain ⟨content, hlookup⟩ := exists_describes _ hentries hunique
  have hloaded := hwell.loaded
  exact ⟨content,
    { length := hloaded.length
      mask := hloaded.mask
      once := hwell.once
      paths := hwell.pathsOpen
      size := hloaded.size
      load := hloaded.load
      lookup := hlookup }⟩

theorem Represents.wellFormed
    (hrep : Represents exceedsExact hash exponent map content) :
    WellFormed hash exponent map where
  length := hrep.length
  mask := by
    rw [hrep.length]
    exact hrep.mask
  once := hrep.once
  reachable := by
    intro key index hholds
    obtain ⟨distance, hdistance, rfl⟩ :=
      exists_pathOf hash key (hrep.lt_of_holds hholds)
    refine ⟨distance, hrep.loaded.probed_eq distance, ?_⟩
    intro earlier hearlier
    rw [hrep.loaded.probed_eq]
    exact hrep.paths key distance hdistance hholds earlier hearlier
  size := hrep.size
  load := by
    rw [hrep.length, ← exceedsExact_eq_false_iff]
    exact hrep.load

/-- Half of the new table is below its load, rounded or not. -/
theorem exceedsLoad_half {count : ℕ} (hcount : count ≤ 2 ^ exponent) :
    exceedsLoad count (2 ^ (exponent + 1)) = false := by
  have hround := SignificandRound.round_mono 24 (by omega) hcount
  rw [SignificandRound.round_two_pow 24 (by omega)] at hround
  have hhalf : 2 ^ 24 ≤ 2 * maxLoadFactor_ := by decide
  rw [exceedsLoad_eq_false_iff, pow_succ 2 exponent, mul_assoc]
  exact Nat.mul_le_mul hround hhalf

/-- `reHash` keeps a table well formed and the answers of `find` as they
were. -/
theorem reHash_wellFormed (hash : Key → ℕ) (exponent : ℕ)
    (map : OpenAddressingHashMap Key Value)
    (hwell : WellFormed hash exponent map) :
    ∃ new, map.reHash exceedsLoad hash = some new ∧
      new.table_.length = 2 * map.table_.length ∧ new.NoDeleted ∧
      WellFormed hash (exponent + 1) new ∧
      ∀ key, ∃ found, map.find hash key = some found ∧
        new.find hash key = some found := by
  obtain ⟨content, hrep⟩ := hwell.represents
  have hroom : map.size_ < 2 ^ exponent :=
    exceedsExact_growthRule.room hrep.load
  have hcheck : ∀ count ≤ map.size_,
      exceedsLoad count (2 ^ (exponent + 1)) = false := by
    intro count hcount
    exact exceedsLoad_half (hcount.trans hroom.le)
  obtain ⟨new, heval, hnew, hclean, -⟩ :=
    hrep.reHash_moves exceedsExact_growthRule hcheck
  refine ⟨new, ?_, ?_, hclean, hnew.wellFormed, ?_⟩
  · exact heval _ (insertNested_placesBelowLoad Value _ _ _)
  · rw [hnew.length, hrep.length, pow_succ, Nat.mul_comm]
  · intro key
    exact ⟨_, hrep.find_eq key, hnew.find_eq key⟩

/-- The table in which key 5 was put behind key 1, and key 1 erased. -/
def behindDeleted : OpenAddressingHashMap ℕ ℕ where
  table_ := [fresh, ⟨1, 10, .DELETED⟩, ⟨5, 50, .OCCUPIED⟩, fresh]
  size_ := 1
  mask_ := 3

theorem holds_behindDeleted {index key : ℕ}
    (hholds : (behindDeleted.nodeAt index).holds key = true) :
    index = 2 ∧ key = 5 := by
  have hlt := lt_of_occupied (Node.holds_iff.mp hholds).1
  match index with
  | 0 => simp [behindDeleted, nodeAt, fresh] at hholds
  | 1 => simp [behindDeleted, nodeAt] at hholds
  | 2 =>
      have hkey : 5 = key := by simpa [behindDeleted, nodeAt] using hholds
      exact ⟨rfl, hkey.symm⟩
  | 3 => simp [behindDeleted, nodeAt, fresh] at hholds
  | index + 4 => simp [behindDeleted] at hlt

theorem reHash_wellFormed_behindDeleted :
    ∃ new, behindDeleted.reHash exceedsLoad (fun key => key) = some new ∧
      new.table_.length = 2 * behindDeleted.table_.length ∧ new.NoDeleted ∧
      WellFormed (fun key => key) 3 new ∧
      ∀ key, ∃ found,
        behindDeleted.find (fun key => key) key = some found ∧
          new.find (fun key => key) key = some found := by
  have hwell : WellFormed (fun key => key) 2 behindDeleted := by
    constructor
    · rfl
    · rfl
    · intro index other key hindex hother
      rw [(holds_behindDeleted hindex).1, (holds_behindDeleted hother).1]
    · intro key index hholds
      obtain ⟨rfl, rfl⟩ := holds_behindDeleted hholds
      exact ⟨1, by decide, by decide⟩
    · rfl
    · norm_num [behindDeleted]
  exact reHash_wellFormed (fun key => key) 2 behindDeleted hwell

end OpenAddressingHashMap
end HashMap
end TradingStudies
