import TradingStudies.OpenAddressingSlots
import TradingStudies.Library.StepSystem

/-!
# The load of a table

A table that respects its load always has a free slot, and from any hash index
the probe path visits every slot.  So each of the loops ends, whatever the
table holds.  Neither fact needs the keys to be where a search expects them:
a table with a key in two slots respects its load as well.
-/

namespace TradingStudies
namespace HashMap
namespace OpenAddressingHashMap

open ProbeLoop

variable {Key Value : Type*}

/-- The slot that the loops visit after `distance` steps. -/
def probed (hash : Key → ℕ) (map : OpenAddressingHashMap Key Value)
    (key : Key) (distance : ℕ) : ℕ :=
  (nextIndex map.mask_)^[distance] (map.getHash hash key)

structure Loaded (exceeds : ℕ → ℕ → Bool) (exponent : ℕ)
    (map : OpenAddressingHashMap Key Value) : Prop where
  length : map.table_.length = 2 ^ exponent
  mask : map.mask_ = 2 ^ exponent - 1
  size : map.size_ = occupiedCount map.table_
  load : exceeds map.size_ (2 ^ exponent) = false

variable {exceeds : ℕ → ℕ → Bool} {hash : Key → ℕ} {exponent : ℕ}
  {map : OpenAddressingHashMap Key Value} {key : Key} {index : ℕ}

/-! ## Probing -/

theorem Loaded.probed_eq (hloaded : Loaded exceeds exponent map)
    (distance : ℕ) :
    map.probed hash key distance = pathOf hash exponent key distance := by
  unfold probed getHash
  rw [hloaded.mask]
  exact iterate_nextIndex distance

theorem Loaded.pathOf_lt_length (hloaded : Loaded exceeds exponent map)
    (hash : Key → ℕ) (key : Key) (distance : ℕ) :
    pathOf hash exponent key distance < map.table_.length := by
  rw [hloaded.length]
  exact pathOf_lt distance

/-- Before a whole round is over, a loop is not back at its origin. -/
theorem Loaded.origin_ne (hloaded : Loaded exceeds exponent map)
    {distance : ℕ} (hdistance : distance + 1 < 2 ^ exponent) :
    some (map.getHash hash key) ≠
      some (map.probed hash key (distance + 1)) := by
  intro horigin
  have hhome : map.getHash hash key = pathOf hash exponent key 0 :=
    hloaded.probed_eq 0
  rw [hhome, hloaded.probed_eq, Option.some.injEq] at horigin
  have hzero := pathOf_inj (Nat.two_pow_pos exponent) hdistance horigin
  omega

/-- Both kinds of loop end at the first slot that stops them. -/
theorem Loaded.probe_eq (hloaded : Loaded exceeds exponent map)
    {stop : ℕ → Bool} {distance : ℕ} (hdistance : distance < 2 ^ exponent)
    (hfirst : FirstStop (nextIndex map.mask_) stop (map.getHash hash key)
      distance)
    {origin : Option ℕ}
    (horigin : origin = none ∨ origin = some (map.getHash hash key)) :
    probe (nextIndex map.mask_) stop origin (map.table_.length + 1)
        (map.getHash hash key) =
      some (.stopped (pathOf hash exponent key distance)) := by
  rw [← hloaded.probed_eq]
  apply probe_of_firstStop hfirst
  · intro earlier hearlier
    rcases horigin with hnone | hsome
    · rw [hnone]
      exact Option.some_ne_none _ |>.symm
    · rw [hsome]
      exact hloaded.origin_ne (by omega)
  · rw [hloaded.length]
    omega

/-! ## Writing one slot -/

variable [Inhabited Key] [Inhabited Value]

theorem ofSize_loaded (hrule : GrowthRule exceeds) (exponent : ℕ) :
    Loaded exceeds exponent (ofSize Key Value (2 ^ exponent)) where
  length := List.length_replicate
  mask := rfl
  size := by
    unfold occupiedCount ofSize
    symm
    rw [List.countP_eq_zero]
    intro node hnode
    rw [List.eq_of_mem_replicate hnode]
    exact Bool.false_ne_true
  load := hrule.zero exponent

omit [Inhabited Key] [Inhabited Value] in
theorem Loaded.setNode (hloaded : Loaded exceeds exponent map)
    {node : Node Key Value} {size : ℕ}
    (hsize : size = occupiedCount (map.setNode index node).table_)
    (hload : exceeds size (2 ^ exponent) = false) :
    Loaded exceeds exponent { map.setNode index node with size_ := size } where
  length := by
    rw [← hloaded.length]
    exact List.length_set
  mask := hloaded.mask
  size := hsize
  load := hload

theorem Loaded.setValue (hloaded : Loaded exceeds exponent map)
    (hstatus : (map.nodeAt index).status = .OCCUPIED) (value : Value) :
    Loaded exceeds exponent (map.setValue index value) := by
  have hcount := occupiedCount_setNode (lt_of_occupied hstatus)
    { map.nodeAt index with value_ := value }
  dsimp only at hcount
  rw [if_pos hstatus, ← hloaded.size, Nat.add_right_cancel_iff] at hcount
  exact hloaded.setNode hcount.symm hloaded.load

theorem Loaded.occupy (hloaded : Loaded exceeds exponent map)
    (hindex : index < map.table_.length)
    (hstatus : (map.nodeAt index).status ≠ .OCCUPIED)
    (hload : exceeds (map.size_ + 1) (2 ^ exponent) = false) (key : Key)
    (value : Value) :
    Loaded exceeds exponent (map.occupy index key value) := by
  have hcount := occupiedCount_setNode hindex ⟨key, value, .OCCUPIED⟩
  rw [if_neg hstatus, if_pos rfl, ← hloaded.size] at hcount
  exact hloaded.setNode hcount.symm hload

theorem Loaded.vacate (hrule : GrowthRule exceeds)
    (hloaded : Loaded exceeds exponent map)
    (hstatus : (map.nodeAt index).status = .OCCUPIED) :
    Loaded exceeds exponent (map.vacate index) := by
  have hcount := occupiedCount_setNode (lt_of_occupied hstatus)
    { map.nodeAt index with status := .DELETED }
  have hdeleted : Status.DELETED ≠ .OCCUPIED := by decide
  dsimp only at hcount
  rw [if_pos hstatus, if_neg hdeleted, ← hloaded.size] at hcount
  exact hloaded.setNode (Nat.sub_eq_of_eq_add hcount.symm)
    (hrule.mono (Nat.sub_le _ _) hloaded.load)

/-! ## Where the loops end -/

variable [DecidableEq Key]

/-- The search ends, at the key or without it. -/
theorem Loaded.search_returns (hloaded : Loaded exceeds exponent map)
    (hash : Key → ℕ) (key : Key) :
    ∃ found, map.search hash key = some found ∧
      ∀ index, found = some index →
        (map.nodeAt index).holds key = true := by
  unfold search
  dsimp only
  by_cases hstop : ∃ distance < 2 ^ exponent,
      map.stopsSearch key (map.probed hash key distance) = true
  · obtain ⟨distance, hdistance, hstops⟩ := hstop
    obtain ⟨first, hle, hfirst⟩ := exists_firstStop hstops
    rw [hloaded.probe_eq (lt_of_le_of_lt hle hdistance) hfirst (Or.inr rfl)]
    dsimp only
    split
    · rename_i hholds
      exact ⟨_, rfl, fun index hindex => Option.some.inj hindex ▸ hholds⟩
    · exact ⟨none, rfl, fun index hindex => by cases hindex⟩
  · -- no slot of the whole round stops the loop
    push Not at hstop
    have hpos := Nat.two_pow_pos exponent
    have hround : 2 ^ exponent - 1 + 1 = 2 ^ exponent := by omega
    have hback : map.probed hash key (2 ^ exponent) =
        map.getHash hash key := by
      have hhome : map.getHash hash key = pathOf hash exponent key 0 :=
        hloaded.probed_eq 0
      rw [hloaded.probed_eq, hhome, pathOf, pathOf, Nat.add_mod_right,
        Nat.add_zero]
    have hwrapped : probe (nextIndex map.mask_) (map.stopsSearch key)
        (some (map.getHash hash key)) (map.table_.length + 1)
        (map.getHash hash key) = some .wrapped := by
      apply probe_of_round (2 ^ exponent - 1)
      · intro earlier hearlier
        exact Bool.eq_false_iff.mpr (hstop earlier (by omega))
      · intro earlier hearlier
        exact hloaded.origin_ne (by omega)
      · rw [hround]
        exact congrArg some hback.symm
      · rw [hloaded.length]
        omega
    rw [hwrapped]
    exact ⟨none, rfl, fun index hindex => by cases hindex⟩

theorem Loaded.stopsInsert_iff (hloaded : Loaded exceeds exponent map)
    (distance : ℕ) :
    map.stopsInsert key (map.probed hash key distance) = true ↔
      (map.nodeAt (pathOf hash exponent key distance)).status ≠ .OCCUPIED ∨
        (map.nodeAt (pathOf hash exponent key distance)).holds key =
          true := by
  rw [hloaded.probed_eq, stopsInsert, Bool.or_eq_true, decide_eq_true_eq]

/-- Some slot stops the loop of `insert` and `operator[]`, since the table is
not full. -/
theorem Loaded.exists_insertStop (hrule : GrowthRule exceeds)
    (hloaded : Loaded exceeds exponent map) (hash : Key → ℕ) (key : Key) :
    ∃ distance < 2 ^ exponent,
      FirstStop (nextIndex map.mask_) (map.stopsInsert key)
        (map.getHash hash key) distance := by
  have hroom : occupiedCount map.table_ < map.table_.length := by
    rw [← hloaded.size, hloaded.length]
    exact hrule.room hloaded.load
  obtain ⟨index, hindex, hstatus⟩ := exists_vacant hroom
  rw [hloaded.length] at hindex
  obtain ⟨distance, hdistance, hpath⟩ := exists_pathOf hash key hindex
  rw [← hpath] at hstatus
  have hstop : map.stopsInsert key (map.probed hash key distance) = true :=
    (hloaded.stopsInsert_iff distance).mpr (Or.inl hstatus)
  obtain ⟨first, hle, hfirst⟩ := exists_firstStop hstop
  exact ⟨first, lt_of_le_of_lt hle hdistance, hfirst⟩

/-- Where the loop stops, the slot is free or has the key. -/
theorem Loaded.insertStop_cases (hrule : GrowthRule exceeds)
    (hloaded : Loaded exceeds exponent map) (hash : Key → ℕ) (key : Key) :
    ∃ distance < 2 ^ exponent,
      FirstStop (nextIndex map.mask_) (map.stopsInsert key)
          (map.getHash hash key) distance ∧
        ((map.nodeAt (pathOf hash exponent key distance)).holds key = true ∨
          (map.nodeAt (pathOf hash exponent key distance)).status ≠
            .OCCUPIED) := by
  obtain ⟨first, hlt, hfirst⟩ := hloaded.exists_insertStop hrule hash key
  exact ⟨first, hlt, hfirst,
    ((hloaded.stopsInsert_iff first).mp hfirst.stops).symm⟩

/-- Before the first stop every slot is occupied. -/
theorem Loaded.occupied_before (hloaded : Loaded exceeds exponent map)
    {distance : ℕ}
    (hfirst : FirstStop (nextIndex map.mask_) (map.stopsInsert key)
      (map.getHash hash key) distance) {earlier : ℕ}
    (hearlier : earlier < distance) :
    (map.nodeAt (pathOf hash exponent key earlier)).status = .OCCUPIED := by
  have hpass : map.stopsInsert key (map.probed hash key earlier) = false :=
    hfirst.before earlier hearlier
  rw [hloaded.probed_eq, stopsInsert, Bool.or_eq_false_iff,
    decide_eq_false_iff_not, not_not] at hpass
  exact hpass.1

/-! ## Placing a node -/

section Stop

variable {distance : ℕ} (hloaded : Loaded exceeds exponent map)
  (hdistance : distance < 2 ^ exponent)
  (hfirst : FirstStop (nextIndex map.mask_) (map.stopsInsert key)
    (map.getHash hash key) distance)

include hloaded hdistance hfirst

theorem Loaded.place_eq (value : Value) :
    map.place hash key value = some
      (if (map.nodeAt (pathOf hash exponent key distance)).status =
          .OCCUPIED then
        map.setValue (pathOf hash exponent key distance) value
      else map.occupy (pathOf hash exponent key distance) key value) := by
  unfold place
  rw [hloaded.probe_eq hdistance hfirst (Or.inl rfl)]
  dsimp only
  split <;> rfl

theorem Loaded.subscriptNested_eq (nesting : ℕ) :
    subscriptNested exceeds hash (nesting + 1) map key =
      if (map.nodeAt (pathOf hash exponent key distance)).status =
          .OCCUPIED then
        some (map, .ok (pathOf hash exponent key distance))
      else if exceeds (map.size_ + 1) (2 ^ exponent) then
        (map.reHash exceeds hash).bind fun new =>
          subscriptNested exceeds hash nesting new key
      else some (map.occupy (pathOf hash exponent key distance) key default,
        .ok (pathOf hash exponent key distance)) := by
  rw [subscriptNested, hloaded.probe_eq hdistance hfirst (Or.inr rfl),
    hloaded.length]
  dsimp only
  cases map.reHash exceeds hash <;> rfl

end Stop

theorem Loaded.place_spec (hrule : GrowthRule exceeds)
    (hloaded : Loaded exceeds exponent map)
    (hload : exceeds (map.size_ + 1) (2 ^ exponent) = false)
    (hash : Key → ℕ) (key : Key) (value : Value) :
    ∃ new, map.place hash key value = some new ∧
      Loaded exceeds exponent new ∧ new.size_ ≤ map.size_ + 1 := by
  obtain ⟨distance, hdistance, hfirst, hstop⟩ :=
    hloaded.insertStop_cases hrule hash key
  have hlt := hloaded.pathOf_lt_length hash key distance
  rw [hloaded.place_eq hdistance hfirst]
  by_cases hstatus :
      (map.nodeAt (pathOf hash exponent key distance)).status = .OCCUPIED
  · rw [if_pos hstatus]
    exact ⟨_, rfl, hloaded.setValue hstatus value, Nat.le_succ _⟩
  · rw [if_neg hstatus]
    exact ⟨_, rfl, hloaded.occupy hlt hstatus hload key value, le_rfl⟩

/-! ## reHash -/

/-- `reHash` calls `insert` only where it does not check into another
`reHash`. -/
def PlacesBelowLoad (exceeds : ℕ → ℕ → Bool) (hash : Key → ℕ)
    (insert : OpenAddressingHashMap Key Value → Key → Value →
      Option (OpenAddressingHashMap Key Value)) : Prop :=
  ∀ new key value, exceeds (new.size_ + 1) new.table_.length = false →
    insert new key value = new.place hash key value

/-- A relation between the nodes moved so far and the new table is kept by each
node, and leaves room for the next one. -/
structure KeptByMoves (exceeds : ℕ → ℕ → Bool) (hash : Key → ℕ)
    (table : List (Node Key Value))
    (Part : List (Node Key Value) → OpenAddressingHashMap Key Value → Prop) :
    Prop where
  skip : ∀ (front : List (Node Key Value)) (node : Node Key Value)
    (new : OpenAddressingHashMap Key Value), node.status ≠ .OCCUPIED →
      Part front new → Part (front ++ [node]) new
  place : ∀ (front : List (Node Key Value)) (node : Node Key Value)
    (rest : List (Node Key Value)) (new : OpenAddressingHashMap Key Value),
      table = front ++ node :: rest → node.status = .OCCUPIED →
        Part front new → exceeds (new.size_ + 1) new.table_.length = false ∧
          ∃ after, new.place hash node.key_ node.value_ = some after ∧
            Part (front ++ [node]) after

theorem KeptByMoves.fold {table : List (Node Key Value)}
    {Part : List (Node Key Value) → OpenAddressingHashMap Key Value → Prop}
    (hkept : KeptByMoves exceeds hash table Part)
    {front rest : List (Node Key Value)} (htable : table = front ++ rest)
    {new : OpenAddressingHashMap Key Value} (hpart : Part front new) :
    ∃ after,
      (∀ insert, PlacesBelowLoad exceeds hash insert →
        rest.foldlM
          (fun new node =>
            if node.status = .OCCUPIED then insert new node.key_ node.value_
            else some new) new = some after) ∧
        Part table after := by
  induction rest generalizing front new with
  | nil =>
      rw [List.append_nil] at htable
      rw [htable]
      exact ⟨new, fun _ _ => rfl, hpart⟩
  | cons node rest ih =>
      have hshift : table = (front ++ [node]) ++ rest := by
        rw [htable, List.append_assoc]
        rfl
      by_cases hstatus : node.status = .OCCUPIED
      · obtain ⟨hload, mid, hmid, hmoved⟩ :=
          hkept.place front node rest new htable hstatus hpart
        obtain ⟨after, hfold, hafter⟩ := ih hshift hmoved
        refine ⟨after, ?_, hafter⟩
        intro insert hinsert
        rw [List.foldlM_cons, if_pos hstatus, hinsert new _ _ hload, hmid]
        exact hfold insert hinsert
      · obtain ⟨after, hfold, hafter⟩ :=
          ih hshift (hkept.skip front node new hstatus hpart)
        refine ⟨after, ?_, hafter⟩
        intro insert hinsert
        rw [List.foldlM_cons, if_neg hstatus]
        exact hfold insert hinsert

/-- What holds of the empty new table holds of the full one at the end. -/
theorem KeptByMoves.reHash
    {Part : List (Node Key Value) → OpenAddressingHashMap Key Value → Prop}
    (hkept : KeptByMoves exceeds hash map.table_ Part)
    (hstart : Part [] (ofSize Key Value (map.table_.length * 2))) :
    ∃ new,
      (∀ insert, PlacesBelowLoad exceeds hash insert →
        reHashWith insert map = some new) ∧
        Part map.table_ new :=
  hkept.fold (List.nil_append _).symm hstart

omit [Inhabited Key] [Inhabited Value] [DecidableEq Key] in
theorem occupiedCount_snoc (front : List (Node Key Value))
    (node : Node Key Value) :
    occupiedCount (front ++ [node]) =
      occupiedCount front + if node.status = .OCCUPIED then 1 else 0 := by
  unfold occupiedCount
  rw [List.countP_append, List.countP_singleton]
  by_cases hstatus : node.status = .OCCUPIED
  · have hnode : node.occupied = true := decide_eq_true hstatus
    rw [if_pos hstatus, if_pos hnode]
  · have hnode : ¬ node.occupied = true := by
      simpa [Node.occupied] using hstatus
    rw [if_neg hstatus, if_neg hnode]

omit [Inhabited Key] [Inhabited Value] [DecidableEq Key] in
/-- The new table has room for the nodes moved so far and one more. -/
theorem Loaded.new_room (hrule : GrowthRule exceeds)
    (hloaded : Loaded exceeds exponent map) {size : ℕ}
    (hsize : size ≤ map.size_) :
    exceeds (size + 1) (2 ^ (exponent + 1)) = false :=
  hrule.mono (Nat.succ_le_succ hsize) (hrule.double hloaded.load)

omit [Inhabited Key] [Inhabited Value] [DecidableEq Key] in
theorem Loaded.front_le (hloaded : Loaded exceeds exponent map)
    {front rest : List (Node Key Value)}
    (htable : map.table_ = front ++ rest) :
    occupiedCount front ≤ map.size_ := by
  rw [hloaded.size, htable, occupiedCount, occupiedCount, List.countP_append]
  exact Nat.le_add_right _ _

/-- The new table is twice as large and has at most as many nodes. -/
theorem Loaded.reHash_spec (hrule : GrowthRule exceeds)
    (hloaded : Loaded exceeds exponent map) (hash : Key → ℕ) :
    ∃ new,
      (∀ insert, PlacesBelowLoad exceeds hash insert →
        reHashWith insert map = some new) ∧
        Loaded exceeds (exponent + 1) new ∧ new.size_ ≤ map.size_ := by
  have hkept : KeptByMoves exceeds hash map.table_ fun front new =>
      Loaded exceeds (exponent + 1) new ∧ new.size_ ≤ occupiedCount front := by
    constructor
    · intro front node new hstatus hpart
      rw [occupiedCount_snoc, if_neg hstatus]
      exact hpart
    · rintro front node rest new htable hstatus ⟨hnew, hsize⟩
      have hload := hloaded.new_room hrule
        (hsize.trans (hloaded.front_le htable))
      obtain ⟨after, hplace, hafter, hgrown⟩ :=
        hnew.place_spec hrule hload hash node.key_ node.value_
      rw [occupiedCount_snoc, if_pos hstatus, hnew.length]
      exact ⟨hload, after, hplace, hafter,
        hgrown.trans (Nat.succ_le_succ hsize)⟩
  rw [hloaded.size]
  apply hkept.reHash
  rw [hloaded.length, ← pow_succ]
  exact ⟨ofSize_loaded hrule (exponent + 1), Nat.zero_le _⟩

/-! ## insert and operator[] -/

variable (Value) in
theorem insertNested_placesBelowLoad (exceeds : ℕ → ℕ → Bool)
    (hash : Key → ℕ) (nesting : ℕ) :
    PlacesBelowLoad exceeds hash
      (insertNested exceeds hash (nesting + 1) :
        OpenAddressingHashMap Key Value → Key → Value →
          Option (OpenAddressingHashMap Key Value)) := by
  intro new key value hload
  rw [insertNested, if_neg (Bool.eq_false_iff.mp hload)]

/-- The table that `insert` probes, after its load check. -/
def insertTable (exceeds : ℕ → ℕ → Bool) (hash : Key → ℕ)
    (map : OpenAddressingHashMap Key Value) :
    Option (OpenAddressingHashMap Key Value) :=
  if exceeds (map.size_ + 1) map.table_.length then
    reHashWith (insertNested exceeds hash (map.table_.length + 1)) map
  else some map

theorem insert_eq (value : Value) :
    map.insert exceeds hash key value =
      (map.insertTable exceeds hash).bind fun table =>
        table.place hash key value := by
  unfold insert nestingSteps insertTable
  rw [insertNested]
  split
  · cases reHashWith (insertNested exceeds hash (map.table_.length + 1)) map <;>
      rfl
  · rfl

theorem Loaded.insertTable_spec (hrule : GrowthRule exceeds)
    (hloaded : Loaded exceeds exponent map) (hash : Key → ℕ) :
    ∃ table exponent', map.insertTable exceeds hash = some table ∧
      Loaded exceeds exponent' table ∧
      exceeds (table.size_ + 1) (2 ^ exponent') = false := by
  unfold insertTable
  by_cases hload : exceeds (map.size_ + 1) map.table_.length = true
  · obtain ⟨new, heval, hnew, hsize⟩ := hloaded.reHash_spec hrule hash
    rw [if_pos hload,
      heval _ (insertNested_placesBelowLoad Value exceeds hash _)]
    exact ⟨new, exponent + 1, rfl, hnew, hloaded.new_room hrule hsize⟩
  · rw [if_neg hload]
    rw [Bool.not_eq_true, hloaded.length] at hload
    exact ⟨map, exponent, rfl, hloaded, hload⟩

theorem Loaded.insert_spec (hrule : GrowthRule exceeds)
    (hloaded : Loaded exceeds exponent map) (hash : Key → ℕ) (key : Key)
    (value : Value) :
    ∃ after exponent', map.insert exceeds hash key value = some after ∧
      Loaded exceeds exponent' after := by
  obtain ⟨table, exponent', heval, htable, hload⟩ :=
    hloaded.insertTable_spec hrule hash
  obtain ⟨after, hplace, hafter, _⟩ :=
    htable.place_spec hrule hload hash key value
  rw [insert_eq, heval]
  exact ⟨after, exponent', hplace, hafter⟩

/-- With room for one more node, `operator[]` does not enter itself again. -/
theorem Loaded.subscriptNested_room (hrule : GrowthRule exceeds)
    (hloaded : Loaded exceeds exponent map)
    (hload : exceeds (map.size_ + 1) (2 ^ exponent) = false)
    (hash : Key → ℕ) (key : Key) :
    ∃ after index,
      (∀ nesting, subscriptNested exceeds hash (nesting + 1) map key =
        some (after, .ok index)) ∧
        Loaded exceeds exponent after ∧
        (after.nodeAt index).status = .OCCUPIED := by
  obtain ⟨distance, hdistance, hfirst, hstop⟩ :=
    hloaded.insertStop_cases hrule hash key
  have hlt := hloaded.pathOf_lt_length hash key distance
  have heval := hloaded.subscriptNested_eq hdistance hfirst
  by_cases hstatus :
      (map.nodeAt (pathOf hash exponent key distance)).status = .OCCUPIED
  · simp only [if_pos hstatus] at heval
    exact ⟨map, _, heval, hloaded, hstatus⟩
  · simp only [if_neg hstatus, if_neg (Bool.eq_false_iff.mp hload)] at heval
    have hnode := nodeAt_setNode hlt
      (⟨key, default, .OCCUPIED⟩ : Node Key Value)
      (pathOf hash exponent key distance)
    rw [if_pos rfl] at hnode
    exact ⟨_, _, heval, hloaded.occupy hlt hstatus hload key default,
      congrArg Node.status hnode⟩

/-- `operator[]` enters itself again at most once, and finds or makes the
node. -/
theorem Loaded.subscript_spec (hrule : GrowthRule exceeds)
    (hloaded : Loaded exceeds exponent map) (hash : Key → ℕ) (key : Key) :
    ∃ after index,
      (∀ nesting, subscriptNested exceeds hash (nesting + 2) map key =
        some (after, .ok index)) ∧
        (∃ exponent', Loaded exceeds exponent' after) ∧
        (after.nodeAt index).status = .OCCUPIED := by
  by_cases hload : exceeds (map.size_ + 1) (2 ^ exponent) = true
  · obtain ⟨distance, hdistance, hfirst, hstop⟩ :=
      hloaded.insertStop_cases hrule hash key
    have heval (nesting : ℕ) :=
      hloaded.subscriptNested_eq hdistance hfirst (nesting + 1)
    by_cases hstatus :
        (map.nodeAt (pathOf hash exponent key distance)).status = .OCCUPIED
    · simp only [if_pos hstatus] at heval
      exact ⟨map, _, heval, ⟨exponent, hloaded⟩, hstatus⟩
    · -- the table moves, and the call is made again on the new one
      obtain ⟨new, hmoves, hnew, hsize⟩ := hloaded.reHash_spec hrule hash
      have hmoved : map.reHash exceeds hash = some new :=
        hmoves _ (insertNested_placesBelowLoad Value exceeds hash _)
      obtain ⟨after, index, hagain, hafter, hfound⟩ :=
        hnew.subscriptNested_room hrule (hloaded.new_room hrule hsize) hash
          key
      simp only [if_neg hstatus, if_pos hload, hmoved, Option.bind_some,
        hagain] at heval
      exact ⟨after, index, heval, ⟨exponent + 1, hafter⟩, hfound⟩
  · obtain ⟨after, index, heval, hafter, hfound⟩ :=
      hloaded.subscriptNested_room hrule (Bool.eq_false_iff.mpr hload) hash
        key
    exact ⟨after, index, fun nesting => heval (nesting + 1),
      ⟨exponent, hafter⟩, hfound⟩

/-! ## Runs -/

/-- The call returns, and does not throw. -/
def Answered : Outcome Value → Prop
  | .threw _ | .undefined => False
  | _ => True

theorem Loaded.call_answered (hrule : GrowthRule exceeds)
    (hloaded : Loaded exceeds exponent map) (hash : Key → ℕ)
    (c : Call Key Value) :
    Answered (map.call exceeds hash c).2 ∧
      ∃ exponent', Loaded exceeds exponent' (map.call exceeds hash c).1 := by
  cases c with
  | insert key value =>
      obtain ⟨after, exponent', heval, hafter⟩ :=
        hloaded.insert_spec hrule hash key value
      simp only [call, heval]
      exact ⟨trivial, exponent', hafter⟩
  | subscript key =>
      obtain ⟨after, index, heval, hafter, hfound⟩ :=
        hloaded.subscript_spec hrule hash key
      have hsubscript : map.subscript exceeds hash key =
        some (after, .ok index) := heval _
      simp only [call, hsubscript]
      exact ⟨trivial, hafter⟩
  | assign key value =>
      obtain ⟨after, index, heval, ⟨exponent', hafter⟩, hfound⟩ :=
        hloaded.subscript_spec hrule hash key
      have hsubscript : map.subscript exceeds hash key =
        some (after, .ok index) := heval _
      simp only [call, hsubscript]
      exact ⟨trivial, exponent', hafter.setValue hfound value⟩
  | contains key =>
      obtain ⟨found, hsearch, hholds⟩ := hloaded.search_returns hash key
      simp only [call, contains, hsearch, Option.map_some]
      exact ⟨trivial, exponent, hloaded⟩
  | erase key =>
      obtain ⟨found, hsearch, hholds⟩ := hloaded.search_returns hash key
      simp only [call, erase, hsearch, Option.map_some]
      cases found with
      | none => exact ⟨trivial, exponent, hloaded⟩
      | some index =>
          have hstatus := (Node.holds_iff.mp (hholds index rfl)).1
          exact ⟨trivial, exponent, hloaded.vacate hrule hstatus⟩
  | find key =>
      obtain ⟨found, hsearch, hholds⟩ := hloaded.search_returns hash key
      simp only [call, find, hsearch, Option.map_some]
      exact ⟨trivial, exponent, hloaded⟩

theorem run_loaded (hrule : GrowthRule exceeds) (hash : Key → ℕ)
    (exponent : ℕ) (calls : List (Call Key Value)) :
    ∃ exponent', Loaded exceeds exponent'
      (CallSystem.stateAfter (call exceeds hash)
        (construct (2 ^ exponent) Key Value) calls) := by
  have hcall : ∀ map (c : Call Key Value),
      (∃ exponent, Loaded exceeds exponent map) →
        ∃ exponent, Loaded exceeds exponent (map.call exceeds hash c).1 := by
    rintro map c ⟨exponent, hloaded⟩
    exact (hloaded.call_answered hrule hash c).2
  exact CallSystem.stateAfter_invariant hcall
    ⟨exponent, ofSize_loaded hrule exponent⟩ calls

/-- `insert` where it does not call `reHash`; it has no result elsewhere. -/
def insertBelowLoad (exceeds : ℕ → ℕ → Bool) (hash : Key → ℕ)
    (map : OpenAddressingHashMap Key Value) (key : Key) (value : Value) :
    Option (OpenAddressingHashMap Key Value) :=
  if exceeds (map.size_ + 1) map.table_.length then none
  else map.place hash key value

variable (Value) in
theorem insertBelowLoad_placesBelowLoad (exceeds : ℕ → ℕ → Bool)
    (hash : Key → ℕ) :
    PlacesBelowLoad exceeds hash
      (insertBelowLoad exceeds hash :
        OpenAddressingHashMap Key Value → Key → Value →
          Option (OpenAddressingHashMap Key Value)) := by
  intro new key value hload
  rw [insertBelowLoad, if_neg (Bool.eq_false_iff.mp hload)]

/-- What the load check is for. -/
structure RespectsLoad (map : OpenAddressingHashMap Key Value) : Prop where
  size : map.size_ = occupiedCount map.table_
  load : (map.size_ : ℚ) ≤ 7 / 10 * (map.table_.length : ℚ)
  mask : map.mask_ = map.table_.length - 1
  length : ∃ exponent, map.table_.length = 2 ^ exponent

omit [Inhabited Key] [Inhabited Value] [DecidableEq Key] in
theorem Loaded.respectsLoad (hloaded : Loaded exceedsExact exponent map) :
    RespectsLoad map where
  size := hloaded.size
  load := by
    rw [hloaded.length, ← exceedsExact_eq_false_iff]
    exact hloaded.load
  mask := by
    rw [hloaded.length]
    exact hloaded.mask
  length := ⟨exponent, hloaded.length⟩

/-- After every run the load is respected.  Each next call is answered,
`operator[]` with at most one entry into itself, and `reHash` without another
`reHash` inside. -/
theorem openAddressing_respectsLoad (hash : Key → ℕ) (exponent : ℕ)
    (calls : List (Call Key Value)) :
    let last := CallSystem.stateAfter (call exceedsExact hash)
      (construct (2 ^ exponent) Key Value) calls
    RespectsLoad last ∧
      (∀ c, Answered (last.call exceedsExact hash c).2) ∧
      (∀ key, ∃ answer, last.subscript exceedsExact hash key = some answer ∧
        subscriptNested exceedsExact hash 2 last key = some answer) ∧
      ∃ new, last.reHash exceedsExact hash = some new ∧
        reHashWith (insertBelowLoad exceedsExact hash) last = some new := by
  intro last
  have hrule := exceedsExact_growthRule
  obtain ⟨exponent', hloaded⟩ : ∃ exponent', Loaded exceedsExact exponent' last :=
    run_loaded hrule hash exponent calls
  refine ⟨hloaded.respectsLoad, ?_, ?_, ?_⟩
  · intro c
    exact (hloaded.call_answered hrule hash c).1
  · intro key
    obtain ⟨after, index, heval, _⟩ := hloaded.subscript_spec hrule hash key
    exact ⟨(after, .ok index), heval _, heval 0⟩
  · obtain ⟨new, heval, _⟩ := hloaded.reHash_spec hrule hash
    exact ⟨new, heval _ (insertNested_placesBelowLoad Value _ _ _),
      heval _ (insertBelowLoad_placesBelowLoad Value _ _)⟩

end OpenAddressingHashMap
end HashMap
end TradingStudies
