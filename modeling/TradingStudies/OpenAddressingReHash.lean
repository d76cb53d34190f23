import TradingStudies.OpenAddressingInvariant

/-!
# Probing a table and moving it

The search of `contains`, `erase` and `find` passes over deleted slots and is
always right on a well-formed table.  The loop of `insert` and `operator[]`
stops at a deleted slot: it is right unless the key lies further on.  A table
just built by `reHash` has no deleted slots, so there the key is never missed.
-/

namespace TradingStudies
namespace HashMap
namespace OpenAddressingHashMap

open ProbeLoop

variable {Key Value : Type*} [Inhabited Key] [Inhabited Value]
  [DecidableEq Key]

/-- The key is in the table, behind a slot that is not occupied. -/
def Detoured (hash : Key → ℕ) (map : OpenAddressingHashMap Key Value)
    (key : Key) : Prop :=
  ∃ far < map.table_.length,
    (map.nodeAt (map.probed hash key far)).holds key = true ∧
      ∃ near < far,
        (map.nodeAt (map.probed hash key near)).status ≠ .OCCUPIED

def NoDeleted (map : OpenAddressingHashMap Key Value) : Prop :=
  ∀ index, (map.nodeAt index).status ≠ .DELETED

variable {exceeds : ℕ → ℕ → Bool} {hash : Key → ℕ} {exponent : ℕ}
  {map : OpenAddressingHashMap Key Value} {content : PartialMap Key Value}
  {key : Key} {index : ℕ}

/-! ## Probing -/

/-- Two slots of the path that have the key are at the same distance. -/
theorem Represents.distance_unique
    (hrep : Represents exceeds hash exponent map content)
    {distance other : ℕ} (hdistance : distance < 2 ^ exponent)
    (hother : other < 2 ^ exponent)
    (hfirst : (map.nodeAt (pathOf hash exponent key distance)).holds key =
      true)
    (hsecond : (map.nodeAt (pathOf hash exponent key other)).holds key =
      true) :
    distance = other :=
  pathOf_inj hdistance hother (hrep.once _ _ key hfirst hsecond)

/-! ## The search over deleted slots -/

theorem Represents.search_hit
    (hrep : Represents exceeds hash exponent map content)
    (hholds : (map.nodeAt index).holds key = true) :
    map.search hash key = some (some index) := by
  rcases exists_pathOf hash key (hrep.lt_of_holds hholds) with
    ⟨distance, hdistance, hpath⟩
  subst hpath
  have hfirst : FirstStop (nextIndex map.mask_) (map.stopsSearch key)
      (map.getHash hash key) distance :=
    { stops := by
        change map.stopsSearch key (map.probed hash key distance) = true
        rw [hrep.loaded.probed_eq, stopsSearch, hholds, Bool.or_true]
      before := by
        intro earlier hearlier
        change map.stopsSearch key (map.probed hash key earlier) = false
        have hopen :=
          hrep.paths key distance hdistance hholds earlier hearlier
        rw [hrep.loaded.probed_eq, stopsSearch, decide_eq_false hopen,
          Bool.false_or, Bool.eq_false_iff]
        intro hearly
        have hsame := hrep.distance_unique (hearlier.trans hdistance)
          hdistance hearly hholds
        omega }
  unfold search
  dsimp only
  rw [hrep.loaded.probe_eq hdistance hfirst (Or.inr rfl)]
  dsimp only
  rw [if_pos hholds]

theorem Represents.search_miss
    (hrep : Represents exceeds hash exponent map content)
    (habsent : ∀ index, (map.nodeAt index).holds key = false) :
    map.search hash key = some none := by
  obtain ⟨found, hsearch, hholds⟩ := hrep.loaded.search_returns hash key
  cases found with
  | none => exact hsearch
  | some index =>
      have hfound := hholds index rfl
      rw [habsent index] at hfound
      cases hfound

theorem holds_cases
    (map : OpenAddressingHashMap Key Value) (key : Key) :
    (∃ index, (map.nodeAt index).holds key = true) ∨
      ∀ index, (map.nodeAt index).holds key = false := by
  by_cases hpresent : ∃ index, (map.nodeAt index).holds key = true
  · exact Or.inl hpresent
  · push Not at hpresent
    exact Or.inr fun index => Bool.eq_false_iff.mpr (hpresent index)

theorem Represents.find_eq
    (hrep : Represents exceeds hash exponent map content) (key : Key) :
    map.find hash key = some (content.lookup key) := by
  unfold find
  rcases map.holds_cases key with ⟨index, hholds⟩ | habsent
  · rw [hrep.search_hit hholds, hrep.lookup_hit hholds]
    rfl
  · rw [hrep.search_miss habsent, hrep.lookup_miss habsent]
    rfl

/-! ## The loop of insert and operator[] -/

/-- Where the loop stops on a well-formed table: at the key, at a free slot if
the key is absent, or at a free slot before the key. -/
theorem Represents.insertStop_cases (hrule : GrowthRule exceeds)
    (hrep : Represents exceeds hash exponent map content) (key : Key) :
    (∃ distance < 2 ^ exponent,
      FirstStop (nextIndex map.mask_) (map.stopsInsert key)
          (map.getHash hash key) distance ∧
        (map.nodeAt (pathOf hash exponent key distance)).holds key = true) ∨
      (∃ distance < 2 ^ exponent,
        FirstStop (nextIndex map.mask_) (map.stopsInsert key)
            (map.getHash hash key) distance ∧
          (map.nodeAt (pathOf hash exponent key distance)).status ≠
            .OCCUPIED ∧
          ((∀ index, (map.nodeAt index).holds key = false) ∨
            ∃ far < 2 ^ exponent, distance < far ∧
              (map.nodeAt (pathOf hash exponent key far)).holds key =
                true)) := by
  obtain ⟨first, hlt, hfirst, hholds | hstatus⟩ :=
    hrep.loaded.insertStop_cases hrule hash key
  · exact Or.inl ⟨first, hlt, hfirst, hholds⟩
  · refine Or.inr ⟨first, hlt, hfirst, hstatus, ?_⟩
    by_cases hpresent : ∃ index, (map.nodeAt index).holds key = true
    · rcases hpresent with ⟨index, hholds⟩
      rcases exists_pathOf hash key (hrep.lt_of_holds hholds) with
        ⟨far, hfar, hpath⟩
      rw [← hpath] at hholds
      refine Or.inr ⟨far, hfar, ?_, hholds⟩
      rcases Nat.lt_trichotomy first far with hbefore | hsame | hafter
      · exact hbefore
      · rw [hsame] at hstatus
        exact absurd (Node.holds_iff.mp hholds).1 hstatus
      · have hpass : map.stopsInsert key (map.probed hash key far) = false :=
          hfirst.before far hafter
        rw [(hrep.loaded.stopsInsert_iff far).mpr (Or.inr hholds)] at hpass
        cases hpass
    · push Not at hpresent
      exact Or.inl fun index => Bool.eq_false_iff.mpr (hpresent index)

/-- A free slot where the loop stops takes the key, if no slot has it. -/
theorem Represents.occupy_stop
    (hrep : Represents exceeds hash exponent map content) {distance : ℕ}
    (hdistance : distance < 2 ^ exponent)
    (hfirst : FirstStop (nextIndex map.mask_) (map.stopsInsert key)
      (map.getHash hash key) distance)
    (hstatus : (map.nodeAt (pathOf hash exponent key distance)).status ≠
      .OCCUPIED)
    (habsent : ∀ index, (map.nodeAt index).holds key = false)
    (hload : exceeds (map.size_ + 1) (2 ^ exponent) = false)
    (value : Value) :
    Represents exceeds hash exponent
      (map.occupy (pathOf hash exponent key distance) key value)
      (content.insert key value) := by
  apply hrep.occupy hdistance _ hstatus habsent hload value
  intro earlier hearlier
  rw [hrep.loaded.occupied_before hfirst hearlier]
  decide

theorem Represents.detoured_of_far
    (hrep : Represents exceeds hash exponent map content)
    {near far : ℕ} (hfar : far < 2 ^ exponent) (hnear : near < far)
    (hholds : (map.nodeAt (pathOf hash exponent key far)).holds key = true)
    (hstatus : (map.nodeAt (pathOf hash exponent key near)).status ≠
      .OCCUPIED) :
    map.Detoured hash key := by
  rw [← hrep.loaded.probed_eq] at hholds hstatus
  rw [← hrep.length] at hfar
  exact ⟨far, hfar, hholds, near, hnear, hstatus⟩

theorem Represents.not_detoured
    (hrep : Represents exceeds hash exponent map content)
    (hclean : map.NoDeleted) (key : Key) : ¬ map.Detoured hash key := by
  intro hdetoured
  rcases hdetoured with ⟨far, hfar, hholds, near, hnear, hstatus⟩
  rw [hrep.loaded.probed_eq] at hholds hstatus
  rw [hrep.length] at hfar
  have hopen := hrep.paths key far hfar hholds near hnear
  have hdeleted := hclean (pathOf hash exponent key near)
  cases hcell : (map.nodeAt (pathOf hash exponent key near)).status with
  | EMPTY => exact hopen hcell
  | OCCUPIED => exact hstatus hcell
  | DELETED => exact hdeleted hcell

/-! ## Placing a node -/

omit [DecidableEq Key] in
theorem NoDeleted.setNode (hclean : map.NoDeleted)
    (hindex : index < map.table_.length) {node : Node Key Value}
    (hnode : node.status ≠ .DELETED) :
    (map.setNode index node).NoDeleted := by
  intro other
  rw [nodeAt_setNode hindex]
  by_cases heq : other = index
  · rw [if_pos heq]
    exact hnode
  · rw [if_neg heq]
    exact hclean other

theorem Represents.place_spec (hrule : GrowthRule exceeds)
    (hrep : Represents exceeds hash exponent map content)
    (hdirect : ¬ map.Detoured hash key)
    (hload : exceeds (map.size_ + 1) (2 ^ exponent) = false)
    (value : Value) :
    ∃ new, map.place hash key value = some new ∧
      Represents exceeds hash exponent new (content.insert key value) ∧
      new.size_ ≤ map.size_ + 1 ∧ (map.NoDeleted → new.NoDeleted) := by
  rcases hrep.insertStop_cases hrule key with
    ⟨distance, hdistance, hfirst, hholds⟩ |
    ⟨distance, hdistance, hfirst, hstatus, habsent | hfar⟩
  · have hnode := Node.holds_iff.mp hholds
    have hlt := lt_of_occupied hnode.1
    rw [hrep.loaded.place_eq hdistance hfirst, if_pos hnode.1]
    refine ⟨_, rfl, hrep.setValue hholds value, Nat.le_succ _, ?_⟩
    intro hclean
    exact hclean.setNode hlt (hclean _)
  · have hoccupy :=
      hrep.occupy_stop hdistance hfirst hstatus habsent hload value
    rw [hrep.loaded.place_eq hdistance hfirst, if_neg hstatus]
    refine ⟨_, rfl, hoccupy, le_rfl, ?_⟩
    intro hclean
    apply hclean.setNode (hrep.loaded.pathOf_lt_length hash key distance)
    intro hdeleted
    cases hdeleted
  · rcases hfar with ⟨far, hfar, hnear, hholds⟩
    exact absurd (hrep.detoured_of_far hfar hnear hholds hstatus) hdirect

/-! ## reHash -/

theorem maps_iff_mem {value : Value} :
    map.Maps key value ↔
      ∃ node ∈ map.table_, node.holds key = true ∧ node.value_ = value := by
  constructor
  · intro hmaps
    rcases hmaps with ⟨index, hholds, hvalue⟩
    have hlt := lt_of_occupied (Node.holds_iff.mp hholds).1
    exact ⟨_, nodeAt_mem hlt, hholds, hvalue⟩
  · intro hmem
    rcases hmem with ⟨node, hnode, hholds, hvalue⟩
    rcases List.getElem_of_mem hnode with ⟨index, hindex, heq⟩
    have hcell : map.nodeAt index = node := by
      rw [← heq]
      exact List.getD_eq_getElem _ _ hindex
    refine ⟨index, ?_, ?_⟩
    · rw [hcell]
      exact hholds
    · rw [hcell]
      exact hvalue

/-- The new table after the nodes `front` of the old one have been moved. -/
structure Moved (exceeds : ℕ → ℕ → Bool) (hash : Key → ℕ) (exponent : ℕ)
    (front : List (Node Key Value)) (new : OpenAddressingHashMap Key Value)
    (part : PartialMap Key Value) : Prop where
  represents : Represents exceeds hash (exponent + 1) new part
  clean : new.NoDeleted
  size : new.size_ ≤ occupiedCount front
  lookup : ∀ key value, part.lookup key = some value ↔
    ∃ node ∈ front, node.holds key = true ∧ node.value_ = value

theorem moved_nil (hrule : GrowthRule exceeds) (hash : Key → ℕ)
    (exponent : ℕ) :
    Moved exceeds hash exponent []
      (ofSize Key Value (2 ^ (exponent + 1))) ∅ where
  represents := ofSize_represents hrule hash (exponent + 1)
  clean := by
    intro index
    rw [nodeAt_ofSize]
    intro hdeleted
    cases hdeleted
  size := Nat.zero_le _
  lookup := by
    intro key value
    rw [Finmap.lookup_empty]
    simp

/-- In the old table a key is in front of a node that has it only if it is
twice in the table. -/
theorem KeysOnce.not_mem_front (honce : map.KeysOnce)
    {front rest : List (Node Key Value)} {node other : Node Key Value}
    (htable : map.table_ = front ++ node :: rest)
    (hnode : node.holds key = true) (hother : other ∈ front) :
    other.holds key = false := by
  rw [Bool.eq_false_iff]
  intro hholds
  rcases List.getElem_of_mem hother with ⟨index, hindex, heq⟩
  have hfirst : map.nodeAt index = other := by
    unfold nodeAt
    rw [htable, List.getD_append _ _ _ _ hindex,
      List.getD_eq_getElem _ _ hindex, heq]
  have hsecond : map.nodeAt front.length = node := by
    unfold nodeAt
    rw [htable, List.getD_append_right _ _ _ _ le_rfl, Nat.sub_self]
    rfl
  rw [← hfirst] at hholds
  rw [← hsecond] at hnode
  have hsame := honce index front.length key hholds hnode
  omega

theorem Moved.skip {front : List (Node Key Value)} {node : Node Key Value}
    {new : OpenAddressingHashMap Key Value} {part : PartialMap Key Value}
    (hmoved : Moved exceeds hash exponent front new part)
    (hstatus : node.status ≠ .OCCUPIED) :
    Moved exceeds hash exponent (front ++ [node]) new part where
  represents := hmoved.represents
  clean := hmoved.clean
  size := by
    rw [occupiedCount_snoc, if_neg hstatus]
    exact hmoved.size
  lookup := by
    intro key value
    rw [hmoved.lookup]
    constructor
    · intro hfound
      rcases hfound with ⟨other, hother, hholds⟩
      exact ⟨other, List.mem_append_left _ hother, hholds⟩
    · intro hfound
      rcases hfound with ⟨other, hother, hholds, hvalue⟩
      rcases List.mem_append.mp hother with hfront | hlast
      · exact ⟨other, hfront, hholds, hvalue⟩
      · rw [List.mem_singleton.mp hlast] at hholds
        exact absurd (Node.holds_iff.mp hholds).1 hstatus

theorem Moved.place (hrule : GrowthRule exceeds)
    (hrep : Represents exceeds hash exponent map content)
    {front rest : List (Node Key Value)} {node : Node Key Value}
    (htable : map.table_ = front ++ node :: rest)
    {new : OpenAddressingHashMap Key Value} {part : PartialMap Key Value}
    (hmoved : Moved exceeds hash exponent front new part)
    (hstatus : node.status = .OCCUPIED) :
    exceeds (new.size_ + 1) new.table_.length = false ∧
      ∃ after, new.place hash node.key_ node.value_ = some after ∧
        Moved exceeds hash exponent (front ++ [node]) after
          (part.insert node.key_ node.value_) := by
  have hholds : node.holds node.key_ = true :=
    Node.holds_iff.mpr ⟨hstatus, rfl⟩
  have hload : exceeds (new.size_ + 1) (2 ^ (exponent + 1)) = false :=
    hrep.loaded.new_room hrule
      (hmoved.size.trans (hrep.loaded.front_le htable))
  have hdirect := hmoved.represents.not_detoured hmoved.clean node.key_
  rcases hmoved.represents.place_spec hrule hdirect hload node.value_ with
    ⟨after, hplace, hafter, hsize, hclean⟩
  refine ⟨?_, after, hplace, ?_⟩
  · rw [hmoved.represents.length]
    exact hload
  · exact
      { represents := hafter
        clean := hclean hmoved.clean
        size := by
          rw [occupiedCount_snoc, if_pos hstatus]
          exact hsize.trans (Nat.succ_le_succ hmoved.size)
        lookup := by
          apply Describes.insert hmoved.lookup
          · intro found
            constructor
            · intro hfound
              rcases hfound with ⟨other, hother, hagain, hvalue⟩
              rcases List.mem_append.mp hother with hfront | hlast
              · have hnone :=
                  hrep.once.not_mem_front htable hholds hfront
                rw [hnone] at hagain
                cases hagain
              · rw [List.mem_singleton.mp hlast] at hvalue
                exact hvalue
            · intro hvalue
              exact ⟨node, by simp, hholds, hvalue⟩
          · intro key hkey found
            constructor
            · intro hfound
              rcases hfound with ⟨other, hother, hagain, hvalue⟩
              rcases List.mem_append.mp hother with hfront | hlast
              · exact ⟨other, hfront, hagain, hvalue⟩
              · rw [List.mem_singleton.mp hlast] at hagain
                exact absurd (Node.holds_iff.mp hagain).2.symm hkey
            · intro hfound
              rcases hfound with ⟨other, hother, hagain⟩
              exact ⟨other, List.mem_append_left _ hother, hagain⟩ }

/-- The new table is twice as large, represents the same map and has no
deleted slots, under any load check that lets the moves pass. -/
theorem Represents.reHash_moves (hrule : GrowthRule exceeds)
    (hrep : Represents exceeds hash exponent map content)
    {check : ℕ → ℕ → Bool}
    (hcheck : ∀ count ≤ map.size_, check count (2 ^ (exponent + 1)) = false) :
    ∃ new,
      (∀ insert, PlacesBelowLoad check hash insert →
        reHashWith insert map = some new) ∧
        Represents exceeds hash (exponent + 1) new content ∧
        new.NoDeleted ∧ new.size_ ≤ map.size_ := by
  have hkept : KeptByMoves check hash map.table_ fun front new =>
      ∃ part, Moved exceeds hash exponent front new part := by
    constructor
    · rintro front node new hstatus ⟨part, hmoved⟩
      exact ⟨part, hmoved.skip hstatus⟩
    · rintro front node rest new htable hstatus ⟨part, hmoved⟩
      obtain ⟨-, after, hplace, hafter⟩ :=
        hmoved.place hrule hrep htable hstatus
      refine ⟨?_, after, hplace, _, hafter⟩
      have hfront : map.table_ = (front ++ [node]) ++ rest := by
        rw [htable, List.append_assoc]
        rfl
      have hle := hrep.loaded.front_le hfront
      rw [occupiedCount_snoc, if_pos hstatus] at hle
      rw [hmoved.represents.length]
      exact hcheck _ ((Nat.succ_le_succ hmoved.size).trans hle)
  have hstart : ∃ part, Moved exceeds hash exponent []
      (ofSize Key Value (map.table_.length * 2)) part := by
    rw [hrep.length, ← pow_succ]
    exact ⟨∅, moved_nil hrule hash exponent⟩
  obtain ⟨new, heval, whole, hmoved⟩ := hkept.reHash hstart
  have hsame : whole = content := by
    apply Finmap.ext_lookup
    intro key
    apply Option.ext
    intro value
    rw [hmoved.lookup, hrep.lookup, maps_iff_mem]
  rw [hsame] at hmoved
  refine ⟨new, heval, hmoved.represents, hmoved.clean, ?_⟩
  rw [hrep.size]
  exact hmoved.size

theorem Represents.reHash_spec (hrule : GrowthRule exceeds)
    (hrep : Represents exceeds hash exponent map content) :
    ∃ new,
      (∀ insert, PlacesBelowLoad exceeds hash insert →
        reHashWith insert map = some new) ∧
        Represents exceeds hash (exponent + 1) new content ∧
        new.NoDeleted ∧ new.size_ ≤ map.size_ := by
  apply hrep.reHash_moves hrule
  intro count hcount
  exact hrule.mono (Nat.le_succ count) (hrep.loaded.new_room hrule hcount)

end OpenAddressingHashMap
end HashMap
end TradingStudies
