import TradingStudies.OpenAddressingLoaded

/-!
# Well-formed tables

In a well-formed table no key is in two occupied slots, and no slot on the
probe path from a key's hash index to the key is empty.  The operations write
one slot in one of three ways, and each of them changes the content the way a
finite map changes.
-/

namespace TradingStudies
namespace HashMap
namespace OpenAddressingHashMap

open ProbeLoop

variable {Key Value : Type*}

/-! ## The content of a table -/

section Content

variable [Inhabited Key] [Inhabited Value] [DecidableEq Key]

def Maps (map : OpenAddressingHashMap Key Value) (key : Key)
    (value : Value) : Prop :=
  ∃ index, (map.nodeAt index).holds key = true ∧
    (map.nodeAt index).value_ = value

/-- Each key is in at most one occupied slot. -/
def KeysOnce (map : OpenAddressingHashMap Key Value) : Prop :=
  ∀ index other key, (map.nodeAt index).holds key = true →
    (map.nodeAt other).holds key = true → index = other

/-- A search for an occupied slot meets no empty one before it. -/
def PathsOpen (hash : Key → ℕ) (exponent : ℕ)
    (map : OpenAddressingHashMap Key Value) : Prop :=
  ∀ key, ∀ distance < 2 ^ exponent,
    (map.nodeAt (pathOf hash exponent key distance)).holds key = true →
      ∀ earlier < distance,
        (map.nodeAt (pathOf hash exponent key earlier)).status ≠ .EMPTY

structure Represents (exceeds : ℕ → ℕ → Bool) (hash : Key → ℕ)
    (exponent : ℕ) (map : OpenAddressingHashMap Key Value)
    (content : PartialMap Key Value) : Prop where
  length : map.table_.length = 2 ^ exponent
  mask : map.mask_ = 2 ^ exponent - 1
  once : map.KeysOnce
  paths : map.PathsOpen hash exponent
  size : map.size_ = occupiedCount map.table_
  load : exceeds map.size_ (2 ^ exponent) = false
  lookup : ∀ key value, content.lookup key = some value ↔ map.Maps key value

variable {exceeds : ℕ → ℕ → Bool} {hash : Key → ℕ} {exponent : ℕ}
  {map : OpenAddressingHashMap Key Value} {content : PartialMap Key Value}
  {key : Key} {index : ℕ}

theorem Represents.loaded
    (hrep : Represents exceeds hash exponent map content) :
    Loaded exceeds exponent map where
  length := hrep.length
  mask := hrep.mask
  size := hrep.size
  load := hrep.load

theorem ofSize_represents (hrule : GrowthRule exceeds) (hash : Key → ℕ)
    (exponent : ℕ) :
    Represents exceeds hash exponent (ofSize Key Value (2 ^ exponent)) ∅ := by
  have hempty (index : ℕ) (key : Key) :
      ¬ ((ofSize Key Value (2 ^ exponent)).nodeAt index).holds key = true := by
    rw [nodeAt_ofSize, Node.holds_iff]
    intro hholds
    cases hholds.1
  have hloaded : Loaded exceeds exponent (ofSize Key Value (2 ^ exponent)) :=
    ofSize_loaded hrule exponent
  exact
    { length := hloaded.length
      mask := hloaded.mask
      once := fun index other key hindex _ => absurd hindex (hempty index key)
      paths := fun key distance _ hholds => absurd hholds (hempty _ key)
      size := hloaded.size
      load := hloaded.load
      lookup := by
        intro key value
        rw [Finmap.lookup_empty]
        constructor
        · intro hnone
          cases hnone
        · intro hmaps
          rcases hmaps with ⟨index, hholds, _⟩
          exact absurd hholds (hempty index key) }

theorem Represents.lookup_hit
    (hrep : Represents exceeds hash exponent map content)
    (hholds : (map.nodeAt index).holds key = true) :
    content.lookup key = some (map.nodeAt index).value_ :=
  (hrep.lookup key _).mpr ⟨index, hholds, rfl⟩

theorem Represents.lookup_miss
    (hrep : Represents exceeds hash exponent map content)
    (habsent : ∀ index, (map.nodeAt index).holds key = false) :
    content.lookup key = none := by
  cases hlookup : content.lookup key with
  | none => rfl
  | some value =>
      rcases (hrep.lookup key value).mp hlookup with ⟨index, hholds, _⟩
      rw [habsent index] at hholds
      cases hholds

theorem Represents.lt_of_holds
    (hrep : Represents exceeds hash exponent map content)
    (hholds : (map.nodeAt index).holds key = true) : index < 2 ^ exponent := by
  rw [← hrep.length]
  exact lt_of_occupied (Node.holds_iff.mp hholds).1

/-! ## Writing one slot -/

section Write

variable {value : Value} (hlt : index < map.table_.length)
  (honly : ∀ other, (map.nodeAt other).holds key = true → other = index)
  (hthere : ∀ k, (map.nodeAt index).holds k = true → k = key)

include hlt honly hthere

/-- After a write of the key, its slot has the key and the other keys are where
they were. -/
theorem holds_write (other : ℕ) (k : Key) :
    ((map.setNode index ⟨key, value, .OCCUPIED⟩).nodeAt other).holds k =
        true ↔
      (other = index ∧ k = key) ∨
        (k ≠ key ∧ (map.nodeAt other).holds k = true) := by
  rw [nodeAt_setNode hlt]
  by_cases heq : other = index
  · rw [if_pos heq, Node.holds_iff]
    constructor
    · intro hfound
      exact Or.inl ⟨heq, hfound.2.symm⟩
    · intro hcases
      rcases hcases with ⟨_, hk⟩ | ⟨hne, hold⟩
      · exact ⟨rfl, hk.symm⟩
      · rw [heq] at hold
        exact absurd (hthere k hold) hne
  · rw [if_neg heq]
    constructor
    · intro hfound
      refine Or.inr ⟨?_, hfound⟩
      intro hk
      rw [hk] at hfound
      exact heq (honly other hfound)
    · intro hcases
      rcases hcases with ⟨hindex, _⟩ | ⟨_, hold⟩
      · exact absurd hindex heq
      · exact hold

theorem keysOnce_write (honce : map.KeysOnce) :
    (map.setNode index ⟨key, value, .OCCUPIED⟩).KeysOnce := by
  intro first second k hfirst hsecond
  rw [holds_write hlt honly hthere] at hfirst hsecond
  rcases hfirst with ⟨hone, hk⟩ | ⟨hk, hone⟩ <;>
    rcases hsecond with ⟨htwo, hk'⟩ | ⟨hk', htwo⟩
  · rw [hone, htwo]
  · exact absurd hk hk'
  · exact absurd hk' hk
  · exact honce first second k hone htwo

theorem describes_write (hlookup : Describes content map.Maps) :
    Describes (content.insert key value)
      (map.setNode index ⟨key, value, .OCCUPIED⟩).Maps := by
  apply hlookup.insert
  · intro found
    constructor
    · intro hmaps
      rcases hmaps with ⟨other, hholds, hvalue⟩
      rcases (holds_write hlt honly hthere other key).mp hholds with
        ⟨hindex, _⟩ | ⟨hne, _⟩
      · rw [nodeAt_setNode hlt, if_pos hindex] at hvalue
        exact hvalue
      · exact absurd rfl hne
    · intro hvalue
      refine ⟨index, ?_, ?_⟩
      · rw [holds_write hlt honly hthere]
        exact Or.inl ⟨rfl, rfl⟩
      · rw [nodeAt_setNode hlt, if_pos rfl]
        exact hvalue
  · intro k hk found
    have helsewhere {other : ℕ}
        (hholds : (map.nodeAt other).holds k = true) : other ≠ index := by
      intro heq
      rw [heq] at hholds
      exact hk (hthere k hholds)
    constructor
    · intro hmaps
      rcases hmaps with ⟨other, hholds, hvalue⟩
      rcases (holds_write hlt honly hthere other k).mp hholds with
        ⟨_, heq⟩ | ⟨_, hold⟩
      · exact absurd heq hk
      · rw [nodeAt_setNode hlt, if_neg (helsewhere hold)] at hvalue
        exact ⟨other, hold, hvalue⟩
    · intro hmaps
      rcases hmaps with ⟨other, hold, hvalue⟩
      refine ⟨other, ?_, ?_⟩
      · rw [holds_write hlt honly hthere]
        exact Or.inr ⟨hk, hold⟩
      · rw [nodeAt_setNode hlt, if_neg (helsewhere hold)]
        exact hvalue

end Write

/-- A write that does not empty its slot puts no empty slot on a path. -/
theorem PathsOpen.setNode (hpaths : map.PathsOpen hash exponent)
    (hlt : index < map.table_.length) {node : Node Key Value}
    (hnode : node.status ≠ .EMPTY) {distance : ℕ}
    (hfar : distance < 2 ^ exponent)
    (hholds : (map.nodeAt (pathOf hash exponent key distance)).holds key =
      true) {earlier : ℕ} (hearlier : earlier < distance) :
    ((map.setNode index node).nodeAt
      (pathOf hash exponent key earlier)).status ≠ .EMPTY := by
  rw [nodeAt_setNode hlt]
  by_cases heq : pathOf hash exponent key earlier = index
  · rw [if_pos heq]
    exact hnode
  · rw [if_neg heq]
    exact hpaths key distance hfar hholds earlier hearlier

/-- A node with the key is written over a slot of that key, or into a slot on
the key's path which is not occupied when no slot has the key. -/
theorem Represents.write
    (hrep : Represents exceeds hash exponent map content)
    {distance : ℕ} (hdistance : distance < 2 ^ exponent)
    (hindex : index = pathOf hash exponent key distance)
    (hpath : ∀ earlier < distance,
      (map.nodeAt (pathOf hash exponent key earlier)).status ≠ .EMPTY)
    (honly : ∀ other, (map.nodeAt other).holds key = true → other = index)
    (hthere : ∀ k, (map.nodeAt index).holds k = true → k = key)
    {value : Value} {size : ℕ}
    (hloaded : Loaded exceeds exponent
      { map.setNode index ⟨key, value, .OCCUPIED⟩ with size_ := size }) :
    Represents exceeds hash exponent
      { map.setNode index ⟨key, value, .OCCUPIED⟩ with size_ := size }
      (content.insert key value) := by
  have hlt : index < map.table_.length := by
    rw [hindex]
    exact hrep.loaded.pathOf_lt_length hash key distance
  have hpaths :
      (map.setNode index ⟨key, value, .OCCUPIED⟩).PathsOpen hash exponent := by
    intro k far hfar hfound earlier hearlier
    rcases (holds_write hlt honly hthere _ k).mp hfound with
      ⟨hone, hk⟩ | ⟨_, hone⟩
    · subst hk
      rw [hindex] at hone
      have hsame := pathOf_inj hfar hdistance hone
      rw [nodeAt_setNode hlt]
      split
      · intro hempty
        cases hempty
      · exact hpath earlier (by omega)
    · apply hrep.paths.setNode hlt _ hfar hone hearlier
      intro hempty
      cases hempty
  exact
    { length := hloaded.length
      mask := hloaded.mask
      once := keysOnce_write hlt honly hthere hrep.once
      paths := hpaths
      size := hloaded.size
      load := hloaded.load
      lookup := describes_write hlt honly hthere hrep.lookup }

theorem Represents.setValue
    (hrep : Represents exceeds hash exponent map content)
    (hholds : (map.nodeAt index).holds key = true) (value : Value) :
    Represents exceeds hash exponent (map.setValue index value)
      (content.insert key value) := by
  have hnode := Node.holds_iff.mp hholds
  have hlt := lt_of_occupied hnode.1
  have hindex := hrep.lt_of_holds hholds
  rcases exists_pathOf hash key hindex with ⟨distance, hdistance, hpath⟩
  have hwritten : { map.nodeAt index with value_ := value } =
      (⟨key, value, .OCCUPIED⟩ : Node Key Value) := by
    rw [← hnode.1, ← hnode.2]
  have hloaded := hrep.loaded.setValue hnode.1 value
  unfold OpenAddressingHashMap.setValue at hloaded ⊢
  rw [hwritten] at hloaded ⊢
  apply hrep.write hdistance hpath.symm
  · rw [← hpath] at hholds
    exact hrep.paths key distance hdistance hholds
  · intro other hother
    exact hrep.once other index key hother hholds
  · intro k hk
    exact (Node.holds_iff.mp hk).2.symm.trans hnode.2
  · exact hloaded

theorem Represents.occupy
    (hrep : Represents exceeds hash exponent map content)
    {distance : ℕ} (hdistance : distance < 2 ^ exponent)
    (hpath : ∀ earlier < distance,
      (map.nodeAt (pathOf hash exponent key earlier)).status ≠ .EMPTY)
    (hvacant : (map.nodeAt (pathOf hash exponent key distance)).status ≠
      .OCCUPIED)
    (habsent : ∀ other, (map.nodeAt other).holds key = false)
    (hload : exceeds (map.size_ + 1) (2 ^ exponent) = false)
    (value : Value) :
    Represents exceeds hash exponent
      (map.occupy (pathOf hash exponent key distance) key value)
      (content.insert key value) := by
  have hlt := hrep.loaded.pathOf_lt_length hash key distance
  apply hrep.write hdistance rfl hpath
  · intro other hother
    rw [habsent other] at hother
    cases hother
  · intro k hk
    exact absurd (Node.holds_iff.mp hk).1 hvacant
  · exact hrep.loaded.occupy hlt hvacant hload key value

/-- After an erasure the key is gone and the other keys are where they
were. -/
theorem KeysOnce.holds_vacate (honce : map.KeysOnce)
    (hholds : (map.nodeAt index).holds key = true) (other : ℕ) (k : Key) :
    ((map.vacate index).nodeAt other).holds k = true ↔
      k ≠ key ∧ (map.nodeAt other).holds k = true := by
  have hfull := Node.holds_iff.mp hholds
  have hnode : (map.vacate index).nodeAt other = _ :=
    nodeAt_setNode (lt_of_occupied hfull.1) _ other
  rw [hnode]
  by_cases heq : other = index
  · rw [if_pos heq, heq]
    constructor
    · intro hdeleted
      cases (Node.holds_iff.mp hdeleted).1
    · intro hother
      have hk := (Node.holds_iff.mp hother.2).2
      exact absurd (hk.symm.trans hfull.2) hother.1
  · rw [if_neg heq]
    constructor
    · intro hother
      refine ⟨?_, hother⟩
      intro hk
      rw [hk] at hother
      exact heq (honce other index key hother hholds)
    · exact And.right

omit [DecidableEq Key] in
theorem value_vacate (hlt : index < map.table_.length) (other : ℕ) :
    ((map.vacate index).nodeAt other).value_ =
      (map.nodeAt other).value_ := by
  have hnode : (map.vacate index).nodeAt other = _ :=
    nodeAt_setNode hlt _ other
  rw [hnode]
  by_cases heq : other = index
  · rw [if_pos heq, heq]
  · rw [if_neg heq]

theorem Represents.vacate (hrule : GrowthRule exceeds)
    (hrep : Represents exceeds hash exponent map content)
    (hholds : (map.nodeAt index).holds key = true) :
    Represents exceeds hash exponent (map.vacate index)
      (content.erase key) := by
  have hfull := Node.holds_iff.mp hholds
  have hlt := lt_of_occupied hfull.1
  have hfound := hrep.once.holds_vacate hholds
  have hloaded := hrep.loaded.vacate hrule hfull.1
  exact
    { length := hloaded.length
      mask := hloaded.mask
      once := by
        intro first second k hfirst hsecond
        rw [hfound] at hfirst hsecond
        exact hrep.once first second k hfirst.2 hsecond.2
      paths := by
        intro k far hfar hkey earlier hearlier
        rw [hfound] at hkey
        apply hrep.paths.setNode hlt _ hfar hkey.2 hearlier
        intro hempty
        cases hempty
      size := hloaded.size
      load := hloaded.load
      lookup := by
        apply Describes.erase hrep.lookup
        · intro found hmaps
          rcases hmaps with ⟨other, hother, _⟩
          exact absurd rfl ((hfound other key).mp hother).1
        · intro k hk found
          constructor
          · intro hmaps
            rcases hmaps with ⟨other, hother, hv⟩
            rw [value_vacate hlt] at hv
            exact ⟨other, ((hfound other k).mp hother).2, hv⟩
          · intro hmaps
            rcases hmaps with ⟨other, hother, hv⟩
            rw [← value_vacate hlt] at hv
            exact ⟨other, (hfound other k).mpr ⟨hk, hother⟩, hv⟩ }

end Content

end OpenAddressingHashMap
end HashMap
end TradingStudies
