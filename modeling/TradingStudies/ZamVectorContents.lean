import TradingStudies.ZamVectorRuns

/-!
# The vectors as lists

What a program sees of its vectors are sizes and elements.  A vector holds a
list when its elements read back are those of the list.  Every member acts on
the lists as its name says, whatever moves leave of the elements they take from
and however often the buffer is exchanged, and no other vector is affected.
-/

namespace TradingStudies
namespace Zam

open HandleTable RawStorage StepSystem

variable {α : Type*}

/-- `operator[]`, which throws beyond the size. -/
def Vector.subscript (vector : Vector) (index : ℕ) (storage : Storage α) :
    Option (Except String α) :=
  if index ≥ vector.size_ then
    some (.error ("Index " ++ toString index ++ " out of bounds"))
  else (storage.read vector.data_ index).map .ok

/-- The elements are those of the list. -/
def Holds (storage : Storage α) (vector : Vector) (list : List α) : Prop :=
  vector.size_ = list.length ∧
    ∀ index, storage.read vector.data_ index = list[index]?

section Vectors

variable {vector vector' other : Vector} {storage storage' : Storage α}
  {moved : α → α} {list source : List α}

theorem holds_empty (storage : Storage α) :
    Holds storage Vector.empty ([] : List α) :=
  ⟨rfl, fun _ => rfl⟩

/-- The other vectors keep their elements. -/
theorem Rebuilt.holds_other
    (hrebuilt : Rebuilt vector storage vector' storage')
    (hother : Stored storage other)
    (hapart : ∀ buffer ∈ buffers other, buffer ∉ buffers vector)
    (hholds : Holds storage other list) : Holds storage' other list := by
  refine ⟨hholds.1, ?_⟩
  intro index
  rw [← hholds.2]
  cases hdata : other.data_ with
  | none => rfl
  | some buffer =>
      exact read_of_block (hrebuilt.changed.others buffer
        (hother.2 buffer hdata).1 (hapart buffer hdata)) index

theorem holds_ofSize (size : ℕ) (storage : Storage α) :
    Holds (Vector.ofSize size storage).2 (Vector.ofSize size storage).1 [] :=
  ⟨rfl, read_allocate storage size⟩

theorem Stored.data_ne (hstored : Stored storage vector) :
    vector.data_ ≠ some storage.created :=
  fun hdata => Nat.lt_irrefl _ (hstored.2 _ hdata).1

theorem holds_allocate (hholds : Holds storage vector list)
    (hstored : Stored storage vector) (capacity : ℕ) :
    Holds (storage.allocate capacity).2 vector list := by
  refine ⟨hholds.1, ?_⟩
  intro index
  rw [← hholds.2]
  cases hdata : vector.data_ with
  | none => rfl
  | some buffer =>
      have hblock := (allocate_span storage capacity).2.others buffer
        (hstored.2 buffer hdata).1 (Set.notMem_empty buffer)
      exact read_of_block hblock index

/-- The elements survive a change of the buffer. -/
theorem Holds.reallocate (hholds : Holds storage vector list)
    (hstored : Stored storage vector) {new_capacity : ℕ}
    (hgrows : new_capacity = 0 ∨ vector.capacity_ < new_capacity)
    (hreallocate : vector.reallocate moved new_capacity storage =
      some (vector', storage')) :
    Holds storage' vector' list := by
  unfold Vector.reallocate at hreallocate
  extract_lets capacity allocated at hreallocate
  have hlarger : vector.size_ ≤ capacity := by
    have hsize := hstored.size_le
    unfold capacity
    split
    · omega
    · split
      · omega
      · omega
  obtain ⟨middle, hmove, hold, hnew, -, -⟩ :=
    moveEach_allocated moved hstored hlarger
  obtain ⟨next, hdiscard, hdiscarded⟩ := discard_updated hold
  change (((storage.allocate capacity).2.moveEach moved vector.data_
    (some storage.created) vector.size_).bind _) = _ at hreallocate
  rw [hmove, Option.bind_some, hdiscard, Option.map_some] at hreallocate
  cases hreallocate
  have hbefore := holds_allocate hholds hstored capacity
  have hread := (read_moveEach hstored.data_ne hmove).1
  have hmiddle : Holds middle
      ⟨vector.size_, capacity, some storage.created⟩ list := by
    refine ⟨hholds.1, ?_⟩
    intro index
    rw [hread]
    split
    · exact hbefore.2 index
    · rename_i hbeyond
      rw [read_allocate, List.getElem?_eq_none (by have := hholds.1; omega)]
  apply hdiscarded.toRebuilt.holds_other hnew ?_ hmiddle
  intro buffer hbuffer hmem
  cases hbuffer
  exact hstored.data_ne hmem

theorem Holds.append (hholds : Holds storage vector list)
    (hstored : Stored storage vector) (val : α)
    (happend : vector.append moved val storage = some (vector', storage')) :
    Holds storage' vector' (list ++ [val]) := by
  unfold Vector.append at happend
  obtain ⟨⟨grown, middle⟩, hgrown, hmap⟩ := Option.bind_eq_some_iff.mp happend
  obtain ⟨next, hconstruct, heq⟩ := Option.map_eq_some_iff.mp hmap
  cases heq
  have hmiddle : Holds middle grown list := by
    split at hgrown
    · exact hholds.reallocate hstored (Or.inl rfl) hgrown
    · cases hgrown
      exact hholds
  constructor
  · show grown.size_ + 1 = (list ++ [val]).length
    rw [List.length_append, hmiddle.1]
    rfl
  · intro index
    show storage'.read grown.data_ index = _
    rw [read_construct hconstruct, hmiddle.2, hmiddle.1]
    simp only [true_and]
    rcases Nat.lt_trichotomy index list.length with hlt | heq | hgt
    · rw [if_neg (by omega), List.getElem?_append_left hlt]
    · rw [if_pos heq, heq, List.getElem?_concat_length]
    · rw [if_neg (by omega), List.getElem?_eq_none (by omega),
        List.getElem?_eq_none (by simp; omega)]

theorem Holds.reserve (hholds : Holds storage vector list)
    (hstored : Stored storage vector) (capacity : ℕ)
    (hreserve : vector.reserve moved capacity storage =
      some (vector', storage')) :
    Holds storage' vector' list := by
  unfold Vector.reserve at hreserve
  split at hreserve
  · rename_i hlarger
    exact hholds.reallocate hstored (Or.inr hlarger) hreserve
  · cases hreserve
    exact hholds

theorem Holds.appendEach (hholds : Holds storage vector list)
    (hstored : Stored storage vector) (hsource : Holds storage other source)
    (hother : Stored storage other)
    (hapart : ∀ buffer ∈ buffers other, buffer ∉ buffers vector) {size : ℕ}
    (hsize : size ≤ other.size_)
    (heach : vector.appendEach moved other size storage =
      some (vector', storage')) :
    Holds storage' vector' (list ++ source.take size) := by
  induction size generalizing vector' storage' with
  | zero =>
      cases heach
      rw [List.take_zero, List.append_nil]
      exact hholds
  | succ size ih =>
      obtain ⟨grown, middle, hgrown, hupdated⟩ :=
        appendEach_updated moved hstored hother hapart size (by omega)
      have hbefore := ih (by omega) hgrown
      have hkept := hupdated.toRebuilt.holds_other hother hapart hsource
      rw [Vector.appendEach, foldlM_range_succ] at heach
      rw [Vector.appendEach] at hgrown
      rw [hgrown, Option.bind_some] at heach
      obtain ⟨val, hread, happend⟩ := Option.bind_eq_some_iff.mp heach
      rw [hkept.2] at hread
      have hnext := hbefore.append hupdated.stored val happend
      rw [List.append_assoc] at hnext
      rw [List.take_add_one, hread]
      exact hnext

theorem Holds.pop_back (hholds : Holds storage vector list)
    {popped : Option α}
    (hpop : vector.pop_back moved storage =
      some (popped, vector', storage')) :
    popped = list.getLast? ∧ Holds storage' vector' list.dropLast := by
  unfold Vector.pop_back at hpop
  split at hpop
  · rename_i hzero
    cases hpop
    obtain rfl : list = [] := by
      rw [← List.length_eq_zero_iff, ← hholds.1]
      exact hzero
    exact ⟨rfl, hholds⟩
  · rename_i hsize
    obtain ⟨val, hread, hrest⟩ := Option.bind_eq_some_iff.mp hpop
    obtain ⟨written, hwrite, hmap⟩ := Option.bind_eq_some_iff.mp hrest
    obtain ⟨next, hdestroy, heq⟩ := Option.map_eq_some_iff.mp hmap
    cases heq
    have hlength := hholds.1
    refine ⟨?_, ?_, ?_⟩
    · rw [List.getLast?_eq_getElem?, ← hlength, ← hholds.2]
      exact hread.symm
    · rw [List.length_dropLast, ← hlength]
    · intro index
      show storage'.read vector.data_ index = _
      rw [read_destroy hdestroy, read_write hwrite, List.getElem?_dropLast,
        ← hlength]
      by_cases hlast : index = vector.size_ - 1
      · rw [if_pos ⟨rfl, hlast⟩, if_neg (by omega)]
      · have hsame : storage.temporary.read vector.data_ index = list[index]? :=
          hholds.2 index
        rw [if_neg fun hboth => hlast hboth.2,
          if_neg fun hboth => hlast hboth.2, hsame]
        split
        · rfl
        · exact List.getElem?_eq_none (by omega)

theorem Holds.copyConstruct (hsource : Holds storage other source)
    (hother : Stored storage other)
    (hcopy : Vector.copyConstruct moved other storage =
      some (vector', storage')) :
    Holds storage' vector' source := by
  obtain ⟨reserved, middle, hreserve, hfirst⟩ :=
    reserve_updated moved (stored_empty storage) other.capacity_
  have hnone : ∀ buffer ∈ buffers other, buffer ∉ buffers Vector.empty :=
    fun _ _ => nofun
  have hbefore := (holds_empty storage).reserve (stored_empty storage) _
    hreserve
  rw [Vector.copyConstruct, hreserve, Option.bind_some] at hcopy
  have heach := hbefore.appendEach hfirst.stored
    (hfirst.toRebuilt.holds_other hother hnone hsource)
    (hfirst.stored_other hother hnone) (hfirst.apart_other hother hnone)
    le_rfl hcopy
  rwa [List.nil_append, hsource.1, List.take_length] at heach

/-- The elements of the target are destroyed first. -/
theorem clear_updated (hstored : Stored storage vector) :
    ∃ emptied, storage.destroyEach vector.data_ vector.size_ = some emptied ∧
      Updated vector storage { vector with size_ := 0 } emptied := by
  cases hdata : vector.data_ with
  | none =>
      have hsize := (hstored.1 hdata).1
      have hsame : ({ vector with size_ := 0 } : Vector) = vector := by
        rw [← hsize]
      rw [← hdata, hsame, hsize]
      exact ⟨storage, rfl, .refl hstored⟩
  | some buffer =>
      obtain ⟨hlt, hspan⟩ := hstored.2 buffer hdata
      obtain ⟨emptied, hdestroy, hempty, hchanged, halive⟩ :=
        destroyEach_span hspan vector.size_ le_rfl
      refine ⟨emptied, hdestroy, ?_⟩
      rw [← hdata]
      apply resized hdata hlt hempty.empty hchanged
      rw [halive]
      exact sub_zero _

theorem Holds.clear {emptied : Storage α}
    (hholds : Holds storage vector list)
    (hdestroy : storage.destroyEach vector.data_ vector.size_ =
      some emptied) :
    Holds emptied { vector with size_ := 0 } [] := by
  refine ⟨rfl, ?_⟩
  intro index
  show emptied.read vector.data_ index = none
  rw [read_destroyEach hdestroy]
  split
  · rfl
  · rw [hholds.2]
    exact List.getElem?_eq_none (by have := hholds.1; omega)

theorem Holds.copyAssign (hholds : Holds storage vector list)
    (hstored : Stored storage vector) (hsource : Holds storage other source)
    (hother : Stored storage other)
    (hapart : ∀ buffer ∈ buffers other, buffer ∉ buffers vector)
    (hcopy : vector.copyAssign moved other storage =
      some (vector', storage')) :
    Holds storage' vector' source := by
  obtain ⟨emptied, hdestroy, hcleared⟩ := clear_updated hstored
  obtain ⟨reserved, middle, hreserve, hreserved⟩ :=
    reserve_updated moved hcleared.stored other.capacity_
  have hfirst := hcleared.trans hreserved
  have hbefore := (hholds.clear hdestroy).reserve hcleared.stored _ hreserve
  rw [Vector.copyAssign, hdestroy, Option.bind_some, hreserve,
    Option.bind_some] at hcopy
  have heach := hbefore.appendEach hfirst.stored
    (hfirst.toRebuilt.holds_other hother hapart hsource)
    (hfirst.stored_other hother hapart) (hfirst.apart_other hother hapart)
    le_rfl hcopy
  rwa [List.nil_append, hsource.1, List.take_length] at heach

end Vectors

/-! ## Programs -/

variable {Name : Type*} [DecidableEq Name]

/-- The list of a name; a name out of scope has none. -/
def listOf (lists : Table Name (List α)) (name : Name) : List α :=
  (lists.lookup name).getD []

/-- What the members do to the lists. -/
def listStep (lists : Table Name (List α)) :
    Op Name α → Table Name (List α)
  | .construct name => lists.insert name []
  | .constructSize name _ => lists.insert name []
  | .constructSizeValue name size val =>
      lists.insert name (List.replicate size val)
  | .copyConstruct name other => lists.insert name (listOf lists other)
  | .moveConstruct name other =>
      (lists.insert other []).insert name (listOf lists other)
  | .copyAssign name other => lists.insert name (listOf lists other)
  | .moveAssign name other =>
      if name = other then lists
      else (lists.insert other []).insert name (listOf lists other)
  | .push_back name val => lists.insert name (listOf lists name ++ [val])
  | .emplace_back name val => lists.insert name (listOf lists name ++ [val])
  | .pop_back name => lists.insert name (listOf lists name).dropLast
  | .reserve _ _ => lists
  | .destroy name => lists.erase name

/-- No vector is filled with a value when it is constructed. -/
def NotFilled (_ : World Name α) : Op Name α → Prop
  | .constructSizeValue _ size _ => size = 0
  | _ => True

instance (world : World Name α) : DecidablePred (NotFilled world)
  | .constructSizeValue _ size _ => inferInstanceAs (Decidable (size = 0))
  | .construct _ | .constructSize _ _ | .copyConstruct _ _
  | .moveConstruct _ _ | .copyAssign _ _ | .moveAssign _ _ | .push_back _ _
  | .emplace_back _ _ | .pop_back _ | .reserve _ _ | .destroy _ =>
      inferInstanceAs (Decidable True)

/-- Every vector holds the list of its name. -/
structure HoldAll (world : World Name α) (lists : Table Name (List α)) :
    Prop where
  names : ∀ name, name ∈ world.vectors ↔ name ∈ lists
  holds : ∀ name vector, world.vectors.lookup name = some vector →
    Holds world.storage vector (listOf lists name)

section Steps

variable {world : World Name α} {lists : Table Name (List α)}
  {name other : Name} {vector vector' source : Vector}
  {storage' : Storage α} {moved : α → α} {list : List α}

theorem listOf_insert_self (lists : Table Name (List α)) (name : Name)
    (list : List α) : listOf (lists.insert name list) name = list := by
  rw [listOf, Finmap.lookup_insert]
  rfl

theorem listOf_insert_ne (hne : other ≠ name) (lists : Table Name (List α))
    (list : List α) :
    listOf (lists.insert name list) other = listOf lists other := by
  rw [listOf, Finmap.lookup_insert_of_ne _ hne]
  rfl

/-- One vector is replaced, the others keep their lists. -/
theorem HoldAll.set (hall : HoldAll world lists) (howned : Owned world)
    (hrebuilt : Rebuilt (world.at name) world.storage vector' storage')
    (hholds : Holds storage' vector' list) :
    HoldAll (world.set name (vector', storage')) (lists.insert name list) := by
  constructor
  · intro other
    show other ∈ world.vectors.insert name vector' ↔ _
    rw [Finmap.mem_insert, Finmap.mem_insert, hall.names]
  · intro other vector hlookup
    by_cases heq : other = name
    · subst other
      rw [lookup_set_self] at hlookup
      cases hlookup
      rw [listOf_insert_self]
      exact hholds
    · rw [lookup_set_ne heq] at hlookup
      rw [listOf_insert_ne heq]
      exact hrebuilt.holds_other (howned.stored other vector hlookup)
        (howned.apart_at (Ne.symm heq) hlookup)
        (hall.holds other vector hlookup)

/-- A list changes its name. -/
theorem HoldAll.handed (hall : HoldAll world lists) (howned : Owned world)
    (hne : name ≠ other) (hother : world.vectors.lookup other = some source)
    (hrebuilt : Rebuilt (world.at name) world.storage Vector.empty
      storage') :
    HoldAll (handed world name other source storage')
      ((lists.insert other []).insert name (listOf lists other)) := by
  constructor
  · intro found
    show found ∈ (world.vectors.insert other _).insert name source ↔ _
    rw [Finmap.mem_insert, Finmap.mem_insert, Finmap.mem_insert,
      Finmap.mem_insert, hall.names]
  · intro found vector hlookup
    unfold Zam.handed at hlookup
    by_cases heq : found = name
    · subst found
      rw [lookup_set_self] at hlookup
      cases hlookup
      rw [listOf_insert_self]
      exact hrebuilt.holds_other (howned.stored other source hother)
        (howned.apart_at hne hother) (hall.holds other source hother)
    · rw [lookup_set_ne heq] at hlookup
      rw [listOf_insert_ne heq]
      by_cases hgiven : found = other
      · subst found
        rw [lookup_set_self] at hlookup
        cases hlookup
        rw [listOf_insert_self]
        exact holds_empty storage'
      · rw [lookup_set_ne hgiven] at hlookup
        rw [listOf_insert_ne hgiven]
        exact hrebuilt.holds_other (howned.stored found vector hlookup)
          (howned.apart_at (Ne.symm heq) hlookup)
          (hall.holds found vector hlookup)

theorem HoldAll.erase (hall : HoldAll world lists) (name : Name) :
    HoldAll { world with vectors := world.vectors.erase name }
      (lists.erase name) := by
  constructor
  · intro other
    show other ∈ world.vectors.erase name ↔ _
    rw [Finmap.mem_erase, Finmap.mem_erase, hall.names]
  · intro other vector hlookup
    change (world.vectors.erase name).lookup other = some vector at hlookup
    by_cases heq : other = name
    · rw [heq, Finmap.lookup_erase] at hlookup
      cases hlookup
    · rw [Finmap.lookup_erase_ne heq] at hlookup
      have hsame : listOf (lists.erase name) other = listOf lists other := by
        rw [listOf, Finmap.lookup_erase_ne heq]
        rfl
      rw [hsame]
      exact hall.holds other vector hlookup

/-- What a step comes to. -/
def Follows (moved : α → α) (world : World Name α)
    (lists : Table Name (List α)) (op : Op Name α) : Prop :=
  ∃ next, step moved world op = some next ∧ Owned next ∧
    HoldAll next (listStep lists op)

theorem follows_set (hall : HoldAll world lists) (howned : Owned world)
    {op : Op Name α} (hname : world.at name = vector)
    (hrebuilt : Rebuilt vector world.storage vector' storage')
    (hholds : Holds storage' vector' list)
    (hstep : step moved world op = some (world.set name (vector', storage')))
    (hlists : listStep lists op = lists.insert name list) :
    Follows moved world lists op := by
  subst hname
  refine ⟨_, hstep, howned.set hrebuilt, ?_⟩
  rw [hlists]
  exact hall.set howned hrebuilt hholds

theorem HoldAll.insert_same (hall : HoldAll world lists)
    (hmem : name ∈ world.vectors) :
    lists.insert name (listOf lists name) = lists := by
  obtain ⟨list, hlist⟩ := Finmap.mem_iff.mp ((hall.names name).mp hmem)
  apply Finmap.ext_lookup
  intro other
  by_cases heq : other = name
  · rw [heq, Finmap.lookup_insert, listOf, hlist]
    rfl
  · rw [Finmap.lookup_insert_of_ne _ heq]

theorem follows_copyConstruct (hall : HoldAll world lists)
    (howned : Owned world) (hfresh : name ∉ world.vectors)
    (hmem : other ∈ world.vectors) :
    Follows moved world lists (.copyConstruct name other) := by
  obtain ⟨source, hother⟩ := Finmap.mem_iff.mp hmem
  have hstored := howned.stored other source hother
  obtain ⟨vector, storage', hcopy, hupdated⟩ :=
    copyConstruct_updated moved hstored
  refine follows_set hall howned (at_of_notMem hfresh) hupdated.toRebuilt
    ((hall.holds other source hother).copyConstruct hstored hcopy) ?_ rfl
  rw [step, hother, Option.bind_some, hcopy, Option.map_some]

theorem follows_moveConstruct (hall : HoldAll world lists)
    (howned : Owned world) (hfresh : name ∉ world.vectors)
    (hmem : other ∈ world.vectors) :
    Follows moved world lists (.moveConstruct name other) := by
  obtain ⟨source, hother⟩ := Finmap.mem_iff.mp hmem
  have hne : name ≠ other := fun heq => hfresh (heq ▸ hmem)
  have hrebuilt : Rebuilt (world.at name) world.storage Vector.empty
      world.storage := by
    rw [at_of_notMem hfresh]
    exact (Updated.refl (stored_empty world.storage)).toRebuilt
  refine ⟨handed world name other source world.storage, ?_,
    howned.handed hne hother hrebuilt, hall.handed howned hne hother hrebuilt⟩
  rw [step, hother, Option.map_some]
  rfl

theorem follows_copyAssign (hall : HoldAll world lists)
    (howned : Owned world) (hname : name ∈ world.vectors)
    (hmem : other ∈ world.vectors) :
    Follows moved world lists (.copyAssign name other) := by
  by_cases hsame : name = other
  · subst other
    refine ⟨world, if_pos rfl, howned, ?_⟩
    show HoldAll world (lists.insert name (listOf lists name))
    rw [hall.insert_same hname]
    exact hall
  · obtain ⟨vector, hlookup⟩ := Finmap.mem_iff.mp hname
    obtain ⟨source, hother⟩ := Finmap.mem_iff.mp hmem
    have hstored := howned.stored name vector hlookup
    have hstored' := howned.stored other source hother
    have hapart := howned.apart name other vector source hlookup hother hsame
    obtain ⟨vector', storage', hcopy, hupdated⟩ :=
      copyAssign_updated moved hstored hstored' hapart
    refine follows_set hall howned (at_of_lookup hlookup) hupdated.toRebuilt
      ((hall.holds name vector hlookup).copyAssign hstored
        (hall.holds other source hother) hstored' hapart hcopy) ?_ rfl
    rw [step, if_neg hsame, hlookup, Option.bind_some, hother,
      Option.bind_some, hcopy, Option.map_some]

theorem follows_moveAssign (hall : HoldAll world lists)
    (howned : Owned world) (hname : name ∈ world.vectors)
    (hmem : other ∈ world.vectors) :
    Follows moved world lists (.moveAssign name other) := by
  by_cases hsame : name = other
  · refine ⟨world, if_pos hsame, howned, ?_⟩
    rw [listStep, if_pos hsame]
    exact hall
  · obtain ⟨vector, hlookup⟩ := Finmap.mem_iff.mp hname
    obtain ⟨source, hother⟩ := Finmap.mem_iff.mp hmem
    obtain ⟨storage', hfree, hrebuilt, -⟩ :=
      free_rebuilt (howned.stored name vector hlookup)
    rw [← at_of_lookup hlookup] at hrebuilt
    refine ⟨handed world name other source storage', ?_,
      howned.handed hsame hother hrebuilt, ?_⟩
    · rw [step, if_neg hsame, hlookup, Option.bind_some, hother,
        Option.bind_some, hfree]
      rfl
    · rw [listStep, if_neg hsame]
      exact hall.handed howned hsame hother hrebuilt

theorem follows_push_back (hall : HoldAll world lists)
    (howned : Owned world) (hname : name ∈ world.vectors) (val : α) :
    Follows moved world lists (.push_back name val) := by
  obtain ⟨vector, hlookup⟩ := Finmap.mem_iff.mp hname
  have hstored := howned.stored name vector hlookup
  obtain ⟨vector', storage', happend, hupdated⟩ :=
    append_updated moved hstored val
  refine follows_set hall howned (at_of_lookup hlookup) hupdated.toRebuilt
    ((hall.holds name vector hlookup).append hstored val happend) ?_ rfl
  rw [step, hlookup, Option.bind_some, Vector.push_back, happend,
    Option.map_some]

theorem follows_pop_back (hall : HoldAll world lists)
    (howned : Owned world) (hname : name ∈ world.vectors) :
    Follows moved world lists (.pop_back name) := by
  obtain ⟨vector, hlookup⟩ := Finmap.mem_iff.mp hname
  obtain ⟨popped, vector', storage', hpop, hupdated⟩ :=
    pop_back_updated moved (howned.stored name vector hlookup)
  refine follows_set hall howned (at_of_lookup hlookup) hupdated.toRebuilt
    ((hall.holds name vector hlookup).pop_back hpop).2 ?_ rfl
  rw [step, hlookup, Option.bind_some, hpop, Option.map_some]

theorem follows_reserve (hall : HoldAll world lists)
    (howned : Owned world) (hname : name ∈ world.vectors) (capacity : ℕ) :
    Follows moved world lists (.reserve name capacity) := by
  obtain ⟨vector, hlookup⟩ := Finmap.mem_iff.mp hname
  have hstored := howned.stored name vector hlookup
  obtain ⟨vector', storage', hreserve, hupdated⟩ :=
    reserve_updated moved hstored capacity
  refine follows_set hall howned (at_of_lookup hlookup) hupdated.toRebuilt
    ((hall.holds name vector hlookup).reserve hstored capacity hreserve) ?_
    (hall.insert_same hname).symm
  rw [step, hlookup, Option.bind_some, hreserve, Option.map_some]

theorem follows_destroy (hall : HoldAll world lists)
    (howned : Owned world) (hname : name ∈ world.vectors) :
    Follows moved world lists (.destroy name) := by
  obtain ⟨vector, hlookup⟩ := Finmap.mem_iff.mp hname
  obtain ⟨storage', hdiscard, hupdated⟩ :=
    discard_updated (howned.stored name vector hlookup)
  have hrebuilt := hupdated.toRebuilt
  rw [← at_of_lookup hlookup] at hrebuilt
  have howns := (howned.set hrebuilt).erase name
  have hholds := (hall.set howned hrebuilt (holds_empty storage')).erase name
  have hvectors : (world.set name (Vector.empty, storage')).vectors.erase
      name = world.vectors.erase name := erase_insert _ _ _
  rw [hvectors] at howns hholds
  rw [erase_insert] at hholds
  refine ⟨{ vectors := world.vectors.erase name, storage := storage' }, ?_,
    howns, hholds⟩
  rw [step, hlookup, Option.bind_some, hdiscard, Option.map_some]

end Steps

/-! ## Runs -/

theorem step_follows (moved : α → α) {world : World Name α}
    {lists : Table Name (List α)} (howned : Owned world)
    (hall : HoldAll world lists) {op : Op Name α}
    (henabled : Enabled world op) (hfilled : NotFilled world op) :
    Follows moved world lists op := by
  cases op with
  | construct name =>
      exact follows_set hall howned (at_of_notMem henabled)
        (Updated.refl (stored_empty _)).toRebuilt (holds_empty _) rfl rfl
  | constructSize name size =>
      exact follows_set hall howned (at_of_notMem henabled)
        (ofSize_updated size _).toRebuilt (holds_ofSize size _) rfl rfl
  | constructSizeValue name size val =>
      obtain rfl : size = 0 := hfilled
      exact follows_set hall howned (at_of_notMem henabled)
        (ofSize_updated 0 _).toRebuilt (holds_ofSize 0 _) rfl rfl
  | copyConstruct name other =>
      exact follows_copyConstruct hall howned henabled.1 henabled.2
  | moveConstruct name other =>
      exact follows_moveConstruct hall howned henabled.1 henabled.2
  | copyAssign name other =>
      exact follows_copyAssign hall howned henabled.1 henabled.2
  | moveAssign name other =>
      exact follows_moveAssign hall howned henabled.1 henabled.2
  | push_back name val => exact follows_push_back hall howned henabled val
  | emplace_back name val => exact follows_push_back hall howned henabled val
  | pop_back name => exact follows_pop_back hall howned henabled
  | reserve name capacity =>
      exact follows_reserve hall howned henabled capacity
  | destroy name => exact follows_destroy hall howned henabled

/-- What a program can see of a vector with these elements. -/
structure ShowsList (moved : α → α) (storage : Storage α) (vector : Vector)
    (list : List α) : Prop where
  size : vector.size_ = list.length
  capacity : vector.size_ ≤ vector.capacity_
  inside : ∀ index val, list[index]? = some val →
    vector.subscript index storage = some (.ok val)
  beyond : ∀ index, list[index]? = none → vector.subscript index storage =
    some (.error ("Index " ++ toString index ++ " out of bounds"))
  last : ∃ vector' storage', vector.pop_back moved storage =
    some (list.getLast?, vector', storage')

theorem Holds.shows (moved : α → α) {storage : Storage α} {vector : Vector}
    {list : List α} (hholds : Holds storage vector list)
    (hstored : Stored storage vector) :
    ShowsList moved storage vector list where
  size := hholds.1
  capacity := hstored.size_le
  inside := by
    intro index val hval
    have hlt := (List.getElem?_eq_some_iff.mp hval).1
    have hsize := hholds.1
    rw [Vector.subscript, if_neg (by omega), hholds.2, hval]
    rfl
  beyond := by
    intro index hnone
    have hle := List.getElem?_eq_none_iff.mp hnone
    rw [Vector.subscript, if_pos (by rw [hholds.1]; exact hle)]
  last := by
    obtain ⟨popped, vector', storage', hpop, -⟩ :=
      pop_back_updated moved hstored
    obtain ⟨rfl, -⟩ := hholds.pop_back hpop
    exact ⟨vector', storage', hpop⟩

/-- Every program whose vectors are not filled when they are constructed runs
to its end, and sees its vectors as the lists of the members' names. -/
theorem vector_refines_lists (moved : α → α) (ops : List (Op Name α))
    (henabled : AllAllowed (step moved) Enabled ops World.empty)
    (hfilled : AllAllowed (step moved) NotFilled ops World.empty) :
    let lists := ops.foldl listStep (∅ : Table Name (List α))
    ∃ world, run (step moved) ops World.empty = some world ∧
      (∀ name, name ∈ world.vectors ↔ name ∈ lists) ∧
      ∀ name vector, world.vectors.lookup name = some vector →
        ShowsList moved world.storage vector (listOf lists name) := by
  intro lists
  have hstart : Owned (World.empty : World Name α) ∧
      HoldAll (World.empty : World Name α) ∅ :=
    ⟨owned_empty, fun _ => Iff.rfl, nofun⟩
  have hstep : ∀ (world : World Name α) (lists : Table Name (List α))
      (op : Op Name α), Owned world ∧ HoldAll world lists →
        Enabled world op ∧ NotFilled world op →
          Follows moved world lists op := by
    rintro world lists op ⟨howned, hall⟩ ⟨henabled, hfilled⟩
    exact step_follows moved howned hall henabled hfilled
  obtain ⟨world, hrun, howned, hall⟩ :=
    run_simulation _ hstep hstart (henabled.and hfilled)
  refine ⟨world, hrun, hall.names, ?_⟩
  intro name vector hlookup
  exact (hall.holds name vector hlookup).shows moved
    (howned.stored name vector hlookup)

/-- The copy keeps its elements while the vector it was made from changes, and
a vector that has been moved is empty. -/
theorem vector_refines_lists_copies :
    let ops : List (Op ℕ ℕ) := [.construct 0, .push_back 0 5,
      .emplace_back 0 6, .copyConstruct 1 0, .push_back 0 7,
      .moveConstruct 2 1, .pop_back 0, .copyAssign 0 2]
    ∃ world, run (step fun _ => 0) ops World.empty = some world ∧
      (∀ name, name ∈ world.vectors ↔
        name ∈ ops.foldl listStep (∅ : Table ℕ (List ℕ))) ∧
      ∀ name vector, world.vectors.lookup name = some vector →
        ShowsList (fun _ => 0) world.storage vector
          (listOf (ops.foldl listStep ∅) name) := by
  intro ops
  exact vector_refines_lists (fun _ => 0) ops (by decide +kernel)
    (by decide +kernel)

end Zam
end TradingStudies
