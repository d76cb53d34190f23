import Mathlib

/-!
# Raw storage

Buffers of slots, in each of which an element may have been constructed.
Elements are read, assigned to and destroyed where there is one, and constructed
inside of a buffer; everything else has no outcome, and so has the use of a null
pointer.  The storage counts the constructions and the destructions.
-/

namespace RawStorage

variable {α : Type*}

abbrev Buffer := ℕ

abbrev Pointer := Option Buffer

structure Block (α : Type*) where
  capacity : ℕ
  slot : ℕ → Option α

structure Storage (α : Type*) where
  created : ℕ
  block : Buffer → Option (Block α)
  constructions : ℕ
  destructions : ℕ

namespace Storage

def empty : Storage α where
  created := 0
  block := fun _ => none
  constructions := 0
  destructions := 0

/-- A buffer with as many slots as asked for, none of which has an element. -/
def allocate (storage : Storage α) (capacity : ℕ) : Buffer × Storage α :=
  (storage.created,
    { storage with
      created := storage.created + 1
      block := Function.update storage.block storage.created
        (some ⟨capacity, fun _ => none⟩) })

/-- The elements that are left in the buffer are not destroyed. -/
def release (storage : Storage α) (buffer : Buffer) : Option (Storage α) :=
  (storage.block buffer).map fun _ =>
    { storage with block := Function.update storage.block buffer none }

def read (storage : Storage α) (pointer : Pointer) (index : ℕ) : Option α :=
  (pointer.bind storage.block).bind fun block => block.slot index

def write (storage : Storage α) (pointer : Pointer) (index : ℕ)
    (value : Option α) : Option (Storage α) :=
  pointer.bind fun buffer =>
    (storage.block buffer).bind fun block =>
      if index < block.capacity then
        some
          { storage with
            block := Function.update storage.block buffer
              (some { block with
                slot := Function.update block.slot index value }) }
      else none

def construct (storage : Storage α) (pointer : Pointer) (index : ℕ)
    (value : α) : Option (Storage α) :=
  (storage.write pointer index (some value)).map fun storage =>
    { storage with constructions := storage.constructions + 1 }

def assign (storage : Storage α) (pointer : Pointer) (index : ℕ) (value : α) :
    Option (Storage α) :=
  (storage.read pointer index).bind fun _ =>
    storage.write pointer index (some value)

def destroy (storage : Storage α) (pointer : Pointer) (index : ℕ) :
    Option (Storage α) :=
  (storage.read pointer index).bind fun _ =>
    (storage.write pointer index none).map fun storage =>
      { storage with destructions := storage.destructions + 1 }

/-- An element outside of the buffers, which is gone at the end of the
operation. -/
def temporary (storage : Storage α) : Storage α :=
  { storage with
    constructions := storage.constructions + 1
    destructions := storage.destructions + 1 }

/-- The element at the target is constructed from the one at the source, which
keeps what `moved` leaves of it. -/
def moveConstruct (moved : α → α) (storage : Storage α)
    (source target : Pointer) (index : ℕ) : Option (Storage α) :=
  (storage.read source index).bind fun value =>
    (storage.construct target index value).bind fun storage =>
      storage.write source index (some (moved value))

def moveEach (moved : α → α) (storage : Storage α) (source target : Pointer)
    (size : ℕ) : Option (Storage α) :=
  (List.range size).foldlM (fun storage index =>
    storage.moveConstruct moved source target index) storage

def assignEach (storage : Storage α) (pointer : Pointer) (size : ℕ)
    (value : α) : Option (Storage α) :=
  (List.range size).foldlM (fun storage index =>
    storage.assign pointer index value) storage

def destroyEach (storage : Storage α) (pointer : Pointer) (size : ℕ) :
    Option (Storage α) :=
  (List.range size).foldlM (fun storage index =>
    storage.destroy pointer index) storage

def alive (storage : Storage α) : ℤ :=
  storage.constructions - storage.destructions

end Storage

open Storage

/-- A buffer whose elements are those from `first` up to `last`. -/
def Span (storage : Storage α) (buffer : Buffer) (capacity first last : ℕ) :
    Prop :=
  ∃ slot, storage.block buffer = some ⟨capacity, slot⟩ ∧ last ≤ capacity ∧
    ∀ index, (slot index).isSome = true ↔ first ≤ index ∧ index < last

/-- Of the old buffers only the touched ones have been written. -/
structure Changed (touched : Set Buffer) (storage next : Storage α) : Prop where
  created : storage.created ≤ next.created
  others : ∀ buffer < storage.created, buffer ∉ touched →
    next.block buffer = storage.block buffer

section Spans

variable {storage middle next : Storage α} {buffer : Buffer}
  {capacity first last index : ℕ} {touched touched' : Set Buffer}

theorem Changed.refl (touched : Set Buffer) (storage : Storage α) :
    Changed touched storage storage :=
  ⟨le_rfl, fun _ _ _ => rfl⟩

/-- What is touched later was touched before, or is new. -/
theorem Changed.trans (hfirst : Changed touched storage middle)
    (hsecond : Changed touched' middle next)
    (hsub : ∀ buffer < storage.created, buffer ∈ touched' →
      buffer ∈ touched) : Changed touched storage next where
  created := hfirst.created.trans hsecond.created
  others := by
    intro buffer hlt hnot
    have hold : buffer < middle.created := lt_of_lt_of_le hlt hfirst.created
    rw [hsecond.others buffer hold fun hmem => hnot (hsub buffer hlt hmem)]
    exact hfirst.others buffer hlt hnot

theorem Changed.mono (hchanged : Changed touched storage next)
    (hsub : ∀ buffer < storage.created, buffer ∈ touched →
      buffer ∈ touched') : Changed touched' storage next where
  created := hchanged.created
  others := fun buffer hlt hnot => hchanged.others buffer hlt
    fun hmem => hnot (hsub buffer hlt hmem)

theorem Changed.span (hchanged : Changed touched storage next)
    (hspan : Span storage buffer capacity first last)
    (hlt : buffer < storage.created) (hnot : buffer ∉ touched) :
    Span next buffer capacity first last := by
  unfold Span
  rw [hchanged.others buffer hlt hnot]
  exact hspan

theorem Span.empty (hspan : Span storage buffer capacity first first) :
    Span storage buffer capacity 0 0 := by
  obtain ⟨slot, hblock, hle, hslot⟩ := hspan
  refine ⟨slot, hblock, Nat.zero_le _, ?_⟩
  intro index
  rw [hslot]
  omega

theorem Span.le_capacity (hspan : Span storage buffer capacity first last) :
    last ≤ capacity := by
  obtain ⟨_, _, hle, _⟩ := hspan
  exact hle

theorem Span.read_isSome (hspan : Span storage buffer capacity first last)
    (index : ℕ) : (storage.read (some buffer) index).isSome = true ↔
      first ≤ index ∧ index < last := by
  obtain ⟨slot, hblock, -, hslot⟩ := hspan
  simp only [Storage.read, Option.bind_some, hblock, hslot]

/-! ## Single slots -/

theorem allocate_span (storage : Storage α) (capacity : ℕ) :
    Span (storage.allocate capacity).2 storage.created capacity 0 0 ∧
      Changed ∅ storage (storage.allocate capacity).2 := by
  refine ⟨⟨fun _ => none, Function.update_self _ _ _, Nat.zero_le _, ?_⟩,
    ⟨Nat.le_succ _, ?_⟩⟩
  · intro index
    simp
  · intro buffer hlt _
    exact Function.update_of_ne hlt.ne _ _

theorem release_changed (hspan : Span storage buffer capacity first last) :
    ∃ next, storage.release buffer = some next ∧
      Changed {buffer} storage next ∧ next.alive = storage.alive := by
  obtain ⟨slot, hblock, -, -⟩ := hspan
  refine ⟨{ storage with
    block := Function.update storage.block buffer none }, ?_, ⟨le_rfl, ?_⟩, rfl⟩
  · rw [Storage.release, hblock]
    rfl
  · intro other _ hnot
    exact Function.update_of_ne hnot _ _

/-- A write changes whether the slot has an element, and nothing else. -/
theorem write_span (hspan : Span storage buffer capacity first last)
    (hindex : index < capacity) {value : Option α} {first' last' : ℕ}
    (hlast : last' ≤ capacity)
    (hslots : ∀ other, first' ≤ other ∧ other < last' ↔
      if other = index then value.isSome = true
      else first ≤ other ∧ other < last) :
    ∃ next, storage.write (some buffer) index value = some next ∧
      Span next buffer capacity first' last' ∧
      Changed {buffer} storage next ∧
      next.constructions = storage.constructions ∧
      next.destructions = storage.destructions := by
  obtain ⟨slot, hblock, -, hslot⟩ := hspan
  refine ⟨{ storage with
    block := Function.update storage.block buffer
      (some ⟨capacity, Function.update slot index value⟩) }, ?_,
    ⟨Function.update slot index value, ?_, hlast, ?_⟩, ⟨le_rfl, ?_⟩, rfl, rfl⟩
  · simp only [write, Option.bind_some, hblock, if_pos hindex]
  · exact Function.update_self _ _ _
  · intro other
    rw [hslots]
    by_cases heq : other = index
    · rw [heq, Function.update_self, if_pos rfl]
    · rw [Function.update_of_ne heq, if_neg heq]
      exact hslot other
  · intro other _ hnot
    exact Function.update_of_ne hnot _ _

/-- An element is replaced without being destroyed. -/
theorem overwrite_span (hspan : Span storage buffer capacity first last)
    (hindex : first ≤ index ∧ index < last) (value : α) :
    ∃ next, storage.write (some buffer) index (some value) = some next ∧
      Span next buffer capacity first last ∧
      Changed {buffer} storage next ∧ next.alive = storage.alive := by
  have hcapacity := hspan.le_capacity
  have hslots : ∀ other, first ≤ other ∧ other < last ↔
      if other = index then (some value).isSome = true
      else first ≤ other ∧ other < last := by
    intro other
    split
    · exact iff_of_true (by omega) rfl
    · rfl
  obtain ⟨next, hwrite, hnext, hchanged, hconstructions, hdestructions⟩ :=
    write_span hspan (by omega) hcapacity hslots
  refine ⟨next, hwrite, hnext, hchanged, ?_⟩
  unfold alive
  rw [hconstructions, hdestructions]

theorem construct_span (hspan : Span storage buffer capacity first last)
    (hfirst : first ≤ last) (hlast : last < capacity) (value : α) :
    ∃ next, storage.construct (some buffer) last value = some next ∧
      Span next buffer capacity first (last + 1) ∧
      Changed {buffer} storage next ∧ next.alive = storage.alive + 1 := by
  have hslots : ∀ other, first ≤ other ∧ other < last + 1 ↔
      if other = last then (some value).isSome = true
      else first ≤ other ∧ other < last := by
    intro other
    split
    · exact iff_of_true (by omega) rfl
    · omega
  obtain ⟨next, hwrite, hnext, hchanged, hconstructions, hdestructions⟩ :=
    write_span hspan hlast hlast hslots
  refine ⟨{ next with constructions := next.constructions + 1 }, ?_, hnext,
    ⟨hchanged.created, hchanged.others⟩, ?_⟩
  · rw [construct, hwrite]
    rfl
  · unfold alive
    dsimp only
    rw [hconstructions, hdestructions]
    push_cast
    ring

/-- Without its element a slot at an end of the span is raw. -/
theorem destroy_span (hspan : Span storage buffer capacity first last)
    (hindex : first ≤ index ∧ index < last) {first' last' : ℕ}
    (hlast : last' ≤ last)
    (hslots : ∀ other, first' ≤ other ∧ other < last' ↔
      other ≠ index ∧ first ≤ other ∧ other < last) :
    ∃ next, storage.destroy (some buffer) index = some next ∧
      Span next buffer capacity first' last' ∧
      Changed {buffer} storage next ∧ next.alive = storage.alive - 1 := by
  have hcapacity := hspan.le_capacity
  obtain ⟨value, hread⟩ :=
    Option.isSome_iff_exists.mp ((hspan.read_isSome index).mpr hindex)
  have hraw : ∀ other, first' ≤ other ∧ other < last' ↔
      if other = index then (none : Option α).isSome = true
      else first ≤ other ∧ other < last := by
    intro other
    rw [hslots]
    split
    · rename_i heq
      exact iff_of_false (fun hboth => hboth.1 heq) Bool.false_ne_true
    · rename_i hne
      exact and_iff_right hne
  obtain ⟨next, hwrite, hnext, hchanged, hconstructions, hdestructions⟩ :=
    write_span hspan (by omega) (by omega) hraw
  refine ⟨{ next with destructions := next.destructions + 1 }, ?_, hnext,
    ⟨hchanged.created, hchanged.others⟩, ?_⟩
  · rw [destroy, hread, Option.bind_some, hwrite]
    rfl
  · unfold alive
    dsimp only
    rw [hconstructions, hdestructions]
    push_cast
    ring

theorem moveConstruct_span (moved : α → α) {source target : Buffer}
    {sourceCapacity size : ℕ}
    (hsource : Span storage source sourceCapacity 0 size)
    (htarget : Span storage target capacity 0 index) (hne : source ≠ target)
    (hold : source < storage.created ∧ target < storage.created)
    (hindex : index < size ∧ index < capacity) :
    ∃ next, storage.moveConstruct moved (some source) (some target) index =
        some next ∧
      Span next source sourceCapacity 0 size ∧
      Span next target capacity 0 (index + 1) ∧
      Changed {source, target} storage next ∧
      next.alive = storage.alive + 1 := by
  obtain ⟨value, hread⟩ := Option.isSome_iff_exists.mp
    ((hsource.read_isSome index).mpr ⟨Nat.zero_le _, hindex.1⟩)
  obtain ⟨middle, hconstruct, hbuilt, hfirst, halive⟩ :=
    construct_span htarget (Nat.zero_le _) hindex.2 value
  have hleft := hfirst.span hsource hold.1 hne
  obtain ⟨next, hwrite, hnext, hsecond, hkept⟩ :=
    overwrite_span hleft ⟨Nat.zero_le _, hindex.1⟩ (moved value)
  refine ⟨next, ?_, hnext, ?_, ?_, hkept.trans halive⟩
  · rw [Storage.moveConstruct, hread, Option.bind_some, hconstruct,
      Option.bind_some, hwrite]
  · exact hsecond.span hbuilt (lt_of_lt_of_le hold.2 hfirst.created)
      (Ne.symm hne)
  · constructor
    · exact hfirst.created.trans hsecond.created
    · intro other hlt hnot
      rw [Set.mem_insert_iff, Set.mem_singleton_iff, not_or] at hnot
      rw [hsecond.others other (lt_of_lt_of_le hlt hfirst.created) hnot.1]
      exact hfirst.others other hlt hnot.2

/-! ## Loops over the slots -/

theorem foldlM_range_succ {State : Type*} (step : State → ℕ → Option State)
    (size : ℕ) (state : State) :
    (List.range (size + 1)).foldlM step state =
      ((List.range size).foldlM step state).bind fun state =>
        step state size := by
  rw [List.range_succ, List.foldlM_append]
  exact Option.bind_congr fun _ _ => by simp

/-- The elements are constructed one after the other, and those they come from
stay to be destroyed. -/
theorem moveEach_span (moved : α → α) {source target : Buffer}
    {sourceCapacity size : ℕ}
    (hsource : Span storage source sourceCapacity 0 size)
    (htarget : Span storage target capacity 0 0) (hne : source ≠ target)
    (hold : source < storage.created ∧ target < storage.created)
    (count : ℕ) (hcount : count ≤ size ∧ count ≤ capacity) :
    ∃ next, storage.moveEach moved (some source) (some target) count =
        some next ∧
      Span next source sourceCapacity 0 size ∧
      Span next target capacity 0 count ∧
      Changed {source, target} storage next ∧
      next.alive = storage.alive + count := by
  induction count with
  | zero =>
      refine ⟨storage, rfl, hsource, htarget, .refl _ storage, ?_⟩
      simp
  | succ count ih =>
      obtain ⟨middle, heach, hleft, hbuilt, hfirst, halive⟩ :=
        ih ⟨by omega, by omega⟩
      obtain ⟨next, hmove, hnext, htarget, hsecond, hmore⟩ :=
        moveConstruct_span moved hleft hbuilt hne
          ⟨lt_of_lt_of_le hold.1 hfirst.created,
            lt_of_lt_of_le hold.2 hfirst.created⟩ hcount
      refine ⟨next, ?_, hnext, htarget,
        hfirst.trans hsecond fun _ _ hmem => hmem, ?_⟩
      · rw [Storage.moveEach, foldlM_range_succ]
        rw [Storage.moveEach] at heach
        rw [heach]
        exact hmove
      · rw [hmore, halive]
        push_cast
        ring

theorem destroyEach_span (hspan : Span storage buffer capacity 0 last)
    (count : ℕ) (hcount : count ≤ last) :
    ∃ next, storage.destroyEach (some buffer) count = some next ∧
      Span next buffer capacity count last ∧
      Changed {buffer} storage next ∧
      next.alive = storage.alive - count := by
  induction count with
  | zero =>
      refine ⟨storage, rfl, hspan, .refl _ storage, ?_⟩
      simp
  | succ count ih =>
      obtain ⟨middle, heach, hleft, hfirst, halive⟩ := ih (by omega)
      have hslots : ∀ other, count + 1 ≤ other ∧ other < last ↔
          other ≠ count ∧ count ≤ other ∧ other < last := by omega
      obtain ⟨next, hdestroy, hnext, hsecond, hless⟩ :=
        destroy_span hleft ⟨le_rfl, hcount⟩ le_rfl hslots
      refine ⟨next, ?_, hnext,
        hfirst.trans hsecond fun _ _ hmem => hmem, ?_⟩
      · rw [Storage.destroyEach, foldlM_range_succ]
        rw [Storage.destroyEach] at heach
        rw [heach]
        exact hdestroy
      · rw [hless, halive]
        push_cast
        ring

theorem assignEach_raw (hspan : Span storage buffer capacity 0 0) {count : ℕ}
    (hcount : 0 < count) (value : α) :
    storage.assignEach (some buffer) count value = none := by
  obtain ⟨count, rfl⟩ := Nat.exists_eq_succ_of_ne_zero hcount.ne'
  have hread : storage.read (some buffer) 0 = none := by
    rw [← Option.not_isSome_iff_eq_none, hspan.read_isSome]
    omega
  rw [Storage.assignEach, List.range_succ_eq_map, List.foldlM_cons,
    Storage.assign, hread]
  rfl

theorem temporary_alive (storage : Storage α) :
    storage.temporary.alive = storage.alive := by
  unfold alive temporary
  dsimp only
  push_cast
  ring

/-! ## What is read afterwards -/

theorem read_of_block (hblock : next.block buffer = storage.block buffer)
    (index : ℕ) :
    next.read (some buffer) index = storage.read (some buffer) index := by
  simp only [Storage.read, Option.bind_some, hblock]

theorem read_allocate (storage : Storage α) (capacity index : ℕ) :
    (storage.allocate capacity).2.read (some storage.created) index = none := by
  simp [Storage.read, allocate]

theorem read_write {pointer : Pointer} {value : Option α}
    (hwrite : storage.write pointer index value = some next)
    (source : Pointer) (other : ℕ) :
    next.read source other =
      if source = pointer ∧ other = index then value
      else storage.read source other := by
  obtain ⟨buffer, rfl, hsome⟩ := Option.bind_eq_some_iff.mp hwrite
  obtain ⟨block, hblock, hslot⟩ := Option.bind_eq_some_iff.mp hsome
  split at hslot
  · cases hslot
    cases source with
    | none => simp [Storage.read]
    | some found =>
        by_cases heq : found = buffer
        · subst found
          by_cases hindex : other = index
          · simp [Storage.read, hindex]
          · simp [Storage.read, hindex, hblock]
        · simp [Storage.read, heq]
  · cases hslot

theorem read_construct {pointer : Pointer} {value : α}
    (hconstruct : storage.construct pointer index value = some next)
    (source : Pointer) (other : ℕ) :
    next.read source other =
      if source = pointer ∧ other = index then some value
      else storage.read source other := by
  obtain ⟨written, hwrite, rfl⟩ := Option.map_eq_some_iff.mp hconstruct
  exact read_write hwrite source other

theorem read_destroy {pointer : Pointer}
    (hdestroy : storage.destroy pointer index = some next)
    (source : Pointer) (other : ℕ) :
    next.read source other =
      if source = pointer ∧ other = index then none
      else storage.read source other := by
  obtain ⟨_, -, hsome⟩ := Option.bind_eq_some_iff.mp hdestroy
  obtain ⟨written, hwrite, rfl⟩ := Option.map_eq_some_iff.mp hsome
  exact read_write hwrite source other

theorem read_moveConstruct {moved : α → α} {source target : Pointer}
    (hmove : storage.moveConstruct moved source target index = some next)
    (hne : source ≠ target) :
    (∀ other, next.read target other =
        if other = index then storage.read source index
        else storage.read target other) ∧
      ∀ other ≠ index, next.read source other = storage.read source other := by
  obtain ⟨value, hread, hsome⟩ := Option.bind_eq_some_iff.mp hmove
  obtain ⟨built, hconstruct, hwrite⟩ := Option.bind_eq_some_iff.mp hsome
  constructor
  · intro other
    rw [read_write hwrite, if_neg fun hboth => hne hboth.1.symm,
      read_construct hconstruct, hread]
    simp only [true_and]
  · intro other hother
    rw [read_write hwrite, if_neg fun hboth => hother hboth.2,
      read_construct hconstruct, if_neg fun hboth => hother hboth.2]

/-- Moved elements are read at the target as they were at the source. -/
theorem read_moveEach {moved : α → α} {source target : Pointer}
    (hne : source ≠ target) {count : ℕ}
    (hmove : storage.moveEach moved source target count = some next) :
    (∀ index, next.read target index =
        if index < count then storage.read source index
        else storage.read target index) ∧
      ∀ index, count ≤ index →
        next.read source index = storage.read source index := by
  induction count generalizing next with
  | zero =>
      cases hmove
      exact ⟨fun index => by simp, fun _ _ => rfl⟩
  | succ count ih =>
      rw [moveEach, foldlM_range_succ] at hmove
      obtain ⟨middle, heach, hlast⟩ := Option.bind_eq_some_iff.mp hmove
      obtain ⟨htarget, hsource⟩ := ih heach
      obtain ⟨hbuilt, hleft⟩ := read_moveConstruct hlast hne
      constructor
      · intro index
        rw [hbuilt, htarget]
        by_cases heq : index = count
        · subst index
          rw [if_pos rfl, if_pos (by omega), hsource count le_rfl]
        · have hiff : index < count + 1 ↔ index < count := by omega
          rw [if_neg heq]
          simp only [hiff]
      · intro index hindex
        rw [hleft index (by omega), hsource index (by omega)]

theorem read_destroyEach {pointer : Pointer} {count : ℕ}
    (hdestroy : storage.destroyEach pointer count = some next) (index : ℕ) :
    next.read pointer index =
      if index < count then none else storage.read pointer index := by
  induction count generalizing next with
  | zero =>
      cases hdestroy
      simp
  | succ count ih =>
      rw [destroyEach, foldlM_range_succ] at hdestroy
      obtain ⟨middle, heach, hlast⟩ := Option.bind_eq_some_iff.mp hdestroy
      rw [read_destroy hlast, ih heach]
      by_cases heq : index = count
      · rw [if_pos ⟨rfl, heq⟩, if_pos (by omega)]
      · have hiff : index < count + 1 ↔ index < count := by omega
        rw [if_neg fun hboth => heq hboth.2]
        simp only [hiff]

end Spans

end RawStorage
