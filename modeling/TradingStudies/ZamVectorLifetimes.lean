import TradingStudies.ZamVector

/-!
# The lifetimes of the elements of a vector

Each vector owns its buffer, and the elements in it are the first `size_`.
Every member function keeps that, and adds as many elements as the vector grows
by, save for two: the constructor that is given a size and a value assigns to
slots without elements, and the move assignment deletes the buffer of its target
with the elements in it.
-/

namespace TradingStudies
namespace Zam

open HandleTable RawStorage StepSystem

variable {α : Type*}

/-! ## Single vectors -/

/-- The elements are the first `size_` slots of the buffer. -/
def Stored (storage : Storage α) (vector : Vector) : Prop :=
  (vector.data_ = none → vector.size_ = 0 ∧ vector.capacity_ = 0) ∧
    ∀ buffer, vector.data_ = some buffer →
      buffer < storage.created ∧
        Span storage buffer vector.capacity_ 0 vector.size_

def buffers (vector : Vector) : Set Buffer :=
  { buffer | vector.data_ = some buffer }

/-- From a vector to what it becomes: no other buffer is written, and its own is
the same or new. -/
structure Rebuilt (vector : Vector) (storage : Storage α) (vector' : Vector)
    (storage' : Storage α) : Prop where
  stored : Stored storage' vector'
  data : ∀ buffer < storage.created, buffer ∈ buffers vector' →
    buffer ∈ buffers vector
  changed : Changed (buffers vector) storage storage'

/-- The vector has grown by the elements that were added. -/
structure Updated (vector : Vector) (storage : Storage α) (vector' : Vector)
    (storage' : Storage α) : Prop extends
    Rebuilt vector storage vector' storage' where
  alive : storage'.alive - vector'.size_ = storage.alive - vector.size_

section Vectors

variable {vector vector' vector'' other : Vector}
  {storage storage' storage'' : Storage α} {moved : α → α}

theorem Stored.size_le (hstored : Stored storage vector) :
    vector.size_ ≤ vector.capacity_ := by
  cases hdata : vector.data_ with
  | none => rw [(hstored.1 hdata).1, (hstored.1 hdata).2]
  | some buffer => exact (hstored.2 buffer hdata).2.le_capacity

theorem stored_empty (storage : Storage α) : Stored storage Vector.empty :=
  ⟨fun _ => ⟨rfl, rfl⟩, nofun⟩

theorem stored_some {buffer : Buffer} {size capacity : ℕ}
    (hlt : buffer < storage.created) (hspan : Span storage buffer capacity 0 size) :
    Stored storage ⟨size, capacity, some buffer⟩ := by
  refine ⟨nofun, ?_⟩
  intro found hfound
  cases hfound
  exact ⟨hlt, hspan⟩

theorem Stored.exists_buffer (hstored : Stored storage vector)
    (hcapacity : 0 < vector.capacity_) :
    ∃ buffer, vector.data_ = some buffer ∧ buffer < storage.created ∧
      Span storage buffer vector.capacity_ 0 vector.size_ := by
  cases hdata : vector.data_ with
  | none =>
      have hnothing := (hstored.1 hdata).2
      omega
  | some buffer => exact ⟨buffer, rfl, hstored.2 buffer hdata⟩

theorem Rebuilt.stored_other (hrebuilt : Rebuilt vector storage vector' storage')
    (hother : Stored storage other)
    (hapart : ∀ buffer ∈ buffers other, buffer ∉ buffers vector) :
    Stored storage' other := by
  refine ⟨hother.1, ?_⟩
  intro buffer hdata
  obtain ⟨hlt, hspan⟩ := hother.2 buffer hdata
  exact ⟨lt_of_lt_of_le hlt hrebuilt.changed.created,
    hrebuilt.changed.span hspan hlt (hapart buffer hdata)⟩

theorem Rebuilt.apart_other (hrebuilt : Rebuilt vector storage vector' storage')
    (hother : Stored storage other)
    (hapart : ∀ buffer ∈ buffers other, buffer ∉ buffers vector) :
    ∀ buffer ∈ buffers other, buffer ∉ buffers vector' :=
  fun buffer hmem hnew => hapart buffer hmem
    (hrebuilt.data buffer (hother.2 buffer hmem).1 hnew)

theorem Updated.refl (hstored : Stored storage vector) :
    Updated vector storage vector storage where
  stored := hstored
  data := fun _ _ hmem => hmem
  changed := .refl _ storage
  alive := rfl

theorem Updated.trans (hfirst : Updated vector storage vector' storage')
    (hsecond : Updated vector' storage' vector'' storage'') :
    Updated vector storage vector'' storage'' where
  stored := hsecond.stored
  data := fun buffer hlt hmem => hfirst.data buffer hlt
    (hsecond.data buffer (lt_of_lt_of_le hlt hfirst.changed.created) hmem)
  changed := hfirst.changed.trans hsecond.changed hfirst.data
  alive := hsecond.alive.trans hfirst.alive

/-- Elements come and go in the buffer of the vector. -/
theorem resized {buffer : Buffer} {size : ℕ}
    (hdata : vector.data_ = some buffer) (hlt : buffer < storage.created)
    (hspan : Span storage' buffer vector.capacity_ 0 size)
    (hchanged : Changed {buffer} storage storage')
    (halive : storage'.alive - size = storage.alive - vector.size_) :
    Updated vector storage { vector with size_ := size } storage' := by
  refine ⟨⟨⟨?_, ?_⟩, fun _ _ hmem => hmem, ?_⟩, halive⟩
  · rw [hdata]
    exact nofun
  · intro found hfound
    cases hdata.symm.trans hfound
    exact ⟨lt_of_lt_of_le hlt hchanged.created, hspan⟩
  · apply hchanged.mono
    rintro found - rfl
    exact hdata

/-- A vector whose elements are gone, and whose buffer is deleted. -/
theorem discard_updated (hstored : Stored storage vector) :
    ∃ next, vector.discard storage = some next ∧
      Updated vector storage Vector.empty next := by
  cases hdata : vector.data_ with
  | none =>
      refine ⟨storage, ?_, ⟨stored_empty storage, nofun, .refl _ storage⟩, ?_⟩
      · rw [Vector.discard, hdata]
      · rw [(hstored.1 hdata).1]
        rfl
  | some buffer =>
      have hbuffers : buffers vector = {buffer} := by
        ext found
        rw [buffers, hdata]
        exact ⟨fun h => (Option.some.inj h).symm, fun h => congrArg some h.symm⟩
      obtain ⟨-, hspan⟩ := hstored.2 buffer hdata
      obtain ⟨middle, hdestroy, hempty, hfirst, halive⟩ :=
        destroyEach_span hspan vector.size_ le_rfl
      obtain ⟨next, hrelease, hsecond, hkept⟩ := release_changed hempty
      refine ⟨next, ?_, ⟨stored_empty next, nofun, ?_⟩, ?_⟩
      · rw [Vector.discard, hdata]
        dsimp only
        rw [hdestroy, Option.bind_some, hrelease]
      · rw [hbuffers]
        exact hfirst.trans hsecond fun _ _ hmem => hmem
      · rw [hkept, halive]
        simp [Vector.empty]

/-- Without its elements being destroyed the buffer of a vector is deleted. -/
theorem free_rebuilt (hstored : Stored storage vector) :
    ∃ next, vector.free storage = some next ∧
      Rebuilt vector storage Vector.empty next ∧
      next.alive = storage.alive := by
  cases hdata : vector.data_ with
  | none =>
      refine ⟨storage, ?_, ⟨stored_empty storage, nofun, .refl _ storage⟩, rfl⟩
      rw [Vector.free, hdata]
  | some buffer =>
      obtain ⟨-, hspan⟩ := hstored.2 buffer hdata
      obtain ⟨next, hrelease, hchanged, hkept⟩ := release_changed hspan
      refine ⟨next, ?_, ⟨stored_empty next, nofun, ?_⟩, hkept⟩
      · rw [Vector.free, hdata]
        exact hrelease
      · refine ⟨hchanged.created, ?_⟩
        intro other hlt hnot
        apply hchanged.others other hlt
        rintro rfl
        exact hnot hdata

theorem moveEach_allocated (moved : α → α) (hstored : Stored storage vector)
    {capacity : ℕ} (hcapacity : vector.size_ ≤ capacity) :
    ∃ next, (storage.allocate capacity).2.moveEach moved vector.data_
        (some storage.created) vector.size_ = some next ∧
      Stored next vector ∧
      Stored next ⟨vector.size_, capacity, some storage.created⟩ ∧
      Changed (buffers vector) storage next ∧
      next.alive = storage.alive + vector.size_ := by
  obtain ⟨hnew, hallocated⟩ := allocate_span storage capacity
  have hcreated : storage.created < (storage.allocate capacity).2.created :=
    Nat.lt_succ_self _
  cases hdata : vector.data_ with
  | none =>
      have hsize := (hstored.1 hdata).1
      refine ⟨(storage.allocate capacity).2, ?_, ⟨hstored.1, ?_⟩, ?_, ?_, ?_⟩
      · rw [hsize]
        rfl
      · rw [hdata]
        exact nofun
      · rw [hsize]
        exact stored_some hcreated hnew
      · exact ⟨hallocated.created, fun buffer hlt _ =>
          hallocated.others buffer hlt (Set.notMem_empty buffer)⟩
      · rw [hsize]
        exact (add_zero _).symm
  | some old =>
      obtain ⟨hold, hspan⟩ := hstored.2 old hdata
      have hkept := hallocated.span hspan hold (Set.notMem_empty old)
      obtain ⟨next, hmove, hsource, htarget, hchanged, halive⟩ :=
        moveEach_span moved hkept hnew hold.ne
          ⟨lt_of_lt_of_le hold hallocated.created, hcreated⟩ vector.size_
          ⟨le_rfl, hcapacity⟩
      refine ⟨next, hmove, ⟨?_, ?_⟩, ?_, ?_, ?_⟩
      · rw [hdata]
        exact nofun
      · intro buffer hbuffer
        cases hdata.symm.trans hbuffer
        exact ⟨lt_of_lt_of_le hold
          (hallocated.created.trans hchanged.created), hsource⟩
      · exact stored_some (lt_of_lt_of_le hcreated hchanged.created) htarget
      · have hnothing : Changed (buffers vector) storage
            (storage.allocate capacity).2 :=
          hallocated.mono fun _ _ hmem => absurd hmem (Set.notMem_empty _)
        apply hnothing.trans hchanged
        intro buffer hlt hmem
        rcases hmem with rfl | rfl
        · exact hdata
        · exact absurd hlt (Nat.lt_irrefl _)
      · exact halive

theorem reallocate_updated (moved : α → α) (hstored : Stored storage vector)
    {new_capacity : ℕ}
    (hgrows : new_capacity = 0 ∨ vector.capacity_ < new_capacity) :
    ∃ vector' storage', vector.reallocate moved new_capacity storage =
        some (vector', storage') ∧
      Updated vector storage vector' storage' ∧
      vector'.size_ = vector.size_ ∧ vector.capacity_ < vector'.capacity_ := by
  obtain ⟨capacity, hcapacity⟩ : ∃ capacity, capacity =
      if new_capacity > 0 then new_capacity
      else if vector.capacity_ = 0 then 1
      else vector.capacity_ * 2 := ⟨_, rfl⟩
  have hlarger : vector.capacity_ < capacity := by
    rw [hcapacity]
    split
    · omega
    · split
      · omega
      · omega
  have hsize := hstored.size_le
  obtain ⟨middle, hmove, hold, hnew, hchanged, hadded⟩ :=
    moveEach_allocated moved hstored (hsize.trans hlarger.le)
  obtain ⟨next, hdiscard, hdiscarded⟩ := discard_updated hold
  -- the new buffer is none of those of the vector
  have hapart : ∀ buffer ∈ buffers
      ⟨vector.size_, capacity, some storage.created⟩,
      buffer ∉ buffers vector := by
    rintro buffer hbuffer hmem
    cases hbuffer
    exact Nat.lt_irrefl _ (hstored.2 _ hmem).1
  refine ⟨⟨vector.size_, capacity, some storage.created⟩, next, ?_,
    ⟨⟨hdiscarded.stored_other hnew hapart, ?_, ?_⟩, ?_⟩, rfl, hlarger⟩
  · have hmoved : (storage.allocate capacity).2.moveEach moved vector.data_
        (some (storage.allocate capacity).1) vector.size_ = some middle := hmove
    unfold Vector.reallocate
    rw [← hcapacity]
    dsimp only
    rw [hmoved, Option.bind_some, hdiscard]
    rfl
  · intro buffer hlt hmem
    cases hmem
    exact absurd hlt (Nat.lt_irrefl _)
  · exact hchanged.trans hdiscarded.changed fun _ _ hmem => hmem
  · have hdestroyed := hdiscarded.alive
    dsimp only [Vector.empty] at hdestroyed ⊢
    omega

/-- A slot is left before the element is constructed. -/
theorem append_updated (moved : α → α) (hstored : Stored storage vector)
    (val : α) :
    ∃ vector' storage', vector.append moved val storage =
        some (vector', storage') ∧
      Updated vector storage vector' storage' := by
  obtain ⟨grown, middle, hgrown, hfirst, hroom⟩ : ∃ grown middle,
      (if vector.size_ = vector.capacity_ then
        vector.reallocate moved 0 storage
        else some (vector, storage)) = some (grown, middle) ∧
      Updated vector storage grown middle ∧ grown.size_ < grown.capacity_ := by
    by_cases hfull : vector.size_ = vector.capacity_
    · obtain ⟨grown, middle, hreallocate, hupdated, hsize, hcapacity⟩ :=
        reallocate_updated moved hstored (Or.inl rfl)
      refine ⟨grown, middle, ?_, hupdated, by omega⟩
      rw [if_pos hfull]
      exact hreallocate
    · have hsize := hstored.size_le
      refine ⟨vector, storage, if_neg hfull, .refl hstored, by omega⟩
  obtain ⟨buffer, hdata, hlt, hspan⟩ :=
    hfirst.stored.exists_buffer (Nat.zero_lt_of_lt hroom)
  obtain ⟨next, hconstruct, hnext, hchanged, halive⟩ :=
    construct_span hspan (Nat.zero_le _) hroom val
  refine ⟨{ grown with size_ := grown.size_ + 1 }, next, ?_,
    hfirst.trans (resized hdata hlt hnext hchanged ?_)⟩
  · unfold Vector.append
    rw [hgrown, Option.bind_some]
    dsimp only
    rw [hdata, hconstruct]
    rfl
  · rw [halive]
    push_cast
    ring

theorem reserve_updated (moved : α → α) (hstored : Stored storage vector)
    (capacity : ℕ) :
    ∃ vector' storage', vector.reserve moved capacity storage =
        some (vector', storage') ∧
      Updated vector storage vector' storage' := by
  unfold Vector.reserve
  split
  · rename_i hlarger
    obtain ⟨vector', storage', hreallocate, hupdated, -, -⟩ :=
      reallocate_updated moved hstored (Or.inr hlarger)
    exact ⟨vector', storage', hreallocate, hupdated⟩
  · exact ⟨vector, storage, rfl, .refl hstored⟩

theorem appendEach_updated (moved : α → α) (hstored : Stored storage vector)
    (hother : Stored storage other)
    (hapart : ∀ buffer ∈ buffers other, buffer ∉ buffers vector) (size : ℕ)
    (hsize : size ≤ other.size_) :
    ∃ vector' storage', vector.appendEach moved other size storage =
        some (vector', storage') ∧
      Updated vector storage vector' storage' := by
  induction size with
  | zero => exact ⟨vector, storage, rfl, .refl hstored⟩
  | succ size ih =>
      obtain ⟨middle, storage₁, heach, hfirst⟩ := ih (by omega)
      have hkept := hfirst.stored_other hother hapart
      obtain ⟨val, hread⟩ : ∃ val, storage₁.read other.data_ size = some val := by
        have hcapacity := hother.size_le
        obtain ⟨buffer, hdata, -, hspan⟩ := hkept.exists_buffer (by omega)
        rw [hdata]
        exact Option.isSome_iff_exists.mp
          ((hspan.read_isSome size).mpr ⟨Nat.zero_le _, hsize⟩)
      obtain ⟨vector', storage', happend, hsecond⟩ :=
        append_updated moved hfirst.stored val
      refine ⟨vector', storage', ?_, hfirst.trans hsecond⟩
      rw [Vector.appendEach, foldlM_range_succ]
      rw [Vector.appendEach] at heach
      rw [heach, Option.bind_some]
      dsimp only
      rw [hread]
      exact happend

theorem pop_back_updated (moved : α → α) (hstored : Stored storage vector) :
    ∃ popped vector' storage', vector.pop_back moved storage =
        some (popped, vector', storage') ∧
      Updated vector storage vector' storage' := by
  unfold Vector.pop_back
  split
  · exact ⟨none, vector, storage, rfl, .refl hstored⟩
  · rename_i hsize
    have hcapacity := hstored.size_le
    obtain ⟨buffer, hdata, hlt, hspan⟩ := hstored.exists_buffer (by omega)
    obtain ⟨val, hread⟩ := Option.isSome_iff_exists.mp
      ((hspan.read_isSome (vector.size_ - 1)).mpr (by omega))
    have htemporary : Span storage.temporary buffer vector.capacity_ 0
        vector.size_ := hspan
    obtain ⟨middle, hwrite, hleft, hfirst, hkept⟩ := overwrite_span htemporary
      ⟨Nat.zero_le _, Nat.sub_one_lt hsize⟩ (moved val)
    have hlast : ∀ other, 0 ≤ other ∧ other < vector.size_ - 1 ↔
        other ≠ vector.size_ - 1 ∧ 0 ≤ other ∧ other < vector.size_ := by
      omega
    obtain ⟨next, hdestroy, hnext, hsecond, hless⟩ :=
      destroy_span hleft (by omega) (Nat.sub_le _ _) hlast
    have hmiddle : middle.alive = storage.alive :=
      hkept.trans (temporary_alive storage)
    have hbefore : Changed {buffer} storage middle :=
      ⟨hfirst.created, hfirst.others⟩
    have htouched : Changed {buffer} storage next :=
      hbefore.trans hsecond fun _ _ hmem => hmem
    refine ⟨some val, { vector with size_ := vector.size_ - 1 }, next, ?_,
      resized hdata hlt hnext htouched ?_⟩
    · dsimp only
      rw [hdata, hread, Option.bind_some, hwrite, Option.bind_some, hdestroy]
      rfl
    · rw [hless, hmiddle]
      push_cast [Nat.one_le_iff_ne_zero.mpr hsize]
      ring

/-! ## Constructors and the copy assignment -/

theorem ofSize_updated (size : ℕ) (storage : Storage α) :
    Updated Vector.empty storage (Vector.ofSize size storage).1
      (Vector.ofSize size storage).2 := by
  obtain ⟨hspan, hchanged⟩ := allocate_span storage size
  refine ⟨⟨stored_some (Nat.lt_succ_self _) hspan, ?_, ?_⟩, rfl⟩
  · intro buffer hlt hmem
    cases hmem
    exact absurd hlt (Nat.lt_irrefl _)
  · exact hchanged.mono fun _ _ hmem => absurd hmem (Set.notMem_empty _)

/-- Without elements to fill in, the value is not used. -/
theorem ofSizeValue_zero (val : α) (storage : Storage α) :
    Vector.ofSizeValue 0 val storage = some (Vector.ofSize 0 storage) :=
  rfl

theorem ofSizeValue_pos {size : ℕ} (hsize : 0 < size) (val : α)
    (storage : Storage α) : Vector.ofSizeValue size val storage = none := by
  obtain ⟨hspan, -⟩ := allocate_span storage size
  have hraw := assignEach_raw hspan hsize val
  have hassign : (storage.allocate size).2.assignEach
      (some (storage.allocate size).1) size val = none := hraw
  rw [Vector.ofSizeValue, hassign]
  rfl

theorem copyConstruct_updated (moved : α → α)
    (hother : Stored storage other) :
    ∃ vector storage', Vector.copyConstruct moved other storage =
        some (vector, storage') ∧
      Updated Vector.empty storage vector storage' := by
  obtain ⟨reserved, middle, hreserve, hfirst⟩ :=
    reserve_updated moved (stored_empty storage) other.capacity_
  have hnone : ∀ buffer ∈ buffers other, buffer ∉ buffers Vector.empty :=
    fun _ _ => nofun
  obtain ⟨vector, storage', heach, hsecond⟩ :=
    appendEach_updated moved hfirst.stored (hfirst.stored_other hother hnone)
      (hfirst.apart_other hother hnone) other.size_ le_rfl
  refine ⟨vector, storage', ?_, hfirst.trans hsecond⟩
  rw [Vector.copyConstruct, hreserve]
  exact heach

theorem copyAssign_updated (moved : α → α) (hstored : Stored storage vector)
    (hother : Stored storage other)
    (hapart : ∀ buffer ∈ buffers other, buffer ∉ buffers vector) :
    ∃ vector' storage', vector.copyAssign moved other storage =
        some (vector', storage') ∧
      Updated vector storage vector' storage' := by
  obtain ⟨emptied, hdestroy, hcleared⟩ : ∃ emptied,
      storage.destroyEach vector.data_ vector.size_ = some emptied ∧
        Updated vector storage { vector with size_ := 0 } emptied := by
    by_cases hsize : vector.size_ = 0
    · have hsame : ({ vector with size_ := 0 } : Vector) = vector := by
        rw [← hsize]
      rw [hsame, hsize]
      exact ⟨storage, rfl, .refl hstored⟩
    · have hcapacity := hstored.size_le
      obtain ⟨buffer, hdata, hlt, hspan⟩ := hstored.exists_buffer (by omega)
      obtain ⟨emptied, hdestroy, hempty, hchanged, halive⟩ :=
        destroyEach_span hspan vector.size_ le_rfl
      refine ⟨emptied, ?_, resized hdata hlt hempty.empty hchanged ?_⟩
      · rw [hdata]
        exact hdestroy
      · rw [halive]
        exact sub_zero _
  obtain ⟨reserved, middle, hreserve, hreserved⟩ :=
    reserve_updated moved hcleared.stored other.capacity_
  have hfirst := hcleared.trans hreserved
  obtain ⟨vector', storage', heach, hsecond⟩ :=
    appendEach_updated moved hfirst.stored (hfirst.stored_other hother hapart)
      (hfirst.apart_other hother hapart) other.size_ le_rfl
  refine ⟨vector', storage', ?_, hfirst.trans hsecond⟩
  rw [Vector.copyAssign, hdestroy, Option.bind_some, hreserve]
  exact heach

end Vectors

end Zam
end TradingStudies
