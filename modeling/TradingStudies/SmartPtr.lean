import TradingStudies.Library.HandleTable
import TradingStudies.Library.StepSystem

/-!
# The counted pointer of the smart pointer study

`my_shared` in `Study/smart_ptr.cpp`.  A handle has two fields, the pointer and
the pointer to the counter.  Copying transfers both.  Moving transfers the
pointer only: the source keeps its counter, a handle constructed by a move has
none, and a handle assigned by a move keeps the counter it had.

Every `my_shared(new T)` makes one object and one counter, both known by the
number of the construction.  Reading a deleted counter, or counting through a
null pointer, has no outcome.
-/

namespace TradingStudies
namespace SmartPtr

open HandleTable StepSystem

abbrev Object := ℕ

abbrev Counter := ℕ

structure MyShared where
  m_ptr : Option Object
  m_ref_count : Option Counter
deriving DecidableEq

structure Memory where
  created : ℕ
  counter : Counter → Option ℤ
  deletedObjects : List Object
  deletedCounters : List Counter

namespace Memory

def empty : Memory where
  created := 0
  counter := fun _ => none
  deletedObjects := []
  deletedCounters := []

def write (memory : Memory) (counter : Counter) (value : ℤ) : Memory :=
  { memory with
    counter := Function.update memory.counter counter (some value) }

/-- Deleting a null pointer does nothing. -/
def deleteObject (memory : Memory) : Option Object → Memory
  | none => memory
  | some ptr => { memory with deletedObjects := ptr :: memory.deletedObjects }

def deleteCounter (memory : Memory) (counter : Counter) : Memory :=
  { memory with
    counter := Function.update memory.counter counter none
    deletedCounters := counter :: memory.deletedCounters }

/-- `my_shared(new T)` -/
def make (memory : Memory) : MyShared × Memory :=
  (⟨some memory.created, some memory.created⟩,
    { memory with
      created := memory.created + 1
      counter := Function.update memory.counter memory.created (some 1) })

/-- `++(*m_ref_count)` -/
def increment (memory : Memory) (counter : Option Counter) : Option Memory :=
  counter.bind fun counter =>
    (memory.counter counter).map fun value => memory.write counter (value + 1)

end Memory

def MyShared.cleanup (handle : MyShared) (memory : Memory) : Option Memory :=
  match handle.m_ref_count with
  | none => some memory
  | some counter =>
      (memory.counter counter).map fun value =>
        if value - 1 = 0 then
          (memory.deleteObject handle.m_ptr).deleteCounter counter
        else memory.write counter (value - 1)

variable {Name : Type*} [DecidableEq Name]

structure World (Name : Type*) where
  handles : Table Name MyShared
  memory : Memory

namespace World

def empty : World Name where
  handles := ∅
  memory := Memory.empty

def set (world : World Name) (name : Name) (handle : MyShared) : World Name :=
  { world with handles := world.handles.insert name handle }

end World

inductive Op (Name : Type*)
  | make (name : Name)
  | copyConstruct (name other : Name)
  | copyAssign (name other : Name)
  | moveConstruct (name other : Name)
  | moveAssign (name other : Name)
  | destroy (name : Name)
deriving DecidableEq

/-- The handle is in scope and shows an object, so it has not been moved
from. -/
def Holds (world : World Name) (name : Name) : Prop :=
  ∃ object, (world.handles.lookup name).bind MyShared.m_ptr = some object

/-- A new handle has a new name; a handle that was moved from is only assigned
to or destroyed. -/
def Enabled (world : World Name) : Op Name → Prop
  | .make name => name ∉ world.handles
  | .copyConstruct name other => name ∉ world.handles ∧ Holds world other
  | .copyAssign name other =>
      name ∈ world.handles ∧ (name = other ∨ Holds world other)
  | .moveConstruct name other => name ∉ world.handles ∧ Holds world other
  | .moveAssign name other =>
      name ∈ world.handles ∧ (name = other ∨ Holds world other)
  | .destroy name => name ∈ world.handles

instance (world : World Name) (name : Name) : Decidable (Holds world name) :=
  decidable_of_iff
    (((world.handles.lookup name).bind MyShared.m_ptr).isSome = true)
    Option.isSome_iff_exists

instance (world : World Name) : ∀ op, Decidable (Enabled world op)
  | .make name => inferInstanceAs (Decidable (name ∉ world.handles))
  | .copyConstruct name other =>
      inferInstanceAs (Decidable (name ∉ world.handles ∧ Holds world other))
  | .copyAssign name other =>
      inferInstanceAs (Decidable
        (name ∈ world.handles ∧ (name = other ∨ Holds world other)))
  | .moveConstruct name other =>
      inferInstanceAs (Decidable (name ∉ world.handles ∧ Holds world other))
  | .moveAssign name other =>
      inferInstanceAs (Decidable
        (name ∈ world.handles ∧ (name = other ∨ Holds world other)))
  | .destroy name => inferInstanceAs (Decidable (name ∈ world.handles))

def step (world : World Name) : Op Name → Option (World Name)
  | .make name =>
      let made := world.memory.make
      some ({ world with memory := made.2 }.set name made.1)
  | .copyConstruct name other =>
      (world.handles.lookup other).bind fun source =>
        (world.memory.increment source.m_ref_count).map fun memory =>
          { world with memory }.set name source
  | .copyAssign name other =>
      if name = other then some world
      else
        (world.handles.lookup name).bind fun target =>
          (target.cleanup world.memory).bind fun memory =>
            (world.handles.lookup other).bind fun source =>
              (memory.increment source.m_ref_count).map fun memory =>
                { world with memory }.set name source
  | .moveConstruct name other =>
      (world.handles.lookup other).map fun source =>
        (world.set other { source with m_ptr := none }).set name
          { m_ptr := source.m_ptr, m_ref_count := none }
  | .moveAssign name other =>
      if name = other then some world
      else
        (world.handles.lookup name).bind fun target =>
          (world.handles.lookup other).map fun source =>
            let memory := world.memory.deleteObject target.m_ptr
            ({ world with memory }.set other { source with m_ptr := none }).set
              name { target with m_ptr := source.m_ptr }
  | .destroy name =>
      (world.handles.lookup name).bind fun target =>
        (target.cleanup world.memory).map fun memory =>
          { handles := world.handles.erase name, memory }

/-! ## What the counters count -/

namespace World

/-- The number of handles that point to each object. -/
def pointers (world : World Name) : Object → ℕ :=
  refs MyShared.m_ptr world.handles

/-- The number of handles that point to each counter. -/
def holders (world : World Name) : Counter → ℕ :=
  refs MyShared.m_ref_count world.handles

end World

/-- The counters count the handles that point to them, and go with the last of
these.  This holds whatever happens to the pointers. -/
structure Memory.Counted (memory : Memory) (holders : Counter → ℕ) : Prop where
  counter : ∀ counter, memory.counter counter =
    if holders counter = 0 then none else some (holders counter : ℤ)
  deleted : ∀ counter, memory.deletedCounters.count counter =
    if counter < memory.created ∧ holders counter = 0 then 1 else 0
  fresh : ∀ counter, memory.created ≤ counter → holders counter = 0

/-- Each object and its counter are deleted once, at the moment when no handle
points to the object any more. -/
structure DeletesOnce (world : World Name) : Prop where
  objects : ∀ object, world.memory.deletedObjects.count object =
    if object < world.memory.created ∧ world.pointers object = 0 then 1 else 0
  counters : ∀ object, world.memory.deletedCounters.count object =
    if object < world.memory.created ∧ world.pointers object = 0 then 1 else 0

structure Counts (world : World Name) : Prop where
  memory : world.memory.Counted world.holders
  fresh : ∀ object, world.memory.created ≤ object → world.pointers object = 0

section Counts

variable {world : World Name} {name other : Name} {handle : MyShared}
  {memory : Memory} {holders : Counter → ℕ} {counter : Counter}

theorem Memory.counted_empty : Memory.empty.Counted (fun _ => 0) where
  counter _ := rfl
  deleted _ := rfl
  fresh _ _ := rfl

theorem counts_empty : Counts (World.empty : World Name) where
  memory := Memory.counted_empty
  fresh _ _ := rfl

theorem deletesOnce_empty : DeletesOnce (World.empty : World Name) where
  objects _ := rfl
  counters _ := rfl

theorem Memory.Counted.created_of_pos (hcounted : memory.Counted holders)
    (hpos : 0 < holders counter) : counter < memory.created := by
  apply Classical.byContradiction
  intro hnot
  have hfresh := hcounted.fresh counter (Nat.le_of_not_lt hnot)
  omega

theorem Memory.Counted.counter_of_pos (hcounted : memory.Counted holders)
    (hpos : 0 < holders counter) :
    memory.counter counter = some (holders counter : ℤ) := by
  rw [hcounted.counter, if_neg hpos.ne']

/-- The counter is written with the number of handles after the step. -/
theorem Memory.Counted.write (hcounted : memory.Counted holders)
    (hpos : 0 < holders counter) {count : ℕ} (hcount : 0 < count) :
    (memory.write counter count).Counted
      (Function.update holders counter count) where
  counter other := by
    by_cases heq : other = counter
    · subst other
      simp [Memory.write, hcount.ne']
    · simpa [Memory.write, Function.update_of_ne heq] using
        hcounted.counter other
  deleted other := by
    by_cases heq : other = counter
    · subst other
      have hdeleted := hcounted.deleted counter
      rw [if_neg fun h => hpos.ne' h.2] at hdeleted
      simpa [Memory.write, hcount.ne'] using hdeleted
    · simpa [Memory.write, Function.update_of_ne heq] using
        hcounted.deleted other
  fresh other hle := by
    have hne : other ≠ counter := by
      intro heq
      rw [heq] at hle
      exact Nat.not_lt_of_le hle (hcounted.created_of_pos hpos)
    rw [Function.update_of_ne hne]
    exact hcounted.fresh other hle

theorem Memory.Counted.deleteCounter (hcounted : memory.Counted holders)
    (hpos : 0 < holders counter) :
    (memory.deleteCounter counter).Counted
      (Function.update holders counter 0) where
  counter other := by
    by_cases heq : other = counter
    · subst other
      simp [Memory.deleteCounter]
    · simpa [Memory.deleteCounter, Function.update_of_ne heq] using
        hcounted.counter other
  deleted other := by
    by_cases heq : other = counter
    · subst other
      have hdeleted := hcounted.deleted counter
      rw [if_neg fun h => hpos.ne' h.2] at hdeleted
      simpa [Memory.deleteCounter, hcounted.created_of_pos hpos] using hdeleted
    · simpa [Memory.deleteCounter, Function.update_of_ne heq,
        List.count_cons_of_ne (Ne.symm heq)] using hcounted.deleted other
  fresh other hle := by
    have hne : other ≠ counter := by
      intro heq
      rw [heq] at hle
      exact Nat.not_lt_of_le hle (hcounted.created_of_pos hpos)
    rw [Function.update_of_ne hne]
    exact hcounted.fresh other hle

theorem Memory.Counted.deleteObject (hcounted : memory.Counted holders)
    (ptr : Option Object) : (memory.deleteObject ptr).Counted holders := by
  cases ptr with
  | none => exact hcounted
  | some ptr => exact ⟨hcounted.counter, hcounted.deleted, hcounted.fresh⟩

theorem Memory.Counted.increment (hcounted : memory.Counted holders)
    (hpos : 0 < holders counter) :
    ∃ next, memory.increment (some counter) = some next ∧
      next.Counted (Function.update holders counter (holders counter + 1)) ∧
      next.created = memory.created ∧
      next.deletedObjects = memory.deletedObjects ∧
      next.deletedCounters = memory.deletedCounters := by
  refine ⟨memory.write counter (holders counter + 1), ?_, ?_, rfl, rfl, rfl⟩
  · simp [Memory.increment, hcounted.counter_of_pos hpos]
  · have hnext := hcounted.write hpos (Nat.succ_pos (holders counter))
    rwa [Nat.cast_succ] at hnext

/-- The object goes with the last handle of the counter. -/
theorem Memory.Counted.cleanup (hcounted : memory.Counted holders)
    (hhandle : handle.m_ref_count = some counter)
    (hpos : 0 < holders counter) :
    ∃ next, handle.cleanup memory = some next ∧
      next.Counted (Function.update holders counter (holders counter - 1)) ∧
      next.created = memory.created ∧
      next.deletedObjects =
        if holders counter = 1 then
          (memory.deleteObject handle.m_ptr).deletedObjects
        else memory.deletedObjects := by
  have hvalue := hcounted.counter_of_pos hpos
  by_cases hlast : holders counter = 1
  · refine ⟨(memory.deleteObject handle.m_ptr).deleteCounter counter, ?_, ?_,
      ?_, ?_⟩
    · simp [MyShared.cleanup, hhandle, hvalue, hlast]
    · rw [hlast]
      exact (hcounted.deleteObject handle.m_ptr).deleteCounter hpos
    · cases handle.m_ptr <;> rfl
    · rw [if_pos hlast]
      rfl
  · have hleft : ¬ (holders counter : ℤ) - 1 = 0 := by omega
    have hcast : ((holders counter - 1 : ℕ) : ℤ) = (holders counter : ℤ) - 1 :=
      by omega
    refine ⟨memory.write counter ((holders counter : ℤ) - 1), ?_, ?_, rfl, ?_⟩
    · simp [MyShared.cleanup, hhandle, hvalue, hleft]
    · rw [← hcast]
      exact hcounted.write hpos (by omega)
    · rw [if_neg hlast]
      rfl

theorem Memory.Counted.make (hcounted : memory.Counted holders) :
    memory.make.2.Counted (Function.update holders memory.created 1) where
  counter other := by
    by_cases heq : other = memory.created
    · subst other
      simp [Memory.make]
    · simpa [Memory.make, Function.update_of_ne heq] using
        hcounted.counter other
  deleted other := by
    by_cases heq : other = memory.created
    · subst other
      simpa [Memory.make] using hcounted.deleted memory.created
    · have hlt : other < memory.created + 1 ↔ other < memory.created :=
        ⟨fun h => lt_of_le_of_ne (Nat.le_of_lt_succ h) heq,
          fun h => Nat.lt_succ_of_lt h⟩
      simpa [Memory.make, Function.update_of_ne heq, hlt] using
        hcounted.deleted other
  fresh other hle := by
    have hlt : memory.created < other := hle
    rw [Function.update_of_ne hlt.ne']
    exact hcounted.fresh other hlt.le

end Counts

end SmartPtr
end TradingStudies
