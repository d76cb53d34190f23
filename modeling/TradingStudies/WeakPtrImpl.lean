import TradingStudies.Library.HandleTable
import TradingStudies.Library.StepSystem

/-!
# Reference counting with weak pointers

`Study/weak_ptr_impl.cpp`.  A program has any number of `SharedPtr` and
`WeakPtr` variables, known by their names.  Every `SharedPtr(new T)` makes one
object and one control block; both are known by the number of the construction.
Deletions are logged.  Reading a control block that has been deleted has no
outcome.

The managed objects hold no handles, so deleting one does nothing else.  A
`WeakPtr` has no move members: moving one is copying it.
-/

namespace TradingStudies
namespace WeakPtrImpl

abbrev Object := ℕ

abbrev Block := ℕ

structure ControlBlock where
  ptr : Option Object
  shared_count : ℤ
  weak_count : ℤ
deriving DecidableEq

/-- The constructor of a control block. -/
def ControlBlock.make (p : Object) : ControlBlock where
  ptr := some p
  shared_count := 1
  weak_count := 1

structure Memory where
  created : ℕ
  block : Block → Option ControlBlock
  deletedObjects : List Object
  deletedBlocks : List Block

namespace Memory

def empty : Memory where
  created := 0
  block := fun _ => none
  deletedObjects := []
  deletedBlocks := []

def write (memory : Memory) (control : Block) (value : ControlBlock) :
    Memory :=
  { memory with block := Function.update memory.block control (some value) }

/-- Deleting a null pointer does nothing. -/
def deleteObject (memory : Memory) : Option Object → Memory
  | none => memory
  | some ptr => { memory with deletedObjects := ptr :: memory.deletedObjects }

def deleteBlock (memory : Memory) (control : Block) : Memory :=
  { memory with
    block := Function.update memory.block control none
    deletedBlocks := control :: memory.deletedBlocks }

end Memory

structure SharedPtr where
  control : Option Block
deriving DecidableEq

structure WeakPtr where
  control : Option Block
deriving DecidableEq

namespace SharedPtr

def null : SharedPtr := ⟨none⟩

/-- `SharedPtr(new T)` -/
def make (memory : Memory) : SharedPtr × Memory :=
  (⟨some memory.created⟩,
    { memory with
      created := memory.created + 1
      block := Function.update memory.block memory.created
        (some (ControlBlock.make memory.created)) })

def release (handle : SharedPtr) (memory : Memory) :
    Option (SharedPtr × Memory) :=
  match handle.control with
  | none => some (handle, memory)
  | some control =>
      (memory.block control).bind fun found =>
        if found.shared_count - 1 = 0 then
          let memory := memory.deleteObject found.ptr
          if found.weak_count - 1 = 0 then
            some (⟨none⟩, memory.deleteBlock control)
          else
            some (⟨none⟩, memory.write control
              { ptr := none
                shared_count := found.shared_count - 1
                weak_count := found.weak_count - 1 })
        else
          some (⟨none⟩, memory.write control
            { found with shared_count := found.shared_count - 1 })

/-- `control = other.control; if (control) control->shared_count++` -/
def share (other : SharedPtr) (memory : Memory) :
    Option (SharedPtr × Memory) :=
  match other.control with
  | none => some (⟨none⟩, memory)
  | some control =>
      (memory.block control).bind fun found =>
        some (⟨some control⟩, memory.write control
          { found with shared_count := found.shared_count + 1 })

/-- The private constructor which `lock` calls. -/
def ofWeak (weak : WeakPtr) (memory : Memory) : Option (SharedPtr × Memory) :=
  match weak.control with
  | none => some (⟨none⟩, memory)
  | some control =>
      (memory.block control).bind fun found =>
        if found.shared_count > 0 then
          some (⟨some control⟩, memory.write control
            { found with shared_count := found.shared_count + 1 })
        else some (⟨none⟩, memory)

def get (handle : SharedPtr) (memory : Memory) : Option (Option Object) :=
  match handle.control with
  | none => some none
  | some control => (memory.block control).map ControlBlock.ptr

def unique (handle : SharedPtr) (memory : Memory) : Option Bool :=
  match handle.control with
  | none => some false
  | some control =>
      (memory.block control).map fun found => found.shared_count = 1

end SharedPtr

namespace WeakPtr

def null : WeakPtr := ⟨none⟩

/-- The constructors from a `SharedPtr` and from a `WeakPtr` both take over
the control block and count themselves. -/
def watch (control : Option Block) (memory : Memory) :
    Option (WeakPtr × Memory) :=
  match control with
  | none => some (⟨none⟩, memory)
  | some control =>
      (memory.block control).bind fun found =>
        some (⟨some control⟩, memory.write control
          { found with weak_count := found.weak_count + 1 })

def release (handle : WeakPtr) (memory : Memory) : Option (WeakPtr × Memory) :=
  match handle.control with
  | none => some (handle, memory)
  | some control =>
      (memory.block control).bind fun found =>
        if found.shared_count = 0 ∧ found.weak_count - 1 = 0 then
          some (⟨none⟩, memory.deleteBlock control)
        else
          some (⟨none⟩, memory.write control
            { found with weak_count := found.weak_count - 1 })

def expired (handle : WeakPtr) (memory : Memory) : Option Bool :=
  match handle.control with
  | none => some true
  | some control =>
      (memory.block control).map fun found => found.shared_count = 0

def lock (handle : WeakPtr) (memory : Memory) : Option (SharedPtr × Memory) :=
  (handle.expired memory).bind fun expired =>
    if expired then some (SharedPtr.null, memory)
    else SharedPtr.ofWeak handle memory

end WeakPtr

/-! ## Programs -/

open HandleTable

variable {Name : Type*} [DecidableEq Name]

/-- The variables in scope and what they point to. -/
structure World (Name : Type*) where
  shared : Table Name SharedPtr
  weak : Table Name WeakPtr
  memory : Memory

namespace World

def empty : World Name where
  shared := ∅
  weak := ∅
  memory := Memory.empty

def setShared (world : World Name) (name : Name)
    (result : SharedPtr × Memory) : World Name :=
  { world with
    shared := world.shared.insert name result.1
    memory := result.2 }

def setWeak (world : World Name) (name : Name) (result : WeakPtr × Memory) :
    World Name :=
  { world with
    weak := world.weak.insert name result.1
    memory := result.2 }

end World

inductive Op (Name : Type*)
  | sharedDefault (name : Name)
  | sharedMake (name : Name)
  | sharedCopy (name other : Name)
  | sharedMove (name other : Name)
  | sharedAssign (name other : Name)
  | sharedMoveAssign (name other : Name)
  | sharedDestroy (name : Name)
  | weakDefault (name : Name)
  | weakFromShared (name other : Name)
  | weakCopy (name other : Name)
  | weakAssign (name other : Name)
  | weakDestroy (name : Name)
  | lock (name other : Name)
deriving DecidableEq

/-- A new variable has a new name; the other operands are in scope. -/
def Enabled (world : World Name) : Op Name → Prop
  | .sharedDefault name => name ∉ world.shared
  | .sharedMake name => name ∉ world.shared
  | .sharedCopy name other => name ∉ world.shared ∧ other ∈ world.shared
  | .sharedMove name other => name ∉ world.shared ∧ other ∈ world.shared
  | .sharedAssign name other => name ∈ world.shared ∧ other ∈ world.shared
  | .sharedMoveAssign name other => name ∈ world.shared ∧ other ∈ world.shared
  | .sharedDestroy name => name ∈ world.shared
  | .weakDefault name => name ∉ world.weak
  | .weakFromShared name other => name ∉ world.weak ∧ other ∈ world.shared
  | .weakCopy name other => name ∉ world.weak ∧ other ∈ world.weak
  | .weakAssign name other => name ∈ world.weak ∧ other ∈ world.weak
  | .weakDestroy name => name ∈ world.weak
  | .lock name other => name ∉ world.shared ∧ other ∈ world.weak

instance (world : World Name) : ∀ op, Decidable (Enabled world op)
  | .sharedDefault name => inferInstanceAs (Decidable (name ∉ world.shared))
  | .sharedMake name => inferInstanceAs (Decidable (name ∉ world.shared))
  | .sharedCopy name other =>
      inferInstanceAs (Decidable (name ∉ world.shared ∧ other ∈ world.shared))
  | .sharedMove name other =>
      inferInstanceAs (Decidable (name ∉ world.shared ∧ other ∈ world.shared))
  | .sharedAssign name other =>
      inferInstanceAs (Decidable (name ∈ world.shared ∧ other ∈ world.shared))
  | .sharedMoveAssign name other =>
      inferInstanceAs (Decidable (name ∈ world.shared ∧ other ∈ world.shared))
  | .sharedDestroy name => inferInstanceAs (Decidable (name ∈ world.shared))
  | .weakDefault name => inferInstanceAs (Decidable (name ∉ world.weak))
  | .weakFromShared name other =>
      inferInstanceAs (Decidable (name ∉ world.weak ∧ other ∈ world.shared))
  | .weakCopy name other =>
      inferInstanceAs (Decidable (name ∉ world.weak ∧ other ∈ world.weak))
  | .weakAssign name other =>
      inferInstanceAs (Decidable (name ∈ world.weak ∧ other ∈ world.weak))
  | .weakDestroy name => inferInstanceAs (Decidable (name ∈ world.weak))
  | .lock name other =>
      inferInstanceAs (Decidable (name ∉ world.shared ∧ other ∈ world.weak))

def step (world : World Name) : Op Name → Option (World Name)
  | .sharedDefault name =>
      some (world.setShared name (SharedPtr.null, world.memory))
  | .sharedMake name => some (world.setShared name (SharedPtr.make world.memory))
  | .sharedCopy name other =>
      (world.shared.lookup other).bind fun source =>
        (source.share world.memory).map (world.setShared name)
  | .sharedMove name other =>
      (world.shared.lookup other).map fun source =>
        (world.setShared other (SharedPtr.null, world.memory)).setShared name
          (source, world.memory)
  | .sharedAssign name other =>
      if name = other then some world
      else
        (world.shared.lookup name).bind fun target =>
          (target.release world.memory).bind fun released =>
            (world.shared.lookup other).bind fun source =>
              (source.share released.2).map
                ((world.setShared name released).setShared name)
  | .sharedMoveAssign name other =>
      if name = other then some world
      else
        (world.shared.lookup name).bind fun target =>
          (target.release world.memory).bind fun released =>
            (world.shared.lookup other).map fun source =>
              ((world.setShared name released).setShared other
                (SharedPtr.null, released.2)).setShared name
                  (source, released.2)
  | .sharedDestroy name =>
      (world.shared.lookup name).bind fun target =>
        (target.release world.memory).map fun released =>
          { world with
            shared := world.shared.erase name
            memory := released.2 }
  | .weakDefault name =>
      some (world.setWeak name (WeakPtr.null, world.memory))
  | .weakFromShared name other =>
      (world.shared.lookup other).bind fun source =>
        (WeakPtr.watch source.control world.memory).map (world.setWeak name)
  | .weakCopy name other =>
      (world.weak.lookup other).bind fun source =>
        (WeakPtr.watch source.control world.memory).map (world.setWeak name)
  | .weakAssign name other =>
      if name = other then some world
      else
        (world.weak.lookup name).bind fun target =>
          (target.release world.memory).bind fun released =>
            (world.weak.lookup other).bind fun source =>
              (WeakPtr.watch source.control released.2).map
                ((world.setWeak name released).setWeak name)
  | .weakDestroy name =>
      (world.weak.lookup name).bind fun target =>
        (target.release world.memory).map fun released =>
          { world with
            weak := world.weak.erase name
            memory := released.2 }
  | .lock name other =>
      (world.weak.lookup other).bind fun weak =>
        (weak.lock world.memory).map (world.setShared name)

end WeakPtrImpl
end TradingStudies
