import TradingStudies.Library.HandleTable
import TradingStudies.Library.RawStorage
import TradingStudies.Library.StepSystem

/-!
# The vector of the study

`zam::vector` in `Study/vector.cpp`.  A vector has its buffer from
`operator new[]`, which gives the slots it is asked for; the elements come and go
by placement construction and explicit destruction.  The constructors of the
elements do not throw.  What a move leaves of an element is `moved`.

Elements that belong to the caller, such as the argument of `push_back`, are not
counted, except for the one that `pop_back` constructs and returns.
-/

namespace TradingStudies
namespace Zam

open HandleTable RawStorage StepSystem

variable {α : Type*}

structure Vector where
  size_ : ℕ
  capacity_ : ℕ
  data_ : Pointer
deriving DecidableEq

namespace Vector

/-- The default member values, and `reset(nullptr, 0, 0)`. -/
def empty : Vector where
  size_ := 0
  capacity_ := 0
  data_ := none

/-- `if (data_) operator delete[](data_)` -/
def free (vector : Vector) (storage : Storage α) : Option (Storage α) :=
  match vector.data_ with
  | none => some storage
  | some buffer => storage.release buffer

/-- The elements are destroyed and the buffer is deleted, if there is one. -/
def discard (vector : Vector) (storage : Storage α) : Option (Storage α) :=
  match vector.data_ with
  | none => some storage
  | some buffer =>
      (storage.destroyEach (some buffer) vector.size_).bind fun storage =>
        storage.release buffer

def reallocate (moved : α → α) (vector : Vector) (new_capacity : ℕ)
    (storage : Storage α) : Option (Vector × Storage α) :=
  let capacity :=
    if new_capacity > 0 then new_capacity
    else if vector.capacity_ = 0 then 1
    else vector.capacity_ * 2
  let allocated := storage.allocate capacity
  (allocated.2.moveEach moved vector.data_ (some allocated.1)
    vector.size_).bind fun storage =>
      (vector.discard storage).map fun storage =>
        ({ vector with capacity_ := capacity, data_ := some allocated.1 },
          storage)

/-- The common body of `push_back` and `emplace_back`. -/
def append (moved : α → α) (vector : Vector) (val : α) (storage : Storage α) :
    Option (Vector × Storage α) :=
  (if vector.size_ = vector.capacity_ then vector.reallocate moved 0 storage
    else some (vector, storage)).bind fun (vector, storage) =>
      (storage.construct vector.data_ vector.size_ val).map fun storage =>
        ({ vector with size_ := vector.size_ + 1 }, storage)

def push_back (moved : α → α) (vector : Vector) (val : α)
    (storage : Storage α) : Option (Vector × Storage α) :=
  vector.append moved val storage

/-- `val` is what the arguments construct. -/
def emplace_back (moved : α → α) (vector : Vector) (val : α)
    (storage : Storage α) : Option (Vector × Storage α) :=
  vector.append moved val storage

/-- The result has no value where the vector is empty and the call throws. -/
def pop_back (moved : α → α) (vector : Vector) (storage : Storage α) :
    Option (Option α × Vector × Storage α) :=
  if vector.size_ = 0 then some (none, vector, storage)
  else
    let size := vector.size_ - 1
    (storage.read vector.data_ size).bind fun val =>
      (storage.temporary.write vector.data_ size (some (moved val))).bind
        fun storage =>
          (storage.destroy vector.data_ size).map fun storage =>
            (some val, { vector with size_ := size }, storage)

def reserve (moved : α → α) (vector : Vector) (capacity : ℕ)
    (storage : Storage α) : Option (Vector × Storage α) :=
  if capacity > vector.capacity_ then vector.reallocate moved capacity storage
  else some (vector, storage)

/-- `for (size_t i = 0; i < other.size(); ++i) emplace_back(other[i])` -/
def appendEach (moved : α → α) (vector other : Vector) (size : ℕ)
    (storage : Storage α) : Option (Vector × Storage α) :=
  (List.range size).foldlM (fun (vector, storage) i =>
    (storage.read other.data_ i).bind fun val =>
      vector.emplace_back moved val storage) (vector, storage)

/-- `vector(size_t size)` -/
def ofSize (size : ℕ) (storage : Storage α) : Vector × Storage α :=
  let allocated := storage.allocate size
  ({ size_ := 0, capacity_ := size, data_ := some allocated.1 }, allocated.2)

/-- `vector(size_t size, const T& val)` -/
def ofSizeValue (size : ℕ) (val : α) (storage : Storage α) :
    Option (Vector × Storage α) :=
  let allocated := storage.allocate size
  (allocated.2.assignEach (some allocated.1) size val).map fun storage =>
    ({ size_ := size, capacity_ := size, data_ := some allocated.1 }, storage)

def copyConstruct (moved : α → α) (other : Vector) (storage : Storage α) :
    Option (Vector × Storage α) :=
  (empty.reserve moved other.capacity_ storage).bind fun (vector, storage) =>
    vector.appendEach moved other other.size_ storage

def copyAssign (moved : α → α) (vector other : Vector) (storage : Storage α) :
    Option (Vector × Storage α) :=
  (storage.destroyEach vector.data_ vector.size_).bind fun storage =>
    (reserve moved { vector with size_ := 0 } other.capacity_ storage).bind
      fun (vector, storage) =>
        vector.appendEach moved other other.size_ storage

end Vector

/-! ## Programs -/

variable {Name : Type*} [DecidableEq Name]

structure World (Name α : Type*) where
  vectors : Table Name Vector
  storage : Storage α

namespace World

def empty : World Name α where
  vectors := ∅
  storage := Storage.empty

def set (world : World Name α) (name : Name)
    (result : Vector × Storage α) : World Name α where
  vectors := world.vectors.insert name result.1
  storage := result.2

end World

inductive Op (Name α : Type*)
  | construct (name : Name)
  | constructSize (name : Name) (size : ℕ)
  | constructSizeValue (name : Name) (size : ℕ) (val : α)
  | copyConstruct (name other : Name)
  | moveConstruct (name other : Name)
  | copyAssign (name other : Name)
  | moveAssign (name other : Name)
  | push_back (name : Name) (val : α)
  | emplace_back (name : Name) (val : α)
  | pop_back (name : Name)
  | reserve (name : Name) (capacity : ℕ)
  | destroy (name : Name)
deriving DecidableEq

/-- A new vector has a new name, every other name is in scope. -/
def Enabled (world : World Name α) : Op Name α → Prop
  | .construct name => name ∉ world.vectors
  | .constructSize name _ => name ∉ world.vectors
  | .constructSizeValue name _ _ => name ∉ world.vectors
  | .copyConstruct name other =>
      name ∉ world.vectors ∧ other ∈ world.vectors
  | .moveConstruct name other =>
      name ∉ world.vectors ∧ other ∈ world.vectors
  | .copyAssign name other => name ∈ world.vectors ∧ other ∈ world.vectors
  | .moveAssign name other => name ∈ world.vectors ∧ other ∈ world.vectors
  | .push_back name _ => name ∈ world.vectors
  | .emplace_back name _ => name ∈ world.vectors
  | .pop_back name => name ∈ world.vectors
  | .reserve name _ => name ∈ world.vectors
  | .destroy name => name ∈ world.vectors

instance (world : World Name α) : ∀ op, Decidable (Enabled world op)
  | .construct name => inferInstanceAs (Decidable (name ∉ world.vectors))
  | .constructSize name _ =>
      inferInstanceAs (Decidable (name ∉ world.vectors))
  | .constructSizeValue name _ _ =>
      inferInstanceAs (Decidable (name ∉ world.vectors))
  | .copyConstruct name other =>
      inferInstanceAs (Decidable
        (name ∉ world.vectors ∧ other ∈ world.vectors))
  | .moveConstruct name other =>
      inferInstanceAs (Decidable
        (name ∉ world.vectors ∧ other ∈ world.vectors))
  | .copyAssign name other =>
      inferInstanceAs (Decidable
        (name ∈ world.vectors ∧ other ∈ world.vectors))
  | .moveAssign name other =>
      inferInstanceAs (Decidable
        (name ∈ world.vectors ∧ other ∈ world.vectors))
  | .push_back name _ => inferInstanceAs (Decidable (name ∈ world.vectors))
  | .emplace_back name _ => inferInstanceAs (Decidable (name ∈ world.vectors))
  | .pop_back name => inferInstanceAs (Decidable (name ∈ world.vectors))
  | .reserve name _ => inferInstanceAs (Decidable (name ∈ world.vectors))
  | .destroy name => inferInstanceAs (Decidable (name ∈ world.vectors))

/-- A step without an outcome uses a slot that has no element as if it had one,
or goes beyond its buffer. -/
def step (moved : α → α) (world : World Name α) :
    Op Name α → Option (World Name α)
  | .construct name => some (world.set name (Vector.empty, world.storage))
  | .constructSize name size =>
      some (world.set name (Vector.ofSize size world.storage))
  | .constructSizeValue name size val =>
      (Vector.ofSizeValue size val world.storage).map (world.set name)
  | .copyConstruct name other =>
      (world.vectors.lookup other).bind fun source =>
        (Vector.copyConstruct moved source world.storage).map (world.set name)
  | .moveConstruct name other =>
      (world.vectors.lookup other).map fun source =>
        (world.set other (Vector.empty, world.storage)).set name
          (source, world.storage)
  | .copyAssign name other =>
      if name = other then some world
      else
        (world.vectors.lookup name).bind fun vector =>
          (world.vectors.lookup other).bind fun source =>
            (vector.copyAssign moved source world.storage).map (world.set name)
  | .moveAssign name other =>
      if name = other then some world
      else
        (world.vectors.lookup name).bind fun vector =>
          (world.vectors.lookup other).bind fun source =>
            (vector.free world.storage).map fun storage =>
              (world.set other (Vector.empty, storage)).set name
                (source, storage)
  | .push_back name val =>
      (world.vectors.lookup name).bind fun vector =>
        (vector.push_back moved val world.storage).map (world.set name)
  | .emplace_back name val =>
      (world.vectors.lookup name).bind fun vector =>
        (vector.emplace_back moved val world.storage).map (world.set name)
  | .pop_back name =>
      (world.vectors.lookup name).bind fun vector =>
        (vector.pop_back moved world.storage).map fun popped =>
          world.set name popped.2
  | .reserve name capacity =>
      (world.vectors.lookup name).bind fun vector =>
        (vector.reserve moved capacity world.storage).map (world.set name)
  | .destroy name =>
      (world.vectors.lookup name).bind fun vector =>
        (vector.discard world.storage).map fun storage =>
          { vectors := world.vectors.erase name, storage }

def Balanced (world : World Name α) : Prop :=
  world.storage.alive = (total Vector.size_ world.vectors : ℤ)

/-- The step neither fills a new vector with a value nor moves another vector
onto one that has elements. -/
def Allowed (world : World Name α) : Op Name α → Prop
  | .constructSizeValue _ size _ => size = 0
  | .moveAssign name other =>
      name = other ∨
        weigh Vector.size_ (world.vectors.lookup name) = 0
  | _ => True

instance (world : World Name α) : ∀ op, Decidable (Allowed world op)
  | .constructSizeValue _ size _ => inferInstanceAs (Decidable (size = 0))
  | .moveAssign name other => inferInstanceAs (Decidable (name = other ∨
      weigh Vector.size_ (world.vectors.lookup name) = 0))
  | .construct _ | .constructSize _ _ | .copyConstruct _ _
  | .moveConstruct _ _ | .copyAssign _ _ | .push_back _ _
  | .emplace_back _ _ | .pop_back _ | .reserve _ _ | .destroy _ =>
      inferInstanceAs (Decidable True)

end Zam
end TradingStudies
