import TradingStudies.Library.UniqueOwner

/-!
# Handles that are moved and never copied

`Socket` in `HFT/Socket.hpp` closes its descriptor, and `my_unique` in
`Study/smart_ptr.cpp` deletes its object.  Both delete their copy operations,
look for self-assignment and give up what they hold before they take over what
another one holds.  A descriptor is held where `sockfd_ >= 0`; deleting a null
pointer does nothing.

Descriptors are numbered by the kernel and objects by the allocator, which may
use a number again as soon as it has been given up.
-/

namespace TradingStudies
namespace UniqueHandles

open HandleTable StepSystem
open UniqueOwner (World Op Enabled Owned)

variable {Name : Type*} [DecidableEq Name]

structure Socket where
  sockfd_ : ℤ
  deriving DecidableEq, Repr

namespace Socket

/-- What `::close` is called for. -/
def descriptor (socket : Socket) : Option ℤ :=
  if socket.sockfd_ ≥ 0 then some socket.sockfd_ else none

/-- `construct` is either constructor, with what `::socket` answers or with the
number that is passed; a move leaves `-1`. -/
def step : World Name Socket ℤ → Op Name Socket → Option (World Name Socket ℤ) :=
  UniqueOwner.step descriptor ⟨-1⟩

end Socket

/-- The number in a socket is what it was constructed with, moved on by the
moves since; a socket that was moved from has `-1`. -/
def Socket.after :
    (Name → Option Socket) → Op Name Socket → Name → Option Socket :=
  UniqueOwner.after ⟨-1⟩

structure MyUnique where
  m_ptr : Option ℕ
  deriving DecidableEq, Repr

/-- `construct` takes the pointer that it is given, and a move leaves a null
pointer. -/
def MyUnique.step :
    World Name MyUnique ℕ → Op Name MyUnique → Option (World Name MyUnique ℕ) :=
  UniqueOwner.step MyUnique.m_ptr ⟨none⟩

/-- The pointer in a handle is the one it was constructed with, moved on by the
moves since. -/
def MyUnique.after :
    (Name → Option MyUnique) → Op Name MyUnique → Name → Option MyUnique :=
  UniqueOwner.after ⟨none⟩

end UniqueHandles
end TradingStudies
