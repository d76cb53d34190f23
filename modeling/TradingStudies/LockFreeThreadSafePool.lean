import TradingStudies.Library.LinkedSegment
import TradingStudies.Library.SlotPartition
import TradingStudies.Library.StepSystem

/-!
# The tagged free list of LockFreeThreadSafePool

The pool links its free slots through `nextFree_`.  The index of the first one
and a tag which counts the exchanges are packed into the 64-bit word `head_`,
the index in the low 32 bits and the tag in the high 32 bits.

A slot is written here for the message at that place of the pool.  Reading
`nextFree_` outside of its bounds has no defined meaning in the source; the
models below record that it happened.  Two of them follow: the calls of one
thread, and the steps of any number of threads.
-/

namespace TradingStudies
namespace LockFreeThreadSafePool

open LinkedSegment

/-! ## Packing -/

def INDEX_MASK : UInt64 := 0xFFFFFFFF

def pack (index : UInt64) (tag : UInt32) : UInt64 :=
  (tag.toUInt64 <<< 32) ||| index.toUInt32.toUInt64

def unpackIndex (packed : UInt64) : UInt64 := packed &&& INDEX_MASK

def unpackTag (packed : UInt64) : UInt32 := (packed >>> 32).toUInt32

theorem toNat_unpackIndex (packed : UInt64) :
    (unpackIndex packed).toNat = packed.toNat % 2 ^ 32 := by
  unfold unpackIndex INDEX_MASK
  rw [UInt64.toNat_and, show (0xFFFFFFFF : UInt64).toNat = 2 ^ 32 - 1 from rfl]
  exact Nat.and_two_pow_sub_one_eq_mod _ _

theorem toNat_pack (index : UInt64) (tag : UInt32) :
    (pack index tag).toNat = tag.toNat * 2 ^ 32 + index.toNat % 2 ^ 32 := by
  have htag := tag.toNat_lt
  have hlow : index.toNat % 2 ^ 32 < 2 ^ 32 := Nat.mod_lt _ (by decide)
  unfold pack
  rw [UInt64.toNat_or, UInt64.toNat_shiftLeft, UInt32.toNat_toUInt64,
    UInt32.toNat_toUInt64, UInt64.toNat_toUInt32,
    show (32 : UInt64).toNat % 64 = 32 from rfl, Nat.shiftLeft_eq,
    Nat.mod_eq_of_lt (by omega), ← Nat.shiftLeft_eq,
    ← Nat.shiftLeft_add_eq_or_of_lt hlow, Nat.shiftLeft_eq]

theorem unpackIndex_pack (index : UInt64) (tag : UInt32) :
    (unpackIndex (pack index tag)).toNat = index.toNat % 2 ^ 32 := by
  rw [toNat_unpackIndex, toNat_pack]
  omega

@[simp] theorem unpackTag_pack (index : UInt64) (tag : UInt32) :
    unpackTag (pack index tag) = tag := by
  have htag := tag.toNat_lt
  apply UInt32.toNat_inj.mp
  unfold unpackTag
  rw [UInt64.toNat_toUInt32, UInt64.toNat_shiftRight,
    show (32 : UInt64).toNat % 64 = 32 from rfl, Nat.shiftRight_eq_div_pow,
    toNat_pack]
  omega

theorem unpackIndex_lt (packed : UInt64) :
    (unpackIndex packed).toNat < 2 ^ 32 := by
  rw [toNat_unpackIndex]
  exact Nat.mod_lt _ (by decide)

@[simp] theorem unpackIndex_unpackIndex (packed : UInt64) :
    unpackIndex (unpackIndex packed) = unpackIndex packed := by
  apply UInt64.toNat_inj.mp
  rw [toNat_unpackIndex, toNat_unpackIndex, Nat.mod_mod]

@[simp] theorem unpackIndex_pack_eq (index : UInt64) (tag : UInt32) :
    unpackIndex (pack index tag) = unpackIndex index := by
  apply UInt64.toNat_inj.mp
  rw [unpackIndex_pack, toNat_unpackIndex]

/-! ## The pool -/

structure Pool (poolMsgCount : ℕ) where
  head_ : UInt64
  nextFree_ : Fin poolMsgCount → UInt64

variable {poolMsgCount : ℕ}

/-- The constructor: `nextFree_[0]` is `0 - 1` in `size_t`. -/
def construct (poolMsgCount : ℕ) : Pool poolMsgCount where
  head_ := pack (UInt64.ofNat poolMsgCount - 1) 0
  nextFree_ := fun i => UInt64.ofNat i.val - 1

/-- The slot which an index names, if it lies in the pool. -/
def slotOf (poolMsgCount : ℕ) (index : UInt64) : Option (Fin poolMsgCount) :=
  if hindex : index.toNat < poolMsgCount then some ⟨index.toNat, hindex⟩
  else none

/-- The first free slot, and the free slot after `slot`: an entry of
`nextFree_` is followed through `pack` and `unpack`. -/
def Pool.headSlot (pool : Pool poolMsgCount) : Option (Fin poolMsgCount) :=
  slotOf poolMsgCount (unpackIndex pool.head_)

def Pool.nextSlot (pool : Pool poolMsgCount) (slot : Fin poolMsgCount) :
    Option (Fin poolMsgCount) :=
  slotOf poolMsgCount (unpackIndex (pool.nextFree_ slot))

/-- The part of `allocate` between obtaining `head_` and exchanging it. -/
inductive NextRead (poolMsgCount : ℕ)
  | exhausted
  | outOfBounds (index : UInt64)
  | next (slot : Fin poolMsgCount) (nextIndex : UInt64)
  deriving DecidableEq, Repr

def Pool.readNext (pool : Pool poolMsgCount) (oldHead : UInt64) :
    NextRead poolMsgCount :=
  if unpackIndex oldHead = -1 then .exhausted
  else
    match slotOf poolMsgCount (unpackIndex oldHead) with
    | none => .outOfBounds (unpackIndex oldHead)
    | some slot => .next slot (pool.nextFree_ slot)

/-- The two exchanges of `head_`, once they succeed. -/
def Pool.pop (pool : Pool poolMsgCount) (oldHead nextIndex : UInt64) :
    Pool poolMsgCount :=
  { pool with head_ := pack nextIndex (unpackTag oldHead + 1) }

def Pool.push (pool : Pool poolMsgCount) (oldHead : UInt64)
    (slot : Fin poolMsgCount) : Pool poolMsgCount :=
  { pool with head_ := pack (UInt64.ofNat slot.val) (unpackTag oldHead + 1) }

/-- `nextFree_[index] = headIndex;` -/
def Pool.writeNext (pool : Pool poolMsgCount) (oldHead : UInt64)
    (slot : Fin poolMsgCount) : Pool poolMsgCount :=
  { pool with
    nextFree_ := Function.update pool.nextFree_ slot (unpackIndex oldHead) }

/-! ## Calls of one thread -/

inductive AllocResult (poolMsgCount : ℕ)
  | message (slot : Fin poolMsgCount)
  | nullptr
  | outOfBounds (index : UInt64)
  deriving DecidableEq, Repr

/-- The loop of `allocate` when its weak exchange fails `spurious` times. -/
def Pool.allocateLoop (pool : Pool poolMsgCount) :
    UInt64 → ℕ → Pool poolMsgCount × AllocResult poolMsgCount
  | oldHead, spurious =>
      match pool.readNext oldHead with
      | .exhausted => (pool, .nullptr)
      | .outOfBounds index => (pool, .outOfBounds index)
      | .next slot nextIndex =>
          match spurious with
          | 0 => (pool.pop oldHead nextIndex, .message slot)
          | spurious + 1 => pool.allocateLoop pool.head_ spurious

def Pool.allocate (pool : Pool poolMsgCount) (spurious : ℕ) :
    Pool poolMsgCount × AllocResult poolMsgCount :=
  pool.allocateLoop pool.head_ spurious

def Pool.deallocateLoop (slot : Fin poolMsgCount) :
    Pool poolMsgCount → UInt64 → ℕ → Pool poolMsgCount
  | pool, oldHead, 0 => (pool.writeNext oldHead slot).push oldHead slot
  | pool, oldHead, spurious + 1 =>
      deallocateLoop slot (pool.writeNext oldHead slot) pool.head_ spurious

/-- A message of the pool, or `nullptr`. -/
def Pool.deallocate (pool : Pool poolMsgCount)
    (msg : Option (Fin poolMsgCount)) (spurious : ℕ) :
    Except String (Pool poolMsgCount) :=
  match msg with
  | none => .error "Cannot deallocate nullptr"
  | some slot => .ok (Pool.deallocateLoop slot pool pool.head_ spurious)

/-! ## Steps of any number of threads -/

/-- Where a thread stands: after its load or failed exchange of `head_`, or
after the access to `nextFree_` that follows. -/
inductive Progress (poolMsgCount : ℕ)
  | idle
  | allocateLoaded (oldHead : UInt64)
  | allocateRead (oldHead : UInt64) (slot : Fin poolMsgCount)
      (nextIndex : UInt64)
  | deallocateLoaded (oldHead : UInt64) (slot : Fin poolMsgCount)
  | deallocateWritten (oldHead : UInt64) (slot : Fin poolMsgCount)
  | outOfBounds (index : UInt64)
  deriving DecidableEq, Repr

/-- `seen` is the number of exchanges when `head_` was last obtained. -/
structure ThreadState (poolMsgCount : ℕ) where
  progress : Progress poolMsgCount
  owned : List (Fin poolMsgCount)
  seen : ℕ
  deriving DecidableEq, Repr

structure State (Thread : Type*) (poolMsgCount : ℕ) where
  pool : Pool poolMsgCount
  threads : Thread → ThreadState poolMsgCount
  exchanges : ℕ

inductive Move (poolMsgCount : ℕ)
  | allocate
  | readNext
  | deallocate (slot : Fin poolMsgCount)
  | writeNext
  | exchange (spurious : Bool)
  deriving DecidableEq, Repr

section Interleaving

variable {Thread : Type*} [DecidableEq Thread]

def initial (Thread : Type*) (poolMsgCount : ℕ) : State Thread poolMsgCount :=
  { pool := construct poolMsgCount
    threads := fun _ => ⟨.idle, [], 0⟩
    exchanges := 0 }

/-- A step that leaves `head_` alone. -/
def State.continue (state : State Thread poolMsgCount) (thread : Thread)
    (local_ : ThreadState poolMsgCount) : State Thread poolMsgCount :=
  { state with threads := Function.update state.threads thread local_ }

/-- A successful exchange of `head_`. -/
def State.exchanged (state : State Thread poolMsgCount) (thread : Thread)
    (pool : Pool poolMsgCount) (owned : List (Fin poolMsgCount)) :
    State Thread poolMsgCount :=
  { pool := pool
    threads := Function.update state.threads thread
      { state.threads thread with progress := .idle, owned := owned }
    exchanges := state.exchanges + 1 }

def step (state : State Thread poolMsgCount) :
    Thread × Move poolMsgCount → Option (State Thread poolMsgCount)
  | (thread, move) =>
      let mine := state.threads thread
      match move, mine.progress with
      | .allocate, .idle =>
          some (state.continue thread { mine with
            progress := .allocateLoaded state.pool.head_
            seen := state.exchanges })
      | .readNext, .allocateLoaded oldHead =>
          match state.pool.readNext oldHead with
          | .exhausted =>
              some (state.continue thread { mine with progress := .idle })
          | .outOfBounds index =>
              some (state.continue thread { mine with
                progress := .outOfBounds index })
          | .next slot nextIndex =>
              some (state.continue thread { mine with
                progress := .allocateRead oldHead slot nextIndex })
      | .exchange spurious, .allocateRead oldHead slot nextIndex =>
          if state.pool.head_ = oldHead ∧ spurious = false then
            some (state.exchanged thread (state.pool.pop oldHead nextIndex)
              (slot :: mine.owned))
          else
            some (state.continue thread { mine with
              progress := .allocateLoaded state.pool.head_
              seen := state.exchanges })
      | .deallocate slot, .idle =>
          some (state.continue thread
            { progress := .deallocateLoaded state.pool.head_ slot
              owned := mine.owned.erase slot
              seen := state.exchanges })
      | .writeNext, .deallocateLoaded oldHead slot =>
          some { state.continue thread { mine with
              progress := .deallocateWritten oldHead slot } with
            pool := state.pool.writeNext oldHead slot }
      | .exchange spurious, .deallocateWritten oldHead slot =>
          if state.pool.head_ = oldHead ∧ spurious = false then
            some (state.exchanged thread (state.pool.push oldHead slot)
              mine.owned)
          else
            some (state.continue thread { mine with
              progress := .deallocateLoaded state.pool.head_ slot
              seen := state.exchanges })
      | _, _ => none

end Interleaving

end LockFreeThreadSafePool
end TradingStudies
