import TradingStudies.Library.SlotPartition
import TradingStudies.Library.StepSystem

/-!
# The array stack of CustomLockFreePool

The free messages lie in `freeMsgs_[0], ..., freeMsgs_[head_]` and `head_` is
a bare index.  `allocate` reads the top entry before it exchanges `head_`, and
`deallocate` writes the entry above the top before it does.  A message is
written here as its place in the pool.

Nothing ties an exchange to the entry that was read or written: `head_` may
have left and come back.  This file finds the steps at which that matters and
proves exclusive ownership for every run without them.
-/

namespace TradingStudies
namespace CustomLockFreePool

open SlotPartition

/-- `head_` is an `int64_t` between `-1` and the size of a vector. -/
structure Pool (poolMsgCount : ℕ) where
  head_ : ℤ
  freeMsgs_ : List (Fin poolMsgCount)
  deriving DecidableEq, Repr

variable {poolMsgCount : ℕ}

def construct (poolMsgCount : ℕ) : Pool poolMsgCount where
  head_ := poolMsgCount - 1
  freeMsgs_ := List.finRange poolMsgCount

/-- Where a thread stands: after its load or failed exchange of `head_`, or
after the access to `freeMsgs_` that follows. -/
inductive Progress (poolMsgCount : ℕ)
  | idle
  | allocateLoaded (currentHead : ℤ)
  | allocateRead (currentHead : ℤ) (msg : Fin poolMsgCount)
  | deallocateLoaded (currentHead : ℤ) (msg : Fin poolMsgCount)
  | deallocateWritten (currentHead : ℤ) (msg : Fin poolMsgCount)
  | outOfBounds (index : ℤ)
  | threw (what : String)
  deriving DecidableEq, Repr

structure ThreadState (poolMsgCount : ℕ) where
  progress : Progress poolMsgCount
  owned : List (Fin poolMsgCount)
  deriving DecidableEq, Repr

structure State (Thread : Type*) (poolMsgCount : ℕ) where
  pool : Pool poolMsgCount
  threads : Thread → ThreadState poolMsgCount

inductive Move (poolMsgCount : ℕ)
  | allocate
  | readSlot
  | deallocate (msg : Fin poolMsgCount)
  | writeSlot
  | exchange (spurious : Bool)
  deriving DecidableEq, Repr

/-- The loop head of `allocate`; a negative `currentHead` returns `nullptr`. -/
def allocateFrom (currentHead : ℤ) : Progress poolMsgCount :=
  if currentHead ≥ 0 then .allocateLoaded currentHead else .idle

/-- The loop head of `deallocate`; the caller of a failed call keeps its
message. -/
def deallocateFrom (currentHead : ℤ) (msg : Fin poolMsgCount)
    (owned : List (Fin poolMsgCount)) : ThreadState poolMsgCount :=
  if currentHead + 1 ≥ poolMsgCount then
    { progress := .threw "Pool overflow on deallocate", owned := msg :: owned }
  else
    { progress := .deallocateLoaded currentHead msg, owned := owned }

section Interleaving

variable {Thread : Type*} [DecidableEq Thread]

def initial (Thread : Type*) (poolMsgCount : ℕ) : State Thread poolMsgCount :=
  { pool := construct poolMsgCount, threads := fun _ => ⟨.idle, []⟩ }

def State.continue (state : State Thread poolMsgCount) (thread : Thread)
    (pool : Pool poolMsgCount) (mine : ThreadState poolMsgCount) :
    State Thread poolMsgCount :=
  { pool := pool, threads := Function.update state.threads thread mine }

def step (state : State Thread poolMsgCount) :
    Thread × Move poolMsgCount → Option (State Thread poolMsgCount)
  | (thread, move) =>
      let pool := state.pool
      let mine := state.threads thread
      match move, mine.progress with
      | .allocate, .idle =>
          some (state.continue thread pool
            { mine with progress := allocateFrom pool.head_ })
      | .readSlot, .allocateLoaded currentHead =>
          match pool.freeMsgs_[currentHead.toNat]? with
          | none =>
              some (state.continue thread pool
                { mine with progress := .outOfBounds currentHead })
          | some msg =>
              some (state.continue thread pool
                { mine with progress := .allocateRead currentHead msg })
      | .exchange spurious, .allocateRead currentHead msg =>
          if pool.head_ = currentHead ∧ spurious = false then
            some (state.continue thread
              { pool with head_ := currentHead - 1 }
              { progress := .idle, owned := msg :: mine.owned })
          else
            some (state.continue thread pool
              { mine with progress := allocateFrom pool.head_ })
      | .deallocate msg, .idle =>
          some (state.continue thread pool
            (deallocateFrom pool.head_ msg (mine.owned.erase msg)))
      | .writeSlot, .deallocateLoaded currentHead msg =>
          some (state.continue thread
            { pool with
              freeMsgs_ := pool.freeMsgs_.set (currentHead + 1).toNat msg }
            { mine with progress := .deallocateWritten currentHead msg })
      | .exchange spurious, .deallocateWritten currentHead msg =>
          if pool.head_ = currentHead ∧ spurious = false then
            some (state.continue thread
              { pool with head_ := currentHead + 1 }
              { mine with progress := .idle })
          else
            some (state.continue thread pool
              (deallocateFrom pool.head_ msg mine.owned))
      | _, _ => none

end Interleaving

/-! ## Ownership -/

/-- `freeMsgs_[0..head_]`. -/
def Pool.free (pool : Pool poolMsgCount) : List (Fin poolMsgCount) :=
  pool.freeMsgs_.take (pool.head_ + 1).toNat

def Progress.deallocating : Progress poolMsgCount → List (Fin poolMsgCount)
  | .deallocateLoaded _ msg => [msg]
  | .deallocateWritten _ msg => [msg]
  | _ => []

def ThreadState.holds (mine : ThreadState poolMsgCount) :
    List (Fin poolMsgCount) :=
  mine.progress.deallocating ++ mine.owned

variable {Thread : Type*}

/-- Threads deallocate only messages they own. -/
def DeallocatesOwned (state : State Thread poolMsgCount) :
    Thread × Move poolMsgCount → Prop
  | (thread, .deallocate msg) => msg ∈ (state.threads thread).owned
  | _ => True

/-- No message has two owners, and when all calls have finished every message
is free or owned, exactly once. -/
structure Exclusive (state : State Thread poolMsgCount) : Prop where
  exclusive : ∀ thread thread' msg, msg ∈ (state.threads thread).owned →
    msg ∈ (state.threads thread').owned → thread = thread'
  finished : (∀ thread, (state.threads thread).progress = .idle) →
    Partition state.pool.free (fun thread => (state.threads thread).owned)

/-- At a successful exchange the entry at stake still holds the message that
was read there or written there. -/
def Progress.Intact (pool : Pool poolMsgCount) (spurious : Bool) :
    Progress poolMsgCount → Prop
  | .allocateRead currentHead msg =>
      pool.head_ = currentHead ∧ spurious = false →
        pool.freeMsgs_[currentHead.toNat]? = some msg
  | .deallocateWritten currentHead msg =>
      pool.head_ = currentHead ∧ spurious = false →
        pool.freeMsgs_[(currentHead + 1).toNat]? = some msg
  | _ => True

/-- A deallocation writes above the top of the stack. -/
def Progress.WritesAbove (pool : Pool poolMsgCount) :
    Progress poolMsgCount → Prop
  | .deallocateLoaded currentHead _ => pool.head_ < currentHead + 1
  | _ => True

def Undisturbed (state : State Thread poolMsgCount) :
    Thread × Move poolMsgCount → Prop
  | (thread, .exchange spurious) =>
      (state.threads thread).progress.Intact state.pool spurious
  | (thread, .writeSlot) =>
      (state.threads thread).progress.WritesAbove state.pool
  | _ => True

instance (state : State Thread poolMsgCount) :
    ∀ action, Decidable (DeallocatesOwned state action)
  | (_, .deallocate _) => inferInstanceAs (Decidable (_ ∈ _))
  | (_, .allocate) | (_, .readSlot) | (_, .writeSlot) | (_, .exchange _) =>
      inferInstanceAs (Decidable True)

instance (pool : Pool poolMsgCount) (spurious : Bool) :
    ∀ progress : Progress poolMsgCount, Decidable (progress.Intact pool spurious)
  | .allocateRead _ _ | .deallocateWritten _ _ =>
      inferInstanceAs (Decidable (_ → _ = _))
  | .idle | .allocateLoaded _ | .deallocateLoaded _ _ | .outOfBounds _
  | .threw _ => inferInstanceAs (Decidable True)

instance (pool : Pool poolMsgCount) :
    ∀ progress : Progress poolMsgCount, Decidable (progress.WritesAbove pool)
  | .deallocateLoaded _ _ => inferInstanceAs (Decidable (_ < _))
  | .idle | .allocateLoaded _ | .allocateRead _ _ | .deallocateWritten _ _
  | .outOfBounds _ | .threw _ => inferInstanceAs (Decidable True)

instance (state : State Thread poolMsgCount) :
    ∀ action, Decidable (Undisturbed state action)
  | (_, .exchange _) => inferInstanceAs (Decidable (Progress.Intact _ _ _))
  | (_, .writeSlot) => inferInstanceAs (Decidable (Progress.WritesAbove _ _))
  | (_, .allocate) | (_, .readSlot) | (_, .deallocate _) =>
      inferInstanceAs (Decidable True)

end CustomLockFreePool
end TradingStudies
