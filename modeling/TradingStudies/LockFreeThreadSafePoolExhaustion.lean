import TradingStudies.LockFreeThreadSafePoolFreeList

/-!
# Exhaustion, in calls of one thread

The end mark is stored in `nextFree_[0]` as a 64-bit number with all bits set.
`pack` keeps its low 32 bits, so what `unpack` returns is never equal to `-1`
in 64 bits, and `allocate` on an exhausted pool reads `nextFree_` at the index
`0xFFFFFFFF`.  As long as a message is left, the calls are those of a stack of
free slots.
-/

namespace TradingStudies
namespace LockFreeThreadSafePool

open SlotPartition

variable {poolMsgCount : ℕ} {pool : Pool poolMsgCount}
  {free : List (Fin poolMsgCount)}

/-! ## The two loops when no other thread interferes -/

theorem Pool.allocate_of_head {slot : Fin poolMsgCount}
    (hhead : pool.headSlot = some slot) (spurious : ℕ) :
    pool.allocate spurious =
      (pool.pop pool.head_ (pool.nextFree_ slot), .message slot) := by
  have hread := pool.readNext_of_head hhead
  unfold Pool.allocate
  induction spurious with
  | zero =>
      unfold Pool.allocateLoop
      simp only [hread]
  | succ spurious ih =>
      unfold Pool.allocateLoop
      simp only [hread]
      exact ih

theorem Pool.allocate_of_no_head (hhead : pool.headSlot = none)
    (spurious : ℕ) :
    pool.allocate spurious =
      (pool, .outOfBounds (unpackIndex pool.head_)) := by
  have hread := pool.readNext_of_no_head hhead
  unfold Pool.allocate Pool.allocateLoop
  simp only [hread]

theorem Pool.deallocateLoop_eq (slot : Fin poolMsgCount) (spurious : ℕ) :
    Pool.deallocateLoop slot pool pool.head_ spurious =
      (pool.writeNext pool.head_ slot).push pool.head_ slot := by
  induction spurious generalizing pool with
  | zero => rfl
  | succ spurious ih =>
      have hlater : Pool.deallocateLoop slot (pool.writeNext pool.head_ slot)
          pool.head_ spurious =
          ((pool.writeNext pool.head_ slot).writeNext pool.head_ slot).push
            pool.head_ slot := ih
      unfold Pool.deallocateLoop
      rw [hlater]
      unfold Pool.writeNext Pool.push
      simp only [Function.update_idem]

/-! ## Calls and their promised results -/

/-- A pool and the messages that `allocate` has handed out. -/
structure Sequential (poolMsgCount : ℕ) where
  pool : Pool poolMsgCount
  outstanding : List (Fin poolMsgCount)

inductive Call (poolMsgCount : ℕ)
  | allocate (spurious : ℕ)
  | deallocate (msg : Option (Fin poolMsgCount)) (spurious : ℕ)
  deriving DecidableEq, Repr

inductive Outcome (poolMsgCount : ℕ)
  | allocated (result : AllocResult poolMsgCount)
  | deallocated
  | threw (what : String)
  deriving DecidableEq, Repr

namespace Sequential

def start (poolMsgCount : ℕ) : Sequential poolMsgCount :=
  { pool := construct poolMsgCount, outstanding := [] }

def call (state : Sequential poolMsgCount) :
    Call poolMsgCount → Sequential poolMsgCount × Outcome poolMsgCount
  | .allocate spurious =>
      match state.pool.allocate spurious with
      | (pool, .message slot) =>
          ({ pool := pool, outstanding := slot :: state.outstanding },
            .allocated (.message slot))
      | (pool, result) =>
          ({ state with pool := pool }, .allocated result)
  | .deallocate msg spurious =>
      match state.pool.deallocate msg spurious with
      | .error what => (state, .threw what)
      | .ok pool =>
          ({ pool := pool
             outstanding := msg.elim state.outstanding
               state.outstanding.erase },
            .deallocated)

def exhausted (state : Sequential poolMsgCount) : Prop :=
  ∀ slot, slot ∈ state.outstanding

instance (state : Sequential poolMsgCount) : Decidable state.exhausted :=
  inferInstanceAs (Decidable (∀ _, _))

/-- Only outstanding messages are deallocated. -/
def DeallocatesOutstanding (state : Sequential poolMsgCount) :
    Call poolMsgCount → Prop
  | .allocate _ => True
  | .deallocate msg _ => ∃ slot ∈ state.outstanding, msg = some slot

instance (state : Sequential poolMsgCount) :
    ∀ c, Decidable (DeallocatesOutstanding state c)
  | .allocate _ => inferInstanceAs (Decidable True)
  | .deallocate _ _ => inferInstanceAs (Decidable (∃ _ ∈ _, _))

/-- `allocate` is made while a message is left. -/
def AllocatesAvailable (state : Sequential poolMsgCount) :
    Call poolMsgCount → Prop
  | .allocate _ => ¬ state.exhausted
  | .deallocate _ _ => True

/-- `allocate` returns a message that is not outstanding, or `nullptr` when all
are, and reads within bounds. -/
def Correct (state : Sequential poolMsgCount) :
    Call poolMsgCount → Outcome poolMsgCount → Prop
  | .allocate _, .allocated (.message slot) => slot ∉ state.outstanding
  | .allocate _, .allocated .nullptr => state.exhausted
  | .allocate _, _ => False
  | .deallocate _ _, _ => True

/-! ## The invariant -/

def FreeOrOutstanding (state : Sequential poolMsgCount) : Prop :=
  ∃ free, state.pool.Chain free ∧
    Partition free (fun _ : Unit => state.outstanding)

variable {state : Sequential poolMsgCount}

theorem start_freeOrOutstanding (hcount : poolMsgCount ≤ 2 ^ 32 - 1) :
    (start poolMsgCount).FreeOrOutstanding :=
  ⟨_, construct_chain hcount,
    { freeNodup := LinkedSegment.Segment.nodup (construct_chain hcount)
      holdsNodup := fun _ => List.nodup_nil
      notFree := fun _ _ hslot => absurd hslot List.not_mem_nil
      exclusive := fun _ _ _ _ _ => rfl
      cover := fun slot => Or.inl
        ((mem_descending le_rfl slot).mpr slot.isLt) }⟩

theorem exhausted_iff_no_head (hstate : state.FreeOrOutstanding) :
    state.exhausted ↔ state.pool.headSlot = none := by
  rcases hstate with ⟨free, hchain, hpartition⟩
  cases free with
  | nil =>
      have hhead : state.pool.headSlot = none := hchain
      constructor
      · intro _
        exact hhead
      · intro _ slot
        rcases hpartition.cover slot with hfree | ⟨_, hheld⟩
        · exact absurd hfree List.not_mem_nil
        · exact hheld
  | cons slot rest =>
      have hhead : state.pool.headSlot = some slot := hchain.1
      constructor
      · intro hexhausted
        have hfree : slot ∈ slot :: rest := List.mem_cons_self
        exact absurd hfree (hpartition.notFree () slot (hexhausted slot))
      · intro hnone
        rw [hhead] at hnone
        cases hnone

theorem call_allocate_of_head {slot : Fin poolMsgCount}
    (hhead : state.pool.headSlot = some slot) (spurious : ℕ) :
    state.call (.allocate spurious) =
      ({ pool := state.pool.pop state.pool.head_ (state.pool.nextFree_ slot)
         outstanding := slot :: state.outstanding },
        .allocated (.message slot)) := by
  simp only [call, Pool.allocate_of_head hhead]

theorem call_allocate_of_no_head (hhead : state.pool.headSlot = none)
    (spurious : ℕ) :
    state.call (.allocate spurious) =
      (state,
        .allocated (.outOfBounds (unpackIndex state.pool.head_))) := by
  simp only [call, Pool.allocate_of_no_head hhead]

theorem call_deallocate (slot : Fin poolMsgCount) (spurious : ℕ) :
    state.call (.deallocate (some slot) spurious) =
      ({ pool := (state.pool.writeNext state.pool.head_ slot).push
           state.pool.head_ slot
         outstanding := state.outstanding.erase slot }, .deallocated) := by
  simp only [call, Pool.deallocate, Pool.deallocateLoop_eq, Option.elim_some]

theorem call_freeOrOutstanding (hcount : poolMsgCount ≤ 2 ^ 32 - 1)
    (hstate : state.FreeOrOutstanding) {c : Call poolMsgCount}
    (hdeallocates : DeallocatesOutstanding state c) :
    (state.call c).1.FreeOrOutstanding := by
  rcases hstate with ⟨free, hchain, hpartition⟩
  cases c with
  | allocate spurious =>
      cases hhead : state.pool.headSlot with
      | none =>
          rw [call_allocate_of_no_head hhead]
          exact ⟨free, hchain, hpartition⟩
      | some slot =>
          rcases hchain.pop hhead state.pool.head_ with ⟨rest, rfl, hrest⟩
          rw [call_allocate_of_head hhead]
          refine ⟨rest, hrest, ?_⟩
          exact hpartition.exchange_single List.perm_middle
  | deallocate msg spurious =>
      rcases hdeallocates with ⟨slot, hslot, rfl⟩
      have hnotFree := hpartition.notFree () slot hslot
      have hwritten := hchain.writeNext hnotFree state.pool.head_
      have hpushed := hwritten.push hcount
        (Function.update_self _ _ _) state.pool.head_
      rw [call_deallocate]
      refine ⟨slot :: free, hpushed, ?_⟩
      apply hpartition.exchange_single
      refine List.perm_middle.symm.trans ?_
      exact (List.perm_cons_erase hslot).symm.append_left free

/-- A call does what it promises unless it is an `allocate` on an exhausted
pool. -/
theorem correct_iff_allocatesAvailable (hstate : state.FreeOrOutstanding)
    (c : Call poolMsgCount) :
    Correct state c (state.call c).2 ↔ AllocatesAvailable state c := by
  cases c with
  | deallocate msg spurious => exact Iff.rfl
  | allocate spurious =>
      have hexhausted := exhausted_iff_no_head hstate
      rcases hstate with ⟨free, hchain, hpartition⟩
      cases hhead : state.pool.headSlot with
      | none =>
          rw [call_allocate_of_no_head hhead]
          constructor
          · intro hfalse
            exact hfalse.elim
          · intro havailable
            exact havailable (hexhausted.mpr hhead)
      | some slot =>
          rw [call_allocate_of_head hhead]
          constructor
          · intro hfresh hall
            exact hfresh (hall slot)
          · intro _ hslot
            rcases hchain.pop hhead 0 with ⟨rest, rfl, -⟩
            exact hpartition.notFree () slot hslot List.mem_cons_self

/-- In every run the calls of `allocate` are answered as promised if and only
if none of them is made while all messages are outstanding. -/
theorem allocate_detects_exhaustion_iff
    (hcount : poolMsgCount ≤ 2 ^ 32 - 1) {calls : List (Call poolMsgCount)}
    (hcalls : CallSystem.AllAllowed call DeallocatesOutstanding
      (start poolMsgCount) calls) :
    CallSystem.AllAllowed call
        (fun state c => Correct state c (state.call c).2)
        (start poolMsgCount) calls ↔
      CallSystem.AllAllowed call AllocatesAvailable
        (start poolMsgCount) calls := by
  apply CallSystem.allAllowed_congr FreeOrOutstanding
    ?_ ?_ (start_freeOrOutstanding hcount) hcalls
  · intro state c hstate hdeallocates _
    exact call_freeOrOutstanding hcount hstate hdeallocates
  · intro state c hstate _
    exact correct_iff_allocatesAvailable hstate c

instance (state : Sequential poolMsgCount) :
    ∀ c, Decidable (AllocatesAvailable state c)
  | .allocate _ => inferInstanceAs (Decidable (¬ _))
  | .deallocate _ _ => inferInstanceAs (Decidable True)

/-- Two messages, handed out, given back and handed out again. -/
theorem allocate_two_messages :
    CallSystem.AllAllowed call
      (fun state c => Correct state c (state.call c).2) (start 2)
      [.allocate 0, .allocate 1, .deallocate (some 1) 2, .allocate 0] :=
  (allocate_detects_exhaustion_iff (by decide) (by decide)).mpr (by decide)

/-- The second `allocate` from a pool of one message reads out of bounds. -/
theorem allocate_misses_exhaustion :
    ¬ ∀ (poolMsgCount : ℕ) (calls : List (Call poolMsgCount)),
      1 ≤ poolMsgCount → poolMsgCount ≤ 2 ^ 32 - 1 →
      CallSystem.AllAllowed call DeallocatesOutstanding
        (start poolMsgCount) calls →
      CallSystem.AllAllowed call
        (fun state c => Correct state c (state.call c).2)
        (start poolMsgCount) calls := by
  intro hall
  have hboth := hall 1 [.allocate 0, .allocate 0] le_rfl (by decide)
    (by decide)
  exact hboth.2.1

end Sequential
end LockFreeThreadSafePool
end TradingStudies
