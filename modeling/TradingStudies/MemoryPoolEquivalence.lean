import TradingStudies.CustomLockFreePool
import TradingStudies.LockFreeThreadSafePoolExhaustion
import TradingStudies.MemoryPool

/-!
# The custom pools in calls of one thread

`CustomLockedPool` keeps a `std::stack` of pointers, `CustomLockFreePool` an
array whose top is `head_`, `LockFreeThreadSafePool` a chain of indices behind
a packed head.  The three constructors build the same stack, the last message
of the pool on top, and from there on each of them serves it.
-/

namespace TradingStudies

/-! ## CustomLockedPool -/

/-- `freeMsgs_` is a stack of `MsgPtr`, written with its top first. -/
structure CustomLockedPool (poolMsgCount : ℕ) where
  freeMsgs_ : List (Option (Fin poolMsgCount))
  deriving DecidableEq, Repr

namespace CustomLockedPool

variable {poolMsgCount : ℕ}

def construct (poolMsgCount : ℕ) : CustomLockedPool poolMsgCount where
  freeMsgs_ := ((List.finRange poolMsgCount).map some).reverse

/-- Both branches of `allocate`; they differ in the lock only. -/
def allocate (pool : CustomLockedPool poolMsgCount) :
    CustomLockedPool poolMsgCount × MemoryPool.Outcome poolMsgCount :=
  match pool.freeMsgs_ with
  | [] => (pool, .threw "No free messages available in the pool")
  | some msg :: rest => (⟨rest⟩, .message msg)
  | none :: rest => (⟨rest⟩, .nullptr)

/-- `deallocate` pushes whatever it is given, a null pointer included. -/
def deallocate (pool : CustomLockedPool poolMsgCount)
    (msg : Option (Fin poolMsgCount)) :
    CustomLockedPool poolMsgCount × MemoryPool.Outcome poolMsgCount :=
  (⟨msg :: pool.freeMsgs_⟩, .deallocated)

def ops (poolMsgCount : ℕ) :
    MemoryPool.MyPool poolMsgCount (CustomLockedPool poolMsgCount) where
  allocate := fun pool _ => pool.allocate
  deallocate := fun pool msg _ => pool.deallocate msg

def Holds (pool : CustomLockedPool poolMsgCount)
    (free : List (Fin poolMsgCount)) : Prop :=
  pool.freeMsgs_ = free.map some

theorem construct_holds :
    (construct poolMsgCount).Holds (List.finRange poolMsgCount).reverse :=
  List.map_reverse.symm

theorem servesStack : MemoryPool.ServesStack (ops poolMsgCount) Holds where
  allocate := by
    intro pool msg free hholds retries
    have htop : pool.freeMsgs_ = some msg :: free.map some := hholds
    have hallocate : pool.allocate = (⟨free.map some⟩, .message msg) := by
      unfold allocate
      rw [htop]
    have hrest : pool.allocate.1.freeMsgs_ = free.map some := by
      rw [hallocate]
    exact ⟨congrArg Prod.snd hallocate, hrest⟩
  deallocate := by
    intro pool msg free hholds _ retries
    have hpushed : some msg :: pool.freeMsgs_ = (msg :: free).map some :=
      congrArg (some msg :: ·) hholds
    exact ⟨rfl, hpushed⟩

end CustomLockedPool

/-! ## CustomLockFreePool -/

namespace CustomLockFreePool

variable {poolMsgCount : ℕ} {pool : Pool poolMsgCount}
  {free : List (Fin poolMsgCount)} {msg : Fin poolMsgCount}

/-- The loop of `allocate` when its weak exchange fails `spurious` times.  No
other thread moves `head_`, so it fails for no other reason. -/
def Pool.allocateLoop (pool : Pool poolMsgCount) :
    ℤ → ℕ → Pool poolMsgCount × MemoryPool.Outcome poolMsgCount
  | currentHead, spurious =>
      if currentHead ≥ 0 then
        match pool.freeMsgs_[currentHead.toNat]? with
        | none => (pool, .outOfBounds)
        | some msg =>
            match spurious with
            | 0 => ({ pool with head_ := currentHead - 1 }, .message msg)
            | spurious + 1 => pool.allocateLoop pool.head_ spurious
      else (pool, .nullptr)

/-- The loop of `deallocate`, with a write at each turn. -/
def Pool.deallocateLoop (msg : Fin poolMsgCount) :
    Pool poolMsgCount → ℤ → ℕ →
      Pool poolMsgCount × MemoryPool.Outcome poolMsgCount
  | pool, currentHead, spurious =>
      if currentHead + 1 ≥ poolMsgCount then
        (pool, .threw "Pool overflow on deallocate")
      else
        let written := { pool with
          freeMsgs_ := pool.freeMsgs_.set (currentHead + 1).toNat msg }
        match spurious with
        | 0 => ({ written with head_ := currentHead + 1 }, .deallocated)
        | spurious + 1 => deallocateLoop msg written written.head_ spurious

def Pool.deallocate (pool : Pool poolMsgCount)
    (msg : Option (Fin poolMsgCount)) (spurious : ℕ) :
    Pool poolMsgCount × MemoryPool.Outcome poolMsgCount :=
  match msg with
  | none => (pool, .threw "Cannot deallocate a null message")
  | some msg => Pool.deallocateLoop msg pool pool.head_ spurious

def ops (poolMsgCount : ℕ) :
    MemoryPool.MyPool poolMsgCount (Pool poolMsgCount) where
  allocate := fun pool spurious => pool.allocateLoop pool.head_ spurious
  deallocate := Pool.deallocate

/-- The entries up to `head_`, the one at `head_` on top. -/
def Pool.Holds (pool : Pool poolMsgCount) (free : List (Fin poolMsgCount)) :
    Prop :=
  pool.freeMsgs_.length = poolMsgCount ∧
    pool.head_ = (free.length : ℤ) - 1 ∧
      pool.freeMsgs_.take free.length = free.reverse

theorem construct_holds :
    (construct poolMsgCount).Holds (List.finRange poolMsgCount).reverse := by
  have hlength : (List.finRange poolMsgCount).length = poolMsgCount :=
    List.length_finRange
  refine ⟨hlength, ?_, ?_⟩
  · rw [List.length_reverse, hlength]
    rfl
  · rw [List.reverse_reverse, List.length_reverse]
    exact List.take_length

theorem Pool.Holds.top (hholds : pool.Holds (msg :: free)) :
    pool.head_ = (free.length : ℤ) ∧
      pool.freeMsgs_[free.length]? = some msg := by
  rcases hholds with ⟨-, hhead, htake⟩
  constructor
  · rw [hhead, List.length_cons]
    omega
  · have hentry : (pool.freeMsgs_.take (msg :: free).length)[free.length]? =
        (msg :: free).reverse[free.length]? := by
      rw [htake]
    rw [List.getElem?_take_of_lt (by simp), List.reverse_cons,
      List.getElem?_append_right (by simp)] at hentry
    simpa using hentry

theorem Pool.Holds.pop (hholds : pool.Holds (msg :: free)) :
    Pool.Holds { pool with head_ := (free.length : ℤ) - 1 } free := by
  rcases hholds with ⟨hlength, -, htake⟩
  refine ⟨hlength, rfl, ?_⟩
  have hprefix := congrArg (List.take free.length) htake
  rw [List.take_take, List.length_cons, Nat.min_eq_left (by omega),
    List.reverse_cons, List.take_append_of_le_length (by simp)] at hprefix
  simpa [List.take_of_length_le] using hprefix

/-- The entry above the top is written before `head_` moves there. -/
theorem Pool.Holds.write (hholds : pool.Holds free)
    (msg : Fin poolMsgCount) :
    Pool.Holds { pool with
      freeMsgs_ := pool.freeMsgs_.set free.length msg } free := by
  rcases hholds with ⟨hlength, hhead, htake⟩
  refine ⟨by rw [List.length_set, hlength], hhead, ?_⟩
  rw [← htake]
  exact List.take_set_of_le le_rfl

theorem Pool.Holds.push (hholds : pool.Holds free)
    (hroom : free.length < poolMsgCount) (msg : Fin poolMsgCount) :
    Pool.Holds { head_ := (free.length : ℤ),
                 freeMsgs_ := pool.freeMsgs_.set free.length msg }
      (msg :: free) := by
  rcases hholds.write msg with ⟨hlength, -, htake⟩
  refine ⟨hlength, by simp, ?_⟩
  have hbound : free.length < pool.freeMsgs_.length := by
    rw [hholds.1]
    exact hroom
  rw [List.length_cons, List.take_add_one, htake, List.reverse_cons,
    List.getElem?_set_self hbound]
  rfl

theorem allocateLoop_eq (hholds : pool.Holds (msg :: free))
    (spurious : ℕ) :
    pool.allocateLoop pool.head_ spurious =
      ({ pool with head_ := (free.length : ℤ) - 1 }, .message msg) := by
  rcases hholds.top with ⟨hhead, htop⟩
  have hnonneg : (free.length : ℤ) ≥ 0 := Int.natCast_nonneg _
  induction spurious with
  | zero =>
      unfold Pool.allocateLoop
      simp only [hhead, hnonneg, if_true, Int.toNat_natCast, htop]
  | succ spurious ih =>
      unfold Pool.allocateLoop
      simp only [hhead, hnonneg, if_true, Int.toNat_natCast, htop]
      rw [hhead] at ih
      exact ih

theorem deallocateLoop_holds (hholds : pool.Holds free)
    (hroom : free.length < poolMsgCount) (spurious : ℕ) :
    (Pool.deallocateLoop msg pool pool.head_ spurious).2 = .deallocated ∧
      (Pool.deallocateLoop msg pool pool.head_ spurious).1.Holds
        (msg :: free) := by
  induction spurious generalizing pool with
  | zero =>
      have hnext : pool.head_ + 1 = (free.length : ℤ) := by
        rw [hholds.2.1]
        omega
      have hinRange : ¬ (free.length : ℤ) ≥ poolMsgCount := by omega
      unfold Pool.deallocateLoop
      simp only [hnext, hinRange, if_false, Int.toNat_natCast, true_and]
      exact hholds.push hroom msg
  | succ spurious ih =>
      have hnext : pool.head_ + 1 = (free.length : ℤ) := by
        rw [hholds.2.1]
        omega
      have hinRange : ¬ (free.length : ℤ) ≥ poolMsgCount := by omega
      unfold Pool.deallocateLoop
      simp only [hnext, hinRange, if_false, Int.toNat_natCast]
      exact ih (hholds.write msg)

theorem servesStack :
    MemoryPool.ServesStack (ops poolMsgCount) Pool.Holds where
  allocate := by
    intro pool msg free hholds retries
    have hallocate := allocateLoop_eq hholds retries
    have hrest : (pool.allocateLoop pool.head_ retries).1.Holds free := by
      rw [hallocate]
      exact hholds.pop
    exact ⟨congrArg Prod.snd hallocate, hrest⟩
  deallocate := by
    intro pool msg free hholds hnodup retries
    have hbound := hnodup.length_le_card
    rw [Fintype.card_fin, List.length_cons] at hbound
    exact deallocateLoop_holds hholds hbound retries

end CustomLockFreePool

/-! ## LockFreeThreadSafePool -/

namespace LockFreeThreadSafePool

variable {poolMsgCount : ℕ}

def AllocResult.outcome : AllocResult poolMsgCount →
    MemoryPool.Outcome poolMsgCount
  | .message slot => .message slot
  | .nullptr => .nullptr
  | .outOfBounds _ => .outOfBounds

def ops (poolMsgCount : ℕ) :
    MemoryPool.MyPool poolMsgCount (Pool poolMsgCount) where
  allocate := fun pool spurious =>
    ((pool.allocate spurious).1, (pool.allocate spurious).2.outcome)
  deallocate := fun pool msg spurious =>
    match pool.deallocate msg spurious with
    | .error what => (pool, .threw what)
    | .ok next => (next, .deallocated)

theorem val_descending {count : ℕ} (hcount : count ≤ poolMsgCount) :
    (descending poolMsgCount count hcount).map Fin.val =
      (List.range count).reverse := by
  induction count with
  | zero => rfl
  | succ count ih =>
      rw [descending, List.map_cons, ih, List.range_succ,
        List.reverse_append]
      rfl

theorem descending_eq_reverse :
    descending poolMsgCount poolMsgCount le_rfl =
      (List.finRange poolMsgCount).reverse := by
  apply List.map_injective_iff.mpr Fin.val_injective
  rw [val_descending, List.map_reverse, List.map_coe_finRange_eq_range]

theorem servesStack (hcount : poolMsgCount ≤ 2 ^ 32 - 1) :
    MemoryPool.ServesStack (ops poolMsgCount) Pool.Chain where
  allocate := by
    intro pool msg free hchain retries
    have hhead : pool.headSlot = some msg := hchain.1
    have hallocate := Pool.allocate_of_head hhead retries
    rcases hchain.pop hhead pool.head_ with ⟨rest, hsplit, hrest⟩
    cases hsplit
    unfold ops
    simp only [hallocate]
    exact ⟨rfl, hrest⟩
  deallocate := by
    intro pool msg free hchain hnodup retries
    have hwritten :=
      hchain.writeNext (List.nodup_cons.mp hnodup).1 pool.head_
    have hpushed := hwritten.push hcount
      (Function.update_self _ _ _) pool.head_
    unfold ops
    simp only [Pool.deallocate, Pool.deallocateLoop_eq]
    exact ⟨trivial, hpushed⟩

end LockFreeThreadSafePool

/-! ## The three pools side by side -/

namespace MemoryPool

open SlotPartition

variable {poolMsgCount : ℕ}

theorem start_partition (poolMsgCount : ℕ) :
    Partition (List.finRange poolMsgCount).reverse (fun _ : Unit => []) where
  freeNodup := List.nodup_reverse.mpr (List.nodup_finRange poolMsgCount)
  holdsNodup := fun _ => List.nodup_nil
  notFree := fun _ _ hslot => absurd hslot List.not_mem_nil
  exclusive := fun _ _ _ _ _ => rfl
  cover := fun slot =>
    Or.inl (List.mem_reverse.mpr (List.mem_finRange slot))

/-- For every number of spurious failures in each call of the two lock-free
pools, a careful client of the three pools is handed the same messages, and
each call serves it. -/
theorem customPools_sequentially_equivalent
    (hcount : poolMsgCount ≤ 2 ^ 32 - 1) (retries retries' : ℕ → ℕ)
    (calls : List (Call poolMsgCount))
    (hcareful : (CustomLockedPool.ops poolMsgCount).CarefulUse retries
      (CustomLockedPool.construct poolMsgCount) calls) :
    (CustomLockFreePool.ops poolMsgCount).answers retries
          (CustomLockFreePool.construct poolMsgCount) calls =
        (CustomLockedPool.ops poolMsgCount).answers retries
          (CustomLockedPool.construct poolMsgCount) calls ∧
      (LockFreeThreadSafePool.ops poolMsgCount).answers retries'
          (LockFreeThreadSafePool.construct poolMsgCount) calls =
        (CustomLockedPool.ops poolMsgCount).answers retries
          (CustomLockedPool.construct poolMsgCount) calls ∧
      (CustomLockedPool.ops poolMsgCount).Serves retries
        (CustomLockedPool.construct poolMsgCount) calls ∧
      (CustomLockFreePool.ops poolMsgCount).Serves retries
        (CustomLockFreePool.construct poolMsgCount) calls ∧
      (LockFreeThreadSafePool.ops poolMsgCount).Serves retries'
        (LockFreeThreadSafePool.construct poolMsgCount) calls := by
  have hpartition := start_partition poolMsgCount
  have htagged : (LockFreeThreadSafePool.construct poolMsgCount).Chain
      (List.finRange poolMsgCount).reverse := by
    rw [← LockFreeThreadSafePool.descending_eq_reverse]
    exact LockFreeThreadSafePool.construct_chain hcount
  have hlocked := construct_agrees CustomLockedPool.servesStack
    CustomLockedPool.servesStack retries retries
    CustomLockedPool.construct_holds CustomLockedPool.construct_holds
    hpartition hcareful
  have harray := construct_agrees CustomLockedPool.servesStack
    CustomLockFreePool.servesStack retries retries
    CustomLockedPool.construct_holds CustomLockFreePool.construct_holds
    hpartition hcareful
  have hchain := construct_agrees CustomLockedPool.servesStack
    (LockFreeThreadSafePool.servesStack hcount) retries retries'
    CustomLockedPool.construct_holds htagged hpartition hcareful
  exact ⟨harray.1.symm, hchain.1.symm, hlocked.2, harray.2, hchain.2⟩

/-- Three messages, given back in another order and handed out again. -/
theorem customPools_sequentially_equivalent_three :
    (LockFreeThreadSafePool.ops 3).answers (fun i => i)
        (LockFreeThreadSafePool.construct 3)
        [.allocate, .allocate, .deallocate (some 2), .allocate, .allocate,
          .deallocate (some 1), .deallocate (some 0), .allocate] =
      (CustomLockedPool.ops 3).answers (fun _ => 0)
        (CustomLockedPool.construct 3)
        [.allocate, .allocate, .deallocate (some 2), .allocate, .allocate,
          .deallocate (some 1), .deallocate (some 0), .allocate] :=
  (customPools_sequentially_equivalent (by decide) (fun _ => 0) (fun i => i)
    _ (by decide)).2.1

end MemoryPool
end TradingStudies
