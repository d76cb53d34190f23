import TradingStudies.Library.SlotPartition
import TradingStudies.Library.StepSystem

/-!
# The memory pool interface

`MemoryPool<P>` forwards `allocate` and `deallocate` to its backend.  A message
is written here as its place in the pool, so a `MsgPtr` is an
`Option (Fin poolMsgCount)` with `none` for the null pointer.

A backend whose atomic exchange is weak may fail it spuriously and try again.
How often that happens in a call is a number the machine chooses.

The custom pools are all meant to be stacks of free messages.  `ServesStack`
states this for the calls of one thread, and two pools that serve a stack are
shown to answer a careful client alike.
-/

namespace TradingStudies
namespace MemoryPool

open SlotPartition

variable {poolMsgCount : ℕ}

/-- What a call hands back.  `outOfBounds` is an access outside of a vector. -/
inductive Outcome (poolMsgCount : ℕ)
  | message (msg : Fin poolMsgCount)
  | nullptr
  | deallocated
  | threw (what : String)
  | outOfBounds
  deriving DecidableEq, Repr

inductive Call (poolMsgCount : ℕ)
  | allocate
  | deallocate (msg : Option (Fin poolMsgCount))
  deriving DecidableEq, Repr

/-- The concept `MyPool`.  The last argument is the number of spurious failures
of the exchange. -/
structure MyPool (poolMsgCount : ℕ) (Pool : Type*) where
  allocate : Pool → ℕ → Pool × Outcome poolMsgCount
  deallocate : Pool → Option (Fin poolMsgCount) → ℕ →
    Pool × Outcome poolMsgCount

/-- A pool and the messages its client has obtained and not given back. -/
structure Client (poolMsgCount : ℕ) (Pool : Type*) where
  pool : Pool
  outstanding : List (Fin poolMsgCount)

variable {Pool Pool' : Type*}

def Outcome.outstanding (before : List (Fin poolMsgCount)) :
    Call poolMsgCount → Outcome poolMsgCount → List (Fin poolMsgCount)
  | .allocate, .message msg => msg :: before
  | .deallocate (some msg), .deallocated => before.erase msg
  | _, _ => before

/-- The calls of a word are numbered; `retries i` is the number of spurious
failures in call `i`. -/
def MyPool.call (ops : MyPool poolMsgCount Pool) (retries : ℕ → ℕ)
    (client : Client poolMsgCount Pool) :
    Call poolMsgCount × ℕ →
      Client poolMsgCount Pool × Outcome poolMsgCount
  | (.allocate, i) =>
      let (pool, outcome) := ops.allocate client.pool (retries i)
      (⟨pool, outcome.outstanding client.outstanding .allocate⟩, outcome)
  | (.deallocate msg, i) =>
      let (pool, outcome) := ops.deallocate client.pool msg (retries i)
      (⟨pool, outcome.outstanding client.outstanding (.deallocate msg)⟩,
        outcome)

/-- The client deallocates only outstanding messages and never allocates when
all are outstanding. -/
def Careful (client : Client poolMsgCount Pool) :
    Call poolMsgCount × ℕ → Prop
  | (.allocate, _) => ∃ msg, msg ∉ client.outstanding
  | (.deallocate msg, _) => ∃ held ∈ client.outstanding, msg = some held

instance (client : Client poolMsgCount Pool) :
    ∀ c, Decidable (Careful client c)
  | (.allocate, _) => inferInstanceAs (Decidable (∃ _, _))
  | (.deallocate _, _) => inferInstanceAs (Decidable (∃ _ ∈ _, _))

/-- `allocate` returned a message that was not outstanding, `deallocate`
returned normally. -/
def Served (client : Client poolMsgCount Pool) :
    Call poolMsgCount × ℕ → Outcome poolMsgCount → Prop
  | (.allocate, _), outcome =>
      ∃ msg, outcome = .message msg ∧ msg ∉ client.outstanding
  | (.deallocate _, _), outcome => outcome = .deallocated

/-- The client of a newly constructed pool. -/
def Client.start {Pool : Type*} (pool : Pool) : Client poolMsgCount Pool :=
  ⟨pool, []⟩

/-- What a client is handed by a word of calls. -/
def MyPool.answers (ops : MyPool poolMsgCount Pool) (retries : ℕ → ℕ)
    (pool : Pool) (calls : List (Call poolMsgCount)) :
    List (Outcome poolMsgCount) :=
  CallSystem.results (ops.call retries) (Client.start pool) calls.zipIdx

abbrev MyPool.CarefulUse (ops : MyPool poolMsgCount Pool) (retries : ℕ → ℕ)
    (pool : Pool) (calls : List (Call poolMsgCount)) : Prop :=
  CallSystem.AllAllowed (ops.call retries) Careful (Client.start pool)
    calls.zipIdx

def MyPool.Serves (ops : MyPool poolMsgCount Pool) (retries : ℕ → ℕ)
    (pool : Pool) (calls : List (Call poolMsgCount)) : Prop :=
  CallSystem.AllAllowed (ops.call retries)
    (fun client c => Served client c (ops.call retries client c).2)
    (Client.start pool) calls.zipIdx

/-! ## Pools that serve a stack -/

/-- `Holds pool free` says that `pool` stands for the stack `free` of free
messages, top first.  However often the exchange fails, `allocate` takes the
top and `deallocate` pushes. -/
structure ServesStack (ops : MyPool poolMsgCount Pool)
    (Holds : Pool → List (Fin poolMsgCount) → Prop) : Prop where
  allocate : ∀ {pool msg free}, Holds pool (msg :: free) → ∀ retries,
    (ops.allocate pool retries).2 = .message msg ∧
      Holds (ops.allocate pool retries).1 free
  deallocate : ∀ {pool msg free}, Holds pool free → (msg :: free).Nodup →
    ∀ retries, (ops.deallocate pool (some msg) retries).2 = .deallocated ∧
      Holds (ops.deallocate pool (some msg) retries).1 (msg :: free)

/-- Two clients with the same outstanding messages, whose pools stand for the
stack of all other messages. -/
def SameStack (Holds : Pool → List (Fin poolMsgCount) → Prop)
    (Holds' : Pool' → List (Fin poolMsgCount) → Prop)
    (client : Client poolMsgCount Pool)
    (client' : Client poolMsgCount Pool') : Prop :=
  client'.outstanding = client.outstanding ∧
    ∃ free, Holds client.pool free ∧ Holds' client'.pool free ∧
      Partition free (fun _ : Unit => client.outstanding)

variable {ops : MyPool poolMsgCount Pool} {ops' : MyPool poolMsgCount Pool'}
  {Holds : Pool → List (Fin poolMsgCount) → Prop}
  {Holds' : Pool' → List (Fin poolMsgCount) → Prop}
  {client : Client poolMsgCount Pool} {client' : Client poolMsgCount Pool'}

/-- A message that is not outstanding is free, so the stack has a top. -/
theorem top_of_notMem {free : List (Fin poolMsgCount)}
    {outstanding : List (Fin poolMsgCount)}
    (hpartition : Partition free (fun _ : Unit => outstanding))
    {msg : Fin poolMsgCount} (hmsg : msg ∉ outstanding) :
    ∃ top rest, free = top :: rest := by
  cases free with
  | cons top rest => exact ⟨top, rest, rfl⟩
  | nil =>
      rcases hpartition.cover msg with hfree | ⟨_, hheld⟩
      · exact absurd hfree List.not_mem_nil
      · exact absurd hheld hmsg

theorem call_agrees (hserves : ServesStack ops Holds)
    (hserves' : ServesStack ops' Holds') (retries retries' : ℕ → ℕ)
    (hsame : SameStack Holds Holds' client client')
    {c : Call poolMsgCount × ℕ} (hcareful : Careful client c) :
    (ops.call retries client c).2 = (ops'.call retries' client' c).2 ∧
      SameStack Holds Holds' (ops.call retries client c).1
        (ops'.call retries' client' c).1 ∧
      Served client' c (ops'.call retries' client' c).2 := by
  rcases hsame with ⟨houtstanding, free, hholds, hholds', hpartition⟩
  rcases c with ⟨call, i⟩
  cases call with
  | allocate =>
      rcases hcareful with ⟨msg, hmsg⟩
      rcases top_of_notMem hpartition hmsg with ⟨top, rest, rfl⟩
      have htop : top ∉ client.outstanding := by
        intro hheld
        exact hpartition.notFree () top hheld List.mem_cons_self
      rcases hserves.allocate hholds (retries i) with ⟨hanswer, hrest⟩
      rcases hserves'.allocate hholds' (retries' i) with ⟨hanswer', hrest'⟩
      have hexchange : Partition rest
          (fun _ : Unit => top :: client.outstanding) :=
        hpartition.exchange_single List.perm_middle
      simp only [MyPool.call, hanswer, hanswer', Outcome.outstanding]
      refine ⟨trivial, ⟨?_, rest, hrest, hrest', hexchange⟩, top, rfl, ?_⟩
      · rw [houtstanding]
      · rw [houtstanding]
        exact htop
  | deallocate msg =>
      rcases hcareful with ⟨held, hheld, rfl⟩
      have hnodup : (held :: free).Nodup :=
        List.nodup_cons.mpr
          ⟨hpartition.notFree () held hheld, hpartition.freeNodup⟩
      rcases hserves.deallocate hholds hnodup (retries i) with
        ⟨hanswer, hpushed⟩
      rcases hserves'.deallocate hholds' hnodup (retries' i) with
        ⟨hanswer', hpushed'⟩
      have hexchange : Partition (held :: free)
          (fun _ : Unit => client.outstanding.erase held) := by
        apply hpartition.exchange_single
        refine List.perm_middle.symm.trans ?_
        exact (List.perm_cons_erase hheld).symm.append_left free
      simp only [MyPool.call, hanswer, hanswer', Outcome.outstanding]
      refine ⟨trivial, ⟨?_, held :: free, hpushed, hpushed', hexchange⟩, rfl⟩
      rw [houtstanding]

/-- Words of a careful client are answered alike by two pools that stand for
the same stack, and the second one serves each call. -/
theorem run_agrees (hserves : ServesStack ops Holds)
    (hserves' : ServesStack ops' Holds') (retries retries' : ℕ → ℕ)
    (hsame : SameStack Holds Holds' client client')
    {calls : List (Call poolMsgCount × ℕ)}
    (hcareful : CallSystem.AllAllowed (ops.call retries) Careful client
      calls) :
    CallSystem.results (ops.call retries) client calls =
        CallSystem.results (ops'.call retries') client' calls ∧
      CallSystem.AllAllowed (ops'.call retries')
        (fun client c => Served client c (ops'.call retries' client c).2)
        client' calls := by
  constructor
  · apply (CallSystem.simulation Careful (SameStack Holds Holds')
      ?_ hsame hcareful).1
    intro client client' c hrelated hallowed
    have hagrees :=
      call_agrees hserves hserves' retries retries' hrelated hallowed
    exact ⟨hagrees.1, hagrees.2.1⟩
  · apply CallSystem.allAllowed_of_simulation Careful _
      (SameStack Holds Holds') ?_ hsame hcareful
    intro client client' c hrelated hallowed
    have hagrees :=
      call_agrees hserves hserves' retries retries' hrelated hallowed
    exact ⟨hagrees.2.2, hagrees.2.1⟩

/-- The same from two newly constructed pools. -/
theorem construct_agrees (hserves : ServesStack ops Holds)
    (hserves' : ServesStack ops' Holds') (retries retries' : ℕ → ℕ)
    {pool : Pool} {pool' : Pool'} {free : List (Fin poolMsgCount)}
    (hholds : Holds pool free) (hholds' : Holds' pool' free)
    (hpartition : Partition free (fun _ : Unit => []))
    {calls : List (Call poolMsgCount)}
    (hcareful : ops.CarefulUse retries pool calls) :
    ops.answers retries pool calls = ops'.answers retries' pool' calls ∧
      ops'.Serves retries' pool' calls :=
  run_agrees hserves hserves' retries retries'
    ⟨rfl, free, hholds, hholds', hpartition⟩ hcareful

end MemoryPool
end TradingStudies
