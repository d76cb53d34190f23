import TradingStudies.LockFreeThreadSafePool

/-!
# A thread that runs alone on LockFreeThreadSafePool

Wherever the other threads have stopped, a call that goes on alone is over
after a few steps: its exchange can fail once because `head_` is another one
by now, and then only spuriously.  What it does is then what the call does in
one thread, so the two models of the pool agree.  An `allocate` that finds the
free list empty reads out of bounds in both.
-/

namespace TradingStudies
namespace LockFreeThreadSafePool

variable {Thread : Type*} {poolMsgCount : ℕ}

/-- The moves which begin a call. -/
def Move.starts : Move poolMsgCount → Bool
  | .allocate | .deallocate _ => true
  | .readNext | .writeNext | .exchange _ => false

def Move.spurious : Move poolMsgCount → Bool
  | .exchange spurious => spurious
  | _ => false

/-- The steps which the call has before it at most, if no exchange fails
spuriously. -/
def Progress.work (head_ : UInt64) : Progress poolMsgCount → ℕ
  | .idle | .outOfBounds _ => 0
  | .allocateLoaded oldHead | .deallocateLoaded oldHead _ =>
      if oldHead = head_ then 2 else 4
  | .allocateRead oldHead _ _ | .deallocateWritten oldHead _ =>
      if oldHead = head_ then 1 else 3

theorem Progress.work_le (head_ : UInt64) (progress : Progress poolMsgCount) :
    progress.work head_ ≤ 4 := by
  cases progress with
  | idle | outOfBounds _ => exact Nat.zero_le 4
  | allocateLoaded _ | deallocateLoaded _ _ | allocateRead _ _ _
  | deallocateWritten _ _ =>
      dsimp only [Progress.work]
      split <;> omega

/-- The call is over, or has read something that has no meaning. -/
def Progress.halted : Progress poolMsgCount → Bool
  | .idle | .outOfBounds _ => true
  | _ => false

/-- What the thread has read and written is still there. -/
def Progress.Current (pool : Pool poolMsgCount) :
    Progress poolMsgCount → Prop
  | .allocateLoaded oldHead | .deallocateLoaded oldHead _ =>
      oldHead = pool.head_
  | .allocateRead oldHead slot nextIndex =>
      oldHead = pool.head_ ∧ pool.readNext oldHead = .next slot nextIndex
  | .deallocateWritten oldHead slot =>
      oldHead = pool.head_ ∧ pool.nextFree_ slot = unpackIndex oldHead
  | .idle | .outOfBounds _ => True

/-- The pool and the messages of the caller after a call of `allocate`. -/
def allocated (owned : List (Fin poolMsgCount)) :
    Pool poolMsgCount × AllocResult poolMsgCount →
      Pool poolMsgCount × List (Fin poolMsgCount)
  | (pool, .message slot) => (pool, slot :: owned)
  | (pool, .nullptr) => (pool, owned)
  | (pool, .outOfBounds _) => (pool, owned)

/-- The pool and the messages of the thread when its call has gone on to its
end, by the functions that model the calls of one thread. -/
def outcome (pool : Pool poolMsgCount) (mine : ThreadState poolMsgCount) :
    Pool poolMsgCount × List (Fin poolMsgCount) :=
  match mine.progress with
  | .allocateLoaded oldHead =>
      allocated mine.owned (pool.allocateLoop oldHead 0)
  | .allocateRead oldHead slot nextIndex =>
      (pool.pop oldHead nextIndex, slot :: mine.owned)
  | .deallocateLoaded oldHead slot =>
      (Pool.deallocateLoop slot pool oldHead 0, mine.owned)
  | .deallocateWritten oldHead slot => (pool.push oldHead slot, mine.owned)
  | .idle | .outOfBounds _ => (pool, mine.owned)

variable [DecidableEq Thread] {state next : State Thread poolMsgCount}

theorem move_enabled (state : State Thread poolMsgCount) {thread : Thread}
    (hbusy : (state.threads thread).progress.halted = false) :
    ∃ move next, move.starts = false ∧
      step state (thread, move) = some next := by
  cases hprogress : (state.threads thread).progress with
  | idle => simp [hprogress, Progress.halted] at hbusy
  | outOfBounds _ => simp [hprogress, Progress.halted] at hbusy
  | allocateLoaded oldHead =>
      refine ⟨.readNext, ?_⟩
      simp only [Move.starts, step, hprogress]
      split <;> simp
  | allocateRead oldHead slot nextIndex =>
      refine ⟨.exchange false, ?_⟩
      simp only [Move.starts, step, hprogress]
      split <;> simp
  | deallocateLoaded oldHead slot =>
      exact ⟨.writeNext, by simp [Move.starts, step, hprogress]⟩
  | deallocateWritten oldHead slot =>
      refine ⟨.exchange false, ?_⟩
      simp only [Move.starts, step, hprogress]
      split <;> simp

/-- What a step does to the rest of its call. -/
structure DoesPart (state next : State Thread poolMsgCount)
    (thread : Thread) (move : Move poolMsgCount) : Prop where
  work : (next.threads thread).progress.work next.pool.head_ + 1 ≤
    (state.threads thread).progress.work state.pool.head_ +
      if move.spurious then 2 else 0
  outcome : (state.threads thread).progress.Current state.pool →
    (next.threads thread).progress.Current next.pool ∧
      outcome next.pool (next.threads thread) =
        outcome state.pool (state.threads thread)

theorem readNext_doesPart {thread : Thread}
    (hstep : step state (thread, .readNext) = some next) :
    DoesPart state next thread .readNext := by
  cases hprogress : (state.threads thread).progress with
  | allocateLoaded oldHead =>
      simp only [step, hprogress] at hstep
      cases hread : state.pool.readNext oldHead with
      | exhausted =>
          simp only [hread, Option.some.injEq] at hstep
          subst next
          constructor
          · simp only [State.continue, Function.update_self, hprogress,
              Progress.work]
            split <;> omega
          · intro _
            simp [State.continue, outcome, hprogress, Progress.Current,
              Pool.allocateLoop, hread, allocated]
      | outOfBounds index =>
          simp only [hread, Option.some.injEq] at hstep
          subst next
          constructor
          · simp only [State.continue, Function.update_self, hprogress,
              Progress.work]
            split <;> omega
          · intro _
            simp [State.continue, outcome, hprogress, Progress.Current,
              Pool.allocateLoop, hread, allocated]
      | next slot nextIndex =>
          simp only [hread, Option.some.injEq] at hstep
          subst next
          constructor
          · simp only [State.continue, Function.update_self, hprogress,
              Progress.work]
            by_cases hhead : oldHead = state.pool.head_ <;> simp [hhead]
          · intro hcurrent
            rw [hprogress] at hcurrent
            constructor
            · simp only [State.continue, Function.update_self,
                Progress.Current]
              exact ⟨hcurrent, hread⟩
            · simp [State.continue, outcome, hprogress, Pool.allocateLoop,
                hread, allocated]
  | _ => simp [step, hprogress] at hstep

theorem writeNext_doesPart {thread : Thread}
    (hstep : step state (thread, .writeNext) = some next) :
    DoesPart state next thread .writeNext := by
  cases hprogress : (state.threads thread).progress with
  | deallocateLoaded oldHead slot =>
      simp only [step, hprogress, Option.some.injEq] at hstep
      subst next
      constructor
      · simp only [State.continue, Function.update_self, hprogress,
          Progress.work, Pool.writeNext]
        by_cases hhead : oldHead = state.pool.head_ <;> simp [hhead]
      · intro hcurrent
        rw [hprogress] at hcurrent
        have hhead : oldHead = state.pool.head_ := hcurrent
        constructor
        · simp [State.continue, Progress.Current, Pool.writeNext, hhead]
        · simp [State.continue, outcome, hprogress, Pool.deallocateLoop]
  | _ => simp [step, hprogress] at hstep

/-- The exchange succeeds with the `head_` that is there now, unless it fails
spuriously. -/
theorem exchange_doesPart {thread : Thread} {spurious : Bool}
    (hstep : step state (thread, .exchange spurious) = some next) :
    DoesPart state next thread (.exchange spurious) := by
  cases hprogress : (state.threads thread).progress with
  | allocateRead oldHead slot nextIndex =>
      simp only [step, hprogress] at hstep
      by_cases hwon : state.pool.head_ = oldHead ∧ spurious = false
      · rw [if_pos hwon, Option.some.injEq] at hstep
        subst next
        obtain ⟨rfl, rfl⟩ := hwon
        constructor
        · simp [State.exchanged, hprogress, Progress.work]
        · intro _
          simp [State.exchanged, outcome, hprogress, Progress.Current]
      · rw [if_neg hwon, Option.some.injEq] at hstep
        subst next
        constructor
        · cases spurious with
          | true =>
              simp only [State.continue, Function.update_self, hprogress,
                Progress.work, Move.spurious, if_true]
              split <;> omega
          | false =>
              have hother : oldHead ≠ state.pool.head_ :=
                fun heq => hwon ⟨heq.symm, rfl⟩
              simp [State.continue, hprogress, Progress.work, hother]
        · intro hcurrent
          rw [hprogress] at hcurrent
          obtain ⟨rfl, hread⟩ := hcurrent
          constructor
          · simp [State.continue, Progress.Current]
          · simp [State.continue, outcome, hprogress, Pool.allocateLoop,
              hread, allocated]
  | deallocateWritten oldHead slot =>
      simp only [step, hprogress] at hstep
      by_cases hwon : state.pool.head_ = oldHead ∧ spurious = false
      · rw [if_pos hwon, Option.some.injEq] at hstep
        subst next
        obtain ⟨rfl, rfl⟩ := hwon
        constructor
        · simp [State.exchanged, hprogress, Progress.work]
        · intro _
          simp [State.exchanged, outcome, hprogress, Progress.Current]
      · rw [if_neg hwon, Option.some.injEq] at hstep
        subst next
        constructor
        · cases spurious with
          | true =>
              simp only [State.continue, Function.update_self, hprogress,
                Progress.work, Move.spurious, if_true]
              split <;> omega
          | false =>
              have hother : oldHead ≠ state.pool.head_ :=
                fun heq => hwon ⟨heq.symm, rfl⟩
              simp [State.continue, hprogress, Progress.work, hother]
        · intro hcurrent
          rw [hprogress] at hcurrent
          obtain ⟨rfl, hwritten⟩ := hcurrent
          -- The slot is linked as the next attempt will link it again.
          have hagain : state.pool.writeNext state.pool.head_ slot =
              state.pool := by
            rw [Pool.writeNext, ← hwritten, Function.update_eq_self]
          constructor
          · simp [State.continue, Progress.Current]
          · simp [State.continue, outcome, hprogress, Pool.deallocateLoop,
              hagain]
  | _ => simp [step, hprogress] at hstep

theorem alone_doesPart {thread : Thread} {move : Move poolMsgCount}
    (hmove : move.starts = false)
    (hstep : step state (thread, move) = some next) :
    DoesPart state next thread move := by
  cases move with
  | allocate => cases hmove
  | deallocate slot => cases hmove
  | readNext => exact readNext_doesPart hstep
  | writeNext => exact writeNext_doesPart hstep
  | exchange spurious => exact exchange_doesPart hstep

/-- In any state, a thread that goes on alone ends its call within four steps
and two more for each spurious failure of the exchange, or reads out of bounds.
If nothing that the call has read has changed, the pool and the thread's
messages are then what the call makes of them in one thread. -/
theorem lockFreeThreadSafePool_alone (thread : Thread)
    {state last : State Thread poolMsgCount}
    {moves : List (Move poolMsgCount)}
    (hmoves : ∀ move ∈ moves, move.starts = false)
    (hrun : StepSystem.run (fun state move => step state (thread, move)) moves
      state = some last) :
    moves.length ≤ 4 + 2 * moves.countP Move.spurious ∧
      ((last.threads thread).progress.halted = false →
        ∃ move next, move.starts = false ∧
          step last (thread, move) = some next) ∧
      ((state.threads thread).progress.Current state.pool →
        (last.threads thread).progress.halted = true →
          (last.pool, (last.threads thread).owned) =
            outcome state.pool (state.threads thread)) := by
  obtain ⟨houtcome, hwork⟩ := StepSystem.length_add_work_le
    (fun other => (state.threads thread).progress.Current state.pool →
      (other.threads thread).progress.Current other.pool ∧
        outcome other.pool (other.threads thread) =
          outcome state.pool (state.threads thread))
    (fun other => (other.threads thread).progress.work other.pool.head_)
    Move.spurious 2
    (by
      intro other next move hother hmove hstep
      have hpart := alone_doesPart hmove hstep
      refine ⟨?_, hpart.work⟩
      intro hcurrent
      obtain ⟨hnow, hsame⟩ := hother hcurrent
      obtain ⟨hnext, hkept⟩ := hpart.outcome hnow
      exact ⟨hnext, hkept.trans hsame⟩)
    (fun hcurrent => ⟨hcurrent, rfl⟩) hmoves hrun
  refine ⟨?_, move_enabled last, ?_⟩
  · have hle := (state.threads thread).progress.work_le state.pool.head_
    omega
  · intro hcurrent hhalted
    rw [← (houtcome hcurrent).2]
    cases hprogress : (last.threads thread).progress with
    | idle => simp [outcome, hprogress]
    | outOfBounds _ => simp [outcome, hprogress]
    | _ => simp [hprogress, Progress.halted] at hhalted

/-- One thread has stopped in the middle of its `deallocate`; another one
allocates, with a spurious failure. -/
theorem lockFreeThreadSafePool_alone_allocates :
    let actions : List (Bool × Move 3) :=
      [(false, .allocate), (false, .readNext), (false, .exchange false),
        (false, .deallocate 2), (false, .writeNext), (true, .allocate)]
    ∃ state last, StepSystem.run step actions (initial Bool 3) = some state ∧
      StepSystem.run (fun state move => step state (true, move))
        [.readNext, .exchange true, .readNext, .exchange false] state =
          some last ∧
      (last.pool, (last.threads true).owned) =
        allocated [] (state.pool.allocate 0) := by
  intro actions
  have hmoves : ∀ move ∈ ([.readNext, .exchange true, .readNext,
      .exchange false] : List (Move 3)), move.starts = false := by
    decide
  have halone : ∃ state last,
      StepSystem.run step actions (initial Bool 3) = some state ∧
      StepSystem.run (fun state move => step state (true, move))
        [.readNext, .exchange true, .readNext, .exchange false] state =
          some last ∧
      (state.threads true).progress = .allocateLoaded state.pool.head_ ∧
      (state.threads true).owned = [] ∧
      (last.threads true).progress.halted = true :=
    ⟨_, _, rfl, rfl, rfl, rfl, rfl⟩
  obtain ⟨state, last, hrun, hlast, hprogress, howned, hhalted⟩ := halone
  refine ⟨state, last, hrun, hlast, ?_⟩
  have hcurrent : (state.threads true).progress.Current state.pool := by
    rw [hprogress]
    rfl
  rw [(lockFreeThreadSafePool_alone true hmoves hlast).2.2 hcurrent hhalted]
  simp only [outcome, hprogress, howned]
  rfl

end LockFreeThreadSafePool
end TradingStudies
