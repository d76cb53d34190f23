import TradingStudies.CustomMPMCLockFreeQueueTickets

/-!
# A thread that runs alone on CustomMPMCLockFreeQueue

The other threads may have stopped anywhere, also between winning a ticket and
publishing its cell.  A call then takes a bounded number of steps: the counter
that the thread reads is the last one, and the cell of the last ticket is never
ahead of it.

What the call does is settled by that cell.  If it is not ready, the call
answers `false` or `nullptr` although the queue may be neither full nor empty.
-/

namespace TradingStudies
namespace CustomMPMCLockFreeQueue

open RingIndex

variable {Thread Value : Type*} {capacity : ℕ}

/-- The moves which begin a call. -/
def Move.starts : Move Value → Bool
  | .enqueue _ | .dequeue => true
  | _ => false

def Move.spurious : Move Value → Bool
  | .exchange spurious => spurious
  | _ => false

/-- The steps which the call has before it at most, if no exchange fails
spuriously.  A ticket that is not the last one costs a second pass. -/
def Progress.work (queue : Queue capacity Value) : Progress Value → ℕ
  | .idle => 0
  | .enqueueLoading _ => 5
  | .enqueueLoaded _ pos => if pos = queue.tail_ then 4 else 6
  | .enqueueReady _ pos => if pos = queue.tail_ then 3 else 5
  | .enqueueWon _ _ => 2
  | .enqueueWritten _ _ => 1
  | .dequeueLoading => 5
  | .dequeueLoaded pos => if pos = queue.head_ then 4 else 6
  | .dequeueReady pos => if pos = queue.head_ then 3 else 5
  | .dequeueWon _ => 2
  | .dequeueRead _ _ => 1

theorem Progress.work_le (queue : Queue capacity Value)
    (progress : Progress Value) : progress.work queue ≤ 6 := by
  cases progress <;> simp only [Progress.work] <;> first | omega | skip
  all_goals split <;> omega

/-- The thread has read the counter that is there now. -/
def Progress.Current (queue : Queue capacity Value) :
    Progress Value → Prop
  | .enqueueLoaded _ pos | .enqueueReady _ pos => pos = queue.tail_
  | .dequeueLoaded pos | .dequeueReady pos => pos = queue.head_
  | _ => True

variable [NeZero capacity]

/-- What `enqueued` and `returned` are when a call has gone on from
`progress` to its end. -/
def State.outcome (state : State Thread capacity Value) (thread : Thread) :
    Progress Value → List (Thread × ℕ × Value) × List (Thread × ℕ × Value)
  | .enqueueLoading ptr | .enqueueLoaded ptr _ | .enqueueReady ptr _ =>
      if (state.queue.cell state.queue.tail_).seq = state.queue.tail_ then
        (state.enqueued ++ [(thread, state.queue.tail_, ptr)], state.returned)
      else (state.enqueued, state.returned)
  | .dequeueLoading | .dequeueLoaded _ | .dequeueReady _ =>
      let cell := state.queue.cell state.queue.head_
      if cell.seq = state.queue.head_ + 1 then
        (state.enqueued,
          state.returned ++ [(thread, state.queue.head_, cell.data)])
      else (state.enqueued, state.returned)
  | .dequeueWon pos =>
      (state.enqueued,
        state.returned ++ [(thread, pos, (state.queue.cell pos).data)])
  | .dequeueRead pos value =>
      (state.enqueued, state.returned ++ [(thread, pos, value)])
  | .idle | .enqueueWon _ _ | .enqueueWritten _ _ =>
      (state.enqueued, state.returned)

variable {state next : State Thread capacity Value}

/-- The cell of the next ticket is not ahead of `tail_`. -/
theorem seq_le_tail (hmask : Masked capacity) (htwo : 2 ≤ capacity)
    (hinv : QueueInvariant state) :
    (state.queue.cell state.queue.tail_).seq ≤ state.queue.tail_ := by
  by_contra hahead
  have hseq := seq_of_tail hmask htwo hinv (by omega)
  omega

theorem seq_le_head (hmask : Masked capacity) (hinv : QueueInvariant state) :
    (state.queue.cell state.queue.head_).seq ≤ state.queue.head_ + 1 := by
  by_contra hahead
  have hseq := seq_of_head hmask hinv (by omega)
  omega

variable [DecidableEq Thread]

/-- In the middle of a call there is always a next step. -/
theorem move_enabled (state : State Thread capacity Value) {thread : Thread}
    (hbusy : state.threads thread ≠ .idle) :
    ∃ move next, move.starts = false ∧
      step state (thread, move) = some next := by
  cases hprogress : state.threads thread with
  | idle => exact absurd hprogress hbusy
  | enqueueLoading ptr =>
      exact ⟨.load, by simp [Move.starts, step, hprogress]⟩
  | enqueueLoaded ptr pos =>
      refine ⟨.readSeq, ?_⟩
      simp only [Move.starts, step, hprogress]
      split_ifs <;> simp
  | enqueueReady ptr pos =>
      refine ⟨.exchange false, ?_⟩
      simp only [Move.starts, step, hprogress]
      split_ifs <;> simp
  | enqueueWon ptr pos =>
      exact ⟨.access, by simp [Move.starts, step, hprogress]⟩
  | enqueueWritten ptr pos =>
      exact ⟨.publish, by simp [Move.starts, step, hprogress]⟩
  | dequeueLoading =>
      exact ⟨.load, by simp [Move.starts, step, hprogress]⟩
  | dequeueLoaded pos =>
      refine ⟨.readSeq, ?_⟩
      simp only [Move.starts, step, hprogress]
      split_ifs <;> simp
  | dequeueReady pos =>
      refine ⟨.exchange false, ?_⟩
      simp only [Move.starts, step, hprogress]
      split_ifs <;> simp
  | dequeueWon pos =>
      exact ⟨.access, by simp [Move.starts, step, hprogress]⟩
  | dequeueRead pos value =>
      exact ⟨.publish, by simp [Move.starts, step, hprogress]⟩

/-! ## What a step does to the rest of its call -/

structure DoesPart (state next : State Thread capacity Value)
    (thread : Thread) (move : Move Value) : Prop where
  work : (next.threads thread).work next.queue + 1 ≤
    (state.threads thread).work state.queue + if move.spurious then 2 else 0
  outcome : (state.threads thread).Current state.queue →
    (next.threads thread).Current next.queue ∧
      next.outcome thread (next.threads thread) =
        state.outcome thread (state.threads thread)

/-- A step that changes nothing but the thread's own progress. -/
theorem DoesPart.continue {thread : Thread} {move : Move Value}
    {old new : Progress Value} (hprogress : state.threads thread = old)
    (hwork : new.work state.queue + 1 ≤
      old.work state.queue + if move.spurious then 2 else 0)
    (houtcome : old.Current state.queue → new.Current state.queue ∧
      state.outcome thread new = state.outcome thread old) :
    DoesPart state (state.continue thread new) thread move := by
  have hnew : (state.continue thread new).threads thread = new :=
    Function.update_self _ _ _
  constructor
  · rw [hnew, hprogress]
    exact hwork
  · rw [hnew, hprogress]
    exact houtcome

theorem load_doesPart {thread : Thread}
    (hstep : step state (thread, .load) = some next) :
    DoesPart state next thread .load := by
  cases hprogress : state.threads thread with
  | enqueueLoading ptr =>
      simp only [step, hprogress, Option.some.injEq] at hstep
      subst next
      apply DoesPart.continue hprogress
      · simp [Progress.work]
      · intro _
        exact ⟨rfl, rfl⟩
  | dequeueLoading =>
      simp only [step, hprogress, Option.some.injEq] at hstep
      subst next
      apply DoesPart.continue hprogress
      · simp [Progress.work]
      · intro _
        exact ⟨rfl, rfl⟩
  | _ => simp [step, hprogress] at hstep

/-- With the last ticket the cell decides; with an older one the call may have
to load the counter again. -/
theorem readSeq_doesPart (hmask : Masked capacity) (htwo : 2 ≤ capacity)
    (hinv : QueueInvariant state) {thread : Thread}
    (hstep : step state (thread, .readSeq) = some next) :
    DoesPart state next thread .readSeq := by
  have htail := seq_le_tail hmask htwo hinv
  have hhead := seq_le_head hmask hinv
  cases hprogress : state.threads thread with
  | enqueueLoaded ptr pos =>
      simp only [step, hprogress] at hstep
      split_ifs at hstep with hzero hneg
      · cases hstep
        apply DoesPart.continue hprogress
        · simp only [Progress.work, Move.spurious]
          split <;> simp
        · intro hcurrent
          exact ⟨hcurrent, rfl⟩
      · cases hstep
        apply DoesPart.continue hprogress
        · simp only [Progress.work, Move.spurious]
          split <;> simp
        · intro hcurrent
          have hpos : pos = state.queue.tail_ := hcurrent
          subst hpos
          refine ⟨trivial, ?_⟩
          simp only [State.outcome]
          rw [if_neg (by omega)]
      · cases hstep
        have hpos : pos ≠ state.queue.tail_ := by
          intro heq
          subst heq
          omega
        apply DoesPart.continue hprogress
        · simp [Progress.work, hpos]
        · intro hcurrent
          exact absurd hcurrent hpos
  | dequeueLoaded pos =>
      simp only [step, hprogress] at hstep
      split_ifs at hstep with hzero hneg
      · cases hstep
        apply DoesPart.continue hprogress
        · simp only [Progress.work, Move.spurious]
          split <;> simp
        · intro hcurrent
          exact ⟨hcurrent, rfl⟩
      · cases hstep
        apply DoesPart.continue hprogress
        · simp only [Progress.work, Move.spurious]
          split <;> simp
        · intro hcurrent
          have hpos : pos = state.queue.head_ := hcurrent
          subst hpos
          refine ⟨trivial, ?_⟩
          simp only [State.outcome]
          rw [if_neg (by omega)]
      · cases hstep
        have hpos : pos ≠ state.queue.head_ := by
          intro heq
          subst heq
          omega
        apply DoesPart.continue hprogress
        · simp [Progress.work, hpos]
        · intro hcurrent
          exact absurd hcurrent hpos
  | _ => simp [step, hprogress] at hstep

/-- The exchange succeeds with the last ticket, unless it fails
spuriously. -/
theorem exchange_doesPart (hmask : Masked capacity) (htwo : 2 ≤ capacity)
    (hinv : QueueInvariant state) {thread : Thread} {spurious : Bool}
    (hstep : step state (thread, .exchange spurious) = some next) :
    DoesPart state next thread (.exchange spurious) := by
  have hconsistent := hinv.consistent thread
  cases hprogress : state.threads thread with
  | enqueueReady ptr pos =>
      rw [hprogress] at hconsistent
      simp only [step, hprogress] at hstep
      split_ifs at hstep with hwon
      · cases hstep
        obtain ⟨rfl, rfl⟩ := hwon
        have hseq := seq_of_tail hmask htwo hinv hconsistent
        constructor
        · simp [State.continue, hprogress, Progress.work]
        · intro _
          simp [State.continue, State.outcome, hprogress, Progress.Current,
            hseq]
      · cases hstep
        apply DoesPart.continue hprogress
        · cases spurious with
          | true =>
              simp only [Progress.work, Move.spurious, if_true]
              split <;> omega
          | false =>
              have hpos : pos ≠ state.queue.tail_ :=
                fun heq => hwon ⟨heq.symm, rfl⟩
              simp [Progress.work, hpos]
        · intro _
          exact ⟨rfl, rfl⟩
  | dequeueReady pos =>
      rw [hprogress] at hconsistent
      simp only [step, hprogress] at hstep
      split_ifs at hstep with hwon
      · cases hstep
        obtain ⟨rfl, rfl⟩ := hwon
        have hseq := seq_of_head hmask hinv hconsistent
        constructor
        · simp [State.continue, hprogress, Progress.work]
        · intro _
          simp [State.continue, State.outcome, hprogress, Progress.Current,
            hseq]
          rfl
      · cases hstep
        apply DoesPart.continue hprogress
        · cases spurious with
          | true =>
              simp only [Progress.work, Move.spurious, if_true]
              split <;> omega
          | false =>
              have hpos : pos ≠ state.queue.head_ :=
                fun heq => hwon ⟨heq.symm, rfl⟩
              simp [Progress.work, hpos]
        · intro _
          exact ⟨rfl, rfl⟩
  | _ => simp [step, hprogress] at hstep

theorem access_doesPart {thread : Thread}
    (hstep : step state (thread, .access) = some next) :
    DoesPart state next thread .access := by
  cases hprogress : state.threads thread with
  | enqueueWon ptr pos =>
      simp only [step, hprogress, Option.some.injEq] at hstep
      subst next
      constructor
      · simp [State.continue, hprogress, Progress.work]
      · intro _
        simp [State.continue, State.outcome, hprogress, Progress.Current]
  | dequeueWon pos =>
      simp only [step, hprogress, Option.some.injEq] at hstep
      subst next
      apply DoesPart.continue hprogress
      · simp [Progress.work]
      · intro _
        exact ⟨trivial, rfl⟩
  | _ => simp [step, hprogress] at hstep

theorem publish_doesPart {thread : Thread}
    (hstep : step state (thread, .publish) = some next) :
    DoesPart state next thread .publish := by
  cases hprogress : state.threads thread with
  | enqueueWritten ptr pos =>
      simp only [step, hprogress, Option.some.injEq] at hstep
      subst next
      constructor
      · simp [State.continue, hprogress, Progress.work]
      · intro _
        simp [State.continue, State.outcome, hprogress, Progress.Current]
  | dequeueRead pos value =>
      simp only [step, hprogress, Option.some.injEq] at hstep
      subst next
      constructor
      · simp [State.continue, hprogress, Progress.work]
      · intro _
        simp [State.continue, State.outcome, hprogress, Progress.Current]
  | _ => simp [step, hprogress] at hstep

theorem alone_doesPart (hmask : Masked capacity) (htwo : 2 ≤ capacity)
    (hinv : QueueInvariant state) {thread : Thread} {move : Move Value}
    (hmove : move.starts = false)
    (hstep : step state (thread, move) = some next) :
    DoesPart state next thread move := by
  cases move with
  | enqueue ptr => cases hmove
  | dequeue => cases hmove
  | load => exact load_doesPart hstep
  | readSeq => exact readSeq_doesPart hmask htwo hinv hstep
  | exchange spurious => exact exchange_doesPart hmask htwo hinv hstep
  | access => exact access_doesPart hstep
  | publish => exact publish_doesPart hstep

/-- From every state that any interleaving reaches, a thread that goes on
alone ends its call within six steps and two more for each spurious failure of
an exchange, wherever the other threads have stopped.  If the call has read
nothing yet, or nothing that has changed since, an enqueue takes the next
ticket if and only if its cell is vacant for it, and a dequeue returns the
value of the next ticket to take if and only if that has been published. -/
theorem customMPMCLockFreeQueue_alone [Inhabited Value] (exponent : ℕ)
    (hexponent : 1 ≤ exponent) (queue : Queue (2 ^ exponent) Value)
    (hqueue : construct (2 ^ exponent) Value = .ok queue)
    {state last : State Thread (2 ^ exponent) Value} (thread : Thread)
    {moves : List (Move Value)}
    (hreach : StepSystem.Reachable step (fun _ _ => True)
      (initial Thread queue) state)
    (hmoves : ∀ move ∈ moves, move.starts = false)
    (hrun : StepSystem.run (fun state move => step state (thread, move)) moves
      state = some last) :
    moves.length ≤ 6 + 2 * moves.countP Move.spurious ∧
      (last.threads thread ≠ .idle → ∃ move next, move.starts = false ∧
        step last (thread, move) = some next) ∧
      ((state.threads thread).Current state.queue →
        last.threads thread = .idle →
          (last.enqueued, last.returned) =
            state.outcome thread (state.threads thread)) := by
  have hmask : Masked (2 ^ exponent) := cellOf_eq_place exponent
  have htwo : 2 ≤ 2 ^ exponent := by
    calc
      2 = 2 ^ 1 := rfl
      _ ≤ 2 ^ exponent := Nat.pow_le_pow_right (by omega) hexponent
  rw [construct_pow_two, Except.ok.injEq] at hqueue
  subst queue
  have hinv : QueueInvariant state :=
    hreach.invariant initial_queueInvariant
      (fun hinv _ hstep => step_queueInvariant hmask htwo hinv hstep)
  obtain ⟨⟨-, houtcome⟩, hwork⟩ := StepSystem.length_add_work_le
    (fun other => QueueInvariant other ∧
      ((state.threads thread).Current state.queue →
        (other.threads thread).Current other.queue ∧
          other.outcome thread (other.threads thread) =
            state.outcome thread (state.threads thread)))
    (fun other => (other.threads thread).work other.queue) Move.spurious 2
    (by
      intro other next move hother hmove hstep
      have hpart := alone_doesPart hmask htwo hother.1 hmove hstep
      refine ⟨⟨step_queueInvariant hmask htwo hother.1 hstep, ?_⟩, hpart.work⟩
      intro hcurrent
      obtain ⟨hnow, hsame⟩ := hother.2 hcurrent
      obtain ⟨hnext, hkept⟩ := hpart.outcome hnow
      exact ⟨hnext, hkept.trans hsame⟩)
    ⟨hinv, fun hcurrent => ⟨hcurrent, rfl⟩⟩ hmoves hrun
  refine ⟨?_, move_enabled last, ?_⟩
  · have hle := (state.threads thread).work_le state.queue
    omega
  · intro hcurrent hidle
    have hsame := (houtcome hcurrent).2
    rw [hidle] at hsame
    exact hsame

/-- A consumer that has won its ticket stops; the queue of two cells then
refuses a value although only one is stored. -/
theorem customMPMCLockFreeQueue_alone_refused :
    let actions : List (Bool × Move ℕ) :=
      [(false, .enqueue 7), (false, .load), (false, .readSeq),
        (false, .exchange false), (false, .access), (false, .publish),
        (false, .enqueue 8), (false, .load), (false, .readSeq),
        (false, .exchange false), (false, .access), (false, .publish),
        (true, .dequeue), (true, .load), (true, .readSeq),
        (true, .exchange false), (false, .enqueue 9)]
    ∃ state last, StepSystem.run step actions
        (initial Bool (fresh (2 ^ 1) ℕ)) = some state ∧
      StepSystem.run (fun state move => step state (false, move))
        [.load, .readSeq] state = some last ∧
      state.queue.head_ = 1 ∧ state.queue.tail_ = 2 ∧
      (last.enqueued, last.returned) =
        ([(false, 0, 7), (false, 1, 8)], []) := by
  intro actions
  have hallowed : StepSystem.AllAllowed step (fun _ _ => True) actions
      (initial Bool (fresh (2 ^ 1) ℕ)) := by
    decide
  have hmoves : ∀ move ∈ ([.load, .readSeq] : List (Move ℕ)),
      move.starts = false := by
    decide
  have halone : ∃ state last, StepSystem.run step actions
        (initial Bool (fresh (2 ^ 1) ℕ)) = some state ∧
      StepSystem.run (fun state move => step state (false, move))
        [.load, .readSeq] state = some last ∧
      state.queue.head_ = 1 ∧ state.queue.tail_ = 2 ∧
      (state.threads false).Current state.queue ∧
      last.threads false = .idle ∧
      state.outcome false (state.threads false) =
        ([(false, 0, 7), (false, 1, 8)], []) :=
    ⟨_, _, rfl, rfl, rfl, rfl, trivial, rfl, by decide⟩
  obtain ⟨state, last, hrun, hlast, hhead, htail, hcurrent, hidle, hsame⟩ :=
    halone
  refine ⟨state, last, hrun, hlast, hhead, htail, ?_⟩
  rw [← hsame]
  exact (customMPMCLockFreeQueue_alone 1 le_rfl _ (construct_pow_two 1) false
    (StepSystem.reachable_of_run hrun hallowed) hmoves hlast).2.2 hcurrent
      hidle

end CustomMPMCLockFreeQueue
end TradingStudies
