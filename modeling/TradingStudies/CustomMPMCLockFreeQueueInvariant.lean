import TradingStudies.CustomMPMCLockFreeQueue

/-!
# What a cell's number says

A cell is either vacant for the ticket its number names, or full with the
value of the ticket before.  A number only grows, so what a thread has read of
it is a lower bound; at a successful exchange of `head_` or `tail_` the
counters make it exact.

Two threads that have won tickets never share a cell, since the number of the
cell would have to fit both tickets.
-/

namespace TradingStudies
namespace CustomMPMCLockFreeQueue

open RingIndex

variable {Thread Value : Type*} {capacity : ℕ} [NeZero capacity]

/-- The mask picks the place of a ticket. -/
def Masked (capacity : ℕ) [NeZero capacity] : Prop :=
  ∀ pos, cellOf capacity pos = place capacity pos

/-! ## The invariant -/

/-- The cell waits for the enqueue with this ticket. -/
def Vacant (state : State Thread capacity Value) (index : Fin capacity)
    (ticket : ℕ) : Prop :=
  (state.queue.buffer_ index).seq = ticket ∧
    state.queue.head_ ≤ ticket ∧ ticket < state.queue.head_ + capacity

/-- The cell holds the value enqueued with this ticket. -/
def Full (state : State Thread capacity Value) (index : Fin capacity)
    (ticket : ℕ) : Prop :=
  (state.queue.buffer_ index).seq = ticket + 1 ∧
    ticket < state.queue.tail_ ∧ state.queue.tail_ ≤ ticket + capacity ∧
    ∃ producer,
      (producer, ticket, (state.queue.buffer_ index).data) ∈ state.enqueued

def CellOk (state : State Thread capacity Value) (index : Fin capacity) :
    Prop :=
  ∃ ticket, place capacity ticket = index ∧
    (Vacant state index ticket ∨ Full state index ticket)

/-- The ticket a thread has won and not yet published. -/
def Progress.ticket : Progress Value → Option ℕ
  | .enqueueWon _ pos | .enqueueWritten _ pos => some pos
  | .dequeueWon pos | .dequeueRead pos _ => some pos
  | _ => none

def Progress.consuming : Progress Value → Option ℕ
  | .dequeueWon pos | .dequeueRead pos _ => some pos
  | _ => none

theorem Progress.ticket_of_consuming {progress : Progress Value} {pos : ℕ}
    (hconsuming : progress.consuming = some pos) :
    progress.ticket = some pos := by
  cases progress <;> first | exact hconsuming | cases hconsuming

def State.returnedTickets (state : State Thread capacity Value) : List ℕ :=
  state.returned.map fun entry => entry.2.1

/-- What a thread knows in the middle of a call. -/
def Consistent (state : State Thread capacity Value) (thread : Thread) :
    Progress Value → Prop
  | .enqueueReady _ pos => pos ≤ (state.queue.cell pos).seq
  | .enqueueWon ptr pos =>
      (state.queue.cell pos).seq = pos ∧ (thread, pos, ptr) ∈ state.enqueued
  | .enqueueWritten ptr pos =>
      ((state.queue.cell pos).seq = pos ∧
        (thread, pos, ptr) ∈ state.enqueued) ∧
      (state.queue.cell pos).data = ptr
  | .dequeueReady pos => pos + 1 ≤ (state.queue.cell pos).seq
  | .dequeueWon pos =>
      ((state.queue.cell pos).seq = pos + 1 ∧
        (thread, pos) ∈ state.dequeued) ∧
      pos ∉ state.returnedTickets
  | .dequeueRead pos value =>
      (((state.queue.cell pos).seq = pos + 1 ∧
        (thread, pos) ∈ state.dequeued) ∧
      pos ∉ state.returnedTickets) ∧
      ∃ producer, (producer, pos, value) ∈ state.enqueued
  | _ => True

structure QueueInvariant (state : State Thread capacity Value) : Prop where
  order : state.queue.head_ ≤ state.queue.tail_ ∧
    state.queue.tail_ ≤ state.queue.head_ + capacity
  enqueued : state.enqueued.map (fun entry => entry.2.1) =
    List.range state.queue.tail_
  dequeued : state.dequeued.map Prod.snd = List.range state.queue.head_
  cells : ∀ index, CellOk state index
  consistent : ∀ thread, Consistent state thread (state.threads thread)
  returned : ∀ entry ∈ state.returned,
    (entry.1, entry.2.1) ∈ state.dequeued ∧
      ∃ producer, (producer, entry.2) ∈ state.enqueued
  returnedOnce : state.returnedTickets.Nodup
  consumed : ∀ entry ∈ state.dequeued, entry.2 ∈ state.returnedTickets ∨
    (state.threads entry.1).consuming = some entry.2

variable {state next : State Thread capacity Value}

theorem initial_queueInvariant [Inhabited Value] :
    QueueInvariant (initial Thread (fresh capacity Value)) where
  order := ⟨le_rfl, Nat.zero_le _⟩
  enqueued := rfl
  dequeued := rfl
  cells := by
    intro index
    refine ⟨index.val, place_val index, Or.inl ⟨rfl, Nat.zero_le _, ?_⟩⟩
    have hindex := index.isLt
    show index.val < 0 + capacity
    omega
  consistent := fun _ => trivial
  returned := fun _ hentry => absurd hentry List.not_mem_nil
  returnedOnce := List.nodup_nil
  consumed := fun _ hentry => absurd hentry List.not_mem_nil

/-! ## Tickets -/

theorem QueueInvariant.producer_lt (hinv : QueueInvariant state)
    {thread : Thread} {pos : ℕ} {ptr : Value}
    (hmem : (thread, pos, ptr) ∈ state.enqueued) :
    pos < state.queue.tail_ := by
  have hpos : pos ∈ state.enqueued.map (fun entry => entry.2.1) :=
    List.mem_map.mpr ⟨_, hmem, rfl⟩
  rw [hinv.enqueued, List.mem_range] at hpos
  exact hpos

theorem QueueInvariant.producer_unique (hinv : QueueInvariant state)
    {thread thread' : Thread} {pos : ℕ} {ptr ptr' : Value}
    (hmem : (thread, pos, ptr) ∈ state.enqueued)
    (hmem' : (thread', pos, ptr') ∈ state.enqueued) : thread = thread' := by
  have hnodup : (state.enqueued.map (fun entry => entry.2.1)).Nodup := by
    rw [hinv.enqueued]
    exact List.nodup_range
  have heq := List.inj_on_of_nodup_map hnodup hmem hmem' rfl
  exact congrArg Prod.fst heq

theorem QueueInvariant.consumer_lt (hinv : QueueInvariant state)
    {thread : Thread} {pos : ℕ} (hmem : (thread, pos) ∈ state.dequeued) :
    pos < state.queue.head_ := by
  have hpos : pos ∈ state.dequeued.map Prod.snd :=
    List.mem_map.mpr ⟨_, hmem, rfl⟩
  rw [hinv.dequeued, List.mem_range] at hpos
  exact hpos

theorem QueueInvariant.consumer_unique (hinv : QueueInvariant state)
    {thread thread' : Thread} {pos : ℕ}
    (hmem : (thread, pos) ∈ state.dequeued)
    (hmem' : (thread', pos) ∈ state.dequeued) : thread = thread' := by
  have hnodup : (state.dequeued.map Prod.snd).Nodup := by
    rw [hinv.dequeued]
    exact List.nodup_range
  have heq := List.inj_on_of_nodup_map hnodup hmem hmem' rfl
  exact congrArg Prod.fst heq

/-! ## Reading a cell's number -/

theorem Masked.place_eq (hmask : Masked capacity) {first second : ℕ}
    (hcell : cellOf capacity first = cellOf capacity second) :
    place capacity first = place capacity second := by
  rw [← hmask, ← hmask]
  exact hcell

theorem cell_vacant (hmask : Masked capacity) (htwo : 2 ≤ capacity)
    (hinv : QueueInvariant state) {pos : ℕ}
    (hseq : (state.queue.cell pos).seq = pos) :
    Vacant state (cellOf capacity pos) pos := by
  obtain ⟨ticket, hplace, hcell⟩ := hinv.cells (cellOf capacity pos)
  rw [hmask] at hplace
  have hbuffer : (state.queue.buffer_ (cellOf capacity pos)).seq = pos := hseq
  rcases hcell with hvacant | hfull
  · have heq : ticket = pos := hvacant.1.symm.trans hbuffer
    exact heq ▸ hvacant
  · have heq : pos = ticket + 1 := hbuffer.symm.trans hfull.1
    rw [heq] at hplace
    exact absurd hplace.symm (place_succ_ne htwo ticket)

theorem cell_full (hmask : Masked capacity) (htwo : 2 ≤ capacity)
    (hinv : QueueInvariant state) {pos : ℕ}
    (hseq : (state.queue.cell pos).seq = pos + 1) :
    Full state (cellOf capacity pos) pos := by
  rcases hinv.cells (cellOf capacity pos) with ⟨ticket, hplace, hcell⟩
  rw [hmask] at hplace
  have hbuffer : (state.queue.buffer_ (cellOf capacity pos)).seq = pos + 1 :=
    hseq
  rcases hcell with hvacant | hfull
  · have heq : ticket = pos + 1 := hvacant.1.symm.trans hbuffer
    rw [heq] at hplace
    exact absurd hplace (place_succ_ne htwo pos)
  · have heq : ticket = pos := by
      have hsucc := hfull.1.symm.trans hbuffer
      omega
    exact heq ▸ hfull

/-- At the exchange of `tail_` the cell is vacant for the ticket. -/
theorem seq_of_tail (hmask : Masked capacity) (htwo : 2 ≤ capacity)
    (hinv : QueueInvariant state)
    (hready : state.queue.tail_ ≤ (state.queue.cell state.queue.tail_).seq) :
    (state.queue.cell state.queue.tail_).seq = state.queue.tail_ := by
  obtain ⟨ticket, hplace, hcell⟩ :=
    hinv.cells (cellOf capacity state.queue.tail_)
  rw [hmask] at hplace
  rcases hinv.order with ⟨horder, -⟩
  unfold Queue.cell at hready ⊢
  rcases hcell with ⟨hseq, -, hsoon⟩ | ⟨hseq, hdrawn, -⟩
  · rw [hseq] at hready ⊢
    exact (eq_of_place_eq hplace.symm hready (by omega)).symm
  · rw [hseq] at hready
    have heq : state.queue.tail_ = ticket + 1 := by omega
    rw [heq] at hplace
    exact absurd hplace.symm (place_succ_ne htwo ticket)

/-- At the exchange of `head_` the cell is full with the ticket's value. -/
theorem seq_of_head (hmask : Masked capacity) (hinv : QueueInvariant state)
    (hready : state.queue.head_ + 1 ≤
      (state.queue.cell state.queue.head_).seq) :
    (state.queue.cell state.queue.head_).seq = state.queue.head_ + 1 := by
  obtain ⟨ticket, hplace, hcell⟩ :=
    hinv.cells (cellOf capacity state.queue.head_)
  rw [hmask] at hplace
  rcases hinv.order with ⟨-, horder⟩
  unfold Queue.cell at hready ⊢
  rcases hcell with ⟨hseq, -, hsoon⟩ | ⟨hseq, hdrawn, -⟩
  · rw [hseq] at hready
    have heq := eq_of_place_eq hplace.symm (by omega) hsoon
    omega
  · rw [hseq] at hready ⊢
    rw [eq_of_place_eq hplace.symm (by omega) (by omega)]

theorem ticket_cases (hinv : QueueInvariant state) {thread : Thread}
    {pos : ℕ} (hticket : (state.threads thread).ticket = some pos) :
    ((state.queue.cell pos).seq = pos ∧
        ∃ ptr, (thread, pos, ptr) ∈ state.enqueued) ∨
      ((state.queue.cell pos).seq = pos + 1 ∧
        (thread, pos) ∈ state.dequeued) := by
  have hconsistent := hinv.consistent thread
  cases hprogress : state.threads thread with
  | enqueueWon ptr own =>
      rw [hprogress] at hticket hconsistent
      cases hticket
      exact Or.inl ⟨hconsistent.1, ptr, hconsistent.2⟩
  | enqueueWritten ptr own =>
      rw [hprogress] at hticket hconsistent
      cases hticket
      exact Or.inl ⟨hconsistent.1.1, ptr, hconsistent.1.2⟩
  | dequeueWon own =>
      rw [hprogress] at hticket hconsistent
      cases hticket
      exact Or.inr hconsistent.1
  | dequeueRead own value =>
      rw [hprogress] at hticket hconsistent
      cases hticket
      exact Or.inr hconsistent.1.1
  | idle => simp [hprogress, Progress.ticket] at hticket
  | enqueueLoading _ => simp [hprogress, Progress.ticket] at hticket
  | enqueueLoaded _ _ => simp [hprogress, Progress.ticket] at hticket
  | enqueueReady _ _ => simp [hprogress, Progress.ticket] at hticket
  | dequeueLoading => simp [hprogress, Progress.ticket] at hticket
  | dequeueLoaded _ => simp [hprogress, Progress.ticket] at hticket
  | dequeueReady _ => simp [hprogress, Progress.ticket] at hticket

/-- Threads with tickets in one cell are the same thread. -/
theorem thread_of_shared_cell (hmask : Masked capacity) (htwo : 2 ≤ capacity)
    (hinv : QueueInvariant state) {thread thread' : Thread} {pos pos' : ℕ}
    (hticket : (state.threads thread).ticket = some pos)
    (hticket' : (state.threads thread').ticket = some pos')
    (hcell : cellOf capacity pos = cellOf capacity pos') :
    thread = thread' := by
  have hsame : state.queue.cell pos = state.queue.cell pos' := by
    unfold Queue.cell
    rw [hcell]
  have hplace := hmask.place_eq hcell
  rcases ticket_cases hinv hticket with ⟨hseq, ptr, hmem⟩ | ⟨hseq, hmem⟩
  · rcases ticket_cases hinv hticket' with ⟨hseq', ptr', hmem'⟩ | ⟨hseq', -⟩
    · have heq : pos = pos' := by
        rw [← hseq, hsame, hseq']
      subst pos'
      exact hinv.producer_unique hmem hmem'
    · have heq : pos = pos' + 1 := by
        rw [← hseq, hsame, hseq']
      rw [heq] at hplace
      exact absurd hplace (place_succ_ne htwo pos')
  · rcases ticket_cases hinv hticket' with ⟨hseq', -⟩ | ⟨hseq', hmem'⟩
    · have heq : pos + 1 = pos' := by
        rw [← hseq, hsame, hseq']
      rw [← heq] at hplace
      exact absurd hplace.symm (place_succ_ne htwo pos)
    · have heq : pos = pos' := by
        have hsucc : pos + 1 = pos' + 1 := by
          rw [← hseq, hsame, hseq']
        omega
      subst pos'
      exact hinv.consumer_unique hmem hmem'

/-! ## What a step leaves to the other threads -/

/-- A step which raises numbers only, extends the lists, and keeps away from
the cell of this thread's ticket. -/
theorem Consistent.frame {thread : Thread} {progress : Progress Value}
    (hconsistent : Consistent state thread progress)
    (hraise : ∀ pos,
      (state.queue.cell pos).seq ≤ (next.queue.cell pos).seq)
    (henqueued : ∀ entry ∈ state.enqueued, entry ∈ next.enqueued)
    (hdequeued : ∀ entry ∈ state.dequeued, entry ∈ next.dequeued)
    (hcell : ∀ pos, progress.ticket = some pos →
      next.queue.cell pos = state.queue.cell pos)
    (hreturned : ∀ pos, progress.consuming = some pos →
      pos ∈ next.returnedTickets → pos ∈ state.returnedTickets) :
    Consistent next thread progress := by
  cases progress with
  | enqueueReady ptr pos =>
      have hready : pos ≤ (state.queue.cell pos).seq := hconsistent
      exact hready.trans (hraise pos)
  | enqueueWon ptr pos =>
      dsimp only [Consistent] at hconsistent ⊢
      rw [hcell pos rfl]
      exact ⟨hconsistent.1, henqueued _ hconsistent.2⟩
  | enqueueWritten ptr pos =>
      dsimp only [Consistent] at hconsistent ⊢
      rw [hcell pos rfl]
      exact ⟨⟨hconsistent.1.1, henqueued _ hconsistent.1.2⟩, hconsistent.2⟩
  | dequeueReady pos =>
      have hready : pos + 1 ≤ (state.queue.cell pos).seq := hconsistent
      exact hready.trans (hraise pos)
  | dequeueWon pos =>
      dsimp only [Consistent] at hconsistent ⊢
      rw [hcell pos rfl]
      exact ⟨⟨hconsistent.1.1, hdequeued _ hconsistent.1.2⟩,
        fun hmem => hconsistent.2 (hreturned pos rfl hmem)⟩
  | dequeueRead pos value =>
      dsimp only [Consistent] at hconsistent ⊢
      rw [hcell pos rfl]
      obtain ⟨⟨hown, hfresh⟩, producer, hproducer⟩ := hconsistent
      exact ⟨⟨⟨hown.1, hdequeued _ hown.2⟩,
        fun hmem => hfresh (hreturned pos rfl hmem)⟩,
        producer, henqueued _ hproducer⟩
  | idle => trivial
  | enqueueLoading _ => trivial
  | enqueueLoaded _ _ => trivial
  | dequeueLoading => trivial
  | dequeueLoaded _ => trivial

end CustomMPMCLockFreeQueue
end TradingStudies
