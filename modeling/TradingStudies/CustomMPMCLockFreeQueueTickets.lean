import TradingStudies.CustomMPMCLockFreeQueueInvariant

/-!
# Tickets are served exactly once

Each kind of step keeps the invariant of the cells.  Over whole runs this says
that the tickets on either side are drawn in order and once each, and that a
dequeue returns what the enqueue with the same ticket was given.
-/

namespace TradingStudies
namespace CustomMPMCLockFreeQueue

open RingIndex

variable {Thread Value : Type*} {capacity : ℕ} [NeZero capacity]
  [DecidableEq Thread] {state next : State Thread capacity Value}
  {thread : Thread}

theorem QueueInvariant.consumed_update (hinv : QueueInvariant state)
    {progress : Progress Value} {tickets : List ℕ}
    (hkept : ∀ pos ∈ state.returnedTickets, pos ∈ tickets)
    (hmine : ∀ pos, (state.threads thread).consuming = some pos →
      pos ∈ tickets ∨ progress.consuming = some pos) :
    ∀ entry ∈ state.dequeued, entry.2 ∈ tickets ∨
      (Function.update state.threads thread progress entry.1).consuming =
        some entry.2 := by
  intro entry hentry
  rcases hinv.consumed entry hentry with hreturned | hholds
  · exact Or.inl (hkept _ hreturned)
  · by_cases heq : entry.1 = thread
    · rw [heq, Function.update_self]
      exact hmine _ (heq ▸ hholds)
    · rw [Function.update_of_ne heq]
      exact Or.inr hholds

/-- A step of one thread that changes no shared word. -/
theorem QueueInvariant.continue (hinv : QueueInvariant state)
    {progress : Progress Value}
    (hmine : Consistent state thread progress)
    (hconsuming : ∀ pos, (state.threads thread).consuming = some pos →
      progress.consuming = some pos) :
    QueueInvariant (state.continue thread progress) where
  order := hinv.order
  enqueued := hinv.enqueued
  dequeued := hinv.dequeued
  cells := hinv.cells
  consistent := by
    apply (Function.forall_update_iff state.threads
      (fun other progress => Consistent state other progress)).mpr
    exact ⟨hmine, fun other _ => hinv.consistent other⟩
  returned := hinv.returned
  returnedOnce := hinv.returnedOnce
  consumed := hinv.consumed_update (fun _ hmem => hmem)
    (fun pos hpos => Or.inr (hconsuming pos hpos))

/-- The same for a thread that holds no head ticket. -/
theorem QueueInvariant.advance (hinv : QueueInvariant state)
    (hnone : (state.threads thread).consuming = none)
    {progress : Progress Value}
    (hmine : Consistent state thread progress) :
    QueueInvariant (state.continue thread progress) := by
  apply hinv.continue hmine
  intro pos hpos
  rw [hnone] at hpos
  cases hpos

theorem enqueue_queueInvariant (hinv : QueueInvariant state) {ptr : Value}
    (hstep : step state (thread, .enqueue ptr) = some next) :
    QueueInvariant next := by
  unfold step at hstep
  cases hprogress : state.threads thread <;>
    simp only [hprogress, Option.some.injEq, reduceCtorEq] at hstep
  subst next
  apply hinv.advance
  · rw [hprogress]
    rfl
  · trivial

theorem dequeue_queueInvariant (hinv : QueueInvariant state)
    (hstep : step state (thread, .dequeue) = some next) :
    QueueInvariant next := by
  unfold step at hstep
  cases hprogress : state.threads thread <;>
    simp only [hprogress, Option.some.injEq, reduceCtorEq] at hstep
  subst next
  apply hinv.advance
  · rw [hprogress]
    rfl
  · trivial

theorem load_queueInvariant (hinv : QueueInvariant state)
    (hstep : step state (thread, .load) = some next) :
    QueueInvariant next := by
  unfold step at hstep
  cases hprogress : state.threads thread <;>
    simp only [hprogress, Option.some.injEq, reduceCtorEq] at hstep
  all_goals
    subst next
    apply hinv.advance
    · rw [hprogress]
      rfl
    · trivial

theorem readSeq_queueInvariant (hinv : QueueInvariant state)
    (hstep : step state (thread, .readSeq) = some next) :
    QueueInvariant next := by
  unfold step at hstep
  cases hprogress : state.threads thread <;>
    simp only [hprogress, reduceCtorEq] at hstep
  case enqueueLoaded ptr pos =>
    have hnone : (state.threads thread).consuming = none := by
      rw [hprogress]
      rfl
    by_cases hzero : ((state.queue.cell pos).seq : ℤ) - pos = 0
    · rw [if_pos hzero, Option.some.injEq] at hstep
      subst next
      apply hinv.advance hnone
      show pos ≤ (state.queue.cell pos).seq
      omega
    · by_cases hneg : ((state.queue.cell pos).seq : ℤ) - pos < 0
      · rw [if_neg hzero, if_pos hneg, Option.some.injEq] at hstep
        subst next
        apply hinv.advance hnone
        trivial
      · rw [if_neg hzero, if_neg hneg, Option.some.injEq] at hstep
        subst next
        apply hinv.advance hnone
        trivial
  case dequeueLoaded pos =>
    have hnone : (state.threads thread).consuming = none := by
      rw [hprogress]
      rfl
    by_cases hzero : ((state.queue.cell pos).seq : ℤ) - (pos + 1 : ℕ) = 0
    · rw [if_pos hzero, Option.some.injEq] at hstep
      subst next
      apply hinv.advance hnone
      show pos + 1 ≤ (state.queue.cell pos).seq
      omega
    · by_cases hneg : ((state.queue.cell pos).seq : ℤ) - (pos + 1 : ℕ) < 0
      · rw [if_neg hzero, if_pos hneg, Option.some.injEq] at hstep
        subst next
        apply hinv.advance hnone
        trivial
      · rw [if_neg hzero, if_neg hneg, Option.some.injEq] at hstep
        subst next
        apply hinv.advance hnone
        trivial

/-! ## The exchanges -/

theorem exchange_tail_queueInvariant (hmask : Masked capacity)
    (htwo : 2 ≤ capacity) (hinv : QueueInvariant state) {ptr : Value}
    (hprogress : state.threads thread =
      .enqueueReady ptr state.queue.tail_) :
    QueueInvariant { state.continue thread
        (.enqueueWon ptr state.queue.tail_) with
      queue := { state.queue with tail_ := state.queue.tail_ + 1 }
      enqueued := state.enqueued ++ [(thread, state.queue.tail_, ptr)] } := by
  have hready := hinv.consistent thread
  rw [hprogress] at hready
  have hseq := seq_of_tail hmask htwo hinv hready
  rcases cell_vacant hmask htwo hinv hseq with ⟨-, -, hroom⟩
  have hnone : (state.threads thread).consuming = none := by
    rw [hprogress]
    rfl
  have horder := hinv.order
  refine
    { order := ?_
      enqueued := ?_
      dequeued := hinv.dequeued
      cells := ?_
      consistent := ?_
      returned := ?_
      returnedOnce := hinv.returnedOnce
      consumed := ?_ }
  · dsimp only
    omega
  · dsimp only
    rw [List.map_append, hinv.enqueued, List.range_succ]
    rfl
  · intro index
    rcases hinv.cells index with ⟨ticket, hplace, hcell⟩
    refine ⟨ticket, hplace, ?_⟩
    rcases hcell with hvacant | ⟨hfull, hdrawn, hlast, producer, hmem⟩
    · exact Or.inl hvacant
    · refine Or.inr ⟨hfull, ?_, ?_, producer, ?_⟩
      · dsimp only
        omega
      · -- The new ticket is not that of the next round of this cell.
        have hne : state.queue.tail_ ≠ ticket + capacity := by
          intro heq
          have hsame : cellOf capacity state.queue.tail_ = index := by
            rw [hmask, heq, place_add_capacity, hplace]
          unfold Queue.cell at hseq
          rw [hsame, hfull] at hseq
          omega
        dsimp only
        omega
      · exact List.mem_append_left _ hmem
  · apply (Function.forall_update_iff state.threads
      (fun other progress => Consistent _ other progress)).mpr
    constructor
    · exact ⟨hseq, List.mem_append_right _ (List.mem_singleton_self _)⟩
    · intro other _
      apply (hinv.consistent other).frame
      · exact fun _ => le_rfl
      · exact fun _ hmem => List.mem_append_left _ hmem
      · exact fun _ hmem => hmem
      · exact fun _ _ => rfl
      · exact fun _ _ hmem => hmem
  · intro entry hentry
    rcases hinv.returned entry hentry with ⟨hdequeued, producer, hproducer⟩
    exact ⟨hdequeued, producer, List.mem_append_left _ hproducer⟩
  · apply hinv.consumed_update (fun _ hmem => hmem)
    intro pos hpos
    rw [hnone] at hpos
    cases hpos

theorem exchange_head_queueInvariant (hmask : Masked capacity)
    (htwo : 2 ≤ capacity) (hinv : QueueInvariant state)
    (hprogress : state.threads thread = .dequeueReady state.queue.head_) :
    QueueInvariant { state.continue thread
        (.dequeueWon state.queue.head_) with
      queue := { state.queue with head_ := state.queue.head_ + 1 }
      dequeued := state.dequeued ++ [(thread, state.queue.head_)] } := by
  have hready := hinv.consistent thread
  rw [hprogress] at hready
  have hseq := seq_of_head hmask hinv hready
  obtain ⟨-, hdrawn, -⟩ := cell_full hmask htwo hinv hseq
  have hnone : (state.threads thread).consuming = none := by
    rw [hprogress]
    rfl
  have horder := hinv.order
  refine
    { order := ?_
      enqueued := hinv.enqueued
      dequeued := ?_
      cells := ?_
      consistent := ?_
      returned := ?_
      returnedOnce := hinv.returnedOnce
      consumed := ?_ }
  · dsimp only
    omega
  · dsimp only
    rw [List.map_append, hinv.dequeued, List.range_succ]
    rfl
  · intro index
    rcases hinv.cells index with ⟨ticket, hplace, hcell⟩
    refine ⟨ticket, hplace, ?_⟩
    rcases hcell with ⟨hvacant, hlater, hsoon⟩ | hfull
    · -- The cell of the ticket just drawn is full.
      have hne : ticket ≠ state.queue.head_ := by
        intro heq
        have hsame : cellOf capacity state.queue.head_ = index := by
          rw [hmask, ← heq, hplace]
        unfold Queue.cell at hseq
        rw [hsame, hvacant] at hseq
        omega
      refine Or.inl ⟨hvacant, ?_, ?_⟩
      · dsimp only
        omega
      · dsimp only
        omega
    · exact Or.inr hfull
  · apply (Function.forall_update_iff state.threads
      (fun other progress => Consistent _ other progress)).mpr
    constructor
    · refine ⟨⟨hseq, List.mem_append_right _ (List.mem_singleton_self _)⟩, ?_⟩
      intro hmem
      rcases List.mem_map.mp hmem with ⟨entry, hentry, hpos⟩
      have hlt := hinv.consumer_lt (hinv.returned entry hentry).1
      omega
    · intro other _
      apply (hinv.consistent other).frame
      · exact fun _ => le_rfl
      · exact fun _ hmem => hmem
      · exact fun _ hmem => List.mem_append_left _ hmem
      · exact fun _ _ => rfl
      · exact fun _ _ hmem => hmem
  · intro entry hentry
    rcases hinv.returned entry hentry with ⟨hdequeued, hproducer⟩
    exact ⟨List.mem_append_left _ hdequeued, hproducer⟩
  · intro entry hentry
    rcases List.mem_append.mp hentry with hold | hnew
    · apply hinv.consumed_update (fun _ hmem => hmem) ?_ entry hold
      intro pos hpos
      rw [hnone] at hpos
      cases hpos
    · rw [List.mem_singleton.mp hnew]
      refine Or.inr ?_
      dsimp only [State.continue]
      rw [Function.update_self]
      rfl

theorem exchange_queueInvariant (hmask : Masked capacity)
    (htwo : 2 ≤ capacity) (hinv : QueueInvariant state) {spurious : Bool}
    (hstep : step state (thread, .exchange spurious) = some next) :
    QueueInvariant next := by
  unfold step at hstep
  cases hprogress : state.threads thread <;>
    simp only [hprogress, reduceCtorEq] at hstep
  case enqueueReady ptr pos =>
    by_cases hsuccess : state.queue.tail_ = pos ∧ spurious = false
    · rw [if_pos hsuccess, Option.some.injEq] at hstep
      obtain ⟨rfl, -⟩ := hsuccess
      subst next
      exact exchange_tail_queueInvariant hmask htwo hinv hprogress
    · rw [if_neg hsuccess, Option.some.injEq] at hstep
      subst next
      apply hinv.advance
      · rw [hprogress]
        rfl
      · trivial
  case dequeueReady pos =>
    by_cases hsuccess : state.queue.head_ = pos ∧ spurious = false
    · rw [if_pos hsuccess, Option.some.injEq] at hstep
      rcases hsuccess with ⟨rfl, -⟩
      subst next
      exact exchange_head_queueInvariant hmask htwo hinv hprogress
    · rw [if_neg hsuccess, Option.some.injEq] at hstep
      subst next
      apply hinv.advance
      · rw [hprogress]
        rfl
      · trivial

/-! ## Access and publication -/

omit [DecidableEq Thread] in
/-- The cell of one thread's ticket is not that of another's. -/
theorem QueueInvariant.other_cell (hinv : QueueInvariant state)
    (hmask : Masked capacity) (htwo : 2 ≤ capacity) {pos : ℕ}
    (hmine : (state.threads thread).ticket = some pos) (cell : Cell Value)
    {other : Thread} (hne : other ≠ thread) {pos' : ℕ}
    (hother : (state.threads other).ticket = some pos') :
    (state.queue.setCell pos cell).cell pos' = state.queue.cell pos' := by
  apply Queue.cell_setCell_of_ne
  intro hcell
  exact hne (thread_of_shared_cell hmask htwo hinv hother hmine hcell)

theorem Queue.seq_le_setCell {queue : Queue capacity Value} {pos : ℕ}
    {cell : Cell Value} (hseq : (queue.cell pos).seq ≤ cell.seq)
    (pos' : ℕ) :
    (queue.cell pos').seq ≤ ((queue.setCell pos cell).cell pos').seq := by
  by_cases hcell : cellOf capacity pos' = cellOf capacity pos
  · rw [Queue.cell_setCell_of_eq hcell]
    unfold Queue.cell at hseq ⊢
    rw [hcell]
    exact hseq
  · rw [Queue.cell_setCell_of_ne hcell]

omit [DecidableEq Thread] in
/-- Only the cell of one ticket is written. -/
theorem QueueInvariant.cells_setCell (hinv : QueueInvariant state)
    {next : State Thread capacity Value} {pos : ℕ} {cell : Cell Value}
    (hqueue : next.queue = state.queue.setCell pos cell)
    (henqueued : next.enqueued = state.enqueued)
    (hcell : CellOk next (cellOf capacity pos)) (index : Fin capacity) :
    CellOk next index := by
  by_cases hindex : index = cellOf capacity pos
  · rw [hindex]
    exact hcell
  · have hother := hinv.cells index
    unfold CellOk Vacant Full at hother ⊢
    rw [hqueue, henqueued]
    dsimp only [Queue.setCell]
    rw [Function.update_of_ne hindex]
    exact hother

theorem access_enqueue_queueInvariant (hmask : Masked capacity)
    (htwo : 2 ≤ capacity) (hinv : QueueInvariant state) {ptr : Value}
    {pos : ℕ} (hprogress : state.threads thread = .enqueueWon ptr pos) :
    QueueInvariant { state.continue thread (.enqueueWritten ptr pos) with
      queue := state.queue.setCell pos
        { state.queue.cell pos with data := ptr } } := by
  have hmine := hinv.consistent thread
  rw [hprogress] at hmine
  rcases hmine with ⟨hseq, hmem⟩
  have hvacant := cell_vacant hmask htwo hinv hseq
  have hticket : (state.threads thread).ticket = some pos := by
    rw [hprogress]
    rfl
  refine
    { order := hinv.order
      enqueued := hinv.enqueued
      dequeued := hinv.dequeued
      cells := ?_
      consistent := ?_
      returned := hinv.returned
      returnedOnce := hinv.returnedOnce
      consumed := ?_ }
  · apply hinv.cells_setCell
    · rfl
    · rfl
    · refine ⟨pos, (hmask pos).symm, Or.inl ⟨?_, hvacant.2⟩⟩
      dsimp only [Queue.setCell]
      rw [Function.update_self]
      exact hseq
  · apply (Function.forall_update_iff state.threads
      (fun other progress => Consistent _ other progress)).mpr
    constructor
    · dsimp only [Consistent]
      rw [Queue.cell_setCell_of_eq rfl]
      exact ⟨⟨hseq, hmem⟩, rfl⟩
    · intro other hne
      apply (hinv.consistent other).frame
      · exact Queue.seq_le_setCell le_rfl
      · exact fun _ hentry => hentry
      · exact fun _ hentry => hentry
      · intro pos' hother
        exact hinv.other_cell hmask htwo hticket _ hne hother
      · exact fun _ _ hentry => hentry
  · apply hinv.consumed_update (fun _ hentry => hentry)
    intro pos' hpos'
    rw [hprogress] at hpos'
    cases hpos'

theorem access_queueInvariant (hmask : Masked capacity)
    (htwo : 2 ≤ capacity) (hinv : QueueInvariant state)
    (hstep : step state (thread, .access) = some next) :
    QueueInvariant next := by
  unfold step at hstep
  cases hprogress : state.threads thread <;>
    simp only [hprogress, Option.some.injEq, reduceCtorEq] at hstep
  case enqueueWon ptr pos =>
    subst next
    exact access_enqueue_queueInvariant hmask htwo hinv hprogress
  case dequeueWon pos =>
    subst next
    have hmine := hinv.consistent thread
    rw [hprogress] at hmine
    rcases hmine with ⟨⟨hseq, hmem⟩, hfresh⟩
    obtain ⟨-, -, -, hproducer⟩ := cell_full hmask htwo hinv hseq
    apply hinv.continue
    · exact ⟨⟨⟨hseq, hmem⟩, hfresh⟩, hproducer⟩
    · intro pos' hpos'
      rw [hprogress] at hpos'
      exact hpos'

theorem publish_enqueue_queueInvariant (hmask : Masked capacity)
    (htwo : 2 ≤ capacity) (hinv : QueueInvariant state) {ptr : Value}
    {pos : ℕ} (hprogress : state.threads thread = .enqueueWritten ptr pos) :
    QueueInvariant { state.continue thread .idle with
      queue := state.queue.setCell pos
        { state.queue.cell pos with seq := pos + 1 } } := by
  have hmine := hinv.consistent thread
  rw [hprogress] at hmine
  rcases hmine with ⟨⟨hseq, hmem⟩, hdata⟩
  rcases cell_vacant hmask htwo hinv hseq with ⟨-, hlater, -⟩
  have hdrawn := hinv.producer_lt hmem
  have horder := hinv.order
  have hticket : (state.threads thread).ticket = some pos := by
    rw [hprogress]
    rfl
  refine
    { order := hinv.order
      enqueued := hinv.enqueued
      dequeued := hinv.dequeued
      cells := ?_
      consistent := ?_
      returned := hinv.returned
      returnedOnce := hinv.returnedOnce
      consumed := ?_ }
  · apply hinv.cells_setCell
    · rfl
    · rfl
    · refine ⟨pos, (hmask pos).symm, Or.inr ?_⟩
      unfold Full
      dsimp only [Queue.setCell]
      rw [Function.update_self]
      refine ⟨rfl, hdrawn, by omega, thread, ?_⟩
      dsimp only
      rw [hdata]
      exact hmem
  · apply (Function.forall_update_iff state.threads
      (fun other progress => Consistent _ other progress)).mpr
    constructor
    · trivial
    · intro other hne
      apply (hinv.consistent other).frame
      · apply Queue.seq_le_setCell
        dsimp only
        omega
      · exact fun _ hentry => hentry
      · exact fun _ hentry => hentry
      · intro pos' hother
        exact hinv.other_cell hmask htwo hticket _ hne hother
      · exact fun _ _ hentry => hentry
  · apply hinv.consumed_update (fun _ hentry => hentry)
    intro pos' hpos'
    rw [hprogress] at hpos'
    cases hpos'

theorem publish_dequeue_queueInvariant (hmask : Masked capacity)
    (htwo : 2 ≤ capacity) (hinv : QueueInvariant state) {value : Value}
    {pos : ℕ} (hprogress : state.threads thread = .dequeueRead pos value) :
    QueueInvariant { state.continue thread .idle with
      queue := state.queue.setCell pos
        { state.queue.cell pos with seq := pos + capacity }
      returned := state.returned ++ [(thread, pos, value)] } := by
  have hmine := hinv.consistent thread
  rw [hprogress] at hmine
  rcases hmine with ⟨⟨⟨hseq, hmem⟩, hfresh⟩, producer, hproducer⟩
  obtain ⟨-, -, hlast, -⟩ := cell_full hmask htwo hinv hseq
  have hdrawn := hinv.consumer_lt hmem
  have horder := hinv.order
  have hticket : (state.threads thread).ticket = some pos := by
    rw [hprogress]
    rfl
  have htickets : State.returnedTickets { state.continue thread .idle with
      queue := state.queue.setCell pos
        { state.queue.cell pos with seq := pos + capacity }
      returned := state.returned ++ [(thread, pos, value)] } =
      state.returnedTickets ++ [pos] := by
    unfold State.returnedTickets
    rw [List.map_append]
    rfl
  refine
    { order := hinv.order
      enqueued := hinv.enqueued
      dequeued := hinv.dequeued
      cells := ?_
      consistent := ?_
      returned := ?_
      returnedOnce := ?_
      consumed := ?_ }
  · apply hinv.cells_setCell
    · rfl
    · rfl
    · refine ⟨pos + capacity, ?_, Or.inl ?_⟩
      · rw [place_add_capacity, hmask]
      · unfold Vacant
        dsimp only [Queue.setCell]
        rw [Function.update_self]
        refine ⟨rfl, ?_, ?_⟩
        · omega
        · omega
  · apply (Function.forall_update_iff state.threads
      (fun other progress => Consistent _ other progress)).mpr
    constructor
    · trivial
    · intro other hne
      apply (hinv.consistent other).frame
      · apply Queue.seq_le_setCell
        dsimp only
        omega
      · exact fun _ hentry => hentry
      · exact fun _ hentry => hentry
      · intro pos' hother
        exact hinv.other_cell hmask htwo hticket _ hne hother
      · intro pos' hother hreturned
        rw [htickets] at hreturned
        rcases List.mem_append.mp hreturned with hold | hnew
        · exact hold
        · rw [List.mem_singleton.mp hnew] at hother
          have hsame := thread_of_shared_cell hmask htwo hinv
            (Progress.ticket_of_consuming hother) hticket rfl
          exact absurd hsame hne
  · intro entry hentry
    rcases List.mem_append.mp hentry with hold | hnew
    · exact hinv.returned entry hold
    · rw [List.mem_singleton.mp hnew]
      exact ⟨hmem, producer, hproducer⟩
  · rw [htickets]
    apply List.nodup_append.mpr
    refine ⟨hinv.returnedOnce, List.nodup_singleton pos, ?_⟩
    intro old hold new hnew heq
    rw [heq, List.mem_singleton.mp hnew] at hold
    exact hfresh hold
  · rw [htickets]
    apply hinv.consumed_update
    · exact fun _ hold => List.mem_append_left _ hold
    · intro pos' hpos'
      rw [hprogress] at hpos'
      cases hpos'
      exact Or.inl (List.mem_append_right _ (List.mem_singleton_self pos))

theorem publish_queueInvariant (hmask : Masked capacity)
    (htwo : 2 ≤ capacity) (hinv : QueueInvariant state)
    (hstep : step state (thread, .publish) = some next) :
    QueueInvariant next := by
  unfold step at hstep
  cases hprogress : state.threads thread <;>
    simp only [hprogress, Option.some.injEq, reduceCtorEq] at hstep
  case enqueueWritten ptr pos =>
    subst next
    exact publish_enqueue_queueInvariant hmask htwo hinv hprogress
  case dequeueRead pos value =>
    subst next
    exact publish_dequeue_queueInvariant hmask htwo hinv hprogress

theorem step_queueInvariant (hmask : Masked capacity) (htwo : 2 ≤ capacity)
    (hinv : QueueInvariant state) {action : Thread × Move Value}
    (hstep : step state action = some next) : QueueInvariant next := by
  rcases action with ⟨thread, move⟩
  cases move with
  | enqueue ptr => exact enqueue_queueInvariant hinv hstep
  | dequeue => exact dequeue_queueInvariant hinv hstep
  | load => exact load_queueInvariant hinv hstep
  | readSeq => exact readSeq_queueInvariant hinv hstep
  | exchange spurious => exact exchange_queueInvariant hmask htwo hinv hstep
  | access => exact access_queueInvariant hmask htwo hinv hstep
  | publish => exact publish_queueInvariant hmask htwo hinv hstep

/-! ## Whole runs -/

/-- For every accepted capacity of at least two and every interleaving: each
ticket below the counters was won exactly once, a finished dequeue returned the
value enqueued with its ticket, no ticket was returned twice, a ticket taken by
a dequeue is returned or still in its hands, and the counters are at most the
capacity apart. -/
theorem customMPMCLockFreeQueue_tickets [Inhabited Value] (exponent : ℕ)
    (hexponent : 1 ≤ exponent) (queue : Queue (2 ^ exponent) Value)
    (hqueue : construct (2 ^ exponent) Value = .ok queue)
    {state : State Thread (2 ^ exponent) Value}
    (hreach : StepSystem.Reachable step (fun _ _ => True)
      (initial Thread queue) state) :
    state.enqueued.map (fun entry => entry.2.1) =
        List.range state.queue.tail_ ∧
      state.dequeued.map Prod.snd = List.range state.queue.head_ ∧
      (∀ consumer pos value, (consumer, pos, value) ∈ state.returned →
        (consumer, pos) ∈ state.dequeued ∧
          ∃ producer, (producer, pos, value) ∈ state.enqueued) ∧
      (state.returned.map (fun entry => entry.2.1)).Nodup ∧
      (∀ consumer pos, (consumer, pos) ∈ state.dequeued →
        (∃ other value, (other, pos, value) ∈ state.returned) ∨
          state.threads consumer = .dequeueWon pos ∨
          ∃ value, state.threads consumer = .dequeueRead pos value) ∧
      state.queue.head_ ≤ state.queue.tail_ ∧
      state.queue.tail_ ≤ state.queue.head_ + 2 ^ exponent := by
  have hmask : Masked (2 ^ exponent) := cellOf_eq_place exponent
  have htwo : 2 ≤ 2 ^ exponent := by
    calc
      2 = 2 ^ 1 := rfl
      _ ≤ 2 ^ exponent := Nat.pow_le_pow_right (by omega) hexponent
  rw [construct_pow_two, Except.ok.injEq] at hqueue
  subst queue
  have hinv : QueueInvariant state :=
    hreach.invariant initial_queueInvariant
      (fun hinv _ hstep => step_queueInvariant hmask htwo hinv hstep)
  refine ⟨hinv.enqueued, hinv.dequeued, ?_, hinv.returnedOnce, ?_,
    hinv.order.1, hinv.order.2⟩
  · intro consumer pos value hmem
    exact hinv.returned (consumer, pos, value) hmem
  · intro consumer pos hmem
    rcases hinv.consumed (consumer, pos) hmem with hreturned | hholds
    · obtain ⟨⟨other, ticket, value⟩, hentry, rfl⟩ :=
        List.mem_map.mp hreturned
      exact Or.inl ⟨other, value, hentry⟩
    · refine Or.inr ?_
      cases hprogress : state.threads consumer <;>
        simp only [hprogress, Progress.consuming, Option.some.injEq,
          reduceCtorEq] at hholds
      · rw [hholds]
        exact Or.inl rfl
      · rw [hholds]
        exact Or.inr ⟨_, rfl⟩

/-- A producer is overtaken between its load and its exchange; both values come
out under their tickets. -/
theorem customMPMCLockFreeQueue_overtaken :
    let actions : List (Bool × Move ℕ) :=
      [(false, .enqueue 7), (false, .load), (false, .readSeq),
        (true, .enqueue 8), (true, .load), (true, .readSeq),
        (true, .exchange false), (false, .exchange false),
        (false, .readSeq), (false, .exchange false), (false, .access),
        (false, .publish), (true, .access), (true, .publish),
        (true, .dequeue), (true, .load), (true, .readSeq),
        (true, .exchange false), (true, .access), (true, .publish)]
    ∃ state, StepSystem.run step actions
        (initial Bool (fresh (2 ^ 1) ℕ)) = some state ∧
      state.returned = [(true, 0, 8)] ∧
      state.enqueued.map (fun entry => entry.2.1) =
        List.range state.queue.tail_ := by
  intro actions
  have hallowed : StepSystem.AllAllowed step (fun _ _ => True) actions
      (initial Bool (fresh (2 ^ 1) ℕ)) := by
    decide
  refine ⟨_, rfl, by decide, ?_⟩
  exact (customMPMCLockFreeQueue_tickets 1 le_rfl _ (construct_pow_two 1)
    (StepSystem.reachable_of_run rfl hallowed)).1

end CustomMPMCLockFreeQueue
end TradingStudies
