import TradingStudies.CustomMPMCLockFreeQueue

/-!
# CustomMPMCLockFreeQueue in one thread

One thread calls `enqueue` and `dequeue` in turn.  The counters and the
sequence numbers are the 64-bit words of the source and wrap; so does the
signed difference that tells a free cell from a filled one.

The weak exchange may fail a number of times before it succeeds, even with
nobody else about.  A call carries that number.

A queue of two cells or more is a bounded FIFO.  With a single cell the number
of a filled cell is already the next ticket, and `enqueue` overwrites it.
-/

namespace TradingStudies
namespace CustomMPMCLockFreeQueue
namespace Sequential

open RingIndex

/-- `data` is a pointer, null before the first use of the cell. -/
structure Cell (Value : Type*) where
  seq : UInt64
  data : Option Value
  deriving DecidableEq, Repr

structure Queue (capacity : ℕ) (Value : Type*) where
  buffer_ : Fin capacity → Cell Value
  head_ : UInt64
  tail_ : UInt64

inductive Call (Value : Type*)
  | enqueue (ptr : Value) (spurious : ℕ)
  | dequeue (spurious : ℕ)
  deriving DecidableEq, Repr

/-- `looping` stands for a call that does not return. -/
inductive Outcome (Value : Type*)
  | accepted (flag : Bool)
  | taken (value : Option Value)
  | looping
  deriving DecidableEq, Repr

variable {capacity : ℕ} {Value : Type*}

def fresh (capacity : ℕ) (Value : Type*) : Queue capacity Value where
  buffer_ := fun i => { seq := UInt64.ofNat i.val, data := none }
  head_ := 0
  tail_ := 0

def construct (capacity : ℕ) (Value : Type*) :
    Except String (Queue capacity Value) :=
  if capacity = 0 ∨ capacity &&& (capacity - 1) ≠ 0 then
    .error "Capacity must be a power of two and greater than zero."
  else
    .ok (fresh capacity Value)

section Operations

variable [NeZero capacity]

/-- `&buffer_[pos & mask_]` -/
def Queue.cell (queue : Queue capacity Value) (pos : UInt64) : Cell Value :=
  queue.buffer_ (cellOf capacity pos.toNat)

def Queue.setCell (queue : Queue capacity Value) (pos : UInt64)
    (cell : Cell Value) : Queue capacity Value :=
  { queue with
    buffer_ :=
      Function.update queue.buffer_ (cellOf capacity pos.toNat) cell }

/-- `static_cast<int64_t>(seq) - static_cast<int64_t>(pos)` -/
def signedDiff (seq pos : UInt64) : Int64 := seq.toInt64 - pos.toInt64

/-- The loop of `enqueue`, for a number of passes. -/
def enqueueLoop (queue : Queue capacity Value) (ptr : Value) :
    ℕ → ℕ → UInt64 → Option (Bool × Queue capacity Value)
  | 0, _, _ => none
  | passes + 1, spurious, pos =>
      let diff := signedDiff (queue.cell pos).seq pos
      if diff = 0 then
        if queue.tail_ = pos ∧ spurious = 0 then
          some (true, { queue.setCell pos { seq := pos + 1, data := some ptr }
            with tail_ := pos + 1 })
        else enqueueLoop queue ptr passes (spurious - 1) queue.tail_
      else if diff < 0 then some (false, queue)
      else enqueueLoop queue ptr passes spurious queue.tail_

/-- A call that has not returned when the exchange can no longer fail never
returns. -/
def enqueue (queue : Queue capacity Value) (ptr : Value) (spurious : ℕ) :
    Option (Bool × Queue capacity Value) :=
  enqueueLoop queue ptr (spurious + 1) spurious queue.tail_

/-- The loop of `dequeue`, for a number of passes. -/
def dequeueLoop (queue : Queue capacity Value) :
    ℕ → ℕ → UInt64 → Option (Option Value × Queue capacity Value)
  | 0, _, _ => none
  | passes + 1, spurious, pos =>
      let cell := queue.cell pos
      let diff := signedDiff cell.seq (pos + 1)
      if diff = 0 then
        if queue.head_ = pos ∧ spurious = 0 then
          some (cell.data,
            { queue.setCell pos
                { cell with seq := pos + UInt64.ofNat capacity }
              with head_ := pos + 1 })
        else dequeueLoop queue passes (spurious - 1) queue.head_
      else if diff < 0 then some (none, queue)
      else dequeueLoop queue passes spurious queue.head_

def dequeue (queue : Queue capacity Value) (spurious : ℕ) :
    Option (Option Value × Queue capacity Value) :=
  dequeueLoop queue (spurious + 1) spurious queue.head_

def call (queue : Queue capacity Value) :
    Call Value → Queue capacity Value × Outcome Value
  | .enqueue ptr spurious =>
      match enqueue queue ptr spurious with
      | none => (queue, .looping)
      | some (flag, queue) => (queue, .accepted flag)
  | .dequeue spurious =>
      match dequeue queue spurious with
      | none => (queue, .looping)
      | some (value, queue) => (queue, .taken value)

end Operations

/-! ## The loops -/

section Loops

variable [NeZero capacity] {queue : Queue capacity Value}

/-- The number of the ticket: the exchange succeeds once it no longer fails
spuriously. -/
theorem enqueueLoop_of_zero {ptr : Value}
    (hdiff : signedDiff (queue.cell queue.tail_).seq queue.tail_ = 0)
    {passes spurious : ℕ} (hpasses : spurious < passes) :
    enqueueLoop queue ptr passes spurious queue.tail_ =
      some (true, { queue.setCell queue.tail_
          { seq := queue.tail_ + 1, data := some ptr } with
        tail_ := queue.tail_ + 1 }) := by
  induction passes generalizing spurious with
  | zero => omega
  | succ passes ih =>
      cases spurious with
      | zero => simp [enqueueLoop, hdiff]
      | succ spurious =>
          have hlater : enqueueLoop queue ptr passes spurious queue.tail_ = _ :=
            ih (by omega)
          simpa [enqueueLoop, hdiff] using hlater

theorem enqueueLoop_of_neg {ptr : Value}
    (hdiff : signedDiff (queue.cell queue.tail_).seq queue.tail_ < 0)
    (passes spurious : ℕ) :
    enqueueLoop queue ptr (passes + 1) spurious queue.tail_ =
      some (false, queue) := by
  simp [enqueueLoop, Int64.ne_of_lt hdiff, hdiff]

theorem dequeueLoop_of_zero
    (hdiff : signedDiff (queue.cell queue.head_).seq (queue.head_ + 1) = 0)
    {passes spurious : ℕ} (hpasses : spurious < passes) :
    dequeueLoop queue passes spurious queue.head_ =
      some ((queue.cell queue.head_).data,
        { queue.setCell queue.head_
            { queue.cell queue.head_ with
              seq := queue.head_ + UInt64.ofNat capacity }
          with head_ := queue.head_ + 1 }) := by
  induction passes generalizing spurious with
  | zero => omega
  | succ passes ih =>
      cases spurious with
      | zero => simp [dequeueLoop, hdiff]
      | succ spurious =>
          have hlater : dequeueLoop queue passes spurious queue.head_ = _ :=
            ih (by omega)
          simpa [dequeueLoop, hdiff] using hlater

theorem dequeueLoop_of_neg
    (hdiff : signedDiff (queue.cell queue.head_).seq (queue.head_ + 1) < 0)
    (passes spurious : ℕ) :
    dequeueLoop queue (passes + 1) spurious queue.head_ =
      some (none, queue) := by
  simp [dequeueLoop, Int64.ne_of_lt hdiff, hdiff]

end Loops

/-! ## The cells and what they hold -/

/-- A bounded first-in-first-out queue; the front of the list is the oldest
value. -/
def boundedFifo (capacity : ℕ) (stored : List Value) :
    Call Value → List Value × Outcome Value
  | .enqueue ptr _ =>
      if stored.length < capacity then (stored ++ [ptr], .accepted true)
      else (stored, .accepted false)
  | .dequeue _ =>
      match stored with
      | [] => ([], .taken none)
      | value :: rest => (rest, .taken (some value))

/-- With a single cell, nothing is enqueued while a value is stored. -/
def NotOverwriting (capacity : ℕ) (stored : List Value) : Call Value → Prop
  | .enqueue _ _ => 2 ≤ capacity ∨ stored = []
  | .dequeue _ => True

instance (capacity : ℕ) (stored : List Value) :
    ∀ c : Call Value, Decidable (NotOverwriting capacity stored c)
  | .enqueue _ _ =>
      have : Decidable (stored = []) :=
        decidable_of_iff (stored.isEmpty = true) List.isEmpty_iff
      inferInstanceAs (Decidable (2 ≤ capacity ∨ stored = []))
  | .dequeue _ => inferInstanceAs (Decidable True)

/-- `head` counts the values dequeued so far.  The cells from there on are
filled, and the others wait for their tickets. -/
structure Represents [NeZero capacity] (queue : Queue capacity Value)
    (head : ℕ) (stored : List Value) : Prop where
  headWord : queue.head_ = UInt64.ofNat head
  tailWord : queue.tail_ = UInt64.ofNat (head + stored.length)
  bounded : stored.length ≤ capacity
  filled : ∀ i (hi : i < stored.length),
    queue.buffer_ (place capacity (head + i)) =
      { seq := UInt64.ofNat (head + i + 1), data := some stored[i] }
  vacant : ∀ i, stored.length ≤ i → i < capacity →
    (queue.buffer_ (place capacity (head + i))).seq = UInt64.ofNat (head + i)

theorem signedDiff_ofNat (first second : ℕ) :
    signedDiff (UInt64.ofNat first) (UInt64.ofNat second) =
      Int64.ofInt ((first : ℤ) - second) := by
  rw [signedDiff, UInt64.toInt64_ofNat', UInt64.toInt64_ofNat',
    Int64.ofInt_sub]
  rfl

/-- A difference that fits is not changed by the wrap-around of the two
numbers. -/
theorem signedDiff_neg {first second : ℕ} (hlt : first < second)
    (hfits : second ≤ first + 2 ^ 63) :
    signedDiff (UInt64.ofNat first) (UInt64.ofNat second) < 0 := by
  rw [signedDiff_ofNat, Int64.lt_iff_toInt_lt,
    Int64.toInt_ofInt_of_le (by omega) (by omega)]
  have hzero : (0 : Int64).toInt = 0 := by decide
  omega

theorem signedDiff_self (word : UInt64) : signedDiff word word = 0 := by
  simp [signedDiff]

section Cells

variable {exponent : ℕ} {queue : Queue (2 ^ exponent) Value}
  {head : ℕ} {stored : List Value}

/-- The mask picks the place of a ticket although the ticket has wrapped. -/
theorem cellOf_ofNat (hexponent : exponent < 64) (ticket : ℕ) :
    cellOf (2 ^ exponent) (UInt64.ofNat ticket).toNat =
      place (2 ^ exponent) ticket := by
  rw [cellOf_eq_place]
  apply Fin.ext
  have hdvd : 2 ^ exponent ∣ 2 ^ 64 := pow_dvd_pow 2 hexponent.le
  simpa [place] using Nat.mod_mod_of_dvd ticket hdvd

theorem cell_ofNat (hexponent : exponent < 64) (ticket : ℕ) :
    queue.cell (UInt64.ofNat ticket) =
      queue.buffer_ (place (2 ^ exponent) ticket) := by
  rw [Queue.cell, cellOf_ofNat hexponent]

theorem fresh_represents (exponent : ℕ) :
    Represents (fresh (2 ^ exponent) Value) 0 [] where
  headWord := rfl
  tailWord := rfl
  bounded := Nat.zero_le _
  filled := fun _ hi => absurd hi (Nat.not_lt_zero _)
  vacant := by
    intro i _ hi
    simp [fresh, place, Nat.mod_eq_of_lt hi]

/-- A free cell takes the value. -/
theorem Represents.enqueue (hrep : Represents queue head stored)
    (hexponent : exponent < 64) (hroom : stored.length < 2 ^ exponent)
    (ptr : Value) (spurious : ℕ) :
    ∃ queue', Sequential.enqueue queue ptr spurious = some (true, queue') ∧
      Represents queue' head (stored ++ [ptr]) := by
  have hindex : cellOf (2 ^ exponent) queue.tail_.toNat =
      place (2 ^ exponent) (head + stored.length) := by
    rw [hrep.tailWord, cellOf_ofNat hexponent]
  have hdiff : signedDiff (queue.cell queue.tail_).seq queue.tail_ = 0 := by
    rw [Queue.cell, hindex, hrep.vacant _ le_rfl hroom, hrep.tailWord,
      signedDiff_self]
  refine ⟨_, enqueueLoop_of_zero hdiff (Nat.lt_succ_self spurious), ?_⟩
  have htail : queue.tail_ + 1 = UInt64.ofNat (head + stored.length + 1) := by
    rw [hrep.tailWord]
    exact (UInt64.ofNat_add (head + stored.length) 1).symm
  constructor
  · exact hrep.headWord
  · rw [List.length_append, List.length_singleton, ← Nat.add_assoc]
    exact htail
  · rw [List.length_append, List.length_singleton]
    exact hroom
  · intro i hi
    rw [List.length_append, List.length_singleton] at hi
    simp only [Queue.setCell, hindex]
    by_cases hlast : i = stored.length
    · subst i
      simp [htail]
    · have hearlier : i < stored.length := by omega
      rw [Function.update_of_ne (place_add_ne (by omega) hroom hlast head),
        hrep.filled i hearlier, List.getElem_append_left hearlier]
  · intro i hle hi
    rw [List.length_append, List.length_singleton] at hle
    simp only [Queue.setCell, hindex]
    rw [Function.update_of_ne (place_add_ne hi hroom (by omega) head)]
    exact hrep.vacant i (by omega) hi

/-- In a full queue the cell of the next ticket still holds the oldest
value. -/
theorem Represents.full_seq (hrep : Represents queue head stored)
    (hexponent : exponent < 64) (hfull : stored.length = 2 ^ exponent) :
    (queue.cell queue.tail_).seq = UInt64.ofNat (head + 1) := by
  have hpos := Nat.two_pow_pos exponent
  have hfilled := hrep.filled 0 (by omega)
  rw [Nat.add_zero] at hfilled
  rw [hrep.tailWord, cell_ofNat hexponent, hfull, place_add_capacity, hfilled]

theorem Represents.enqueue_full (hrep : Represents queue head stored)
    (hexponent : exponent < 64) (htwo : 2 ≤ 2 ^ exponent)
    (hfull : stored.length = 2 ^ exponent) (ptr : Value) (spurious : ℕ) :
    Sequential.enqueue queue ptr spurious = some (false, queue) := by
  have hlarge : 2 ^ exponent ≤ 2 ^ 63 :=
    Nat.pow_le_pow_right (by omega) (by omega)
  apply enqueueLoop_of_neg
  rw [hrep.full_seq hexponent hfull, hrep.tailWord, hfull]
  exact signedDiff_neg (by omega) (by omega)

/-- The number of a single filled cell is the next ticket. -/
theorem Represents.enqueue_overwrites (hrep : Represents queue head stored)
    (hexponent : exponent < 64) (hone : 2 ^ exponent = 1)
    (hfull : stored.length = 2 ^ exponent) (ptr : Value) (spurious : ℕ) :
    ∃ queue', Sequential.enqueue queue ptr spurious = some (true, queue') := by
  have hdiff : signedDiff (queue.cell queue.tail_).seq queue.tail_ = 0 := by
    rw [hrep.full_seq hexponent hfull, hrep.tailWord, hfull, hone]
    exact signedDiff_self _
  exact ⟨_, enqueueLoop_of_zero hdiff (Nat.lt_succ_self spurious)⟩

theorem Represents.dequeue_empty (hrep : Represents queue head [])
    (hexponent : exponent < 64) (spurious : ℕ) :
    Sequential.dequeue queue spurious = some (none, queue) := by
  have hvacant := hrep.vacant 0 le_rfl (Nat.two_pow_pos exponent)
  rw [Nat.add_zero] at hvacant
  have hnext : queue.head_ + 1 = UInt64.ofNat (head + 1) := by
    rw [hrep.headWord]
    exact (UInt64.ofNat_add head 1).symm
  apply dequeueLoop_of_neg
  rw [hnext, hrep.headWord, cell_ofNat hexponent, hvacant]
  exact signedDiff_neg (by omega) (by omega)

/-- The oldest value leaves its cell to the ticket one round later. -/
theorem Represents.dequeue {value : Value}
    (hrep : Represents queue head (value :: stored))
    (hexponent : exponent < 64) (spurious : ℕ) :
    ∃ queue', Sequential.dequeue queue spurious =
        some (some value, queue') ∧
      Represents queue' (head + 1) stored := by
  have hbounded := hrep.bounded
  rw [List.length_cons] at hbounded
  have hindex : cellOf (2 ^ exponent) queue.head_.toNat =
      place (2 ^ exponent) head := by
    rw [hrep.headWord, cellOf_ofNat hexponent]
  have hcell : queue.cell queue.head_ =
      { seq := UInt64.ofNat (head + 1), data := some value } := by
    have hfilled := hrep.filled 0 (by simp)
    rw [Nat.add_zero] at hfilled
    rw [Queue.cell, hindex, hfilled, List.getElem_cons_zero]
  have hnext : queue.head_ + 1 = UInt64.ofNat (head + 1) := by
    rw [hrep.headWord]
    exact (UInt64.ofNat_add head 1).symm
  have hround : queue.head_ + UInt64.ofNat (2 ^ exponent) =
      UInt64.ofNat (head + 2 ^ exponent) := by
    rw [hrep.headWord]
    exact (UInt64.ofNat_add head (2 ^ exponent)).symm
  have hdiff :
      signedDiff (queue.cell queue.head_).seq (queue.head_ + 1) = 0 := by
    rw [hcell, hnext]
    exact signedDiff_self _
  have heval := dequeueLoop_of_zero hdiff (Nat.lt_succ_self spurious)
  rw [hcell] at heval
  refine ⟨_, heval, ?_⟩
  -- Ticket `head + 1 + i` was the ticket at distance `i + 1` before.
  have hshift : ∀ i, head + 1 + i = head + (i + 1) := fun i => by omega
  have hkeep : ∀ i, i + 1 < 2 ^ exponent →
      place (2 ^ exponent) (head + (i + 1)) ≠ place (2 ^ exponent) head := by
    intro i hi
    exact place_add_ne hi (Nat.two_pow_pos exponent) (Nat.succ_ne_zero i) head
  constructor
  · exact hnext
  · have htail := hrep.tailWord
    rw [List.length_cons] at htail
    rw [hshift]
    exact htail
  · omega
  · intro i hi
    simp only [Queue.setCell, hindex]
    rw [hshift, Function.update_of_ne (hkeep i (by omega)),
      hrep.filled (i + 1) (by rw [List.length_cons]; omega),
      List.getElem_cons_succ]
  · intro i hle hi
    simp only [Queue.setCell, hindex]
    rw [hshift]
    by_cases hlast : i + 1 = 2 ^ exponent
    · rw [hlast, place_add_capacity, Function.update_self]
      exact hround
    · rw [Function.update_of_ne (hkeep i (by omega))]
      exact hrep.vacant (i + 1) (by rw [List.length_cons]; omega) (by omega)

end Cells

/-! ## Whole runs -/

section Runs

variable {exponent : ℕ} {queue : Queue (2 ^ exponent) Value}
  {head : ℕ} {stored : List Value}

theorem Represents.call_simulates (hrep : Represents queue head stored)
    (hexponent : exponent < 64) {c : Call Value}
    (hallowed : NotOverwriting (2 ^ exponent) stored c) :
    (call queue c).2 = (boundedFifo (2 ^ exponent) stored c).2 ∧
      ∃ head', Represents (call queue c).1 head'
        (boundedFifo (2 ^ exponent) stored c).1 := by
  cases c with
  | enqueue ptr spurious =>
      by_cases hroom : stored.length < 2 ^ exponent
      · obtain ⟨queue', heval, hrep'⟩ :=
          hrep.enqueue hexponent hroom ptr spurious
        simp only [call, heval, boundedFifo, if_pos hroom, true_and]
        exact ⟨head, hrep'⟩
      · have hbounded := hrep.bounded
        have hfull : stored.length = 2 ^ exponent := by omega
        have htwo : 2 ≤ 2 ^ exponent := by
          rcases hallowed with htwo | hempty
          · exact htwo
          · have hpos := Nat.two_pow_pos exponent
            rw [hempty, List.length_nil] at hfull
            omega
        have heval := hrep.enqueue_full hexponent htwo hfull ptr spurious
        simp only [call, heval, boundedFifo, if_neg hroom, true_and]
        exact ⟨head, hrep⟩
  | dequeue spurious =>
      cases stored with
      | nil =>
          have heval := hrep.dequeue_empty hexponent spurious
          simp only [call, heval, boundedFifo, true_and]
          exact ⟨head, hrep⟩
      | cons value rest =>
          obtain ⟨queue', heval, hrep'⟩ := hrep.dequeue hexponent spurious
          simp only [call, heval, boundedFifo, true_and]
          exact ⟨head + 1, hrep'⟩

/-- The value that is overwritten is reported as accepted. -/
theorem Represents.call_differs (hrep : Represents queue head stored)
    (hexponent : exponent < 64) {c : Call Value}
    (hallowed : ¬ NotOverwriting (2 ^ exponent) stored c) :
    (call queue c).2 ≠ (boundedFifo (2 ^ exponent) stored c).2 := by
  cases c with
  | enqueue ptr spurious =>
      rw [NotOverwriting, not_or] at hallowed
      obtain ⟨hone, hstored⟩ := hallowed
      have hpos := Nat.two_pow_pos exponent
      have hlength := List.length_pos_iff.mpr hstored
      have hbounded := hrep.bounded
      obtain ⟨queue', heval⟩ := hrep.enqueue_overwrites hexponent
        (by omega) (by omega) ptr spurious
      have hfull : ¬ stored.length < 2 ^ exponent := by omega
      simp [call, heval, boundedFifo, hfull]
  | dequeue spurious => exact absurd trivial hallowed

theorem construct_pow_two (exponent : ℕ) :
    construct (2 ^ exponent) Value = .ok (fresh (2 ^ exponent) Value) := by
  have hand : 2 ^ exponent &&& (2 ^ exponent - 1) = 0 := by
    rw [Nat.and_two_pow_sub_one_eq_mod, Nat.mod_self]
  simp [construct, hand]

/-- The calls of one thread are answered as by a bounded FIFO, and each of
them returns, exactly when none of them overwrites the single cell of a full
queue. -/
theorem customMPMC_boundedFifo_iff (exponent : ℕ) (hexponent : exponent < 64)
    (calls : List (Call Value)) :
    ∃ queue, construct (2 ^ exponent) Value = .ok queue ∧
      (CallSystem.results call queue calls =
          CallSystem.results (boundedFifo (2 ^ exponent)) [] calls ↔
        CallSystem.AllAllowed (boundedFifo (2 ^ exponent))
          (NotOverwriting (2 ^ exponent)) [] calls) := by
  refine ⟨_, construct_pow_two exponent, ?_⟩
  apply CallSystem.results_iff_allAllowed (NotOverwriting (2 ^ exponent))
    fun queue stored => ∃ head, Represents queue head stored
  · rintro queue stored c ⟨head, hrep⟩ hallowed
    exact hrep.call_simulates hexponent hallowed
  · rintro queue stored c ⟨head, hrep⟩ hallowed
    exact hrep.call_differs hexponent hallowed
  · exact ⟨0, fresh_represents exponent⟩

end Runs

/-- Two cells, filled, emptied and refilled across the end of the ring. -/
theorem customMPMC_two_cells :
    ∃ queue, construct (2 ^ 1) ℕ = .ok queue ∧
      (CallSystem.results call queue
          [.enqueue 5 0, .enqueue 6 1, .enqueue 7 0, .dequeue 0,
            .enqueue 8 0, .dequeue 2, .dequeue 0, .dequeue 0] =
        [.accepted true, .accepted true, .accepted false, .taken (some 5),
          .accepted true, .taken (some 6), .taken (some 8), .taken none]) := by
  obtain ⟨queue, hqueue, hiff⟩ := customMPMC_boundedFifo_iff 1 (by decide)
    ([.enqueue 5 0, .enqueue 6 1, .enqueue 7 0, .dequeue 0,
      .enqueue 8 0, .dequeue 2, .dequeue 0, .dequeue 0] : List (Call ℕ))
  exact ⟨queue, hqueue, (hiff.mpr (by decide)).trans (by decide)⟩

/-- One cell: the second value replaces the first, and the queue never hands
anything out again. -/
theorem customMPMC_one_cell :
    ∃ queue, construct (2 ^ 0) ℕ = .ok queue ∧
      CallSystem.results call queue
          [.enqueue 5 0, .enqueue 6 0, .dequeue 0] =
        [.accepted true, .accepted true, .looping] := by
  exact ⟨_, construct_pow_two 0, by decide⟩

end Sequential
end CustomMPMCLockFreeQueue
end TradingStudies
