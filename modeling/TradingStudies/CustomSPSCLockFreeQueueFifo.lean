import TradingStudies.CustomSPSCLockFreeQueue

/-!
# First in, first out unless a claimed slot is overtaken

The ring holds the last `capacity` values written, and the producer never
writes more than `capacity` values beyond the tickets the consumer has drawn.
The ticket drawn last is the exception: its slot is given back to the producer
by the `fetch_add` and read only afterwards.  On a full queue the producer may
write one round ahead into that slot before the consumer reads it.

The returned values are a prefix of the accepted ones all along a run exactly
when no read of the run finds another value written one round ahead.
-/

namespace TradingStudies
namespace CustomSPSCLockFreeQueue

open RingIndex

variable {Value : Type*} {capacity exponent : ℕ}

/-- The value which is in the ring but not yet published by `tail_`. -/
def Producer.unpublished : Producer Value → List Value
  | .written ptr _ => [ptr]
  | _ => []

/-- The tickets which are drawn but whose slot is not yet read. -/
def Consumer.unread : Consumer → ℕ
  | .claimed _ => 1
  | _ => 0

def State.written (state : State capacity Value) : List Value :=
  state.accepted ++ state.producer.unpublished

theorem State.written_eq {state : State capacity Value}
    (hnone : state.producer.unpublished = []) :
    state.written = state.accepted := by
  rw [State.written, hnone, List.append_nil]

def State.claims (state : State capacity Value) : ℕ :=
  state.returned.length + state.consumer.unread

/-- The environment's condition on a read: a value which the producer has
written one round ahead into the claimed slot is the value accepted for the
claimed ticket. -/
def NotOvertaken (state : State capacity Value) : Move Value → Prop
  | .readSlot =>
      ∀ value ∈ state.written[state.returned.length + capacity]?,
        state.accepted[state.returned.length]? = some value
  | _ => True

instance [DecidableEq Value] (state : State capacity Value) :
    DecidablePred (NotOvertaken state)
  | .readSlot =>
      inferInstanceAs (Decidable (∀ value ∈
        state.written[state.returned.length + capacity]?,
        state.accepted[state.returned.length]? = some value))
  | .enqueue _ | .checkHead | .writeSlot | .storeTail | .loadHead
  | .loadTail | .fetchAdd => inferInstanceAs (Decidable True)

/-! ## The invariant -/

def Producer.Consistent (capacity claims accepted : ℕ) :
    Producer Value → Prop
  | .idle => True
  | .loaded _ tail | .written _ tail => tail = UInt64.ofNat accepted
  | .checked _ tail =>
      tail = UInt64.ofNat accepted ∧ accepted < claims + capacity

def Consumer.Consistent (returned accepted : ℕ) : Consumer → Prop
  | .idle => True
  | .loadedHead head => head = UInt64.ofNat returned
  | .loadedTail tail =>
      ∃ seen, tail = UInt64.ofNat seen ∧ returned ≤ seen ∧ seen ≤ accepted
  | .nonEmpty => returned < accepted
  | .claimed head => head = UInt64.ofNat returned

structure RingInvariant (state : State (2 ^ exponent) Value) : Prop where
  fifo : state.returned <+: state.accepted
  claims_le : state.claims ≤ state.accepted.length
  written_le : state.written.length ≤ state.claims + 2 ^ exponent
  head : state.queue.head_ = UInt64.ofNat state.claims
  tail : state.queue.tail_ = UInt64.ofNat state.accepted.length
  slots : HoldsLast state.queue.buffer_ state.written
  producer :
    state.producer.Consistent (2 ^ exponent) state.claims
      state.accepted.length
  consumer :
    state.consumer.Consistent state.returned.length state.accepted.length

theorem initial_ringInvariant :
    RingInvariant (initial (fresh (2 ^ exponent) Value)) where
  fifo := List.nil_prefix
  claims_le := le_rfl
  written_le := Nat.zero_le _
  head := rfl
  tail := rfl
  slots := holdsLast_nil _
  producer := trivial
  consumer := trivial

theorem Producer.Consistent.mono
    {capacity claims accepted more : ℕ} {producer : Producer Value}
    (hproducer : producer.Consistent capacity claims accepted)
    (hmore : claims ≤ more) :
    producer.Consistent capacity more accepted := by
  cases producer with
  | checked ptr tail => exact ⟨hproducer.1, by have := hproducer.2; omega⟩
  | _ => exact hproducer

theorem Consumer.Consistent.mono
    {returned accepted more : ℕ} {consumer : Consumer}
    (hconsumer : consumer.Consistent returned accepted)
    (hmore : accepted ≤ more) :
    consumer.Consistent returned more := by
  cases consumer with
  | loadedTail tail =>
      rcases hconsumer with ⟨seen, htail, hle, hseen⟩
      exact ⟨seen, htail, hle, hseen.trans hmore⟩
  | nonEmpty => exact lt_of_lt_of_le hconsumer hmore
  | _ => exact hconsumer

section Steps

variable {state next : State (2 ^ exponent) Value}

/-- What a read of the claimed slot finds: the accepted value, or the one
written a round ahead. -/
theorem RingInvariant.readSlot_eq (hexponent : exponent < 64)
    (hinv : RingInvariant state) {head : UInt64}
    (hclaimed : state.consumer = .claimed head) :
    state.queue.buffer_ (slotOf (2 ^ exponent) head) =
      (state.written[state.returned.length + 2 ^ exponent]?).or
        state.accepted[state.returned.length]? := by
  have hhead : head = UInt64.ofNat state.returned.length := by
    have hconsumer := hinv.consumer
    rwa [hclaimed] at hconsumer
  have hclaims : state.claims = state.returned.length + 1 := by
    unfold State.claims
    rw [hclaimed]
    rfl
  have hticket : state.returned.length < state.accepted.length := by
    have hle := hinv.claims_le
    omega
  have hlength : state.accepted.length ≤ state.written.length := by
    unfold State.written
    rw [List.length_append]
    omega
  have hbound := hinv.written_le
  rw [hhead, slotOf_ofNat hexponent]
  rcases Nat.lt_or_ge (state.returned.length + 2 ^ exponent)
    state.written.length with hahead | hrecent
  · have hpos := Nat.two_pow_pos exponent
    have hholds := hinv.slots _ hahead (by omega)
    rw [place_add_capacity] at hholds
    rw [hholds, List.getElem?_eq_getElem hahead]
    rfl
  · have hholds := hinv.slots state.returned.length (by omega) hrecent
    have hnone : state.written[state.returned.length + 2 ^ exponent]? =
        none := List.getElem?_eq_none hrecent
    rw [hholds, hnone, Option.none_or]
    exact List.getElem?_append_left hticket

/-! ## The producer -/

/-- The producer moves on without writing to the ring or publishing. -/
theorem RingInvariant.produce (hinv : RingInvariant state)
    {producer : Producer Value}
    (hsame : state.producer.unpublished = producer.unpublished)
    (hproducer : producer.Consistent (2 ^ exponent) state.claims
      state.accepted.length) :
    RingInvariant { state with producer := producer } := by
  have hwritten : state.written =
      State.written { state with producer := producer } := by
    unfold State.written
    rw [hsame]
  exact
    { fifo := hinv.fifo
      claims_le := hinv.claims_le
      written_le := hwritten ▸ hinv.written_le
      head := hinv.head
      tail := hinv.tail
      slots := hwritten ▸ hinv.slots
      producer := hproducer
      consumer := hinv.consumer }

theorem enqueue_ringInvariant (hinv : RingInvariant state) {ptr : Value}
    (hstep : step state (.enqueue ptr) = some next) :
    RingInvariant next := by
  dsimp only [step] at hstep
  cases hproducer : state.producer <;>
    simp only [hproducer, Option.some.injEq, reduceCtorEq] at hstep
  subst hstep
  apply hinv.produce
  · rw [hproducer]
    rfl
  · exact hinv.tail

theorem checkHead_ringInvariant (hexponent : exponent < 64)
    (hinv : RingInvariant state)
    (hstep : step state .checkHead = some next) :
    RingInvariant next := by
  dsimp only [step] at hstep
  cases hproducer : state.producer <;>
    simp only [hproducer, reduceCtorEq] at hstep
  case loaded ptr tail =>
    have htail : tail = UInt64.ofNat state.accepted.length := by
      have hconsistent := hinv.producer
      rwa [hproducer] at hconsistent
    have hwritten : state.written = state.accepted := by
      apply State.written_eq
      rw [hproducer]
      rfl
    have hbound := hinv.written_le
    rw [hwritten] at hbound
    have hfull := full_iff hexponent hinv.claims_le hbound
    rw [← htail, ← hinv.head] at hfull
    by_cases hcheck : tail + 1 - state.queue.head_ > capacity_ (2 ^ exponent)
    · rw [if_pos hcheck, Option.some.injEq] at hstep
      subst hstep
      apply hinv.produce
      · rw [hproducer]
        rfl
      · trivial
    · rw [if_neg hcheck, Option.some.injEq] at hstep
      subst hstep
      have hroom := mt hfull.mpr hcheck
      apply hinv.produce
      · rw [hproducer]
        rfl
      · exact ⟨htail, by omega⟩

theorem writeSlot_ringInvariant (hexponent : exponent < 64)
    (hinv : RingInvariant state)
    (hstep : step state .writeSlot = some next) :
    RingInvariant next := by
  dsimp only [step] at hstep
  cases hproducer : state.producer <;>
    simp only [hproducer, Option.some.injEq, reduceCtorEq] at hstep
  case checked ptr tail =>
    have hconsistent := hinv.producer
    rw [hproducer] at hconsistent
    rcases hconsistent with ⟨htail, hroom⟩
    have hwritten : state.written = state.accepted := by
      apply State.written_eq
      rw [hproducer]
      rfl
    subst hstep
    exact
      { fifo := hinv.fifo
        claims_le := hinv.claims_le
        written_le := by
          dsimp only [State.written, State.claims, Producer.unpublished]
            at hroom ⊢
          rw [List.length_append, List.length_singleton]
          exact hroom
        head := hinv.head
        tail := hinv.tail
        slots := by
          have hslots := hinv.slots
          rw [hwritten] at hslots
          rw [htail, slotOf_ofNat hexponent]
          exact hslots.write ptr
        producer := htail
        consumer := hinv.consumer }

theorem storeTail_ringInvariant (hinv : RingInvariant state)
    (hstep : step state .storeTail = some next) :
    RingInvariant next := by
  dsimp only [step] at hstep
  cases hproducer : state.producer <;>
    simp only [hproducer, Option.some.injEq, reduceCtorEq] at hstep
  case written ptr tail =>
    have htail : tail = UInt64.ofNat state.accepted.length := by
      have hconsistent := hinv.producer
      rwa [hproducer] at hconsistent
    have hwritten : state.written = state.accepted ++ [ptr] ++ [] := by
      rw [State.written, hproducer, Producer.unpublished, List.append_nil]
    have hgrow : state.accepted.length ≤
        (state.accepted ++ [ptr]).length := by
      rw [List.length_append]
      omega
    subst hstep
    exact
      { fifo := hinv.fifo.trans (List.prefix_append _ _)
        claims_le := hinv.claims_le.trans hgrow
        written_le := by
          have hle := hinv.written_le
          rw [hwritten] at hle
          exact hle
        head := hinv.head
        tail := by
          dsimp only
          rw [htail, List.length_append, UInt64.ofNat_add]
          rfl
        slots := by
          have hslots := hinv.slots
          rw [hwritten] at hslots
          exact hslots
        producer := trivial
        consumer := hinv.consumer.mono hgrow }

/-! ## The consumer -/

/-- The consumer moves on without drawing a ticket or reading a slot. -/
theorem RingInvariant.consume (hinv : RingInvariant state)
    {consumer : Consumer}
    (hsame : state.consumer.unread = consumer.unread)
    (hconsumer : consumer.Consistent state.returned.length
      state.accepted.length) :
    RingInvariant { state with consumer := consumer } := by
  have hclaims : state.claims =
      State.claims { state with consumer := consumer } := by
    unfold State.claims
    rw [hsame]
  exact
    { fifo := hinv.fifo
      claims_le := hclaims ▸ hinv.claims_le
      written_le := hclaims ▸ hinv.written_le
      head := hclaims ▸ hinv.head
      tail := hinv.tail
      slots := hinv.slots
      producer := hclaims ▸ hinv.producer
      consumer := hconsumer }

/-- Both counters are loaded; the one of the producer may be out of date. -/
theorem RingInvariant.compare (hinv : RingInvariant state)
    (hidle : state.consumer.unread = 0) {seen : ℕ}
    (hle : state.returned.length ≤ seen)
    (hseen : seen ≤ state.accepted.length) :
    RingInvariant (state.compare (UInt64.ofNat state.returned.length)
      (UInt64.ofNat seen)) := by
  unfold State.compare
  by_cases hempty : UInt64.ofNat state.returned.length = UInt64.ofNat seen
  · rw [if_pos hempty]
    exact hinv.consume hidle trivial
  · rw [if_neg hempty]
    have hlt := ofNat_ne_of_lt hempty hle
    exact hinv.consume hidle (lt_of_lt_of_le hlt hseen)

theorem RingInvariant.head_of_unread (hinv : RingInvariant state)
    (hidle : state.consumer.unread = 0) :
    state.queue.head_ = UInt64.ofNat state.returned.length := by
  rw [hinv.head, State.claims, hidle, Nat.add_zero]

theorem loadHead_ringInvariant (hinv : RingInvariant state)
    (hstep : step state .loadHead = some next) :
    RingInvariant next := by
  dsimp only [step] at hstep
  cases hconsumer : state.consumer <;>
    simp only [hconsumer, Option.some.injEq, reduceCtorEq] at hstep
  all_goals
    have hidle : state.consumer.unread = 0 := by
      rw [hconsumer]
      rfl
    subst hstep
  case idle =>
    exact hinv.consume hidle (hinv.head_of_unread hidle)
  case loadedTail tail =>
    have hconsistent := hinv.consumer
    rw [hconsumer] at hconsistent
    rcases hconsistent with ⟨seen, htail, hle, hseen⟩
    rw [htail, hinv.head_of_unread hidle]
    exact hinv.compare hidle hle hseen

theorem loadTail_ringInvariant (hinv : RingInvariant state)
    (hstep : step state .loadTail = some next) :
    RingInvariant next := by
  have hle := hinv.fifo.length_le
  dsimp only [step] at hstep
  cases hconsumer : state.consumer <;>
    simp only [hconsumer, Option.some.injEq, reduceCtorEq] at hstep
  all_goals
    have hidle : state.consumer.unread = 0 := by
      rw [hconsumer]
      rfl
    subst hstep
  case idle =>
    exact hinv.consume hidle ⟨_, hinv.tail, hle, le_rfl⟩
  case loadedHead head =>
    have hhead := hinv.consumer
    rw [hconsumer] at hhead
    dsimp only [Consumer.Consistent] at hhead
    rw [hhead, hinv.tail]
    exact hinv.compare hidle hle le_rfl

theorem fetchAdd_ringInvariant (hinv : RingInvariant state)
    (hstep : step state .fetchAdd = some next) :
    RingInvariant next := by
  dsimp only [step] at hstep
  cases hconsumer : state.consumer <;>
    simp only [hconsumer, Option.some.injEq, reduceCtorEq] at hstep
  case nonEmpty =>
    have hticket : state.returned.length < state.accepted.length := by
      have hconsistent := hinv.consumer
      rwa [hconsumer] at hconsistent
    have hclaims : state.claims = state.returned.length := by
      rw [State.claims, hconsumer]
      rfl
    have hhead := hinv.head
    rw [hclaims] at hhead
    subst hstep
    exact
      { fifo := hinv.fifo
        claims_le := hticket
        written_le := by
          have hle := hinv.written_le
          rw [hclaims] at hle
          dsimp only [State.written, State.claims, Consumer.unread] at hle ⊢
          omega
        head := by
          dsimp only [State.claims, Consumer.unread]
          rw [hhead, UInt64.ofNat_add]
          rfl
        tail := hinv.tail
        slots := hinv.slots
        producer := by
          apply hinv.producer.mono
          rw [hclaims]
          exact Nat.le_succ _
        consumer := hhead }

/-- The read of the claimed slot finds the value accepted for its ticket. -/
theorem readSlot_ringInvariant (hexponent : exponent < 64)
    (hinv : RingInvariant state) (hallowed : NotOvertaken state .readSlot)
    (hstep : step state .readSlot = some next) :
    RingInvariant next := by
  dsimp only [step] at hstep
  cases hconsumer : state.consumer <;>
    simp only [hconsumer, Option.some.injEq, reduceCtorEq] at hstep
  case claimed head =>
    have hclaims : state.claims = state.returned.length + 1 := by
      rw [State.claims, hconsumer]
      rfl
    have hticket : state.returned.length < state.accepted.length := by
      have hle := hinv.claims_le
      omega
    have hread := hinv.readSlot_eq hexponent hconsumer
    have hfound : state.queue.buffer_ (slotOf (2 ^ exponent) head) =
        some state.accepted[state.returned.length] := by
      rw [← List.getElem?_eq_getElem hticket, hread]
      cases hahead : state.written[state.returned.length + 2 ^ exponent]? with
      | none => exact Option.none_or
      | some value => exact (hallowed value hahead).symm
    have hreturned := List.prefix_iff_eq_take.mp hinv.fifo
    rw [hfound, Option.toList_some] at hstep
    subst hstep
    have hnext : (state.returned ++
        [state.accepted[state.returned.length]]).length = state.claims := by
      rw [hclaims, List.length_append, List.length_singleton]
    exact
      { fifo := by
          dsimp only
          rw [List.prefix_iff_eq_take, hnext, hclaims,
            ← List.take_concat_get' _ _ hticket, ← hreturned]
        claims_le := hnext.trans_le hinv.claims_le
        written_le := by
          have hle := hinv.written_le
          rw [← hnext] at hle
          exact hle
        head := by
          have hhead := hinv.head
          rw [← hnext] at hhead
          exact hhead
        tail := hinv.tail
        slots := hinv.slots
        producer := by
          have hproducer := hinv.producer
          rw [← hnext] at hproducer
          exact hproducer
        consumer := trivial }

/-- A read that finds another value written one round ahead returns it out of
order. -/
theorem readSlot_overtaken (hexponent : exponent < 64)
    (hinv : RingInvariant state) (hovertaken : ¬ NotOvertaken state .readSlot)
    (hstep : step state .readSlot = some next) :
    ¬ next.returned <+: next.accepted := by
  dsimp only [NotOvertaken] at hovertaken
  push Not at hovertaken
  rcases hovertaken with ⟨value, hahead, hother⟩
  rw [Option.mem_def] at hahead
  dsimp only [step] at hstep
  cases hconsumer : state.consumer <;>
    simp only [hconsumer, Option.some.injEq, reduceCtorEq] at hstep
  case claimed head =>
    have hread := hinv.readSlot_eq hexponent hconsumer
    rw [hahead, Option.some_or] at hread
    rw [hread, Option.toList_some] at hstep
    subst hstep
    intro hfifo
    apply hother
    rcases hfifo with ⟨rest, hrest⟩
    dsimp only at hrest
    simp [← hrest]

theorem step_ringInvariant (hexponent : exponent < 64)
    (hinv : RingInvariant state) {move : Move Value}
    (hallowed : NotOvertaken state move)
    (hstep : step state move = some next) :
    RingInvariant next := by
  cases move with
  | enqueue ptr => exact enqueue_ringInvariant hinv hstep
  | checkHead => exact checkHead_ringInvariant hexponent hinv hstep
  | writeSlot => exact writeSlot_ringInvariant hexponent hinv hstep
  | storeTail => exact storeTail_ringInvariant hinv hstep
  | loadHead => exact loadHead_ringInvariant hinv hstep
  | loadTail => exact loadTail_ringInvariant hinv hstep
  | fetchAdd => exact fetchAdd_ringInvariant hinv hstep
  | readSlot => exact readSlot_ringInvariant hexponent hinv hallowed hstep

theorem step_overtaken (hexponent : exponent < 64)
    (hinv : RingInvariant state) {move : Move Value}
    (hovertaken : ¬ NotOvertaken state move)
    (hstep : step state move = some next) :
    ¬ next.returned <+: next.accepted := by
  cases move with
  | readSlot => exact readSlot_overtaken hexponent hinv hovertaken hstep
  | _ => exact absurd trivial hovertaken

end Steps

/-! ## Runs -/

/-- The values returned so far are the first of the accepted ones, in order
and each once. -/
def Fifo (state : State capacity Value) : Prop :=
  state.returned <+: state.accepted

theorem customSPSCLockFreeQueue_fifo_iff (hexponent : exponent < 64)
    {queue : Queue (2 ^ exponent) Value}
    (hqueue : construct (2 ^ exponent) Value = .ok queue)
    {moves : List (Move Value)} {last : State (2 ^ exponent) Value}
    (hrun : StepSystem.run step moves (initial queue) = some last) :
    StepSystem.AllStates step Fifo moves (initial queue) ↔
      StepSystem.AllAllowed step NotOvertaken moves (initial queue) := by
  rw [construct_pow_two hexponent, Except.ok.injEq] at hqueue
  subst hqueue
  apply StepSystem.allStates_iff_allAllowed RingInvariant
  · intro state hinv
    exact hinv.fifo
  · intro state next move hinv hallowed hstep
    exact step_ringInvariant hexponent hinv hallowed hstep
  · intro state next move hinv hovertaken hstep
    exact step_overtaken hexponent hinv hovertaken hstep
  · exact initial_ringInvariant
  · exact hrun

/-- A full ring of two slots: the producer sees the ticket drawn and waits
with its write until the slot is read. -/
theorem customSPSCLockFreeQueue_full_ring :
    let queue := fresh (2 ^ 1) ℕ
    let moves : List (Move ℕ) :=
      [.enqueue 7, .checkHead, .writeSlot, .storeTail,
       .enqueue 8, .loadHead, .checkHead, .writeSlot, .storeTail,
       .loadTail, .fetchAdd, .enqueue 9, .checkHead,
       .readSlot, .writeSlot, .storeTail]
    ∃ last, StepSystem.run step moves (initial queue) = some last ∧
      last.accepted = [7, 8, 9] ∧
      StepSystem.AllStates step Fifo moves (initial queue) := by
  intro queue moves
  have hallowed :
      StepSystem.AllAllowed step NotOvertaken moves (initial queue) := by
    decide
  have hvalues : (StepSystem.run step moves (initial queue)).map
      State.accepted = some [7, 8, 9] := by
    decide
  rcases Option.map_eq_some_iff.mp hvalues with ⟨last, hrun, haccepted⟩
  have hfifo := (customSPSCLockFreeQueue_fifo_iff (by decide)
    (construct_pow_two (by decide)) hrun).mpr hallowed
  exact ⟨last, hrun, haccepted, hfifo⟩

/-- A ring of one slot: the second value is written into the slot that the
consumer has drawn and not yet read, so the first value is lost. -/
theorem customSPSCLockFreeQueue_overtaken :
    let queue := fresh (2 ^ 0) ℕ
    let moves : List (Move ℕ) :=
      [.enqueue 7, .checkHead, .writeSlot, .storeTail,
       .loadHead, .loadTail, .fetchAdd,
       .enqueue 8, .checkHead, .writeSlot, .storeTail,
       .readSlot]
    construct (2 ^ 0) ℕ = .ok queue ∧
    ∃ last, StepSystem.run step moves (initial queue) = some last ∧
      last.accepted = [7, 8] ∧ last.returned = [8] ∧
      ¬ last.returned <+: last.accepted := by
  intro queue moves
  have hvalues : (StepSystem.run step moves (initial queue)).map
      (fun last => (last.accepted, last.returned)) = some ([7, 8], [8]) := by
    decide
  rcases Option.map_eq_some_iff.mp hvalues with ⟨last, hrun, hlast⟩
  rw [Prod.mk.injEq] at hlast
  rcases hlast with ⟨haccepted, hreturned⟩
  refine ⟨construct_pow_two (by decide), last, hrun, haccepted, hreturned, ?_⟩
  rw [haccepted, hreturned]
  decide

end CustomSPSCLockFreeQueue
end TradingStudies
