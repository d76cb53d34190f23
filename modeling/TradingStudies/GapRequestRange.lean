import TradingStudies.TickerServer

/-!
# Which gap requests are answered exactly

`serveGapRequest` reports a request that is out of range and serves it all the
same, with a 32-bit counter.  A request is answered exactly when the range is
valid and the counter goes through it, or when the range is invalid and the
loop is never entered.

A run of the loop is recorded with the trades it sends and the indices it
passes to `get`.
-/

namespace TradingStudies
namespace Ticker
namespace SnapshotServer

/-- The index which the next turn passes to `get`. -/
def asks (store : TradeMsgStore) : SnapshotServer → List UInt64
  | .serving i end_seq =>
      if toUInt64 i ≤ end_seq then [toUInt64 i] else []
  | .replaying i =>
      if (toUInt64 i).toNat < store.size then [toUInt64 i] else []
  | _ => []

/-- At most `turns` turns of the loop: where it stands then, what it has sent
and what it has asked for. -/
def run (store : TradeMsgStore) :
    ℕ → SnapshotServer → SnapshotServer × List ITCHTradeMsg × List UInt64
  | 0, server => (server, [], [])
  | turns + 1, server =>
      match iterate store server with
      | none => (server, [], [])
      | some (next, sent) =>
          let rest := run store turns next
          (rest.1, sent ++ rest.2.1, asks store server ++ rest.2.2)

/-- The range lies in the store. -/
def ValidRange (store : TradeMsgStore) (msg : ITCHGapRequestMsg) : Prop :=
  msg.start_seq ≤ msg.end_seq ∧ msg.end_seq.toNat < store.size

instance (store : TradeMsgStore) (msg : ITCHGapRequestMsg) :
    Decidable (ValidRange store msg) :=
  inferInstanceAs (Decidable (_ ∧ _))

/-- The loop ends, has sent the range if it is valid and nothing otherwise,
and never asked for a trade past the end of the store. -/
def AnswersRange (store : TradeMsgStore) (msg : ITCHGapRequestMsg) : Prop :=
  ∃ turns sent asked,
    run store turns (serveGapRequest msg) = (.reading, sent, asked) ∧
    sent = (if ValidRange store msg then
      store.between msg.start_seq.toNat (msg.end_seq.toNat + 1) else []) ∧
    ∀ index ∈ asked, index.toNat < store.size

/-- The counter starts at `start_seq` and passes `end_seq` before it
overflows; for a range that is not valid it starts past `end_seq`. -/
def CounterFits (store : TradeMsgStore) (msg : ITCHGapRequestMsg) : Prop :=
  let first := toUInt64 (toInt32 msg.start_seq)
  if ValidRange store msg then
    first = msg.start_seq ∧
      (msg.end_seq.toNat < 2 ^ 31 - 1 ∨
        (2 ^ 31 ≤ msg.start_seq.toNat ∧ msg.end_seq.toNat < 2 ^ 64 - 1))
  else msg.end_seq < first

variable {store : TradeMsgStore}

theorem toNat_toUInt64_neg {value : Int32} (hvalue : value.toInt < 0) :
    ((toUInt64 value).toNat : ℤ) = value.toInt + 2 ^ 64 := by
  have hwide : value.toInt64.toBitVec.toInt = value.toInt :=
    Int32.toInt_toInt64 value
  have hcond := BitVec.toInt_eq_toNat_cond value.toInt64.toBitVec
  have hlt := value.toInt64.toBitVec.isLt
  show ((value.toInt64.toBitVec.toNat : ℕ) : ℤ) = value.toInt + 2 ^ 64
  split at hcond <;> omega

theorem between_step {start stop : ℕ} (hstart : start < stop) :
    store.between start stop =
      store.vec_[start]?.toList ++ store.between (start + 1) stop := by
  by_cases hsize : start < store.vec_.length
  · rw [TradeMsgStore.between_of_lt hstart hsize,
      List.getElem?_eq_getElem hsize]
    rfl
  · have hpast : store.vec_.length ≤ start := by omega
    simp [TradeMsgStore.between, List.drop_eq_nil_of_le hpast,
      List.drop_eq_nil_of_le (Nat.le_succ_of_le hpast),
      List.getElem?_eq_none hpast]

/-! ## Runs -/

theorem run_of_iterate {server next : SnapshotServer}
    {sent : List ITCHTradeMsg} (hiterate : iterate store server = some (next, sent))
    (turns : ℕ) :
    run store (turns + 1) server =
      ((run store turns next).1, sent ++ (run store turns next).2.1,
        asks store server ++ (run store turns next).2.2) := by
  rw [run, hiterate]

/-- Further turns change nothing once the loop has ended. -/
theorem run_more {server : SnapshotServer} {turns : ℕ}
    {sent : List ITCHTradeMsg} {asked : List UInt64}
    (hrun : run store turns server = (.reading, sent, asked)) (more : ℕ) :
    run store (turns + more) server = (.reading, sent, asked) := by
  induction turns generalizing server sent asked with
  | zero =>
      have hserver : server = .reading := congrArg Prod.fst hrun
      subst hserver
      rw [← hrun]
      cases more <;> rfl
  | succ turns ih =>
      rw [show turns + 1 + more = turns + more + 1 by omega]
      cases hiterate : iterate store server with
      | none =>
          rw [run, hiterate] at hrun ⊢
          exact hrun
      | some step =>
          obtain ⟨next, sent'⟩ := step
          rw [run_of_iterate hiterate] at hrun ⊢
          rcases hrest : run store turns next with ⟨last, sent'', asked''⟩
          rw [hrest] at hrun
          have hlast : last = .reading := congrArg Prod.fst hrun
          subst hlast
          rw [ih hrest]
          exact hrun

/-- Two runs that have ended have done the same. -/
theorem run_unique {server : SnapshotServer} {turns turns' : ℕ}
    {sent sent' : List ITCHTradeMsg} {asked asked' : List UInt64}
    (hrun : run store turns server = (.reading, sent, asked))
    (hrun' : run store turns' server = (.reading, sent', asked')) :
    sent = sent' ∧ asked = asked' := by
  have hmore := run_more hrun turns'
  have hmore' := run_more hrun' turns
  rw [Nat.add_comm, hmore', Prod.mk.injEq, Prod.mk.injEq] at hmore
  exact ⟨hmore.2.1.symm, hmore.2.2.symm⟩

theorem run_exit {i : Int32} {end_seq : UInt64}
    (hexit : end_seq < toUInt64 i) (turns : ℕ) :
    run store (turns + 1) (.serving i end_seq) = (.reading, [], []) := by
  have hnot : ¬ toUInt64 i ≤ end_seq := UInt64.not_le.mpr hexit
  have hiterate : iterate store (.serving i end_seq) =
      some (.reading, []) := by
    rw [iterate, if_neg hnot]
  rw [run_of_iterate hiterate]
  cases turns <;> simp [run, iterate, asks, hnot]

/-- The counter passes `end_seq` before it overflows. -/
def Passes (i : Int32) (end_seq : UInt64) : Prop :=
  (0 ≤ i.toInt ∧ end_seq.toNat < 2 ^ 31 - 1) ∨
    (i.toInt < 0 ∧ end_seq.toNat < 2 ^ 64 - 1)

/-- A turn of the loop that is entered, and the counter after it. -/
theorem Passes.turn {i : Int32} {end_seq : UInt64} (hpasses : Passes i end_seq)
    (store : TradeMsgStore) (hentered : toUInt64 i ≤ end_seq) :
    iterate store (.serving i end_seq) =
        some (.serving (i + 1) end_seq, (store.get (toUInt64 i)).toList) ∧
      Passes (i + 1) end_seq ∧
      (toUInt64 (i + 1)).toNat = (toUInt64 i).toNat + 1 := by
  have hle : (toUInt64 i).toNat ≤ end_seq.toNat := hentered
  have hsmall : i.toInt < 2 ^ 31 - 1 := by
    rcases hpasses with ⟨hnonneg, hend⟩ | ⟨hneg, -⟩
    · have hcast := toNat_toUInt64 hnonneg
      omega
    · omega
  have hsucc := toInt_succ hsmall
  refine ⟨?_, ?_⟩
  · rw [iterate, if_pos hentered, increment_of_lt hsmall]
  · rcases hpasses with ⟨hnonneg, hend⟩ | ⟨hneg, hend⟩
    · have hcast := toNat_toUInt64 hnonneg
      have hnext : 0 ≤ (i + 1).toInt := by omega
      have hcast' := toNat_toUInt64 hnext
      exact ⟨Or.inl ⟨hnext, hend⟩, by omega⟩
    · have hcast := toNat_toUInt64_neg hneg
      -- The counter does not reach zero: `end_seq` comes before.
      have hnext : (i + 1).toInt < 0 := by omega
      have hcast' := toNat_toUInt64_neg hnext
      exact ⟨Or.inr ⟨hnext, hend⟩, by omega⟩

/-- The loop sends the trades from the counter on, as far as they exist. -/
theorem run_serving {i : Int32} {end_seq : UInt64}
    (hpasses : Passes i end_seq)
    (hstart : (toUInt64 i).toNat ≤ end_seq.toNat + 1) :
    ∃ turns asked, run store turns (.serving i end_seq) =
        (.reading, store.between (toUInt64 i).toNat (end_seq.toNat + 1),
          asked) ∧
      ∀ index ∈ asked, index ≤ end_seq := by
  generalize hleft : end_seq.toNat + 1 - (toUInt64 i).toNat = left
  induction left generalizing i with
  | zero =>
      have hexit : (toUInt64 i).toNat = end_seq.toNat + 1 := by omega
      refine ⟨1, [], ?_, fun _ hindex => absurd hindex List.not_mem_nil⟩
      rw [run_exit (UInt64.lt_iff_toNat_lt.mpr (by omega)), hexit,
        TradeMsgStore.between_self]
  | succ left ih =>
      have hentered : toUInt64 i ≤ end_seq :=
        UInt64.le_iff_toNat_le.mpr (by omega)
      obtain ⟨hiterate, hpasses', hnext⟩ := hpasses.turn store hentered
      obtain ⟨turns, asked, hrun, hasked⟩ :=
        ih hpasses' (by omega) (by omega)
      refine ⟨turns + 1, toUInt64 i :: asked, ?_, ?_⟩
      · have hmore : (toUInt64 i).toNat < end_seq.toNat + 1 := by omega
        rw [run_of_iterate hiterate, hrun, hnext, between_step hmore]
        simp [asks, hentered, TradeMsgStore.get]
      · intro index hindex
        rcases List.mem_cons.mp hindex with rfl | hindex
        · exact hentered
        · exact hasked index hindex

/-- The loop cannot be left: its counter overflows first. -/
def Endless : SnapshotServer → Prop
  | .serving i end_seq =>
      (0 ≤ i.toInt ∧ 2 ^ 31 - 1 ≤ end_seq.toNat) ∨ end_seq.toNat = 2 ^ 64 - 1
  | .overflowed => True
  | _ => False

theorem toInt_lt_of_ne_maxValue {i : Int32} (hi : i ≠ Int32.maxValue) :
    i.toInt < 2 ^ 31 - 1 := by
  have hle := Int32.toInt_le i
  have hmax : Int32.maxValue.toInt = 2 ^ 31 - 1 := rfl
  have hne : i.toInt ≠ Int32.maxValue.toInt :=
    fun heq => hi (Int32.toInt_inj.mp heq)
  omega

theorem Endless.entered {i : Int32} {end_seq : UInt64}
    (hendless : Endless (.serving i end_seq)) : toUInt64 i ≤ end_seq := by
  apply UInt64.le_iff_toNat_le.mpr
  rcases hendless with ⟨hnonneg, hend⟩ | hend
  · have hcast := toNat_toUInt64 hnonneg
    have hle := Int32.toInt_le i
    have hmax : Int32.maxValue.toInt = 2 ^ 31 - 1 := rfl
    omega
  · have hlt := (toUInt64 i).toNat_lt
    omega

theorem Endless.run {server : SnapshotServer} (hendless : Endless server)
    (turns : ℕ) : Endless (run store turns server).1 := by
  induction turns generalizing server with
  | zero => exact hendless
  | succ turns ih =>
      cases server with
      | reading => exact hendless.elim
      | replaying i => exact hendless.elim
      | overflowed => exact hendless
      | serving i end_seq =>
          have hiterate : iterate store (.serving i end_seq) =
              some (increment (fun i => .serving i end_seq) i,
                (store.get (toUInt64 i)).toList) := by
            rw [iterate, if_pos hendless.entered]
          rw [run_of_iterate hiterate]
          apply ih
          unfold increment
          by_cases hmax : i = Int32.maxValue
          · rw [if_pos hmax]
            trivial
          · have hsucc := toInt_succ (toInt_lt_of_ne_maxValue hmax)
            rw [if_neg hmax]
            rcases hendless with ⟨hnonneg, hend⟩ | hend
            · exact Or.inl ⟨by omega, hend⟩
            · exact Or.inr hend

theorem Endless.not_reading {server : SnapshotServer}
    (hendless : Endless server) (turns : ℕ) (sent : List ITCHTradeMsg)
    (asked : List UInt64) :
    SnapshotServer.run store turns server ≠ (.reading, sent, asked) := by
  intro hrun
  have hlast : Endless (SnapshotServer.run store turns server).1 :=
    hendless.run turns
  rw [hrun] at hlast
  exact hlast

/-! ## Requests -/

theorem length_between {start stop : ℕ} (hle : start ≤ stop)
    (hstop : stop ≤ store.vec_.length) :
    (store.between start stop).length = stop - start := by
  rw [TradeMsgStore.between, List.length_take, List.length_drop]
  omega

/-- The two ways in which the counter starts. -/
theorem first_cases (start : UInt64) :
    (0 ≤ (toInt32 start).toInt ∧
        (toUInt64 (toInt32 start)).toNat < 2 ^ 31) ∨
      ((toInt32 start).toInt < 0 ∧
        2 ^ 64 - 2 ^ 31 ≤ (toUInt64 (toInt32 start)).toNat) := by
  have hle := Int32.toInt_le (toInt32 start)
  have hge := Int32.le_toInt (toInt32 start)
  have hmax : Int32.maxValue.toInt = 2 ^ 31 - 1 := rfl
  have hmin : Int32.minValue.toInt = -2 ^ 31 := rfl
  rcases Int.lt_or_le (toInt32 start).toInt 0 with hneg | hnonneg
  · have hcast := toNat_toUInt64_neg hneg
    exact Or.inr ⟨hneg, by omega⟩
  · have hcast := toNat_toUInt64 hnonneg
    exact Or.inl ⟨hnonneg, by omega⟩

theorem answersRange_of_counterFits {msg : ITCHGapRequestMsg}
    (hfits : CounterFits store msg) : AnswersRange store msg := by
  unfold CounterFits at hfits
  unfold AnswersRange serveGapRequest
  by_cases hvalid : ValidRange store msg
  · rw [if_pos hvalid] at hfits ⊢
    obtain ⟨hfirst, hend⟩ := hfits
    have hle : msg.start_seq.toNat ≤ msg.end_seq.toNat := hvalid.1
    have hpasses : Passes (toInt32 msg.start_seq) msg.end_seq := by
      rcases first_cases msg.start_seq with ⟨hnonneg, hlow⟩ | ⟨hneg, hhigh⟩
      · rw [hfirst] at hlow
        exact Or.inl ⟨hnonneg, by omega⟩
      · rw [hfirst] at hhigh
        exact Or.inr ⟨hneg, by omega⟩
    have hstart : (toUInt64 (toInt32 msg.start_seq)).toNat ≤
        msg.end_seq.toNat + 1 := by
      rw [hfirst]
      omega
    obtain ⟨turns, asked, hrun, hasked⟩ := run_serving hpasses hstart
    rw [hfirst] at hrun
    refine ⟨turns, _, asked, hrun, rfl, ?_⟩
    intro index hindex
    have hindexLe : index.toNat ≤ msg.end_seq.toNat := hasked index hindex
    exact lt_of_le_of_lt hindexLe hvalid.2
  · rw [if_neg hvalid] at hfits ⊢
    exact ⟨1, [], [], run_exit hfits 0, rfl,
      fun _ hindex => absurd hindex List.not_mem_nil⟩

/-- A loop that is entered asks for its first index and sends what it gets. -/
theorem run_entered {i : Int32} {end_seq : UInt64} {turns : ℕ}
    {sent : List ITCHTradeMsg} {asked : List UInt64}
    (hentered : toUInt64 i ≤ end_seq)
    (hrun : run store turns (.serving i end_seq) = (.reading, sent, asked)) :
    toUInt64 i ∈ asked ∧ (store.get (toUInt64 i)).toList.Sublist sent := by
  cases turns with
  | zero => cases congrArg Prod.fst hrun
  | succ turns =>
      have hiterate : iterate store (.serving i end_seq) =
          some (increment (fun i => .serving i end_seq) i,
            (store.get (toUInt64 i)).toList) := by
        rw [iterate, if_pos hentered]
      rw [run_of_iterate hiterate, Prod.mk.injEq, Prod.mk.injEq] at hrun
      obtain ⟨-, hsent, hasked⟩ := hrun
      rw [← hsent, ← hasked]
      constructor
      · simp [asks, hentered]
      · exact List.sublist_append_left _ _

theorem counterFits_of_invalid {msg : ITCHGapRequestMsg}
    (hinvalid : ¬ ValidRange store msg) (hanswers : AnswersRange store msg) :
    msg.end_seq < toUInt64 (toInt32 msg.start_seq) := by
  obtain ⟨turns, sent, asked, hrun, hsent, hasked⟩ := hanswers
  rw [if_neg hinvalid] at hsent
  apply Classical.byContradiction
  intro hnot
  obtain ⟨hmem, hsub⟩ := run_entered (UInt64.not_lt.mp hnot) hrun
  have hindex := hasked _ hmem
  rw [hsent, TradeMsgStore.get, List.getElem?_eq_getElem hindex] at hsub
  exact absurd hsub.length_le (by simp)

theorem counterFits_of_valid {msg : ITCHGapRequestMsg}
    (hvalid : ValidRange store msg) (hanswers : AnswersRange store msg) :
    toUInt64 (toInt32 msg.start_seq) = msg.start_seq ∧
      (msg.end_seq.toNat < 2 ^ 31 - 1 ∨
        (2 ^ 31 ≤ msg.start_seq.toNat ∧ msg.end_seq.toNat < 2 ^ 64 - 1)) := by
  obtain ⟨turns, sent, asked, hrun, hsent, -⟩ := hanswers
  rw [if_pos hvalid] at hsent
  obtain ⟨hstart, hend⟩ := hvalid
  have hle : msg.start_seq.toNat ≤ msg.end_seq.toNat := hstart
  have hlength : (store.between msg.start_seq.toNat
      (msg.end_seq.toNat + 1)).length =
        msg.end_seq.toNat + 1 - msg.start_seq.toNat :=
    length_between (by omega) hend
  rcases first_cases msg.start_seq with ⟨hnonneg, hlow⟩ | ⟨hneg, hhigh⟩
  · have hshort : msg.end_seq.toNat < 2 ^ 31 - 1 := by
      by_contra hlong
      have hendless : Endless (serveGapRequest msg) :=
        Or.inl ⟨hnonneg, by omega⟩
      exact hendless.not_reading turns sent asked hrun
    have hcast := toNat_toUInt64 hnonneg
    have hsame : (toInt32 msg.start_seq).toInt = msg.start_seq.toNat :=
      toInt_toInt32 (by omega)
    refine ⟨UInt64.toNat_inj.mp (by omega), Or.inl hshort⟩
  · have hlast : msg.end_seq.toNat < 2 ^ 64 - 1 := by
      by_contra hlong
      have hlt := msg.end_seq.toNat_lt
      have hendless : Endless (serveGapRequest msg) := Or.inr (by omega)
      exact hendless.not_reading turns sent asked hrun
    by_cases hexit : msg.end_seq < toUInt64 (toInt32 msg.start_seq)
    · have hempty := (run_unique hrun (run_exit hexit 0)).1
      rw [← hsent, hempty, List.length_nil] at hlength
      omega
    · have hentered : (toUInt64 (toInt32 msg.start_seq)).toNat ≤
          msg.end_seq.toNat := UInt64.not_lt.mp hexit
      obtain ⟨turns', asked', hserve, -⟩ :=
        run_serving (Or.inr ⟨hneg, hlast⟩) (by omega)
      have hrange := (run_unique hrun hserve).1
      rw [← hsent, hrange, length_between (by omega) hend] at hlength
      have hfirst : toUInt64 (toInt32 msg.start_seq) = msg.start_seq :=
        UInt64.toNat_inj.mp (by omega)
      rw [hfirst] at hhigh
      exact ⟨hfirst, Or.inr ⟨by omega, hlast⟩⟩

/-- A gap request is answered with exactly its range, or with nothing if the
range is not valid, if and only if the counter fits the request. -/
theorem serveGapRequest_answersRange_iff (store : TradeMsgStore)
    (msg : ITCHGapRequestMsg) :
    AnswersRange store msg ↔ CounterFits store msg := by
  constructor
  · intro hanswers
    unfold CounterFits
    by_cases hvalid : ValidRange store msg
    · rw [if_pos hvalid]
      exact counterFits_of_valid hvalid hanswers
    · rw [if_neg hvalid]
      exact counterFits_of_invalid hvalid hanswers
  · exact answersRange_of_counterFits

/-- A store of three trades and a request that ends past it: the request is
reported as invalid, the last two trades are sent, and `get` is asked for
three trades that do not exist. -/
theorem serveGapRequest_past_end :
    let store := TradeMsgStore.load
      [⟨7, 1, 1, 1, true, true⟩, ⟨8, 2, 2, 2, true, true⟩,
        ⟨9, 3, 3, 3, true, true⟩]
    let msg : ITCHGapRequestMsg := ⟨'0', 1, 5⟩
    ¬ ValidRange store msg ∧
      run store 6 (serveGapRequest msg) =
        (.reading, store.vec_.tail, [1, 2, 3, 4, 5]) ∧
      ¬ AnswersRange store msg := by
  intro store msg
  have hrun : run store 6 (serveGapRequest msg) =
      (.reading, store.vec_.tail, [1, 2, 3, 4, 5]) := by decide
  refine ⟨by decide, hrun, ?_⟩
  rintro ⟨turns, sent, asked, hrun', -, hasked⟩
  rw [(run_unique hrun' hrun).2] at hasked
  exact absurd (hasked 5 (by decide)) (by decide)

/-! ## Replays -/

/-- The loop of `replayAll` sends the trades from the counter on. -/
theorem run_replaying (hsmall : store.size < 2 ^ 31) {i : Int32}
    (hnonneg : 0 ≤ i.toInt) (hbound : i.toInt ≤ store.size) :
    ∃ turns asked, run store turns (.replaying i) =
        (.reading, store.vec_.drop i.toInt.toNat, asked) ∧
      ∀ index ∈ asked, index.toNat < store.size := by
  have hsize : store.size = store.vec_.length := rfl
  generalize hleft : store.size - i.toInt.toNat = left
  induction left generalizing i with
  | zero =>
      have hcast := toNat_toUInt64 hnonneg
      have hnot : ¬ (toUInt64 i).toNat < store.size := by omega
      refine ⟨1, [], ?_, fun _ hindex => absurd hindex List.not_mem_nil⟩
      rw [List.drop_eq_nil_of_le (by omega)]
      simp [run, iterate, asks, hnot]
  | succ left ih =>
      have hcast := toNat_toUInt64 hnonneg
      have hentered : (toUInt64 i).toNat < store.size := by omega
      have hindex : i.toInt.toNat < store.vec_.length := by omega
      have hsucc : (i + 1).toInt = i.toInt + 1 := toInt_succ (by omega)
      have hiterate : iterate store (.replaying i) =
          some (.replaying (i + 1), [store.vec_[i.toInt.toNat]]) := by
        rw [iterate, if_pos hentered, increment_of_lt (by omega),
          get_of_inRange hnonneg hindex]
        rfl
      have hnext : 0 ≤ (i + 1).toInt := by omega
      obtain ⟨turns, asked, hrun, hasked⟩ :=
        ih hnext (by omega) (by omega)
      refine ⟨turns + 1, toUInt64 i :: asked, ?_, ?_⟩
      · rw [run_of_iterate hiterate, hrun, hsucc,
          List.drop_eq_getElem_cons hindex,
          show (i.toInt + 1).toNat = i.toInt.toNat + 1 by omega]
        simp [asks, hentered]
      · intro index hmem
        rcases List.mem_cons.mp hmem with rfl | hmem
        · exact hentered
        · exact hasked index hmem

/-- The counter of `replayAll` is below `size` as long as there is an `int`. -/
def ReplaysOn : SnapshotServer → Prop
  | .replaying i => 0 ≤ i.toInt
  | .overflowed => True
  | _ => False

theorem ReplaysOn.run (hlarge : 2 ^ 31 ≤ store.size) {server : SnapshotServer}
    (hreplays : ReplaysOn server) (turns : ℕ) :
    ReplaysOn (run store turns server).1 := by
  induction turns generalizing server with
  | zero => exact hreplays
  | succ turns ih =>
      cases server with
      | reading => exact hreplays.elim
      | serving i end_seq => exact hreplays.elim
      | overflowed => exact hreplays
      | replaying i =>
          have hnonneg : 0 ≤ i.toInt := hreplays
          have hcast := toNat_toUInt64 hnonneg
          have hle := Int32.toInt_le i
          have hmax : Int32.maxValue.toInt = 2 ^ 31 - 1 := rfl
          have hentered : (toUInt64 i).toNat < store.size := by omega
          have hiterate : iterate store (.replaying i) =
              some (increment .replaying i,
                (store.get (toUInt64 i)).toList) := by
            rw [iterate, if_pos hentered]
          rw [run_of_iterate hiterate]
          apply ih
          unfold increment
          by_cases hlast : i = Int32.maxValue
          · rw [if_pos hlast]
            trivial
          · have hsucc := toInt_succ (toInt_lt_of_ne_maxValue hlast)
            rw [if_neg hlast]
            show 0 ≤ (i + 1).toInt
            omega

/-- A replay ends, with the whole store sent in order and no trade asked for
past its end, if and only if the store has fewer than `2 ^ 31` trades. -/
theorem replayAll_sends_store_iff (store : TradeMsgStore) :
    (∃ turns asked, run store turns replayAll =
        (.reading, store.vec_, asked) ∧
      ∀ index ∈ asked, index.toNat < store.size) ↔
      store.size < 2 ^ 31 := by
  constructor
  · rintro ⟨turns, asked, hrun, -⟩
    by_contra hshort
    have hlarge : 2 ^ 31 ≤ store.size := Nat.le_of_not_lt hshort
    have hreplays : ReplaysOn replayAll := le_of_eq rfl
    have hlast := hreplays.run hlarge turns
    rw [hrun] at hlast
    exact hlast
  · intro hsmall
    have hzero : (0 : Int32).toInt = 0 := rfl
    obtain ⟨turns, asked, hrun, hasked⟩ := run_replaying hsmall
      (le_of_eq hzero.symm) (by omega)
    exact ⟨turns, asked, hrun, hasked⟩

end SnapshotServer
end Ticker
end TradingStudies
