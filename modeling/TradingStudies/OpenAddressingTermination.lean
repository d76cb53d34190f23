import TradingStudies.OpenAddressingLoaded

/-!
# Termination of the loop of insert

The constructor accepts every number of buckets.  If it is a power of two, the
probe path visits the whole table and meets a free slot.  Otherwise the lowest
zero of `mask_` cuts the table into cycles: with `2 ^ exponent * odd` buckets,
a path never leaves a block of `2 ^ exponent` slots.  That many keys fill the
block long before the load check moves the table, and the next key of the
block is probed for ever.
-/

namespace TradingStudies
namespace HashMap
namespace OpenAddressingHashMap

open ProbeLoop

variable {Key Value : Type*} [Inhabited Key] [Inhabited Value]
  [DecidableEq Key]

/-- The loop of `insert` reaches a slot that is not occupied or has the
key. -/
def InsertStops (exceeds : ℕ → ℕ → Bool) (hash : Key → ℕ)
    (map : OpenAddressingHashMap Key Value) (key : Key) : Prop :=
  ∃ table, map.insertTable exceeds hash = some table ∧
    ∃ distance, table.stopsInsert key (table.probed hash key distance) = true

/-- In every reachable state, for every instance of the template and every
hash function. -/
def InsertAlwaysStops (initBuckets : ℕ) : Prop :=
  ∀ (Key Value : Type) [Inhabited Key] [Inhabited Value] [DecidableEq Key]
    (hash : Key → ℕ) (calls : List (Call Key Value)) (key : Key),
      InsertStops exceedsLoad hash
        (CallSystem.stateAfter (call exceedsLoad hash)
          (construct initBuckets Key Value) calls) key

theorem Loaded.insertStops {exceeds : ℕ → ℕ → Bool} {exponent : ℕ}
    {map : OpenAddressingHashMap Key Value} (hrule : GrowthRule exceeds)
    (hloaded : Loaded exceeds exponent map) (hash : Key → ℕ) (key : Key) :
    InsertStops exceeds hash map key := by
  obtain ⟨table, exponent', heval, htable, _⟩ :=
    hloaded.insertTable_spec hrule hash
  obtain ⟨distance, _, hfirst⟩ := htable.exists_insertStop hrule hash key
  exact ⟨table, heval, distance, hfirst.stops⟩

/-! ## The cycles of a table whose size is not a power of two -/

/-- `mask_` has a zero at the digit `exponent`. -/
theorem nextIndex_block {exponent half index : ℕ}
    (hindex : index < 2 ^ exponent) :
    nextIndex (2 ^ exponent * (2 * half + 1) - 1) index =
      (index + 1) % 2 ^ exponent := by
  have hpos := Nat.two_pow_pos exponent
  have hmask : 2 ^ exponent * (2 * half + 1) - 1 =
      2 ^ exponent - 1 + 2 ^ (exponent + 1) * half := by
    rw [pow_succ, mul_add, mul_one, mul_assoc]
    omega
  have hnext : index + 1 < 2 ^ (exponent + 1) := by
    rw [pow_succ]
    omega
  have hlow : 2 ^ exponent - 1 < 2 ^ (exponent + 1) := by
    rw [pow_succ]
    omega
  unfold nextIndex
  calc
    (index + 1) &&& (2 ^ exponent * (2 * half + 1) - 1) =
        ((index + 1) &&& (2 ^ exponent * (2 * half + 1) - 1)) %
          2 ^ (exponent + 1) :=
      (Nat.mod_eq_of_lt (lt_of_le_of_lt Nat.and_le_left hnext)).symm
    _ = (index + 1) &&& (2 ^ exponent - 1) := by
      rw [Nat.and_mod_two_pow, hmask, Nat.add_mul_mod_self_left,
        Nat.mod_eq_of_lt hnext, Nat.mod_eq_of_lt hlow]
    _ = (index + 1) % 2 ^ exponent := Nat.and_two_pow_sub_one_eq_mod _ _

omit [Inhabited Key] [Inhabited Value] [DecidableEq Key] in
theorem probed_block {map : OpenAddressingHashMap Key Value}
    {exponent half : ℕ}
    (hmask : map.mask_ = 2 ^ exponent * (2 * half + 1) - 1) (key : Key)
    (distance : ℕ) :
    map.probed (fun _ => 0) key distance = distance % 2 ^ exponent := by
  unfold probed getHash
  induction distance with
  | zero => rw [Function.iterate_zero_apply, Nat.zero_and, Nat.zero_mod]
  | succ distance ih =>
      have hlt := Nat.mod_lt distance (Nat.two_pow_pos exponent)
      rw [Function.iterate_succ_apply', ih, hmask, nextIndex_block hlt,
        Nat.mod_add_mod]

/-- One block of slots is at most a third of the table. -/
theorem exceedsLoad_block {exponent half count : ℕ} (hhalf : 1 ≤ half)
    (hcount : count ≤ 2 ^ exponent) :
    exceedsLoad (count + 1) (2 ^ exponent * (2 * half + 1)) = false := by
  have hthree : SignificandRound.round 24 3 = 3 :=
    SignificandRound.round_of_lt (by decide)
  have hsize : 2 ^ exponent * 3 ≤
      SignificandRound.round 24 (2 ^ exponent * (2 * half + 1)) := by
    calc
      2 ^ exponent * 3 =
          SignificandRound.round 24 (2 ^ exponent * 3) := by
        rw [SignificandRound.round_two_pow_mul, hthree]
      _ ≤ SignificandRound.round 24 (2 ^ exponent * (2 * half + 1)) :=
        SignificandRound.round_mono 24 (by omega)
          (Nat.mul_le_mul_left _ (by omega))
  have hcount : count + 1 ≤ 2 ^ (exponent + 1) := by
    have hpos := Nat.two_pow_pos exponent
    rw [pow_succ]
    omega
  unfold exceedsLoad
  rw [decide_eq_false_iff_not, gt_iff_lt, Nat.not_lt]
  calc
    SignificandRound.round 24 (count + 1) * 2 ^ 24 ≤
        2 ^ (exponent + 1) * 2 ^ 24 := by
      apply Nat.mul_le_mul_right
      have hround := SignificandRound.round_mono 24 (by omega) hcount
      rw [SignificandRound.round_two_pow 24 (by omega)] at hround
      exact hround
    _ = 2 ^ exponent * 2 ^ 25 := by
      rw [← pow_add, ← pow_add, Nat.add_assoc]
    _ ≤ 2 ^ exponent * SignificandRound.round 24 (maxLoadFactor_ * 3) :=
      Nat.mul_le_mul_left _ (by decide)
    _ = SignificandRound.round 24 (maxLoadFactor_ * (2 ^ exponent * 3)) := by
      rw [← SignificandRound.round_two_pow_mul, Nat.mul_left_comm]
    _ ≤ SignificandRound.round 24 (maxLoadFactor_ *
          SignificandRound.round 24 (2 ^ exponent * (2 * half + 1))) :=
      SignificandRound.round_mono 24 (by omega)
        (Nat.mul_le_mul_left _ hsize)

/-! ## Filling a block -/

/-- The first slots have the first keys, the others are as constructed. -/
structure Filled (tableSize : ℕ) (keys : ℕ → Key) (value : Value)
    (count : ℕ) (map : OpenAddressingHashMap Key Value) : Prop where
  length : map.table_.length = tableSize
  mask : map.mask_ = tableSize - 1
  size : map.size_ = count
  front : ∀ index < count, map.nodeAt index = ⟨keys index, value, .OCCUPIED⟩
  rest : ∀ index, count ≤ index → map.nodeAt index = fresh

variable {tableSize exponent half count : ℕ} {keys : ℕ → Key}
  {value : Value} {map : OpenAddressingHashMap Key Value}

omit [DecidableEq Key] in
theorem filled_zero (tableSize : ℕ) (keys : ℕ → Key) (value : Value) :
    Filled tableSize keys value 0 (construct tableSize Key Value) where
  length := List.length_replicate
  mask := rfl
  size := rfl
  front := fun _ hindex => absurd hindex (Nat.not_lt_zero _)
  rest := fun _ _ => nodeAt_ofSize tableSize

omit [DecidableEq Key] in
theorem Filled.occupy (hfilled : Filled tableSize keys value count map)
    (hcount : count < tableSize) :
    Filled tableSize keys value (count + 1)
      (map.occupy count (keys count) value) := by
  have hlt : count < map.table_.length := by
    rw [hfilled.length]
    exact hcount
  have hnode (other : ℕ) :
      (map.occupy count (keys count) value).nodeAt other =
        if other = count then ⟨keys count, value, .OCCUPIED⟩
        else map.nodeAt other :=
    nodeAt_setNode hlt _ other
  exact
    { length := by
        rw [← hfilled.length]
        exact List.length_set
      mask := hfilled.mask
      size := congrArg Nat.succ hfilled.size
      front := by
        intro index hindex
        rw [hnode]
        split
        · rename_i heq
          rw [heq]
        · exact hfilled.front index (by omega)
      rest := by
        intro index hindex
        rw [hnode, if_neg (by omega)]
        exact hfilled.rest index (by omega) }

/-- A slot of the block with another key does not stop the loop. -/
theorem Filled.passes (hfilled : Filled tableSize keys value count map)
    {index other : ℕ} (hindex : index < count)
    (hne : keys index ≠ keys other) :
    map.stopsInsert (keys other) index = false := by
  unfold stopsInsert Node.holds
  rw [hfilled.front index hindex, decide_eq_false (not_not.mpr rfl),
    Bool.false_or, decide_eq_false_iff_not]
  exact fun hholds => hne hholds.2

/-- The next key finds the first free slot of the block. -/
theorem Filled.place
    (hfilled : Filled (2 ^ exponent * (2 * half + 1)) keys value count map)
    (hkeys : Set.InjOn keys (Set.Iic (2 ^ exponent)))
    (hcount : count < 2 ^ exponent) :
    map.place (fun _ => 0) (keys count) value =
      some (map.occupy count (keys count) value) := by
  have hprobed (distance : ℕ) :
      (nextIndex map.mask_)^[distance]
          (map.getHash (fun _ => 0) (keys count)) =
        distance % 2 ^ exponent :=
    probed_block hfilled.mask (keys count) distance
  have hfree : (map.nodeAt count).status ≠ .OCCUPIED := by
    rw [hfilled.rest count le_rfl]
    intro hstatus
    cases hstatus
  have hfirst : FirstStop (nextIndex map.mask_)
      (map.stopsInsert (keys count)) (map.getHash (fun _ => 0) (keys count))
      count :=
    { stops := by
        rw [hprobed, Nat.mod_eq_of_lt hcount, stopsInsert,
          decide_eq_true hfree, Bool.true_or]
      before := by
        intro earlier hearlier
        rw [hprobed, Nat.mod_eq_of_lt (hearlier.trans hcount)]
        apply hfilled.passes hearlier
        intro heq
        have hsame := hkeys (hearlier.trans hcount).le hcount.le heq
        omega }
  have hsteps : count < map.table_.length + 1 := by
    rw [hfilled.length]
    have hsize : 2 ^ exponent ≤ 2 ^ exponent * (2 * half + 1) :=
      Nat.le_mul_of_pos_right _ (Nat.succ_pos _)
    omega
  have hprobe : probe (nextIndex map.mask_) (map.stopsInsert (keys count))
      none (map.table_.length + 1)
      (map.getHash (fun _ => 0) (keys count)) = some (.stopped count) := by
    rw [probe_of_firstStop hfirst _ hsteps, hprobed, Nat.mod_eq_of_lt hcount]
    intro earlier _ hnone
    cases hnone
  unfold OpenAddressingHashMap.place
  rw [hprobe]
  dsimp only
  rw [if_neg hfree]

theorem Filled.insertTable
    (hfilled : Filled (2 ^ exponent * (2 * half + 1)) keys value count map)
    (hhalf : 1 ≤ half) (hcount : count ≤ 2 ^ exponent) (hash : Key → ℕ) :
    map.insertTable exceedsLoad hash = some map := by
  have hroom : ¬ exceedsLoad (map.size_ + 1) map.table_.length = true := by
    rw [hfilled.size, hfilled.length, exceedsLoad_block hhalf hcount]
    exact Bool.false_ne_true
  exact if_neg hroom

theorem call_insert {exceeds : ℕ → ℕ → Bool} {hash : Key → ℕ} {key : Key}
    {after : OpenAddressingHashMap Key Value}
    (hinsert : map.insert exceeds hash key value = some after) :
    map.call exceeds hash (.insert key value) = (after, .done) := by
  simp only [call, hinsert]

theorem Filled.insert
    (hfilled : Filled (2 ^ exponent * (2 * half + 1)) keys value count map)
    (hhalf : 1 ≤ half) (hkeys : Set.InjOn keys (Set.Iic (2 ^ exponent)))
    (hcount : count < 2 ^ exponent) :
    Filled (2 ^ exponent * (2 * half + 1)) keys value (count + 1)
      (map.call exceedsLoad (fun _ => 0) (.insert (keys count) value)).1 := by
  have hsize : 2 ^ exponent ≤ 2 ^ exponent * (2 * half + 1) :=
    Nat.le_mul_of_pos_right _ (Nat.succ_pos _)
  have hinsert : map.insert exceedsLoad (fun _ => 0) (keys count) value =
      some (map.occupy count (keys count) value) := by
    rw [insert_eq, hfilled.insertTable hhalf hcount.le]
    exact hfilled.place hkeys hcount
  rw [call_insert hinsert]
  exact hfilled.occupy (hcount.trans_le hsize)

/-- The word that inserts the first keys. -/
def fillCalls (keys : ℕ → Key) (value : Value) (count : ℕ) :
    List (Call Key Value) :=
  (List.range count).map fun index => .insert (keys index) value

theorem fillCalls_filled (hhalf : 1 ≤ half)
    (hkeys : Set.InjOn keys (Set.Iic (2 ^ exponent)))
    (hcount : count ≤ 2 ^ exponent) (value : Value) :
    Filled (2 ^ exponent * (2 * half + 1)) keys value count
      (CallSystem.stateAfter (call exceedsLoad fun _ => 0)
        (construct (2 ^ exponent * (2 * half + 1)) Key Value)
        (fillCalls keys value count)) := by
  induction count with
  | zero => exact filled_zero _ keys value
  | succ count ih =>
      have hfilled := ih (by omega)
      have hcalls : fillCalls keys value (count + 1) =
          fillCalls keys value count ++ [.insert (keys count) value] := by
        unfold fillCalls
        rw [List.range_succ, List.map_append]
        rfl
      rw [hcalls, CallSystem.stateAfter_snoc]
      exact hfilled.insert hhalf hkeys hcount

/-- With the block full of other keys, no slot on the path of one more key
stops the loop. -/
theorem Filled.not_insertStops
    (hfilled : Filled (2 ^ exponent * (2 * half + 1)) keys value
      (2 ^ exponent) map)
    (hhalf : 1 ≤ half) (hkeys : Set.InjOn keys (Set.Iic (2 ^ exponent))) :
    ¬ InsertStops exceedsLoad (fun _ => 0) map (keys (2 ^ exponent)) := by
  rintro ⟨table, htable, distance, hstop⟩
  rw [hfilled.insertTable hhalf le_rfl, Option.some.injEq] at htable
  subst htable
  have hblock : distance % 2 ^ exponent < 2 ^ exponent :=
    Nat.mod_lt _ (Nat.two_pow_pos exponent)
  have hpass : map.stopsInsert (keys (2 ^ exponent))
      (distance % 2 ^ exponent) = false := by
    apply hfilled.passes hblock
    intro heq
    have hsame := hkeys hblock.le Set.self_mem_Iic heq
    omega
  rw [probed_block hfilled.mask, hpass] at hstop
  cases hstop

/-- If the number of buckets is not a power of two, as many different keys with
one hash value make `insert` loop. -/
theorem exists_insert_loops {initBuckets : ℕ} (hpos : 1 ≤ initBuckets)
    (hpower : ¬ ∃ exponent, initBuckets = 2 ^ exponent)
    (hkeys : Set.InjOn keys (Set.Iio initBuckets)) (value : Value) :
    ∃ calls key,
      ¬ InsertStops exceedsLoad (fun _ => 0)
        (CallSystem.stateAfter (call exceedsLoad fun _ => 0)
          (construct initBuckets Key Value) calls) key := by
  obtain ⟨exponent, odd, ⟨half, rfl⟩, rfl⟩ :=
    Nat.exists_eq_two_pow_mul_odd (Nat.ne_of_gt hpos)
  have hhalf : 1 ≤ half := by
    rw [Nat.one_le_iff_ne_zero]
    intro hzero
    apply hpower
    exact ⟨exponent, by rw [hzero, Nat.mul_zero, Nat.zero_add, Nat.mul_one]⟩
  have hblock : Set.InjOn keys (Set.Iic (2 ^ exponent)) := by
    apply hkeys.mono
    intro index hindex
    have hle : index ≤ 2 ^ exponent := hindex
    exact lt_of_le_of_lt hle
      (lt_mul_of_one_lt_right (Nat.two_pow_pos exponent) (by omega))
  exact ⟨_, _,
    (fillCalls_filled hhalf hblock le_rfl value).not_insertStops hhalf hblock⟩

/-! ## Every table the constructor accepts -/

/-- The loop of `insert` ends in every reachable state exactly when the number
of buckets is a power of two. -/
theorem openAddressing_insert_stops_iff (initBuckets : ℕ)
    (hpos : 1 ≤ initBuckets) :
    InsertAlwaysStops initBuckets ↔ ∃ exponent, initBuckets = 2 ^ exponent := by
  constructor
  · intro hstops
    by_contra hpower
    obtain ⟨calls, key, hloops⟩ := exists_insert_loops hpos hpower
      (Function.injective_id.injOn) (0 : ℕ)
    exact hloops (hstops ℕ ℕ (fun _ => 0) calls key)
  · rintro ⟨exponent, rfl⟩
    intro Key Value _ _ _ hash calls key
    obtain ⟨exponent', hloaded⟩ :=
      run_loaded exceedsLoad_growthRule hash exponent calls
    exact hloaded.insertStops exceedsLoad_growthRule hash key

theorem openAddressing_insert_stops_eight : InsertAlwaysStops 8 :=
  (openAddressing_insert_stops_iff 8 (by decide)).mpr ⟨3, rfl⟩

/-- Three buckets, `mask_` 2: from slot 0 the path stays at slot 0, which has
key 1, while slot 1 and slot 2 are empty. -/
theorem openAddressing_three_buckets :
    let hash : ℕ → ℕ := fun _ => 0
    let last := CallSystem.stateAfter (call exceedsLoad hash)
      (construct 3 ℕ ℕ) [.insert 1 5]
    last.table_.map Node.status = [.OCCUPIED, .EMPTY, .EMPTY] ∧
      (last.call exceedsLoad hash (.insert 2 6)).2 = .undefined ∧
      ¬ InsertStops exceedsLoad hash last 2 ∧ ¬ InsertAlwaysStops 3 := by
  have hloops : ¬ InsertStops exceedsLoad (fun _ => 0)
      (CallSystem.stateAfter (call exceedsLoad fun _ => 0)
        (construct 3 ℕ ℕ) [.insert 1 5]) 2 := by
    have hkeys : Set.InjOn Nat.succ (Set.Iic (2 ^ 0)) :=
      Nat.succ_injective.injOn
    have hhalf : 1 ≤ 1 := le_rfl
    exact (fillCalls_filled hhalf hkeys le_rfl 5).not_insertStops hhalf hkeys
  intro hash last
  refine ⟨by decide, by decide, hloops, ?_⟩
  intro hstops
  exact hloops (hstops ℕ ℕ _ _ 2)

end OpenAddressingHashMap
end HashMap
end TradingStudies
