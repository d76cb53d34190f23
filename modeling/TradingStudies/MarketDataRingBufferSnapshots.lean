import TradingStudies.MarketDataRingBuffer

/-!
# The snapshots that are handed out

While the index does not wrap around, the ring holds the last `capacity`
snapshots inserted.  `getLastNSnapshots` limits its argument to the number of
snapshots inserted, but not to the number of those kept, and goes round the
ring a second time when more is asked for.
-/

namespace TradingStudies
namespace MarketDataRingBuffer

open RingIndex

variable {Price : Type*}

def inserted (calls : List (Call Price)) : List (Snapshot Price) :=
  calls.filterMap fun
    | .insert timestamp bidPrice askPrice =>
        some (timestamp, bidPrice, askPrice)
    | .getLastNSnapshots _ => none

section Ring

variable {exponent : ℕ} {buffer : RingBuffer (2 ^ exponent) Price}
  {written : List (Snapshot Price)}

/-- The buffer after the snapshots `written`. -/
structure Represents (buffer : RingBuffer (2 ^ exponent) Price)
    (written : List (Snapshot Price)) : Prop where
  counts : Counts buffer written.length
  slots : HoldsLast (fun index => some (buffer.ring_buffer index)) written

theorem fresh_represents [Inhabited Price] (exponent : ℕ) :
    Represents (fresh (2 ^ exponent) Price) [] :=
  ⟨fresh_counts exponent, holdsLast_nil _⟩

/-- An index that is the remainder of a ticket is the place of the ticket. -/
theorem slotAt_eq_place {index : Int32} {ticket : ℕ}
    (hindex : index.toInt = (ticket : ℤ) % 2 ^ exponent) :
    slotAt (2 ^ exponent) index = some (place (2 ^ exponent) ticket) := by
  have hcast : index.toInt = (ticket % 2 ^ exponent : ℕ) := by
    rw [hindex, Int.natCast_mod, Nat.cast_pow, Nat.cast_ofNat]
  have hlt : ticket % 2 ^ exponent < 2 ^ exponent :=
    Nat.mod_lt _ (Nat.two_pow_pos exponent)
  rw [slotAt_of_inBounds (by omega) (by omega), Option.some.injEq]
  apply Fin.ext
  exact (congrArg Int.toNat hcast).trans (Int.toNat_natCast _)

theorem Represents.insert (hrep : Represents buffer written)
    (hexponent : exponent < 31) (hfew : written.length < 2 ^ 31)
    (snapshot : Snapshot Price) :
    Represents (buffer.insert snapshot) (written ++ [snapshot]) := by
  have hindex : buffer.insertIndex.toInt =
      (written.length : ℤ) % 2 ^ exponent := by
    have hsame : (written.length : ℤ).bmod (2 ^ 32) = written.length :=
      Int.bmod_eq_of_le (by omega) (by omega)
    rw [hrep.counts.toInt_insertIndex hexponent]
    unfold insertRemainder
    rw [hsame]
    exact Int.tmod_eq_emod_of_nonneg (Int.natCast_nonneg _)
  constructor
  · rw [List.length_append, List.length_singleton]
    exact hrep.counts.insert snapshot
  · have hring : (fun index => some ((buffer.insert snapshot).ring_buffer
        index)) = Function.update
          (fun index => some (buffer.ring_buffer index))
          (place (2 ^ exponent) written.length) (some snapshot) := by
      unfold RingBuffer.insert
      rw [slotAt_eq_place hindex]
      exact Function.comp_update some buffer.ring_buffer _ snapshot
    rw [hring]
    exact hrep.slots.write snapshot

/-! ## Reading -/

theorem Represents.toInt_readCount (hrep : Represents buffer written)
    (hfew : written.length < 2 ^ 31) {n : Int32} (hn : 0 ≤ n.toInt) :
    (buffer.readCount n).toInt = (min n.toInt.toNat written.length : ℕ) := by
  have hcount : (Int32.ofInt written.length).toInt = written.length :=
    Int32.toInt_ofInt_of_le (by omega) (by omega)
  unfold RingBuffer.readCount
  rw [hrep.counts.next]
  by_cases hle : n ≤ Int32.ofInt written.length
  · have hint := Int32.le_iff_toInt_le.mp hle
    have hmin : min n (Int32.ofInt written.length) = n := if_pos hle
    rw [hmin]
    omega
  · have hint : ¬ n.toInt ≤ (Int32.ofInt written.length).toInt :=
      fun h => hle (Int32.le_iff_toInt_le.mpr h)
    have hmin : min n (Int32.ofInt written.length) =
        Int32.ofInt written.length := if_neg hle
    rw [hmin]
    omega

theorem Represents.toInt_offset (hrep : Represents buffer written)
    (hexponent : exponent < 31)
    (hfew : written.length < 2 ^ 31 - 1 - 2 ^ exponent) {n : Int32}
    (hn : 0 ≤ n.toInt) :
    (buffer.offset n).toInt =
      ((written.length - min n.toInt.toNat written.length : ℕ) : ℤ) %
        2 ^ exponent := by
  have hpow := Nat.two_pow_pos exponent
  have hread := hrep.toInt_readCount (by omega) hn
  have hcapacity := toInt_ofNat_pow hexponent
  have hcast : ((2 ^ exponent : ℕ) : ℤ) = 2 ^ exponent := Nat.cast_pow 2 _
  have hcount : (Int32.ofInt written.length).toInt = written.length :=
    Int32.toInt_ofInt_of_le (by omega) (by omega)
  have hdifference :
      (Int32.ofInt written.length - buffer.readCount n).toInt =
        (written.length - min n.toInt.toNat written.length : ℕ) := by
    rw [Int32.toInt_sub, hread, hcount]
    rw [Int.bmod_eq_of_le (by omega) (by omega)]
    omega
  have hsum : (Int32.ofInt written.length - buffer.readCount n +
      Int32.ofNat (2 ^ exponent)).toInt =
        (written.length - min n.toInt.toNat written.length : ℕ) +
          2 ^ exponent := by
    rw [Int32.toInt_add, hdifference, hcapacity]
    exact Int.bmod_eq_of_le (by omega) (by omega)
  unfold RingBuffer.offset
  rw [hrep.counts.next, hrep.counts.capacity, hrep.counts.mask,
    toInt_and_mask hexponent, hsum, Int.add_emod_right]

/-- The turn `i` of the loop reads the place of a ticket. -/
theorem Represents.getLastNSnapshots_eq (hrep : Represents buffer written)
    (hexponent : exponent < 31)
    (hfew : written.length < 2 ^ 31 - 1 - 2 ^ exponent) {n : Int32}
    (hn : 0 ≤ n.toInt) :
    buffer.getLastNSnapshots n =
      (List.range (min n.toInt.toNat written.length)).map fun i =>
        some (buffer.ring_buffer (place (2 ^ exponent)
          (written.length - min n.toInt.toNat written.length + i))) := by
  have hpow := Nat.two_pow_pos exponent
  have hread := hrep.toInt_readCount (by omega) hn
  have hoffset := hrep.toInt_offset hexponent hfew hn
  have hturns : (buffer.readCount n).toNatClampNeg =
      min n.toInt.toNat written.length := by
    unfold Int32.toNatClampNeg
    rw [hread, Int.toNat_natCast]
  unfold RingBuffer.getLastNSnapshots RingBuffer.readIndices
  rw [hturns, List.map_map]
  apply List.map_congr_left
  intro i hi
  rw [List.mem_range] at hi
  have hpos : (0 : ℤ) < 2 ^ exponent := pow_pos (by norm_num) exponent
  have hlow := Int.emod_nonneg
    ((written.length - min n.toInt.toNat written.length : ℕ) : ℤ) hpos.ne'
  have hhigh := Int.emod_lt_of_pos
    ((written.length - min n.toInt.toNat written.length : ℕ) : ℤ) hpos
  have hcast : ((2 ^ exponent : ℕ) : ℤ) = 2 ^ exponent := Nat.cast_pow 2 _
  have hsum : (Int32.ofNat i + buffer.offset n).toInt =
      i + ((written.length - min n.toInt.toNat written.length : ℕ) : ℤ) %
        2 ^ exponent := by
    rw [Int32.toInt_add, Int32.toInt_ofNat_of_lt (by omega), hoffset]
    exact Int.bmod_eq_of_le (by omega) (by omega)
  have hindex :
      ((Int32.ofNat i + buffer.offset n) &&& buffer.m_cap_mask).toInt =
        ((written.length - min n.toInt.toNat written.length + i : ℕ) : ℤ) %
          2 ^ exponent := by
    rw [hrep.counts.mask, toInt_and_mask hexponent, hsum, Int.add_emod_emod,
      Nat.cast_add, Int.add_comm]
  simp only [Function.comp_apply, slotAt_eq_place hindex, Option.map_some]

/-- The tickets that are read are those of the last snapshots, as long as all
of them are kept. -/
theorem Represents.getLastNSnapshots_kept (hrep : Represents buffer written)
    (hexponent : exponent < 31)
    (hfew : written.length < 2 ^ 31 - 1 - 2 ^ exponent) {n : Int32}
    (hn : 0 ≤ n.toInt)
    (hkept : min n.toInt.toNat written.length ≤ 2 ^ exponent) :
    buffer.getLastNSnapshots n =
      (written.rtake (min n.toInt.toNat written.length)).map some := by
  rw [hrep.getLastNSnapshots_eq hexponent hfew hn]
  unfold List.rtake
  apply List.ext_getElem
  · rw [List.length_map, List.length_range, List.length_map,
      List.length_drop]
    omega
  · intro i hi hi'
    rw [List.length_map, List.length_range] at hi
    have hslot := hrep.slots
      (written.length - min n.toInt.toNat written.length + i) (by omega)
      (by omega)
    dsimp only at hslot
    rw [List.getElem_map, List.getElem_map, List.getElem_range, hslot,
      List.getElem?_eq_getElem (by omega), List.getElem_drop]

theorem Represents.recent_iff (hrep : Represents buffer written)
    (hexponent : exponent < 31)
    (hfew : written.length < 2 ^ 31 - 1 - 2 ^ exponent) {n : Int32}
    (hn : 0 ≤ n.toInt) :
    buffer.getLastNSnapshots n =
        (written.rtake (min n.toInt.toNat (2 ^ exponent))).map some ↔
      n.toInt ≤ 2 ^ exponent ∨ written.length ≤ 2 ^ exponent := by
  have hpow := Nat.two_pow_pos exponent
  have hcast : ((2 ^ exponent : ℕ) : ℤ) = 2 ^ exponent := Nat.cast_pow 2 _
  constructor
  · intro hsame
    by_contra hnot
    rw [not_or] at hnot
    have hlength := congrArg List.length hsame
    rw [hrep.getLastNSnapshots_eq hexponent hfew hn, List.length_map,
      List.length_range, List.length_map, List.rtake, List.length_drop]
      at hlength
    omega
  · intro hkept
    rw [hrep.getLastNSnapshots_kept hexponent hfew hn (by omega)]
    have hsame : written.length - min n.toInt.toNat written.length =
        written.length - min n.toInt.toNat (2 ^ exponent) := by omega
    rw [List.rtake, List.rtake, hsame]

end Ring

/-! ## Whole runs -/

theorem Represents.stateAfter {exponent : ℕ} (hexponent : exponent < 31)
    {buffer : RingBuffer (2 ^ exponent) Price}
    {written : List (Snapshot Price)} (hrep : Represents buffer written)
    {calls : List (Call Price)}
    (hfew : written.length + (inserted calls).length < 2 ^ 31) :
    Represents (CallSystem.stateAfter call buffer calls)
      (written ++ inserted calls) := by
  induction calls generalizing buffer written with
  | nil =>
      rw [inserted, List.filterMap_nil, List.append_nil]
      exact hrep
  | cons c rest ih =>
      cases c with
      | insert timestamp bidPrice askPrice =>
          have hcons : inserted (.insert timestamp bidPrice askPrice :: rest) =
              (timestamp, bidPrice, askPrice) :: inserted rest := rfl
          rw [hcons, List.length_cons] at hfew
          have hnext := hrep.insert hexponent (by omega)
            (timestamp, bidPrice, askPrice)
          have hrest := ih hnext (by
            rw [List.length_append, List.length_singleton]
            omega)
          rw [List.append_assoc, List.singleton_append] at hrest
          rw [hcons]
          exact hrest
      | getLastNSnapshots n => exact ih hrep hfew

/-- The snapshots handed out are the most recent ones exactly when no more is
asked for than is kept, or everything inserted is kept. -/
theorem ringBuffer_recent_iff [Inhabited Price] (exponent : ℕ)
    (hexponent : exponent < 31) (calls : List (Call Price))
    (hfew : (inserted calls).length < 2 ^ 31 - 1 - 2 ^ exponent) (n : Int32)
    (hn : 0 ≤ n.toInt) :
    ∃ buffer, construct (2 ^ exponent) Price = .ok buffer ∧
      ((CallSystem.stateAfter call buffer calls).getLastNSnapshots n =
          ((inserted calls).rtake (min n.toInt.toNat (2 ^ exponent))).map
            some ↔
        n.toInt ≤ 2 ^ exponent ∨
          (inserted calls).length ≤ 2 ^ exponent) := by
  have hpow := Nat.two_pow_pos exponent
  refine ⟨_, construct_pow_two hexponent, ?_⟩
  have hstart : ([] : List (UInt64 × Price × Price)).length +
      (inserted calls).length < 2 ^ 31 := by
    rw [List.length_nil]
    omega
  have hafter := (fresh_represents exponent).stateAfter hexponent hstart
  rw [List.nil_append] at hafter
  exact hafter.recent_iff hexponent hfew hn

/-- The last two of five snapshots in a ring of four. -/
theorem ringBuffer_recent_four :
    ∃ buffer, construct (2 ^ 2) ℕ = .ok buffer ∧
      (CallSystem.stateAfter call buffer
          [.insert 100 49 50, .insert 101 47 52, .insert 102 46 51,
            .insert 103 48 53, .insert 104 45 54]).getLastNSnapshots 2 =
        [some (103, 48, 53), some (104, 45, 54)] := by
  obtain ⟨buffer, hbuffer, hiff⟩ := ringBuffer_recent_iff 2 (by decide)
    ([.insert 100 49 50, .insert 101 47 52, .insert 102 46 51,
      .insert 103 48 53, .insert 104 45 54] : List (Call ℕ)) (by decide) 2
    (by decide)
  exact ⟨buffer, hbuffer, (hiff.mpr (Or.inl (by decide))).trans (by decide)⟩

/-- Three snapshots in a ring of two, and all of them asked for. -/
theorem ringBuffer_repeats_snapshot :
    let calls : List (Call ℕ) :=
      [.insert 100 49 50, .insert 101 47 52, .insert 102 46 51]
    ∃ buffer, construct (2 ^ 1) ℕ = .ok buffer ∧
      (CallSystem.stateAfter call buffer calls).getLastNSnapshots 3 =
        [some (102, 46, 51), some (101, 47, 52), some (102, 46, 51)] ∧
      (CallSystem.stateAfter call buffer calls).getLastNSnapshots 3 ≠
        ((inserted calls).rtake (min 3 (2 ^ 1))).map some := by
  intro calls
  exact ⟨_, construct_pow_two (by decide), by decide, by decide⟩

end MarketDataRingBuffer
end TradingStudies
