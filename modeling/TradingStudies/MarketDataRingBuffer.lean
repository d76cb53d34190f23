import TradingStudies.Library.RingIndex
import TradingStudies.Library.StepSystem

/-!
# The ring buffer of market data

`MarketDataRingBuffer` keeps the snapshots inserted last.  Its index is an
`int` that only grows: `insert` reduces it with the signed remainder, the
reader with a mask.  The two agree until the index wraps around and becomes
negative.
-/

namespace TradingStudies
namespace MarketDataRingBuffer

open RingIndex

abbrev Snapshot (Price : Type*) := Int32 × Price × Price

structure RingBuffer (capacity : ℕ) (Price : Type*) where
  ring_buffer : Fin capacity → Snapshot Price
  current_index : Int32
  m_capacity : Int32
  m_cap_mask : Int32

inductive Call (Price : Type*)
  | insert (timestamp : Int32) (bidPrice askPrice : Price)
  | getLastNSnapshots (n : Int32)
  deriving DecidableEq, Repr

variable {capacity : ℕ} {Price : Type*}

def fresh (capacity : ℕ) (Price : Type*) [Inhabited Price] :
    RingBuffer capacity Price where
  ring_buffer := fun _ => (0, default, default)
  current_index := -1
  m_capacity := Int32.ofNat capacity
  m_cap_mask := Int32.ofNat capacity - 1

def construct (capacity : ℕ) (Price : Type*) [Inhabited Price] :
    Except String (RingBuffer capacity Price) :=
  if Int32.ofNat capacity &&& (Int32.ofNat capacity - 1) = 0 then
    .ok (fresh capacity Price)
  else .error "Capacity must be power of two"

/-- `ring_buffer[index]`; a negative `index` becomes a large `size_t`. -/
def slotAt (capacity : ℕ) (index : Int32) : Option (Fin capacity) :=
  if h : index.toInt.toNat < capacity then
    if 0 ≤ index then some ⟨index.toInt.toNat, h⟩ else none
  else none

namespace RingBuffer

variable (buffer : RingBuffer capacity Price)

/-- `++current_index % m_capacity` -/
def insertIndex : Int32 := (buffer.current_index + 1) % buffer.m_capacity

/-- A write outside of the vector is undefined; here it writes nothing. -/
def insert (snapshot : Snapshot Price) : RingBuffer capacity Price :=
  { buffer with
    ring_buffer :=
      match slotAt capacity buffer.insertIndex with
      | none => buffer.ring_buffer
      | some index => Function.update buffer.ring_buffer index snapshot
    current_index := buffer.current_index + 1 }

def readCount (n : Int32) : Int32 := min n (buffer.current_index + 1)

def offset (n : Int32) : Int32 :=
  (buffer.current_index + 1 - buffer.readCount n + buffer.m_capacity) &&&
    buffer.m_cap_mask

/-- `(i + offset) & m_cap_mask`, for each turn of the loop. -/
def readIndices (n : Int32) : List Int32 :=
  (List.range (buffer.readCount n).toNatClampNeg).map fun i =>
    (Int32.ofNat i + buffer.offset n) &&& buffer.m_cap_mask

/-- `none` is a read outside of the vector. -/
def getLastNSnapshots (n : Int32) : List (Option (Snapshot Price)) :=
  (buffer.readIndices n).map fun index =>
    (slotAt capacity index).map buffer.ring_buffer

end RingBuffer

def call (buffer : RingBuffer capacity Price) :
    Call Price → RingBuffer capacity Price × List (Option (Snapshot Price))
  | .insert timestamp bidPrice askPrice =>
      (buffer.insert (timestamp, bidPrice, askPrice), [])
  | .getLastNSnapshots n => (buffer, buffer.getLastNSnapshots n)

/-- The indices at which a call accesses `ring_buffer`. -/
def accesses (buffer : RingBuffer capacity Price) : Call Price → List Int32
  | .insert _ _ _ => [buffer.insertIndex]
  | .getLastNSnapshots n => buffer.readIndices n

def InBounds (buffer : RingBuffer capacity Price) (c : Call Price) : Prop :=
  ∀ index ∈ accesses buffer c, 0 ≤ index.toInt ∧ index.toInt < capacity

/-! ## Masks and remainders -/

theorem toInt_ofNat_pow {exponent : ℕ} (hexponent : exponent < 31) :
    (Int32.ofNat (2 ^ exponent)).toInt = 2 ^ exponent := by
  have hlt : 2 ^ exponent < 2 ^ 31 :=
    Nat.pow_lt_pow_right Nat.one_lt_two hexponent
  rw [Int32.toInt_ofNat_of_lt hlt]
  exact Nat.cast_pow 2 exponent

/-- The mask gives the remainder that is not negative, also of a negative
index. -/
theorem toInt_and_mask {exponent : ℕ} (hexponent : exponent < 31)
    (index : Int32) :
    (index &&& (Int32.ofNat (2 ^ exponent) - 1)).toInt =
      index.toInt % 2 ^ exponent := by
  have hlt : 2 ^ exponent < 2 ^ 31 :=
    Nat.pow_lt_pow_right Nat.one_lt_two hexponent
  have hpos := Nat.two_pow_pos exponent
  have hmask : (Int32.ofNat (2 ^ exponent) - 1).toBitVec.toNat =
      2 ^ exponent - 1 := by
    have hbits : (Int32.ofNat (2 ^ exponent) - 1).toBitVec =
        BitVec.ofNat 32 (2 ^ exponent) - 1#32 := rfl
    rw [hbits, BitVec.toNat_sub, BitVec.toNat_ofNat, BitVec.toNat_ofNat]
    omega
  have hnat : (index &&& (Int32.ofNat (2 ^ exponent) - 1)).toBitVec.toNat =
      index.toBitVec.toNat % 2 ^ exponent := by
    rw [Int32.toBitVec_and, BitVec.toNat_and, hmask,
      Nat.and_two_pow_sub_one_eq_mod]
  have hsmall : index.toBitVec.toNat % 2 ^ exponent < 2 ^ exponent :=
    Nat.mod_lt _ hpos
  have hmod : index.toInt ≡ (index.toBitVec.toNat : ℤ)
      [ZMOD (2 ^ exponent : ℕ)] := by
    have hword : index.toInt ≡ (index.toBitVec.toNat : ℤ)
        [ZMOD (2 ^ 32 : ℕ)] := by
      rw [← Int32.toInt_toBitVec, BitVec.toInt_eq_toNat_bmod]
      exact Int.bmod_emod
    exact hword.of_dvd (by exact_mod_cast Nat.pow_dvd_pow 2 (by omega))
  rw [← Int32.toInt_toBitVec, BitVec.toInt_eq_toNat_of_lt (by omega), hnat,
    Int.natCast_mod]
  have hcast : ((2 ^ exponent : ℕ) : ℤ) = 2 ^ exponent := Nat.cast_pow 2 _
  rw [← hcast]
  exact hmod.symm

theorem slotAt_of_inBounds {index : Int32} (hlow : 0 ≤ index.toInt)
    (hhigh : index.toInt < capacity) :
    slotAt capacity index = some ⟨index.toInt.toNat, by omega⟩ := by
  have hnonneg : 0 ≤ index := Int32.le_iff_toInt_le.mpr hlow
  unfold slotAt
  rw [dif_pos (by omega), if_pos hnonneg]

/-! ## The index after a number of inserts -/

/-- `count` snapshots have been inserted. -/
structure Counts {exponent : ℕ} (buffer : RingBuffer (2 ^ exponent) Price)
    (count : ℕ) : Prop where
  current : buffer.current_index = Int32.ofInt ((count : ℤ) - 1)
  capacity : buffer.m_capacity = Int32.ofNat (2 ^ exponent)
  mask : buffer.m_cap_mask = Int32.ofNat (2 ^ exponent) - 1

section Counting

variable {exponent count : ℕ} {buffer : RingBuffer (2 ^ exponent) Price}

theorem fresh_counts [Inhabited Price] (exponent : ℕ) :
    Counts (fresh (2 ^ exponent) Price) 0 :=
  ⟨rfl, rfl, rfl⟩

theorem Counts.next (hcounts : Counts buffer count) :
    buffer.current_index + 1 = Int32.ofInt count := by
  have hone : Int32.ofInt 1 = 1 := rfl
  rw [hcounts.current, ← hone, ← Int32.ofInt_add, Int.sub_add_cancel]

theorem Counts.insert (hcounts : Counts buffer count)
    (snapshot : Snapshot Price) :
    Counts (buffer.insert snapshot) (count + 1) := by
  constructor
  · rw [Nat.cast_succ, Int.add_sub_cancel]
    exact hcounts.next
  · exact hcounts.capacity
  · exact hcounts.mask

def insertRemainder (exponent count : ℕ) : ℤ :=
  ((count : ℤ).bmod (2 ^ 32)).tmod (2 ^ exponent)

theorem Counts.toInt_insertIndex (hcounts : Counts buffer count)
    (hexponent : exponent < 31) :
    buffer.insertIndex.toInt = insertRemainder exponent count := by
  unfold RingBuffer.insertIndex insertRemainder
  rw [Int32.toInt_mod, hcounts.next, hcounts.capacity, Int32.toInt_ofInt,
    toInt_ofNat_pow hexponent]
  rfl

theorem Counts.inBounds_insert_iff (hcounts : Counts buffer count)
    (hexponent : exponent < 31) (timestamp : Int32)
    (bidPrice askPrice : Price) :
    InBounds buffer (.insert timestamp bidPrice askPrice) ↔
      0 ≤ insertRemainder exponent count := by
  have hpos : (0 : ℤ) < 2 ^ exponent := pow_pos (by norm_num) exponent
  have hlt : insertRemainder exponent count < 2 ^ exponent :=
    Int.tmod_lt_of_pos _ hpos
  unfold InBounds accesses
  simp only [List.mem_singleton, forall_eq]
  rw [hcounts.toInt_insertIndex hexponent, Nat.cast_pow, Nat.cast_ofNat]
  exact and_iff_left hlt

/-- The reader masks its indices, so it never leaves the vector. -/
theorem Counts.inBounds_read (hcounts : Counts buffer count)
    (hexponent : exponent < 31) (n : Int32) :
    InBounds buffer (.getLastNSnapshots n) := by
  have hpos : (0 : ℤ) < 2 ^ exponent := pow_pos (by norm_num) exponent
  intro index hindex
  obtain ⟨i, -, rfl⟩ := List.mem_map.mp hindex
  rw [hcounts.mask, toInt_and_mask hexponent, Nat.cast_pow, Nat.cast_ofNat]
  exact ⟨Int.emod_nonneg _ hpos.ne', Int.emod_lt_of_pos _ hpos⟩

end Counting

/-! ## Whole runs -/

def Call.isInsert : Call Price → Bool
  | .insert _ _ _ => true
  | .getLastNSnapshots _ => false

/-- The accesses of a word are those of its inserts, one for each number. -/
theorem Counts.allAllowed_iff {exponent count : ℕ}
    {buffer : RingBuffer (2 ^ exponent) Price}
    (hcounts : Counts buffer count) (hexponent : exponent < 31)
    (calls : List (Call Price)) :
    CallSystem.AllAllowed call InBounds buffer calls ↔
      ∀ i < calls.countP Call.isInsert,
        0 ≤ insertRemainder exponent (count + i) := by
  induction calls generalizing buffer count with
  | nil => simp [CallSystem.AllAllowed]
  | cons c rest ih =>
      cases c with
      | insert timestamp bidPrice askPrice =>
          rw [CallSystem.AllAllowed, List.countP_cons_of_pos rfl,
            hcounts.inBounds_insert_iff hexponent, call,
            ih (hcounts.insert (timestamp, bidPrice, askPrice)),
            Nat.forall_lt_succ_left]
          simp only [Nat.add_zero, Nat.add_assoc, Nat.add_comm 1]
      | getLastNSnapshots n =>
          rw [CallSystem.AllAllowed, List.countP_cons_of_neg (by simp [Call.isInsert]),
            and_iff_right (hcounts.inBounds_read hexponent n), call, ih hcounts]

/-- The first negative remainder is that of the insert number `2 ^ 31 + 1`,
counted from zero. -/
theorem insertRemainder_nonneg_iff {exponent : ℕ} (hexponent : exponent < 31)
    (count : ℕ) :
    (∀ i < count, 0 ≤ insertRemainder exponent i) ↔
      exponent = 0 ∨ count ≤ 2 ^ 31 + 1 := by
  constructor
  · intro hall
    by_contra hnot
    rw [not_or] at hnot
    obtain ⟨hzero, hmany⟩ := hnot
    have hnonneg := hall (2 ^ 31 + 1) (by omega)
    have hwrapped : ((2 ^ 31 + 1 : ℕ) : ℤ).bmod (2 ^ 32) = -2147483647 := by
      norm_num [Int.bmod]
    unfold insertRemainder at hnonneg
    rw [hwrapped] at hnonneg
    have hnonpos : (-2147483647 : ℤ).tmod (2 ^ exponent) ≤ 0 := by
      rw [Int.neg_tmod]
      have hpositive : 0 ≤ (2147483647 : ℤ).tmod (2 ^ exponent) :=
        Int.tmod_nonneg _ (by norm_num)
      omega
    have hdvd : (2 : ℤ) ^ exponent ∣ -2147483647 :=
      Int.dvd_of_tmod_eq_zero (le_antisymm hnonpos hnonneg)
    have heven : (2 : ℤ) ∣ -2147483647 :=
      (dvd_pow_self 2 hzero).trans hdvd
    exact absurd heven (by decide)
  · rintro (hzero | hfew) i hi
    · unfold insertRemainder
      rw [hzero, pow_zero, Int.tmod_one]
    · rcases Nat.lt_or_ge i (2 ^ 31) with hsmall | hlarge
      · have hsame : ((i : ℕ) : ℤ).bmod (2 ^ 32) = i :=
          Int.bmod_eq_of_le (by omega) (by omega)
        unfold insertRemainder
        rw [hsame]
        exact Int.tmod_nonneg _ (by omega)
      · have hlast : i = 2 ^ 31 := by omega
        have hwrapped : ((2 ^ 31 : ℕ) : ℤ).bmod (2 ^ 32) = -2 ^ 31 := by
          norm_num [Int.bmod]
        have hdvd : (2 : ℤ) ^ exponent ∣ -2 ^ 31 :=
          (pow_dvd_pow 2 hexponent.le).neg_right
        unfold insertRemainder
        rw [hlast, hwrapped, Int.tmod_eq_zero_of_dvd hdvd]

theorem construct_pow_two [Inhabited Price] {exponent : ℕ}
    (hexponent : exponent < 31) :
    construct (2 ^ exponent) Price = .ok (fresh (2 ^ exponent) Price) := by
  have hand : Int32.ofNat (2 ^ exponent) &&&
      (Int32.ofNat (2 ^ exponent) - 1) = 0 := by
    apply Int32.toInt_inj.mp
    rw [toInt_and_mask hexponent, toInt_ofNat_pow hexponent, Int.emod_self]
    rfl
  exact if_pos hand

/-- A ring buffer of two snapshots or more is left by an insert exactly when
more than `2 ^ 31 + 1` snapshots are inserted. -/
theorem ringBuffer_inBounds_iff [Inhabited Price] (exponent : ℕ)
    (hexponent : exponent < 31) (calls : List (Call Price)) :
    ∃ buffer, construct (2 ^ exponent) Price = .ok buffer ∧
      (CallSystem.AllAllowed call InBounds buffer calls ↔
        exponent = 0 ∨ calls.countP Call.isInsert ≤ 2 ^ 31 + 1) := by
  refine ⟨_, construct_pow_two hexponent, ?_⟩
  rw [(fresh_counts exponent).allAllowed_iff hexponent,
    ← insertRemainder_nonneg_iff hexponent]
  simp only [Nat.zero_add]

theorem ringBuffer_inBounds_three :
    ∃ buffer, construct (2 ^ 1) ℕ = .ok buffer ∧
      CallSystem.AllAllowed call InBounds buffer
        [.insert 100 49 50, .insert 101 49 50, .getLastNSnapshots 5,
          .insert 102 49 50] := by
  obtain ⟨buffer, hbuffer, hiff⟩ := ringBuffer_inBounds_iff 1 (by decide)
    ([.insert 100 49 50, .insert 101 49 50, .getLastNSnapshots 5,
      .insert 102 49 50] : List (Call ℕ))
  have hcount : List.countP Call.isInsert
      ([.insert 100 49 50, .insert 101 49 50, .getLastNSnapshots 5,
        .insert 102 49 50] : List (Call ℕ)) = 3 := rfl
  refine ⟨buffer, hbuffer, hiff.mpr (Or.inr ?_)⟩
  omega

/-- The index wraps to `-2 ^ 31`, whose remainder is zero still; that of the
next index is not. -/
theorem ringBuffer_negative_index :
    ∃ buffer, construct (2 ^ 1) ℕ = .ok buffer ∧
      ¬ CallSystem.AllAllowed call InBounds buffer
        (List.replicate (2 ^ 31 + 2) (.insert 100 49 50)) := by
  refine ⟨_, construct_pow_two (by decide), ?_⟩
  rw [(fresh_counts 1).allAllowed_iff (by decide)]
  simp only [Nat.zero_add]
  have hinsert : (Call.insert 100 49 50 : Call ℕ).isInsert = true := rfl
  rw [insertRemainder_nonneg_iff (by decide), List.countP_replicate,
    if_pos hinsert]
  omega

end MarketDataRingBuffer
end TradingStudies
