import TradingStudies.HftOrderBook

/-!
# One side of the price-level book

A side of the book is an array of level totals and a cached best index.  The
statements here describe what the three ways of writing to a side do, in terms
of the exact integer totals the array stands for.  The ask side is the bid side
for the reversed order of indices, so both caches are instances of
`BestIndex.Tracks`.
-/

namespace TradingStudies
namespace HftOrderBook

open BestIndex

variable {initBuckets MaxPriceLevels : ℕ} {Addr : Type*}

/-- The array holds exactly these totals. -/
def LevelsHold (levels : Fin MaxPriceLevels → Int32) (total : ℤ → ℤ) : Prop :=
  ∀ i : Fin MaxPriceLevels, (levels i).toInt = total i.val

/-- Totals are non-negative `int`s and vanish outside of the array. -/
structure TotalsFit (MaxPriceLevels : ℕ) (total : ℤ → ℤ) : Prop where
  nonneg : ∀ i, 0 ≤ total i
  bounded : ∀ i : Fin MaxPriceLevels, total i.val < 2 ^ 31
  outside : ∀ i, i < 0 ∨ (MaxPriceLevels : ℤ) ≤ i → total i = 0

/-- The indices which hold an order. -/
def occupiedBy (total : ℤ → ℤ) : Set ℤ := { i | 0 < total i }

/-- The bid cache rests on its initial value or on the lowest index. -/
def idleBid : Set ℤ := {-1, 0}

/-- The ask cache rests on its initial value or on the highest index. -/
def idleAsk (MaxPriceLevels : ℕ) : Set ℤ :=
  {(MaxPriceLevels : ℤ), (MaxPriceLevels : ℤ) - 1}

def BidTracks (total : ℤ → ℤ) (best : ℤ) : Prop :=
  Tracks (occupiedBy total) idleBid best

def AskTracks (MaxPriceLevels : ℕ) (total : ℤ → ℤ) (best : ℤ) : Prop :=
  Tracks (ι := ℤᵒᵈ) (occupiedBy total) (idleAsk MaxPriceLevels) best

variable {levels : Fin MaxPriceLevels → Int32} {total total' : ℤ → ℤ}
  {idx : ℤ} {delta : Int32}

/-- `total'` is `total` with `delta` more at `idx`. -/
def Shifted (total total' : ℤ → ℤ) (idx : ℤ) (delta : ℤ) : Prop :=
  ∀ i, total' i = total i + if i = idx then delta else 0

theorem Shifted.at_index {delta : ℤ} (hshift : Shifted total total' idx delta) :
    total' idx = total idx + delta := by
  simpa using hshift idx

theorem Shifted.off_index {delta : ℤ} (hshift : Shifted total total' idx delta)
    {i : ℤ} (hne : i ≠ idx) : total' i = total i := by
  simpa [hne] using hshift i

theorem Shifted.eq_of_zero (hshift : Shifted total total' idx 0) :
    total' = total := by
  funext i
  simpa using hshift i

theorem TotalsFit.lt_of_occupied (hfit : TotalsFit MaxPriceLevels total)
    {i : ℤ} (hi : i ∈ occupiedBy total) : 0 ≤ i ∧ i < MaxPriceLevels := by
  have hpos : 0 < total i := hi
  constructor
  · by_contra hneg
    have := hfit.outside i (Or.inl (by omega))
    omega
  · by_contra hlarge
    have := hfit.outside i (Or.inr (by omega))
    omega

/-! ## Array writes -/

theorem addAt_eq (hlow : 0 ≤ idx) (hhigh : idx < MaxPriceLevels) :
    addAt levels idx delta =
      some (Function.update levels ⟨idx.toNat, by omega⟩
        (levels ⟨idx.toNat, by omega⟩ + delta)) := by
  unfold addAt
  rw [dif_pos (by omega), if_pos hlow]

theorem levelAt_eq (hlow : 0 ≤ idx) (hhigh : idx < MaxPriceLevels) :
    levelAt levels idx = some (levels ⟨idx.toNat, by omega⟩) := by
  unfold levelAt
  rw [dif_pos (by omega), if_pos hlow]

theorem toInt_add_of_bounds {a b : Int32}
    (hlow : 0 ≤ a.toInt + b.toInt) (hhigh : a.toInt + b.toInt < 2 ^ 31) :
    (a + b).toInt = a.toInt + b.toInt := by
  rw [Int32.toInt_add]
  apply Int.bmod_eq_of_le <;> omega

theorem toInt_sub_of_pos {a b : Int32} (ha : 0 < a.toInt) (hb : 0 < b.toInt) :
    (a - b).toInt = a.toInt - b.toInt := by
  have ha' := a.toInt_lt
  have hb' := b.toInt_lt
  rw [Int32.toInt_sub]
  apply Int.bmod_eq_of_le <;> omega

theorem toInt_neg_of_pos {a : Int32} (ha : 0 < a.toInt) :
    (-a).toInt = -a.toInt := by
  have ha' := a.toInt_lt
  rw [Int32.toInt_neg]
  apply Int.bmod_eq_of_le <;> omega

/-- An addition whose exact result is an `int` keeps the array exact. -/
theorem LevelsHold.add (hlevels : LevelsHold levels total)
    (hlow : 0 ≤ idx) (hhigh : idx < MaxPriceLevels)
    (hshift : Shifted total total' idx delta.toInt)
    (hfit : TotalsFit MaxPriceLevels total') :
    LevelsHold (Function.update levels ⟨idx.toNat, by omega⟩
      (levels ⟨idx.toNat, by omega⟩ + delta)) total' := by
  intro i
  by_cases heq : i = ⟨idx.toNat, by omega⟩
  · subst i
    have hval : ((idx.toNat : ℕ) : ℤ) = idx := Int.toNat_of_nonneg hlow
    have hold := hlevels ⟨idx.toNat, by omega⟩
    have hbound := hfit.bounded ⟨idx.toNat, by omega⟩
    have hnonneg := hfit.nonneg idx
    simp only [hval] at hold hbound ⊢
    rw [Function.update_self, hshift.at_index]
    rw [hshift.at_index] at hbound hnonneg
    rw [toInt_add_of_bounds (by omega) (by omega), hold]
  · have hne : (i.val : ℤ) ≠ idx := by
      intro h
      apply heq
      apply Fin.ext
      show i.val = idx.toNat
      omega
    rw [Function.update_of_ne heq, hlevels i, hshift.off_index hne]

theorem LevelsHold.positiveAt (hlevels : LevelsHold levels total) {i : ℕ}
    (hi : i < MaxPriceLevels) :
    positiveAt levels i = true ↔ 0 < total i := by
  have hval := hlevels ⟨i, hi⟩
  simp only [HftOrderBook.positiveAt, dif_pos hi, decide_eq_true_eq]
  rw [Int32.lt_iff_toInt_lt, hval]
  simp

/-- An index the repair scan rejects holds no order. -/
theorem LevelsHold.not_occupied (hlevels : LevelsHold levels total)
    {other : ℤ} (hlow : 0 ≤ other) (hhigh : other < MaxPriceLevels)
    (hscan : HftOrderBook.positiveAt levels other.toNat = false) :
    other ∉ occupiedBy total := by
  intro hother
  have hval : ((other.toNat : ℕ) : ℤ) = other := Int.toNat_of_nonneg hlow
  have hpos : 0 < total other.toNat := by
    rw [hval]
    exact hother
  have htrue := (hlevels.positiveAt (by omega)).mpr hpos
  rw [hscan] at htrue
  simp at htrue

theorem LevelsHold.levelAt_eq_zero (hlevels : LevelsHold levels total)
    (hlow : 0 ≤ idx) (hhigh : idx < MaxPriceLevels) :
    levelAt levels idx = some 0 ↔ total idx = 0 := by
  have hval : ((idx.toNat : ℕ) : ℤ) = idx := Int.toNat_of_nonneg hlow
  have hlevel := hlevels ⟨idx.toNat, by omega⟩
  simp only [hval] at hlevel
  rw [levelAt_eq hlow hhigh, Option.some.injEq, ← Int32.toInt_inj, hlevel]
  simp

/-! ## The caches -/

theorem Shifted.filled_iff {quantity : ℤ}
    (hshift : Shifted total total' idx quantity) (hquantity : 0 < quantity)
    (hnonneg : ∀ i, 0 ≤ total i) (other : ℤ) :
    other ∈ occupiedBy total' ↔ other ∈ occupiedBy total ∨ other = idx := by
    show 0 < total' other ↔ 0 < total other ∨ other = idx
    by_cases heq : other = idx
    · subst other
      have := hshift.at_index
      have := hnonneg idx
      constructor
      · exact fun _ => Or.inr rfl
      · intro _
        omega
    · rw [hshift.off_index heq]
      exact ⟨Or.inl, fun h => h.resolve_right heq⟩

theorem BidTracks.fill {best : ℤ} (htracks : BidTracks total best)
    (hlow : 0 ≤ idx) {quantity : ℤ} (hquantity : 0 < quantity)
    (hshift : Shifted total total' idx quantity) (hnonneg : ∀ i, 0 ≤ total i) :
    BidTracks total' (if best < idx then idx else best) := by
  apply Tracks.fill htracks
  · rintro value (rfl | rfl) <;> omega
  · exact hshift.filled_iff hquantity hnonneg

theorem AskTracks.fill {best : ℤ} (htracks : AskTracks MaxPriceLevels total best)
    (hhigh : idx < MaxPriceLevels) {quantity : ℤ} (hquantity : 0 < quantity)
    (hshift : Shifted total total' idx quantity) (hnonneg : ∀ i, 0 ≤ total i) :
    AskTracks MaxPriceLevels total' (if idx < best then idx else best) := by
  apply Tracks.fill (ι := ℤᵒᵈ) htracks
  · intro value hvalue
    show idx ≤ value
    rcases hvalue with rfl | rfl <;> omega
  · exact hshift.filled_iff hquantity hnonneg

/-- A level that is emptied leaves the occupied ones. -/
theorem Shifted.occupied_of_emptied {delta : ℤ}
    (hshift : Shifted total total' idx delta) (hempties : total' idx = 0)
    (other : ℤ) :
    other ∈ occupiedBy total' ↔ other ∈ occupiedBy total ∧ other ≠ idx := by
  show 0 < total' other ↔ 0 < total other ∧ _
  by_cases heq : other = idx
  · subst other
    exact iff_of_false (by omega) fun hboth => hboth.2 rfl
  · rw [hshift.off_index heq]
    exact (and_iff_left heq).symm

theorem Shifted.occupied_of_left {delta : ℤ}
    (hshift : Shifted total total' idx delta) (hidx : 0 < total idx)
    (hleft : 0 < total' idx) (other : ℤ) :
    other ∈ occupiedBy total' ↔ other ∈ occupiedBy total := by
  show 0 < total' other ↔ 0 < total other
  by_cases heq : other = idx
  · subst other
    exact iff_of_true hleft hidx
  · rw [hshift.off_index heq]

/-! ## `updatePriceLevel` -/

variable {book : OrderBook initBuckets MaxPriceLevels Addr}

/-- The bid half of `updatePriceLevel` adds to one level and keeps the cache
right; everything else is unchanged. -/
theorem updateBidLevel_spec
    (hlevels : LevelsHold book.bidLevels_ total)
    (htracks : BidTracks total book.bestBidIndex_)
    (hfitOld : TotalsFit MaxPriceLevels total)
    (hfit : TotalsFit MaxPriceLevels total')
    (hidx : 0 < total idx)
    (hshift : Shifted total total' idx delta.toInt) :
    ∃ levels best,
      updateBidLevel book idx delta =
          some { book with bidLevels_ := levels, bestBidIndex_ := best } ∧
        LevelsHold levels total' ∧ BidTracks total' best := by
  rcases hfitOld.lt_of_occupied hidx with ⟨hlow, hhigh⟩
  have hlevels' := hlevels.add hlow hhigh hshift hfit
  have hzero := hlevels'.levelAt_eq_zero hlow hhigh
  unfold updateBidLevel
  rw [addAt_eq hlow hhigh]
  simp only [hzero]
  by_cases hempties : total' idx = 0
  · have hmemZero := hshift.occupied_of_emptied hempties
    by_cases hbest : idx = book.bestBidIndex_
    · rw [if_pos ⟨hbest, hempties⟩]
      have hbelow : ∀ other ∈ occupiedBy total', 0 ≤ other ∧ other < idx := by
        intro other hother
        obtain ⟨hoccupied, hne⟩ := (hmemZero other).mp hother
        have hupper := (htracks.greatest ⟨idx, hidx⟩).2 hoccupied
        rw [← hbest] at hupper
        exact ⟨(hfitOld.lt_of_occupied hoccupied).1, by omega⟩
      cases hscan : scanDown (positiveAt (Function.update book.bidLevels_
          ⟨idx.toNat, by omega⟩
          (book.bidLevels_ ⟨idx.toNat, by omega⟩ + delta))) idx.toNat with
      | some i =>
          rcases scanDown_eq_some hscan with ⟨hlt, hfound, habove⟩
          refine ⟨_, _, rfl, hlevels', ?_⟩
          apply tracks_of_found
          · exact (hlevels'.positiveAt (by omega)).mp hfound
          · intro other hother
            rcases hbelow other hother with ⟨hotherLow, hotherHigh⟩
            by_contra hgreater
            exact hlevels'.not_occupied hotherLow (by omega)
              (habove other.toNat (by omega) (by omega)) hother
      | none =>
          have hnone := scanDown_eq_none hscan
          refine ⟨_, _, rfl, hlevels', ?_⟩
          apply tracks_of_exhausted
          · intro other hother
            rcases hbelow other hother with ⟨hotherLow, hotherHigh⟩
            exact hlevels'.not_occupied hotherLow (by omega)
              (hnone other.toNat (by omega)) hother
          · exact Or.inr rfl
    · rw [if_neg (fun h => hbest h.1)]
      exact ⟨_, _, rfl, hlevels', htracks.drain_other hidx hbest hmemZero⟩
  · have hleft : 0 < total' idx :=
      lt_of_le_of_ne (hfit.nonneg idx) (Ne.symm hempties)
    have hmemSame := hshift.occupied_of_left hidx hleft
    rw [if_neg (fun h => hempties h.2)]
    exact ⟨_, _, rfl, hlevels', htracks.congr hmemSame⟩

/-- The ask half, scanning upwards. -/
theorem updateAskLevel_spec
    (hlevels : LevelsHold book.askLevels_ total)
    (htracks : AskTracks MaxPriceLevels total book.bestAskIndex_)
    (hfitOld : TotalsFit MaxPriceLevels total)
    (hfit : TotalsFit MaxPriceLevels total')
    (hidx : 0 < total idx)
    (hshift : Shifted total total' idx delta.toInt) :
    ∃ levels best,
      updateAskLevel book idx delta =
          some { book with askLevels_ := levels, bestAskIndex_ := best } ∧
        LevelsHold levels total' ∧ AskTracks MaxPriceLevels total' best := by
  obtain ⟨hlow, hhigh⟩ := hfitOld.lt_of_occupied hidx
  have hlevels' := hlevels.add hlow hhigh hshift hfit
  have hzero := hlevels'.levelAt_eq_zero hlow hhigh
  unfold updateAskLevel
  rw [addAt_eq hlow hhigh]
  simp only [hzero]
  by_cases hempties : total' idx = 0
  · have hmemZero := hshift.occupied_of_emptied hempties
    by_cases hbest : idx = book.bestAskIndex_
    · rw [if_pos ⟨hbest, hempties⟩]
      have habove : ∀ other ∈ occupiedBy total',
          idx < other ∧ other < MaxPriceLevels := by
        intro other hother
        rcases (hmemZero other).mp hother with ⟨hoccupied, hne⟩
        have hlower : book.bestAskIndex_ ≤ other :=
          (htracks.greatest ⟨idx, hidx⟩).2 hoccupied
        exact ⟨by omega, (hfitOld.lt_of_occupied hoccupied).2⟩
      cases hscan : scanUp (positiveAt (Function.update book.askLevels_
          ⟨idx.toNat, by omega⟩
          (book.askLevels_ ⟨idx.toNat, by omega⟩ + delta)))
          (MaxPriceLevels - (idx.toNat + 1)) (idx.toNat + 1) with
      | some i =>
          rcases scanUp_eq_some hscan with ⟨hstart, hlt, hfound, hbelow⟩
          refine ⟨_, _, rfl, hlevels', ?_⟩
          apply tracks_of_found (ι := ℤᵒᵈ)
          · exact (hlevels'.positiveAt (by omega)).mp hfound
          · intro (other : ℤ) (hother : other ∈ occupiedBy total')
            show (i : ℤ) ≤ other
            rcases habove other hother with ⟨hotherLow, hotherHigh⟩
            by_contra hgreater
            exact hlevels'.not_occupied (by omega) hotherHigh
              (hbelow other.toNat (by omega) (by omega)) hother
      | none =>
          have hnone := scanUp_eq_none hscan
          refine ⟨_, _, rfl, hlevels', ?_⟩
          apply tracks_of_exhausted (ι := ℤᵒᵈ)
          · intro (other : ℤ) (hother : other ∈ occupiedBy total')
            obtain ⟨hotherLow, hotherHigh⟩ := habove other hother
            exact hlevels'.not_occupied (by omega) hotherHigh
              (hnone other.toNat (by omega) (by omega)) hother
          · exact Or.inr rfl
    · rw [if_neg (fun h => hbest h.1)]
      exact ⟨_, _, rfl, hlevels',
        Tracks.drain_other (ι := ℤᵒᵈ) htracks hidx hbest hmemZero⟩
  · have hleft : 0 < total' idx :=
      lt_of_le_of_ne (hfit.nonneg idx) (Ne.symm hempties)
    have hmemSame := hshift.occupied_of_left hidx hleft
    rw [if_neg (fun h => hempties h.2)]
    exact ⟨_, _, rfl, hlevels', Tracks.congr (ι := ℤᵒᵈ) htracks hmemSame⟩

end HftOrderBook
end TradingStudies
