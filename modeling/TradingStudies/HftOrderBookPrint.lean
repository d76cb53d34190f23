import TradingStudies.HftOrderBookTop

/-!
# The printed depth of the book

`OrderBook::print` walks the level arrays outwards from the cached indices and
shows the first `count` levels with a positive quantity on either side.  Started
from a cache that is right, the walk misses none of the best levels, so that a
page shows the depth of the book.

Only the numbers of a page are modelled, not the text and colours around them.
-/

namespace TradingStudies
namespace HftOrderBook

open BestIndex

variable {initBuckets MaxPriceLevels : ℕ} {Addr Price : Type*}
  {priceToIndex : Price → ℤ}
  {book : OrderBook initBuckets MaxPriceLevels Addr}
  {ledger : Ledger Addr Price}

/-- What `print` writes, from top to bottom. -/
structure Page (Price : Type*) where
  title : String
  count : ℕ
  asks : List (Price × Int32)
  midPrice : Price
  bids : List (Price × Int32)
  deriving DecidableEq, Repr

/-- `{ indexToPrice(i), levels[i] }`. -/
def levelRow (indexToPrice : ℤ → Price) (levels : Fin MaxPriceLevels → Int32)
    (i : ℕ) : Price × Int32 :=
  (indexToPrice i, (levelAt levels i).getD 0)

/-- `mid` is the mean of two prices. -/
def print (indexToPrice : ℤ → Price) (mid : Price → Price → Price)
    (book : OrderBook initBuckets MaxPriceLevels Addr) (title : String)
    (count : ℕ) : Option (Page Price) :=
  -- The test `i < Const::MaxPriceLevels` is of unsigned numbers: a negative
  -- index fails it.
  let asks :=
    if 0 ≤ book.bestAskIndex_ then
      collectUp (positiveAt book.askLevels_)
        (levelRow indexToPrice book.askLevels_) count
        (MaxPriceLevels - book.bestAskIndex_.toNat)
        book.bestAskIndex_.toNat []
    else []
  if 0 < count ∧ (MaxPriceLevels : ℤ) ≤ book.bestBidIndex_ then none
  else some
    { title := title
      count := count
      asks := asks.reverse
      midPrice := mid (indexToPrice book.bestAskIndex_)
        (indexToPrice book.bestBidIndex_)
      bids := collectDown (positiveAt book.bidLevels_)
        (levelRow indexToPrice book.bidLevels_) count
        (book.bestBidIndex_ + 1).toNat [] }

/-- The indices with a positive total, in ascending order. -/
def depth (MaxPriceLevels : ℕ) (total : ℤ → ℤ) : List ℕ :=
  (List.range MaxPriceLevels).filter fun i => 0 < total i

theorem filter_positiveAt {levels : Fin MaxPriceLevels → Int32}
    {total : ℤ → ℤ} (hlevels : LevelsHold levels total) :
    (List.range MaxPriceLevels).filter (positiveAt levels) =
      depth MaxPriceLevels total := by
  apply List.filter_congr
  intro i hi
  rw [Bool.eq_iff_iff, hlevels.positiveAt (List.mem_range.mp hi),
    decide_eq_true_eq]

/-- A row read as numbers. -/
def Row.exact (row : Price × Int32) : Price × ℤ := (row.1, row.2.toInt)

theorem exact_levelRow {levels : Fin MaxPriceLevels → Int32}
    {total : ℤ → ℤ} (hlevels : LevelsHold levels total)
    (indexToPrice : ℤ → Price) {i : ℕ} (hi : i ∈ depth MaxPriceLevels total) :
    Row.exact (levelRow indexToPrice levels i) = (indexToPrice i, total i) := by
  have hlt : i < MaxPriceLevels := List.mem_range.mp (List.mem_filter.mp hi).1
  obtain ⟨size, hsize, htotal⟩ :
      ∃ size, levelAt levels (i : ℤ) = some size ∧ size.toInt = total i :=
    hlevels.levelAt (by omega) (by omega)
  unfold levelRow Row.exact
  rw [hsize, ← htotal]
  rfl

/-! ## The two walks -/

section Walks

variable {total : ℤ → ℤ} {best : ℤ}

/-- No level outside of the cached ask index is occupied. -/
theorem AskTracks.below (htracks : AskTracks MaxPriceLevels total best)
    {i : ℤ} (hi : i < best) : ¬ 0 < total i := by
  intro hoccupied
  have hbest := (htracks.greatest ⟨i, hoccupied⟩).2 hoccupied
  have hle : best ≤ i := hbest
  omega

theorem BidTracks.above (htracks : BidTracks total best) {i : ℤ}
    (hi : best < i) : ¬ 0 < total i := by
  intro hoccupied
  have hle : i ≤ best := (htracks.greatest ⟨i, hoccupied⟩).2 hoccupied
  omega

variable {levels : Fin MaxPriceLevels → Int32}

theorem positiveAt_eq_false (hlevels : LevelsHold levels total) {i : ℕ}
    (hi : i < MaxPriceLevels) (hnot : ¬ 0 < total i) :
    positiveAt levels i = false := by
  rw [← Bool.not_eq_true, hlevels.positiveAt hi]
  exact hnot

/-- The asks found are the lowest ones. -/
theorem walk_asks (hlevels : LevelsHold levels total)
    (htracks : AskTracks MaxPriceLevels total best) (hlow : 0 ≤ best)
    (hhigh : best ≤ MaxPriceLevels) (indexToPrice : ℤ → Price) (count : ℕ) :
    collectUp (positiveAt levels) (levelRow indexToPrice levels) count
        (MaxPriceLevels - best.toNat) best.toNat [] =
      ((depth MaxPriceLevels total).take count).map
        (levelRow indexToPrice levels) := by
  have hbelow : ∀ i < best.toNat, positiveAt levels i = false := by
    intro i hi
    exact positiveAt_eq_false hlevels (by omega) (htracks.below (by omega))
  rw [collectUp_eq, filter_range'_of_below (by omega) hbelow,
    filter_positiveAt hlevels, List.nil_append]
  rfl

/-- The bids found are the highest ones. -/
theorem walk_bids (hlevels : LevelsHold levels total)
    (htracks : BidTracks total best) (hhigh : best < MaxPriceLevels)
    (indexToPrice : ℤ → Price) (count : ℕ) :
    collectDown (positiveAt levels) (levelRow indexToPrice levels) count
        (best + 1).toNat [] =
      ((depth MaxPriceLevels total).reverse.take count).map
        (levelRow indexToPrice levels) := by
  have habove : ∀ i, (best + 1).toNat ≤ i → i < MaxPriceLevels →
      positiveAt levels i = false := by
    intro i hi hlt
    exact positiveAt_eq_false hlevels hlt (htracks.above (by omega))
  rw [collectDown_eq, List.filter_reverse,
    filter_range_of_above (by omega) habove, filter_positiveAt hlevels,
    List.nil_append]
  rfl

theorem exact_take (hlevels : LevelsHold levels total)
    (indexToPrice : ℤ → Price) {indices : List ℕ}
    (hsub : ∀ i ∈ indices, i ∈ depth MaxPriceLevels total) :
    (indices.map (levelRow indexToPrice levels)).map Row.exact =
      indices.map fun i : ℕ => (indexToPrice i, total i) := by
  rw [List.map_map]
  apply List.map_congr_left
  intro i hi
  exact exact_levelRow hlevels indexToPrice (hsub i hi)

theorem mem_depth (hfit : TotalsFit MaxPriceLevels total) (i : ℕ) :
    i ∈ depth MaxPriceLevels total ↔ 0 < total i := by
  unfold depth
  rw [List.mem_filter, List.mem_range, decide_eq_true_eq]
  constructor
  · exact And.right
  · intro hoccupied
    have hrange := hfit.lt_of_occupied (i := (i : ℤ)) hoccupied
    exact ⟨by omega, hoccupied⟩

theorem mem_depth_best (hfit : TotalsFit MaxPriceLevels total)
    (hbest : 0 < total best) :
    best.toNat ∈ depth MaxPriceLevels total := by
  have hlow := (hfit.lt_of_occupied hbest).1
  rw [mem_depth hfit, Int.toNat_of_nonneg hlow]
  exact hbest

/-- The first ask found is that of the cached index. -/
theorem head_depth (hfit : TotalsFit MaxPriceLevels total)
    (htracks : AskTracks MaxPriceLevels total best) {i : ℕ} {rest : List ℕ}
    (hdepth : depth MaxPriceLevels total = i :: rest) : (i : ℤ) = best := by
  have hoccupied : 0 < total i := by
    rw [← mem_depth hfit, hdepth]
    exact List.mem_cons_self
  have hmem := mem_depth_best hfit (htracks.greatest ⟨i, hoccupied⟩).1
  have hle := (htracks.greatest ⟨i, hoccupied⟩).2 hoccupied
  have hsorted : (depth MaxPriceLevels total).Pairwise (· < ·) :=
    List.pairwise_lt_range.filter _
  rw [hdepth] at hmem hsorted
  have hlow : best ≤ i := hle
  rcases List.mem_cons.mp hmem with heq | hlater
  · have hnonneg := (hfit.lt_of_occupied
      (htracks.greatest ⟨i, hoccupied⟩).1).1
    omega
  · have hlt := (List.pairwise_cons.mp hsorted).1 _ hlater
    omega

/-- The first bid found is that of the cached index. -/
theorem head_depth_reverse (hfit : TotalsFit MaxPriceLevels total)
    (htracks : BidTracks total best) {i : ℕ} {rest : List ℕ}
    (hdepth : (depth MaxPriceLevels total).reverse = i :: rest) :
    (i : ℤ) = best := by
  have hoccupied : 0 < total i := by
    rw [← mem_depth hfit, ← List.mem_reverse, hdepth]
    exact List.mem_cons_self
  have hbest := htracks.greatest ⟨i, hoccupied⟩
  have hlow := (hfit.lt_of_occupied hbest.1).1
  have hmem := List.mem_reverse.mpr (mem_depth_best hfit hbest.1)
  have hle : (i : ℤ) ≤ best := hbest.2 hoccupied
  have hsorted : (depth MaxPriceLevels total).reverse.Pairwise
      fun a b => b < a :=
    List.pairwise_reverse.mpr (List.pairwise_lt_range.filter _)
  rw [hdepth] at hmem hsorted
  rcases List.mem_cons.mp hmem with heq | hlater
  · omega
  · have hlt := (List.pairwise_cons.mp hsorted).1 _ hlater
    omega

end Walks

/-! ## Whole runs -/

theorem SidesWrap.bestAskIndex_bounds
    (hsides : SidesWrap priceToIndex book ledger) :
    0 ≤ book.bestAskIndex_ ∧ book.bestAskIndex_ ≤ MaxPriceLevels := by
  by_cases hinserted : ledger.Inserted false
  · obtain ⟨hlow, hhigh⟩ := hsides.placed false hinserted
    exact ⟨hlow, hhigh.le⟩
  · have hstart : book.bestAskIndex_ = MaxPriceLevels :=
      hsides.waiting false hinserted
    omega

theorem SidesWrap.bestBidIndex_lt
    (hsides : SidesWrap priceToIndex book ledger) :
    book.bestBidIndex_ < MaxPriceLevels := by
  by_cases hinserted : ledger.Inserted true
  · exact (hsides.placed true hinserted).2
  · have hstart : book.bestBidIndex_ = -1 := hsides.waiting true hinserted
    omega

theorem first_row {Row : Type*} {row : ℕ → Row} {count : ℕ}
    {indices : List ℕ} {shown : Row}
    (hshown : shown ∈ ((indices.take count).map row).head?) :
    ∃ i rest, indices = i :: rest ∧ shown = row i := by
  cases indices with
  | nil => simp at hshown
  | cons i rest =>
      refine ⟨i, rest, rfl, ?_⟩
      cases count with
      | zero => simp at hshown
      | succ count =>
          rw [List.take_succ_cons, List.map_cons, List.head?_cons] at hshown
          exact (Option.some.inj hshown).symm

/-- What `print` shows of a book whose levels are `bids` and `asks`. -/
structure ShowsDepth (indexToPrice : ℤ → Price) (mid : Price → Price → Price)
    (MaxPriceLevels : ℕ) (bids asks : ℤ → ℤ) (page : Page Price) : Prop where
  lowest : page.asks.reverse.map Row.exact =
    ((depth MaxPriceLevels asks).take page.count).map
      fun i : ℕ => (indexToPrice i, asks i)
  highest : page.bids.map Row.exact =
    ((depth MaxPriceLevels bids).reverse.take page.count).map
      fun i : ℕ => (indexToPrice i, bids i)
  between : ∀ ask ∈ page.asks.getLast?, ∀ bid ∈ page.bids.head?,
    page.midPrice = mid ask.1 bid.1

theorem print_spec (hsides : SidesHold priceToIndex book ledger.counted)
    (hwrap : SidesWrap priceToIndex book ledger)
    (hfit : ∀ side, TotalsFit MaxPriceLevels
      (levelTotal priceToIndex side ledger.counted))
    (indexToPrice : ℤ → Price) (mid : Price → Price → Price)
    (title : String) (count : ℕ) :
    ∃ page, print indexToPrice mid book title count = some page ∧
      page.title = title ∧ page.count = count ∧
      ShowsDepth indexToPrice mid MaxPriceLevels
        (levelTotal priceToIndex true ledger.counted)
        (levelTotal priceToIndex false ledger.counted) page := by
  obtain ⟨hlow, hhigh⟩ := hwrap.bestAskIndex_bounds
  have hbid := hwrap.bestBidIndex_lt
  have hasks := walk_asks hsides.asks hsides.askBest hlow hhigh indexToPrice
    count
  have hbids := walk_bids hsides.bids hsides.bidBest hbid indexToPrice count
  unfold print
  rw [if_pos hlow, if_neg (by omega), hasks, hbids]
  refine ⟨_, rfl, rfl, rfl, ?_, ?_, ?_⟩
  · rw [List.reverse_reverse]
    exact exact_take hsides.asks indexToPrice fun i hi => List.mem_of_mem_take hi
  · apply exact_take hsides.bids indexToPrice
    intro i hi
    exact List.mem_reverse.mp (List.mem_of_mem_take hi)
  · intro ask hask bid hbid
    rw [List.getLast?_reverse] at hask
    obtain ⟨i, rest, hdepth, rfl⟩ := first_row hask
    obtain ⟨j, rest', hdepth', rfl⟩ := first_row hbid
    rw [← head_depth (hfit false) hsides.askBest hdepth,
      ← head_depth_reverse (hfit true) hsides.bidBest hdepth']
    rfl

/-- A page printed after any run shows the best levels of either side in the
order of their prices, with everything the book still counts there, around the
mean of the two innermost prices. -/
theorem print_shows_depth [DecidableEq Addr] (hash : UInt64 → ℕ)
    (priceToIndex : Price → ℤ) (indexToPrice : ℤ → Price)
    (mid : Price → Price → Price) (exponent MaxPriceLevels : ℕ)
    (orders : Addr → Order Price) (calls : List (Call Addr Price))
    (title : String) (count : ℕ)
    (hkeeps : CallSystem.AllAllowed (ledgerCall (16 * 2 ^ exponent))
      (KeepsOrders priceToIndex MaxPriceLevels) (Ledger.empty Addr Price)
      calls)
    (hfits : CallSystem.AllAllowed (ledgerCall (16 * 2 ^ exponent))
      (SumsFit priceToIndex (16 * 2 ^ exponent) MaxPriceLevels)
      (Ledger.empty Addr Price) calls) :
    let world := CallSystem.stateAfter (call hash priceToIndex)
      (⟨fresh (2 ^ exponent) MaxPriceLevels Addr, orders⟩ :
        World (2 ^ exponent) MaxPriceLevels Addr Price) calls
    let ledger := CallSystem.stateAfter (ledgerCall (16 * 2 ^ exponent))
      (Ledger.empty Addr Price) calls
    ∃ page, print indexToPrice mid world.book title count = some page ∧
      page.title = title ∧ page.count = count ∧
      ShowsDepth indexToPrice mid MaxPriceLevels
        (levelTotal priceToIndex true ledger.counted)
        (levelTotal priceToIndex false ledger.counted) page := by
  intro world ledger
  have hrefines := run_countedRefines hash exponent orders hkeeps hfits
  exact print_spec hrefines.sides hrefines.refines.sides hrefines.counted.fit
    indexToPrice mid title count

/-- The best ask is cancelled before the page is printed. -/
theorem print_shows_depth_two :
    let calls : List (Call ℕ ℤ) :=
      [.insert 0 ⟨1, 1, 5, true⟩, .insert 1 ⟨2, 2, 7, false⟩,
        .insert 2 ⟨3, 3, 4, false⟩, .insert 3 ⟨4, 3, 6, false⟩, .cancel 2]
    ∃ page, print id (fun ask bid => (ask + bid) / 2)
        (CallSystem.stateAfter (call (fun id => id.toNat) id)
          (⟨fresh 1 4 ℕ, fun _ => ⟨0, 0, 0, false⟩⟩ : World 1 4 ℕ ℤ)
          calls).book "depth" 10 = some page ∧
      page.asks.reverse.map Row.exact = [(3, 10)] ∧
      page.bids.map Row.exact = [(1, 5)] := by
  intro calls
  obtain ⟨page, hpage, -, hcount, hshows⟩ :=
    print_shows_depth (fun id => id.toNat) id id
      (fun ask bid => (ask + bid) / 2) 0 4 (fun _ : ℕ => ⟨0, 0, 0, false⟩)
      calls "depth" 10 (by decide) (by decide)
  refine ⟨page, hpage, ?_, ?_⟩
  · rw [hshows.lowest, hcount]
    decide
  · rw [hshows.highest, hcount]
    decide

end HftOrderBook
end TradingStudies
