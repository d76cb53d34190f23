import TradingStudies.HftOrderBookLive
import TradingStudies.FixedSizedChainingRefinement

/-!
# The price-level book refines the list of live orders

The refinement relates the id index, the callers' memory, both level arrays and
both cached indices to the list of live orders.  The id index enters only
through its own refinement to a partial map.
-/

namespace TradingStudies
namespace HftOrderBook

open BestIndex HashMap HashMap.FixedSizedChainingHashMap

variable {initBuckets MaxPriceLevels : ℕ} {Addr Price : Type*}
  {priceToIndex : Price → ℤ}

/-! ## The refinement relation -/

/-- The id index leads from each live id to the address of its order. -/
structure IndexHolds (content : PartialMap UInt64 (Option Addr))
    (live : List (LiveOrder Addr Price)) : Prop where
  entries : ∀ entry ∈ live,
    content.lookup entry.order.order_id = some (some entry.ptr)
  absent : ∀ order_id, ¬ IsLive live order_id →
    content.lookup order_id = none
  card : content.keys.card = live.length

/-- Level arrays and caches agree with the list on both sides. -/
structure SidesHold (priceToIndex : Price → ℤ)
    (book : OrderBook initBuckets MaxPriceLevels Addr)
    (live : List (LiveOrder Addr Price)) : Prop where
  bids : LevelsHold book.bidLevels_ (levelTotal priceToIndex true live)
  asks : LevelsHold book.askLevels_ (levelTotal priceToIndex false live)
  bidBest : BidTracks (levelTotal priceToIndex true live) book.bestBidIndex_
  askBest : AskTracks MaxPriceLevels (levelTotal priceToIndex false live)
    book.bestAskIndex_

structure BookRefines [NeZero initBuckets] (hash : UInt64 → ℕ)
    (priceToIndex : Price → ℤ)
    (world : World initBuckets MaxPriceLevels Addr Price)
    (live : List (LiveOrder Addr Price)) : Prop where
  index : ∃ chain content,
    Represents hash world.book.orderMap_ chain content ∧
      IndexHolds content live
  memory : ∀ entry ∈ live, world.orders entry.ptr = entry.order
  orders : LiveOk MaxPriceLevels priceToIndex live
  sides : SidesHold priceToIndex world.book live

/-- The part of the relation which the levels have no share in: the id index
and the callers' memory. -/
structure IndexRefines [NeZero initBuckets] (hash : UInt64 → ℕ)
    (world : World initBuckets MaxPriceLevels Addr Price)
    (live : List (LiveOrder Addr Price)) : Prop where
  index : ∃ chain content,
    Represents hash world.book.orderMap_ chain content ∧
      IndexHolds content live
  memory : ∀ entry ∈ live, world.orders entry.ptr = entry.order
  distinct : DistinctIds live

variable {world : World initBuckets MaxPriceLevels Addr Price}
  {book : OrderBook initBuckets MaxPriceLevels Addr}
  {live live' : List (LiveOrder Addr Price)} {entry : LiveOrder Addr Price}

theorem fresh_sidesHold :
    SidesHold priceToIndex (fresh initBuckets MaxPriceLevels Addr)
      ([] : List (LiveOrder Addr Price)) where
  bids := by
    intro i
    simp [fresh, levelTotal]
  asks := by
    intro i
    simp [fresh, levelTotal]
  bidBest := by
    apply tracks_of_exhausted
    · intro other hother
      have hpos : 0 < levelTotal priceToIndex true
        ([] : List (LiveOrder Addr Price)) other := hother
      simp [levelTotal] at hpos
    · exact Or.inl rfl
  askBest := by
    apply tracks_of_exhausted (ι := ℤᵒᵈ)
    · intro (other : ℤ) hother
      have hpos : 0 < levelTotal priceToIndex false
        ([] : List (LiveOrder Addr Price)) other := hother
      simp [levelTotal] at hpos
    · exact Or.inl rfl

/-! ## The two sides -/

theorem raiseLevel_spec (hsides : SidesHold priceToIndex book live)
    (hfit : ∀ side, TotalsFit MaxPriceLevels
      (levelTotal priceToIndex side live))
    (hfit' : ∀ side, TotalsFit MaxPriceLevels
      (levelTotal priceToIndex side (entry :: live)))
    (hlow : 0 ≤ priceToIndex entry.order.price)
    (hhigh : priceToIndex entry.order.price < MaxPriceLevels)
    (hquantity : 0 < entry.order.quantity.toInt) :
    ∃ book', raiseLevel priceToIndex book entry.order = some book' ∧
      book'.orderMap_ = book.orderMap_ ∧
      SidesHold priceToIndex book' (entry :: live) := by
  have hbuy := levelTotal_insert priceToIndex true entry live
  have hsell := levelTotal_insert priceToIndex false entry live
  unfold raiseLevel
  cases hside : entry.order.is_buy with
  | true =>
      simp only [hside, if_true, Bool.true_eq_false, if_false] at hbuy hsell
      simp only [if_true, addAt_eq hlow hhigh]
      refine ⟨_, rfl, rfl, ?_, ?_, ?_, ?_⟩
      · exact hsides.bids.add hlow hhigh hbuy (hfit' true)
      · rw [hsell.eq_of_zero]
        exact hsides.asks
      · exact hsides.bidBest.fill hlow hquantity hbuy
          (hfit true).nonneg
      · rw [hsell.eq_of_zero]
        exact hsides.askBest
  | false =>
      simp only [hside, Bool.false_eq_true, if_true, if_false] at hbuy hsell
      simp only [Bool.false_eq_true, if_false, addAt_eq hlow hhigh]
      refine ⟨_, rfl, rfl, ?_, ?_, ?_, ?_⟩
      · rw [hbuy.eq_of_zero]
        exact hsides.bids
      · exact hsides.asks.add hlow hhigh hsell (hfit' false)
      · rw [hbuy.eq_of_zero]
        exact hsides.bidBest
      · exact hsides.askBest.fill hhigh hquantity hsell
          (hfit false).nonneg

theorem updatePriceLevel_spec (hsides : SidesHold priceToIndex book live)
    (hfit : ∀ side, TotalsFit MaxPriceLevels
      (levelTotal priceToIndex side live))
    (hfit' : ∀ side, TotalsFit MaxPriceLevels
      (levelTotal priceToIndex side live'))
    {is_buy : Bool} {idx : ℤ} {delta : Int32}
    (hpos : 0 < levelTotal priceToIndex is_buy live idx)
    (hshift : ∀ side,
      Shifted (levelTotal priceToIndex side live)
        (levelTotal priceToIndex side live') idx
        (if is_buy = side then delta.toInt else 0)) :
    ∃ book', updatePriceLevel is_buy book idx delta = some book' ∧
      book'.orderMap_ = book.orderMap_ ∧
      SidesHold priceToIndex book' live' := by
  have hbuy := hshift true
  have hsell := hshift false
  unfold updatePriceLevel
  cases is_buy with
  | true =>
      simp only [if_true, Bool.true_eq_false, if_false] at hbuy hsell
      obtain ⟨levels, best, heval, hlevels, hbest⟩ :=
        updateBidLevel_spec hsides.bids hsides.bidBest (hfit true)
          (hfit' true) hpos hbuy
      rw [if_pos rfl]
      refine ⟨_, heval, rfl, hlevels, ?_, hbest, ?_⟩
      · rw [hsell.eq_of_zero]
        exact hsides.asks
      · rw [hsell.eq_of_zero]
        exact hsides.askBest
  | false =>
      simp only [Bool.false_eq_true, if_true, if_false] at hbuy hsell
      obtain ⟨levels, best, heval, hlevels, hbest⟩ :=
        updateAskLevel_spec hsides.asks hsides.askBest (hfit false)
          (hfit' false) hpos hsell
      rw [if_neg (by simp)]
      refine ⟨_, heval, rfl, ?_, hlevels, ?_, hbest⟩
      · rw [hbuy.eq_of_zero]
        exact hsides.bids
      · rw [hbuy.eq_of_zero]
        exact hsides.bidBest

/-! ## The start -/

variable [NeZero initBuckets] {hash : UInt64 → ℕ}

theorem fresh_bookRefines (orders : Addr → Order Price) :
    BookRefines hash priceToIndex
      (⟨fresh initBuckets MaxPriceLevels Addr, orders⟩ :
        World initBuckets MaxPriceLevels Addr Price) [] where
  index := ⟨_, ∅, empty_represents hash, by simp, by simp, by simp⟩
  memory := by simp
  orders := ⟨List.nodup_nil, by simp, by simp, by simp [levelTotal]⟩
  sides := fresh_sidesHold

theorem BookRefines.indexRefines
    (hrefines : BookRefines hash priceToIndex world live) :
    IndexRefines hash world live :=
  ⟨hrefines.index, hrefines.memory, hrefines.orders.distinct⟩

/-! ## The id index -/

section Lookup

variable {chain : Fin initBuckets → List (NodePtr initBuckets)}
  {content : PartialMap UInt64 (Option Addr)} {order_id : UInt64}

theorem storesId_iff_mem (hrep : Represents hash book.orderMap_ chain content)
    (order_id : UInt64) :
    StoresId hash book order_id ↔ order_id ∈ content := by
  have hcontains := (hrep.call_simulates (c := .contains order_id) rfl).1
  unfold StoresId
  rw [hcontains, HashMap.abstractCall]
  simp

theorem lookupOrder_of_absent
    (hrep : Represents hash book.orderMap_ chain content)
    (habsent : order_id ∉ content) :
    lookupOrder hash book order_id =
      (book, .error (.threw "Order not found")) := by
  have hcontains := (hrep.call_simulates (c := .contains order_id) rfl).1
  simp only [HashMap.abstractCall, habsent, decide_false] at hcontains
  unfold lookupOrder
  rcases hcall : book.orderMap_.call hash (.contains order_id) with
    ⟨orderMap, outcome⟩
  rw [hcall] at hcontains
  simp only at hcontains
  subst outcome
  rfl

/-- The subscript finds the id, so the content stays as it is. -/
theorem lookupOrder_of_lookup
    (hrep : Represents hash book.orderMap_ chain content) {ptr : Addr}
    (hlookup : content.lookup order_id = some (some ptr)) :
    ∃ orderMap chain',
      lookupOrder hash book order_id =
          ({ book with orderMap_ := orderMap }, .ok ptr) ∧
        Represents hash orderMap chain' content := by
  have hpresent := Finmap.mem_of_lookup_eq_some hlookup
  have hcontains := (hrep.call_simulates (c := .contains order_id) rfl).1
  simp only [HashMap.abstractCall, hpresent, decide_true] at hcontains
  have hsubscript := hrep.call_simulates (c := .subscript order_id) rfl
  simp only [HashMap.abstractCall, hlookup] at hsubscript
  obtain ⟨hvalue, chain', hrep'⟩ := hsubscript
  rcases hcallContains : book.orderMap_.call hash (.contains order_id) with
    ⟨mapContains, outcome⟩
  rcases hcallSubscript : book.orderMap_.call hash (.subscript order_id) with
    ⟨orderMap, outcome'⟩
  rw [hcallContains] at hcontains
  rw [hcallSubscript] at hvalue hrep'
  simp only at hcontains hvalue hrep'
  subst outcome outcome'
  refine ⟨orderMap, chain', ?_, hrep'⟩
  unfold lookupOrder
  rw [hcallContains, hcallSubscript]

end Lookup

theorem IndexHolds.mem_iff {content : PartialMap UInt64 (Option Addr)}
    (hindex : IndexHolds content live) (order_id : UInt64) :
    order_id ∈ content ↔ IsLive live order_id := by
  constructor
  · intro hpresent
    by_contra hdead
    exact Finmap.lookup_eq_none.mp (hindex.absent order_id hdead) hpresent
  · rintro ⟨entry, hentry, rfl⟩
    exact Finmap.mem_of_lookup_eq_some (hindex.entries entry hentry)

theorem lookupOrder_of_dead
    (hrefines : IndexRefines hash world live) {order_id : UInt64}
    (hdead : ¬ IsLive live order_id) :
    lookupOrder hash world.book order_id =
      (world.book, .error (.threw "Order not found")) := by
  rcases hrefines.index with ⟨chain, content, hrep, hindex⟩
  apply lookupOrder_of_absent hrep
  rw [hindex.mem_iff]
  exact hdead

theorem lookupOrder_of_live
    (hrefines : IndexRefines hash world live)
    (hentry : entry ∈ live) :
    ∃ orderMap chain content,
      lookupOrder hash world.book entry.order.order_id =
          ({ world.book with orderMap_ := orderMap }, .ok entry.ptr) ∧
        Represents hash orderMap chain content ∧
        IndexHolds content live := by
  rcases hrefines.index with ⟨chain, content, hrep, hindex⟩
  obtain ⟨orderMap, chain', heval, hrep'⟩ :=
    lookupOrder_of_lookup hrep (hindex.entries entry hentry)
  exact ⟨orderMap, chain', content, heval, hrep', hindex⟩

theorem IndexHolds.insert {content : PartialMap UInt64 (Option Addr)}
    (hindex : IndexHolds content live) (entry : LiveOrder Addr Price)
    (hfresh : ¬ IsLive live entry.order.order_id) :
    IndexHolds (content.insert entry.order.order_id (some entry.ptr))
      (entry :: live) where
  entries := by
    intro other hother
    rcases List.mem_cons.mp hother with rfl | hother
    · exact Finmap.lookup_insert _
    · have hne : other.order.order_id ≠ entry.order.order_id :=
        fun heq => hfresh ⟨other, hother, heq⟩
      rw [Finmap.lookup_insert_of_ne _ hne]
      exact hindex.entries other hother
  absent := by
    intro order_id hdead
    have hne : order_id ≠ entry.order.order_id :=
      fun heq => hdead ⟨entry, List.mem_cons_self, heq.symm⟩
    rw [Finmap.lookup_insert_of_ne _ hne]
    apply hindex.absent
    rintro ⟨other, hother, heq⟩
    exact hdead ⟨other, List.mem_cons_of_mem _ hother, heq⟩
  card := by
    have habsent := Finmap.lookup_eq_none.mp (hindex.absent _ hfresh)
    rw [keys_card_insert_of_notMem habsent, hindex.card, List.length_cons]

theorem IndexHolds.update {content : PartialMap UInt64 (Option Addr)}
    (hindex : IndexHolds content live) (order_id : UInt64)
    (new_quantity : Int32) :
    IndexHolds content (live.map (setQuantity order_id new_quantity)) where
  entries := by
    intro other hother
    rcases List.mem_map.mp hother with ⟨entry, hentry, rfl⟩
    rw [setQuantity_order_id, setQuantity_ptr]
    exact hindex.entries entry hentry
  absent := by
    intro other hdead
    apply hindex.absent
    rintro ⟨entry, hentry, heq⟩
    refine hdead ⟨_, List.mem_map_of_mem hentry, ?_⟩
    rw [setQuantity_order_id]
    exact heq
  card := by
    rw [hindex.card, List.length_map]

theorem IndexHolds.cancel {content : PartialMap UInt64 (Option Addr)}
    (hindex : IndexHolds content live) (hdistinct : DistinctIds live)
    (hentry : entry ∈ live) :
    IndexHolds (content.erase entry.order.order_id)
      (live.filter fun other =>
        other.order.order_id ≠ entry.order.order_id) where
  entries := by
    intro other hother
    rcases List.mem_filter.mp hother with ⟨hother, hne⟩
    rw [Finmap.lookup_erase_ne (by simpa using hne)]
    exact hindex.entries other hother
  absent := by
    intro order_id hdead
    by_cases heq : order_id = entry.order.order_id
    · subst order_id
      exact Finmap.lookup_erase _ _
    · rw [Finmap.lookup_erase_ne heq]
      apply hindex.absent
      rintro ⟨other, hother, rfl⟩
      exact hdead ⟨other, List.mem_filter.mpr ⟨hother, by simpa using heq⟩,
        rfl⟩
  card := by
    have hpresent := Finmap.mem_of_lookup_eq_some (hindex.entries entry hentry)
    have hcard := keys_card_erase_of_mem hpresent
    have hlength := length_filter_of_distinct hdistinct hentry
    have hold := hindex.card
    omega

/-- An assignment to an id which may be live. -/
theorem IndexHolds.replace {content : PartialMap UInt64 (Option Addr)}
    (hindex : IndexHolds content live) (hdistinct : DistinctIds live)
    (entry : LiveOrder Addr Price) :
    IndexHolds (content.insert entry.order.order_id (some entry.ptr))
      (entry :: live.filter fun other =>
        other.order.order_id ≠ entry.order.order_id) := by
  by_cases hlive : IsLive live entry.order.order_id
  · obtain ⟨old, hold, hid⟩ := hlive
    have herased := hindex.cancel hdistinct hold
    rw [hid] at herased
    have hreplaced := herased.insert entry
      (not_isLive_filter live entry.order.order_id)
    have hsame : (content.erase entry.order.order_id).insert
          entry.order.order_id (some entry.ptr) =
        content.insert entry.order.order_id (some entry.ptr) := by
      apply Finmap.ext_lookup
      intro other
      by_cases heq : other = entry.order.order_id
      · rw [heq, Finmap.lookup_insert, Finmap.lookup_insert]
      · rw [Finmap.lookup_insert_of_ne _ heq,
          Finmap.lookup_insert_of_ne _ heq, Finmap.lookup_erase_ne heq]
    rwa [hsame] at hreplaced
  · rw [filter_of_ne fun other hother heq => hlive ⟨other, hother, heq⟩]
    exact hindex.insert entry hlive

/-! ## The three calls, up to the change of the levels -/

variable [DecidableEq Addr]

variable (priceToIndex) in
/-- An insert that finds its id or a free node puts its order in the place of
whatever the id led to. -/
theorem insert_index_of_room (hrefines : IndexRefines hash world live)
    (ptr : Addr) (order : Order Price)
    (hptr : ∀ entry ∈ live, entry.order.order_id ≠ order.order_id →
      entry.ptr ≠ ptr)
    (hroom : IsLive live order.order_id ∨ live.length < 16 * initBuckets) :
    ∃ orderMap,
      call hash priceToIndex world (.insert ptr order) =
          (match raiseLevel priceToIndex
              { world.book with orderMap_ := orderMap } order with
            | none =>
                ({ world with
                    orders := Function.update world.orders ptr order },
                  .undefined)
            | some book =>
                ({ book := book
                   orders := Function.update world.orders ptr order },
                  .done)) ∧
        ∀ book' : OrderBook initBuckets MaxPriceLevels Addr,
          book'.orderMap_ = orderMap →
            IndexRefines hash
              ⟨book', Function.update world.orders ptr order⟩
              (⟨ptr, order⟩ :: live.filter fun other =>
                other.order.order_id ≠ order.order_id) := by
  obtain ⟨chain, content, hrep, hindex⟩ := hrefines.index
  have hassign := hrep.call_simulates
    (c := .assign order.order_id (some ptr)) rfl
  have hanswer : HashMap.abstractCall (refuseFull initBuckets) content
      (.assign order.order_id (some ptr)) =
        (content.insert order.order_id (some ptr), .value (some ptr)) := by
    by_cases hpresent : order.order_id ∈ content
    · simp only [HashMap.abstractCall, if_pos hpresent]
    · have hlength := hroom.resolve_left fun hlive =>
        hpresent ((hindex.mem_iff _).mpr hlive)
      have hrefuse : refuseFull initBuckets content = none := by
        unfold refuseFull
        rw [hindex.card, if_neg (by omega)]
      simp only [HashMap.abstractCall, if_neg hpresent, hrefuse]
  rw [hanswer] at hassign
  rcases hassign with ⟨hvalue, chain', hrep'⟩
  rcases hcall : world.book.orderMap_.call hash
      (.assign order.order_id (some ptr)) with ⟨orderMap, outcome⟩
  rw [hcall] at hvalue hrep'
  simp only at hvalue hrep'
  subst outcome
  refine ⟨orderMap, ?_, ?_⟩
  · cases hraise : raiseLevel priceToIndex
        { world.book with orderMap_ := orderMap } order with
    | none =>
        simp only [HftOrderBook.call, HftOrderBook.insert,
          Function.update_self, hcall, hraise]
    | some book =>
        simp only [HftOrderBook.call, HftOrderBook.insert,
          Function.update_self, hcall, hraise]
  · intro book' hmap
    constructor
    · refine ⟨chain', _, ?_, hindex.replace hrefines.distinct ⟨ptr, order⟩⟩
      rw [hmap]
      exact hrep'
    · intro other hother
      rcases List.mem_cons.mp hother with rfl | hother
      · simp
      · obtain ⟨hmem, hne⟩ := List.mem_filter.mp hother
        have hother' := hptr other hmem (by simpa using hne)
        simp only [Function.update_of_ne hother']
        exact hrefines.memory other hmem
    · apply DistinctIds.cons
      · exact hrefines.distinct.sublist (List.filter_sublist.map _)
      · exact not_isLive_filter live order.order_id

variable (priceToIndex) in
/-- A new id and no free node: the subscript throws before anything is
written to the book. -/
theorem insert_of_full (hrefines : IndexRefines hash world live)
    (ptr : Addr) {order : Order Price}
    (hfresh : ¬ IsLive live order.order_id)
    (hfull : live.length = 16 * initBuckets) :
    call hash priceToIndex world (.insert ptr order) =
      ({ world with orders := Function.update world.orders ptr order },
        .threw "No free nodes available in the pool") := by
  obtain ⟨chain, content, hrep, hindex⟩ := hrefines.index
  have habsent : order.order_id ∉ content :=
    fun hpresent => hfresh ((hindex.mem_iff _).mp hpresent)
  have hrefuse : refuseFull initBuckets content =
      some "No free nodes available in the pool" := by
    unfold refuseFull
    rw [hindex.card, if_pos hfull]
  have hassign := (hrep.call_simulates
    (c := .assign order.order_id (some ptr)) rfl).1
  simp only [HashMap.abstractCall, if_neg habsent, hrefuse] at hassign
  have hsame := world.book.orderMap_.call_threw hassign
  rcases hcall : world.book.orderMap_.call hash
      (.assign order.order_id (some ptr)) with ⟨orderMap, outcome⟩
  rw [hcall] at hassign hsame
  simp only at hassign hsame
  subst orderMap outcome
  simp only [HftOrderBook.call, HftOrderBook.insert, Function.update_self,
    hcall]

variable (priceToIndex) in
theorem insert_index (hrefines : IndexRefines hash world live)
    {ptr : Addr} {order : Order Price}
    (hfresh : ¬ IsLive live order.order_id)
    (hptr : ∀ entry ∈ live, entry.ptr ≠ ptr)
    (hroom : live.length < 16 * initBuckets) :
    ∃ orderMap,
      call hash priceToIndex world (.insert ptr order) =
          (match raiseLevel priceToIndex
              { world.book with orderMap_ := orderMap } order with
            | none =>
                ({ world with
                    orders := Function.update world.orders ptr order },
                  .undefined)
            | some book =>
                ({ book := book
                   orders := Function.update world.orders ptr order },
                  .done)) ∧
        ∀ book' : OrderBook initBuckets MaxPriceLevels Addr,
          book'.orderMap_ = orderMap →
            IndexRefines hash
              ⟨book', Function.update world.orders ptr order⟩
              (⟨ptr, order⟩ :: live) := by
  have hall := insert_index_of_room priceToIndex hrefines ptr order
    (fun entry hentry _ => hptr entry hentry) (Or.inr hroom)
  rwa [filter_of_ne fun other hother heq => hfresh ⟨other, hother, heq⟩]
    at hall

variable (priceToIndex) in
theorem update_index (hrefines : IndexRefines hash world live)
    (hentry : entry ∈ live) (new_quantity : Int32) :
    ∃ orderMap,
      call hash priceToIndex world
          (.update entry.order.order_id new_quantity) =
          (match updatePriceLevel entry.order.is_buy
              { world.book with orderMap_ := orderMap }
              (priceToIndex entry.order.price)
              (new_quantity - entry.order.quantity) with
            | none => (world, .undefined)
            | some book =>
                ({ book := book
                   orders := Function.update world.orders entry.ptr
                     { entry.order with quantity := new_quantity } },
                  .done)) ∧
        ∀ book' : OrderBook initBuckets MaxPriceLevels Addr,
          book'.orderMap_ = orderMap →
            IndexRefines hash
              ⟨book', Function.update world.orders entry.ptr
                { entry.order with quantity := new_quantity }⟩
              (live.map
                (setQuantity entry.order.order_id new_quantity)) := by
  obtain ⟨orderMap, chain, content, hlookup, hrep, hindex⟩ :=
    lookupOrder_of_live hrefines hentry
  have hmemory := hrefines.memory entry hentry
  refine ⟨orderMap, ?_, ?_⟩
  · cases hlevel : updatePriceLevel entry.order.is_buy
        { world.book with orderMap_ := orderMap }
        (priceToIndex entry.order.price)
        (new_quantity - entry.order.quantity) with
    | none =>
        simp only [HftOrderBook.call, HftOrderBook.update, hlookup, hmemory,
          hlevel]
    | some book =>
        simp only [HftOrderBook.call, HftOrderBook.update, hlookup, hmemory,
          hlevel]
  · intro book' hmap
    constructor
    · refine ⟨chain, content, ?_, hindex.update _ _⟩
      rw [hmap]
      exact hrep
    · intro other hother
      obtain ⟨old, hold, rfl⟩ := List.mem_map.mp hother
      rw [setQuantity_ptr]
      by_cases heq : old.order.order_id = entry.order.order_id
      · have hsame := hrefines.distinct.unique hold hentry heq
        subst old
        simp [setQuantity]
      · have hne : old.ptr ≠ entry.ptr := by
          intro hptr
          apply heq
          rw [← hrefines.memory old hold, hptr, hmemory]
        simp only [Function.update_of_ne hne, setQuantity, if_neg heq]
        exact hrefines.memory old hold
    · exact hrefines.distinct.setQuantity _ _

variable (priceToIndex) in
theorem cancel_index (hrefines : IndexRefines hash world live)
    (hentry : entry ∈ live) :
    ∃ orderMap erasedMap,
      (∀ book' : OrderBook initBuckets MaxPriceLevels Addr,
          updatePriceLevel entry.order.is_buy
            { world.book with orderMap_ := orderMap }
            (priceToIndex entry.order.price) (-entry.order.quantity) =
              some book' →
          book'.orderMap_ = orderMap →
            call hash priceToIndex world (.cancel entry.order.order_id) =
              ({ world with book := { book' with orderMap_ := erasedMap } },
                .done)) ∧
        ∀ book' : OrderBook initBuckets MaxPriceLevels Addr,
          IndexRefines hash
            { world with book := { book' with orderMap_ := erasedMap } }
            (live.filter fun other =>
              other.order.order_id ≠ entry.order.order_id) := by
  obtain ⟨orderMap, chain, content, hlookup, hrep, hindex⟩ :=
    lookupOrder_of_live hrefines hentry
  have hmemory := hrefines.memory entry hentry
  have hpresent := Finmap.mem_of_lookup_eq_some (hindex.entries entry hentry)
  have herase := hrep.call_simulates (c := .erase entry.order.order_id) rfl
  simp only [HashMap.abstractCall, hpresent, decide_true] at herase
  rcases herase with ⟨hflag, chain', hrep'⟩
  rcases hcall : orderMap.call hash (.erase entry.order.order_id) with
    ⟨erasedMap, outcome⟩
  rw [hcall] at hflag hrep'
  simp only at hflag hrep'
  subst outcome
  refine ⟨orderMap, erasedMap, ?_, ?_⟩
  · intro book' hlevel hmap
    simp only [HftOrderBook.call, HftOrderBook.cancel, hlookup, hmemory,
      hlevel, hmap, hcall]
  · intro book'
    constructor
    · exact ⟨chain', _, hrep', hindex.cancel hrefines.distinct hentry⟩
    · intro other hother
      exact hrefines.memory other (List.mem_filter.mp hother).1
    · exact hrefines.distinct.sublist (List.filter_sublist.map _)

/-! ## The three calls

The levels hold the sums over a list of counted orders, which the book of live
orders and the ledger choose differently. -/

section Calls

variable {counted counted' : List (LiveOrder Addr Price)}

omit [NeZero initBuckets] [DecidableEq Addr] in
theorem SidesHold.withMap (hsides : SidesHold priceToIndex book live)
    (orderMap : FixedSizedChainingHashMap initBuckets UInt64 (Option Addr)) :
    SidesHold priceToIndex { book with orderMap_ := orderMap } live :=
  ⟨hsides.bids, hsides.asks, hsides.bidBest, hsides.askBest⟩

theorem insert_spec (hindex : IndexRefines hash world live)
    (hsides : SidesHold priceToIndex world.book counted)
    (hfit : ∀ side, TotalsFit MaxPriceLevels
      (levelTotal priceToIndex side counted))
    {ptr : Addr} {order : Order Price}
    (hfit' : ∀ side, TotalsFit MaxPriceLevels
      (levelTotal priceToIndex side (⟨ptr, order⟩ :: counted)))
    (hptr : ∀ entry ∈ live, entry.order.order_id ≠ order.order_id →
      entry.ptr ≠ ptr)
    (hroom : IsLive live order.order_id ∨ live.length < 16 * initBuckets)
    (hlow : 0 ≤ priceToIndex order.price)
    (hhigh : priceToIndex order.price < MaxPriceLevels)
    (hquantity : 0 < order.quantity) :
    (call hash priceToIndex world (.insert ptr order)).2 = .done ∧
      IndexRefines hash (call hash priceToIndex world (.insert ptr order)).1
        (⟨ptr, order⟩ :: live.filter fun other =>
          other.order.order_id ≠ order.order_id) ∧
      SidesHold priceToIndex
        (call hash priceToIndex world (.insert ptr order)).1.book
        (⟨ptr, order⟩ :: counted) := by
  obtain ⟨orderMap, heval, hnext⟩ :=
    insert_index_of_room priceToIndex hindex ptr order hptr hroom
  obtain ⟨book', hraise, hmap, hsides'⟩ :=
    raiseLevel_spec (hsides.withMap orderMap) hfit hfit' hlow hhigh
      (toInt_pos hquantity)
  rw [heval, hraise]
  exact ⟨rfl, hnext book' hmap, hsides'⟩

theorem update_spec (hindex : IndexRefines hash world live)
    (hsides : SidesHold priceToIndex world.book counted)
    (hfit : ∀ side, TotalsFit MaxPriceLevels
      (levelTotal priceToIndex side counted))
    (hfit' : ∀ side, TotalsFit MaxPriceLevels
      (levelTotal priceToIndex side counted'))
    (hpositive : ∀ entry ∈ counted, 0 < entry.order.quantity.toInt)
    (hentry : entry ∈ live) (hcounted : entry ∈ counted)
    {new_quantity : Int32} (hquantity : 0 < new_quantity)
    (hshift : ∀ side, Shifted (levelTotal priceToIndex side counted)
      (levelTotal priceToIndex side counted')
      (priceToIndex entry.order.price)
      (if entry.order.is_buy = side then
        new_quantity.toInt - entry.order.quantity.toInt else 0)) :
    (call hash priceToIndex world
        (.update entry.order.order_id new_quantity)).2 = .done ∧
      IndexRefines hash (call hash priceToIndex world
          (.update entry.order.order_id new_quantity)).1
        (live.map (setQuantity entry.order.order_id new_quantity)) ∧
      SidesHold priceToIndex
        (call hash priceToIndex world
          (.update entry.order.order_id new_quantity)).1.book counted' := by
  have hdelta : (new_quantity - entry.order.quantity).toInt =
      new_quantity.toInt - entry.order.quantity.toInt :=
    toInt_sub_of_pos (toInt_pos hquantity) (hpositive entry hcounted)
  rw [← hdelta] at hshift
  obtain ⟨orderMap, heval, hnext⟩ :=
    update_index priceToIndex hindex hentry new_quantity
  obtain ⟨book', hlevel, hmap, hsides'⟩ :=
    updatePriceLevel_spec (hsides.withMap orderMap) hfit hfit'
      (levelTotal_pos hpositive hcounted) hshift
  rw [heval, hlevel]
  exact ⟨rfl, hnext book' hmap, hsides'⟩

theorem cancel_spec (hindex : IndexRefines hash world live)
    (hsides : SidesHold priceToIndex world.book counted)
    (hfit : ∀ side, TotalsFit MaxPriceLevels
      (levelTotal priceToIndex side counted))
    (hfit' : ∀ side, TotalsFit MaxPriceLevels
      (levelTotal priceToIndex side counted'))
    (hpositive : ∀ entry ∈ counted, 0 < entry.order.quantity.toInt)
    (hentry : entry ∈ live) (hcounted : entry ∈ counted)
    (hshift : ∀ side, Shifted (levelTotal priceToIndex side counted)
      (levelTotal priceToIndex side counted')
      (priceToIndex entry.order.price)
      (if entry.order.is_buy = side then
        -entry.order.quantity.toInt else 0)) :
    (call hash priceToIndex world (.cancel entry.order.order_id)).2 = .done ∧
      IndexRefines hash
        (call hash priceToIndex world (.cancel entry.order.order_id)).1
        (live.filter fun other =>
          other.order.order_id ≠ entry.order.order_id) ∧
      SidesHold priceToIndex
        (call hash priceToIndex world
          (.cancel entry.order.order_id)).1.book counted' := by
  rw [← toInt_neg_of_pos (hpositive entry hcounted)] at hshift
  obtain ⟨orderMap, erasedMap, heval, hnext⟩ :=
    cancel_index priceToIndex hindex hentry
  obtain ⟨book', hlevel, hmap, hsides'⟩ :=
    updatePriceLevel_spec (hsides.withMap orderMap) hfit hfit'
      (levelTotal_pos hpositive hcounted) hshift
  rw [heval book' hlevel hmap]
  exact ⟨rfl, hnext book', hsides'.withMap erasedMap⟩

end Calls

theorem insert_refines (hrefines : BookRefines hash priceToIndex world live)
    {ptr : Addr} {order : Order Price}
    (hpromised : Promised priceToIndex initBuckets MaxPriceLevels live
      (.insert ptr order)) :
    (call hash priceToIndex world (.insert ptr order)).2 = .done ∧
      BookRefines hash priceToIndex
        (call hash priceToIndex world (.insert ptr order)).1
        (⟨ptr, order⟩ :: live) := by
  have hlive' := hrefines.orders.insert hpromised
  obtain ⟨⟨hfresh, hptr, hquantity, hlow, hhigh, hroom⟩, -⟩ := hpromised
  obtain ⟨hdone, hindex, hsides⟩ := insert_spec hrefines.indexRefines
    hrefines.sides hrefines.orders.fit hlive'.fit
    (fun entry hentry _ => hptr entry hentry) (Or.inr hroom) hlow hhigh
    hquantity
  rw [filter_of_ne fun other hother heq => hfresh ⟨other, hother, heq⟩]
    at hindex
  exact ⟨hdone, hindex.index, hindex.memory, hlive', hsides⟩

theorem update_refines (hrefines : BookRefines hash priceToIndex world live)
    {order_id : UInt64} {new_quantity : Int32}
    (hpromised : Promised priceToIndex initBuckets MaxPriceLevels live
      (.update order_id new_quantity)) (hlive : IsLive live order_id) :
    (call hash priceToIndex world (.update order_id new_quantity)).2 = .done ∧
      BookRefines hash priceToIndex
        (call hash priceToIndex world (.update order_id new_quantity)).1
        (live.map (setQuantity order_id new_quantity)) := by
  rcases hpromised with ⟨hquantity, hbounded⟩
  simp only [abstractCall, if_pos hlive] at hbounded
  have hlive' := hrefines.orders.update hquantity hbounded
  rcases hlive with ⟨entry, hentry, rfl⟩
  obtain ⟨hdone, hindex, hsides⟩ := update_spec hrefines.indexRefines
    hrefines.sides hrefines.orders.fit hlive'.fit hrefines.orders.positive
    hentry hentry hquantity
    (levelTotal_update hrefines.orders.distinct hentry new_quantity)
  exact ⟨hdone, hindex.index, hindex.memory, hlive', hsides⟩

theorem cancel_refines (hrefines : BookRefines hash priceToIndex world live)
    {order_id : UInt64}
    (hpromised : Promised priceToIndex initBuckets MaxPriceLevels live
      (.cancel order_id)) (hlive : IsLive live order_id) :
    (call hash priceToIndex world (.cancel order_id)).2 = .done ∧
      BookRefines hash priceToIndex
        (call hash priceToIndex world (.cancel order_id)).1
        (live.filter fun entry => entry.order.order_id ≠ order_id) := by
  rcases hpromised with ⟨-, hbounded⟩
  simp only [abstractCall, if_pos hlive] at hbounded
  have hlive' := hrefines.orders.cancel hbounded
  rcases hlive with ⟨entry, hentry, rfl⟩
  obtain ⟨hdone, hindex, hsides⟩ := cancel_spec hrefines.indexRefines
    hrefines.sides hrefines.orders.fit hlive'.fit hrefines.orders.positive
    hentry hentry (levelTotal_cancel hrefines.orders.distinct hentry)
  exact ⟨hdone, hindex.index, hindex.memory, hlive', hsides⟩

/-- A call that is refused leaves the book and the callers' memory alone. -/
theorem call_of_dead (hrefines : IndexRefines hash world live)
    {order_id : UInt64} (hdead : ¬ IsLive live order_id)
    {c : Call Addr Price}
    (hc : (∃ new_quantity, c = .update order_id new_quantity) ∨
      c = .cancel order_id) :
    call hash priceToIndex world c = (world, .threw "Order not found") := by
  have hlookup := lookupOrder_of_dead hrefines hdead
  rcases hc with ⟨new_quantity, rfl⟩ | rfl
  · simp only [HftOrderBook.call, HftOrderBook.update, hlookup]
  · simp only [HftOrderBook.call, HftOrderBook.cancel, hlookup]

theorem call_refines (hrefines : BookRefines hash priceToIndex world live)
    {c : Call Addr Price}
    (hpromised : Promised priceToIndex initBuckets MaxPriceLevels live c) :
    (call hash priceToIndex world c).2 = (abstractCall live c).2 ∧
      BookRefines hash priceToIndex (call hash priceToIndex world c).1
        (abstractCall live c).1 := by
  cases c with
  | insert ptr order => exact insert_refines hrefines hpromised
  | update order_id new_quantity =>
      by_cases hlive : IsLive live order_id
      · simp only [abstractCall, if_pos hlive]
        exact update_refines hrefines hpromised hlive
      · simp only [abstractCall, if_neg hlive]
        rw [call_of_dead hrefines.indexRefines hlive (Or.inl ⟨new_quantity, rfl⟩)]
        exact ⟨rfl, hrefines⟩
  | cancel order_id =>
      by_cases hlive : IsLive live order_id
      · simp only [abstractCall, if_pos hlive]
        exact cancel_refines hrefines hpromised hlive
      · simp only [abstractCall, if_neg hlive]
        rw [call_of_dead hrefines.indexRefines hlive (Or.inr rfl)]
        exact ⟨rfl, hrefines⟩

/-! ## Whole runs -/

variable (hash) in
theorem run_refines (exponent : ℕ) (orders : Addr → Order Price)
    {calls : List (Call Addr Price)}
    (hpromised : CallSystem.AllAllowed abstractCall
      (Promised priceToIndex (2 ^ exponent) MaxPriceLevels) [] calls) :
    let start : World (2 ^ exponent) MaxPriceLevels Addr Price :=
      ⟨fresh (2 ^ exponent) MaxPriceLevels Addr, orders⟩
    CallSystem.results (call hash priceToIndex) start calls =
        CallSystem.results abstractCall [] calls ∧
      BookRefines hash priceToIndex
        (CallSystem.stateAfter (call hash priceToIndex) start calls)
        (CallSystem.stateAfter abstractCall [] calls) := by
  intro start
  apply CallSystem.simulation_of_abstract
    (Promised priceToIndex (2 ^ exponent) MaxPriceLevels)
    (fun world live => BookRefines hash priceToIndex world live)
    ?_ (fresh_bookRefines orders) hpromised
  intro world live c hrefines hallowed
  exact call_refines hrefines hallowed

theorem LevelsHold.levelAt {levels : Fin MaxPriceLevels → Int32}
    {total : ℤ → ℤ} (hlevels : LevelsHold levels total) {idx : ℤ}
    (hlow : 0 ≤ idx) (hhigh : idx < MaxPriceLevels) :
    ∃ size, HftOrderBook.levelAt levels idx = some size ∧
      size.toInt = total idx := by
  refine ⟨_, levelAt_eq hlow hhigh, ?_⟩
  have hlevel := hlevels ⟨idx.toNat, by omega⟩
  rwa [Int.toNat_of_nonneg hlow] at hlevel

/-- After every promised run the level arrays are the sums over the live
orders, the cached indices are the best occupied ones, the calls were answered
as by the list, and a call with an unknown id throws and changes nothing. -/
theorem hftOrderBook_refines_liveOrders
    (hash : UInt64 → ℕ) (priceToIndex : Price → ℤ) (indexToPrice : ℤ → Price)
    (exponent MaxPriceLevels : ℕ) (orders : Addr → Order Price)
    (calls : List (Call Addr Price))
    (hpromised : CallSystem.AllAllowed abstractCall
      (Promised priceToIndex (2 ^ exponent) MaxPriceLevels) [] calls) :
    let start : World (2 ^ exponent) MaxPriceLevels Addr Price :=
      ⟨fresh (2 ^ exponent) MaxPriceLevels Addr, orders⟩
    let world := CallSystem.stateAfter (call hash priceToIndex) start calls
    let live := CallSystem.stateAfter abstractCall [] calls
    CallSystem.results (call hash priceToIndex) start calls =
        CallSystem.results abstractCall [] calls ∧
      (∀ i : Fin MaxPriceLevels,
        (world.book.bidLevels_ i).toInt =
            levelTotal priceToIndex true live i.val ∧
          (world.book.askLevels_ i).toInt =
            levelTotal priceToIndex false live i.val) ∧
      ((∃ entry ∈ live, entry.order.is_buy = true) →
        IsGreatest (liveIndices priceToIndex true live)
            world.book.bestBidIndex_ ∧
          ∃ size, bestBid indexToPrice world.book =
              some (indexToPrice world.book.bestBidIndex_, size) ∧
            size.toInt =
              levelTotal priceToIndex true live world.book.bestBidIndex_) ∧
      ((∃ entry ∈ live, entry.order.is_buy = false) →
        IsLeast (liveIndices priceToIndex false live)
            world.book.bestAskIndex_ ∧
          ∃ size, bestAsk indexToPrice world.book =
              some (indexToPrice world.book.bestAskIndex_, size) ∧
            size.toInt =
              levelTotal priceToIndex false live world.book.bestAskIndex_) ∧
      (∀ order_id, ¬ IsLive live order_id → ∀ c,
        ((∃ new_quantity, c = .update order_id new_quantity) ∨
          c = .cancel order_id) →
        call hash priceToIndex world c =
          (world, .threw "Order not found")) := by
  obtain ⟨hresults, hrefines⟩ :=
    run_refines hash exponent orders hpromised
  dsimp only
  refine ⟨hresults, ?_, ?_, ?_, ?_⟩
  · intro i
    exact ⟨hrefines.sides.bids i, hrefines.sides.asks i⟩
  · rintro ⟨entry, hentry, hside⟩
    have hoccupied := occupiedBy_levelTotal priceToIndex
      hrefines.orders.positive true
    have hgreatest := hrefines.sides.bidBest.greatest
      ⟨priceToIndex entry.order.price, by
        rw [hoccupied]
        exact ⟨entry, hentry, hside, rfl⟩⟩
    obtain ⟨hlow, hhigh⟩ :=
      (hrefines.orders.fit true).lt_of_occupied hgreatest.1
    obtain ⟨size, hsize, htotal⟩ :=
      LevelsHold.levelAt hrefines.sides.bids hlow hhigh
    rw [hoccupied] at hgreatest
    refine ⟨hgreatest, size, ?_, htotal⟩
    simp [bestBid, hsize]
  · rintro ⟨entry, hentry, hside⟩
    have hoccupied := occupiedBy_levelTotal priceToIndex
      hrefines.orders.positive false
    obtain ⟨hmem, hlower⟩ := hrefines.sides.askBest.greatest
      ⟨priceToIndex entry.order.price, by
        rw [hoccupied]
        exact ⟨entry, hentry, hside, rfl⟩⟩
    obtain ⟨hlow, hhigh⟩ := (hrefines.orders.fit false).lt_of_occupied hmem
    obtain ⟨size, hsize, htotal⟩ :=
      LevelsHold.levelAt hrefines.sides.asks hlow hhigh
    rw [hoccupied] at hmem hlower
    refine ⟨⟨hmem, fun other hother => hlower hother⟩, size, ?_, htotal⟩
    simp [bestAsk, hsize]
  · intro order_id hdead c hc
    exact call_of_dead hrefines.indexRefines hdead hc

/-- A buy and a sell order, an update, a refused cancel and a cancel. -/
theorem hftOrderBook_short_run :
    let world := CallSystem.stateAfter (call (fun id => id.toNat) id)
      (⟨fresh 1 4 ℕ, fun _ => ⟨0, 0, 0, false⟩⟩ : World 1 4 ℕ ℤ)
      [.insert 0 ⟨1, 2, 5, true⟩, .insert 1 ⟨2, 3, 7, false⟩,
        .update 1 9, .cancel 8, .cancel 2]
    (world.book.bidLevels_ 2).toInt = 9 ∧
      IsGreatest {(2 : ℤ)} world.book.bestBidIndex_ := by
  have hrun := hftOrderBook_refines_liveOrders
    (fun id => id.toNat) id id 0 4 (fun _ : ℕ => ⟨0, 0, 0, false⟩)
    [.insert 0 ⟨1, 2, 5, true⟩, .insert 1 ⟨2, 3, 7, false⟩,
      .update 1 9, .cancel 8, .cancel 2] (by decide)
  rcases hrun with ⟨-, hlevels, hbid, -, -⟩
  have hlive : CallSystem.stateAfter abstractCall
      ([] : List (LiveOrder ℕ ℤ))
      [.insert 0 ⟨1, 2, 5, true⟩, .insert 1 ⟨2, 3, 7, false⟩,
        .update 1 9, .cancel 8, .cancel 2] = [⟨0, ⟨1, 2, 9, true⟩⟩] := by
    decide
  rw [hlive] at hlevels hbid
  have hindices : liveIndices id true
      [(⟨0, ⟨1, 2, 9, true⟩⟩ : LiveOrder ℕ ℤ)] = {(2 : ℤ)} := by
    ext i
    constructor
    · rintro ⟨entry, hentry, -, rfl⟩
      rw [List.mem_singleton.mp hentry]
      rfl
    · rintro rfl
      exact ⟨_, List.mem_singleton_self _, rfl, rfl⟩
  have hgreatest := (hbid ⟨_, List.mem_cons_self, rfl⟩).1
  rw [hindices] at hgreatest
  exact ⟨(hlevels 2).1.trans (by decide), hgreatest⟩

end HftOrderBook
end TradingStudies
