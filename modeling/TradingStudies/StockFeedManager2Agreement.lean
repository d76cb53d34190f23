import TradingStudies.StockFeedManager2
import TradingStudies.StockFeedManagerMerge
import TradingStudies.Library.SubscriptMap

/-!
# When the incremental feed agrees with the merged one

The feed that is kept shows the ids of the subscribed events, the newest first,
as long as every subscription brings in a history that is newer than all the
user was subscribed to.  An older event is put in front of newer ones, and a
history that is subscribed to twice is shown twice, which a request with a large
bound notices at once.
-/

namespace TradingStudies
namespace StockFeed2

open HashMap (PartialMap)
open StockFeed (Event Outcome Stream dequeOf stamp stocksOf)

variable {Symbol : Type*} [DecidableEq Symbol]

/-- The ids of the events of some stocks, the newest first. -/
def idsOf (stream : Stream Symbol) (stocks : Finset Symbol) : List Int32 :=
  (stream.ofStocks stocks).map Event.eventId

/-- The manager stores the stream, and the feeds are up to date. -/
structure Keeps (manager : StockFeedManager Symbol) (stream : Stream Symbol) :
    Prop where
  timestamp_eq : manager.timestamp = Int32.ofNat stream.log.length
  deque_eq : ∀ symbol, dequeOf manager.events symbol =
    ((stream.ofStock symbol).map stamp).reverse
  stocks_eq : ∀ userId, stocksOf manager.user_stocks userId =
    stream.subscribed userId
  feed_eq : ∀ userId, feedOf manager.user_feed userId =
    idsOf stream (stream.subscribed userId)

/-- No two events have the same id. -/
def UniqueIds (stream : Stream Symbol) : Prop :=
  (stream.log.map Event.eventId).Nodup

variable {manager : StockFeedManager Symbol} {stream : Stream Symbol}

/-! ## The feeds -/

section Feeds

variable {user_feed : PartialMap Int32 (List Int32)}

omit [DecidableEq Symbol] in
theorem feedOf_emplaceFront (userId eventId other : Int32) :
    feedOf (emplaceFront user_feed userId eventId) other =
      if other = userId then eventId :: feedOf user_feed other
      else feedOf user_feed other := by
  unfold emplaceFront feedOf
  rw [SubscriptMap.getD_insert]
  by_cases heq : other = userId
  · rw [heq, Function.update_self, if_pos rfl]
  · rw [Function.update_of_ne heq, if_neg heq]

/-- Each user of the loop whose stocks have the event gets it once. -/
theorem feedOf_foldl_users {users : List Int32} (hnodup : users.Nodup)
    (selected : Int32 → Prop) [DecidablePred selected]
    (eventId userId : Int32) :
    feedOf (users.foldl (fun user_feed userId =>
        if selected userId then emplaceFront user_feed userId eventId
        else user_feed) user_feed) userId =
      if userId ∈ users ∧ selected userId then
        eventId :: feedOf user_feed userId
      else feedOf user_feed userId := by
  induction users generalizing user_feed with
  | nil => simp
  | cons first rest ih =>
      obtain ⟨hfresh, hrest⟩ := List.nodup_cons.mp hnodup
      rw [List.foldl_cons, ih hrest]
      by_cases hselected : selected first
      · rw [if_pos hselected, feedOf_emplaceFront]
        by_cases heq : userId = first
        · subst userId
          simp [hfresh, hselected]
        · simp [heq]
      · rw [if_neg hselected]
        by_cases heq : userId = first
        · subst userId
          simp [hselected]
        · simp [heq]

theorem feedOf_foldl_history (history : List (Int32 × Int32))
    (userId other : Int32) :
    feedOf (history.foldl (fun user_feed event =>
        emplaceFront user_feed userId event.2) user_feed) other =
      if other = userId then
        history.reverse.map Prod.snd ++ feedOf user_feed other
      else feedOf user_feed other := by
  induction history generalizing user_feed with
  | nil => simp
  | cons event rest ih =>
      rw [List.foldl_cons, ih, feedOf_emplaceFront]
      by_cases heq : other = userId
      · simp [heq]
      · simp [heq]

theorem foldl_filter_ne (history : List (Int32 × Int32)) (feed : List Int32) :
    history.foldl (fun feed event => feed.filter fun eventId =>
        eventId ≠ event.2) feed =
      feed.filter fun eventId => eventId ∉ history.map Prod.snd := by
  induction history generalizing feed with
  | nil => simp
  | cons event rest ih =>
      rw [List.foldl_cons, ih, List.filter_filter]
      apply List.filter_congr
      intro eventId _
      simp only [List.map_cons, List.mem_cons, not_or, Bool.decide_and]
      rw [Bool.and_comm]

end Feeds

/-! ## The stream -/

section Streams

omit [DecidableEq Symbol] in
theorem eventId_inj (hunique : UniqueIds stream) {event other : Event Symbol}
    (hevent : event ∈ stream.log) (hother : other ∈ stream.log)
    (heq : event.eventId = other.eventId) : event = other :=
  List.inj_on_of_nodup_map hunique hevent hother heq

theorem mem_ofStock {symbol : Symbol} {event : Event Symbol} :
    event ∈ stream.ofStock symbol ↔
      event ∈ stream.log ∧ event.stockSymbol = symbol := by
  rw [Stream.ofStock, List.mem_filter, decide_eq_true_eq]

theorem mem_ofStocks {stocks : Finset Symbol} {event : Event Symbol} :
    event ∈ stream.ofStocks stocks ↔
      event ∈ stream.log ∧ event.stockSymbol ∈ stocks := by
  rw [Stream.ofStocks, List.mem_filter, decide_eq_true_eq]

/-- Events of a stock that are all newer stand in front. -/
theorem ofStocks_insert_iff (hnumbered : stream.Numbered) (symbol : Symbol)
    (stocks : Finset Symbol) :
    stream.ofStocks (insert symbol stocks) =
        stream.ofStock symbol ++ stream.ofStocks stocks ↔
      ∀ event ∈ stream.ofStock symbol, ∀ other ∈ stream.ofStocks stocks,
        other.timestamp < event.timestamp := by
  have hsorted : (stream.ofStocks (insert symbol stocks)).Pairwise
      fun event later => later.timestamp < event.timestamp :=
    hnumbered.1.filter _
  constructor
  · intro heq
    rw [heq] at hsorted
    exact (List.pairwise_append.mp hsorted).2.2
  · intro hnewer
    by_cases hmem : symbol ∈ stocks
    · have hnone : stream.ofStock symbol = [] := by
        apply List.eq_nil_iff_forall_not_mem.mpr
        intro event hevent
        have hboth := mem_ofStock.mp hevent
        have hagain : event ∈ stream.ofStocks stocks :=
          mem_ofStocks.mpr ⟨hboth.1, hboth.2 ▸ hmem⟩
        exact lt_irrefl _ (hnewer event hevent event hagain)
      rw [hnone, Finset.insert_eq_of_mem hmem, List.nil_append]
    · have hsplit := List.filter_append_perm
        (fun event : Event Symbol => decide (event.stockSymbol = symbol))
        (stream.ofStocks (insert symbol stocks))
      have hfirst : (stream.ofStocks (insert symbol stocks)).filter
          (fun event => event.stockSymbol = symbol) =
            stream.ofStock symbol := by
        unfold Stream.ofStocks Stream.ofStock
        rw [List.filter_filter]
        apply List.filter_congr
        intro event _
        by_cases heq : event.stockSymbol = symbol <;> simp [heq]
      have hrest : (stream.ofStocks (insert symbol stocks)).filter
          (fun event => !decide (event.stockSymbol = symbol)) =
            stream.ofStocks stocks := by
        unfold Stream.ofStocks
        rw [List.filter_filter]
        apply List.filter_congr
        intro event _
        by_cases heq : event.stockSymbol = symbol <;> simp [heq, hmem]
      rw [hfirst, hrest] at hsplit
      apply List.Perm.eq_of_pairwise _ hsorted _ hsplit.symm
      · intro event other _ _ hlt hgt
        exact absurd hgt (lt_asymm hlt)
      · rw [List.pairwise_append]
        exact ⟨hnumbered.1.filter _, hnumbered.1.filter _, hnewer⟩

omit [DecidableEq Symbol] in
/-- Lists of events are told apart by their ids. -/
theorem eq_of_map_eventId (hunique : UniqueIds stream)
    {events others : List (Event Symbol)}
    (hevents : ∀ event ∈ events, event ∈ stream.log)
    (hothers : ∀ event ∈ others, event ∈ stream.log)
    (hmap : events.map Event.eventId = others.map Event.eventId) :
    events = others := by
  induction events generalizing others with
  | nil => exact (List.map_eq_nil_iff.mp hmap.symm).symm
  | cons event rest ih =>
      cases others with
      | nil => cases hmap
      | cons other later =>
          rw [List.map_cons, List.map_cons, List.cons.injEq] at hmap
          have hsame : event = other := eventId_inj hunique
            (hevents event List.mem_cons_self)
            (hothers other List.mem_cons_self) hmap.1
          rw [hsame, ih (fun _ h => hevents _ (List.mem_cons_of_mem _ h))
            (fun _ h => hothers _ (List.mem_cons_of_mem _ h)) hmap.2]

theorem idsOf_erase (hunique : UniqueIds stream) (symbol : Symbol)
    (stocks : Finset Symbol) :
    (idsOf stream stocks).filter (fun eventId =>
        eventId ∉ (stream.ofStock symbol).map Event.eventId) =
      idsOf stream (stocks.erase symbol) := by
  unfold idsOf
  rw [List.filter_map]
  congr 1
  unfold Stream.ofStocks
  rw [List.filter_filter]
  apply List.filter_congr
  intro event hevent
  have hmem : event.eventId ∈ (stream.ofStock symbol).map Event.eventId ↔
      event.stockSymbol = symbol := by
    rw [List.mem_map]
    constructor
    · rintro ⟨other, hother, hid⟩
      have hboth := mem_ofStock.mp hother
      rw [← eventId_inj hunique hboth.1 hevent hid]
      exact hboth.2
    · intro hsymbol
      exact ⟨event, mem_ofStock.mpr ⟨hevent, hsymbol⟩, rfl⟩
  simp only [Function.comp, hmem, Finset.mem_erase, Bool.decide_and]

end Streams

/-! ## Requests keep the feeds -/

theorem keeps_construct : Keeps (construct Symbol) (Stream.initial Symbol) where
  timestamp_eq := rfl
  deque_eq _ := rfl
  stocks_eq _ := rfl
  feed_eq _ := rfl

theorem keeps_addEvent (hkeeps : Keeps manager stream) (stockSymbol : Symbol)
    (eventId : Int32) {users : List Int32} (hnodup : users.Nodup)
    (husers : ∀ userId, userId ∈ users ↔ userId ∈ manager.user_stocks) :
    Keeps (addEvent manager stockSymbol eventId users)
      (stream.record (.addEvent stockSymbol eventId)) where
  timestamp_eq := by
    show manager.timestamp + 1 = Int32.ofNat (stream.log.length + 1)
    rw [hkeeps.timestamp_eq, Int32.ofNat_add]
    rfl
  deque_eq symbol := by
    unfold addEvent Stream.record Stream.ofStock
    by_cases heq : symbol = stockSymbol
    · subst heq
      rw [StockFeed.dequeOf_insert_self, List.filter_cons_of_pos (by simp),
        List.map_cons, List.reverse_cons, hkeeps.deque_eq, hkeeps.timestamp_eq]
      rfl
    · rw [StockFeed.dequeOf_insert_of_ne heq,
        List.filter_cons_of_neg (by simpa using Ne.symm heq)]
      exact hkeeps.deque_eq symbol
  stocks_eq := hkeeps.stocks_eq
  feed_eq userId := by
    have hselected : (userId ∈ users ∧
        stockSymbol ∈ stocksOf manager.user_stocks userId) ↔
          stockSymbol ∈ stream.subscribed userId := by
      rw [← hkeeps.stocks_eq, husers, Finmap.mem_iff]
      constructor
      · exact And.right
      · intro hstock
        refine ⟨?_, hstock⟩
        cases hlookup : manager.user_stocks.lookup userId with
        | none => simp [stocksOf, hlookup] at hstock
        | some stocks => exact ⟨stocks, rfl⟩
    simp only [addEvent, feedOf_foldl_users hnodup, hselected, hkeeps.feed_eq]
    unfold Stream.record idsOf Stream.ofStocks
    by_cases hstock : stockSymbol ∈ stream.subscribed userId
    · rw [if_pos hstock, List.filter_cons_of_pos (by simpa using hstock),
        List.map_cons]
    · rw [if_neg hstock, List.filter_cons_of_neg (by simpa using hstock)]

/-- A subscription, whatever it does to the order of the feed. -/
theorem subscribe_fields (hkeeps : Keeps manager stream) (userId : Int32)
    (stockSymbol : Symbol) :
    (subscribe manager userId stockSymbol).timestamp = manager.timestamp ∧
      (subscribe manager userId stockSymbol).events = manager.events ∧
      (subscribe manager userId stockSymbol).user_stocks =
        manager.user_stocks.insert userId
          (insert stockSymbol (stream.subscribed userId)) ∧
      ∀ other, feedOf (subscribe manager userId stockSymbol).user_feed other =
        if other = userId then
          (stream.ofStock stockSymbol ++
            stream.ofStocks (stream.subscribed userId)).map Event.eventId
        else idsOf stream (stream.subscribed other) := by
  have hdeque := hkeeps.deque_eq stockSymbol
  unfold subscribe
  rw [hkeeps.stocks_eq]
  cases hlookup : manager.events.lookup stockSymbol with
  | none =>
      have hempty : stream.ofStock stockSymbol = [] := by
        rw [dequeOf, hlookup, Option.getD_none] at hdeque
        simpa using hdeque.symm
      refine ⟨rfl, rfl, rfl, ?_⟩
      intro other
      simp only
      rw [hkeeps.feed_eq, hempty, List.nil_append]
      by_cases heq : other = userId
      · rw [if_pos heq, heq, idsOf]
      · rw [if_neg heq]
  | some history =>
      have hhistory : history.reverse.map Prod.snd =
          (stream.ofStock stockSymbol).map Event.eventId := by
        rw [dequeOf, hlookup, Option.getD_some] at hdeque
        rw [hdeque, List.reverse_reverse, List.map_map]
        rfl
      refine ⟨rfl, rfl, rfl, ?_⟩
      intro other
      simp only
      rw [feedOf_foldl_history, hhistory, hkeeps.feed_eq, List.map_append]
      by_cases heq : other = userId
      · rw [if_pos heq, if_pos heq, heq, idsOf]
      · rw [if_neg heq, if_neg heq]

omit [DecidableEq Symbol] in
theorem subscribed_update (userId : Int32) (stocks : Finset Symbol)
    {user_stocks : PartialMap Int32 (Finset Symbol)}
    (hstocks : ∀ other, stocksOf user_stocks other = stream.subscribed other)
    (other : Int32) :
    stocksOf (user_stocks.insert userId stocks) other =
      Function.update stream.subscribed userId stocks other := by
  unfold stocksOf
  rw [SubscriptMap.getD_insert]
  congr 1
  funext another
  exact hstocks another

theorem keeps_subscribe (hkeeps : Keeps manager stream) {userId : Int32}
    {stockSymbol : Symbol}
    (hfront : stream.ofStocks
        (insert stockSymbol (stream.subscribed userId)) =
      stream.ofStock stockSymbol ++
        stream.ofStocks (stream.subscribed userId)) :
    Keeps (subscribe manager userId stockSymbol)
      (stream.record (.subscribe userId stockSymbol)) := by
  obtain ⟨htimestamp, hevents, hstocks, hfeed⟩ :=
    subscribe_fields hkeeps userId stockSymbol
  constructor
  · exact htimestamp.trans hkeeps.timestamp_eq
  · rw [hevents]
    exact hkeeps.deque_eq
  · rw [hstocks]
    exact subscribed_update userId _ hkeeps.stocks_eq
  · intro other
    rw [hfeed]
    unfold idsOf Stream.record
    simp only
    by_cases heq : other = userId
    · rw [if_pos heq, heq, Function.update_self, ← hfront]
      rfl
    · rw [if_neg heq, Function.update_of_ne heq]
      rfl

theorem keeps_unsubscribe (hkeeps : Keeps manager stream)
    (hunique : UniqueIds stream) (userId : Int32) (stockSymbol : Symbol) :
    Keeps (unsubscribe manager userId stockSymbol)
      (stream.record (.unsubscribe userId stockSymbol)) := by
  have hstocks := hkeeps.stocks_eq userId
  by_cases hmem : stockSymbol ∈ stream.subscribed userId
  · cases hlookup : manager.user_stocks.lookup userId with
    | none =>
        rw [stocksOf, hlookup, Option.getD_none] at hstocks
        rw [← hstocks] at hmem
        exact absurd hmem (Finset.notMem_empty _)
    | some stocks =>
        rw [stocksOf, hlookup, Option.getD_some] at hstocks
        have hhistory : (dequeOf manager.events stockSymbol).map Prod.snd =
            ((stream.ofStock stockSymbol).map Event.eventId).reverse := by
          rw [hkeeps.deque_eq, List.map_reverse, List.map_map]
          rfl
        unfold unsubscribe
        rw [hlookup]
        simp only [hstocks, hmem, not_true_eq_false, if_false]
        constructor
        · exact hkeeps.timestamp_eq
        · intro symbol
          exact (StockFeed.dequeOf_subscript stockSymbol symbol).trans
            (hkeeps.deque_eq symbol)
        · exact subscribed_update userId _ hkeeps.stocks_eq
        · intro other
          unfold feedOf Stream.record
          simp only
          rw [SubscriptMap.getD_insert]
          by_cases heq : other = userId
          · rw [heq, Function.update_self, Function.update_self,
              foldl_filter_ne, hhistory]
            simp only [List.mem_reverse]
            have hfeed := hkeeps.feed_eq userId
            unfold feedOf at hfeed
            rw [hfeed]
            exact idsOf_erase hunique stockSymbol _
          · rw [Function.update_of_ne heq, Function.update_of_ne heq]
            exact hkeeps.feed_eq other
  · have hsame : unsubscribe manager userId stockSymbol = manager := by
      unfold unsubscribe
      cases hlookup : manager.user_stocks.lookup userId with
      | none => rfl
      | some stocks =>
          rw [stocksOf, hlookup, Option.getD_some] at hstocks
          simp only [hstocks, hmem, not_false_eq_true, if_true]
    have hrecord : stream.record (.unsubscribe userId stockSymbol) =
        stream := by
      unfold Stream.record
      simp only [Finset.erase_eq_of_notMem hmem, Function.update_eq_self]
    rw [hsame, hrecord]
    exact hkeeps

/-! ## Agreement -/

omit [DecidableEq Symbol] in
theorem getUserFeed_eq (manager : StockFeedManager Symbol) (userId : Int32)
    {maxEvents : Int32} (hmax : 0 ≤ maxEvents) :
    getUserFeed manager userId maxEvents =
      .feed ((feedOf manager.user_feed userId).take
        maxEvents.toNatClampNeg) := by
  unfold getUserFeed feedOf
  cases manager.user_feed.lookup userId with
  | none => simp
  | some feed => simp [Int32.not_lt.mpr hmax]

section Agreement

variable {managers : Managers Symbol}

/-- A request with the largest bound shows the whole feed. -/
theorem feedsAgree_iff
    (hdescribes : StockFeed.Describes managers.merging stream)
    (hnumbered : stream.Numbered) (hfew : stream.log.length + 1 < 2 ^ 31) :
    FeedsAgree managers ↔
      ∀ userId, feedOf managers.incremental.user_feed userId =
        idsOf stream (stream.subscribed userId) := by
  have hlength : stream.log.length ≤ 2 ^ 31 := by omega
  constructor
  · intro hagree userId
    have hmax : (0 : Int32) ≤ Int32.maxValue := by decide
    have hiteration : StockFeed.Enumerates managers.merging userId
        (stream.subscribed userId).toList := by
      constructor
      · exact Finset.nodup_toList _
      · intro symbol
        rw [hdescribes.stocks_eq, Finset.mem_toList]
    have hshown := hagree userId Int32.maxValue _ hmax hiteration
    rw [StockFeed.getUserFeed_outcome hdescribes hnumbered hlength hmax
      hiteration, getUserFeed_eq _ _ hmax] at hshown
    have hbound : Int32.maxValue.toNatClampNeg = 2 ^ 31 - 1 := rfl
    have hids : (stream.ofStocks (stream.subscribed userId)).length <
        2 ^ 31 - 1 := by
      have hle := List.length_filter_le
        (fun event : Event Symbol =>
          event.stockSymbol ∈ stream.subscribed userId) stream.log
      rw [Stream.ofStocks]
      omega
    rw [hbound, List.take_of_length_le hids.le] at hshown
    have hfeed : idsOf stream (stream.subscribed userId) =
        (feedOf managers.incremental.user_feed userId).take (2 ^ 31 - 1) :=
      Outcome.feed.inj hshown
    have hshort : (feedOf managers.incremental.user_feed userId).length ≤
        2 ^ 31 - 1 := by
      have hsame := congrArg List.length hfeed
      rw [idsOf, List.length_map, List.length_take] at hsame
      omega
    rw [hfeed, List.take_of_length_le hshort]
  · intro hfeeds userId maxEvents stocks hmax hiteration
    rw [StockFeed.getUserFeed_outcome hdescribes hnumbered hlength hmax
      hiteration, getUserFeed_eq _ _ hmax, hfeeds, idsOf, List.map_take]

/-- Both managers store the stream. -/
structure Synchronised (managers : Managers Symbol) (stream : Stream Symbol) :
    Prop where
  merging : StockFeed.Describes managers.merging stream
  incremental : Keeps managers.incremental stream
  numbered : stream.Numbered
  unique : UniqueIds stream

theorem synchronised_construct :
    Synchronised (Managers.construct Symbol) (Stream.initial Symbol) where
  merging := StockFeed.describes_construct
  incremental := keeps_construct
  numbered := StockFeed.numbered_initial
  unique := List.nodup_nil

theorem Synchronised.feedsAgree (hsync : Synchronised managers stream)
    (hfew : stream.log.length + 1 < 2 ^ 31) : FeedsAgree managers :=
  (feedsAgree_iff hsync.merging hsync.numbered hfew).mpr
    hsync.incremental.feed_eq

/-- The promise about a new id, said of the stream. -/
theorem Synchronised.new_id (hsync : Synchronised managers stream)
    {eventId : Int32}
    (hnew : ∀ stockSymbol,
      ∀ event ∈ dequeOf managers.merging.events stockSymbol,
        event.2 ≠ eventId) :
    eventId ∉ stream.log.map Event.eventId := by
  intro hmem
  obtain ⟨event, hevent, hid⟩ := List.mem_map.mp hmem
  apply hnew event.stockSymbol (stamp event) _ hid
  rw [hsync.merging.deque_eq, List.mem_reverse]
  exact List.mem_map_of_mem (mem_ofStock.mpr ⟨hevent, rfl⟩)

/-- The condition of a subscription, said of the stream. -/
theorem Synchronised.allowed_subscribe_iff
    (hsync : Synchronised managers stream)
    (hfew : stream.log.length ≤ 2 ^ 31) (userId : Int32)
    (stockSymbol : Symbol) :
    Allowed managers (.subscribe userId stockSymbol) ↔
      stream.ofStocks (insert stockSymbol (stream.subscribed userId)) =
        stream.ofStock stockSymbol ++
          stream.ofStocks (stream.subscribed userId) := by
  have hstamps : ∀ event ∈ stream.log, ∀ other ∈ stream.log,
      ((stamp other).1 < (stamp event).1 ↔
        other.timestamp < event.timestamp) := by
    intro event hevent other hother
    have heventFits := (hsync.numbered.2 event hevent).trans_le hfew
    have hotherFits := (hsync.numbered.2 other hother).trans_le hfew
    rw [Int32.lt_iff_toInt_lt, stamp, stamp,
      Int32.toInt_ofNat_of_lt heventFits, Int32.toInt_ofNat_of_lt hotherFits,
      Int.ofNat_lt]
  rw [ofStocks_insert_iff hsync.numbered]
  unfold Allowed
  simp only [hsync.merging.deque_eq, hsync.merging.stocks_eq, List.mem_reverse,
    List.forall_mem_map]
  constructor
  · intro hallowed event hevent other hother
    have hboth := mem_ofStocks.mp hother
    exact (hstamps event (mem_ofStock.mp hevent).1 other hboth.1).mp
      (hallowed event hevent other.stockSymbol hboth.2 other
        (mem_ofStock.mpr ⟨hboth.1, rfl⟩))
  · intro hnewer event hevent subscribed hsubscribed other hother
    have hboth := mem_ofStock.mp hother
    exact (hstamps event (mem_ofStock.mp hevent).1 other hboth.1).mpr
      (hnewer event hevent other
        (mem_ofStocks.mpr ⟨hboth.1, hboth.2.symm ▸ hsubscribed⟩))

theorem Synchronised.call (hsync : Synchronised managers stream)
    (hfew : stream.log.length ≤ 2 ^ 31) {request : Request Symbol}
    (hpromised : Promised managers request)
    (hallowed : Allowed managers request) :
    Synchronised (callBoth managers request).1
      (stream.record request.toCall) where
  merging := StockFeed.describes_call hsync.merging request.toCall
  numbered := StockFeed.numbered_record hsync.numbered request.toCall
  incremental := by
    cases request with
    | addEvent stockSymbol eventId users =>
        exact keeps_addEvent hsync.incremental stockSymbol eventId
          hpromised.2.1 hpromised.2.2
    | subscribe userId stockSymbol =>
        exact keeps_subscribe hsync.incremental
          ((hsync.allowed_subscribe_iff hfew userId stockSymbol).mp hallowed)
    | unsubscribe userId stockSymbol =>
        exact keeps_unsubscribe hsync.incremental hsync.unique userId
          stockSymbol
    | getUserFeed userId maxEvents stocks => exact hsync.incremental
  unique := by
    cases request with
    | addEvent stockSymbol eventId users =>
        exact List.nodup_cons.mpr ⟨hsync.new_id hpromised.1, hsync.unique⟩
    | subscribe userId stockSymbol => exact hsync.unique
    | unsubscribe userId stockSymbol => exact hsync.unique
    | getUserFeed userId maxEvents stocks => exact hsync.unique

/-- If the feeds still agree after a request, then it was allowed. -/
theorem Synchronised.allowed_of_agree (hsync : Synchronised managers stream)
    (hfew : stream.log.length + 1 < 2 ^ 31) {request : Request Symbol}
    (hagree : FeedsAgree (callBoth managers request).1) :
    Allowed managers request := by
  cases request with
  | addEvent stockSymbol eventId users => trivial
  | unsubscribe userId stockSymbol => trivial
  | getUserFeed userId maxEvents stocks => trivial
  | subscribe userId stockSymbol =>
      apply (hsync.allowed_subscribe_iff (by omega) userId stockSymbol).mpr
      have hnext := StockFeed.describes_call hsync.merging
        (.subscribe userId stockSymbol)
      have hnumbered := StockFeed.numbered_record hsync.numbered
        (.subscribe userId stockSymbol)
      have hfeeds := (feedsAgree_iff hnext hnumbered hfew).mp hagree userId
      have hfront := (subscribe_fields hsync.incremental userId
        stockSymbol).2.2.2 userId
      rw [if_pos rfl] at hfront
      have hids := hfeeds.symm.trans hfront
      unfold idsOf Stream.record at hids
      simp only [Function.update_self] at hids
      apply eq_of_map_eventId hsync.unique _ _ hids
      · intro event hevent
        exact (mem_ofStocks.mp hevent).1
      · intro event hevent
        obtain hstock | hstocks := List.mem_append.mp hevent
        · exact (mem_ofStock.mp hstock).1
        · exact (mem_ofStocks.mp hstocks).1

theorem Synchronised.agree_iff (hsync : Synchronised managers stream)
    {requests : List (Request Symbol)}
    (hfew : stream.log.length + requests.countP Request.isAddEvent + 1 <
      2 ^ 31)
    (hpromised : CallSystem.AllAllowed callBoth Promised managers requests) :
    (∀ n, FeedsAgree
        (CallSystem.stateAfter callBoth managers (requests.take n))) ↔
      CallSystem.AllAllowed callBoth Allowed managers requests := by
  have hshort : stream.log.length + 1 < 2 ^ 31 := by omega
  induction requests generalizing managers stream with
  | nil =>
      constructor
      · intro _
        trivial
      · intro _ n
        rw [List.take_nil]
        exact hsync.feedsAgree hshort
  | cons request rest ih =>
      have hlength : (stream.record request.toCall).log.length =
          stream.log.length + if request.isAddEvent then 1 else 0 := by
        cases request <;> rfl
      rw [List.countP_cons] at hfew
      have hnextFew : (stream.record request.toCall).log.length +
          rest.countP Request.isAddEvent + 1 < 2 ^ 31 := by
        rw [hlength]
        omega
      constructor
      · intro hall
        have hallowed : Allowed managers request :=
          hsync.allowed_of_agree hshort (hall 1)
        have hnext := hsync.call (by omega) hpromised.1 hallowed
        refine ⟨hallowed, (ih hnext hnextFew hpromised.2 (by omega)).mp ?_⟩
        intro n
        exact hall (n + 1)
      · intro hall n
        cases n with
        | zero => exact hsync.feedsAgree hshort
        | succ n =>
            have hnext := hsync.call (by omega) hpromised.1 hall.1
            exact (ih hnext hnextFew hpromised.2 (by omega)).mpr hall.2 n

end Agreement

/-- Throughout a word of requests the managers answer every request for a feed
alike, exactly if each subscription brings in newer events only. -/
theorem feedsAgree_iff_allAllowed (requests : List (Request Symbol))
    (hfew : requests.countP Request.isAddEvent + 1 < 2 ^ 31)
    (hpromised : CallSystem.AllAllowed callBoth Promised
      (Managers.construct Symbol) requests) :
    (∀ n, FeedsAgree (CallSystem.stateAfter callBoth
        (Managers.construct Symbol) (requests.take n))) ↔
      CallSystem.AllAllowed callBoth Allowed (Managers.construct Symbol)
        requests := by
  apply synchronised_construct.agree_iff _ hpromised
  rw [Stream.initial, List.length_nil, Nat.zero_add]
  exact hfew

/-- The requests of `main` up to its first feed, with an event that comes
after the subscriptions. -/
theorem feedsAgree_iff_allAllowed_main :
    let requests : List (Request String) :=
      [.addEvent "AAPL" 101 [], .addEvent "TSLA" 102 [], .subscribe 1 "AAPL",
        .subscribe 1 "TSLA", .addEvent "TSLA" 103 [1], .addEvent "AAPL" 104 [1],
        .getUserFeed 1 3 ["TSLA", "AAPL"]]
    CallSystem.AllAllowed callBoth Allowed (Managers.construct String)
        requests ∧
      ∀ n, FeedsAgree (CallSystem.stateAfter callBoth
        (Managers.construct String) (requests.take n)) := by
  intro requests
  have hallowed : CallSystem.AllAllowed callBoth Allowed
      (Managers.construct String) requests := by
    decide
  exact ⟨hallowed, (feedsAgree_iff_allAllowed requests (by decide)
    (by decide)).mpr hallowed⟩

/-- With the subscriptions of `main` in the other order, the older event is
shown first. -/
theorem late_subscription_reorders :
    let requests : List (Request String) :=
      [.addEvent "AAPL" 101 [], .addEvent "TSLA" 102 [], .subscribe 1 "TSLA",
        .subscribe 1 "AAPL", .getUserFeed 1 3 ["TSLA", "AAPL"]]
    CallSystem.AllAllowed callBoth Promised (Managers.construct String)
        requests ∧
      (CallSystem.results callBoth (Managers.construct String)
          requests).getLast? =
        some (.feed [102, 101], .feed [101, 102]) := by
  decide

end StockFeed2
end TradingStudies
