import TradingStudies.StockFeedManager
import TradingStudies.Library.SubscriptMap
import TradingStudies.Library.StepSystem

/-!
# The merged feed is the newest feed

Along every word of calls the deques of the manager are the parts of the
stream that belong to one stock each, the oldest event first.  What the queue
of `getUserFeed` has not read is then the part of the stream that belongs to
the user's stocks, and the merge writes its newest events.
-/

namespace TradingStudies
namespace StockFeed

open KWayMerge (Cursor Descending merge unread)

variable {Symbol : Type*} [DecidableEq Symbol]

/-- The pair the manager stores for an event. -/
def stamp (event : Event Symbol) : Int32 × Int32 :=
  (Int32.ofNat event.timestamp, event.eventId)

def Stream.ofStock (stream : Stream Symbol) (symbol : Symbol) :
    List (Event Symbol) :=
  stream.log.filter fun event => event.stockSymbol = symbol

/-- The manager stores the stream, one deque for each stock. -/
structure Describes (manager : StockFeedManager Symbol)
    (stream : Stream Symbol) : Prop where
  timestamp_eq : manager.timestamp = Int32.ofNat stream.log.length
  deque_eq : ∀ symbol, dequeOf manager.events symbol =
    ((stream.ofStock symbol).map stamp).reverse
  stocks_eq : ∀ userId, stocksOf manager.user_stocks userId =
    stream.subscribed userId

/-! ## The deques -/

section Deques

variable {events : HashMap.PartialMap Symbol (List (Int32 × Int32))}

theorem dequeOf_insert_self (symbol : Symbol) (deque : List (Int32 × Int32)) :
    dequeOf (events.insert symbol deque) symbol = deque :=
  SubscriptMap.getD_insert_self symbol deque

theorem dequeOf_insert_of_ne {symbol other : Symbol} (hne : other ≠ symbol)
    (deque : List (Int32 × Int32)) :
    dequeOf (events.insert symbol deque) other = dequeOf events other :=
  SubscriptMap.getD_insert_of_ne hne deque

/-- The subscript changes no deque. -/
theorem dequeOf_subscript (symbol other : Symbol) :
    dequeOf (events.insert symbol (dequeOf events symbol)) other =
      dequeOf events other :=
  SubscriptMap.getD_subscript symbol other

theorem fillQueue_cons_of_empty {first : Symbol}
    (hdeque : (dequeOf events first).reverse = []) (rest : List Symbol) :
    fillQueue (first :: rest) events =
      fillQueue rest (events.insert first (dequeOf events first)) := by
  simp only [fillQueue, hdeque]

theorem fillQueue_cons_of_events {first : Symbol} {front : Int32 × Int32}
    {behind : List (Int32 × Int32)}
    (hdeque : (dequeOf events first).reverse = front :: behind)
    (rest : List Symbol) :
    fillQueue (first :: rest) events =
      let filled := fillQueue rest
        (events.insert first (dequeOf events first))
      (filled.1, ⟨front, behind⟩ :: filled.2) := by
  simp only [fillQueue, hdeque]

theorem fillQueue_events (iteration : List Symbol) (symbol : Symbol) :
    dequeOf (fillQueue iteration events).1 symbol =
      dequeOf events symbol := by
  induction iteration generalizing events with
  | nil => rfl
  | cons first rest ih =>
      cases hdeque : (dequeOf events first).reverse with
      | nil =>
          rw [fillQueue_cons_of_empty hdeque, ih, dequeOf_subscript]
      | cons front behind =>
          rw [fillQueue_cons_of_events hdeque, ih, dequeOf_subscript]

theorem fillQueue_unread (iteration : List Symbol) :
    unread (fillQueue iteration events).2 =
      iteration.flatMap fun symbol => (dequeOf events symbol).reverse := by
  induction iteration generalizing events with
  | nil => rfl
  | cons first rest ih =>
      have hrest : unread (fillQueue rest
            (events.insert first (dequeOf events first))).2 =
          rest.flatMap fun symbol => (dequeOf events symbol).reverse := by
        rw [ih]
        simp only [dequeOf_subscript]
      rw [List.flatMap_cons, ← hrest]
      cases hdeque : (dequeOf events first).reverse with
      | nil => rw [fillQueue_cons_of_empty hdeque, List.nil_append]
      | cons front behind =>
          rw [fillQueue_cons_of_events hdeque]
          rfl

theorem fillQueue_descending
    (hdescending : ∀ symbol, (dequeOf events symbol).reverse.Pairwise
      fun event later => feedKey later < feedKey event)
    (iteration : List Symbol) :
    Descending feedKey (fillQueue iteration events).2 := by
  induction iteration generalizing events with
  | nil =>
      intro cursor hcursor
      exact absurd hcursor List.not_mem_nil
  | cons first rest ih =>
      have hrest : Descending feedKey (fillQueue rest
          (events.insert first (dequeOf events first))).2 := by
        apply ih
        intro symbol
        rw [dequeOf_subscript]
        exact hdescending symbol
      have hfirst := hdescending first
      cases hdeque : (dequeOf events first).reverse with
      | nil =>
          rw [fillQueue_cons_of_empty hdeque]
          exact hrest
      | cons front behind =>
          rw [hdeque] at hfirst
          rw [fillQueue_cons_of_events hdeque]
          intro cursor hcursor
          rcases List.mem_cons.mp hcursor with rfl | hold
          · exact hfirst
          · exact hrest cursor hold

end Deques

/-! ## Calls keep the description -/

theorem describes_construct :
    Describes (construct Symbol) (Stream.initial Symbol) := by
  constructor
  · rfl
  · intro symbol
    rfl
  · intro userId
    rfl

variable {manager : StockFeedManager Symbol} {stream : Stream Symbol}

theorem describes_addEvent (hdescribes : Describes manager stream)
    (stockSymbol : Symbol) (eventId : Int32) :
    Describes (addEvent manager stockSymbol eventId)
      (stream.record (.addEvent stockSymbol eventId)) := by
  constructor
  · show manager.timestamp + 1 = Int32.ofNat (stream.log.length + 1)
    rw [hdescribes.timestamp_eq, Int32.ofNat_add]
    rfl
  · intro symbol
    unfold addEvent Stream.record Stream.ofStock
    by_cases heq : symbol = stockSymbol
    · subst heq
      rw [dequeOf_insert_self, List.filter_cons_of_pos (by simp),
        List.map_cons, List.reverse_cons, hdescribes.deque_eq,
        hdescribes.timestamp_eq]
      rfl
    · rw [dequeOf_insert_of_ne heq,
        List.filter_cons_of_neg (by simpa using Ne.symm heq)]
      exact hdescribes.deque_eq symbol
  · exact hdescribes.stocks_eq

/-- `subscribe` and `unsubscribe` replace the set of one user. -/
theorem describes_setStocks (hdescribes : Describes manager stream)
    (userId : Int32) (stocks : Finset Symbol) :
    Describes
      { manager with user_stocks := manager.user_stocks.insert userId stocks }
      { stream with
        subscribed := Function.update stream.subscribed userId stocks } := by
  constructor
  · exact hdescribes.timestamp_eq
  · exact hdescribes.deque_eq
  · intro other
    show ((manager.user_stocks.insert userId stocks).lookup other).getD ∅ =
      Function.update stream.subscribed userId stocks other
    by_cases heq : other = userId
    · rw [heq, Finmap.lookup_insert, Function.update_self, Option.getD_some]
    · rw [Finmap.lookup_insert_of_ne _ heq, Function.update_of_ne heq]
      exact hdescribes.stocks_eq other

theorem describes_getUserFeed (hdescribes : Describes manager stream)
    (userId maxEvents : Int32) (iteration : List Symbol) :
    Describes (getUserFeed manager userId maxEvents iteration).1 stream := by
  have hqueue : Describes
      { manager with events := (fillQueue iteration manager.events).1 }
      stream := by
    constructor
    · exact hdescribes.timestamp_eq
    · intro symbol
      exact (fillQueue_events iteration symbol).trans
        (hdescribes.deque_eq symbol)
    · exact hdescribes.stocks_eq
  unfold getUserFeed
  cases manager.user_stocks.lookup userId with
  | none =>
      exact ⟨hdescribes.timestamp_eq, hdescribes.deque_eq,
        hdescribes.stocks_eq⟩
  | some stocks =>
      by_cases hnegative : maxEvents < 0
      · simp only [hnegative, if_true]
        exact hqueue
      · simp only [hnegative, if_false]
        exact hqueue

theorem describes_call (hdescribes : Describes manager stream)
    (c : Call Symbol) :
    Describes (call manager c).1 (stream.record c) := by
  cases c with
  | addEvent stockSymbol eventId =>
      exact describes_addEvent hdescribes stockSymbol eventId
  | subscribe userId stockSymbol =>
      simp only [call, subscribe, hdescribes.stocks_eq]
      exact describes_setStocks hdescribes userId _
  | unsubscribe userId stockSymbol =>
      simp only [call, unsubscribe, hdescribes.stocks_eq]
      exact describes_setStocks hdescribes userId _
  | getUserFeed userId maxEvents iteration =>
      exact describes_getUserFeed hdescribes userId maxEvents iteration

theorem describes_stateAfter (hdescribes : Describes manager stream)
    (calls : List (Call Symbol)) :
    Describes (CallSystem.stateAfter call manager calls)
      (calls.foldl Stream.record stream) := by
  induction calls generalizing manager stream with
  | nil => exact hdescribes
  | cons c rest ih => exact ih (describes_call hdescribes c)

/-! ## The merge -/

omit [DecidableEq Symbol] in
/-- As long as the timestamps fit, the keys follow the age of the events. -/
theorem feedKey_stamp_lt {event later : Event Symbol}
    (hlater : later.timestamp < event.timestamp)
    (hfits : event.timestamp < 2 ^ 31) :
    feedKey (stamp later) < feedKey (stamp event) := by
  apply Prod.Lex.toLex_lt_toLex.mpr
  left
  show (Int32.ofNat later.timestamp).toInt < (Int32.ofNat event.timestamp).toInt
  rw [Int32.toInt_ofNat_of_lt hfits,
    Int32.toInt_ofNat_of_lt (hlater.trans hfits)]
  exact_mod_cast hlater

omit [DecidableEq Symbol] in
theorem map_stamp_descending {stream : Stream Symbol}
    (hnumbered : stream.Numbered) (hfew : stream.log.length ≤ 2 ^ 31)
    (select : Event Symbol → Bool) :
    ((stream.log.filter select).map stamp).Pairwise
      fun event later => feedKey later < feedKey event := by
  apply List.pairwise_map.mpr
  apply (hnumbered.1.filter select).imp_of_mem
  intro event later hevent _ hlater
  have hmem : event ∈ stream.log := (List.mem_filter.mp hevent).1
  exact feedKey_stamp_lt hlater ((hnumbered.2 event hmem).trans_le hfew)

/-- The unread part of the queue is the part of the stream that belongs to
the stocks the queue was filled from. -/
theorem unread_perm_ofStocks (hdescribes : Describes manager stream)
    {stocks : Finset Symbol} {iteration : List Symbol}
    (hnodup : iteration.Nodup)
    (hiteration : ∀ symbol, symbol ∈ iteration ↔ symbol ∈ stocks) :
    ((stream.ofStocks stocks).map stamp).Perm
      (unread (fillQueue iteration manager.events).2) := by
  have hselect : stream.ofStocks stocks =
      stream.log.filter fun event => event.stockSymbol ∈ iteration := by
    simp only [Stream.ofStocks, hiteration]
  have hunread : unread (fillQueue iteration manager.events).2 =
      (iteration.flatMap fun symbol => stream.ofStock symbol).map stamp := by
    rw [fillQueue_unread, List.map_flatMap]
    simp only [hdescribes.deque_eq, List.reverse_reverse]
  rw [hselect, hunread]
  exact (KWayMerge.filter_perm_flatMap Event.stockSymbol stream.log
    hnodup).map stamp

theorem merge_fillQueue (hdescribes : Describes manager stream)
    (hnumbered : stream.Numbered) (hfew : stream.log.length ≤ 2 ^ 31)
    {stocks : Finset Symbol} {iteration : List Symbol}
    (hnodup : iteration.Nodup)
    (hiteration : ∀ symbol, symbol ∈ iteration ↔ symbol ∈ stocks) (rounds : ℕ) :
    (merge feedKey rounds (fillQueue iteration manager.events).2).map Prod.snd =
      ((stream.ofStocks stocks).take rounds).map Event.eventId := by
  have hqueue : Descending feedKey (fillQueue iteration manager.events).2 := by
    apply fillQueue_descending
    intro symbol
    rw [hdescribes.deque_eq, List.reverse_reverse]
    exact map_stamp_descending hnumbered hfew _
  have htarget : ((stream.ofStocks stocks).map stamp).Pairwise
      fun event later => feedKey later < feedKey event :=
    map_stamp_descending hnumbered hfew _
  rw [KWayMerge.merge_eq_take hqueue htarget
    (unread_perm_ofStocks hdescribes hnodup hiteration), ← List.map_take,
    List.map_map]
  rfl

theorem getUserFeed_outcome (hdescribes : Describes manager stream)
    (hnumbered : stream.Numbered) (hfew : stream.log.length ≤ 2 ^ 31)
    {userId maxEvents : Int32} {iteration : List Symbol}
    (hmax : 0 ≤ maxEvents) (hiteration : Enumerates manager userId iteration) :
    (getUserFeed manager userId maxEvents iteration).2 =
      .feed (((stream.ofStocks (stream.subscribed userId)).take
        maxEvents.toNatClampNeg).map Event.eventId) := by
  rcases hiteration with ⟨hnodup, hstocks⟩
  rw [hdescribes.stocks_eq] at hstocks
  have hmerge := merge_fillQueue hdescribes hnumbered hfew hnodup hstocks
    maxEvents.toNatClampNeg
  have hnonnegative : ¬ maxEvents < 0 := Int32.not_lt.mpr hmax
  unfold getUserFeed
  cases hlookup : manager.user_stocks.lookup userId with
  | none =>
      have hempty : stream.subscribed userId = ∅ := by
        rw [← hdescribes.stocks_eq, stocksOf, hlookup, Option.getD_none]
      simp [hempty, Stream.ofStocks]
  | some stocks => simp only [hnonnegative, if_false, hmerge]

/-- After any word of calls, whatever order the sets are iterated in, the feed
shows the newest events of the stocks the user is subscribed to. -/
theorem getUserFeed_newest (calls : List (Call Symbol))
    (hfew : calls.countP Call.isAddEvent < 2 ^ 31)
    (userId maxEvents : Int32) (hmax : 0 ≤ maxEvents)
    (iteration : List Symbol)
    (hiteration : Enumerates
      (CallSystem.stateAfter call (construct Symbol) calls) userId iteration) :
    ∃ feed : List (Event Symbol),
      (call (CallSystem.stateAfter call (construct Symbol) calls)
        (.getUserFeed userId maxEvents iteration)).2 =
          .feed (feed.map Event.eventId) ∧
      IsNewestFeed (Stream.after calls).log
        ((Stream.after calls).subscribed userId) maxEvents.toNatClampNeg
        feed := by
  have hdescribes := describes_stateAfter describes_construct calls
  have hnumbered := numbered_after calls
  have hlength : (Stream.after calls).log.length ≤ 2 ^ 31 := by
    rw [length_log_after]
    exact hfew.le
  exact ⟨_, getUserFeed_outcome hdescribes hnumbered hlength hmax hiteration,
    isNewestFeed_take hnumbered _ _⟩

/-- The first request of `main`. -/
theorem getUserFeed_newest_three :
    let calls : List (Call String) :=
      [.addEvent "AAPL" 101, .addEvent "TSLA" 102, .subscribe 1 "AAPL",
        .subscribe 1 "TSLA", .addEvent "TSLA" 103, .addEvent "AAPL" 104]
    let manager := CallSystem.stateAfter call (construct String) calls
    (getUserFeed manager 1 3 ["TSLA", "AAPL"]).2 = .feed [104, 103, 102] ∧
      ∃ feed : List (Event String),
        (getUserFeed manager 1 3 ["TSLA", "AAPL"]).2 =
            .feed (feed.map Event.eventId) ∧
          IsNewestFeed (Stream.after calls).log
            ((Stream.after calls).subscribed 1) 3 feed := by
  intro calls manager
  have hstocks : stocksOf manager.user_stocks 1 = {"TSLA", "AAPL"} := by
    decide
  have hiteration : Enumerates manager 1 ["TSLA", "AAPL"] := by
    constructor
    · decide
    · intro symbol
      rw [hstocks]
      simp
  exact ⟨by decide, getUserFeed_newest calls (by decide) 1 3 (by decide)
    ["TSLA", "AAPL"] hiteration⟩

end StockFeed
end TradingStudies
