import TradingStudies.HashMapInterface
import TradingStudies.Library.KWayMerge

/-!
# The stock feed

`StockFeedManager.cpp` keeps a deque of events for each stock and merges the
deques of a user's stocks through a priority queue of reverse iterators.  Its
`unordered_map`s and `unordered_set`s are taken at their specification.  The
order in which a set is iterated is left open: `getUserFeed` receives it as a
list, and `Enumerates` says that the list goes through the set once.

The purpose of the component is stated over the stream of all events, the
newest first: the feed of a user is made of the newest events of his stocks.
-/

namespace TradingStudies
namespace StockFeed

open HashMap (PartialMap)
open KWayMerge (Cursor Descending merge unread)

/-- A deque of pairs `(timestamp, eventID)` is written with its front first. -/
structure StockFeedManager (Symbol : Type*) where
  timestamp : Int32
  user_stocks : PartialMap Int32 (Finset Symbol)
  events : PartialMap Symbol (List (Int32 × Int32))
  cout : List String

inductive Call (Symbol : Type*)
  | addEvent (stockSymbol : Symbol) (eventId : Int32)
  | subscribe (userId : Int32) (stockSymbol : Symbol)
  | unsubscribe (userId : Int32) (stockSymbol : Symbol)
  | getUserFeed (userId : Int32) (maxEvents : Int32) (iteration : List Symbol)
  deriving DecidableEq, Repr

inductive Outcome
  | done
  | feed (eventIds : List Int32)
  | threw (message : String)
  deriving DecidableEq, Repr

def Call.isAddEvent {Symbol : Type*} : Call Symbol → Bool
  | .addEvent _ _ => true
  | _ => false

variable {Symbol : Type*} [DecidableEq Symbol]

def construct (Symbol : Type*) : StockFeedManager Symbol where
  timestamp := 0
  user_stocks := ∅
  events := ∅
  cout := []

/-- `events[symbol]`, where a missing deque is created empty. -/
def dequeOf (events : PartialMap Symbol (List (Int32 × Int32)))
    (symbol : Symbol) : List (Int32 × Int32) :=
  (events.lookup symbol).getD []

/-- `user_stocks[userId]`, where a missing set is created empty. -/
def stocksOf (user_stocks : PartialMap Int32 (Finset Symbol))
    (userId : Int32) : Finset Symbol :=
  (user_stocks.lookup userId).getD ∅

def addEvent (manager : StockFeedManager Symbol) (stockSymbol : Symbol)
    (eventId : Int32) : StockFeedManager Symbol :=
  { manager with
    timestamp := manager.timestamp + 1
    events := manager.events.insert stockSymbol
      (dequeOf manager.events stockSymbol ++ [(manager.timestamp, eventId)]) }

def subscribe (manager : StockFeedManager Symbol) (userId : Int32)
    (stockSymbol : Symbol) : StockFeedManager Symbol :=
  { manager with
    user_stocks := manager.user_stocks.insert userId
      (insert stockSymbol (stocksOf manager.user_stocks userId)) }

def unsubscribe (manager : StockFeedManager Symbol) (userId : Int32)
    (stockSymbol : Symbol) : StockFeedManager Symbol :=
  { manager with
    user_stocks := manager.user_stocks.insert userId
      ((stocksOf manager.user_stocks userId).erase stockSymbol) }

/-- The `for` loop of `getUserFeed`.  A stock without events gets an empty
deque and no place in the queue. -/
def fillQueue : List Symbol → PartialMap Symbol (List (Int32 × Int32)) →
    PartialMap Symbol (List (Int32 × Int32)) × List (Cursor (Int32 × Int32))
  | [], events => (events, [])
  | symbol :: rest, events =>
      let structure' := dequeOf events symbol
      let (events', q) := fillQueue rest (events.insert symbol structure')
      match structure'.reverse with
      | [] => (events', q)
      | front :: behind => (events', ⟨front, behind⟩ :: q)

/-- The order of the queue's tuples.  The iterators would be compared only if
two events had the same timestamp and the same id. -/
def feedKey (event : Int32 × Int32) : ℤ ×ₗ ℤ :=
  toLex (event.1.toInt, event.2.toInt)

def getUserFeed (manager : StockFeedManager Symbol) (userId maxEvents : Int32)
    (iteration : List Symbol) : StockFeedManager Symbol × Outcome :=
  match manager.user_stocks.lookup userId with
  | none =>
      ({ manager with
          cout := manager.cout ++ ["User Not Subscribed to Any Stocks"] },
        .feed [])
  | some _ =>
      let (events, q) := fillQueue iteration manager.events
      let manager' := { manager with events := events }
      -- A negative bound turns into a huge one when it is reserved.
      if maxEvents < 0 then (manager', .threw "vector::reserve")
      else
        (manager',
          .feed ((merge feedKey maxEvents.toNatClampNeg q).map Prod.snd))

def call (manager : StockFeedManager Symbol) :
    Call Symbol → StockFeedManager Symbol × Outcome
  | .addEvent stockSymbol eventId =>
      (addEvent manager stockSymbol eventId, .done)
  | .subscribe userId stockSymbol =>
      (subscribe manager userId stockSymbol, .done)
  | .unsubscribe userId stockSymbol =>
      (unsubscribe manager userId stockSymbol, .done)
  | .getUserFeed userId maxEvents iteration =>
      getUserFeed manager userId maxEvents iteration

/-- A range-for over the stocks of a user meets each of them once. -/
def Enumerates (manager : StockFeedManager Symbol) (userId : Int32)
    (iteration : List Symbol) : Prop :=
  iteration.Nodup ∧
    ∀ symbol, symbol ∈ iteration ↔
      symbol ∈ stocksOf manager.user_stocks userId

/-! ## The purpose of the feed -/

structure Event (Symbol : Type*) where
  timestamp : ℕ
  stockSymbol : Symbol
  eventId : Int32
  deriving DecidableEq, Repr

/-- All events that were added, the newest first, and what each user is
subscribed to. -/
structure Stream (Symbol : Type*) where
  log : List (Event Symbol)
  subscribed : Int32 → Finset Symbol

def Stream.initial (Symbol : Type*) : Stream Symbol := ⟨[], fun _ => ∅⟩

/-- What a call does to the stream.  Each new event has the next timestamp. -/
def Stream.record (stream : Stream Symbol) : Call Symbol → Stream Symbol
  | .addEvent stockSymbol eventId =>
      { stream with
        log := ⟨stream.log.length, stockSymbol, eventId⟩ :: stream.log }
  | .subscribe userId stockSymbol =>
      { stream with
        subscribed := Function.update stream.subscribed userId
          (insert stockSymbol (stream.subscribed userId)) }
  | .unsubscribe userId stockSymbol =>
      { stream with
        subscribed := Function.update stream.subscribed userId
          ((stream.subscribed userId).erase stockSymbol) }
  | .getUserFeed _ _ _ => stream

def Stream.after (calls : List (Call Symbol)) : Stream Symbol :=
  calls.foldl Stream.record (Stream.initial Symbol)

/-- The newest so many events of the given stocks. -/
structure IsNewestFeed (log : List (Event Symbol)) (stocks : Finset Symbol)
    (maxEvents : ℕ) (feed : List (Event Symbol)) : Prop where
  descending : feed.Pairwise fun event later =>
    later.timestamp < event.timestamp
  taken : ∀ event ∈ feed, event ∈ log ∧ event.stockSymbol ∈ stocks
  newest : ∀ event ∈ log, event.stockSymbol ∈ stocks → event ∉ feed →
    ∀ shown ∈ feed, event.timestamp < shown.timestamp
  length_eq : feed.length =
    min maxEvents (log.countP fun event => event.stockSymbol ∈ stocks)

def Stream.ofStocks (stream : Stream Symbol) (stocks : Finset Symbol) :
    List (Event Symbol) :=
  stream.log.filter fun event => event.stockSymbol ∈ stocks

/-! ## The stream by itself -/

/-- Timestamps count the events. -/
def Stream.Numbered (stream : Stream Symbol) : Prop :=
  stream.log.Pairwise (fun event later => later.timestamp < event.timestamp) ∧
    ∀ event ∈ stream.log, event.timestamp < stream.log.length

theorem numbered_record {stream : Stream Symbol} (hnumbered : stream.Numbered)
    (c : Call Symbol) : (stream.record c).Numbered := by
  cases c with
  | addEvent stockSymbol eventId =>
      constructor
      · exact List.pairwise_cons.mpr ⟨hnumbered.2, hnumbered.1⟩
      · intro event hevent
        rw [Stream.record, List.length_cons]
        rcases List.mem_cons.mp hevent with rfl | hold
        · exact Nat.lt_succ_self _
        · exact (hnumbered.2 event hold).trans (Nat.lt_succ_self _)
  | subscribe userId stockSymbol => exact hnumbered
  | unsubscribe userId stockSymbol => exact hnumbered
  | getUserFeed userId maxEvents iteration => exact hnumbered

theorem length_record (stream : Stream Symbol) (c : Call Symbol) :
    (stream.record c).log.length =
      stream.log.length + if c.isAddEvent then 1 else 0 := by
  cases c <;> rfl

theorem foldl_record_log {stream : Stream Symbol}
    (hnumbered : stream.Numbered) (calls : List (Call Symbol)) :
    (calls.foldl Stream.record stream).Numbered ∧
      (calls.foldl Stream.record stream).log.length =
        stream.log.length + calls.countP Call.isAddEvent := by
  induction calls generalizing stream with
  | nil => exact ⟨hnumbered, rfl⟩
  | cons c rest ih =>
      rcases ih (numbered_record hnumbered c) with ⟨hlast, hlength⟩
      constructor
      · exact hlast
      · rw [List.foldl_cons, hlength, length_record, List.countP_cons]
        omega

omit [DecidableEq Symbol] in
theorem numbered_initial : (Stream.initial Symbol).Numbered :=
  ⟨List.Pairwise.nil, fun _ hevent => absurd hevent List.not_mem_nil⟩

theorem numbered_after (calls : List (Call Symbol)) :
    (Stream.after calls).Numbered :=
  (foldl_record_log numbered_initial calls).1

theorem length_log_after (calls : List (Call Symbol)) :
    (Stream.after calls).log.length = calls.countP Call.isAddEvent := by
  have hlength := (foldl_record_log numbered_initial calls).2
  rwa [Stream.initial, List.length_nil, Nat.zero_add] at hlength

/-- The beginning of a numbered log, restricted to some stocks, is a newest
feed. -/
theorem isNewestFeed_take {stream : Stream Symbol}
    (hnumbered : stream.Numbered) (stocks : Finset Symbol) (maxEvents : ℕ) :
    IsNewestFeed stream.log stocks maxEvents
      ((stream.ofStocks stocks).take maxEvents) := by
  have hsorted : (stream.ofStocks stocks).Pairwise
      fun event later => later.timestamp < event.timestamp :=
    hnumbered.1.filter _
  constructor
  · exact hsorted.take
  · intro event hevent
    have hmem := List.mem_filter.mp (List.mem_of_mem_take hevent)
    exact ⟨hmem.1, of_decide_eq_true hmem.2⟩
  · intro event hevent hstock hnot shown hshown
    have hmem : event ∈ stream.ofStocks stocks :=
      List.mem_filter.mpr ⟨hevent, decide_eq_true hstock⟩
    rw [← List.take_append_drop maxEvents (stream.ofStocks stocks)]
      at hsorted hmem
    rcases List.mem_append.mp hmem with hbegin | hrest
    · exact absurd hbegin hnot
    · exact (List.pairwise_append.mp hsorted).2.2 shown hshown event hrest
  · rw [List.length_take, Stream.ofStocks, List.countP_eq_length_filter]

end StockFeed
end TradingStudies
