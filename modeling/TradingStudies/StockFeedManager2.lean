import TradingStudies.StockFeedManager
import TradingStudies.Library.StepSystem

/-!
# The incremental stock feed

`StockFeedManager2.cpp` keeps the feed of every user and changes it when an
event is added and when a user subscribes or unsubscribes, where
`StockFeedManager.cpp` merges on demand.  A subscription puts the whole history
of the stock in front of the feed, newest event first.

A request is made to both managers at once.  It brings the orders in which they
iterate their maps and sets.
-/

namespace TradingStudies
namespace StockFeed2

open HashMap (PartialMap)
open StockFeed (Outcome dequeOf stocksOf)

structure StockFeedManager (Symbol : Type*) where
  timestamp : Int32
  user_feed : PartialMap Int32 (List Int32)
  user_stocks : PartialMap Int32 (Finset Symbol)
  events : PartialMap Symbol (List (Int32 × Int32))

variable {Symbol : Type*} [DecidableEq Symbol]

def construct (Symbol : Type*) : StockFeedManager Symbol where
  timestamp := 0
  user_feed := ∅
  user_stocks := ∅
  events := ∅

/-- `user_feed[userId]`, where a missing deque is created empty. -/
def feedOf (user_feed : PartialMap Int32 (List Int32)) (userId : Int32) :
    List Int32 :=
  (user_feed.lookup userId).getD []

/-- `user_feed[userId].emplace_front(eventId)` -/
def emplaceFront (user_feed : PartialMap Int32 (List Int32))
    (userId eventId : Int32) : PartialMap Int32 (List Int32) :=
  user_feed.insert userId (eventId :: feedOf user_feed userId)

/-- The loop over the users runs in the given order. -/
def addEvent (manager : StockFeedManager Symbol) (stockSymbol : Symbol)
    (eventId : Int32) (users : List Int32) : StockFeedManager Symbol :=
  { manager with
    timestamp := manager.timestamp + 1
    events := manager.events.insert stockSymbol
      (dequeOf manager.events stockSymbol ++ [(manager.timestamp, eventId)])
    user_feed := users.foldl
      (fun user_feed userId =>
        if stockSymbol ∈ stocksOf manager.user_stocks userId then
          emplaceFront user_feed userId eventId
        else user_feed) manager.user_feed }

def subscribe (manager : StockFeedManager Symbol) (userId : Int32)
    (stockSymbol : Symbol) : StockFeedManager Symbol :=
  let manager' := { manager with
    user_stocks := manager.user_stocks.insert userId
      (insert stockSymbol (stocksOf manager.user_stocks userId)) }
  match manager.events.lookup stockSymbol with
  | none => manager'
  | some history =>
      { manager' with
        user_feed := history.foldl
          (fun user_feed event => emplaceFront user_feed userId event.2)
          manager.user_feed }

def unsubscribe (manager : StockFeedManager Symbol) (userId : Int32)
    (stockSymbol : Symbol) : StockFeedManager Symbol :=
  match manager.user_stocks.lookup userId with
  | none => manager
  | some stocks =>
      if stockSymbol ∉ stocks then manager
      else
        let history := dequeOf manager.events stockSymbol
        { manager with
          user_stocks :=
            manager.user_stocks.insert userId (stocks.erase stockSymbol)
          events := manager.events.insert stockSymbol history
          user_feed := manager.user_feed.insert userId
            (history.foldl
              (fun feed event => feed.filter fun eventId => eventId ≠ event.2)
              (feedOf manager.user_feed userId)) }

def getUserFeed (manager : StockFeedManager Symbol)
    (userId maxEvents : Int32) : Outcome :=
  match manager.user_feed.lookup userId with
  | none => .feed []
  | some feed =>
      -- A negative bound turns into a huge one when it is reserved.
      if maxEvents < 0 then .threw "vector::reserve"
      else .feed (feed.take maxEvents.toNatClampNeg)

/-! ## Both managers -/

inductive Request (Symbol : Type*)
  | addEvent (stockSymbol : Symbol) (eventId : Int32) (users : List Int32)
  | subscribe (userId : Int32) (stockSymbol : Symbol)
  | unsubscribe (userId : Int32) (stockSymbol : Symbol)
  | getUserFeed (userId maxEvents : Int32) (stocks : List Symbol)
  deriving DecidableEq, Repr

/-- The call that is made to the manager which merges. -/
def Request.toCall : Request Symbol → StockFeed.Call Symbol
  | .addEvent stockSymbol eventId _ => .addEvent stockSymbol eventId
  | .subscribe userId stockSymbol => .subscribe userId stockSymbol
  | .unsubscribe userId stockSymbol => .unsubscribe userId stockSymbol
  | .getUserFeed userId maxEvents stocks => .getUserFeed userId maxEvents stocks

def Request.isAddEvent : Request Symbol → Bool
  | .addEvent _ _ _ => true
  | _ => false

def call (manager : StockFeedManager Symbol) :
    Request Symbol → StockFeedManager Symbol × Outcome
  | .addEvent stockSymbol eventId users =>
      (addEvent manager stockSymbol eventId users, .done)
  | .subscribe userId stockSymbol =>
      (subscribe manager userId stockSymbol, .done)
  | .unsubscribe userId stockSymbol =>
      (unsubscribe manager userId stockSymbol, .done)
  | .getUserFeed userId maxEvents _ =>
      (manager, getUserFeed manager userId maxEvents)

structure Managers (Symbol : Type*) where
  merging : StockFeed.StockFeedManager Symbol
  incremental : StockFeedManager Symbol

def Managers.construct (Symbol : Type*) : Managers Symbol where
  merging := StockFeed.construct Symbol
  incremental := StockFeed2.construct Symbol

def callBoth (managers : Managers Symbol) (request : Request Symbol) :
    Managers Symbol × (Outcome × Outcome) :=
  let merged := StockFeed.call managers.merging request.toCall
  let kept := call managers.incremental request
  ({ merging := merged.1, incremental := kept.1 }, (merged.2, kept.2))

/-- Event ids are new, maps and sets are iterated in some order, and the bound
of a feed is not negative. -/
def Promised (managers : Managers Symbol) : Request Symbol → Prop
  | .addEvent _ eventId users =>
      (∀ stockSymbol, ∀ event ∈ dequeOf managers.merging.events stockSymbol,
          event.2 ≠ eventId) ∧
        users.Nodup ∧
        ∀ userId, userId ∈ users ↔
          userId ∈ managers.incremental.user_stocks
  | .subscribe _ _ => True
  | .unsubscribe _ _ => True
  | .getUserFeed userId maxEvents stocks =>
      0 ≤ maxEvents ∧ StockFeed.Enumerates managers.merging userId stocks

instance (manager : StockFeed.StockFeedManager Symbol) (userId : Int32)
    (stocks : List Symbol) :
    Decidable (StockFeed.Enumerates manager userId stocks) :=
  decidable_of_iff
    (stocks.Nodup ∧ stocks.toFinset = stocksOf manager.user_stocks userId)
    (and_congr_right fun _ => by simp only [Finset.ext_iff, List.mem_toFinset])

theorem dequeOf_of_notMem {events : PartialMap Symbol (List (Int32 × Int32))}
    {stockSymbol : Symbol} (hmem : stockSymbol ∉ events.keys) :
    dequeOf events stockSymbol = [] := by
  rw [dequeOf, Finmap.lookup_eq_none.mpr (mt Finmap.mem_keys.mpr hmem),
    Option.getD_none]

instance (managers : Managers Symbol) (request : Request Symbol) :
    Decidable (Promised managers request) :=
  match request with
  | .addEvent _ eventId users =>
      decidable_of_iff
        ((∀ stockSymbol ∈ managers.merging.events.keys,
            (dequeOf managers.merging.events stockSymbol).all
              fun event => event.2 ≠ eventId) ∧
          users.Nodup ∧
          users.toFinset = managers.incremental.user_stocks.keys) (by
        apply and_congr
        · constructor
          · intro hkeys stockSymbol event hevent
            have hmem : stockSymbol ∈ managers.merging.events.keys := by
              by_contra hmem
              rw [dequeOf_of_notMem hmem] at hevent
              exact List.not_mem_nil hevent
            exact of_decide_eq_true
              (List.all_eq_true.mp (hkeys stockSymbol hmem) event hevent)
          · intro hall stockSymbol _
            exact List.all_eq_true.mpr fun event hevent =>
              decide_eq_true (hall stockSymbol event hevent)
        · simp only [Finset.ext_iff, List.mem_toFinset, Finmap.mem_keys])
  | .subscribe _ _ => isTrue trivial
  | .unsubscribe _ _ => isTrue trivial
  | .getUserFeed userId maxEvents stocks =>
      inferInstanceAs (Decidable (0 ≤ maxEvents ∧
        StockFeed.Enumerates managers.merging userId stocks))

/-- The managers answer every request for a feed alike. -/
def FeedsAgree (managers : Managers Symbol) : Prop :=
  ∀ userId maxEvents stocks, 0 ≤ maxEvents →
    StockFeed.Enumerates managers.merging userId stocks →
    (StockFeed.getUserFeed managers.merging userId maxEvents stocks).2 =
      getUserFeed managers.incremental userId maxEvents

/-- A subscription finds all events of the stock newer than every event of the
stocks to which the user is subscribed already. -/
def Allowed (managers : Managers Symbol) : Request Symbol → Prop
  | .subscribe userId stockSymbol =>
      ∀ event ∈ dequeOf managers.merging.events stockSymbol,
        ∀ subscribed ∈ stocksOf managers.merging.user_stocks userId,
          ∀ other ∈ dequeOf managers.merging.events subscribed,
            other.1 < event.1
  | _ => True

-- By name: the instance that would be found runs through all of `Int32`.
instance (managers : Managers Symbol) :
    ∀ request, Decidable (Allowed managers request)
  | .subscribe userId stockSymbol =>
      have (event : Int32 × Int32) (subscribed : Symbol) :
          Decidable (∀ other ∈ dequeOf managers.merging.events subscribed,
            other.1 < event.1) := List.decidableBAll _ _
      have (event : Int32 × Int32) :
          Decidable (∀ subscribed ∈
            stocksOf managers.merging.user_stocks userId,
              ∀ other ∈ dequeOf managers.merging.events subscribed,
                other.1 < event.1) := Finset.decidableDforallFinset
      List.decidableBAll _ (dequeOf managers.merging.events stockSymbol)
  | .addEvent _ _ _ | .unsubscribe _ _ | .getUserFeed _ _ _ =>
      inferInstanceAs (Decidable True)

end StockFeed2
end TradingStudies
