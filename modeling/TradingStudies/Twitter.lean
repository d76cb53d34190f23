import TradingStudies.HashMapInterface
import TradingStudies.Library.BoundedHeap
import TradingStudies.Library.RecentItems
import TradingStudies.Library.StepSystem

/-!
# The news feeds

`c++20/Twitter.cpp` has two classes `Twitter`, which differ in `getNewsFeed`
only.  One offers every tweet to a heap of at most ten, the other merges the
deques through a priority queue of iterators.  Both keep no more than ten tweets
of a user.

The order in which a set is iterated is left open; a request brings one for
either class.  The purpose of the component is stated over the log of all tweets
ever posted, the newest first.
-/

namespace TradingStudies
namespace NewsFeed

open HashMap (PartialMap)
open KWayMerge (Cursor)

structure Tweet where
  timestamp : Int32
  tweet_id : Int32
  deriving DecidableEq, Repr

/-- A deque is written with its front first. -/
structure Twitter where
  user_follows : PartialMap Int32 (Finset Int32)
  user_tweets : PartialMap Int32 (List Tweet)
  timestamp : Int32

def construct : Twitter where
  user_follows := ∅
  user_tweets := ∅
  timestamp := 0

/-- `user_follows[userId]`, where a missing set is created empty. -/
def followsOf (user_follows : PartialMap Int32 (Finset Int32))
    (userId : Int32) : Finset Int32 :=
  (user_follows.lookup userId).getD ∅

/-- `user_tweets[userId]`, where a missing deque is created empty. -/
def tweetsOf (user_tweets : PartialMap Int32 (List Tweet)) (userId : Int32) :
    List Tweet :=
  (user_tweets.lookup userId).getD []

def postTweet (twitter : Twitter) (userId tweetId : Int32) : Twitter :=
  let tweets := ⟨twitter.timestamp, tweetId⟩ ::
    tweetsOf twitter.user_tweets userId
  { twitter with
    timestamp := twitter.timestamp + 1
    user_tweets := twitter.user_tweets.insert userId
      (if tweets.length > 10 then tweets.dropLast else tweets) }

def follow (twitter : Twitter) (followerId followeeId : Int32) : Twitter :=
  { twitter with
    user_follows := twitter.user_follows.insert followerId
      (insert followeeId (followsOf twitter.user_follows followerId)) }

def unfollow (twitter : Twitter) (followerId followeeId : Int32) : Twitter :=
  if followerId ≠ followeeId then
    { twitter with
      user_follows := twitter.user_follows.insert followerId
        ((followsOf twitter.user_follows followerId).erase followeeId) }
  else twitter

/-- The order of both queues; no two tweets have the same timestamp. -/
def tweetKey (tweet : Tweet) : ℤ := tweet.timestamp.toInt

/-- The `for` loops of the first `getNewsFeed`. -/
def fillMinHeap : List Int32 → PartialMap Int32 (List Tweet) → List Tweet →
    PartialMap Int32 (List Tweet) × List Tweet
  | [], user_tweets, min_heap => (user_tweets, min_heap)
  | followeeId :: rest, user_tweets, min_heap =>
      let tweets := tweetsOf user_tweets followeeId
      fillMinHeap rest (user_tweets.insert followeeId tweets)
        (tweets.foldl (BoundedHeap.offer tweetKey 10) min_heap)

/-- The `for` loop of the second `getNewsFeed`. -/
def fillMaxHeap : List Int32 → PartialMap Int32 (List Tweet) →
    PartialMap Int32 (List Tweet) × List (Cursor Tweet)
  | [], user_tweets => (user_tweets, [])
  | followeeId :: rest, user_tweets =>
      let tweets := tweetsOf user_tweets followeeId
      let (user_tweets', max_heap) :=
        fillMaxHeap rest (user_tweets.insert followeeId tweets)
      match tweets with
      | [] => (user_tweets', max_heap)
      | front :: behind => (user_tweets', ⟨front, behind⟩ :: max_heap)

/-- `getNewsFeed` of the first class. -/
def getNewsFeedMinHeap (twitter : Twitter) (userId : Int32)
    (iteration : List Int32) : Twitter × List Int32 :=
  let twitter := follow twitter userId userId
  let (user_tweets, min_heap) := fillMinHeap iteration twitter.user_tweets []
  ({ twitter with user_tweets },
    BoundedHeap.drain tweetKey Tweet.tweet_id min_heap.length min_heap
      (List.replicate min_heap.length 0))

/-- `getNewsFeed` of the second class. -/
def getNewsFeedMerge (twitter : Twitter) (userId : Int32)
    (iteration : List Int32) : Twitter × List Int32 :=
  let twitter := follow twitter userId userId
  let (user_tweets, max_heap) := fillMaxHeap iteration twitter.user_tweets
  ({ twitter with user_tweets },
    (KWayMerge.merge tweetKey 10 max_heap).map Tweet.tweet_id)

inductive Request
  | postTweet (userId tweetId : Int32)
  | follow (followerId followeeId : Int32)
  | unfollow (followerId followeeId : Int32)
  | getNewsFeed (userId : Int32) (minHeapOrder mergeOrder : List Int32)
  deriving DecidableEq, Repr

inductive Outcome
  | done
  | feed (tweetIds : List Int32)
  deriving DecidableEq, Repr

def Request.isPost : Request → Bool
  | .postTweet _ _ => true
  | _ => false

/-- The members that the classes share, with one of the two feeds. -/
def callWith (getNewsFeed : Twitter → Int32 → List Int32 → Twitter × List Int32)
    (orderOf : List Int32 × List Int32 → List Int32) (twitter : Twitter) :
    Request → Twitter × Outcome
  | .postTweet userId tweetId => (postTweet twitter userId tweetId, .done)
  | .follow followerId followeeId =>
      (follow twitter followerId followeeId, .done)
  | .unfollow followerId followeeId =>
      (unfollow twitter followerId followeeId, .done)
  | .getNewsFeed userId minHeapOrder mergeOrder =>
      let (twitter', news_feed) :=
        getNewsFeed twitter userId (orderOf (minHeapOrder, mergeOrder))
      (twitter', .feed news_feed)

def callMinHeap : Twitter → Request → Twitter × Outcome :=
  callWith getNewsFeedMinHeap Prod.fst

def callMerge : Twitter → Request → Twitter × Outcome :=
  callWith getNewsFeedMerge Prod.snd

/-- A range-for over `user_follows[userId]`, which holds the user by then. -/
def Enumerates (twitter : Twitter) (userId : Int32)
    (iteration : List Int32) : Prop :=
  iteration.Nodup ∧
    ∀ followeeId, followeeId ∈ iteration ↔
      followeeId ∈ insert userId (followsOf twitter.user_follows userId)

/-- The request comes with an order in which its set is iterated. -/
def Iterates (orderOf : List Int32 × List Int32 → List Int32)
    (twitter : Twitter) : Request → Prop
  | .getNewsFeed userId minHeapOrder mergeOrder =>
      Enumerates twitter userId (orderOf (minHeapOrder, mergeOrder))
  | _ => True

/-! ## The purpose of the feeds -/

structure Post where
  timestamp : ℕ
  author : Int32
  tweet_id : Int32
  deriving DecidableEq, Repr

/-- All tweets that were ever posted, the newest first, and whom each user
follows. -/
structure Timeline where
  log : List Post
  follows : Int32 → Finset Int32

namespace Timeline

def initial : Timeline := ⟨[], fun _ => ∅⟩

/-- The ten most recent tweets of the user and of those whom he follows. -/
def news (timeline : Timeline) (userId : Int32) : List Post :=
  (timeline.log.filter fun post =>
    post.author = userId ∨ post.author ∈ timeline.follows userId).take 10

def call (timeline : Timeline) : Request → Timeline × Outcome
  | .postTweet userId tweetId =>
      ({ timeline with
          log := ⟨timeline.log.length, userId, tweetId⟩ :: timeline.log },
        .done)
  | .follow followerId followeeId =>
      ({ timeline with
          follows := Function.update timeline.follows followerId
            (insert followeeId (timeline.follows followerId)) }, .done)
  | .unfollow followerId followeeId =>
      ({ timeline with
          follows := Function.update timeline.follows followerId
            ((timeline.follows followerId).erase followeeId) }, .done)
  | .getNewsFeed userId _ _ =>
      (timeline, .feed ((timeline.news userId).map Post.tweet_id))

/-- Timestamps count the tweets. -/
def Numbered (timeline : Timeline) : Prop :=
  timeline.log.Pairwise (fun post later => later.timestamp < post.timestamp) ∧
    ∀ post ∈ timeline.log, post.timestamp < timeline.log.length

theorem numbered_initial : initial.Numbered :=
  ⟨List.Pairwise.nil, fun _ hpost => absurd hpost List.not_mem_nil⟩

theorem numbered_call {timeline : Timeline} (hnumbered : timeline.Numbered)
    (request : Request) : (timeline.call request).1.Numbered := by
  cases request with
  | postTweet userId tweetId =>
      constructor
      · exact List.pairwise_cons.mpr ⟨hnumbered.2, hnumbered.1⟩
      · intro post hpost
        rw [call, List.length_cons]
        obtain rfl | hold := List.mem_cons.mp hpost
        · exact Nat.lt_succ_self _
        · exact (hnumbered.2 post hold).trans (Nat.lt_succ_self _)
  | follow followerId followeeId => exact hnumbered
  | unfollow followerId followeeId => exact hnumbered
  | getNewsFeed userId minHeapOrder mergeOrder => exact hnumbered

theorem length_call (timeline : Timeline) (request : Request) :
    (timeline.call request).1.log.length =
      timeline.log.length + if request.isPost then 1 else 0 := by
  cases request <;> rfl

end Timeline

end NewsFeed
end TradingStudies
