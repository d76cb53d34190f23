import TradingStudies.Twitter
import TradingStudies.Library.SubscriptMap

/-!
# Both news feeds are the newest tweets

Along every word of requests the deque of a user holds his ten most recent
tweets in the log.  The tweets of the user and of those whom he follows are
therefore enough for the ten most recent ones among them, which both queues
find.
-/

namespace TradingStudies
namespace NewsFeed

open HashMap (PartialMap)
open KWayMerge (Cursor Descending merge unread)
open RecentItems (recent)

/-- The tweet that is stored for a post. -/
def stamp (post : Post) : Tweet :=
  ⟨Int32.ofNat post.timestamp, post.tweet_id⟩

structure Describes (twitter : Twitter) (timeline : Timeline) : Prop where
  timestamp_eq : twitter.timestamp = Int32.ofNat timeline.log.length
  tweets_eq : ∀ userId, tweetsOf twitter.user_tweets userId =
    (recent Post.author 10 timeline.log userId).map stamp
  /-- Whether a user follows himself does not matter. -/
  follows_iff : ∀ userId followeeId, followeeId ≠ userId →
    (followeeId ∈ followsOf twitter.user_follows userId ↔
      followeeId ∈ timeline.follows userId)

theorem describes_construct : Describes construct Timeline.initial where
  timestamp_eq := rfl
  tweets_eq _ := rfl
  follows_iff _ _ _ := Iff.rfl

variable {twitter : Twitter} {timeline : Timeline}

/-! ## Requests keep the description -/

/-- A deque of at most eleven loses its back when it holds more than ten. -/
theorem popBack_eq_take {tweets : List Tweet} (hlength : tweets.length ≤ 11) :
    (if tweets.length > 10 then tweets.dropLast else tweets) =
      tweets.take 10 := by
  by_cases hfull : tweets.length > 10
  · rw [if_pos hfull, List.dropLast_eq_take]
    congr 1
    omega
  · rw [if_neg hfull, List.take_of_length_le (by omega)]

theorem describes_postTweet (hdescribes : Describes twitter timeline)
    (userId tweetId : Int32) :
    Describes (postTweet twitter userId tweetId)
      (timeline.call (.postTweet userId tweetId)).1 where
  timestamp_eq := by
    show twitter.timestamp + 1 = Int32.ofNat (timeline.log.length + 1)
    rw [hdescribes.timestamp_eq, Int32.ofNat_add]
    rfl
  tweets_eq other := by
    have hlength : (⟨twitter.timestamp, tweetId⟩ ::
        tweetsOf twitter.user_tweets userId : List Tweet).length ≤ 11 := by
      rw [List.length_cons, hdescribes.tweets_eq, List.length_map, recent]
      exact Nat.succ_le_succ (List.length_take_le _ _)
    have hdeque : (postTweet twitter userId tweetId).user_tweets =
        twitter.user_tweets.insert userId
          ((stamp ⟨timeline.log.length, userId, tweetId⟩ ::
            (recent Post.author 10 timeline.log userId).map stamp).take 10) := by
      simp only [postTweet]
      rw [popBack_eq_take hlength, hdescribes.tweets_eq,
        hdescribes.timestamp_eq]
      rfl
    rw [hdeque]
    by_cases heq : other = userId
    · subst other
      have hrecent := RecentItems.recent_cons_self Post.author 10 timeline.log
        ⟨timeline.log.length, userId, tweetId⟩
      simp only [Timeline.call]
      rw [hrecent, List.map_take, List.map_cons]
      exact SubscriptMap.getD_insert_self userId _
    · simp only [Timeline.call]
      rw [RecentItems.recent_cons_of_ne _ _ _ (Ne.symm heq),
        ← hdescribes.tweets_eq other]
      exact SubscriptMap.getD_insert_of_ne heq _
  follows_iff := hdescribes.follows_iff

theorem describes_follow (hdescribes : Describes twitter timeline)
    (followerId followeeId : Int32) :
    Describes (follow twitter followerId followeeId)
      (timeline.call (.follow followerId followeeId)).1 where
  timestamp_eq := hdescribes.timestamp_eq
  tweets_eq := hdescribes.tweets_eq
  follows_iff userId other hne := by
    unfold follow followsOf
    rw [SubscriptMap.getD_insert]
    simp only [Timeline.call]
    by_cases heq : userId = followerId
    · subst userId
      rw [Function.update_self, Function.update_self, Finset.mem_insert,
        Finset.mem_insert]
      exact or_congr_right (hdescribes.follows_iff followerId other hne)
    · rw [Function.update_of_ne heq, Function.update_of_ne heq]
      exact hdescribes.follows_iff userId other hne

/-- A user who follows himself is not visible. -/
theorem describes_follow_self (hdescribes : Describes twitter timeline)
    (userId : Int32) : Describes (follow twitter userId userId) timeline where
  timestamp_eq := hdescribes.timestamp_eq
  tweets_eq := hdescribes.tweets_eq
  follows_iff other followeeId hne := by
    unfold follow followsOf
    rw [SubscriptMap.getD_insert]
    by_cases heq : other = userId
    · subst other
      rw [Function.update_self, Finset.mem_insert, or_iff_right hne]
      exact hdescribes.follows_iff userId followeeId hne
    · rw [Function.update_of_ne heq]
      exact hdescribes.follows_iff other followeeId hne

theorem describes_unfollow (hdescribes : Describes twitter timeline)
    (followerId followeeId : Int32) :
    Describes (unfollow twitter followerId followeeId)
      (timeline.call (.unfollow followerId followeeId)).1 := by
  unfold unfollow
  by_cases hsame : followerId = followeeId
  · -- Here the timeline forgets that the user followed himself.
    rw [if_neg (not_not_intro hsame)]
    refine ⟨hdescribes.timestamp_eq, hdescribes.tweets_eq, ?_⟩
    intro userId other hne
    simp only [Timeline.call]
    by_cases heq : userId = followerId
    · subst userId
      rw [Function.update_self, Finset.mem_erase,
        and_iff_right (hsame ▸ hne)]
      exact hdescribes.follows_iff followerId other hne
    · rw [Function.update_of_ne heq]
      exact hdescribes.follows_iff userId other hne
  · rw [if_pos hsame]
    refine ⟨hdescribes.timestamp_eq, hdescribes.tweets_eq, ?_⟩
    intro userId other hne
    simp only [Timeline.call]
    unfold followsOf
    rw [SubscriptMap.getD_insert]
    by_cases heq : userId = followerId
    · subst userId
      rw [Function.update_self, Function.update_self, Finset.mem_erase,
        Finset.mem_erase]
      exact and_congr_right fun _ =>
        hdescribes.follows_iff followerId other hne
    · rw [Function.update_of_ne heq, Function.update_of_ne heq]
      exact hdescribes.follows_iff userId other hne

/-! ## Filling the queues -/

section Queues

variable {user_tweets : PartialMap Int32 (List Tweet)}

theorem tweetsOf_subscript (userId other : Int32) :
    tweetsOf (user_tweets.insert userId (tweetsOf user_tweets userId)) other =
      tweetsOf user_tweets other :=
  SubscriptMap.getD_subscript userId other

theorem fillMinHeap_tweets (iteration : List Int32) (min_heap : List Tweet)
    (userId : Int32) :
    tweetsOf (fillMinHeap iteration user_tweets min_heap).1 userId =
      tweetsOf user_tweets userId := by
  induction iteration generalizing user_tweets min_heap with
  | nil => rfl
  | cons first rest ih => rw [fillMinHeap, ih, tweetsOf_subscript]

theorem fillMinHeap_heap (iteration : List Int32) (min_heap : List Tweet) :
    (fillMinHeap iteration user_tweets min_heap).2 =
      (iteration.flatMap (tweetsOf user_tweets)).foldl
        (BoundedHeap.offer tweetKey 10) min_heap := by
  induction iteration generalizing user_tweets min_heap with
  | nil => rfl
  | cons first rest ih =>
      rw [fillMinHeap, ih, List.flatMap_cons, List.foldl_append]
      simp only [funext (tweetsOf_subscript first)]

theorem fillMaxHeap_cons_of_empty {first : Int32}
    (htweets : tweetsOf user_tweets first = []) (rest : List Int32) :
    fillMaxHeap (first :: rest) user_tweets =
      fillMaxHeap rest
        (user_tweets.insert first (tweetsOf user_tweets first)) := by
  simp only [fillMaxHeap, htweets]

theorem fillMaxHeap_cons_of_tweets {first : Int32} {front : Tweet}
    {behind : List Tweet}
    (htweets : tweetsOf user_tweets first = front :: behind)
    (rest : List Int32) :
    fillMaxHeap (first :: rest) user_tweets =
      let filled := fillMaxHeap rest
        (user_tweets.insert first (tweetsOf user_tweets first))
      (filled.1, ⟨front, behind⟩ :: filled.2) := by
  simp only [fillMaxHeap, htweets]

theorem fillMaxHeap_tweets (iteration : List Int32) (userId : Int32) :
    tweetsOf (fillMaxHeap iteration user_tweets).1 userId =
      tweetsOf user_tweets userId := by
  induction iteration generalizing user_tweets with
  | nil => rfl
  | cons first rest ih =>
      cases htweets : tweetsOf user_tweets first with
      | nil =>
          rw [fillMaxHeap_cons_of_empty htweets, ih, tweetsOf_subscript]
      | cons front behind =>
          rw [fillMaxHeap_cons_of_tweets htweets, ih, tweetsOf_subscript]

theorem fillMaxHeap_unread (iteration : List Int32) :
    unread (fillMaxHeap iteration user_tweets).2 =
      iteration.flatMap (tweetsOf user_tweets) := by
  induction iteration generalizing user_tweets with
  | nil => rfl
  | cons first rest ih =>
      have hrest : unread (fillMaxHeap rest
            (user_tweets.insert first (tweetsOf user_tweets first))).2 =
          rest.flatMap (tweetsOf user_tweets) := by
        rw [ih, funext (tweetsOf_subscript first)]
      rw [List.flatMap_cons, ← hrest]
      cases htweets : tweetsOf user_tweets first with
      | nil => rw [fillMaxHeap_cons_of_empty htweets, List.nil_append, htweets]
      | cons front behind =>
          rw [fillMaxHeap_cons_of_tweets htweets, htweets]
          rfl

/-- Every cursor stands at the front of somebody's deque. -/
theorem fillMaxHeap_descending
    (hdescending : ∀ userId, (tweetsOf user_tweets userId).Pairwise
      fun tweet later => tweetKey later < tweetKey tweet)
    (iteration : List Int32) :
    Descending tweetKey (fillMaxHeap iteration user_tweets).2 := by
  induction iteration generalizing user_tweets with
  | nil =>
      intro cursor hcursor
      exact absurd hcursor List.not_mem_nil
  | cons first rest ih =>
      have hrest : Descending tweetKey (fillMaxHeap rest
          (user_tweets.insert first (tweetsOf user_tweets first))).2 := by
        apply ih
        intro userId
        rw [tweetsOf_subscript]
        exact hdescending userId
      have hfirst := hdescending first
      cases htweets : tweetsOf user_tweets first with
      | nil =>
          rw [fillMaxHeap_cons_of_empty htweets]
          exact hrest
      | cons front behind =>
          rw [htweets] at hfirst
          rw [fillMaxHeap_cons_of_tweets htweets]
          intro cursor hcursor
          obtain rfl | hold := List.mem_cons.mp hcursor
          · exact hfirst
          · exact hrest cursor hold

end Queues

/-! ## One request for a feed -/

/-- As long as the timestamps fit, the keys follow the age of the tweets. -/
theorem tweetKey_stamp_lt {post later : Post}
    (hlater : later.timestamp < post.timestamp)
    (hfits : post.timestamp < 2 ^ 31) :
    tweetKey (stamp later) < tweetKey (stamp post) := by
  show (Int32.ofNat later.timestamp).toInt < (Int32.ofNat post.timestamp).toInt
  rw [Int32.toInt_ofNat_of_lt hfits,
    Int32.toInt_ofNat_of_lt (hlater.trans hfits)]
  exact_mod_cast hlater

theorem map_stamp_descending (hnumbered : timeline.Numbered)
    (hfew : timeline.log.length ≤ 2 ^ 31) {posts : List Post}
    (hposts : posts.Sublist timeline.log) :
    (posts.map stamp).Pairwise
      fun tweet later => tweetKey later < tweetKey tweet := by
  apply List.pairwise_map.mpr
  apply (hnumbered.1.sublist hposts).imp_of_mem
  intro post later hpost _ hlater
  have hmem : post ∈ timeline.log := hposts.subset hpost
  exact tweetKey_stamp_lt hlater ((hnumbered.2 post hmem).trans_le hfew)

theorem log_nodup (hnumbered : timeline.Numbered) : timeline.log.Nodup := by
  apply hnumbered.1.imp
  intro post later hlt heq
  rw [heq] at hlt
  exact lt_irrefl _ hlt

/-- The tweets in the deques of the followed users hold the news, and they are
in the order of their keys. -/
theorem exists_target (hdescribes : Describes twitter timeline)
    (hnumbered : timeline.Numbered) (hfew : timeline.log.length ≤ 2 ^ 31)
    {userId : Int32} {iteration : List Int32}
    (hiteration : Enumerates twitter userId iteration) :
    ∃ target : List Tweet,
      (target.Pairwise fun tweet later => tweetKey later < tweetKey tweet) ∧
      target.Perm (iteration.flatMap (tweetsOf twitter.user_tweets)) ∧
      (target.take 10).map Tweet.tweet_id =
        (timeline.news userId).map Post.tweet_id := by
  obtain ⟨hnodup, hmem⟩ := hiteration
  obtain ⟨kept, hsublist, hperm, htake⟩ :=
    RecentItems.exists_kept Post.author 10 (log_nodup hnumbered) hnodup
  have hauthors : ∀ author, author ∈ iteration ↔
      author = userId ∨ author ∈ timeline.follows userId := by
    intro author
    rw [hmem, Finset.mem_insert]
    by_cases heq : author = userId
    · simp only [heq, true_or]
    · exact or_congr_right (hdescribes.follows_iff userId author heq)
  have hnews : kept.take 10 = timeline.news userId := by
    rw [htake, Timeline.news]
    simp only [hauthors]
  refine ⟨kept.map stamp, map_stamp_descending hnumbered hfew hsublist, ?_, ?_⟩
  · have hdeques : iteration.flatMap (tweetsOf twitter.user_tweets) =
        (iteration.flatMap (recent Post.author 10 timeline.log)).map stamp := by
      rw [List.map_flatMap, funext hdescribes.tweets_eq]
    rw [hdeques]
    exact hperm.map stamp
  · rw [← List.map_take, hnews, List.map_map]
    rfl

theorem enumerates_follow_self {userId : Int32} {iteration : List Int32}
    (hiteration : Enumerates twitter userId iteration) :
    Enumerates (follow twitter userId userId) userId iteration := by
  constructor
  · exact hiteration.1
  · intro followeeId
    unfold follow followsOf
    rw [SubscriptMap.getD_insert_self, Finset.insert_idem]
    exact hiteration.2 followeeId

/-- What `getNewsFeed` has to achieve in a state that describes a timeline. -/
def ShowsNews
    (getNewsFeed : Twitter → Int32 → List Int32 → Twitter × List Int32) :
    Prop :=
  ∀ {twitter : Twitter} {timeline : Timeline} {userId : Int32}
    {iteration : List Int32}, Describes twitter timeline →
    timeline.Numbered → timeline.log.length ≤ 2 ^ 31 →
    Enumerates twitter userId iteration →
    (getNewsFeed twitter userId iteration).2 =
        (timeline.news userId).map Post.tweet_id ∧
      Describes (getNewsFeed twitter userId iteration).1 timeline

theorem getNewsFeedMinHeap_shows : ShowsNews getNewsFeedMinHeap := by
  intro twitter timeline userId iteration hdescribes hnumbered hfew hiteration
  have hself := describes_follow_self hdescribes userId
  obtain ⟨target, hsorted, hperm, hnews⟩ := exists_target hself hnumbered hfew
    (enumerates_follow_self hiteration)
  constructor
  · have hdistinct : BoundedHeap.DistinctKeys tweetKey
        ((iteration.flatMap (tweetsOf
          (follow twitter userId userId).user_tweets)).reverse ++ []) := by
      have hkeys : (target.map tweetKey).Nodup := by
        apply List.pairwise_map.mpr
        exact hsorted.imp fun hlt => hlt.ne'
      rw [List.append_nil]
      exact ((hperm.trans (List.reverse_perm _).symm).map
        tweetKey).nodup_iff.mp hkeys
    have hkeeps := (BoundedHeap.keeps_nil tweetKey 10).foldl_offer _ hdistinct
    have hseen := hperm.trans (List.reverse_perm _).symm
    rw [List.append_nil] at hkeeps
    have hheap := hkeeps.perm_take hsorted hseen
    rw [← fillMinHeap_heap] at hheap
    unfold getNewsFeedMinHeap
    simp only
    rw [BoundedHeap.drain_eq Tweet.tweet_id hsorted.take hheap
      (List.length_replicate.ge), hnews, List.drop_of_length_le
      List.length_replicate.le, List.append_nil]
  · exact ⟨hself.timestamp_eq,
      fun other => (fillMinHeap_tweets iteration [] other).trans
        (hself.tweets_eq other), hself.follows_iff⟩

theorem getNewsFeedMerge_shows : ShowsNews getNewsFeedMerge := by
  intro twitter timeline userId iteration hdescribes hnumbered hfew hiteration
  have hself := describes_follow_self hdescribes userId
  obtain ⟨target, hsorted, hperm, hnews⟩ := exists_target hself hnumbered hfew
    (enumerates_follow_self hiteration)
  constructor
  · have hcursors : Descending tweetKey (fillMaxHeap iteration
        (follow twitter userId userId).user_tweets).2 := by
      apply fillMaxHeap_descending
      intro other
      rw [hself.tweets_eq]
      exact map_stamp_descending hnumbered hfew
        ((List.take_sublist _ _).trans List.filter_sublist)
    rw [← fillMaxHeap_unread] at hperm
    unfold getNewsFeedMerge
    simp only
    rw [KWayMerge.merge_eq_take hcursors hsorted hperm]
    exact hnews
  · exact ⟨hself.timestamp_eq,
      fun other => (fillMaxHeap_tweets iteration other).trans
        (hself.tweets_eq other), hself.follows_iff⟩

/-! ## Words of requests -/

section Words

variable
  {getNewsFeed : Twitter → Int32 → List Int32 → Twitter × List Int32}
  {orderOf : List Int32 × List Int32 → List Int32}

theorem callWith_simulates (hshows : ShowsNews getNewsFeed)
    (hdescribes : Describes twitter timeline) (hnumbered : timeline.Numbered)
    (hfew : timeline.log.length ≤ 2 ^ 31) {request : Request}
    (hiterates : Iterates orderOf twitter request) :
    (callWith getNewsFeed orderOf twitter request).2 =
        (timeline.call request).2 ∧
      Describes (callWith getNewsFeed orderOf twitter request).1
        (timeline.call request).1 := by
  cases request with
  | postTweet userId tweetId =>
      exact ⟨rfl, describes_postTweet hdescribes userId tweetId⟩
  | follow followerId followeeId =>
      exact ⟨rfl, describes_follow hdescribes followerId followeeId⟩
  | unfollow followerId followeeId =>
      exact ⟨rfl, describes_unfollow hdescribes followerId followeeId⟩
  | getNewsFeed userId minHeapOrder mergeOrder =>
      obtain ⟨hfeed, hnext⟩ := hshows hdescribes hnumbered hfew hiterates
      exact ⟨congrArg Outcome.feed hfeed, hnext⟩

/-- Induction over the word. -/
theorem results_callWith (hshows : ShowsNews getNewsFeed)
    (hdescribes : Describes twitter timeline) (hnumbered : timeline.Numbered)
    {requests : List Request}
    (hfew : timeline.log.length + requests.countP Request.isPost < 2 ^ 31)
    (hiterates : CallSystem.AllAllowed (callWith getNewsFeed orderOf)
      (Iterates orderOf) twitter requests) :
    CallSystem.results (callWith getNewsFeed orderOf) twitter requests =
      CallSystem.results Timeline.call timeline requests := by
  induction requests generalizing twitter timeline with
  | nil => rfl
  | cons request rest ih =>
      obtain ⟨hresult, hnext⟩ := callWith_simulates hshows hdescribes hnumbered
        (by omega) hiterates.1
      have hlength : (timeline.call request).1.log.length +
          rest.countP Request.isPost < 2 ^ 31 := by
        rw [Timeline.length_call]
        rw [List.countP_cons] at hfew
        omega
      have hrest := ih hnext (Timeline.numbered_call hnumbered request) hlength
        hiterates.2
      simp only [CallSystem.results, hresult, hrest]

end Words

/-- Whatever orders the sets are iterated in, both classes answer every word
of requests like the timeline. -/
theorem newsFeeds_newest (requests : List Request)
    (hfew : requests.countP Request.isPost < 2 ^ 31)
    (hminHeap : CallSystem.AllAllowed callMinHeap (Iterates Prod.fst) construct
      requests)
    (hmerge : CallSystem.AllAllowed callMerge (Iterates Prod.snd) construct
      requests) :
    CallSystem.results callMinHeap construct requests =
        CallSystem.results Timeline.call Timeline.initial requests ∧
      CallSystem.results callMerge construct requests =
        CallSystem.results Timeline.call Timeline.initial requests := by
  have hlength : Timeline.initial.log.length +
      requests.countP Request.isPost < 2 ^ 31 := by
    rw [Timeline.initial, List.length_nil, Nat.zero_add]
    exact hfew
  constructor
  · exact results_callWith getNewsFeedMinHeap_shows describes_construct
      Timeline.numbered_initial hlength hminHeap
  · exact results_callWith getNewsFeedMerge_shows describes_construct
      Timeline.numbered_initial hlength hmerge

instance (twitter : Twitter) (userId : Int32) (iteration : List Int32) :
    Decidable (Enumerates twitter userId iteration) :=
  decidable_of_iff
    (iteration.Nodup ∧ iteration.toFinset =
      insert userId (followsOf twitter.user_follows userId))
    (and_congr_right fun _ => by simp only [Finset.ext_iff, List.mem_toFinset])

instance (orderOf : List Int32 × List Int32 → List Int32)
    (twitter : Twitter) : ∀ request, Decidable (Iterates orderOf twitter request)
  | .postTweet _ _ => inferInstanceAs (Decidable True)
  | .follow _ _ => inferInstanceAs (Decidable True)
  | .unfollow _ _ => inferInstanceAs (Decidable True)
  | .getNewsFeed userId minHeapOrder mergeOrder =>
      inferInstanceAs (Decidable
        (Enumerates twitter userId (orderOf (minHeapOrder, mergeOrder))))

/-- A feed before and after a user is unfollowed. -/
theorem newsFeeds_newest_unfollow :
    let requests : List Request := [.postTweet 2 100, .follow 1 2,
      .postTweet 2 101, .postTweet 1 102, .postTweet 1 103, .getNewsFeed 1 [1, 2]
      [2, 1], .unfollow 1 2, .unfollow 1 1, .getNewsFeed 1 [1] [1]]
    CallSystem.results callMinHeap construct requests =
        CallSystem.results Timeline.call Timeline.initial requests ∧
      CallSystem.results callMerge construct requests =
        CallSystem.results Timeline.call Timeline.initial requests :=
  newsFeeds_newest _ (by decide) (by decide) (by decide)

end NewsFeed
end TradingStudies
