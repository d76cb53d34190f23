import TradingStudies.FixedSizedChainingHashMap
import TradingStudies.Library.LinkedSegment

/-!
# The representation invariant of the fixed-size chaining map

The invariant speaks about one list of nodes for each bucket, the nodes the
bucket's pointers lead through.  Every node is either on the free stack or on
the list of exactly one bucket, and the nodes of a bucket hold keys that hash
to it.

Each operation is described by its effect on these lists.  The walk lemmas
below evaluate the bucket loop; everything after them works with lists.
-/

namespace TradingStudies
namespace HashMap
namespace FixedSizedChainingHashMap

open LinkedSegment

variable {initBuckets : ℕ} {Key Value : Type*} [NeZero initBuckets]

structure ChainInvariant (hash : Key → ℕ)
    (map : FixedSizedChainingHashMap initBuckets Key Value)
    (chain : Fin initBuckets → List (NodePtr initBuckets)) : Prop where
  linked : ∀ bucket,
    Segment map.nextOf (map.buckets_ bucket) (chain bucket) none
  placed : ∀ bucket, ∀ ptr ∈ chain bucket,
    bucketIndex hash (map.nodesPool_ ptr).key = bucket
  freeNodup : map.freeNodes_.Nodup
  freeDisjoint : ∀ bucket, ∀ ptr ∈ chain bucket, ptr ∉ map.freeNodes_
  covered : ∀ ptr, ptr ∈ map.freeNodes_ ∨ ∃ bucket, ptr ∈ chain bucket

theorem ChainInvariant.bucket_unique
    {hash : Key → ℕ} {map : FixedSizedChainingHashMap initBuckets Key Value}
    {chain : Fin initBuckets → List (NodePtr initBuckets)}
    (hinv : ChainInvariant hash map chain)
    {bucket bucket' : Fin initBuckets} {ptr : NodePtr initBuckets}
    (hptr : ptr ∈ chain bucket) (hptr' : ptr ∈ chain bucket') :
    bucket = bucket' :=
  (hinv.placed bucket ptr hptr).symm.trans (hinv.placed bucket' ptr hptr')

theorem empty_chainInvariant [Inhabited Key] [Inhabited Value]
    (hash : Key → ℕ) :
    ChainInvariant hash (empty initBuckets Key Value) (fun _ => []) where
  linked := fun _ => rfl
  placed := fun _ _ hptr => absurd hptr List.not_mem_nil
  freeNodup := List.nodup_reverse.mpr (List.nodup_finRange _)
  freeDisjoint := fun _ _ hptr => absurd hptr List.not_mem_nil
  covered := fun ptr => Or.inl (by simp [empty])

theorem ChainInvariant.chain_length_lt
    {hash : Key → ℕ} {map : FixedSizedChainingHashMap initBuckets Key Value}
    {chain : Fin initBuckets → List (NodePtr initBuckets)}
    (hinv : ChainInvariant hash map chain) (bucket : Fin initBuckets) :
    (chain bucket).length < loopSteps initBuckets := by
  have hcard := (hinv.linked bucket).nodup.length_le_card
  rw [Fintype.card_fin] at hcard
  unfold loopSteps
  omega

/-! ## Evaluation of the bucket loop -/

section Walk

variable [DecidableEq Key]

omit [NeZero initBuckets] in
/-- The loop runs past nodes with other keys. -/
theorem traverse_skip
    {map : FixedSizedChainingHashMap initBuckets Key Value} {key : Key}
    {start middle previous : Option (NodePtr initBuckets)}
    {front : List (NodePtr initBuckets)}
    (hsegment : Segment map.nextOf start front middle)
    (hfront : ∀ ptr ∈ front, (map.nodesPool_ ptr).key ≠ key) (steps : ℕ) :
    map.traverse key (front.length + steps) start previous =
      map.traverse key steps middle (front.getLast?.or previous) := by
  induction front generalizing start previous with
  | nil =>
      have hstart : start = middle := hsegment
      subst start
      simp
  | cons ptr rest ih =>
      rcases hsegment with ⟨hstart, hrest⟩
      subst start
      have hptr := hfront ptr List.mem_cons_self
      have hlater : map.traverse key (rest.length + steps)
          (map.nextOf ptr) (some ptr) =
          map.traverse key steps middle (rest.getLast?.or (some ptr)) :=
        ih hrest
          (fun other hother => hfront other (List.mem_cons_of_mem _ hother))
      rw [show (ptr :: rest).length + steps = rest.length + steps + 1 by
        simp only [List.length_cons]; omega]
      rw [traverse, if_neg hptr]
      rw [nextOf] at hlater
      rw [hlater]
      cases rest with
      | nil => rfl
      | cons _ _ => simp [List.getLast?_cons]

omit [NeZero initBuckets] in
/-- A bucket either has no node with the key, or splits at the first one. -/
theorem chain_split
    (map : FixedSizedChainingHashMap initBuckets Key Value) (key : Key)
    (nodes : List (NodePtr initBuckets)) :
    (∀ ptr ∈ nodes, (map.nodesPool_ ptr).key ≠ key) ∨
      ∃ front node back, nodes = front ++ node :: back ∧
        (∀ ptr ∈ front, (map.nodesPool_ ptr).key ≠ key) ∧
        (map.nodesPool_ node).key = key := by
  induction nodes with
  | nil => exact Or.inl (fun _ hptr => absurd hptr List.not_mem_nil)
  | cons ptr rest ih =>
      by_cases hptr : (map.nodesPool_ ptr).key = key
      · exact Or.inr ⟨[], ptr, rest, rfl,
          fun _ hother => absurd hother List.not_mem_nil, hptr⟩
      · rcases ih with hrest | ⟨front, node, back, hsplit, hfront, hnode⟩
        · refine Or.inl (fun other hother => ?_)
          rcases List.mem_cons.mp hother with rfl | hother
          · exact hptr
          · exact hrest other hother
        · refine Or.inr ⟨ptr :: front, node, back, by simp [hsplit], ?_, hnode⟩
          intro other hother
          rcases List.mem_cons.mp hother with rfl | hother
          · exact hptr
          · exact hfront other hother

theorem ChainInvariant.walk_hit
    {hash : Key → ℕ} {map : FixedSizedChainingHashMap initBuckets Key Value}
    {chain : Fin initBuckets → List (NodePtr initBuckets)}
    (hinv : ChainInvariant hash map chain) {key : Key}
    {front back : List (NodePtr initBuckets)} {node : NodePtr initBuckets}
    (hsplit : chain (bucketIndex hash key) = front ++ node :: back)
    (hfront : ∀ ptr ∈ front, (map.nodesPool_ ptr).key ≠ key)
    (hnode : (map.nodesPool_ node).key = key) :
    map.walk hash key = some (some node, front.getLast?) := by
  have hsegment := hinv.linked (bucketIndex hash key)
  have hlength := hinv.chain_length_lt (bucketIndex hash key)
  rw [hsplit] at hsegment hlength
  rw [segment_append] at hsegment
  rcases hsegment with ⟨middle, hbefore, hmiddle, -⟩
  subst middle
  obtain ⟨steps, hsteps⟩ :
      ∃ steps, loopSteps initBuckets = front.length + (steps + 1) := by
    refine ⟨loopSteps initBuckets - front.length - 1, ?_⟩
    simp only [List.length_append, List.length_cons] at hlength
    omega
  rw [walk, hsteps, traverse_skip hbefore hfront, traverse, if_pos hnode]
  simp

theorem ChainInvariant.walk_miss
    {hash : Key → ℕ} {map : FixedSizedChainingHashMap initBuckets Key Value}
    {chain : Fin initBuckets → List (NodePtr initBuckets)}
    (hinv : ChainInvariant hash map chain) {key : Key}
    (hmiss : ∀ ptr ∈ chain (bucketIndex hash key),
      (map.nodesPool_ ptr).key ≠ key) :
    map.walk hash key =
      some (none, (chain (bucketIndex hash key)).getLast?) := by
  have hlength := hinv.chain_length_lt (bucketIndex hash key)
  obtain ⟨steps, hsteps⟩ : ∃ steps, loopSteps initBuckets =
      (chain (bucketIndex hash key)).length + (steps + 1) := by
    refine ⟨loopSteps initBuckets -
      (chain (bucketIndex hash key)).length - 1, ?_⟩
    omega
  rw [walk, hsteps,
    traverse_skip (hinv.linked (bucketIndex hash key)) hmiss, traverse]
  simp

end Walk

/-! ## Pointer writes -/

omit [NeZero initBuckets] in
theorem nextOf_update
    (map : FixedSizedChainingHashMap initBuckets Key Value)
    (ptr : NodePtr initBuckets) (node : Node initBuckets Key Value)
    (buckets : Fin initBuckets → Option (NodePtr initBuckets))
    (free : List (NodePtr initBuckets)) :
    nextOf { buckets_ := buckets
             nodesPool_ := Function.update map.nodesPool_ ptr node
             freeNodes_ := free } =
      Function.update map.nextOf ptr node.next := by
  funext other
  by_cases heq : other = ptr
  · subst other
    simp [nextOf]
  · simp [nextOf, Function.update, heq]

/-- The part of the invariant that does not depend on the pointers, when a
node leaves the free stack for the end of a bucket. -/
theorem ChainInvariant.extend
    {hash : Key → ℕ} {map map' : FixedSizedChainingHashMap initBuckets Key Value}
    {chain : Fin initBuckets → List (NodePtr initBuckets)}
    (hinv : ChainInvariant hash map chain)
    {bucket : Fin initBuckets} {new_node : NodePtr initBuckets}
    {rest : List (NodePtr initBuckets)}
    (hfree : map.freeNodes_ = new_node :: rest)
    (hfree' : map'.freeNodes_ = rest)
    (hkeys : ∀ ptr ≠ new_node,
      (map'.nodesPool_ ptr).key = (map.nodesPool_ ptr).key)
    (hnew : bucketIndex hash (map'.nodesPool_ new_node).key = bucket)
    (hlinked : ∀ other, Segment map'.nextOf (map'.buckets_ other)
      (Function.update chain bucket (chain bucket ++ [new_node]) other) none) :
    ChainInvariant hash map'
      (Function.update chain bucket (chain bucket ++ [new_node])) := by
  have hnodup := hinv.freeNodup
  rw [hfree, List.nodup_cons] at hnodup
  have hold : ∀ other, ∀ ptr ∈ chain other, ptr ≠ new_node ∧ ptr ∉ rest := by
    intro other ptr hptr
    have hnot := hinv.freeDisjoint other ptr hptr
    rw [hfree] at hnot
    simpa using hnot
  have hmem : ∀ other ptr,
      ptr ∈ Function.update chain bucket (chain bucket ++ [new_node]) other →
        ptr ∈ chain other ∨ (other = bucket ∧ ptr = new_node) := by
    intro other ptr hptr
    by_cases heq : other = bucket
    · subst other
      simpa using hptr
    · rw [Function.update_of_ne heq] at hptr
      exact Or.inl hptr
  constructor
  · exact hlinked
  · intro other ptr hptr
    rcases hmem other ptr hptr with hchain | ⟨rfl, rfl⟩
    · rw [hkeys ptr (hold other ptr hchain).1]
      exact hinv.placed other ptr hchain
    · exact hnew
  · rw [hfree']
    exact hnodup.2
  · intro other ptr hptr
    rw [hfree']
    rcases hmem other ptr hptr with hchain | ⟨-, rfl⟩
    · exact (hold other ptr hchain).2
    · exact hnodup.1
  · intro ptr
    rw [hfree']
    rcases hinv.covered ptr with hptr | ⟨other, hptr⟩
    · rw [hfree] at hptr
      rcases List.mem_cons.mp hptr with rfl | hptr
      · exact Or.inr ⟨bucket, by simp⟩
      · exact Or.inl hptr
    · refine Or.inr ⟨other, ?_⟩
      by_cases heq : other = bucket
      · subst other
        simp [hptr]
      · rw [Function.update_of_ne heq]
        exact hptr

/-- The same for a node that leaves its bucket for the free stack. -/
theorem ChainInvariant.unlink
    {hash : Key → ℕ} {map map' : FixedSizedChainingHashMap initBuckets Key Value}
    {chain : Fin initBuckets → List (NodePtr initBuckets)}
    (hinv : ChainInvariant hash map chain)
    {bucket : Fin initBuckets} {node : NodePtr initBuckets}
    {front back : List (NodePtr initBuckets)}
    (hsplit : chain bucket = front ++ node :: back)
    (hfree : map'.freeNodes_ = node :: map.freeNodes_)
    (hkeys : ∀ ptr, (map'.nodesPool_ ptr).key = (map.nodesPool_ ptr).key)
    (hlinked : ∀ other, Segment map'.nextOf (map'.buckets_ other)
      (Function.update chain bucket (front ++ back) other) none) :
    ChainInvariant hash map'
      (Function.update chain bucket (front ++ back)) := by
  have hnodup := (hinv.linked bucket).nodup
  rw [hsplit, List.nodup_middle, List.nodup_cons] at hnodup
  have hnode : node ∈ chain bucket := by simp [hsplit]
  have hmem : ∀ other ptr,
      ptr ∈ Function.update chain bucket (front ++ back) other →
        ptr ∈ chain other ∧ ptr ≠ node := by
    intro other ptr hptr
    by_cases heq : other = bucket
    · subst other
      rw [Function.update_self] at hptr
      refine ⟨?_, fun h => hnodup.1 (h ▸ hptr)⟩
      rw [hsplit]
      simp only [List.mem_append, List.mem_cons] at hptr ⊢
      exact hptr.imp id Or.inr
    · rw [Function.update_of_ne heq] at hptr
      refine ⟨hptr, ?_⟩
      rintro rfl
      exact heq (hinv.bucket_unique hptr hnode)
  constructor
  · exact hlinked
  · intro other ptr hptr
    rw [hkeys]
    exact hinv.placed other ptr (hmem other ptr hptr).1
  · rw [hfree]
    exact List.nodup_cons.mpr
      ⟨hinv.freeDisjoint bucket node hnode, hinv.freeNodup⟩
  · intro other ptr hptr
    rw [hfree, List.mem_cons, not_or]
    rcases hmem other ptr hptr with ⟨hchain, hne⟩
    exact ⟨hne, hinv.freeDisjoint other ptr hchain⟩
  · intro ptr
    rw [hfree]
    rcases hinv.covered ptr with hptr | ⟨other, hptr⟩
    · exact Or.inl (List.mem_cons_of_mem _ hptr)
    · by_cases hnodeEq : ptr = node
      · exact Or.inl (by simp [hnodeEq])
      · refine Or.inr ⟨other, ?_⟩
        by_cases heq : other = bucket
        · subst other
          rw [Function.update_self]
          rw [hsplit] at hptr
          simp only [List.mem_append, List.mem_cons] at hptr ⊢
          rcases hptr with hptr | hptr | hptr
          · exact Or.inl hptr
          · exact absurd hptr hnodeEq
          · exact Or.inr hptr
        · rw [Function.update_of_ne heq]
          exact hptr

theorem ChainInvariant.append_head
    {hash : Key → ℕ} {map : FixedSizedChainingHashMap initBuckets Key Value}
    {chain : Fin initBuckets → List (NodePtr initBuckets)}
    (hinv : ChainInvariant hash map chain)
    {key : Key} (value : Value) {new_node : NodePtr initBuckets}
    {rest : List (NodePtr initBuckets)}
    (hfree : map.freeNodes_ = new_node :: rest)
    (hempty : chain (bucketIndex hash key) = []) :
    ChainInvariant hash
      { buckets_ := Function.update map.buckets_ (bucketIndex hash key)
          (some new_node)
        nodesPool_ := Function.update map.nodesPool_ new_node
          ⟨key, value, none⟩
        freeNodes_ := rest }
      (Function.update chain (bucketIndex hash key)
        (chain (bucketIndex hash key) ++ [new_node])) := by
  apply hinv.extend hfree rfl
  · intro ptr hptr
    simp [Function.update, hptr]
  · simp
  · intro other
    rw [nextOf_update]
    by_cases heq : other = bucketIndex hash key
    · subst other
      simp [hempty]
    · simp only [Function.update_of_ne heq]
      apply (hinv.linked other).frame
      intro hmem
      exact hinv.freeDisjoint other new_node hmem (by simp [hfree])

theorem ChainInvariant.append_last
    {hash : Key → ℕ} {map : FixedSizedChainingHashMap initBuckets Key Value}
    {chain : Fin initBuckets → List (NodePtr initBuckets)}
    (hinv : ChainInvariant hash map chain)
    {key : Key} (value : Value) {new_node last : NodePtr initBuckets}
    {rest front : List (NodePtr initBuckets)}
    (hfree : map.freeNodes_ = new_node :: rest)
    (hlast : chain (bucketIndex hash key) = front ++ [last])
    {pool : NodePtr initBuckets → Node initBuckets Key Value}
    (hpool : pool = Function.update map.nodesPool_ new_node
      ⟨key, value, none⟩) :
    ChainInvariant hash
      { buckets_ := map.buckets_
        nodesPool_ := Function.update pool last
          { pool last with next := some new_node }
        freeNodes_ := rest }
      (Function.update chain (bucketIndex hash key)
        (chain (bucketIndex hash key) ++ [new_node])) := by
  have hnew : ∀ other, new_node ∉ chain other := by
    intro other hmem
    exact hinv.freeDisjoint other new_node hmem (by simp [hfree])
  have hlastMem : last ∈ chain (bucketIndex hash key) := by simp [hlast]
  have hne : new_node ≠ last := fun heq => hnew _ (heq ▸ hlastMem)
  have hnext : nextOf
      { buckets_ := map.buckets_
        nodesPool_ := Function.update pool last
          { pool last with next := some new_node }
        freeNodes_ := rest } =
      Function.update (Function.update map.nextOf new_node none) last
        (some new_node) := by
    have hfirst := nextOf_update map new_node ⟨key, value, none⟩
      map.buckets_ map.freeNodes_
    have hsecond := nextOf_update
      { map with nodesPool_ := pool } last
      { pool last with next := some new_node } map.buckets_ rest
    rw [hsecond, hpool]
    exact congrArg (fun next => Function.update next last (some new_node))
      hfirst
  apply hinv.extend hfree rfl
  · intro ptr hptr
    by_cases heq : ptr = last
    · subst ptr
      simp [hpool, Function.update, hptr]
    · simp [hpool, Function.update, hptr, heq]
  · simp [hpool, Function.update, hne]
  · intro other
    rw [hnext]
    by_cases heq : other = bucketIndex hash key
    · subst other
      rw [Function.update_self]
      have hnodup := (hinv.linked (bucketIndex hash key)).nodup
      rw [hlast, List.nodup_append] at hnodup
      have hfront : last ∉ front := fun hmem =>
        hnodup.2.2 last hmem last (by simp) rfl
      have hframed :=
        (hinv.linked (bucketIndex hash key)).frame (hnew _) none
      rw [hlast] at hframed
      rw [segment_append, hlast]
      exact ⟨some new_node,
        hframed.redirect_last hfront (some new_node),
        rfl, by simp [Function.update, hne]⟩
    · rw [Function.update_of_ne heq]
      apply Segment.frame
      · exact (hinv.linked other).frame (hnew other) none
      · intro hmem
        exact heq (hinv.bucket_unique hmem hlastMem)

theorem ChainInvariant.unlink_head
    {hash : Key → ℕ} {map : FixedSizedChainingHashMap initBuckets Key Value}
    {chain : Fin initBuckets → List (NodePtr initBuckets)}
    (hinv : ChainInvariant hash map chain)
    {bucket : Fin initBuckets} {node : NodePtr initBuckets}
    {back : List (NodePtr initBuckets)}
    (hsplit : chain bucket = node :: back) :
    ChainInvariant hash
      { map with
        buckets_ := Function.update map.buckets_ bucket
          (map.nodesPool_ node).next
        freeNodes_ := node :: map.freeNodes_ }
      (Function.update chain bucket back) := by
  have hfront : chain bucket = [] ++ node :: back := hsplit
  refine ChainInvariant.unlink hinv hfront rfl (fun _ => rfl) ?_
  intro other
  by_cases heq : other = bucket
  · subst other
    have hsegment := hinv.linked bucket
    rw [hsplit] at hsegment
    simp only [Function.update_self, List.nil_append]
    exact hsegment.2.congr (fun _ _ => rfl)
  · simp only [Function.update_of_ne heq]
    exact (hinv.linked other).congr (fun _ _ => rfl)

theorem ChainInvariant.unlink_after
    {hash : Key → ℕ} {map : FixedSizedChainingHashMap initBuckets Key Value}
    {chain : Fin initBuckets → List (NodePtr initBuckets)}
    (hinv : ChainInvariant hash map chain)
    {bucket : Fin initBuckets} {prev node : NodePtr initBuckets}
    {front back : List (NodePtr initBuckets)}
    (hsplit : chain bucket = (front ++ [prev]) ++ node :: back) :
    ChainInvariant hash
      { map with
        nodesPool_ := Function.update map.nodesPool_ prev
          { map.nodesPool_ prev with next := (map.nodesPool_ node).next }
        freeNodes_ := node :: map.freeNodes_ }
      (Function.update chain bucket ((front ++ [prev]) ++ back)) := by
  apply hinv.unlink hsplit rfl
  · intro ptr
    by_cases heq : ptr = prev
    · subst ptr
      simp
    · simp [Function.update, heq]
  · intro other
    rw [nextOf_update]
    have hnodup := (hinv.linked bucket).nodup
    rw [hsplit] at hnodup
    have hprev : prev ∈ chain bucket := by simp [hsplit]
    by_cases heq : other = bucket
    · subst other
      have hsegment := hinv.linked bucket
      rw [hsplit, segment_append] at hsegment
      obtain ⟨middle, hbefore, -, hafter⟩ := hsegment
      rw [Function.update_self, segment_append]
      have hfront : prev ∉ front := by
        intro hmem
        exact (List.nodup_append.mp (List.nodup_append.mp hnodup).1).2.2
          prev hmem prev (by simp) rfl
      have hback : prev ∉ back := by
        intro hmem
        exact (List.nodup_append.mp hnodup).2.2 prev (by simp) prev
          (List.mem_cons_of_mem _ hmem) rfl
      exact ⟨_, hbefore.redirect_last hfront _, hafter.frame hback _⟩
    · rw [Function.update_of_ne heq]
      apply (hinv.linked other).frame
      intro hmem
      exact heq (hinv.bucket_unique hmem hprev)

/-! ## A node joins or leaves a bucket -/

section Nodes

/-- The map after `new_node` has left the free stack for the end of a bucket:
behind `previous`, or at the head when there is no node before it. -/
def linkNode (map : FixedSizedChainingHashMap initBuckets Key Value)
    (bucket : Fin initBuckets) (previous : Option (NodePtr initBuckets))
    (new_node : NodePtr initBuckets) (rest : List (NodePtr initBuckets))
    (key : Key) (value : Value) :
    FixedSizedChainingHashMap initBuckets Key Value :=
  let pool := Function.update map.nodesPool_ new_node ⟨key, value, none⟩
  match previous with
  | none =>
      { buckets_ := Function.update map.buckets_ bucket (some new_node)
        nodesPool_ := pool
        freeNodes_ := rest }
  | some last =>
      { buckets_ := map.buckets_
        nodesPool_ := Function.update pool last
          { pool last with next := some new_node }
        freeNodes_ := rest }

omit [NeZero initBuckets] in
@[simp] theorem linkNode_freeNodes_
    (map : FixedSizedChainingHashMap initBuckets Key Value)
    (bucket : Fin initBuckets) (previous : Option (NodePtr initBuckets))
    (new_node : NodePtr initBuckets) (rest : List (NodePtr initBuckets))
    (key : Key) (value : Value) :
    (map.linkNode bucket previous new_node rest key value).freeNodes_ =
      rest := by
  cases previous <;> rfl

variable {hash : Key → ℕ}
  {map : FixedSizedChainingHashMap initBuckets Key Value}
  {chain : Fin initBuckets → List (NodePtr initBuckets)}
  {key : Key} {value : Value} {new_node : NodePtr initBuckets}
  {rest : List (NodePtr initBuckets)}

theorem ChainInvariant.linkNode (hinv : ChainInvariant hash map chain)
    (key : Key) (value : Value) (hfree : map.freeNodes_ = new_node :: rest) :
    ChainInvariant hash
      (map.linkNode (bucketIndex hash key)
        (chain (bucketIndex hash key)).getLast? new_node rest key value)
      (Function.update chain (bucketIndex hash key)
        (chain (bucketIndex hash key) ++ [new_node])) := by
  rcases List.eq_nil_or_concat (chain (bucketIndex hash key)) with
    hempty | ⟨front, last, hlast⟩
  · have hprevious : (chain (bucketIndex hash key)).getLast? = none := by
      simp [hempty]
    rw [hprevious]
    exact hinv.append_head value hfree hempty
  · rw [List.concat_eq_append] at hlast
    have hprevious : (chain (bucketIndex hash key)).getLast? = some last := by
      simp [hlast]
    rw [hprevious]
    exact hinv.append_last value hfree hlast rfl

/-- A free node is not the last one of a bucket. -/
theorem ChainInvariant.getLast?_ne_free (hinv : ChainInvariant hash map chain)
    (bucket : Fin initBuckets) (hfree : map.freeNodes_ = new_node :: rest) :
    (chain bucket).getLast? ≠ some new_node := by
  intro hlast
  have hmem := List.mem_of_getLast? hlast
  exact hinv.freeDisjoint bucket new_node hmem (by simp [hfree])

omit [NeZero initBuckets] in
/-- The new node holds the new pair and no other pair changes. -/
theorem linkNode_pair (bucket : Fin initBuckets)
    {previous : Option (NodePtr initBuckets)}
    (hprevious : previous ≠ some new_node)
    (rest : List (NodePtr initBuckets)) (key : Key) (value : Value)
    (ptr : NodePtr initBuckets) :
    let linked := map.linkNode bucket previous new_node rest key value
    (linked.nodesPool_ ptr).key =
        (if ptr = new_node then key else (map.nodesPool_ ptr).key) ∧
      (linked.nodesPool_ ptr).value =
        if ptr = new_node then value else (map.nodesPool_ ptr).value := by
  cases previous with
  | none =>
      simp only [FixedSizedChainingHashMap.linkNode, Function.update_apply]
      split_ifs <;> exact ⟨rfl, rfl⟩
  | some last =>
      have hne : last ≠ new_node := fun heq => hprevious (heq ▸ rfl)
      simp only [FixedSizedChainingHashMap.linkNode, Function.update_apply]
      by_cases hlast : ptr = last
      · subst ptr
        simp [hne]
      · by_cases hnew : ptr = new_node
        · subst ptr
          simp [hne.symm]
        · simp [hlast, hnew]

/-- The map after `node` has left its bucket for the free stack; `previous` is
the node before it. -/
def unlinkNode (map : FixedSizedChainingHashMap initBuckets Key Value)
    (bucket : Fin initBuckets) (previous : Option (NodePtr initBuckets))
    (node : NodePtr initBuckets) :
    FixedSizedChainingHashMap initBuckets Key Value :=
  match previous with
  | none =>
      { map with
        buckets_ := Function.update map.buckets_ bucket
          (map.nodesPool_ node).next
        freeNodes_ := node :: map.freeNodes_ }
  | some prev =>
      { map with
        nodesPool_ := Function.update map.nodesPool_ prev
          { map.nodesPool_ prev with next := (map.nodesPool_ node).next }
        freeNodes_ := node :: map.freeNodes_ }

omit [NeZero initBuckets] in
@[simp] theorem unlinkNode_freeNodes_ (bucket : Fin initBuckets)
    (previous : Option (NodePtr initBuckets)) (node : NodePtr initBuckets) :
    (map.unlinkNode bucket previous node).freeNodes_ =
      node :: map.freeNodes_ := by
  cases previous <;> rfl

omit [NeZero initBuckets] in
theorem unlinkNode_pair (bucket : Fin initBuckets)
    (previous : Option (NodePtr initBuckets)) (node ptr : NodePtr initBuckets) :
    ((map.unlinkNode bucket previous node).nodesPool_ ptr).key =
        (map.nodesPool_ ptr).key ∧
      ((map.unlinkNode bucket previous node).nodesPool_ ptr).value =
        (map.nodesPool_ ptr).value := by
  cases previous with
  | none => exact ⟨rfl, rfl⟩
  | some prev =>
      by_cases heq : ptr = prev
      · subst ptr
        simp [unlinkNode]
      · simp [unlinkNode, Function.update, heq]

theorem ChainInvariant.unlinkNode (hinv : ChainInvariant hash map chain)
    {bucket : Fin initBuckets} {node : NodePtr initBuckets}
    {front back : List (NodePtr initBuckets)}
    (hsplit : chain bucket = front ++ node :: back) :
    ChainInvariant hash (map.unlinkNode bucket front.getLast? node)
      (Function.update chain bucket (front ++ back)) := by
  rcases List.eq_nil_or_concat front with hempty | ⟨before, prev, hprev⟩
  · subst front
    exact hinv.unlink_head hsplit
  · rw [List.concat_eq_append] at hprev
    subst front
    have hprevious : (before ++ [prev]).getLast? = some prev := by simp
    rw [hprevious]
    exact hinv.unlink_after hsplit

omit [NeZero initBuckets] in
theorem store_pair (map : FixedSizedChainingHashMap initBuckets Key Value)
    (node : NodePtr initBuckets) (value : Value) (ptr : NodePtr initBuckets) :
    ((map.store node value).nodesPool_ ptr).key = (map.nodesPool_ ptr).key ∧
      ((map.store node value).nodesPool_ ptr).value =
        if ptr = node then value else (map.nodesPool_ ptr).value := by
  by_cases heq : ptr = node
  · subst ptr
    simp [FixedSizedChainingHashMap.store]
  · simp [FixedSizedChainingHashMap.store, Function.update, heq]

theorem ChainInvariant.store (hinv : ChainInvariant hash map chain)
    (node : NodePtr initBuckets) (value : Value) :
    ChainInvariant hash (map.store node value) chain where
  linked := by
    intro bucket
    apply (hinv.linked bucket).congr
    intro ptr _
    by_cases heq : ptr = node
    · subst ptr
      simp [FixedSizedChainingHashMap.store, nextOf]
    · simp [FixedSizedChainingHashMap.store, nextOf, Function.update, heq]
  placed := by
    intro bucket ptr hptr
    rw [(map.store_pair node value ptr).1]
    exact hinv.placed bucket ptr hptr
  freeNodup := hinv.freeNodup
  freeDisjoint := hinv.freeDisjoint
  covered := hinv.covered

end Nodes

/-! ## Evaluation of the operations that change a bucket -/

section Operations

variable [DecidableEq Key] [Inhabited Value] {hash : Key → ℕ}
  {map : FixedSizedChainingHashMap initBuckets Key Value}
  {chain : Fin initBuckets → List (NodePtr initBuckets)}
  {key : Key} {new_node : NodePtr initBuckets}
  {rest : List (NodePtr initBuckets)}

omit [DecidableEq Key] [Inhabited Value] in
/-- A bucket is null exactly when it has no last node. -/
theorem ChainInvariant.bucket_cases (hinv : ChainInvariant hash map chain)
    (bucket : Fin initBuckets) :
    (map.buckets_ bucket = none ∧ chain bucket = []) ∨
      ∃ head front last, map.buckets_ bucket = some head ∧
        chain bucket = front ++ [last] := by
  have hlinked := hinv.linked bucket
  rcases List.eq_nil_or_concat (chain bucket) with
    hempty | ⟨front, last, hlast⟩
  · rw [hempty] at hlinked
    exact Or.inl ⟨hlinked, hempty⟩
  · rw [List.concat_eq_append] at hlast
    rw [hlast] at hlinked
    refine Or.inr ?_
    cases front with
    | nil => exact ⟨last, [], last, hlinked.1, hlast⟩
    | cons head middle => exact ⟨head, head :: middle, last, hlinked.1, hlast⟩

theorem ChainInvariant.subscript_append (hinv : ChainInvariant hash map chain)
    (hmiss : ∀ ptr ∈ chain (bucketIndex hash key),
      (map.nodesPool_ ptr).key ≠ key)
    (hfree : map.freeNodes_ = new_node :: rest) :
    map.subscript hash key = some (.ok new_node,
      map.linkNode (bucketIndex hash key)
        (chain (bucketIndex hash key)).getLast? new_node rest key default) := by
  have hwalk := hinv.walk_miss hmiss
  rcases hinv.bucket_cases (bucketIndex hash key) with
    ⟨hbucket, hempty⟩ | ⟨head, front, last, hbucket, hlast⟩
  · rw [hempty] at hwalk ⊢
    unfold subscript
    simp only [hwalk, hfree, hbucket, List.getLast?_nil]
    rfl
  · have hprevious : (chain (bucketIndex hash key)).getLast? = some last := by
      simp [hlast]
    rw [hprevious] at hwalk ⊢
    unfold subscript
    simp only [hwalk, hfree, hbucket]
    rfl

omit [Inhabited Value] in
theorem ChainInvariant.erase_unlink (hinv : ChainInvariant hash map chain)
    {front back : List (NodePtr initBuckets)} {node : NodePtr initBuckets}
    (hsplit : chain (bucketIndex hash key) = front ++ node :: back)
    (hfront : ∀ ptr ∈ front, (map.nodesPool_ ptr).key ≠ key)
    (hnode : (map.nodesPool_ node).key = key) :
    map.erase hash key = some (true,
      map.unlinkNode (bucketIndex hash key) front.getLast? node) := by
  have hwalk := hinv.walk_hit hsplit hfront hnode
  unfold erase
  rw [hwalk]
  cases front.getLast? <;> rfl

omit [NeZero initBuckets] [DecidableEq Key] [Inhabited Value] in
/-- The loop of `insert` arrives at the last node of the bucket. -/
theorem lastNode_eq {node last : NodePtr initBuckets}
    {front : List (NodePtr initBuckets)} {steps : ℕ}
    (hsegment : Segment map.nextOf (some node) (front ++ [last]) none)
    (hsteps : front.length < steps) :
    map.lastNode steps node = some last := by
  induction front generalizing node steps with
  | nil =>
      obtain ⟨steps, rfl⟩ : ∃ fewer, steps = fewer + 1 :=
        ⟨steps - 1, by simp only [List.length_nil] at hsteps; omega⟩
      obtain ⟨hnode, hnext⟩ := hsegment
      have hlast : node = last := Option.some.inj hnode
      subst last
      have hnull : (map.nodesPool_ node).next = none := hnext
      simp [lastNode, hnull]
  | cons first middle ih =>
      obtain ⟨steps, rfl⟩ : ∃ fewer, steps = fewer + 1 :=
        ⟨steps - 1, by omega⟩
      obtain ⟨hnode, hrest⟩ := hsegment
      have hfirst : node = first := Option.some.inj hnode
      subst first
      obtain ⟨next, hnext⟩ : ∃ next, map.nextOf node = some next := by
        cases middle with
        | nil => exact ⟨last, hrest.1⟩
        | cons second _ => exact ⟨second, hrest.1⟩
      have hlength : middle.length < steps := by
        simp only [List.length_cons] at hsteps
        omega
      rw [hnext] at hrest
      have hlater := ih hrest hlength
      rw [nextOf] at hnext
      simp only [lastNode, hnext, hlater]

omit [DecidableEq Key] [Inhabited Value] in
theorem ChainInvariant.insert_append (hinv : ChainInvariant hash map chain)
    (key : Key) (value : Value) (hfree : map.freeNodes_ = new_node :: rest) :
    map.insert hash key value = some (.ok (),
      map.linkNode (bucketIndex hash key)
        (chain (bucketIndex hash key)).getLast? new_node rest key value) := by
  rcases hinv.bucket_cases (bucketIndex hash key) with
    ⟨hbucket, hempty⟩ | ⟨head, front, last, hbucket, hlast⟩
  · unfold insert
    simp only [hfree, hbucket, hempty, List.getLast?_nil]
    rfl
  · have hprevious : (chain (bucketIndex hash key)).getLast? = some last := by
      simp [hlast]
    have hfront : front.length < loopSteps initBuckets := by
      have hlength := hinv.chain_length_lt (bucketIndex hash key)
      rw [hlast, List.length_append] at hlength
      omega
    have hnew : new_node ∉ chain (bucketIndex hash key) := fun hmem =>
      hinv.freeDisjoint _ new_node hmem (by simp [hfree])
    -- The node is filled before the loop looks for the end of the bucket.
    have hfilled := nextOf_update map new_node ⟨key, value, none⟩
      map.buckets_ rest
    have hsegment := (hinv.linked (bucketIndex hash key)).frame hnew none
    rw [← hfilled, hbucket, hlast] at hsegment
    have hloop := lastNode_eq hsegment hfront
    rw [hprevious]
    unfold insert
    simp only [hfree, hbucket, hloop]
    rfl

theorem subscript_error
    {map' : FixedSizedChainingHashMap initBuckets Key Value} {message : String}
    (heval : map.subscript hash key = some (.error message, map')) :
    map' = map := by
  unfold subscript at heval
  split at heval
  · cases heval
  · cases heval
  · split at heval
    · cases heval
      rfl
    · split at heval <;> cases heval

omit [DecidableEq Key] [Inhabited Value] in
theorem insert_error {value : Value}
    {map' : FixedSizedChainingHashMap initBuckets Key Value} {message : String}
    (heval : map.insert hash key value = some (.error message, map')) :
    map' = map := by
  unfold insert at heval
  split at heval
  · cases heval
    rfl
  · dsimp only at heval
    split at heval
    · cases heval
    · split at heval <;> cases heval

/-- A call that throws leaves every field of the map as it was. -/
theorem call_threw (map : FixedSizedChainingHashMap initBuckets Key Value)
    {c : Call Key Value} {message : String}
    (hthrew : (map.call hash c).2 = .threw message) :
    (map.call hash c).1 = map := by
  cases c with
  | insert key value =>
      simp only [call] at hthrew ⊢
      cases heval : map.insert hash key value with
      | none =>
          rw [heval] at hthrew
      | some answer =>
          obtain ⟨result, map'⟩ := answer
          cases result with
          | ok _ =>
              rw [heval] at hthrew
              cases hthrew
          | error _ => exact insert_error heval
  | subscript key =>
      simp only [call] at hthrew ⊢
      cases heval : map.subscript hash key with
      | none =>
          rw [heval] at hthrew
      | some answer =>
          obtain ⟨result, map'⟩ := answer
          cases result with
          | ok _ =>
              rw [heval] at hthrew
              cases hthrew
          | error _ => exact subscript_error heval
  | assign key value =>
      simp only [call] at hthrew ⊢
      cases heval : map.subscript hash key with
      | none =>
          rw [heval] at hthrew
      | some answer =>
          obtain ⟨result, map'⟩ := answer
          cases result with
          | ok _ =>
              rw [heval] at hthrew
              cases hthrew
          | error _ => exact subscript_error heval
  | contains key =>
      simp only [call] at hthrew
      split at hthrew <;> cases hthrew
  | erase key =>
      simp only [call] at hthrew
      split at hthrew <;> cases hthrew
  | find key =>
      simp only [call] at hthrew
      split at hthrew <;> cases hthrew

variable (hash) in
/-- The key is not in its bucket, and no free node is left for it. -/
def Refuses (map : FixedSizedChainingHashMap initBuckets Key Value)
    (key : Key) : Prop :=
  map.contains hash key = some false ∧ map.freeNodes_ = []

theorem subscript_refused {key : Key} (hrefuses : map.Refuses hash key) :
    map.subscript hash key =
      some (.error "No free nodes available in the pool", map) := by
  obtain ⟨habsent, hfree⟩ := hrefuses
  unfold contains at habsent
  unfold subscript
  rcases hwalk : map.walk hash key with _ | ⟨_ | node, previous⟩
  · rw [hwalk] at habsent
    cases habsent
  · simp only [hfree]
  · rw [hwalk] at habsent
    cases habsent

/-- `operator[]` throws only when it finds neither the key nor a free node. -/
theorem refuses_of_subscript_error {key : Key} {message : String}
    {map' : FixedSizedChainingHashMap initBuckets Key Value}
    (heval : map.subscript hash key = some (.error message, map')) :
    map.Refuses hash key := by
  unfold subscript at heval
  rcases hwalk : map.walk hash key with _ | ⟨_ | node, previous⟩
  · rw [hwalk] at heval
    cases heval
  · rw [hwalk] at heval
    dsimp only at heval
    split at heval
    · rename_i hfree
      refine ⟨?_, hfree⟩
      unfold contains
      rw [hwalk]
      rfl
    · split at heval <;> cases heval
  · rw [hwalk] at heval
    cases heval

theorem assign_threw_iff {key : Key} {value : Value} :
    (∃ message, (map.call hash (.assign key value)).2 = .threw message) ↔
      map.Refuses hash key := by
  constructor
  · rintro ⟨message, hthrew⟩
    simp only [call] at hthrew
    rcases heval : map.subscript hash key with _ | ⟨_ | ptr, map'⟩
    · rw [heval] at hthrew
      cases hthrew
    · exact refuses_of_subscript_error heval
    · rw [heval] at hthrew
      cases hthrew
  · intro hrefuses
    refine ⟨"No free nodes available in the pool", ?_⟩
    simp only [call, subscript_refused hrefuses]

end Operations

end FixedSizedChainingHashMap
end HashMap
end TradingStudies
