import TradingStudies.FixedSizedChainingRefinement

/-!
# Repeated keys in the fixed-size chaining map

`insert` appends a node to the bucket without looking for the key, so a key may
be held by several nodes.  Seen from outside, every key has a queue of values:
`insert` adds at the end of it, `erase` takes its first value away, and the
other operations look at the first value.

`KeyQueues` is that view.  It is related to the map under the node-pool
invariant alone, so it covers every word of calls.
-/

namespace TradingStudies
namespace HashMap
namespace FixedSizedChainingHashMap

open LinkedSegment

/-- The values held for each key, oldest first, and the number of free
nodes. -/
structure KeyQueues (Key Value : Type*) where
  queue : Key → List Value
  free : ℕ

namespace KeyQueues

variable {Key Value : Type*} [DecidableEq Key]

def set (queues : KeyQueues Key Value) (key : Key) (values : List Value)
    (free : ℕ) : KeyQueues Key Value where
  queue := Function.update queues.queue key values
  free := free

@[simp] theorem set_queue_self (queues : KeyQueues Key Value) (key : Key)
    (values : List Value) (free : ℕ) :
    (queues.set key values free).queue key = values :=
  Function.update_self _ _ _

theorem set_queue_of_ne (queues : KeyQueues Key Value) {key other : Key}
    (hother : other ≠ key) (values : List Value) (free : ℕ) :
    (queues.set key values free).queue other = queues.queue other :=
  Function.update_of_ne hother _ _

@[simp] theorem set_free (queues : KeyQueues Key Value) (key : Key)
    (values : List Value) (free : ℕ) :
    (queues.set key values free).free = free := rfl

/-- A node is taken for the key, or there is none. -/
def append (queues : KeyQueues Key Value) (key : Key) (value : Value)
    (outcome : Outcome Value) : KeyQueues Key Value × Outcome Value :=
  match queues.free with
  | 0 => (queues, .threw "No free nodes available in the pool")
  | free + 1 =>
      (queues.set key (queues.queue key ++ [value]) free, outcome)

def call [Inhabited Value] (queues : KeyQueues Key Value) :
    Call Key Value → KeyQueues Key Value × Outcome Value
  | .insert key value => queues.append key value .done
  | .subscript key =>
      match queues.queue key with
      | [] => queues.append key default (.value default)
      | value :: _ => (queues, .value value)
  | .assign key value =>
      match queues.queue key with
      | [] => queues.append key value (.value value)
      | _ :: rest =>
          (queues.set key (value :: rest) queues.free, .value value)
  | .contains key => (queues, .flag !(queues.queue key).isEmpty)
  | .erase key =>
      match queues.queue key with
      | [] => (queues, .flag false)
      | _ :: rest =>
          (queues.set key rest (queues.free + 1), .flag true)
  | .find key => (queues, .found (queues.queue key).head?)

/-- Nothing is held. -/
def fresh (Key Value : Type*) (free : ℕ) : KeyQueues Key Value :=
  { queue := fun _ => [], free := free }

theorem append_ne_undefined {queues : KeyQueues Key Value} {key : Key}
    {value : Value} {outcome : Outcome Value} (houtcome : outcome ≠ .undefined) :
    (queues.append key value outcome).2 ≠ .undefined := by
  unfold append
  cases queues.free with
  | zero => simp
  | succ free => exact houtcome

end KeyQueues

variable {initBuckets : ℕ} {Key Value : Type*} [NeZero initBuckets]
variable [DecidableEq Key]

omit [NeZero initBuckets] in
/-- The values that some nodes hold for a key. -/
def valuesOf (map : FixedSizedChainingHashMap initBuckets Key Value)
    (key : Key) (nodes : List (NodePtr initBuckets)) : List Value :=
  (nodes.filter fun ptr => (map.nodesPool_ ptr).key = key).map
    fun ptr => (map.nodesPool_ ptr).value

section Values

variable {map map' : FixedSizedChainingHashMap initBuckets Key Value}
  {key : Key} {nodes front back : List (NodePtr initBuckets)}
  {node : NodePtr initBuckets}

omit [NeZero initBuckets] in
theorem valuesOf_append (map : FixedSizedChainingHashMap initBuckets Key Value)
    (key : Key) (front back : List (NodePtr initBuckets)) :
    map.valuesOf key (front ++ back) =
      map.valuesOf key front ++ map.valuesOf key back := by
  simp [valuesOf]

omit [NeZero initBuckets] in
theorem valuesOf_miss (hmiss : ∀ ptr ∈ nodes, (map.nodesPool_ ptr).key ≠ key) :
    map.valuesOf key nodes = [] := by
  simpa [valuesOf] using hmiss

omit [NeZero initBuckets] in
theorem valuesOf_cons_hit (hnode : (map.nodesPool_ node).key = key) :
    map.valuesOf key (node :: back) =
      (map.nodesPool_ node).value :: map.valuesOf key back := by
  simp [valuesOf, hnode]

omit [NeZero initBuckets] in
theorem valuesOf_hit (hfront : ∀ ptr ∈ front, (map.nodesPool_ ptr).key ≠ key)
    (hnode : (map.nodesPool_ node).key = key) :
    map.valuesOf key (front ++ node :: back) =
      (map.nodesPool_ node).value :: map.valuesOf key back := by
  rw [valuesOf_append, valuesOf_miss hfront, valuesOf_cons_hit hnode,
    List.nil_append]

omit [NeZero initBuckets] in
theorem valuesOf_congr
    (hkeys : ∀ ptr ∈ nodes,
      (map'.nodesPool_ ptr).key = (map.nodesPool_ ptr).key)
    (hvalues : ∀ ptr ∈ nodes, (map.nodesPool_ ptr).key = key →
      (map'.nodesPool_ ptr).value = (map.nodesPool_ ptr).value) :
    map'.valuesOf key nodes = map.valuesOf key nodes := by
  induction nodes with
  | nil => rfl
  | cons node rest ih =>
      have hrest := ih
        (fun ptr hptr => hkeys ptr (List.mem_cons_of_mem _ hptr))
        (fun ptr hptr => hvalues ptr (List.mem_cons_of_mem _ hptr))
      have hsame := hkeys node List.mem_cons_self
      by_cases hnode : (map.nodesPool_ node).key = key
      · rw [valuesOf_cons_hit hnode, valuesOf_cons_hit (hsame.trans hnode),
          hvalues node List.mem_cons_self hnode, hrest]
      · have hnode' : (map'.nodesPool_ node).key ≠ key := by rwa [hsame]
        simpa [valuesOf, hnode, hnode'] using hrest

end Values

/-- The chains hold the queues. -/
structure Holds (hash : Key → ℕ)
    (map : FixedSizedChainingHashMap initBuckets Key Value)
    (chain : Fin initBuckets → List (NodePtr initBuckets))
    (queues : KeyQueues Key Value) : Prop
    extends ChainInvariant hash map chain where
  held : ∀ key,
    queues.queue key = map.valuesOf key (chain (bucketIndex hash key))
  free : queues.free = map.freeNodes_.length

theorem empty_holds [Inhabited Key] [Inhabited Value] (hash : Key → ℕ) :
    Holds hash (empty initBuckets Key Value) (fun _ => [])
      (KeyQueues.fresh Key Value (initBuckets * 16)) where
  toChainInvariant := empty_chainInvariant hash
  held := fun _ => rfl
  free := by simp [empty, KeyQueues.fresh]

section Content

variable {hash : Key → ℕ}
  {map : FixedSizedChainingHashMap initBuckets Key Value}
  {chain : Fin initBuckets → List (NodePtr initBuckets)}
  {queues : KeyQueues Key Value} {key : Key} {value : Value}
  {node new_node : NodePtr initBuckets}

/-- A node taken from the free stack extends the queue of its key. -/
theorem Holds.linkNode (hholds : Holds hash map chain queues)
    (key : Key) (value : Value) {rest : List (NodePtr initBuckets)}
    (hfree : map.freeNodes_ = new_node :: rest) :
    Holds hash
      (map.linkNode (bucketIndex hash key)
        (chain (bucketIndex hash key)).getLast? new_node rest key value)
      (Function.update chain (bucketIndex hash key)
        (chain (bucketIndex hash key) ++ [new_node]))
      (queues.set key (queues.queue key ++ [value]) rest.length) := by
  have hpair := map.linkNode_pair (bucketIndex hash key)
    (hholds.getLast?_ne_free (bucketIndex hash key) hfree) rest key value
  have hold : ∀ bucket other,
      (map.linkNode (bucketIndex hash key)
        (chain (bucketIndex hash key)).getLast? new_node rest key
        value).valuesOf other (chain bucket) =
      map.valuesOf other (chain bucket) := by
    intro bucket other
    have hne : ∀ ptr ∈ chain bucket, ptr ≠ new_node := by
      rintro ptr hptr rfl
      exact hholds.freeDisjoint bucket ptr hptr (by simp [hfree])
    apply valuesOf_congr
    · intro ptr hptr
      simpa [hne ptr hptr] using (hpair ptr).1
    · intro ptr hptr _
      simpa [hne ptr hptr] using (hpair ptr).2
  obtain ⟨hnewKey, hnewValue⟩ := hpair new_node
  rw [if_pos rfl] at hnewKey hnewValue
  refine { toChainInvariant := hholds.toChainInvariant.linkNode key value hfree,
           held := ?_, free := by rw [linkNode_freeNodes_]; rfl }
  intro other
  by_cases hkey : other = key
  · subst other
    rw [KeyQueues.set_queue_self, Function.update_self, valuesOf_append, hold,
      valuesOf_cons_hit hnewKey, hnewValue, hholds.held]
    rfl
  · rw [queues.set_queue_of_ne hkey, hholds.held other]
    by_cases hbucket : (bucketIndex hash other : Fin initBuckets) =
          bucketIndex hash key
    · have hnew : ∀ ptr ∈ [new_node], ((map.linkNode (bucketIndex hash key)
          (chain (bucketIndex hash key)).getLast? new_node rest key
          value).nodesPool_ ptr).key ≠ other := by
        intro ptr hptr
        rw [List.mem_singleton.mp hptr, hnewKey]
        exact fun heq => hkey heq.symm
      rw [hbucket, Function.update_self, valuesOf_append, hold,
        valuesOf_miss hnew, List.append_nil]
    · rw [Function.update_of_ne hbucket, hold]

/-- The first node of a key leaves with the first value of the queue. -/
theorem Holds.unlinkNode (hholds : Holds hash map chain queues)
    {front back : List (NodePtr initBuckets)}
    (hsplit : chain (bucketIndex hash key) = front ++ node :: back)
    (hfront : ∀ ptr ∈ front, (map.nodesPool_ ptr).key ≠ key)
    (hnode : (map.nodesPool_ node).key = key) :
    queues.queue key =
        (map.nodesPool_ node).value :: map.valuesOf key back ∧
      Holds hash
        (map.unlinkNode (bucketIndex hash key) front.getLast? node)
        (Function.update chain (bucketIndex hash key) (front ++ back))
        (queues.set key (map.valuesOf key back) (queues.free + 1)) := by
  have hqueue := hholds.held key
  rw [hsplit, valuesOf_hit hfront hnode] at hqueue
  have hsame : ∀ other (nodes : List (NodePtr initBuckets)),
      (map.unlinkNode (bucketIndex hash key) front.getLast? node).valuesOf
        other nodes = map.valuesOf other nodes := fun other nodes =>
    valuesOf_congr (fun ptr _ => (map.unlinkNode_pair _ _ node ptr).1)
      (fun ptr _ _ => (map.unlinkNode_pair _ _ node ptr).2)
  refine ⟨hqueue, hholds.toChainInvariant.unlinkNode hsplit, ?_, ?_⟩
  · intro other
    by_cases hkey : other = key
    · subst other
      rw [KeyQueues.set_queue_self, Function.update_self, hsame,
        valuesOf_append, valuesOf_miss hfront, List.nil_append]
    · rw [queues.set_queue_of_ne hkey, hholds.held other, hsame]
      by_cases hbucket : (bucketIndex hash other : Fin initBuckets) =
          bucketIndex hash key
      · have hother : ∀ ptr ∈ [node], (map.nodesPool_ ptr).key ≠ other := by
          intro ptr hptr
          rw [List.mem_singleton.mp hptr, hnode]
          exact fun heq => hkey heq.symm
        have hskip : map.valuesOf other (node :: back) =
            map.valuesOf other back := by
          rw [← List.singleton_append, valuesOf_append, valuesOf_miss hother,
            List.nil_append]
        rw [hbucket, Function.update_self, hsplit, valuesOf_append, hskip,
          valuesOf_append]
      · rw [Function.update_of_ne hbucket]
  · rw [unlinkNode_freeNodes_, KeyQueues.set_free, hholds.free,
      List.length_cons]

/-- A write to the first node of a key replaces the first value. -/
theorem Holds.store (hholds : Holds hash map chain queues)
    {front back : List (NodePtr initBuckets)}
    (hsplit : chain (bucketIndex hash key) = front ++ node :: back)
    (hfront : ∀ ptr ∈ front, (map.nodesPool_ ptr).key ≠ key)
    (hnode : (map.nodesPool_ node).key = key) (value : Value) :
    Holds hash (map.store node value) chain
      (queues.set key (value :: map.valuesOf key back) queues.free) := by
  refine { toChainInvariant := hholds.toChainInvariant.store node value,
           held := ?_, free := hholds.free }
  have hpair := map.store_pair node value
  have hnodup := (hholds.linked (bucketIndex hash key)).nodup
  rw [hsplit, List.nodup_append, List.nodup_cons] at hnodup
  have hkeep : ∀ other (nodes : List (NodePtr initBuckets)),
      (∀ ptr ∈ nodes, (map.nodesPool_ ptr).key = other → ptr ≠ node) →
      (map.store node value).valuesOf other nodes =
        map.valuesOf other nodes := by
    intro other nodes hne
    apply valuesOf_congr
    · exact fun ptr _ => (hpair ptr).1
    · intro ptr hptr hkey
      simpa [hne ptr hptr hkey] using (hpair ptr).2
  obtain ⟨hkey', hvalue'⟩ := hpair node
  rw [if_pos rfl] at hvalue'
  intro other
  by_cases hkey : other = key
  · subst other
    have hfront' : ∀ ptr ∈ front,
        ((map.store node value).nodesPool_ ptr).key ≠ key := by
      intro ptr hptr
      rw [(hpair ptr).1]
      exact hfront ptr hptr
    have hback : ∀ ptr ∈ back, (map.nodesPool_ ptr).key = key →
        ptr ≠ node := by
      rintro ptr hptr - rfl
      exact hnodup.2.1.1 hptr
    rw [KeyQueues.set_queue_self, hsplit,
      valuesOf_hit hfront' (hkey'.trans hnode), hvalue', hkeep key back hback]
  · have hother : ∀ ptr ∈ chain (bucketIndex hash other),
        (map.nodesPool_ ptr).key = other → ptr ≠ node := by
      rintro ptr - hptr rfl
      exact hkey (hptr.symm.trans hnode)
    rw [queues.set_queue_of_ne hkey, hholds.held other, hkeep other _ hother]

/-- A key is held by no node of its bucket, or the bucket splits at the first
node that holds it. -/
theorem Holds.queue_cases (hholds : Holds hash map chain queues) (key : Key) :
    (queues.queue key = [] ∧ ∀ ptr ∈ chain (bucketIndex hash key),
        (map.nodesPool_ ptr).key ≠ key) ∨
      ∃ front node back,
        chain (bucketIndex hash key) = front ++ node :: back ∧
        (∀ ptr ∈ front, (map.nodesPool_ ptr).key ≠ key) ∧
        (map.nodesPool_ node).key = key ∧
        queues.queue key =
          (map.nodesPool_ node).value :: map.valuesOf key back := by
  rcases map.chain_split key (chain (bucketIndex hash key)) with
    hmiss | ⟨front, node, back, hsplit, hfront, hnode⟩
  · refine Or.inl ⟨?_, hmiss⟩
    rw [hholds.held, valuesOf_miss hmiss]
  · refine Or.inr ⟨front, node, back, hsplit, hfront, hnode, ?_⟩
    rw [hholds.held, hsplit, valuesOf_hit hfront hnode]

end Content

/-! ## Calls -/

section Calls

variable [Inhabited Value] {hash : Key → ℕ}
  {map : FixedSizedChainingHashMap initBuckets Key Value}
  {chain : Fin initBuckets → List (NodePtr initBuckets)}
  {queues : KeyQueues Key Value}

omit [Inhabited Value] in
/-- `insert` is answered like `append`, and so is `operator[]` for a key that
no node holds. -/
theorem Holds.append_cases (hholds : Holds hash map chain queues) (key : Key)
    (value : Value) (outcome : Outcome Value) :
    (map.freeNodes_ = [] ∧ queues.append key value outcome =
        (queues, .threw "No free nodes available in the pool")) ∨
      ∃ new_node rest, map.freeNodes_ = new_node :: rest ∧
        queues.append key value outcome =
          (queues.set key (queues.queue key ++ [value]) rest.length,
            outcome) := by
  have hfree := hholds.free
  cases hnodes : map.freeNodes_ with
  | nil =>
      rw [hnodes, List.length_nil] at hfree
      refine Or.inl ⟨rfl, ?_⟩
      rw [KeyQueues.append, hfree]
  | cons new_node rest =>
      rw [hnodes, List.length_cons] at hfree
      refine Or.inr ⟨new_node, rest, rfl, ?_⟩
      rw [KeyQueues.append, hfree]

theorem Holds.insert_simulates (hholds : Holds hash map chain queues)
    (key : Key) (value : Value) :
    (map.call hash (.insert key value)).2 =
        (queues.call (.insert key value)).2 ∧
      ∃ chain', Holds hash (map.call hash (.insert key value)).1 chain'
        (queues.call (.insert key value)).1 := by
  rcases hholds.append_cases key value .done with
    ⟨hnodes, happend⟩ | ⟨new_node, rest, hnodes, happend⟩
  · have heval : map.insert hash key value =
        some (.error "No free nodes available in the pool", map) := by
      simp only [FixedSizedChainingHashMap.insert, hnodes]
    simp only [FixedSizedChainingHashMap.call, heval, KeyQueues.call, happend,
      true_and]
    exact ⟨chain, hholds⟩
  · have heval := hholds.insert_append key value hnodes
    simp only [FixedSizedChainingHashMap.call, heval, KeyQueues.call, happend,
      true_and]
    exact ⟨_, hholds.linkNode key value hnodes⟩

/-- The subscript finds the first node of the key, takes a free one, or
throws. -/
theorem Holds.subscript_cases (hholds : Holds hash map chain queues)
    (key : Key) :
    (∃ front node back,
        chain (bucketIndex hash key) = front ++ node :: back ∧
        (∀ ptr ∈ front, (map.nodesPool_ ptr).key ≠ key) ∧
        (map.nodesPool_ node).key = key ∧
        queues.queue key =
          (map.nodesPool_ node).value :: map.valuesOf key back ∧
        map.subscript hash key = some (.ok node, map)) ∨
      (queues.queue key = [] ∧ map.freeNodes_ = [] ∧
        map.subscript hash key =
          some (.error "No free nodes available in the pool", map)) ∨
      ∃ new_node rest, queues.queue key = [] ∧
        map.freeNodes_ = new_node :: rest ∧
        map.subscript hash key = some (.ok new_node,
          map.linkNode (bucketIndex hash key)
            (chain (bucketIndex hash key)).getLast? new_node rest key
            default) := by
  have hinv := hholds.toChainInvariant
  rcases hholds.queue_cases key with
    ⟨hqueue, hmiss⟩ | ⟨front, node, back, hsplit, hfront, hnode, hqueue⟩
  · cases hnodes : map.freeNodes_ with
    | nil =>
        exact Or.inr (Or.inl ⟨hqueue, rfl,
          subscript_of_full hinv hmiss hnodes⟩)
    | cons new_node rest =>
        exact Or.inr (Or.inr ⟨new_node, rest, hqueue, rfl,
          hinv.subscript_append hmiss hnodes⟩)
  · exact Or.inl ⟨front, node, back, hsplit, hfront, hnode, hqueue,
      subscript_of_hit hinv hsplit hfront hnode⟩

omit [NeZero initBuckets] [DecidableEq Key] in
/-- A value written to a node right after it was linked might as well have been
there from the start. -/
theorem linkNode_store {bucket : Fin initBuckets}
    {previous : Option (NodePtr initBuckets)} {new_node : NodePtr initBuckets}
    (hprevious : previous ≠ some new_node) (rest : List (NodePtr initBuckets))
    (key : Key) (value : Value) :
    (map.linkNode bucket previous new_node rest key default).store new_node
        value =
      map.linkNode bucket previous new_node rest key value := by
  cases previous with
  | none => simp [linkNode, store]
  | some last =>
      have hne : new_node ≠ last := fun heq => hprevious (heq ▸ rfl)
      simp only [linkNode, store, Function.update_of_ne hne,
        Function.update_of_ne hne.symm, Function.update_self]
      rw [Function.update_comm hne.symm, Function.update_idem]

/-- One call is answered as by the queues. -/
theorem Holds.call_simulates (hholds : Holds hash map chain queues)
    (c : Call Key Value) :
    (map.call hash c).2 = (queues.call c).2 ∧
      ∃ chain', Holds hash (map.call hash c).1 chain' (queues.call c).1 := by
  have hinv := hholds.toChainInvariant
  cases c with
  | insert key value => exact hholds.insert_simulates key value
  | subscript key =>
      rcases hholds.subscript_cases key with
        ⟨front, node, back, -, -, -, hqueue, heval⟩ |
        ⟨hqueue, hnodes, heval⟩ | ⟨new_node, rest, hqueue, hnodes, heval⟩
      · simp only [FixedSizedChainingHashMap.call, heval, KeyQueues.call,
          hqueue, true_and]
        exact ⟨chain, hholds⟩
      · have hfree : queues.free = 0 := by rw [hholds.free, hnodes]; rfl
        simp only [FixedSizedChainingHashMap.call, heval, KeyQueues.call,
          hqueue, KeyQueues.append, hfree, true_and]
        exact ⟨chain, hholds⟩
      · have hfree : queues.free = rest.length + 1 := by
          rw [hholds.free, hnodes, List.length_cons]
        have hpair := map.linkNode_pair (bucketIndex hash key)
          (hinv.getLast?_ne_free (bucketIndex hash key) hnodes) rest key
          (default : Value) new_node
        have hvalue := hpair.2
        rw [if_pos rfl] at hvalue
        simp only [FixedSizedChainingHashMap.call, heval, KeyQueues.call,
          hqueue, KeyQueues.append, hfree, hvalue, true_and]
        have hlinked := hholds.linkNode key default hnodes
        rw [hqueue] at hlinked
        exact ⟨_, hlinked⟩
  | assign key value =>
      rcases hholds.subscript_cases key with
        ⟨front, node, back, hsplit, hfront, hnode, hqueue, heval⟩ |
        ⟨hqueue, hnodes, heval⟩ | ⟨new_node, rest, hqueue, hnodes, heval⟩
      · simp only [FixedSizedChainingHashMap.call, heval, KeyQueues.call,
          hqueue, true_and]
        exact ⟨chain, hholds.store hsplit hfront hnode value⟩
      · have hfree : queues.free = 0 := by rw [hholds.free, hnodes]; rfl
        simp only [FixedSizedChainingHashMap.call, heval, KeyQueues.call,
          hqueue, KeyQueues.append, hfree, true_and]
        exact ⟨chain, hholds⟩
      · have hfree : queues.free = rest.length + 1 := by
          rw [hholds.free, hnodes, List.length_cons]
        simp only [FixedSizedChainingHashMap.call, heval, KeyQueues.call,
          hqueue, KeyQueues.append, hfree, true_and]
        rw [linkNode_store
          (hinv.getLast?_ne_free (bucketIndex hash key) hnodes)]
        have hlinked := hholds.linkNode key value hnodes
        rw [hqueue] at hlinked
        exact ⟨_, hlinked⟩
  | contains key =>
      rcases hholds.queue_cases key with
        ⟨hqueue, hmiss⟩ | ⟨front, node, back, hsplit, hfront, hnode, hqueue⟩
      · have hwalk := hinv.walk_miss hmiss
        simp only [FixedSizedChainingHashMap.call, contains, hwalk,
          Option.map_some, Option.isSome_none, KeyQueues.call, hqueue,
          List.isEmpty_nil, Bool.not_true, true_and]
        exact ⟨chain, hholds⟩
      · have hwalk := hinv.walk_hit hsplit hfront hnode
        simp only [FixedSizedChainingHashMap.call, contains, hwalk,
          Option.map_some, Option.isSome_some, KeyQueues.call, hqueue,
          List.isEmpty_cons, Bool.not_false, true_and]
        exact ⟨chain, hholds⟩
  | erase key =>
      rcases hholds.queue_cases key with
        ⟨hqueue, hmiss⟩ | ⟨front, node, back, hsplit, hfront, hnode, hqueue⟩
      · have heval := erase_of_miss hinv hmiss
        simp only [FixedSizedChainingHashMap.call, heval, KeyQueues.call,
          hqueue, true_and]
        exact ⟨chain, hholds⟩
      · have heval := hinv.erase_unlink hsplit hfront hnode
        simp only [FixedSizedChainingHashMap.call, heval, KeyQueues.call,
          hqueue, true_and]
        exact ⟨_, (hholds.unlinkNode hsplit hfront hnode).2⟩
  | find key =>
      rcases hholds.queue_cases key with
        ⟨hqueue, hmiss⟩ | ⟨front, node, back, hsplit, hfront, hnode, hqueue⟩
      · have hwalk := hinv.walk_miss hmiss
        simp only [FixedSizedChainingHashMap.call, find, hwalk,
          Option.map_some, KeyQueues.call, hqueue, List.head?_nil, true_and]
        exact ⟨chain, hholds⟩
      · have hwalk := hinv.walk_hit hsplit hfront hnode
        simp only [FixedSizedChainingHashMap.call, find, hwalk,
          Option.map_some, KeyQueues.call, hqueue, List.head?_cons, true_and]
        exact ⟨chain, hholds⟩

end Calls

/-! ## Whole runs -/

/-- The nodes of the pool are laid out as the map needs them: `chain bucket`
are the nodes met by following `next` from the bucket. -/
structure NodePoolKept (hash : Key → ℕ)
    (map : FixedSizedChainingHashMap initBuckets Key Value)
    (chain : Fin initBuckets → List (NodePtr initBuckets)) : Prop where
  finite : ∀ bucket,
    Segment map.nextOf (map.buckets_ bucket) (chain bucket) none
  acyclic : ∀ bucket, (chain bucket).Nodup
  disjoint : ∀ bucket bucket', bucket ≠ bucket' →
    (chain bucket).Disjoint (chain bucket')
  placed : ∀ bucket, ∀ ptr ∈ chain bucket,
    bucketIndex hash (map.nodesPool_ ptr).key = bucket
  onePlace : ∀ ptr,
    (map.freeNodes_.count ptr = 1 ∧ ∀ bucket, ptr ∉ chain bucket) ∨
      (ptr ∉ map.freeNodes_ ∧ ∃! bucket, ptr ∈ chain bucket)

omit [DecidableEq Key] in
theorem ChainInvariant.nodePoolKept {hash : Key → ℕ}
    {map : FixedSizedChainingHashMap initBuckets Key Value}
    {chain : Fin initBuckets → List (NodePtr initBuckets)}
    (hinv : ChainInvariant hash map chain) : NodePoolKept hash map chain where
  finite := hinv.linked
  acyclic := fun bucket => (hinv.linked bucket).nodup
  disjoint := by
    intro bucket bucket' hne ptr hptr hptr'
    exact hne (hinv.bucket_unique hptr hptr')
  placed := hinv.placed
  onePlace := by
    intro ptr
    rcases hinv.covered ptr with hfree | ⟨bucket, hptr⟩
    · refine Or.inl ⟨List.count_eq_one_of_mem hinv.freeNodup hfree, ?_⟩
      exact fun bucket hptr => hinv.freeDisjoint bucket ptr hptr hfree
    · refine Or.inr ⟨hinv.freeDisjoint bucket ptr hptr, bucket, hptr, ?_⟩
      exact fun other hother => hinv.bucket_unique hother hptr

section Runs

variable [Inhabited Key] [Inhabited Value]

variable (initBuckets) in
theorem run_holds (hash : Key → ℕ) (calls : List (Call Key Value)) :
    CallSystem.results (call hash) (empty initBuckets Key Value) calls =
        CallSystem.results KeyQueues.call
          (KeyQueues.fresh Key Value (initBuckets * 16)) calls ∧
      ∃ chain, Holds hash
        (CallSystem.stateAfter (call hash) (empty initBuckets Key Value) calls)
        chain
        (CallSystem.stateAfter KeyQueues.call
          (KeyQueues.fresh Key Value (initBuckets * 16)) calls) := by
  apply CallSystem.simulation (fun _ _ => True)
    (fun map queues => ∃ chain, Holds hash map chain queues)
    ?_ ⟨_, empty_holds hash⟩
  · exact CallSystem.allAllowed_of_forall fun _ _ => trivial
  · rintro map queues c ⟨chain, hholds⟩ -
    exact hholds.call_simulates c

omit [Inhabited Key] in
theorem KeyQueues.call_ne_undefined (queues : KeyQueues Key Value)
    (c : Call Key Value) : (queues.call c).2 ≠ .undefined := by
  cases c with
  | insert key value =>
      exact KeyQueues.append_ne_undefined (by simp)
  | subscript key =>
      simp only [KeyQueues.call]
      cases queues.queue key with
      | nil => exact KeyQueues.append_ne_undefined (by simp)
      | cons value rest => simp
  | assign key value =>
      simp only [KeyQueues.call]
      cases queues.queue key with
      | nil => exact KeyQueues.append_ne_undefined (by simp)
      | cons old rest => simp
  | contains key => simp [KeyQueues.call]
  | erase key =>
      simp only [KeyQueues.call]
      cases queues.queue key <;> simp
  | find key => simp [KeyQueues.call]

/-- After any word of calls every node of the pool is in exactly one place, no
call fails to return, and a call that throws changes nothing. -/
theorem fixedSizedChaining_keeps_nodePool
    (hash : Key → ℕ) (exponent : ℕ) (calls : List (Call Key Value)) :
    ∃ map, construct (2 ^ exponent) Key Value = .ok map ∧
      let last := CallSystem.stateAfter (call hash) map calls
      (∃ chain, NodePoolKept hash last chain) ∧
        ∀ c, (last.call hash c).2 ≠ .undefined ∧
          ∀ message, (last.call hash c).2 = .threw message →
            (last.call hash c).1 = last := by
  refine ⟨_, construct_pow_two exponent, ?_⟩
  obtain ⟨-, chain, hholds⟩ := run_holds (2 ^ exponent) hash calls
  refine ⟨⟨chain, hholds.toChainInvariant.nodePoolKept⟩, ?_⟩
  intro c
  constructor
  · rw [(hholds.call_simulates c).1]
    exact KeyQueues.call_ne_undefined _ c
  · intro message hthrew
    exact call_threw _ hthrew

end Runs

end FixedSizedChainingHashMap
end HashMap
end TradingStudies
