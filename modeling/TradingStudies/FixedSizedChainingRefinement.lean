import TradingStudies.FixedSizedChainingInvariant
import TradingStudies.Library.StepSystem

/-!
# The fixed-size chaining map is a finite map

The order book keeps its id index in a `FixedSizedChainingHashMap` and only
uses the subscript, `contains` and `erase`.  As long as a client stays within
these operations and `find`, no key is ever held by two nodes, and the map
stands for a partial map with room for `16 * initBuckets` keys.
-/

namespace TradingStudies
namespace HashMap
namespace FixedSizedChainingHashMap

open LinkedSegment

variable {initBuckets : ℕ} {Key Value : Type*} [NeZero initBuckets]
variable [DecidableEq Key]

/-- The chains hold each key of `content` once, with its value, and nothing
else. -/
structure Represents (hash : Key → ℕ)
    (map : FixedSizedChainingHashMap initBuckets Key Value)
    (chain : Fin initBuckets → List (NodePtr initBuckets))
    (content : PartialMap Key Value) : Prop
    extends ChainInvariant hash map chain where
  keyInjective : ∀ bucket, ∀ ptr ∈ chain bucket, ∀ ptr' ∈ chain bucket,
    (map.nodesPool_ ptr).key = (map.nodesPool_ ptr').key → ptr = ptr'
  lookup_iff : ∀ key value, content.lookup key = some value ↔
    ∃ ptr ∈ chain (bucketIndex hash key),
      (map.nodesPool_ ptr).key = key ∧ (map.nodesPool_ ptr).value = value
  count : content.keys.card + map.freeNodes_.length = initBuckets * 16

theorem empty_represents [Inhabited Key] [Inhabited Value] (hash : Key → ℕ) :
    Represents hash (empty initBuckets Key Value) (fun _ => []) ∅ where
  toChainInvariant := empty_chainInvariant hash
  keyInjective := fun _ _ hptr => absurd hptr List.not_mem_nil
  lookup_iff := by simp
  count := by simp [empty]

section Content

variable {hash : Key → ℕ}
  {map map' : FixedSizedChainingHashMap initBuckets Key Value}
  {chain : Fin initBuckets → List (NodePtr initBuckets)}
  {content : PartialMap Key Value} {key : Key} {value : Value}
  {ptr new_node : NodePtr initBuckets}

theorem Represents.lookup_hit (hrep : Represents hash map chain content)
    (hptr : ptr ∈ chain (bucketIndex hash key))
    (hkey : (map.nodesPool_ ptr).key = key) :
    content.lookup key = some (map.nodesPool_ ptr).value :=
  (hrep.lookup_iff key _).mpr ⟨ptr, hptr, hkey, rfl⟩

theorem Represents.lookup_miss (hrep : Represents hash map chain content)
    (hmiss : ∀ ptr ∈ chain (bucketIndex hash key),
      (map.nodesPool_ ptr).key ≠ key) :
    content.lookup key = none := by
  cases hlookup : content.lookup key with
  | none => rfl
  | some value =>
      rcases (hrep.lookup_iff key value).mp hlookup with ⟨ptr, hptr, hkey, -⟩
      exact absurd hkey (hmiss ptr hptr)

/-- A new key at the end of its bucket. -/
theorem Represents.extend (hrep : Represents hash map chain content)
    (hmiss : ∀ ptr ∈ chain (bucketIndex hash key),
      (map.nodesPool_ ptr).key ≠ key)
    (hfree : map.freeNodes_ = new_node :: map'.freeNodes_)
    (hold : ∀ ptr ≠ new_node,
      (map'.nodesPool_ ptr).key = (map.nodesPool_ ptr).key ∧
        (map'.nodesPool_ ptr).value = (map.nodesPool_ ptr).value)
    (hnewKey : (map'.nodesPool_ new_node).key = key)
    (hnewValue : (map'.nodesPool_ new_node).value = value)
    (hinv : ChainInvariant hash map'
      (Function.update chain (bucketIndex hash key)
        (chain (bucketIndex hash key) ++ [new_node]))) :
    Represents hash map'
      (Function.update chain (bucketIndex hash key)
        (chain (bucketIndex hash key) ++ [new_node]))
      (content.insert key value) := by
  have hfresh : ∀ bucket, ∀ ptr ∈ chain bucket, ptr ≠ new_node := by
    rintro bucket ptr hptr rfl
    exact hrep.freeDisjoint bucket ptr hptr (by simp [hfree])
  have hmem : ∀ bucket ptr,
      ptr ∈ Function.update chain (bucketIndex hash key)
          (chain (bucketIndex hash key) ++ [new_node]) bucket ↔
        ptr ∈ chain bucket ∨
          (bucket = bucketIndex hash key ∧ ptr = new_node) := by
    intro bucket ptr
    by_cases heq : bucket = bucketIndex hash key
    · subst bucket
      simp
    · simp [heq]
  refine { toChainInvariant := hinv, keyInjective := ?_, lookup_iff := ?_,
           count := ?_ }
  · intro bucket p hp q hq hpq
    rw [hmem] at hp hq
    rcases hp with hp | ⟨rfl, rfl⟩ <;> rcases hq with hq | ⟨hbucket, rfl⟩
    · rw [(hold p (hfresh _ p hp)).1, (hold q (hfresh _ q hq)).1] at hpq
      exact hrep.keyInjective bucket p hp q hq hpq
    · rw [(hold p (hfresh _ p hp)).1, hnewKey] at hpq
      subst bucket
      exact absurd hpq (hmiss p hp)
    · rw [(hold q (hfresh _ q hq)).1, hnewKey] at hpq
      exact absurd hpq.symm (hmiss q hq)
    · rfl
  · apply Describes.insert hrep.lookup_iff
    · intro v
      constructor
      · rintro ⟨p, hp, hpkey, hpvalue⟩
        rcases (hmem _ _).mp hp with hp | ⟨-, rfl⟩
        · rw [(hold p (hfresh _ p hp)).1] at hpkey
          exact absurd hpkey (hmiss p hp)
        · rw [← hpvalue, hnewValue]
      · intro hv
        refine ⟨new_node, (hmem _ _).mpr (Or.inr ⟨rfl, rfl⟩), hnewKey, ?_⟩
        rw [hnewValue, hv]
    · intro other hother v
      constructor
      · rintro ⟨p, hp, hpkey, hpvalue⟩
        rcases (hmem _ _).mp hp with hp | ⟨-, rfl⟩
        · have hp' := hold p (hfresh _ p hp)
          exact ⟨p, hp, hp'.1.symm.trans hpkey, hp'.2.symm.trans hpvalue⟩
        · exact absurd (hpkey.symm.trans hnewKey) hother
      · rintro ⟨p, hp, hpkey, hpvalue⟩
        have hp' := hold p (hfresh _ p hp)
        exact ⟨p, (hmem _ _).mpr (Or.inl hp), hp'.1.trans hpkey,
          hp'.2.trans hpvalue⟩
  · have habsent : key ∉ content :=
      Finmap.lookup_eq_none.mp (hrep.lookup_miss hmiss)
    have hcount := hrep.count
    rw [hfree, List.length_cons] at hcount
    rw [keys_card_insert_of_notMem habsent]
    omega

theorem Represents.store (hrep : Represents hash map chain content)
    (hptr : ptr ∈ chain (bucketIndex hash key))
    (hkey : (map.nodesPool_ ptr).key = key) (value : Value) :
    Represents hash (map.store ptr value) chain
      (content.insert key value) := by
  have hkeys := fun p => (map.store_pair ptr value p).1
  have hother : ∀ p ≠ ptr, ((map.store ptr value).nodesPool_ p).value =
      (map.nodesPool_ p).value := by
    intro p hp
    simpa [hp] using (map.store_pair ptr value p).2
  constructor
  · exact hrep.toChainInvariant.store ptr value
  · intro bucket p hp q hq hpq
    rw [hkeys, hkeys] at hpq
    exact hrep.keyInjective bucket p hp q hq hpq
  · simp only [hkeys]
    apply Describes.insert hrep.lookup_iff
    · intro v
      constructor
      · rintro ⟨p, hp, hpkey, hpvalue⟩
        have hpptr : p = ptr :=
          hrep.keyInjective _ p hp ptr hptr (hpkey.trans hkey.symm)
        subst p
        simpa [FixedSizedChainingHashMap.store] using hpvalue
      · intro hv
        refine ⟨ptr, hptr, hkey, ?_⟩
        simpa [FixedSizedChainingHashMap.store] using hv
    · intro other heq v
      have hne : ∀ p, (map.nodesPool_ p).key = other → p ≠ ptr := by
        rintro p hpkey rfl
        exact heq (hpkey.symm.trans hkey)
      constructor
      · rintro ⟨p, hp, hpkey, hpvalue⟩
        exact ⟨p, hp, hpkey, (hother p (hne p hpkey)).symm.trans hpvalue⟩
      · rintro ⟨p, hp, hpkey, hpvalue⟩
        exact ⟨p, hp, hpkey, (hother p (hne p hpkey)).trans hpvalue⟩
  · have hpresent : key ∈ content :=
      Finmap.mem_of_lookup_eq_some (hrep.lookup_hit hptr hkey)
    rw [keys_insert_of_mem hpresent]
    exact hrep.count

theorem Represents.unlink (hrep : Represents hash map chain content)
    {front back : List (NodePtr initBuckets)}
    (hsplit : chain (bucketIndex hash key) = front ++ ptr :: back)
    (hkey : (map.nodesPool_ ptr).key = key)
    (hfree : map'.freeNodes_ = ptr :: map.freeNodes_)
    (hsame : ∀ p, (map'.nodesPool_ p).key = (map.nodesPool_ p).key ∧
      (map'.nodesPool_ p).value = (map.nodesPool_ p).value)
    (hinv : ChainInvariant hash map'
      (Function.update chain (bucketIndex hash key) (front ++ back))) :
    Represents hash map'
      (Function.update chain (bucketIndex hash key) (front ++ back))
      (content.erase key) := by
  have hptr : ptr ∈ chain (bucketIndex hash key) := by simp [hsplit]
  have hnodup := (hrep.linked (bucketIndex hash key)).nodup
  rw [hsplit, List.nodup_middle, List.nodup_cons] at hnodup
  have hmem : ∀ bucket p,
      p ∈ Function.update chain (bucketIndex hash key) (front ++ back)
          bucket ↔
        p ∈ chain bucket ∧ p ≠ ptr := by
    intro bucket p
    by_cases heq : bucket = bucketIndex hash key
    · subst bucket
      rw [Function.update_self, hsplit]
      constructor
      · intro hp
        refine ⟨?_, fun h => hnodup.1 (h ▸ hp)⟩
        simp only [List.mem_append, List.mem_cons] at hp ⊢
        exact hp.imp id Or.inr
      · rintro ⟨hp, hne⟩
        simp only [List.mem_append, List.mem_cons] at hp ⊢
        rcases hp with hp | hp | hp
        · exact Or.inl hp
        · exact absurd hp hne
        · exact Or.inr hp
    · rw [Function.update_of_ne heq]
      constructor
      · intro hp
        refine ⟨hp, ?_⟩
        rintro rfl
        exact heq (hrep.bucket_unique hp hptr)
      · exact And.left
  refine { toChainInvariant := hinv, keyInjective := ?_, lookup_iff := ?_,
           count := ?_ }
  · intro bucket p hp q hq hpq
    rw [(hsame p).1, (hsame q).1] at hpq
    exact hrep.keyInjective bucket p ((hmem _ _).mp hp).1 q
      ((hmem _ _).mp hq).1 hpq
  · apply Describes.erase hrep.lookup_iff
    · rintro v ⟨p, hp, hpkey, -⟩
      rcases (hmem _ _).mp hp with ⟨hp, hne⟩
      rw [(hsame p).1] at hpkey
      exact absurd
        (hrep.keyInjective _ p hp ptr hptr (hpkey.trans hkey.symm)) hne
    · intro other heq v
      constructor
      · rintro ⟨p, hp, hpkey, hpvalue⟩
        exact ⟨p, ((hmem _ _).mp hp).1, (hsame p).1.symm.trans hpkey,
          (hsame p).2.symm.trans hpvalue⟩
      · rintro ⟨p, hp, hpkey, hpvalue⟩
        refine ⟨p, (hmem _ _).mpr ⟨hp, ?_⟩, (hsame p).1.trans hpkey,
          (hsame p).2.trans hpvalue⟩
        rintro rfl
        exact heq (hpkey.symm.trans hkey)
  · have hpresent : key ∈ content :=
      Finmap.mem_of_lookup_eq_some (hrep.lookup_hit hptr hkey)
    have hcount := hrep.count
    have hcard := keys_card_erase_of_mem hpresent
    rw [hfree, List.length_cons]
    omega

end Content

/-! ## The operations -/

section Operations

variable [Inhabited Value] {hash : Key → ℕ}
  {map : FixedSizedChainingHashMap initBuckets Key Value}
  {chain : Fin initBuckets → List (NodePtr initBuckets)}
  {content : PartialMap Key Value} {key : Key}

theorem subscript_of_hit (hinv : ChainInvariant hash map chain)
    {front back : List (NodePtr initBuckets)} {node : NodePtr initBuckets}
    (hsplit : chain (bucketIndex hash key) = front ++ node :: back)
    (hfront : ∀ ptr ∈ front, (map.nodesPool_ ptr).key ≠ key)
    (hnode : (map.nodesPool_ node).key = key) :
    map.subscript hash key = some (.ok node, map) := by
  unfold subscript
  rw [hinv.walk_hit hsplit hfront hnode]

theorem subscript_of_full (hinv : ChainInvariant hash map chain)
    (hmiss : ∀ ptr ∈ chain (bucketIndex hash key),
      (map.nodesPool_ ptr).key ≠ key)
    (hfull : map.freeNodes_ = []) :
    map.subscript hash key =
      some (.error "No free nodes available in the pool", map) := by
  unfold subscript
  rw [hinv.walk_miss hmiss]
  simp [hfull]

theorem subscript_of_miss (hrep : Represents hash map chain content)
    (hmiss : ∀ ptr ∈ chain (bucketIndex hash key),
      (map.nodesPool_ ptr).key ≠ key)
    {new_node : NodePtr initBuckets} {rest : List (NodePtr initBuckets)}
    (hfree : map.freeNodes_ = new_node :: rest) :
    ∃ map', map.subscript hash key = some (.ok new_node, map') ∧
      (map'.nodesPool_ new_node).key = key ∧
      (map'.nodesPool_ new_node).value = default ∧
      Represents hash map'
        (Function.update chain (bucketIndex hash key)
          (chain (bucketIndex hash key) ++ [new_node]))
        (content.insert key default) := by
  have hprevious := hrep.getLast?_ne_free (bucketIndex hash key) hfree
  have hpair := map.linkNode_pair (bucketIndex hash key) hprevious
    rest key (default : Value)
  refine ⟨_, hrep.subscript_append hmiss hfree, ?_, ?_, ?_⟩
  · simpa using (hpair new_node).1
  · simpa using (hpair new_node).2
  · apply hrep.extend hmiss
    · rw [linkNode_freeNodes_, hfree]
    · intro ptr hptr
      simpa [hptr] using hpair ptr
    · simpa using (hpair new_node).1
    · simpa using (hpair new_node).2
    · exact hrep.linkNode key default hfree

omit [Inhabited Value] in
theorem erase_of_miss (hinv : ChainInvariant hash map chain)
    (hmiss : ∀ ptr ∈ chain (bucketIndex hash key),
      (map.nodesPool_ ptr).key ≠ key) :
    map.erase hash key = some (false, map) := by
  unfold erase
  rw [hinv.walk_miss hmiss]

omit [Inhabited Value] in
theorem erase_of_hit (hrep : Represents hash map chain content)
    {front back : List (NodePtr initBuckets)} {node : NodePtr initBuckets}
    (hsplit : chain (bucketIndex hash key) = front ++ node :: back)
    (hfront : ∀ ptr ∈ front, (map.nodesPool_ ptr).key ≠ key)
    (hnode : (map.nodesPool_ node).key = key) :
    ∃ map', map.erase hash key = some (true, map') ∧
      Represents hash map'
        (Function.update chain (bucketIndex hash key) (front ++ back))
        (content.erase key) := by
  refine ⟨_, hrep.erase_unlink hsplit hfront hnode, ?_⟩
  apply hrep.unlink hsplit hnode
  · exact unlinkNode_freeNodes_ _ _ _
  · exact unlinkNode_pair _ _ node
  · exact hrep.toChainInvariant.unlinkNode hsplit

/-- The map refuses a new key when every node is in use. -/
def refuseFull (initBuckets : ℕ) (content : PartialMap Key Value) :
    Option String :=
  if content.keys.card = 16 * initBuckets then
    some "No free nodes available in the pool"
  else none

omit [Inhabited Value] in
theorem Represents.refuseFull_eq (hrep : Represents hash map chain content) :
    refuseFull initBuckets content =
      match map.freeNodes_ with
      | [] => some "No free nodes available in the pool"
      | _ :: _ => none := by
  have hcount := hrep.count
  unfold refuseFull
  cases hfree : map.freeNodes_ with
  | nil =>
      rw [hfree, List.length_nil] at hcount
      rw [if_pos (by omega)]
  | cons _ _ =>
      rw [hfree, List.length_cons] at hcount
      rw [if_neg (by omega)]

omit [NeZero initBuckets] in
theorem abstractCall_subscript_threw_iff
    (content : PartialMap Key Value) (key : Key) :
    (∃ message, (abstractCall (refuseFull initBuckets) content
        (.subscript key)).2 = .threw message) ↔
      key ∉ content ∧ content.keys.card = 16 * initBuckets := by
  cases hlookup : content.lookup key with
  | some value =>
      have hpresent := Finmap.mem_of_lookup_eq_some hlookup
      simp [abstractCall, hlookup, hpresent]
  | none =>
      have habsent := Finmap.lookup_eq_none.mp hlookup
      by_cases hcard : content.keys.card = 16 * initBuckets
      · simp [abstractCall, hlookup, habsent, hcard, refuseFull]
      · simp [abstractCall, hlookup, hcard, refuseFull]

omit [NeZero initBuckets] in
theorem abstractCall_assign_threw_iff
    (content : PartialMap Key Value) (key : Key) (value : Value) :
    (∃ message, (abstractCall (refuseFull initBuckets) content
        (.assign key value)).2 = .threw message) ↔
      key ∉ content ∧ content.keys.card = 16 * initBuckets := by
  by_cases hpresent : key ∈ content
  · simp [abstractCall, hpresent]
  · by_cases hcard : content.keys.card = 16 * initBuckets
    · simp [abstractCall, hpresent, hcard, refuseFull]
    · simp [abstractCall, hpresent, hcard, refuseFull]

/-- `operator[]` finds the node of the key, makes one, or refuses. -/
theorem Represents.subscript_spec (hrep : Represents hash map chain content)
    (key : Key) :
    (∃ ptr value, content.lookup key = some value ∧
      map.subscript hash key = some (.ok ptr, map) ∧
      ptr ∈ chain (bucketIndex hash key) ∧
      (map.nodesPool_ ptr).key = key ∧
      (map.nodesPool_ ptr).value = value) ∨
    (∃ message, key ∉ content ∧
      refuseFull initBuckets content = some message ∧
      map.subscript hash key = some (.error message, map)) ∨
    (∃ ptr map' chain', key ∉ content ∧
      refuseFull initBuckets content = none ∧
      map.subscript hash key = some (.ok ptr, map') ∧
      ptr ∈ chain' (bucketIndex hash key) ∧
      (map'.nodesPool_ ptr).key = key ∧
      (map'.nodesPool_ ptr).value = default ∧
      Represents hash map' chain' (content.insert key default)) := by
  rcases map.chain_split key (chain (bucketIndex hash key)) with
    hmiss | ⟨front, node, back, hsplit, hfront, hnode⟩
  · have habsent : key ∉ content :=
      Finmap.lookup_eq_none.mp (hrep.lookup_miss hmiss)
    have hrefuse := hrep.refuseFull_eq
    cases hfree : map.freeNodes_ with
    | nil =>
        rw [hfree] at hrefuse
        exact Or.inr (Or.inl ⟨_, habsent, hrefuse,
          subscript_of_full hrep.toChainInvariant hmiss hfree⟩)
    | cons new_node rest =>
        rw [hfree] at hrefuse
        obtain ⟨map', heval, hkey, hvalue, hrep'⟩ :=
          subscript_of_miss hrep hmiss hfree
        exact Or.inr (Or.inr ⟨new_node, map', _, habsent, hrefuse, heval,
          by simp, hkey, hvalue, hrep'⟩)
  · have hptr : node ∈ chain (bucketIndex hash key) := by simp [hsplit]
    exact Or.inl ⟨node, _, hrep.lookup_hit hptr hnode,
      subscript_of_hit hrep.toChainInvariant hsplit hfront hnode,
      hptr, hnode, rfl⟩

/-- One call of the order book's interface is answered as by the partial
map, and the answer leaves a map that stands for the new content. -/
theorem Represents.call_simulates (hrep : Represents hash map chain content)
    {c : Call Key Value} (hc : c.isInsert = false) :
    (map.call hash c).2 =
        (abstractCall (refuseFull initBuckets) content c).2 ∧
      ∃ chain', Represents hash (map.call hash c).1 chain'
        (abstractCall (refuseFull initBuckets) content c).1 := by
  have hinv := hrep.toChainInvariant
  cases c with
  | insert key value => simp [Call.isInsert] at hc
  | subscript key =>
      rcases hrep.subscript_spec key with
        ⟨ptr, value, hlookup, heval, -, -, hvalue⟩ |
        ⟨message, habsent, hrefuse, heval⟩ |
        ⟨ptr, map', chain', habsent, hrefuse, heval, -, -, hvalue, hrep'⟩
      · simp only [call, heval, abstractCall, hlookup, hvalue, true_and]
        exact ⟨chain, hrep⟩
      · rw [← Finmap.lookup_eq_none] at habsent
        simp only [call, heval, abstractCall, habsent, hrefuse, true_and]
        exact ⟨chain, hrep⟩
      · rw [← Finmap.lookup_eq_none] at habsent
        simp only [call, heval, abstractCall, habsent, hrefuse, hvalue,
          true_and]
        exact ⟨chain', hrep'⟩
  | assign key value =>
      rcases hrep.subscript_spec key with
        ⟨ptr, old, hlookup, heval, hptr, hkey, -⟩ |
        ⟨message, habsent, hrefuse, heval⟩ |
        ⟨ptr, map', chain', habsent, hrefuse, heval, hptr, hkey, -, hrep'⟩
      · have hpresent := Finmap.mem_of_lookup_eq_some hlookup
        simp only [call, heval, abstractCall, if_pos hpresent, true_and]
        exact ⟨chain, hrep.store hptr hkey value⟩
      · simp only [call, heval, abstractCall, if_neg habsent, hrefuse,
          true_and]
        exact ⟨chain, hrep⟩
      · simp only [call, heval, abstractCall, if_neg habsent, hrefuse,
          true_and]
        have hstore := hrep'.store hptr hkey value
        rw [Finmap.insert_insert] at hstore
        exact ⟨chain', hstore⟩
  | contains key =>
      rcases map.chain_split key (chain (bucketIndex hash key)) with
        hmiss | ⟨front, node, back, hsplit, hfront, hnode⟩
      · have habsent : key ∉ content :=
          Finmap.lookup_eq_none.mp (hrep.lookup_miss hmiss)
        have hwalk := hinv.walk_miss hmiss
        simp only [call, contains, hwalk, Option.map_some, abstractCall,
          habsent, decide_false, Option.isSome_none, true_and]
        exact ⟨chain, hrep⟩
      · have hptr : node ∈ chain (bucketIndex hash key) := by simp [hsplit]
        have hpresent : key ∈ content :=
          Finmap.mem_of_lookup_eq_some (hrep.lookup_hit hptr hnode)
        have hwalk := hinv.walk_hit hsplit hfront hnode
        simp only [call, contains, hwalk, Option.map_some, abstractCall,
          hpresent, decide_true, Option.isSome_some, true_and]
        exact ⟨chain, hrep⟩
  | erase key =>
      rcases map.chain_split key (chain (bucketIndex hash key)) with
        hmiss | ⟨front, node, back, hsplit, hfront, hnode⟩
      · have habsent : key ∉ content :=
          Finmap.lookup_eq_none.mp (hrep.lookup_miss hmiss)
        have heval := erase_of_miss hinv hmiss
        simp only [call, heval, abstractCall, habsent, decide_false, true_and]
        rw [erase_eq_self habsent]
        exact ⟨chain, hrep⟩
      · have hptr : node ∈ chain (bucketIndex hash key) := by simp [hsplit]
        have hpresent : key ∈ content :=
          Finmap.mem_of_lookup_eq_some (hrep.lookup_hit hptr hnode)
        obtain ⟨map', heval, hrep'⟩ := erase_of_hit hrep hsplit hfront hnode
        simp only [call, heval, abstractCall, hpresent, decide_true, true_and]
        exact ⟨_, hrep'⟩
  | find key =>
      rcases map.chain_split key (chain (bucketIndex hash key)) with
        hmiss | ⟨front, node, back, hsplit, hfront, hnode⟩
      · have hlookup := hrep.lookup_miss hmiss
        have hwalk := hinv.walk_miss hmiss
        simp only [call, find, hwalk, Option.map_some, abstractCall, hlookup,
          true_and]
        exact ⟨chain, hrep⟩
      · have hptr : node ∈ chain (bucketIndex hash key) := by simp [hsplit]
        have hlookup := hrep.lookup_hit hptr hnode
        have hwalk := hinv.walk_hit hsplit hfront hnode
        simp only [call, find, hwalk, Option.map_some, abstractCall, hlookup,
          true_and]
        exact ⟨chain, hrep⟩

end Operations

/-! ## Whole runs -/

section Runs

variable [Inhabited Key] [Inhabited Value]

omit [DecidableEq Key] in
theorem construct_pow_two (exponent : ℕ) :
    construct (2 ^ exponent) Key Value =
      .ok (empty (2 ^ exponent) Key Value) := by
  have hand : 2 ^ exponent &&& (2 ^ exponent - 1) = 0 := by
    rw [Nat.and_two_pow_sub_one_eq_mod, Nat.mod_self]
  simp [construct, hand]

variable (initBuckets) in
theorem run_represents (hash : Key → ℕ) {calls : List (Call Key Value)}
    (hcalls : ∀ c ∈ calls, c.isInsert = false) :
    CallSystem.results (call hash) (empty initBuckets Key Value) calls =
        CallSystem.results (abstractCall (refuseFull initBuckets)) ∅ calls ∧
      ∃ chain, Represents hash
        (CallSystem.stateAfter (call hash) (empty initBuckets Key Value) calls)
        chain
        (CallSystem.stateAfter (abstractCall (refuseFull initBuckets)) ∅
          calls) := by
  apply CallSystem.simulation (fun _ c => c.isInsert = false)
    (fun map content => ∃ chain, Represents hash map chain content)
    ?_ ⟨_, empty_represents hash⟩ ?_
  · rintro map content c ⟨chain, hrep⟩ hc
    exact hrep.call_simulates hc
  · exact CallSystem.allAllowed_of_forall hcalls

/-- Every run of the order book's interface from the empty map agrees with
the partial map; the subscript throws exactly when it would need a seventeenth
node per bucket on average, and a throwing call changes nothing. -/
theorem fixedSizedChaining_refines_partialMap
    (hash : Key → ℕ) (exponent : ℕ) (calls : List (Call Key Value))
    (hcalls : ∀ c ∈ calls, c.isInsert = false) :
    ∃ map, construct (2 ^ exponent) Key Value = .ok map ∧
      let last := CallSystem.stateAfter (call hash) map calls
      let content := CallSystem.stateAfter
        (abstractCall (refuseFull (2 ^ exponent))) ∅ calls
      CallSystem.results (call hash) map calls =
          CallSystem.results (abstractCall (refuseFull (2 ^ exponent))) ∅
            calls ∧
        (∀ key value c, c = .subscript key ∨ c = .assign key value →
          ((∃ message, (last.call hash c).2 = .threw message) ↔
            key ∉ content ∧ content.keys.card = 16 * 2 ^ exponent)) ∧
        (∀ c, c.isInsert = false →
          (∃ message, (last.call hash c).2 = .threw message) →
            (last.call hash c).1 = last) := by
  refine ⟨_, construct_pow_two exponent, ?_⟩
  obtain ⟨hresults, chain, hrep⟩ :=
    run_represents (2 ^ exponent) hash hcalls
  dsimp only
  refine ⟨hresults, ?_, ?_⟩
  · rintro key value c (rfl | rfl)
    · rw [(hrep.call_simulates rfl).1]
      exact abstractCall_subscript_threw_iff _ key
    · rw [(hrep.call_simulates rfl).1]
      exact abstractCall_assign_threw_iff _ key value
  · rintro c - ⟨message, hthrew⟩
    exact call_threw _ hthrew

end Runs

/-- One bucket: two keys share it, and the freed node is used again. -/
theorem fixedSizedChaining_one_bucket :
    ∃ map, construct (2 ^ 0) ℕ ℕ = .ok map ∧
      CallSystem.results (call fun key => key) map
          [.assign 1 5, .assign 2 6, .erase 1, .contains 1, .assign 3 7,
            .find 2] =
        [.value 5, .value 6, .flag true, .flag false, .value 7,
          .found (some 6)] := by
  obtain ⟨map, hmap, hresults, -⟩ :=
    fixedSizedChaining_refines_partialMap (fun key : ℕ => key) 0
      ([.assign 1 5, .assign 2 6, .erase 1, .contains 1, .assign 3 7,
        .find 2] : List (Call ℕ ℕ)) (by decide)
  exact ⟨map, hmap, hresults.trans (by decide)⟩

end FixedSizedChainingHashMap
end HashMap
end TradingStudies
