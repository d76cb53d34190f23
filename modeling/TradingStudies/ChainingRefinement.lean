import TradingStudies.ChainingHashMap
import TradingStudies.Library.KeyedList
import TradingStudies.Library.StepSystem

/-!
# The chaining map is a finite map

A new node goes to the end of its own bucket, and only after the whole bucket
was searched for its key.  So the buckets hold each key at most once, and the
table stands for a partial map that never refuses a key.
-/

namespace TradingStudies
namespace HashMap
namespace ChainingHashMap

open KeyedList

variable {initBuckets : ℕ} {Key Value : Type*} [NeZero initBuckets]
variable [DecidableEq Key]

/-- Every node lies in its own bucket, no bucket repeats a key, and the pairs
in the table are those of `content`. -/
structure Represents (hash : Key → ℕ)
    (map : ChainingHashMap initBuckets Key Value)
    (content : PartialMap Key Value) : Prop where
  keyed : ∀ bucket, ∀ node ∈ map.table_ bucket,
    bucketIndex hash node.key = bucket
  unique : ∀ bucket, UniqueKeys Node.key (map.table_ bucket)
  describes : Describes content map.Stores

variable {hash : Key → ℕ}
  {map : ChainingHashMap initBuckets Key Value}
  {content : PartialMap Key Value} {key : Key} {value : Value}
  {node : Node Key Value} {bucket : List (Node Key Value)} {position : ℕ}

theorem empty_represents (hash : Key → ℕ) :
    Represents hash (empty initBuckets Key Value) ∅ where
  keyed := fun _ _ hnode => absurd hnode List.not_mem_nil
  unique := fun _ => uniqueKeys_nil
  describes := by
    intro key value
    simp [Stores, empty]

/-! ## Searching a bucket -/

theorem scan_hit (hscan : scan bucket key = some position) :
    ∃ node, bucket[position]? = some node ∧ node.key = key := by
  rcases List.findIdx?_eq_some_iff_getElem.mp hscan with ⟨hlt, hkey, -⟩
  exact ⟨bucket[position], List.getElem?_eq_getElem hlt,
    of_decide_eq_true hkey⟩

theorem scan_miss (hscan : scan bucket key = none) :
    ∀ node ∈ bucket, node.key ≠ key := by
  intro node hnode
  have hkey := List.findIdx?_eq_none_iff.mp hscan node hnode
  exact of_decide_eq_false hkey

theorem Represents.stores_iff (hrep : Represents hash map content) :
    map.Stores key value ↔
      (⟨key, value⟩ : Node Key Value) ∈
        map.table_ (bucketIndex hash key) := by
  constructor
  · intro hstores
    rcases hstores with ⟨bucket, hnode⟩
    have hbucket := hrep.keyed bucket _ hnode
    rw [hbucket]
    exact hnode
  · intro hnode
    exact ⟨_, hnode⟩

theorem Represents.lookup_hit (hrep : Represents hash map content)
    (hnode : node ∈ map.table_ (bucketIndex hash key))
    (hkey : node.key = key) :
    content.lookup key = some node.value := by
  subst hkey
  exact (hrep.describes node.key node.value).mpr ⟨_, hnode⟩

theorem Represents.lookup_miss (hrep : Represents hash map content)
    (hmiss : ∀ node ∈ map.table_ (bucketIndex hash key), node.key ≠ key) :
    content.lookup key = none := by
  cases hlookup : content.lookup key with
  | none => rfl
  | some value =>
      have hstores := (hrep.describes key value).mp hlookup
      exact absurd rfl (hmiss _ (hrep.stores_iff.mp hstores))

/-! ## Changing one bucket -/

omit [NeZero initBuckets] [DecidableEq Key] in
theorem mem_setBucket {index : Fin initBuckets} (other : Fin initBuckets) :
    node ∈ (map.setBucket index bucket).table_ other ↔
      (other = index ∧ node ∈ bucket) ∨
        other ≠ index ∧ node ∈ map.table_ other := by
  unfold setBucket
  by_cases heq : other = index
  · subst other
    simp
  · simp [heq]

theorem Represents.setBucket_keyed (hrep : Represents hash map content)
    (hbucket : ∀ node ∈ bucket, node.key = key ∨
      node ∈ map.table_ (bucketIndex hash key)) :
    ∀ other, ∀ node ∈
      (map.setBucket (bucketIndex hash key) bucket).table_ other,
      bucketIndex hash node.key = other := by
  intro other node hnode
  rcases (mem_setBucket other).mp hnode with ⟨rfl, hnew⟩ | ⟨-, hold⟩
  · rcases hbucket node hnew with hkey | hold
    · rw [hkey]
    · exact hrep.keyed _ node hold
  · exact hrep.keyed other node hold

theorem Represents.setBucket_unique (hrep : Represents hash map content)
    (hunique : UniqueKeys Node.key bucket) (index : Fin initBuckets) :
    ∀ other, UniqueKeys Node.key ((map.setBucket index bucket).table_ other) := by
  intro other
  unfold setBucket
  by_cases heq : other = index
  · subst other
    simpa using hunique
  · simpa [heq] using hrep.unique other

omit [DecidableEq Key] in
/-- The pairs after a change of the bucket of `key`: those of the other keys
stay. -/
theorem stores_setBucket_of_ne
    (hbucket : ∀ node : Node Key Value, node.key ≠ key →
      (node ∈ bucket ↔ node ∈ map.table_ (bucketIndex hash key)))
    {other : Key} (hother : other ≠ key) (value : Value) :
    (map.setBucket (bucketIndex hash key) bucket).Stores other value ↔
      map.Stores other value := by
  unfold Stores
  apply exists_congr
  intro index
  rw [mem_setBucket index, hbucket ⟨other, value⟩ hother]
  constructor
  · intro hmem
    rcases hmem with ⟨rfl, hold⟩ | ⟨-, hold⟩
    · exact hold
    · exact hold
  · intro hmem
    by_cases heq : index = bucketIndex hash key
    · subst index
      exact Or.inl ⟨rfl, hmem⟩
    · exact Or.inr ⟨heq, hmem⟩

theorem Represents.stores_setBucket_self (hrep : Represents hash map content)
    (value : Value) :
    (map.setBucket (bucketIndex hash key) bucket).Stores key value ↔
      (⟨key, value⟩ : Node Key Value) ∈ bucket := by
  constructor
  · intro hstores
    rcases hstores with ⟨index, hmem⟩
    rcases (mem_setBucket index).mp hmem with ⟨-, hnew⟩ | ⟨hne, hold⟩
    · exact hnew
    · exact absurd (hrep.keyed index _ hold).symm hne
  · intro hmem
    exact ⟨bucketIndex hash key, (mem_setBucket _).mpr (Or.inl ⟨rfl, hmem⟩)⟩

theorem Represents.setBucket_insert (hrep : Represents hash map content)
    (hunique : UniqueKeys Node.key bucket)
    (hmem : ∀ node, node ∈ bucket ↔ node = ⟨key, value⟩ ∨
      node ∈ map.table_ (bucketIndex hash key) ∧ node.key ≠ key) :
    Represents hash (map.setBucket (bucketIndex hash key) bucket)
      (content.insert key value) where
  keyed := by
    apply hrep.setBucket_keyed
    intro node hnode
    rcases (hmem node).mp hnode with rfl | ⟨hold, -⟩
    · exact Or.inl rfl
    · exact Or.inr hold
  unique := hrep.setBucket_unique hunique _
  describes := by
    apply hrep.describes.insert
    · intro found
      rw [hrep.stores_setBucket_self, hmem]
      simp [eq_comm]
    · intro other hother found
      apply stores_setBucket_of_ne _ hother
      intro node hkey
      rw [hmem node]
      constructor
      · intro hnode
        rcases hnode with rfl | ⟨hold, -⟩
        · exact absurd rfl hkey
        · exact hold
      · intro hold
        exact Or.inr ⟨hold, hkey⟩

theorem Represents.setBucket_erase (hrep : Represents hash map content)
    (hunique : UniqueKeys Node.key bucket)
    (hmem : ∀ node, node ∈ bucket ↔
      node ∈ map.table_ (bucketIndex hash key) ∧ node.key ≠ key) :
    Represents hash (map.setBucket (bucketIndex hash key) bucket)
      (content.erase key) where
  keyed := by
    apply hrep.setBucket_keyed
    intro node hnode
    exact Or.inr ((hmem node).mp hnode).1
  unique := hrep.setBucket_unique hunique _
  describes := by
    apply hrep.describes.erase
    · intro found hstores
      rw [hrep.stores_setBucket_self, hmem] at hstores
      exact hstores.2 rfl
    · intro other hother found
      apply stores_setBucket_of_ne _ hother
      intro node hkey
      rw [hmem node]
      exact and_iff_left hkey

/-! ## The operations -/

theorem Represents.store (hrep : Represents hash map content)
    (hposition : (map.table_ (bucketIndex hash key))[position]? = some node)
    (hkey : node.key = key) (value : Value) :
    Represents hash (map.store (bucketIndex hash key, position) value)
      (content.insert key value) := by
  have hunique := hrep.unique (bucketIndex hash key)
  unfold ChainingHashMap.store
  apply hrep.setBucket_insert
  · exact hunique.modify position fun _ => rfl
  · intro other
    rw [hunique.mem_modify hposition, hkey]

theorem Represents.append (hrep : Represents hash map content)
    (hmiss : ∀ node ∈ map.table_ (bucketIndex hash key), node.key ≠ key)
    (value : Value) :
    Represents hash
      (map.setBucket (bucketIndex hash key)
        (map.table_ (bucketIndex hash key) ++ [⟨key, value⟩]))
      (content.insert key value) := by
  apply hrep.setBucket_insert
  · exact (hrep.unique _).append hmiss
  · intro other
    have hfresh : ∀ node ∈ map.table_ (bucketIndex hash key),
        Node.key node ≠ Node.key (⟨key, value⟩ : Node Key Value) := hmiss
    rw [mem_append_of_fresh hfresh]

theorem Represents.remove (hrep : Represents hash map content)
    (hkey : node.key = key) :
    Represents hash
      (map.setBucket (bucketIndex hash key)
        (ChainingHashMap.remove (map.table_ (bucketIndex hash key)) node))
      (content.erase key) := by
  apply hrep.setBucket_erase
  · exact (hrep.unique _).filter _
  · intro other
    simp [ChainingHashMap.remove, hkey]

omit [DecidableEq Key] in
theorem valueAt_store
    (hposition : (map.table_ (bucketIndex hash key))[position]? = some node)
    (value : Value) :
    (map.store (bucketIndex hash key, position) value).valueAt
      (bucketIndex hash key, position) = some value := by
  simp [store, setBucket, valueAt, hposition]

/-- `operator[]` returns a reference to the node of `key`, which holds the
value of `key` or, if the key is new, the default. -/
theorem Represents.subscript [Inhabited Value]
    (hrep : Represents hash map content) (key : Key) :
    ∃ ref next, map.subscript hash key = (ref, next) ∧
      ref.1 = bucketIndex hash key ∧
      (∃ node, (next.table_ ref.1)[ref.2]? = some node ∧ node.key = key ∧
        node.value = (content.lookup key).getD default) ∧
      Represents hash next
        (if key ∈ content then content else content.insert key default) := by
  cases hscan : scan (map.table_ (bucketIndex hash key)) key with
  | some position =>
      rcases scan_hit hscan with ⟨node, hnode, hkey⟩
      have hlookup :=
        hrep.lookup_hit (List.mem_of_getElem? hnode) hkey
      have hmem : key ∈ content := Finmap.mem_of_lookup_eq_some hlookup
      refine ⟨(bucketIndex hash key, position), map, ?_, rfl,
        ⟨node, hnode, hkey, ?_⟩, ?_⟩
      · simp [ChainingHashMap.subscript, hscan]
      · rw [hlookup, Option.getD_some]
      · rw [if_pos hmem]
        exact hrep
  | none =>
      have hmiss := scan_miss hscan
      have hlookup := hrep.lookup_miss hmiss
      have hmem : key ∉ content := Finmap.lookup_eq_none.mp hlookup
      refine ⟨(bucketIndex hash key,
          (map.table_ (bucketIndex hash key)).length),
        map.setBucket (bucketIndex hash key)
          (map.table_ (bucketIndex hash key) ++ [⟨key, default⟩]), ?_, rfl,
        ⟨⟨key, default⟩, ?_, rfl, ?_⟩, ?_⟩
      · simp [ChainingHashMap.subscript, hscan]
      · simp [setBucket]
      · rw [hlookup, Option.getD_none]
      · rw [if_neg hmem]
        exact hrep.append hmiss default

theorem Represents.insert (hrep : Represents hash map content)
    (key : Key) (value : Value) :
    Represents hash (map.insert hash key value)
      (content.insert key value) := by
  cases hscan : scan (map.table_ (bucketIndex hash key)) key with
  | some position =>
      rcases scan_hit hscan with ⟨node, hnode, hkey⟩
      simp only [ChainingHashMap.insert, hscan]
      exact hrep.store hnode hkey value
  | none =>
      simp only [ChainingHashMap.insert, hscan]
      exact hrep.append (scan_miss hscan) value

theorem Represents.contains (hrep : Represents hash map content)
    (key : Key) :
    map.contains hash key = decide (key ∈ content) := by
  unfold ChainingHashMap.contains
  cases hscan : scan (map.table_ (bucketIndex hash key)) key with
  | some position =>
      rcases scan_hit hscan with ⟨node, hnode, hkey⟩
      have hmem : key ∈ content := Finmap.mem_of_lookup_eq_some
        (hrep.lookup_hit (List.mem_of_getElem? hnode) hkey)
      simp [hmem]
  | none =>
      have hmem : key ∉ content :=
        Finmap.lookup_eq_none.mp (hrep.lookup_miss (scan_miss hscan))
      simp [hmem]

theorem Represents.erase (hrep : Represents hash map content) (key : Key) :
    (map.erase hash key).1 = decide (key ∈ content) ∧
      Represents hash (map.erase hash key).2 (content.erase key) := by
  cases hfind : (map.table_ (bucketIndex hash key)).find?
      fun node => node.key = key with
  | some node =>
      have hkey : node.key = key := by
        simpa using List.find?_some hfind
      simp only [ChainingHashMap.erase, hfind]
      have hmem : key ∈ content := Finmap.mem_of_lookup_eq_some
        (hrep.lookup_hit (List.mem_of_find?_eq_some hfind) hkey)
      exact ⟨by simp [hmem], hrep.remove hkey⟩
  | none =>
      have hmiss : ∀ node ∈ map.table_ (bucketIndex hash key),
          node.key ≠ key := by
        intro node hnode
        simpa using List.find?_eq_none.mp hfind node hnode
      have hmem : key ∉ content :=
        Finmap.lookup_eq_none.mp (hrep.lookup_miss hmiss)
      simp only [ChainingHashMap.erase, hfind]
      rw [erase_eq_self hmem]
      exact ⟨by simp [hmem], hrep⟩

/-! ## Sequences of calls -/

section Calls

variable [Inhabited Value]

theorem call_represents (hrep : Represents hash map content)
    (c : Call Key Value) :
    (call hash map c).2 = (abstractCall unbounded content c).2 ∧
      Represents hash (call hash map c).1
        (abstractCall unbounded content c).1 := by
  cases c with
  | insert key value =>
      have hinsert := hrep.insert key value
      by_cases hmem : key ∈ content
      · simpa [call, abstractCall, hmem] using hinsert
      · simpa [call, abstractCall, hmem, unbounded] using hinsert
  | subscript key =>
      rcases hrep.subscript key with
        ⟨ref, next, hsubscript, -, ⟨node, hnode, -, hvalue⟩, hnext⟩
      cases hlookup : content.lookup key with
      | some value =>
          have hmem := Finmap.mem_of_lookup_eq_some hlookup
          rw [if_pos hmem] at hnext
          simpa [call, abstractCall, hsubscript, valueAt, hnode, hlookup,
            hvalue] using hnext
      | none =>
          have hmem := Finmap.lookup_eq_none.mp hlookup
          rw [if_neg hmem] at hnext
          simpa [call, abstractCall, hsubscript, valueAt, hnode, hlookup,
            hvalue, unbounded] using hnext
  | assign key value =>
      rcases hrep.subscript key with
        ⟨⟨index, position⟩, next, hsubscript, rfl,
          ⟨node, hnode, hkey, -⟩, hnext⟩
      have hstored := hnext.store hnode hkey value
      have hvalue := valueAt_store hnode value
      by_cases hmem : key ∈ content
      · rw [if_pos hmem] at hstored
        simpa [call, abstractCall, hsubscript, hvalue, hmem] using hstored
      · rw [if_neg hmem, Finmap.insert_insert] at hstored
        simpa [call, abstractCall, hsubscript, hvalue, hmem, unbounded]
          using hstored
  | contains key =>
      exact ⟨congrArg Outcome.flag (hrep.contains key), hrep⟩
  | erase key =>
      rcases hrep.erase key with ⟨hflag, hnext⟩
      exact ⟨congrArg Outcome.flag hflag, hnext⟩
  | find key =>
      cases hscan : scan (map.table_ (bucketIndex hash key)) key with
      | some position =>
          rcases scan_hit hscan with ⟨node, hnode, hkey⟩
          have hlookup :=
            hrep.lookup_hit (List.mem_of_getElem? hnode) hkey
          simpa [call, abstractCall, ChainingHashMap.find, hscan, valueAt,
            hnode, hlookup] using hrep
      | none =>
          have hlookup := hrep.lookup_miss (scan_miss hscan)
          simpa [call, abstractCall, ChainingHashMap.find, hscan, hlookup]
            using hrep

theorem run_represents (hrep : Represents hash map content)
    (calls : List (Call Key Value)) :
    CallSystem.results (call hash) map calls =
        CallSystem.results (abstractCall unbounded) content calls ∧
      Represents hash (CallSystem.stateAfter (call hash) map calls)
        (CallSystem.stateAfter (abstractCall unbounded) content calls) := by
  apply CallSystem.simulation (fun _ _ => True) (Represents hash)
  · intro map content c hrelated _
    exact call_represents hrelated c
  · exact hrep
  · exact CallSystem.allAllowed_of_forall fun _ _ => trivial

end Calls

theorem Represents.oneNodePerKey (hrep : Represents hash map content) :
    map.OneNodePerKey := by
  intro bucket bucket' position position' node node' hnode hnode' hkey
  have hbucket := hrep.keyed bucket node (List.mem_of_getElem? hnode)
  have hbucket' := hrep.keyed bucket' node' (List.mem_of_getElem? hnode')
  have heq : bucket' = bucket := by
    rw [← hbucket, ← hbucket', hkey]
  rw [heq] at hnode'
  exact ⟨heq.symm, (hrep.unique bucket).position_eq hnode hnode' hkey⟩

theorem Represents.inOwnBucket (hrep : Represents hash map content) :
    map.InOwnBucket hash := by
  intro bucket node hnode
  exact (congrArg Fin.val (hrep.keyed bucket node hnode)).symm

omit [NeZero initBuckets] [DecidableEq Key] in
theorem construct_eq_empty
    (hconstruct : construct initBuckets Key Value = .ok map) :
    map = empty initBuckets Key Value := by
  unfold construct at hconstruct
  split at hconstruct
  · cases hconstruct
  · cases hconstruct
    rfl

/-- Whatever the hash function, a map that was constructed answers every word
of calls like a partial map; each key has at most one node, in its own
bucket. -/
theorem chainingHashMap_refines_partialMap [Inhabited Value]
    (hash : Key → ℕ) {start : ChainingHashMap initBuckets Key Value}
    (hconstruct : construct initBuckets Key Value = .ok start)
    (calls : List (Call Key Value)) :
    CallSystem.results (call hash) start calls =
        CallSystem.results (abstractCall unbounded) ∅ calls ∧
      Describes (CallSystem.stateAfter (abstractCall unbounded) ∅ calls)
        (CallSystem.stateAfter (call hash) start calls).Stores ∧
      (CallSystem.stateAfter (call hash) start calls).OneNodePerKey ∧
      (CallSystem.stateAfter (call hash) start calls).InOwnBucket hash := by
  have hstart : Represents hash start ∅ := by
    rw [construct_eq_empty hconstruct]
    exact empty_represents hash
  rcases run_represents hstart calls with ⟨hresults, hrep⟩
  exact ⟨hresults, hrep.describes, hrep.oneNodePerKey, hrep.inOwnBucket⟩

/-- Two keys in one bucket, one of them erased and written again. -/
theorem chainingHashMap_refines_partialMap_collision :
    construct 2 ℕ ℕ = .ok (empty 2 ℕ ℕ) ∧
      CallSystem.results
          (call (fun _ => 1)) (empty 2 ℕ ℕ)
          [.insert 3 7, .insert 5 8, .erase 3, .assign 3 9, .find 5,
            .subscript 4] =
        CallSystem.results (abstractCall unbounded) ∅
          [.insert 3 7, .insert 5 8, .erase 3, .assign 3 9, .find 5,
            .subscript 4] := by
  have hconstruct : construct 2 ℕ ℕ = .ok (empty 2 ℕ ℕ) := rfl
  exact ⟨hconstruct,
    (chainingHashMap_refines_partialMap (fun _ => 1) hconstruct _).1⟩

end ChainingHashMap
end HashMap
end TradingStudies
