import TradingStudies.FixedSizedChainingQueues

/-!
# When an insert is an upsert

A client of `insert` expects to find the value it has just inserted, and
expects the key to be gone after one `erase`.  Both hold exactly when the key
was absent: otherwise the old value stays in front of the new one.
-/

namespace TradingStudies
namespace HashMap
namespace FixedSizedChainingHashMap

open LinkedSegment

variable {initBuckets : ℕ} {Key Value : Type*} [NeZero initBuckets]
variable [DecidableEq Key]

/-- At most one chained node holds any key. -/
def KeysHeldOnce (map : FixedSizedChainingHashMap initBuckets Key Value) :
    Prop :=
  ∃ chain : Fin initBuckets → List (NodePtr initBuckets),
    (∀ bucket,
      Segment map.nextOf (map.buckets_ bucket) (chain bucket) none) ∧
    ∀ bucket, ∀ ptr ∈ chain bucket, ∀ bucket', ∀ ptr' ∈ chain bucket',
      (map.nodesPool_ ptr).key = (map.nodesPool_ ptr').key → ptr = ptr'

/-- An insert meets a map without the key, or one that refuses it for lack of
free nodes. -/
def InsertsNew (hash : Key → ℕ)
    (map : FixedSizedChainingHashMap initBuckets Key Value) :
    Call Key Value → Prop
  | .insert key _ => map.contains hash key = some false ∨ map.freeNodes_ = []
  | _ => True

section Content

variable {hash : Key → ℕ}
  {map : FixedSizedChainingHashMap initBuckets Key Value}
  {chain : Fin initBuckets → List (NodePtr initBuckets)}
  {queues : KeyQueues Key Value} {key : Key}

theorem Holds.contains_false_iff (hholds : Holds hash map chain queues)
    (key : Key) :
    map.contains hash key = some false ↔ queues.queue key = [] := by
  have hinv := hholds.toChainInvariant
  rcases hholds.queue_cases key with
    ⟨hqueue, hmiss⟩ | ⟨front, node, back, hsplit, hfront, hnode, hqueue⟩
  · simp [contains, hinv.walk_miss hmiss, hqueue]
  · simp [contains, hinv.walk_hit hsplit hfront hnode, hqueue]

/-- The only holder of a key whose queue has one value. -/
theorem Holds.holder_unique (hholds : Holds hash map chain queues)
    (hlength : (queues.queue key).length ≤ 1) :
    ∃ node, ∀ ptr ∈ chain (bucketIndex hash key),
      (map.nodesPool_ ptr).key = key → ptr = node := by
  rcases hholds.queue_cases key with
    ⟨-, hmiss⟩ | ⟨front, node, back, hsplit, hfront, -, hqueue⟩
  · exact ⟨0, fun ptr hptr hkey => absurd hkey (hmiss ptr hptr)⟩
  · rw [hqueue, List.length_cons] at hlength
    have hempty : map.valuesOf key back = [] :=
      List.length_eq_zero_iff.mp (by omega)
    have hback : ∀ ptr ∈ back, (map.nodesPool_ ptr).key ≠ key := by
      simpa [valuesOf] using hempty
    refine ⟨node, ?_⟩
    intro ptr hptr hkey
    rw [hsplit, List.mem_append, List.mem_cons] at hptr
    rcases hptr with hptr | rfl | hptr
    · exact absurd hkey (hfront ptr hptr)
    · rfl
    · exact absurd hkey (hback ptr hptr)

theorem Holds.keysHeldOnce_iff (hholds : Holds hash map chain queues) :
    KeysHeldOnce map ↔ ∀ key, (queues.queue key).length ≤ 1 := by
  constructor
  · rintro ⟨chain', hlinked, hinjective⟩ key
    have hchain : chain' = chain := by
      funext bucket
      exact (hlinked bucket).unique (hholds.linked bucket)
    subst chain'
    rcases hholds.queue_cases key with
      ⟨hqueue, -⟩ | ⟨front, node, back, hsplit, hfront, hnode, hqueue⟩
    · rw [hqueue]
      exact Nat.zero_le 1
    · have hnodup := (hholds.linked (bucketIndex hash key)).nodup
      rw [hsplit, List.nodup_append, List.nodup_cons] at hnodup
      -- A second node with the key would have to be the first one.
      have hback : ∀ ptr ∈ back, (map.nodesPool_ ptr).key ≠ key := by
        intro ptr hptr hkey
        have heq : ptr = node :=
          hinjective (bucketIndex hash key) ptr (by simp [hsplit, hptr])
            (bucketIndex hash key) node (by simp [hsplit])
            (hkey.trans hnode.symm)
        exact hnodup.2.1.1 (heq ▸ hptr)
      rw [hqueue, valuesOf_miss hback]
      exact le_refl 1
  · intro hlength
    refine ⟨chain, hholds.linked, ?_⟩
    intro bucket ptr hptr bucket' ptr' hptr' hkeys
    have hbucket := hholds.placed bucket ptr hptr
    have hbucket' := hholds.placed bucket' ptr' hptr'
    rw [hkeys] at hbucket
    obtain ⟨node, hnode⟩ :=
      hholds.holder_unique (hlength (map.nodesPool_ ptr').key)
    rw [hbucket'] at hnode
    rw [hbucket.symm.trans hbucket'] at hptr
    exact (hnode ptr hptr hkeys).trans (hnode ptr' hptr' rfl).symm

omit [NeZero initBuckets] in
theorem KeyQueues.set_length_le (hlength : ∀ key, (queues.queue key).length ≤ 1)
    (key : Key) {values : List Value} (hvalues : values.length ≤ 1) (free : ℕ)
    (other : Key) : ((queues.set key values free).queue other).length ≤ 1 := by
  by_cases heq : other = key
  · subst other
    rwa [KeyQueues.set_queue_self]
  · rw [queues.set_queue_of_ne heq]
    exact hlength other

omit [NeZero initBuckets] in
theorem KeyQueues.append_length_le
    (hlength : ∀ key, (queues.queue key).length ≤ 1) {key : Key}
    (hroom : queues.queue key = [] ∨ queues.free = 0) (value : Value)
    (outcome : Outcome Value) (other : Key) :
    ((queues.append key value outcome).1.queue other).length ≤ 1 := by
  unfold KeyQueues.append
  cases hfree : queues.free with
  | zero => exact hlength other
  | succ free =>
      have hempty : queues.queue key = [] := by
        rcases hroom with hempty | hzero
        · exact hempty
        · omega
      rw [hempty]
      exact KeyQueues.set_length_le hlength key (le_refl 1) free other

/-- What a client sees of an insert that succeeds, of the `find` after it and
of the `erase` and `contains` after that. -/
theorem KeyQueues.insert_upserts_iff [Inhabited Value]
    (queues : KeyQueues Key Value) (key : Key) (value : Value)
    (hdone : (queues.call (.insert key value)).2 = .done) :
    let inserted := (queues.call (.insert key value)).1
    ((inserted.call (.find key)).2 = .found (some value) ∧
        (((inserted.call (.erase key)).1).call (.contains key)).2 =
          .flag false) ↔
      queues.queue key = [] := by
  cases hfree : queues.free with
  | zero => simp [KeyQueues.call, KeyQueues.append, hfree] at hdone
  | succ free =>
      have hinserted : (queues.call (.insert key value)).1 =
          queues.set key (queues.queue key ++ [value]) free := by
        simp [KeyQueues.call, KeyQueues.append, hfree]
      rw [hinserted]
      cases hqueue : queues.queue key with
      | nil => simp [KeyQueues.call]
      | cons first rest => simp [KeyQueues.call]

end Content

/-! ## Whole runs -/

section Runs

variable [Inhabited Key] [Inhabited Value] {hash : Key → ℕ}
  {map : FixedSizedChainingHashMap initBuckets Key Value}
  {chain : Fin initBuckets → List (NodePtr initBuckets)}
  {queues : KeyQueues Key Value}

omit [Inhabited Key] [Inhabited Value] in
theorem Holds.insertsNew_insert_iff (hholds : Holds hash map chain queues)
    (key : Key) (value : Value) :
    InsertsNew hash map (.insert key value) ↔
      queues.queue key = [] ∨ queues.free = 0 := by
  rw [InsertsNew, hholds.contains_false_iff, hholds.free,
    List.length_eq_zero_iff]

omit [Inhabited Key] in
/-- No call but an insert of a key that is present makes a queue longer than
one value. -/
theorem Holds.lengths_kept (hholds : Holds hash map chain queues)
    (hlength : ∀ key, (queues.queue key).length ≤ 1) {c : Call Key Value}
    (hnew : InsertsNew hash map c) (other : Key) :
    ((queues.call c).1.queue other).length ≤ 1 := by
  cases c with
  | insert key value =>
      have hroom := (hholds.insertsNew_insert_iff key value).mp hnew
      exact KeyQueues.append_length_le hlength hroom value .done other
  | subscript key =>
      simp only [KeyQueues.call]
      cases hqueue : queues.queue key with
      | nil =>
          exact KeyQueues.append_length_le hlength (Or.inl hqueue) _ _ other
      | cons value rest => exact hlength other
  | assign key value =>
      simp only [KeyQueues.call]
      have hkey := hlength key
      cases hqueue : queues.queue key with
      | nil =>
          exact KeyQueues.append_length_le hlength (Or.inl hqueue) _ _ other
      | cons old rest =>
          rw [hqueue] at hkey
          have hvalues : (value :: rest).length ≤ 1 := hkey
          exact KeyQueues.set_length_le hlength key hvalues _ other
  | contains key => exact hlength other
  | erase key =>
      simp only [KeyQueues.call]
      have hkey := hlength key
      cases hqueue : queues.queue key with
      | nil => exact hlength other
      | cons old rest =>
          rw [hqueue, List.length_cons] at hkey
          exact KeyQueues.set_length_le hlength key (by omega) _ other
  | find key => exact hlength other

omit [Inhabited Key] in
theorem Holds.insert_twice (hholds : Holds hash map chain queues)
    {c : Call Key Value} (hnew : ¬ InsertsNew hash map c) :
    ∃ key, 1 < ((queues.call c).1.queue key).length := by
  cases c with
  | insert key value =>
      rw [hholds.insertsNew_insert_iff, not_or] at hnew
      obtain ⟨hpresent, hroom⟩ := hnew
      obtain ⟨free, hfree⟩ := Nat.exists_eq_succ_of_ne_zero hroom
      refine ⟨key, ?_⟩
      have hlength := List.length_pos_iff.mpr hpresent
      simp only [KeyQueues.call, KeyQueues.append, hfree,
        KeyQueues.set_queue_self, List.length_append, List.length_singleton]
      omega
  | subscript key => exact absurd trivial hnew
  | assign key value => exact absurd trivial hnew
  | contains key => exact absurd trivial hnew
  | erase key => exact absurd trivial hnew
  | find key => exact absurd trivial hnew

variable (initBuckets) in
/-- No key is ever held twice exactly when no insert meets its key. -/
theorem keysHeldOnce_iff_insertsNew (hash : Key → ℕ)
    (calls : List (Call Key Value)) :
    CallSystem.AllStates (call hash) KeysHeldOnce
        (empty initBuckets Key Value) calls ↔
      CallSystem.AllAllowed (call hash) (InsertsNew hash)
        (empty initBuckets Key Value) calls := by
  apply CallSystem.allStates_iff_allAllowed fun map =>
    ∃ chain queues, Holds hash map chain queues ∧
      ∀ key, (queues.queue key).length ≤ 1
  · rintro map ⟨chain, queues, hholds, hlength⟩
    exact hholds.keysHeldOnce_iff.mpr hlength
  · rintro map c ⟨chain, queues, hholds, hlength⟩ hnew
    obtain ⟨chain', hnext⟩ := (hholds.call_simulates c).2
    exact ⟨chain', _, hnext, hholds.lengths_kept hlength hnew⟩
  · rintro map c ⟨chain, queues, hholds, -⟩ hnew honce
    obtain ⟨chain', hnext⟩ := (hholds.call_simulates c).2
    obtain ⟨key, htwice⟩ := hholds.insert_twice hnew
    have hlength := hnext.keysHeldOnce_iff.mp honce key
    omega
  · exact ⟨_, _, empty_holds hash, fun _ => Nat.zero_le 1⟩

/-- In any state a word of calls leads to, a successful insert acts as an
upsert exactly when the key was absent; and no key is ever held twice exactly
when every insert of the word meets an absent key or a full pool. -/
theorem fixedSizedChaining_insert_upserts_iff
    (hash : Key → ℕ) (exponent : ℕ) (calls : List (Call Key Value)) :
    ∃ map, construct (2 ^ exponent) Key Value = .ok map ∧
      let last := CallSystem.stateAfter (call hash) map calls
      (∀ key value, (last.call hash (.insert key value)).2 = .done →
        let inserted := (last.call hash (.insert key value)).1
        let erased := (inserted.call hash (.erase key)).1
        (((inserted.call hash (.find key)).2 = .found (some value) ∧
            (erased.call hash (.contains key)).2 = .flag false) ↔
          last.contains hash key = some false)) ∧
        (CallSystem.AllStates (call hash) KeysHeldOnce map calls ↔
          CallSystem.AllAllowed (call hash) (InsertsNew hash) map calls) := by
  refine ⟨_, construct_pow_two exponent, ?_⟩
  obtain ⟨-, chain, hholds⟩ := run_holds (2 ^ exponent) hash calls
  dsimp only
  refine ⟨?_, keysHeldOnce_iff_insertsNew (2 ^ exponent) hash calls⟩
  intro key value hdone
  obtain ⟨hinsert, chain', hinserted⟩ :=
    hholds.call_simulates (.insert key value)
  obtain ⟨-, chain'', herased⟩ := hinserted.call_simulates (.erase key)
  rw [hinsert] at hdone
  rw [hholds.contains_false_iff, (hinserted.call_simulates (.find key)).1,
    (herased.call_simulates (.contains key)).1]
  exact KeyQueues.insert_upserts_iff _ key value hdone

end Runs

/-- A key inserted twice: `find` yields the older value and one `erase` leaves
the key in the map. -/
theorem fixedSizedChaining_insert_twice :
    ∃ map, construct (2 ^ 0) ℕ ℕ = .ok map ∧
      CallSystem.results (call fun key => key) map
          [.insert 1 5, .insert 1 6, .find 1, .erase 1, .contains 1] =
        [.done, .done, .found (some 5), .flag true, .flag true] := by
  refine ⟨_, construct_pow_two 0, ?_⟩
  rw [(run_holds (2 ^ 0) _ _).1]
  decide

end FixedSizedChainingHashMap
end HashMap
end TradingStudies
