import TradingStudies.HashMapInterface

/-!
# The fixed-size chaining map

`FixedSizedChainingHashMap` keeps all of its nodes in one array and threads
the buckets through it.  A `Node*` is null or the position of a node in
`nodesPool_`, so the pointers of the model are `Option (NodePtr initBuckets)`.

The bucket loops follow `next` until they meet a null pointer.  They carry a
number of steps here and return `none` when it is used up; the pool has
`16 * initBuckets` nodes, and `loopSteps` is one more than that.
-/

namespace TradingStudies
namespace HashMap

/-- A non-null `Node*`: a position of `nodesPool_`. -/
abbrev NodePtr (initBuckets : ℕ) := Fin (initBuckets * 16)

namespace FixedSizedChainingHashMap

structure Node (initBuckets : ℕ) (Key Value : Type*) where
  key : Key
  value : Value
  next : Option (NodePtr initBuckets)

end FixedSizedChainingHashMap

structure FixedSizedChainingHashMap
    (initBuckets : ℕ) (Key Value : Type*) where
  buckets_ : Fin initBuckets → Option (NodePtr initBuckets)
  nodesPool_ : NodePtr initBuckets →
    FixedSizedChainingHashMap.Node initBuckets Key Value
  /-- A stack with its top first. -/
  freeNodes_ : List (NodePtr initBuckets)

namespace FixedSizedChainingHashMap

variable {initBuckets : ℕ} {Key Value : Type*}

/-- The empty map: all buckets null, every node on the free stack with the
highest position on top. -/
def empty (initBuckets : ℕ) (Key Value : Type*)
    [Inhabited Key] [Inhabited Value] :
    FixedSizedChainingHashMap initBuckets Key Value where
  buckets_ := fun _ => none
  nodesPool_ := fun _ => ⟨default, default, none⟩
  freeNodes_ := (List.finRange (initBuckets * 16)).reverse

/-- The constructor. -/
def construct (initBuckets : ℕ) (Key Value : Type*)
    [Inhabited Key] [Inhabited Value] :
    Except String (FixedSizedChainingHashMap initBuckets Key Value) :=
  if initBuckets = 0 ∨ initBuckets &&& (initBuckets - 1) ≠ 0 then
    .error "initBuckets must be non-zero and a power of 2"
  else .ok (empty initBuckets Key Value)

/-- `std::hash<Key>()(key) & mask_`, with `mask_ = initBuckets - 1`. -/
def bucketIndex [NeZero initBuckets] (hash : Key → ℕ) (key : Key) :
    Fin initBuckets :=
  ⟨hash key &&& (initBuckets - 1), by
    have hle : hash key &&& (initBuckets - 1) ≤ initBuckets - 1 :=
      Nat.and_le_right
    have hpos := Nat.pos_of_neZero initBuckets
    omega⟩

def loopSteps (initBuckets : ℕ) : ℕ := initBuckets * 16 + 1

/-- The pointer field of the pool. -/
def nextOf (map : FixedSizedChainingHashMap initBuckets Key Value)
    (ptr : NodePtr initBuckets) : Option (NodePtr initBuckets) :=
  (map.nodesPool_ ptr).next

section Operations

variable [NeZero initBuckets] [DecidableEq Key] [Inhabited Value]

/-- The loop shared by all operations: walk the bucket until the key or a null
pointer is met.  The result is the node where the walk stopped and the node
before it. -/
def traverse (map : FixedSizedChainingHashMap initBuckets Key Value)
    (key : Key) :
    ℕ → Option (NodePtr initBuckets) → Option (NodePtr initBuckets) →
      Option (Option (NodePtr initBuckets) × Option (NodePtr initBuckets))
  | 0, _, _ => none
  | _ + 1, none, previous => some (none, previous)
  | steps + 1, some node, previous =>
      if (map.nodesPool_ node).key = key then some (some node, previous)
      else traverse map key steps (map.nodesPool_ node).next (some node)

/-- The walk of an operation on `key` through its bucket. -/
def walk (hash : Key → ℕ)
    (map : FixedSizedChainingHashMap initBuckets Key Value) (key : Key) :
    Option (Option (NodePtr initBuckets) × Option (NodePtr initBuckets)) :=
  map.traverse key (loopSteps initBuckets)
    (map.buckets_ (bucketIndex hash key)) none

/-- `operator[]`: the node whose value the returned reference denotes.  The
outer `none` is an operation that does not return. -/
def subscript (hash : Key → ℕ)
    (map : FixedSizedChainingHashMap initBuckets Key Value) (key : Key) :
    Option (Except String (NodePtr initBuckets) ×
      FixedSizedChainingHashMap initBuckets Key Value) :=
  match map.walk hash key with
  | none => none
  | some (some node, _) => some (.ok node, map)
  | some (none, previous) =>
      match map.freeNodes_ with
      | [] => some (.error "No free nodes available in the pool", map)
      | new_node :: rest =>
          let pool := Function.update map.nodesPool_ new_node
            ⟨key, default, none⟩
          match map.buckets_ (bucketIndex hash key), previous with
          | none, _ =>
              some (.ok new_node, {
                buckets_ := Function.update map.buckets_
                  (bucketIndex hash key) (some new_node)
                nodesPool_ := pool
                freeNodes_ := rest })
          | some _, some previous =>
              some (.ok new_node, {
                buckets_ := map.buckets_
                nodesPool_ := Function.update pool previous
                  { pool previous with next := some new_node }
                freeNodes_ := rest })
          -- `previous->next` through a null pointer
          | some _, none => none

def contains (hash : Key → ℕ)
    (map : FixedSizedChainingHashMap initBuckets Key Value) (key : Key) :
    Option Bool :=
  (map.walk hash key).map fun stop => stop.1.isSome

def find (hash : Key → ℕ)
    (map : FixedSizedChainingHashMap initBuckets Key Value) (key : Key) :
    Option (Option (NodePtr initBuckets)) :=
  (map.walk hash key).map Prod.fst

def erase (hash : Key → ℕ)
    (map : FixedSizedChainingHashMap initBuckets Key Value) (key : Key) :
    Option (Bool × FixedSizedChainingHashMap initBuckets Key Value) :=
  match map.walk hash key with
  | none => none
  | some (none, _) => some (false, map)
  | some (some node, none) =>
      some (true, { map with
        buckets_ := Function.update map.buckets_ (bucketIndex hash key)
          (map.nodesPool_ node).next
        freeNodes_ := node :: map.freeNodes_ })
  | some (some node, some prev) =>
      some (true, { map with
        nodesPool_ := Function.update map.nodesPool_ prev
          { map.nodesPool_ prev with next := (map.nodesPool_ node).next }
        freeNodes_ := node :: map.freeNodes_ })

/-- The loop of `insert` that looks for the last node of a bucket. -/
def lastNode (map : FixedSizedChainingHashMap initBuckets Key Value) :
    ℕ → NodePtr initBuckets → Option (NodePtr initBuckets)
  | 0, _ => none
  | steps + 1, node =>
      match (map.nodesPool_ node).next with
      | none => some node
      | some next => lastNode map steps next

/-- `insert` appends a node without looking for the key. -/
def insert (hash : Key → ℕ)
    (map : FixedSizedChainingHashMap initBuckets Key Value)
    (key : Key) (value : Value) :
    Option (Except String Unit ×
      FixedSizedChainingHashMap initBuckets Key Value) :=
  match map.freeNodes_ with
  | [] => some (.error "No free nodes available in the pool", map)
  | current :: rest =>
      let pool := Function.update map.nodesPool_ current ⟨key, value, none⟩
      let filled : FixedSizedChainingHashMap initBuckets Key Value :=
        { map with nodesPool_ := pool, freeNodes_ := rest }
      match map.buckets_ (bucketIndex hash key) with
      | none =>
          some (.ok (), { filled with
            buckets_ := Function.update map.buckets_ (bucketIndex hash key)
              (some current) })
      | some node =>
          match filled.lastNode (loopSteps initBuckets) node with
          | none => none
          | some last =>
              some (.ok (), { filled with
                nodesPool_ := Function.update pool last
                  { pool last with next := some current } })

/-- A write through a reference or pointer returned by the map. -/
def store (map : FixedSizedChainingHashMap initBuckets Key Value)
    (ptr : NodePtr initBuckets) (value : Value) :
    FixedSizedChainingHashMap initBuckets Key Value :=
  { map with
    nodesPool_ := Function.update map.nodesPool_ ptr
      { map.nodesPool_ ptr with value := value } }

/-- The interface of the map as a client drives it. -/
def call (hash : Key → ℕ)
    (map : FixedSizedChainingHashMap initBuckets Key Value) :
    Call Key Value →
      FixedSizedChainingHashMap initBuckets Key Value × Outcome Value
  | .insert key value =>
      match map.insert hash key value with
      | none => (map, .undefined)
      | some (.error message, map) => (map, .threw message)
      | some (.ok _, map) => (map, .done)
  | .subscript key =>
      match map.subscript hash key with
      | none => (map, .undefined)
      | some (.error message, map) => (map, .threw message)
      | some (.ok ptr, map) => (map, .value (map.nodesPool_ ptr).value)
  | .assign key value =>
      match map.subscript hash key with
      | none => (map, .undefined)
      | some (.error message, map) => (map, .threw message)
      | some (.ok ptr, map) => (map.store ptr value, .value value)
  | .contains key =>
      match map.contains hash key with
      | none => (map, .undefined)
      | some flag => (map, .flag flag)
  | .erase key =>
      match map.erase hash key with
      | none => (map, .undefined)
      | some (flag, map) => (map, .flag flag)
  | .find key =>
      match map.find hash key with
      | none => (map, .undefined)
      | some none => (map, .found none)
      | some (some ptr) => (map, .found (some (map.nodesPool_ ptr).value))

end Operations

end FixedSizedChainingHashMap
end HashMap
end TradingStudies
