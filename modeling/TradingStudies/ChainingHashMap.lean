import TradingStudies.HashMapInterface

/-!
# The chaining map

`ChainingHashMap` is a vector of `std::list` buckets.  A reference to a stored
value is a bucket and a position in its list: every operation of the map that
returns one is used at once by the client, before the list changes again.
-/

namespace TradingStudies
namespace HashMap

namespace ChainingHashMap

structure Node (Key Value : Type*) where
  key : Key
  value : Value
  deriving DecidableEq, Repr

/-- A `Value&` or a non-null `Value*` into the table. -/
abbrev NodeRef (initBuckets : ℕ) := Fin initBuckets × ℕ

end ChainingHashMap

structure ChainingHashMap (initBuckets : ℕ) (Key Value : Type*) where
  table_ : Fin initBuckets → List (ChainingHashMap.Node Key Value)

namespace ChainingHashMap

variable {initBuckets : ℕ} {Key Value : Type*}

/-- `table_(Const::initBuckets)`: every bucket is an empty list. -/
def empty (initBuckets : ℕ) (Key Value : Type*) :
    ChainingHashMap initBuckets Key Value where
  table_ := fun _ => []

/-- The constructor. -/
def construct (initBuckets : ℕ) (Key Value : Type*) :
    Except String (ChainingHashMap initBuckets Key Value) :=
  if initBuckets = 0 ∨ initBuckets &&& (initBuckets - 1) ≠ 0 then
    .error "initBuckets must be non-zero and a power of 2"
  else .ok (empty initBuckets Key Value)

theorem and_mask_lt [NeZero initBuckets] (value : ℕ) :
    value &&& (initBuckets - 1) < initBuckets := by
  have hle : value &&& (initBuckets - 1) ≤ initBuckets - 1 :=
    Nat.and_le_right
  have hpos := Nat.pos_of_neZero initBuckets
  omega

/-- `std::hash<Key>()(key) & mask_`, with `mask_ = initBuckets - 1`. -/
def bucketIndex [NeZero initBuckets] (hash : Key → ℕ) (key : Key) :
    Fin initBuckets :=
  ⟨hash key &&& (initBuckets - 1), and_mask_lt (hash key)⟩

/-- Replace one bucket. -/
def setBucket (map : ChainingHashMap initBuckets Key Value)
    (index : Fin initBuckets) (bucket : List (Node Key Value)) :
    ChainingHashMap initBuckets Key Value :=
  { map with table_ := Function.update map.table_ index bucket }

/-- Read through a reference. -/
def valueAt (map : ChainingHashMap initBuckets Key Value)
    (ref : NodeRef initBuckets) : Option Value :=
  (map.table_ ref.1)[ref.2]?.map Node.value

/-- Write through a reference. -/
def store (map : ChainingHashMap initBuckets Key Value)
    (ref : NodeRef initBuckets) (value : Value) :
    ChainingHashMap initBuckets Key Value :=
  map.setBucket ref.1
    ((map.table_ ref.1).modify ref.2 fun node => { node with value := value })

section Operations

variable [NeZero initBuckets] [DecidableEq Key]

/-- The loop of every operation: the first node of the bucket with the key. -/
def scan (bucket : List (Node Key Value)) (key : Key) : Option ℕ :=
  bucket.findIdx? fun node => node.key = key

def subscript [Inhabited Value] (hash : Key → ℕ)
    (map : ChainingHashMap initBuckets Key Value) (key : Key) :
    NodeRef initBuckets × ChainingHashMap initBuckets Key Value :=
  let index := bucketIndex hash key
  match scan (map.table_ index) key with
  | some position => ((index, position), map)
  | none =>
      ((index, (map.table_ index).length),
        map.setBucket index (map.table_ index ++ [⟨key, default⟩]))

def insert (hash : Key → ℕ) (map : ChainingHashMap initBuckets Key Value)
    (key : Key) (value : Value) : ChainingHashMap initBuckets Key Value :=
  let index := bucketIndex hash key
  match scan (map.table_ index) key with
  | some position => map.store (index, position) value
  | none => map.setBucket index (map.table_ index ++ [⟨key, value⟩])

def contains (hash : Key → ℕ) (map : ChainingHashMap initBuckets Key Value)
    (key : Key) : Bool :=
  (scan (map.table_ (bucketIndex hash key)) key).isSome

/-- `std::list::remove`: all nodes which `Node::operator==` takes for `node`,
that is all nodes with its key. -/
def remove (bucket : List (Node Key Value)) (node : Node Key Value) :
    List (Node Key Value) :=
  bucket.filter fun other => !(other.key = node.key)

def erase (hash : Key → ℕ) (map : ChainingHashMap initBuckets Key Value)
    (key : Key) : Bool × ChainingHashMap initBuckets Key Value :=
  let index := bucketIndex hash key
  match (map.table_ index).find? fun node => node.key = key with
  | some node => (true, map.setBucket index (remove (map.table_ index) node))
  | none => (false, map)

def find (hash : Key → ℕ) (map : ChainingHashMap initBuckets Key Value)
    (key : Key) : Option (NodeRef initBuckets) :=
  let index := bucketIndex hash key
  (scan (map.table_ index) key).map fun position => (index, position)

/-- The interface of the map as a client drives it. -/
def call [Inhabited Value] (hash : Key → ℕ)
    (map : ChainingHashMap initBuckets Key Value) :
    Call Key Value → ChainingHashMap initBuckets Key Value × Outcome Value
  | .insert key value => (map.insert hash key value, .done)
  | .subscript key =>
      let (ref, next) := map.subscript hash key
      match next.valueAt ref with
      | some value => (next, .value value)
      | none => (next, .undefined)
  | .assign key value =>
      let (ref, next) := map.subscript hash key
      match (next.store ref value).valueAt ref with
      | some written => (next.store ref value, .value written)
      | none => (next.store ref value, .undefined)
  | .contains key => (map, .flag (map.contains hash key))
  | .erase key =>
      let (flag, next) := map.erase hash key
      (next, .flag flag)
  | .find key =>
      match map.find hash key with
      | none => (map, .found none)
      | some ref =>
          match map.valueAt ref with
          | some value => (map, .found (some value))
          | none => (map, .undefined)

end Operations

/-- The pairs in the table, wherever they lie. -/
def Stores (map : ChainingHashMap initBuckets Key Value) (key : Key)
    (value : Value) : Prop :=
  ∃ bucket, (⟨key, value⟩ : Node Key Value) ∈ map.table_ bucket

/-- Two nodes of one key are the same node. -/
def OneNodePerKey (map : ChainingHashMap initBuckets Key Value) : Prop :=
  ∀ (bucket bucket' : Fin initBuckets) (position position' : ℕ)
    (node node' : Node Key Value),
    (map.table_ bucket)[position]? = some node →
      (map.table_ bucket')[position']? = some node' →
        node.key = node'.key → bucket = bucket' ∧ position = position'

/-- Every node is in the bucket its key hashes to. -/
def InOwnBucket [NeZero initBuckets] (hash : Key → ℕ)
    (map : ChainingHashMap initBuckets Key Value) : Prop :=
  ∀ bucket, ∀ node ∈ map.table_ bucket,
    bucket.val = hash node.key &&& (initBuckets - 1)

end ChainingHashMap
end HashMap
end TradingStudies
