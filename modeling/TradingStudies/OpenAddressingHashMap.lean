import TradingStudies.HashMapInterface
import TradingStudies.Library.ProbeLoop
import TradingStudies.Library.SignificandRound

/-!
# The open-addressing map

`OpenAddressingHashMap` keeps its nodes in one table and probes it linearly.
An erased node stays behind as `DELETED`.  The table doubles when one more node
would exceed the load factor; `reHash` then inserts the nodes of the old table
into the new one through `insert`, which checks the load again.

The load factor is a `float`.  The comparison of the model computes in single
precision, 24 binary digits rounded to nearest even; sizes are natural numbers.

The loops and the nesting of `reHash` inside `insert` carry a number of steps.
-/

namespace TradingStudies
namespace HashMap

namespace OpenAddressingHashMap

inductive Status
  | EMPTY
  | OCCUPIED
  | DELETED
  deriving DecidableEq, Repr

structure Node (Key Value : Type*) where
  key_ : Key
  value_ : Value
  status : Status
  deriving DecidableEq, Repr

end OpenAddressingHashMap

structure OpenAddressingHashMap (Key Value : Type*) where
  table_ : List (OpenAddressingHashMap.Node Key Value)
  size_ : ℕ
  mask_ : ℕ

namespace OpenAddressingHashMap

open ProbeLoop

/-- `0.7f` is `maxLoadFactor_ / 2 ^ 24`. -/
def maxLoadFactor_ : ℕ := 11744051

/-- `count > tableSize * maxLoadFactor_` in single precision. -/
def exceedsLoad (count tableSize : ℕ) : Bool :=
  decide (SignificandRound.round 24 count * 2 ^ 24 >
    SignificandRound.round 24
      (maxLoadFactor_ * SignificandRound.round 24 tableSize))

variable {Key Value : Type*} [Inhabited Key] [Inhabited Value]

def fresh : Node Key Value := ⟨default, default, .EMPTY⟩

def ofSize (Key Value : Type*) [Inhabited Key] [Inhabited Value]
    (tableSize : ℕ) : OpenAddressingHashMap Key Value where
  table_ := List.replicate tableSize fresh
  size_ := 0
  mask_ := tableSize - 1

/-- The constructor. -/
def construct (initBuckets : ℕ) (Key Value : Type*)
    [Inhabited Key] [Inhabited Value] : OpenAddressingHashMap Key Value :=
  ofSize Key Value initBuckets

/-- `table_[index]` -/
def nodeAt (map : OpenAddressingHashMap Key Value) (index : ℕ) :
    Node Key Value :=
  map.table_.getD index fresh

def setNode (map : OpenAddressingHashMap Key Value) (index : ℕ)
    (node : Node Key Value) : OpenAddressingHashMap Key Value :=
  { map with table_ := map.table_.set index node }

def setValue (map : OpenAddressingHashMap Key Value) (index : ℕ)
    (value : Value) : OpenAddressingHashMap Key Value :=
  map.setNode index { map.nodeAt index with value_ := value }

/-- A node is written into a slot that was not occupied. -/
def occupy (map : OpenAddressingHashMap Key Value) (index : ℕ) (key : Key)
    (value : Value) : OpenAddressingHashMap Key Value :=
  { map.setNode index ⟨key, value, .OCCUPIED⟩ with size_ := map.size_ + 1 }

def vacate (map : OpenAddressingHashMap Key Value) (index : ℕ) :
    OpenAddressingHashMap Key Value :=
  { map.setNode index { map.nodeAt index with status := .DELETED } with
    size_ := map.size_ - 1 }

def getHash (hash : Key → ℕ) (map : OpenAddressingHashMap Key Value)
    (key : Key) : ℕ :=
  hash key &&& map.mask_

/-- `(index + 1) & mask_` -/
def nextIndex (mask_ index : ℕ) : ℕ := (index + 1) &&& mask_

section Operations

variable [DecidableEq Key]

def Node.holds (node : Node Key Value) (key : Key) : Bool :=
  decide (node.status = .OCCUPIED ∧ node.key_ = key)

/-- The loops of `contains`, `erase` and `find` pass over deleted nodes. -/
def stopsSearch (map : OpenAddressingHashMap Key Value) (key : Key)
    (index : ℕ) : Bool :=
  decide ((map.nodeAt index).status = .EMPTY) || (map.nodeAt index).holds key

/-- The loops of `operator[]` and `insert` stop at a deleted node. -/
def stopsInsert (map : OpenAddressingHashMap Key Value) (key : Key)
    (index : ℕ) : Bool :=
  decide ((map.nodeAt index).status ≠ .OCCUPIED) ||
    (map.nodeAt index).holds key

/-- The index of the node with the key, if the search finds one. -/
def search (hash : Key → ℕ) (map : OpenAddressingHashMap Key Value)
    (key : Key) : Option (Option ℕ) :=
  let originalIndex := map.getHash hash key
  match probe (nextIndex map.mask_) (map.stopsSearch key)
      (some originalIndex) (map.table_.length + 1) originalIndex with
  | none => none
  | some .wrapped => some none
  | some (.stopped index) =>
      if (map.nodeAt index).holds key then some (some index) else some none

def contains (hash : Key → ℕ) (map : OpenAddressingHashMap Key Value)
    (key : Key) : Option Bool :=
  (map.search hash key).map Option.isSome

def find (hash : Key → ℕ) (map : OpenAddressingHashMap Key Value)
    (key : Key) : Option (Option Value) :=
  (map.search hash key).map fun found =>
    found.map fun index => (map.nodeAt index).value_

def erase (hash : Key → ℕ) (map : OpenAddressingHashMap Key Value)
    (key : Key) : Option (OpenAddressingHashMap Key Value × Bool) :=
  (map.search hash key).map fun found =>
    match found with
    | some index => (map.vacate index, true)
    | none => (map, false)

/-- The part of `insert` after the load check.  Its loop does not watch for
`originalIndex`. -/
def place (hash : Key → ℕ) (map : OpenAddressingHashMap Key Value)
    (key : Key) (value : Value) :
    Option (OpenAddressingHashMap Key Value) :=
  match probe (nextIndex map.mask_) (map.stopsInsert key) none
      (map.table_.length + 1) (map.getHash hash key) with
  | some (.stopped index) =>
      if (map.nodeAt index).status = .OCCUPIED then
        some (map.setValue index value)
      else some (map.occupy index key value)
  | _ => none

/-- `reHash`, with the `insert` it calls as a parameter. -/
def reHashWith
    (insert : OpenAddressingHashMap Key Value → Key → Value →
      Option (OpenAddressingHashMap Key Value))
    (map : OpenAddressingHashMap Key Value) :
    Option (OpenAddressingHashMap Key Value) :=
  map.table_.foldlM
    (fun new node =>
      if node.status = .OCCUPIED then insert new node.key_ node.value_
      else some new)
    (ofSize Key Value (map.table_.length * 2))

def insertNested (exceeds : ℕ → ℕ → Bool) (hash : Key → ℕ) :
    ℕ → OpenAddressingHashMap Key Value → Key → Value →
      Option (OpenAddressingHashMap Key Value)
  | 0, _, _, _ => none
  | nesting + 1, map, key, value =>
      if exceeds (map.size_ + 1) map.table_.length then
        match reHashWith (insertNested exceeds hash nesting) map with
        | none => none
        | some map => map.place hash key value
      else map.place hash key value

/-- More than `reHash` and `operator[]` ever nest. -/
def nestingSteps (map : OpenAddressingHashMap Key Value) : ℕ :=
  map.table_.length + 2

def insert (exceeds : ℕ → ℕ → Bool) (hash : Key → ℕ)
    (map : OpenAddressingHashMap Key Value) (key : Key) (value : Value) :
    Option (OpenAddressingHashMap Key Value) :=
  insertNested exceeds hash map.nestingSteps map key value

def reHash (exceeds : ℕ → ℕ → Bool) (hash : Key → ℕ)
    (map : OpenAddressingHashMap Key Value) :
    Option (OpenAddressingHashMap Key Value) :=
  reHashWith (insertNested exceeds hash map.nestingSteps) map

def subscriptNested (exceeds : ℕ → ℕ → Bool) (hash : Key → ℕ) :
    ℕ → OpenAddressingHashMap Key Value → Key →
      Option (OpenAddressingHashMap Key Value × Except String ℕ)
  | 0, _, _ => none
  | nesting + 1, map, key =>
      let originalIndex := map.getHash hash key
      match probe (nextIndex map.mask_) (map.stopsInsert key)
          (some originalIndex) (map.table_.length + 1) originalIndex with
      | none => none
      | some .wrapped => some (map, .error "HashMap is full")
      | some (.stopped index) =>
          if (map.nodeAt index).status = .OCCUPIED then some (map, .ok index)
          else if exceeds (map.size_ + 1) map.table_.length then
            match map.reHash exceeds hash with
            | none => none
            | some map => subscriptNested exceeds hash nesting map key
          else some (map.occupy index key default, .ok index)

/-- `operator[]`: the index of the node whose value the returned reference
denotes. -/
def subscript (exceeds : ℕ → ℕ → Bool) (hash : Key → ℕ)
    (map : OpenAddressingHashMap Key Value) (key : Key) :
    Option (OpenAddressingHashMap Key Value × Except String ℕ) :=
  subscriptNested exceeds hash map.nestingSteps map key

def call (exceeds : ℕ → ℕ → Bool) (hash : Key → ℕ)
    (map : OpenAddressingHashMap Key Value) :
    Call Key Value → OpenAddressingHashMap Key Value × Outcome Value
  | .insert key value =>
      match map.insert exceeds hash key value with
      | none => (map, .undefined)
      | some map => (map, .done)
  | .subscript key =>
      match map.subscript exceeds hash key with
      | none => (map, .undefined)
      | some (map, .error message) => (map, .threw message)
      | some (map, .ok index) => (map, .value (map.nodeAt index).value_)
  | .assign key value =>
      match map.subscript exceeds hash key with
      | none => (map, .undefined)
      | some (map, .error message) => (map, .threw message)
      | some (map, .ok index) => (map.setValue index value, .value value)
  | .contains key =>
      match map.contains hash key with
      | none => (map, .undefined)
      | some flag => (map, .flag flag)
  | .erase key =>
      match map.erase hash key with
      | none => (map, .undefined)
      | some (map, flag) => (map, .flag flag)
  | .find key =>
      match map.find hash key with
      | none => (map, .undefined)
      | some found => (map, .found found)

end Operations

end OpenAddressingHashMap
end HashMap
end TradingStudies
