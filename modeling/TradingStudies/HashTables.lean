import TradingStudies.ChainingRefinement
import TradingStudies.OpenAddressingHashMap

/-!
# The tables of HashTables.cpp

`ChainingHashTable` and `OpenAddressingHashTable` are the plain forms of the
maps in `HashMap.hpp`: they take the remainder by the size of the table where
the maps apply a mask, and they are constructed with any size.

A chaining table of any size is a chaining map with more buckets whose hash
values have been reduced first.  An open-addressing table with a power of two
for its size goes through the same tables as the map.
-/

namespace TradingStudies
namespace HashTables

open HashMap

variable {Key Value : Type*}

inductive TableCall (Key Value : Type*)
  | insert (key : Key) (value : Value)
  | contains (key : Key)
  | remove (key : Key)
  | find (key : Key)
  deriving DecidableEq, Repr

/-- The same use of a map; `erase` was called `remove`. -/
def TableCall.toCall : TableCall Key Value → Call Key Value
  | .insert key value => .insert key value
  | .contains key => .contains key
  | .remove key => .erase key
  | .find key => .find key

/-! ## Chaining -/

structure ChainingHashTable (size : ℕ) (Key Value : Type*) where
  table_ : Fin size → List (ChainingHashMap.Node Key Value)

namespace ChainingHashTable

variable {size : ℕ}

/-- The constructor. -/
def construct (size : ℕ) (Key Value : Type*) :
    ChainingHashTable size Key Value where
  table_ := fun _ => []

/-- `std::hash<Key>()(key) % table_.size()` -/
def bucketIndex [NeZero size] (hash : Key → ℕ) (key : Key) : Fin size :=
  ⟨hash key % size, Nat.mod_lt _ (Nat.pos_of_neZero size)⟩

def setBucket (table : ChainingHashTable size Key Value) (index : Fin size)
    (bucket : List (ChainingHashMap.Node Key Value)) :
    ChainingHashTable size Key Value :=
  { table with table_ := Function.update table.table_ index bucket }

section Operations

variable [NeZero size] [DecidableEq Key]

def insert (hash : Key → ℕ) (table : ChainingHashTable size Key Value)
    (key : Key) (value : Value) : ChainingHashTable size Key Value :=
  let index := bucketIndex hash key
  match ChainingHashMap.scan (table.table_ index) key with
  | some position =>
      table.setBucket index ((table.table_ index).modify position fun node =>
        { node with value := value })
  | none => table.setBucket index (table.table_ index ++ [⟨key, value⟩])

def contains (hash : Key → ℕ) (table : ChainingHashTable size Key Value)
    (key : Key) : Bool :=
  (ChainingHashMap.scan (table.table_ (bucketIndex hash key)) key).isSome

def remove (hash : Key → ℕ) (table : ChainingHashTable size Key Value)
    (key : Key) : Bool × ChainingHashTable size Key Value :=
  let index := bucketIndex hash key
  match (table.table_ index).find? fun node => node.key = key with
  | some node =>
      (true, table.setBucket index
        (ChainingHashMap.remove (table.table_ index) node))
  | none => (false, table)

/-- A non-null pointer is a bucket and a position in its list. -/
def find (hash : Key → ℕ) (table : ChainingHashTable size Key Value)
    (key : Key) : Option (Fin size × ℕ) :=
  let index := bucketIndex hash key
  (ChainingHashMap.scan (table.table_ index) key).map fun position =>
    (index, position)

def valueAt (table : ChainingHashTable size Key Value)
    (pointer : Fin size × ℕ) : Option Value :=
  (table.table_ pointer.1)[pointer.2]?.map ChainingHashMap.Node.value

def call (hash : Key → ℕ) (table : ChainingHashTable size Key Value) :
    TableCall Key Value → ChainingHashTable size Key Value × Outcome Value
  | .insert key value => (table.insert hash key value, .done)
  | .contains key => (table, .flag (table.contains hash key))
  | .remove key =>
      let (flag, next) := table.remove hash key
      (next, .flag flag)
  | .find key =>
      match table.find hash key with
      | none => (table, .found none)
      | some pointer =>
          match table.valueAt pointer with
          | some value => (table, .found (some value))
          | none => (table, .undefined)

end Operations

/-! ### A map with more buckets -/

/-- The first buckets of the map are those of the table. -/
def SameBuckets {initBuckets : ℕ} (hsize : size ≤ initBuckets)
    (table : ChainingHashTable size Key Value)
    (map : ChainingHashMap initBuckets Key Value) : Prop :=
  ∀ index : Fin size,
    map.table_ (Fin.castLE hsize index) = table.table_ index

section Simulation

variable [NeZero size] {exponent : ℕ} {hsize : size ≤ 2 ^ exponent}
  {hash : Key → ℕ} {table : ChainingHashTable size Key Value}
  {map : ChainingHashMap (2 ^ exponent) Key Value}

/-- A hash value below the number of buckets passes the mask. -/
theorem bucketIndex_reduced (hsize : size ≤ 2 ^ exponent) (hash : Key → ℕ)
    (key : Key) :
    @ChainingHashMap.bucketIndex (2 ^ exponent) Key _
        (fun key => hash key % size) key =
      Fin.castLE hsize (bucketIndex hash key) := by
  apply Fin.ext
  show (hash key % size) &&& (2 ^ exponent - 1) = hash key % size
  have hlt := Nat.mod_lt (hash key) (Nat.pos_of_neZero size)
  rw [Nat.and_two_pow_sub_one_eq_mod]
  exact Nat.mod_eq_of_lt (lt_of_lt_of_le hlt hsize)

omit [NeZero size] in
theorem SameBuckets.setBucket (hsame : SameBuckets hsize table map)
    (index : Fin size) (bucket : List (ChainingHashMap.Node Key Value)) :
    SameBuckets hsize (table.setBucket index bucket)
      (map.setBucket (Fin.castLE hsize index) bucket) := by
  intro other
  show Function.update map.table_ _ bucket _ =
    Function.update table.table_ index bucket other
  by_cases heq : other = index
  · subst other
    rw [Function.update_self, Function.update_self]
  · have hne : Fin.castLE hsize other ≠ Fin.castLE hsize index :=
      fun h => heq (Fin.castLE_injective hsize h)
    rw [Function.update_of_ne hne, Function.update_of_ne heq]
    exact hsame other

variable [DecidableEq Key] [Inhabited Value]

theorem SameBuckets.call (hsame : SameBuckets hsize table map)
    (c : TableCall Key Value) :
    (ChainingHashTable.call hash table c).2 =
        (ChainingHashMap.call (fun key => hash key % size) map c.toCall).2 ∧
      SameBuckets hsize (ChainingHashTable.call hash table c).1
        (ChainingHashMap.call (fun key => hash key % size) map
          c.toCall).1 := by
  cases c with
  | insert key value =>
      have hbucket := hsame (bucketIndex hash key)
      refine ⟨rfl, ?_⟩
      simp only [ChainingHashTable.call, TableCall.toCall,
        ChainingHashMap.call, ChainingHashTable.insert,
        ChainingHashMap.insert, bucketIndex_reduced hsize, hbucket]
      cases hscan : ChainingHashMap.scan
          (table.table_ (bucketIndex hash key)) key with
      | none => exact hsame.setBucket _ _
      | some position =>
          simp only [ChainingHashMap.store, hbucket]
          exact hsame.setBucket _ _
  | contains key =>
      have hbucket := hsame (bucketIndex hash key)
      refine ⟨?_, hsame⟩
      simp only [ChainingHashTable.call, TableCall.toCall,
        ChainingHashMap.call, ChainingHashTable.contains,
        ChainingHashMap.contains, bucketIndex_reduced hsize, hbucket]
  | remove key =>
      have hbucket := hsame (bucketIndex hash key)
      simp only [ChainingHashTable.call, TableCall.toCall,
        ChainingHashMap.call, ChainingHashTable.remove,
        ChainingHashMap.erase, bucketIndex_reduced hsize, hbucket]
      cases (table.table_ (bucketIndex hash key)).find? fun node =>
          node.key = key with
      | none => exact ⟨rfl, hsame⟩
      | some node => exact ⟨rfl, hsame.setBucket _ _⟩
  | find key =>
      have hbucket := hsame (bucketIndex hash key)
      simp only [ChainingHashTable.call, TableCall.toCall,
        ChainingHashMap.call, ChainingHashTable.find, ChainingHashMap.find,
        bucketIndex_reduced hsize, hbucket]
      cases ChainingHashMap.scan
          (table.table_ (bucketIndex hash key)) key with
      | none => exact ⟨rfl, hsame⟩
      | some position =>
          simp only [Option.map_some, ChainingHashTable.valueAt,
            ChainingHashMap.valueAt, hbucket]
          cases ((table.table_ (bucketIndex hash key))[position]?).map
              ChainingHashMap.Node.value with
          | none => exact ⟨rfl, hsame⟩
          | some value => exact ⟨rfl, hsame⟩

end Simulation

/-- A table of any size answers every word of calls like a partial map. -/
theorem chainingHashTable_refines_partialMap [DecidableEq Key]
    [Inhabited Value] (hash : Key → ℕ) (size : ℕ) [NeZero size]
    (calls : List (TableCall Key Value)) :
    CallSystem.results (call hash) (construct size Key Value) calls =
      CallSystem.results
        (fun content c => abstractCall unbounded content (TableCall.toCall c))
        ∅ calls := by
  have hsize : size ≤ 2 ^ size := Nat.lt_two_pow_self.le
  have hstart : SameBuckets hsize (construct size Key Value)
      (ChainingHashMap.empty (2 ^ size) Key Value) := fun _ => rfl
  have hempty := @ChainingHashMap.empty_represents (2 ^ size) Key Value _ _
    fun key => hash key % size
  apply And.left
  apply CallSystem.simulation (fun _ _ => True)
    (fun table content => ∃ map, SameBuckets hsize table map ∧
      ChainingHashMap.Represents (fun key => hash key % size) map content)
    ?_ ⟨_, hstart, hempty⟩ (CallSystem.allAllowed_of_forall fun _ _ => trivial)
  rintro table content c ⟨map, hsame, hrep⟩ -
  obtain ⟨hanswer, hnext⟩ := hsame.call c
  obtain ⟨hresult, hrep'⟩ := ChainingHashMap.call_represents hrep c.toCall
  exact ⟨hanswer.trans hresult, _, hnext, hrep'⟩

/-- Three buckets, two keys in one of them. -/
theorem chainingHashTable_refines_partialMap_three :
    CallSystem.results (call id) (construct 3 ℕ ℕ)
        [.insert 4 7, .insert 1 8, .remove 4, .find 1, .contains 4] =
      CallSystem.results
        (fun content c => abstractCall unbounded content (TableCall.toCall c))
        ∅ [.insert 4 7, .insert 1 8, .remove 4, .find 1, .contains 4] :=
  chainingHashTable_refines_partialMap id 3 _

end ChainingHashTable

/-! ## Open addressing -/

structure OpenAddressingHashTable (Key Value : Type*) where
  table_ : List (OpenAddressingHashMap.Node Key Value)
  size_ : ℕ

namespace OpenAddressingHashTable

open ProbeLoop

/-- The constructor, and the new table of `reHash`. -/
def ofSize (Key Value : Type*) [Inhabited Key] [Inhabited Value]
    (size : ℕ) : OpenAddressingHashTable Key Value where
  table_ := List.replicate size OpenAddressingHashMap.fresh
  size_ := 0

def setNode (table : OpenAddressingHashTable Key Value) (index : ℕ)
    (node : OpenAddressingHashMap.Node Key Value) :
    OpenAddressingHashTable Key Value :=
  { table with table_ := table.table_.set index node }

/-- `std::hash<Key>()(key) % table_.size()` -/
def getHash (hash : Key → ℕ) (table : OpenAddressingHashTable Key Value)
    (key : Key) : ℕ :=
  hash key % table.table_.length

/-- `(index + 1) % table_.size()` -/
def nextIndex (size index : ℕ) : ℕ := (index + 1) % size

section Operations

variable [Inhabited Key] [Inhabited Value] [DecidableEq Key]

def nodeAt (table : OpenAddressingHashTable Key Value) (index : ℕ) :
    OpenAddressingHashMap.Node Key Value :=
  table.table_.getD index OpenAddressingHashMap.fresh

/-- A node is written into a slot that was not occupied. -/
def occupy (table : OpenAddressingHashTable Key Value) (index : ℕ)
    (key : Key) (value : Value) : OpenAddressingHashTable Key Value :=
  { table.setNode index ⟨key, value, .OCCUPIED⟩ with
    size_ := table.size_ + 1 }

def vacate (table : OpenAddressingHashTable Key Value) (index : ℕ) :
    OpenAddressingHashTable Key Value :=
  { table.setNode index { table.nodeAt index with status := .DELETED } with
    size_ := table.size_ - 1 }

/-- The loops of `contains`, `remove` and `find`. -/
def stopsSearch (table : OpenAddressingHashTable Key Value) (key : Key)
    (index : ℕ) : Bool :=
  decide ((table.nodeAt index).status = .EMPTY) ||
    (table.nodeAt index).holds key

/-- The loop of `insert`. -/
def stopsInsert (table : OpenAddressingHashTable Key Value) (key : Key)
    (index : ℕ) : Bool :=
  decide ((table.nodeAt index).status ≠ .OCCUPIED) ||
    (table.nodeAt index).holds key

def search (hash : Key → ℕ) (table : OpenAddressingHashTable Key Value)
    (key : Key) : Option (Option ℕ) :=
  let originalIndex := table.getHash hash key
  match probe (nextIndex table.table_.length) (table.stopsSearch key)
      (some originalIndex) (table.table_.length + 1) originalIndex with
  | none => none
  | some .wrapped => some none
  | some (.stopped index) =>
      if (table.nodeAt index).holds key then some (some index)
      else some none

def contains (hash : Key → ℕ) (table : OpenAddressingHashTable Key Value)
    (key : Key) : Option Bool :=
  (table.search hash key).map Option.isSome

def find (hash : Key → ℕ) (table : OpenAddressingHashTable Key Value)
    (key : Key) : Option (Option Value) :=
  (table.search hash key).map fun found =>
    found.map fun index => (table.nodeAt index).value_

def remove (hash : Key → ℕ) (table : OpenAddressingHashTable Key Value)
    (key : Key) : Option (OpenAddressingHashTable Key Value × Bool) :=
  (table.search hash key).map fun found =>
    match found with
    | some index =>
        (table.vacate index, true)
    | none => (table, false)

/-- `insert` after the load check. -/
def place (hash : Key → ℕ) (table : OpenAddressingHashTable Key Value)
    (key : Key) (value : Value) :
    Option (OpenAddressingHashTable Key Value) :=
  match probe (nextIndex table.table_.length) (table.stopsInsert key) none
      (table.table_.length + 1) (table.getHash hash key) with
  | some (.stopped index) =>
      if (table.nodeAt index).status = .OCCUPIED then
        some (table.setNode index
          { table.nodeAt index with value_ := value })
      else
        some (table.occupy index key value)
  | _ => none

/-- `reHash`, with the `insert` it calls as a parameter. -/
def reHashWith
    (insert : OpenAddressingHashTable Key Value → Key → Value →
      Option (OpenAddressingHashTable Key Value))
    (table : OpenAddressingHashTable Key Value) :
    Option (OpenAddressingHashTable Key Value) :=
  table.table_.foldlM
    (fun new node =>
      if node.status = .OCCUPIED then insert new node.key_ node.value_
      else some new)
    (ofSize Key Value (table.table_.length * 2))

def insertNested (exceeds : ℕ → ℕ → Bool) (hash : Key → ℕ) :
    ℕ → OpenAddressingHashTable Key Value → Key → Value →
      Option (OpenAddressingHashTable Key Value)
  | 0, _, _, _ => none
  | nesting + 1, table, key, value =>
      if exceeds (table.size_ + 1) table.table_.length then
        match reHashWith (insertNested exceeds hash nesting) table with
        | none => none
        | some table => table.place hash key value
      else table.place hash key value

def insert (exceeds : ℕ → ℕ → Bool) (hash : Key → ℕ)
    (table : OpenAddressingHashTable Key Value) (key : Key) (value : Value) :
    Option (OpenAddressingHashTable Key Value) :=
  insertNested exceeds hash (table.table_.length + 2) table key value

def call (exceeds : ℕ → ℕ → Bool) (hash : Key → ℕ)
    (table : OpenAddressingHashTable Key Value) :
    TableCall Key Value →
      OpenAddressingHashTable Key Value × HashMap.Outcome Value
  | .insert key value =>
      match table.insert exceeds hash key value with
      | none => (table, .undefined)
      | some table => (table, .done)
  | .contains key =>
      match table.contains hash key with
      | none => (table, .undefined)
      | some flag => (table, .flag flag)
  | .remove key =>
      match table.remove hash key with
      | none => (table, .undefined)
      | some (table, flag) => (table, .flag flag)
  | .find key =>
      match table.find hash key with
      | none => (table, .undefined)
      | some found => (table, .found found)

end Operations

/-! ### The map with the same table -/

/-- `mask_` is one less than the size of the table. -/
def toMap (table : OpenAddressingHashTable Key Value) :
    OpenAddressingHashMap Key Value where
  table_ := table.table_
  size_ := table.size_
  mask_ := table.table_.length - 1

/-- The size of the table is a power of two. -/
def PowerSized (table : OpenAddressingHashTable Key Value) : Prop :=
  ∃ exponent, table.table_.length = 2 ^ exponent

section Agreement

variable {exceeds : ℕ → ℕ → Bool} {hash : Key → ℕ}
  {table : OpenAddressingHashTable Key Value}

theorem PowerSized.nextIndex_eq (hpower : table.PowerSized) :
    nextIndex table.table_.length =
      OpenAddressingHashMap.nextIndex table.toMap.mask_ := by
  obtain ⟨exponent, hlength⟩ := hpower
  funext index
  show (index + 1) % table.table_.length =
    (index + 1) &&& (table.table_.length - 1)
  rw [hlength, Nat.and_two_pow_sub_one_eq_mod]

theorem PowerSized.getHash_eq (hpower : table.PowerSized) (key : Key) :
    table.getHash hash key = table.toMap.getHash hash key := by
  obtain ⟨exponent, hlength⟩ := hpower
  show hash key % table.table_.length =
    hash key &&& (table.table_.length - 1)
  rw [hlength, Nat.and_two_pow_sub_one_eq_mod]

theorem PowerSized.setNode (hpower : table.PowerSized) (index : ℕ)
    (node : OpenAddressingHashMap.Node Key Value) :
    (table.setNode index node).PowerSized := by
  obtain ⟨exponent, hlength⟩ := hpower
  exact ⟨exponent, (List.length_set).trans hlength⟩

theorem toMap_setNode (index : ℕ)
    (node : OpenAddressingHashMap.Node Key Value) :
    (table.setNode index node).toMap = table.toMap.setNode index node := by
  simp [toMap, OpenAddressingHashTable.setNode, OpenAddressingHashMap.setNode]

variable [Inhabited Key] [Inhabited Value]

omit [Inhabited Key] [Inhabited Value] in
theorem toMap_occupy (index : ℕ) (key : Key) (value : Value) :
    (table.occupy index key value).toMap =
      table.toMap.occupy index key value := by
  simp [toMap, occupy, OpenAddressingHashTable.setNode,
    OpenAddressingHashMap.occupy, OpenAddressingHashMap.setNode]

theorem toMap_vacate (index : ℕ) :
    (table.vacate index).toMap = table.toMap.vacate index := by
  simp [toMap, vacate, OpenAddressingHashTable.setNode, nodeAt,
    OpenAddressingHashMap.vacate, OpenAddressingHashMap.setNode,
    OpenAddressingHashMap.nodeAt]

theorem toMap_ofSize (size : ℕ) :
    (ofSize Key Value size).toMap =
      OpenAddressingHashMap.ofSize Key Value size := by
  simp [toMap, ofSize, OpenAddressingHashMap.ofSize]

theorem powerSized_ofSize (exponent : ℕ) :
    (ofSize Key Value (2 ^ exponent)).PowerSized :=
  ⟨exponent, List.length_replicate⟩

variable [DecidableEq Key]

theorem PowerSized.search_eq (hpower : table.PowerSized) (key : Key) :
    table.search hash key = table.toMap.search hash key := by
  unfold search OpenAddressingHashMap.search
  rw [hpower.nextIndex_eq, hpower.getHash_eq]
  rfl

/-- The operations return together, in maps with the same tables. -/
def Agrees (result : Option (OpenAddressingHashTable Key Value))
    (result' : Option (OpenAddressingHashMap Key Value)) : Prop :=
  result.map toMap = result' ∧ ∀ next, result = some next → next.PowerSized

theorem PowerSized.place_agrees (hpower : table.PowerSized) (key : Key)
    (value : Value) :
    Agrees (table.place hash key value)
      (table.toMap.place hash key value) := by
  unfold place OpenAddressingHashMap.place
  rw [hpower.nextIndex_eq, hpower.getHash_eq]
  have hstops : table.stopsInsert key = table.toMap.stopsInsert key := rfl
  have hlength : table.toMap.table_.length = table.table_.length := rfl
  rw [hstops, hlength]
  cases probe (OpenAddressingHashMap.nextIndex table.toMap.mask_)
      (table.toMap.stopsInsert key) none (table.table_.length + 1)
      (table.toMap.getHash hash key) with
  | none => exact ⟨rfl, nofun⟩
  | some outcome =>
      cases outcome with
      | wrapped => exact ⟨rfl, nofun⟩
      | stopped index =>
          have hnode : table.toMap.nodeAt index = table.nodeAt index := rfl
          simp only [hnode]
          split
          · refine ⟨?_, ?_⟩
            · exact congrArg some (toMap_setNode index _)
            · rintro next ⟨⟩
              exact hpower.setNode index _
          · refine ⟨?_, ?_⟩
            · exact congrArg some (toMap_occupy index key value)
            · rintro next ⟨⟩
              exact hpower.setNode index _

omit [Inhabited Key] [Inhabited Value] [DecidableEq Key] in
theorem foldlM_agrees
    {insert : OpenAddressingHashTable Key Value → Key → Value →
      Option (OpenAddressingHashTable Key Value)}
    {insert' : OpenAddressingHashMap Key Value → Key → Value →
      Option (OpenAddressingHashMap Key Value)}
    (hinsert : ∀ new, new.PowerSized → ∀ key value,
      Agrees (insert new key value) (insert' new.toMap key value))
    (nodes : List (OpenAddressingHashMap.Node Key Value))
    {new : OpenAddressingHashTable Key Value} (hpower : new.PowerSized) :
    Agrees
      (nodes.foldlM (fun new node =>
        if node.status = .OCCUPIED then insert new node.key_ node.value_
        else some new) new)
      (nodes.foldlM (fun new node =>
        if node.status = .OCCUPIED then insert' new node.key_ node.value_
        else some new) new.toMap) := by
  induction nodes generalizing new with
  | nil =>
      refine ⟨rfl, ?_⟩
      rintro next ⟨⟩
      exact hpower
  | cons node rest ih =>
      simp only [List.foldlM_cons]
      split
      · obtain ⟨hmap, hkeeps⟩ := hinsert new hpower node.key_ node.value_
        cases hresult : insert new node.key_ node.value_ with
        | none =>
            rw [hresult] at hmap
            rw [← hmap]
            exact ⟨rfl, nofun⟩
        | some next =>
            rw [hresult] at hmap
            rw [← hmap]
            exact ih (hkeeps next hresult)
      · exact ih hpower

theorem insertNested_agrees (nesting : ℕ) (hpower : table.PowerSized)
    (key : Key) (value : Value) :
    Agrees (insertNested exceeds hash nesting table key value)
      (OpenAddressingHashMap.insertNested exceeds hash nesting table.toMap
        key value) := by
  induction nesting generalizing table key value with
  | zero => exact ⟨rfl, nofun⟩
  | succ nesting ih =>
      unfold insertNested OpenAddressingHashMap.insertNested
      have hsize : table.toMap.size_ = table.size_ := rfl
      have hlength : table.toMap.table_.length = table.table_.length := rfl
      rw [hsize, hlength]
      split
      · obtain ⟨exponent, hexponent⟩ := hpower
        have hdouble : (ofSize Key Value
            (table.table_.length * 2)).PowerSized := by
          rw [hexponent, ← pow_succ]
          exact powerSized_ofSize (exponent + 1)
        have hrehash := foldlM_agrees
          (fun new hnew key value => ih hnew key value) table.table_ hdouble
        rw [toMap_ofSize] at hrehash
        change Agrees (reHashWith (insertNested exceeds hash nesting) table)
          (OpenAddressingHashMap.reHashWith _ table.toMap) at hrehash
        obtain ⟨hmap, hkeeps⟩ := hrehash
        cases hresult : reHashWith (insertNested exceeds hash nesting)
            table with
        | none =>
            rw [hresult] at hmap
            rw [← hmap]
            exact ⟨rfl, nofun⟩
        | some next =>
            rw [hresult] at hmap
            rw [← hmap]
            exact (hkeeps next hresult).place_agrees key value
      · exact hpower.place_agrees key value

theorem PowerSized.insert_agrees (hpower : table.PowerSized) (key : Key)
    (value : Value) :
    Agrees (table.insert exceeds hash key value)
      (table.toMap.insert exceeds hash key value) :=
  insertNested_agrees _ hpower key value

/-! ### Whole runs -/

theorem PowerSized.contains_eq (hpower : table.PowerSized) (key : Key) :
    table.toMap.contains hash key = table.contains hash key :=
  congrArg (Option.map Option.isSome) (hpower.search_eq key).symm

theorem PowerSized.find_eq (hpower : table.PowerSized) (key : Key) :
    table.toMap.find hash key = table.find hash key := by
  unfold find OpenAddressingHashMap.find
  rw [hpower.search_eq key]
  rfl

theorem PowerSized.remove_agrees (hpower : table.PowerSized) (key : Key) :
    (table.remove hash key).map (fun next => (next.1.toMap, next.2)) =
        table.toMap.erase hash key ∧
      ∀ next, table.remove hash key = some next → next.1.PowerSized := by
  unfold remove OpenAddressingHashMap.erase
  rw [← hpower.search_eq key]
  cases table.search hash key with
  | none => exact ⟨rfl, nofun⟩
  | some found =>
      cases found with
      | none =>
          refine ⟨rfl, ?_⟩
          rintro next ⟨⟩
          exact hpower
      | some index =>
          refine ⟨?_, ?_⟩
          · exact congrArg (fun map => some (map, true))
              (toMap_vacate index)
          · rintro next ⟨⟩
            exact hpower.setNode index _

/-- One call, in a table and in the map with the same table. -/
theorem PowerSized.call (hpower : table.PowerSized)
    (c : TableCall Key Value) :
    (OpenAddressingHashTable.call exceeds hash table c).2 =
        (OpenAddressingHashMap.call exceeds hash table.toMap c.toCall).2 ∧
      (OpenAddressingHashTable.call exceeds hash table c).1.PowerSized ∧
      (OpenAddressingHashTable.call exceeds hash table c).1.toMap =
        (OpenAddressingHashMap.call exceeds hash table.toMap
          c.toCall).1 := by
  cases c with
  | insert key value =>
      have hagrees : Agrees (table.insert exceeds hash key value)
          (table.toMap.insert exceeds hash key value) :=
        hpower.insert_agrees key value
      obtain ⟨hmap, hkeeps⟩ := hagrees
      unfold OpenAddressingHashTable.call OpenAddressingHashMap.call
      rw [TableCall.toCall]
      dsimp only
      rw [← hmap]
      cases hresult : table.insert exceeds hash key value with
      | none => exact ⟨rfl, hpower, rfl⟩
      | some next => exact ⟨rfl, hkeeps next hresult, rfl⟩
  | contains key =>
      unfold OpenAddressingHashTable.call OpenAddressingHashMap.call
      rw [TableCall.toCall]
      dsimp only
      rw [hpower.contains_eq]
      cases table.contains hash key with
      | none => exact ⟨rfl, hpower, rfl⟩
      | some found => exact ⟨rfl, hpower, rfl⟩
  | remove key =>
      have hagrees : (table.remove hash key).map
            (fun next => (next.1.toMap, next.2)) =
              table.toMap.erase hash key ∧
          ∀ next, table.remove hash key = some next → next.1.PowerSized :=
        hpower.remove_agrees key
      obtain ⟨hmap, hkeeps⟩ := hagrees
      unfold OpenAddressingHashTable.call OpenAddressingHashMap.call
      rw [TableCall.toCall]
      dsimp only
      rw [← hmap]
      cases hresult : table.remove hash key with
      | none => exact ⟨rfl, hpower, rfl⟩
      | some next => exact ⟨rfl, hkeeps next hresult, rfl⟩
  | find key =>
      unfold OpenAddressingHashTable.call OpenAddressingHashMap.call
      rw [TableCall.toCall]
      dsimp only
      rw [hpower.find_eq]
      cases table.find hash key with
      | none => exact ⟨rfl, hpower, rfl⟩
      | some found => exact ⟨rfl, hpower, rfl⟩

end Agreement

/-- Constructed with the same power of two, the table and the map answer every
word of calls alike, and have the same nodes in the same slots afterwards. -/
theorem openAddressingHashTable_agrees [Inhabited Key] [Inhabited Value]
    [DecidableEq Key] (hash : Key → ℕ) (exponent : ℕ)
    (calls : List (TableCall Key Value)) :
    let tableCall := call OpenAddressingHashMap.exceedsLoad hash
    let mapCall := fun map c => OpenAddressingHashMap.call
      OpenAddressingHashMap.exceedsLoad hash map (TableCall.toCall c)
    let table := ofSize Key Value (2 ^ exponent)
    let map := OpenAddressingHashMap.construct (2 ^ exponent) Key Value
    CallSystem.results tableCall table calls =
        CallSystem.results mapCall map calls ∧
      (CallSystem.stateAfter tableCall table calls).table_ =
        (CallSystem.stateAfter mapCall map calls).table_ ∧
      (CallSystem.stateAfter tableCall table calls).size_ =
        (CallSystem.stateAfter mapCall map calls).size_ := by
  -- The load factor is not computed with.
  generalize OpenAddressingHashMap.exceedsLoad = exceeds
  intro tableCall mapCall table map
  have hstart : table.PowerSized ∧ table.toMap = map :=
    ⟨powerSized_ofSize exponent, toMap_ofSize _⟩
  have hrun : CallSystem.results tableCall table calls =
        CallSystem.results mapCall map calls ∧
      (CallSystem.stateAfter tableCall table calls).PowerSized ∧
      (CallSystem.stateAfter tableCall table calls).toMap =
        CallSystem.stateAfter mapCall map calls := by
    apply CallSystem.simulation (fun _ _ => True)
      (fun (table : OpenAddressingHashTable Key Value) map =>
        table.PowerSized ∧ table.toMap = map) ?_ hstart
      (CallSystem.allAllowed_of_forall fun _ _ => trivial)
    rintro table map c ⟨hpower, rfl⟩ -
    exact hpower.call c
  obtain ⟨hresults, -, hmap⟩ := hrun
  rw [← hmap]
  exact ⟨hresults, rfl, rfl⟩

end OpenAddressingHashTable

end HashTables
end TradingStudies
