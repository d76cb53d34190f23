import Mathlib

/-!
# The map interface

`HashMap<HM>` forwards five operations to its backend, and every backend in
`HashMap.hpp` offers them.  A `Call` is one use of that interface by a client;
`assign` is `hm[key] = value`, the subscript followed by a write through the
returned reference.  An `Outcome` is what the client sees.

`abstractCall` is the purpose of all the backends: a finite partial map.  A
backend with a fixed amount of storage may refuse a new key, which is described
by `refuse`: the message it throws when a key can no longer be added.
-/

namespace TradingStudies
namespace HashMap

/-- One use of the concept `MyHM`. -/
inductive Call (Key Value : Type*)
  | insert (key : Key) (value : Value)
  | subscript (key : Key)
  | assign (key : Key) (value : Value)
  | contains (key : Key)
  | erase (key : Key)
  | find (key : Key)
  deriving DecidableEq, Repr

/-- What a call hands back.  `undefined` stands for a call that does not return:
a loop that never ends or a null pointer that is dereferenced. -/
inductive Outcome (Value : Type*)
  | done
  | value (value : Value)
  | flag (flag : Bool)
  | found (value : Option Value)
  | threw (message : String)
  | undefined
  deriving DecidableEq, Repr

/-- The order book uses its id index through the subscript, `contains` and
`erase`; it never calls `insert`. -/
def Call.isInsert {Key Value : Type*} : Call Key Value → Bool
  | .insert _ _ => true
  | _ => false

/-- A finite partial map from keys to values. -/
abbrev PartialMap (Key Value : Type*) := Finmap fun _ : Key => Value

variable {Key Value : Type*} [DecidableEq Key]

/-- The partial map every backend stands for. -/
def abstractCall [Inhabited Value] (refuse : PartialMap Key Value → Option String)
    (content : PartialMap Key Value) :
    Call Key Value → PartialMap Key Value × Outcome Value
  | .insert key value =>
      if key ∈ content then (content.insert key value, .done)
      else match refuse content with
        | some message => (content, .threw message)
        | none => (content.insert key value, .done)
  | .subscript key =>
      match content.lookup key with
      | some value => (content, .value value)
      | none => match refuse content with
        | some message => (content, .threw message)
        | none => (content.insert key default, .value default)
  | .assign key value =>
      if key ∈ content then (content.insert key value, .value value)
      else match refuse content with
        | some message => (content, .threw message)
        | none => (content.insert key value, .value value)
  | .contains key => (content, .flag (decide (key ∈ content)))
  | .erase key => (content.erase key, .flag (decide (key ∈ content)))
  | .find key => (content, .found (content.lookup key))

/-- A backend that never runs out of room. -/
def unbounded (_ : PartialMap Key Value) : Option String := none

theorem keys_card_insert_of_notMem
    {content : PartialMap Key Value} {key : Key} (hkey : key ∉ content)
    (value : Value) :
    (content.insert key value).keys.card = content.keys.card + 1 := by
  have hkeys : (content.insert key value).keys = insert key content.keys := by
    ext other
    simp [Finmap.mem_keys]
  rw [hkeys, Finset.card_insert_of_notMem (by simpa [Finmap.mem_keys] using hkey)]

theorem keys_insert_of_mem
    {content : PartialMap Key Value} {key : Key} (hkey : key ∈ content)
    (value : Value) :
    (content.insert key value).keys = content.keys := by
  ext other
  simp only [Finmap.mem_keys, Finmap.mem_insert]
  constructor
  · rintro (rfl | hother)
    · exact hkey
    · exact hother
  · exact Or.inr

theorem keys_card_erase_of_mem
    {content : PartialMap Key Value} {key : Key} (hkey : key ∈ content) :
    (content.erase key).keys.card + 1 = content.keys.card := by
  rw [Finmap.keys_erase]
  exact Finset.card_erase_add_one (by simpa [Finmap.mem_keys] using hkey)

theorem erase_eq_self
    {content : PartialMap Key Value} {key : Key} (hkey : key ∉ content) :
    content.erase key = content := by
  apply Finmap.ext_lookup
  intro other
  by_cases heq : other = key
  · subst other
    rw [Finmap.lookup_erase, Finmap.lookup_eq_none.mpr hkey]
  · rw [Finmap.lookup_erase_ne heq]

/-- The key-value pairs a backend stores are those of the content. -/
def Describes (content : PartialMap Key Value) (stored : Key → Value → Prop) :
    Prop :=
  ∀ key value, content.lookup key = some value ↔ stored key value

variable {content : PartialMap Key Value}
  {stored stored' : Key → Value → Prop} {key : Key} {value : Value}

theorem Describes.insert (hdescribes : Describes content stored)
    (hkey : ∀ found, stored' key found ↔ value = found)
    (hother : ∀ other ≠ key, ∀ found,
      stored' other found ↔ stored other found) :
    Describes (content.insert key value) stored' := by
  intro other found
  by_cases heq : other = key
  · rw [heq, Finmap.lookup_insert, Option.some.injEq, hkey]
  · rw [Finmap.lookup_insert_of_ne _ heq, hdescribes, hother other heq]

theorem Describes.erase (hdescribes : Describes content stored)
    (hkey : ∀ found, ¬ stored' key found)
    (hother : ∀ other ≠ key, ∀ found,
      stored' other found ↔ stored other found) :
    Describes (content.erase key) stored' := by
  intro other found
  by_cases heq : other = key
  · rw [heq, Finmap.lookup_erase]
    constructor
    · intro hnone
      cases hnone
    · intro hstored
      exact absurd hstored (hkey found)
  · rw [Finmap.lookup_erase_ne heq, hdescribes, hother other heq]

end HashMap
end TradingStudies
