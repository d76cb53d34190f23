import Mathlib

/-!
# Maps that are read through their subscript

The subscript of a map creates a default value at a key that is missing.  Such
a map behaves like a function which has the default almost everywhere.
-/

namespace SubscriptMap

variable {Key Value : Type*} [DecidableEq Key]
  {map : Finmap fun _ : Key => Value} {absent : Value}

theorem getD_insert_self (key : Key) (value : Value) :
    ((map.insert key value).lookup key).getD absent = value := by
  rw [Finmap.lookup_insert, Option.getD_some]

theorem getD_insert_of_ne {key other : Key} (hne : other ≠ key)
    (value : Value) :
    ((map.insert key value).lookup other).getD absent =
      (map.lookup other).getD absent := by
  rw [Finmap.lookup_insert_of_ne _ hne]

/-- Writing a value updates the function. -/
theorem getD_insert (key : Key) (value : Value) (other : Key) :
    ((map.insert key value).lookup other).getD absent =
      Function.update (fun other => (map.lookup other).getD absent) key value
        other := by
  by_cases heq : other = key
  · rw [heq, getD_insert_self, Function.update_self]
  · rw [getD_insert_of_ne heq, Function.update_of_ne heq]

/-- The subscript changes no value. -/
theorem getD_subscript (key other : Key) :
    ((map.insert key ((map.lookup key).getD absent)).lookup other).getD absent =
      (map.lookup other).getD absent := by
  rw [getD_insert, Function.update_eq_self]

end SubscriptMap
