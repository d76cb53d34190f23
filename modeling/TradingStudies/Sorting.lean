import TradingStudies.Library.InPlaceOrder

/-!
# The routines of `Leet/sort.py`

The loops over a range of known indices are folds over the list of the indices.
A read or an exchange at an index outside the list raises: the result is `none`.

`mergeSort`, `findMinIdx` and `selectionSortRec` call themselves.  Their
argument `depth` is the number of nested calls there may be; with too few of
them the result is `none`.  No depth is enough for a call that never ends.
-/

namespace TradingStudies
namespace Sorting

open InPlaceOrder (exchange)

variable {α : Type*} [LinearOrder α]

/-! ## Bubble sort -/

/-- The body of the inner loop. -/
def bubbleAt (lst : List α) (j : ℕ) : Option (List α) :=
  lst[j]?.bind fun value =>
    lst[j + 1]?.bind fun later =>
      if later < value then exchange lst j (j + 1) else some lst

def bubblePass (lst : List α) (i : ℕ) : Option (List α) :=
  (List.range (lst.length - 1 - i)).foldlM bubbleAt lst

def bubble (lst : List α) : Option (List α) :=
  (List.range lst.length).foldlM bubblePass lst

/-! ## Insertion sort -/

/-- The `while` loop, from this `j` on. -/
def insertionFrom : ℕ → List α → Option (List α)
  | 0, lst => some lst
  | j + 1, lst =>
      lst[j]?.bind fun before =>
        lst[j + 1]?.bind fun value =>
          if value < before then
            (exchange lst (j + 1) j).bind fun lst => insertionFrom j lst
          else some lst

def insertion (lst : List α) : Option (List α) :=
  (List.range lst.length).foldlM (fun lst i => insertionFrom i lst) lst

/-- The inner `for` loop, from this `j` down to 1. -/
def insertion2From : ℕ → List α → Option (List α)
  | 0, lst => some lst
  | j + 1, lst =>
      lst[j + 1]?.bind fun value =>
        lst[j]?.bind fun before =>
          (if value < before then exchange lst (j + 1) j else some lst).bind
            fun lst => insertion2From j lst

def insertion2 (lst : List α) : Option (List α) :=
  (List.range' 1 (lst.length - 1)).foldlM
    (fun lst i => insertion2From i lst) lst

/-! ## Merge sort -/

/-- The `while` loop of `merge` and the two `extend`s after it. -/
def mergeFrom (lst1 lst2 : List α) (l1 l2 : ℕ) (newlist : List α) : List α :=
  if hwithin : l1 < lst1.length ∧ l2 < lst2.length then
    if lst1[l1] < lst2[l2] then
      mergeFrom lst1 lst2 (l1 + 1) l2 (newlist ++ [lst1[l1]])
    else mergeFrom lst1 lst2 l1 (l2 + 1) (newlist ++ [lst2[l2]])
  else newlist ++ lst1.drop l1 ++ lst2.drop l2
termination_by lst1.length - l1 + (lst2.length - l2)

def merge (lst1 lst2 : List α) : List α := mergeFrom lst1 lst2 0 0 []

def mergeSort : ℕ → List α → Option (List α)
  | 0, _ => none
  | depth + 1, lst =>
      if lst.length = 1 then some lst
      else
        let mid := lst.length / 2
        (mergeSort depth (lst.take mid)).bind fun arr1 =>
          (mergeSort depth (lst.drop mid)).bind fun arr2 =>
            some (merge arr1 arr2)

/-! ## Selection sort -/

/-- `right` is an integer: of an empty list the last index is -1. -/
def findMinIdx : ℕ → List α → ℕ → ℤ → Option ℕ
  | 0, _, _, _ => none
  | depth + 1, lst, left, right =>
      if (left : ℤ) = right then some left
      else
        (findMinIdx depth lst (left + 1) right).bind fun k =>
          lst[left]?.bind fun value =>
            lst[k]?.bind fun least =>
              some (if value < least then left else k)

def selectionSortRec : ℕ → List α → ℕ → Option (List α)
  | 0, _, _ => none
  | depth + 1, lst, idx =>
      let n := (lst.length : ℤ) - 1
      if (idx : ℤ) = n then some lst
      else
        (findMinIdx depth lst idx n).bind fun minIdx =>
          (if minIdx ≠ idx then exchange lst idx minIdx else some lst).bind
            fun lst => selectionSortRec depth lst (idx + 1)

/-- The body of the inner loop. -/
def selectAt (lst : List α) (minIdx j : ℕ) : Option ℕ :=
  lst[j]?.bind fun value =>
    lst[minIdx]?.bind fun least =>
      some (if value < least then j else minIdx)

/-- The body of the outer loop. -/
def selectionPass (lst : List α) (i : ℕ) : Option (List α) :=
  ((List.range' (i + 1) (lst.length - (i + 1))).foldlM (selectAt lst) i).bind
    fun minIdx => if i ≠ minIdx then exchange lst minIdx i else some lst

def selectionSort (lst : List α) : Option (List α) :=
  (List.range (lst.length - 1)).foldlM selectionPass lst

/-! ## What is asked of them -/

/-- The sorted permutation of a list. -/
def sorted (lst : List α) : List α := (lst : Multiset α).sort (· ≤ ·)

/-- All six routines end without an error, with the sorted list. -/
structure AllSort (lst : List α) : Prop where
  bubble_eq : bubble lst = some (sorted lst)
  insertion_eq : insertion lst = some (sorted lst)
  insertion2_eq : insertion2 lst = some (sorted lst)
  mergeSort_eq : ∃ enough, ∀ depth, enough ≤ depth →
    mergeSort depth lst = some (sorted lst)
  selectionSortRec_eq : ∃ enough, ∀ depth, enough ≤ depth →
    selectionSortRec depth lst 0 = some (sorted lst)
  selectionSort_eq : selectionSort lst = some (sorted lst)

end Sorting
end TradingStudies
