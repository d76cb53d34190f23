import TradingStudies.Sorting

/-!
# What the sorting routines leave

Bubble, insertion and selection sort follow one of the rules for sorting in
place, so what is shown here is one round of each.  Merge sort needs that the
merge of two sorted lists is sorted.

The two recursive routines have no case for the empty list.  Merge sort cuts it
into two empty lists, and the search for the least index starts above its end
and goes on from there.
-/

namespace TradingStudies
namespace Sorting

open InPlaceOrder SearchOrder

variable {α : Type*} [LinearOrder α]

/-! ## Bubble sort -/

theorem bubbleAt_eq (front : List α) (value later : α) (rest : List α) :
    bubbleAt (front ++ value :: later :: rest) front.length =
      some (if later < value then front ++ later :: value :: rest
        else front ++ value :: later :: rest) := by
  unfold bubbleAt
  rw [getElem?_length_append, Option.bind_some, getElem?_length_append_succ,
    Option.bind_some, exchange_adjacent]
  by_cases hlt : later < value
  · rw [if_pos hlt, if_pos hlt]
  · rw [if_neg hlt, if_neg hlt]

/-- The greatest value met so far is carried along. -/
theorem bubbleAt_run (rest : List α) {front : List α} {value : α}
    (hfront : ∀ earlier ∈ front, earlier ≤ value) (tail : List α) :
    ∃ front' greatest,
      (List.range' front.length rest.length).foldlM bubbleAt
          (front ++ value :: (rest ++ tail)) =
        some (front' ++ greatest :: tail) ∧
      (front' ++ [greatest]).Perm (front ++ value :: rest) ∧
      ∀ earlier ∈ front', earlier ≤ greatest := by
  induction rest generalizing front value with
  | nil => exact ⟨front, value, by simp, List.Perm.refl _, hfront⟩
  | cons later rest ih =>
      rw [List.length_cons, List.range'_succ, List.foldlM_cons,
        List.cons_append, bubbleAt_eq]
      by_cases hlt : later < value
      · have hnext : ∀ earlier ∈ front ++ [later], earlier ≤ value := by
          intro earlier hearlier
          rcases List.mem_append.mp hearlier with hold | hlast
          · exact hfront earlier hold
          · rw [List.mem_singleton.mp hlast]
            exact hlt.le
        obtain ⟨front', greatest, hrun, hperm, hle⟩ := ih hnext
        refine ⟨front', greatest, ?_, hperm.trans ?_, hle⟩
        · rw [List.length_append, List.length_singleton, List.append_assoc]
            at hrun
          rw [if_pos hlt]
          exact hrun
        · rw [List.append_assoc]
          exact (List.Perm.swap value later rest).append_left front
      · have hge : value ≤ later := not_lt.mp hlt
        have hnext : ∀ earlier ∈ front ++ [value], earlier ≤ later := by
          intro earlier hearlier
          rcases List.mem_append.mp hearlier with hold | hlast
          · exact (hfront earlier hold).trans hge
          · rw [List.mem_singleton.mp hlast]
            exact hge
        obtain ⟨front', greatest, hrun, hperm, hle⟩ := ih hnext
        refine ⟨front', greatest, ?_, hperm.trans ?_, hle⟩
        · rw [List.length_append, List.length_singleton, List.append_assoc]
            at hrun
          rw [if_neg hlt]
          exact hrun
        · rw [List.append_assoc]
          exact List.Perm.refl _

theorem bubble_eq_sorted (lst : List α) :
    bubble lst = some (sorted lst) := by
  have hstep : ∀ front tail : List α, front ≠ [] →
      ∃ front' greatest, bubblePass (front ++ tail) tail.length =
          some (front' ++ greatest :: tail) ∧
        (front' ++ [greatest]).Perm front ∧
        ∀ value ∈ front', value ≤ greatest := by
    intro front tail hne
    obtain ⟨value, rest, rfl⟩ := List.exists_cons_of_ne_nil hne
    have hrounds : (value :: rest ++ tail).length - 1 - tail.length =
        rest.length := by
      rw [List.length_append, List.length_cons]
      omega
    have hnone : ∀ earlier ∈ ([] : List α), earlier ≤ value :=
      fun _ hearlier => absurd hearlier List.not_mem_nil
    unfold bubblePass
    rw [hrounds, List.range_eq_range']
    exact bubbleAt_run rest hnone tail
  have hsettled : Settled lst ([] : List α) :=
    ⟨List.Pairwise.nil, fun _ _ _ hlater => absurd hlater List.not_mem_nil⟩
  obtain ⟨final, hrun, hshows⟩ := settlings_run bubblePass hstep
    lst.length hsettled rfl
  rw [List.append_nil] at hrun hshows
  have hfinal : final = sorted lst := hshows.eq_sort
  unfold bubble
  rw [List.range_eq_range', ← hfinal]
  exact hrun

/-! ## Insertion sort -/

/-- A value that is not below the one before it is in its place. -/
theorem adds_last {before : List α} {last value : α}
    (horder : InOrder (before ++ [last])) (hle : last ≤ value) :
    Adds value (before ++ [last]) (before ++ [last, value]) :=
  Adds.right horder (adds_nil value) hle

theorem insertionFrom_adds {front : List α} (horder : InOrder front)
    (value : α) (rest : List α) :
    ∃ front', insertionFrom front.length (front ++ value :: rest) =
        some (front' ++ rest) ∧ Adds value front front' := by
  induction front using List.reverseRecOn generalizing rest with
  | nil => exact ⟨[value], rfl, adds_nil value⟩
  | append_singleton before last ih =>
      have hbefore := (inOrder_node_iff.mp horder).1
      rw [List.length_append, List.length_singleton, List.append_assoc,
        List.singleton_append, insertionFrom, getElem?_length_append,
        Option.bind_some, getElem?_length_append_succ, Option.bind_some]
      by_cases hlt : value < last
      · obtain ⟨before', hrun, hadds⟩ := ih hbefore (last :: rest)
        refine ⟨before' ++ [last], ?_, Adds.left horder hadds hlt.le⟩
        rw [if_pos hlt, exchange_comm, exchange_adjacent, Option.bind_some,
          hrun, List.append_assoc]
        rfl
      · refine ⟨before ++ [last, value], ?_, adds_last horder (not_lt.mp hlt)⟩
        rw [if_neg hlt, List.append_assoc]
        rfl

theorem insertion_eq_sorted (lst : List α) :
    insertion lst = some (sorted lst) := by
  have hstart : InOrder ([] : List α) := List.Pairwise.nil
  obtain ⟨final, hrun, hshows⟩ := insertions_run
    (fun lst i => insertionFrom i lst)
    (fun front value rest horder => insertionFrom_adds horder value rest)
    hstart lst
  have hfinal : final = sorted lst := hshows.eq_sort
  unfold insertion
  rw [List.range_eq_range', ← hfinal]
  exact hrun

/-- Below a sorted prefix no comparison asks for an exchange. -/
theorem insertion2From_sorted {front : List α} {value : α}
    (horder : InOrder (front ++ [value])) (rest : List α) :
    insertion2From front.length (front ++ value :: rest) =
      some (front ++ value :: rest) := by
  induction front using List.reverseRecOn generalizing value rest with
  | nil => rfl
  | append_singleton before last ih =>
      obtain ⟨hbefore, -, hle, -⟩ := inOrder_node_iff.mp horder
      have hlast : last ≤ value := hle last (by simp)
      rw [List.length_append, List.length_singleton, List.append_assoc,
        List.singleton_append, insertion2From, getElem?_length_append_succ,
        Option.bind_some, getElem?_length_append, Option.bind_some,
        if_neg hlast.not_gt, Option.bind_some]
      exact ih hbefore (value :: rest)

/-- The `for` loop goes on where the `while` loop ends, and changes nothing
there. -/
theorem insertion2From_eq {front : List α} (horder : InOrder front)
    (value : α) (rest : List α) :
    insertion2From front.length (front ++ value :: rest) =
      insertionFrom front.length (front ++ value :: rest) := by
  induction front using List.reverseRecOn generalizing rest with
  | nil => rfl
  | append_singleton before last ih =>
      have hbefore := (inOrder_node_iff.mp horder).1
      rw [List.length_append, List.length_singleton, List.append_assoc,
        List.singleton_append, insertion2From, insertionFrom,
        getElem?_length_append, getElem?_length_append_succ]
      simp only [Option.bind_some]
      by_cases hlt : value < last
      · rw [if_pos hlt, if_pos hlt, exchange_comm, exchange_adjacent,
          Option.bind_some, Option.bind_some]
        exact ih hbefore (last :: rest)
      · rw [if_neg hlt, if_neg hlt, Option.bind_some]
        exact insertion2From_sorted horder (value :: rest)

theorem insertion2_eq_sorted (lst : List α) :
    insertion2 lst = some (sorted lst) := by
  cases lst with
  | nil => simp [insertion2, sorted]
  | cons value rest =>
      have hstart : InOrder [value] := List.pairwise_singleton _ _
      have hstep : ∀ (front : List α) (value : α) (rest : List α),
          InOrder front →
            ∃ front', insertion2From front.length (front ++ value :: rest) =
              some (front' ++ rest) ∧ Adds value front front' := by
        intro front value rest horder
        rw [insertion2From_eq horder]
        exact insertionFrom_adds horder value rest
      obtain ⟨final, hrun, hshows⟩ := insertions_run
        (fun lst i => insertion2From i lst) hstep hstart rest
      have hfinal : final = sorted (value :: rest) := hshows.eq_sort
      unfold insertion2
      rw [List.length_cons, Nat.add_sub_cancel, ← hfinal]
      exact hrun

/-! ## Selection sort -/

/-- At this place of the list stands a least value. -/
def LeastAt (lst : List α) (place : ℕ) : Prop :=
  ∃ least, lst[place]? = some least ∧ ∀ value ∈ lst, least ≤ value

omit [LinearOrder α] in
theorem getElem?_append_place (front lst : List α) (place : ℕ) :
    (front ++ lst)[front.length + place]? = lst[place]? := by
  rw [List.getElem?_append_right (Nat.le_add_right _ _),
    Nat.add_sub_cancel_left]

theorem exchange_least {rest : List α} {place : ℕ}
    (hleast : LeastAt rest place) (front : List α) :
    ∃ least others,
      (if front.length + place ≠ front.length then
          exchange (front ++ rest) front.length (front.length + place)
        else some (front ++ rest)) = some (front ++ [least] ++ others) ∧
      Selects least others rest := by
  obtain ⟨least, hplace, hle⟩ := hleast
  cases rest with
  | nil => cases hplace
  | cons value rest =>
      cases place with
      | zero =>
          cases hplace
          refine ⟨least, rest, by simp, List.Perm.refl _, ?_⟩
          intro other hother
          exact hle other (List.mem_cons_of_mem least hother)
      | succ place =>
          rw [List.getElem?_cons_succ] at hplace
          have hlt := (List.getElem?_eq_some_iff.mp hplace).1
          have hlater := (List.getElem?_eq_some_iff.mp hplace).2
          obtain ⟨between, after, rfl, hbetween⟩ :
              ∃ between after, rest = between ++ least :: after ∧
                between.length = place := by
            refine ⟨rest.take place, rest.drop (place + 1), ?_, ?_⟩
            · rw [← hlater, ← List.drop_eq_getElem_cons hlt,
                List.take_append_drop]
            · rw [List.length_take, min_eq_left hlt.le]
          have hplace : front.length + (place + 1) =
              front.length + 1 + between.length := by omega
          have hperm : (least :: (between ++ value :: after)).Perm
              (value :: (between ++ least :: after)) := by
            have hout : (between ++ value :: after).Perm
                (value :: (between ++ after)) := List.perm_middle
            have hin : (between ++ least :: after).Perm
                (least :: (between ++ after)) := List.perm_middle
            exact (hout.cons least).trans
              ((List.Perm.swap value least _).trans (hin.cons value).symm)
          refine ⟨least, between ++ value :: after, ?_, hperm, ?_⟩
          · rw [if_pos (by omega), hplace, exchange_apart, List.append_assoc]
            rfl
          · intro other hother
            exact hle other (hperm.mem_iff.mp (List.mem_cons_of_mem _ hother))

theorem selectAt_run (front : List α) (rest : List α) {seen : List α}
    {place : ℕ} (hleast : LeastAt seen place) :
    ∃ place', (List.range' (front.length + seen.length) rest.length).foldlM
        (selectAt (front ++ (seen ++ rest))) (front.length + place) =
          some (front.length + place') ∧
      LeastAt (seen ++ rest) place' := by
  induction rest generalizing seen place with
  | nil =>
      rw [List.append_nil]
      exact ⟨place, rfl, hleast⟩
  | cons value rest ih =>
      obtain ⟨least, hplace, hle⟩ := hleast
      have hplaceLt := (List.getElem?_eq_some_iff.mp hplace).1
      have hround : selectAt (front ++ (seen ++ value :: rest))
          (front.length + place) (front.length + seen.length) =
            some (front.length +
              if value < least then seen.length else place) := by
        unfold selectAt
        rw [getElem?_append_place, getElem?_length_append, Option.bind_some,
          getElem?_append_place, List.getElem?_append_left hplaceLt, hplace,
          Option.bind_some]
        by_cases hlt : value < least
        · rw [if_pos hlt, if_pos hlt]
        · rw [if_neg hlt, if_neg hlt]
      have hnext : LeastAt (seen ++ [value])
          (if value < least then seen.length else place) := by
        by_cases hlt : value < least
        · rw [if_pos hlt]
          refine ⟨value, getElem?_length_append _ _ _, ?_⟩
          intro other hother
          rcases List.mem_append.mp hother with hold | hlast
          · exact hlt.le.trans (hle other hold)
          · exact (List.mem_singleton.mp hlast).ge
        · rw [if_neg hlt]
          refine ⟨least, ?_, ?_⟩
          · rw [List.getElem?_append_left hplaceLt]
            exact hplace
          · intro other hother
            rcases List.mem_append.mp hother with hold | hlast
            · exact hle other hold
            · rw [List.mem_singleton.mp hlast]
              exact not_lt.mp hlt
      obtain ⟨place', hrun, hleast'⟩ := ih hnext
      rw [List.length_append, List.length_singleton, List.append_assoc,
        ← Nat.add_assoc] at hrun
      rw [List.append_assoc] at hleast'
      refine ⟨place', ?_, hleast'⟩
      rw [List.length_cons, List.range'_succ, List.foldlM_cons, hround]
      exact hrun

theorem leastAt_singleton (value : α) : LeastAt [value] 0 :=
  ⟨value, rfl, fun _ hother => (List.mem_singleton.mp hother).ge⟩

theorem selectionPass_selects {rest : List α} (front : List α)
    (hne : rest ≠ []) :
    ∃ least others, selectionPass (front ++ rest) front.length =
        some (front ++ [least] ++ others) ∧
      Selects least others rest := by
  obtain ⟨value, rest, rfl⟩ := List.exists_cons_of_ne_nil hne
  obtain ⟨place, hrun, hleast⟩ :=
    selectAt_run front rest (leastAt_singleton value)
  have hrounds : (front ++ value :: rest).length - (front.length + 1) =
      rest.length := by
    rw [List.length_append, List.length_cons]
    omega
  obtain ⟨least, others, hexchange, hselects⟩ := exchange_least hleast front
  refine ⟨least, others, ?_, hselects⟩
  rw [← hexchange]
  unfold selectionPass
  rw [hrounds]
  have hfound : (List.range' (front.length + 1) rest.length).foldlM
      (selectAt (front ++ value :: rest)) front.length =
        some (front.length + place) := hrun
  rw [hfound, Option.bind_some, exchange_comm]
  exact if_congr ne_comm rfl rfl

theorem selectionSort_eq_sorted (lst : List α) :
    selectionSort lst = some (sorted lst) := by
  cases lst with
  | nil => simp [selectionSort, sorted]
  | cons value rest =>
      obtain ⟨final, hrun, hshows⟩ := selections_run selectionPass
        (fun front rest hne => selectionPass_selects front hne)
        rest.length (placed_nil (value :: rest)) rfl
      have hfinal : final = sorted (value :: rest) := hshows.eq_sort
      unfold selectionSort
      rw [List.length_cons, Nat.add_sub_cancel, List.range_eq_range', ← hfinal]
      exact hrun

/-! ## Recursive selection sort -/

theorem findMinIdx_least (rest : List α) (value : α) (front : List α)
    {depth : ℕ} (hdepth : rest.length < depth) :
    ∃ place, findMinIdx depth (front ++ value :: rest) front.length
          (front.length + rest.length : ℕ) = some (front.length + place) ∧
      LeastAt (value :: rest) place := by
  induction rest generalizing value front depth with
  | nil =>
      obtain ⟨depth, rfl⟩ := Nat.exists_eq_add_of_lt hdepth
      refine ⟨0, ?_, leastAt_singleton value⟩
      rw [findMinIdx, if_pos (by simp)]
      rfl
  | cons later rest ih =>
      cases depth with
      | zero => exact absurd hdepth (Nat.not_lt_zero _)
      | succ depth =>
          obtain ⟨place, hrun, least, hplace, hle⟩ :=
            ih later (front ++ [value]) (Nat.lt_of_succ_lt_succ hdepth)
          rw [List.length_append, List.length_singleton, List.append_assoc,
            List.singleton_append] at hrun
          have hright : ((front.length + (later :: rest).length : ℕ) : ℤ) =
              ((front.length + 1 + rest.length : ℕ) : ℤ) := by
            rw [List.length_cons]
            push_cast
            ring
          have hread : (front ++ value :: later :: rest)[
              front.length + 1 + place]? = some least := by
            rw [Nat.add_assoc, Nat.add_comm 1, getElem?_append_place,
              List.getElem?_cons_succ]
            exact hplace
          rw [findMinIdx, if_neg (by rw [List.length_cons]; omega), hright,
            hrun, Option.bind_some, getElem?_length_append, Option.bind_some,
            hread, Option.bind_some]
          by_cases hlt : value < least
          · refine ⟨0, by rw [if_pos hlt]; rfl, value, rfl, ?_⟩
            intro other hother
            rcases List.mem_cons.mp hother with rfl | hrest
            · exact le_rfl
            · exact hlt.le.trans (hle other hrest)
          · refine ⟨place + 1, ?_, least, ?_, ?_⟩
            · rw [if_neg hlt]
              congr 1
              omega
            · rw [List.getElem?_cons_succ]
              exact hplace
            · intro other hother
              rcases List.mem_cons.mp hother with rfl | hrest
              · exact not_lt.mp hlt
              · exact hle other hrest

theorem selectionSortRec_shows (rounds : ℕ) {front rest : List α}
    (hplaced : Placed front rest) (hrounds : rest.length = rounds + 1)
    {depth : ℕ} (hdepth : rounds + 1 < depth) :
    ∃ final, selectionSortRec depth (front ++ rest) front.length =
        some final ∧
      Shows final (front ++ rest : List α) := by
  induction rounds generalizing front rest depth with
  | zero =>
      cases depth with
      | zero => exact absurd hdepth (Nat.not_lt_zero _)
      | succ depth =>
          refine ⟨front ++ rest, ?_, hplaced.shows_last hrounds⟩
          rw [selectionSortRec, if_pos]
          rw [List.length_append, hrounds]
          push_cast
          ring
  | succ rounds ih =>
      cases depth with
      | zero => exact absurd hdepth (Nat.not_lt_zero _)
      | succ depth =>
          obtain ⟨value, rest, rfl⟩ : ∃ value rest', rest = value :: rest' :=
            List.exists_cons_of_ne_nil (by rintro rfl; cases hrounds)
          have hsize : rest.length = rounds + 1 := Nat.succ.inj hrounds
          obtain ⟨place, hfind, hleast⟩ := findMinIdx_least rest value front
            (show rest.length < depth by omega)
          obtain ⟨least, others, hexchange, hselects⟩ :=
            exchange_least hleast front
          have hothers : others.length = rounds + 1 := by
            have hlength := hselects.perm.length_eq
            rw [List.length_cons, List.length_cons] at hlength
            omega
          obtain ⟨final, hrun, horder, hsame⟩ :=
            ih (hplaced.select hselects) hothers
              (show rounds + 1 < depth by omega)
          rw [List.length_append, List.length_singleton] at hrun
          have hlast : ((front ++ value :: rest).length : ℤ) - 1 =
              ((front.length + rest.length : ℕ) : ℤ) := by
            rw [List.length_append, List.length_cons]
            push_cast
            ring
          have hmore : ¬ (front.length : ℤ) =
              ((front.length + rest.length : ℕ) : ℤ) := by omega
          refine ⟨final, ?_, horder, hsame.trans (Multiset.coe_eq_coe.mpr ?_)⟩
          · rw [selectionSortRec]
            simp only [hlast]
            rw [if_neg hmore, hfind, Option.bind_some,
              hexchange, Option.bind_some]
            exact hrun
          · exact hselects.append_perm front

theorem selectionSortRec_eq_sorted {lst : List α} (hne : lst ≠ [])
    {depth : ℕ} (hdepth : lst.length < depth) :
    selectionSortRec depth lst 0 = some (sorted lst) := by
  obtain ⟨value, rest, rfl⟩ := List.exists_cons_of_ne_nil hne
  obtain ⟨final, hrun, hshows⟩ := selectionSortRec_shows rest.length
    (placed_nil (value :: rest)) rfl hdepth
  have hfinal : final = sorted (value :: rest) := hshows.eq_sort
  rw [← hfinal]
  exact hrun

/-- Above the last index the search never ends. -/
theorem findMinIdx_above (lst : List α) (depth left : ℕ) {right : ℤ}
    (habove : right < left) : findMinIdx depth lst left right = none := by
  induction depth generalizing left with
  | zero => rfl
  | succ depth ih =>
      rw [findMinIdx, if_neg habove.ne', ih (left + 1) (by push_cast; omega)]
      rfl

theorem selectionSortRec_nil (depth : ℕ) :
    selectionSortRec depth ([] : List α) 0 = none := by
  cases depth with
  | zero => rfl
  | succ depth =>
      simp only [selectionSortRec]
      rw [if_neg (by simp), findMinIdx_above _ _ _ (by simp)]
      rfl

/-! ## Merge sort -/

theorem merge_of_lt {value other : α} (hlt : value < other)
    (rest later : List α) :
    (value :: rest).merge (other :: later) (fun a b => a < b) =
      value :: rest.merge (other :: later) (fun a b => a < b) :=
  List.cons_merge_cons_pos _ _ _ (decide_eq_true hlt)

theorem merge_of_not_lt {value other : α} (hnot : ¬ value < other)
    (rest later : List α) :
    (value :: rest).merge (other :: later) (fun a b => a < b) =
      other :: (value :: rest).merge later (fun a b => a < b) :=
  List.cons_merge_cons_neg _ _ _ (by simpa using hnot)

theorem mergeFrom_eq (lst1 lst2 : List α) (l1 l2 : ℕ) (newlist : List α) :
    mergeFrom lst1 lst2 l1 l2 newlist =
      newlist ++ (lst1.drop l1).merge (lst2.drop l2) (fun a b => a < b) := by
  induction hrest : lst1.length - l1 + (lst2.length - l2)
    using Nat.strong_induction_on generalizing l1 l2 newlist with
  | _ size ih =>
      rw [mergeFrom]
      by_cases hwithin : l1 < lst1.length ∧ l2 < lst2.length
      · obtain ⟨hfirst, hsecond⟩ := hwithin
        rw [dif_pos ⟨hfirst, hsecond⟩, List.drop_eq_getElem_cons hfirst,
          List.drop_eq_getElem_cons hsecond]
        by_cases hlt : lst1[l1] < lst2[l2]
        · rw [if_pos hlt, ih _ (by omega) _ _ _ rfl, merge_of_lt hlt,
            ← List.drop_eq_getElem_cons hsecond, List.append_assoc]
          rfl
        · rw [if_neg hlt, ih _ (by omega) _ _ _ rfl, merge_of_not_lt hlt,
            ← List.drop_eq_getElem_cons hfirst, List.append_assoc]
          rfl
      · rw [dif_neg hwithin, List.append_assoc]
        by_cases hfirst : l1 < lst1.length
        · have hsecond : lst2.length ≤ l2 := by omega
          rw [List.drop_eq_nil_of_le hsecond, List.merge_right,
            List.append_nil]
        · rw [List.drop_eq_nil_of_le (not_lt.mp hfirst), List.nil_merge,
            List.nil_append]

theorem merge_inOrder {lst1 lst2 : List α} (hfirst : InOrder lst1)
    (hsecond : InOrder lst2) :
    InOrder (lst1.merge lst2 (fun a b => a < b)) := by
  induction lst1 generalizing lst2 with
  | nil =>
      rw [List.nil_merge]
      exact hsecond
  | cons value rest ih =>
      induction lst2 with
      | nil =>
          rw [List.merge_right]
          exact hfirst
      | cons other later ihLater =>
          have hvalue := List.pairwise_cons.mp hfirst
          have hother := List.pairwise_cons.mp hsecond
          by_cases hlt : value < other
          · rw [merge_of_lt hlt]
            refine List.pairwise_cons.mpr ⟨?_, ih hvalue.2 hsecond⟩
            intro next hnext
            rcases List.mem_merge.mp hnext with hrest | hmem
            · exact hvalue.1 next hrest
            · rcases List.mem_cons.mp hmem with rfl | hlater
              · exact hlt.le
              · exact hlt.le.trans (hother.1 next hlater)
          · rw [merge_of_not_lt hlt]
            refine List.pairwise_cons.mpr ⟨?_, ihLater hother.2⟩
            intro next hnext
            rcases List.mem_merge.mp hnext with hmem | hlater
            · rcases List.mem_cons.mp hmem with rfl | hrest
              · exact not_lt.mp hlt
              · exact (not_lt.mp hlt).trans (hvalue.1 next hrest)
            · exact hother.1 next hlater

theorem sorted_inOrder (lst : List α) : InOrder (sorted lst) :=
  Multiset.pairwise_sort _ _

theorem sorted_perm (lst : List α) : (sorted lst).Perm lst := by
  apply Multiset.coe_eq_coe.mp
  rw [sorted, Multiset.sort_eq]

theorem merge_sorted_shows (lst1 lst2 : List α) :
    Shows (merge (sorted lst1) (sorted lst2)) (lst1 ++ lst2 : List α) := by
  unfold merge
  rw [mergeFrom_eq, List.nil_append, List.drop_zero, List.drop_zero]
  constructor
  · exact merge_inOrder (sorted_inOrder lst1) (sorted_inOrder lst2)
  · apply Multiset.coe_eq_coe.mpr
    refine (List.merge_perm_append _).trans ?_
    exact (sorted_perm lst1).append (sorted_perm lst2)

theorem mergeSort_eq_sorted {lst : List α} (hne : lst ≠ []) {depth : ℕ}
    (hdepth : lst.length ≤ depth) :
    mergeSort depth lst = some (sorted lst) := by
  induction depth generalizing lst with
  | zero => exact absurd (List.length_eq_zero_iff.mp (by omega)) hne
  | succ depth ih =>
      have hpos := List.length_pos_iff.mpr hne
      rw [mergeSort]
      by_cases hone : lst.length = 1
      · obtain ⟨value, rfl⟩ := List.length_eq_one_iff.mp hone
        rw [if_pos hone, sorted, Multiset.coe_singleton,
          Multiset.sort_singleton]
      · have hleft : (lst.take (lst.length / 2)).length = lst.length / 2 := by
          rw [List.length_take]
          omega
        have hright : (lst.drop (lst.length / 2)).length =
            lst.length - lst.length / 2 := List.length_drop
        have hleftNe : lst.take (lst.length / 2) ≠ [] :=
          List.ne_nil_of_length_pos (by omega)
        have hrightNe : lst.drop (lst.length / 2) ≠ [] :=
          List.ne_nil_of_length_pos (by omega)
        have hshows := merge_sorted_shows (lst.take (lst.length / 2))
          (lst.drop (lst.length / 2))
        rw [List.take_append_drop] at hshows
        have hfinal := hshows.eq_sort
        rw [if_neg hone]
        simp only
        rw [ih hleftNe (by omega), ih hrightNe (by omega), Option.bind_some,
          Option.bind_some, hfinal, sorted]

theorem mergeSort_nil (depth : ℕ) : mergeSort depth ([] : List α) = none := by
  induction depth with
  | zero => rfl
  | succ depth ih =>
      rw [mergeSort, if_neg (by simp)]
      simp [ih]

/-! ## All six -/

/-- The routines agree on every list but the empty one. -/
theorem allSort_iff_ne_nil (lst : List α) : AllSort lst ↔ lst ≠ [] := by
  constructor
  · rintro hall rfl
    obtain ⟨enough, hmerge⟩ := hall.mergeSort_eq
    have hsome := hmerge enough le_rfl
    rw [mergeSort_nil] at hsome
    cases hsome
  · intro hne
    exact {
      bubble_eq := bubble_eq_sorted lst
      insertion_eq := insertion_eq_sorted lst
      insertion2_eq := insertion2_eq_sorted lst
      mergeSort_eq := ⟨lst.length, fun _ hdepth =>
        mergeSort_eq_sorted hne hdepth⟩
      selectionSortRec_eq := ⟨lst.length + 1, fun _ hdepth =>
        selectionSortRec_eq_sorted hne hdepth⟩
      selectionSort_eq := selectionSort_eq_sorted lst }

theorem not_allSort_nil :
    ¬ AllSort ([] : List ℕ) ∧
      (∀ depth, mergeSort depth ([] : List ℕ) = none) ∧
      ∀ depth, selectionSortRec depth ([] : List ℕ) 0 = none := by
  refine ⟨?_, mergeSort_nil, selectionSortRec_nil⟩
  intro hall
  obtain ⟨enough, hmerge⟩ := hall.mergeSort_eq
  have hsome := hmerge enough le_rfl
  rw [mergeSort_nil] at hsome
  cases hsome

end Sorting
end TradingStudies
