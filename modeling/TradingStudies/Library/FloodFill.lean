import Mathlib

/-!
# Depth-first flood fill

A fill marks the node at a position and goes on to the positions next to it; a
position may lie outside, and a node that is marked already is left alone.  The
marks of earlier fills stay, so they are the visited set of the next one.

A call may be nested as deeply as there are nodes without a mark; `depth` bounds
the nesting.  Where that bound is not reached, what is newly marked is closed
under going on, and belongs to every closed set with the starting positions.
-/

namespace FloodFill

variable {Position Node : Type*}

/-- `none` is a call nested too deeply. -/
def fill [DecidableEq Node] (locate : Position → Option Node)
    (next : Node → List Position) :
    ℕ → (Node → Bool) → Position → Option (Node → Bool)
  | 0, _, _ => none
  | depth + 1, marked, position =>
      match locate position with
      | none => some marked
      | some node =>
          if marked node then some marked
          else
            (next node).foldlM (fun marked position =>
              fill locate next depth marked position)
              (Function.update marked node true)

section Fills

variable {locate : Position → Option Node} {next : Node → List Position}

/-- A set of nodes that contains the targets, and what lies next to each of
its nodes. -/
structure Closed (locate : Position → Option Node)
    (next : Node → List Position) (targets : List Position) (S : Set Node) :
    Prop where
  targets : ∀ position ∈ targets, ∀ node ∈ locate position, node ∈ S
  next : ∀ node ∈ S, ∀ position ∈ next node, ∀ other ∈ locate position,
    other ∈ S

/-- From `marked` to `marked'` by filling from the targets. -/
structure Filled (locate : Position → Option Node)
    (next : Node → List Position) (targets : List Position)
    (marked marked' : Node → Bool) : Prop where
  keeps : ∀ node, marked node = true → marked' node = true
  reaches : ∀ position ∈ targets, ∀ node ∈ locate position,
    marked' node = true
  closed : ∀ node, marked' node = true → marked node = false →
    ∀ position ∈ next node, ∀ other ∈ locate position, marked' other = true
  least : ∀ S, Closed locate next targets S → ∀ node, marked' node = true →
    marked node = true ∨ node ∈ S

theorem Filled.nil (marked : Node → Bool) :
    Filled locate next [] marked marked where
  keeps := fun _ hmarked => hmarked
  reaches := fun _ hposition => absurd hposition List.not_mem_nil
  closed := by
    intro node hmarked hnot
    rw [hmarked] at hnot
    cases hnot
  least := fun _ _ _ hmarked => Or.inl hmarked

theorem Filled.append {targets targets' : List Position}
    {marked middle marked' : Node → Bool}
    (hfirst : Filled locate next targets marked middle)
    (hrest : Filled locate next targets' middle marked') :
    Filled locate next (targets ++ targets') marked marked' where
  keeps := fun node hmarked => hrest.keeps node (hfirst.keeps node hmarked)
  reaches := by
    intro target htarget node hnode
    rcases List.mem_append.mp htarget with htarget | htarget
    · exact hrest.keeps node (hfirst.reaches target htarget node hnode)
    · exact hrest.reaches target htarget node hnode
  closed := by
    intro node hmarked hnot target htarget other hother
    cases hmiddle : middle node with
    | true =>
        exact hrest.keeps other
          (hfirst.closed node hmiddle hnot target htarget other hother)
    | false => exact hrest.closed node hmarked hmiddle target htarget other hother
  least := by
    intro S hS node hmarked
    have hhead : Closed locate next targets S :=
      ⟨fun target htarget => hS.targets target
        (List.mem_append_left _ htarget), hS.next⟩
    have htail : Closed locate next targets' S :=
      ⟨fun target htarget => hS.targets target
        (List.mem_append_right _ htarget), hS.next⟩
    rcases hrest.least S htail node hmarked with hmiddle | hin
    · exact hfirst.least S hhead node hmiddle
    · exact Or.inr hin

theorem Filled.cons {position : Position} {targets : List Position}
    {marked middle marked' : Node → Bool}
    (hfirst : Filled locate next [position] marked middle)
    (hrest : Filled locate next targets middle marked') :
    Filled locate next (position :: targets) marked marked' :=
  hfirst.append hrest

/-- A position outside, or at a marked node. -/
theorem Filled.skip {position : Position} {marked : Node → Bool}
    (hmarked : ∀ node ∈ locate position, marked node = true) :
    Filled locate next [position] marked marked := by
  refine ⟨fun _ hnode => hnode, ?_, (Filled.nil marked).closed,
    fun _ _ _ hnode => Or.inl hnode⟩
  intro target htarget
  rw [List.mem_singleton.mp htarget]
  exact hmarked

theorem update_keeps [DecidableEq Node] (marked : Node → Bool) (node : Node) :
    ∀ other, marked other = true →
      Function.update marked node true other = true := by
  intro other hmarked
  by_cases heq : other = node
  · rw [heq, Function.update_self]
  · rw [Function.update_of_ne heq]
    exact hmarked

/-- A node is marked before what lies next to it. -/
theorem Filled.expand [DecidableEq Node] {position : Position} {node : Node}
    {marked marked' : Node → Bool} (hlocate : locate position = some node)
    (hfilled : Filled locate next (next node)
      (Function.update marked node true) marked') :
    Filled locate next [position] marked marked' where
  keeps := fun other hmarked =>
    hfilled.keeps other (update_keeps marked node other hmarked)
  reaches := by
    intro target htarget other hother
    rw [List.mem_singleton.mp htarget, hlocate, Option.mem_some_iff] at hother
    apply hfilled.keeps
    rw [← hother, Function.update_self]
  closed := by
    intro other hmarked hnot
    by_cases heq : other = node
    · subst heq
      exact hfilled.reaches
    · apply hfilled.closed other hmarked
      rw [Function.update_of_ne heq]
      exact hnot
  least := by
    intro S hS other hmarked
    have hnode : node ∈ S :=
      hS.targets position (List.mem_singleton_self position) node hlocate
    have hinner : Closed locate next (next node) S :=
      ⟨hS.next node hnode, hS.next⟩
    rcases hfilled.least S hinner other hmarked with hbefore | hin
    · by_cases heq : other = node
      · exact Or.inr (heq ▸ hnode)
      · rw [Function.update_of_ne heq] at hbefore
        exact Or.inl hbefore
    · exact Or.inr hin

/-- Without marks to begin with, the marks are the least closed set. -/
theorem Filled.isLeast {targets : List Position} {marked : Node → Bool}
    (hfilled : Filled locate next targets (fun _ => false) marked) :
    IsLeast { S | Closed locate next targets S }
      { node | marked node = true } := by
  constructor
  · exact ⟨hfilled.reaches, fun node hmarked =>
      hfilled.closed node hmarked rfl⟩
  · intro S hS node hmarked
    exact (hfilled.least S hS node hmarked).resolve_left Bool.false_ne_true

variable [Fintype Node]

def unmarked (marked : Node → Bool) : ℕ :=
  (Finset.univ.filter fun node => marked node = false).card

theorem unmarked_le {marked marked' : Node → Bool}
    (hkeeps : ∀ node, marked node = true → marked' node = true) :
    unmarked marked' ≤ unmarked marked := by
  apply Finset.card_le_card
  intro node hnode
  rw [Finset.mem_filter] at hnode ⊢
  refine ⟨hnode.1, ?_⟩
  by_contra hmarked
  have hkept := hkeeps node (by simpa using hmarked)
  rw [hnode.2] at hkept
  cases hkept

theorem unmarked_update [DecidableEq Node] {marked : Node → Bool} {node : Node}
    (hnode : marked node = false) :
    unmarked (Function.update marked node true) < unmarked marked := by
  apply Finset.card_lt_card
  rw [Finset.ssubset_iff_of_subset]
  · refine ⟨node, ?_, ?_⟩
    · rw [Finset.mem_filter]
      exact ⟨Finset.mem_univ node, hnode⟩
    · rw [Finset.mem_filter, Function.update_self]
      exact fun hmem => absurd hmem.2 (by decide)
  · intro other hother
    rw [Finset.mem_filter] at hother ⊢
    refine ⟨hother.1, ?_⟩
    by_cases heq : other = node
    · rw [heq]
      exact hnode
    · have hkept := hother.2
      rw [Function.update_of_ne heq] at hkept
      exact hkept

/-- Fills one after the other, each of which is shallow enough. -/
theorem foldlM_filled {depth : ℕ}
    {step : (Node → Bool) → Position → Option (Node → Bool)}
    (hstep : ∀ marked position, unmarked marked < depth →
      ∃ marked', step marked position = some marked' ∧
        Filled locate next [position] marked marked')
    (targets : List Position) (marked : Node → Bool)
    (hdepth : unmarked marked < depth) :
    ∃ marked', targets.foldlM step marked = some marked' ∧
      Filled locate next targets marked marked' := by
  induction targets generalizing marked with
  | nil => exact ⟨marked, rfl, .nil marked⟩
  | cons position rest ih =>
      obtain ⟨middle, heval, hfirst⟩ := hstep marked position hdepth
      obtain ⟨marked', hrest, hfilled⟩ :=
        ih middle (lt_of_le_of_lt (unmarked_le hfirst.keeps) hdepth)
      refine ⟨marked', ?_, hfirst.cons hfilled⟩
      rw [List.foldlM_cons, heval]
      exact hrest

/-- A depth above the number of unmarked nodes is enough. -/
theorem fill_filled [DecidableEq Node] (locate : Position → Option Node)
    (next : Node → List Position) (depth : ℕ) (marked : Node → Bool)
    (position : Position) (hdepth : unmarked marked < depth) :
    ∃ marked', fill locate next depth marked position = some marked' ∧
      Filled locate next [position] marked marked' := by
  induction depth generalizing marked position with
  | zero => exact absurd hdepth (Nat.not_lt_zero _)
  | succ depth ih =>
      unfold fill
      cases hlocate : locate position with
      | none =>
          refine ⟨marked, rfl, .skip ?_⟩
          rw [hlocate]
          exact fun _ hnode => nomatch hnode
      | some node =>
          cases hnode : marked node with
          | true =>
              simp only [hnode, if_true]
              refine ⟨marked, rfl, .skip ?_⟩
              rw [hlocate]
              intro other hother
              rw [← Option.mem_some_iff.mp hother]
              exact hnode
          | false =>
              simp only [hnode, Bool.false_eq_true, if_false]
              have hfewer := unmarked_update hnode
              obtain ⟨marked', heval, hfilled⟩ := foldlM_filled ih (next node)
                (Function.update marked node true) (by omega)
              exact ⟨marked', heval, .expand hlocate hfilled⟩

end Fills

end FloodFill
