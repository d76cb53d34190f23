import Mathlib

/-!
# Linked segments

A singly linked structure is a function `next : Node → Option Node`, with
`none` for the null pointer.  `Segment next start nodes stop` says that the
pointers lead from `start` through exactly `nodes` to `stop`.  The frame lemmas
say which pointer writes leave a segment alone and how a write at its end
extends or cuts it.
-/

namespace LinkedSegment

variable {Node : Type*}

/-- Following `next` from `start` visits `nodes` in order and arrives at
`stop`. -/
def Segment (next : Node → Option Node) :
    Option Node → List Node → Option Node → Prop
  | start, [], stop => start = stop
  | start, node :: rest, stop =>
      start = some node ∧ Segment next (next node) rest stop

@[simp] theorem segment_nil {next : Node → Option Node}
    {start stop : Option Node} :
    Segment next start [] stop ↔ start = stop := Iff.rfl

@[simp] theorem segment_cons {next : Node → Option Node}
    {start stop : Option Node} {node : Node} {rest : List Node} :
    Segment next start (node :: rest) stop ↔
      start = some node ∧ Segment next (next node) rest stop := Iff.rfl

theorem segment_append {next : Node → Option Node}
    {start stop : Option Node} {front back : List Node} :
    Segment next start (front ++ back) stop ↔
      ∃ middle, Segment next start front middle ∧
        Segment next middle back stop := by
  induction front generalizing start with
  | nil => simp
  | cons node rest ih =>
      simp only [List.cons_append, segment_cons, ih]
      constructor
      · rintro ⟨hstart, middle, hrest, hback⟩
        exact ⟨middle, ⟨hstart, hrest⟩, hback⟩
      · rintro ⟨middle, ⟨hstart, hrest⟩, hback⟩
        exact ⟨hstart, middle, hrest, hback⟩

/-- A segment only depends on the pointers of its own nodes. -/
theorem Segment.congr {next next' : Node → Option Node}
    {start stop : Option Node} {nodes : List Node}
    (hsegment : Segment next start nodes stop)
    (hsame : ∀ node ∈ nodes, next' node = next node) :
    Segment next' start nodes stop := by
  induction nodes generalizing start with
  | nil => exact hsegment
  | cons node rest ih =>
      refine ⟨hsegment.1, ?_⟩
      rw [hsame node List.mem_cons_self]
      exact ih hsegment.2
        (fun other hother => hsame other (List.mem_cons_of_mem _ hother))

/-- Two null-terminated segments from one start visit the same nodes. -/
theorem Segment.unique {next : Node → Option Node}
    {start : Option Node} {nodes nodes' : List Node}
    (hsegment : Segment next start nodes none)
    (hsegment' : Segment next start nodes' none) : nodes = nodes' := by
  induction nodes generalizing start nodes' with
  | nil =>
      cases nodes' with
      | nil => rfl
      | cons node rest =>
          have hnull : start = none := hsegment
          rw [hnull] at hsegment'
          simp at hsegment'
  | cons node rest ih =>
      cases nodes' with
      | nil =>
          have hnull : start = none := hsegment'
          rw [hnull] at hsegment
          simp at hsegment
      | cons node' rest' =>
          have hnode : node = node' := by
            have := hsegment.1.symm.trans hsegment'.1
            simpa using this
          subst node'
          rw [ih hsegment.2 hsegment'.2]

/-- A null-terminated segment repeats no node: a repetition would make the
pointers run in a circle. -/
theorem Segment.nodup {next : Node → Option Node}
    {start : Option Node} {nodes : List Node}
    (hsegment : Segment next start nodes none) : nodes.Nodup := by
  induction nodes generalizing start with
  | nil => exact List.nodup_nil
  | cons node rest ih =>
      refine List.nodup_cons.mpr ⟨?_, ih hsegment.2⟩
      intro hmem
      rcases List.append_of_mem hmem with ⟨front, back, hsplit⟩
      have hrest := hsegment.2
      rw [hsplit, segment_append] at hrest
      rcases hrest with ⟨middle, -, hmiddle⟩
      have hagain : Segment next (some node) (node :: back) none :=
        ⟨rfl, hmiddle.2⟩
      have hwhole : Segment next (some node) (node :: rest) none :=
        ⟨rfl, hsegment.2⟩
      have hlength := congrArg List.length (hwhole.unique hagain)
      simp only [hsplit, List.length_cons, List.length_append] at hlength
      omega

/-- Where no pointer is null, no segment from a node ends. -/
theorem Segment.start_eq_none {next : Node → Option Node}
    {start : Option Node} {nodes : List Node}
    (hsegment : Segment next start nodes none)
    (hnext : ∀ node, next node ≠ none) : start = none := by
  induction nodes generalizing start with
  | nil => exact hsegment
  | cons node rest ih => exact absurd (ih hsegment.2) (hnext node)

section Writes

variable [DecidableEq Node]

/-- A pointer write outside a segment leaves it alone. -/
theorem Segment.frame {next : Node → Option Node}
    {start stop : Option Node} {nodes : List Node}
    (hsegment : Segment next start nodes stop)
    {node : Node} (hnode : node ∉ nodes) (target : Option Node) :
    Segment (Function.update next node target) start nodes stop := by
  apply hsegment.congr
  intro other hother
  have hne : other ≠ node := fun heq => hnode (heq ▸ hother)
  simp [Function.update, hne]

/-- Redirecting the last pointer of a segment changes where it arrives. -/
theorem Segment.redirect_last {next : Node → Option Node}
    {start stop : Option Node} {front : List Node} {last : Node}
    (hsegment : Segment next start (front ++ [last]) stop)
    (hlast : last ∉ front) (target : Option Node) :
    Segment (Function.update next last target) start (front ++ [last])
      target := by
  rw [segment_append] at hsegment ⊢
  obtain ⟨middle, hfront, hmiddle, -⟩ := hsegment
  exact ⟨middle, hfront.frame hlast target, hmiddle, by simp⟩

end Writes

end LinkedSegment
