import TradingStudies.ZamVectorLifetimes

/-!
# When the vectors balance the lifetimes of their elements

No two vectors share a buffer.  A move hands a buffer over, all other members
work on the buffer of one vector only, so that the number of elements alive
follows the sum of the sizes until a step is one of the two that break it.
-/

namespace TradingStudies
namespace Zam

open HandleTable RawStorage StepSystem

variable {α : Type*} {Name : Type*} [DecidableEq Name]

structure Owned (world : World Name α) : Prop where
  stored : ∀ name vector, world.vectors.lookup name = some vector →
    Stored world.storage vector
  apart : ∀ name other vector source,
    world.vectors.lookup name = some vector →
      world.vectors.lookup other = some source → name ≠ other →
        ∀ buffer ∈ buffers source, buffer ∉ buffers vector

/-- The vector of the name; a name out of scope is like an empty vector. -/
def World.at (world : World Name α) (name : Name) : Vector :=
  (world.vectors.lookup name).getD Vector.empty

section Steps

variable {world : World Name α} {name other : Name}
  {vector vector' source : Vector} {storage' : Storage α} {moved : α → α}

theorem owned_empty : Owned (World.empty : World Name α) where
  stored := nofun
  apart := nofun

theorem balanced_empty : Balanced (World.empty : World Name α) :=
  rfl

theorem at_of_lookup (hlookup : world.vectors.lookup name = some vector) :
    world.at name = vector := by
  rw [World.at, hlookup]
  rfl

theorem at_of_notMem (hfresh : name ∉ world.vectors) :
    world.at name = Vector.empty := by
  rw [World.at, Finmap.lookup_eq_none.mpr hfresh]
  rfl

theorem weigh_at (world : World Name α) (name : Name) :
    weigh Vector.size_ (world.vectors.lookup name) = (world.at name).size_ := by
  unfold World.at
  cases world.vectors.lookup name with
  | none => rfl
  | some vector => rfl

theorem Owned.apart_at (howned : Owned world) (hne : name ≠ other)
    (hlookup : world.vectors.lookup other = some source) :
    ∀ buffer ∈ buffers source, buffer ∉ buffers (world.at name) := by
  unfold World.at
  cases hname : world.vectors.lookup name with
  | none => exact fun _ _ => nofun
  | some vector =>
      exact howned.apart name other vector source hname hlookup hne

theorem lookup_set_self (world : World Name α) (name : Name)
    (result : Vector × Storage α) :
    (world.set name result).vectors.lookup name = some result.1 :=
  Finmap.lookup_insert _

theorem lookup_set_ne (hne : other ≠ name) (result : Vector × Storage α) :
    (world.set name result).vectors.lookup other =
      world.vectors.lookup other :=
  Finmap.lookup_insert_of_ne _ hne

theorem Owned.set (howned : Owned world)
    (hrebuilt : Rebuilt (world.at name) world.storage vector' storage') :
    Owned (world.set name (vector', storage')) := by
  have hsame : (world.set name (vector', storage')).vectors.lookup name =
      some vector' := lookup_set_self world name _
  have hother : ∀ other source, other ≠ name →
      (world.set name (vector', storage')).vectors.lookup other = some source →
        world.vectors.lookup other = some source := by
    intro other source hne hlookup
    rwa [lookup_set_ne hne] at hlookup
  have hkept : ∀ other source, other ≠ name →
      world.vectors.lookup other = some source → Stored storage' source ∧
        ∀ buffer ∈ buffers source, buffer ∉ buffers vector' := by
    intro other source hne hlookup
    have hstored := howned.stored other source hlookup
    have hapart := howned.apart_at (Ne.symm hne) hlookup
    exact ⟨hrebuilt.stored_other hstored hapart,
      hrebuilt.apart_other hstored hapart⟩
  constructor
  · intro other source hlookup
    by_cases heq : other = name
    · rw [heq, hsame] at hlookup
      cases hlookup
      exact hrebuilt.stored
    · exact (hkept other source heq (hother other source heq hlookup)).1
  · intro first second vector source hfirst hsecond hne buffer hmem hshared
    by_cases heq : first = name
    · rw [heq, hsame] at hfirst
      cases hfirst
      have hnot : second ≠ name := fun h => hne (heq.trans h.symm)
      exact (hkept second source hnot
        (hother second source hnot hsecond)).2 buffer hmem hshared
    · by_cases heq' : second = name
      · rw [heq', hsame] at hsecond
        cases hsecond
        exact (hkept first vector heq
          (hother first vector heq hfirst)).2 buffer hshared hmem
      · exact howned.apart first second vector source
          (hother first vector heq hfirst)
          (hother second source heq' hsecond) hne buffer hmem hshared

theorem total_set (world : World Name α) (name : Name)
    (result : Vector × Storage α) :
    total Vector.size_ (world.set name result).vectors + (world.at name).size_ =
      total Vector.size_ world.vectors + result.1.size_ := by
  rw [← weigh_at]
  exact total_insert Vector.size_ world.vectors name result.1

theorem Balanced.set (hbalanced : Balanced world)
    (hupdated : Updated (world.at name) world.storage vector' storage') :
    Balanced (world.set name (vector', storage')) := by
  have htotal := total_set world name (vector', storage')
  have halive := hupdated.alive
  unfold Balanced at hbalanced ⊢
  change storage'.alive = _
  dsimp only at htotal
  omega

/-! ## Moves -/

def handed (world : World Name α) (name other : Name) (source : Vector)
    (storage : Storage α) : World Name α :=
  (world.set other (Vector.empty, storage)).set name (source, storage)

/-- What one name had before, the other has afterwards. -/
theorem lookup_handed (world : World Name α)
    (hother : world.vectors.lookup other = some source)
    (hname : world.vectors.lookup name = some Vector.empty)
    (storage : Storage α) (found : Name) :
    (handed world name other source storage).vectors.lookup found =
      world.vectors.lookup (Equiv.swap name other found) := by
  unfold handed
  by_cases heq : found = name
  · rw [heq, Equiv.swap_apply_left, hother, lookup_set_self]
  · rw [lookup_set_ne heq]
    by_cases heq' : found = other
    · rw [heq', Equiv.swap_apply_right, hname, lookup_set_self]
    · rw [lookup_set_ne heq', Equiv.swap_apply_of_ne_of_ne heq heq']

theorem handed_set (world : World Name α) (name other : Name)
    (source : Vector) (storage : Storage α) :
    handed (world.set name (Vector.empty, storage)) name other source storage =
      handed world name other source storage := by
  have hvectors :
      (handed (world.set name (Vector.empty, storage)) name other source
          storage).vectors =
        (handed world name other source storage).vectors := by
    apply Finmap.ext_lookup
    intro found
    unfold handed
    by_cases heq : found = name
    · rw [heq, lookup_set_self, lookup_set_self]
    · rw [lookup_set_ne heq, lookup_set_ne heq]
      by_cases heq' : found = other
      · rw [heq', lookup_set_self, lookup_set_self]
      · rw [lookup_set_ne heq', lookup_set_ne heq', lookup_set_ne heq]
  exact congrArg (fun vectors => World.mk vectors storage) hvectors

/-- The target has no elements left, or has none that were destroyed. -/
theorem Owned.handed (howned : Owned world) (hne : name ≠ other)
    (hother : world.vectors.lookup other = some source)
    (hrebuilt : Rebuilt (world.at name) world.storage Vector.empty storage') :
    Owned (handed world name other source storage') := by
  have hemptied := howned.set hrebuilt
  have hlookup := lookup_handed (world.set name (Vector.empty, storage'))
    ((lookup_set_ne (Ne.symm hne) _).trans hother)
    (lookup_set_self _ _ _) storage'
  rw [handed_set] at hlookup
  constructor
  · intro found vector hfound
    rw [hlookup] at hfound
    exact hemptied.stored _ vector hfound
  · intro first second vector source hfirst hsecond hdistinct
    rw [hlookup] at hfirst hsecond
    exact hemptied.apart _ _ vector source hfirst hsecond
      ((Equiv.swap name other).injective.ne hdistinct)

theorem balanced_handed_iff (hbalanced : Balanced world) (hne : name ≠ other)
    (hother : world.vectors.lookup other = some source)
    (halive : storage'.alive = world.storage.alive) :
    Balanced (handed world name other source storage') ↔
      (world.at name).size_ = 0 := by
  have htaken := total_set world other (Vector.empty, storage')
  have hgiven := total_set (world.set other (Vector.empty, storage')) name
    (source, storage')
  have hsame : (world.set other (Vector.empty, storage')).at name =
      world.at name := by
    unfold World.at
    rw [lookup_set_ne hne]
  rw [at_of_lookup hother] at htaken
  rw [hsame] at hgiven
  unfold Balanced at hbalanced ⊢
  change storage'.alive =
    ((total Vector.size_ ((world.set other (Vector.empty, storage')).set name
      (source, storage')).vectors : ℕ) : ℤ) ↔ _
  dsimp only [Vector.empty] at htaken hgiven ⊢
  omega

/-! ## Steps -/

/-- The step has no outcome, or it leads to a world that is balanced exactly if
the step was allowed. -/
def StepsAs (moved : α → α) (world : World Name α) (op : Op Name α) : Prop :=
  (step moved world op = none ∧ ¬ Allowed world op) ∨
    ∃ next, step moved world op = some next ∧ Owned next ∧
      (Balanced next ↔ Allowed world op)

theorem stepsAs_of_updated (howned : Owned world) (hbalanced : Balanced world)
    {op : Op Name α} (hname : world.at name = vector)
    (hupdated : Updated vector world.storage vector' storage')
    (hstep : step moved world op = some (world.set name (vector', storage')))
    (hallowed : Allowed world op) : StepsAs moved world op := by
  subst hname
  exact Or.inr ⟨_, hstep, howned.set hupdated.toRebuilt,
    iff_of_true (hbalanced.set hupdated) hallowed⟩

theorem stepsAs_self (howned : Owned world) (hbalanced : Balanced world)
    {op : Op Name α} (hstep : step moved world op = some world)
    (hallowed : Allowed world op) : StepsAs moved world op :=
  Or.inr ⟨world, hstep, howned, iff_of_true hbalanced hallowed⟩

theorem step_construct (howned : Owned world) (hbalanced : Balanced world)
    (hfresh : name ∉ world.vectors) : StepsAs moved world (.construct name) :=
  stepsAs_of_updated howned hbalanced (at_of_notMem hfresh)
    (.refl (stored_empty world.storage)) rfl trivial

theorem step_constructSize (howned : Owned world) (hbalanced : Balanced world)
    (hfresh : name ∉ world.vectors) (size : ℕ) :
    StepsAs moved world (.constructSize name size) :=
  stepsAs_of_updated howned hbalanced (at_of_notMem hfresh)
    (ofSize_updated size world.storage) rfl trivial

/-- Filling goes wrong at the first slot. -/
theorem step_constructSizeValue (howned : Owned world)
    (hbalanced : Balanced world) (hfresh : name ∉ world.vectors) (size : ℕ)
    (val : α) : StepsAs moved world (.constructSizeValue name size val) := by
  rcases Nat.eq_zero_or_pos size with rfl | hsize
  · refine stepsAs_of_updated howned hbalanced (at_of_notMem hfresh)
      (ofSize_updated 0 world.storage) ?_ rfl
    rw [step, ofSizeValue_zero]
    rfl
  · refine Or.inl ⟨?_, hsize.ne'⟩
    rw [step, ofSizeValue_pos hsize]
    rfl

theorem step_copyConstruct (howned : Owned world) (hbalanced : Balanced world)
    (hfresh : name ∉ world.vectors) (hmem : other ∈ world.vectors) :
    StepsAs moved world (.copyConstruct name other) := by
  obtain ⟨source, hother⟩ := Finmap.mem_iff.mp hmem
  obtain ⟨vector, storage', hcopy, hupdated⟩ :=
    copyConstruct_updated moved (howned.stored other source hother)
  refine stepsAs_of_updated howned hbalanced (at_of_notMem hfresh) hupdated ?_
    trivial
  rw [step, hother, Option.bind_some, hcopy, Option.map_some]

theorem step_copyAssign (howned : Owned world) (hbalanced : Balanced world)
    (hname : name ∈ world.vectors) (hmem : other ∈ world.vectors) :
    StepsAs moved world (.copyAssign name other) := by
  by_cases hsame : name = other
  · exact stepsAs_self howned hbalanced (if_pos hsame) trivial
  · obtain ⟨vector, hlookup⟩ := Finmap.mem_iff.mp hname
    obtain ⟨source, hother⟩ := Finmap.mem_iff.mp hmem
    obtain ⟨vector', storage', hcopy, hupdated⟩ := copyAssign_updated moved
      (howned.stored name vector hlookup) (howned.stored other source hother)
      (howned.apart name other vector source hlookup hother hsame)
    refine stepsAs_of_updated howned hbalanced (at_of_lookup hlookup) hupdated
      ?_ trivial
    rw [step, if_neg hsame, hlookup, Option.bind_some, hother, Option.bind_some,
      hcopy, Option.map_some]

theorem step_moveConstruct (howned : Owned world) (hbalanced : Balanced world)
    (hfresh : name ∉ world.vectors) (hmem : other ∈ world.vectors) :
    StepsAs moved world (.moveConstruct name other) := by
  obtain ⟨source, hother⟩ := Finmap.mem_iff.mp hmem
  have hne : name ≠ other := fun heq => hfresh (heq ▸ hmem)
  have hat := at_of_notMem hfresh
  have hrebuilt : Rebuilt (world.at name) world.storage Vector.empty
      world.storage := by
    rw [hat]
    exact (Updated.refl (stored_empty world.storage)).toRebuilt
  refine Or.inr ⟨handed world name other source world.storage, ?_,
    howned.handed hne hother hrebuilt, ?_⟩
  · rw [step, hother, Option.map_some]
    rfl
  · rw [balanced_handed_iff hbalanced hne hother rfl, hat]
    exact iff_of_true rfl trivial

/-- The elements that the target had are lost. -/
theorem step_moveAssign (howned : Owned world) (hbalanced : Balanced world)
    (hname : name ∈ world.vectors) (hmem : other ∈ world.vectors) :
    StepsAs moved world (.moveAssign name other) := by
  by_cases hsame : name = other
  · exact stepsAs_self howned hbalanced (if_pos hsame) (Or.inl hsame)
  · obtain ⟨vector, hlookup⟩ := Finmap.mem_iff.mp hname
    obtain ⟨source, hother⟩ := Finmap.mem_iff.mp hmem
    obtain ⟨storage', hfree, hrebuilt, halive⟩ :=
      free_rebuilt (howned.stored name vector hlookup)
    rw [← at_of_lookup hlookup] at hrebuilt
    refine Or.inr ⟨handed world name other source storage', ?_,
      howned.handed hsame hother hrebuilt, ?_⟩
    · rw [step, if_neg hsame, hlookup, Option.bind_some, hother,
        Option.bind_some, hfree]
      rfl
    · rw [balanced_handed_iff hbalanced hsame hother halive, ← weigh_at]
      exact (or_iff_right hsame).symm

theorem step_push_back (howned : Owned world) (hbalanced : Balanced world)
    (hname : name ∈ world.vectors) (val : α) :
    StepsAs moved world (.push_back name val) := by
  obtain ⟨vector, hlookup⟩ := Finmap.mem_iff.mp hname
  obtain ⟨vector', storage', happend, hupdated⟩ :=
    append_updated moved (howned.stored name vector hlookup) val
  refine stepsAs_of_updated howned hbalanced (at_of_lookup hlookup) hupdated ?_
    trivial
  rw [step, hlookup, Option.bind_some, Vector.push_back, happend,
    Option.map_some]

theorem step_emplace_back (howned : Owned world) (hbalanced : Balanced world)
    (hname : name ∈ world.vectors) (val : α) :
    StepsAs moved world (.emplace_back name val) :=
  step_push_back howned hbalanced hname val

theorem step_pop_back (howned : Owned world) (hbalanced : Balanced world)
    (hname : name ∈ world.vectors) :
    StepsAs moved world (.pop_back name) := by
  obtain ⟨vector, hlookup⟩ := Finmap.mem_iff.mp hname
  obtain ⟨popped, vector', storage', hpop, hupdated⟩ :=
    pop_back_updated moved (howned.stored name vector hlookup)
  refine stepsAs_of_updated howned hbalanced (at_of_lookup hlookup) hupdated ?_
    trivial
  rw [step, hlookup, Option.bind_some, hpop, Option.map_some]

theorem step_reserve (howned : Owned world) (hbalanced : Balanced world)
    (hname : name ∈ world.vectors) (capacity : ℕ) :
    StepsAs moved world (.reserve name capacity) := by
  obtain ⟨vector, hlookup⟩ := Finmap.mem_iff.mp hname
  obtain ⟨vector', storage', hreserve, hupdated⟩ :=
    reserve_updated moved (howned.stored name vector hlookup) capacity
  refine stepsAs_of_updated howned hbalanced (at_of_lookup hlookup) hupdated ?_
    trivial
  rw [step, hlookup, Option.bind_some, hreserve, Option.map_some]

theorem Owned.erase (howned : Owned world) (name : Name) :
    Owned { world with vectors := world.vectors.erase name } := by
  have hkept : ∀ other vector,
      (world.vectors.erase name).lookup other = some vector →
        world.vectors.lookup other = some vector := by
    intro other vector hlookup
    by_cases heq : other = name
    · rw [heq, Finmap.lookup_erase] at hlookup
      cases hlookup
    · rwa [Finmap.lookup_erase_ne heq] at hlookup
  constructor
  · intro other vector hlookup
    exact howned.stored other vector (hkept other vector hlookup)
  · intro first second vector source hfirst hsecond
    exact howned.apart first second vector source (hkept first vector hfirst)
      (hkept second source hsecond)

theorem step_destroy (howned : Owned world) (hbalanced : Balanced world)
    (hname : name ∈ world.vectors) : StepsAs moved world (.destroy name) := by
  obtain ⟨vector, hlookup⟩ := Finmap.mem_iff.mp hname
  obtain ⟨storage', hdiscard, hupdated⟩ :=
    discard_updated (howned.stored name vector hlookup)
  rw [← at_of_lookup hlookup] at hupdated
  have hemptied := hbalanced.set hupdated
  have hvectors : (world.set name (Vector.empty, storage')).vectors.erase name =
      world.vectors.erase name := erase_insert _ _ _
  have howns := (howned.set hupdated.toRebuilt).erase name
  have htotal := total_erase Vector.size_
    (world.set name (Vector.empty, storage')).vectors name
  rw [lookup_set_self] at htotal
  have hweigh : weigh Vector.size_ (some Vector.empty) = 0 := rfl
  refine Or.inr ⟨{ vectors := world.vectors.erase name, storage := storage' },
    ?_, ?_, iff_of_true ?_ trivial⟩
  · rw [step, hlookup, Option.bind_some, hdiscard, Option.map_some]
  · rw [hvectors] at howns
    exact howns
  · rw [hvectors, hweigh] at htotal
    unfold Balanced at hemptied ⊢
    rw [← htotal] at hemptied
    exact hemptied

end Steps

/-! ## Runs -/

theorem step_stepsAs (moved : α → α) (world : World Name α) (op : Op Name α)
    (howned : Owned world) (hbalanced : Balanced world)
    (henabled : Enabled world op) : StepsAs moved world op := by
  cases op with
  | construct name => exact step_construct howned hbalanced henabled
  | constructSize name size =>
      exact step_constructSize howned hbalanced henabled size
  | constructSizeValue name size val =>
      exact step_constructSizeValue howned hbalanced henabled size val
  | copyConstruct name other =>
      exact step_copyConstruct howned hbalanced henabled.1 henabled.2
  | moveConstruct name other =>
      exact step_moveConstruct howned hbalanced henabled.1 henabled.2
  | copyAssign name other =>
      exact step_copyAssign howned hbalanced henabled.1 henabled.2
  | moveAssign name other =>
      exact step_moveAssign howned hbalanced henabled.1 henabled.2
  | push_back name val => exact step_push_back howned hbalanced henabled val
  | emplace_back name val =>
      exact step_emplace_back howned hbalanced henabled val
  | pop_back name => exact step_pop_back howned hbalanced henabled
  | reserve name capacity =>
      exact step_reserve howned hbalanced henabled capacity
  | destroy name => exact step_destroy howned hbalanced henabled

/-- When all vectors are gone, every element has been destroyed. -/
theorem Balanced.alive_eq_zero {world : World Name α}
    (hbalanced : Balanced world) (hgone : world.vectors = ∅) :
    world.storage.alive = 0 := by
  rw [hbalanced, hgone]
  rfl

/-- At every moment of a program the elements alive are those of the vectors,
and no step has used a slot without an element, exactly if no vector is filled
with a value when it is constructed and none that has elements is assigned to by
moving another. -/
theorem vector_balanced_iff (moved : α → α) (ops : List (Op Name α))
    (henabled : AllAllowed (step moved) Enabled ops World.empty) :
    (∀ n, ∃ world, run (step moved) (ops.take n) World.empty = some world ∧
        Balanced world) ↔
      AllAllowed (step moved) Allowed ops World.empty :=
  goodPrefixes_iff_allAllowed Owned (step_stepsAs moved) owned_empty
    balanced_empty henabled

/-- Two vectors grow, one is copied and the copy moved to a new one. -/
theorem vector_balanced_iff_copies :
    let ops : List (Op ℕ ℕ) :=
      [.construct 0, .push_back 0 5, .emplace_back 0 6, .copyConstruct 1 0,
        .moveConstruct 2 1, .pop_back 2, .destroy 0, .destroy 1, .destroy 2]
    AllAllowed (step fun _ => 0) Allowed ops World.empty ∧
      ∀ n, ∃ world,
        run (step fun _ => 0) (ops.take n) World.empty = some world ∧
          Balanced world := by
  intro ops
  have hallowed : AllAllowed (step fun _ => 0) Allowed ops World.empty := by
    decide +kernel
  exact ⟨hallowed,
    (vector_balanced_iff (fun _ => 0) ops (by decide +kernel)).mpr hallowed⟩

/-- A vector constructed with a value assigns to raw slots, and the elements of
a vector are not destroyed when another is moved onto it. -/
theorem vector_assigns_raw :
    (AllAllowed (step fun _ => 0) Enabled [.constructSizeValue 0 2 7]
        (World.empty : World ℕ ℕ) ∧
      ¬ ∀ n, ∃ world,
        run (step fun _ => 0) (List.take n [.constructSizeValue 0 2 7])
            (World.empty : World ℕ ℕ) = some world ∧
          Balanced world) ∧
      AllAllowed (step fun _ => 0) Enabled [.construct 0, .push_back 0 5,
          .construct 1, .moveAssign 0 1] (World.empty : World ℕ ℕ) ∧
        ¬ ∀ n, ∃ world,
          run (step fun _ => 0) (List.take n [.construct 0, .push_back 0 5,
              .construct 1, .moveAssign 0 1])
              (World.empty : World ℕ ℕ) = some world ∧
            Balanced world := by
  refine ⟨⟨by decide +kernel, ?_⟩, by decide +kernel, ?_⟩
  · intro hall
    obtain ⟨world, hrun, -⟩ := hall 1
    cases hrun
  · intro hall
    obtain ⟨world, hrun, hbalanced⟩ := hall 4
    cases hrun
    revert hbalanced
    unfold Balanced
    decide +kernel

end Zam
end TradingStudies
