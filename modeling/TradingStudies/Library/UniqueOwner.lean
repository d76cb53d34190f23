import TradingStudies.Library.HandleTable
import TradingStudies.Library.StepSystem

/-!
# Handles that own a resource alone

A handle holds a resource or nothing.  Moving a handle leaves `vacant` behind,
and a handle that is destroyed or assigned to gives up what it holds.  Giving
up a resource that is not live has no outcome: it has been given up before, or
belongs to somebody else by now.

What the handles are after a program is said once more by `after`, which only
passes them on and knows nothing of resources.
-/

namespace UniqueOwner

open HandleTable StepSystem

variable {Name Handle Resource : Type*} [DecidableEq Name]
  [DecidableEq Resource]

structure World (Name Handle Resource : Type*) where
  handles : Table Name Handle
  live : Finset Resource

namespace World

def empty : World Name Handle Resource where
  handles := ∅
  live := ∅

end World

inductive Op (Name Handle : Type*)
  | construct (name : Name) (handle : Handle)
  | moveConstruct (name other : Name)
  | moveAssign (name other : Name)
  | destroy (name : Name)
  deriving DecidableEq

section Machine

variable (held : Handle → Option Resource) (vacant : Handle)

/-- What a handle holds is given up. -/
def release (world : World Name Handle Resource) (handle : Handle) :
    Option (World Name Handle Resource) :=
  match held handle with
  | none => some world
  | some resource =>
      if resource ∈ world.live then
        some { world with live := world.live.erase resource }
      else none

def transfer (world : World Name Handle Resource) (name other : Name)
    (source : Handle) : World Name Handle Resource :=
  { world with
    handles := (world.handles.insert other vacant).insert name source }

def step (world : World Name Handle Resource) :
    Op Name Handle → Option (World Name Handle Resource)
  | .construct name handle => some {
      handles := world.handles.insert name handle
      live := world.live ∪ (held handle).toFinset }
  | .moveConstruct name other =>
      (world.handles.lookup other).map fun source =>
        transfer vacant world name other source
  | .moveAssign name other =>
      if name = other then some world
      else
        (world.handles.lookup name).bind fun target =>
          (release held world target).bind fun world =>
            (world.handles.lookup other).map fun source =>
              transfer vacant world name other source
  | .destroy name =>
      (world.handles.lookup name).bind fun target =>
        (release held world target).map fun world =>
          { world with handles := world.handles.erase name }

/-- The handles behind the names after an operation. -/
def after (handles : Name → Option Handle) :
    Op Name Handle → Name → Option Handle
  | .construct name handle => Function.update handles name (some handle)
  | .moveConstruct name other =>
      Function.update (Function.update handles other (some vacant)) name
        (handles other)
  | .moveAssign name other =>
      if name = other then handles
      else Function.update (Function.update handles other (some vacant)) name
        (handles other)
  | .destroy name => Function.update handles name none

/-- A new handle has a new name, and what it is given is not live yet. -/
def Enabled (world : World Name Handle Resource) : Op Name Handle → Prop
  | .construct name handle => name ∉ world.handles ∧
      ∀ resource ∈ held handle, resource ∉ world.live
  | .moveConstruct name other => name ∉ world.handles ∧ other ∈ world.handles
  | .moveAssign name other => name ∈ world.handles ∧ other ∈ world.handles
  | .destroy name => name ∈ world.handles

instance (world : World Name Handle Resource) :
    ∀ op, Decidable (Enabled held world op)
  | .construct name handle =>
      inferInstanceAs (Decidable (name ∉ world.handles ∧
        ∀ resource ∈ held handle, resource ∉ world.live))
  | .moveConstruct name other =>
      inferInstanceAs (Decidable
        (name ∉ world.handles ∧ other ∈ world.handles))
  | .moveAssign name other =>
      inferInstanceAs (Decidable
        (name ∈ world.handles ∧ other ∈ world.handles))
  | .destroy name => inferInstanceAs (Decidable (name ∈ world.handles))

/-- What is live is held by one handle each, and nothing else is held. -/
def Owned (world : World Name Handle Resource) : Prop :=
  ∀ resource, refs held world.handles resource =
    if resource ∈ world.live then 1 else 0

end Machine

section Steps

variable {held : Handle → Option Resource} {vacant : Handle}
  {world : World Name Handle Resource} {name other : Name} {handle : Handle}
  {resource : Resource}

theorem owned_empty :
    Owned held (World.empty : World Name Handle Resource) :=
  fun _ => rfl

theorem Owned.mem_live (howned : Owned held world)
    (hlookup : world.handles.lookup name = some handle)
    (hheld : held handle = some resource) : resource ∈ world.live := by
  have hpos := refs_pos hlookup hheld
  rw [howned resource] at hpos
  by_contra hdead
  rw [if_neg hdead] at hpos
  exact absurd hpos (lt_irrefl 0)

theorem Owned.construct (howned : Owned held world)
    (hname : world.handles.lookup name = none)
    (hfresh : ∀ resource ∈ held handle, resource ∉ world.live) :
    Owned held {
      handles := world.handles.insert name handle
      live := world.live ∪ (held handle).toFinset } := by
  intro resource
  have hinsert := refs_insert held world.handles name handle resource
  rw [hname, howned resource] at hinsert
  simp only [Option.bind_none, reduceCtorEq, if_false, Nat.add_zero] at hinsert
  rw [hinsert]
  by_cases hheld : held handle = some resource
  · have hdead := hfresh resource hheld
    simp [hheld, hdead]
  · simp [hheld]

/-- What a handle holds can be given up, and is held by nobody then. -/
theorem Owned.release (howned : Owned held world)
    (hlookup : world.handles.lookup name = some handle)
    (hvacant : held vacant = none) :
    ∃ live, release held world handle = some { world with live := live } ∧
      Owned held ⟨world.handles.insert name vacant, live⟩ := by
  unfold UniqueOwner.release
  cases hheld : held handle with
  | none =>
      refine ⟨world.live, rfl, ?_⟩
      intro resource
      rw [refs_insert_same]
      · exact howned resource
      · rw [hlookup, hvacant]
        exact hheld
  | some resource =>
      have hlive := howned.mem_live hlookup hheld
      refine ⟨world.live.erase resource, if_pos hlive, ?_⟩
      intro other
      have hbind : (world.handles.lookup name).bind held = some resource := by
        rw [hlookup]
        exact hheld
      rw [refs_clear hbind hvacant]
      by_cases heq : other = resource
      · subst heq
        rw [Function.update_self, howned other, if_pos hlive]
        simp
      · rw [Function.update_of_ne heq, howned other]
        simp [heq]

theorem Owned.transfer (howned : Owned held world) {source : Handle}
    (hother : world.handles.lookup other = some source)
    (hname : (world.handles.lookup name).bind held = none)
    (hne : name ≠ other) (hvacant : held vacant = none) :
    Owned held (transfer vacant world name other source) := by
  intro resource
  cases hheld : held source with
  | none =>
      have hsame : (world.handles.lookup other).bind held = held vacant := by
        rw [hother, hvacant]
        exact hheld
      have hidle :
          ((world.handles.insert other vacant).lookup name).bind held =
            held source := by
        rw [Finmap.lookup_insert_of_ne _ hne, hname, hheld]
      show refs held ((world.handles.insert other vacant).insert name source)
        resource = _
      rw [refs_insert_same hidle, refs_insert_same hsame]
      exact howned resource
  | some found =>
      have hbind : (world.handles.lookup other).bind held = some found := by
        rw [hother]
        exact hheld
      show refs held ((world.handles.insert other vacant).insert name source)
        resource = _
      rw [refs_move hbind hname hne hvacant hheld]
      exact howned resource

omit [DecidableEq Resource] in
theorem lookup_of_mem (hname : name ∈ world.handles) :
    ∃ handle, world.handles.lookup name = some handle :=
  Finmap.mem_iff.mp hname

/-- Every step has an outcome, and leaves nothing held twice or by nobody. -/
theorem Owned.step (howned : Owned held world) (hvacant : held vacant = none)
    {op : Op Name Handle} (henabled : Enabled held world op) :
    ∃ next, step held vacant world op = some next ∧ Owned held next := by
  cases op with
  | construct name handle =>
      exact ⟨_, rfl, howned.construct
        (Finmap.lookup_eq_none.mpr henabled.1) henabled.2⟩
  | moveConstruct name other =>
      obtain ⟨hname, hother⟩ := henabled
      obtain ⟨source, hsource⟩ := lookup_of_mem hother
      have hnone := Finmap.lookup_eq_none.mpr hname
      have hne : name ≠ other := by
        rintro rfl
        exact hname hother
      refine ⟨UniqueOwner.transfer vacant world name other source, ?_, ?_⟩
      · show (world.handles.lookup other).map _ = _
        rw [hsource]
        rfl
      · exact howned.transfer hsource (by rw [hnone]; rfl) hne hvacant
  | moveAssign name other =>
      obtain ⟨hname, hother⟩ := henabled
      unfold UniqueOwner.step
      dsimp only
      split
      · exact ⟨world, rfl, howned⟩
      · rename_i hne
        obtain ⟨target, htarget⟩ := lookup_of_mem hname
        obtain ⟨source, hsource⟩ := lookup_of_mem hother
        obtain ⟨live, hrelease, hreleased⟩ := howned.release htarget hvacant
        rw [htarget, Option.bind_some, hrelease, Option.bind_some, hsource]
        refine ⟨_, rfl, ?_⟩
        -- The target is vacant before it is written.
        have hcleared : ((world.handles.insert name vacant).lookup name).bind
            held = none := by
          rw [Finmap.lookup_insert]
          exact hvacant
        have hkept : (world.handles.insert name vacant).lookup other =
            some source := by
          rw [Finmap.lookup_insert_of_ne _ (Ne.symm hne)]
          exact hsource
        have hmoved := hreleased.transfer hkept hcleared hne hvacant
        unfold UniqueOwner.transfer at hmoved ⊢
        dsimp only at hmoved ⊢
        rwa [Finmap.insert_insert_of_ne _ hne, Finmap.insert_insert] at hmoved
  | destroy name =>
      obtain ⟨target, htarget⟩ := lookup_of_mem henabled
      obtain ⟨live, hrelease, hreleased⟩ := howned.release htarget hvacant
      unfold UniqueOwner.step
      dsimp only
      rw [htarget, Option.bind_some, hrelease, Option.map_some]
      refine ⟨_, rfl, ?_⟩
      intro resource
      have hidle : ((world.handles.insert name vacant).lookup name).bind held =
          none := by
        rw [Finmap.lookup_insert]
        exact hvacant
      show refs held (world.handles.erase name) resource = _
      rw [← erase_insert world.handles name vacant, refs_erase_idle hidle]
      exact hreleased resource

end Steps

end UniqueOwner
