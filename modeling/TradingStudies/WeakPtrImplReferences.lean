import TradingStudies.WeakPtrImplRuns

/-!
# What the variables refer to, and what a program observes

The operations say which object each variable refers to, without any counter:
a copy refers to what it was copied from, a moved pointer to nothing, and what
`lock` returns to the object exactly while a `SharedPtr` does.  The variables of
every run are these.  What is deleted, what a pointer shows and what `lock`
returns can be read off them.
-/

namespace TradingStudies
namespace WeakPtrImpl

open HandleTable StepSystem

variable {Name : Type*} [DecidableEq Name]

/-- The number of objects made so far, and what the variables in scope refer
to, which may be nothing. -/
structure References (Name : Type*) where
  created : ℕ
  shared : Name → Option (Option Object)
  weak : Name → Option (Option Object)

namespace References

def empty : References Name where
  created := 0
  shared := fun _ => none
  weak := fun _ => none

def setShared (references : References Name) (name : Name)
    (object : Option (Option Object)) : References Name :=
  { references with
    shared := Function.update references.shared name object }

def setWeak (references : References Name) (name : Name)
    (object : Option (Option Object)) : References Name :=
  { references with weak := Function.update references.weak name object }

/-- The object which a `WeakPtr` watches, if a `SharedPtr` refers to it. -/
noncomputable def locked (references : References Name) (other : Name) :
    Option Object :=
  open Classical in
  (references.weak other).bind fun watched =>
    watched.filter fun object =>
      ∃ owner, references.shared owner = some (some object)

noncomputable def after (references : References Name) :
    Op Name → References Name
  | .sharedDefault name => references.setShared name (some none)
  | .sharedMake name =>
      { references.setShared name (some (some references.created)) with
        created := references.created + 1 }
  | .sharedCopy name other | .sharedAssign name other =>
      references.setShared name (references.shared other)
  | .sharedMove name other =>
      (references.setShared other (some none)).setShared name
        (references.shared other)
  | .sharedMoveAssign name other =>
      if name = other then references
      else (references.setShared other (some none)).setShared name
        (references.shared other)
  | .sharedDestroy name => references.setShared name none
  | .weakDefault name => references.setWeak name (some none)
  | .weakFromShared name other =>
      references.setWeak name (references.shared other)
  | .weakCopy name other | .weakAssign name other =>
      references.setWeak name (references.weak other)
  | .weakDestroy name => references.setWeak name none
  | .lock name other =>
      references.setShared name (some (references.locked other))

end References

def World.references (world : World Name) : References Name where
  created := world.memory.created
  shared := fun name => (world.shared.lookup name).map SharedPtr.control
  weak := fun name => (world.weak.lookup name).map WeakPtr.control

/-! ## The primitives make no objects -/

section Primitives

variable {memory : Memory}

theorem Memory.deleteObject_created (memory : Memory) (ptr : Option Object) :
    (memory.deleteObject ptr).created = memory.created := by
  cases ptr <;> rfl

theorem SharedPtr.release_created {handle : SharedPtr}
    {result : SharedPtr × Memory}
    (hrelease : handle.release memory = some result) :
    result.2.created = memory.created := by
  unfold SharedPtr.release at hrelease
  split at hrelease
  next =>
    cases hrelease
    rfl
  next control _ =>
    obtain ⟨found, -, hrelease⟩ := Option.bind_eq_some_iff.mp hrelease
    dsimp only at hrelease
    split at hrelease
    next =>
      split at hrelease <;> cases hrelease <;>
        exact memory.deleteObject_created found.ptr
    next =>
      cases hrelease
      rfl

theorem SharedPtr.share_spec {source : SharedPtr}
    {result : SharedPtr × Memory}
    (hshare : source.share memory = some result) :
    result.1.control = source.control ∧
      result.2.created = memory.created := by
  unfold SharedPtr.share at hshare
  split at hshare
  next hcontrol =>
    cases hshare
    exact ⟨hcontrol.symm, rfl⟩
  next control hcontrol =>
    obtain ⟨found, -, hshare⟩ := Option.bind_eq_some_iff.mp hshare
    cases hshare
    exact ⟨hcontrol.symm, rfl⟩

theorem WeakPtr.watch_spec {control : Option Block}
    {result : WeakPtr × Memory}
    (hwatch : WeakPtr.watch control memory = some result) :
    result.1.control = control ∧ result.2.created = memory.created := by
  unfold WeakPtr.watch at hwatch
  split at hwatch
  next =>
    cases hwatch
    exact ⟨rfl, rfl⟩
  next control =>
    obtain ⟨found, -, hwatch⟩ := Option.bind_eq_some_iff.mp hwatch
    cases hwatch
    exact ⟨rfl, rfl⟩

theorem WeakPtr.release_created {handle : WeakPtr}
    {result : WeakPtr × Memory}
    (hrelease : handle.release memory = some result) :
    result.2.created = memory.created := by
  unfold WeakPtr.release at hrelease
  split at hrelease
  next =>
    cases hrelease
    rfl
  next control _ =>
    obtain ⟨found, -, hrelease⟩ := Option.bind_eq_some_iff.mp hrelease
    split at hrelease <;> cases hrelease <;> rfl

theorem WeakPtr.lock_created {handle : WeakPtr} {result : SharedPtr × Memory}
    (hlock : handle.lock memory = some result) :
    result.2.created = memory.created := by
  unfold WeakPtr.lock at hlock
  obtain ⟨expired, -, hlock⟩ := Option.bind_eq_some_iff.mp hlock
  split at hlock
  next =>
    cases hlock
    rfl
  next =>
    unfold SharedPtr.ofWeak at hlock
    split at hlock
    next =>
      cases hlock
      rfl
    next control _ =>
      obtain ⟨found, -, hlock⟩ := Option.bind_eq_some_iff.mp hlock
      split at hlock <;> cases hlock <;> rfl

end Primitives

/-! ## Steps -/

variable {world next : World Name} {name other : Name}

theorem references_setShared {result : SharedPtr × Memory}
    (hcreated : result.2.created = world.memory.created) :
    (world.setShared name result).references =
      world.references.setShared name (some result.1.control) := by
  have hshared :=
    map_lookup_insert SharedPtr.control world.shared name result.1
  unfold World.references World.setShared References.setShared
  dsimp only
  rw [hcreated, hshared]

theorem references_setWeak {result : WeakPtr × Memory}
    (hcreated : result.2.created = world.memory.created) :
    (world.setWeak name result).references =
      world.references.setWeak name (some result.1.control) := by
  have hweak := map_lookup_insert WeakPtr.control world.weak name result.1
  unfold World.references World.setWeak References.setWeak
  dsimp only
  rw [hcreated, hweak]

/-- Setting a variable twice is setting it once. -/
theorem References.setShared_setShared (references : References Name)
    (name : Name) (object object' : Option (Option Object)) :
    (references.setShared name object).setShared name object' =
      references.setShared name object' := by
  unfold References.setShared
  dsimp only
  rw [Function.update_idem]

theorem References.setWeak_setWeak (references : References Name)
    (name : Name) (object object' : Option (Option Object)) :
    (references.setWeak name object).setWeak name object' =
      references.setWeak name object' := by
  unfold References.setWeak
  dsimp only
  rw [Function.update_idem]

theorem references_shared {handle : SharedPtr}
    (hlookup : world.shared.lookup name = some handle) :
    world.references.shared name = some handle.control := by
  unfold World.references
  dsimp only
  rw [hlookup, Option.map_some]

theorem references_weak {handle : WeakPtr}
    (hlookup : world.weak.lookup name = some handle) :
    world.references.weak name = some handle.control := by
  unfold World.references
  dsimp only
  rw [hlookup, Option.map_some]

theorem references_shared_eq_some_iff {object : Object} :
    world.references.shared name = some (some object) ↔
      ∃ handle, world.shared.lookup name = some handle ∧
        handle.control = some object := by
  unfold World.references
  exact Option.map_eq_some_iff

theorem References.setShared_self (references : References Name)
    (name : Name) :
    references.setShared name (references.shared name) = references := by
  unfold References.setShared
  rw [Function.update_eq_self]

theorem References.setWeak_self (references : References Name) (name : Name) :
    references.setWeak name (references.weak name) = references := by
  unfold References.setWeak
  rw [Function.update_eq_self]

/-- `lock` finds what the references say. -/
theorem references_locked {weak : WeakPtr} {result : SharedPtr × Memory}
    (hlookup : world.weak.lookup other = some weak)
    (hcontrol : ∀ object, result.1.control = some object ↔
      weak.control = some object ∧ 0 < world.owners object) :
    world.references.locked other = result.1.control := by
  unfold References.locked
  rw [references_weak hlookup, Option.bind_some]
  apply Option.ext
  intro object
  rw [Option.filter_eq_some_iff, hcontrol object]
  apply and_congr_right
  intro _
  simp only [decide_eq_true_eq, references_shared_eq_some_iff]
  exact refs_pos_iff.symm

theorem sharedAssign_references
    (hstep : step world (.sharedAssign name other) = some next) :
    next.references = world.references.after (.sharedAssign name other) := by
  unfold step at hstep
  unfold References.after
  dsimp only at hstep ⊢
  by_cases hself : name = other
  · rw [if_pos hself] at hstep
    cases hstep
    rw [← hself, References.setShared_self]
  · rw [if_neg hself] at hstep
    obtain ⟨target, -, hstep⟩ := Option.bind_eq_some_iff.mp hstep
    obtain ⟨released, hrelease, hstep⟩ := Option.bind_eq_some_iff.mp hstep
    obtain ⟨source, hsource, hstep⟩ := Option.bind_eq_some_iff.mp hstep
    obtain ⟨result, hshare, rfl⟩ := Option.map_eq_some_iff.mp hstep
    have hreleased := SharedPtr.release_created hrelease
    obtain ⟨hcontrol, hcreated⟩ := SharedPtr.share_spec hshare
    rw [references_setShared hcreated, references_setShared hreleased,
      References.setShared_setShared, hcontrol, references_shared hsource]

theorem sharedMoveAssign_references
    (hstep : step world (.sharedMoveAssign name other) = some next) :
    next.references =
      world.references.after (.sharedMoveAssign name other) := by
  unfold step at hstep
  unfold References.after
  dsimp only at hstep ⊢
  by_cases hself : name = other
  · rw [if_pos hself] at hstep ⊢
    cases hstep
    rfl
  · rw [if_neg hself] at hstep ⊢
    obtain ⟨target, -, hstep⟩ := Option.bind_eq_some_iff.mp hstep
    obtain ⟨released, hrelease, hstep⟩ := Option.bind_eq_some_iff.mp hstep
    obtain ⟨source, hsource, rfl⟩ := Option.map_eq_some_iff.mp hstep
    have hreleased := SharedPtr.release_created hrelease
    rw [references_setShared rfl, references_setShared rfl,
      references_setShared hreleased, references_shared hsource]
    unfold References.setShared
    dsimp only
    rw [Function.update_comm hself, Function.update_idem]
    rfl

theorem weakAssign_references
    (hstep : step world (.weakAssign name other) = some next) :
    next.references = world.references.after (.weakAssign name other) := by
  unfold step at hstep
  unfold References.after
  dsimp only at hstep ⊢
  by_cases hself : name = other
  · rw [if_pos hself] at hstep
    cases hstep
    rw [← hself, References.setWeak_self]
  · rw [if_neg hself] at hstep
    obtain ⟨target, -, hstep⟩ := Option.bind_eq_some_iff.mp hstep
    obtain ⟨released, hrelease, hstep⟩ := Option.bind_eq_some_iff.mp hstep
    obtain ⟨source, hsource, hstep⟩ := Option.bind_eq_some_iff.mp hstep
    obtain ⟨result, hwatch, rfl⟩ := Option.map_eq_some_iff.mp hstep
    have hreleased := WeakPtr.release_created hrelease
    obtain ⟨hcontrol, hcreated⟩ := WeakPtr.watch_spec hwatch
    rw [references_setWeak hcreated, references_setWeak hreleased,
      References.setWeak_setWeak, hcontrol, references_weak hsource]

/-- Every step leaves the references which its operation says. -/
theorem step_references (hexact : world.Exact) {op : Op Name}
    (henabled : Enabled world op) (hstep : step world op = some next) :
    next.references = world.references.after op := by
  cases op with
  | sharedDefault name =>
      cases hstep
      exact references_setShared rfl
  | sharedMake name =>
      cases hstep
      have hshared := map_lookup_insert SharedPtr.control world.shared name
        ⟨some world.memory.created⟩
      unfold World.references World.setShared SharedPtr.make References.after
        References.setShared
      dsimp only
      rw [hshared]
  | sharedCopy name other =>
      obtain ⟨source, hsource, hstep⟩ := Option.bind_eq_some_iff.mp hstep
      obtain ⟨result, hshare, rfl⟩ := Option.map_eq_some_iff.mp hstep
      obtain ⟨hcontrol, hcreated⟩ := SharedPtr.share_spec hshare
      rw [references_setShared hcreated, hcontrol]
      unfold References.after
      dsimp only
      rw [references_shared hsource]
  | sharedMove name other =>
      obtain ⟨source, hsource, rfl⟩ := Option.map_eq_some_iff.mp hstep
      rw [references_setShared rfl, references_setShared rfl]
      unfold References.after
      dsimp only
      rw [references_shared hsource]
      rfl
  | sharedAssign name other => exact sharedAssign_references hstep
  | sharedMoveAssign name other => exact sharedMoveAssign_references hstep
  | sharedDestroy name =>
      obtain ⟨target, -, hstep⟩ := Option.bind_eq_some_iff.mp hstep
      obtain ⟨released, hrelease, rfl⟩ := Option.map_eq_some_iff.mp hstep
      have hshared := map_lookup_erase SharedPtr.control world.shared name
      unfold World.references References.after References.setShared
      dsimp only
      rw [hshared, SharedPtr.release_created hrelease]
  | weakDefault name =>
      cases hstep
      exact references_setWeak rfl
  | weakFromShared name other =>
      obtain ⟨source, hsource, hstep⟩ := Option.bind_eq_some_iff.mp hstep
      obtain ⟨result, hwatch, rfl⟩ := Option.map_eq_some_iff.mp hstep
      obtain ⟨hcontrol, hcreated⟩ := WeakPtr.watch_spec hwatch
      rw [references_setWeak hcreated, hcontrol]
      unfold References.after
      dsimp only
      rw [references_shared hsource]
  | weakCopy name other =>
      obtain ⟨source, hsource, hstep⟩ := Option.bind_eq_some_iff.mp hstep
      obtain ⟨result, hwatch, rfl⟩ := Option.map_eq_some_iff.mp hstep
      obtain ⟨hcontrol, hcreated⟩ := WeakPtr.watch_spec hwatch
      rw [references_setWeak hcreated, hcontrol]
      unfold References.after
      dsimp only
      rw [references_weak hsource]
  | weakAssign name other => exact weakAssign_references hstep
  | weakDestroy name =>
      obtain ⟨target, -, hstep⟩ := Option.bind_eq_some_iff.mp hstep
      obtain ⟨released, hrelease, rfl⟩ := Option.map_eq_some_iff.mp hstep
      have hweak := map_lookup_erase WeakPtr.control world.weak name
      unfold World.references References.after References.setWeak
      dsimp only
      rw [hweak, WeakPtr.release_created hrelease]
  | lock name other =>
      obtain ⟨weak, hweak, hstep⟩ := Option.bind_eq_some_iff.mp hstep
      obtain ⟨result, hlock, rfl⟩ := Option.map_eq_some_iff.mp hstep
      obtain ⟨result', hlock', -, hcontrol⟩ :=
        hexact.lock hweak (World.bind_control_of_notMem henabled.1)
      rw [hlock, Option.some.injEq] at hlock'
      subst result'
      rw [references_setShared (WeakPtr.lock_created hlock)]
      unfold References.after
      dsimp only
      rw [references_locked hweak hcontrol]

/-! ## What a program observes -/

/-- An object is deleted once, by the time that no `SharedPtr` refers to it, a
control block once, by the time that no variable refers to it, and variables
refer to what is there.  The counters count the variables, and an `int` holds
them as long as there are fewer than `2 ^ 31 - 1` variables of either kind. -/
structure CountedExactly (world : World Name) : Prop where
  object : ∀ object < world.memory.created,
    world.memory.deletedObjects.count object =
      if world.owners object = 0 then 1 else 0
  block : ∀ control < world.memory.created,
    world.memory.deletedBlocks.count control =
      if world.owners control = 0 ∧ world.watchers control = 0 then 1 else 0
  created : ∀ control, world.memory.created ≤ control →
    control ∉ world.memory.deletedObjects ∧
      control ∉ world.memory.deletedBlocks ∧
      world.owners control = 0 ∧ world.watchers control = 0
  shared : ∀ name handle, world.shared.lookup name = some handle →
    handle.get world.memory = some handle.control
  unique : ∀ name handle, world.shared.lookup name = some handle →
    handle.unique world.memory =
      some (handle.control.any fun object => world.owners object = 1)
  weak : ∀ name handle, world.weak.lookup name = some handle →
    (handle.expired world.memory).isSome
  counters : ∀ control found, world.memory.block control = some found →
    found.shared_count = world.owners control ∧
      found.weak_count = world.watchers control +
        if world.owners control = 0 then 0 else 1
  ints : world.shared.keys.card < 2 ^ 31 - 1 →
    world.weak.keys.card < 2 ^ 31 - 1 →
      ∀ control found, world.memory.block control = some found →
        0 ≤ found.shared_count ∧ found.shared_count < 2 ^ 31 ∧
          0 ≤ found.weak_count ∧ found.weak_count < 2 ^ 31

/-- `lock` yields the object exactly while a `SharedPtr` refers to it. -/
def LockIsExact (world : World Name) : Prop :=
  ∀ name other, Enabled world (.lock name other) →
    ∃ weak next result, world.weak.lookup other = some weak ∧
      step world (.lock name other) = some next ∧
      next.shared.lookup name = some result ∧
      (result.get next.memory).isSome ∧
      ∀ object, result.get next.memory = some (some object) ↔
        weak.control = some object ∧
          ∃ owner handle, world.shared.lookup owner = some handle ∧
            handle.control = some object

theorem World.Exact.get_eq (hexact : world.Exact) {handle : SharedPtr}
    (hlookup : world.shared.lookup name = some handle) :
    handle.get world.memory = some handle.control := by
  obtain ⟨control⟩ := handle
  cases control with
  | none => rfl
  | some control =>
      have hblock :=
        Memory.Exact.block_owned hexact (World.owners_pos hlookup rfl)
      simp [SharedPtr.get, hblock]

theorem World.Exact.unique_eq (hexact : world.Exact) {handle : SharedPtr}
    (hlookup : world.shared.lookup name = some handle) :
    handle.unique world.memory =
      some (handle.control.any fun object => world.owners object = 1) := by
  obtain ⟨control⟩ := handle
  cases control with
  | none => rfl
  | some control =>
      have hblock :=
        Memory.Exact.block_owned hexact (World.owners_pos hlookup rfl)
      simp [SharedPtr.unique, hblock]

theorem World.Exact.expired_isSome (hexact : world.Exact) {handle : WeakPtr}
    (hlookup : world.weak.lookup name = some handle) :
    (handle.expired world.memory).isSome := by
  obtain ⟨control⟩ := handle
  cases control with
  | none => rfl
  | some control =>
      have hwatched := World.watchers_pos hlookup rfl
      by_cases howned : world.owners control = 0
      · have hblock := Memory.Exact.block_watched hexact howned hwatched
        simp [WeakPtr.expired, hblock]
      · have hblock :=
          Memory.Exact.block_owned hexact (Nat.pos_of_ne_zero howned)
        simp [WeakPtr.expired, hblock]

theorem World.Exact.counters_eq (hexact : world.Exact) {control : Block}
    {found : ControlBlock} (hfound : world.memory.block control = some found) :
    found.shared_count = world.owners control ∧
      found.weak_count = world.watchers control +
        if world.owners control = 0 then 0 else 1 := by
  have hblock := (hexact control).block
  rw [hfound] at hblock
  by_cases hcreated : control < world.memory.created
  · rw [if_pos hcreated] at hblock
    by_cases howned : world.owners control = 0
    · by_cases hwatched : world.watchers control = 0
      · rw [howned, hwatched, controlBlock_abandoned] at hblock
        cases hblock
      · rw [howned, controlBlock_watched (Nat.pos_of_ne_zero hwatched)]
          at hblock
        cases hblock
        simp [howned]
    · rw [controlBlock_owned (Nat.pos_of_ne_zero howned)] at hblock
      cases hblock
      simp [howned]
  · rw [if_neg hcreated] at hblock
    cases hblock

theorem World.Exact.countedExactly (hexact : world.Exact) :
    CountedExactly world where
  object control hcreated := by
    simpa only [hcreated, true_and] using (hexact control).objects
  block control hcreated := by
    simpa only [hcreated, true_and] using (hexact control).blocks
  created control hle := by
    have hobjects := (hexact control).objects
    have hblocks := (hexact control).blocks
    rw [if_neg fun h => Nat.not_lt_of_le hle h.1, List.count_eq_zero]
      at hobjects hblocks
    exact ⟨hobjects, hblocks, (hexact control).fresh hle⟩
  shared _ _ hlookup := hexact.get_eq hlookup
  unique _ _ hlookup := hexact.unique_eq hlookup
  weak _ _ hlookup := hexact.expired_isSome hlookup
  counters _ _ hfound := hexact.counters_eq hfound
  ints hshared hweak control found hfound := by
    obtain ⟨howners, hwatchers⟩ := hexact.counters_eq hfound
    have hfew : world.owners control ≤ world.shared.keys.card :=
      refs_le_card _ _ _
    have hfew' : world.watchers control ≤ world.weak.keys.card :=
      refs_le_card _ _ _
    rw [howners, hwatchers]
    split <;> omega

theorem World.Exact.lockIsExact (hexact : world.Exact) :
    LockIsExact world := by
  intro name other henabled
  obtain ⟨weak, hweak⟩ := exists_of_mem_weak henabled.2
  obtain ⟨result, hlock, hnext, hcontrol⟩ :=
    hexact.lock hweak (World.bind_control_of_notMem henabled.1)
  have hlookup :
      (world.setShared name result).shared.lookup name = some result.1 :=
    Finmap.lookup_insert _
  have hget := hnext.get_eq hlookup
  refine ⟨weak, world.setShared name result, result.1, hweak, ?_, hlookup,
    ?_, ?_⟩
  · simp only [step, hweak, Option.bind_some, hlock, Option.map_some]
  · rw [hget]
    rfl
  · intro object
    rw [hget, Option.some.injEq, hcontrol object]
    exact and_congr_right fun _ => refs_pos_iff

/-- At every moment of every program the variables refer to what its operations
say, and the references are counted exactly. -/
theorem run_countedExactly (ops : List (Op Name))
    (henabled : AllAllowed step Enabled ops World.empty) (n : ℕ) :
    ∃ world, run step (ops.take n) World.empty = some world ∧
      world.references = (ops.take n).foldl References.after
        References.empty ∧
      CountedExactly world ∧ LockIsExact world := by
  have hstep : ∀ (world : World Name) (references : References Name)
      (op : Op Name), world.references = references ∧ world.Exact →
        Enabled world op → ∃ next, step world op = some next ∧
          next.references = references.after op ∧ next.Exact := by
    rintro world references op ⟨rfl, hexact⟩ hop
    obtain ⟨next, hnext, hexact'⟩ := step_exact op hexact hop
    exact ⟨next, hnext, step_references hexact hop hnext, hexact'⟩
  obtain ⟨world, hrun, hreferences, hexact⟩ := run_simulation
    (fun world references => world.references = references ∧ world.Exact)
    hstep ⟨rfl, World.exact_empty⟩ (henabled.take n)
  exact ⟨world, hrun, hreferences, hexact.countedExactly, hexact.lockIsExact⟩

/-- Two owners, a copied weak pointer which survives them, and a `lock` before
and after the object is deleted. -/
theorem run_countedExactly_two_owners :
    ∃ world, run step (List.take 10 [.sharedMake 0, .weakFromShared 0 0,
          .lock 1 0, .sharedAssign 1 0, .sharedDestroy 0, .weakCopy 1 0,
          .weakDestroy 0, .sharedDestroy 1, .lock 2 1, .weakDestroy 1])
        (World.empty : World ℕ) = some world ∧
      world.references.created = 1 ∧
      CountedExactly world ∧ LockIsExact world := by
  obtain ⟨world, hrun, hreferences, hcounted⟩ :=
    run_countedExactly [.sharedMake 0, .weakFromShared 0 0,
      .lock 1 0, .sharedAssign 1 0, .sharedDestroy 0, .weakCopy 1 0,
      .weakDestroy 0, .sharedDestroy 1, .lock 2 1, .weakDestroy 1]
      (show AllAllowed step Enabled _ (World.empty : World ℕ) by decide) 10
  refine ⟨world, hrun, ?_, hcounted⟩
  rw [hreferences]
  rfl

end WeakPtrImpl
end TradingStudies
