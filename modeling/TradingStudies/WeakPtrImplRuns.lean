import TradingStudies.WeakPtrImplCounts

/-!
# Runs of programs with weak pointers

The counters of every control block agree with the variables in scope before
and after each step, and no step reads a block that has been deleted.
-/

namespace TradingStudies
namespace WeakPtrImpl

open HandleTable StepSystem

variable {Name : Type*} [DecidableEq Name]

namespace World

/-- The number of `SharedPtr` variables that refer to each object. -/
def owners (world : World Name) : Object → ℕ :=
  refs SharedPtr.control world.shared

/-- The number of `WeakPtr` variables that refer to each object. -/
def watchers (world : World Name) : Object → ℕ :=
  refs WeakPtr.control world.weak

def Exact (world : World Name) : Prop :=
  world.memory.Exact world.owners world.watchers

variable {world : World Name} {name other : Name}

theorem exact_empty : (empty : World Name).Exact :=
  Memory.exact_empty

theorem owners_pos {handle : SharedPtr} {control : Block}
    (hlookup : world.shared.lookup name = some handle)
    (hcontrol : handle.control = some control) : 0 < world.owners control :=
  refs_pos hlookup hcontrol

theorem watchers_pos {handle : WeakPtr} {control : Block}
    (hlookup : world.weak.lookup name = some handle)
    (hcontrol : handle.control = some control) : 0 < world.watchers control :=
  refs_pos hlookup hcontrol

theorem bind_control_of_notMem (hfresh : name ∉ world.shared) :
    (world.shared.lookup name).bind SharedPtr.control = none := by
  rw [Finmap.lookup_eq_none.mpr hfresh]
  rfl

theorem bind_weak_control_of_notMem (hfresh : name ∉ world.weak) :
    (world.weak.lookup name).bind WeakPtr.control = none := by
  rw [Finmap.lookup_eq_none.mpr hfresh]
  rfl

/-- A null pointer is put into a variable that refers to nothing. -/
theorem Exact.set_null (hexact : world.Exact)
    (hidle : (world.shared.lookup name).bind SharedPtr.control = none) :
    (world.setShared name (SharedPtr.null, world.memory)).Exact := by
  have howners : (world.setShared name (SharedPtr.null, world.memory)).owners =
      world.owners := refs_insert_same hidle
  unfold Exact
  rw [howners]
  exact hexact

theorem Exact.set_weak_null (hexact : world.Exact)
    (hidle : (world.weak.lookup name).bind WeakPtr.control = none) :
    (world.setWeak name (WeakPtr.null, world.memory)).Exact := by
  have hwatchers :
      (world.setWeak name (WeakPtr.null, world.memory)).watchers =
        world.watchers := refs_insert_same hidle
  unfold Exact
  rw [hwatchers]
  exact hexact

theorem Exact.make (hexact : world.Exact)
    (hidle : (world.shared.lookup name).bind SharedPtr.control = none) :
    (world.setShared name (SharedPtr.make world.memory)).Exact := by
  have howners : (world.setShared name (SharedPtr.make world.memory)).owners =
      Function.update world.owners world.memory.created
        (world.owners world.memory.created + 1) := refs_set hidle rfl
  have hfresh := ((hexact world.memory.created).fresh le_rfl).1
  unfold Exact
  rw [howners, hfresh]
  exact Memory.make_owner hexact

/-- A variable gives up what it refers to and is null afterwards. -/
theorem Exact.release (hexact : world.Exact) {handle : SharedPtr}
    (hlookup : world.shared.lookup name = some handle) :
    ∃ memory, handle.release world.memory = some (SharedPtr.null, memory) ∧
      (world.setShared name (SharedPtr.null, memory)).Exact := by
  obtain ⟨control⟩ := handle
  cases control with
  | none =>
      refine ⟨world.memory, rfl, hexact.set_null ?_⟩
      rw [hlookup]
      rfl
  | some control =>
      obtain ⟨memory, hrelease, hnext⟩ :=
        Memory.release_owner hexact (owners_pos hlookup rfl)
      have howners : (world.setShared name (SharedPtr.null, memory)).owners =
          Function.update world.owners control (world.owners control - 1) := by
        apply refs_clear _ rfl
        rw [hlookup]
        rfl
      refine ⟨memory, hrelease, ?_⟩
      unfold Exact
      rw [howners]
      exact hnext

theorem Exact.release_weak (hexact : world.Exact) {handle : WeakPtr}
    (hlookup : world.weak.lookup name = some handle) :
    ∃ memory, handle.release world.memory = some (WeakPtr.null, memory) ∧
      (world.setWeak name (WeakPtr.null, memory)).Exact := by
  obtain ⟨control⟩ := handle
  cases control with
  | none =>
      refine ⟨world.memory, rfl, hexact.set_weak_null ?_⟩
      rw [hlookup]
      rfl
  | some control =>
      obtain ⟨memory, hrelease, hnext⟩ :=
        Memory.release_watcher hexact (watchers_pos hlookup rfl)
      have hwatchers : (world.setWeak name (WeakPtr.null, memory)).watchers =
          Function.update world.watchers control
            (world.watchers control - 1) := by
        apply refs_clear _ rfl
        rw [hlookup]
        rfl
      refine ⟨memory, hrelease, ?_⟩
      unfold Exact
      rw [hwatchers]
      exact hnext

/-- A variable that refers to nothing becomes one more owner. -/
theorem Exact.share_owned (hexact : world.Exact) {control : Block}
    (howned : 0 < world.owners control)
    (hidle : (world.shared.lookup name).bind SharedPtr.control = none) :
    ∃ memory, SharedPtr.share ⟨some control⟩ world.memory =
        some (⟨some control⟩, memory) ∧
      (world.setShared name (⟨some control⟩, memory)).Exact := by
  obtain ⟨memory, hshare, hnext⟩ := Memory.share_owner hexact howned
  have howners : (world.setShared name (⟨some control⟩, memory)).owners =
      Function.update world.owners control (world.owners control + 1) :=
    refs_set hidle rfl
  refine ⟨memory, hshare, ?_⟩
  unfold Exact
  rw [howners]
  exact hnext

theorem Exact.share (hexact : world.Exact) {source : SharedPtr}
    (hother : world.shared.lookup other = some source)
    (hidle : (world.shared.lookup name).bind SharedPtr.control = none) :
    ∃ result, source.share world.memory = some result ∧
      (world.setShared name result).Exact := by
  obtain ⟨control⟩ := source
  cases control with
  | none => exact ⟨(SharedPtr.null, world.memory), rfl, hexact.set_null hidle⟩
  | some control =>
      obtain ⟨memory, hshare, hnext⟩ :=
        hexact.share_owned (owners_pos hother rfl) hidle
      exact ⟨_, hshare, hnext⟩

/-- A weak variable that refers to nothing starts to watch a control block
which has a reference. -/
theorem Exact.watch (hexact : world.Exact) {control : Option Block}
    (hlive : ∀ block, control = some block →
      0 < world.owners block ∨ 0 < world.watchers block)
    (hidle : (world.weak.lookup name).bind WeakPtr.control = none) :
    ∃ result, WeakPtr.watch control world.memory = some result ∧
      (world.setWeak name result).Exact := by
  cases control with
  | none =>
      exact ⟨(WeakPtr.null, world.memory), rfl, hexact.set_weak_null hidle⟩
  | some control =>
      obtain ⟨memory, hwatch, hnext⟩ :=
        Memory.watch_live hexact (hlive control rfl)
      have hwatchers :
          (world.setWeak name (⟨some control⟩, memory)).watchers =
            Function.update world.watchers control
              (world.watchers control + 1) := refs_set hidle rfl
      refine ⟨_, hwatch, ?_⟩
      unfold Exact
      rw [hwatchers]
      exact hnext

/-- A reference goes from one variable to another, which refers to nothing. -/
theorem Exact.move (hexact : world.Exact) {source : SharedPtr}
    (hother : world.shared.lookup other = some source)
    (hidle : (world.shared.lookup name).bind SharedPtr.control = none)
    (hne : name ≠ other) :
    ((world.setShared other (SharedPtr.null, world.memory)).setShared name
      (source, world.memory)).Exact := by
  obtain ⟨control⟩ := source
  cases control with
  | none =>
      apply Exact.set_null
      · apply hexact.set_null
        rw [hother]
        rfl
      · rw [setShared, Finmap.lookup_insert_of_ne _ hne]
        exact hidle
  | some control =>
      have howners :
          ((world.setShared other (SharedPtr.null, world.memory)).setShared
            name (⟨some control⟩, world.memory)).owners = world.owners := by
        have hsource :
            (world.shared.lookup other).bind SharedPtr.control =
              some control := by
          rw [hother]
          rfl
        exact refs_move hsource hidle hne rfl rfl
      unfold Exact
      rw [howners]
      exact hexact

/-- What `lock` returns, and the world in which a new variable holds it. -/
theorem Exact.lock (hexact : world.Exact) {weak : WeakPtr}
    (hother : world.weak.lookup other = some weak)
    (hidle : (world.shared.lookup name).bind SharedPtr.control = none) :
    ∃ result, weak.lock world.memory = some result ∧
      (world.setShared name result).Exact ∧
      ∀ object, result.1.control = some object ↔
        weak.control = some object ∧ 0 < world.owners object := by
  obtain ⟨control⟩ := weak
  cases control with
  | none =>
      refine ⟨(SharedPtr.null, world.memory), rfl, hexact.set_null hidle, ?_⟩
      intro object
      simp [SharedPtr.null]
  | some control =>
      have hlock := Memory.lock_watcher hexact (watchers_pos hother rfl)
      by_cases howned : world.owners control = 0
      · rw [if_pos howned] at hlock
        refine ⟨_, hlock, hexact.set_null hidle, ?_⟩
        intro object
        constructor
        · intro hnull
          cases hnull
        · rintro ⟨hsame, hpos⟩
          cases hsame
          omega
      · obtain ⟨memory, hshare, hnext⟩ :=
          hexact.share_owned (Nat.pos_of_ne_zero howned) hidle
        rw [if_neg howned, hshare] at hlock
        refine ⟨_, hlock, hnext, ?_⟩
        intro object
        constructor
        · intro hsame
          cases hsame
          exact ⟨rfl, Nat.pos_of_ne_zero howned⟩
        · exact And.left

end World

/-! ## Steps -/

variable {world : World Name} {name other : Name}

theorem exists_of_mem_shared (hmem : name ∈ world.shared) :
    ∃ handle, world.shared.lookup name = some handle :=
  Finmap.mem_iff.mp hmem

theorem exists_of_mem_weak (hmem : name ∈ world.weak) :
    ∃ handle, world.weak.lookup name = some handle :=
  Finmap.mem_iff.mp hmem

theorem lookup_released (hne : name ≠ other) (result : SharedPtr × Memory) :
    (world.setShared name result).shared.lookup other =
      world.shared.lookup other :=
  Finmap.lookup_insert_of_ne _ hne.symm

theorem bind_control_released (world : World Name) (name : Name)
    (memory : Memory) :
    ((world.setShared name (SharedPtr.null, memory)).shared.lookup name).bind
      SharedPtr.control = none := by
  rw [World.setShared, Finmap.lookup_insert]
  rfl

theorem step_sharedAssign (hexact : world.Exact)
    (hname : name ∈ world.shared) (hother : other ∈ world.shared) :
    ∃ next, step world (.sharedAssign name other) = some next ∧
      next.Exact := by
  by_cases hsame : name = other
  · exact ⟨world, by simp only [step, if_pos hsame], hexact⟩
  · obtain ⟨target, htarget⟩ := exists_of_mem_shared hname
    obtain ⟨source, hsource⟩ := exists_of_mem_shared hother
    obtain ⟨memory, hrelease, hreleased⟩ := hexact.release htarget
    have hlookup := hsource
    rw [← lookup_released hsame (SharedPtr.null, memory)] at hlookup
    obtain ⟨result, hshare, hnext⟩ :=
      hreleased.share hlookup (bind_control_released world name memory)
    refine ⟨_, ?_, hnext⟩
    simp only [step, if_neg hsame, htarget, hsource, hrelease,
      Option.bind_some]
    have hshared : source.share memory = some result := hshare
    rw [hshared]
    rfl

theorem step_sharedMoveAssign (hexact : world.Exact)
    (hname : name ∈ world.shared) (hother : other ∈ world.shared) :
    ∃ next, step world (.sharedMoveAssign name other) = some next ∧
      next.Exact := by
  by_cases hsame : name = other
  · exact ⟨world, by simp only [step, if_pos hsame], hexact⟩
  · obtain ⟨target, htarget⟩ := exists_of_mem_shared hname
    obtain ⟨source, hsource⟩ := exists_of_mem_shared hother
    obtain ⟨memory, hrelease, hreleased⟩ := hexact.release htarget
    have hlookup := hsource
    rw [← lookup_released hsame (SharedPtr.null, memory)] at hlookup
    have hnext :=
      hreleased.move hlookup (bind_control_released world name memory) hsame
    refine ⟨_, ?_, hnext⟩
    simp only [step, if_neg hsame, htarget, hsource, hrelease,
      Option.bind_some, Option.map_some]
    rfl

theorem step_weakAssign (hexact : world.Exact)
    (hname : name ∈ world.weak) (hother : other ∈ world.weak) :
    ∃ next, step world (.weakAssign name other) = some next ∧ next.Exact := by
  by_cases hsame : name = other
  · exact ⟨world, by simp only [step, if_pos hsame], hexact⟩
  · obtain ⟨target, htarget⟩ := exists_of_mem_weak hname
    obtain ⟨source, hsource⟩ := exists_of_mem_weak hother
    obtain ⟨memory, hrelease, hreleased⟩ := hexact.release_weak htarget
    have hlookup : (world.setWeak name (WeakPtr.null, memory)).weak.lookup
        other = some source := by
      rw [World.setWeak, Finmap.lookup_insert_of_ne _ (Ne.symm hsame), hsource]
    have hidle : ((world.setWeak name (WeakPtr.null, memory)).weak.lookup
        name).bind WeakPtr.control = none := by
      rw [World.setWeak, Finmap.lookup_insert]
      rfl
    obtain ⟨result, hwatch, hnext⟩ := hreleased.watch
      (fun block hblock => Or.inr (World.watchers_pos hlookup hblock)) hidle
    refine ⟨_, ?_, hnext⟩
    have hwatched : WeakPtr.watch source.control memory = some result := hwatch
    simp only [step, if_neg hsame, htarget, hsource, hrelease,
      Option.bind_some, hwatched]
    rfl

/-- No operation reads a deleted block, and the counters stay exact. -/
theorem step_exact (op : Op Name) (hexact : world.Exact)
    (henabled : Enabled world op) :
    ∃ next, step world op = some next ∧ next.Exact := by
  cases op with
  | sharedDefault name =>
      exact ⟨_, rfl, hexact.set_null (World.bind_control_of_notMem henabled)⟩
  | sharedMake name =>
      exact ⟨_, rfl, hexact.make (World.bind_control_of_notMem henabled)⟩
  | sharedCopy name other =>
      obtain ⟨source, hsource⟩ := exists_of_mem_shared henabled.2
      obtain ⟨result, hshare, hnext⟩ :=
        hexact.share hsource (World.bind_control_of_notMem henabled.1)
      refine ⟨_, ?_, hnext⟩
      simp only [step, hsource, Option.bind_some, hshare, Option.map_some]
  | sharedMove name other =>
      obtain ⟨source, hsource⟩ := exists_of_mem_shared henabled.2
      have hne : name ≠ other := fun h => henabled.1 (h ▸ henabled.2)
      have hnext :=
        hexact.move hsource (World.bind_control_of_notMem henabled.1) hne
      refine ⟨_, ?_, hnext⟩
      simp only [step, hsource, Option.map_some]
  | sharedAssign name other =>
      exact step_sharedAssign hexact henabled.1 henabled.2
  | sharedMoveAssign name other =>
      exact step_sharedMoveAssign hexact henabled.1 henabled.2
  | sharedDestroy name =>
      obtain ⟨target, htarget⟩ := exists_of_mem_shared henabled
      obtain ⟨memory, hrelease, hreleased⟩ := hexact.release htarget
      refine ⟨{ world with shared := world.shared.erase name, memory }, ?_, ?_⟩
      · simp only [step, htarget, Option.bind_some, hrelease, Option.map_some]
      · have howners : refs SharedPtr.control (world.shared.erase name) =
            (world.setShared name (SharedPtr.null, memory)).owners := by
          rw [← erase_insert world.shared name SharedPtr.null]
          exact refs_erase_idle (bind_control_released world name memory)
        unfold World.Exact World.owners
        rw [howners]
        exact hreleased
  | weakDefault name =>
      exact ⟨_, rfl,
        hexact.set_weak_null (World.bind_weak_control_of_notMem henabled)⟩
  | weakFromShared name other =>
      obtain ⟨source, hsource⟩ := exists_of_mem_shared henabled.2
      obtain ⟨result, hwatch, hnext⟩ := hexact.watch
        (fun block hblock => Or.inl (World.owners_pos hsource hblock))
        (World.bind_weak_control_of_notMem henabled.1)
      refine ⟨_, ?_, hnext⟩
      simp only [step, hsource, Option.bind_some, hwatch, Option.map_some]
  | weakCopy name other =>
      obtain ⟨source, hsource⟩ := exists_of_mem_weak henabled.2
      obtain ⟨result, hwatch, hnext⟩ := hexact.watch
        (fun block hblock => Or.inr (World.watchers_pos hsource hblock))
        (World.bind_weak_control_of_notMem henabled.1)
      refine ⟨_, ?_, hnext⟩
      simp only [step, hsource, Option.bind_some, hwatch, Option.map_some]
  | weakAssign name other =>
      exact step_weakAssign hexact henabled.1 henabled.2
  | weakDestroy name =>
      obtain ⟨target, htarget⟩ := exists_of_mem_weak henabled
      obtain ⟨memory, hrelease, hreleased⟩ := hexact.release_weak htarget
      refine ⟨{ world with weak := world.weak.erase name, memory }, ?_, ?_⟩
      · simp only [step, htarget, Option.bind_some, hrelease, Option.map_some]
      · have hwatchers : refs WeakPtr.control (world.weak.erase name) =
            (world.setWeak name (WeakPtr.null, memory)).watchers := by
          rw [← erase_insert world.weak name WeakPtr.null]
          apply refs_erase_idle
          rw [Finmap.lookup_insert]
          rfl
        unfold World.Exact World.watchers
        rw [hwatchers]
        exact hreleased
  | lock name other =>
      obtain ⟨weak, hweak⟩ := exists_of_mem_weak henabled.2
      obtain ⟨result, hlock, hnext, _⟩ :=
        hexact.lock hweak (World.bind_control_of_notMem henabled.1)
      refine ⟨_, ?_, hnext⟩
      simp only [step, hweak, Option.bind_some, hlock, Option.map_some]

end WeakPtrImpl
end TradingStudies
