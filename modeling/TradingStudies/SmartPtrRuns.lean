import TradingStudies.SmartPtr

/-!
# When the counted pointer deletes each object once

The counters always count the handles that hold them.  The pointers part from
the counters when a handle is moved, so that nothing is deleted too early or
too late as long as a handle which gives up the last pointer to an object also
gives up the last hold of its counter, and the other way round.
-/

namespace TradingStudies
namespace SmartPtr

open HandleTable StepSystem

variable {Name : Type*} [DecidableEq Name]

/-- The object to which the handle is the last one that points. -/
def lastPointer (world : World Name) (name : Name) : Option Object :=
  ((world.handles.lookup name).bind MyShared.m_ptr).filter fun object =>
    world.pointers object = 1

/-- The counter of which the handle is the last holder. -/
def lastHolder (world : World Name) (name : Name) : Option Counter :=
  ((world.handles.lookup name).bind MyShared.m_ref_count).filter fun counter =>
    world.holders counter = 1

/-- The step does no damage: pointer and counter are given up together, only a
handle that has a counter is copied, and a handle which points to an object is
not assigned to by moving another. -/
def Allowed (world : World Name) : Op Name → Prop
  | .make _ => True
  | .copyConstruct _ other =>
      (world.handles.lookup other).bind MyShared.m_ref_count ≠ none
  | .copyAssign name other =>
      name = other ∨
        lastPointer world name = lastHolder world name ∧
          (world.handles.lookup other).bind MyShared.m_ref_count ≠ none
  | .moveConstruct _ _ => True
  | .moveAssign name other =>
      name = other ∨ (world.handles.lookup name).bind MyShared.m_ptr = none
  | .destroy name => lastPointer world name = lastHolder world name

instance (world : World Name) : ∀ op, Decidable (Allowed world op)
  | .make _ => inferInstanceAs (Decidable True)
  | .copyConstruct _ other =>
      inferInstanceAs (Decidable
        ((world.handles.lookup other).bind MyShared.m_ref_count ≠ none))
  | .copyAssign name other =>
      inferInstanceAs (Decidable (name = other ∨
        lastPointer world name = lastHolder world name ∧
          (world.handles.lookup other).bind MyShared.m_ref_count ≠ none))
  | .moveConstruct _ _ => inferInstanceAs (Decidable True)
  | .moveAssign name other =>
      inferInstanceAs (Decidable (name = other ∨
        (world.handles.lookup name).bind MyShared.m_ptr = none))
  | .destroy name =>
      inferInstanceAs (Decidable
        (lastPointer world name = lastHolder world name))

section Steps

variable {world : World Name} {name other : Name} {handle source : MyShared}

theorem pointers_pos {object : Object}
    (hlookup : world.handles.lookup name = some handle)
    (hptr : handle.m_ptr = some object) : 0 < world.pointers object :=
  refs_pos hlookup hptr

theorem holders_pos {counter : Counter}
    (hlookup : world.handles.lookup name = some handle)
    (hcount : handle.m_ref_count = some counter) :
    0 < world.holders counter :=
  refs_pos hlookup hcount

theorem lastPointer_eq_some (hlookup : world.handles.lookup name = some handle)
    (object : Object) :
    lastPointer world name = some object ↔
      handle.m_ptr = some object ∧ world.pointers object = 1 := by
  unfold lastPointer
  rw [hlookup, Option.bind_some, Option.filter_eq_some_iff, decide_eq_true_eq]

theorem lastHolder_eq_some (hlookup : world.handles.lookup name = some handle)
    (counter : Counter) :
    lastHolder world name = some counter ↔
      handle.m_ref_count = some counter ∧ world.holders counter = 1 := by
  unfold lastHolder
  rw [hlookup, Option.bind_some, Option.filter_eq_some_iff, decide_eq_true_eq]

/-- The counters are deleted in time exactly if an object without pointers is
an object whose counter has no holder. -/
theorem deletesOnce_iff (hcounts : Counts world) :
    DeletesOnce world ↔
      (∀ object, world.pointers object = 0 ↔ world.holders object = 0) ∧
        ∀ object, world.memory.deletedObjects.count object =
          if object < world.memory.created ∧ world.pointers object = 0 then 1
          else 0 := by
  constructor
  · intro hdeletes
    refine ⟨?_, hdeletes.objects⟩
    intro object
    by_cases hcreated : object < world.memory.created
    · have hsame := (hdeletes.counters object).symm.trans
        (hcounts.memory.deleted object)
      by_cases hpointers : world.pointers object = 0 <;>
        by_cases hholders : world.holders object = 0 <;>
          simp_all
    · have hle := Nat.le_of_not_lt hcreated
      simp only [hcounts.fresh object hle, hcounts.memory.fresh object hle]
  · intro hboth
    refine ⟨hboth.2, ?_⟩
    intro object
    rw [hcounts.memory.deleted object]
    simp only [hboth.1 object]

/-! ## Giving up a handle -/

/-- The handle has been cleaned up and refers to nothing. -/
def dropped (world : World Name) (name : Name) (memory : Memory) :
    World Name :=
  { handles := world.handles.insert name ⟨none, none⟩, memory }

theorem pointers_dropped (hlookup : world.handles.lookup name = some handle)
    (memory : Memory) (object : Object) :
    (dropped world name memory).pointers object +
        (if handle.m_ptr = some object then 1 else 0) =
      world.pointers object := by
  have hinsert := refs_insert MyShared.m_ptr world.handles name ⟨none, none⟩
    object
  rw [hlookup] at hinsert
  simpa [World.pointers, dropped] using hinsert

theorem holders_dropped (hlookup : world.handles.lookup name = some handle)
    (memory : Memory) (counter : Counter) :
    (dropped world name memory).holders counter +
        (if handle.m_ref_count = some counter then 1 else 0) =
      world.holders counter := by
  have hinsert := refs_insert MyShared.m_ref_count world.handles name
    ⟨none, none⟩ counter
  rw [hlookup] at hinsert
  simpa [World.holders, dropped] using hinsert

/-- The cleanup succeeds, and deletes the object if the counter is given up. -/
theorem cleanup_counts (hcounts : Counts world)
    (hlookup : world.handles.lookup name = some handle) :
    ∃ memory, handle.cleanup world.memory = some memory ∧
      Counts (dropped world name memory) ∧
      memory.created = world.memory.created ∧
      memory.deletedObjects =
        if lastHolder world name = none then world.memory.deletedObjects
        else (world.memory.deleteObject handle.m_ptr).deletedObjects := by
  have hfresh : ∀ memory object, world.memory.created ≤ object →
      (dropped world name memory).pointers object = 0 := by
    intro memory object hle
    have hpointers := pointers_dropped hlookup memory object
    rw [hcounts.fresh object hle] at hpointers
    exact Nat.eq_zero_of_add_eq_zero_right hpointers
  cases hhandle : handle.m_ref_count with
  | none =>
      have hholders : (dropped world name world.memory).holders =
          world.holders := by
        apply refs_insert_same
        rw [hlookup]
        exact hhandle
      have hlast : lastHolder world name = none := by
        unfold lastHolder
        rw [hlookup, Option.bind_some, hhandle]
        rfl
      refine ⟨world.memory, ?_, ⟨?_, ?_⟩, rfl, ?_⟩
      · simp [MyShared.cleanup, hhandle]
      · rw [hholders]
        exact hcounts.memory
      · exact hfresh world.memory
      · rw [if_pos hlast]
  | some counter =>
      obtain ⟨memory, hcleanup, hcounted, hcreated, hobjects⟩ :=
        hcounts.memory.cleanup hhandle (holders_pos hlookup hhandle)
      have hholders : (dropped world name memory).holders =
          Function.update world.holders counter
            (world.holders counter - 1) := by
        apply refs_clear _ rfl
        rw [hlookup]
        exact hhandle
      refine ⟨memory, hcleanup, ⟨?_, ?_⟩, hcreated, ?_⟩
      · rw [hholders]
        exact hcounted
      · intro object hle
        exact hfresh memory object (hcreated ▸ hle)
      · rw [hobjects]
        by_cases hlast : world.holders counter = 1
        · have hsome : lastHolder world name = some counter :=
            (lastHolder_eq_some hlookup counter).mpr ⟨hhandle, hlast⟩
          rw [if_pos hlast, if_neg (by rw [hsome]; exact Option.some_ne_none _)]
        · have hnone : lastHolder world name = none := by
            apply Option.eq_none_iff_forall_ne_some.mpr
            intro found hfound
            have hboth := (lastHolder_eq_some hlookup found).mp hfound
            rw [hhandle] at hboth
            cases hboth.1
            exact hlast hboth.2
          rw [if_neg hlast, if_pos hnone]

theorem rest_eq_zero_iff {held : Prop} [Decidable held] {rest all : ℕ}
    (hadd : rest + (if held then 1 else 0) = all) :
    rest = 0 ↔ all = 0 ∨ (held ∧ all = 1) := by
  by_cases hheld : held
  · simp only [hheld, if_true, true_and] at hadd ⊢
    omega
  · simp only [hheld, if_false, false_and, or_false] at hadd ⊢
    omega

/-- After the cleanup an object without pointers is again an object whose
counter has no holder, if pointer and counter were given up together. -/
theorem dropped_paired_iff
    (hpaired : ∀ object, world.pointers object = 0 ↔ world.holders object = 0)
    (hlookup : world.handles.lookup name = some handle) (memory : Memory) :
    (∀ object, (dropped world name memory).pointers object = 0 ↔
        (dropped world name memory).holders object = 0) ↔
      lastPointer world name = lastHolder world name := by
  have hat : ∀ object, ((dropped world name memory).pointers object = 0 ↔
        (dropped world name memory).holders object = 0) ↔
      (lastPointer world name = some object ↔
        lastHolder world name = some object) := by
    intro object
    rw [lastPointer_eq_some hlookup, lastHolder_eq_some hlookup,
      rest_eq_zero_iff (pointers_dropped hlookup memory object),
      rest_eq_zero_iff (holders_dropped hlookup memory object)]
    by_cases hzero : world.pointers object = 0
    · simp [hzero, (hpaired object).mp hzero]
    · have hheld : ¬ world.holders object = 0 :=
        fun h => hzero ((hpaired object).mpr h)
      simp only [hzero, hheld, false_or]
  simp only [hat]
  exact Option.ext_iff.symm

theorem pointers_dropped_eq_zero_iff
    (hlookup : world.handles.lookup name = some handle) (memory : Memory)
    (object : Object) :
    (dropped world name memory).pointers object = 0 ↔
      world.pointers object = 0 ∨ lastPointer world name = some object := by
  rw [rest_eq_zero_iff (pointers_dropped hlookup memory object),
    lastPointer_eq_some hlookup]

theorem drop_handle (hcounts : Counts world) (hdeletes : DeletesOnce world)
    (hlookup : world.handles.lookup name = some handle) :
    ∃ memory, handle.cleanup world.memory = some memory ∧
      Counts (dropped world name memory) ∧
      (DeletesOnce (dropped world name memory) ↔
        lastPointer world name = lastHolder world name) := by
  obtain ⟨memory, hcleanup, hnext, hcreated, hobjects⟩ :=
    cleanup_counts hcounts hlookup
  have hbefore := (deletesOnce_iff hcounts).mp hdeletes
  refine ⟨memory, hcleanup, hnext, ?_⟩
  rw [deletesOnce_iff hnext,
    dropped_paired_iff hbefore.1 hlookup memory]
  constructor
  · exact And.left
  · intro htogether
    refine ⟨htogether, ?_⟩
    intro object
    have hold := hbefore.2 object
    have hzero := pointers_dropped_eq_zero_iff hlookup memory object
    change memory.deletedObjects.count object = if object < memory.created ∧
      (dropped world name memory).pointers object = 0 then 1 else 0
    rw [hobjects, hcreated]
    simp only [hzero]
    cases hlast : lastHolder world name with
    | none =>
        rw [htogether, hlast]
        simpa using hold
    | some last =>
        rw [hlast] at htogether
        obtain ⟨hptr, hone⟩ := (lastPointer_eq_some hlookup last).mp htogether
        have hlt : last < world.memory.created := by
          apply Classical.byContradiction
          intro hnot
          have hfresh := hcounts.fresh last (Nat.le_of_not_lt hnot)
          omega
        rw [if_neg (Option.some_ne_none last), hptr, htogether]
        by_cases heq : object = last
        · subst object
          rw [hone, if_neg (by simp)] at hold
          simp [Memory.deleteObject, hold, hlt]
        · simpa [Memory.deleteObject, List.count_cons_of_ne (Ne.symm heq),
            Ne.symm heq] using hold

theorem deletesOnce_congr {next : World Name}
    (hcreated : next.memory.created = world.memory.created)
    (hobjects : next.memory.deletedObjects = world.memory.deletedObjects)
    (hcounters : next.memory.deletedCounters = world.memory.deletedCounters)
    (hpointers : ∀ object,
      next.pointers object = 0 ↔ world.pointers object = 0) :
    DeletesOnce next ↔ DeletesOnce world := by
  constructor
  · intro hdeletes
    constructor
    · intro object
      simpa only [hcreated, hobjects, hpointers] using hdeletes.objects object
    · intro object
      simpa only [hcreated, hcounters, hpointers] using
        hdeletes.counters object
  · intro hdeletes
    constructor
    · intro object
      simpa only [hcreated, hobjects, hpointers] using hdeletes.objects object
    · intro object
      simpa only [hcreated, hcounters, hpointers] using
        hdeletes.counters object

theorem join_handle (hcounts : Counts world)
    (hother : world.handles.lookup other = some source) {counter : Counter}
    (hsource : source.m_ref_count = some counter)
    (hptr : (world.handles.lookup name).bind MyShared.m_ptr = none)
    (hcount : (world.handles.lookup name).bind MyShared.m_ref_count = none) :
    ∃ memory, world.memory.increment (some counter) = some memory ∧
      Counts ({ world with memory }.set name source) ∧
      (DeletesOnce ({ world with memory }.set name source) ↔
        DeletesOnce world) := by
  obtain ⟨memory, hincrement, hcounted, hcreated, hobjects, hcounters⟩ :=
    hcounts.memory.increment (holders_pos hother hsource)
  have hholders : ({ world with memory }.set name source).holders =
      Function.update world.holders counter (world.holders counter + 1) :=
    refs_set hcount hsource
  have hpointers : ∀ object,
      ({ world with memory }.set name source).pointers object = 0 ↔
        world.pointers object = 0 := by
    intro object
    have hinsert := refs_insert MyShared.m_ptr world.handles name source object
    rw [hptr, if_neg (Option.some_ne_none object).symm] at hinsert
    change refs MyShared.m_ptr _ object = 0 ↔ refs MyShared.m_ptr _ object = 0
    by_cases hsame : source.m_ptr = some object
    · have hpos := pointers_pos hother hsame
      unfold World.pointers at hpos
      simp only [World.set]
      omega
    · rw [if_neg hsame] at hinsert
      simp only [World.set]
      omega
  refine ⟨memory, hincrement, ⟨?_, ?_⟩, ?_⟩
  · rw [hholders]
    exact hcounted
  · intro object hle
    exact (hpointers object).mpr (hcounts.fresh object (hcreated ▸ hle))
  · exact deletesOnce_congr hcreated hobjects hcounters hpointers

/-! ## Steps -/

/-- The step fails, or it leads to a world in which the objects are deleted
once exactly if the step was allowed. -/
def StepsAs (world : World Name) (op : Op Name) : Prop :=
  (step world op = none ∧ ¬ Allowed world op) ∨
    ∃ next, step world op = some next ∧ Counts next ∧
      (DeletesOnce next ↔ Allowed world op)

theorem set_dropped (world : World Name) (name : Name) (memory memory' : Memory)
    (handle : MyShared) :
    ({ dropped world name memory with memory := memory' }.set name handle) =
      { world with memory := memory' }.set name handle := by
  simp [dropped, World.set, Finmap.insert_insert]

theorem bind_of_notMem {Target : Type*} (target : MyShared → Option Target)
    (hfresh : name ∉ world.handles) :
    (world.handles.lookup name).bind target = none := by
  rw [Finmap.lookup_eq_none.mpr hfresh]
  rfl

theorem Holds.exists_handle (hholds : Holds world name) :
    ∃ handle object, world.handles.lookup name = some handle ∧
      handle.m_ptr = some object := by
  obtain ⟨object, hobject⟩ := hholds
  obtain ⟨handle, hlookup, hptr⟩ := Option.bind_eq_some_iff.mp hobject
  exact ⟨handle, object, hlookup, hptr⟩

theorem step_make (hcounts : Counts world) (hdeletes : DeletesOnce world)
    (hfresh : name ∉ world.handles) : StepsAs world (.make name) := by
  have hholders :
      ({ world with memory := world.memory.make.2 }.set name
          world.memory.make.1).holders =
        Function.update world.holders world.memory.created
          (world.holders world.memory.created + 1) :=
    refs_set (bind_of_notMem _ hfresh) rfl
  have hpointers :
      ({ world with memory := world.memory.make.2 }.set name
          world.memory.make.1).pointers =
        Function.update world.pointers world.memory.created
          (world.pointers world.memory.created + 1) :=
    refs_set (bind_of_notMem _ hfresh) rfl
  have hnew := hcounts.memory.fresh world.memory.created le_rfl
  have hat : ∀ object,
      (object < world.memory.created + 1 ∧
          ({ world with memory := world.memory.make.2 }.set name
            world.memory.make.1).pointers object = 0) ↔
        (object < world.memory.created ∧ world.pointers object = 0) := by
    intro object
    rw [hpointers]
    by_cases heq : object = world.memory.created
    · simp [heq]
    · rw [Function.update_of_ne heq]
      apply and_congr_left'
      exact ⟨fun h => lt_of_le_of_ne (Nat.le_of_lt_succ h) heq,
        fun h => Nat.lt_succ_of_lt h⟩
  refine Or.inr ⟨_, rfl, ⟨?_, ?_⟩, ?_⟩
  · rw [hholders, hnew]
    exact hcounts.memory.make
  · intro object hle
    have hlt : world.memory.created < object := hle
    rw [hpointers, Function.update_of_ne hlt.ne']
    exact hcounts.fresh object hlt.le
  · refine iff_of_true ⟨?_, ?_⟩ trivial
    · intro object
      exact (hdeletes.objects object).trans (if_congr (hat object) rfl rfl).symm
    · intro object
      exact (hdeletes.counters object).trans
        (if_congr (hat object) rfl rfl).symm

theorem step_copyConstruct (hcounts : Counts world)
    (hdeletes : DeletesOnce world) (hfresh : name ∉ world.handles)
    (hholds : Holds world other) :
    StepsAs world (.copyConstruct name other) := by
  obtain ⟨source, object, hother, _⟩ := hholds.exists_handle
  cases hsource : source.m_ref_count with
  | none =>
      left
      constructor
      · simp [step, hother, hsource, Memory.increment]
      · simp [Allowed, hother, hsource]
  | some counter =>
      obtain ⟨memory, hincrement, hnext, hiff⟩ :=
        join_handle hcounts hother hsource (bind_of_notMem _ hfresh)
          (bind_of_notMem _ hfresh)
      refine Or.inr ⟨_, ?_, hnext, ?_⟩
      · simp [step, hother, hsource, hincrement]
      · rw [hiff]
        refine iff_of_true hdeletes ?_
        simp [Allowed, hother, hsource]

theorem step_copyAssign (hcounts : Counts world) (hdeletes : DeletesOnce world)
    (hname : name ∈ world.handles)
    (hholds : name = other ∨ Holds world other) :
    StepsAs world (.copyAssign name other) := by
  by_cases hsame : name = other
  · refine Or.inr ⟨world, ?_, hcounts, iff_of_true hdeletes (Or.inl hsame)⟩
    simp only [step, if_pos hsame]
  · obtain ⟨target, htarget⟩ := Finmap.mem_iff.mp hname
    obtain ⟨source, object, hother, _⟩ :=
      (hholds.resolve_left hsame).exists_handle
    obtain ⟨memory, hcleanup, hdropped, hiff⟩ :=
      drop_handle hcounts hdeletes htarget
    cases hsource : source.m_ref_count with
    | none =>
        left
        constructor
        · simp [step, hsame, htarget, hother, hsource, Memory.increment]
        · simp [Allowed, hsame, hother, hsource]
    | some counter =>
        have hlookup : (dropped world name memory).handles.lookup other =
            some source := by
          rw [dropped, Finmap.lookup_insert_of_ne _ (Ne.symm hsame), hother]
        have hidle : (dropped world name memory).handles.lookup name =
            some ⟨none, none⟩ := Finmap.lookup_insert _
        obtain ⟨joined, hincrement, hnext, hjoined⟩ :=
          join_handle hdropped hlookup hsource (by rw [hidle]; rfl)
            (by rw [hidle]; rfl)
        rw [set_dropped] at hnext hjoined
        refine Or.inr ⟨_, ?_, hnext, ?_⟩
        · have hmemory : memory.increment (some counter) = some joined :=
            hincrement
          simp [step, hsame, htarget, hcleanup, hother, hsource, hmemory]
        · rw [hjoined, hiff]
          simp [Allowed, hsame, hother, hsource]

theorem step_destroy (hcounts : Counts world) (hdeletes : DeletesOnce world)
    (hname : name ∈ world.handles) : StepsAs world (.destroy name) := by
  obtain ⟨target, htarget⟩ := Finmap.mem_iff.mp hname
  obtain ⟨memory, hcleanup, hdropped, hiff⟩ :=
    drop_handle hcounts hdeletes htarget
  have hidle : (dropped world name memory).handles.lookup name =
      some ⟨none, none⟩ := Finmap.lookup_insert _
  have herase : (dropped world name memory).handles.erase name =
      world.handles.erase name := erase_insert _ _ _
  have hholders : refs MyShared.m_ref_count (world.handles.erase name) =
      (dropped world name memory).holders := by
    rw [← herase]
    exact refs_erase_idle (by rw [hidle]; rfl)
  have hpointers : refs MyShared.m_ptr (world.handles.erase name) =
      (dropped world name memory).pointers := by
    rw [← herase]
    exact refs_erase_idle (by rw [hidle]; rfl)
  refine Or.inr ⟨{ handles := world.handles.erase name, memory }, ?_, ⟨?_, ?_⟩,
    ?_⟩
  · simp [step, htarget, hcleanup]
  · unfold World.holders
    rw [hholders]
    exact hdropped.memory
  · intro object hle
    unfold World.pointers
    rw [hpointers]
    exact hdropped.fresh object hle
  · have hsame : ∀ object,
        World.pointers { handles := world.handles.erase name, memory } object =
          0 ↔ (dropped world name memory).pointers object = 0 := by
      intro object
      unfold World.pointers at hpointers ⊢
      rw [hpointers]
    have hcongr : DeletesOnce
        { handles := world.handles.erase name, memory } ↔
          DeletesOnce (dropped world name memory) :=
      deletesOnce_congr rfl rfl rfl hsame
    rw [hcongr]
    exact hiff

/-- The pointer of one handle has gone to another, the counters stay. -/
def moved (world : World Name) (name other : Name) (source handle : MyShared)
    (memory : Memory) : World Name :=
  ({ world with memory }.set other { source with m_ptr := none }).set name
    handle

theorem pointers_moved (hother : world.handles.lookup other = some source)
    (hne : name ≠ other) (hhandle : handle.m_ptr = source.m_ptr)
    (memory : Memory) (object : Object) :
    (moved world name other source handle memory).pointers object +
        (if (world.handles.lookup name).bind MyShared.m_ptr = some object then 1
          else 0) = world.pointers object := by
  have htaken := refs_insert MyShared.m_ptr world.handles other
    { source with m_ptr := none } object
  have hgiven := refs_insert MyShared.m_ptr
    (world.handles.insert other { source with m_ptr := none }) name handle
    object
  rw [Finmap.lookup_insert_of_ne _ hne, hhandle] at hgiven
  rw [hother, Option.bind_some, if_neg (Option.some_ne_none object).symm]
    at htaken
  unfold World.pointers
  simp only [moved, World.set]
  omega

theorem holders_moved (hother : world.handles.lookup other = some source)
    (hne : name ≠ other)
    (hsame : (world.handles.lookup name).bind MyShared.m_ref_count =
      handle.m_ref_count) (memory : Memory) :
    (moved world name other source handle memory).holders = world.holders := by
  have htaken : refs MyShared.m_ref_count
      (world.handles.insert other { source with m_ptr := none }) =
        refs MyShared.m_ref_count world.handles := by
    apply refs_insert_same
    rw [hother]
    rfl
  unfold World.holders
  rw [← htaken]
  apply refs_insert_same
  simp only [World.set]
  rw [Finmap.lookup_insert_of_ne _ hne]
  exact hsame

/-- A handle without a pointer takes over the pointer of another. -/
theorem moved_idle (hcounts : Counts world) (hdeletes : DeletesOnce world)
    (hother : world.handles.lookup other = some source) (hne : name ≠ other)
    (hidle : (world.handles.lookup name).bind MyShared.m_ptr = none)
    (hhandle : handle.m_ptr = source.m_ptr)
    (hsame : (world.handles.lookup name).bind MyShared.m_ref_count =
      handle.m_ref_count) :
    Counts (moved world name other source handle world.memory) ∧
      DeletesOnce (moved world name other source handle world.memory) := by
  have hpointers : (moved world name other source handle
      world.memory).pointers = world.pointers := by
    funext object
    have hmoved := pointers_moved hother hne hhandle world.memory object
    rwa [hidle, if_neg (Option.some_ne_none object).symm, Nat.add_zero]
      at hmoved
  have hholders := holders_moved hother hne hsame world.memory
  constructor
  · constructor
    · rw [hholders]
      exact hcounts.memory
    · rw [hpointers]
      exact hcounts.fresh
  · have hcongr : DeletesOnce (moved world name other source handle
        world.memory) ↔ DeletesOnce world :=
      deletesOnce_congr rfl rfl rfl fun object => by rw [hpointers]
    exact hcongr.mpr hdeletes

theorem step_moveConstruct (hcounts : Counts world)
    (hdeletes : DeletesOnce world) (hfresh : name ∉ world.handles)
    (hholds : Holds world other) :
    StepsAs world (.moveConstruct name other) := by
  obtain ⟨source, object, hother, hptr⟩ := hholds.exists_handle
  have hne : name ≠ other := by
    intro heq
    rw [heq, Finmap.mem_iff] at hfresh
    exact hfresh ⟨source, hother⟩
  have hhandle : ({ m_ptr := source.m_ptr, m_ref_count := none } :
      MyShared).m_ptr = source.m_ptr := rfl
  have hnext := moved_idle hcounts hdeletes hother hne
    (bind_of_notMem _ hfresh) hhandle (bind_of_notMem _ hfresh)
  refine Or.inr ⟨_, ?_, hnext.1, iff_of_true hnext.2 trivial⟩
  simp only [step, hother, Option.map_some]
  rfl

/-- A handle that points to an object deletes it when another is moved into
it, but the counter of that object stays. -/
theorem moved_into_pointer (hcounts : Counts world)
    (hdeletes : DeletesOnce world) {target : MyShared}
    (htarget : world.handles.lookup name = some target)
    (hother : world.handles.lookup other = some source) (hne : name ≠ other)
    {object : Object} (hobject : target.m_ptr = some object) :
    Counts (moved world name other source { target with m_ptr := source.m_ptr }
        (world.memory.deleteObject (some object))) ∧
      ¬ DeletesOnce (moved world name other source
        { target with m_ptr := source.m_ptr }
        (world.memory.deleteObject (some object))) := by
  have hhandle : ({ target with m_ptr := source.m_ptr } : MyShared).m_ptr =
      source.m_ptr := rfl
  have hsame : (world.handles.lookup name).bind MyShared.m_ref_count =
      ({ target with m_ptr := source.m_ptr } : MyShared).m_ref_count := by
    rw [htarget]
    rfl
  constructor
  · constructor
    · rw [holders_moved hother hne hsame]
      exact hcounts.memory.deleteObject (some object)
    · intro fresh hle
      have hmoved := pointers_moved hother hne hhandle
        (world.memory.deleteObject (some object)) fresh
      rw [hcounts.fresh fresh hle] at hmoved
      exact Nat.eq_zero_of_add_eq_zero_right hmoved
  · intro hnext
    have hpos := pointers_pos htarget hobject
    have hold := hdeletes.objects object
    have hcounter := hdeletes.counters object
    rw [if_neg fun h => hpos.ne' h.2] at hold hcounter
    have hobjects := hnext.objects object
    have hcounters := hnext.counters object
    rw [← hobjects] at hcounters
    have hdeleted : (world.memory.deleteObject
        (some object)).deletedObjects.count object = 1 := by
      simp [Memory.deleteObject, hold]
    have hboth : world.memory.deletedCounters.count object = 1 :=
      hcounters.trans hdeleted
    omega

theorem step_moveAssign (hcounts : Counts world) (hdeletes : DeletesOnce world)
    (hname : name ∈ world.handles)
    (hholds : name = other ∨ Holds world other) :
    StepsAs world (.moveAssign name other) := by
  by_cases hsame : name = other
  · refine Or.inr ⟨world, ?_, hcounts, iff_of_true hdeletes (Or.inl hsame)⟩
    simp only [step, if_pos hsame]
  · obtain ⟨target, htarget⟩ := Finmap.mem_iff.mp hname
    obtain ⟨source, _, hother, _⟩ :=
      (hholds.resolve_left hsame).exists_handle
    have hstep : step world (.moveAssign name other) =
        some (moved world name other source
          { target with m_ptr := source.m_ptr }
          (world.memory.deleteObject target.m_ptr)) := by
      simp only [step, if_neg hsame, htarget, hother, Option.bind_some,
        Option.map_some]
      rfl
    cases hptr : target.m_ptr with
    | none =>
        have hidle : (world.handles.lookup name).bind MyShared.m_ptr =
            none := by
          rw [htarget]
          exact hptr
        have hhandle : ({ target with m_ptr := source.m_ptr } :
            MyShared).m_ptr = source.m_ptr := rfl
        have hcount : (world.handles.lookup name).bind MyShared.m_ref_count =
            ({ target with m_ptr := source.m_ptr } : MyShared).m_ref_count := by
          rw [htarget]
          rfl
        have hnext :=
          moved_idle hcounts hdeletes hother hsame hidle hhandle hcount
        rw [hptr] at hstep
        exact Or.inr ⟨_, hstep, hnext.1,
          iff_of_true hnext.2 (Or.inr hidle)⟩
    | some object =>
        have hnext := moved_into_pointer hcounts hdeletes htarget hother hsame
          hptr
        rw [hptr] at hstep
        refine Or.inr ⟨_, hstep, hnext.1, iff_of_false hnext.2 ?_⟩
        simp [Allowed, hsame, htarget, hptr]

end Steps

/-! ## Runs -/

theorem step_stepsAs (world : World Name) (op : Op Name)
    (hcounts : Counts world) (hdeletes : DeletesOnce world)
    (henabled : Enabled world op) : StepsAs world op := by
  cases op with
  | make name => exact step_make hcounts hdeletes henabled
  | copyConstruct name other =>
      exact step_copyConstruct hcounts hdeletes henabled.1 henabled.2
  | copyAssign name other =>
      exact step_copyAssign hcounts hdeletes henabled.1 henabled.2
  | moveConstruct name other =>
      exact step_moveConstruct hcounts hdeletes henabled.1 henabled.2
  | moveAssign name other =>
      exact step_moveAssign hcounts hdeletes henabled.1 henabled.2
  | destroy name => exact step_destroy hcounts hdeletes henabled

/-- At every moment of a program each object has been deleted once if no handle
points to it, and not otherwise, exactly if no step of the program parts a
pointer from its counter for good. -/
theorem run_deletesOnce_iff (ops : List (Op Name))
    (henabled : AllAllowed step Enabled ops World.empty) :
    (∀ n, ∃ world, run step (ops.take n) World.empty = some world ∧
        DeletesOnce world) ↔
      AllAllowed step Allowed ops World.empty :=
  goodPrefixes_iff_allAllowed Counts step_stepsAs counts_empty
    deletesOnce_empty henabled

/-- A copy of a handle is assigned over another and all are destroyed. -/
theorem run_deletesOnce_iff_copies :
    (∀ n, ∃ world, run step (List.take n [.make 0, .make 1, .copyConstruct 2 0,
          .copyAssign 1 2, .destroy 0, .destroy 2, .destroy 1])
        (World.empty : World ℕ) = some world ∧ DeletesOnce world) ↔
      AllAllowed step Allowed [.make 0, .make 1, .copyConstruct 2 0,
        .copyAssign 1 2, .destroy 0, .destroy 2, .destroy 1]
        (World.empty : World ℕ) :=
  run_deletesOnce_iff _ (by decide)

/-- A handle constructed by a move has no counter: when it is destroyed, its
object stays. -/
theorem moveConstruct_leaks :
    AllAllowed step Enabled
        [.make 0, .moveConstruct 1 0, .destroy 1] (World.empty : World ℕ) ∧
      ¬ ∀ n, ∃ world,
        run step (List.take n [.make 0, .moveConstruct 1 0, .destroy 1])
            (World.empty : World ℕ) = some world ∧
          DeletesOnce world := by
  constructor
  · decide
  · intro hall
    obtain ⟨world, hrun, hdeletes⟩ := hall 3
    have hobjects := hdeletes.objects 0
    cases hrun
    revert hobjects
    decide

/-! ## Programs that do not move -/

/-- No handle is made from another by a move. -/
def CopiesOnly : Op Name → Prop
  | .moveConstruct _ _ => False
  | .moveAssign name other => name = other
  | _ => True

/-- Every handle points to an object and to the counter of that object. -/
def Whole (world : World Name) : Prop :=
  ∀ name handle, world.handles.lookup name = some handle →
    ∃ object, handle = ⟨some object, some object⟩

theorem Whole.set {world : World Name} (hwhole : Whole world) (name : Name)
    {object : Object} (memory : Memory) :
    Whole ({ world with memory }.set name ⟨some object, some object⟩) := by
  intro other handle hlookup
  by_cases heq : other = name
  · subst other
    rw [World.set, Finmap.lookup_insert] at hlookup
    cases hlookup
    exact ⟨object, rfl⟩
  · rw [World.set, Finmap.lookup_insert_of_ne _ heq] at hlookup
    exact hwhole other handle hlookup

theorem Whole.copy {world : World Name} (hwhole : Whole world) (name : Name)
    {other : Name} {source : MyShared}
    (hother : world.handles.lookup other = some source) (memory : Memory) :
    Whole ({ world with memory }.set name source) := by
  obtain ⟨object, rfl⟩ := hwhole other source hother
  exact hwhole.set name memory

theorem Whole.last_eq {world : World Name} (hwhole : Whole world)
    (name : Name) : lastPointer world name = lastHolder world name := by
  have hfields : ∀ name,
      (world.handles.lookup name).bind MyShared.m_ptr =
        (world.handles.lookup name).bind MyShared.m_ref_count := by
    intro name
    cases hlookup : world.handles.lookup name with
    | none => rfl
    | some handle =>
        obtain ⟨object, rfl⟩ := hwhole name handle hlookup
        rfl
  have hcounts : world.pointers = world.holders := by
    funext object
    unfold World.pointers World.holders refs count
    congr 1
    apply Finset.filter_congr
    intro other _
    have hother := hfields other
    cases hlookup : world.handles.lookup other with
    | none => rfl
    | some handle =>
        rw [hlookup] at hother
        simp only [Option.any_some]
        rw [show handle.m_ptr = handle.m_ref_count from hother]
  unfold lastPointer lastHolder
  rw [hfields name, hcounts]

theorem Whole.holds_counter {world : World Name} (hwhole : Whole world)
    {name : Name} (hholds : Holds world name) :
    (world.handles.lookup name).bind MyShared.m_ref_count ≠ none := by
  obtain ⟨handle, _, hlookup, _⟩ := hholds.exists_handle
  obtain ⟨object, rfl⟩ := hwhole name handle hlookup
  rw [hlookup]
  exact Option.some_ne_none object

theorem Whole.step_allowed {world : World Name} (hwhole : Whole world)
    {op : Op Name} (henabled : Enabled world op) (hcopies : CopiesOnly op) :
    Allowed world op := by
  cases op with
  | make name => trivial
  | copyConstruct name other => exact hwhole.holds_counter henabled.2
  | copyAssign name other =>
      obtain hsame | hholds := henabled.2
      · exact Or.inl hsame
      · exact Or.inr ⟨hwhole.last_eq name, hwhole.holds_counter hholds⟩
  | moveConstruct name other => trivial
  | moveAssign name other => exact Or.inl hcopies
  | destroy name => exact hwhole.last_eq name

theorem Whole.step {world next : World Name} (hwhole : Whole world)
    {op : Op Name} (hcopies : CopiesOnly op)
    (hstep : step world op = some next) : Whole next := by
  cases op with
  | make name =>
      cases hstep
      exact hwhole.set name _
  | copyConstruct name other =>
      obtain ⟨source, hother, hcopy⟩ := Option.bind_eq_some_iff.mp hstep
      obtain ⟨memory, _, rfl⟩ := Option.map_eq_some_iff.mp hcopy
      exact hwhole.copy name hother memory
  | copyAssign name other =>
      by_cases hsame : name = other
      · simp only [SmartPtr.step, if_pos hsame, Option.some.injEq] at hstep
        exact hstep ▸ hwhole
      · simp only [SmartPtr.step, if_neg hsame] at hstep
        obtain ⟨_, _, hcleanup⟩ := Option.bind_eq_some_iff.mp hstep
        obtain ⟨_, _, hassign⟩ := Option.bind_eq_some_iff.mp hcleanup
        obtain ⟨source, hother, hcopy⟩ := Option.bind_eq_some_iff.mp hassign
        obtain ⟨memory, _, rfl⟩ := Option.map_eq_some_iff.mp hcopy
        exact hwhole.copy name hother memory
  | moveConstruct name other => exact hcopies.elim
  | moveAssign name other =>
      have hsame : name = other := hcopies
      simp only [SmartPtr.step, if_pos hsame, Option.some.injEq] at hstep
      exact hstep ▸ hwhole
  | destroy name =>
      obtain ⟨_, _, hcleanup⟩ := Option.bind_eq_some_iff.mp hstep
      obtain ⟨_, _, rfl⟩ := Option.map_eq_some_iff.mp hcleanup
      intro other handle hlookup
      by_cases heq : other = name
      · subst other
        rw [Finmap.lookup_erase] at hlookup
        cases hlookup
      · rw [Finmap.lookup_erase_ne heq] at hlookup
        exact hwhole other handle hlookup

theorem whole_empty : Whole (World.empty : World Name) := by
  intro name handle hlookup
  cases hlookup

/-- Without moves every step is allowed. -/
theorem allAllowed_of_copiesOnly {ops : List (Op Name)}
    (henabled : AllAllowed step Enabled ops World.empty)
    (hcopies : AllAllowed step (fun _ op => CopiesOnly op) ops World.empty) :
    AllAllowed step Allowed ops World.empty := by
  apply allAllowed_of_invariant Whole _ whole_empty (henabled.and hcopies)
  intro world op hwhole hboth
  exact ⟨hwhole.step_allowed hboth.1 hboth.2,
    fun _ hstep => hwhole.step hboth.2 hstep⟩

end SmartPtr
end TradingStudies
