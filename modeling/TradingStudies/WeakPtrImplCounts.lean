import TradingStudies.WeakPtrImpl

/-!
# The counters of the control blocks

What a block should look like is a function of the number of `SharedPtr` and of
`WeakPtr` variables that refer to it.  All `SharedPtr` variables together count
as one more weak reference, which is given up with the last of them.

A step is made of primitives which each change one variable and one block: a
reference is given up, or a null variable receives one.
-/

namespace TradingStudies
namespace WeakPtrImpl

open HandleTable StepSystem

/-- The control block of an object with so many owners and watchers. -/
def controlBlock (control : Block) (owners watchers : ℕ) :
    Option ControlBlock :=
  if owners = 0 then
    if watchers = 0 then none
    else some { ptr := none, shared_count := 0, weak_count := watchers }
  else
    some { ptr := some control
           shared_count := owners
           weak_count := watchers + 1 }

theorem controlBlock_owned {owners : ℕ} (hpos : 0 < owners) (control : Block)
    (watchers : ℕ) :
    controlBlock control owners watchers =
      some { ptr := some control
             shared_count := owners
             weak_count := watchers + 1 } := by
  unfold controlBlock
  rw [if_neg hpos.ne']

theorem controlBlock_watched {watchers : ℕ} (hpos : 0 < watchers)
    (control : Block) :
    controlBlock control 0 watchers =
      some { ptr := none, shared_count := 0, weak_count := watchers } := by
  unfold controlBlock
  rw [if_pos rfl, if_neg hpos.ne']

theorem controlBlock_abandoned (control : Block) :
    controlBlock control 0 0 = none := rfl

namespace Memory

structure ExactAt (memory : Memory) (control : Block) (owners watchers : ℕ) :
    Prop where
  block : memory.block control =
    if control < memory.created then controlBlock control owners watchers
    else none
  objects : memory.deletedObjects.count control =
    if control < memory.created ∧ owners = 0 then 1 else 0
  blocks : memory.deletedBlocks.count control =
    if control < memory.created ∧ owners = 0 ∧ watchers = 0 then 1 else 0
  fresh : memory.created ≤ control → owners = 0 ∧ watchers = 0

def Exact (memory : Memory) (owners watchers : Block → ℕ) : Prop :=
  ∀ control, memory.ExactAt control (owners control) (watchers control)

theorem exact_empty : empty.Exact (fun _ => 0) (fun _ => 0) := by
  intro control
  constructor <;> simp [empty]

/-- The two memories differ at one block only. -/
structure SameBut (memory next : Memory) (control : Block) : Prop where
  created : next.created = memory.created
  block : ∀ other, other ≠ control → next.block other = memory.block other
  objects : ∀ other, other ≠ control →
    next.deletedObjects.count other = memory.deletedObjects.count other
  blocks : ∀ other, other ≠ control →
    next.deletedBlocks.count other = memory.deletedBlocks.count other

variable {memory next last : Memory} {control : Block}
  {owners watchers : Block → ℕ} {count : ℕ}

theorem SameBut.trans (hfirst : SameBut memory next control)
    (hsecond : SameBut next last control) : SameBut memory last control where
  created := hsecond.created.trans hfirst.created
  block other hne := (hsecond.block other hne).trans (hfirst.block other hne)
  objects other hne :=
    (hsecond.objects other hne).trans (hfirst.objects other hne)
  blocks other hne := (hsecond.blocks other hne).trans (hfirst.blocks other hne)

theorem sameBut_write (memory : Memory) (control : Block)
    (value : ControlBlock) :
    SameBut memory (memory.write control value) control where
  created := rfl
  block _ hne := Function.update_of_ne hne _ _
  objects _ _ := rfl
  blocks _ _ := rfl

theorem sameBut_deleteBlock (memory : Memory) (control : Block) :
    SameBut memory (memory.deleteBlock control) control where
  created := rfl
  block _ hne := Function.update_of_ne hne _ _
  objects _ _ := rfl
  blocks _ hne := List.count_cons_of_ne hne.symm

theorem sameBut_deleteObject (memory : Memory) (control : Object) :
    SameBut memory (memory.deleteObject (some control)) control where
  created := rfl
  block _ _ := rfl
  objects _ hne := List.count_cons_of_ne hne.symm
  blocks _ _ := rfl

theorem SameBut.exactAt {other : Block} {held watched : ℕ}
    (hsame : SameBut memory next control) (hne : other ≠ control)
    (hexact : memory.ExactAt other held watched) :
    next.ExactAt other held watched where
  block := by rw [hsame.block other hne, hsame.created, hexact.block]
  objects := by rw [hsame.objects other hne, hsame.created, hexact.objects]
  blocks := by rw [hsame.blocks other hne, hsame.created, hexact.blocks]
  fresh := by
    rw [hsame.created]
    exact hexact.fresh

/-- Only the block that an operation works on has to be looked at. -/
theorem Exact.update_owners (hexact : memory.Exact owners watchers)
    (hsame : SameBut memory next control)
    (hat : next.ExactAt control count (watchers control)) :
    next.Exact (Function.update owners control count) watchers := by
  intro other
  by_cases heq : other = control
  · subst other
    rw [Function.update_self]
    exact hat
  · rw [Function.update_of_ne heq]
    exact hsame.exactAt heq (hexact other)

theorem Exact.update_watchers (hexact : memory.Exact owners watchers)
    (hsame : SameBut memory next control)
    (hat : next.ExactAt control (owners control) count) :
    next.Exact owners (Function.update watchers control count) := by
  intro other
  by_cases heq : other = control
  · subst other
    rw [Function.update_self]
    exact hat
  · rw [Function.update_of_ne heq]
    exact hsame.exactAt heq (hexact other)

theorem Exact.created_of_owned (hexact : memory.Exact owners watchers)
    (howned : 0 < owners control) : control < memory.created := by
  apply Classical.byContradiction
  intro hnot
  have hfresh := (hexact control).fresh (Nat.le_of_not_lt hnot)
  omega

theorem Exact.created_of_watched (hexact : memory.Exact owners watchers)
    (hwatched : 0 < watchers control) : control < memory.created := by
  apply Classical.byContradiction
  intro hnot
  have hfresh := (hexact control).fresh (Nat.le_of_not_lt hnot)
  omega

theorem Exact.block_owned (hexact : memory.Exact owners watchers)
    (howned : 0 < owners control) :
    memory.block control =
      some { ptr := some control
             shared_count := owners control
             weak_count := watchers control + 1 } := by
  rw [(hexact control).block, if_pos (hexact.created_of_owned howned),
    controlBlock_owned howned]

theorem Exact.block_watched (hexact : memory.Exact owners watchers)
    (howned : owners control = 0) (hwatched : 0 < watchers control) :
    memory.block control =
      some { ptr := none
             shared_count := 0
             weak_count := watchers control } := by
  rw [(hexact control).block, if_pos (hexact.created_of_watched hwatched),
    howned, controlBlock_watched hwatched]

/-! ## References to one block -/

/-- Writing the counters for other numbers of references, when the number of
owners stays zero or stays positive. -/
theorem Exact.exactAt_write (hexact : memory.Exact owners watchers)
    (hcreated : control < memory.created) {value : ControlBlock}
    {held watched : ℕ}
    (hvalue : controlBlock control held watched = some value)
    (hheld : held = 0 ↔ owners control = 0)
    (hlive : ¬ (owners control = 0 ∧ watchers control = 0)) :
    (memory.write control value).ExactAt control held watched where
  block := by
    simp only [write, Function.update_self, hcreated, if_true, hvalue]
  objects := by
    have hobjects := (hexact control).objects
    simp only [write, hheld]
    exact hobjects
  blocks := by
    have hblocks := (hexact control).blocks
    rw [if_neg fun h => hlive h.2] at hblocks
    have hnot : ¬ (held = 0 ∧ watched = 0) := by
      intro hboth
      rw [hboth.1, hboth.2, controlBlock_abandoned] at hvalue
      cases hvalue
    rw [if_neg fun h => hnot h.2]
    exact hblocks
  fresh hle := absurd hcreated (Nat.not_lt_of_le hle)

theorem release_owner (hexact : memory.Exact owners watchers)
    (howned : 0 < owners control) :
    ∃ next, SharedPtr.release ⟨some control⟩ memory =
        some (SharedPtr.null, next) ∧
      next.Exact (Function.update owners control (owners control - 1))
        watchers := by
  have hcreated := hexact.created_of_owned howned
  have hblock := hexact.block_owned howned
  have hobjects := (hexact control).objects
  have hblocks := (hexact control).blocks
  rw [if_neg (by omega)] at hobjects hblocks
  by_cases hlast : owners control = 1
  · rw [hlast]
    have hdeleted :
        ((memory.deleteObject (some control)).deletedObjects.count control) =
          1 := by
      simp [deleteObject, hobjects]
    by_cases hwatched : watchers control = 0
    · refine ⟨(memory.deleteObject (some control)).deleteBlock control, ?_, ?_⟩
      · simp [SharedPtr.release, hblock, hlast, hwatched, SharedPtr.null]
      · apply hexact.update_owners
          ((sameBut_deleteObject memory control).trans
            (sameBut_deleteBlock _ control))
        constructor
        · simp [deleteBlock, hwatched, controlBlock_abandoned]
        · simpa [deleteBlock, deleteObject, hcreated] using hobjects
        · simpa [deleteBlock, deleteObject, hcreated, hwatched] using hblocks
        · exact fun hle => absurd hcreated (Nat.not_lt_of_le hle)
    · refine ⟨(memory.deleteObject (some control)).write control
          { ptr := none
            shared_count := 0
            weak_count := watchers control }, ?_, ?_⟩
      · simp [SharedPtr.release, hblock, hlast, hwatched, SharedPtr.null]
      · apply hexact.update_owners
          ((sameBut_deleteObject memory control).trans
            (sameBut_write _ control _))
        constructor
        · simp [write, deleteObject, hcreated,
            controlBlock_watched (Nat.pos_of_ne_zero hwatched)]
        · simpa [write, deleteObject, hcreated] using hobjects
        · simpa [write, deleteObject, hwatched] using hblocks
        · exact fun hle => absurd hcreated (Nat.not_lt_of_le hle)
  · have hcast : ((owners control - 1 : ℕ) : ℤ) = (owners control : ℤ) - 1 := by
      omega
    refine ⟨memory.write control
        { ptr := some control
          shared_count := (owners control : ℤ) - 1
          weak_count := watchers control + 1 }, ?_, ?_⟩
    · have hleft : ¬ (owners control : ℤ) - 1 = 0 := by omega
      simp [SharedPtr.release, hblock, hleft, SharedPtr.null]
    · apply hexact.update_owners (sameBut_write memory control _)
      apply hexact.exactAt_write hcreated
      · rw [controlBlock_owned (by omega), hcast]
      · omega
      · omega

theorem share_owner (hexact : memory.Exact owners watchers)
    (howned : 0 < owners control) :
    ∃ next, SharedPtr.share ⟨some control⟩ memory =
        some (⟨some control⟩, next) ∧
      next.Exact (Function.update owners control (owners control + 1))
        watchers := by
  refine ⟨memory.write control
      { ptr := some control
        shared_count := owners control + 1
        weak_count := watchers control + 1 }, ?_, ?_⟩
  · simp [SharedPtr.share, hexact.block_owned howned]
  · apply hexact.update_owners (sameBut_write memory control _)
    apply hexact.exactAt_write (hexact.created_of_owned howned)
    · rw [controlBlock_owned (by omega), Nat.cast_add, Nat.cast_one]
    · omega
    · omega

/-- What `lock` finds depends on the owners alone. -/
theorem lock_watcher (hexact : memory.Exact owners watchers)
    (hwatched : 0 < watchers control) :
    WeakPtr.lock ⟨some control⟩ memory =
      if owners control = 0 then some (SharedPtr.null, memory)
      else SharedPtr.share ⟨some control⟩ memory := by
  by_cases howned : owners control = 0
  · rw [if_pos howned]
    simp [WeakPtr.lock, WeakPtr.expired, hexact.block_watched howned hwatched]
  · have hpos : 0 < owners control := Nat.pos_of_ne_zero howned
    rw [if_neg howned]
    simp [WeakPtr.lock, WeakPtr.expired, SharedPtr.ofWeak, SharedPtr.share,
      hexact.block_owned hpos, howned, hpos]

theorem watch_live (hexact : memory.Exact owners watchers)
    (hlive : 0 < owners control ∨ 0 < watchers control) :
    ∃ next, WeakPtr.watch (some control) memory =
        some (⟨some control⟩, next) ∧
      next.Exact owners
        (Function.update watchers control (watchers control + 1)) := by
  by_cases howned : owners control = 0
  · have hwatched : 0 < watchers control := by omega
    refine ⟨memory.write control
        { ptr := none
          shared_count := 0
          weak_count := watchers control + 1 }, ?_, ?_⟩
    · simp [WeakPtr.watch, hexact.block_watched howned hwatched]
    · apply hexact.update_watchers (sameBut_write memory control _)
      apply hexact.exactAt_write (hexact.created_of_watched hwatched)
      · rw [howned, controlBlock_watched (by omega), Nat.cast_add, Nat.cast_one]
      · rfl
      · omega
  · have hpos : 0 < owners control := Nat.pos_of_ne_zero howned
    refine ⟨memory.write control
        { ptr := some control
          shared_count := owners control
          weak_count := (watchers control : ℤ) + 1 + 1 }, ?_, ?_⟩
    · simp [WeakPtr.watch, hexact.block_owned hpos]
    · apply hexact.update_watchers (sameBut_write memory control _)
      apply hexact.exactAt_write (hexact.created_of_owned hpos)
      · rw [controlBlock_owned hpos, Nat.cast_add, Nat.cast_one]
      · rfl
      · omega

theorem release_watcher (hexact : memory.Exact owners watchers)
    (hwatched : 0 < watchers control) :
    ∃ next, WeakPtr.release ⟨some control⟩ memory =
        some (WeakPtr.null, next) ∧
      next.Exact owners
        (Function.update watchers control (watchers control - 1)) := by
  have hcreated := hexact.created_of_watched hwatched
  have hcast : ((watchers control - 1 : ℕ) : ℤ) =
      (watchers control : ℤ) - 1 := by omega
  by_cases howned : owners control = 0
  · have hblock := hexact.block_watched howned hwatched
    by_cases hlast : watchers control = 1
    · have hblocks := (hexact control).blocks
      rw [if_neg (by omega)] at hblocks
      refine ⟨memory.deleteBlock control, ?_, ?_⟩
      · simp [WeakPtr.release, hblock, hlast, WeakPtr.null]
      · apply hexact.update_watchers (sameBut_deleteBlock memory control)
        constructor
        · simp [deleteBlock, howned, hlast, controlBlock_abandoned]
        · exact (hexact control).objects
        · simpa [deleteBlock, hcreated, howned, hlast] using hblocks
        · exact fun hle => absurd hcreated (Nat.not_lt_of_le hle)
    · refine ⟨memory.write control
          { ptr := none
            shared_count := 0
            weak_count := (watchers control : ℤ) - 1 }, ?_, ?_⟩
      · have hleft : ¬ (watchers control : ℤ) - 1 = 0 := by omega
        simp [WeakPtr.release, hblock, hleft, WeakPtr.null]
      · apply hexact.update_watchers (sameBut_write memory control _)
        apply hexact.exactAt_write hcreated
        · rw [howned, controlBlock_watched (by omega), hcast]
        · rfl
        · omega
  · have hpos : 0 < owners control := Nat.pos_of_ne_zero howned
    have hblock := hexact.block_owned hpos
    refine ⟨memory.write control
        { ptr := some control
          shared_count := owners control
          weak_count := (watchers control : ℤ) + 1 - 1 }, ?_, ?_⟩
    · simp [WeakPtr.release, hblock, howned, WeakPtr.null]
    · apply hexact.update_watchers (sameBut_write memory control _)
      apply hexact.exactAt_write hcreated
      · rw [controlBlock_owned hpos, hcast]
        congr 2
        ring
      · rfl
      · omega

theorem make_owner (hexact : memory.Exact owners watchers) :
    (SharedPtr.make memory).2.Exact
      (Function.update owners memory.created 1) watchers := by
  intro control
  have hold := hexact control
  rcases lt_trichotomy control memory.created with hlt | heq | hgt
  · rw [Function.update_of_ne hlt.ne]
    have hnext : control < memory.created + 1 := Nat.lt_succ_of_lt hlt
    constructor
    · simpa [SharedPtr.make, Function.update_of_ne hlt.ne, hlt, hnext]
        using hold.block
    · simpa [SharedPtr.make, hlt, hnext] using hold.objects
    · simpa [SharedPtr.make, hlt, hnext] using hold.blocks
    · exact fun hle => absurd hnext (Nat.not_lt_of_le hle)
  · subst control
    obtain ⟨hnone, hunwatched⟩ := hold.fresh le_rfl
    rw [Function.update_self, hunwatched]
    constructor
    · simp [SharedPtr.make, controlBlock, ControlBlock.make]
    · simpa [SharedPtr.make] using hold.objects
    · simpa [SharedPtr.make] using hold.blocks
    · exact fun hle => absurd hle (Nat.not_succ_le_self _)
  · rw [Function.update_of_ne hgt.ne']
    have hold_not : ¬ control < memory.created := lt_asymm hgt
    have hnot : ¬ control < memory.created + 1 := Nat.not_lt_of_le hgt
    constructor
    · simpa [SharedPtr.make, Function.update_of_ne hgt.ne', hold_not, hnot]
        using hold.block
    · simpa [SharedPtr.make, hold_not, hnot] using hold.objects
    · simpa [SharedPtr.make, hold_not, hnot] using hold.blocks
    · exact fun _ => hold.fresh hgt.le

end Memory

end WeakPtrImpl
end TradingStudies
