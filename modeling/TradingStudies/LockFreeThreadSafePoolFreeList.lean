import TradingStudies.LockFreeThreadSafePool

/-!
# The free list that the packed head leads to

As long as every slot number fits into 32 bits together with the end mark,
following `head_` and `nextFree_` visits the free slots.  A pop removes the
first of them and a push puts a written slot in front; neither looks further.
-/

namespace TradingStudies
namespace LockFreeThreadSafePool

open LinkedSegment

variable {poolMsgCount : ℕ} {pool : Pool poolMsgCount}
  {free : List (Fin poolMsgCount)}

/-- The chain from `head_` through `nextFree_` visits `free` and ends. -/
def Pool.Chain (pool : Pool poolMsgCount) (free : List (Fin poolMsgCount)) :
    Prop :=
  Segment pool.nextSlot pool.headSlot free none

theorem slotOf_eq_some {index : UInt64} {slot : Fin poolMsgCount} :
    slotOf poolMsgCount index = some slot ↔ index.toNat = slot.val := by
  unfold slotOf
  by_cases hindex : index.toNat < poolMsgCount
  · rw [dif_pos hindex, Option.some.injEq, Fin.ext_iff]
  · rw [dif_neg hindex]
    have hslot := slot.isLt
    constructor
    · intro hnone
      cases hnone
    · intro heq
      omega

theorem slotOf_ofNat (hcount : poolMsgCount ≤ 2 ^ 32 - 1)
    (slot : Fin poolMsgCount) :
    slotOf poolMsgCount (unpackIndex (UInt64.ofNat slot.val)) = some slot := by
  have hslot := slot.isLt
  rw [slotOf_eq_some, toNat_unpackIndex, UInt64.toNat_ofNat']
  omega

theorem unpackIndex_ne_mark (packed : UInt64) : unpackIndex packed ≠ -1 := by
  intro heq
  have hlt := unpackIndex_lt packed
  rw [heq] at hlt
  exact absurd hlt (by decide)

theorem Pool.readNext_of_head {oldHead : UInt64} {slot : Fin poolMsgCount}
    (hslot : slotOf poolMsgCount (unpackIndex oldHead) = some slot) :
    pool.readNext oldHead = .next slot (pool.nextFree_ slot) := by
  unfold Pool.readNext
  rw [if_neg (unpackIndex_ne_mark oldHead), hslot]

/-- The end mark is compared as a 32-bit number with a 64-bit one. -/
theorem Pool.readNext_of_no_head {oldHead : UInt64}
    (hslot : slotOf poolMsgCount (unpackIndex oldHead) = none) :
    pool.readNext oldHead = .outOfBounds (unpackIndex oldHead) := by
  unfold Pool.readNext
  rw [if_neg (unpackIndex_ne_mark oldHead), hslot]

/-! ## The constructor -/

/-- The slots below `count`, the last one first. -/
def descending (poolMsgCount : ℕ) :
    ∀ count, count ≤ poolMsgCount → List (Fin poolMsgCount)
  | 0, _ => []
  | count + 1, hcount =>
      ⟨count, hcount⟩ :: descending poolMsgCount count (by omega)

theorem mem_descending {count : ℕ} (hcount : count ≤ poolMsgCount)
    (slot : Fin poolMsgCount) :
    slot ∈ descending poolMsgCount count hcount ↔ slot.val < count := by
  induction count with
  | zero => simp [descending]
  | succ count ih =>
      unfold descending
      rw [List.mem_cons, ih (by omega), Fin.ext_iff]
      dsimp only
      omega

theorem construct_segment (hcount : poolMsgCount ≤ 2 ^ 32 - 1) {count : ℕ}
    (hle : count ≤ poolMsgCount) :
    Segment (construct poolMsgCount).nextSlot
      (slotOf poolMsgCount (unpackIndex (UInt64.ofNat count - 1)))
      (descending poolMsgCount count hle) none := by
  induction count with
  | zero =>
      show slotOf poolMsgCount (unpackIndex (UInt64.ofNat 0 - 1)) = none
      have hmark : (unpackIndex (UInt64.ofNat 0 - 1)).toNat = 2 ^ 32 - 1 := rfl
      unfold slotOf
      rw [dif_neg (by omega)]
  | succ count ih =>
      have hpred : UInt64.ofNat (count + 1) - 1 = UInt64.ofNat count := by
        rw [UInt64.ofNat_add]
        exact UInt64.add_sub_cancel _ _
      refine ⟨?_, ih (by omega)⟩
      rw [hpred]
      exact slotOf_ofNat hcount ⟨count, hle⟩

theorem construct_chain (hcount : poolMsgCount ≤ 2 ^ 32 - 1) :
    (construct poolMsgCount).Chain
      (descending poolMsgCount poolMsgCount le_rfl) := by
  have hsegment := construct_segment hcount (le_refl poolMsgCount)
  unfold Pool.Chain Pool.headSlot
  rw [show unpackIndex (construct poolMsgCount).head_ =
    unpackIndex (UInt64.ofNat poolMsgCount - 1) from unpackIndex_pack_eq _ _]
  exact hsegment

/-! ## Pop and push -/

theorem Pool.Chain.pop (hchain : pool.Chain free) {slot : Fin poolMsgCount}
    (hslot : pool.headSlot = some slot) (oldHead : UInt64) :
    ∃ rest, free = slot :: rest ∧
      (pool.pop oldHead (pool.nextFree_ slot)).Chain rest := by
  unfold Pool.Chain at hchain
  cases free with
  | nil =>
      rw [hslot] at hchain
      cases hchain
  | cons first rest =>
      rcases hchain with ⟨hfirst, hrest⟩
      rw [hslot, Option.some.injEq] at hfirst
      subst first
      refine ⟨rest, rfl, ?_⟩
      unfold Pool.Chain Pool.headSlot Pool.pop
      rw [unpackIndex_pack_eq]
      exact hrest

theorem Pool.Chain.writeNext (hchain : pool.Chain free)
    {slot : Fin poolMsgCount} (hslot : slot ∉ free) (oldHead : UInt64) :
    (pool.writeNext oldHead slot).Chain free := by
  refine Segment.congr hchain ?_
  intro other hother
  have hne : other ≠ slot := by
    intro heq
    subst other
    exact hslot hother
  unfold Pool.nextSlot Pool.writeNext
  dsimp only
  rw [Function.update_of_ne hne]

theorem Pool.Chain.push (hcount : poolMsgCount ≤ 2 ^ 32 - 1)
    (hchain : pool.Chain free) {slot : Fin poolMsgCount}
    (hnext : pool.nextFree_ slot = unpackIndex pool.head_)
    (oldHead : UInt64) : (pool.push oldHead slot).Chain (slot :: free) := by
  unfold Pool.Chain Pool.headSlot Pool.push
  rw [unpackIndex_pack_eq]
  refine ⟨slotOf_ofNat hcount slot, ?_⟩
  unfold Pool.nextSlot
  dsimp only
  rw [hnext, unpackIndex_unpackIndex]
  exact hchain

end LockFreeThreadSafePool
end TradingStudies
