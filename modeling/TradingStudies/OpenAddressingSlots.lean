import TradingStudies.OpenAddressingLoad

/-!
# Slots and probe paths

A probe path is arithmetic modulo the size of the table, which is a power of
two.  The operations write one slot at a time; `size_` is meant to count the
occupied ones.
-/

namespace TradingStudies
namespace HashMap
namespace OpenAddressingHashMap

variable {Key Value : Type*}

/-! ## Probe paths -/

/-- The slot at a distance from the hash index of the key. -/
def pathOf (hash : Key → ℕ) (exponent : ℕ) (key : Key) (distance : ℕ) : ℕ :=
  (hash key + distance) % 2 ^ exponent

section Paths

variable {hash : Key → ℕ} {exponent : ℕ} {key : Key}

theorem pathOf_lt (distance : ℕ) :
    pathOf hash exponent key distance < 2 ^ exponent :=
  Nat.mod_lt _ (Nat.two_pow_pos exponent)

theorem pathOf_inj {distance other : ℕ} (hdistance : distance < 2 ^ exponent)
    (hother : other < 2 ^ exponent)
    (hpath : pathOf hash exponent key distance =
      pathOf hash exponent key other) :
    distance = other := by
  have hmod : distance ≡ other [MOD (2 ^ exponent)] :=
    Nat.ModEq.add_left_cancel' (hash key) hpath
  exact Nat.ModEq.eq_of_lt_of_lt hmod hdistance hother

variable (hash key) in
theorem exists_pathOf {index : ℕ} (hindex : index < 2 ^ exponent) :
    ∃ distance < 2 ^ exponent,
      pathOf hash exponent key distance = index := by
  have hhome : hash key % 2 ^ exponent < 2 ^ exponent :=
    Nat.mod_lt _ (Nat.two_pow_pos exponent)
  rcases Nat.lt_or_ge index (hash key % 2 ^ exponent) with hwrap | hahead
  · -- the path reaches the index after the end of the table
    refine ⟨index + 2 ^ exponent - hash key % 2 ^ exponent, by omega, ?_⟩
    rw [pathOf, ← Nat.mod_add_mod, Nat.add_sub_cancel' (by omega),
      Nat.add_mod_right, Nat.mod_eq_of_lt hindex]
  · refine ⟨index - hash key % 2 ^ exponent, by omega, ?_⟩
    rw [pathOf, ← Nat.mod_add_mod, Nat.add_sub_cancel' hahead,
      Nat.mod_eq_of_lt hindex]

theorem iterate_nextIndex (distance : ℕ) :
    (nextIndex (2 ^ exponent - 1))^[distance]
        (hash key &&& (2 ^ exponent - 1)) =
      pathOf hash exponent key distance := by
  induction distance with
  | zero => exact Nat.and_two_pow_sub_one_eq_mod _ _
  | succ distance ih =>
      rw [Function.iterate_succ_apply', ih, nextIndex,
        Nat.and_two_pow_sub_one_eq_mod, pathOf, pathOf, Nat.mod_add_mod,
        Nat.add_assoc]

end Paths

/-! ## Slots -/

section Slots

variable [Inhabited Key] [Inhabited Value]
  {map : OpenAddressingHashMap Key Value} {index : ℕ}

theorem nodeAt_setNode (hindex : index < map.table_.length)
    (node : Node Key Value) (other : ℕ) :
    (map.setNode index node).nodeAt other =
      if other = index then node else map.nodeAt other := by
  unfold nodeAt setNode
  dsimp only
  rw [List.getD_eq_getElem?_getD, List.getElem?_set]
  by_cases heq : other = index
  · rw [if_pos heq.symm, if_pos heq, if_pos hindex]
    rfl
  · rw [if_neg (Ne.symm heq), if_neg heq, List.getD_eq_getElem?_getD]

theorem nodeAt_of_le (hindex : map.table_.length ≤ index) :
    map.nodeAt index = fresh :=
  List.getD_eq_default _ _ hindex

@[simp] theorem nodeAt_ofSize (tableSize : ℕ) :
    (ofSize Key Value tableSize).nodeAt index = fresh := by
  rcases Nat.lt_or_ge index tableSize with hlt | hge
  · exact List.getD_replicate _ hlt
  · exact nodeAt_of_le (by simpa [ofSize] using hge)

theorem nodeAt_mem (hindex : index < map.table_.length) :
    map.nodeAt index ∈ map.table_ := by
  unfold nodeAt
  rw [List.getD_eq_getElem _ _ hindex]
  exact List.getElem_mem hindex

theorem lt_of_occupied (hstatus : (map.nodeAt index).status = .OCCUPIED) :
    index < map.table_.length := by
  by_contra hindex
  rw [nodeAt_of_le (Nat.le_of_not_lt hindex)] at hstatus
  cases hstatus

def Node.occupied (node : Node Key Value) : Bool :=
  decide (node.status = .OCCUPIED)

/-- The number of occupied slots, `size_` in a well-formed table. -/
def occupiedCount (table : List (Node Key Value)) : ℕ :=
  table.countP Node.occupied

theorem occupiedCount_setNode (hindex : index < map.table_.length)
    (node : Node Key Value) :
    occupiedCount (map.setNode index node).table_ +
        (if (map.nodeAt index).status = .OCCUPIED then 1 else 0) =
      occupiedCount map.table_ +
        (if node.status = .OCCUPIED then 1 else 0) := by
  have hnode : map.nodeAt index = map.table_[index] :=
    List.getD_eq_getElem _ _ hindex
  have hcount := List.countP_set (p := Node.occupied) (a := node) hindex
  have hmem : map.table_[index].status = .OCCUPIED →
      0 < map.table_.countP Node.occupied := by
    intro hstatus
    apply List.countP_pos_iff.mpr
    exact ⟨_, List.getElem_mem hindex, decide_eq_true hstatus⟩
  unfold occupiedCount setNode
  dsimp only
  rw [hcount, hnode]
  simp only [Node.occupied, decide_eq_true_eq] at hmem ⊢
  by_cases hstatus : map.table_[index].status = .OCCUPIED
  · have hpos := hmem hstatus
    simp only [hstatus, if_true]
    omega
  · simp only [hstatus, if_false]
    omega

/-- A table which is not full has a slot that is not occupied. -/
theorem exists_vacant (hroom : occupiedCount map.table_ < map.table_.length) :
    ∃ index < map.table_.length, (map.nodeAt index).status ≠ .OCCUPIED := by
  by_contra hfull
  push Not at hfull
  have hall : ∀ node ∈ map.table_, node.occupied = true := by
    intro node hnode
    rcases List.getElem_of_mem hnode with ⟨index, hindex, heq⟩
    have hstatus := hfull index hindex
    unfold nodeAt at hstatus
    rw [List.getD_eq_getElem _ _ hindex, heq] at hstatus
    exact decide_eq_true hstatus
  have hcount := List.countP_eq_length.mpr hall
  unfold occupiedCount at hroom
  omega

omit [Inhabited Key] [Inhabited Value] in
@[simp] theorem Node.holds_iff [DecidableEq Key] {node : Node Key Value}
    {key : Key} :
    node.holds key = true ↔ node.status = .OCCUPIED ∧ node.key_ = key :=
  decide_eq_true_iff

end Slots

end OpenAddressingHashMap
end HashMap
end TradingStudies
