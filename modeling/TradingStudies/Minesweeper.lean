import TradingStudies.Library.FloodFill

/-!
# Minesweeper

The board holds `'*'` for a mine, the number of adjacent mines as a string, or
a blank.  `dfs_reveal` makes a cell visible and, if it is blank, goes on to its
eight neighbours, some of which may lie outside of the board.  Its recursion is
bounded by `depth` here, and `none` is a recursion that goes deeper.
-/

namespace TradingStudies
namespace Minesweeper

inductive Content
  | blank
  | number (count : ℕ)
  | mine
  deriving DecidableEq, Repr

structure Game (rows cols : ℕ) where
  board : Fin rows × Fin cols → Content
  visible : Fin rows × Fin cols → Bool

variable {rows cols : ℕ}

/-- `0 <= r < self.rows and 0 <= c < self.cols` -/
def locate (rows cols : ℕ) (position : ℤ × ℤ) :
    Option (Fin rows × Fin cols) :=
  if h : (0 ≤ position.1 ∧ position.1 < rows) ∧
      (0 ≤ position.2 ∧ position.2 < cols) then
    some (⟨position.1.toNat, by omega⟩, ⟨position.2.toNat, by omega⟩)
  else none

def cells (rows cols : ℕ) : List (Fin rows × Fin cols) :=
  List.finRange rows ×ˢ List.finRange cols

def directions : List (ℤ × ℤ) :=
  [(-1, -1), (-1, 0), (-1, 1), (0, -1), (0, 1), (1, -1), (1, 0), (1, 1)]

def around (cell : Fin rows × Fin cols) : List (ℤ × ℤ) :=
  directions.map fun direction =>
    ((cell.1 : ℤ) + direction.1, (cell.2 : ℤ) + direction.2)

def generate_mines (mines : Finset (Fin rows × Fin cols)) :
    Fin rows × Fin cols → Content :=
  fun cell => if cell ∈ mines then .mine else .blank

def count (board : Fin rows × Fin cols → Content)
    (cell : Fin rows × Fin cols) : ℕ :=
  (around cell).countP fun position =>
    match locate rows cols position with
    | none => false
    | some other => board other = .mine

/-- One turn of the loop over the cells. -/
def populate (board : Fin rows × Fin cols → Content)
    (cell : Fin rows × Fin cols) : Fin rows × Fin cols → Content :=
  if board cell = .mine then board
  else
    Function.update board cell
      (if count board cell > 0 then .number (count board cell) else .blank)

def populate_numbers (board : Fin rows × Fin cols → Content) :
    Fin rows × Fin cols → Content :=
  (cells rows cols).foldl populate board

def create (mines : Finset (Fin rows × Fin cols)) : Game rows cols where
  board := populate_numbers (generate_mines mines)
  visible := fun _ => false

def dfs_reveal (board : Fin rows × Fin cols → Content) :
    ℕ → (Fin rows × Fin cols → Bool) → ℤ → ℤ →
      Option (Fin rows × Fin cols → Bool)
  | 0, _, _, _ => none
  | depth + 1, visible, r, c =>
      match locate rows cols (r, c) with
      | none => some visible
      | some cell =>
          if visible cell then some visible
          else
            let visible := Function.update visible cell true
            if board cell = .blank then
              [-1, 0, 1].foldlM (fun visible dr =>
                [-1, 0, 1].foldlM (fun visible dc =>
                  if dr ≠ 0 ∨ dc ≠ 0 then
                    dfs_reveal board depth visible (r + dr) (c + dc)
                  else some visible) visible) visible
            else some visible

def reveal (depth : ℕ) (game : Game rows cols) (cell : Fin rows × Fin cols) :
    Option (Game rows cols × Bool) :=
  if game.board cell = .mine then
    some ({ game with visible := Function.update game.visible cell true },
      false)
  else
    (dfs_reveal game.board depth game.visible cell.1 cell.2).map
      fun visible => ({ game with visible := visible }, true)

def check_win (game : Game rows cols) : Bool :=
  (cells rows cols).all fun cell =>
    ¬ (game.visible cell = false ∧ game.board cell ≠ .mine)

/-- Reveals in sequence, with their results. -/
def run (depth : ℕ) : Game rows cols → List (Fin rows × Fin cols) →
    Option (Game rows cols × List Bool)
  | game, [] => some (game, [])
  | game, cell :: rest =>
      match reveal depth game cell with
      | none => none
      | some (game, safe) =>
          (run depth game rest).map fun (game, results) =>
            (game, safe :: results)

/-! ## Neighbours -/

def Adjacent (cell other : Fin rows × Fin cols) : Prop :=
  cell ≠ other ∧ |(cell.1 : ℤ) - other.1| ≤ 1 ∧ |(cell.2 : ℤ) - other.2| ≤ 1

instance (cell other : Fin rows × Fin cols) :
    Decidable (Adjacent cell other) :=
  inferInstanceAs (Decidable (_ ∧ _))

theorem locate_eq_some_iff {position : ℤ × ℤ} {cell : Fin rows × Fin cols} :
    locate rows cols position = some cell ↔
      position = ((cell.1 : ℤ), (cell.2 : ℤ)) := by
  unfold locate
  have hrow := cell.1.isLt
  have hcol := cell.2.isLt
  constructor
  · intro hlocate
    split at hlocate
    · rename_i hrange
      cases hlocate
      apply Prod.ext
      · exact (Int.toNat_of_nonneg hrange.1.1).symm
      · exact (Int.toNat_of_nonneg hrange.2.1).symm
    · cases hlocate
  · rintro rfl
    rw [dif_pos (by omega)]
    rfl

theorem mem_around_iff {cell other : Fin rows × Fin cols} :
    ((other.1 : ℤ), (other.2 : ℤ)) ∈ around cell ↔ Adjacent cell other := by
  have hne : cell ≠ other ↔ (cell.1 : ℤ) ≠ other.1 ∨ (cell.2 : ℤ) ≠ other.2 := by
    rw [Ne, Prod.ext_iff, not_and_or, Fin.ext_iff, Fin.ext_iff]
    omega
  unfold Adjacent around directions
  rw [hne, abs_le, abs_le]
  simp only [List.map_cons, List.map_nil, List.mem_cons, List.not_mem_nil,
    Prod.mk.injEq, or_false]
  omega

/-! ## The numbers -/

section Numbers

variable {mines : Finset (Fin rows × Fin cols)}
  {board : Fin rows × Fin cols → Content} {cell : Fin rows × Fin cols}

/-- No mine touches the cell. -/
def Clear (mines : Finset (Fin rows × Fin cols)) (cell : Fin rows × Fin cols) :
    Prop :=
  ∀ other ∈ mines, ¬ Adjacent cell other

def MinesShown (mines : Finset (Fin rows × Fin cols))
    (board : Fin rows × Fin cols → Content) : Prop :=
  ∀ cell, board cell = .mine ↔ cell ∈ mines

/-- A cell without a mine is blank exactly where no mine touches it. -/
def Numbered (mines : Finset (Fin rows × Fin cols))
    (board : Fin rows × Fin cols → Content) (cell : Fin rows × Fin cols) :
    Prop :=
  cell ∉ mines → (board cell = .blank ↔ Clear mines cell)

theorem count_pos_iff (hshown : MinesShown mines board) :
    0 < count board cell ↔ ¬ Clear mines cell := by
  unfold count Clear
  rw [List.countP_pos_iff]
  push Not
  constructor
  · rintro ⟨position, hposition, hmine⟩
    cases hlocate : locate rows cols position with
    | none => simp [hlocate] at hmine
    | some other =>
        simp only [hlocate, decide_eq_true_eq] at hmine
        rw [locate_eq_some_iff.mp hlocate] at hposition
        exact ⟨other, (hshown other).mp hmine, mem_around_iff.mp hposition⟩
  · rintro ⟨other, hmine, hadjacent⟩
    refine ⟨_, mem_around_iff.mpr hadjacent, ?_⟩
    rw [locate_eq_some_iff.mpr rfl]
    exact decide_eq_true ((hshown other).mpr hmine)

theorem populate_shown (hshown : MinesShown mines board)
    (cell : Fin rows × Fin cols) : MinesShown mines (populate board cell) := by
  intro other
  unfold populate
  split
  · exact hshown other
  · rename_i hsafe
    by_cases heq : other = cell
    · subst heq
      rw [Function.update_self, ← hshown other]
      refine iff_of_false ?_ hsafe
      split
      · exact nofun
      · exact nofun
    · rw [Function.update_of_ne heq]
      exact hshown other

theorem populate_numbered (hshown : MinesShown mines board)
    (cell : Fin rows × Fin cols) :
    Numbered mines (populate board cell) cell := by
  intro hsafe
  have hboard : board cell ≠ .mine := fun hmine =>
    hsafe ((hshown cell).mp hmine)
  have hcount : 0 < count board cell ↔ ¬ Clear mines cell :=
    count_pos_iff hshown
  unfold populate
  rw [if_neg hboard, Function.update_self]
  split
  · rename_i hpositive
    exact iff_of_false nofun (hcount.mp hpositive)
  · rename_i hzero
    exact iff_of_true rfl (not_not.mp fun hclear => hzero (hcount.mpr hclear))

theorem populate_keeps (hnumbered : Numbered mines board cell)
    (hshown : MinesShown mines board) (other : Fin rows × Fin cols) :
    Numbered mines (populate board other) cell := by
  by_cases heq : cell = other
  · subst heq
    exact populate_numbered hshown cell
  · have hsame : populate board other cell = board cell := by
      unfold populate
      split
      · rfl
      · exact Function.update_of_ne heq _ _
    unfold Numbered
    rw [hsame]
    exact hnumbered

/-- Mines stay where they are, and every cell the loop has passed keeps its
number. -/
theorem foldl_populate (list : List (Fin rows × Fin cols))
    (hshown : MinesShown mines board) :
    MinesShown mines (list.foldl populate board) ∧
      ∀ cell, cell ∈ list ∨ Numbered mines board cell →
        Numbered mines (list.foldl populate board) cell := by
  induction list generalizing board with
  | nil =>
      exact ⟨hshown, fun cell hcell =>
        hcell.resolve_left List.not_mem_nil⟩
  | cons first rest ih =>
      obtain ⟨hlast, hnumbers⟩ := ih (populate_shown hshown first)
      refine ⟨hlast, ?_⟩
      intro cell hcell
      apply hnumbers
      rcases hcell with hcell | hnumbered
      · rcases List.mem_cons.mp hcell with rfl | hrest
        · exact Or.inr (populate_numbered hshown cell)
        · exact Or.inl hrest
      · exact Or.inr (populate_keeps hnumbered hshown first)

theorem mem_cells (cell : Fin rows × Fin cols) : cell ∈ cells rows cols :=
  List.mem_product.mpr ⟨List.mem_finRange _, List.mem_finRange _⟩

theorem create_board (mines : Finset (Fin rows × Fin cols)) :
    MinesShown mines (create mines).board ∧
      ∀ cell, Numbered mines (create mines).board cell := by
  have hshown : MinesShown mines (generate_mines mines) := by
    intro cell
    unfold generate_mines
    split
    · rename_i hmine
      exact iff_of_true rfl hmine
    · rename_i hsafe
      exact iff_of_false nofun hsafe
  obtain ⟨hlast, hnumbers⟩ := foldl_populate (cells rows cols) hshown
  exact ⟨hlast, fun cell => hnumbers cell (Or.inl (mem_cells cell))⟩

end Numbers

/-! ## The recursion -/

/-- Where `dfs_reveal` goes on from a cell. -/
def next (board : Fin rows × Fin cols → Content) (cell : Fin rows × Fin cols) :
    List (ℤ × ℤ) :=
  if board cell = .blank then around cell else []

theorem dfs_reveal_eq_fill (board : Fin rows × Fin cols → Content)
    (depth : ℕ) (visible : Fin rows × Fin cols → Bool) (r c : ℤ) :
    dfs_reveal board depth visible r c =
      FloodFill.fill (locate rows cols) (next board) depth visible (r, c) := by
  induction depth generalizing visible r c with
  | zero => rfl
  | succ depth ih =>
      unfold dfs_reveal FloodFill.fill
      cases hlocate : locate rows cols (r, c) with
      | none => rfl
      | some cell =>
          have hposition := locate_eq_some_iff.mp hlocate
          rw [Prod.mk.injEq] at hposition
          obtain ⟨rfl, rfl⟩ := hposition
          dsimp only
          split
          · rfl
          · by_cases hblank : board cell = .blank
            · rw [if_pos hblank, next, if_pos hblank]
              simp [around, directions, ih, Option.bind_assoc]
            · rw [if_neg hblank, next, if_neg hblank]
              rfl

/-! ## Reveals -/

def start (cell : Fin rows × Fin cols) : ℤ × ℤ :=
  ((cell.1 : ℤ), (cell.2 : ℤ))

section Reveals

variable {mines : Finset (Fin rows × Fin cols)} {depth : ℕ}

theorem reveal_filled (game : Game rows cols) {cell : Fin rows × Fin cols}
    (hsafe : game.board cell ≠ .mine)
    (hdepth : FloodFill.unmarked game.visible < depth) :
    ∃ visible, reveal depth game cell =
        some ({ game with visible := visible }, true) ∧
      FloodFill.Filled (locate rows cols) (next game.board) [start cell]
        game.visible visible := by
  obtain ⟨visible, hfill, hfilled⟩ := FloodFill.fill_filled
    (locate rows cols) (next game.board) depth game.visible (start cell) hdepth
  refine ⟨visible, ?_, hfilled⟩
  unfold reveal
  rw [if_neg hsafe, dfs_reveal_eq_fill]
  exact congrArg (Option.map _) hfill

/-- Reveals always finish; those which meet no mine are fills, one after the
other, and each starts from what the earlier ones left visible. -/
theorem run_filled (game : Game rows cols)
    (reveals : List (Fin rows × Fin cols))
    (hdepth : FloodFill.unmarked game.visible < depth) :
    ∃ last results, run depth game reveals = some (last, results) ∧
      last.board = game.board ∧
      ((∀ safe ∈ results, safe = true) →
        (∀ cell ∈ reveals, game.board cell ≠ .mine) ∧
          FloodFill.Filled (locate rows cols) (next game.board)
            (reveals.map start) game.visible last.visible) := by
  induction reveals generalizing game with
  | nil =>
      refine ⟨game, [], rfl, rfl, ?_⟩
      intro _
      exact ⟨fun _ hcell => absurd hcell List.not_mem_nil, .nil game.visible⟩
  | cons cell rest ih =>
      by_cases hmine : game.board cell = .mine
      · have hfewer := FloodFill.unmarked_le
          (FloodFill.update_keeps game.visible cell)
        obtain ⟨last, results, hrun, hboard, -⟩ := ih
          { game with visible := Function.update game.visible cell true }
          (lt_of_le_of_lt hfewer hdepth)
        refine ⟨last, false :: results, ?_, hboard, ?_⟩
        · unfold run reveal
          rw [if_pos hmine]
          dsimp only
          rw [hrun]
          rfl
        · intro hsafe
          cases hsafe false List.mem_cons_self
      · obtain ⟨visible, hreveal, hfirst⟩ := reveal_filled game hmine hdepth
        obtain ⟨last, results, hrun, hboard, hrest⟩ := ih
          { game with visible := visible }
          (lt_of_le_of_lt (FloodFill.unmarked_le hfirst.keeps) hdepth)
        refine ⟨last, true :: results, ?_, hboard, ?_⟩
        · unfold run
          rw [hreveal]
          dsimp only
          rw [hrun]
          rfl
        · intro hsafe
          obtain ⟨hcells, hfilled⟩ := hrest fun safe hmem =>
            hsafe safe (List.mem_cons_of_mem _ hmem)
          exact ⟨List.forall_mem_cons.mpr ⟨hmine, hcells⟩,
            hfirst.cons hfilled⟩

/-- The sets that contain the revealed cells, and the neighbours of each of
their cells which no mine touches. -/
def Region (mines : Finset (Fin rows × Fin cols))
    (reveals : List (Fin rows × Fin cols)) (S : Set (Fin rows × Fin cols)) :
    Prop :=
  (∀ cell ∈ reveals, cell ∈ S) ∧
    ∀ cell ∈ S, Clear mines cell → ∀ other, Adjacent cell other → other ∈ S

theorem mem_next_iff {board : Fin rows × Fin cols → Content}
    {cell other : Fin rows × Fin cols} :
    start other ∈ next board cell ↔
      board cell = .blank ∧ Adjacent cell other := by
  unfold next
  split
  · rename_i hblank
    exact mem_around_iff.trans (and_iff_right hblank).symm
  · rename_i hnumber
    exact iff_of_false List.not_mem_nil fun hboth => hnumber hboth.1

/-- On cells without mines, going on from blanks is going on from cells which
no mine touches. -/
theorem closed_iff_region {board : Fin rows × Fin cols → Content}
    (hnumbers : ∀ cell, Numbered mines board cell)
    (reveals : List (Fin rows × Fin cols)) {S : Set (Fin rows × Fin cols)}
    (hsafe : ∀ cell ∈ S, cell ∉ mines) :
    FloodFill.Closed (locate rows cols) (next board) (reveals.map start) S ↔
      Region mines reveals S := by
  constructor
  · intro hclosed
    constructor
    · intro cell hcell
      exact hclosed.targets (start cell) (List.mem_map_of_mem hcell) cell
        (locate_eq_some_iff.mpr rfl)
    · intro cell hcell hclear other hadjacent
      have hblank := (hnumbers cell (hsafe cell hcell)).mpr hclear
      exact hclosed.next cell hcell (start other)
        (mem_next_iff.mpr ⟨hblank, hadjacent⟩) other
        (locate_eq_some_iff.mpr rfl)
  · intro hregion
    constructor
    · intro position hposition cell hcell
      obtain ⟨revealed, hrevealed, rfl⟩ := List.mem_map.mp hposition
      have hsame : locate rows cols (start revealed) = some revealed :=
        locate_eq_some_iff.mpr rfl
      rw [hsame, Option.mem_some_iff] at hcell
      exact hcell ▸ hregion.1 revealed hrevealed
    · intro cell hcell position hposition other hother
      rw [locate_eq_some_iff.mp hother] at hposition
      obtain ⟨hblank, hadjacent⟩ := mem_next_iff.mp hposition
      exact hregion.2 cell hcell
        ((hnumbers cell (hsafe cell hcell)).mp hblank) other hadjacent

theorem safe_region {reveals : List (Fin rows × Fin cols)}
    (hreveals : ∀ cell ∈ reveals, cell ∉ mines) :
    Region mines reveals { cell | cell ∉ mines } :=
  ⟨hreveals, fun _ _ hclear other hadjacent hmine =>
    hclear other hmine hadjacent⟩

theorem check_win_iff {game : Game rows cols}
    (hshown : MinesShown mines game.board) :
    check_win game = true ↔ ∀ cell, cell ∉ mines → game.visible cell = true := by
  unfold check_win
  rw [List.all_eq_true]
  constructor
  · intro hall cell hsafe
    have hcell := hall cell (mem_cells cell)
    by_contra hhidden
    rw [decide_eq_true_eq] at hcell
    exact hcell ⟨Bool.eq_false_of_not_eq_true hhidden,
      fun hmine => hsafe ((hshown cell).mp hmine)⟩
  · intro hall cell _
    rw [decide_eq_true_eq]
    rintro ⟨hhidden, hsafe⟩
    have hvisible := hall cell fun hmine => hsafe ((hshown cell).mpr hmine)
    rw [hhidden] at hvisible
    cases hvisible

theorem visible_isLeast {board : Fin rows × Fin cols → Content}
    {visible : Fin rows × Fin cols → Bool}
    (hnumbers : ∀ cell, Numbered mines board cell)
    {reveals : List (Fin rows × Fin cols)}
    (hreveals : ∀ cell ∈ reveals, cell ∉ mines)
    (hfilled : FloodFill.Filled (locate rows cols) (next board)
      (reveals.map start) (fun _ => false) visible) :
    IsLeast { S | Region mines reveals S } { cell | visible cell = true } ∧
      ∀ cell, visible cell = true → cell ∉ mines := by
  have hleast := hfilled.isLeast
  have hsafe : ∀ cell, visible cell = true → cell ∉ mines :=
    hleast.2 ((closed_iff_region hnumbers reveals fun _ hcell => hcell).mpr
      (safe_region hreveals))
  refine ⟨⟨(closed_iff_region hnumbers reveals hsafe).mp hleast.1, ?_⟩, hsafe⟩
  intro S hS cell hcell
  -- a region may contain mines, its safe part is a region as well
  have hpart : Region mines reveals (S ∩ { cell | cell ∉ mines }) := by
    have hmineless := safe_region hreveals
    constructor
    · exact fun cell hcell => ⟨hS.1 cell hcell, hmineless.1 cell hcell⟩
    · intro cell hcell hclear other hadjacent
      exact ⟨hS.2 cell hcell.1 hclear other hadjacent,
        hmineless.2 cell hcell.2 hclear other hadjacent⟩
  have hclosed := (closed_iff_region hnumbers reveals
    fun _ hcell => hcell.2).mpr hpart
  exact (hleast.2 hclosed hcell).1

end Reveals

/-- Reveals that meet no mine show the flood region, for a recursion which is
as deep as there are cells. -/
theorem minesweeper_reveals_region (mines : Finset (Fin rows × Fin cols))
    (reveals : List (Fin rows × Fin cols)) (depth : ℕ)
    (hdepth : rows * cols < depth) :
    ∃ game results, run depth (create mines) reveals = some (game, results) ∧
      ((∀ safe ∈ results, safe = true) →
        IsLeast { S | Region mines reveals S }
            { cell | game.visible cell = true } ∧
          (∀ cell, game.visible cell = true → cell ∉ mines) ∧
          (check_win game = true ↔
            ∀ cell, cell ∉ mines → game.visible cell = true)) := by
  obtain ⟨hshown, hnumbers⟩ := create_board mines
  have hunmarked : FloodFill.unmarked (create mines).visible = rows * cols := by
    simp [FloodFill.unmarked, create]
  obtain ⟨game, results, hrun, hboard, hall⟩ :=
    run_filled (create mines) reveals (hunmarked ▸ hdepth)
  refine ⟨game, results, hrun, ?_⟩
  intro hresults
  obtain ⟨hmineless, hfilled⟩ := hall hresults
  have hreveals : ∀ cell ∈ reveals, cell ∉ mines := fun cell hcell hmine =>
    hmineless cell hcell ((hshown cell).mpr hmine)
  obtain ⟨hleast, hsafe⟩ := visible_isLeast hnumbers hreveals hfilled
  exact ⟨hleast, hsafe, check_win_iff (hboard ▸ hshown)⟩

/-- One mine in a corner; the opposite corner shows all the other cells. -/
theorem minesweeper_reveals_region_corner :
    (run 10 (create ({(0, 0)} : Finset (Fin 3 × Fin 3))) [(2, 2)]).map
        (fun last => (last.2, check_win last.1)) = some ([true], true) ∧
      ∃ game results,
        run 10 (create ({(0, 0)} : Finset (Fin 3 × Fin 3))) [(2, 2)] =
            some (game, results) ∧
          ((∀ safe ∈ results, safe = true) →
            IsLeast { S | Region {(0, 0)} [(2, 2)] S }
                { cell | game.visible cell = true } ∧
              (∀ cell, game.visible cell = true →
                cell ∉ ({(0, 0)} : Finset (Fin 3 × Fin 3))) ∧
              (check_win game = true ↔
                ∀ cell, cell ∉ ({(0, 0)} : Finset (Fin 3 × Fin 3)) →
                  game.visible cell = true)) :=
  ⟨by decide +kernel,
    minesweeper_reveals_region {(0, 0)} [(2, 2)] 10 (by decide)⟩

end Minesweeper
end TradingStudies
