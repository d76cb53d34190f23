import TradingStudies.Minesweeper

/-!
# Games of Minesweeper

`play` prints the board, reads a line and goes on until a mine is hit or every
other cell is visible.  A line holds two integers or makes `play` catch a
`ValueError`; a game whose lines are used up waits for the next one.
-/

namespace TradingStudies
namespace Minesweeper

variable {rows cols : ℕ}

/-! ## The mines -/

/-- The loop of `generate_mines`, on the cells that `randint` hands out.  It is
still drawing after the last of them where it returns `none`. -/
def draw_mines (num_mines : ℕ) : Finset (Fin rows × Fin cols) →
    List (Fin rows × Fin cols) → Option (Finset (Fin rows × Fin cols))
  | mines, [] => if mines.card < num_mines then none else some mines
  | mines, draw :: draws =>
      if mines.card < num_mines then
        draw_mines num_mines (if draw ∉ mines then insert draw mines else mines)
          draws
      else some mines

/-- `none` means that there were too few different cells. -/
def Drawn (num_mines : ℕ) (drawn : Finset (Fin rows × Fin cols)) :
    Option (Finset (Fin rows × Fin cols)) → Prop
  | none => drawn.card < num_mines
  | some mines => mines.card = num_mines ∧ mines ⊆ drawn

theorem draw_mines_drawn {num_mines : ℕ} {mines : Finset (Fin rows × Fin cols)}
    (draws : List (Fin rows × Fin cols)) (hfew : mines.card ≤ num_mines) :
    Drawn num_mines (mines ∪ draws.toFinset)
      (draw_mines num_mines mines draws) := by
  induction draws generalizing mines with
  | nil =>
      unfold draw_mines
      rw [List.toFinset_nil, Finset.union_empty]
      split
      · assumption
      · exact ⟨by omega, Finset.Subset.refl _⟩
  | cons draw draws ih =>
      unfold draw_mines
      split
      · rename_i hfewer
        have hnext : (if draw ∉ mines then insert draw mines else mines) =
            insert draw mines := by
          by_cases hdrawn : draw ∈ mines
          · rw [if_neg (not_not.mpr hdrawn), Finset.insert_eq_of_mem hdrawn]
          · rw [if_pos hdrawn]
        have hcard : (insert draw mines).card ≤ num_mines :=
          (Finset.card_insert_le draw mines).trans hfewer
        have hunion : mines ∪ (draw :: draws).toFinset =
            insert draw mines ∪ draws.toFinset := by
          rw [List.toFinset_cons, Finset.union_insert, Finset.insert_union]
        rw [hnext, hunion]
        exact ih hcard
      · exact ⟨by omega, Finset.subset_union_left⟩

/-! ## The numbers -/

/-- What the board holds once its numbers are in. -/
def content (mines : Finset (Fin rows × Fin cols))
    (cell : Fin rows × Fin cols) : Content :=
  if cell ∈ mines then .mine
  else if (mines.filter (Adjacent cell)).card > 0 then
    .number (mines.filter (Adjacent cell)).card
  else .blank

section Numbers

variable {mines : Finset (Fin rows × Fin cols)}
  {board : Fin rows × Fin cols → Content}

theorem start_injective :
    Function.Injective (start : Fin rows × Fin cols → ℤ × ℤ) := by
  intro cell other hsame
  have hcell : locate rows cols (start other) = some cell :=
    locate_eq_some_iff.mpr hsame.symm
  have hother : locate rows cols (start other) = some other :=
    locate_eq_some_iff.mpr rfl
  exact Option.some.inj (hcell.symm.trans hother)

theorem around_nodup (cell : Fin rows × Fin cols) : (around cell).Nodup := by
  refine List.Nodup.map ?_ (by decide)
  intro direction other hsame
  have hrow := congrArg Prod.fst hsame
  have hcol := congrArg Prod.snd hsame
  exact Prod.ext (add_left_cancel hrow) (add_left_cancel hcol)

theorem count_eq (hshown : MinesShown mines board)
    (cell : Fin rows × Fin cols) :
    count board cell = (mines.filter (Adjacent cell)).card := by
  unfold count
  rw [List.countP_eq_length_filter,
    ← List.toFinset_card_of_nodup ((around_nodup cell).filter _),
    ← Finset.card_image_of_injective _ start_injective]
  apply congrArg Finset.card
  ext position
  rw [List.mem_toFinset, List.mem_filter, Finset.mem_image]
  constructor
  · rintro ⟨hposition, hmine⟩
    cases hlocate : locate rows cols position with
    | none => simp [hlocate] at hmine
    | some other =>
        simp only [hlocate, decide_eq_true_eq] at hmine
        rw [locate_eq_some_iff.mp hlocate] at hposition ⊢
        exact ⟨other, Finset.mem_filter.mpr ⟨(hshown other).mp hmine,
          mem_around_iff.mp hposition⟩, rfl⟩
  · rintro ⟨other, hother, rfl⟩
    obtain ⟨hmine, hadjacent⟩ := Finset.mem_filter.mp hother
    refine ⟨mem_around_iff.mpr hadjacent, ?_⟩
    have hlocate : locate rows cols (start other) = some other :=
      locate_eq_some_iff.mpr rfl
    rw [hlocate]
    exact decide_eq_true ((hshown other).mpr hmine)

theorem populate_eq (hshown : MinesShown mines board)
    (cell : Fin rows × Fin cols) :
    populate board cell = Function.update board cell (content mines cell) := by
  unfold populate content
  rw [count_eq hshown]
  split
  · rename_i hmine
    rw [if_pos ((hshown cell).mp hmine), ← hmine, Function.update_eq_self]
  · rename_i hsafe
    rw [if_neg fun hmine => hsafe ((hshown cell).mpr hmine)]

theorem foldl_populate_eq (list : List (Fin rows × Fin cols))
    (hshown : MinesShown mines board) (cell : Fin rows × Fin cols)
    (hcell : cell ∈ list ∨ board cell = content mines cell) :
    list.foldl populate board cell = content mines cell := by
  induction list generalizing board with
  | nil => exact hcell.resolve_left List.not_mem_nil
  | cons first rest ih =>
      apply ih (populate_shown hshown first)
      rw [populate_eq hshown]
      by_cases heq : cell = first
      · subst heq
        exact Or.inr (Function.update_self ..)
      · rw [Function.update_of_ne heq]
        exact hcell.imp_left fun hmem => (List.mem_cons.mp hmem).resolve_left heq

theorem create_board_eq (mines : Finset (Fin rows × Fin cols)) :
    (create mines).board = content mines := by
  funext cell
  refine foldl_populate_eq (cells rows cols) ?_ cell (Or.inl (mem_cells cell))
  intro other
  unfold generate_mines
  split
  · rename_i hmine
    exact iff_of_true rfl hmine
  · rename_i hsafe
    exact iff_of_false nofun hsafe

end Numbers

/-! ## The loop -/

inductive Line
  | numbers (r c : ℤ)
  | malformed
  deriving DecidableEq, Repr

/-- The cell that a line asks for. -/
def Line.cell : Line → Option (Fin rows × Fin cols)
  | .numbers r c => locate rows cols (r, c)
  | .malformed => none

inductive Output (rows cols : ℕ)
  | board (shown : Fin rows × Fin cols → Option Content)
  | text (line : String)

inductive Ending
  | won
  | lost
  | waiting
  deriving DecidableEq, Repr

/-- `none` is printed as `'#'`. -/
def print_board (game : Game rows cols) : Fin rows × Fin cols → Option Content :=
  fun cell => if game.visible cell then some (game.board cell) else none

def play (depth : ℕ) : Game rows cols → List Line →
    Option (List (Output rows cols) × Ending)
  | game, [] => some ([.board (print_board game)], .waiting)
  | game, line :: lines =>
      match line with
      | .malformed =>
          (play depth game lines).map fun (outputs, ending) =>
            (.board (print_board game) ::
              .text "Please enter valid integers separated by space." ::
              outputs, ending)
      | .numbers r c =>
          match locate rows cols (r, c) with
          | none =>
              (play depth game lines).map fun (outputs, ending) =>
                (.board (print_board game) ::
                  .text "Invalid coordinates." :: outputs, ending)
          | some cell =>
              match reveal depth game cell with
              | none => none
              | some (next, false) =>
                  some ([.board (print_board game),
                    .board (print_board { next with visible := fun _ => true }),
                    .text "💥 You hit a mine! Game over."], .lost)
              | some (next, true) =>
                  if check_win next then
                    some ([.board (print_board game),
                      .board (print_board next), .text "🎉 You win!"], .won)
                  else
                    (play depth next lines).map fun (outputs, ending) =>
                      (.board (print_board game) :: outputs, ending)

def boards (outputs : List (Output rows cols)) :
    List (Fin rows × Fin cols → Option Content) :=
  outputs.filterMap fun output =>
    match output with
    | .board shown => some shown
    | .text _ => none

/-! ## What is asked for -/

/-- The cells that the lines ask for. -/
def asked (rows cols : ℕ) (lines : List Line) : List (Fin rows × Fin cols) :=
  lines.filterMap Line.cell

/-- Whatever the flood region of the cells, it has every cell without a
mine. -/
def Cleared (mines : Finset (Fin rows × Fin cols))
    (opened : List (Fin rows × Fin cols)) : Prop :=
  ∀ S, Region mines opened S → ∀ cell, cell ∉ mines → cell ∈ S

/-- The board shows the flood region of the cells, with its true numbers and
without a mine, and nothing else. -/
def Shown (mines : Finset (Fin rows × Fin cols))
    (opened : List (Fin rows × Fin cols))
    (shown : Fin rows × Fin cols → Option Content) : Prop :=
  ∃ S, IsLeast { S | Region mines opened S } S ∧
    (∀ cell ∈ S, cell ∉ mines ∧ shown cell = some (content mines cell)) ∧
    ∀ cell ∉ S, shown cell = none

/-- Cells without mines, asked for first, have cleared the board. -/
def Wins (mines : Finset (Fin rows × Fin cols))
    (cells : List (Fin rows × Fin cols)) : Prop :=
  ∃ opened, opened ≠ [] ∧ opened <+: cells ∧
    (∀ cell ∈ opened, cell ∉ mines) ∧ Cleared mines opened

/-- A mine is asked for before the board is cleared. -/
def Loses (mines : Finset (Fin rows × Fin cols))
    (cells : List (Fin rows × Fin cols)) : Prop :=
  ∃ opened mine, opened ++ [mine] <+: cells ∧ mine ∈ mines ∧
    (∀ cell ∈ opened, cell ∉ mines) ∧ (opened = [] ∨ ¬ Cleared mines opened)

/-- What `play` makes of the lines, after the cells that were asked for. -/
structure Played (mines : Finset (Fin rows × Fin cols))
    (earlier : List (Fin rows × Fin cols)) (lines : List Line)
    (outputs : List (Output rows cols)) (ending : Ending) : Prop where
  won : ending = .won ↔ Wins mines (earlier ++ asked rows cols lines)
  lost : ending = .lost ↔ Loses mines (earlier ++ asked rows cols lines)
  waiting : ending = .waiting → (boards outputs).length = lines.length + 1
  shown : ∀ turn shown, (boards outputs)[turn]? = some shown →
    Shown mines (earlier ++ asked rows cols (lines.take turn)) shown ∨
      ending = .lost ∧ turn + 1 = (boards outputs).length ∧
        ∀ cell, shown cell = some (content mines cell)

section Play

variable {mines : Finset (Fin rows × Fin cols)} {depth : ℕ}
  {opened : List (Fin rows × Fin cols)} {game : Game rows cols}

theorem Cleared.mono {more : List (Fin rows × Fin cols)}
    (hcleared : Cleared mines opened) (hmore : opened <+: more) :
    Cleared mines more := by
  intro S hS
  exact hcleared S ⟨fun cell hcell => hS.1 cell (hmore.subset hcell), hS.2⟩

/-- Cells without mines were opened, and the game is not over. -/
structure Going (mines : Finset (Fin rows × Fin cols))
    (opened : List (Fin rows × Fin cols)) : Prop where
  safe : ∀ cell ∈ opened, cell ∉ mines
  hidden : opened = [] ∨ ¬ Cleared mines opened

theorem Going.not_cleared (hgoing : Going mines opened)
    {first : List (Fin rows × Fin cols)} (hfirst : first <+: opened)
    (hne : first ≠ []) : ¬ Cleared mines first := by
  intro hcleared
  rcases hgoing.hidden with rfl | hhidden
  · exact hne (List.prefix_nil.mp hfirst)
  · exact hhidden (hcleared.mono hfirst)

theorem Going.not_wins (hgoing : Going mines opened) :
    ¬ Wins mines opened := by
  rintro ⟨first, hne, hfirst, -, hcleared⟩
  exact hgoing.not_cleared hfirst hne hcleared

theorem not_loses (hsafe : ∀ cell ∈ opened, cell ∉ mines) :
    ¬ Loses mines opened := by
  rintro ⟨first, mine, hfirst, hmine, -, -⟩
  exact hsafe mine (hfirst.subset (List.mem_append_right _
    (List.mem_singleton_self mine))) hmine

theorem Going.loses (hgoing : Going mines opened)
    {mine : Fin rows × Fin cols} (hmine : mine ∈ mines)
    (rest : List (Fin rows × Fin cols)) :
    Loses mines (opened ++ mine :: rest) :=
  ⟨opened, mine, ⟨rest, List.append_assoc ..⟩, hmine, hgoing.safe,
    hgoing.hidden⟩

theorem Going.not_wins_mine (hgoing : Going mines opened)
    {mine : Fin rows × Fin cols} (hmine : mine ∈ mines)
    (rest : List (Fin rows × Fin cols)) :
    ¬ Wins mines (opened ++ mine :: rest) := by
  rintro ⟨first, hne, hfirst, hsafe, hcleared⟩
  have hnext : opened ++ [mine] <+: opened ++ mine :: rest :=
    ⟨rest, List.append_assoc ..⟩
  rcases List.prefix_or_prefix_of_prefix hfirst hnext with hshort | hlong
  · rcases List.prefix_concat_iff.mp hshort with rfl | hshort
    · exact hsafe mine (List.mem_append_right _
        (List.mem_singleton_self mine)) hmine
    · exact hgoing.not_cleared hshort hne hcleared
  · exact hsafe mine (hlong.subset (List.mem_append_right _
      (List.mem_singleton_self mine))) hmine

/-- A cleared board stays won. -/
theorem not_loses_cleared (hne : opened ≠ [])
    (hsafe : ∀ cell ∈ opened, cell ∉ mines) (hcleared : Cleared mines opened)
    {cells : List (Fin rows × Fin cols)} (hcells : opened <+: cells) :
    ¬ Loses mines cells := by
  rintro ⟨first, mine, hfirst, hmine, -, hhidden⟩
  rcases List.prefix_or_prefix_of_prefix hcells hfirst with hshort | hlong
  · rcases List.prefix_concat_iff.mp hshort with rfl | hshort
    · exact hsafe mine (List.mem_append_right _
        (List.mem_singleton_self mine)) hmine
    · rcases hhidden with rfl | hhidden
      · exact hne (List.prefix_nil.mp hshort)
      · exact hhidden (hcleared.mono hshort)
  · exact hsafe mine (hlong.subset (List.mem_append_right _
      (List.mem_singleton_self mine))) hmine

/-! ## One turn -/

/-- A game in which the cells were opened. -/
structure Opened (mines : Finset (Fin rows × Fin cols)) (depth : ℕ)
    (opened : List (Fin rows × Fin cols)) (game : Game rows cols) : Prop where
  board : game.board = content mines
  safe : ∀ cell ∈ opened, cell ∉ mines
  filled : FloodFill.Filled (locate rows cols) (next (content mines))
    (opened.map start) (fun _ => false) game.visible
  shallow : FloodFill.unmarked game.visible < depth

theorem content_shown : MinesShown mines (content mines) :=
  create_board_eq mines ▸ (create_board mines).1

theorem opened_create (hdepth : rows * cols < depth) :
    Opened mines depth [] (create mines) where
  board := create_board_eq mines
  safe := fun _ hcell => absurd hcell List.not_mem_nil
  filled := .nil _
  shallow := by
    have hall : FloodFill.unmarked (create mines).visible = rows * cols := by
      simp [FloodFill.unmarked, create]
    exact hall ▸ hdepth

theorem Opened.isLeast (hopened : Opened mines depth opened game) :
    IsLeast { S | Region mines opened S } { cell | game.visible cell = true } ∧
      ∀ cell, game.visible cell = true → cell ∉ mines :=
  visible_isLeast (create_board_eq mines ▸ (create_board mines).2)
    hopened.safe hopened.filled

theorem Opened.shown (hopened : Opened mines depth opened game) :
    Shown mines opened (print_board game) := by
  obtain ⟨hleast, hsafe⟩ := hopened.isLeast
  refine ⟨_, hleast, ?_, ?_⟩
  · intro cell hcell
    have hvisible : game.visible cell = true := hcell
    refine ⟨hsafe cell hvisible, ?_⟩
    rw [print_board, if_pos hvisible, hopened.board]
  · intro cell hcell
    have hhidden : ¬ game.visible cell = true := hcell
    rw [print_board, if_neg hhidden]

theorem Opened.check_win_iff (hopened : Opened mines depth opened game) :
    check_win game = true ↔ Cleared mines opened := by
  obtain ⟨hleast, -⟩ := hopened.isLeast
  rw [Minesweeper.check_win_iff (hopened.board ▸ content_shown)]
  constructor
  · intro hall S hS cell hcell
    exact hleast.2 hS (hall cell hcell)
  · intro hcleared cell hcell
    exact hcleared _ hleast.1 cell hcell

theorem Opened.reveal_safe (hopened : Opened mines depth opened game)
    {cell : Fin rows × Fin cols} (hcell : cell ∉ mines) :
    ∃ after, reveal depth game cell = some (after, true) ∧
      Opened mines depth (opened ++ [cell]) after := by
  have hboard : game.board cell ≠ .mine := by
    rw [hopened.board]
    exact fun hmine => hcell ((content_shown cell).mp hmine)
  obtain ⟨visible, hreveal, hfilled⟩ :=
    reveal_filled game hboard hopened.shallow
  refine ⟨_, hreveal, hopened.board, ?_, ?_, ?_⟩
  · exact List.forall_mem_append.mpr ⟨hopened.safe,
      List.forall_mem_singleton.mpr hcell⟩
  · rw [List.map_append]
    exact hopened.filled.append (hopened.board ▸ hfilled)
  · exact lt_of_le_of_lt (FloodFill.unmarked_le hfilled.keeps) hopened.shallow

theorem Opened.reveal_mine (hopened : Opened mines depth opened game)
    {cell : Fin rows × Fin cols} (hcell : cell ∈ mines) :
    ∃ after, reveal depth game cell = some (after, false) ∧
      after.board = content mines := by
  refine ⟨_, if_pos ?_, hopened.board⟩
  rw [hopened.board]
  exact (content_shown cell).mpr hcell

/-! ## Whole games -/

theorem asked_cons (line : Line) (lines : List Line) :
    asked rows cols (line :: lines) =
      (line.cell.toList : List (Fin rows × Fin cols)) ++
        asked rows cols lines := by
  unfold asked
  rw [List.filterMap_cons]
  cases (line.cell : Option (Fin rows × Fin cols)) with
  | none => rfl
  | some cell => rfl

/-- A turn that goes on prints the board and leaves the rest to the loop. -/
theorem Played.cons {earlier : List (Fin rows × Fin cols)} {line : Line}
    {lines : List Line} {first : Fin rows × Fin cols → Option Content}
    {outputs outputs' : List (Output rows cols)} {ending : Ending}
    (hfirst : Shown mines earlier first)
    (hrest : Played mines (earlier ++ line.cell.toList) lines outputs ending)
    (hboards : boards outputs' = first :: boards outputs) :
    Played mines earlier (line :: lines) outputs' ending := by
  refine ⟨?_, ?_, ?_, ?_⟩
  · rw [asked_cons, ← List.append_assoc]
    exact hrest.won
  · rw [asked_cons, ← List.append_assoc]
    exact hrest.lost
  · intro hwaiting
    rw [hboards, List.length_cons, hrest.waiting hwaiting, List.length_cons]
  · intro turn shown hshown
    rw [hboards] at hshown ⊢
    cases turn with
    | zero =>
        cases hshown
        left
        rw [List.take_zero]
        exact (List.append_nil earlier).symm ▸ hfirst
    | succ turn =>
        rw [List.take_succ_cons, asked_cons, ← List.append_assoc,
          List.length_cons, Nat.add_right_cancel_iff]
        exact hrest.shown turn shown hshown

/-- The lines are used up. -/
theorem Opened.played_nil (hopened : Opened mines depth opened game)
    (hhidden : opened = [] ∨ ¬ Cleared mines opened) :
    Played mines opened [] [.board (print_board game)] .waiting := by
  have hnone : opened ++ asked rows cols [] = opened := List.append_nil opened
  refine ⟨?_, ?_, fun _ => rfl, ?_⟩
  · rw [hnone]
    exact iff_of_false nofun (Going.not_wins ⟨hopened.safe, hhidden⟩)
  · rw [hnone]
    exact iff_of_false nofun (not_loses hopened.safe)
  · intro turn shown hshown
    cases turn with
    | zero =>
        cases hshown
        exact Or.inl (hnone.symm ▸ hopened.shown)
    | succ turn => cases hshown

/-- A mine is hit. -/
theorem Opened.played_mine (hopened : Opened mines depth opened game)
    (hhidden : opened = [] ∨ ¬ Cleared mines opened) {line : Line}
    {lines : List Line} {mine : Fin rows × Fin cols}
    (hline : line.cell = some mine) (hmine : mine ∈ mines)
    {after : Game rows cols} (hafter : after.board = content mines)
    (text : String) :
    Played mines opened (line :: lines)
      [.board (print_board game),
        .board (print_board { after with visible := fun _ => true }),
        .text text] .lost := by
  have hgoing : Going mines opened := ⟨hopened.safe, hhidden⟩
  have hasked : opened ++ asked rows cols (line :: lines) =
      opened ++ mine :: asked rows cols lines := by
    rw [asked_cons, hline]
    rfl
  refine ⟨?_, ?_, nofun, ?_⟩
  · rw [hasked]
    exact iff_of_false nofun (hgoing.not_wins_mine hmine _)
  · rw [hasked]
    exact iff_of_true rfl (hgoing.loses hmine _)
  · intro turn shown hshown
    match turn, hshown with
    | 0, rfl =>
        exact Or.inl ((List.append_nil opened).symm ▸ hopened.shown)
    | 1, rfl =>
        refine Or.inr ⟨rfl, rfl, ?_⟩
        intro cell
        rw [print_board, if_pos rfl]
        exact congrArg some (congrFun hafter cell)

/-- The last cell without a mine becomes visible. -/
theorem Opened.played_last {line : Line} {lines : List Line}
    {cell : Fin rows × Fin cols} {after : Game rows cols}
    (hopened : Opened mines depth opened game)
    (hline : line.cell = some cell)
    (hafter : Opened mines depth (opened ++ [cell]) after)
    (hcleared : Cleared mines (opened ++ [cell])) (text : String) :
    Played mines opened (line :: lines)
      [.board (print_board game), .board (print_board after), .text text]
      .won := by
  have hne : opened ++ [cell] ≠ [] :=
    List.append_ne_nil_of_right_ne_nil _ (List.cons_ne_nil _ _)
  have hprefix : opened ++ [cell] <+:
      opened ++ asked rows cols (line :: lines) := by
    rw [asked_cons, hline]
    exact ⟨asked rows cols lines, List.append_assoc ..⟩
  refine ⟨?_, ?_, nofun, ?_⟩
  · exact iff_of_true rfl
      ⟨_, hne, hprefix, hafter.safe, hcleared⟩
  · exact iff_of_false nofun
      (not_loses_cleared hne hafter.safe hcleared hprefix)
  · intro turn shown hshown
    left
    match turn, hshown with
    | 0, rfl => exact (List.append_nil opened).symm ▸ hopened.shown
    | 1, rfl =>
        rw [List.take_succ_cons, asked_cons, hline]
        exact hafter.shown

/-- The lines one after the other, from a game that is not over. -/
theorem Opened.played (hopened : Opened mines depth opened game)
    (hhidden : opened = [] ∨ ¬ Cleared mines opened) (lines : List Line) :
    ∃ outputs ending, play depth game lines = some (outputs, ending) ∧
      Played mines opened lines outputs ending := by
  induction lines generalizing opened game with
  | nil => exact ⟨_, _, rfl, hopened.played_nil hhidden⟩
  | cons line lines ih =>
      have hignored (hnone : line.cell = (none : Option (Fin rows × Fin cols)))
          {outputs : List (Output rows cols)} {ending : Ending}
          (hplayed : Played mines opened lines outputs ending) :
          Played mines (opened ++ line.cell.toList) lines outputs ending := by
        rw [hnone, Option.toList_none, List.append_nil]
        exact hplayed
      cases line with
      | malformed =>
          obtain ⟨outputs, ending, hplay, hplayed⟩ := ih hopened hhidden
          unfold play
          dsimp only
          rw [hplay]
          exact ⟨_, _, rfl, .cons hopened.shown (hignored rfl hplayed) rfl⟩
      | numbers r c =>
          unfold play
          dsimp only
          cases hlocate : locate rows cols (r, c) with
          | none =>
              obtain ⟨outputs, ending, hplay, hplayed⟩ := ih hopened hhidden
              dsimp only
              rw [hplay]
              exact ⟨_, _, rfl,
                .cons hopened.shown (hignored hlocate hplayed) rfl⟩
          | some cell =>
              have hcell : (Line.numbers r c).cell = some cell := hlocate
              by_cases hmine : cell ∈ mines
              · obtain ⟨after, hreveal, hafter⟩ := hopened.reveal_mine hmine
                dsimp only
                rw [hreveal]
                exact ⟨_, _, rfl,
                  hopened.played_mine hhidden hcell hmine hafter _⟩
              · obtain ⟨after, hreveal, hafter⟩ := hopened.reveal_safe hmine
                dsimp only
                rw [hreveal]
                dsimp only
                split
                · rename_i hwin
                  exact ⟨_, _, rfl, hopened.played_last hcell hafter
                    (hafter.check_win_iff.mp hwin) _⟩
                · rename_i hgo
                  obtain ⟨outputs, ending, hplay, hplayed⟩ := ih hafter
                    (Or.inr fun hcleared =>
                      hgo (hafter.check_win_iff.mpr hcleared))
                  rw [hplay]
                  exact ⟨_, _, rfl,
                    .cons hopened.shown (hcell ▸ hplayed) rfl⟩

end Play

/-- Every game, whatever is drawn and whatever is entered: it has the number of
mines that was asked for, it is won and lost as it should be, and every board
shows the flood region of the cells asked for so far. -/
theorem minesweeper_play (num_mines depth : ℕ)
    (draws : List (Fin rows × Fin cols)) (lines : List Line)
    (hdepth : rows * cols < depth) :
    Drawn num_mines draws.toFinset (draw_mines num_mines ∅ draws) ∧
      ∀ mines, draw_mines num_mines ∅ draws = some mines →
        ∃ outputs ending,
          play depth (create mines) lines = some (outputs, ending) ∧
            Played mines [] lines outputs ending := by
  constructor
  · have hdrawn := draw_mines_drawn draws
      (Finset.card_empty.trans_le num_mines.zero_le)
    rwa [Finset.empty_union] at hdrawn
  · intro mines _
    exact (opened_create hdepth).played (Or.inl rfl) lines

/-- One mine in a corner; the opposite corner clears the board. -/
theorem minesweeper_play_corner :
    (play 10 (create ({(0, 0)} : Finset (Fin 3 × Fin 3)))
        [.malformed, .numbers 3 0, .numbers 2 2]).map Prod.snd = some .won ∧
      Drawn 1 [((0, 0) : Fin 3 × Fin 3), (0, 1)].toFinset
        (draw_mines 1 ∅ [((0, 0) : Fin 3 × Fin 3), (0, 1)]) ∧
      ∀ mines, draw_mines 1 ∅ [((0, 0) : Fin 3 × Fin 3), (0, 1)] = some mines →
        ∃ outputs ending,
          play 10 (create mines) [.malformed, .numbers 3 0, .numbers 2 2] =
              some (outputs, ending) ∧
            Played mines [] [.malformed, .numbers 3 0, .numbers 2 2] outputs
              ending :=
  ⟨by decide +kernel, minesweeper_play 1 10 [(0, 0), (0, 1)]
    [.malformed, .numbers 3 0, .numbers 2 2] (by decide)⟩

end Minesweeper
end TradingStudies
