import Mathlib.Data.List.MinMax
import SudokuSolver.FSharp.Deduce
import SudokuSolver.Support.Search

/-!
# Solving in F#

`Split.fs`, `Solve.fs` and the empty grid of `Factory.fs`.  The sequence of
solutions is the list of everything the lazy sequence yields; a result that is
missing stands for the exception `List.minBy` raises on an empty list.
-/

namespace SudokuSolver.FSharp

open Propagation

variable {s : ℕ}

/-- A grid of the given sector size with all possibilities. -/
def emptyGrid (sectorSize : ℕ) : Except String (Grid sectorSize) :=
  if sectorSize < 1 then
    .error "Cannot create a grid with a sector size less than 1"
  else
    let square := Square.withPossibilities (oneTo sectorSize)
    .ok ⟨Vector.replicate _ (Vector.replicate _ square)⟩

theorem emptyGrid_ok (hs : 1 ≤ s) :
    ∃ grid, emptyGrid s = .ok grid ∧
      grid.candidates = fun _ => Finset.univ := by
  rw [emptyGrid, if_neg (by omega)]
  refine ⟨_, rfl, funext fun c => ?_⟩
  rw [Grid.candidates, Grid.getSquare, Table.entry_replicate]
  ext v
  simp [Square.withPossibilities]

/-- The coordinates of the square to split, with its number of
possibilities. -/
def coordinatesToSplit (grid : Grid s) : Option (ℕ × Coord s) :=
  let withPossibilityCount := fun coordinates : Coord s =>
    (Square.countPossibilities (Grid.getSquare coordinates grid), coordinates)
  ((allCoords.map withPossibilityCount).filter fun p =>
    decide (1 < p.1)).argmin Prod.fst

/-- A list of versions of the grid, each with the chosen square containing one
of its possibilities. -/
def split (grid : Grid s) : Option (List (Grid s)) :=
  (coordinatesToSplit grid).map fun p =>
    (Square.getPossibilities (Grid.getSquare p.2 grid)).map fun value =>
      setSquareAt value p.2 grid

theorem coordinatesToSplit_some {grid : Grid s} {p : ℕ × Coord s}
    (h : coordinatesToSplit grid = some p) :
    1 < (grid.candidates p.2).card := by
  have hmem := List.argmin_mem h
  obtain ⟨hmem, hcount⟩ := List.mem_filter.mp hmem
  obtain ⟨c, -, rfl⟩ := List.mem_map.mp hmem
  exact of_decide_eq_true hcount

/-- A possible grid that is not complete has a square to split. -/
theorem coordinatesToSplit_isSome {grid : Grid s}
    (hlive : Live grid.candidates) (hopen : ¬Decided grid.candidates) :
    ∃ p, coordinatesToSplit grid = some p := by
  obtain ⟨c, hc⟩ := not_forall.mp hopen
  have hcount : 1 < (grid.candidates c).card := by
    have hpos := Finset.card_pos.mpr (hlive c)
    omega
  rw [← Option.ne_none_iff_exists', coordinatesToSplit, Ne,
    List.argmin_eq_none]
  intro hnil
  have hmem : ((grid.candidates c).card, c) ∈
      (allCoords.map fun coordinates : Coord s =>
        (Square.countPossibilities (Grid.getSquare coordinates grid),
          coordinates)).filter fun p => decide (1 < p.1) :=
    List.mem_filter.mpr ⟨List.mem_map.mpr ⟨c, mem_allCoords c, rfl⟩,
      decide_eq_true hcount⟩
  rw [hnil] at hmem
  exact absurd hmem List.not_mem_nil

/-- The versions of a grid decide a square in all possible ways. -/
theorem branches_split {grid : Grid s} {splits : List (Grid s)}
    (h : split grid = some splits) :
    Branches Peer Grid.candidates grid.candidates splits := by
  obtain ⟨p, hp, rfl⟩ := Option.map_eq_some_iff.mp h
  refine ⟨p.2, Square.getPossibilities (Grid.getSquare p.2 grid),
    coordinatesToSplit_some hp, Square.nodup_getPossibilities _,
    fun v => Square.mem_getPossibilities, ?_⟩
  rw [List.forall₂_map_right_iff, List.forall₂_same]
  intro value _
  rw [setSquareAt_eq]
  exact (Grid.store s).decides_setSquare (visitOrder s) value p.2 grid

/-- The search of `Solve.fs`: all incomplete grids are kept, in order. -/
def solver (s : ℕ) :
    Solver Unit (Grid s) (Peer (s := s)) House.squares
      (Finset.univ : Finset (Value s)) where
  candidates := Grid.candidates
  refine := makeDeductions
  isComplete := Grid.isComplete
  isPossible := Grid.isPossible
  split _ grid := (split grid).map fun splits => ((), splits)
  keep _ := true
  arrange := id
  deduces_refine := deduces_makeDeductions
  closed_refine _ := closed_makeDeductions
  isComplete_iff _ _ := Grid.isComplete_iff
  isPossible_iff _ := Grid.isPossible_iff
  branches_split _ _ _ _ h := by
    obtain ⟨splits, hsplits, heq⟩ := Option.map_eq_some_iff.mp h
    cases heq
    exact branches_split hsplits
  split_isSome _ grid hlive hopen := by
    obtain ⟨p, hp⟩ := coordinatesToSplit_isSome hlive hopen
    rw [split, hp]
    exact ⟨_, _, rfl⟩
  keep_of_live _ _ := rfl
  arrange_perm l := List.Perm.refl l

/-- `solutions'` inside `solutions`: all that is yielded for the grids. -/
def solutions' (grids : List (Grid s)) : Option (List (Grid s)) :=
  ((solver s).run () grids).map fun r => r.1.map Prod.fst

/-- A sequence that finds solutions to a grid. -/
def solutions (grid : Grid s) : Option (List (Grid s)) :=
  solutions' [grid]

theorem solutions'_nil : solutions' (s := s) [] = some [] := by
  rw [solutions', Solver.run_nil]
  rfl

/-- The recursion of `solutions'` as the source writes it. -/
theorem solutions'_cons (grid : Grid s) (tail : List (Grid s)) :
    solutions' (grid :: tail) =
      let grid := makeDeductions grid
      if grid.isComplete then (solutions' tail).map fun rest => grid :: rest
      else if grid.isPossible then
        (split grid).bind fun splits =>
          let (complete, incomplete) := splits.partition Grid.isComplete
          (solutions' (incomplete ++ tail)).map fun rest => complete ++ rest
      else solutions' tail := by
  by_cases hcomplete : (makeDeductions grid).isComplete = true
  · rw [if_pos hcomplete, solutions', Solver.run_cons_complete hcomplete,
      solutions', Option.map_map, Option.map_map]
    rfl
  · rw [if_neg hcomplete]
    by_cases hpossible : (makeDeductions grid).isPossible = true
    · have hsplit : (solver s).split () ((solver s).refine grid) =
          (split (makeDeductions grid)).map fun splits => ((), splits) := rfl
      rw [if_pos hpossible, solutions',
        Solver.run_cons_split hcomplete hpossible, hsplit]
      cases split (makeDeductions grid) with
      | none => rfl
      | some splits =>
          have hpushed : (solver s).pushed splits =
              (splits.partition Grid.isComplete).2 := by
            rw [List.partition_eq_filter_filter]
            simp [Solver.pushed, solver, Function.comp_def]
          simp only [Option.map_some, Option.bind_some, Option.map_map, hpushed,
            solutions', List.partition_eq_filter_filter]
          refine congrArg₂ Option.map (funext fun r => ?_) rfl
          simp [solver, Function.comp_def]
    · rw [if_neg hpossible, solutions',
        Solver.run_cons_impossible hcomplete hpossible, solutions']

/-- The sequence of solutions to a grid shows every completion once. -/
theorem enumerates_solutions {grid : Grid s}
    (hclosed : Closed Peer grid.candidates) :
    ∃ grids, solutions grid = some grids ∧
      Enumerates (grids.map Grid.candidates) fun S =>
        Fills Peer House.squares Finset.univ S ∧ Admits grid.candidates S := by
  obtain ⟨found, _, hrun, henum⟩ := (solver s).enumerates_run
    (fills_of_distinct (card_values s)) () hclosed (within_univ _)
  refine ⟨found.map Prod.fst, ?_, ?_⟩
  · rw [solutions, solutions', hrun]
    rfl
  · rw [List.map_map]
    exact henum

/-! ## Grids given by clues -/

/-- `setSquare` folded over a list of clues, starting from the empty grid. -/
def clueGrid (clues : List (Coord s × Value s)) : Except String (Grid s) := do
  let grid ← emptyGrid s
  clues.foldlM (fun grid clue =>
    setSquare clue.2.1 (clue.1.1.1, clue.1.2.1) grid) grid

theorem foldlM_setSquare (clues : List (Coord s × Value s)) (grid : Grid s) :
    clues.foldlM (fun grid clue =>
        setSquare clue.2.1 (clue.1.1.1, clue.1.2.1) grid) grid =
      .ok ((Grid.store s).setSquares (visitOrder s) clues grid) := by
  induction clues generalizing grid with
  | nil => rfl
  | cons clue clues ih =>
      rw [List.foldlM_cons, setSquare_ok, setSquareAt_eq]
      exact ih _

/-- All clue grids begin with the same empty grid. -/
theorem exists_clueGrid_eq (hs : 1 ≤ s) :
    ∃ empty : Grid s, empty.candidates = (fun _ => Finset.univ) ∧
      ∀ clues, clueGrid clues =
        .ok ((Grid.store s).setSquares (visitOrder s) clues empty) := by
  obtain ⟨empty, hempty, hfull⟩ := emptyGrid_ok hs
  refine ⟨empty, hfull, fun clues => ?_⟩
  rw [clueGrid, hempty]
  exact foldlM_setSquare clues empty

theorem clueGrid_ok (hs : 1 ≤ s) (clues : List (Coord s × Value s)) :
    ∃ empty : Grid s, empty.candidates = (fun _ => Finset.univ) ∧
      clueGrid clues =
        .ok ((Grid.store s).setSquares (visitOrder s) clues empty) := by
  obtain ⟨empty, hfull, hclues⟩ := exists_clueGrid_eq hs
  exact ⟨empty, hfull, hclues clues⟩

/-- The solutions to a puzzle are its completions, each of them once. -/
theorem solutions_clueGrid (hs : 1 ≤ s) (clues : List (Coord s × Value s))
    (hnodup : (clues.map Prod.fst).Nodup) :
    ∃ grid grids, clueGrid clues = .ok grid ∧
      solutions grid = some grids ∧
      Enumerates (grids.map Grid.candidates)
        (Completes Finset.univ clues) := by
  obtain ⟨empty, hfull, hgrid⟩ := clueGrid_ok hs clues
  obtain ⟨grids, hgrids, henum⟩ := enumerates_solutions
    (closed_puzzle (Grid.store s) (visitOrder s) clues (card_values s) hfull)
  refine ⟨_, grids, hgrid, hgrids, ?_⟩
  convert henum using 1
  funext S
  exact propext (fills_puzzle_iff (Grid.store s) (visitOrder s)
    (card_values s) (fun clue _ => Finset.mem_univ clue.2) hnodup hfull).symm

/-- Two clues in one row that contradict each other. -/
theorem solutions_clueGrid_contradictory :
    ∃ grid grids, clueGrid (s := 2)
        [((0, 0), ⟨1, by decide⟩), ((3, 0), ⟨1, by decide⟩)] = .ok grid ∧
      solutions grid = some grids ∧
      Enumerates (grids.map Grid.candidates) (Completes Finset.univ
        [((0, 0), ⟨1, by decide⟩), ((3, 0), ⟨1, by decide⟩)]) :=
  solutions_clueGrid (by decide) _ (by decide)

/-! ## The order of clues -/

/-- Every value is still a possibility of its square when it is set. -/
def SetsPossibilities (clues : List (Coord s × Value s)) : Prop :=
  ∀ before clue after, clues = before ++ clue :: after →
    ∃ grid, clueGrid before = .ok grid ∧
      Square.contains clue.2 (Grid.getSquare clue.1 grid) = true

theorem setsPossibilities_of_possible (hs : 1 ≤ s)
    {clues : List (Coord s × Value s)} (hnodup : (clues.map Prod.fst).Nodup)
    {grid : Grid s} (hgrid : clueGrid clues = .ok grid)
    (hpossible : grid.isPossible = true) : SetsPossibilities clues := by
  rintro before clue after rfl
  obtain ⟨empty, hfull, hclues⟩ := exists_clueGrid_eq hs
  rw [hclues] at hgrid
  cases hgrid
  refine ⟨_, hclues before, decide_eq_true ?_⟩
  have hclosed : Closed Peer empty.candidates := by
    rw [hfull]
    exact closed_full (card_values s)
  exact (Grid.store s).mem_setSquares_before (visitOrder s) hnodup hclosed hfull
    (fun clue _ => Finset.mem_univ clue.2) (Grid.isPossible_iff.mp hpossible)

/-- A completion keeps the grid of its clues possible. -/
theorem isPossible_of_completes (hs : 1 ≤ s)
    {clues : List (Coord s × Value s)} {S : Coord s → Value s}
    (hS : Completes Finset.univ clues S) :
    ∃ grid, clueGrid clues = .ok grid ∧ grid.isPossible = true := by
  obtain ⟨empty, hfull, hclues⟩ := clueGrid_ok hs clues
  have hadm : Admits ((Grid.store s).candidates empty) S := by
    intro c
    rw [show (Grid.store s).candidates empty = _ from hfull]
    exact Finset.mem_univ _
  exact ⟨_, hclues, Grid.isPossible_iff.mpr ((Grid.store s).admits_setSquares
    (visitOrder s) hS.1.fills.distinct hadm hS.2).live⟩

/-- Calls at different squares that leave a possibility in every square can be
made in any order: every value is still a possibility when it is set, and the
same possibilities are left. -/
theorem clueGrid_perm (hs : 1 ≤ s) {clues clues' : List (Coord s × Value s)}
    (hperm : clues.Perm clues') (hnodup : (clues.map Prod.fst).Nodup)
    {grid : Grid s} (hgrid : clueGrid clues = .ok grid)
    (hpossible : grid.isPossible = true) :
    SetsPossibilities clues' ∧
      ∃ grid', clueGrid clues' = .ok grid' ∧ grid'.isPossible = true ∧
        ∀ c, Grid.getSquare c grid' = Grid.getSquare c grid := by
  obtain ⟨empty, hfull, hclues⟩ := exists_clueGrid_eq hs
  have hclosed : Closed Peer empty.candidates := by
    rw [hfull]
    exact closed_full (card_values s)
  rw [hclues] at hgrid
  cases hgrid
  have hlive := Grid.isPossible_iff.mp hpossible
  have hsame := (Grid.store s).setSquares_perm (visitOrder s) hperm hnodup
    hclosed hfull (fun clue _ => Finset.mem_univ clue.2) hlive
  have hpossible' : Grid.isPossible
      ((Grid.store s).setSquares (visitOrder s) clues' empty) = true := by
    refine Grid.isPossible_iff.mpr fun c => ?_
    have hc : Grid.candidates ((Grid.store s).setSquares (visitOrder s) clues'
        empty) c = _ := congrFun hsame c
    rw [hc]
    exact hlive c
  refine ⟨?_, _, hclues clues', hpossible', fun c => congrFun hsame c⟩
  exact setsPossibilities_of_possible hs
    ((hperm.map Prod.fst).nodup_iff.mp hnodup) (hclues clues') hpossible'

/-- Two clues in one row. -/
theorem clueGrid_perm_pair :
    SetsPossibilities (s := 2)
      [((3, 0), ⟨4, by decide⟩), ((0, 0), ⟨1, by decide⟩)] := by
  have hcompletes : Completes Finset.univ
      [((0, 0), ⟨1, by decide⟩), ((3, 0), ⟨4, by decide⟩)] smallCompletion := by
    refine ⟨completes_smallCompletion.1, ?_⟩
    rw [agrees_cons, agrees_cons]
    exact ⟨rfl, rfl, agrees_nil _⟩
  obtain ⟨grid, hgrid, hpossible⟩ :=
    isPossible_of_completes (by decide) hcompletes
  exact (clueGrid_perm (by decide) (List.Perm.swap _ _ _) (by decide) hgrid
    hpossible).1

end SudokuSolver.FSharp
