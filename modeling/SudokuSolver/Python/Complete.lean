import SudokuSolver.Python.Solutions

/-!
# Complete grids in Python

The docstring of `isComplete` says that a complete grid has to be a valid
sudoku.  That holds however the grid has come about: whatever values its squares
have been set to, and in whatever order.
-/

namespace SudokuSolver.Python

open Propagation

variable {s : ℕ}

/-- A square constructed from another one. -/
def Square.copy (square : Square) : Square where
  possibilities := square.possibilities
  zero_alone := square.zero_alone

/-- A grid constructed from another one. -/
def Grid.copy (grid : Grid s) : Grid s where
  rows := grid.rows.map fun row => row.map Square.copy
  sectorDimension_pos := grid.sectorDimension_pos

theorem Grid.candidates_copy (grid : Grid s) :
    grid.copy.candidates = grid.candidates := by
  funext c
  simp [candidates, square, copy, Table.entry, Square.copy]

/-- The states of grids that operations which raise no error lead to. -/
inductive Reached : Grid s → Prop
  | newGrid {grid : Grid s} (h : newGrid s = .ok grid) : Reached grid
  | copy {grid : Grid s} (h : Reached grid) : Reached grid.copy
  | setSquareValue {grid next : Grid s} (h : Reached grid)
      (colIndex rowIndex value : ℤ)
      (hnext : setSquareValue grid colIndex rowIndex value = .ok next) :
      Reached next
  | refine {grid : Grid s} (h : Reached grid) : Reached grid.refine
  | split {grid next : Grid s} {splits : List (Grid s)} (h : Reached grid)
      (hsplits : grid.split = .ok splits) (hnext : next ∈ splits) :
      Reached next

theorem closed_setSquareValueAt {grid : Grid s} (c : Coord s) (value : ℤ)
    (hclosed : Closed Peer grid.candidates) :
    Closed Peer (setSquareValueAt grid c value).candidates := by
  rw [setSquareValueAt_eq]
  exact (Grid.store s).closed_setSquare (visitOrder s) value c hclosed

/-- The value of a square is never a possibility of a related one. -/
theorem Reached.closed {grid : Grid s} (h : Reached grid) :
    Closed Peer grid.candidates := by
  induction h with
  | @newGrid grid h =>
      have hs : 1 ≤ s := grid.sectorDimension_pos
      obtain ⟨new, hnew, hfull⟩ := newGrid_ok hs
      rw [h] at hnew
      cases hnew
      rw [hfull]
      exact closed_full (card_digits s)
  | copy _ ih =>
      rw [Grid.candidates_copy]
      exact ih
  | setSquareValue _ colIndex rowIndex value hnext ih =>
      rw [Python.setSquareValue] at hnext
      split at hnext
      · cases hnext
      · cases hnext
        exact closed_setSquareValueAt _ value ih
  | refine _ ih => exact Grid.closed_refine ih
  | @split grid next splits _ hsplits hnext ih =>
      rw [Grid.split] at hsplits
      split at hsplits
      · cases hsplits
      · next c hmin =>
        cases hsplits
        obtain ⟨possibility, -, rfl⟩ := List.mem_map.mp hnext
        exact closed_setSquareValueAt c possibility ih

/-! ## Setting a whole completion -/

theorem Reached.setSquares {grid : Grid s} (h : Reached grid)
    (clues : List (Coord s × ℤ)) :
    Reached ((Grid.store s).setSquares (visitOrder s) clues grid) := by
  induction clues generalizing grid with
  | nil => exact h
  | cons clue clues ih =>
      have hset := setSquareValue_ok grid clue.1 clue.2
      rw [setSquareValueAt_eq] at hset
      exact ih (h.setSquareValue _ _ _ hset)

/-- Setting all squares to the values of a completion makes a grid complete. -/
theorem exists_complete (hs : 1 ≤ s) {S : Coord s → ℤ}
    (hS : IsCompletion (digits s) S) :
    ∃ grid, Reached grid ∧ grid.isComplete = true ∧
      grid.candidates = pointwise S := by
  obtain ⟨new, hnew, hfull⟩ := newGrid_ok hs
  have hnodup : (((rowMajor s).map fun c => (c, S c)).map Prod.fst).Nodup := by
    rw [List.map_map]
    simpa [Function.comp_def] using nodup_rowMajor s
  have hagrees : Agrees ((rowMajor s).map fun c => (c, S c)) S := by
    intro clue hclue
    obtain ⟨c, -, rfl⟩ := List.mem_map.mp hclue
    rfl
  have hadm := (Grid.store s).admits_setSquares (visitOrder s) (g := new)
    hS.fills.distinct (fun c => by
      rw [show (Grid.store s).candidates new = _ from hfull]
      exact hS.mem_digits c) hagrees
  have hreached := (Reached.newGrid hnew).setSquares
    ((rowMajor s).map fun c => (c, S c))
  generalize hgrid : (Grid.store s).setSquares (visitOrder s)
    ((rowMajor s).map fun c => (c, S c)) new = grid at hadm hreached
  have hall : grid.candidates = pointwise S := by
    funext c
    have hmem : (c, S c) ∈ (rowMajor s).map fun c => (c, S c) :=
      List.mem_map.mpr ⟨c, mem_rowMajor c, rfl⟩
    have hsub := (Grid.store s).setSquares_subset_of_mem (visitOrder s) new
      hnodup hmem
    rw [hgrid] at hsub
    exact hadm.live.eq_singleton hsub
  refine ⟨grid, hreached, Grid.isComplete_iff.mpr fun c => ?_, hall⟩
  have hdigit := hS.mem_digits c
  rw [digits, mem_setRange] at hdigit
  exact ⟨S c, congrFun hall c, by omega⟩

/-- In a complete grid no value occurs twice in a row, a column or a sector. -/
theorem isComplete_valid {grid : Grid s} (h : Reached grid)
    (hcomplete : grid.isComplete = true) (house : House s) {c d : Coord s}
    (hc : c ∈ house.squares) (hd : d ∈ house.squares) (hne : c ≠ d) :
    ∃ v w, (grid.square c).getValue = some v ∧
      (grid.square d).getValue = some w ∧ v ≠ w := by
  obtain ⟨v, hv, -⟩ := Grid.isComplete_iff.mp hcomplete c
  obtain ⟨w, hw, -⟩ := Grid.isComplete_iff.mp hcomplete d
  refine ⟨v, w, Square.getValue_eq_some_iff.mpr hv,
    Square.getValue_eq_some_iff.mpr hw, ?_⟩
  rintro rfl
  have hpeer : Peer c d := peer_iff_exists_house.mpr ⟨hne, house, hc, hd⟩
  apply h.closed c v hv d hpeer
  rw [hw]
  exact Finset.mem_singleton_self v

/-- A completed grid of sector dimension two. -/
theorem isComplete_valid_small :
    ∃ grid : Grid 2, Reached grid ∧ grid.isComplete = true ∧
      ∃ v w, (grid.square (0, 0)).getValue = some v ∧
        (grid.square (3, 0)).getValue = some w ∧ v ≠ w := by
  have hS : IsCompletion (digits 2) fun c => ((smallCompletion c).1 : ℤ) := by
    refine isCompletion_of_distinct (card_digits 2) ?_ ?_
    · decide +kernel
    · decide +kernel
  obtain ⟨grid, hreached, hcomplete, -⟩ := exists_complete (by decide) hS
  exact ⟨grid, hreached, hcomplete,
    isComplete_valid hreached hcomplete (House.row 0) (by simp) (by simp)
      (by decide)⟩

end SudokuSolver.Python
