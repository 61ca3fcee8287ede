import SudokuSolver.FSharp.Grid

/-!
# Deductions in F#

`Deduce.fs`: the sweep over all squares starts again from the first square
after every deduction, until a sweep deduces nothing.
-/

namespace SudokuSolver.FSharp

open Propagation

variable {s : ℕ}

/-- The square at the coordinates doesn't contain the possibility. -/
def squareDoesntHave (possibility : Value s) (grid : Grid s)
    (coordinates : Coord s) : Bool :=
  !Square.contains possibility (Grid.getSquare coordinates grid)

/-- The square must have the possibility, by the other squares of a line. -/
def mustBeValueByLine (possibility : Value s) (grid : Grid s)
    (index : Index s) (indexToCoordinates : Index s → Coord s) : Bool :=
  (lineCoordinates index indexToCoordinates).all
    (squareDoesntHave possibility grid)

/-- The square must have the possibility, by the other squares of its
sector. -/
def mustBeValueBySec (possibility : Value s) (grid : Grid s)
    (coordinates : Coord s) : Bool :=
  (secCoordinates coordinates).all (squareDoesntHave possibility grid)

/-- `mustBeValue` inside `deduceSquareValue`. -/
def mustBeValue (grid : Grid s) (coordinates : Coord s)
    (possibility : Value s) : Bool :=
  mustBeValueByLine possibility grid coordinates.1
      (fun index => (index, coordinates.2)) ||
    (mustBeValueByLine possibility grid coordinates.2
        (fun index => (coordinates.1, index)) ||
      mustBeValueBySec possibility grid coordinates)

/-- The value that the square must contain, or none if none could be inferred
or the square already has a value. -/
def deduceSquareValue (grid : Grid s) (coordinates : Coord s) :
    Option (Value s) :=
  let square := Grid.getSquare coordinates grid
  match !Square.isComplete square && Square.isPossible square with
  | false => none
  | true =>
      (Square.getPossibilities square).find? (mustBeValue grid coordinates)

theorem squareDoesntHave_iff {possibility : Value s} {grid : Grid s}
    {c : Coord s} :
    squareDoesntHave possibility grid c = true ↔
      possibility ∉ grid.candidates c := by
  simp [squareDoesntHave, Square.contains, Grid.candidates]

theorem mustBeValue_iff {grid : Grid s} {c : Coord s} {p : Value s} :
    mustBeValue grid c p = true ↔
      ∃ h : House s, c ∈ h.squares ∧
        ∀ d ∈ h.squares, d ≠ c → p ∉ grid.candidates d := by
  rw [exists_house_iff]
  simp only [mustBeValue, mustBeValueByLine, mustBeValueBySec,
    lineCoordinates, secCoordinates, Bool.or_eq_true, List.all_eq_true,
    List.mem_map, List.mem_filter, mem_indexes, true_and,
    mem_getSectorCoordinates, Bool.not_eq_eq_eq_not, Bool.not_true,
    decide_eq_false_iff_not, squareDoesntHave_iff, forall_exists_index,
    and_imp, forall_apply_eq_imp_iff₂, ne_eq]

/-- A square is open for deduction when it has at least two possibilities. -/
theorem open_iff {square : Square s} :
    (!Square.isComplete square && Square.isPossible square) = true ↔
      1 < square.card := by
  rw [Bool.and_eq_true, Bool.not_eq_true', ← Bool.not_eq_true,
    Square.isComplete_iff, Square.isPossible_iff, ← Finset.card_pos]
  omega

/-- `deduceSquareValue` finds a value exactly when a house forces one. -/
def deducer (s : ℕ) : Deducer (Grid.store s) (House.squares (s := s)) where
  deduce := deduceSquareValue
  deduce_some {g c p} h := by
    rw [deduceSquareValue] at h
    split at h
    · exact absurd h (by simp)
    · next hopen =>
      refine ⟨open_iff.mp hopen, ?_, mustBeValue_iff.mp (List.find?_some h)⟩
      exact Square.mem_getPossibilities.mp (List.mem_of_find?_eq_some h)
  deduce_none {g c} h p := by
    rintro ⟨hcard, hp, hforced⟩
    rw [deduceSquareValue] at h
    split at h
    · next hclosed =>
      have hopen := open_iff.mpr hcard
      exact absurd (hclosed.symm.trans hopen) (by simp)
    · have hnot := List.find?_eq_none.mp h p
        (Square.mem_getPossibilities.mpr hp)
      exact hnot (mustBeValue_iff.mpr hforced)

/-- `singleDeductionSweep`: the grid after the first deduction that can be
made, or none. -/
def singleDeductionSweep : List (Coord s) → Grid s → Option (Grid s)
  | [], _ => none
  | coord :: tail, grid =>
      match deduceSquareValue grid coord with
      | none => singleDeductionSweep tail grid
      | some value => some (setSquareAt value coord grid)

theorem singleDeductionSweep_some {coordinates : List (Coord s)}
    {grid newGrid : Grid s}
    (h : singleDeductionSweep coordinates grid = some newGrid) :
    ∃ c value, deduceSquareValue grid c = some value ∧
      newGrid = setSquareAt value c grid := by
  induction coordinates with
  | nil => exact absurd h (by simp [singleDeductionSweep])
  | cons coord tail ih =>
      rw [singleDeductionSweep] at h
      cases hvalue : deduceSquareValue grid coord with
      | none =>
          rw [hvalue] at h
          exact ih h
      | some value =>
          rw [hvalue] at h
          exact ⟨coord, value, hvalue, (Option.some.inj h).symm⟩

theorem singleDeductionSweep_none {coordinates : List (Coord s)}
    {grid : Grid s} (h : singleDeductionSweep coordinates grid = none) :
    ∀ c ∈ coordinates, deduceSquareValue grid c = none := by
  induction coordinates with
  | nil => simp
  | cons coord tail ih =>
      rw [singleDeductionSweep] at h
      cases hvalue : deduceSquareValue grid coord with
      | none =>
          rw [hvalue] at h
          intro c hc
          rcases List.mem_cons.mp hc with rfl | hc
          · exact hvalue
          · exact ih h c hc
      | some value =>
          rw [hvalue] at h
          exact absurd h (by simp)

/-- A deduction leaves fewer possibilities in the grid. -/
theorem size_lt_of_sweep {grid newGrid : Grid s}
    (h : singleDeductionSweep allCoords grid = some newGrid) :
    size newGrid.candidates < size grid.candidates := by
  obtain ⟨c, value, hvalue, rfl⟩ := singleDeductionSweep_some h
  rw [setSquareAt_eq]
  exact (Grid.store s).size_setSquare_lt (visitOrder s)
    ((deducer s).deduce_some hvalue)

/-- A grid which possibly is a more complete version. -/
def makeDeductions (grid : Grid s) : Grid s :=
  match _hsweep : singleDeductionSweep allCoords grid with
  | none => grid
  | some newGrid => makeDeductions newGrid
termination_by size grid.candidates
decreasing_by exact size_lt_of_sweep _hsweep

theorem deduces_makeDeductions (grid : Grid s) :
    Deduces Peer House.squares grid.candidates
      (makeDeductions grid).candidates := by
  fun_induction makeDeductions grid with
  | case1 => exact Relation.ReflTransGen.refl
  | case2 grid newGrid hsweep ih =>
      obtain ⟨c, value, hvalue, rfl⟩ := singleDeductionSweep_some hsweep
      rw [setSquareAt_eq] at ih ⊢
      exact ((Grid.store s).deduces_setSquare (visitOrder s)
        ((deducer s).deduce_some hvalue)).trans ih

theorem closed_makeDeductions {grid : Grid s}
    (hclosed : Closed Peer grid.candidates) :
    Closed Peer (makeDeductions grid).candidates := by
  fun_induction makeDeductions grid with
  | case1 => exact hclosed
  | case2 grid newGrid hsweep ih =>
      obtain ⟨c, value, hvalue, rfl⟩ := singleDeductionSweep_some hsweep
      rw [setSquareAt_eq] at ih ⊢
      exact ih ((Grid.store s).closed_setSquare (visitOrder s) value c hclosed)

theorem exhausted_makeDeductions (grid : Grid s) :
    Exhausted House.squares (makeDeductions grid).candidates := by
  fun_induction makeDeductions grid with
  | case1 grid hsweep =>
      intro c
      exact (deducer s).deduce_none
        (singleDeductionSweep_none hsweep c (mem_allCoords c))
  | case2 _ _ _ ih => exact ih

end SudokuSolver.FSharp
