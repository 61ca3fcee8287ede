import SudokuSolver.Lines
import SudokuSolver.Python.Grid

/-!
# Parsing lines in Python

`parse.py`.  The only check of a character is that it is a digit: no routine
compares its value with the dimension of the grid.
-/

namespace SudokuSolver.Python

variable {s : ℕ}

namespace Parse

/-- The body of the loop of `line`, for one character and its indexes. -/
def setCharacter (newGrid : Grid s) (item : Char × Coord s) :
    Except String (Grid s) :=
  let (character, colIndex, rowIndex) := item
  if character ≠ '.' ∧ character ≠ '0' then
    match digitValue character with
    | none => .error "invalid literal for int() with base 10"
    | some value => setSquareValue newGrid colIndex.1 rowIndex.1 value
  else .ok newGrid

/-- The indexes that the characters of a line are for. -/
def indexes (s : ℕ) : List (Coord s) :=
  (List.finRange (s * s)).flatMap fun rowIndex =>
    (List.finRange (s * s)).map fun colIndex => (colIndex, rowIndex)

/-- A grid with square values set from a line of square values. -/
def line (line : String) : Except String ((s : ℕ) × Grid s) :=
  match fourthRoot line.length with
  | none =>
      .error ("Cannot create a grid from a line of " ++
        toString line.length ++ " characters")
  | some sectorDimension =>
      if sectorDimension > 3 then
        .error ("Cannot parse a line which would" ++
          " have a sector dimension of " ++ toString sectorDimension ++ ".0")
      else do
        let grid ← newGrid sectorDimension
        let grid ← (line.toList.zip (indexes sectorDimension)).foldlM
          setCharacter grid
        return ⟨sectorDimension, grid⟩

theorem indexes_eq (s : ℕ) : indexes s = rowMajor s :=
  (rowMajor_eq_flatMap s).symm

theorem line_eq_ok_iff {characters : String} {grid : Grid s} :
    line characters = .ok ⟨s, grid⟩ ↔
      characters.length = s ^ 4 ∧ s ≤ 3 ∧ ∃ new, newGrid s = .ok new ∧
        (characters.toList.zip (indexes s)).foldlM setCharacter new =
          .ok grid := parse_eq_ok_iff

/-- Every digit is set, whatever the dimension of the grid. -/
theorem setCharacter_eq_ok_iff {grid grid' : Grid s} {character : Char}
    {c : Coord s} :
    setCharacter grid (character, c) = .ok grid' ↔
      Reads 9 (fun v => setSquareValueAt grid c (v.1 : ℤ)) character
        grid grid' := by
  apply eq_ok_iff_reads
  · intro hskip
    exact if_neg (by tauto)
  · intro hskip hdigit
    rw [setCharacter, hdigit]
    exact ⟨_, if_pos (by tauto)⟩
  · intro hskip v hdigit
    rw [setCharacter, hdigit]
    exact (if_pos (by tauto)).trans (setSquareValue_ok grid c _)
  · intro _ v hdigit hv
    exact absurd (le_nine_of_digitValue hdigit) (not_le.mpr hv)

end Parse

end SudokuSolver.Python
