import SudokuSolver.FSharp.Solve
import SudokuSolver.Lines

/-!
# Lines in F#

`toLine` of `Print.fs` and `fromLine` of `Factory.fs`.  A line shows only the
decided squares.  Reading it back nevertheless restores the undecided squares
too, since everything they have lost is owed to a decided peer.
-/

namespace SudokuSolver.FSharp

open Propagation

variable {s : ℕ}

/-- A string representing the value of a square. -/
def Square.toString (square : Square s) : String :=
  match Square.getValue square with
  | none => "."
  | some value => ToString.toString value.1

/-- A string where each character represents a square value listed left to
right, top to bottom. -/
def toLine (grid : Grid s) : Except String String :=
  if s > 3 then
    .error "Cannot convert a grid with sector size greater than 3 to a line"
  else
    .ok (String.join
      ((grid.rows.toList.flatMap Vector.toList).map Square.toString))

/-- `setSquare` inside `fromLine`. -/
def setSquareFromChar (grid : Grid s) (item : Char × Coord s) :
    Except String (Grid s) :=
  match item with
  | ('.', _) => .ok grid
  | ('0', _) => .ok grid
  | (char, coord) =>
      match digitValue char with
      | none => .error ("Could not parse " ++ char.toString)
      | some value => setSquare value (coord.1.1, coord.2.1) grid

/-- A grid with square values set from a line of square values. -/
def fromLine (line : String) : Except String ((s : ℕ) × Grid s) :=
  match fourthRoot line.length with
  | none =>
      .error ("Cannot make a grid with a line of length " ++
        ToString.toString line.length)
  | some sectorSize =>
      if sectorSize > 3 then
        .error ("Cannot parse a line which would create a " ++
          "grid with sector dimension 3 or greater")
      else do
        let grid ← emptyGrid sectorSize
        let grid ← (line.toList.zip allCoords).foldlM setSquareFromChar grid
        return ⟨sectorSize, grid⟩

/-- Only digits up to the dimension are set. -/
theorem setSquareFromChar_eq_ok_iff {grid newGrid : Grid s} {char : Char}
    {coord : Coord s} :
    setSquareFromChar grid (char, coord) = .ok newGrid ↔
      Reads (s * s) (fun value => setSquareAt value coord grid) char grid
        newGrid := by
  have hread : ¬(char = '.' ∨ char = '0') →
      setSquareFromChar grid (char, coord) =
        match digitValue char with
        | none => .error ("Could not parse " ++ char.toString)
        | some value => setSquare value (coord.1.1, coord.2.1) grid := by
    intro hskip
    rw [not_or] at hskip
    exact setSquareFromChar.eq_3 grid char coord hskip.1 hskip.2
  apply eq_ok_iff_reads
  · rintro (rfl | rfl) <;> rfl
  · intro hskip hdigit
    rw [hread hskip, hdigit]
    exact ⟨_, rfl⟩
  · intro hskip value hdigit
    rw [hread hskip, hdigit]
    exact setSquare_ok value coord grid
  · intro hskip value hdigit hlarge
    rw [hread hskip, hdigit]
    exact ⟨_, dif_pos (Or.inr (by exact_mod_cast hlarge))⟩

theorem fromLine_eq_ok_iff {line : String} {grid : Grid s} :
    fromLine line = .ok ⟨s, grid⟩ ↔
      line.length = s ^ 4 ∧ s ≤ 3 ∧ ∃ empty, emptyGrid s = .ok empty ∧
        (line.toList.zip allCoords).foldlM setSquareFromChar empty =
          .ok grid := parse_eq_ok_iff

/-! ## Grids reached by deductions -/

/-- The grids reached from the empty grid by setting squares to values that
are still possible there. -/
inductive Reached : Grid s → Prop
  | emptyGrid {grid : Grid s} : emptyGrid s = .ok grid → Reached grid
  | setSquare {grid newGrid : Grid s} {value : Value s}
      {coordinates : Coord s} : Reached grid →
      Square.contains value (Grid.getSquare coordinates grid) = true →
      setSquare value.1 (coordinates.1.1, coordinates.2.1) grid =
        .ok newGrid → Reached newGrid

theorem Reached.setSquareAt {grid : Grid s} (h : Reached grid)
    {value : Value s} {coordinates : Coord s}
    (hvalue : value ∈ grid.candidates coordinates) :
    Reached (setSquareAt value coordinates grid) :=
  h.setSquare (decide_eq_true hvalue) (setSquare_ok value coordinates grid)

/-- Deductions only set squares to possible values. -/
theorem Reached.makeDeductions {grid : Grid s} (h : Reached grid) :
    Reached (makeDeductions grid) := by
  fun_induction FSharp.makeDeductions grid with
  | case1 => exact h
  | case2 grid newGrid hsweep ih =>
      obtain ⟨c, value, hvalue, rfl⟩ := singleDeductionSweep_some hsweep
      exact ih (h.setSquareAt ((deducer s).deduce_some hvalue).2.1)

/-- So do the splits of a grid. -/
theorem Reached.split {grid newGrid : Grid s} {splits : List (Grid s)}
    (h : Reached grid) (hsplit : split grid = some splits)
    (hnew : newGrid ∈ splits) : Reached newGrid := by
  obtain ⟨p, -, rfl⟩ := Option.map_eq_some_iff.mp hsplit
  obtain ⟨value, hvalue, rfl⟩ := List.mem_map.mp hnew
  exact h.setSquareAt (Square.mem_getPossibilities.mp hvalue)

theorem Reached.sectorSize_pos {grid : Grid s} (h : Reached grid) : 1 ≤ s := by
  induction h with
  | emptyGrid hempty =>
      by_contra hs
      rw [FSharp.emptyGrid, if_pos (by omega)] at hempty
      exact absurd hempty (by simp)
  | setSquare _ _ _ ih => exact ih

/-- A reached grid is closed, and what its undecided squares have lost is the
value of a decided peer. -/
theorem Reached.closed_justified {grid : Grid s} (h : Reached grid) :
    Closed Peer grid.candidates ∧
      Justified Peer Finset.univ grid.candidates := by
  induction h with
  | @emptyGrid grid hempty =>
      obtain ⟨grid', hok, hfull⟩ :=
        emptyGrid_ok (Reached.emptyGrid hempty).sectorSize_pos
      cases hempty.symm.trans hok
      rw [hfull]
      exact ⟨closed_full (card_values s), justified_full⟩
  | @setSquare grid newGrid value coordinates _ hvalue hset ih =>
      rw [setSquare_ok] at hset
      cases hset
      rw [setSquareAt_eq]
      exact ⟨(Grid.store s).closed_setSquare (visitOrder s) _ _ ih.1,
        (Grid.store s).justified_setSquare (visitOrder s)
          (of_decide_eq_true hvalue) ih.2⟩

/-! ## Reading back a line -/

/-- The character of a square in a line. -/
def squareChar (square : Square s) : Char :=
  match Square.getValue square with
  | none => '.'
  | some value => value.1.digitChar

theorem toList_toString (hs : s ≤ 3) (square : Square s) :
    (Square.toString square).toList = [squareChar square] := by
  rw [Square.toString, squareChar]
  cases Square.getValue square with
  | none => simp
  | some value => exact toList_toString_digit (value_le_nine hs value)

theorem flatMap_rows (grid : Grid s) :
    grid.rows.toList.flatMap Vector.toList =
      allCoords.map fun c => Grid.getSquare c grid := by
  rw [toList_eq_map, List.flatMap_map, allCoords, permute, List.map_flatMap]
  refine List.flatMap_congr fun y _ => ?_
  rw [toList_eq_map, List.map_map]
  rfl

theorem toLine_eq (hs : s ≤ 3) (grid : Grid s) :
    ∃ line, toLine grid = .ok line ∧
      line.toList =
        allCoords.map fun c => squareChar (Grid.getSquare c grid) := by
  rw [toLine, if_neg (by omega), flatMap_rows]
  refine ⟨_, rfl, ?_⟩
  rw [String.toList_join, List.map_map, List.flatMap_map]
  simp only [Function.comp_apply, toList_toString hs]
  exact List.map_eq_flatMap.symm

theorem allCoords_eq : allCoords (s := s) = rowMajor s :=
  (rowMajor_eq_flatMap s).symm

theorem length_allCoords : (allCoords (s := s)).length = s ^ 4 := by
  rw [allCoords_eq, length_rowMajor]

theorem nodup_allCoords : (allCoords (s := s)).Nodup := by
  rw [allCoords_eq]
  exact nodup_rowMajor s

/-- The clues that a line of the grid shows for some squares. -/
def lineClues (grid : Grid s) (coords : List (Coord s)) :
    List (Coord s × Value s) :=
  coords.filterMap fun c =>
    (Square.getValue (Grid.getSquare c grid)).map fun value => (c, value)

theorem mem_lineClues {grid : Grid s} {c : Coord s} {value : Value s} :
    (c, value) ∈ lineClues grid allCoords ↔ grid.candidates c = {value} := by
  rw [← Square.getValue_eq_some_iff, lineClues, List.mem_filterMap]
  constructor
  · rintro ⟨d, -, hd⟩
    obtain ⟨w, hw, heq⟩ := Option.map_eq_some_iff.mp hd
    cases heq
    exact hw
  · intro hvalue
    refine ⟨c, mem_allCoords c, ?_⟩
    rw [Grid.candidates] at hvalue
    rw [hvalue]
    rfl

theorem nodup_lineClues (grid : Grid s) :
    ((lineClues grid allCoords).map Prod.fst).Nodup := by
  rw [lineClues, List.map_filterMap]
  apply nodup_allCoords.filterMap
  intro c d e hc hd
  simp only [Option.map_map, Option.mem_def, Option.map_eq_some_iff,
    Function.comp_apply] at hc hd
  obtain ⟨-, -, rfl⟩ := hc
  obtain ⟨-, -, rfl⟩ := hd
  rfl

/-- Reading the characters of a line sets its clues. -/
theorem foldlM_setSquareFromChar (hs : s ≤ 3) (grid start : Grid s)
    (coords : List (Coord s)) :
    (coords.map fun c => (squareChar (Grid.getSquare c grid), c)).foldlM
        setSquareFromChar start =
      .ok ((Grid.store s).setSquares (visitOrder s) (lineClues grid coords)
        start) := by
  induction coords generalizing start with
  | nil => rfl
  | cons c coords ih =>
      rw [List.map_cons, List.foldlM_cons, lineClues, List.filterMap_cons,
        squareChar]
      cases hvalue : Square.getValue (Grid.getSquare c grid) with
      | none => exact ih start
      | some value =>
          have hpos := (Finset.mem_Icc.mp value.2).1
          have hnine := value_le_nine hs value
          have hset : setSquareFromChar start (value.1.digitChar, c) =
              .ok ((Grid.store s).setSquare (visitOrder s) value c start) := by
            rw [setSquareFromChar, digitValue_digitChar hnine]
            · dsimp only
              rw [setSquare_ok, setSquareAt_eq]
            · exact digitChar_ne_dot hnine
            · exact digitChar_ne_zero hpos hnine
          dsimp only
          rw [hset]
          exact ih _

/-- Grids with the same possibilities are the same. -/
theorem Grid.eq_of_candidates {grid newGrid : Grid s}
    (h : grid.candidates = newGrid.candidates) : grid = newGrid := by
  obtain ⟨rows⟩ := grid
  obtain ⟨rows'⟩ := newGrid
  congr 1
  ext y hy x hx : 2
  exact congrFun h (⟨x, hx⟩, ⟨y, hy⟩)

/-- A line loses nothing: reading it back gives the same possibilities in every
square, the undecided ones included. -/
theorem fromLine_toLine (hs : s ≤ 3) {grid : Grid s} (hreached : Reached grid)
    (hpossible : grid.isPossible = true) :
    ∃ line, toLine grid = .ok line ∧ fromLine line = .ok ⟨s, grid⟩ := by
  obtain ⟨line, hline, hchars⟩ := toLine_eq hs grid
  obtain ⟨empty, hempty, hfull⟩ := emptyGrid_ok hreached.sectorSize_pos
  obtain ⟨hclosed, hjust⟩ := hreached.closed_justified
  have hlength : fourthRoot line.length = some s := by
    rw [fourthRoot_eq_some_iff, ← String.length_toList, hchars,
      List.length_map, length_allCoords]
  have hreplay : (Grid.store s).setSquares (visitOrder s)
      (lineClues grid allCoords) empty = grid :=
    Grid.eq_of_candidates <|
      (Grid.store s).replay (visitOrder s) hfull hclosed
        (Grid.isPossible_iff.mp hpossible) (within_univ _) hjust
        (nodup_lineClues grid) fun _ _ => mem_lineClues
  refine ⟨line, hline, ?_⟩
  rw [fromLine, hlength]
  dsimp only
  rw [if_neg (by omega), hempty, hchars, ← List.map_prod_right_eq_zip]
  have hfold := foldlM_setSquareFromChar hs grid empty allCoords
  rw [hreplay] at hfold
  simp only [bind, Except.bind, pure, Except.pure] at hfold ⊢
  rw [hfold]

/-- A grid of sector size two with its first square set. -/
def firstSquareSet : Grid 2 :=
  setSquareAt ⟨1, by decide⟩ (0, 0)
    ⟨Vector.replicate _ (Vector.replicate _
      (Square.withPossibilities (oneTo 2)))⟩

theorem fromLine_toLine_firstSquareSet :
    ∃ line, toLine firstSquareSet = .ok line ∧
      fromLine line = .ok ⟨2, firstSquareSet⟩ :=
  fromLine_toLine (by decide)
    ((Reached.emptyGrid rfl).setSquareAt (by decide +kernel))
    (by decide +kernel)

end SudokuSolver.FSharp
