import Mathlib.Data.List.MinMax
import SudokuSolver.Python.Square
import SudokuSolver.Support.Table

/-!
# The Python grid

`grid.py`.  Grids are mutated in place; here a method returns the state the
grid is left in.  `is not` between two indices is taken as inequality.
-/

namespace SudokuSolver.Python

open Propagation

variable {s : ℕ}

/-- The values of a completed grid. -/
def digits (s : ℕ) : Finset ℤ := setRange (s * s)

@[simp] theorem card_digits (s : ℕ) : (digits s).card = s * s :=
  card_setRange (s * s)

/-- A grid of squares, row by row. -/
structure Grid (s : ℕ) where
  rows : Table Square (s * s)
  sectorDimension_pos : 0 < s

namespace Grid

def square (grid : Grid s) (c : Coord s) : Square := Table.entry grid.rows c

/-- The possibilities of every square. -/
def candidates (grid : Grid s) : Candidates (Coord s) ℤ :=
  fun c => (grid.square c).possibilities

/-- The grid with one square replaced. -/
def replace (grid : Grid s) (c : Coord s) (square : Square) : Grid s :=
  { grid with rows := Table.replace grid.rows c square }

theorem square_replace (grid : Grid s) (c d : Coord s) (square : Square) :
    (grid.replace c square).square d =
      if d = c then square else grid.square d :=
  Table.entry_replace grid.rows c d square

theorem candidates_replace (grid : Grid s) (c : Coord s) (square : Square) :
    (grid.replace c square).candidates =
      Function.update grid.candidates c square.possibilities := by
  funext d
  rw [candidates, square_replace, Function.update_apply, apply_ite
    Square.possibilities]
  rfl

/-- The grid as a store of possibilities. -/
def store (s : ℕ) : CandidateStore (Grid s) (Coord s) ℤ where
  candidates := candidates
  remove grid c v :=
    grid.replace c (Square.removePossibility (grid.square c) v).1
  assign grid c v := grid.replace c (Square.withValue v)
  value grid c := (grid.square c).getValue
  candidates_remove grid c v := by
    rw [candidates_replace, Square.removePossibility_fst]
    rfl
  candidates_assign grid c v := candidates_replace grid c _
  value_eq_some_iff _ _ _ := Square.getValue_eq_some_iff

/-- True if every square still has at least one possible value. -/
def isPossible (grid : Grid s) : Bool :=
  grid.rows.all fun row => row.all Square.isPossible

/-- True if every square has only a single value. -/
def isComplete (grid : Grid s) : Bool :=
  grid.rows.all fun row => row.all fun square => truthy square.getValue

theorem isPossible_iff {grid : Grid s} :
    grid.isPossible = true ↔ Live grid.candidates := by
  rw [isPossible, Table.all_all_iff]
  exact forall_congr' fun c => Square.isPossible_iff

theorem isComplete_iff {grid : Grid s} :
    grid.isComplete = true ↔ ∀ c, ∃ v, grid.candidates c = {v} ∧ v ≠ 0 := by
  rw [isComplete, Table.all_all_iff]
  refine forall_congr' fun c => ?_
  constructor
  · intro h
    cases hvalue : (Table.entry grid.rows c).getValue with
    | none =>
        rw [hvalue] at h
        exact absurd h (by simp [truthy])
    | some v =>
        rw [hvalue] at h
        exact ⟨v, Square.getValue_eq_some_iff.mp hvalue, of_decide_eq_true h⟩
  · rintro ⟨v, hv, hne⟩
    have hvalue : (Table.entry grid.rows c).getValue = some v :=
      Square.getValue_eq_some_iff.mpr hv
    rw [hvalue]
    exact decide_eq_true hne

/-- As long as only digits are possible, a complete grid is a decided one. -/
theorem isComplete_iff_decided {grid : Grid s}
    (hwithin : Within (digits s) grid.candidates) :
    grid.isComplete = true ↔ Decided grid.candidates := by
  rw [isComplete_iff]
  refine forall_congr' fun c => ?_
  rw [Finset.card_eq_one]
  refine exists_congr fun v => and_iff_left_of_imp fun hv => ?_
  have hmem : v ∈ digits s := hwithin c (hv ▸ Finset.mem_singleton_self v)
  rw [digits, mem_setRange] at hmem
  omega

end Grid

/-! ## Removing possibilities -/

/-- The indexes of a line without the given one. -/
def otherIndexes (index : Index s) : List (Index s) :=
  (List.finRange (s * s)).filter fun i => decide (i ≠ index)

/-- The squares in the same sector as the given square, without that square. -/
def getSquaresInSector (c : Coord s) : List (Coord s) :=
  ((bandRange (band c.2)).flatMap fun iterRowIndex =>
    (bandRange (band c.1)).map fun iterColIndex =>
      (iterColIndex, iterRowIndex)).filter fun d => decide (d ≠ c)

@[simp] theorem mem_otherIndexes {i index : Index s} :
    i ∈ otherIndexes index ↔ i ≠ index := by
  simp [otherIndexes]

@[simp] theorem mem_getSquaresInSector {c d : Coord s} :
    d ∈ getSquaresInSector c ↔
      (band d.1 = band c.1 ∧ band d.2 = band c.2) ∧ d ≠ c := by
  rw [getSquaresInSector, List.mem_filter, decide_eq_true_eq, List.mem_flatMap]
  refine and_congr_left fun _ => ?_
  constructor
  · rintro ⟨y, hy, hd⟩
    obtain ⟨x, hx, rfl⟩ := List.mem_map.mp hd
    exact ⟨mem_bandRange.mp hx, mem_bandRange.mp hy⟩
  · rintro ⟨hx, hy⟩
    exact ⟨d.2, mem_bandRange.mpr hy,
      List.mem_map.mpr ⟨d.1, mem_bandRange.mpr hx, rfl⟩⟩

/-- The squares related to the given one, in the order they are visited: its
row, its column, its sector. -/
def related (c : Coord s) : List (Coord s) :=
  ((otherIndexes c.1).map fun colIndexInRow => (colIndexInRow, c.2)) ++
    (((otherIndexes c.2).map fun rowIndexInCol => (c.1, rowIndexInCol)) ++
      getSquaresInSector c)

theorem mem_related (c d : Coord s) : d ∈ related c ↔ Peer c d := by
  obtain ⟨x, y⟩ := c
  obtain ⟨x', y'⟩ := d
  simp only [related, List.mem_append, List.mem_map, mem_otherIndexes,
    mem_getSquaresInSector, Prod.mk.injEq, Peer, ne_eq]
  constructor
  · rintro (⟨i, hi, rfl, rfl⟩ | ⟨i, hi, rfl, rfl⟩ | ⟨⟨hx, hy⟩, hne⟩)
    · exact ⟨fun h => hi h.1.symm, Or.inl rfl⟩
    · exact ⟨fun h => hi h.2.symm, Or.inr (Or.inl rfl)⟩
    · exact ⟨fun h => hne ⟨h.1.symm, h.2.symm⟩,
        Or.inr (Or.inr ⟨hx.symm, hy.symm⟩)⟩
  · rintro ⟨hne, rfl | rfl | ⟨hx, hy⟩⟩
    · exact Or.inl ⟨x', fun h => hne ⟨h.symm, rfl⟩, rfl, rfl⟩
    · exact Or.inr (Or.inl ⟨y', fun h => hne ⟨rfl, h.symm⟩, rfl, rfl⟩)
    · exact Or.inr (Or.inr
        ⟨⟨hx.symm, hy.symm⟩, fun h => hne ⟨h.1.symm, h.2.symm⟩⟩)

/-- The order in which Python visits related squares. -/
def visitOrder (s : ℕ) : PeerOrder (Peer (s := s)) where
  related := related
  mem_related := mem_related
  symm _ _ := Peer.symm
  irrefl := Peer.irrefl

/-- Removes a possibility from a square, and updates all related squares if
only a single value remains. -/
def removePossibility (possibility : ℤ) (grid : Grid s) (c : Coord s) : Grid s :=
  (Grid.store s).removePossibility (visitOrder s) possibility grid c

/-- Removes the given possibility from related squares but not from the given
square itself. -/
def removeRelatedPossibilities (grid : Grid s) (c : Coord s)
    (possibility : ℤ) : Grid s :=
  let grid := (otherIndexes c.1).foldl (fun grid colIndexInRow =>
    removePossibility possibility grid (colIndexInRow, c.2)) grid
  let grid := (otherIndexes c.2).foldl (fun grid rowIndexInCol =>
    removePossibility possibility grid (c.1, rowIndexInCol)) grid
  (getSquaresInSector c).foldl (removePossibility possibility) grid

theorem removeRelatedPossibilities_eq (grid : Grid s) (c : Coord s)
    (possibility : ℤ) :
    removeRelatedPossibilities grid c possibility =
      (Grid.store s).removeRelated (visitOrder s) possibility c grid := by
  rw [CandidateStore.removeRelated]
  simp only [visitOrder, related, List.foldl_append, List.foldl_map]
  rfl

/-- The recursion of `_removePossibility` as the source writes it. -/
theorem removePossibility_eq (possibility : ℤ) (grid : Grid s) (c : Coord s) :
    removePossibility possibility grid c =
      let (square, existed) := (grid.square c).removePossibility possibility
      let grid := grid.replace c square
      if existed then
        let value := square.getValue
        if truthy value then
          removeRelatedPossibilities grid c (value.getD 0)
        else grid
      else grid := by
  rw [removePossibility, CandidateStore.removePossibility_eq]
  by_cases hmem : possibility ∈ (grid.square c).possibilities
  · have hstore : possibility ∈ (Grid.store s).candidates grid c := hmem
    have hremove : (grid.square c).removePossibility possibility =
        ((grid.square c).erase possibility, true) :=
      if_pos (decide_eq_true hmem)
    have hvalue : (Grid.store s).value
        ((Grid.store s).remove grid c possibility) c =
        ((grid.square c).erase possibility).getValue := by
      simp [Grid.store, Grid.square_replace, hremove]
    rw [if_pos hstore, hvalue, hremove]
    dsimp only
    rw [if_pos rfl, Square.truthy_getValue_erase hmem]
    have hrow : (Grid.store s).remove grid c possibility =
        grid.replace c ((grid.square c).erase possibility) := by
      simp [Grid.store, hremove]
    rw [hrow]
    cases ((grid.square c).erase possibility).getValue with
    | none => rfl
    | some value => exact (removeRelatedPossibilities_eq _ c value).symm
  · have hstore : possibility ∉ (Grid.store s).candidates grid c := hmem
    have hremove : (grid.square c).removePossibility possibility =
        (grid.square c, false) := if_neg (by simpa [Square.hasPossibility])
    rw [if_neg hstore, hremove]
    dsimp only
    rw [if_neg (by simp)]
    obtain ⟨rows, hpos⟩ := grid
    simp [Grid.replace, Grid.square, Table.replace, Table.entry]

/-- `setSquareValue` once its indices are known to be in range. -/
def setSquareValueAt (grid : Grid s) (c : Coord s) (value : ℤ) : Grid s :=
  removeRelatedPossibilities (grid.replace c (Square.withValue value)) c value

/-- Sets the square in the given location to contain the given value as its only
possibility. -/
def setSquareValue (grid : Grid s) (colIndex rowIndex value : ℤ) :
    Except String (Grid s) :=
  if h : ¬((0 ≤ colIndex ∧ colIndex < (s * s : ℕ)) ∧
      0 ≤ rowIndex ∧ rowIndex < (s * s : ℕ)) then
    .error (s!"Cannot index a grid of dimension {s * s} with " ++
      s!"({colIndex}, {rowIndex})")
  else
    .ok (setSquareValueAt grid
      (⟨colIndex.toNat, by omega⟩, ⟨rowIndex.toNat, by omega⟩) value)

theorem setSquareValueAt_eq (grid : Grid s) (c : Coord s) (value : ℤ) :
    setSquareValueAt grid c value =
      (Grid.store s).setSquare (visitOrder s) value c grid := by
  rw [setSquareValueAt, removeRelatedPossibilities_eq]
  rfl

/-- For indices in range the check passes. -/
theorem setSquareValue_ok (grid : Grid s) (c : Coord s) (value : ℤ) :
    setSquareValue grid c.1.1 c.2.1 value =
      .ok (setSquareValueAt grid c value) := by
  have hx := c.1.isLt
  have hy := c.2.isLt
  rw [setSquareValue, dif_neg (by omega)]
  rfl

theorem pos_of_not_lt_one {param : ℕ} (hs : ¬param < 1) : 0 < param := by
  omega

/-- A new grid with the given sector dimension and with all squares containing
all possible values. -/
def newGrid (param : ℕ) : Except String (Grid param) :=
  if hs : param < 1 then
    .error s!"Cannot create a grid with a sector dimension of {param}"
  else
    .ok {
      rows := Vector.replicate _ (Vector.replicate _
        (Square.withRange (param * param)))
      sectorDimension_pos := pos_of_not_lt_one hs }

theorem newGrid_ok (hs : 1 ≤ s) :
    ∃ grid, newGrid s = .ok grid ∧ grid.candidates = fun _ => digits s := by
  rw [newGrid, dif_neg (by omega)]
  refine ⟨_, rfl, funext fun c => ?_⟩
  rw [Grid.candidates, Grid.square, Table.entry_replicate]
  rfl

end SudokuSolver.Python
