import SudokuSolver.Board
import SudokuSolver.Support.Table

/-!
# The F# grid and its propagation

Squares, grids and `Refine.fs`.  A square is the set of its possibilities and a
grid is an array of rows of squares; the record fields that only depend on the
sector size (`Indexes`, `AllCoords`, `SectorCoordRows`) are functions of it
here.  Possibilities and coordinates carry their range in their type, so the
checks of `setSquare` are only needed for the integers that come from outside.
-/

namespace SudokuSolver.FSharp

open Propagation

variable {s : ℕ}

/-- The remaining possible values of a square. -/
abbrev Square (s : ℕ) := Finset (Value s)

namespace Square

/-- `Set.maxElement`, the last element in ascending order. -/
def maxElement (square : Square s) : Option (Value s) :=
  (ascending square).getLast?

def getValue (square : Square s) : Option (Value s) :=
  match square.card with
  | 1 => maxElement square
  | _ => none

def isComplete (square : Square s) : Bool := (getValue square).isSome

def isPossible (square : Square s) : Bool := !decide (square = ∅)

def withPossibilities (possibilities : List (Value s)) : Square s :=
  possibilities.toFinset

def withValue (value : Value s) : Square s := {value}

def countPossibilities (square : Square s) : ℕ := square.card

/-- The possibilities in the order in which a set is enumerated. -/
def getPossibilities (square : Square s) : List (Value s) :=
  ascending square

def contains (possibility : Value s) (square : Square s) : Bool :=
  decide (possibility ∈ square)

def remove (possibility : Value s) (square : Square s) : Square s :=
  square.erase possibility

theorem getValue_eq_some_iff {square : Square s} {v : Value s} :
    getValue square = some v ↔ square = {v} := by
  constructor
  · intro h
    by_cases hcard : square.card = 1
    · obtain ⟨w, rfl⟩ := Finset.card_eq_one.mp hcard
      have hw : some w = some v := by
        simpa [getValue, maxElement] using h
      rw [Option.some.inj hw]
    · rw [getValue] at h
      split at h
      · exact absurd ‹_› hcard
      · exact absurd h (by simp)
  · rintro rfl
    simp [getValue, maxElement]

theorem isComplete_iff {square : Square s} :
    isComplete square = true ↔ square.card = 1 := by
  rw [isComplete, Option.isSome_iff_exists, Finset.card_eq_one]
  exact exists_congr fun v => getValue_eq_some_iff

theorem isPossible_iff {square : Square s} :
    isPossible square = true ↔ square.Nonempty := by
  simp [isPossible, Finset.nonempty_iff_ne_empty]

@[simp] theorem mem_getPossibilities {square : Square s} {v : Value s} :
    v ∈ getPossibilities square ↔ v ∈ square := by
  simp [getPossibilities]

theorem nodup_getPossibilities (square : Square s) :
    (getPossibilities square).Nodup := nodup_ascending square

end Square

/-- A grid of squares, row by row. -/
structure Grid (s : ℕ) where
  rows : Table (Square s) (s * s)

/-- `Indexes` of a grid. -/
def indexes : List (Index s) := List.finRange (s * s)

/-- Every element of `listB` paired with every element of `listA`. -/
def permute (listA listB : List (Index s)) : List (Coord s) :=
  listB.flatMap fun i => listA.map fun j => (j, i)

/-- `AllCoords` of a grid, row by row. -/
def allCoords : List (Coord s) := permute indexes indexes

/-- The indices from `sectorSize * sectorIndex` on, `sectorSize` of them. -/
def getIndexRange (sectorIndex : Fin s) : List (Index s) :=
  bandRange sectorIndex

/-- `SectorCoordRows` of a grid. -/
def sectorCoordRows (sectorRowIndex sectorColIndex : Fin s) :
    List (Coord s) :=
  permute (getIndexRange sectorColIndex) (getIndexRange sectorRowIndex)

def getSectorCoordinates (coordinates : Coord s) : List (Coord s) :=
  sectorCoordRows (band coordinates.2) (band coordinates.1)

@[simp] theorem mem_indexes (i : Index s) : i ∈ indexes := by
  simp [indexes]

@[simp] theorem mem_permute {listA listB : List (Index s)} {c : Coord s} :
    c ∈ permute listA listB ↔ c.1 ∈ listA ∧ c.2 ∈ listB := by
  constructor
  · intro h
    obtain ⟨i, hi, h⟩ := List.mem_flatMap.mp h
    obtain ⟨j, hj, rfl⟩ := List.mem_map.mp h
    exact ⟨hj, hi⟩
  · rintro ⟨hA, hB⟩
    exact List.mem_flatMap.mpr
      ⟨c.2, hB, List.mem_map.mpr ⟨c.1, hA, rfl⟩⟩

@[simp] theorem mem_allCoords (c : Coord s) : c ∈ allCoords := by
  simp [allCoords]

@[simp] theorem mem_getIndexRange {i : Fin s} {x : Index s} :
    x ∈ getIndexRange i ↔ band x = i := mem_bandRange

@[simp] theorem mem_getSectorCoordinates {c d : Coord s} :
    d ∈ getSectorCoordinates c ↔ band d.1 = band c.1 ∧ band d.2 = band c.2 := by
  simp [getSectorCoordinates, sectorCoordRows]

namespace Grid

def getSquare (coordinates : Coord s) (grid : Grid s) : Square s :=
  Table.entry grid.rows coordinates

/-- Returns true if `func` returns true for every square of the grid. -/
def allSquares (func : Square s → Bool) (grid : Grid s) : Bool :=
  grid.rows.all fun row => row.all func

def isComplete (grid : Grid s) : Bool := allSquares Square.isComplete grid

def isPossible (grid : Grid s) : Bool := allSquares Square.isPossible grid

/-- The grid with one square replaced. -/
def replaceSquare (square : Square s) (coordinates : Coord s)
    (grid : Grid s) : Grid s :=
  { grid with rows := Table.replace grid.rows coordinates square }

/-- The possibilities of every square. -/
def candidates (grid : Grid s) : Candidates (Coord s) (Value s) :=
  fun c => getSquare c grid

theorem getSquare_replaceSquare (square : Square s) (c d : Coord s)
    (grid : Grid s) :
    getSquare d (replaceSquare square c grid) =
      if d = c then square else getSquare d grid :=
  Table.entry_replace grid.rows c d square

theorem candidates_replaceSquare (square : Square s) (c : Coord s)
    (grid : Grid s) :
    candidates (replaceSquare square c grid) =
      Function.update (candidates grid) c square := by
  funext d
  rw [candidates, getSquare_replaceSquare, Function.update_apply]
  rfl

theorem allSquares_eq_true_iff {func : Square s → Bool} {grid : Grid s} :
    allSquares func grid = true ↔ ∀ c, func (candidates grid c) = true :=
  Table.all_all_iff

theorem isComplete_iff {grid : Grid s} :
    isComplete grid = true ↔ Decided (candidates grid) := by
  rw [isComplete, allSquares_eq_true_iff]
  exact forall_congr' fun c => Square.isComplete_iff

theorem isPossible_iff {grid : Grid s} :
    isPossible grid = true ↔ Live (candidates grid) := by
  rw [isPossible, allSquares_eq_true_iff]
  exact forall_congr' fun c => Square.isPossible_iff

/-- The grid with the given possibilities. -/
def ofCandidates (m : Candidates (Coord s) (Value s)) : Grid s where
  rows := Vector.ofFn fun rowIndex => Vector.ofFn fun colIndex =>
    m (colIndex, rowIndex)

@[simp] theorem candidates_ofCandidates (m : Candidates (Coord s) (Value s)) :
    (ofCandidates m).candidates = m := by
  funext c
  simp [candidates, getSquare, ofCandidates, Table.entry]

/-- The grid as a store of possibilities. -/
def store (s : ℕ) : CandidateStore (Grid s) (Coord s) (Value s) where
  candidates := candidates
  remove grid c v := replaceSquare (Square.remove v (getSquare c grid)) c grid
  assign grid c v := replaceSquare (Square.withValue v) c grid
  value grid c := Square.getValue (getSquare c grid)
  candidates_remove grid c _ := candidates_replaceSquare _ c grid
  candidates_assign grid c _ := candidates_replaceSquare _ c grid
  value_eq_some_iff _ _ _ := Square.getValue_eq_some_iff

end Grid

/-! ## Refine -/

/-- The other squares of a line. -/
def lineCoordinates (index : Index s) (indexToCoordinates : Index s → Coord s) :
    List (Coord s) :=
  (indexes.filter fun i => !decide (i = index)).map indexToCoordinates

/-- The other squares of a sector. -/
def secCoordinates (coordinates : Coord s) : List (Coord s) :=
  (getSectorCoordinates coordinates).filter fun c => !decide (c = coordinates)

/-- The squares related to the given one, in the order they are visited: its
row, its column, its sector. -/
def relatedCoordinates (coordinates : Coord s) : List (Coord s) :=
  lineCoordinates coordinates.1 (fun index => (index, coordinates.2)) ++
    (lineCoordinates coordinates.2 (fun index => (coordinates.1, index)) ++
      secCoordinates coordinates)

theorem mem_relatedCoordinates (c d : Coord s) :
    d ∈ relatedCoordinates c ↔ Peer c d := by
  obtain ⟨x, y⟩ := c
  obtain ⟨x', y'⟩ := d
  simp only [relatedCoordinates, lineCoordinates, secCoordinates,
    List.mem_append, List.mem_map, List.mem_filter, mem_indexes, true_and,
    mem_getSectorCoordinates, Bool.not_eq_eq_eq_not, Bool.not_true,
    decide_eq_false_iff_not, Prod.mk.injEq, Peer, ne_eq]
  constructor
  · rintro (⟨i, hi, rfl, rfl⟩ | ⟨i, hi, rfl, rfl⟩ | ⟨⟨hx, hy⟩, hne⟩)
    · exact ⟨fun h => hi h.1.symm, Or.inl rfl⟩
    · exact ⟨fun h => hi h.2.symm, Or.inr (Or.inl rfl)⟩
    · exact ⟨fun h => hne ⟨h.1.symm, h.2.symm⟩,
        Or.inr (Or.inr ⟨hx.symm, hy.symm⟩)⟩
  · rintro ⟨hne, rfl | rfl | ⟨hx, hy⟩⟩
    · exact Or.inl ⟨x', fun h => hne ⟨h.symm, rfl⟩, rfl, rfl⟩
    · exact Or.inr (Or.inl ⟨y', fun h => hne ⟨rfl, h.symm⟩, rfl, rfl⟩)
    · exact Or.inr (Or.inr
        ⟨⟨hx.symm, hy.symm⟩, fun h => hne ⟨h.1.symm, h.2.symm⟩⟩)

/-- The order in which F# visits related squares. -/
def visitOrder (s : ℕ) : PeerOrder (Peer (s := s)) where
  related := relatedCoordinates
  mem_related := mem_relatedCoordinates
  symm _ _ := Peer.symm
  irrefl := Peer.irrefl

/-- Removes the possibility from the square and eliminates possibilities from
other squares where feasible. -/
def removePossibility (possibility : Value s) (grid : Grid s)
    (coordinates : Coord s) : Grid s :=
  (Grid.store s).removePossibility (visitOrder s) possibility grid coordinates

/-- Removes the possibility from the other squares of a line. -/
def removeLineRelated (possibility : Value s) (index : Index s)
    (indexToCoordinates : Index s → Coord s) (grid : Grid s) : Grid s :=
  (lineCoordinates index indexToCoordinates).foldl
    (removePossibility possibility) grid

/-- Removes the possibility from the other squares of a sector. -/
def removeSecRelated (possibility : Value s) (coordinates : Coord s)
    (grid : Grid s) : Grid s :=
  (secCoordinates coordinates).foldl (removePossibility possibility) grid

/-- Removes the possibility from the squares related to the given one. -/
def removeRelated (possibility : Value s) (coordinates : Coord s)
    (grid : Grid s) : Grid s :=
  removeSecRelated possibility coordinates
    (removeLineRelated possibility coordinates.2
      (fun index => (coordinates.1, index))
      (removeLineRelated possibility coordinates.1
        (fun index => (index, coordinates.2)) grid))

theorem removeRelated_eq (possibility : Value s) (coordinates : Coord s)
    (grid : Grid s) :
    removeRelated possibility coordinates grid =
      (Grid.store s).removeRelated (visitOrder s) possibility coordinates
        grid := by
  rw [CandidateStore.removeRelated]
  simp only [visitOrder, relatedCoordinates, List.foldl_append]
  rfl

/-- The recursion of `removePossibility` as the source writes it. -/
theorem removePossibility_eq (possibility : Value s) (grid : Grid s)
    (coordinates : Coord s) :
    removePossibility possibility grid coordinates =
      let square := Grid.getSquare coordinates grid
      match Square.contains possibility square with
      | false => grid
      | true =>
          let newSquare := Square.remove possibility square
          let newGrid := Grid.replaceSquare newSquare coordinates grid
          match Square.getValue newSquare with
          | none => newGrid
          | some value => removeRelated value coordinates newGrid := by
  rw [removePossibility, CandidateStore.removePossibility_eq]
  by_cases hmem : possibility ∈ (Grid.store s).candidates grid coordinates
  · have hcontains : Square.contains possibility
        (Grid.getSquare coordinates grid) = true := decide_eq_true hmem
    have hvalue : (Grid.store s).value
        ((Grid.store s).remove grid coordinates possibility) coordinates =
        Square.getValue
          (Square.remove possibility (Grid.getSquare coordinates grid)) := by
      simp [Grid.store, Grid.getSquare_replaceSquare]
    rw [if_pos hmem, hvalue]
    simp only [hcontains]
    cases Square.getValue
        (Square.remove possibility (Grid.getSquare coordinates grid)) with
    | none => rfl
    | some value => simp only [removeRelated_eq]; rfl
  · have hcontains : Square.contains possibility
        (Grid.getSquare coordinates grid) = false := decide_eq_false hmem
    rw [if_neg hmem]
    simp only [hcontains]

/-- `setSquare` once its arguments are known to be in range. -/
def setSquareAt (value : Value s) (coordinates : Coord s) (grid : Grid s) :
    Grid s :=
  removeRelated value coordinates
    (Grid.replaceSquare (Square.withValue value) coordinates grid)

/-- The grid with the square at the given coordinates set to the value. -/
def setSquare (value : ℤ) (coordinates : ℤ × ℤ) (grid : Grid s) :
    Except String (Grid s) :=
  if hvalue : value < 1 ∨ value > (s * s : ℕ) then
    .error "Invalid square value"
  else if hcoordinates :
      coordinates.1 < 0 ∨ coordinates.1 ≥ (s * s : ℕ) ∨
        coordinates.2 < 0 ∨ coordinates.2 ≥ (s * s : ℕ) then
    .error "Invalid grid coordinates"
  else
    .ok (setSquareAt
      ⟨value.toNat, by rw [Finset.mem_Icc]; omega⟩
      (⟨coordinates.1.toNat, by omega⟩, ⟨coordinates.2.toNat, by omega⟩)
      grid)

theorem setSquareAt_eq (value : Value s) (coordinates : Coord s)
    (grid : Grid s) :
    setSquareAt value coordinates grid =
      (Grid.store s).setSquare (visitOrder s) value coordinates grid := by
  rw [setSquareAt, removeRelated_eq]
  rfl

/-- For a value and coordinates in range the checks pass. -/
theorem setSquare_ok (value : Value s) (coordinates : Coord s)
    (grid : Grid s) :
    setSquare (value.1 : ℤ) (coordinates.1.1, coordinates.2.1) grid =
      .ok (setSquareAt value coordinates grid) := by
  have hvalue := Finset.mem_Icc.mp value.2
  have hx := coordinates.1.isLt
  have hy := coordinates.2.isLt
  rw [setSquare, dif_neg (by omega), dif_neg (by dsimp only; omega)]
  rfl

end SudokuSolver.FSharp
