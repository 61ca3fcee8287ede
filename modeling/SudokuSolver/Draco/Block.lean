import SudokuSolver.Board

/-!
# Packed grids in Draco

`sudoku_grid.d` and `sudoku_grid.a`.  A grid is one block of memory: a header,
and for each square a count, a value and a pack of bits, one for each value.
Addresses are offsets from the beginning of the block.  The links of the list
that a grid is part of are kept apart, since nothing here reads them.  Registers
and variables hold words of 16 bits; a multiplication has a result of 32 bits.
-/

namespace SudokuSolver.Draco

/-- A block, with its bytes from `SQUARES_OFFSET` on. -/
structure Block where
  g_sectorDimension : ℕ
  g_dimension : ℕ
  gc_totalSize : ℕ
  gc_squareSize : ℕ
  gc_impossibleSquares : BitVec 16
  gc_incompleteSquares : BitVec 16
  bytes : ℕ → BitVec 8
  deriving Inhabited

/-- `sizeof(Grid_t) + sizeof(GridCache_t)`. -/
def SQUARES_OFFSET : ℕ := 12 + 8

/-- `sizeof(SquareCache_t)`, at which the pack of a square begins. -/
def SQUARE_POSSIBILITY_PACK : ℕ := 2

/-! ## Words -/

/-- The product of two words. -/
def mulu (a b : ℕ) : ℕ := (a % 2 ^ 16) * (b % 2 ^ 16)

/-- An addition that changes the low word of a register only. -/
def addWord (a b : ℕ) : ℕ := a / 2 ^ 16 * 2 ^ 16 + (a % 2 ^ 16 + b) % 2 ^ 16

/-- `value - 1`, as a word. -/
def pred (value : ℕ) : ℕ := (value + (2 ^ 16 - 1)) % 2 ^ 16

/-- The byte of a pack that has the bit of a value, and which of its bits that
is. -/
def packIndex (value : ℕ) : ℕ := pred value / 8

def bitIndex (value : ℕ) : ℕ := pred value % 8

/-! ## Squares -/

/-- Write one byte. -/
def poke (bytes : ℕ → BitVec 8) (pointer : ℕ) (byte : BitVec 8) :
    ℕ → BitVec 8 := Function.update bytes pointer byte

/-- `BlockFill`. -/
def blockFill (bytes : ℕ → BitVec 8) (pointer size : ℕ) (byte : BitVec 8) :
    ℕ → BitVec 8 := fun i =>
  if pointer ≤ i ∧ i < pointer + size then byte else bytes i

/-- The macro `getSquareOffset`. -/
def getSquareOffset (pGrid : Block) (field x y : ℕ) : ℕ :=
  let d0 := mulu pGrid.g_dimension y
  let d0 := addWord d0 x
  let d0 := mulu pGrid.gc_squareSize d0
  addWord d0 (field + SQUARES_OFFSET)

def getSquarePointer (pGrid : Block) (x y : ℕ) : ℕ :=
  getSquareOffset pGrid 0 x y

def squareHasPossibility (pGrid : Block) (x y value : ℕ) : Bool :=
  (pGrid.bytes (getSquareOffset pGrid SQUARE_POSSIBILITY_PACK x y +
    packIndex value)).getLsbD (bitIndex value)

def getPossibilityCount (pGrid : Block) (x y : ℕ) : ℕ :=
  (pGrid.bytes (getSquareOffset pGrid 0 x y)).toNat

/-- Zero if the square has several possibilities or none. -/
def getSquareValue (pGrid : Block) (x y : ℕ) : ℕ :=
  (pGrid.bytes (getSquareOffset pGrid 1 x y)).toNat

def isPossible (pGrid : Block) : Bool := pGrid.gc_impossibleSquares = 0

def isComplete (pGrid : Block) : Bool := pGrid.gc_incompleteSquares = 0

def setSquareValue (pGrid : Block) (x y value : ℕ) : Block :=
  let pSquareCache := getSquarePointer pGrid x y
  let sc_possibilityCount := pGrid.bytes pSquareCache
  let gc_impossibleSquares :=
    if sc_possibilityCount = 0 then pGrid.gc_impossibleSquares - 1
    else pGrid.gc_impossibleSquares
  let gc_incompleteSquares :=
    if sc_possibilityCount ≠ 1 then pGrid.gc_incompleteSquares - 1
    else pGrid.gc_incompleteSquares
  let bytes := poke pGrid.bytes pSquareCache 1
  let bytes := poke bytes (pSquareCache + 1) (BitVec.ofNat 8 value)
  let bytes := blockFill bytes (pSquareCache + SQUARE_POSSIBILITY_PACK)
    (pGrid.gc_squareSize - SQUARE_POSSIBILITY_PACK) 0
  let pSquare := pSquareCache + SQUARE_POSSIBILITY_PACK + packIndex value
  let bytes := poke bytes pSquare (bytes pSquare ||| 1#8 <<< bitIndex value)
  { pGrid with
    gc_impossibleSquares := gc_impossibleSquares
    gc_incompleteSquares := gc_incompleteSquares
    bytes := bytes }

/-- The first possibility of a square below the dimension, or else the
dimension, at which the loop ends. -/
def getSquareValueImpl (pGrid : Block) (x y : ℕ) : ℕ :=
  ((List.range' 1 (pGrid.g_dimension - 1)).find? fun possibility =>
    squareHasPossibility pGrid x y possibility).getD pGrid.g_dimension

def removeSquarePossibility (pGrid : Block) (x y value : ℕ) : Block :=
  let pSquareCache := getSquarePointer pGrid x y
  let pSquare := pSquareCache + SQUARE_POSSIBILITY_PACK + packIndex value
  let mask := 1#8 <<< bitIndex value
  let squareValue := pGrid.bytes pSquare
  if squareValue ||| mask = 0 then pGrid
  else
    let bytes := poke pGrid.bytes pSquare (squareValue &&& ~~~mask)
    let sc_possibilityCount := bytes pSquareCache - 1
    let bytes := poke bytes pSquareCache sc_possibilityCount
    let pGrid := { pGrid with bytes := bytes }
    if sc_possibilityCount = 0 then
      { pGrid with
        bytes := poke pGrid.bytes (pSquareCache + 1) 0
        gc_impossibleSquares := pGrid.gc_impossibleSquares + 1
        gc_incompleteSquares := pGrid.gc_incompleteSquares + 1 }
    else if sc_possibilityCount = 1 then
      { pGrid with
        bytes := poke pGrid.bytes (pSquareCache + 1)
          (BitVec.ofNat 8 (getSquareValueImpl pGrid x y))
        gc_incompleteSquares := pGrid.gc_incompleteSquares - 1 }
    else pGrid

/-! ## Blocks -/

/-- The body of the loops of `createGrid`. -/
def initSquare (dimension : ℕ) (pGrid : Block) (x y : ℕ) : Block :=
  let pSquareCache := getSquarePointer pGrid x y
  let bytes := poke pGrid.bytes pSquareCache (BitVec.ofNat 8 dimension)
  { pGrid with bytes := poke bytes (pSquareCache + 1) 0 }

/-- The block of `createGrid` before its loops. -/
def fillGrid (sectorDimension : ℕ) : Block :=
  let dimension := sectorDimension * sectorDimension
  let squareSize := SQUARE_POSSIBILITY_PACK + (dimension - 1) / 8 + 1
  let totalSize := SQUARES_OFFSET + dimension * dimension * squareSize
  let totalSize := totalSize + totalSize % 4
  { g_sectorDimension := sectorDimension
    g_dimension := dimension
    gc_totalSize := totalSize
    gc_squareSize := squareSize
    gc_impossibleSquares := 0
    gc_incompleteSquares := BitVec.ofNat 16 (dimension * dimension)
    bytes := blockFill (fun _ => 0) SQUARES_OFFSET (totalSize - SQUARES_OFFSET)
      0xff }

/-- The block that `createGrid` fills in where `Malloc` has one for it. -/
def createGrid (sectorDimension : ℕ) : Option Block :=
  if sectorDimension > 5 then none
  else
    let dimension := sectorDimension * sectorDimension
    let pGrid := fillGrid sectorDimension
    some ((List.range dimension).foldl (fun pGrid y =>
      (List.range dimension).foldl (fun pGrid x =>
        initSquare dimension pGrid x y) pGrid) pGrid)

/-- `cloneIntoGrid`, which copies the block of the source. -/
def cloneIntoGrid (pSource pTarget : Block) : Block :=
  { pSource with
    bytes := fun i =>
      if i < pSource.gc_totalSize then pSource.bytes i else pTarget.bytes i }

end SudokuSolver.Draco
