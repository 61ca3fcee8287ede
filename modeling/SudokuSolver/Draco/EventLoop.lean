import SudokuSolver.Draco.Gadgets

/-!
# Solving in the event loop of Draco

A click on the button begins to solve the values that are entered, or cancels.
`eventLoop` of `sudoku_solver_gui.d` advances the search once in every round
while there are grids, shows what has been found, and sets a verdict when it is
done.
-/

namespace SudokuSolver.Draco

open Propagation

/-- The variables of `eventLoop`, with the flags and the texts of the gadgets. -/
structure EventLoop where
  pSquareGadgets : SquareGadgets
  SELECTED : Bool
  it_IText : String
  text : Option String
  pGridList : Option ℕ
  mem : Memory
  counters : Counters

/-- The window as it is opened, with no values. -/
def emptyWindow : EventLoop where
  pSquareGadgets := fun _ => ⟨[], 0, 0, false, fun _ => rfl⟩
  SELECTED := true
  it_IText := "Solve"
  text := none
  pGridList := none
  mem := Memory.noGrids 0
  counters := ⟨0, 0, 0, 0⟩

instance : Nonempty EventLoop := ⟨emptyWindow⟩

namespace EventLoop

def setText (st : EventLoop) (pText : Option String) : EventLoop :=
  { st with text := pText }

/-- The text follows the flag, which has been changed before. -/
def toggleSolveButton (st : EventLoop) : EventLoop :=
  { st with it_IText := if !st.SELECTED then "Cancel" else "Solve" }

def cleanupAfterSolver (dimension : ℕ) (st : EventLoop) :
    Option EventLoop := do
  let mem ← st.mem.freeGridList st.pGridList
  let st := { st with mem := mem, SELECTED := !st.SELECTED }
  let st := st.toggleSolveButton
  return { st with pSquareGadgets :=
    toggleSquareGadgetsEnabled dimension st.pSquareGadgets }

/-! ## Starting -/

/-- What a click on the button does while there are no grids. -/
def startSolving (fails : ℕ → Bool) (sectorDimension : ℕ) (st : EventLoop) :
    Option EventLoop :=
  let dimension := sectorDimension * sectorDimension
  match valuesAreValid dimension st.pSquareGadgets with
  | .error text =>
      some { st.setText (some text) with SELECTED := !st.SELECTED }
  | .ok () => do
      let pSquareGadgets := toggleSquareGadgetsEnabled dimension
        (stashCurrentValues dimension st.pSquareGadgets)
      let (pGridList, mem) ← createGridFromSquareGadgets st.mem fails
        sectorDimension pSquareGadgets
      let st := { st with
        pSquareGadgets := pSquareGadgets
        pGridList := pGridList
        mem := mem }
      match pGridList with
      | none => return { st with SELECTED := !st.SELECTED }
      | some _ =>
          let st := { st with counters := ⟨0, 0, 0, 0⟩ }
          return st.setText (some "Solving...")

/-- What a click on the button does while there are grids. -/
def cancelSolving (sectorDimension : ℕ) (st : EventLoop) :
    Option EventLoop := do
  let dimension := sectorDimension * sectorDimension
  let st := if st.counters.c_Solutions = 0 then
      { st with pSquareGadgets :=
        restorePreviousValues dimension st.pSquareGadgets }
    else st
  let mem ← st.mem.freeGridList st.pGridList
  let st := { st with
    pSquareGadgets := toggleSquareGadgetsEnabled dimension st.pSquareGadgets
    pGridList := none
    mem := mem }
  return st.setText none

/-- `GADGETUP`, for the button. -/
def gadgetUp (fails : ℕ → Bool) (sectorDimension : ℕ) (st : EventLoop) :
    Option EventLoop := do
  let st ← match st.pGridList with
    | none => st.startSolving fails sectorDimension
    | some _ => st.cancelSolving sectorDimension
  return st.toggleSolveButton

/-! ## One round -/

/-- The branch in which no grid is left. -/
def noMoreSolutions (dimension : ℕ) (st : EventLoop) : Option EventLoop :=
  let st :=
    if st.counters.c_Solutions = 1 then
      if st.counters.c_GridsLost = 0 then
        st.setText (some "Solution is unique")
      else st.setText (some "Failed to check for uniqueness")
    else
      let st := { st with pSquareGadgets :=
        restorePreviousValues dimension st.pSquareGadgets }
      if st.counters.c_GridsLost = 0 then
        st.setText (some "Puzzle has no solutions")
      else st.setText (some "Failed to find solution")
  st.cleanupAfterSolver dimension

/-- What follows when a solution has been counted. -/
def solutionCounted (dimension : ℕ) (st : EventLoop) : Option EventLoop :=
  if st.counters.c_Solutions > 1 then do
    let st := st.setText (some "Solution is not unique")
    let st ← st.cleanupAfterSolver dimension
    return { st with pGridList := none }
  else if st.pGridList.isSome then
    some (st.setText (some "Checking solution is unique..."))
  else if st.counters.c_GridsLost = 0 then
    let st := st.setText (some "Solution is unique")
    st.cleanupAfterSolver dimension
  else
    let st := st.setText (some "Failed to check for uniqueness")
    st.cleanupAfterSolver dimension

/-- The branch in which the grid at the front is complete. -/
def solutionFound (dimension : ℕ) (st : EventLoop) (pGridList : ℕ)
    (pGrid : Block) : Option EventLoop := do
  let pSquareGadgets := updateSquareGadgetValues st.pSquareGadgets pGrid
  let (pGridList, mem) ← st.mem.freeFrontGrid pGridList
  let counters :=
    { st.counters with c_Solutions := st.counters.c_Solutions + 1 }
  let st := { st with
    pSquareGadgets := pSquareGadgets
    pGridList := pGridList
    mem := mem
    counters := counters }
  st.solutionCounted dimension

/-- What `eventLoop` does in each round while there are grids. -/
def solvingStep (fails : ℕ → Bool) (sectorDimension : ℕ) (st : EventLoop) :
    Option EventLoop := do
  let dimension := sectorDimension * sectorDimension
  let (pGridList, mem, counters) ←
    st.mem.advanceSolving fails st.pGridList st.counters
  let st := { st with pGridList := pGridList, mem := mem, counters := counters }
  match pGridList with
  | none => st.noMoreSolutions dimension
  | some pGridList =>
      let grid ← mem.grids pGridList
      if isComplete grid.block then
        st.solutionFound dimension pGridList grid.block
      else if counters.c_Solutions = 0 then
        return { st with pSquareGadgets :=
          updateSquareGadgetValues st.pSquareGadgets grid.block }
      else return st

/-- A round in which no event has come in. -/
def solvingRound (fails : ℕ → Bool) (sectorDimension : ℕ) (st : EventLoop) :
    Option (EventLoop ⊕ EventLoop) :=
  match st.pGridList with
  | none => some (.inr st)
  | some _ => (st.solvingStep fails sectorDimension).map .inl

/-- Rounds without an event in between, as long as there are grids. -/
def solve (fails : ℕ → Bool) (sectorDimension : ℕ) (st : EventLoop) :
    Option EventLoop :=
  loop (solvingRound fails sectorDimension) st

/-- The states at the end of the rounds. -/
abbrev Rounds (fails : ℕ → Bool) (sectorDimension : ℕ) :
    EventLoop → EventLoop → Prop :=
  Relation.ReflTransGen fun st st' => st.pGridList ≠ none ∧
    st.solvingStep fails sectorDimension = some st'

end EventLoop

end SudokuSolver.Draco
