import SudokuSolver.Draco.EventLoop
import SudokuSolver.Support.System

/-!
# The window of Draco

The messages that `eventLoop` handles, and the window between the user and the
loop.  A click on the button changes its flag at once and leaves a message; the
loop comes to the message later, after the ones that were there before.  The
loop advances the search only when it has found no message.
-/

namespace SudokuSolver.Draco

/-! ## Messages -/

/-- The items of the menu. -/
inductive MenuItem
  | resetMenuItem
  | size3MenuItem
  | size4MenuItem

/-- The classes of messages.  The items of a pick are linked through the items
themselves, so that no item is picked twice. -/
inductive Message
  | CLOSEWINDOW
  | MENUPICK (picks : List MenuItem) (distinct : picks.Nodup)
  | GADGETDOWN
  | GADGETUP

namespace EventLoop

/-- Returning from the loop. -/
def leave (returned : ℕ) (st : EventLoop) : Option (EventLoop × Option ℕ) := do
  let mem ← st.mem.freeGridList st.pGridList
  return ({ st with mem := mem }, some returned)

/-- What the loop does where there are grids, when the reset item is picked. -/
def resetSolving (dimension : ℕ) (st : EventLoop) : Option EventLoop := do
  let mem ← st.mem.freeGridList st.pGridList
  let st := { st with mem := mem, pGridList := none, SELECTED := !st.SELECTED }
  let st := st.toggleSolveButton
  return { st with pSquareGadgets :=
    toggleSquareGadgetsEnabled dimension st.pSquareGadgets }

/-- The reset item. -/
def resetPicked (sectorDimension : ℕ) (st : EventLoop) : Option EventLoop := do
  let dimension := sectorDimension * sectorDimension
  let st := { st with pSquareGadgets :=
    restorePreviousValues dimension st.pSquareGadgets }
  let st ← match st.pGridList with
    | none => some st
    | some _ => st.resetSolving dimension
  return st.setText none

/-- The items of a pick, until one of them makes the loop return. -/
def menuPick (sectorDimension : ℕ) :
    List MenuItem → EventLoop → Option (EventLoop × Option ℕ)
  | [], st => some (st, none)
  | .resetMenuItem :: picks, st => do
      let st ← st.resetPicked sectorDimension
      menuPick sectorDimension picks st
  | .size3MenuItem :: picks, st =>
      if sectorDimension ≠ 3 then st.leave 3
      else menuPick sectorDimension picks st
  | .size4MenuItem :: picks, st =>
      if sectorDimension ≠ 4 then st.leave 4
      else menuPick sectorDimension picks st

/-- The loop after a message, and what it returns if it does. -/
def handleMessage (fails : ℕ → Bool) (sectorDimension : ℕ) :
    Message → EventLoop → Option (EventLoop × Option ℕ)
  | .CLOSEWINDOW, st => st.leave 0
  | .MENUPICK picks _, st => st.menuPick sectorDimension picks
  | .GADGETDOWN, st => some (st.setText none, none)
  | .GADGETUP, st =>
      (st.gadgetUp fails sectorDimension).map fun st => (st, none)

/-- A click is about to begin to solve valid values, for which no grid is
created. -/
def FailsToCreate (fails : ℕ → Bool) (sectorDimension : ℕ)
    (st : EventLoop) : Prop :=
  st.pGridList = none ∧
    valuesAreValid (sectorDimension * sectorDimension)
      st.pSquareGadgets = .ok () ∧
    (st.mem.createGrid fails sectorDimension).1 = none

end EventLoop

/-! ## The window -/

/-- Where the loop is: at the test of the outer loop, in the loop over the
messages, or after it. -/
inductive Phase
  | outer
  | messages
  | solver

/-- The loop, the messages it has not come to, and what it has returned. -/
structure Window where
  loop : EventLoop
  messages : List Message
  phase : Phase
  returned : Option ℕ

/-- What the user does, and what the loop does. -/
inductive Action
  | clickButton
  | selectGadget
  | pickItems (picks : List MenuItem) (distinct : picks.Nodup)
  | closeWindow
  | edit (x y : ℕ) (si_Buffer : List Char) (si_LongInt : ℤ)
      (empty : si_Buffer = [] → si_LongInt = 0)
  | breakSignaled
  | beginRound
  | getMsg
  | endRound

/-- What the loop may do next, in each place. -/
def Phase.actions : Phase → List Action
  | .outer => [.breakSignaled, .beginRound]
  | .messages => [.getMsg]
  | .solver => [.endRound]

namespace Window

/-- The window as it is opened.  The counters are not set before the first
click, and `Malloc` may have been called for an earlier window. -/
def createWindow (mallocs : ℕ) (counters : Counters) : Window where
  loop :=
    { emptyWindow with
      text := some "Edit puzzle, then click Solve"
      mem := Memory.noGrids mallocs
      counters := counters }
  messages := []
  phase := .outer
  returned := none

/-- The flag changes before the loop gets to know of the click. -/
def toggleSelected (w : Window) : Window :=
  { w with loop := { w.loop with SELECTED := !w.loop.SELECTED } }

def post (message : Message) (w : Window) : Window :=
  { w with messages := w.messages ++ [message] }

/-- Editing the value of a gadget that is enabled. -/
def editGadget (sectorDimension x y : ℕ) (si_Buffer : List Char)
    (si_LongInt : ℤ) (empty : si_Buffer = [] → si_LongInt = 0) (w : Window) :
    Option Window :=
  let dimension := sectorDimension * sectorDimension
  let pSquareGadget := getSquareGadget w.loop.pSquareGadgets dimension x y
  let edited : SquareGadget :=
    { pSquareGadget with
      si_Buffer := si_Buffer
      si_LongInt := si_LongInt
      empty := empty }
  let pSquareGadgets :=
    Function.update w.loop.pSquareGadgets (y * dimension + x) edited
  if pSquareGadget.GADGDISABLED then none
  else
    some { w with loop := { w.loop with pSquareGadgets := pSquareGadgets } }

/-- A call of `GetMsg`, and what is done about the message. -/
def getMsg (fails : ℕ → Bool) (sectorDimension : ℕ) (w : Window) :
    Option Window :=
  match w.messages with
  | [] => some { w with phase := .solver }
  | message :: messages => do
      let (loop, returned) ←
        w.loop.handleMessage fails sectorDimension message
      return { w with loop := loop, messages := messages, returned := returned }

/-- What the loop does once there is no message. -/
def endRound (fails : ℕ → Bool) (sectorDimension : ℕ) (w : Window) :
    Option Window :=
  match w.loop.pGridList with
  | none => some { w with phase := .outer }
  | some _ => do
      let loop ← w.loop.solvingStep fails sectorDimension
      return { w with loop := loop, phase := .outer }

/-- What each action does while the window is open. -/
def act (fails : ℕ → Bool) (sectorDimension : ℕ) :
    Action → Window → Option Window
  | .clickButton, w => some (w.toggleSelected.post .GADGETUP)
  | .selectGadget, w => some (w.post .GADGETDOWN)
  | .pickItems picks distinct, w => some (w.post (.MENUPICK picks distinct))
  | .closeWindow, w => some (w.post .CLOSEWINDOW)
  | .edit x y si_Buffer si_LongInt empty, w =>
      w.editGadget sectorDimension x y si_Buffer si_LongInt empty
  | .breakSignaled, w =>
      match w.phase with
      | .outer => do
          let (loop, returned) ← w.loop.leave 0
          return { w with loop := loop, returned := returned }
      | _ => none
  | .beginRound, w =>
      match w.phase with
      | .outer => some { w with phase := .messages }
      | _ => none
  | .getMsg, w =>
      match w.phase with
      | .messages => w.getMsg fails sectorDimension
      | _ => none
  | .endRound, w =>
      match w.phase with
      | .solver => w.endRound fails sectorDimension
      | _ => none

/-- The user and the loop, as long as the window is open. -/
def system (fails : ℕ → Bool) (sectorDimension : ℕ) :
    Transition.System Action Window where
  step a w :=
    if w.returned.isSome then none else act fails sectorDimension a w

/-- The loop is about to come to a click for which no grid is created. -/
def FailsToCreate (fails : ℕ → Bool) (sectorDimension : ℕ) (a : Action)
    (w : Window) : Prop :=
  a = .getMsg ∧ w.messages.head? = some .GADGETUP ∧
    w.loop.FailsToCreate fails sectorDimension

/-- A window that is reached after it was opened, when `n` clicks so far have
failed to create a grid. -/
inductive Reached (fails : ℕ → Bool) (sectorDimension : ℕ) :
    ℕ → Window → Prop
  | createWindow (mallocs : ℕ) (counters : Counters) :
      Reached fails sectorDimension 0 (createWindow mallocs counters)
  | step {n : ℕ} {a : Action} {w w' : Window}
      (h : Reached fails sectorDimension n w)
      (hcreates : ¬FailsToCreate fails sectorDimension a w)
      (hstep : (system fails sectorDimension).step a w = some w') :
      Reached fails sectorDimension n w'
  | failed {n : ℕ} {a : Action} {w w' : Window}
      (h : Reached fails sectorDimension n w)
      (hfails : FailsToCreate fails sectorDimension a w)
      (hstep : (system fails sectorDimension).step a w = some w') :
      Reached fails sectorDimension (n + 1) w'

end Window

end SudokuSolver.Draco
