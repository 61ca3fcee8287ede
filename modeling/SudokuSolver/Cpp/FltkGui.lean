import SudokuSolver.Cpp.Accounts
import SudokuSolver.Cpp.AsyncSolutions
import SudokuSolver.Cpp.SqliteRows
import SudokuSolver.Support.Rounding

/-!
# The graphical program

`main.cpp` of `sudoku_fltk_gui` with `stoppable_loader.cpp`,
`thread_worker.cpp`, `multicast_solutions.cpp` and `solutions_progress.cpp`: the
workers take puzzles from a loader that can be stopped and add their solutions
asynchronously; the consumer thread hands them to the database and to the
progress bar; the main thread waits for events until the window is closed, and
then stops the loader and joins everything.  The steps of all threads can be
interleaved.
-/

namespace SudokuSolver.Cpp

open Rounding Transition

variable {n : ℕ}

/-! ## The loader -/

/-- `StoppableLoader`; its functions hold its mutex. -/
structure StoppableLoader where
  m_pLoader : TextLoader
  m_bStopCalled : Bool

namespace StoppableLoader

def getPuzzle (loader : StoppableLoader) : Option Puzzle × StoppableLoader :=
  if loader.m_bStopCalled then (none, loader)
  else
    let (pPuzzle, m_pLoader) := loader.m_pLoader.getPuzzle
    (pPuzzle, { loader with m_pLoader := m_pLoader })

def stop (loader : StoppableLoader) : StoppableLoader :=
  { loader with m_bStopCalled := true }

/-- There is no puzzle once the loader has been stopped. -/
theorem getPuzzle_cases (loader : StoppableLoader) :
    (loader.getPuzzle = (none, loader) ∧
      (loader.m_bStopCalled = true ∨ loader.m_pLoader.m_puzzles = [])) ∨
    ∃ puzzle puzzles,
      loader.getPuzzle =
          (some puzzle, { loader with m_pLoader := ⟨puzzles⟩ }) ∧
        loader.m_bStopCalled = false ∧
        loader.m_pLoader.m_puzzles = puzzle :: puzzles := by
  obtain ⟨⟨puzzles⟩, m_bStopCalled⟩ := loader
  cases m_bStopCalled with
  | true => exact Or.inl ⟨rfl, Or.inl rfl⟩
  | false =>
      cases puzzles with
      | nil => exact Or.inl ⟨rfl, Or.inr rfl⟩
      | cons puzzle puzzles =>
          exact Or.inr ⟨puzzle, puzzles, rfl, rfl, rfl⟩

end StoppableLoader

/-! ## The consumers of solutions -/

inductive SelectionColor where
  | blue
  | green
deriving DecidableEq

/-- `static_cast<float>` of a count: a float has 24 significant bits. -/
def toFloat (count : ℕ) : ℕ := round 24 count

/-- `SolutionsProgress`, with what its widget shows. -/
structure SolutionsProgress where
  m_nPuzzleCount : ℕ
  m_nSolutionCount : ℕ
  maximum : ℕ
  value : ℕ
  selectionColor : SelectionColor
  label : String

namespace SolutionsProgress

def addSolutions (progress : SolutionsProgress)
    (rSolutionList : List Solution) : SolutionsProgress :=
  { progress with
    m_nSolutionCount := progress.m_nSolutionCount + rSolutionList.length }

def update (progress : SolutionsProgress) : SolutionsProgress :=
  { progress with
    value := toFloat progress.m_nSolutionCount
    selectionColor :=
      if progress.m_nPuzzleCount = progress.m_nSolutionCount then .green
      else .blue
    label := "Solved " ++ toString progress.m_nSolutionCount ++ " of " ++
      toString progress.m_nPuzzleCount }

/-- The constructor. -/
def new (nPuzzleCount : ℕ) : SolutionsProgress :=
  update ⟨nPuzzleCount, 0, toFloat nPuzzleCount, 0, .blue, ""⟩

end SolutionsProgress

/-- The consumers that `MulticastSolutions` has been given: the database, if a
path was chosen, by the rows of its table, and the progress bar after it.
`stored` says that the loop of `AddSolutions` has left the database behind. -/
structure MulticastSolutions where
  database : Option (List (String × String))
  stored : Bool
  progress : SolutionsProgress

namespace MulticastSolutions

/-- The database, if it is the next consumer of the loop. -/
def nextDatabase (multicast : MulticastSolutions) :
    Option (List (String × String)) :=
  if multicast.stored then none else multicast.database

/-- The database has been given the list. -/
def store (multicast : MulticastSolutions) (rows : List (String × String)) :
    MulticastSolutions :=
  { multicast with database := some rows, stored := true }

/-- The progress bar has been given the list, which ends the loop. -/
def count (multicast : MulticastSolutions) (rSolutionList : List Solution) :
    MulticastSolutions :=
  { multicast with
    stored := false
    progress := multicast.progress.addSolutions rSolutionList }

theorem nextDatabase_eq_some_iff {multicast : MulticastSolutions}
    {rows : List (String × String)} :
    multicast.nextDatabase = some rows ↔
      multicast.stored = false ∧ multicast.database = some rows := by
  rw [nextDatabase]
  cases multicast.stored <;> simp

end MulticastSolutions

/-! ## The threads -/

/-- Where the main thread is: about to call `Fl::lock` after all workers have
been started, in `Fl::wait`, in the loop over `Fl::thread_message`, about to call
`Update`, about to call `Stop` after the window has been closed, destroying the
workers after the first of them have been joined, in the destructor of the
asynchronous solutions, or at the end. -/
inductive Main where
  | starting
  | waiting
  | fetching (bShouldUpdateProgress : Bool)
  | updating
  | closed
  | joining (joined : ℕ)
  | destroying
  | returned
deriving DecidableEq

/-- The objects of `main` and its threads.  `message` says whether
`Fl::thread_message` has one to return, and `terminated` is the exception that
has left a thread and thereby ended the program. -/
structure Gui (n : ℕ) where
  stoppableLoader : StoppableLoader
  workers : Fin n → Worker
  asyncSolutions : Async n
  multicastSolutions : MulticastSolutions
  message : Bool
  main : Main
  terminated : Option String

/-- All workers have been started and nothing has happened since.  A database
that was there before has rows already. -/
def Gui.start (n : ℕ) (pLoader : TextLoader)
    (database : Option (List (String × String))) : Gui n where
  stoppableLoader := ⟨pLoader, false⟩
  workers _ := .waiting
  asyncSolutions := Async.start n
  multicastSolutions :=
    { database := database
      stored := false
      progress := .new pLoader.getPuzzleCount }
  message := false
  main := .starting
  terminated := none

/-- A step of a worker: of its `AddSolutions`, or up to the next one.  A worker
that has failed throws in a step of its own, since others can go on while it is
still at work on its puzzle. -/
def stepGuiWorker (order : Puzzle → Order) (i : Fin n) (gui : Gui n) :
    Option (Gui n) :=
  match gui.asyncSolutions.producers i with
  | .notifying => do
      let asyncSolutions ← stepAsync (.notify i) gui.asyncSolutions
      return { gui with asyncSolutions := asyncSolutions }
  | .idle =>
      match gui.workers i with
      | .waiting =>
          let (pPuzzle, stoppableLoader) := gui.stoppableLoader.getPuzzle
          some { gui with
            stoppableLoader := stoppableLoader
            workers := Function.update gui.workers i
              (afterGetPuzzle order pPuzzle) }
      | .adding solutionList => do
          let asyncSolutions ←
            stepAsync (.add i solutionList) gui.asyncSolutions
          return { gui with
            asyncSolutions := asyncSolutions
            workers := Function.update gui.workers i .waiting }
      | .finished => none
      | .failed message => some { gui with terminated := some message }

/-- A step of the consumer thread, which gives a list to one consumer after
another.  The call of `Fl::awake` is remembered, but one that comes before
`Fl::lock` only where `earlyAwake` says so. -/
def stepGuiConsumer (earlyAwake : Bool) (gui : Gui n) : Option (Gui n) :=
  match gui.asyncSolutions.consumer, gui.multicastSolutions.nextDatabase with
  | .delivering solutionList, some rows =>
      match addRows rows solutionList with
      | .error message => some { gui with terminated := some message }
      | .ok rows =>
          some { gui with
            multicastSolutions := gui.multicastSolutions.store rows }
  | .delivering solutionList, none => do
      let asyncSolutions ← stepAsync .consume gui.asyncSolutions
      return { gui with
        asyncSolutions := asyncSolutions
        multicastSolutions := gui.multicastSolutions.count solutionList
        message := gui.message || earlyAwake || gui.main ≠ .starting }
  | _, _ => do
      let asyncSolutions ← stepAsync .consume gui.asyncSolutions
      return { gui with asyncSolutions := asyncSolutions }

/-- The database throws instead of adding a list. -/
def throwDatabase (message : String) (gui : Gui n) : Option (Gui n) :=
  match gui.asyncSolutions.consumer, gui.multicastSolutions.nextDatabase with
  | .delivering _, some _ => some { gui with terminated := some message }
  | _, _ => none

/-- A step of the main thread other than the return of `Fl::wait`. -/
def stepMain (gui : Gui n) : Option (Gui n) :=
  match gui.main with
  | .starting => some { gui with main := .waiting }
  | .waiting => none
  | .fetching bShouldUpdateProgress =>
      if gui.message then
        some { gui with message := false, main := .fetching true }
      else if bShouldUpdateProgress then some { gui with main := .updating }
      else some { gui with main := .waiting }
  | .updating =>
      some { gui with
        multicastSolutions := { gui.multicastSolutions with
          progress := gui.multicastSolutions.progress.update }
        main := .waiting }
  | .closed =>
      some { gui with
        stoppableLoader := gui.stoppableLoader.stop
        main := .joining 0 }
  | .joining joined =>
      if h : joined < n then
        if (gui.workers ⟨joined, h⟩).isFinished then
          some { gui with main := .joining (joined + 1) }
        else none
      else some { gui with main := .destroying }
  | .destroying => do
      let asyncSolutions ← stepAsync .destroy gui.asyncSolutions
      return { gui with
        asyncSolutions := asyncSolutions
        main :=
          if asyncSolutions.destructor = .joined then .returned
          else .destroying }
  | .returned => none

/-- What can happen next: a step of a worker, of the consumer or of the main
thread, a spurious wake-up of the consumer, an exception of the database, and a
return of `Fl::wait` because there is a message, because of another event, or
after the window was closed. -/
inductive GuiAction (n : ℕ) where
  | worker (i : Fin n)
  | consume
  | wake
  | throw (message : String)
  | main
  | awake
  | event
  | close

/-- The effect of a step of a program that has not been terminated. -/
def stepRunning (order : Puzzle → Order) (earlyAwake : Bool)
    (action : GuiAction n) (gui : Gui n) : Option (Gui n) :=
  match action with
  | .worker i => stepGuiWorker order i gui
  | .consume => stepGuiConsumer earlyAwake gui
  | .wake => do
      let asyncSolutions ← stepAsync .wake gui.asyncSolutions
      return { gui with asyncSolutions := asyncSolutions }
  | .throw message => throwDatabase message gui
  | .main => stepMain gui
  | .awake =>
      match gui.main, gui.message with
      | .waiting, true => some { gui with main := .fetching false }
      | _, _ => none
  | .event =>
      match gui.main with
      | .waiting => some { gui with main := .fetching false }
      | _ => none
  | .close =>
      match gui.main with
      | .waiting => some { gui with main := .closed }
      | _ => none

/-- The effect of a step. -/
def stepGui (order : Puzzle → Order) (earlyAwake : Bool) (action : GuiAction n)
    (gui : Gui n) : Option (Gui n) :=
  if gui.terminated.isSome then none
  else stepRunning order earlyAwake action gui

/-- The threads of the program with `n` workers. -/
def guiThreads (order : Puzzle → Order) (earlyAwake : Bool) (n : ℕ) :
    System (GuiAction n) (Gui n) where
  step := stepGui order earlyAwake

/-! ## What a step does -/

section

variable {order : Puzzle → Order} {earlyAwake : Bool}

/-- The steps of the threads, one case for each way in which one can go. -/
inductive GuiStep (order : Puzzle → Order) (earlyAwake : Bool) :
    GuiAction n → Gui n → Gui n → Prop
  | notify {gui : Gui n} {i : Fin n} {asyncSolutions : Async n}
      (hstep : AsyncStep (.notify i) gui.asyncSolutions asyncSolutions) :
      GuiStep order earlyAwake (.worker i) gui
        { gui with asyncSolutions := asyncSolutions }
  | exhausted {gui : Gui n} {i : Fin n}
      (hidle : gui.asyncSolutions.producers i = .idle)
      (hwaiting : gui.workers i = .waiting)
      (hnone : gui.stoppableLoader.m_bStopCalled = true ∨
        gui.stoppableLoader.m_pLoader.m_puzzles = []) :
      GuiStep order earlyAwake (.worker i) gui { gui with
        workers := Function.update gui.workers i .finished }
  | take {gui : Gui n} {i : Fin n} {puzzle : Puzzle} {puzzles : List Puzzle}
      (hidle : gui.asyncSolutions.producers i = .idle)
      (hwaiting : gui.workers i = .waiting)
      (hrunning : gui.stoppableLoader.m_bStopCalled = false)
      (hpuzzles : gui.stoppableLoader.m_pLoader.m_puzzles =
        puzzle :: puzzles) :
      GuiStep order earlyAwake (.worker i) gui { gui with
        stoppableLoader := { gui.stoppableLoader with m_pLoader := ⟨puzzles⟩ }
        workers := Function.update gui.workers i
          (afterGetPuzzle order (some puzzle)) }
  | fail {gui : Gui n} {i : Fin n} {message : String}
      (hfailed : gui.workers i = .failed message) :
      GuiStep order earlyAwake (.worker i) gui
        { gui with terminated := some message }
  | add {gui : Gui n} {i : Fin n} {solutionList : List Solution}
      {asyncSolutions : Async n}
      (hadding : gui.workers i = .adding solutionList)
      (hstep : AsyncStep (.add i solutionList) gui.asyncSolutions
        asyncSolutions) :
      GuiStep order earlyAwake (.worker i) gui { gui with
        asyncSolutions := asyncSolutions
        workers := Function.update gui.workers i .waiting }
  | check {gui : Gui n} {asyncSolutions : Async n}
      (hchecking : gui.asyncSolutions.consumer = .checking)
      (hstep : AsyncStep .consume gui.asyncSolutions asyncSolutions) :
      GuiStep order earlyAwake .consume gui
        { gui with asyncSolutions := asyncSolutions }
  | store {gui : Gui n} {solutionList : List Solution}
      {rows rows' : List (String × String)}
      (hdelivering : gui.asyncSolutions.consumer = .delivering solutionList)
      (hdatabase : gui.multicastSolutions.nextDatabase = some rows)
      (hrows : addRows rows solutionList = .ok rows') :
      GuiStep order earlyAwake .consume gui
        { gui with multicastSolutions := gui.multicastSolutions.store rows' }
  | refuse {gui : Gui n} {solutionList : List Solution}
      {rows : List (String × String)} {message : String}
      (hdelivering : gui.asyncSolutions.consumer = .delivering solutionList)
      (hdatabase : gui.multicastSolutions.nextDatabase = some rows)
      (herror : addRows rows solutionList = .error message) :
      GuiStep order earlyAwake .consume gui
        { gui with terminated := some message }
  | deliver {gui : Gui n} {solutionList : List Solution}
      (hdelivering : gui.asyncSolutions.consumer = .delivering solutionList)
      (hdatabase : gui.multicastSolutions.nextDatabase = none) :
      GuiStep order earlyAwake .consume gui { gui with
        asyncSolutions := { gui.asyncSolutions with
          consumer := .checking
          delivered := gui.asyncSolutions.delivered ++ [solutionList] }
        multicastSolutions := gui.multicastSolutions.count solutionList
        message := gui.message || earlyAwake || gui.main ≠ .starting }
  | wake {gui : Gui n} {asyncSolutions : Async n}
      (hstep : AsyncStep .wake gui.asyncSolutions asyncSolutions) :
      GuiStep order earlyAwake .wake gui
        { gui with asyncSolutions := asyncSolutions }
  | throw {gui : Gui n} {message : String} {solutionList : List Solution}
      {rows : List (String × String)}
      (hdelivering : gui.asyncSolutions.consumer = .delivering solutionList)
      (hdatabase : gui.multicastSolutions.nextDatabase = some rows) :
      GuiStep order earlyAwake (.throw message) gui
        { gui with terminated := some message }
  | lock {gui : Gui n} (hmain : gui.main = .starting) :
      GuiStep order earlyAwake .main gui { gui with main := .waiting }
  | awake {gui : Gui n} (hmain : gui.main = .waiting)
      (hmessage : gui.message = true) :
      GuiStep order earlyAwake .awake gui { gui with main := .fetching false }
  | event {gui : Gui n} (hmain : gui.main = .waiting) :
      GuiStep order earlyAwake .event gui { gui with main := .fetching false }
  | fetch {gui : Gui n} {bShouldUpdateProgress : Bool}
      (hmain : gui.main = .fetching bShouldUpdateProgress)
      (hmessage : gui.message = true) :
      GuiStep order earlyAwake .main gui
        { gui with message := false, main := .fetching true }
  | fetched {gui : Gui n} (hmain : gui.main = .fetching true)
      (hmessage : gui.message = false) :
      GuiStep order earlyAwake .main gui { gui with main := .updating }
  | ignored {gui : Gui n} (hmain : gui.main = .fetching false)
      (hmessage : gui.message = false) :
      GuiStep order earlyAwake .main gui { gui with main := .waiting }
  | update {gui : Gui n} (hmain : gui.main = .updating) :
      GuiStep order earlyAwake .main gui { gui with
        multicastSolutions := { gui.multicastSolutions with
          progress := gui.multicastSolutions.progress.update }
        main := .waiting }
  | close {gui : Gui n} (hmain : gui.main = .waiting) :
      GuiStep order earlyAwake .close gui { gui with main := .closed }
  | stop {gui : Gui n} (hmain : gui.main = .closed) :
      GuiStep order earlyAwake .main gui { gui with
        stoppableLoader := gui.stoppableLoader.stop
        main := .joining 0 }
  | join {gui : Gui n} {i : Fin n} (hmain : gui.main = .joining i)
      (hfinished : gui.workers i = .finished) :
      GuiStep order earlyAwake .main gui
        { gui with main := .joining (i + 1) }
  | joined {gui : Gui n} {joined : ℕ} (hmain : gui.main = .joining joined)
      (hall : n ≤ joined) :
      GuiStep order earlyAwake .main gui { gui with main := .destroying }
  | destroy {gui : Gui n} {asyncSolutions : Async n}
      (hmain : gui.main = .destroying)
      (hstep : AsyncStep .destroy gui.asyncSolutions asyncSolutions) :
      GuiStep order earlyAwake .main gui { gui with
        asyncSolutions := asyncSolutions
        main :=
          if asyncSolutions.destructor = .joined then .returned
          else .destroying }

theorem guiStep_worker {i : Fin n} {gui next : Gui n}
    (h : stepGuiWorker order i gui = some next) :
    GuiStep order earlyAwake (.worker i) gui next := by
  rw [stepGuiWorker] at h
  split at h
  · obtain ⟨asyncSolutions, hstep, h⟩ := Option.bind_eq_some_iff.mp h
    cases h
    exact .notify (asyncStep_of_step hstep)
  · next hidle =>
    split at h
    · next hwaiting =>
      rcases gui.stoppableLoader.getPuzzle_cases with ⟨hget, hnone⟩ |
        ⟨puzzle, puzzles, hget, hrunning, hpuzzles⟩
      · rw [hget] at h
        cases h
        exact .exhausted hidle hwaiting hnone
      · rw [hget] at h
        cases h
        exact .take hidle hwaiting hrunning hpuzzles
    · next solutionList hadding =>
      obtain ⟨asyncSolutions, hstep, h⟩ := Option.bind_eq_some_iff.mp h
      cases h
      exact .add hadding (asyncStep_of_step hstep)
    · cases h
    · next message hfailed =>
      cases h
      exact .fail hfailed

theorem guiStep_consumer {gui next : Gui n}
    (h : stepGuiConsumer earlyAwake gui = some next) :
    GuiStep order earlyAwake .consume gui next := by
  rw [stepGuiConsumer] at h
  split at h
  · next solutionList rows hdelivering hdatabase =>
    split at h
    · next message herror =>
      cases h
      exact .refuse hdelivering hdatabase herror
    · next rows' hrows =>
      cases h
      exact .store hdelivering hdatabase hrows
  · next solutionList hdelivering hdatabase =>
    rw [stepAsync, hdelivering] at h
    cases h
    exact .deliver hdelivering hdatabase
  · next hother hnone =>
    obtain ⟨asyncSolutions, hstep, h⟩ := Option.bind_eq_some_iff.mp h
    cases h
    have hasync : AsyncStep .consume gui.asyncSolutions asyncSolutions :=
      asyncStep_of_step hstep
    apply GuiStep.check ?_ hasync
    cases hasync with
    | deliver hdelivering =>
        cases hdatabase : gui.multicastSolutions.nextDatabase with
        | none => exact absurd hdatabase (hnone _ hdelivering)
        | some rows => exact absurd hdatabase (hother _ _ hdelivering)
    | wait hchecking _ _ | stop hchecking _ | swap hchecking _ _ =>
        exact hchecking

theorem guiStep_main {gui next : Gui n} (h : stepMain gui = some next) :
    GuiStep order earlyAwake .main gui next := by
  rw [stepMain] at h
  split at h
  · next hmain =>
    cases h
    exact .lock hmain
  · cases h
  · next bShouldUpdateProgress hmain =>
    by_cases hmessage : gui.message = true
    · rw [if_pos hmessage] at h
      cases h
      exact .fetch hmain hmessage
    · rw [if_neg hmessage] at h
      rw [Bool.not_eq_true] at hmessage
      cases bShouldUpdateProgress with
      | true =>
          cases h
          exact .fetched hmain hmessage
      | false =>
          cases h
          exact .ignored hmain hmessage
  · next hmain =>
    cases h
    exact .update hmain
  · next hmain =>
    cases h
    exact .stop hmain
  · next joined hmain =>
    split at h
    · next hlt =>
      split at h
      · next hfinished =>
        cases h
        exact .join (i := ⟨joined, hlt⟩) hmain (isFinished_iff.mp hfinished)
      · cases h
    · next hle =>
      cases h
      exact .joined hmain (not_lt.mp hle)
  · next hmain =>
    obtain ⟨asyncSolutions, hstep, h⟩ := Option.bind_eq_some_iff.mp h
    cases h
    exact .destroy hmain (asyncStep_of_step hstep)
  · cases h

/-- A program that has been terminated takes no steps. -/
theorem guiStep_of_step {action : GuiAction n} {gui next : Gui n}
    (h : (guiThreads order earlyAwake n).step action gui = some next) :
    gui.terminated = none ∧ GuiStep order earlyAwake action gui next := by
  change stepGui order earlyAwake action gui = some next at h
  rw [stepGui] at h
  split at h
  · cases h
  · next hterminated =>
    rw [Bool.not_eq_true, Option.isSome_eq_false_iff, Option.isNone_iff_eq_none]
      at hterminated
    unfold stepRunning at h
    apply And.intro hterminated
    cases action with
    | worker i => exact guiStep_worker h
    | consume => exact guiStep_consumer h
    | wake =>
        obtain ⟨asyncSolutions, hstep, h⟩ := Option.bind_eq_some_iff.mp h
        cases h
        exact .wake (asyncStep_of_step hstep)
    | throw message =>
        dsimp only at h
        rw [throwDatabase] at h
        split at h
        · next solutionList rows hdelivering hdatabase =>
          cases h
          exact .throw hdelivering hdatabase
        · cases h
    | main => exact guiStep_main h
    | awake =>
        dsimp only at h
        split at h
        · next hmain hmessage =>
          cases h
          exact .awake hmain hmessage
        · cases h
    | event =>
        dsimp only at h
        split at h
        · next hmain =>
          cases h
          exact .event hmain
        · cases h
    | close =>
        dsimp only at h
        split at h
        · next hmain =>
          cases h
          exact .close hmain
        · cases h

end

end SudokuSolver.Cpp
