import SudokuSolver.Cpp.BatchOutcome

/-!
# The console program

`main.cpp` of `sudoku_console` with `stream_solutions.cpp`,
`thread_safe_solutions.cpp` and `thread_safe_loader.cpp`: the workers print each
solution piece by piece to a stream that they share.  Every insertion into the
stream is a step of its own, so that it is the mutex that keeps the solutions of
one worker apart from those of another.
-/

namespace SudokuSolver.Cpp

open Transition

variable {n : ℕ}

/-! ## Printing solutions -/

/-- The strings that `StreamSolutions` inserts for one solution. -/
def streamed (rSolution : Solution) : Except String (List String) := do
  let puzzle ← puzzleToString rSolution.m_puzzle
  let solution ← puzzleToString rSolution.m_solution
  return ["Puzzle:   ", puzzle, "\n", "Solution: ", solution, "\n\n"]

/-- Where the thread of a worker is: outside of `AddSolutions`, or in the one of
`StreamSolutions` with the mutex locked, about to insert the strings that are
left of one solution, with other solutions after it. -/
inductive Printer where
  | outside (worker : Worker)
  | printing (strings : List String) (solutionList : List Solution)

/-- What the threads share, and the threads.  `handed` is what the critical
section of `ThreadSafeSolutions` has been entered with so far, and `terminated`
is the exception that has left a thread and thereby ended the program. -/
structure Console (n : ℕ) where
  threadSafeLoader : TextLoader
  m_mutex : Option (Fin n)
  cout : String
  printers : Fin n → Printer
  handed : List Solution
  terminated : Option String

/-- All workers have been started and nothing has happened since. -/
def Console.start (n : ℕ) (pLoader : TextLoader) : Console n where
  threadSafeLoader := pLoader
  m_mutex := none
  cout := ""
  printers _ := .outside .waiting
  handed := []
  terminated := none

/-- The next step of a worker.  One that has failed throws in a step of its own,
since others can go on while it is still at work on its puzzle. -/
def stepPrinter (order : Puzzle → Order) (i : Fin n) (console : Console n) :
    Option (Console n) :=
  if console.terminated.isSome then none
  else
    match console.printers i with
    | .outside .waiting =>
        let (pPuzzle, threadSafeLoader) := console.threadSafeLoader.getPuzzle
        some { console with
          threadSafeLoader := threadSafeLoader
          printers := Function.update console.printers i
            (.outside (afterGetPuzzle order pPuzzle)) }
    | .outside (.adding solutionList) =>
        match console.m_mutex with
        | some _ => none
        | none =>
            some { console with
              m_mutex := some i
              printers := Function.update console.printers i
                (.printing [] solutionList)
              handed := console.handed ++ solutionList }
    | .outside .finished => none
    | .outside (.failed message) =>
        some { console with terminated := some message }
    | .printing (string :: strings) solutionList =>
        some { console with
          cout := console.cout ++ string
          printers := Function.update console.printers i
            (.printing strings solutionList) }
    | .printing [] (rSolution :: solutionList) =>
        match streamed rSolution with
        | .error message => some { console with terminated := some message }
        | .ok strings =>
            some { console with
              printers := Function.update console.printers i
                (.printing strings solutionList) }
    | .printing [] [] =>
        some { console with
          m_mutex := none
          printers := Function.update console.printers i (.outside .waiting) }

/-- The threads of the program with `n` workers. -/
def consoleThreads (order : Puzzle → Order) (n : ℕ) :
    System (Fin n) (Console n) where
  step := stepPrinter order

def Printer.isFinished : Printer → Bool
  | .outside worker => worker.isFinished
  | .printing _ _ => false

/-- What `main` prints and returns when its workers take their steps in the
order of a schedule; nothing where that order is not possible, does not join
them, or ends with an exception that leaves a thread. -/
def consoleMain (order : Puzzle → Order) (lines : List String)
    (schedule : List (Fin n)) : Option (String × ℕ) :=
  match TextLoader.new lines with
  | .error error =>
      error.message.map fun message =>
        ("Fatal exception: " ++ message ++ "\n", 1)
  | .ok loader => do
      let console ←
        (consoleThreads order n).run schedule (Console.start n loader)
      if (List.finRange n).all fun i => (console.printers i).isFinished then
        return (console.cout, 0)
      else none

/-! ## What a step does -/

variable {order : Puzzle → Order}

/-- The steps of the workers, one case for each way in which one can go. -/
inductive ConsoleStep (order : Puzzle → Order) (i : Fin n) :
    Console n → Console n → Prop
  | exhausted {console : Console n}
      (hwaiting : console.printers i = .outside .waiting)
      (hempty : console.threadSafeLoader.m_puzzles = []) :
      ConsoleStep order i console { console with
        printers := Function.update console.printers i (.outside .finished) }
  | take {console : Console n} {puzzle : Puzzle} {puzzles : List Puzzle}
      (hwaiting : console.printers i = .outside .waiting)
      (hpuzzles : console.threadSafeLoader.m_puzzles = puzzle :: puzzles) :
      ConsoleStep order i console { console with
        threadSafeLoader := ⟨puzzles⟩
        printers := Function.update console.printers i
          (.outside (afterGetPuzzle order (some puzzle))) }
  | fail {console : Console n} {message : String}
      (hfailed : console.printers i = .outside (.failed message)) :
      ConsoleStep order i console { console with terminated := some message }
  | lock {console : Console n} {solutionList : List Solution}
      (hadding : console.printers i = .outside (.adding solutionList))
      (hfree : console.m_mutex = none) :
      ConsoleStep order i console { console with
        m_mutex := some i
        printers := Function.update console.printers i
          (.printing [] solutionList)
        handed := console.handed ++ solutionList }
  | insert {console : Console n} {string : String} {strings : List String}
      {solutionList : List Solution}
      (hprinting : console.printers i =
        .printing (string :: strings) solutionList) :
      ConsoleStep order i console { console with
        cout := console.cout ++ string
        printers := Function.update console.printers i
          (.printing strings solutionList) }
  | throw {console : Console n} {rSolution : Solution}
      {solutionList : List Solution} {message : String}
      (hprinting : console.printers i =
        .printing [] (rSolution :: solutionList))
      (herror : streamed rSolution = .error message) :
      ConsoleStep order i console { console with terminated := some message }
  | convert {console : Console n} {rSolution : Solution}
      {solutionList : List Solution} {strings : List String}
      (hprinting : console.printers i =
        .printing [] (rSolution :: solutionList))
      (hstrings : streamed rSolution = .ok strings) :
      ConsoleStep order i console { console with
        printers := Function.update console.printers i
          (.printing strings solutionList) }
  | unlock {console : Console n}
      (hprinting : console.printers i = .printing [] []) :
      ConsoleStep order i console { console with
        m_mutex := none
        printers := Function.update console.printers i (.outside .waiting) }

/-- A program that has been terminated takes no steps. -/
theorem consoleStep_of_step {i : Fin n} {console next : Console n}
    (h : (consoleThreads order n).step i console = some next) :
    console.terminated = none ∧ ConsoleStep order i console next := by
  change stepPrinter order i console = some next at h
  rw [stepPrinter] at h
  split at h
  · cases h
  · next hterminated =>
    rw [Bool.not_eq_true, Option.isSome_eq_false_iff, Option.isNone_iff_eq_none]
      at hterminated
    apply And.intro hterminated
    split at h
    · next hwaiting =>
      obtain ⟨⟨puzzles⟩, m_mutex, cout, printers, handed, terminated⟩ := console
      cases puzzles with
      | nil =>
          cases h
          exact .exhausted hwaiting rfl
      | cons puzzle puzzles =>
          cases h
          exact .take hwaiting rfl
    · next solutionList hadding =>
      split at h
      · cases h
      · next hfree =>
        cases h
        exact .lock hadding hfree
    · cases h
    · next message hfailed =>
      cases h
      exact .fail hfailed
    · next string strings solutionList hprinting =>
      cases h
      exact .insert hprinting
    · next rSolution solutionList hprinting =>
      split at h
      · next message herror =>
        cases h
        exact .throw hprinting herror
      · next strings hstrings =>
        cases h
        exact .convert hprinting hstrings
    · next hprinting =>
      cases h
      exact .unlock hprinting

/-! ## The batch that is printed -/

/-- What a worker is for those that do not see it print. -/
def Printer.worker : Printer → Worker
  | .outside worker => worker
  | .printing _ _ => .waiting

/-- The program without its stream: the workers hand their solutions on when
they enter the critical section. -/
def Console.batch (console : Console n) : Batch n where
  loader := console.threadSafeLoader
  solutions := console.handed
  workers i := (console.printers i).worker

theorem worker_update (printers : Fin n → Printer) (i : Fin n)
    (printer : Printer) :
    (fun j => (Function.update printers i printer j).worker) =
      Function.update (fun j => (printers j).worker) i printer.worker := by
  funext j
  by_cases hj : j = i
  · subst hj
    rw [Function.update_self, Function.update_self]
  · rw [Function.update_of_ne hj, Function.update_of_ne hj]

theorem batch_update (console : Console n) (i : Fin n) (printer : Printer)
    (loader : TextLoader) (handed : List Solution) {m_mutex : Option (Fin n)}
    {cout : String} :
    ({ console with
      threadSafeLoader := loader
      m_mutex := m_mutex
      cout := cout
      printers := Function.update console.printers i printer
      handed := handed } : Console n).batch =
      { loader := loader
        solutions := handed
        workers := Function.update console.batch.workers i printer.worker } := by
  rw [Console.batch, worker_update]
  rfl

/-- A step of a worker that prints is none of the batch. -/
theorem batch_printing {console : Console n} {i : Fin n}
    {strings : List String} {solutionList : List Solution} {printer : Printer}
    {m_mutex : Option (Fin n)} {cout : String}
    (hprinting : console.printers i = .printing strings solutionList)
    (hworker : printer.worker = .waiting) :
    ({ console with
      m_mutex := m_mutex
      cout := cout
      printers := Function.update console.printers i printer } :
        Console n).batch = console.batch := by
  have hsame : Function.update console.batch.workers i printer.worker =
      console.batch.workers := by
    apply Function.update_eq_self_iff.mpr
    rw [hworker]
    exact (congrArg Printer.worker hprinting).symm
  rw [batch_update, hsame]
  rfl

/-- A step of the program is a step of the batch, or none. -/
theorem ConsoleStep.batch {i : Fin n} {console next : Console n}
    (h : ConsoleStep order i console next) :
    next.batch = console.batch ∨
      ∃ j, (batchWorkers order n).step j console.batch = some next.batch := by
  cases h with
  | exhausted hwaiting hempty =>
      have hworker : console.batch.workers i = .waiting :=
        congrArg Printer.worker hwaiting
      have hget : console.batch.loader.getPuzzle =
          (none, console.threadSafeLoader) := by
        change console.threadSafeLoader.getPuzzle = _
        rw [TextLoader.getPuzzle, hempty]
      refine Or.inr ⟨i, ?_⟩
      change stepWorker order i console.batch = _
      rw [stepWorker, hworker]
      dsimp only
      rw [hget, batch_update]
      rfl
  | @take puzzle puzzles hwaiting hpuzzles =>
      have hworker : console.batch.workers i = .waiting :=
        congrArg Printer.worker hwaiting
      have hget : console.batch.loader.getPuzzle = (some puzzle, ⟨puzzles⟩) := by
        change console.threadSafeLoader.getPuzzle = _
        rw [TextLoader.getPuzzle, hpuzzles]
      refine Or.inr ⟨i, ?_⟩
      change stepWorker order i console.batch = _
      rw [stepWorker, hworker]
      dsimp only
      rw [hget, batch_update]
      rfl
  | @lock solutionList hadding hfree =>
      have hworker : console.batch.workers i = .adding solutionList :=
        congrArg Printer.worker hadding
      refine Or.inr ⟨i, ?_⟩
      change stepWorker order i console.batch = _
      rw [stepWorker, hworker]
      dsimp only
      rw [batch_update]
      rfl
  | fail hfailed => exact Or.inl rfl
  | insert hprinting => exact Or.inl (batch_printing hprinting rfl)
  | throw hprinting herror => exact Or.inl rfl
  | convert hprinting hstrings => exact Or.inl (batch_printing hprinting rfl)
  | unlock hprinting => exact Or.inl (batch_printing hprinting rfl)

end SudokuSolver.Cpp
