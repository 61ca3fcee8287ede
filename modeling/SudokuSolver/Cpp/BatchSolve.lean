import Mathlib.Tactic.Abel
import SudokuSolver.Cpp.LuaWorker
import SudokuSolver.Support.System
import SudokuSolver.Support.Update

/-!
# Solving a batch with several workers

`sudoku.cpp` of the scripting library, with the thread-safe loader and the
thread-safe cache of solutions that its workers share.  A call of either is one
atomic step; what a worker does between two calls concerns nobody else.
-/

namespace SudokuSolver.Cpp

open Transition

variable {n : ℕ}

/-! ## Workers -/

/-- Where the thread of a worker is: about to call `GetPuzzle`, about to call
`AddSolutions`, at the end of `Process`, or about to be left by an exception. -/
inductive Worker where
  | waiting
  | adding (solutionList : List Solution)
  | finished
  | failed (message : String)

/-- What the workers share, and the workers.  `solutions` is the list that
`CacheSolutions` keeps. -/
structure Batch (n : ℕ) where
  loader : TextLoader
  solutions : List Solution
  workers : Fin n → Worker

/-- Where a worker is once it has dealt with what `GetPuzzle` returned. -/
def afterGetPuzzle (order : Puzzle → Order) : Option Puzzle → Worker
  | none => .finished
  | some puzzle =>
      match solvePuzzle (order puzzle) puzzle with
      | .error message => .failed message
      | .ok none => .waiting
      | .ok (some solution) => .adding [⟨puzzle, solution⟩]

/-- The next step of a worker. -/
def stepWorker (order : Puzzle → Order) (i : Fin n) (batch : Batch n) :
    Option (Batch n) :=
  match batch.workers i with
  | .waiting =>
      let (pPuzzle, loader) := batch.loader.getPuzzle
      some { batch with
        loader := loader
        workers := Function.update batch.workers i
          (afterGetPuzzle order pPuzzle) }
  | .adding solutionList =>
      some { batch with
        solutions := batch.solutions ++ solutionList
        workers := Function.update batch.workers i .waiting }
  | .finished => none
  | .failed _ => none

/-- The workers of a batch. -/
def batchWorkers (order : Puzzle → Order) (n : ℕ) : System (Fin n) (Batch n) where
  step := stepWorker order

/-- The workers have been started and none of them has done anything yet. -/
def Batch.start (n : ℕ) (loader : TextLoader) : Batch n where
  loader := loader
  solutions := []
  workers _ := .waiting

/-- What ends `batchSolve` without a result: exceptions, of which the last one
is thrown by pointer, and an exception that leaves the thread of a worker. -/
inductive Failure where
  | rangeError (error : RangeError)
  | invalidArgument (message : String)
  | logicError (message : String)
  | terminated (message : String)

/-- `PuzzleToString` where its exception is passed on. -/
def stringOf (puzzle : Puzzle) : Except Failure String :=
  (puzzleToString puzzle).mapError .invalidArgument

/-- The loop of `AddSolutionsInOrder`. -/
def addSolutionsFrom (rSourceSolutions : List Solution)
    (textLoader : TextLoader) (rTargetSolutions : List String) :
    Except Failure (List String) :=
  match _h : textLoader.getPuzzle with
  | (none, _) => .ok rTargetSolutions
  | (some puzzle, textLoader) =>
      match rSourceSolutions.find? fun solution =>
          puzzle == solution.m_puzzle with
      | none =>
          (stringOf puzzle).bind fun text =>
            .error (.logicError (text ++ " has no solution"))
      | some solution =>
          (stringOf solution.m_solution).bind fun text =>
            addSolutionsFrom rSourceSolutions textLoader
              (rTargetSolutions ++ [text])
termination_by textLoader.m_puzzles.length
decreasing_by exact TextLoader.length_getPuzzle_lt _h

def addSolutionsInOrder (rOriginalPuzzles : List String)
    (rSourceSolutions : List Solution) : Except Failure (List String) :=
  match TextLoader.new rOriginalPuzzles with
  | .error error => .error (.rangeError error)
  | .ok textLoader => addSolutionsFrom rSourceSolutions textLoader []

/-- The solutions that are there when all workers have been joined; nothing
while one of them is still running. -/
def join (batch : Batch n) : Option (Except Failure (List Solution)) :=
  let failure := (List.finRange n).findSome? fun i =>
    match batch.workers i with
    | .failed message => some message
    | _ => none
  match failure with
  | some message => some (.error (.terminated message))
  | none =>
      let joined := (List.finRange n).all fun i =>
        match batch.workers i with
        | .finished => true
        | _ => false
      if joined then some (.ok batch.solutions) else none

/-- `batchSolve` with `n` workers that take their steps in the order of a
schedule; nothing when that order is not possible or does not join them. -/
def batchSolve (order : Puzzle → Order) (rPuzzles : List String)
    (schedule : List (Fin n)) : Option (Except Failure (List String)) :=
  match TextLoader.new rPuzzles with
  | .error error => some (.error (.rangeError error))
  | .ok loader => do
      let batch ← (batchWorkers order n).run schedule (Batch.start n loader)
      let solutions ← join batch
      return solutions.bind (addSolutionsInOrder rPuzzles)

/-! ## Every schedule ends -/

/-- The number of steps a worker can take without another puzzle. -/
def Worker.rank : Worker → ℕ
  | .waiting => 1
  | .adding _ => 2
  | .finished => 0
  | .failed _ => 0

@[simp] theorem rank_waiting : Worker.waiting.rank = 1 := rfl

@[simp] theorem rank_adding (solutionList : List Solution) :
    (Worker.adding solutionList).rank = 2 := rfl

@[simp] theorem rank_finished : Worker.finished.rank = 0 := rfl

/-- A bound for the number of steps that are left. -/
def Batch.stepsLeft (batch : Batch n) : ℕ :=
  2 * batch.loader.m_puzzles.length + ∑ i, (batch.workers i).rank

/-- What a step does: a worker takes the next puzzle, or finds that there is
none, or adds its solutions. -/
theorem step_cases {order : Puzzle → Order} {i : Fin n} {batch next : Batch n}
    (h : (batchWorkers order n).step i batch = some next) :
    (batch.workers i = .waiting ∧ batch.loader.m_puzzles = [] ∧
      next = { batch with
        workers := Function.update batch.workers i .finished }) ∨
    (∃ puzzle puzzles, batch.workers i = .waiting ∧
      batch.loader.m_puzzles = puzzle :: puzzles ∧
      next = { batch with
        loader := ⟨puzzles⟩
        workers := Function.update batch.workers i
          (afterGetPuzzle order (some puzzle)) }) ∨
    ∃ solutionList, batch.workers i = .adding solutionList ∧
      next = { batch with
        solutions := batch.solutions ++ solutionList
        workers := Function.update batch.workers i .waiting } := by
  change stepWorker order i batch = some next at h
  rw [stepWorker] at h
  split at h
  · next hworker =>
    obtain ⟨⟨puzzles⟩, solutions, workers⟩ := batch
    cases puzzles with
    | nil => exact Or.inl ⟨hworker, rfl, (Option.some.inj h).symm⟩
    | cons puzzle puzzles =>
        exact Or.inr (Or.inl ⟨puzzle, puzzles, hworker, rfl,
          (Option.some.inj h).symm⟩)
  · next solutionList hworker =>
    exact Or.inr (Or.inr ⟨solutionList, hworker, (Option.some.inj h).symm⟩)
  · cases h
  · cases h

theorem rank_afterGetPuzzle_le (order : Puzzle → Order)
    (pPuzzle : Option Puzzle) : (afterGetPuzzle order pPuzzle).rank ≤ 2 := by
  cases afterGetPuzzle order pPuzzle with
  | waiting => exact Nat.le_succ 1
  | adding _ => exact le_rfl
  | finished => exact Nat.zero_le 2
  | failed _ => exact Nat.zero_le 2

theorem stepsLeft_lt {order : Puzzle → Order} (i : Fin n) (batch next : Batch n)
    (h : (batchWorkers order n).step i batch = some next) :
    next.stepsLeft < batch.stepsLeft := by
  rcases step_cases h with ⟨hworker, hempty, rfl⟩ |
    ⟨puzzle, puzzles, hworker, hpuzzles, rfl⟩ | ⟨solutionList, hworker, rfl⟩
  · have hsum := sum_update Worker.rank batch.workers i .finished
    rw [hworker, rank_waiting, rank_finished] at hsum
    rw [Batch.stepsLeft, Batch.stepsLeft]
    dsimp only
    omega
  · have hsum := sum_update Worker.rank batch.workers i
      (afterGetPuzzle order (some puzzle))
    have hrank := rank_afterGetPuzzle_le order (some puzzle)
    rw [hworker, rank_waiting] at hsum
    rw [Batch.stepsLeft, Batch.stepsLeft, hpuzzles, List.length_cons]
    dsimp only
    omega
  · have hsum := sum_update Worker.rank batch.workers i .waiting
    rw [hworker, rank_adding, rank_waiting] at hsum
    rw [Batch.stepsLeft, Batch.stepsLeft]
    dsimp only
    omega

theorem stepsLeft_start (n : ℕ) (loader : TextLoader) :
    (Batch.start n loader).stepsLeft = 2 * loader.m_puzzles.length + n := by
  simp [Batch.stepsLeft, Batch.start]

/-! ## One worker -/

/-- What a worker has still to do when the loader is all its own. -/
def Worker.rest (order : Puzzle → Order) (loader : TextLoader) :
    Worker → Processed
  | .waiting => process order loader
  | .adding solutionList =>
      let rest := process order loader
      { rest with added := solutionList :: rest.added }
  | .finished => { added := [], error := none }
  | .failed message => { added := [], error := some message }

theorem rest_afterGetPuzzle (order : Puzzle → Order) (puzzle : Puzzle)
    (puzzles : List Puzzle) :
    (afterGetPuzzle order (some puzzle)).rest order ⟨puzzles⟩ =
      process order ⟨puzzle :: puzzles⟩ := by
  rw [process_cons, afterGetPuzzle]
  cases solvePuzzle (order puzzle) puzzle with
  | error message => rfl
  | ok found =>
      cases found with
      | none => rfl
      | some solution => rfl

/-- What the batch adds when the worker has the loader to itself. -/
def Batch.outcome (order : Puzzle → Order) (batch : Batch 1) :
    List Solution × Option String :=
  let rest := (batch.workers 0).rest order batch.loader
  (batch.solutions ++ rest.added.flatten, rest.error)

/-- The steps of a worker that has the loader to itself never change what is
added in the end. -/
theorem outcome_step {order : Puzzle → Order} {i : Fin 1}
    {batch next : Batch 1} (h : (batchWorkers order 1).step i batch = some next) :
    next.outcome order = batch.outcome order := by
  have hi : i = 0 := Subsingleton.elim i 0
  subst hi
  rcases step_cases h with ⟨hworker, hempty, rfl⟩ |
    ⟨puzzle, puzzles, hworker, hpuzzles, rfl⟩ | ⟨solutionList, hworker, rfl⟩
  · have hloader : batch.loader = ⟨[]⟩ := congrArg TextLoader.mk hempty
    simp [Batch.outcome, hworker, Worker.rest, hloader]
  · have hloader : batch.loader = ⟨puzzle :: puzzles⟩ :=
      congrArg TextLoader.mk hpuzzles
    simp only [Batch.outcome, Function.update_self, rest_afterGetPuzzle,
      hworker, hloader]
    rfl
  · simp [Batch.outcome, hworker, Worker.rest]

/-- A single worker adds the solutions that `process` hands over, and stops with
its error. -/
theorem run_process {order : Puzzle → Order} {loader : TextLoader}
    {schedule : List (Fin 1)} {batch : Batch 1}
    (hrun : (batchWorkers order 1).run schedule (Batch.start 1 loader) =
      some batch) (hstuck : (batchWorkers order 1).Stuck batch) :
    batch.solutions = (process order loader).added.flatten ∧
      batch.workers 0 = match (process order loader).error with
        | none => .finished
        | some message => .failed message := by
  have houtcome := (batchWorkers order 1).run_invariant
    (P := fun st => st.outcome order =
      ((process order loader).added.flatten, (process order loader).error))
    (fun i st next hst hstep => (outcome_step hstep).trans hst) hrun rfl
  obtain ⟨hadded, herror⟩ := Prod.ext_iff.mp houtcome
  dsimp only [Batch.outcome] at hadded herror
  have hi : stepWorker order 0 batch = none := hstuck 0
  rw [stepWorker] at hi
  rw [← hadded, ← herror]
  split at hi
  · cases hi
  · cases hi
  · next hworker => simp [hworker, Worker.rest]
  · next message hworker => simp [hworker, Worker.rest]

/-! ## No puzzle is lost or taken twice -/

/-- A solution that is the one found first for its puzzle. -/
def Found (order : Puzzle → Order) (solution : Solution) : Prop :=
  solvePuzzle (order solution.m_puzzle) solution.m_puzzle =
    .ok (some solution.m_solution)

/-- The solutions that a worker has found and not yet added. -/
def Worker.pending : Worker → List Solution
  | .adding solutionList => solutionList
  | _ => []

/-- The puzzles for which a worker has found solutions. -/
def Worker.taken (worker : Worker) : Multiset Puzzle :=
  worker.pending.map Solution.m_puzzle

/-- A worker that no error has stopped, and whose solutions are the right
ones. -/
def Worker.Sound (order : Puzzle → Order) (worker : Worker) : Prop :=
  (∀ solution ∈ worker.pending, Found order solution) ∧
    ∀ message, worker ≠ .failed message

/-- What holds of a batch of puzzles that all have a solution: each of them is
with the loader, with a worker or among the solutions. -/
structure Batch.Inv (order : Puzzle → Order) (puzzles : List Puzzle)
    (batch : Batch n) : Prop where
  conserved : (batch.loader.m_puzzles : Multiset Puzzle) +
    ∑ i, (batch.workers i).taken +
      (batch.solutions.map Solution.m_puzzle : List Puzzle) = puzzles
  found : ∀ solution ∈ batch.solutions, Found order solution
  sound : ∀ i, (batch.workers i).Sound order
  finished : ∀ i, batch.workers i = .finished → batch.loader.m_puzzles = []

theorem Batch.inv_start (order : Puzzle → Order) (n : ℕ) (loader : TextLoader) :
    (Batch.start n loader).Inv order loader.m_puzzles where
  conserved := by simp [Batch.start, Worker.taken, Worker.pending]
  found := by simp [Batch.start]
  sound := by simp [Batch.start, Worker.Sound, Worker.pending]
  finished := by simp [Batch.start]

/-- A property of all workers, after one of them has changed. -/
theorem forall_update {P : Worker → Prop} {workers : Fin n → Worker}
    {i : Fin n} {worker : Worker} (hworkers : ∀ j, P (workers j))
    (hworker : P worker) (j : Fin n) :
    P (Function.update workers i worker j) := by
  by_cases hj : j = i
  · subst hj
    rwa [Function.update_self]
  · rw [Function.update_of_ne hj]
    exact hworkers j

/-- A worker that changes to one that is not finished. -/
theorem finished_of_update {workers : Fin n → Worker} {i j : Fin n}
    {worker : Worker} (hworker : worker ≠ .finished)
    (hj : Function.update workers i worker j = .finished) :
    workers j = .finished := by
  by_cases hji : j = i
  · subst hji
    rw [Function.update_self] at hj
    exact absurd hj hworker
  · rwa [Function.update_of_ne hji] at hj

theorem Batch.Inv.step {order : Puzzle → Order} {puzzles : List Puzzle}
    (hsolved : ∀ puzzle ∈ puzzles, ∃ solution,
      solvePuzzle (order puzzle) puzzle = .ok (some solution))
    (i : Fin n) (batch next : Batch n) (hinv : batch.Inv order puzzles)
    (h : (batchWorkers order n).step i batch = some next) :
    next.Inv order puzzles := by
  rcases step_cases h with ⟨hworker, hempty, rfl⟩ |
    ⟨puzzle, rest, hworker, hpuzzles, rfl⟩ | ⟨solutionList, hworker, rfl⟩
  · have htaken := sum_update Worker.taken batch.workers i .finished
    rw [hworker] at htaken
    have hsame : ∑ j, (Function.update batch.workers i .finished j).taken =
        ∑ j, (batch.workers j).taken := by
      simpa [Worker.taken, Worker.pending] using htaken
    have hsound : Worker.finished.Sound order := by
      simp [Worker.Sound, Worker.pending]
    constructor
    · rw [hsame]
      exact hinv.conserved
    · exact hinv.found
    · exact forall_update hinv.sound hsound
    · exact fun _ _ => hempty
  · have hmem : puzzle ∈ puzzles := by
      rw [← Multiset.mem_coe, ← hinv.conserved, hpuzzles]
      simp
    obtain ⟨solution, hsolution⟩ := hsolved puzzle hmem
    have hafter : afterGetPuzzle order (some puzzle) =
        .adding [⟨puzzle, solution⟩] := by
      rw [afterGetPuzzle, hsolution]
    rw [hafter]
    have htaken := sum_update Worker.taken batch.workers i
      (.adding [⟨puzzle, solution⟩])
    rw [hworker] at htaken
    have hmore :
        ∑ j, (Function.update batch.workers i
          (.adding [⟨puzzle, solution⟩]) j).taken =
        ∑ j, (batch.workers j).taken + {puzzle} := by
      simpa [Worker.taken, Worker.pending] using htaken
    have hsound : (Worker.adding [⟨puzzle, solution⟩]).Sound order := by
      simpa [Worker.Sound, Worker.pending, Found] using hsolution
    constructor
    · rw [hmore, ← hinv.conserved, hpuzzles, ← Multiset.cons_coe,
        ← Multiset.singleton_add]
      dsimp only
      abel
    · exact hinv.found
    · exact forall_update hinv.sound hsound
    · intro j hj
      have hold := hinv.finished j (finished_of_update (by simp) hj)
      exact absurd hold (by simp [hpuzzles])
  · have htaken := sum_update Worker.taken batch.workers i .waiting
    rw [hworker] at htaken
    have hless :
        ∑ j, (Function.update batch.workers i .waiting j).taken +
          (solutionList.map Solution.m_puzzle : List Puzzle) =
        ∑ j, (batch.workers j).taken := by
      simpa [Worker.taken, Worker.pending] using htaken
    have hadding : ∀ solution ∈ solutionList, Found order solution := by
      have hpending := (hinv.sound i).1
      rwa [hworker] at hpending
    have hsound : Worker.waiting.Sound order := by
      simp [Worker.Sound, Worker.pending]
    constructor
    · rw [← hinv.conserved, ← hless, List.map_append, ← Multiset.coe_add]
      dsimp only
      abel
    · intro solution hmem
      rcases List.mem_append.mp hmem with hold | hnew
      · exact hinv.found solution hold
      · exact hadding solution hnew
    · exact forall_update hinv.sound hsound
    · exact fun j hj => hinv.finished j (finished_of_update (by simp) hj)

/-! ## What a batch returns -/

/-- While no error has stopped a worker, the join waits until all workers are
finished. -/
theorem join_eq_some_iff {order : Puzzle → Order} {batch : Batch n}
    (hsound : ∀ i, (batch.workers i).Sound order)
    {r : Except Failure (List Solution)} :
    join batch = some r ↔
      (∀ i, batch.workers i = .finished) ∧ r = .ok batch.solutions := by
  have hfailure : ((List.finRange n).findSome? fun i =>
      match batch.workers i with
      | .failed message => some message
      | _ => none) = none := by
    rw [List.findSome?_eq_none_iff]
    intro i _
    have hrunning := (hsound i).2
    split
    · next message hworker => exact absurd hworker (hrunning message)
    · rfl
  have hjoined : ((List.finRange n).all fun i =>
      match batch.workers i with
      | .finished => true
      | _ => false) = true ↔ ∀ i, batch.workers i = .finished := by
    rw [List.all_eq_true]
    constructor
    · intro hall i
      have hi := hall i (List.mem_finRange i)
      split at hi
      · assumption
      · cases hi
    · intro hall i _
      rw [hall i]
  rw [join, hfailure]
  dsimp only
  split_ifs with h
  · rw [and_iff_right (hjoined.mp h), Option.some.injEq]
    exact eq_comm
  · exact iff_of_false (by simp) fun hall => h (hjoined.mpr hall.1)

/-- The strings of the solutions that are found for the puzzles. -/
theorem addSolutionsFrom_eq {rSourceSolutions : List Solution}
    {puzzles : List Puzzle} {texts : List String}
    (h : List.Forall₂ (fun puzzle text => ∃ solution,
      rSourceSolutions.find? (fun solution => puzzle == solution.m_puzzle) =
          some solution ∧
        stringOf solution.m_solution = .ok text) puzzles texts)
    (rTargetSolutions : List String) :
    addSolutionsFrom rSourceSolutions ⟨puzzles⟩ rTargetSolutions =
      .ok (rTargetSolutions ++ texts) := by
  induction h generalizing rTargetSolutions with
  | nil =>
      rw [addSolutionsFrom, List.append_nil]
      rfl
  | @cons puzzle text puzzles texts hpuzzle _ ih =>
      obtain ⟨solution, hfind, htext⟩ := hpuzzle
      rw [addSolutionsFrom]
      simp only [TextLoader.getPuzzle, hfind, htext]
      rw [Except.bind, ih, List.append_assoc]
      rfl

/-- The string that is due for a line: that of the solution which is found first
for its puzzle. -/
def IsAnswer (order : Puzzle → Order) (line text : String) : Prop :=
  ∃ puzzle solution, parseLine line = .ok puzzle ∧
    solvePuzzle (order puzzle) puzzle = .ok (some solution) ∧
    puzzleToString solution = .ok text

/-- The solution of a puzzle from a loader has a string. -/
theorem exists_text {puzzle solution : Puzzle} (hpuzzle : Loadable puzzle)
    (hsolution : IsSolution puzzle solution) :
    ∃ text, puzzleToString solution = .ok text := by
  obtain ⟨s, -, hs, hlength⟩ := hpuzzle
  obtain ⟨t, S, ht, -, rfl⟩ := hsolution
  cases eq_of_length hlength.length_eq ht
  have hsize : ((rowMajor s).map fun c => (S c).1).length ≤ 81 := by
    rw [List.length_map, length_rowMajor]
    exact Nat.pow_le_pow_left hs 4
  exact ⟨_, by rw [puzzleToString, if_neg (by omega)]⟩

/-- Lines whose puzzles can be solved have answers. -/
theorem exists_answers (order : Puzzle → Order) {rPuzzles : List String}
    {puzzles : List Puzzle}
    (hparsed : List.Forall₂ (fun line puzzle => parseLine line = .ok puzzle)
      rPuzzles puzzles)
    (hsolvable : ∀ puzzle ∈ puzzles, ∃ solution, IsSolution puzzle solution) :
    ∃ texts, List.Forall₂ (IsAnswer order) rPuzzles texts ∧
      List.Forall₂ (fun puzzle text => ∃ solution,
        solvePuzzle (order puzzle) puzzle = .ok (some solution) ∧
          puzzleToString solution = .ok text) puzzles texts := by
  induction hparsed with
  | nil => exact ⟨[], .nil, .nil⟩
  | @cons line puzzle rPuzzles puzzles hline _ ih =>
      obtain ⟨hpuzzle, hrest⟩ := List.forall_mem_cons.mp hsolvable
      obtain ⟨texts, hanswers, htexts⟩ := ih hrest
      have hloadable := loadable_of_parseLine hline
      obtain ⟨solution, hsolve, hsolution⟩ :=
        exists_solvePuzzle (order puzzle) hloadable hpuzzle
      obtain ⟨text, htext⟩ := exists_text hloadable hsolution
      exact ⟨text :: texts,
        .cons ⟨puzzle, solution, hline, hsolve, htext⟩ hanswers,
        .cons ⟨solution, hsolve, htext⟩ htexts⟩

/-- When all workers are finished, every puzzle has been solved once. -/
theorem Batch.Inv.solutions_eq {order : Puzzle → Order} {puzzles : List Puzzle}
    {batch : Batch n} (hn : 0 < n) (hinv : batch.Inv order puzzles)
    (hfinished : ∀ i, batch.workers i = .finished) :
    (batch.solutions.map Solution.m_puzzle).Perm puzzles := by
  have hempty := hinv.finished ⟨0, hn⟩ (hfinished ⟨0, hn⟩)
  have hconserved := hinv.conserved
  rw [← Multiset.coe_eq_coe]
  simpa [hempty, hfinished, Worker.taken, Worker.pending] using hconserved

/-- The solutions of all puzzles, in whatever order they were found, give the
answers in the order of the puzzles. -/
theorem addSolutionsInOrder_eq {order : Puzzle → Order}
    {rPuzzles texts : List String} {loader : TextLoader}
    {solutions : List Solution} (hload : TextLoader.new rPuzzles = .ok loader)
    (htexts : List.Forall₂ (fun puzzle text => ∃ solution,
      solvePuzzle (order puzzle) puzzle = .ok (some solution) ∧
        puzzleToString solution = .ok text) loader.m_puzzles texts)
    (hfound : ∀ solution ∈ solutions, Found order solution)
    (hall : (solutions.map Solution.m_puzzle).Perm loader.m_puzzles) :
    addSolutionsInOrder rPuzzles solutions = .ok texts := by
  rw [addSolutionsInOrder, hload]
  refine addSolutionsFrom_eq ?_ []
  refine (List.forall₂_and_left _ _).mpr ⟨fun _ h => h, htexts⟩ |>.imp ?_
  rintro puzzle text ⟨hmem, solution, hsolve, htext⟩
  obtain ⟨added, hadded, hsame⟩ :=
    List.mem_map.mp (hall.mem_iff.mpr hmem)
  have hisSome : (solutions.find? fun solution =>
      puzzle == solution.m_puzzle).isSome = true := by
    rw [List.find?_isSome]
    exact ⟨added, hadded, by rw [hsame, beq_self_eq_true]⟩
  obtain ⟨first, hfirst⟩ := Option.isSome_iff_exists.mp hisSome
  have hpuzzle := List.find?_some hfirst
  rw [beq_iff_eq] at hpuzzle
  have hsolved := hfound first (List.mem_of_find?_eq_some hfirst)
  rw [Found, ← hpuzzle, hsolve] at hsolved
  have hsolution : solution = first.m_solution :=
    Option.some.inj (Except.ok.inj hsolved)
  refine ⟨first, hfirst, ?_⟩
  rw [stringOf, ← hsolution, htext]
  rfl

/-- For lines that are all accepted and all have a solution, there is one answer
for each line, and whatever the number of workers and the order of their steps,
`batchSolve` ends after a bounded number of steps and returns the answers. -/
theorem batchSolve_answers (order : Puzzle → Order) {rPuzzles : List String}
    {loader : TextLoader} (hload : TextLoader.new rPuzzles = .ok loader)
    (hsolvable : ∀ puzzle ∈ loader.m_puzzles,
      ∃ solution, IsSolution puzzle solution) :
    ∃ texts, List.Forall₂ (IsAnswer order) rPuzzles texts ∧
      ∀ n, 0 < n → ∀ (schedule : List (Fin n)) (batch : Batch n),
        (batchWorkers order n).run schedule (Batch.start n loader) =
          some batch →
        schedule.length ≤ 2 * loader.m_puzzles.length + n ∧
          (∀ r, batchSolve order rPuzzles schedule = some r →
            r = .ok texts) ∧
          ((batchWorkers order n).Stuck batch →
            batchSolve order rPuzzles schedule = some (.ok texts)) := by
  have hloadable := TextLoader.loadable hload
  obtain ⟨texts, hanswers, htexts⟩ := exists_answers order
    (TextLoader.new_eq_ok_iff.mp hload) hsolvable
  refine ⟨texts, hanswers, fun n hn schedule batch hrun => ?_⟩
  have hsolved : ∀ puzzle ∈ loader.m_puzzles, ∃ solution,
      solvePuzzle (order puzzle) puzzle = .ok (some solution) := by
    intro puzzle hmem
    obtain ⟨solution, hsolve, -⟩ := exists_solvePuzzle (order puzzle)
      (hloadable puzzle hmem) (hsolvable puzzle hmem)
    exact ⟨solution, hsolve⟩
  have hinv : batch.Inv order loader.m_puzzles :=
    (batchWorkers order n).run_invariant (Batch.Inv.step hsolved) hrun
      (Batch.inv_start order n loader)
  have hreturn : batchSolve order rPuzzles schedule =
      (join batch).map fun solutions =>
        solutions.bind (addSolutionsInOrder rPuzzles) := by
    rw [batchSolve, hload]
    dsimp only
    rw [hrun, Option.bind_eq_bind, Option.bind_some]
    cases join batch with
    | none => rfl
    | some solutions => rfl
  have hjoined : (∀ i, batch.workers i = .finished) →
      addSolutionsInOrder rPuzzles batch.solutions = .ok texts :=
    fun hfinished => addSolutionsInOrder_eq hload htexts hinv.found
      (hinv.solutions_eq hn hfinished)
  refine ⟨?_, ?_, ?_⟩
  · have hlength :=
      (batchWorkers order n).length_le_of_run stepsLeft_lt hrun
    rw [stepsLeft_start] at hlength
    omega
  · intro r hr
    rw [hreturn] at hr
    obtain ⟨solutions, hjoin, rfl⟩ := Option.map_eq_some_iff.mp hr
    obtain ⟨hfinished, rfl⟩ := (join_eq_some_iff hinv.sound).mp hjoin
    exact hjoined hfinished
  · intro hstuck
    have hfinished : ∀ i, batch.workers i = .finished := by
      intro i
      have hi : stepWorker order i batch = none := hstuck i
      rw [stepWorker] at hi
      split at hi
      · cases hi
      · cases hi
      · assumption
      · next message hworker =>
        exact absurd hworker ((hinv.sound i).2 message)
    rw [hreturn, (join_eq_some_iff hinv.sound).mpr ⟨hfinished, rfl⟩]
    exact congrArg some (hjoined hfinished)

/-- A batch that repeats a puzzle. -/
theorem batchSolve_answers_repeated :
    ∃ loader, TextLoader.new ["0", "0"] = .ok loader ∧
      ∃ texts, List.Forall₂ (IsAnswer fun _ => Order.inOrder) ["0", "0"] texts ∧
        ∀ n, 0 < n → ∀ (schedule : List (Fin n)) (batch : Batch n),
          (batchWorkers (fun _ => Order.inOrder) n).run schedule
            (Batch.start n loader) = some batch →
          schedule.length ≤ 2 * loader.m_puzzles.length + n ∧
            (∀ r, batchSolve (fun _ => Order.inOrder) ["0", "0"] schedule =
              some r → r = .ok texts) ∧
            ((batchWorkers (fun _ => Order.inOrder) n).Stuck batch →
              batchSolve (fun _ => Order.inOrder) ["0", "0"] schedule =
                some (.ok texts)) := by
  have hload : TextLoader.new ["0", "0"] = .ok ⟨[[0], [0]]⟩ := by rfl
  have hsolvable : ∀ puzzle ∈ [[0], [0]], ∃ solution,
      IsSolution puzzle solution := by
    have hsquare : ∀ c : Coord 1, c = (0, 0) := by decide
    have hone : CompletesItems some [0] fun _ : Coord 1 =>
        (⟨1, by decide⟩ : Value 1) := by
      refine ⟨?_, ?_⟩
      · refine isCompletion_of_distinct (card_values 1)
          (fun c => Finset.mem_univ _) fun c d hpeer => ?_
        exact absurd ((hsquare c).trans (hsquare d).symm) hpeer.1
      · intro c v hitem hv
        rw [hsquare c] at hitem
        exact absurd (Option.some.inj hitem).symm hv
    intro puzzle hpuzzle
    have heq : puzzle = [0] := by simpa using hpuzzle
    rw [heq]
    exact ⟨_, 1, _, rfl, hone, rfl⟩
  exact ⟨_, hload, batchSolve_answers _ hload hsolvable⟩

end SudokuSolver.Cpp
