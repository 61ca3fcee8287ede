import SudokuSolver.Cpp.Accounts

/-!
# How a batch ends when not every puzzle has a solution

A puzzle that contradicts itself ends the program, whichever worker takes it; a
puzzle that merely has no solution is reported once all workers have been
joined, and the first one in the order of the batch is.
-/

namespace SudokuSolver.Cpp

open Transition

variable {n : ℕ} {order : Puzzle → Order}

/-- The error with which Lua stops at a puzzle that is not consistent. -/
def inconsistentMessage : String :=
  "?:0: attempt to index a number value"

theorem afterGetPuzzle_failed {puzzle : Puzzle} {message : String}
    (hpuzzle : Loadable puzzle)
    (h : afterGetPuzzle order (some puzzle) = .failed message) :
    ¬Consistent puzzle ∧ message = inconsistentMessage := by
  rw [afterGetPuzzle] at h
  rcases solvePuzzle_exact (order puzzle) hpuzzle with
    ⟨hinconsistent, hstop⟩ | ⟨-, found, hfound, -, -⟩
  · rw [hstop] at h
    exact ⟨hinconsistent, (Worker.failed.inj h).symm⟩
  · rw [hfound] at h
    cases found <;> cases h

theorem afterGetPuzzle_of_not_consistent {puzzle : Puzzle}
    (hpuzzle : Loadable puzzle) (hinconsistent : ¬Consistent puzzle) :
    afterGetPuzzle order (some puzzle) = .failed inconsistentMessage := by
  rw [afterGetPuzzle]
  rcases solvePuzzle_exact (order puzzle) hpuzzle with
    ⟨-, hstop⟩ | ⟨hconsistent, -⟩
  · rw [hstop]
    rfl
  · exact absurd hconsistent hinconsistent

theorem afterGetPuzzle_ne_finished (puzzle : Puzzle) :
    afterGetPuzzle order (some puzzle) ≠ .finished := by
  intro h
  rw [afterGetPuzzle] at h
  split at h <;> cases h

/-! ## What the workers have found out -/

/-- Puzzles that are not consistent are still among those that are left, or a
worker has failed; and no worker fails without such a puzzle. -/
structure Inspected (puzzles left : List Puzzle) (workers : Fin n → Worker) :
    Prop where
  consistent : ∀ puzzle ∈ puzzles, Consistent puzzle ∨ puzzle ∈ left ∨
    ∃ i, workers i = .failed inconsistentMessage
  failed : ∀ i message, workers i = .failed message →
    message = inconsistentMessage ∧ ∃ puzzle ∈ puzzles, ¬Consistent puzzle

namespace Inspected

variable {puzzles left : List Puzzle} {workers : Fin n → Worker}

theorem start (n : ℕ) (puzzles : List Puzzle) :
    Inspected puzzles puzzles fun _ : Fin n => .waiting where
  consistent := fun _ hpuzzle => Or.inr (Or.inl hpuzzle)
  failed := by simp

/-- A failed worker stays as it is when another one changes. -/
theorem failed_update {i : Fin n} {worker : Worker}
    (hi : ∀ message, workers i ≠ .failed message)
    (h : ∃ j, workers j = .failed inconsistentMessage) :
    ∃ j, Function.update workers i worker j = .failed inconsistentMessage := by
  obtain ⟨j, hj⟩ := h
  have hne : j ≠ i := by
    rintro rfl
    exact hi _ hj
  exact ⟨j, by rwa [Function.update_of_ne hne]⟩

/-- What is known of the failures of all workers, after one of them has
changed. -/
theorem failed_of_update {P : String → Prop} {i : Fin n} {worker : Worker}
    (hworkers : ∀ j message, workers j = .failed message → P message)
    (hworker : ∀ message, worker = .failed message → P message) (j : Fin n)
    (message : String)
    (hj : Function.update workers i worker j = .failed message) : P message := by
  by_cases hji : j = i
  · subst hji
    rw [Function.update_self] at hj
    exact hworker message hj
  · rw [Function.update_of_ne hji] at hj
    exact hworkers j message hj

/-- A worker goes on without another puzzle. -/
theorem goOn (h : Inspected puzzles left workers) {i : Fin n} {worker : Worker}
    (hbefore : ∀ message, workers i ≠ .failed message)
    (hafter : ∀ message, worker ≠ .failed message) :
    Inspected puzzles left (Function.update workers i worker) := by
  constructor
  · intro puzzle hpuzzle
    refine (h.consistent puzzle hpuzzle).imp_right (Or.imp_right ?_)
    exact failed_update hbefore
  · apply failed_of_update h.failed
    exact fun message hmessage => absurd hmessage (hafter message)

/-- A worker takes a puzzle. -/
theorem take {puzzle : Puzzle} (h : Inspected puzzles (puzzle :: left) workers)
    {i : Fin n} (hwaiting : workers i = .waiting) (hmem : puzzle ∈ puzzles)
    (hpuzzle : Loadable puzzle) :
    Inspected puzzles left
      (Function.update workers i (afterGetPuzzle order (some puzzle))) := by
  constructor
  · intro other hother
    rcases h.consistent other hother with hconsistent | hleft | hsome
    · exact Or.inl hconsistent
    · rcases List.mem_cons.mp hleft with rfl | hrest
      · by_cases hconsistent : Consistent other
        · exact Or.inl hconsistent
        · refine Or.inr (Or.inr ⟨i, ?_⟩)
          rw [Function.update_self]
          exact afterGetPuzzle_of_not_consistent hpuzzle hconsistent
      · exact Or.inr (Or.inl hrest)
    · exact Or.inr (Or.inr (failed_update (by simp [hwaiting]) hsome))
  · apply failed_of_update h.failed
    intro message hmessage
    obtain ⟨hinconsistent, hsame⟩ := afterGetPuzzle_failed hpuzzle hmessage
    exact ⟨hsame, puzzle, hmem, hinconsistent⟩

/-- Where no puzzle is left and all workers are finished, all puzzles were
consistent. -/
theorem consistent_of_finished (h : Inspected puzzles left workers)
    (hleft : left = []) (hworkers : ∀ i, workers i = .finished) :
    ∀ puzzle ∈ puzzles, Consistent puzzle := by
  intro puzzle hpuzzle
  rcases h.consistent puzzle hpuzzle with hconsistent | hmem | ⟨i, hi⟩
  · exact hconsistent
  · rw [hleft] at hmem
    cases hmem
  · rw [hworkers i] at hi
    cases hi

end Inspected

/-- All puzzles of a batch are accounted for, and what is not consistent has been
found out by those who took it. -/
structure Batch.Examined (order : Puzzle → Order) (puzzles : List Puzzle)
    (batch : Batch n) : Prop where
  accounted : Accounted order puzzles batch.loader.m_puzzles batch.workers
    batch.solutions
  inspected : Inspected puzzles batch.loader.m_puzzles batch.workers
  finished : ∀ i, batch.workers i = .finished → batch.loader.m_puzzles = []

namespace Batch.Examined

variable {puzzles : List Puzzle} {batch next : Batch n}

theorem start (order : Puzzle → Order) (n : ℕ) (loader : TextLoader) :
    (Batch.start n loader).Examined order loader.m_puzzles where
  accounted := Accounted.start order n loader.m_puzzles
  inspected := Inspected.start n loader.m_puzzles
  finished := by simp [Batch.start]

theorem step (hloadable : ∀ puzzle ∈ puzzles, Loadable puzzle) (i : Fin n)
    (batch next : Batch n) (h : batch.Examined order puzzles)
    (hstep : (batchWorkers order n).step i batch = some next) :
    next.Examined order puzzles := by
  obtain ⟨haccounted, hinspected, hfinished⟩ := h
  rcases step_cases hstep with ⟨hworker, hempty, rfl⟩ |
    ⟨puzzle, rest, hworker, hpuzzles, rfl⟩ | ⟨solutionList, hworker, rfl⟩
  · constructor
    · exact haccounted.exhausted hworker
    · exact hinspected.goOn (by simp [hworker]) (by simp)
    · exact fun _ _ => hempty
  · rw [hpuzzles] at haccounted hinspected
    have hmem : puzzle ∈ puzzles := haccounted.mem_left List.mem_cons_self
    have hpuzzle := hloadable puzzle hmem
    constructor
    · exact haccounted.take hworker hpuzzle
    · exact hinspected.take hworker hmem hpuzzle
    · intro j hj
      have hold := hfinished j
        (finished_of_update (afterGetPuzzle_ne_finished puzzle) hj)
      rw [hpuzzles] at hold
      cases hold
  · constructor
    · exact haccounted.add hworker
    · exact hinspected.goOn (by simp [hworker]) (by simp)
    · exact fun j hj => hfinished j (finished_of_update (by simp) hj)

/-- Where all workers are finished, all puzzles were consistent. -/
theorem consistent_of_finished (h : batch.Examined order puzzles) (hn : 0 < n)
    (hworkers : ∀ i, batch.workers i = .finished) :
    ∀ puzzle ∈ puzzles, Consistent puzzle :=
  h.inspected.consistent_of_finished (h.finished ⟨0, hn⟩ (hworkers _)) hworkers

/-- Where all puzzles are consistent, no worker fails. -/
theorem ne_failed (h : batch.Examined order puzzles)
    (hconsistent : ∀ puzzle ∈ puzzles, Consistent puzzle) (i : Fin n)
    (message : String) : batch.workers i ≠ .failed message := by
  intro hi
  obtain ⟨-, puzzle, hpuzzle, hinconsistent⟩ := h.inspected.failed i message hi
  exact hinconsistent (hconsistent puzzle hpuzzle)

end Batch.Examined

theorem examined_of_run {loader : TextLoader} {schedule : List (Fin n)}
    {batch : Batch n}
    (hloadable : ∀ puzzle ∈ loader.m_puzzles, Loadable puzzle)
    (hrun : (batchWorkers order n).run schedule (Batch.start n loader) =
      some batch) : batch.Examined order loader.m_puzzles :=
  (batchWorkers order n).run_invariant (Batch.Examined.step hloadable) hrun
    (Batch.Examined.start order n loader)

/-- A worker that cannot go on is finished or has failed. -/
theorem worker_of_stuck {batch : Batch n}
    (hstuck : (batchWorkers order n).Stuck batch) (i : Fin n) :
    batch.workers i = .finished ∨
      ∃ message, batch.workers i = .failed message := by
  have hi : stepWorker order i batch = none := hstuck i
  rw [stepWorker] at hi
  split at hi
  · cases hi
  · cases hi
  · next hworker => exact Or.inl hworker
  · next message hworker => exact Or.inr ⟨message, hworker⟩

/-! ## What the batch returns -/

/-- One failed worker is enough. -/
theorem join_failed {batch : Batch n} {message : String}
    (hsame : ∀ i other, batch.workers i = .failed other → other = message)
    (hsome : ∃ i, batch.workers i = .failed message) :
    join batch = some (.error (.terminated message)) := by
  obtain ⟨i, hi⟩ := hsome
  rw [join]
  dsimp only
  split
  · next other hfound =>
    obtain ⟨j, -, hj⟩ := List.exists_of_findSome?_eq_some hfound
    split at hj
    · next message' hworker =>
      cases hj
      rw [hsame j _ hworker]
    · cases hj
  · next hnone =>
    have hfirst := List.findSome?_eq_none_iff.mp hnone i (List.mem_finRange i)
    rw [hi] at hfirst
    cases hfirst

/-- A puzzle without a solution stops the search for the solutions, if there is
one for each of the puzzles before it. -/
theorem addSolutionsFrom_error {rSourceSolutions : List Solution}
    {before after : List Puzzle} {puzzle : Puzzle} {text : String}
    (hbefore : ∀ other ∈ before, ∃ solution text,
      rSourceSolutions.find? (fun solution => other == solution.m_puzzle) =
          some solution ∧
        stringOf solution.m_solution = .ok text)
    (hpuzzle : rSourceSolutions.find?
      (fun solution => puzzle == solution.m_puzzle) = none)
    (htext : stringOf puzzle = .ok text) (rTargetSolutions : List String) :
    addSolutionsFrom rSourceSolutions ⟨before ++ puzzle :: after⟩
      rTargetSolutions =
        .error (.logicError (text ++ " has no solution")) := by
  induction before generalizing rTargetSolutions with
  | nil =>
      rw [List.nil_append, addSolutionsFrom]
      simp only [TextLoader.getPuzzle, hpuzzle, htext]
      rfl
  | cons other before ih =>
      obtain ⟨⟨solution, otherText, hfind, hother⟩, hrest⟩ :=
        List.forall_mem_cons.mp hbefore
      rw [List.cons_append, addSolutionsFrom]
      simp only [TextLoader.getPuzzle, hfind, hother]
      rw [Except.bind, ih hrest]

/-- The solution that is found first for a puzzle is a solution of it. -/
theorem find_solution {solutions : List Solution} {puzzle : Puzzle}
    (hmem : puzzle ∈ solutions.map Solution.m_puzzle) :
    ∃ solution ∈ solutions, puzzle = solution.m_puzzle ∧
      solutions.find? (fun solution => puzzle == solution.m_puzzle) =
        some solution := by
  obtain ⟨added, hadded, hsame⟩ := List.mem_map.mp hmem
  have hisSome : (solutions.find? fun solution =>
      puzzle == solution.m_puzzle).isSome = true := by
    rw [List.find?_isSome]
    exact ⟨added, hadded, by rw [hsame, beq_self_eq_true]⟩
  obtain ⟨first, hfirst⟩ := Option.isSome_iff_exists.mp hisSome
  have hpuzzle := List.find?_some hfirst
  rw [beq_iff_eq] at hpuzzle
  exact ⟨first, List.mem_of_find?_eq_some hfirst, hpuzzle, hfirst⟩

/-- A puzzle from a loader has a string. -/
theorem exists_puzzleText {puzzle : Puzzle} (hpuzzle : Loadable puzzle) :
    ∃ text, puzzleToString puzzle = .ok text := by
  obtain ⟨s, -, hs, hlength, -⟩ := hpuzzle
  have hsize : puzzle.length ≤ 81 := by
    rw [hlength]
    exact Nat.pow_le_pow_left hs 4
  exact ⟨_, by rw [puzzleToString, if_neg (not_lt.mpr hsize)]⟩

theorem batchSolve_of_join {rPuzzles : List String} {loader : TextLoader}
    {schedule : List (Fin n)} {batch : Batch n}
    {r : Except Failure (List Solution)}
    (hload : TextLoader.new rPuzzles = .ok loader)
    (hrun : (batchWorkers order n).run schedule (Batch.start n loader) =
      some batch) (hjoin : join batch = some r) :
    batchSolve order rPuzzles schedule =
      some (r.bind (addSolutionsInOrder rPuzzles)) := by
  rw [batchSolve, hload]
  dsimp only
  rw [hrun, Option.bind_eq_bind, Option.bind_some, hjoin]
  rfl

/-- Whatever the order of their steps, one or more workers come to an end after a
bounded number of them.  Then a batch of accepted lines in which some puzzle is
not consistent ends the program with the error of Lua; and one in which all are
consistent, but not all have a solution, throws the error that names the first
puzzle without one. -/
theorem batchSolve_outcome (order : Puzzle → Order) {rPuzzles : List String}
    {loader : TextLoader} {schedule : List (Fin n)} {batch : Batch n}
    (hn : 0 < n) (hload : TextLoader.new rPuzzles = .ok loader)
    (hrun : (batchWorkers order n).run schedule (Batch.start n loader) =
      some batch) :
    schedule.length ≤ 2 * loader.m_puzzles.length + n ∧
      ((batchWorkers order n).Stuck batch →
        ((∃ puzzle ∈ loader.m_puzzles, ¬Consistent puzzle) →
          batchSolve order rPuzzles schedule =
            some (.error (.terminated inconsistentMessage))) ∧
        ((∀ puzzle ∈ loader.m_puzzles, Consistent puzzle) →
          ∀ before puzzle after, loader.m_puzzles = before ++ puzzle :: after →
            (∀ other ∈ before, Solvable other) → ¬Solvable puzzle →
            ∃ text, puzzleToString puzzle = .ok text ∧
              batchSolve order rPuzzles schedule =
                some (.error (.logicError (text ++ " has no solution"))))) := by
  have hlength := (batchWorkers order n).length_le_of_run stepsLeft_lt hrun
  rw [stepsLeft_start] at hlength
  refine ⟨by omega, fun hstuck => ?_⟩
  have hloadable := TextLoader.loadable hload
  have hexamined := examined_of_run hloadable hrun
  have haccounted := hexamined.accounted
  have hworkers := worker_of_stuck hstuck
  constructor
  · rintro ⟨puzzle, hpuzzle, hinconsistent⟩
    have hfailed := fun i other hi => (hexamined.inspected.failed i other hi).1
    have hsome : ∃ i, batch.workers i = .failed inconsistentMessage := by
      by_contra hnone
      apply hinconsistent
      refine hexamined.consistent_of_finished hn (fun i => ?_) puzzle hpuzzle
      refine (hworkers i).resolve_right ?_
      rintro ⟨message, hi⟩
      exact hnone ⟨i, hfailed i message hi ▸ hi⟩
    rw [batchSolve_of_join hload hrun (join_failed hfailed hsome)]
    rfl
  · intro hconsistent before puzzle after hpuzzles hbefore hunsolvable
    have hall : ∀ i, batch.workers i = .finished := by
      intro i
      refine (hworkers i).resolve_right ?_
      rintro ⟨message, hi⟩
      exact hexamined.ne_failed hconsistent i message hi
    have hsettled := haccounted.settled hloadable
      (hexamined.finished ⟨0, hn⟩ (hall _)) fun i => by rw [hall i]; rfl
    have hmem : ∀ other, other ∈ batch.solutions.map Solution.m_puzzle ↔
        other ∈ loader.m_puzzles ∧ Solvable other := by
      intro other
      simp only [hsettled.mem_iff, List.mem_filter, decide_eq_true_eq]
    have hloads : ∀ other ∈ before ++ puzzle :: after, Loadable other := by
      rw [← hpuzzles]
      exact hloadable
    obtain ⟨text, htext⟩ := exists_puzzleText (hloads puzzle (by simp))
    refine ⟨text, htext, ?_⟩
    have hsound : ∀ i, (batch.workers i).Sound order := by
      intro i
      apply And.intro (haccounted.truthful i)
      simp [hall i]
    rw [batchSolve_of_join hload hrun
      ((join_eq_some_iff hsound).mpr ⟨hall, rfl⟩)]
    apply congrArg some
    change addSolutionsInOrder rPuzzles batch.solutions = _
    rw [addSolutionsInOrder, hload]
    change addSolutionsFrom batch.solutions ⟨loader.m_puzzles⟩ [] = _
    rw [hpuzzles]
    apply addSolutionsFrom_error
    · intro other hother
      obtain ⟨solution, hsolution, rfl, hfind⟩ := find_solution
        ((hmem other).mpr ⟨by simp [hpuzzles, hother], hbefore other hother⟩)
      obtain ⟨otherText, hotherText⟩ := exists_text
        (hloads _ (List.mem_append_left _ hother))
        (haccounted.isSolution hloadable hsolution)
      exact ⟨solution, otherText, hfind, by rw [stringOf, hotherText]; rfl⟩
    · rw [List.find?_eq_none]
      intro solution hsolution hsame
      rw [beq_iff_eq] at hsame
      apply hunsolvable
      rw [hsame]
      exact ⟨_, haccounted.isSolution hloadable hsolution⟩
    · rw [stringOf, htext]
      rfl

/-- A puzzle with two equal clues in a row. -/
def contradictory : Puzzle := 1 :: 1 :: List.replicate 14 0

theorem not_consistent_contradictory : ¬Consistent contradictory :=
  not_consistent_of_peers (s := 2) (c := (0, 0)) (d := (1, 0))
    (v := ⟨1, by decide⟩) (by decide) (by decide) (by decide) (by decide)

theorem afterGetPuzzle_contradictory (order : Puzzle → Order) :
    afterGetPuzzle order (some contradictory) = .failed inconsistentMessage := by
  have hline : parseLine "1100000000000000" = .ok contradictory := by rfl
  exact afterGetPuzzle_of_not_consistent (loadable_of_parseLine hline)
    not_consistent_contradictory

/-- A batch of this puzzle. -/
theorem batchSolve_outcome_contradictory :
    batchSolve (n := 1) (fun _ => Order.inOrder) ["1100000000000000"] [0] =
      some (.error (.terminated inconsistentMessage)) := by
  have hload : TextLoader.new ["1100000000000000"] =
      .ok ⟨[contradictory]⟩ := by rfl
  have hrun : (batchWorkers (fun _ => Order.inOrder) 1).run [0]
      (Batch.start 1 ⟨[contradictory]⟩) = some
        { loader := ⟨[]⟩
          solutions := []
          workers := Function.update (fun _ => .waiting) 0
            (.failed inconsistentMessage) } := by
    rw [← afterGetPuzzle_contradictory fun _ => Order.inOrder]
    rfl
  refine ((batchSolve_outcome _ Nat.one_pos hload hrun).2 fun i => ?_).1
    ⟨_, List.mem_cons_self, not_consistent_contradictory⟩
  rw [Subsingleton.elim i 0]
  rfl

end SudokuSolver.Cpp
