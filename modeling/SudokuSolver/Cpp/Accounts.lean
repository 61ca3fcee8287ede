import Mathlib.Data.Multiset.Filter
import SudokuSolver.Cpp.BatchSolve

/-!
# Puzzles are accounted for

Workers that share a loader, whatever becomes of their solutions: every puzzle
is with the loader, with a worker, among the solutions that were handed on, or
it has been dropped because it has no solution.
-/

namespace SudokuSolver.Cpp

variable {n : ℕ} {order : Puzzle → Order} {puzzles left : List Puzzle}
  {workers : Fin n → Worker} {handed : List Solution}

/-! ## The thread of a worker -/

def Worker.isFinished : Worker → Bool
  | .finished => true
  | _ => false

theorem isFinished_iff {worker : Worker} :
    worker.isFinished = true ↔ worker = .finished := by
  cases worker <;> simp [Worker.isFinished]

/-! ## Where every puzzle is -/

def Solvable (puzzle : Puzzle) : Prop := ∃ solution, IsSolution puzzle solution

/-- The solutions of a worker are those that are found first. -/
def Worker.Truthful (order : Puzzle → Order) (worker : Worker) : Prop :=
  ∀ solution ∈ worker.pending, Found order solution

/-- The puzzles `left` with the loader, those of the workers and those of the
solutions that were `handed` on are, but for some without a solution, the
puzzles there were at first; and the solutions are those that are found first. -/
structure Accounted (order : Puzzle → Order) (puzzles left : List Puzzle)
    (workers : Fin n → Worker) (handed : List Solution) : Prop where
  conserved : ∃ dropped : Multiset Puzzle,
    (∀ puzzle ∈ dropped, ¬Solvable puzzle) ∧
      (left : Multiset Puzzle) + ∑ i, (workers i).taken +
        (handed.map Solution.m_puzzle : List Puzzle) + dropped = puzzles
  truthful : ∀ i, (workers i).Truthful order
  found : ∀ solution ∈ handed, Found order solution

/-- What `GetPuzzle` returned is with the worker afterwards, or has been
dropped. -/
theorem afterGetPuzzle_taken (order : Puzzle → Order) {puzzle : Puzzle}
    (hpuzzle : Loadable puzzle) :
    ((afterGetPuzzle order (some puzzle)).taken = {puzzle} ∨
      (afterGetPuzzle order (some puzzle)).taken = 0 ∧ ¬Solvable puzzle) ∧
    (afterGetPuzzle order (some puzzle)).Truthful order := by
  rw [afterGetPuzzle]
  rcases solvePuzzle_exact (order puzzle) hpuzzle with
    ⟨hinconsistent, hstop⟩ | ⟨-, found, hfound, -, hnone⟩
  · rw [hstop]
    refine ⟨Or.inr ⟨by simp [Worker.taken, Worker.pending], ?_⟩,
      by simp [Worker.Truthful, Worker.pending]⟩
    rintro ⟨solution, hsolution⟩
    exact hinconsistent hsolution.consistent
  · rw [hfound]
    cases found with
    | none =>
        exact ⟨Or.inr ⟨by simp [Worker.taken, Worker.pending], hnone rfl⟩,
          by simp [Worker.Truthful, Worker.pending]⟩
    | some solution =>
        refine ⟨Or.inl (by simp [Worker.taken, Worker.pending]), ?_⟩
        intro other hother
        rw [Worker.pending, List.mem_singleton] at hother
        rw [hother]
        exact hfound

namespace Accounted

theorem start (order : Puzzle → Order) (n : ℕ) (puzzles : List Puzzle) :
    Accounted order puzzles puzzles (fun _ : Fin n => .waiting) [] where
  conserved := ⟨0, by simp, by simp [Worker.taken, Worker.pending]⟩
  truthful := by simp [Worker.Truthful, Worker.pending]
  found := by simp

/-- A worker finds that there is no puzzle. -/
theorem exhausted {i : Fin n} (h : Accounted order puzzles left workers handed)
    (hwaiting : workers i = .waiting) :
    Accounted order puzzles left (Function.update workers i .finished)
      handed := by
  have htaken := sum_update Worker.taken workers i .finished
  rw [hwaiting] at htaken
  have hsame : ∑ j, (Function.update workers i .finished j).taken =
      ∑ j, (workers j).taken := by
    simpa [Worker.taken, Worker.pending] using htaken
  constructor
  · rw [hsame]
    exact h.conserved
  · apply forall_update h.truthful
    simp [Worker.Truthful, Worker.pending]
  · exact h.found

/-- A worker takes a puzzle. -/
theorem take {i : Fin n} {puzzle : Puzzle}
    (h : Accounted order puzzles (puzzle :: left) workers handed)
    (hwaiting : workers i = .waiting) (hpuzzle : Loadable puzzle) :
    Accounted order puzzles left
      (Function.update workers i (afterGetPuzzle order (some puzzle)))
      handed := by
  obtain ⟨⟨dropped, hdropped, hconserved⟩, htruthful, hfound⟩ := h
  obtain ⟨hcase, hafter⟩ := afterGetPuzzle_taken order hpuzzle
  have htaken := sum_update Worker.taken workers i
    (afterGetPuzzle order (some puzzle))
  rw [hwaiting] at htaken
  have hsum : ∑ j, (Function.update workers i
        (afterGetPuzzle order (some puzzle)) j).taken =
      ∑ j, (workers j).taken +
        (afterGetPuzzle order (some puzzle)).taken := by
    simpa [Worker.taken, Worker.pending] using htaken
  refine ⟨?_, forall_update htruthful hafter, hfound⟩
  rw [hsum]
  rcases hcase with hone | ⟨hzero, hunsolvable⟩
  · refine ⟨dropped, hdropped, ?_⟩
    rw [hone, ← hconserved, ← Multiset.cons_coe, ← Multiset.singleton_add]
    abel
  · refine ⟨{puzzle} + dropped, ?_, ?_⟩
    · intro other hother
      rcases Multiset.mem_add.mp hother with hnew | hold
      · rwa [Multiset.mem_singleton.mp hnew]
      · exact hdropped other hold
    · rw [hzero, ← hconserved, ← Multiset.cons_coe, ← Multiset.singleton_add]
      abel

/-- A worker hands its solutions on. -/
theorem add {i : Fin n} {solutionList : List Solution}
    (h : Accounted order puzzles left workers handed)
    (hadding : workers i = .adding solutionList) :
    Accounted order puzzles left (Function.update workers i .waiting)
      (handed ++ solutionList) := by
  obtain ⟨⟨dropped, hdropped, hconserved⟩, htruthful, hfound⟩ := h
  have htaken := sum_update Worker.taken workers i .waiting
  rw [hadding] at htaken
  have hless : ∑ j, (Function.update workers i .waiting j).taken +
        (solutionList.map Solution.m_puzzle : List Puzzle) =
      ∑ j, (workers j).taken := by
    simpa [Worker.taken, Worker.pending] using htaken
  refine ⟨⟨dropped, hdropped, ?_⟩, ?_, ?_⟩
  · rw [← hconserved, ← hless, List.map_append, ← Multiset.coe_add]
    abel
  · apply forall_update htruthful
    simp [Worker.Truthful, Worker.pending]
  · intro solution hsolution
    rcases List.mem_append.mp hsolution with hold | hnew
    · exact hfound solution hold
    · have hmine := htruthful i
      rw [hadding] at hmine
      exact hmine solution hnew

/-- A puzzle that is still with the loader is one of the puzzles. -/
theorem mem_left (h : Accounted order puzzles left workers handed)
    {puzzle : Puzzle} (hpuzzle : puzzle ∈ left) : puzzle ∈ puzzles := by
  obtain ⟨dropped, -, hconserved⟩ := h.conserved
  rw [← Multiset.mem_coe, ← hconserved]
  simp only [Multiset.mem_add]
  exact Or.inl (Or.inl (Or.inl hpuzzle))

/-- The puzzle of a solution that was handed on is one of the puzzles. -/
theorem mem_puzzles (h : Accounted order puzzles left workers handed)
    {solution : Solution} (hsolution : solution ∈ handed) :
    solution.m_puzzle ∈ puzzles := by
  obtain ⟨dropped, -, hconserved⟩ := h.conserved
  rw [← Multiset.mem_coe, ← hconserved]
  simp only [Multiset.mem_add]
  exact Or.inl (Or.inr (List.mem_map_of_mem hsolution))

theorem isSolution (h : Accounted order puzzles left workers handed)
    (hloadable : ∀ puzzle ∈ puzzles, Loadable puzzle)
    {solution : Solution} (hsolution : solution ∈ handed) :
    IsSolution solution.m_puzzle solution.m_solution := by
  have hfound := h.found solution hsolution
  rw [Found] at hfound
  rcases solvePuzzle_exact (order solution.m_puzzle)
      (hloadable _ (h.mem_puzzles hsolution)) with
    ⟨-, hstop⟩ | ⟨-, found, hsolve, hsome, -⟩
  · rw [hstop] at hfound
    cases hfound
  · rw [hsolve] at hfound
    cases hfound
    exact hsome _ rfl

/-- No more solutions are handed on than there are puzzles. -/
theorem length_le (h : Accounted order puzzles left workers handed) :
    handed.length ≤ puzzles.length := by
  obtain ⟨dropped, -, hconserved⟩ := h.conserved
  have hcard := congrArg Multiset.card hconserved
  simp only [Multiset.card_add, Multiset.coe_card, List.length_map] at hcard
  omega

open Classical in
/-- When nobody has a puzzle any more, the solutions are those of the puzzles
that have one. -/
theorem settled (h : Accounted order puzzles left workers handed)
    (hloadable : ∀ puzzle ∈ puzzles, Loadable puzzle) (hleft : left = [])
    (hworkers : ∀ i, (workers i).pending = []) :
    (handed.map Solution.m_puzzle).Perm
      (puzzles.filter fun puzzle => Solvable puzzle) := by
  obtain ⟨dropped, hdropped, hconserved⟩ := h.conserved
  have hsolved : ∀ puzzle ∈ handed.map Solution.m_puzzle, Solvable puzzle := by
    intro puzzle hpuzzle
    obtain ⟨solution, hsolution, rfl⟩ := List.mem_map.mp hpuzzle
    exact ⟨_, h.isSolution hloadable hsolution⟩
  have htaken : ∑ i, (workers i).taken = 0 :=
    Finset.sum_eq_zero fun i _ => by simp [Worker.taken, hworkers i]
  rw [hleft, htaken] at hconserved
  rw [← Multiset.coe_eq_coe, ← Multiset.filter_coe, ← hconserved]
  rw [Multiset.filter_add, Multiset.filter_eq_nil.mpr hdropped, add_zero]
  simp only [Multiset.coe_nil, zero_add]
  exact (Multiset.filter_eq_self.mpr hsolved).symm

/-- When as many solutions have been handed on as there are puzzles, nobody has
a puzzle any more. -/
theorem of_length_eq (h : Accounted order puzzles left workers handed)
    (hlength : handed.length = puzzles.length) :
    (handed.map Solution.m_puzzle).Perm puzzles := by
  obtain ⟨dropped, -, hconserved⟩ := h.conserved
  have hcard := congrArg Multiset.card hconserved
  simp only [Multiset.card_add, Multiset.coe_card, List.length_map] at hcard
  have hleft : left = [] := List.length_eq_zero_iff.mp (by omega)
  have htaken : ∑ i, (workers i).taken = 0 :=
    Multiset.card_eq_zero.mp (by omega)
  have hdropped : dropped = 0 := Multiset.card_eq_zero.mp (by omega)
  rw [hleft, htaken, hdropped] at hconserved
  rw [← Multiset.coe_eq_coe]
  simpa using hconserved

end Accounted

/-- The only solution of the puzzle with one square. -/
theorem afterGetPuzzle_one :
    afterGetPuzzle (fun _ => Order.inOrder) (some [0]) =
      .adding [⟨[0], [1]⟩] := by
  have hsquare : ∀ c : Coord 1, c = (0, 0) := by decide
  have hone : CompletesItems some [0] fun _ : Coord 1 =>
      (⟨1, by decide⟩ : Value 1) := by
    constructor
    · apply isCompletion_of_distinct (card_values 1)
      · exact fun c => Finset.mem_univ _
      · intro c d hpeer
        exact absurd ((hsquare c).trans (hsquare d).symm) hpeer.1
    · intro c v hitem hv
      rw [hsquare c] at hitem
      exact absurd (Option.some.inj hitem).symm hv
  have hline : parseLine "0" = .ok [0] := rfl
  obtain ⟨solution, hsolve, s, S, hs, -, rfl⟩ :=
    exists_solvePuzzle Order.inOrder (loadable_of_parseLine hline)
      ⟨_, 1, _, rfl, hone, rfl⟩
  cases eq_of_length (s := 1) rfl hs
  have hvalue : (S (0, 0)).1 = 1 := by
    have hmem := Finset.mem_Icc.mp (S (0, 0)).2
    omega
  have hsolution : ((rowMajor 1).map fun c => (S c).1) = [1] := by
    change [(S (0, 0)).1] = [1]
    rw [hvalue]
  rw [afterGetPuzzle, hsolve, hsolution]

end SudokuSolver.Cpp
