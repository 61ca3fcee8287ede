import SudokuSolver.Lua.Deductions
import SudokuSolver.Support.Search

/-!
# Solving in Lua

`solvers.lua`.  A coroutine is what it yields, one value after the other, and
what it returns at the end; a result that is missing stands for an error inside
it.  The number of splits performed so far also counts the clones made, so it
tells which tables a clone is made of.
-/

namespace SudokuSolver.Lua

open Propagation

variable {s : ℕ}

/-- The order of the tables that a search creates: of the `k`-th clone, and of
the array of splits that is there when `k` splits have been performed. -/
structure Tables (s : ℕ) where
  clone : ℕ → Layout s
  splits : ℕ → (n : ℕ) → Traversal n

/-- The entries of an array, in the order of `pairs`. -/
def Traversal.visit {α : Type*} (l : List α) (traversal : Traversal l.length) :
    List α := traversal.keys.map l.get

theorem Traversal.perm_visit {α : Type*} (l : List α)
    (traversal : Traversal l.length) : l.Perm (traversal.visit l) := by
  have hkeys : (List.finRange l.length).Perm traversal.keys :=
    (List.perm_ext_iff_of_nodup (List.nodup_finRange _) traversal.nodup).mpr
      fun k => iff_of_true (List.mem_finRange k) (traversal.mem_keys k)
  have hmap := hkeys.map l.get
  rwa [List.map_get_finRange] at hmap

theorem branches_split {grid : Grid s} {layouts : ℕ → Layout s}
    {splits : List (Grid s)} (h : grid.split layouts = some splits) :
    Branches Peer Grid.candidates grid.candidates splits := by
  obtain ⟨chosen, hchosen, rfl⟩ := Option.map_eq_some_iff.mp h
  exact ⟨chosen.1, _, Grid.squareToSplit_some hchosen, nodup_ascending _,
    fun v => mem_ascending, grid.decides_split layouts chosen.1 _⟩

/-- The splits of a grid in the order they are looked at, and the number of
splits performed by then. -/
def visitSplits (tables : Tables s) (splitsPerformed : ℕ) (grid : Grid s) :
    Option (ℕ × List (Grid s)) :=
  (grid.split fun k => tables.clone (splitsPerformed + k)).map fun gridSplits =>
    (splitsPerformed + gridSplits.length,
      (tables.splits (splitsPerformed + gridSplits.length)
        gridSplits.length).visit gridSplits)

/-- The search of `produceSolutions`: incomplete grids are kept when they are
possible, and the one kept last is inspected first. -/
def solver (tables : Tables s) :
    Solver ℕ (Grid s) (Peer (s := s)) House.squares
      (Finset.univ : Finset (Value s)) where
  candidates := Grid.candidates
  refine := refineGrid
  isComplete := Grid.isComplete
  isPossible := Grid.isPossible
  split := visitSplits tables
  keep := Grid.isPossible
  arrange := List.reverse
  deduces_refine := deduces_refineGrid
  closed_refine _ := closed_refineGrid
  isComplete_iff _ _ := Grid.isComplete_iff
  isPossible_iff _ := Grid.isPossible_iff
  branches_split _ _ _ _ h := by
    obtain ⟨gridSplits, hsplits, heq⟩ := Option.map_eq_some_iff.mp h
    cases heq
    exact (branches_split hsplits).perm (Traversal.perm_visit _ _)
  split_isSome splitsPerformed grid hlive hopen := by
    obtain ⟨chosen, hchosen⟩ := Grid.squareToSplit_isSome hlive hopen
    rw [visitSplits, Grid.split, hchosen]
    exact ⟨_, _, rfl⟩
  keep_of_live _ := Grid.isPossible_iff.mpr
  arrange_perm := List.reverse_perm

/-- A coroutine: the pairs it yields, and the second of the values it returns,
the first of which is nil. -/
structure Routine (s : ℕ) where
  yields : List (Grid s × ℕ)
  returns : ℕ

/-- The loop of `produceSolutions`, with the grids awaiting inspection; the
first one is the current grid. -/
def produceFrom (tables : Tables s) (splitsPerformed : ℕ)
    (grids : List (Grid s)) : Option (Routine s) :=
  ((solver tables).run splitsPerformed grids).map fun r =>
    { yields := r.1, returns := r.2 }

/-- A coroutine that finds solutions to a grid. -/
def produceSolutions (tables : Tables s) (currentGrid : Grid s) :
    Option (Routine s) :=
  if !currentGrid.isPossible then some { yields := [], returns := 0 }
  else produceFrom tables 0 [currentGrid]

/-- One iteration of the loop as the source writes it. -/
theorem produceFrom_cons (tables : Tables s) (splitsPerformed : ℕ)
    (currentGrid : Grid s) (inspectionStack : List (Grid s)) :
    produceFrom tables splitsPerformed (currentGrid :: inspectionStack) =
      let currentGrid := refineGrid currentGrid
      if currentGrid.isComplete then
        (produceFrom tables splitsPerformed inspectionStack).map fun routine =>
          { routine with
            yields := (currentGrid, splitsPerformed) :: routine.yields }
      else if currentGrid.isPossible then
        (visitSplits tables splitsPerformed currentGrid).bind
          fun (splitsPerformed, gridSplits) =>
            let complete := gridSplits.filter Grid.isComplete
            let possible := gridSplits.filter fun grid =>
              !grid.isComplete && grid.isPossible
            (produceFrom tables splitsPerformed
              (possible.reverse ++ inspectionStack)).map fun routine =>
                { routine with
                  yields := (complete.map fun grid =>
                    (grid, splitsPerformed)) ++ routine.yields }
      else produceFrom tables splitsPerformed inspectionStack := by
  by_cases hcomplete : (refineGrid currentGrid).isComplete = true
  · rw [if_pos hcomplete, produceFrom, Solver.run_cons_complete hcomplete,
      produceFrom, Option.map_map, Option.map_map]
    rfl
  · rw [if_neg hcomplete]
    by_cases hpossible : (refineGrid currentGrid).isPossible = true
    · have hsplit : (solver tables).split splitsPerformed
          ((solver tables).refine currentGrid) =
          visitSplits tables splitsPerformed (refineGrid currentGrid) := rfl
      rw [if_pos hpossible, produceFrom,
        Solver.run_cons_split hcomplete hpossible, hsplit]
      cases visitSplits tables splitsPerformed (refineGrid currentGrid) with
      | none => rfl
      | some p =>
          simp only [Option.bind_some, Option.map_map, produceFrom]
          rfl
    · rw [if_neg hpossible, produceFrom,
        Solver.run_cons_impossible hcomplete hpossible, produceFrom]

/-- `resume`: the next two values that come out of a coroutine, and what is left
of it. -/
def Routine.resume (routine : Routine s) :
    (Option (Grid s) × ℕ) × Routine s :=
  match routine.yields with
  | [] => ((none, routine.returns), routine)
  | (grid, splits) :: yields =>
      ((some grid, splits), { routine with yields := yields })

theorem Routine.length_resume_lt {routine rest : Routine s} {grid : Grid s}
    {splits : ℕ} (h : routine.resume = ((some grid, splits), rest)) :
    rest.yields.length < routine.yields.length := by
  rw [resume] at h
  split at h
  · simp at h
  · next hyields =>
    cases h
    simp [hyields]

/-- The loop of `findAllSolutions`: resume until no solution comes out. -/
def Routine.collect (routine : Routine s) : List (Grid s) × ℕ :=
  match _h : routine.resume with
  | ((none, splits), _) => ([], splits)
  | ((some solution, _), rest) =>
      (solution :: rest.collect.1, rest.collect.2)
termination_by routine.yields.length
decreasing_by all_goals exact length_resume_lt _h

theorem Routine.collect_eq (routine : Routine s) :
    routine.collect = (routine.yields.map Prod.fst, routine.returns) := by
  obtain ⟨yields, returns⟩ := routine
  induction yields with
  | nil =>
      rw [collect]
      rfl
  | cons y yields ih =>
      rw [collect]
      simp only [resume, ih, List.map_cons]

/-- A single solution to the grid, or none if there is no solution. -/
def findSingleSolution (tables : Tables s) (grid : Grid s) :
    Option (Option (Grid s) × ℕ) :=
  (produceSolutions tables grid).map fun routine => routine.resume.1

/-- All the solutions to a grid in an array, which is empty if there were no
solutions. -/
def findAllSolutions (tables : Tables s) (grid : Grid s) :
    Option (List (Grid s) × ℕ) :=
  (produceSolutions tables grid).map Routine.collect

/-! ## Exactness -/

/-- The coroutine yields every completion of the grid once. -/
theorem enumerates_produceSolutions (tables : Tables s) {grid : Grid s}
    (hclosed : Closed Peer grid.candidates) :
    ∃ routine, produceSolutions tables grid = some routine ∧
      Enumerates (routine.yields.map fun y => y.1.candidates) fun S =>
        Fills Peer House.squares Finset.univ S ∧ Admits grid.candidates S := by
  rw [produceSolutions]
  by_cases hpossible : grid.isPossible = true
  · rw [if_neg (by simp [hpossible])]
    obtain ⟨found, splits, hrun, henum⟩ := (solver tables).enumerates_run
      (fills_of_distinct (card_values s)) 0 hclosed (within_univ _)
    exact ⟨⟨found, splits⟩, by rw [produceFrom, hrun]; rfl, henum⟩
  · rw [if_pos (by simpa using hpossible)]
    refine ⟨_, rfl, List.nodup_nil, fun m => ?_⟩
    simp only [List.map_nil, List.not_mem_nil, false_iff]
    rintro ⟨S, ⟨-, hadm⟩, -⟩
    exact hpossible (Grid.isPossible_iff.mpr hadm.live)

/-- `findAllSolutions` returns every completion of the grid once, and
`findSingleSolution` one of them if there is any. -/
theorem findSolutions_exact (tables : Tables s) {grid : Grid s}
    (hclosed : Closed Peer grid.candidates) (P : (Coord s → Value s) → Prop)
    (hP : ∀ S, (Fills Peer House.squares Finset.univ S ∧
      Admits grid.candidates S) ↔ P S) :
    (∃ solutions splits,
      findAllSolutions tables grid = some (solutions, splits) ∧
        Enumerates (solutions.map Grid.candidates) P) ∧
    ∃ solution splits,
      findSingleSolution tables grid = some (solution, splits) ∧
        (solution = none ↔ ¬∃ S, P S) ∧
        ∀ found, solution = some found →
          ∃ S, P S ∧ found.candidates = pointwise S := by
  obtain ⟨routine, hroutine, hnodup, hmem⟩ :=
    enumerates_produceSolutions tables hclosed
  simp only [hP] at hmem
  constructor
  · refine ⟨routine.yields.map Prod.fst, routine.returns, ?_, ?_⟩
    · rw [findAllSolutions, hroutine, Option.map_some, Routine.collect_eq]
    · rw [List.map_map]
      exact ⟨hnodup, hmem⟩
  · refine ⟨routine.resume.1.1, routine.resume.1.2, ?_, ?_⟩
    · rw [findSingleSolution, hroutine]
      rfl
    · obtain ⟨yields, returns⟩ := routine
      cases yields with
      | nil =>
          refine ⟨iff_of_true rfl ?_, fun found h => absurd h (by
            simp [Routine.resume])⟩
          rintro ⟨S, hS⟩
          exact absurd ((hmem _).mpr ⟨S, hS, rfl⟩) (by simp)
      | cons y yields =>
          obtain ⟨S, hS, heq⟩ := (hmem y.1.candidates).mp (by simp)
          constructor
          · exact iff_of_false (by simp [Routine.resume])
              (not_not_intro ⟨S, hS⟩)
          · intro found hfound
            cases hfound
            exact ⟨S, hS, heq⟩

end SudokuSolver.Lua
