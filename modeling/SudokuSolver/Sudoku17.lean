import SudokuSolver.InStep

/-!
# The programs for puzzles with 17 hints

`solve.lua`, `solve.py` and `solve.fsx` solve a file of puzzles, one line each,
and `Batch.fs` does the same for its callers.  Only the program in Lua looks for
a second solution.  Times and console output are left out, and so are the rows
that were written before an error.
-/

namespace SudokuSolver

open Propagation

variable {s : ℕ}

/-! ## Lua -/

namespace Lua

/-- The columns of `lua_results.csv`, without the times. -/
structure Results where
  puzzleLine : String
  solutionLine : String
  splitsToFirstSolution : ℕ
  splitsToCheckNoMore : ℕ

/-- The body of the loop of `solve.lua`.  An error inside the coroutine would be
handed on by `resume` in the place of a solution, and so would the error of
resuming it again. -/
def solvePuzzle (layout : ∀ s, Layout s) (tables : ∀ s, Tables s)
    (puzzleLine : String) : Except String Results := do
  let ⟨s, grid⟩ ← parseLine layout puzzleLine
  match produceSolutions (tables s) grid with
  | none => .error ("Found a second solution to: " ++ puzzleLine)
  | some producer =>
      match producer.resume with
      | ((none, _), _) =>
          .error ("Did not find a solution to: " ++ puzzleLine)
      | ((some solution, splitsToFirstSolution), producer) =>
          match producer.resume with
          | ((some _, _), _) =>
              .error ("Found a second solution to: " ++ puzzleLine)
          | ((none, splitsToCheckNoMore), _) => do
              let solutionLine ← getStateLine solution
              return ⟨puzzleLine, solutionLine, splitsToFirstSolution,
                splitsToCheckNoMore⟩

/-- `solve.lua` for the lines of its file.  The tables of every puzzle have
their own order. -/
def solveAll (layout : ℕ → ∀ s, Layout s) (tables : ℕ → ∀ s, Tables s)
    (lines : List String) : Except String (List Results) :=
  (lines.zipIdx 1).mapM fun puzzle =>
    solvePuzzle (layout puzzle.2) (tables puzzle.2) puzzle.1

end Lua

/-! ## Python -/

namespace Python

/-- The columns of `python_results.csv`, without the time. -/
structure Results where
  puzzleLine : String
  solutionLine : String
  splits : ℕ

/-- The body of the loop of `solve.py`. -/
def solvePuzzle (puzzleLine : String) : Except String Results := do
  let ⟨_, puzzle⟩ ← Parse.line puzzleLine
  match generate puzzle with
  | none =>
      .error ("Could not split grid as there " ++
        "were no viable squares to split")
  | some solutionGenerator =>
      match solutionGenerator.yields with
      | [] => .error ("Didn't find a solution to " ++ puzzleLine)
      | (solution, splits) :: _ => do
          let solutionLine ← solution.getStateLine
          return ⟨puzzleLine, solutionLine, splits⟩

/-- `solve.py` for the lines of its file. -/
def solveAll (puzzleLines : List String) : Except String (List Results) :=
  puzzleLines.mapM solvePuzzle

end Python

/-! ## F# -/

namespace FSharp

/-- `Seq.head` of the solutions, with the message for a sequence that is
empty. -/
def solveSingle (message : String) (solutions : Option (List (Grid s))) :
    Except String (Grid s) :=
  match solutions with
  | none => .error "The input list was empty."
  | some [] => .error message
  | some (solution :: _) => .ok solution

/-- `withSolution` and `outputLine` of `solve.fsx`, for one line: the puzzle and
the solution as they are written to `fsharp_results.csv`. -/
def solvePuzzle (line : String) : Except String (String × String) := do
  let ⟨_, puzzle⟩ ← fromLine line
  let solution ← solveSingle "Didn't find a solution to a sudoku"
    (solutions puzzle)
  return (← toLine puzzle, ← toLine solution)

/-- `solveAll` of `solve.fsx`; a parallel query that is ordered. -/
def solveAll (lines : List String) : Except String (List (String × String)) :=
  lines.mapM solvePuzzle

namespace Batch

/-- `solveSingle` inside `SolveLines`. -/
def solveSingle (line : String) : Except String String := do
  let ⟨_, grid⟩ ← fromLine line
  let solution ← FSharp.solveSingle "A sudoku had no solution" (solutions grid)
  toLine solution

/-- Grid lines representing the first found solution to each line; a parallel
query that is ordered. -/
def SolveLines (lines : List String) : Except String (List String) :=
  lines.mapM solveSingle

/-- Grid lines representing all the solutions to the given line. -/
def FindAllSolutionsTo (line : String) : Except String (List String) := do
  let ⟨_, grid⟩ ← fromLine line
  match solutions grid with
  | none => .error "The input list was empty."
  | some grids => grids.mapM toLine

end Batch

end FSharp

/-! ## Lines of completions -/

/-- The values of a completion, row by row. -/
def completionLine (S : Coord s → Value s) : String :=
  String.join ((rowMajor s).map fun c => toString (S c).1)

theorem lua_getStateLine_pointwise (hs : s ≤ 3) {grid : Lua.Grid s}
    {S : Coord s → Value s} (h : grid.candidates = pointwise S) :
    Lua.getStateLine grid = .ok (completionLine S) := by
  rw [Lua.getStateLine_ok hs, completionLine]
  congr 3
  funext c
  have hvalue : Lua.Square.getValue (grid.square c) = some (S c) :=
    Lua.Square.getValue_eq_some_iff.mpr (congrFun h c)
  rw [Lua.Square.text, hvalue]

theorem fsharp_toLine_pointwise (hs : s ≤ 3) {grid : FSharp.Grid s}
    {S : Coord s → Value s} (h : grid.candidates = pointwise S) :
    FSharp.toLine grid = .ok (completionLine S) := by
  rw [FSharp.toLine, if_neg (by omega), FSharp.flatMap_rows,
    FSharp.allCoords_eq, List.map_map, completionLine]
  congr 3
  funext c
  have hvalue : FSharp.Square.getValue (FSharp.Grid.getSquare c grid) =
      some (S c) := FSharp.Square.getValue_eq_some_iff.mpr (congrFun h c)
  rw [Function.comp_apply, FSharp.Square.toString, hvalue]

/-- Different completions have different lines. -/
theorem completionLine_injective (hs : s ≤ 3) :
    Function.Injective (completionLine : (Coord s → Value s) → String) := by
  have hchars : ∀ S : Coord s → Value s, (completionLine S).toList =
      (rowMajor s).map fun c => (S c).1.digitChar := by
    intro S
    rw [completionLine, String.toList_join, List.flatMap_map]
    simp only [toList_toString_digit (value_le_nine hs _)]
    exact List.map_eq_flatMap.symm
  intro S T h
  have hlist := congrArg String.toList h
  rw [hchars, hchars, List.map_eq_map_iff] at hlist
  funext c
  have hdigit := congrArg digitValue (hlist c (mem_rowMajor c))
  rw [digitValue_digitChar (value_le_nine hs (S c)),
    digitValue_digitChar (value_le_nine hs (T c))] at hdigit
  exact Subtype.ext (Option.some.inj hdigit)

/-- A line is accepted and has exactly one completion, the values of which are
listed by the other line. -/
def SolvedBy (line solution : String) : Prop :=
  ∃ s, ∃ S : Coord s → Value s, Accepted (fun s => s * s) line s ∧
    (∀ T, CompletesItems digitValue line.toList T ↔ T = S) ∧
    solution = completionLine S

/-! ## One puzzle -/

/-- The coroutine for a puzzle with one solution yields this solution only. -/
theorem Lua.yields_of_unique {layout : ∀ s, Lua.Layout s} {line : String}
    {grid : Lua.Grid s} (tables : Lua.Tables s)
    (h : Lua.parseLine layout line = .ok ⟨s, grid⟩)
    {S : Coord s → Value s}
    (hS : ∀ T, CompletesItems digitValue line.toList T ↔ T = S) :
    ∃ solution splits returns,
      Lua.produceSolutions tables grid =
        some { yields := [(solution, splits)], returns } ∧
      solution.candidates = pointwise S := by
  obtain ⟨hclosed, hcompletes⟩ := Lua.parseLine_exact h
  obtain ⟨⟨yields, returns⟩, hroutine, henum⟩ :=
    Lua.enumerates_produceSolutions tables hclosed
  simp only [hcompletes] at henum
  have hsingle := henum.eq_singleton hS
  obtain ⟨⟨solution, splits⟩, rfl, hsolution⟩ := List.map_eq_singleton_iff.mp
    hsingle
  exact ⟨solution, splits, returns, hroutine, hsolution⟩

section Lua

variable {layout : ∀ s, Lua.Layout s} {tables : ∀ s, Lua.Tables s}
variable {line solution : String}

variable (layout tables) in
theorem SolvedBy.lua_solvePuzzle (h : SolvedBy line solution) :
    ∃ row, Lua.solvePuzzle layout tables line = .ok row ∧
      row.puzzleLine = line ∧ row.solutionLine = solution := by
  obtain ⟨s, S, haccepted, hS, rfl⟩ := h
  have hparsed : ∃ grid, Lua.parseLine layout line = .ok ⟨s, grid⟩ :=
    exists_parseLine_iff.mpr haccepted
  obtain ⟨grid, hgrid⟩ := hparsed
  obtain ⟨solution, splits, returns, hproduce, hsolution⟩ :=
    Lua.yields_of_unique (tables s) hgrid hS
  have hline := lua_getStateLine_pointwise haccepted.2.1.2 hsolution
  refine ⟨⟨line, completionLine S, splits, returns⟩, ?_, rfl, rfl⟩
  rw [Lua.solvePuzzle, bind_eq_ok_iff]
  refine ⟨⟨s, grid⟩, hgrid, ?_⟩
  dsimp only
  rw [hproduce]
  exact bind_eq_ok_iff.mpr ⟨_, hline, rfl⟩

/-- The program in Lua only accepts a puzzle with one solution. -/
theorem solvedBy_of_solvePuzzle {row : Lua.Results}
    (h : Lua.solvePuzzle layout tables line = .ok row) :
    row.puzzleLine = line ∧ SolvedBy line row.solutionLine := by
  rw [Lua.solvePuzzle, bind_eq_ok_iff] at h
  obtain ⟨⟨s, grid⟩, hgrid, h⟩ := h
  have haccepted := exists_parseLine_iff.mp ⟨grid, hgrid⟩
  obtain ⟨hclosed, hcompletes⟩ := Lua.parseLine_exact hgrid
  obtain ⟨⟨yields, returns⟩, hroutine, henum⟩ :=
    Lua.enumerates_produceSolutions (tables s) hclosed
  simp only [hcompletes] at henum
  dsimp only at h
  rw [hroutine] at h
  match yields, henum, h with
  | [], _, h => cases h
  | _ :: _ :: _, _, h => cases h
  | [(solution, splits)], henum, h =>
      obtain ⟨S, hsolution, hS⟩ := henum.exists_unique
      have hline := lua_getStateLine_pointwise haccepted.2.1.2 hsolution
      obtain ⟨text, htext, heq⟩ := bind_eq_ok_iff.mp h
      cases hline.symm.trans htext
      cases heq
      exact ⟨rfl, s, S, haccepted, hS, rfl⟩

end Lua

theorem SolvedBy.python_solvePuzzle {line solution : String}
    (h : SolvedBy line solution) :
    ∃ row, Python.solvePuzzle line = .ok row ∧ row.puzzleLine = line ∧
      row.solutionLine = solution := by
  obtain ⟨s, S, haccepted, hS, rfl⟩ := h
  have hparsed : ∃ grid,
      Lua.parseLine Lua.Layout.inOrder line = .ok ⟨s, grid⟩ :=
    exists_parseLine_iff.mpr haccepted
  obtain ⟨luaGrid, hlua⟩ := hparsed
  obtain ⟨pythonGrid, hpython, halike⟩ := exists_alike_of_parseLine hlua
  obtain ⟨routine, ⟨yields, grid⟩, hroutine, hgenerated, hyields⟩ :=
    halike.produceSolutions (Lua.parseLine_exact hlua).1
  obtain ⟨solution, splits, returns, hproduce, hsolution⟩ :=
    Lua.yields_of_unique _ hlua hS
  cases hproduce.symm.trans hroutine
  match yields, hyields, hgenerated with
  | [(found, _)], .cons ⟨hfound, hsplits⟩ .nil, hgenerated =>
      have hline := lua_getStateLine_pointwise haccepted.2.1.2 hsolution
      obtain ⟨text, htext, hstate⟩ := hfound.getStateLine haccepted.2.1.2
      cases hline.symm.trans htext
      refine ⟨⟨line, completionLine S, splits⟩, ?_, rfl, rfl⟩
      rw [Python.solvePuzzle, bind_eq_ok_iff]
      refine ⟨⟨s, pythonGrid⟩, hpython, ?_⟩
      dsimp only at hsplits ⊢
      rw [hgenerated, hsplits]
      exact bind_eq_ok_iff.mpr ⟨_, hstate, rfl⟩

section FSharp

variable {line : String}

/-- The solutions that F# finds to an accepted line are its completions. -/
theorem FSharp.enumerates_fromLine {grid : FSharp.Grid s}
    (h : FSharp.fromLine line = .ok ⟨s, grid⟩) :
    ∃ grids, FSharp.solutions grid = some grids ∧
      Enumerates (grids.map FSharp.Grid.candidates)
        (CompletesItems digitValue line.toList) := by
  have hparsed : ∃ luaGrid,
      Lua.parseLine Lua.Layout.inOrder line = .ok ⟨s, luaGrid⟩ :=
    exists_parseLine_iff.mpr (exists_fromLine_iff.mp ⟨grid, h⟩)
  obtain ⟨luaGrid, hlua⟩ := hparsed
  obtain ⟨hclosed, hcompletes⟩ := Lua.parseLine_exact hlua
  have hsame := (luaMatches_of_ok hlua h).2
  rw [hsame] at hclosed
  simp only [hsame] at hcompletes
  obtain ⟨grids, hgrids, henum⟩ := FSharp.enumerates_solutions hclosed
  simp only [hcompletes] at henum
  exact ⟨grids, hgrids, henum⟩

/-- What F# makes of a puzzle with one solution. -/
theorem SolvedBy.fsharp {solution : String} (h : SolvedBy line solution) :
    ∃ s, ∃ puzzle found : FSharp.Grid s,
      FSharp.fromLine line = .ok ⟨s, puzzle⟩ ∧
      FSharp.solutions puzzle = some [found] ∧
      FSharp.toLine found = .ok solution ∧
      ∃ text, FSharp.toLine puzzle = .ok text := by
  obtain ⟨s, S, haccepted, hS, rfl⟩ := h
  have hsize := haccepted.2.1.2
  obtain ⟨puzzle, hpuzzle⟩ := exists_fromLine_iff.mpr haccepted
  obtain ⟨grids, hgrids, henum⟩ := FSharp.enumerates_fromLine hpuzzle
  obtain ⟨found, rfl, hfound⟩ :=
    List.map_eq_singleton_iff.mp (henum.eq_singleton hS)
  obtain ⟨text, htext, -⟩ := FSharp.toLine_eq hsize puzzle
  exact ⟨s, puzzle, found, hpuzzle, hgrids,
    fsharp_toLine_pointwise hsize hfound, text, htext⟩

theorem SolvedBy.fsharp_solvePuzzle {solution : String}
    (h : SolvedBy line solution) :
    ∃ row, FSharp.solvePuzzle line = .ok row ∧ row.2 = solution := by
  obtain ⟨s, puzzle, found, hpuzzle, hgrids, hfound, text, htext⟩ := h.fsharp
  refine ⟨(text, solution), ?_, rfl⟩
  rw [FSharp.solvePuzzle, bind_eq_ok_iff]
  refine ⟨⟨s, puzzle⟩, hpuzzle, ?_⟩
  dsimp only
  rw [hgrids, bind_eq_ok_iff]
  refine ⟨found, rfl, ?_⟩
  rw [htext, hfound]
  rfl

theorem SolvedBy.solveSingle {solution : String} (h : SolvedBy line solution) :
    FSharp.Batch.solveSingle line = .ok solution := by
  obtain ⟨s, puzzle, found, hpuzzle, hgrids, hfound, -⟩ := h.fsharp
  rw [FSharp.Batch.solveSingle, bind_eq_ok_iff]
  refine ⟨⟨s, puzzle⟩, hpuzzle, ?_⟩
  dsimp only
  rw [hgrids, bind_eq_ok_iff]
  exact ⟨found, rfl, hfound⟩

/-- What F# lists for a line are the maps of completions. -/
theorem exists_completion {found : FSharp.Grid s} {grids : List (FSharp.Grid s)}
    (henum : Enumerates (grids.map FSharp.Grid.candidates)
      (CompletesItems digitValue line.toList)) (hfound : found ∈ grids) :
    ∃ S : Coord s → Value s, CompletesItems digitValue line.toList S ∧
      found.candidates = pointwise S :=
  (henum.2 _).mp (List.mem_map_of_mem hfound)

/-- `FindAllSolutionsTo` lists the completions of an accepted line, each of them
once. -/
theorem findAllSolutionsTo_exact (h : Accepted (fun s => s * s) line s) :
    ∃ lines, FSharp.Batch.FindAllSolutionsTo line = .ok lines ∧ lines.Nodup ∧
      ∀ text, text ∈ lines ↔ ∃ S : Coord s → Value s,
        CompletesItems digitValue line.toList S ∧ text = completionLine S := by
  have hsize := h.2.1.2
  obtain ⟨grid, hgrid⟩ := exists_fromLine_iff.mpr h
  obtain ⟨grids, hgrids, henum⟩ := FSharp.enumerates_fromLine hgrid
  have hnodup := henum.1
  have hmem := henum.2
  have hpointwise : ∀ found ∈ grids, ∃ S : Coord s → Value s,
      CompletesItems digitValue line.toList S ∧
        found.candidates = pointwise S := fun found hfound =>
    exists_completion henum hfound
  have hvalue : (1 : ℕ) ∈ Finset.Icc 1 (s * s) :=
    Finset.mem_Icc.mpr ⟨le_rfl, Nat.mul_pos h.2.1.1 h.2.1.1⟩
  have : Nonempty (Coord s → Value s) := ⟨fun _ => ⟨1, hvalue⟩⟩
  choose! S hS hcandidates using hpointwise
  have hlines : grids.mapM FSharp.toLine =
      .ok (grids.map fun found => completionLine (S found)) := by
    rw [mapM_eq_ok_iff, List.forall₂_map_right_iff, List.forall₂_same]
    exact fun found hfound =>
      fsharp_toLine_pointwise hsize (hcandidates found hfound)
  refine ⟨grids.map fun found => completionLine (S found), ?_, ?_, ?_⟩
  · rw [FSharp.Batch.FindAllSolutionsTo, bind_eq_ok_iff]
    refine ⟨⟨s, grid⟩, hgrid, ?_⟩
    dsimp only
    rw [hgrids]
    exact hlines
  · refine List.Nodup.map_on ?_ hnodup.of_map
    intro found hfound found' hfound' hline
    have hsame := completionLine_injective hsize hline
    apply List.inj_on_of_nodup_map hnodup hfound hfound'
    rw [hcandidates found hfound, hcandidates found' hfound', hsame]
  · intro text
    rw [List.mem_map]
    constructor
    · rintro ⟨found, hfound, rfl⟩
      exact ⟨S found, hS found hfound, rfl⟩
    · rintro ⟨T, hT, rfl⟩
      obtain ⟨found, hfound, hpoint⟩ :=
        List.mem_map.mp ((hmem (pointwise T)).mpr ⟨T, hT, rfl⟩)
      have hsame := pointwise_injective
        ((hcandidates found hfound).symm.trans hpoint)
      exact ⟨found, hfound, congrArg completionLine hsame⟩

/-- A line without a clue. -/
theorem findAllSolutionsTo_exact_blank :
    ∃ lines, FSharp.Batch.FindAllSolutionsTo "................" = .ok lines ∧
      lines.Nodup ∧ ∀ text, text ∈ lines ↔ ∃ S : Coord 2 → Value 2,
        CompletesItems digitValue "................".toList S ∧
          text = completionLine S :=
  findAllSolutionsTo_exact ⟨by decide, by decide, fun char hchar =>
    Or.inl (by simpa using hchar)⟩

/-- A line with some solution line. -/
def CompletedBy (line solution : String) : Prop :=
  ∃ (s : ℕ) (S : Coord s → Value s), Accepted (fun s => s * s) line s ∧
    CompletesItems digitValue line.toList S ∧ completionLine S = solution

theorem CompletedBy.of_solveSingle {solution : String}
    (h : FSharp.Batch.solveSingle line = .ok solution) :
    CompletedBy line solution := by
  obtain ⟨⟨s, grid⟩, hgrid, h⟩ := bind_eq_ok_iff.mp h
  have haccepted := exists_fromLine_iff.mp ⟨grid, hgrid⟩
  obtain ⟨grids, hgrids, henum⟩ := FSharp.enumerates_fromLine hgrid
  obtain ⟨found, hfound, h⟩ := bind_eq_ok_iff.mp h
  rw [hgrids] at hfound
  cases grids with
  | nil => cases hfound
  | cons first grids =>
      cases hfound
      obtain ⟨S, hS, hcandidates⟩ := exists_completion henum List.mem_cons_self
      rw [fsharp_toLine_pointwise haccepted.2.1.2 hcandidates] at h
      cases h
      exact ⟨s, S, haccepted, hS, rfl⟩

theorem CompletedBy.exists_solveSingle {solution : String}
    (h : CompletedBy line solution) :
    ∃ found, FSharp.Batch.solveSingle line = .ok found := by
  obtain ⟨s, S, haccepted, hS, -⟩ := h
  obtain ⟨grid, hgrid⟩ := exists_fromLine_iff.mpr haccepted
  obtain ⟨grids, hgrids, henum⟩ := FSharp.enumerates_fromLine hgrid
  obtain ⟨found, hfound, -⟩ :=
    List.mem_map.mp ((henum.2 (pointwise S)).mpr ⟨S, hS, rfl⟩)
  cases grids with
  | nil => cases hfound
  | cons first grids =>
      obtain ⟨T, -, hcandidates⟩ := exists_completion henum List.mem_cons_self
      have hline := fsharp_toLine_pointwise haccepted.2.1.2 hcandidates
      refine ⟨completionLine T, ?_⟩
      rw [FSharp.Batch.solveSingle, bind_eq_ok_iff]
      refine ⟨⟨s, grid⟩, hgrid, ?_⟩
      dsimp only
      rw [hgrids, bind_eq_ok_iff]
      exact ⟨first, rfl, hline⟩

/-- `SolveLines` gets through a list of lines if and only if every line is
accepted and has a completion, and then it gives a completion of each line, in
order. -/
theorem solveLines_exact (lines : List String) :
    ((∃ solutions, FSharp.Batch.SolveLines lines = .ok solutions) ↔
      ∀ line ∈ lines, ∃ solution, CompletedBy line solution) ∧
      ∀ solutions, FSharp.Batch.SolveLines lines = .ok solutions →
        List.Forall₂ CompletedBy lines solutions := by
  constructor
  · rw [FSharp.Batch.SolveLines, exists_mapM_eq_ok_iff]
    constructor
    · intro h line hline
      obtain ⟨solution, hsolution⟩ := h line hline
      exact ⟨solution, CompletedBy.of_solveSingle hsolution⟩
    · intro h line hline
      obtain ⟨solution, hsolution⟩ := h line hline
      exact hsolution.exists_solveSingle
  · intro solutions h
    exact (mapM_eq_ok_iff.mp h).imp fun _ _ => CompletedBy.of_solveSingle

end FSharp

/-! ## Files -/

/-- Programs that treat every puzzle with one solution the same way treat a file
of them the same way. -/
theorem exists_mapM_of_solvedBy {row : Type} (solve : String → Except String row)
    (column : row → String)
    (hsolve : ∀ {line solution}, SolvedBy line solution →
      ∃ r, solve line = .ok r ∧ column r = solution)
    {lines solutions : List String}
    (h : List.Forall₂ SolvedBy lines solutions) :
    ∃ rows, lines.mapM solve = .ok rows ∧ rows.map column = solutions := by
  induction h with
  | nil => exact ⟨[], rfl, rfl⟩
  | @cons line solution lines solutions hline _ ih =>
      obtain ⟨row, hrow, rfl⟩ := hsolve hline
      obtain ⟨rows, hrows, rfl⟩ := ih
      refine ⟨row :: rows, ?_, rfl⟩
      exact mapM_eq_ok_iff.mpr
        (List.Forall₂.cons hrow (mapM_eq_ok_iff.mp hrows))

theorem forall₂_solveAll {layout : ℕ → ∀ s, Lua.Layout s}
    {tables : ℕ → ∀ s, Lua.Tables s} {lines : List String}
    {rows : List Lua.Results}
    (h : Lua.solveAll layout tables lines = .ok rows) :
    List.Forall₂ (fun line row => row.puzzleLine = line ∧
      SolvedBy line row.solutionLine) lines rows := by
  have hrows := (mapM_eq_ok_iff.mp h).imp fun _ _ hrow =>
    solvedBy_of_solvePuzzle hrow
  rw [← List.zipIdx_map_fst 1 lines, List.forall₂_map_left_iff]
  exact hrows

/-- `solve.lua` gets through a file exactly when every line of it is accepted
and has exactly one completion, and then it writes this completion for every
line, whatever the order of its tables. -/
theorem solveAll_ok_iff (layout : ℕ → ∀ s, Lua.Layout s)
    (tables : ℕ → ∀ s, Lua.Tables s) (lines : List String) :
    ((∃ rows, Lua.solveAll layout tables lines = .ok rows) ↔
      ∀ line ∈ lines, ∃ solution, SolvedBy line solution) ∧
    ∀ rows, Lua.solveAll layout tables lines = .ok rows →
      List.Forall₂ (fun line row => row.puzzleLine = line ∧
        SolvedBy line row.solutionLine) lines rows := by
  refine ⟨⟨?_, ?_⟩, fun rows h => forall₂_solveAll h⟩
  · rintro ⟨rows, h⟩ line hline
    obtain ⟨i, hi, rfl⟩ := List.getElem_of_mem hline
    have hrows := forall₂_solveAll h
    have hi' : i < rows.length := hrows.length_eq ▸ hi
    exact ⟨_, (hrows.get hi hi').2⟩
  · intro h
    have hrow : ∀ puzzle ∈ lines.zipIdx 1, ∃ row,
        Lua.solvePuzzle (layout puzzle.2) (tables puzzle.2) puzzle.1 =
          .ok row := by
      intro puzzle hpuzzle
      obtain ⟨solution, hsolution⟩ := h puzzle.1
        (List.zipIdx_map_fst 1 lines ▸ List.mem_map_of_mem hpuzzle)
      obtain ⟨row, hrow, -⟩ :=
        hsolution.lua_solvePuzzle (layout puzzle.2) (tables puzzle.2)
      exact ⟨row, hrow⟩
    rw [Lua.solveAll]
    generalize lines.zipIdx 1 = puzzles at hrow
    induction puzzles with
    | nil => exact ⟨[], rfl⟩
    | cons puzzle puzzles ih =>
        obtain ⟨row, hfirst⟩ := hrow puzzle List.mem_cons_self
        obtain ⟨rows, hrest⟩ := ih fun p hp => hrow p (List.mem_cons_of_mem _ hp)
        exact ⟨row :: rows, mapM_eq_ok_iff.mpr
          (List.Forall₂.cons hfirst (mapM_eq_ok_iff.mp hrest))⟩

/-- On a file that `solve.lua` gets through, `solve.py`, `solve.fsx` and
`SolveLines` get through as well, and all of them come to the same solutions. -/
theorem solutionLines_agree {layout : ℕ → ∀ s, Lua.Layout s}
    {tables : ℕ → ∀ s, Lua.Tables s} {lines : List String}
    {rows : List Lua.Results}
    (h : Lua.solveAll layout tables lines = .ok rows) :
    ∃ pythonRows fsharpRows,
      Python.solveAll lines = .ok pythonRows ∧
      FSharp.solveAll lines = .ok fsharpRows ∧
      FSharp.Batch.SolveLines lines = .ok (rows.map Lua.Results.solutionLine) ∧
      pythonRows.map Python.Results.solutionLine =
        rows.map Lua.Results.solutionLine ∧
      fsharpRows.map Prod.snd = rows.map Lua.Results.solutionLine := by
  have hsolved : List.Forall₂ SolvedBy lines
      (rows.map Lua.Results.solutionLine) := by
    rw [List.forall₂_map_right_iff]
    exact (forall₂_solveAll h).imp fun _ _ hrow => hrow.2
  obtain ⟨pythonRows, hpython, hpythonLines⟩ := exists_mapM_of_solvedBy
    Python.solvePuzzle Python.Results.solutionLine (fun hline => by
      obtain ⟨row, hrow, -, hsolution⟩ := hline.python_solvePuzzle
      exact ⟨row, hrow, hsolution⟩) hsolved
  obtain ⟨fsharpRows, hfsharp, hfsharpLines⟩ := exists_mapM_of_solvedBy
    FSharp.solvePuzzle Prod.snd (fun hline => hline.fsharp_solvePuzzle) hsolved
  obtain ⟨texts, hbatch, htexts⟩ := exists_mapM_of_solvedBy
    FSharp.Batch.solveSingle id (fun hline => ⟨_, hline.solveSingle, rfl⟩)
    hsolved
  rw [List.map_id] at htexts
  exact ⟨pythonRows, fsharpRows, hpython, hfsharp, htexts ▸ hbatch,
    hpythonLines, hfsharpLines⟩

/-- A file with a line that has all its clues. -/
theorem solutionLines_agree_small :
    ∃ rows pythonRows fsharpRows,
      Lua.solveAll (fun _ => Lua.Layout.inOrder) (fun _ => Lua.Tables.inOrder)
        ["1234341223414123"] = .ok rows ∧
      Python.solveAll ["1234341223414123"] = .ok pythonRows ∧
      FSharp.solveAll ["1234341223414123"] = .ok fsharpRows ∧
      FSharp.Batch.SolveLines ["1234341223414123"] =
        .ok (rows.map Lua.Results.solutionLine) ∧
      pythonRows.map Python.Results.solutionLine =
        rows.map Lua.Results.solutionLine ∧
      fsharpRows.map Prod.snd = rows.map Lua.Results.solutionLine := by
  have hvalues : ∀ c : Coord 2, (itemAt "1234341223414123".toList c).bind
      digitValue = some (smallCompletion c).1 := by
    decide +kernel
  have hsolved : SolvedBy "1234341223414123" (completionLine smallCompletion) := by
    refine ⟨2, smallCompletion, ⟨by decide, by decide, ?_⟩, ?_, rfl⟩
    · have hall : "1234341223414123".toList.all (fun char =>
          (digitValue char).any fun v => decide (v ≤ 2 * 2)) = true := by
        decide +kernel
      intro char hchar
      obtain ⟨v, hv, hbound⟩ :=
        (Option.any_eq_true _ _).mp (List.all_eq_true.mp hall char hchar)
      exact Or.inr ⟨v, of_decide_eq_true hbound, hv⟩
    · intro T
      constructor
      · rintro ⟨-, hT⟩
        funext c
        have hpos := (Finset.mem_Icc.mp (smallCompletion c).2).1
        exact Subtype.ext (hT c _ (hvalues c) (by omega))
      · rintro rfl
        refine ⟨completes_smallCompletion.1, fun c v hv _ => ?_⟩
        exact Option.some.inj ((hvalues c).symm.trans hv)
  obtain ⟨row, hrow, -⟩ :=
    hsolved.lua_solvePuzzle Lua.Layout.inOrder Lua.Tables.inOrder
  have hrows : Lua.solveAll (fun _ => Lua.Layout.inOrder)
      (fun _ => Lua.Tables.inOrder) ["1234341223414123"] = .ok [row] :=
    mapM_eq_ok_iff.mpr (List.Forall₂.cons hrow List.Forall₂.nil)
  obtain ⟨pythonRows, fsharpRows, hagree⟩ := solutionLines_agree hrows
  exact ⟨[row], pythonRows, fsharpRows, hrows, hagree⟩

end SudokuSolver
