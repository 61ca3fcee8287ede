import SudokuSolver.Python.Grid
import SudokuSolver.Support.Search

/-!
# Solving in Python

`refine` and `split` of `grid.py`, and `solutions.py`.  A generator is the list
of what it yields when it is exhausted, together with the state it leaves the
grid in that it was given.
-/

namespace SudokuSolver.Python

open Propagation

variable {s : ℕ}

/-! ## Deducing values -/

/-- No other square of the row has the possibility. -/
def mustBeValueByRow (grid : Grid s) (c : Coord s) (possibility : ℤ) : Bool :=
  !(otherIndexes c.1).any fun index =>
    (grid.square (index, c.2)).hasPossibility possibility

/-- No other square of the column has the possibility. -/
def mustBeValueByCol (grid : Grid s) (c : Coord s) (possibility : ℤ) : Bool :=
  !(otherIndexes c.2).any fun index =>
    (grid.square (c.1, index)).hasPossibility possibility

/-- No other square of the sector has the possibility. -/
def mustBeValueBySector (grid : Grid s) (c : Coord s)
    (possibility : ℤ) : Bool :=
  !(getSquaresInSector c).any fun d =>
    (grid.square d).hasPossibility possibility

/-- The deduced value of the square, if a deduction could be made. -/
def deduceSquare (grid : Grid s) (c : Coord s) : Option ℤ :=
  let square := grid.square c
  if !square.isPossible || truthy square.getValue then none
  else
    square.getPossibilities.find? fun possibility =>
      mustBeValueByRow grid c possibility ||
        (mustBeValueByCol grid c possibility ||
          mustBeValueBySector grid c possibility)

theorem mustBeValue_iff {grid : Grid s} {c : Coord s} {p : ℤ} :
    (mustBeValueByRow grid c p || (mustBeValueByCol grid c p ||
        mustBeValueBySector grid c p)) = true ↔
      ∃ h : House s, c ∈ h.squares ∧
        ∀ d ∈ h.squares, d ≠ c → p ∉ grid.candidates d := by
  rw [exists_house_iff]
  simp only [mustBeValueByRow, mustBeValueByCol, mustBeValueBySector,
    Square.hasPossibility, Bool.or_eq_true, Bool.not_eq_true',
    List.any_eq_false, mem_otherIndexes, mem_getSquaresInSector,
    decide_eq_true_eq, and_imp]
  rfl

/-- A deduced value that counts as true is forced by a house. -/
theorem deducible_of_deduceSquare {grid : Grid s} {c : Coord s} {p : ℤ}
    (h : deduceSquare grid c = some p) (hp : p ≠ 0) :
    Deducible House.squares grid.candidates c p := by
  rw [deduceSquare] at h
  split at h
  · exact absurd h (by simp)
  · next hopen =>
    have hforced := List.find?_some h
    have hmem : p ∈ grid.candidates c :=
      mem_sorted.mp (List.mem_of_find?_eq_some h)
    refine ⟨?_, hmem, mustBeValue_iff.mp hforced⟩
    by_contra hcard
    have hone : (grid.candidates c).card = 1 := by
      have hpos := Finset.card_pos.mpr ⟨p, hmem⟩
      omega
    obtain ⟨v, hv⟩ := Finset.card_eq_one.mp hone
    have hvalue : (grid.square c).getValue = some p := by
      rw [Square.getValue_eq_some_iff]
      rw [hv, Finset.mem_singleton] at hmem
      rw [hmem]
      exact hv
    rw [hvalue] at hopen
    simp [truthy, hp] at hopen

/-- When no value is deduced that counts as true, no house forces one. -/
theorem not_deducible_of_deduceSquare {grid : Grid s} {c : Coord s}
    (h : truthy (deduceSquare grid c) = false) (p : ℤ) :
    ¬Deducible House.squares grid.candidates c p := by
  rintro ⟨hcard, hp, hforced⟩
  have hpossible : (grid.square c).isPossible = true :=
    Square.isPossible_iff.mpr ⟨p, hp⟩
  have hvalue : (grid.square c).getValue = none :=
    if_neg (Nat.ne_of_gt hcard)
  rw [deduceSquare, hvalue, hpossible, if_neg (by decide)] at h
  cases hfind : (grid.square c).getPossibilities.find? fun possibility =>
      mustBeValueByRow grid c possibility ||
        (mustBeValueByCol grid c possibility ||
          mustBeValueBySector grid c possibility) with
  | none =>
      exact List.find?_eq_none.mp hfind p (mem_sorted.mpr hp)
        (mustBeValue_iff.mpr hforced)
  | some q =>
      rw [hfind] at h
      have hzero : q = 0 := by simpa [truthy] using h
      have hq := mem_sorted.mp (List.mem_of_find?_eq_some hfind)
      rw [hzero] at hq
      exact Square.zero_notMem hcard hq

/-- `_deduceSquare`, without a deduced zero, which `refine` takes for
`None`. -/
def deducer (s : ℕ) : Deducer (Grid.store s) (House.squares (s := s)) where
  deduce grid c := (deduceSquare grid c).filter fun value => value ≠ 0
  deduce_some h := by
    obtain ⟨hvalue, hne⟩ := Option.filter_eq_some_iff.mp h
    exact deducible_of_deduceSquare hvalue (of_decide_eq_true hne)
  deduce_none {grid c} h := by
    apply not_deducible_of_deduceSquare
    cases hvalue : deduceSquare grid c with
    | none => rfl
    | some value =>
        rw [hvalue] at h
        simpa [truthy, Option.filter] using h

/-- The loop of `refine`, from target indexes and current ones. -/
def refineFrom (targetIndexes : Option (Coord s)) (current : Coord s)
    (grid : Grid s) : Grid s :=
  refineLap (Grid.store s) (visitOrder s) (deducer s) (boardLap s)
    Grid.isPossible targetIndexes current grid

/-- One iteration of the loop as the source writes it. -/
theorem refineFrom_eq (targetIndexes : Option (Coord s)) (current : Coord s)
    (grid : Grid s) :
    refineFrom targetIndexes current grid =
      if targetIndexes = some current then grid
      else
        let deducedValue := deduceSquare grid current
        if truthy deducedValue then
          let grid := setSquareValueAt grid current (deducedValue.getD 0)
          if !grid.isPossible then grid
          else refineFrom (some current) (nextCoord current) grid
        else
          refineFrom (targetIndexes.or (some current)) (nextCoord current)
            grid := by
  rw [refineFrom, refineLap]
  by_cases htarget : targetIndexes = some current
  · rw [if_pos htarget, if_pos htarget]
  · rw [if_neg htarget, if_neg htarget]
    have hdeduce : (deducer s).deduce grid current =
        (deduceSquare grid current).filter fun value => value ≠ 0 := rfl
    dsimp only
    split
    · next value hvalue =>
      rw [hdeduce, Option.filter_eq_some_iff] at hvalue
      have htruthy : truthy (some value) = true := hvalue.2
      rw [hvalue.1, if_pos htruthy, setSquareValueAt_eq]
      dsimp only [Option.getD_some]
      split
      · next hpossible =>
        rw [if_neg (by simp [hpossible])]
        rfl
      · next hpossible =>
        rw [if_pos (by simpa using hpossible)]
    · next hnone =>
      have hfalse : truthy (deduceSquare grid current) = false := by
        cases hvalue : deduceSquare grid current with
        | none => rfl
        | some value =>
            rw [hdeduce, hvalue] at hnone
            simpa [truthy, Option.filter] using hnone
      rw [hfalse, if_neg (by decide)]
      rfl

namespace Grid

/-- Applies further rules to the grid to deduce the values of squares. -/
def refine (grid : Grid s) : Grid s :=
  have hpos := Nat.mul_pos grid.sectorDimension_pos grid.sectorDimension_pos
  refineFrom none (⟨0, hpos⟩, ⟨0, hpos⟩) grid

theorem deduces_refine (grid : Grid s) :
    Deduces Peer House.squares grid.candidates grid.refine.candidates :=
  deduces_refineLap (Grid.store s) (visitOrder s) (deducer s) (boardLap s)
    Grid.isPossible none _ grid

theorem closed_refine {grid : Grid s}
    (hclosed : Closed Peer grid.candidates) :
    Closed Peer grid.refine.candidates :=
  closed_refineLap (Grid.store s) (visitOrder s) (deducer s) (boardLap s)
    Grid.isPossible none _ grid hclosed

/-! ## Splitting grids -/

/-- `countPossibilities` inside `split`. -/
def countPossibilities (grid : Grid s) (indexes : Coord s) : ℕ :=
  (grid.square indexes).getPossibilities.length

/-- The indexes of the squares with more than one possibility, row by row. -/
def splitIndexes (grid : Grid s) : List (Coord s) :=
  ((List.finRange (s * s)).flatMap fun rowIndex =>
    (List.finRange (s * s)).map fun colIndex =>
      (colIndex, rowIndex)).filter fun c => decide (grid.countPossibilities c > 1)

/-- New versions of the grid, each with the chosen square containing one of its
possibilities. -/
def split (grid : Grid s) : Except String (List (Grid s)) :=
  match grid.splitIndexes.argmin grid.countPossibilities with
  | none =>
      .error ("Could not split grid as there " ++
        "were no viable squares to split")
  | some c =>
      .ok ((grid.square c).getPossibilities.map fun possibility =>
        setSquareValueAt grid c possibility)

theorem mem_splitIndexes {grid : Grid s} {c : Coord s} :
    c ∈ grid.splitIndexes ↔ 1 < (grid.candidates c).card := by
  rw [splitIndexes, List.mem_filter, decide_eq_true_eq, countPossibilities,
    Square.getPossibilities, length_sorted]
  refine and_iff_right (List.mem_flatMap.mpr ⟨c.2, List.mem_finRange _, ?_⟩)
  exact List.mem_map.mpr ⟨c.1, List.mem_finRange _, rfl⟩

/-- A possible grid that is not decided can be split. -/
theorem split_isOk {grid : Grid s} (hlive : Live grid.candidates)
    (hopen : ¬Decided grid.candidates) : ∃ splits, grid.split = .ok splits := by
  obtain ⟨c, hc⟩ := not_forall.mp hopen
  have hmem : c ∈ grid.splitIndexes := by
    have hpos := Finset.card_pos.mpr (hlive c)
    rw [mem_splitIndexes]
    omega
  rw [split]
  cases hmin : grid.splitIndexes.argmin grid.countPossibilities with
  | none =>
      rw [List.argmin_eq_none.mp hmin] at hmem
      exact absurd hmem List.not_mem_nil
  | some d => exact ⟨_, rfl⟩

/-- The versions of a grid decide a square in all possible ways. -/
theorem branches_split {grid : Grid s} {splits : List (Grid s)}
    (h : grid.split = .ok splits) :
    Branches Peer candidates grid.candidates splits := by
  rw [split] at h
  split at h
  · cases h
  · next c hmin =>
    cases h
    refine ⟨c, (grid.square c).getPossibilities,
      mem_splitIndexes.mp (List.argmin_mem hmin), nodup_sorted _,
      fun v => mem_sorted, ?_⟩
    rw [List.forall₂_map_right_iff, List.forall₂_same]
    intro possibility _
    rw [setSquareValueAt_eq]
    exact (store s).decides_setSquare (visitOrder s) possibility c grid

end Grid

/-! ## Generating solutions -/

/-- The search of `generate`: incomplete grids are kept when they are possible,
and the one kept last is inspected first. -/
def solver (s : ℕ) :
    Solver ℕ (Grid s) (Peer (s := s)) House.squares (digits s) where
  candidates := Grid.candidates
  refine := Grid.refine
  isComplete := Grid.isComplete
  isPossible := Grid.isPossible
  split splitsPerformed grid := grid.split.toOption.map fun gridSplits =>
    (splitsPerformed + gridSplits.length, gridSplits)
  keep := Grid.isPossible
  arrange := List.reverse
  deduces_refine := Grid.deduces_refine
  closed_refine _ := Grid.closed_refine
  isComplete_iff _ := Grid.isComplete_iff_decided
  isPossible_iff _ := Grid.isPossible_iff
  branches_split _ grid _ _ h := by
    obtain ⟨gridSplits, hsplits, heq⟩ := Option.map_eq_some_iff.mp h
    cases heq
    cases hsplit : grid.split with
    | error e =>
        rw [hsplit] at hsplits
        cases hsplits
    | ok splits =>
        rw [hsplit] at hsplits
        cases hsplits
        exact Grid.branches_split hsplit
  split_isSome _ grid hlive hopen := by
    obtain ⟨splits, hsplits⟩ := Grid.split_isOk hlive hopen
    rw [hsplits]
    exact ⟨_, _, rfl⟩
  keep_of_live _ := Grid.isPossible_iff.mpr
  arrange_perm := List.reverse_perm

/-- An exhausted generator: what it has yielded, and the state of the grid it
was given. -/
structure Generated (s : ℕ) where
  yields : List (Grid s × ℕ)
  grid : Grid s

/-- The loop of `generate`, with the grids to inspect; the first one is the
current grid.  It is missing if `split` raises an error. -/
def generateFrom (splitsPerformed : ℕ) (grids : List (Grid s)) :
    Option (List (Grid s × ℕ)) :=
  ((solver s).run splitsPerformed grids).map Prod.fst

/-- A generator that finds solutions to a grid, exhausted.  Only the first
round works on the given grid itself, the others on copies. -/
def generate (currentGrid : Grid s) : Option (Generated s) :=
  if !currentGrid.isPossible then some { yields := [], grid := currentGrid }
  else
    (generateFrom 0 [currentGrid]).map fun yields =>
      { yields := yields, grid := currentGrid.refine }

/-- One iteration of the loop as the source writes it. -/
theorem generateFrom_cons (splitsPerformed : ℕ) (currentGrid : Grid s)
    (inspectionStack : List (Grid s)) :
    generateFrom splitsPerformed (currentGrid :: inspectionStack) =
      let currentGrid := currentGrid.refine
      if currentGrid.isComplete then
        (generateFrom splitsPerformed inspectionStack).map fun yields =>
          (currentGrid, splitsPerformed) :: yields
      else if currentGrid.isPossible then
        currentGrid.split.toOption.bind fun gridSplits =>
          let splitsPerformed := splitsPerformed + gridSplits.length
          let complete := gridSplits.filter Grid.isComplete
          let possible := gridSplits.filter fun grid =>
            !grid.isComplete && grid.isPossible
          (generateFrom splitsPerformed
            (possible.reverse ++ inspectionStack)).map fun yields =>
              (complete.map fun grid => (grid, splitsPerformed)) ++ yields
      else generateFrom splitsPerformed inspectionStack := by
  by_cases hcomplete : currentGrid.refine.isComplete = true
  · rw [if_pos hcomplete, generateFrom, Solver.run_cons_complete hcomplete,
      generateFrom, Option.map_map, Option.map_map]
    rfl
  · rw [if_neg hcomplete]
    by_cases hpossible : currentGrid.refine.isPossible = true
    · have hsplit : (solver s).split splitsPerformed
          ((solver s).refine currentGrid) =
          currentGrid.refine.split.toOption.map fun gridSplits =>
            (splitsPerformed + gridSplits.length, gridSplits) := rfl
      rw [if_pos hpossible, generateFrom,
        Solver.run_cons_split hcomplete hpossible, hsplit]
      cases currentGrid.refine.split.toOption with
      | none => rfl
      | some gridSplits =>
          simp only [Option.map_some, Option.bind_some, Option.map_map,
            generateFrom]
          rfl
    · rw [if_neg hpossible, generateFrom,
        Solver.run_cons_impossible hcomplete hpossible, generateFrom]

/-- A generator yields every completion of its grid once. -/
theorem enumerates_generate {grid : Grid s}
    (hclosed : Closed Peer grid.candidates)
    (hwithin : Within (digits s) grid.candidates) :
    ∃ generated, generate grid = some generated ∧
      Enumerates (generated.yields.map fun y => y.1.candidates) (fun S =>
        Fills Peer House.squares (digits s) S ∧ Admits grid.candidates S) ∧
      Deduces Peer House.squares grid.candidates generated.grid.candidates ∧
      Closed Peer generated.grid.candidates := by
  rw [generate]
  by_cases hpossible : grid.isPossible = true
  · rw [if_neg (by simp [hpossible])]
    obtain ⟨found, splits, hrun, henum⟩ := (solver s).enumerates_run
      (fills_of_distinct (card_digits s)) 0 hclosed hwithin
    exact ⟨⟨found, grid.refine⟩, by rw [generateFrom, hrun]; rfl, henum,
      grid.deduces_refine, Grid.closed_refine hclosed⟩
  · rw [if_pos (by simpa using hpossible)]
    refine ⟨_, rfl, ⟨List.nodup_nil, fun m => ?_⟩,
      Relation.ReflTransGen.refl, hclosed⟩
    simp only [List.map_nil, List.not_mem_nil, false_iff]
    rintro ⟨S, ⟨-, hadm⟩, -⟩
    exact hpossible (Grid.isPossible_iff.mpr hadm.live)

/-- `setSquareValue` called for one clue after the other on a new grid. -/
def clueGrid (clues : List (Coord s × ℤ)) : Except String (Grid s) := do
  let grid ← newGrid s
  clues.foldlM (fun grid clue =>
    setSquareValue grid clue.1.1.1 clue.1.2.1 clue.2) grid

theorem foldlM_setSquareValue (clues : List (Coord s × ℤ)) (grid : Grid s) :
    clues.foldlM (fun grid clue =>
        setSquareValue grid clue.1.1.1 clue.1.2.1 clue.2) grid =
      .ok ((Grid.store s).setSquares (visitOrder s) clues grid) := by
  induction clues generalizing grid with
  | nil => rfl
  | cons clue clues ih =>
      rw [List.foldlM_cons, setSquareValue_ok, setSquareValueAt_eq]
      exact ih _

/-- A generator for a puzzle yields every completion of the clues once, and so
does a second one for the grid that the first one has left behind. -/
theorem generate_clueGrid (hs : 1 ≤ s) (clues : List (Coord s × ℤ))
    (hvalues : ∀ clue ∈ clues, clue.2 ∈ digits s)
    (hnodup : (clues.map Prod.fst).Nodup) :
    ∃ grid generated again, clueGrid clues = .ok grid ∧
      generate grid = some generated ∧
      generate generated.grid = some again ∧
      Enumerates (generated.yields.map fun y => y.1.candidates)
        (Completes (digits s) clues) ∧
      Enumerates (again.yields.map fun y => y.1.candidates)
        (Completes (digits s) clues) := by
  obtain ⟨new, hnew, hfull⟩ := newGrid_ok hs
  have hgrid : clueGrid clues =
      .ok ((Grid.store s).setSquares (visitOrder s) clues new) := by
    rw [clueGrid, hnew]
    exact foldlM_setSquareValue clues new
  generalize hclues : (Grid.store s).setSquares (visitOrder s) clues new = grid
    at hgrid
  have hclosed : Closed Peer grid.candidates := by
    rw [← hclues]
    exact closed_puzzle (Grid.store s) (visitOrder s) clues (card_digits s) hfull
  have hwithin : Within (digits s) grid.candidates := by
    rw [← hclues]
    exact within_puzzle (Grid.store s) (visitOrder s) hvalues hfull
  have hcompletes : ∀ S, (Fills Peer House.squares (digits s) S ∧
      Admits grid.candidates S) ↔ Completes (digits s) clues S := by
    intro S
    rw [← hclues]
    exact fills_puzzle_iff (Grid.store s) (visitOrder s) (card_digits s)
      hvalues hnodup hfull
  obtain ⟨generated, hgenerated, henum, hdeduces, hclosed'⟩ :=
    enumerates_generate hclosed hwithin
  obtain ⟨again, hagain, henum', -, -⟩ :=
    enumerates_generate hclosed' (hwithin.mono hdeduces.le)
  refine ⟨grid, generated, again, hgrid, hgenerated, hagain, ?_, ?_⟩
  · simp only [hcompletes] at henum
    exact henum
  · have hsame : ∀ S, (Fills Peer House.squares (digits s) S ∧
        Admits generated.grid.candidates S) ↔
          Completes (digits s) clues S := by
      intro S
      rw [← hcompletes]
      exact and_congr_right fun hS => hdeduces.admits_iff hS hwithin
    simp only [hsame] at henum'
    exact henum'

/-- Two clues in one row that contradict each other. -/
theorem generate_clueGrid_contradictory :
    ∃ grid generated again,
      clueGrid (s := 2) [((0, 0), 1), ((3, 0), 1)] = .ok grid ∧
        generate grid = some generated ∧
        generate generated.grid = some again ∧
        Enumerates (generated.yields.map fun y => y.1.candidates)
          (Completes (digits 2) [((0, 0), 1), ((3, 0), 1)]) ∧
        Enumerates (again.yields.map fun y => y.1.candidates)
          (Completes (digits 2) [((0, 0), 1), ((3, 0), 1)]) :=
  generate_clueGrid (by decide) _ (by decide) (by decide)

end SudokuSolver.Python
