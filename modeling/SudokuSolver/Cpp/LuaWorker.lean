import SudokuSolver.Cpp.TextLoader
import SudokuSolver.Lua.Parsers

/-!
# The worker that solves puzzles with Lua

`lua_worker.cpp` with the scripts it embeds.  Their grids and deductions are
those of the Lua solver; `interop.lua` and `solvers.lua` differ from it.  The
C++ side sees a coroutine through the values that `lua_resume` leaves on its
stack, and looks at the topmost one only.
-/

namespace SudokuSolver.Cpp

open Propagation Lua

variable {s : ℕ}

/-- The order of the tables that are created while one puzzle is solved. -/
structure Order where
  layout : ∀ s, Lua.Layout s
  tables : ∀ s, Lua.Tables s

/-- Visiting all tables in the order of their keys. -/
def Order.inOrder : Order where
  layout := Lua.Layout.inOrder
  tables s := ⟨fun _ => Lua.Layout.inOrder s, fun _ => Lua.Traversal.inOrder⟩

/-- A value that a coroutine hands to C++. -/
inductive LuaValue where
  | nil
  | number (n : ℕ)
  | grid (s : ℕ) (grid : Lua.Grid s)

/-- A coroutine: the values of every yield, and the values it returns. -/
structure Coroutine where
  yields : List (List LuaValue)
  returns : List LuaValue

/-- The value on top of the stack after a coroutine is resumed for the first
time. -/
def Coroutine.resume (routine : Coroutine) : LuaValue :=
  match routine.yields with
  | [] => routine.returns.getLastD .nil
  | values :: _ => values.getLastD .nil

/-! ## The scripts -/

/-- The body of the loop of `numbersToCoroutine`, for one value and its index,
which starts at one. -/
def setNumber (grid : Lua.Grid s) (item : ℕ × ℕ) :
    Except String (Lua.Grid s) :=
  let (value, index) := item
  let gridDimension := s ^ 2
  if value ≠ 0 then
    let rowIndex := (index + gridDimension - 1) / gridDimension
    let colIndex := index % gridDimension
    let colIndex := if 0 = colIndex then gridDimension else colIndex
    Lua.setSquareValue grid colIndex rowIndex value
  else .ok grid

/-- The grid that `numbersToCoroutine` creates from values. -/
def numbersToGrid (layout : ∀ s, Lua.Layout s) (values : Puzzle) :
    Except String ((s : ℕ) × Lua.Grid s) :=
  match fourthRoot values.length with
  | none =>
      .error ("Cannot create a grid from " ++ toString values.length ++
        " values")
  | some sectorDimension => do
      let grid ← Lua.newGrid sectorDimension (layout sectorDimension)
      let grid ← (values.zipIdx 1).foldlM setNumber grid
      return ⟨sectorDimension, grid⟩

/-- The coroutine that finds solutions to a grid; its loop is the one of the Lua
solver, but it yields the grids only, and what it returns at the end is nil.  A
missing result stands for an error inside it. -/
def produceSolutions (tables : Lua.Tables s) (currentGrid : Lua.Grid s) :
    Option Coroutine :=
  if !currentGrid.isPossible then
    some { yields := [], returns := [.nil, .number 0] }
  else
    (Lua.produceFrom tables 0 [currentGrid]).map fun routine =>
      { yields := routine.yields.map fun y => [.grid s y.1], returns := [.nil] }

/-- A coroutine used to solve the grid of a puzzle. -/
def numbersToCoroutine (order : Order) (values : Puzzle) :
    Except String (Option Coroutine) := do
  let grid ← numbersToGrid order.layout values
  return produceSolutions (order.tables grid.1) grid.2

/-- All the values in a grid, and 0 where there is no value.  The bytecode has
neither the names of variables nor line numbers for the texts of errors. -/
def gridToNumbers (grid : LuaValue) : Except String Puzzle :=
  match grid with
  | .nil => .error "?:0: attempt to index a nil value"
  | .number _ => .error "?:0: attempt to index a number value"
  | .grid s grid =>
      .ok ((List.finRange (s * s)).flatMap fun rowIndex =>
        (List.finRange (s * s)).map fun colIndex =>
          match Lua.Square.getValue (grid.square (colIndex, rowIndex)) with
          | some value => value.1
          | none => 0)

/-! ## The worker -/

/-- Resumes a coroutine and returns its solution, or nothing if there are no
further solutions; an error is one with which `OnError` is called. -/
def getNextSolution (routine : Option Coroutine) :
    Except String (Option Puzzle) :=
  match routine with
  | none => .error "bad argument #1 to 'pairs' (table expected, got nil)"
  | some routine =>
      match routine.resume with
      | .nil => .ok none
      | value => (gridToNumbers value).map some

/-- What the body of the loop of `process` finds for a puzzle. -/
def solvePuzzle (order : Order) (puzzle : Puzzle) :
    Except String (Option Puzzle) := do
  let routine ← numbersToCoroutine order puzzle
  getNextSolution routine

/-- `Solution`. -/
structure Solution where
  m_puzzle : Puzzle
  m_solution : Puzzle
deriving DecidableEq

/-- What comes of processing a loader: the lists handed over in one call of
`AddSolutions` each, and the error with which `OnError` was reached, if any. -/
structure Processed where
  added : List (List Solution)
  error : Option String

/-- `LuaWorker::Process`.  The order of the tables that Lua creates is that of a
deterministic machine, so it depends on the puzzle only. -/
def process (order : Puzzle → Order) (loader : TextLoader) : Processed :=
  match _h : loader.getPuzzle with
  | (none, _) => { added := [], error := none }
  | (some puzzle, loader) =>
      match solvePuzzle (order puzzle) puzzle with
      | .error message => { added := [], error := some message }
      | .ok none => process order loader
      | .ok (some solution) =>
          let rest := process order loader
          { rest with added := [⟨puzzle, solution⟩] :: rest.added }
termination_by loader.m_puzzles.length
decreasing_by all_goals exact TextLoader.length_getPuzzle_lt _h

/-! ## What a worker is for -/

/-- A solution of a puzzle: the values of a completion that agrees with every
value of the puzzle that is not zero. -/
def IsSolution (puzzle solution : Puzzle) : Prop :=
  ∃ (s : ℕ) (S : Coord s → Value s), puzzle.length = s ^ 4 ∧
    CompletesItems some puzzle S ∧ solution = (rowMajor s).map fun c => (S c).1

/-- One solution is handed over for each puzzle that has one, and nothing for
the others. -/
inductive Solves : List Puzzle → List (List Solution) → Prop
  | nil : Solves [] []
  | solved {puzzle solution : Puzzle} {puzzles : List Puzzle}
      {added : List (List Solution)} (h : IsSolution puzzle solution)
      (rest : Solves puzzles added) :
      Solves (puzzle :: puzzles) ([⟨puzzle, solution⟩] :: added)
  | unsolvable {puzzle : Puzzle} {puzzles : List Puzzle}
      {added : List (List Solution)} (h : ¬∃ solution, IsSolution puzzle solution)
      (rest : Solves puzzles added) : Solves (puzzle :: puzzles) added

/-- Every square can be given values, among them those of the puzzle, such that
the only value of a square is not a value of any of its peers. -/
def Consistent (puzzle : Puzzle) : Prop :=
  ∃ (s : ℕ) (m : Candidates (Coord s) (Value s)), puzzle.length = s ^ 4 ∧
    Live m ∧ Closed Peer m ∧
      ∀ c (v : Value s), itemAt puzzle c = some v.1 → m c = {v}

/-! ## Solving one puzzle -/

theorem setNumber_of_ok {grid newGrid : Lua.Grid s} {value : ℕ} {c : Coord s}
    (h : setNumber grid (value, place c + 1) = .ok newGrid) :
    (newGrid = grid ∧ ∀ v, some value = some v → v = 0) ∨
      ∃ v : Value s, some value = some v.1 ∧
        newGrid = Lua.setSquareValueAt grid c v := by
  obtain ⟨hrow, hcolumn⟩ := Lua.index_place c
  simp only [setNumber, hrow, hcolumn] at h
  split at h
  · obtain ⟨v, rfl, hnew⟩ := Lua.setSquareValue_of_ok h
    exact Or.inr ⟨v, rfl, hnew⟩
  · next hzero =>
    refine Or.inl ⟨(Except.ok.inj h).symm, fun v hv => ?_⟩
    rw [← Option.some.inj hv]
    exact not_not.mp hzero

theorem exists_setNumber {value : ℕ} (hvalue : value ≤ s * s)
    (grid : Lua.Grid s) (c : Coord s) :
    ∃ newGrid, setNumber grid (value, place c + 1) = .ok newGrid := by
  obtain ⟨hrow, hcolumn⟩ := Lua.index_place c
  simp only [setNumber, hrow, hcolumn]
  by_cases hzero : value ≠ 0
  · have hmem : value ∈ Finset.Icc 1 (s * s) := by
      rw [Finset.mem_Icc]
      omega
    rw [if_pos hzero]
    have hok := Lua.setSquareValue_ok grid c ⟨value, hmem⟩
    push_cast
    exact ⟨_, hok⟩
  · rw [if_neg hzero]
    exact ⟨grid, rfl⟩

/-- A puzzle has one sector dimension. -/
theorem eq_of_length {puzzle : Puzzle} {s t : ℕ} (hs : puzzle.length = s ^ 4)
    (ht : puzzle.length = t ^ 4) : s = t :=
  Nat.pow_left_injective (by decide : 4 ≠ 0) (hs.symm.trans ht)

/-- A puzzle with a solution is consistent. -/
theorem IsSolution.consistent {puzzle solution : Puzzle}
    (h : IsSolution puzzle solution) : Consistent puzzle := by
  obtain ⟨s, S, hlength, ⟨hcompletion, hclues⟩, -⟩ := h
  have hdistinct : ∀ c d, Peer c d → S c ≠ S d :=
    hcompletion.fills.distinct
  refine ⟨s, pointwise S, hlength, pointwise_live S,
    pointwise_closed hdistinct, ?_⟩
  intro c v hitem
  have hvalue := hclues c v.1 (by rw [hitem]; rfl)
    (Nat.ne_of_gt (Finset.mem_Icc.mp v.2).1)
  rw [pointwise, Subtype.ext hvalue]

/-- The grid of a puzzle has all completions of the puzzle, and it is possible
exactly when the puzzle is consistent. -/
theorem exists_numbersToGrid (layout : ∀ s, Lua.Layout s) {puzzle : Puzzle}
    (hs : 1 ≤ s) (hpuzzle : IsPuzzle s puzzle) :
    ∃ grid : Lua.Grid s, numbersToGrid layout puzzle = .ok ⟨s, grid⟩ ∧
      Closed Peer grid.candidates ∧
      (∀ S, (Fills Peer House.squares Finset.univ S ∧
        Admits grid.candidates S) ↔ CompletesItems some puzzle S) ∧
      (grid.isPossible = true ↔ Consistent puzzle) := by
  have hlength := hpuzzle.length_eq
  obtain ⟨new, hnew, -, -⟩ := Lua.newGrid_ok hs (layout s)
  have hset : ∀ (grid : Lua.Grid s), ∀ item ∈ puzzle.zip (rowMajor s),
      ∃ newGrid, setNumber grid (item.1, place item.2 + 1) = .ok newGrid :=
    fun grid item hitem => exists_setNumber
      (hpuzzle.le_dimension _ (List.of_mem_zip hitem).1) grid item.2
  obtain ⟨grid, hgrid⟩ := exists_foldlM_ok hset new
  have hread : (puzzle.zipIdx 1).foldlM setNumber new = .ok grid := by
    rw [Lua.zipIdx_eq_map hlength, List.foldlM_map]
    exact hgrid
  obtain ⟨hclosed, hexact⟩ := Lua.items_exact
    (fun h => setNumber_of_ok h) hlength hnew hread
  refine ⟨grid, ?_, hclosed, hexact, ?_⟩
  · rw [numbersToGrid, fourthRoot_eq_some_iff.mpr hlength.symm]
    dsimp only
    rw [hnew]
    exact bind_eq_ok_iff.mpr ⟨new, rfl, bind_eq_ok_iff.mpr ⟨grid, hread, rfl⟩⟩
  · obtain ⟨clues, hclues, hfull, hdistinct, hmem⟩ :=
      Lua.exists_clues_of_items (fun h => setNumber_of_ok h) hlength hnew hread
    have hmem' : ∀ c (v : Value s),
        (c, v) ∈ clues ↔ itemAt puzzle c = some v.1 := by
      intro c v
      have hpos := (Finset.mem_Icc.mp v.2).1
      constructor
      · intro hclue
        obtain ⟨a, ha, hdigit, -⟩ := (hmem c v.1).mp ⟨v, rfl, hclue⟩
        rw [(mem_zip_rowMajor hlength).mp ha, hdigit]
      · intro hitem
        obtain ⟨w, hw, hclue⟩ := (hmem c v.1).mpr
          ⟨v.1, (mem_zip_rowMajor hlength).mpr hitem, rfl, by omega⟩
        rwa [Subtype.ext hw] at hclue
    rw [Lua.Grid.isPossible_iff, hclues,
      (Lua.Grid.store s).live_setSquares_iff _ hdistinct
        (by rw [hfull]; exact closed_full (card_values s)) hfull
        (fun clue _ => Finset.mem_univ clue.2)]
    constructor
    · rintro ⟨m, -, hclosed, hlive, hm⟩
      exact ⟨s, m, hlength, hlive, hclosed,
        fun c v hitem => hm (c, v) ((hmem' c v).mpr hitem)⟩
    · rintro ⟨t, m, ht, hlive, hclosed, hm⟩
      cases eq_of_length hlength ht
      exact ⟨m, within_univ m, hclosed, hlive,
        fun clue hclue => hm clue.1 clue.2 ((hmem' clue.1 clue.2).mp hclue)⟩

/-- A grid with one value in each square is read square after square. -/
theorem gridToNumbers_of_pointwise {grid : Lua.Grid s} {S : Coord s → Value s}
    (h : grid.candidates = pointwise S) :
    gridToNumbers (.grid s grid) = .ok ((rowMajor s).map fun c => (S c).1) := by
  have hvalue : ∀ c, Lua.Square.getValue (grid.square c) = some (S c) :=
    fun c => Lua.Square.getValue_eq_some_iff.mpr (congrFun h c)
  simp only [gridToNumbers, hvalue]
  rw [rowMajor_eq_flatMap, List.map_flatMap]
  simp only [List.map_map]
  rfl

/-- Solving a puzzle calls `OnError` exactly when the puzzle is not consistent;
otherwise it gives a solution if there is one. -/
theorem solvePuzzle_exact (order : Order) {puzzle : Puzzle}
    (hpuzzle : Loadable puzzle) :
    (¬Consistent puzzle ∧ solvePuzzle order puzzle =
        .error "?:0: attempt to index a number value") ∨
      Consistent puzzle ∧ ∃ found, solvePuzzle order puzzle = .ok found ∧
        (∀ solution ∈ found, IsSolution puzzle solution) ∧
        (found = none → ¬∃ solution, IsSolution puzzle solution) := by
  obtain ⟨s, hs, -, hpuzzle⟩ := hpuzzle
  obtain ⟨grid, hgrid, hclosed, hexact, hconsistent⟩ :=
    exists_numbersToGrid order.layout hs hpuzzle
  have hsolve : solvePuzzle order puzzle =
      getNextSolution (produceSolutions (order.tables s) grid) := by
    rw [solvePuzzle, numbersToCoroutine, hgrid]
    rfl
  rw [hsolve, ← hconsistent, produceSolutions]
  by_cases hpossible : grid.isPossible = true
  · obtain ⟨⟨yields, splits⟩, hroutine, -, henum⟩ :=
      Lua.enumerates_produceSolutions (order.tables s) hclosed
    simp only [hexact] at henum
    rw [Lua.produceSolutions, if_neg (by simp [hpossible])] at hroutine
    refine Or.inr ⟨hpossible, ?_⟩
    rw [if_neg (by simp [hpossible]), hroutine]
    cases yields with
    | nil =>
        refine ⟨none, rfl, by simp, fun _ => ?_⟩
        rintro ⟨solution, t, S, ht, hS, -⟩
        cases eq_of_length hpuzzle.length_eq ht
        have hmem := (henum (pointwise S)).mpr ⟨S, hS, rfl⟩
        exact absurd hmem (by simp)
    | cons first rest =>
        obtain ⟨S, hS, heq⟩ := (henum first.1.candidates).mp
          (List.mem_map.mpr ⟨first, List.mem_cons_self, rfl⟩)
        have hnumbers := gridToNumbers_of_pointwise heq
        refine ⟨some ((rowMajor s).map fun c => (S c).1), ?_, ?_, by simp⟩
        · change (gridToNumbers (.grid s first.1)).map some = _
          rw [hnumbers]
          rfl
        · intro solution hsolution
          cases hsolution
          exact ⟨s, S, hpuzzle.length_eq, hS, rfl⟩
  · rw [if_pos (by simpa using hpossible)]
    exact Or.inl ⟨hpossible, rfl⟩

/-- A puzzle that has a solution is solved. -/
theorem exists_solvePuzzle (order : Order) {puzzle : Puzzle}
    (hpuzzle : Loadable puzzle) (hsolvable : ∃ solution, IsSolution puzzle solution) :
    ∃ solution, solvePuzzle order puzzle = .ok (some solution) ∧
      IsSolution puzzle solution := by
  obtain ⟨solution, hsolution⟩ := hsolvable
  rcases solvePuzzle_exact order hpuzzle with
    ⟨hinconsistent, -⟩ | ⟨-, found, hfound, hsome, hnone⟩
  · exact absurd hsolution.consistent hinconsistent
  · cases found with
    | none => exact absurd ⟨solution, hsolution⟩ (hnone rfl)
    | some first => exact ⟨first, hfound, hsome first rfl⟩

/-! ## Processing a loader -/

@[simp] theorem process_nil (order : Puzzle → Order) :
    process order ⟨[]⟩ = { added := [], error := none } := by
  rw [process]
  rfl

theorem process_cons (order : Puzzle → Order) (puzzle : Puzzle)
    (puzzles : List Puzzle) :
    process order ⟨puzzle :: puzzles⟩ =
      match solvePuzzle (order puzzle) puzzle with
      | .error message => { added := [], error := some message }
      | .ok none => process order ⟨puzzles⟩
      | .ok (some solution) =>
          let rest := process order ⟨puzzles⟩
          { rest with added := [⟨puzzle, solution⟩] :: rest.added } := by
  rw [process]
  rfl

/-- Processing stops with an error at the first puzzle that is not consistent,
and treats every puzzle before it as it should. -/
theorem process_puzzles (order : Puzzle → Order) {puzzles : List Puzzle}
    (hpuzzles : ∀ puzzle ∈ puzzles, Loadable puzzle) :
    ((process order ⟨puzzles⟩).error = none ↔
      ∀ puzzle ∈ puzzles, Consistent puzzle) ∧
    ((process order ⟨puzzles⟩).error = none →
      Solves puzzles (process order ⟨puzzles⟩).added) := by
  induction puzzles with
  | nil =>
      rw [process_nil]
      exact ⟨by simp, fun _ => Solves.nil⟩
  | cons puzzle puzzles ih =>
      obtain ⟨hpuzzle, hrest⟩ := List.forall_mem_cons.mp hpuzzles
      obtain ⟨herror, hsolves⟩ := ih hrest
      rw [process_cons, List.forall_mem_cons]
      rcases solvePuzzle_exact (order puzzle) hpuzzle with
        ⟨hinconsistent, hstop⟩ | ⟨hconsistent, found, hfound, hsome, hnone⟩
      · rw [hstop]
        refine ⟨?_, fun h => absurd h (by simp)⟩
        exact iff_of_false (by simp) fun h => hinconsistent h.1
      · rw [hfound]
        cases found with
        | none =>
            refine ⟨?_, fun h => Solves.unsolvable (hnone rfl) (hsolves h)⟩
            rw [and_iff_right hconsistent]
            exact herror
        | some solution =>
            refine ⟨?_, fun h => Solves.solved (hsome _ rfl) (hsolves h)⟩
            rw [and_iff_right hconsistent]
            exact herror

/-- A worker hands over one solution for each puzzle of its loader that has one
and nothing for the others, without an error, exactly when every puzzle is
consistent. -/
theorem process_exact (order : Puzzle → Order) {lines : List String}
    {loader : TextLoader} (h : TextLoader.new lines = .ok loader) :
    ((process order loader).error = none ∧
      Solves loader.m_puzzles (process order loader).added) ↔
        ∀ puzzle ∈ loader.m_puzzles, Consistent puzzle := by
  obtain ⟨herror, hsolves⟩ :=
    process_puzzles order (TextLoader.loadable h)
  rw [← herror]
  exact and_iff_left_of_imp hsolves

/-- A file with a puzzle without clues. -/
theorem process_exact_blank :
    ∃ loader, TextLoader.new ["0000000000000000"] = .ok loader ∧
      (((process (fun _ => Order.inOrder) loader).error = none ∧
        Solves loader.m_puzzles
          (process (fun _ => Order.inOrder) loader).added) ↔
        ∀ puzzle ∈ loader.m_puzzles, Consistent puzzle) := by
  have hnew : TextLoader.new ["0000000000000000"] =
      .ok ⟨[List.replicate 16 0]⟩ := by rfl
  exact ⟨_, hnew, process_exact _ hnew⟩

theorem not_consistent_of_peers {puzzle : Puzzle}
    (hlength : puzzle.length = s ^ 4) {c d : Coord s} {v : Value s}
    (hpeer : Peer c d) (hc : itemAt puzzle c = some v.1)
    (hd : itemAt puzzle d = some v.1) : ¬Consistent puzzle := by
  rintro ⟨t, m, ht, -, hclosed, hm⟩
  cases eq_of_length hlength ht
  refine hclosed c v (hm c v hc) d hpeer ?_
  rw [hm d v hd]
  exact Finset.mem_singleton_self v

/-- Two clues that contradict each other directly end the processing, although
the puzzle after them has solutions. -/
theorem process_contradictory :
    ∃ loader, TextLoader.new ["1100000000000000", "0000000000000000"] =
        .ok loader ∧
      (process (fun _ => Order.inOrder) loader).error =
        some "?:0: attempt to index a number value" ∧
      (process (fun _ => Order.inOrder) loader).added = [] := by
  have hnew : TextLoader.new ["1100000000000000", "0000000000000000"] =
      .ok ⟨[1 :: 1 :: List.replicate 14 0, List.replicate 16 0]⟩ := by rfl
  have hinconsistent : ¬Consistent (1 :: 1 :: List.replicate 14 0) :=
    not_consistent_of_peers (s := 2) (c := (0, 0)) (d := (1, 0))
      (v := ⟨1, by decide⟩) (by decide) (by decide) (by decide) (by decide)
  have hloadable := TextLoader.loadable hnew _ List.mem_cons_self
  refine ⟨_, hnew, ?_⟩
  rcases solvePuzzle_exact Order.inOrder hloadable with
    ⟨-, hstop⟩ | ⟨hconsistent, -⟩
  · rw [process_cons, hstop]
    exact ⟨rfl, rfl⟩
  · exact absurd hconsistent hinconsistent

end SudokuSolver.Cpp
