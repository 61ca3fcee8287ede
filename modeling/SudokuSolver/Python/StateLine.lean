import SudokuSolver.InStep
import SudokuSolver.Lua.StateLine
import SudokuSolver.Python.Complete

/-!
# Reading back a line in Python

`getStateLine` shows the decided squares only.  For the grids that parsing and
solving lead to, `parse.line` restores the undecided squares too.  The grid of
Lua with the same possibilities is written to the same line, and what is read
from it is again the same.
-/

namespace SudokuSolver.Python

open Propagation

variable {s : ℕ}

/-- The grids that come from new ones by setting squares to values that are
still possible, by deductions, copies and splits. -/
inductive Explored : Grid s → Prop
  | newGrid {grid : Grid s} (h : newGrid s = .ok grid) : Explored grid
  | copy {grid : Grid s} (h : Explored grid) : Explored grid.copy
  | setSquareValue {grid next : Grid s} (h : Explored grid) {c : Coord s}
      {value : ℤ} (hvalue : (grid.square c).hasPossibility value = true)
      (hnext : setSquareValue grid c.1.1 c.2.1 value = .ok next) :
      Explored next
  | refine {grid : Grid s} (h : Explored grid) : Explored grid.refine
  | split {grid next : Grid s} (h : Explored grid) {splits : List (Grid s)}
      (hsplits : grid.split = .ok splits) (hnext : next ∈ splits) :
      Explored next

/-- What holds of the possibilities of an explored grid. -/
structure Owed (grid : Grid s) : Prop where
  closed : Closed Peer grid.candidates
  justified : Justified Peer (digits s) grid.candidates
  within : Within (digits s) grid.candidates

theorem Owed.setSquareValueAt {grid : Grid s} (h : Owed grid) {c : Coord s}
    {value : ℤ} (hvalue : value ∈ grid.candidates c) :
    Owed (setSquareValueAt grid c value) where
  closed := closed_setSquareValueAt c value h.closed
  justified := by
    rw [setSquareValueAt_eq]
    exact (Grid.store s).justified_setSquare (visitOrder s) hvalue h.justified
  within := by
    rw [setSquareValueAt_eq]
    exact (Grid.store s).within_setSquare (visitOrder s) (h.within c hvalue)
      h.within

theorem Explored.owed {grid : Grid s} (h : Explored grid) : Owed grid := by
  induction h with
  | @newGrid grid h =>
      obtain ⟨new, hnew, hfull⟩ := newGrid_ok grid.sectorDimension_pos
      cases h.symm.trans hnew
      constructor
      · rw [hfull]
        exact closed_full (card_digits s)
      · rw [hfull]
        exact justified_full
      · rw [hfull]
        exact fun _ => subset_rfl
  | @copy grid _ ih =>
      obtain ⟨hclosed, hjust, hwithin⟩ := ih
      rw [← grid.candidates_copy] at hclosed hjust hwithin
      exact ⟨hclosed, hjust, hwithin⟩
  | @setSquareValue grid next _ c value hvalue hnext ih =>
      rw [setSquareValue_ok] at hnext
      cases hnext
      exact ih.setSquareValueAt (of_decide_eq_true hvalue)
  | @refine grid _ ih =>
      exact ⟨Grid.closed_refine ih.closed, (Grid.store s).justified_refineLap
        (visitOrder s) (deducer s) (boardLap s) _ none _ grid ih.justified,
        ih.within.mono (Grid.deduces_refine grid).le⟩
  | @split grid next _ splits hsplits hnext ih =>
      rw [Grid.split] at hsplits
      split at hsplits
      · cases hsplits
      · next c hmin =>
        cases hsplits
        obtain ⟨possibility, hmem, rfl⟩ := List.mem_map.mp hnext
        exact ih.setSquareValueAt (mem_sorted.mp hmem)

/-! ## Round trip -/

/-- A grid of Lua with the same possibilities. -/
def luaGrid (grid : Grid s) : Lua.Grid s where
  layout := Lua.Layout.inOrder s
  m_rows := Vector.ofFn fun y => Vector.ofFn fun x =>
    Finset.univ.filter fun v => toInteger v ∈ grid.candidates (x, y)
  m_sectorDimension_pos := grid.sectorDimension_pos

theorem alike_luaGrid {grid : Grid s}
    (hwithin : Within (digits s) grid.candidates) :
    Alike (luaGrid grid) grid := by
  refine ⟨rfl, fun c => ?_⟩
  have hsquare : (luaGrid grid).candidates c =
      Finset.univ.filter fun v => toInteger v ∈ grid.candidates c := by
    simp [Lua.Grid.candidates, Lua.Grid.square, luaGrid, Table.entry]
  rw [hsquare]
  ext v
  rw [Finset.mem_map]
  constructor
  · intro hv
    have hdigit := hwithin c hv
    rw [digits_eq_map, Finset.mem_map] at hdigit
    obtain ⟨w, -, rfl⟩ := hdigit
    exact ⟨w, Finset.mem_filter.mpr ⟨Finset.mem_univ w, hv⟩, rfl⟩
  · rintro ⟨w, hw, rfl⟩
    exact (Finset.mem_filter.mp hw).2

/-- A line loses nothing: reading it back gives every square its possibilities
again. -/
theorem line_getStateLine (hs : s ≤ 3) {grid : Grid s}
    (hexplored : Explored grid) (hpossible : grid.isPossible = true) :
    ∃ characters newGrid, grid.getStateLine = .ok characters ∧
      Parse.line characters = .ok ⟨s, newGrid⟩ ∧
      ∀ c, newGrid.square c = grid.square c := by
  obtain ⟨hclosed, hjust, hwithin⟩ := hexplored.owed
  have halike := alike_luaGrid hwithin
  rw [digits_eq_map] at hjust
  obtain ⟨line, newLuaGrid, hline, hparsed, hsame⟩ :=
    Lua.exists_parseLine_getStateLine Lua.Layout.inOrder hs
      (halike.2.closed hclosed) (halike.2.justified hjust)
      (halike.2.live_iff.mp (Grid.isPossible_iff.mp hpossible))
  obtain ⟨text, htext, hpython⟩ := halike.getStateLine hs
  cases hline.symm.trans htext
  obtain ⟨newGrid, hnewGrid, hnew⟩ := exists_alike_of_parseLine hparsed
  refine ⟨line, newGrid, hpython, hnewGrid, fun c => Square.ext ?_⟩
  rw [hnew.possibilities, hsame, halike.possibilities]

/-- A new grid of sector dimension two whose first square is set. -/
theorem line_getStateLine_one :
    ∃ (grid : Grid 2) (characters : String) (newGrid : Grid 2),
      (grid.square (0, 0)).getValue = some 1 ∧
        grid.getStateLine = .ok characters ∧
        Parse.line characters = .ok ⟨2, newGrid⟩ ∧
        ∀ c, newGrid.square c = grid.square c := by
  obtain ⟨new, hnew, hfull⟩ := newGrid_ok (s := 2) (by decide)
  have hmem : (1 : ℤ) ∈ new.candidates (0, 0) := by
    rw [hfull]
    decide
  have hexplored := (Explored.newGrid hnew).setSquareValue
    (decide_eq_true hmem) (setSquareValue_ok new (0, 0) 1)
  have hadm : Admits new.candidates fun c => ((smallCompletion c).1 : ℤ) := by
    rw [hfull]
    intro c
    have hvalue := Finset.mem_Icc.mp (smallCompletion c).2
    rw [digits, mem_setRange]
    dsimp only
    omega
  have hdistinct : ∀ c d : Coord 2, Peer c d →
      ((smallCompletion c).1 : ℤ) ≠ (smallCompletion d).1 := by
    intro c d hpeer heq
    exact completes_smallCompletion.1.fills.distinct c d hpeer
      (Subtype.ext (Int.ofNat_inj.mp heq))
  have hadm' : Admits (setSquareValueAt new (0, 0) 1).candidates
      fun c => ((smallCompletion c).1 : ℤ) := by
    rw [setSquareValueAt_eq]
    exact (Grid.store 2).admits_setSquare (visitOrder 2) hdistinct hadm rfl
  have hfirst : (Grid.square (setSquareValueAt new (0, 0) 1) (0, 0)).getValue =
      some 1 := by
    rw [Square.getValue_eq_some_iff]
    apply hadm'.live.eq_singleton
    rw [setSquareValueAt_eq]
    exact (Grid.store 2).setSquare_self_subset (visitOrder 2) 1 (0, 0) new
  obtain ⟨characters, newGrid, hline⟩ := line_getStateLine (by decide)
    hexplored (Grid.isPossible_iff.mpr hadm'.live)
  exact ⟨_, characters, newGrid, hfirst, hline⟩

end SudokuSolver.Python
