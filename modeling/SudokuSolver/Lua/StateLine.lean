import SudokuSolver.Lua.Parsers
import SudokuSolver.Lua.Printers

/-!
# Reading back a line in Lua

`getStateLine` shows the decided squares only.  For the grids that parsing and
solving lead to, `parseLine` restores the undecided squares too, whatever the
order of the tables.
-/

namespace SudokuSolver.Lua

open Propagation

variable {s : ℕ}

/-- The grids that come from new ones by setting squares to values that are
still possible, by deductions and by splits. -/
inductive Reached : Grid s → Prop
  | newGrid {layout : Layout s} {grid : Grid s}
      (h : newGrid s layout = .ok grid) : Reached grid
  | clone {grid : Grid s} (h : Reached grid) (layout : Layout s) :
      Reached (grid.clone layout)
  | setSquareValue {grid next : Grid s} (h : Reached grid) {c : Coord s}
      {value : Value s} (hvalue : value ∈ grid.square c)
      (hnext : setSquareValue grid (c.1.1 + 1) (c.2.1 + 1) value.1 = .ok next) :
      Reached next
  | refineGrid {grid : Grid s} (h : Reached grid) : Reached (refineGrid grid)
  | split {grid next : Grid s} (h : Reached grid) {layouts : ℕ → Layout s}
      {splits : List (Grid s)} (hsplits : grid.split layouts = some splits)
      (hnext : next ∈ splits) : Reached next

theorem justified_setSquareValueAt {grid : Grid s} {c : Coord s}
    {value : Value s} (hvalue : value ∈ grid.square c)
    (h : Justified Peer Finset.univ grid.candidates) :
    Justified Peer Finset.univ (setSquareValueAt grid c value).candidates := by
  rw [setSquareValueAt_eq]
  exact (Grid.store s).justified_setSquare grid.layout.visitOrder
    (g := grid.m_rows) hvalue h

theorem closed_setSquareValueAt {grid : Grid s} (c : Coord s)
    (value : Value s) (h : Closed Peer grid.candidates) :
    Closed Peer (setSquareValueAt grid c value).candidates := by
  rw [setSquareValueAt_eq]
  exact (Grid.store s).closed_setSquare grid.layout.visitOrder value c h

/-- The value of a square is not possible for its peers, and what an undecided
square has lost is owed to one of them. -/
theorem Reached.closed_justified {grid : Grid s} (h : Reached grid) :
    Closed Peer grid.candidates ∧
      Justified Peer Finset.univ grid.candidates := by
  induction h with
  | @newGrid layout grid h =>
      obtain ⟨new, hnew, -, hfull⟩ :=
        newGrid_ok grid.m_sectorDimension_pos layout
      cases h.symm.trans hnew
      rw [hfull]
      exact ⟨closed_full (card_values s), justified_full⟩
  | clone _ layout ih =>
      rw [Grid.candidates_clone]
      exact ih
  | @setSquareValue grid next _ c value hvalue hnext ih =>
      rw [setSquareValue_ok] at hnext
      cases hnext
      exact ⟨closed_setSquareValueAt c value ih.1,
        justified_setSquareValueAt hvalue ih.2⟩
  | @refineGrid grid _ ih =>
      exact ⟨closed_refineGrid ih.1, (Grid.store s).justified_refineLap
        grid.layout.visitOrder (deducer grid) (boardLap s) _ none _
        grid.m_rows ih.2⟩
  | @split grid next _ layouts splits hsplits hnext ih =>
      obtain ⟨chosen, -, rfl⟩ := Option.map_eq_some_iff.mp hsplits
      obtain ⟨⟨value, k⟩, hvalue, rfl⟩ := List.mem_map.mp hnext
      have hmem : value ∈ Square.getPossibilities (grid.square chosen.1) := by
        obtain ⟨i, hi, hget⟩ := List.getElem_of_mem hvalue
        rw [List.getElem_zipIdx, Prod.mk.injEq] at hget
        exact hget.1 ▸ List.getElem_mem _
      rw [← Grid.candidates_clone grid (layouts k)] at ih
      refine ⟨closed_setSquareValueAt chosen.1 value ih.1,
        justified_setSquareValueAt ?_ ih.2⟩
      change value ∈ (grid.clone (layouts k)).candidates chosen.1
      rw [Grid.candidates_clone]
      exact mem_ascending.mp hmem

/-! ## Characters -/

/-- The character of a square in a line. -/
def squareChar (square : Square s) : Char :=
  match Square.getValue square with
  | none => '.'
  | some value => value.1.digitChar

theorem Square.toList_text (hs : s ≤ 3) (square : Square s) :
    (Square.text square).toList = [squareChar square] := by
  rw [Square.text, squareChar]
  cases Square.getValue square with
  | none => simp
  | some value => exact toList_toString_digit (value_le_nine hs value)

/-- The digit of a square is its value. -/
theorem digitValue_squareChar (hs : s ≤ 3) {square : Square s} {v : ℕ} :
    digitValue (squareChar square) = some v ∧ v ≠ 0 ↔
      ∃ value : Value s, value.1 = v ∧ square = {value} := by
  simp only [← Square.getValue_eq_some_iff]
  rw [squareChar]
  cases Square.getValue square with
  | none =>
      have hdot : digitValue '.' = none := by decide
      simp [hdot]
  | some value =>
      have hpos := (Finset.mem_Icc.mp value.2).1
      dsimp only
      rw [digitValue_digitChar (value_le_nine hs value), Option.some.injEq]
      constructor
      · rintro ⟨rfl, -⟩
        exact ⟨value, rfl, rfl⟩
      · rintro ⟨value', rfl, hvalue⟩
        cases hvalue
        exact ⟨rfl, by omega⟩

theorem squareChar_readable (hs : s ≤ 3) (square : Square s) :
    squareChar square = '.' ∨
      ∃ v ≤ s * s, digitValue (squareChar square) = some v := by
  rw [squareChar]
  cases Square.getValue square with
  | none => exact Or.inl rfl
  | some value =>
      exact Or.inr ⟨value.1, (Finset.mem_Icc.mp value.2).2,
        digitValue_digitChar (value_le_nine hs value)⟩

theorem exists_getStateLine (hs : s ≤ 3) (grid : Grid s) :
    ∃ line, getStateLine grid = .ok line ∧
      line.toList = (rowMajor s).map fun c => squareChar (grid.square c) := by
  refine ⟨_, getStateLine_ok hs grid, ?_⟩
  rw [String.toList_join, List.flatMap_map]
  simp only [Square.toList_text hs]
  exact List.map_eq_flatMap.symm

/-! ## Round trip -/

/-- A line shows enough of a grid whose losses are owed to decided squares. -/
theorem exists_parseLine_getStateLine (layout : ∀ s, Layout s) (hs : s ≤ 3)
    {grid : Grid s} (hclosed : Closed Peer grid.candidates)
    (hjust : Justified Peer Finset.univ grid.candidates)
    (hlive : Live grid.candidates) :
    ∃ line newGrid, getStateLine grid = .ok line ∧
      parseLine layout line = .ok ⟨s, newGrid⟩ ∧
      ∀ c, newGrid.square c = grid.square c := by
  obtain ⟨line, hline, hchars⟩ := exists_getStateLine hs grid
  have hlength : line.toList.length = s ^ 4 := by
    rw [hchars, List.length_map, length_rowMajor]
  obtain ⟨newGrid, hnewGrid⟩ :=
    exists_parseLine layout grid.m_sectorDimension_pos hs hlength (by
      intro char hchar
      rw [hchars] at hchar
      obtain ⟨c, -, rfl⟩ := List.mem_map.mp hchar
      exact squareChar_readable hs (grid.square c))
  obtain ⟨-, -, new, hnew, hparsed⟩ := parseLine_eq_ok_iff.mp hnewGrid
  obtain ⟨clues, hclues, hfull, hnodup, hmem⟩ :=
    exists_clues_of_items (fun h => parseChar_of_ok h) hlength hnew hparsed
  have hdecided : ∀ c value, (c, value) ∈ clues ↔
      grid.candidates c = {value} := by
    intro c value
    have hitem : ∀ a, (a, c) ∈ line.toList.zip (rowMajor s) ↔
        a = squareChar (grid.square c) := by
      intro a
      rw [hchars, ← List.map_prod_right_eq_zip, List.mem_map]
      constructor
      · rintro ⟨d, -, heq⟩
        cases heq
        rfl
      · rintro rfl
        exact ⟨c, mem_rowMajor c, rfl⟩
    have hclue := hmem c value.1
    simp only [hitem, exists_eq_left, digitValue_squareChar hs] at hclue
    constructor
    · intro h
      obtain ⟨w, hw, hsquare⟩ := hclue.mp ⟨value, rfl, h⟩
      cases Subtype.ext hw
      exact hsquare
    · intro h
      obtain ⟨w, hw, hclue⟩ := hclue.mpr ⟨value, rfl, h⟩
      cases Subtype.ext hw
      exact hclue
  have hsame := (Grid.store s).replay new.layout.visitOrder hfull hclosed hlive
    (within_univ _) hjust hnodup hdecided
  exact ⟨line, newGrid, hline, hnewGrid, congrFun (hclues.trans hsame)⟩

/-- A line loses nothing: reading it back gives every square its possibilities
again. -/
theorem parseLine_getStateLine {layout : ∀ s, Layout s} (hs : s ≤ 3)
    {grid : Grid s} (hreached : Reached grid)
    (hpossible : grid.isPossible = true) :
    ∃ line newGrid, getStateLine grid = .ok line ∧
      parseLine layout line = .ok ⟨s, newGrid⟩ ∧
      ∀ c, newGrid.square c = grid.square c :=
  have ⟨hclosed, hjust⟩ := hreached.closed_justified
  exists_parseLine_getStateLine layout hs hclosed hjust
    (Grid.isPossible_iff.mp hpossible)

/-- A new grid of sector dimension two whose first square is set. -/
theorem parseLine_getStateLine_one :
    ∃ (grid : Grid 2) (line : String) (newGrid : Grid 2),
      grid.square (0, 0) = {⟨1, by decide⟩} ∧ getStateLine grid = .ok line ∧
        parseLine Layout.inOrder line = .ok ⟨2, newGrid⟩ ∧
        ∀ c, newGrid.square c = grid.square c := by
  obtain ⟨new, hnew, -, hfull⟩ := newGrid_ok (s := 2) (by decide)
    (Layout.inOrder 2)
  have hset := setSquareValue_ok new (0, 0) ⟨1, by decide⟩
  have hmem : (⟨1, by decide⟩ : Value 2) ∈ new.candidates (0, 0) := by
    rw [hfull]
    exact Finset.mem_univ _
  have hreached := (Reached.newGrid hnew).setSquareValue hmem hset
  have hadm : Admits new.candidates smallCompletion := by
    rw [hfull]
    exact fun _ => Finset.mem_univ _
  have hvalue : smallCompletion (0, 0) = ⟨1, by decide⟩ := rfl
  have hadm' : Admits (setSquareValueAt new (0, 0) ⟨1, by decide⟩).candidates
      smallCompletion := by
    rw [setSquareValueAt_eq]
    exact (Grid.store 2).admits_setSquare new.layout.visitOrder
      completes_smallCompletion.1.fills.distinct hadm hvalue
  have hfirst : Grid.square (setSquareValueAt new (0, 0) ⟨1, by decide⟩)
      (0, 0) = {⟨1, by decide⟩} := by
    apply hadm'.live.eq_singleton
    rw [setSquareValueAt_eq]
    exact (Grid.store 2).setSquare_self_subset new.layout.visitOrder _ (0, 0)
      new.m_rows
  obtain ⟨line, newGrid, hline⟩ := parseLine_getStateLine (by decide) hreached
    (Grid.isPossible_iff.mpr hadm'.live)
  exact ⟨_, line, newGrid, hfirst, hline⟩

end SudokuSolver.Lua
