import SudokuSolver.FSharp.Line
import SudokuSolver.Lua.Deductions
import SudokuSolver.Lua.Parsers
import SudokuSolver.Python.Parse
import SudokuSolver.Support.Correspondence

/-!
# Agreement between the solvers

The solvers visit squares in different orders and deduce values in different
orders.  What they are left with is the same, as long as there is a completion.
Their parsers set clues in the same order and with the same cascades, so that
they agree even where clues contradict each other.
-/

namespace SudokuSolver

open Propagation

variable {s : ℕ}

/-- The lap of Lua and the repeated sweeps of F# leave the same possibilities in
every square of a grid with a completion. -/
theorem refineGrid_eq_makeDeductions (hs : 1 ≤ s) (layout : Lua.Layout s)
    (clues : List (Coord s × Value s)) (hnodup : (clues.map Prod.fst).Nodup)
    (hcompletion : ∃ S, Completes Finset.univ clues S) :
    ∃ luaGrid, Lua.clueGrid layout clues = .ok luaGrid ∧
      (Lua.refineGrid luaGrid).candidates = (FSharp.makeDeductions
        (FSharp.Grid.ofCandidates luaGrid.candidates)).candidates := by
  obtain ⟨new, hfull, hgrid⟩ := Lua.clueGrid_ok hs layout clues
  refine ⟨_, hgrid, ?_⟩
  generalize hlua : ({ new with
    m_rows := (Lua.Grid.store s).setSquares new.layout.visitOrder clues
      new.m_rows } : Lua.Grid s) = luaGrid
  have hclosed : Closed Peer luaGrid.candidates := by
    rw [← hlua]
    exact closed_puzzle (Lua.Grid.store s) new.layout.visitOrder clues
      (card_values s) hfull
  obtain ⟨S, hS⟩ := hcompletion
  have hfills : Fills Peer House.squares Finset.univ S := hS.1.fills
  have hadm : Admits luaGrid.candidates S := by
    rw [← hlua]
    exact ((fills_puzzle_iff (Lua.Grid.store s) new.layout.visitOrder
      (card_values s) (fun clue _ => Finset.mem_univ clue.2) hnodup
      hfull).mpr hS).2
  have hlap := Lua.deduces_refineGrid luaGrid
  have hlive := (hlap.admits hfills (within_univ _) hadm).live
  generalize hfsharp :
    FSharp.Grid.ofCandidates luaGrid.candidates = fsharpGrid
  have hsame : fsharpGrid.candidates = luaGrid.candidates := by
    rw [← hfsharp, FSharp.Grid.candidates_ofCandidates]
  have hsweeps := FSharp.deduces_makeDeductions fsharpGrid
  have hsweepsClosed := FSharp.closed_makeDeductions (hsame ▸ hclosed)
  rw [hsame] at hsweeps
  exact Deduces.confluent hfills (within_univ _) hadm
    hlap (Lua.closed_refineGrid hclosed)
    (Lua.exhausted_refineGrid luaGrid hlive)
    hsweeps hsweepsClosed (FSharp.exhausted_makeDeductions fsharpGrid)

theorem refineGrid_eq_makeDeductions_small :
    ∃ luaGrid, Lua.clueGrid (Lua.Layout.inOrder 2)
        [((0, 0), ⟨1, by decide⟩)] = .ok luaGrid ∧
      (Lua.refineGrid luaGrid).candidates = (FSharp.makeDeductions
        (FSharp.Grid.ofCandidates luaGrid.candidates)).candidates :=
  refineGrid_eq_makeDeductions (by decide) (Lua.Layout.inOrder 2) _
    (by decide) ⟨smallCompletion, completes_smallCompletion⟩

/-! ## Cascades of different solvers -/

theorem python_visitOrder_eq (s : ℕ) :
    Python.visitOrder s = FSharp.visitOrder s := by
  apply PeerOrder.eq_of_related
  intro c
  simp only [Python.visitOrder, Python.related, Python.otherIndexes,
    Python.getSquaresInSector, FSharp.visitOrder, FSharp.relatedCoordinates,
    FSharp.lineCoordinates, FSharp.secCoordinates, FSharp.indexes,
    FSharp.getSectorCoordinates, FSharp.sectorCoordRows, FSharp.permute,
    FSharp.getIndexRange, decide_not]

/-- Tables that are visited in the order of their keys lead to the related
squares in the same order. -/
theorem lua_visitOrder_eq (s : ℕ) :
    (Lua.Layout.inOrder s).visitOrder = FSharp.visitOrder s := by
  apply PeerOrder.eq_of_related
  intro c
  simp only [Lua.Layout.visitOrder, Lua.Layout.related, Lua.Layout.inOrder,
    Lua.Traversal.inOrder, Lua.squaresInSector_eq, FSharp.visitOrder,
    FSharp.relatedCoordinates, FSharp.lineCoordinates, FSharp.secCoordinates,
    FSharp.indexes, FSharp.getSectorCoordinates, FSharp.sectorCoordRows,
    FSharp.permute, FSharp.getIndexRange, List.filter_append, List.filter_map]
  obtain ⟨x, y⟩ := c
  simp [Function.comp_def]

/-- A value as an integer. -/
def toInteger : Value s ↪ ℤ where
  toFun v := v.1
  inj' _ _ h := Subtype.ext (Int.ofNat_inj.mp h)

theorem digits_eq_map (s : ℕ) :
    Python.digits s = Finset.univ.map (toInteger (s := s)) := by
  ext v
  rw [Python.digits, Python.mem_setRange, Finset.mem_map]
  constructor
  · rintro ⟨hpos, hle⟩
    have hmem : v.toNat ∈ Finset.Icc 1 (s * s) := by
      rw [Finset.mem_Icc]
      omega
    exact ⟨⟨v.toNat, hmem⟩, Finset.mem_univ _, Int.toNat_of_nonneg (by omega)⟩
  · rintro ⟨w, -, rfl⟩
    have hw := Finset.mem_Icc.mp w.2
    have hcoe : toInteger w = (w.1 : ℤ) := rfl
    rw [hcoe]
    omega

/-- A grid of Lua that is visited in order has the possibilities of a grid of
F#. -/
def LuaMatches (luaGrid : Lua.Grid s) (grid : FSharp.Grid s) : Prop :=
  luaGrid.layout = Lua.Layout.inOrder s ∧
    luaGrid.candidates = grid.candidates

theorem LuaMatches.setSquareValueAt {luaGrid : Lua.Grid s}
    {grid : FSharp.Grid s} (h : LuaMatches luaGrid grid) (c : Coord s)
    (v : Value s) :
    LuaMatches (Lua.setSquareValueAt luaGrid c v)
      (FSharp.setSquareAt v c grid) := by
  obtain ⟨hlayout, hsame⟩ := h
  have hgrids : Corresponds (.refl _) (grid.candidates)
      ((Lua.Grid.store s).candidates luaGrid.m_rows) := fun d => by
    rw [Finset.map_refl]
    exact congrFun hsame d
  have hset := (FSharp.Grid.store s).setSquare_corresponds (Lua.Grid.store s)
    (FSharp.visitOrder s) hgrids v c
  rw [Lua.setSquareValueAt_eq, FSharp.setSquareAt_eq, hlayout,
    lua_visitOrder_eq]
  refine ⟨rfl, funext fun d => ?_⟩
  have hd := hset d
  rw [Finset.map_refl] at hd
  exact hd

/-- A grid of Python has the possibilities of a grid of F#. -/
def PythonMatches (pythonGrid : Python.Grid s) (grid : FSharp.Grid s) : Prop :=
  Corresponds toInteger grid.candidates pythonGrid.candidates

theorem PythonMatches.setSquareValueAt {pythonGrid : Python.Grid s}
    {grid : FSharp.Grid s} (h : PythonMatches pythonGrid grid) (c : Coord s)
    (v : Value s) :
    PythonMatches (Python.setSquareValueAt pythonGrid c v.1)
      (FSharp.setSquareAt v c grid) := by
  rw [Python.setSquareValueAt_eq, FSharp.setSquareAt_eq, python_visitOrder_eq]
  exact (FSharp.Grid.store s).setSquare_corresponds (Python.Grid.store s)
    (FSharp.visitOrder s) h v c

/-! ## Parsers of lines -/

/-- What a parser makes of a line: nothing if it refuses the line, and the
possibilities of every square otherwise. -/
abbrev Parsed := Option ((s : ℕ) × (Coord s → Finset ℤ))

/-- The possibilities of the grid that a parser returns. -/
def parsedBy {grid : ℕ → Type} (possibilities : ∀ s, grid s → Coord s → Finset ℤ)
    (result : Except String ((s : ℕ) × grid s)) : Parsed :=
  match result with
  | .error _ => none
  | .ok ⟨s, g⟩ => some ⟨s, possibilities s g⟩

def pythonParsed (line : String) : Parsed :=
  parsedBy (fun _ grid => grid.candidates) (Python.Parse.line line)

/-- Array entries are visited in the order of their indices. -/
def luaParsed (line : String) : Parsed :=
  parsedBy (fun _ grid c => (grid.candidates c).map toInteger)
    (Lua.parseLine Lua.Layout.inOrder line)

def fsharpParsed (line : String) : Parsed :=
  parsedBy (fun _ grid c => (grid.candidates c).map toInteger)
    (FSharp.fromLine line)

/-- What a line has to be like, for a parser that sets digits up to a bound. -/
def Accepted (bound : ℕ → ℕ) (line : String) (s : ℕ) : Prop :=
  line.length = s ^ 4 ∧ (1 ≤ s ∧ s ≤ 3) ∧
    ∀ char ∈ line.toList, Readable (bound s) char

theorem exists_parse_iff {G : Type} {parsed : G → Prop}
    {new : Except String G} {fill : G → Except String G} {bound : ℕ → ℕ}
    {line : String}
    (hparsed : ∀ g, parsed g ↔ line.length = s ^ 4 ∧ s ≤ 3 ∧
      ∃ empty, new = .ok empty ∧ fill empty = .ok g)
    (hnew : (∃ empty, new = .ok empty) ↔ 1 ≤ s)
    (hfill : line.length = s ^ 4 → ∀ empty, (∃ g, fill empty = .ok g) ↔
      ∀ char ∈ line.toList, Readable (bound s) char) :
    (∃ g, parsed g) ↔ Accepted bound line s := by
  simp only [hparsed]
  constructor
  · rintro ⟨g, hlength, hsize, empty, hempty, hg⟩
    exact ⟨hlength, ⟨hnew.mp ⟨empty, hempty⟩, hsize⟩,
      (hfill hlength empty).mp ⟨g, hg⟩⟩
  · rintro ⟨hlength, ⟨hpos, hsize⟩, hchars⟩
    obtain ⟨empty, hempty⟩ := hnew.mpr hpos
    obtain ⟨g, hg⟩ := (hfill hlength empty).mpr hchars
    exact ⟨g, hlength, hsize, empty, hempty, hg⟩

theorem exists_fromLine_iff {line : String} :
    (∃ grid : FSharp.Grid s, FSharp.fromLine line = .ok ⟨s, grid⟩) ↔
      Accepted (fun s => s * s) line s := by
  apply exists_parse_iff (fun grid => FSharp.fromLine_eq_ok_iff)
  · constructor
    · rintro ⟨empty, hempty⟩
      exact (FSharp.Reached.emptyGrid hempty).sectorSize_pos
    · intro hs
      exact (FSharp.emptyGrid_ok hs).imp fun _ h => h.1
  · intro hlength empty
    rw [← String.length_toList] at hlength
    rw [FSharp.allCoords_eq]
    exact exists_foldlM_iff_readable FSharp.setSquareFromChar_eq_ok_iff
      hlength empty

theorem exists_parseLine_iff {layout : ∀ s, Lua.Layout s} {line : String} :
    (∃ grid : Lua.Grid s, Lua.parseLine layout line = .ok ⟨s, grid⟩) ↔
      Accepted (fun s => s * s) line s := by
  apply exists_parse_iff (fun grid => Lua.parseLine_eq_ok_iff)
  · constructor
    · exact fun ⟨empty, _⟩ => empty.m_sectorDimension_pos
    · intro hs
      exact (Lua.newGrid_ok hs (layout s)).imp fun _ h => h.1
  · intro hlength empty
    rw [← String.length_toList] at hlength
    rw [Lua.zipIdx_eq_map hlength, List.foldlM_map]
    exact exists_foldlM_iff_readable Lua.parseChar_eq_ok_iff hlength empty

theorem exists_line_iff {line : String} :
    (∃ grid : Python.Grid s, Python.Parse.line line = .ok ⟨s, grid⟩) ↔
      Accepted (fun _ => 9) line s := by
  apply exists_parse_iff (fun grid => Python.Parse.line_eq_ok_iff)
  · constructor
    · exact fun ⟨empty, _⟩ => empty.sectorDimension_pos
    · intro hs
      exact (Python.newGrid_ok hs).imp fun _ h => h.1
  · intro hlength empty
    rw [← String.length_toList] at hlength
    rw [Python.Parse.indexes_eq]
    exact exists_foldlM_iff_readable Python.Parse.setCharacter_eq_ok_iff
      hlength empty

/-- Lua and F# make the same of a line that both accept. -/
theorem luaMatches_of_ok {line : String} {luaGrid : Lua.Grid s}
    {grid : FSharp.Grid s}
    (hlua : Lua.parseLine Lua.Layout.inOrder line = .ok ⟨s, luaGrid⟩)
    (hfsharp : FSharp.fromLine line = .ok ⟨s, grid⟩) :
    LuaMatches luaGrid grid := by
  obtain ⟨hlength, hsize, new, hnew, hluaGrid⟩ :=
    Lua.parseLine_eq_ok_iff.mp hlua
  obtain ⟨-, -, empty, hempty, hgrid⟩ := FSharp.fromLine_eq_ok_iff.mp hfsharp
  rw [← String.length_toList] at hlength
  rw [Lua.zipIdx_eq_map hlength, List.foldlM_map] at hluaGrid
  rw [FSharp.allCoords_eq] at hgrid
  refine foldlM_rel ?_ ?_ hluaGrid hgrid
  · rintro luaGrid grid hmatches ⟨char, c⟩ - luaGrid' grid' hluaGrid hgrid
    exact Reads.rel
      (fun v w hvw => Subtype.ext hvw ▸ hmatches.setSquareValueAt c v) hmatches
      (Lua.parseChar_eq_ok_iff.mp hluaGrid)
      (FSharp.setSquareFromChar_eq_ok_iff.mp hgrid)
  · obtain ⟨new', hnew', hlayout, hfull⟩ :=
      Lua.newGrid_ok new.m_sectorDimension_pos (Lua.Layout.inOrder s)
    obtain ⟨empty', hempty', hfull'⟩ :=
      FSharp.emptyGrid_ok new.m_sectorDimension_pos
    cases hnew.symm.trans hnew'
    cases hempty.symm.trans hempty'
    exact ⟨hlayout, hfull.trans hfull'.symm⟩

/-- Python and F# make the same of a line that both accept. -/
theorem pythonMatches_of_ok {line : String} {pythonGrid : Python.Grid s}
    {grid : FSharp.Grid s}
    (hpython : Python.Parse.line line = .ok ⟨s, pythonGrid⟩)
    (hfsharp : FSharp.fromLine line = .ok ⟨s, grid⟩) :
    PythonMatches pythonGrid grid := by
  obtain ⟨hlength, hsize, new, hnew, hpythonGrid⟩ :=
    Python.Parse.line_eq_ok_iff.mp hpython
  obtain ⟨-, -, empty, hempty, hgrid⟩ := FSharp.fromLine_eq_ok_iff.mp hfsharp
  rw [Python.Parse.indexes_eq] at hpythonGrid
  rw [FSharp.allCoords_eq] at hgrid
  refine foldlM_rel ?_ ?_ hpythonGrid hgrid
  · rintro pythonGrid grid hmatches ⟨char, c⟩ - pythonGrid' grid' hpython hgrid
    refine Reads.rel (fun v w hvw => ?_) hmatches
      (Python.Parse.setCharacter_eq_ok_iff.mp hpython)
      (FSharp.setSquareFromChar_eq_ok_iff.mp hgrid)
    rw [hvw]
    exact hmatches.setSquareValueAt c w
  · obtain ⟨new', hnew', hfull⟩ := Python.newGrid_ok new.sectorDimension_pos
    obtain ⟨empty', hempty', hfull'⟩ :=
      FSharp.emptyGrid_ok new.sectorDimension_pos
    cases hnew.symm.trans hnew'
    cases hempty.symm.trans hempty'
    intro c
    rw [hfull, hfull']
    exact digits_eq_map s

theorem parsedBy_eq_none_iff {grid : ℕ → Type}
    {possibilities : ∀ s, grid s → Coord s → Finset ℤ}
    {result : Except String ((s : ℕ) × grid s)} :
    parsedBy possibilities result = none ↔
      ∀ s, ¬ ∃ g : grid s, result = .ok ⟨s, g⟩ := by
  rw [parsedBy.eq_def]
  split
  · exact iff_of_true rfl fun s ⟨g, h⟩ => by cases h
  · next s g => exact iff_of_false (by simp) fun h => h s ⟨g, rfl⟩

/-- Whether a parser refuses a line is a matter of the line. -/
theorem fsharpParsed_eq_none_iff {line : String} :
    fsharpParsed line = none ↔ ∀ s, ¬ Accepted (fun s => s * s) line s := by
  rw [fsharpParsed, parsedBy_eq_none_iff]
  exact forall_congr' fun s => not_congr exists_fromLine_iff

theorem luaParsed_eq_none_iff {line : String} :
    luaParsed line = none ↔ ∀ s, ¬ Accepted (fun s => s * s) line s := by
  rw [luaParsed, parsedBy_eq_none_iff]
  exact forall_congr' fun s => not_congr exists_parseLine_iff

theorem pythonParsed_eq_none_iff {line : String} :
    pythonParsed line = none ↔ ∀ s, ¬ Accepted (fun _ => 9) line s := by
  rw [pythonParsed, parsedBy_eq_none_iff]
  exact forall_congr' fun s => not_congr exists_line_iff

theorem luaParsed_eq_fsharpParsed (line : String) :
    luaParsed line = fsharpParsed line := by
  by_cases haccepted : ∃ s, Accepted (fun s => s * s) line s
  · obtain ⟨s, hs⟩ := haccepted
    obtain ⟨luaGrid, hlua⟩ := exists_parseLine_iff.mpr hs
    obtain ⟨grid, hfsharp⟩ := exists_fromLine_iff.mpr hs
    have hsame := (luaMatches_of_ok hlua hfsharp).2
    rw [luaParsed, fsharpParsed, hlua, hfsharp, parsedBy, parsedBy, hsame]
  · rw [not_exists] at haccepted
    rw [luaParsed_eq_none_iff.mpr haccepted,
      fsharpParsed_eq_none_iff.mpr haccepted]

/-- Python makes the same of a line that F# accepts. -/
theorem pythonParsed_eq_of_accepted {line : String}
    (h : Accepted (fun s => s * s) line s)
    (hpython : Accepted (fun _ => 9) line s) :
    pythonParsed line = fsharpParsed line := by
  obtain ⟨pythonGrid, hline⟩ := exists_line_iff.mpr hpython
  obtain ⟨grid, hfsharp⟩ := exists_fromLine_iff.mpr h
  have hsame := funext (pythonMatches_of_ok hline hfsharp)
  rw [pythonParsed, fsharpParsed, hline, hfsharp, parsedBy, parsedBy, hsame]

theorem Accepted.nine {line : String}
    (h : Accepted (fun s => s * s) line s) : Accepted (fun _ => 9) line s := by
  obtain ⟨hlength, hsize, hchars⟩ := h
  refine ⟨hlength, hsize, fun char hchar => (hchars char hchar).imp_right ?_⟩
  rintro ⟨v, -, hv⟩
  exact ⟨v, le_nine_of_digitValue hv, hv⟩

/-- A line for a small grid with a digit above its dimension, and with nothing
but dots and digits. -/
def HasLargeDigit (line : String) : Prop :=
  ∃ s, (s = 1 ∨ s = 2) ∧ line.length = s ^ 4 ∧
    (∀ char ∈ line.toList, char = '.' ∨ char.isDigit = true) ∧
    ∃ char ∈ line.toList, ∃ v, digitValue char = some v ∧ s * s < v

theorem hasLargeDigit_iff {line : String} :
    HasLargeDigit line ↔ ∃ s, Accepted (fun _ => 9) line s ∧
      ¬ Accepted (fun s => s * s) line s := by
  refine exists_congr fun s => ?_
  constructor
  · rintro ⟨hsize, hlength, hchars, char, hchar, v, hdigit, hlarge⟩
    refine ⟨⟨hlength, by omega, fun char hchar =>
      readable_nine_iff.mpr (hchars char hchar)⟩, ?_⟩
    rintro ⟨-, -, hreadable⟩
    rcases hreadable char hchar with rfl | ⟨w, hw, hdigit'⟩
    · exact not_skipped_of_digitValue hdigit (by omega) (Or.inl rfl)
    · dsimp only at hw
      rw [hdigit, Option.some.injEq] at hdigit'
      omega
  · rintro ⟨⟨hlength, hsize, hchars⟩, hrefused⟩
    have hlarge : ∃ char ∈ line.toList, ∃ v, digitValue char = some v ∧
        s * s < v := by
      by_contra hsmall
      push Not at hsmall
      refine hrefused ⟨hlength, hsize, fun char hchar =>
        (hchars char hchar).imp_right ?_⟩
      rintro ⟨v, -, hv⟩
      exact ⟨v, hsmall char hchar v hv, hv⟩
    refine ⟨?_, hlength, fun char hchar =>
      readable_nine_iff.mp (hchars char hchar), hlarge⟩
    obtain ⟨char, -, v, hv, hlt⟩ := hlarge
    have hnine := le_nine_of_digitValue hv
    obtain ⟨hpos, hle⟩ := hsize
    interval_cases s <;> omega

/-- The three parsers make the same of every line, contradictory ones included,
except for the lines with a digit above the dimension: these are refused by Lua
and F#, but Python accepts them. -/
theorem parsers_agree_iff (line : String) :
    (pythonParsed line = luaParsed line ∧
        luaParsed line = fsharpParsed line) ↔
      ¬ HasLargeDigit line := by
  rw [and_iff_left (luaParsed_eq_fsharpParsed line),
    luaParsed_eq_fsharpParsed, hasLargeDigit_iff, not_exists]
  constructor
  · rintro hsame s ⟨hnine, hrefused⟩
    have hother : ∀ s', ¬ Accepted (fun s => s * s) line s' := by
      rintro s' haccepted
      have hpow := hnine.1.symm.trans haccepted.1
      have heq : s = s' := Nat.pow_left_injective (by decide) hpow
      exact hrefused (heq ▸ haccepted)
    have hnone := hsame.trans (fsharpParsed_eq_none_iff.mpr hother)
    exact pythonParsed_eq_none_iff.mp hnone s hnine
  · intro hsmall
    by_cases haccepted : ∃ s, Accepted (fun s => s * s) line s
    · obtain ⟨s, hs⟩ := haccepted
      exact pythonParsed_eq_of_accepted hs hs.nine
    · rw [not_exists] at haccepted
      rw [fsharpParsed_eq_none_iff.mpr haccepted, pythonParsed_eq_none_iff]
      exact fun s hnine => hsmall s ⟨hnine, haccepted s⟩

/-- A grid of one square that is given a five. -/
theorem parsers_disagree_five :
    ¬ (pythonParsed "5" = luaParsed "5" ∧ luaParsed "5" = fsharpParsed "5") := by
  rintro ⟨hpython, -⟩
  have hlua : luaParsed "5" = none := by rfl
  have haccepted : Accepted (fun _ => 9) "5" 1 :=
    ⟨rfl, by decide, fun char hchar => by
      rw [List.mem_singleton.mp hchar]
      exact Or.inr ⟨5, by decide, by decide⟩⟩
  exact pythonParsed_eq_none_iff.mp (hpython.trans hlua) 1 haccepted

end SudokuSolver
