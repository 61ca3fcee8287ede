import SudokuSolver.Lines
import SudokuSolver.Lua.Solvers

/-!
# Parsing lines in Lua

`parsers.lua`.  The characters of a line are its bytes.  Whatever a line that is
accepted says, the solvers find its completions.
-/

namespace SudokuSolver.Lua

open Propagation

variable {s : ℕ}

/-- The body of the loop of `parseLine`, for one character and its index, which
starts at one. -/
def parseChar (grid : Grid s) (item : Char × ℕ) : Except String (Grid s) :=
  let (currentChar, charIndex) := item
  let gridDimension := s ^ 2
  if '.' ≠ currentChar ∧ '0' ≠ currentChar then
    match digitValue currentChar with
    | none => .error ("Cannot parse " ++ currentChar.toString)
    | some currentNum =>
        let rowIndex := (charIndex + gridDimension - 1) / gridDimension
        let columnIndex := charIndex % gridDimension
        let columnIndex := if 0 = columnIndex then gridDimension else columnIndex
        setSquareValue grid columnIndex rowIndex currentNum
  else .ok grid

/-- A grid with square values set from a line of square values. -/
def parseLine (layout : ∀ s, Layout s) (line : String) :
    Except String ((s : ℕ) × Grid s) :=
  match fourthRoot line.length with
  | none => .error (toString line.length ++ " characters is invalid")
  | some sectorDimension =>
      if sectorDimension > 3 then .error "Sector size would be greater than 3"
      else do
        let grid ← newGrid sectorDimension (layout sectorDimension)
        let grid ← (line.toList.zipIdx 1).foldlM parseChar grid
        return ⟨sectorDimension, grid⟩

/-- The row and the column computed from an index are those of its square. -/
theorem index_place (c : Coord s) :
    (place c + 1 + s ^ 2 - 1) / s ^ 2 = c.2.1 + 1 ∧
      (if 0 = (place c + 1) % s ^ 2 then s ^ 2 else (place c + 1) % s ^ 2) =
        c.1.1 + 1 := by
  have hplace : place c = c.1.1 + s ^ 2 * c.2.1 := by
    rw [pow_two]
    rfl
  have hx : c.1.1 < s ^ 2 := by
    rw [pow_two]
    exact c.1.isLt
  have hpos : 0 < s ^ 2 := by omega
  constructor
  · have hshift : place c + 1 + s ^ 2 - 1 = c.1.1 + s ^ 2 * (c.2.1 + 1) := by
      rw [hplace, Nat.mul_succ]
      omega
    rw [hshift, Nat.add_mul_div_left _ _ hpos, Nat.div_eq_of_lt hx, Nat.zero_add]
  · have hmod : (place c + 1) % s ^ 2 = (c.1.1 + 1) % s ^ 2 := by
      rw [hplace, Nat.add_right_comm, Nat.add_mul_mod_self_left]
    rw [hmod]
    by_cases hlast : c.1.1 + 1 = s ^ 2
    · rw [hlast, Nat.mod_self, if_pos rfl]
    · rw [Nat.mod_eq_of_lt (by omega), if_neg (by omega)]

/-- Only digits up to the dimension are set. -/
theorem parseChar_eq_ok_iff {grid newGrid : Grid s} {char : Char}
    {c : Coord s} :
    parseChar grid (char, place c + 1) = .ok newGrid ↔
      Reads (s * s) (fun value => setSquareValueAt grid c value) char grid
        newGrid := by
  obtain ⟨hrow, hcolumn⟩ := index_place c
  simp only [parseChar, hrow, hcolumn]
  apply eq_ok_iff_reads
  · intro hskip
    exact if_neg (by tauto)
  · intro hskip hdigit
    rw [hdigit]
    exact ⟨_, if_pos (by tauto)⟩
  · intro hskip value hdigit
    rw [hdigit]
    exact (if_pos (by tauto)).trans (setSquareValue_ok grid c value)
  · intro hskip value hdigit hlarge
    have hx := c.1.isLt
    have hy := c.2.isLt
    rw [hdigit, if_pos (by tauto)]
    dsimp only
    rw [setSquareValue, dif_neg (by omega), dif_neg (by omega),
      dif_pos (by omega)]
    exact ⟨_, rfl⟩

theorem setSquareValue_of_ok {grid newGrid : Grid s} {c : Coord s} {value : ℕ}
    (h : setSquareValue grid (c.1.1 + 1 : ℕ) (c.2.1 + 1 : ℕ) value =
      .ok newGrid) :
    ∃ v : Value s, v.1 = value ∧ newGrid = setSquareValueAt grid c v := by
  by_cases hvalue : value < 1 ∨ value > s * s
  · rw [setSquareValue, dif_neg (by omega), dif_neg (by omega),
      dif_pos (by omega)] at h
    cases h
  · have hmem : value ∈ Finset.Icc 1 (s * s) := by
      rw [Finset.mem_Icc]
      omega
    refine ⟨⟨value, hmem⟩, rfl, ?_⟩
    have hok := setSquareValue_ok grid c ⟨value, hmem⟩
    push_cast at h hok
    exact Except.ok.inj (h.symm.trans hok)

/-- One character either leaves the grid alone or sets its square. -/
theorem parseChar_of_ok {grid newGrid : Grid s} {char : Char} {c : Coord s}
    (h : parseChar grid (char, place c + 1) = .ok newGrid) :
    (newGrid = grid ∧ ∀ v, digitValue char = some v → v = 0) ∨
      ∃ v : Value s, digitValue char = some v.1 ∧
        newGrid = setSquareValueAt grid c v :=
  (parseChar_eq_ok_iff.mp h).sets

/-- The items of a line with their indices, from the squares they are for. -/
theorem zipIdx_eq_map {α : Type*} {items : List α}
    (hlength : items.length = s ^ 4) :
    items.zipIdx 1 = (items.zip (rowMajor s)).map fun item =>
      (item.1, place item.2 + 1) := by
  have hplaces := length_rowMajor s
  apply List.ext_getElem
  · rw [List.length_zipIdx, List.length_map, List.length_zip]
    omega
  · intro k hk hk'
    simp [rowMajor, Nat.add_comm]

theorem parseLine_eq_ok_iff {layout : ∀ s, Layout s} {line : String}
    {grid : Grid s} :
    parseLine layout line = .ok ⟨s, grid⟩ ↔
      line.length = s ^ 4 ∧ s ≤ 3 ∧ ∃ new, newGrid s (layout s) = .ok new ∧
        (line.toList.zipIdx 1).foldlM parseChar new = .ok grid :=
  parse_eq_ok_iff

/-- Setting clues in the order of a list. -/
theorem foldl_setSquareValueAt (clues : List (Coord s × Value s))
    (grid : Grid s) :
    clues.foldl (fun grid clue => setSquareValueAt grid clue.1 clue.2) grid =
      { grid with
        m_rows := (Grid.store s).setSquares grid.layout.visitOrder clues
          grid.m_rows } := by
  induction clues generalizing grid with
  | nil => rfl
  | cons clue clues ih =>
      rw [List.foldl_cons, ih, setSquareValueAt_eq]
      rfl

section Items

variable {α : Type*} {digit : α → Option ℕ} {items : List α}
variable {read : Grid s → α × ℕ → Except String (Grid s)}

/-- Reading items into a new grid, in the order of their indices, sets the clues
that the items stand for. -/
theorem exists_clues_of_items {layout : Layout s} {new grid : Grid s}
    (hread : ∀ {grid a c newGrid},
      read grid (a, place c + 1) = .ok newGrid →
      (newGrid = grid ∧ ∀ v, digit a = some v → v = 0) ∨
        ∃ v : Value s, digit a = some v.1 ∧
          newGrid = setSquareValueAt grid c v)
    (hlength : items.length = s ^ 4) (hnew : newGrid s layout = .ok new)
    (hgrid : (items.zipIdx 1).foldlM read new = .ok grid) :
    ∃ clues : List (Coord s × Value s),
      grid.candidates = (Grid.store s).candidates
        ((Grid.store s).setSquares new.layout.visitOrder clues new.m_rows) ∧
      (Grid.store s).candidates new.m_rows = (fun _ => Finset.univ) ∧
      (clues.map Prod.fst).Nodup ∧
      ∀ c v, (∃ value : Value s, value.1 = v ∧ (c, value) ∈ clues) ↔
        ∃ a, (a, c) ∈ items.zip (rowMajor s) ∧ digit a = some v ∧ v ≠ 0 := by
  obtain ⟨new', hnew', -, hfull⟩ :=
    newGrid_ok new.m_sectorDimension_pos layout
  cases hnew.symm.trans hnew'
  rw [zipIdx_eq_map hlength, List.foldlM_map] at hgrid
  have hnodup : ((items.zip (rowMajor s)).map Prod.snd).Nodup := by
    rw [List.map_snd_zip (by rw [hlength, length_rowMajor])]
    exact nodup_rowMajor s
  obtain ⟨clues, hclues, hdistinct, hmem⟩ :=
    exists_clues setSquareValueAt (fun h => hread h) hnodup hgrid
  rw [foldl_setSquareValueAt] at hclues
  exact ⟨clues, by rw [hclues]; rfl, hfull, hdistinct, hmem⟩

/-- The grid that is read has all the completions of the items. -/
theorem items_exact {layout : Layout s} {new grid : Grid s}
    (hread : ∀ {grid a c newGrid},
      read grid (a, place c + 1) = .ok newGrid →
      (newGrid = grid ∧ ∀ v, digit a = some v → v = 0) ∨
        ∃ v : Value s, digit a = some v.1 ∧
          newGrid = setSquareValueAt grid c v)
    (hlength : items.length = s ^ 4) (hnew : newGrid s layout = .ok new)
    (hgrid : (items.zipIdx 1).foldlM read new = .ok grid) :
    Closed Peer grid.candidates ∧
      ∀ S, (Fills Peer House.squares Finset.univ S ∧
        Admits grid.candidates S) ↔ CompletesItems digit items S := by
  obtain ⟨clues, hclues, hfull, hdistinct, hmem⟩ :=
    exists_clues_of_items (fun h => hread h) hlength hnew hgrid
  rw [hclues]
  refine ⟨closed_puzzle (Grid.store s) _ clues (card_values s) hfull, ?_⟩
  intro S
  rw [← completes_clues_iff hlength hmem]
  exact fills_puzzle_iff (Grid.store s) _ (card_values s)
    (fun clue _ => Finset.mem_univ clue.2) hdistinct hfull

end Items

/-- A line that is accepted gives the grid of its clues. -/
theorem parseLine_exact {layout : ∀ s, Layout s} {line : String}
    {grid : Grid s} (h : parseLine layout line = .ok ⟨s, grid⟩) :
    Closed Peer grid.candidates ∧
      ∀ S, (Fills Peer House.squares Finset.univ S ∧
        Admits grid.candidates S) ↔
          CompletesItems digitValue line.toList S := by
  obtain ⟨hlength, -, new, hnew, hparsed⟩ := parseLine_eq_ok_iff.mp h
  rw [← String.length_toList] at hlength
  exact items_exact (fun h => parseChar_of_ok h) hlength hnew hparsed

/-- A dot, or a digit that is not above the dimension, is accepted. -/
theorem exists_parseChar {char : Char}
    (hchar : char = '.' ∨ ∃ v ≤ s * s, digitValue char = some v)
    (grid : Grid s) (c : Coord s) :
    ∃ newGrid, parseChar grid (char, place c + 1) = .ok newGrid := by
  obtain ⟨newGrid, hreads⟩ := exists_reads_iff.mpr hchar
  exact ⟨newGrid, parseChar_eq_ok_iff.mpr hreads⟩

/-- Lines of the right length that consist of dots and digits in range are
accepted. -/
theorem exists_parseLine (layout : ∀ s, Layout s) {line : String}
    (hs : 1 ≤ s) (hsize : s ≤ 3) (hlength : line.length = s ^ 4)
    (hchars : ∀ char ∈ line.toList,
      char = '.' ∨ ∃ v ≤ s * s, digitValue char = some v) :
    ∃ grid : Grid s, parseLine layout line = .ok ⟨s, grid⟩ := by
  obtain ⟨new, hnew, -, -⟩ := newGrid_ok hs (layout s)
  rw [← String.length_toList] at hlength
  have hread : ∀ (grid : Grid s), ∀ item ∈ line.toList.zip (rowMajor s),
      ∃ newGrid, parseChar grid (item.1, place item.2 + 1) = .ok newGrid :=
    fun grid item hitem =>
      exists_parseChar (hchars _ (List.of_mem_zip hitem).1) grid item.2
  obtain ⟨grid, hgrid⟩ := exists_foldlM_ok hread new
  refine ⟨grid, parseLine_eq_ok_iff.mpr ⟨?_, hsize, new, hnew, ?_⟩⟩
  · rwa [String.length_toList] at hlength
  · rw [zipIdx_eq_map hlength, List.foldlM_map]
    exact hgrid

/-- For every line that is accepted, `findAllSolutions` returns every completion
of the line once and nothing else, and `findSingleSolution` returns nil when
there is none and one of them otherwise. -/
theorem findSolutions_parseLine {layout : ∀ s, Layout s} {line : String}
    {grid : Grid s} (tables : Tables s)
    (h : parseLine layout line = .ok ⟨s, grid⟩) :
    (∃ solutions splits,
      findAllSolutions tables grid = some (solutions, splits) ∧
        Enumerates (solutions.map Grid.candidates)
          (CompletesItems digitValue line.toList)) ∧
    ∃ solution splits,
      findSingleSolution tables grid = some (solution, splits) ∧
        (solution = none ↔
          ¬∃ S : Coord s → Value s, CompletesItems digitValue line.toList S) ∧
        ∀ found, solution = some found →
          ∃ S, CompletesItems digitValue line.toList S ∧
            found.candidates = pointwise S := by
  obtain ⟨hclosed, hcompletes⟩ := parseLine_exact h
  exact findSolutions_exact tables hclosed _ hcompletes

/-- A line whose clues contradict each other. -/
theorem findSolutions_parseLine_contradictory :
    ∃ grid : Grid 2,
      parseLine Layout.inOrder "11.............." = .ok ⟨2, grid⟩ ∧
        ∃ solution splits,
          findSingleSolution
            ⟨fun _ => Layout.inOrder 2, fun _ => Traversal.inOrder⟩ grid =
              some (solution, splits) ∧
            (solution = none ↔ ¬∃ S : Coord 2 → Value 2,
              CompletesItems digitValue "11..............".toList S) ∧
            ∀ found, solution = some found →
              ∃ S, CompletesItems digitValue "11..............".toList S ∧
                found.candidates = pointwise S := by
  have hchars : ∀ char ∈ "11..............".toList,
      char = '.' ∨ ∃ v ≤ 2 * 2, digitValue char = some v := by
    intro char hchar
    have hcases : char = '1' ∨ char = '.' := by simpa using hchar
    rcases hcases with rfl | rfl
    · exact .inr ⟨1, by decide, rfl⟩
    · exact .inl rfl
  obtain ⟨grid, hgrid⟩ :=
    exists_parseLine Layout.inOrder (by decide) (by decide) (by decide) hchars
  exact ⟨grid, hgrid, (findSolutions_parseLine _ hgrid).2⟩

end SudokuSolver.Lua
