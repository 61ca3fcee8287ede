import SudokuSolver.Lua.Grid
import SudokuSolver.Printed

/-!
# Printing in Lua

`printers.lua`.  Numbers are written in decimal, as Lua writes integral numbers
below `10 ^ 14`.  A divider is inserted in front of every row and every square
that begins a sector; for a grid with a single square there is none.
-/

namespace SudokuSolver.Lua

variable {s : ℕ}

/-! ## The source -/

/-- `square:getValue() or "."`, written to a string. -/
def Square.text (square : Square s) : String :=
  match Square.getValue square with
  | none => "."
  | some value => toString value.1

/-- `string.rep`, which gives the empty string for a negative count. -/
def rep (string : String) (count : ℤ) : String :=
  String.join (List.replicate count.toNat string)

/-- The length of the largest value of a grid. -/
def maxValueLength (sectorDimension : ℕ) : ℕ :=
  (toString (sectorDimension ^ 2)).length

/-- A line to divide the rows in different sectors. -/
def getDividerLine (sectorDimension : ℕ) : String :=
  let sectorDivider :=
    rep "-" (sectorDimension * (maxValueLength sectorDimension + 2) : ℕ)
  "+".intercalate (List.replicate sectorDimension sectorDivider)

/-- The items of a loop whose indices start at one, each after a divider if we
went over a sector. -/
def withDividers (sectorDimension : ℕ) (divider : String)
    (items : List String) : List String :=
  (items.zipIdx 1).flatMap fun item =>
    if item.2 ≠ 1 ∧ item.2 % sectorDimension = 1 then [divider, item.1]
    else [item.1]

/-- The value of a square between its spaces. -/
def spacedValue (square : Square s) : String :=
  let value := Square.text square
  -- half of the missing spaces each, rounded up and rounded down
  let missing : ℤ := maxValueLength s - value.length
  rep " " (-(-missing / 2) + 1) ++ value ++ rep " " (missing / 2 + 1)

/-- The current state of the grid as a string. -/
def getGridString (grid : Grid s) : String :=
  let lines := grid.m_rows.toList.map fun row =>
    String.join (withDividers s "|" (row.toList.map spacedValue))
  "\n".intercalate (withDividers s (getDividerLine s) lines)

/-- The current state of the grid as a line of characters.  `printers.lua` keeps
no local name for `error`, so that it is the call of it that fails. -/
def getStateLine (grid : Grid s) : Except String String :=
  if s > 3 then .error "attempt to call global 'error' (a nil value)"
  else
    .ok (String.join
      (grid.m_rows.toList.flatMap fun row => row.toList.map Square.text))

/-! ## Cells -/

theorem toList_rep (char : Char) (count : ℤ) :
    (rep (String.singleton char) count).toList =
      List.replicate count.toNat char := by
  rw [rep, String.toList_join]
  simp [List.flatMap_replicate]

theorem Square.text_fits (square : Square s) :
    (Square.text square).toList.length ≤ maxValueLength s ∧
      ∀ char ∈ (Square.text square).toList, CellChar char := by
  rw [Square.text]
  split
  · refine ⟨Nat.length_repr_pos, fun char hchar => ?_⟩
    exact Or.inr (Or.inl (by simpa using hchar))
  · next value _ =>
    refine ⟨?_, fun char hchar => ?_⟩
    · rw [String.length_toList, maxValueLength, pow_two]
      exact length_toString_le (Finset.mem_Icc.mp value.2).2
    · rw [Nat.toString_eq_repr, Nat.toList_repr] at hchar
      exact Or.inr (Or.inr
        (Nat.isDigit_of_mem_toDigits (by decide) (by decide) hchar))

/-- There is something to be seen of every value, and it has no spaces. -/
theorem Square.text_visible (square : Square s) :
    (Square.text square).toList ≠ [] ∧ ' ' ∉ (Square.text square).toList := by
  rw [Square.text]
  split
  · decide
  · next value _ =>
    rw [Nat.toString_eq_repr, Nat.toList_repr]
    refine ⟨Nat.toDigits_ne_nil, fun hspace => ?_⟩
    have hdigit := Nat.isDigit_of_mem_toDigits (by decide) (by decide) hspace
    exact absurd hdigit (by decide)

/-- The spaces of a value: the odd one is on the left. -/
theorem toList_spacedValue (square : Square s) :
    (spacedValue square).toList =
      List.replicate ((maxValueLength s - (Square.text square).length + 1) / 2
          + 1) ' ' ++ (Square.text square).toList ++
        List.replicate ((maxValueLength s - (Square.text square).length) / 2
          + 1) ' ' := by
  obtain ⟨hlength, -⟩ := Square.text_fits square
  rw [String.length_toList] at hlength
  rw [spacedValue, show " " = String.singleton ' ' from rfl, String.toList_append,
    String.toList_append, toList_rep, toList_rep]
  congr 3
  · omega
  · omega

theorem spacedValue_cell (square : Square s) :
    Cell (maxValueLength s + 2) (spacedValue square) := by
  obtain ⟨hlength, hchars⟩ := Square.text_fits square
  have hlist := toList_spacedValue square
  constructor
  · rw [hlist]
    simp only [List.length_append, List.length_replicate, String.length_toList]
      at hlength ⊢
    omega
  · intro char hchar
    rw [hlist, List.mem_append, List.mem_append] at hchar
    rcases hchar with (hspace | hvalue) | hspace
    · exact Or.inl (List.eq_of_mem_replicate hspace)
    · exact hchars char hvalue
    · exact Or.inl (List.eq_of_mem_replicate hspace)

/-! ## Lines -/

theorem withDividers_eq (hs : 1 ≤ s) (divider : String)
    (item : Index s → String) :
    withDividers s divider ((List.finRange (s * s)).map item) =
      [divider].intercalate ((sectors s).map (List.map item)) := by
  rw [withDividers, ← flatten_map_sectors]
  apply Joined.flatMap_zipIdx_eq_intercalate
  · exact fun piece hpiece => length_of_mem_map_sectors hpiece
  · rw [List.length_map, length_sectors]
    omega

/-- A grid string shows every square in its cell. -/
theorem getGridString_eq (grid : Grid s) :
    getGridString grid = gridText s (getDividerLine s) fun c =>
      spacedValue (grid.square c) := by
  have hs : 1 ≤ s := grid.m_sectorDimension_pos
  have hrow : ∀ y : Index s, (grid.m_rows.get y).toList.map spacedValue =
      (List.finRange (s * s)).map fun x => spacedValue (grid.square (x, y)) := by
    intro y
    rw [toList_eq_map, List.map_map]
    rfl
  rw [getGridString, toList_eq_map, List.map_map, gridText,
    withDividers_eq hs]
  simp only [Function.comp_def, hrow, withDividers_eq hs, rowText]

theorem getDividerLine_line (s : ℕ) :
    Line '+' (textColumns s (maxValueLength s + 2)) (getDividerLine s) := by
  apply divider_line
  rw [show "-" = String.singleton '-' from rfl, toList_rep, Int.toNat_natCast]

/-- What is printed is aligned. -/
theorem getGridString_aligned (grid : Grid s) :
    Aligned s
      ((List.finRange (s * s)).map fun y =>
        (rowText s fun x => spacedValue (grid.square (x, y))).toList)
      (getDividerLine s).toList ((getGridString grid).toList.splitOn '\n') := by
  have haligned := gridText_aligned grid.m_sectorDimension_pos
    (getDividerLine_line s) fun c => spacedValue_cell (grid.square c)
  rw [← getGridString_eq] at haligned
  exact haligned

/-- The line of a grid shows its squares row by row. -/
theorem getStateLine_ok (hs : s ≤ 3) (grid : Grid s) :
    getStateLine grid = .ok (String.join
      ((rowMajor s).map fun c => Square.text (grid.square c))) := by
  rw [getStateLine, if_neg (by omega), toList_eq_map, List.flatMap_map,
    rowMajor_eq_flatMap, List.map_flatMap]
  congr 2
  refine List.flatMap_congr fun y _ => ?_
  rw [toList_eq_map, List.map_map, List.map_map]
  rfl

end SudokuSolver.Lua
