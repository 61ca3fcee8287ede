import SudokuSolver.Python.Grid
import SudokuSolver.Printed

/-!
# Printing in Python

`getGridString` and `getStateLine` of `grid.py`.  Dividers are inserted into the
list of rows and into every row, the last one first, so that the indexes of the
others stay the same.
-/

namespace SudokuSolver.Python

open Propagation

variable {s : ℕ}

/-! ## The source -/

/-- `str(square.getValue() or ".")`. -/
def Square.text (square : Square) : String :=
  if truthy square.getValue then toString (square.getValue.getD 0) else "."

/-- A string times a number. -/
def times (string : String) (count : ℕ) : String :=
  String.join (List.replicate count string)

/-- `str.center`: the odd space is on the left when the width is odd too. -/
def center (width : ℕ) (string : String) : String :=
  if width ≤ string.length then string
  else
    let margin := width - string.length
    let left := margin / 2 + margin % 2 * (width % 2)
    times " " left ++ string ++ times " " (margin - left)

/-- `range(start, 0, -step)`. -/
def rangeDown (step start : ℕ) : List ℕ :=
  if start = 0 ∨ step = 0 then [] else start :: rangeDown step (start - step)
termination_by start

def maxValueLength (sectorDimension : ℕ) : ℕ :=
  (toString (sectorDimension ^ 2)).length

def dividerLine (sectorDimension : ℕ) : String :=
  let sectorDivider :=
    times (times "-" (maxValueLength sectorDimension + 2)) sectorDimension
  "+".intercalate (List.replicate sectorDimension sectorDivider)

def dividerIndexes (sectorDimension : ℕ) : List ℕ :=
  rangeDown sectorDimension (sectorDimension ^ 2 - sectorDimension)

/-- A string that displays the grid's state. -/
def Grid.getGridString (grid : Grid s) : String :=
  let gridValues := grid.rows.toList.map fun row => row.toList.map fun square =>
    center (maxValueLength s + 2) square.text
  let gridValues := gridValues.map fun row =>
    (dividerIndexes s).foldl (Joined.insertAt "|") row
  let rowValues := gridValues.map String.join
  let rowValues :=
    (dividerIndexes s).foldl (Joined.insertAt (dividerLine s)) rowValues
  "\n".intercalate rowValues

/-- A string where each character represents a square value. -/
def Grid.getStateLine (grid : Grid s) : Except String String :=
  if s > 3 then
    .error s!"Cannot create a state line for a grid with a dimension of {s}"
  else
    .ok (String.join
      (grid.rows.toList.flatMap fun row => row.toList.map Square.text))

/-! ## Cells -/

theorem toList_times (char : Char) (count : ℕ) :
    (times (String.singleton char) count).toList =
      List.replicate count char := by
  rw [times, String.toList_join]
  simp [List.flatMap_replicate]

/-- A square whose possibilities are digits. -/
theorem Square.text_fits {square : Square}
    (hdigits : square.possibilities ⊆ digits s) :
    square.text.toList.length ≤ maxValueLength s ∧
      ∀ char ∈ square.text.toList, CellChar char := by
  rw [text]
  cases hvalue : square.getValue with
  | none =>
      refine ⟨Nat.length_repr_pos, fun char hchar => ?_⟩
      exact Or.inr (Or.inl (by simpa [truthy] using hchar))
  | some value =>
      have hmem : value ∈ digits s := by
        apply hdigits
        rw [getValue_eq_some_iff.mp hvalue]
        exact Finset.mem_singleton_self value
      rw [digits, mem_setRange] at hmem
      obtain ⟨n, rfl⟩ := Int.eq_ofNat_of_zero_le (show 0 ≤ value by omega)
      rw [if_pos (by simp [truthy]; omega), Option.getD_some,
        show toString (n : ℤ) = toString n from rfl]
      constructor
      · rw [String.length_toList, maxValueLength, pow_two]
        exact length_toString_le (by omega)
      · intro char hchar
        rw [Nat.toString_eq_repr, Nat.toList_repr] at hchar
        exact Or.inr (Or.inr
          (Nat.isDigit_of_mem_toDigits (by decide) (by decide) hchar))

theorem toList_center {width : ℕ} {string : String}
    (hlength : string.length < width) :
    (center width string).toList =
      List.replicate ((width - string.length) / 2 +
        (width - string.length) % 2 * (width % 2)) ' ' ++ string.toList ++
      List.replicate (width - string.length - ((width - string.length) / 2 +
        (width - string.length) % 2 * (width % 2))) ' ' := by
  rw [center, if_neg (by omega), show " " = String.singleton ' ' from rfl,
    String.toList_append, String.toList_append, toList_times, toList_times]

theorem center_cell {square : Square}
    (hdigits : square.possibilities ⊆ digits s) :
    Cell (maxValueLength s + 2)
      (center (maxValueLength s + 2) square.text) := by
  obtain ⟨hlength, hchars⟩ := Square.text_fits hdigits
  rw [String.length_toList] at hlength
  have hlist := toList_center
    (show square.text.length < maxValueLength s + 2 by omega)
  constructor
  · have hodd : (maxValueLength s + 2 - square.text.length) % 2 *
        ((maxValueLength s + 2) % 2) ≤
          (maxValueLength s + 2 - square.text.length) % 2 * 1 :=
      Nat.mul_le_mul_left _ (by omega)
    rw [hlist]
    simp only [List.length_append, List.length_replicate, String.length_toList]
    omega
  · intro char hchar
    rw [hlist, List.mem_append, List.mem_append] at hchar
    rcases hchar with (hspace | hvalue) | hspace
    · exact Or.inl (List.eq_of_mem_replicate hspace)
    · exact hchars char hvalue
    · exact Or.inl (List.eq_of_mem_replicate hspace)

/-! ## Lines -/

theorem rangeDown_mul {step : ℕ} (hstep : 0 < step) (count : ℕ) :
    rangeDown step (step * count) =
      (List.range count).reverse.map fun k => step * (k + 1) := by
  induction count with
  | zero => rw [rangeDown, if_pos (Or.inl (Nat.mul_zero step))]; rfl
  | succ count ih =>
      have hpos : step * (count + 1) ≠ 0 :=
        Nat.ne_of_gt (Nat.mul_pos hstep (Nat.succ_pos count))
      have hrest : step * (count + 1) - step = step * count := by
        rw [Nat.mul_succ, Nat.add_sub_cancel]
      rw [rangeDown, if_neg (by omega), hrest, ih, List.range_succ,
        List.reverse_append, List.map_append]
      rfl

theorem foldl_insertAt_dividerIndexes (hs : 1 ≤ s) (divider : String)
    (item : Index s → String) :
    (dividerIndexes s).foldl (Joined.insertAt divider)
        ((List.finRange (s * s)).map item) =
      [divider].intercalate ((sectors s).map (List.map item)) := by
  have hindexes : dividerIndexes s =
      (List.range (s - 1)).reverse.map fun k => s * (k + 1) := by
    have hmul : s ^ 2 - s = s * (s - 1) := by
      rw [pow_two, Nat.mul_sub, Nat.mul_one]
    rw [dividerIndexes, hmul, rangeDown_mul hs]
  rw [hindexes, ← flatten_map_sectors]
  have hlength : ((sectors s).map (List.map item)).length = s := by
    rw [List.length_map, length_sectors]
  have hpieces : ∀ piece ∈ (sectors s).map (List.map item),
      piece.length = s := fun piece hpiece => length_of_mem_map_sectors hpiece
  revert hlength hpieces
  generalize (sectors s).map (List.map item) = pieces
  intro hlength hpieces
  cases pieces with
  | nil => exact absurd hlength (by simp; omega)
  | cons piece pieces =>
      rw [List.length_cons] at hlength
      rw [← Joined.foldl_insertAt_eq_intercalate divider hpieces, ← hlength,
        Nat.add_sub_cancel]

/-- A grid string shows every square in its cell. -/
theorem getGridString_eq (grid : Grid s) :
    grid.getGridString = gridText s (dividerLine s) fun c =>
      center (maxValueLength s + 2) (grid.square c).text := by
  have hs : 1 ≤ s := grid.sectorDimension_pos
  have hrow : ∀ y : Index s, ((grid.rows.get y).toList.map fun square =>
        center (maxValueLength s + 2) square.text) =
      (List.finRange (s * s)).map fun x =>
        center (maxValueLength s + 2) (grid.square (x, y)).text := by
    intro y
    rw [toList_eq_map, List.map_map]
    rfl
  rw [Grid.getGridString, toList_eq_map, List.map_map, List.map_map,
    List.map_map, gridText, foldl_insertAt_dividerIndexes hs]
  simp only [Function.comp_def, hrow, foldl_insertAt_dividerIndexes hs, rowText]

theorem dividerLine_line (s : ℕ) :
    Line '+' (textColumns s (maxValueLength s + 2)) (dividerLine s) := by
  apply divider_line
  rw [times, String.toList_join, List.flatMap_replicate,
    show "-" = String.singleton '-' from rfl, toList_times,
    List.flatten_replicate_replicate]

/-- What is printed is aligned, as long as the possibilities are digits. -/
theorem getGridString_isAligned {grid : Grid s}
    (hwithin : Within (digits s) grid.candidates) :
    Aligned s
      ((List.finRange (s * s)).map fun y =>
        (rowText s fun x => center (maxValueLength s + 2)
          (grid.square (x, y)).text).toList)
      (dividerLine s).toList (grid.getGridString.toList.splitOn '\n') := by
  have haligned := gridText_aligned grid.sectorDimension_pos
    (dividerLine_line s) fun c => center_cell (hwithin c)
  rw [getGridString_eq]
  exact haligned

/-- A new grid of sector dimension four. -/
theorem getGridString_isAligned_new :
    ∃ grid : Grid 4, newGrid 4 = .ok grid ∧ Aligned 4
      ((List.finRange (4 * 4)).map fun y =>
        (rowText 4 fun x => center (maxValueLength 4 + 2)
          (grid.square (x, y)).text).toList)
      (dividerLine 4).toList (grid.getGridString.toList.splitOn '\n') := by
  obtain ⟨grid, hgrid, hfull⟩ := newGrid_ok (s := 4) (by decide)
  refine ⟨grid, hgrid, getGridString_isAligned ?_⟩
  rw [hfull]
  exact fun _ => subset_rfl

/-- The line of a grid shows its squares row by row. -/
theorem getStateLine_ok (hs : s ≤ 3) (grid : Grid s) :
    grid.getStateLine = .ok (String.join
      ((rowMajor s).map fun c => (grid.square c).text)) := by
  rw [Grid.getStateLine, if_neg (by omega), toList_eq_map,
    List.flatMap_map, rowMajor_eq_flatMap, List.map_flatMap]
  congr 2
  refine List.flatMap_congr fun y _ => ?_
  rw [toList_eq_map, List.map_map, List.map_map]
  rfl

end SudokuSolver.Python
