import SudokuSolver.FSharp.Line
import SudokuSolver.Printed

/-!
# Printed grids in F#

`toGridString` of `Print.fs`: every value is centred in the width of the largest
one, and bars and a divider line stand between the sectors.  The exceptions of
the library, and a sequence without an end, are a missing result.  The width of
a row line comes from its cells and the width of the divider from a formula, and
what both come to is compared by the columns that hold a bar or a cross.
-/

namespace SudokuSolver.FSharp

variable {s : ℕ}

/-! ## Printing -/

/-- `String.replicate`, which throws on a negative count. -/
def stringReplicate (count : ℤ) (string : String) : Option String :=
  if count < 0 then none
  else some (String.join (List.replicate count.toNat string))

/-- The given string but centered in spaces such that it's the supplied
length. -/
def centerString (desiredLength : ℕ) (string : String) : Option String := do
  let missing : ℤ := desiredLength - string.length
  -- half of the missing spaces each, rounded up and rounded down
  let before ← stringReplicate (-(-missing / 2)) " "
  let after ← stringReplicate (missing / 2) " "
  return before ++ string ++ after

/-- A list with the given value inserted after each `every` items. -/
def insertEvery {α : Type} (value : α) (every : ℕ) (col : List α) :
    Option (List α) :=
  if _hlast : col.length ≤ every then some col
  else if _hzero : every = 0 then none
  else
    (insertEvery value every (col.drop every)).map fun rest =>
      col.take every ++ value :: rest
termination_by col.length
decreasing_by
  rw [List.length_drop]
  omega

def maxValueLength (s : ℕ) : ℕ := (ToString.toString (s * s)).length

def sectorLength (s : ℕ) : ℤ := maxValueLength s * s + s - 1

def dividerLine (s : ℕ) : Option String :=
  (stringReplicate (sectorLength s) "-").map fun dashes =>
    "-+-".intercalate (List.replicate s dashes)

def rowToString (row : Vector (Square s) (s * s)) : Option String := do
  let cells ← (row.toList.map Square.toString).mapM
    (centerString (maxValueLength s))
  let items ← insertEvery "|" s cells
  return " ".intercalate items

/-- A string which is a human readable representation of the grid. -/
def toGridString (grid : Grid s) : Option String := do
  let divider ← dividerLine s
  let rows ← grid.rows.toList.mapM rowToString
  let lines ← insertEvery divider s rows
  return "\n".intercalate lines

/-! ## Cells -/

theorem stringReplicate_natCast (count : ℕ) (char : Char) :
    ∃ string, stringReplicate count (String.singleton char) = some string ∧
      string.toList = List.replicate count char := by
  refine ⟨_, if_neg (by omega), ?_⟩
  induction count with
  | zero => rfl
  | succ count ih =>
      rw [Int.toNat_natCast] at ih ⊢
      rw [List.replicate_succ, List.replicate_succ, ← ih, String.join_cons,
        String.toList_append, String.toList_singleton, List.singleton_append]

/-- A string that fits is centred in exactly the desired length. -/
theorem centerString_cell {width : ℕ} {string : String}
    (hlength : string.toList.length ≤ width)
    (hchars : ∀ char ∈ string.toList, CellChar char) :
    ∃ cell, centerString width string = some cell ∧ Cell width cell := by
  obtain ⟨missing, hmissing⟩ := Nat.exists_eq_add_of_le hlength
  obtain ⟨before, hbefore, hbeforeList⟩ :=
    stringReplicate_natCast ((missing + 1) / 2) ' '
  obtain ⟨after, hafter, hafterList⟩ := stringReplicate_natCast (missing / 2) ' '
  have hdifference : (width : ℤ) - string.length = missing := by
    rw [← String.length_toList]
    omega
  have hceiling : -(-(missing : ℤ) / 2) = ((missing + 1) / 2 : ℕ) := by omega
  have hfloor : (missing : ℤ) / 2 = (missing / 2 : ℕ) := by omega
  refine ⟨before ++ string ++ after, ?_, ?_, ?_⟩
  · simp only [centerString, hdifference, hceiling, hfloor]
    rw [show " " = String.singleton ' ' from rfl, hbefore, hafter]
    rfl
  · rw [String.toList_append, String.toList_append, hbeforeList, hafterList]
    simp only [List.length_append, List.length_replicate]
    omega
  · intro char hchar
    rw [String.toList_append, String.toList_append, List.mem_append,
      List.mem_append, hbeforeList, hafterList] at hchar
    rcases hchar with (hspace | hstring) | hspace
    · exact Or.inl (List.eq_of_mem_replicate hspace)
    · exact hchars char hstring
    · exact Or.inl (List.eq_of_mem_replicate hspace)

theorem Square.toString_fits (square : Square s) :
    (Square.toString square).toList.length ≤ maxValueLength s ∧
      ∀ char ∈ (Square.toString square).toList, CellChar char := by
  rw [Square.toString]
  split
  · refine ⟨Nat.length_repr_pos, fun char hchar => ?_⟩
    exact Or.inr (Or.inl (by simpa using hchar))
  · next value _ =>
    refine ⟨?_, fun char hchar => ?_⟩
    · rw [String.length_toList]
      exact length_toString_le (Finset.mem_Icc.mp value.2).2
    · rw [Nat.toString_eq_repr, Nat.toList_repr] at hchar
      exact Or.inr (Or.inr
        (Nat.isDigit_of_mem_toDigits (by decide) (by decide) hchar))

/-! ## Lines -/

/-- The value goes between the pieces of a list that is cut after each `every`
items. -/
theorem insertEvery_flatten {α : Type} (value : α) {every : ℕ}
    (hevery : 0 < every) {L : List (List α)} (hL : L ≠ [])
    (hpieces : ∀ piece ∈ L, piece.length = every) :
    insertEvery value every L.flatten = some ([value].intercalate L) := by
  induction L with
  | nil => exact absurd rfl hL
  | cons piece L ih =>
      have hpiece := hpieces piece List.mem_cons_self
      rw [insertEvery, List.flatten_cons, List.length_append, hpiece]
      by_cases hrest : L = []
      · rw [dif_pos (by simp [hrest])]
        simp [hrest]
      · have hnext : 0 < L.flatten.length := by
          obtain ⟨next, rest, rfl⟩ := List.exists_cons_of_ne_nil hrest
          have hlength := hpieces next (by simp)
          rw [List.flatten_cons, List.length_append]
          omega
        rw [dif_neg (by omega), dif_neg (by omega), List.drop_left' hpiece,
          List.take_left' hpiece,
          ih hrest fun p hp => hpieces p (List.mem_cons_of_mem piece hp),
          List.intercalate_cons_of_ne_nil hrest]
        simp

theorem mapM_forall₂ {α β : Type} {f : α → Option β} {P : α → β → Prop}
    {l : List α} (h : ∀ a ∈ l, ∃ b, f a = some b ∧ P a b) :
    ∃ bs, l.mapM f = some bs ∧ List.Forall₂ P l bs := by
  induction l with
  | nil => exact ⟨[], rfl, List.Forall₂.nil⟩
  | cons a l ih =>
      obtain ⟨b, hb, hP⟩ := h a List.mem_cons_self
      obtain ⟨bs, hbs, hrest⟩ := ih fun a' ha' =>
        h a' (List.mem_cons_of_mem a ha')
      refine ⟨b :: bs, ?_, List.Forall₂.cons hP hrest⟩
      rw [List.mapM_cons, hb, hbs]
      rfl

/-- The columns of a line that hold a separator: `s` sectors of `width` values
with their spaces. -/
def marks (s width : ℕ) : List Bool :=
  [false, true, false].intercalate
    (List.replicate s (List.replicate (width * s + s - 1) false))

/-- The bars of a line of cells. -/
theorem map_isBar_intercalate {width : ℕ} (hs : 1 ≤ s)
    {sectors : List (List String)} (hsectors : sectors.length = s)
    (hlength : ∀ cells ∈ sectors, cells.length = s)
    (hcells : ∀ cells ∈ sectors, ∀ cell ∈ cells, Cell width cell) :
    (" ".intercalate (["|"].intercalate sectors)).toList.map (· == '|') =
      marks s width := by
  have hcell : ∀ cells ∈ sectors, ∀ cell ∈ cells,
      cell.toList.map (· == '|') = List.replicate width false := by
    intro cells hc cell hcell
    obtain ⟨hlen, hchars⟩ := hcells cells hc cell hcell
    refine List.eq_replicate_iff.mpr ⟨by rw [List.length_map, hlen], ?_⟩
    intro b hb
    obtain ⟨char, hchar, rfl⟩ := List.mem_map.mp hb
    rw [beq_eq_false_iff_ne]
    rintro rfl
    exact absurd (hchars '|' hchar) (by unfold CellChar; decide)
  have hsector : ∀ cells ∈ sectors,
      ([' '].intercalate (cells.map String.toList)).map (· == '|') =
        List.replicate (width * s + s - 1) false := by
    intro cells hc
    have hrow : (cells.map String.toList).map (List.map (· == '|')) =
        List.replicate s (List.replicate width false) := by
      rw [List.map_map, List.eq_replicate_iff]
      refine ⟨by rw [List.length_map, hlength cells hc], ?_⟩
      intro row hrow
      obtain ⟨cell, hmem, rfl⟩ := List.mem_map.mp hrow
      exact hcell cells hc cell hmem
    obtain ⟨n, rfl⟩ := Nat.exists_eq_add_of_le' hs
    rw [Joined.map_intercalate, hrow, List.map_singleton]
    rw [show (' ' == '|') = false from rfl, Joined.intercalate_replicate,
      Nat.mul_comm]
    rfl
  have hmap : (["|"].intercalate sectors).map String.toList =
      [['|']].intercalate (sectors.map (List.map String.toList)) := by
    rw [Joined.map_intercalate]
    rfl
  have hne : ∀ l ∈ sectors.map (List.map String.toList), l ≠ [] := by
    intro l hl
    obtain ⟨cells, hc, rfl⟩ := List.mem_map.mp hl
    have := hlength cells hc
    rw [ne_eq, List.map_eq_nil_iff, ← List.length_eq_zero_iff]
    omega
  rw [String.toList_intercalate, hmap, show " ".toList = [' '] from rfl,
    Joined.intercalate_intercalate _ _ hne, Joined.map_intercalate, marks]
  congr 1
  rw [List.map_map, List.map_map, List.eq_replicate_iff]
  refine ⟨by rw [List.length_map, hsectors], ?_⟩
  intro row hrow
  obtain ⟨cells, hc, rfl⟩ := List.mem_map.mp hrow
  exact hsector cells hc

theorem rowToString_line (hs : 1 ≤ s) (row : Vector (Square s) (s * s)) :
    ∃ line, rowToString row = some line ∧
      Line '|' (marks s (maxValueLength s)) line := by
  obtain ⟨cells, hcells, hforall⟩ := mapM_forall₂
    (f := centerString (maxValueLength s))
    (P := fun _ cell => Cell (maxValueLength s) cell)
    (l := row.toList.map Square.toString) (by
      intro string hstring
      obtain ⟨square, -, rfl⟩ := List.mem_map.mp hstring
      obtain ⟨hlength, hchars⟩ := Square.toString_fits square
      exact centerString_cell hlength hchars)
  have hcell : ∀ cell ∈ cells, Cell (maxValueLength s) cell := by
    intro cell hcell
    obtain ⟨i, hi, rfl⟩ := List.getElem_of_mem hcell
    exact hforall.get (by rwa [hforall.length_eq]) hi
  have hlength : cells.length = s * s := by
    rw [← hforall.length_eq, List.length_map, Vector.length_toList]
  obtain ⟨sectors, hsectors, hpieces, rfl⟩ := Joined.exists_pieces hlength
  have hne : sectors ≠ [] := by
    rw [ne_eq, ← List.length_eq_zero_iff]
    omega
  refine ⟨" ".intercalate (["|"].intercalate sectors), ?_, ?_, ?_⟩
  · rw [rowToString, hcells]
    change (insertEvery "|" s sectors.flatten).bind _ = _
    rw [insertEvery_flatten "|" hs hne hpieces]
    rfl
  · exact map_isBar_intercalate hs hsectors hpieces fun c hc cell hmem =>
      hcell cell (List.mem_flatten_of_mem hc hmem)
  · rw [String.toList_intercalate]
    intro hnewline
    rcases Joined.mem_intercalate hnewline with hsep | ⟨l, hl, hmem⟩
    · exact absurd hsep (by decide)
    · obtain ⟨item, hitem, rfl⟩ := List.mem_map.mp hl
      rcases Joined.mem_intercalate hitem with hbar | ⟨c, hc, hcmem⟩
      · rw [List.mem_singleton.mp hbar] at hmem
        exact absurd hmem (by decide)
      · have hchar := (hcell item (List.mem_flatten_of_mem hc hcmem)).chars _
          hmem
        exact absurd hchar (by unfold CellChar; decide)

theorem dividerLine_line (hs : 1 ≤ s) :
    ∃ line, dividerLine s = some line ∧
      Line '+' (marks s (maxValueLength s)) line := by
  obtain ⟨dashes, hdashes, hlist⟩ :=
    stringReplicate_natCast (maxValueLength s * s + s - 1) '-'
  have hlength : sectorLength s = (maxValueLength s * s + s - 1 : ℕ) := by
    rw [sectorLength]
    omega
  refine ⟨"-+-".intercalate (List.replicate s dashes), ?_, ?_, ?_⟩
  · rw [dividerLine, hlength, show "-" = String.singleton '-' from rfl, hdashes]
    rfl
  · rw [String.toList_intercalate, Joined.map_intercalate, List.map_replicate,
      List.map_replicate, hlist, List.map_replicate]
    rfl
  · rw [String.toList_intercalate, List.map_replicate, hlist]
    intro hnewline
    rcases Joined.mem_intercalate hnewline with hsep | ⟨l, hl, hmem⟩
    · exact absurd hsep (by decide)
    · rw [List.eq_of_mem_replicate hl] at hmem
      exact absurd (List.eq_of_mem_replicate hmem) (by decide)

/-! ## Alignment -/

/-- Printing never fails, and what is printed is aligned. -/
theorem toGridString_aligned (hs : 1 ≤ s) (grid : Grid s) :
    ∃ (text divider : String) (rowLines : List String),
      toGridString grid = some text ∧ dividerLine s = some divider ∧
        grid.rows.toList.mapM rowToString = some rowLines ∧
        Aligned s (rowLines.map String.toList) divider.toList
          (text.toList.splitOn '\n') := by
  obtain ⟨divider, hdivider, hline⟩ := dividerLine_line hs
  obtain ⟨rowLines, hrows, hforall⟩ := mapM_forall₂
    (l := grid.rows.toList) fun row _ => rowToString_line hs row
  have hrowLine : ∀ line ∈ rowLines,
      Line '|' (marks s (maxValueLength s)) line := by
    intro line hmem
    obtain ⟨i, hi, rfl⟩ := List.getElem_of_mem hmem
    exact hforall.get (by rwa [hforall.length_eq]) hi
  have hlength : rowLines.length = s * s := by
    rw [← hforall.length_eq, Vector.length_toList]
  obtain ⟨bands, hbands, hpieces, rfl⟩ := Joined.exists_pieces hlength
  have hne : bands ≠ [] := by
    rw [ne_eq, ← List.length_eq_zero_iff]
    omega
  have htext : toGridString grid =
      some ("\n".intercalate ([divider].intercalate bands)) := by
    rw [toGridString, hdivider, hrows]
    change (insertEvery divider s bands.flatten).bind _ = _
    rw [insertEvery_flatten divider hs hne hpieces]
    rfl
  exact ⟨_, divider, bands.flatten, htext, hdivider, hrows,
    aligned_of_lines hs hbands hpieces hline hrowLine⟩

/-- A grid of sector size two without a decided square. -/
theorem toGridString_aligned_two :
    ∃ grid : Grid 2,
      grid.rows = Vector.replicate _ (Vector.replicate _ Finset.univ) ∧
      ∃ (text divider : String) (rowLines : List String),
        toGridString grid = some text ∧ dividerLine 2 = some divider ∧
          grid.rows.toList.mapM rowToString = some rowLines ∧
          Aligned 2 (rowLines.map String.toList) divider.toList
            (text.toList.splitOn '\n') :=
  ⟨⟨Vector.replicate _ (Vector.replicate _ Finset.univ)⟩, rfl,
    toGridString_aligned (by decide) _⟩

end SudokuSolver.FSharp
