import SudokuSolver.Lines
import SudokuSolver.Support.Joined

/-!
# Texts of grids

What the printers have in common: every square is shown in a cell of the same
width, bars stand between the sectors of a row, and a divider line stands
between the bands.  The text is aligned.  In Lua and Python nothing else stands
on the lines, and the text tells the cells.
-/

namespace SudokuSolver

variable {s width : ℕ}

/-! ## Cells -/

/-- A character of a centred value. -/
def CellChar (char : Char) : Prop :=
  char = ' ' ∨ char = '.' ∨ char.isDigit

/-- A value centred in the given width. -/
structure Cell (width : ℕ) (cell : String) : Prop where
  length_eq : cell.toList.length = width
  chars : ∀ char ∈ cell.toList, CellChar char

/-- No value is longer than the largest one. -/
theorem length_toString_le {m n : ℕ} (h : m ≤ n) :
    (ToString.toString m).length ≤ (ToString.toString n).length := by
  rw [Nat.toString_eq_repr, Nat.toString_eq_repr,
    Nat.length_repr_le_iff Nat.length_repr_pos]
  exact h.trans_lt ((Nat.length_repr_le_iff Nat.length_repr_pos).mp le_rfl)

/-! ## Lines -/

/-- A line that does not end before its last character, with a separator in
the given columns. -/
structure Line (separator : Char) (columns : List Bool) (line : String) :
    Prop where
  map_separator : line.toList.map (· == separator) = columns
  newline : '\n' ∉ line.toList

theorem Line.length_eq {separator : Char} {columns : List Bool}
    {line : String} (h : Line separator columns line) :
    line.toList.length = columns.length := by
  rw [← h.map_separator, List.length_map]

theorem Line.getElem?_eq_separator {separator : Char} {columns : List Bool}
    {line : String} (h : Line separator columns line) (column : ℕ) :
    line.toList[column]? = some separator ↔ columns[column]? = some true := by
  rw [← h.map_separator, List.getElem?_map, Option.map_eq_some_iff]
  simp

/-! ## Alignment -/

/-- A printed grid: `s` bands of `s` row lines each, with the divider line
between the bands.  All lines have the same length, and a row line has its bars
in the columns where the divider has its crosses. -/
structure Aligned (s : ℕ) (rowLines : List (List Char))
    (divider : List Char) (lines : List (List Char)) : Prop where
  length_rowLines : rowLines.length = s * s
  layout : ∃ bands : List (List (List Char)), bands.length = s ∧
    (∀ band ∈ bands, band.length = s) ∧ bands.flatten = rowLines ∧
    [divider].intercalate bands = lines
  length_eq : ∀ line ∈ lines, line.length = divider.length
  columns : ∀ rowLine ∈ rowLines, ∀ column : ℕ,
    rowLine[column]? = some '|' ↔ divider[column]? = some '+'

/-- Lines that are joined can be told apart. -/
theorem splitOn_lines {lines : List String} (hne : lines ≠ [])
    (hnewline : ∀ line ∈ lines, '\n' ∉ line.toList) :
    ("\n".intercalate lines).toList.splitOn '\n' =
      lines.map String.toList := by
  rw [String.toList_intercalate]
  apply List.splitOn_intercalate
  · intro l hl
    obtain ⟨line, hmem, rfl⟩ := List.mem_map.mp hl
    exact hnewline line hmem
  · rwa [ne_eq, List.map_eq_nil_iff]

/-- Bands of lines with their separators in the same columns are aligned. -/
theorem aligned_of_lines (hs : 1 ≤ s) {columns : List Bool}
    {divider : String} {bands : List (List String)}
    (hbands : bands.length = s) (hpieces : ∀ band ∈ bands, band.length = s)
    (hdivider : Line '+' columns divider)
    (hrows : ∀ line ∈ bands.flatten, Line '|' columns line) :
    Aligned s (bands.flatten.map String.toList) divider.toList
      (("\n".intercalate ([divider].intercalate bands)).toList.splitOn
        '\n') := by
  have hlines : ∀ line ∈ [divider].intercalate bands,
      line = divider ∨ line ∈ bands.flatten := by
    intro line hmem
    rcases Joined.mem_intercalate hmem with hdiv | ⟨band, hband, hmem⟩
    · exact Or.inl (List.mem_singleton.mp hdiv)
    · exact Or.inr (List.mem_flatten_of_mem hband hmem)
  have hlinesNe : [divider].intercalate bands ≠ [] := by
    apply Joined.intercalate_ne_nil
    · rw [ne_eq, ← List.length_eq_zero_iff]
      omega
    · intro band hband
      have hlength := hpieces band hband
      rw [ne_eq, ← List.length_eq_zero_iff]
      omega
  have hnewline : ∀ line ∈ [divider].intercalate bands,
      '\n' ∉ line.toList := by
    intro line hmem
    rcases hlines line hmem with rfl | hrow
    · exact hdivider.newline
    · exact (hrows line hrow).newline
  rw [splitOn_lines hlinesNe hnewline]
  constructor
  · rw [List.length_map, List.length_flatten,
      List.map_eq_replicate_iff.mpr hpieces, List.sum_replicate, hbands,
      smul_eq_mul]
  · refine ⟨bands.map (List.map String.toList), ?_, ?_, ?_, ?_⟩
    · rw [List.length_map, hbands]
    · intro band hband
      obtain ⟨lines, hmem, rfl⟩ := List.mem_map.mp hband
      rw [List.length_map, hpieces lines hmem]
    · rw [List.map_flatten]
    · rw [Joined.map_intercalate]
      rfl
  · intro l hl
    obtain ⟨line, hmem, rfl⟩ := List.mem_map.mp hl
    rcases hlines line hmem with rfl | hrow
    · rfl
    · rw [(hrows line hrow).length_eq, hdivider.length_eq]
  · intro l hl column
    obtain ⟨line, hrow, rfl⟩ := List.mem_map.mp hl
    rw [(hrows line hrow).getElem?_eq_separator,
      hdivider.getElem?_eq_separator]

/-! ## Sectors of a line -/

/-- The indices of a line, one sector after the other. -/
def sectors (s : ℕ) : List (List (Index s)) :=
  (List.finRange s).map bandRange

theorem length_sectors (s : ℕ) : (sectors s).length = s := by
  rw [sectors, List.length_map, List.length_finRange]

theorem length_of_mem_sectors {sector : List (Index s)}
    (h : sector ∈ sectors s) : sector.length = s := by
  obtain ⟨i, -, rfl⟩ := List.mem_map.mp h
  rw [bandRange, List.length_map, List.length_finRange]

theorem flatten_sectors (s : ℕ) :
    (sectors s).flatten = List.finRange (s * s) := by
  rw [← List.ofFn_id, List.ofFn_mul, sectors, List.ofFn_eq_map]
  congr 1
  refine List.map_congr_left fun i _ => ?_
  rw [bandRange, List.ofFn_eq_map]
  refine List.map_congr_left fun k _ => Fin.ext ?_
  have hvalue : (finProdFinEquiv (i, k)).1 = k.1 + s * i.1 := rfl
  rw [hvalue, Nat.mul_comm, Nat.add_comm]
  rfl

theorem flatten_map_sectors {α : Type*} (f : Index s → α) :
    ((sectors s).map (List.map f)).flatten = (List.finRange (s * s)).map f := by
  rw [← List.map_flatten, flatten_sectors]

theorem length_of_mem_map_sectors {α : Type*} {f : Index s → α} {l : List α}
    (h : l ∈ (sectors s).map (List.map f)) : l.length = s := by
  obtain ⟨sector, hsector, rfl⟩ := List.mem_map.mp h
  rw [List.length_map, length_of_mem_sectors hsector]

/-! ## Texts -/

/-- The line of a row whose squares are shown by the given cells. -/
def rowText (s : ℕ) (cell : Index s → String) : String :=
  String.join (["|"].intercalate ((sectors s).map (List.map cell)))

/-- The text of a grid whose squares are shown by the given cells. -/
def gridText (s : ℕ) (divider : String) (cell : Coord s → String) : String :=
  "\n".intercalate ([divider].intercalate ((sectors s).map (List.map fun y =>
    rowText s fun x => cell (x, y))))

/-- The columns of a line that hold a separator. -/
def textColumns (s width : ℕ) : List Bool :=
  [true].intercalate (List.replicate s (List.replicate (s * width) false))

theorem toList_rowText (cell : Index s → String) :
    (rowText s cell).toList = ['|'].intercalate
      ((sectors s).map fun sector => sector.flatMap fun x =>
        (cell x).toList) := by
  have hitems : (["|"].intercalate ((sectors s).map (List.map cell))).map
      String.toList =
      [['|']].intercalate ((sectors s).map (List.map fun x =>
        (cell x).toList)) := by
    rw [Joined.map_intercalate, List.map_map]
    simp [Function.comp_def]
  rw [rowText, String.toList_join, List.flatMap_def, hitems,
    Joined.flatten_intercalate, List.map_map]
  rfl

/-- The line of a row has its bars between the sectors. -/
theorem rowText_line {cell : Index s → String}
    (hcell : ∀ x, Cell width (cell x)) :
    Line '|' (textColumns s width) (rowText s cell) := by
  constructor
  · rw [toList_rowText, Joined.map_intercalate, textColumns, List.map_map]
    congr 1
    rw [List.eq_replicate_iff]
    refine ⟨by rw [List.length_map, length_sectors], ?_⟩
    intro marks hmarks
    obtain ⟨sector, hsector, rfl⟩ := List.mem_map.mp hmarks
    rw [Function.comp_apply, List.eq_replicate_iff]
    constructor
    · rw [List.length_map, List.length_flatMap]
      simp [(hcell _).length_eq, length_of_mem_sectors hsector]
    · intro mark hmark
      obtain ⟨char, hchar, rfl⟩ := List.mem_map.mp hmark
      obtain ⟨x, -, hx⟩ := List.mem_flatMap.mp hchar
      rw [beq_eq_false_iff_ne]
      rintro rfl
      exact absurd ((hcell x).chars '|' hx) (by unfold CellChar; decide)
  · rw [toList_rowText]
    intro hnewline
    rcases Joined.mem_intercalate hnewline with hbar | ⟨l, hl, hmem⟩
    · exact absurd hbar (by decide)
    · obtain ⟨sector, -, rfl⟩ := List.mem_map.mp hl
      obtain ⟨x, -, hx⟩ := List.mem_flatMap.mp hmem
      exact absurd ((hcell x).chars _ hx) (by unfold CellChar; decide)

/-- A line of dashes has its crosses in the same columns. -/
theorem divider_line {dashes : String}
    (hdashes : dashes.toList = List.replicate (s * width) '-') :
    Line '+' (textColumns s width) ("+".intercalate (List.replicate s dashes))
    := by
  constructor
  · rw [String.toList_intercalate, Joined.map_intercalate, List.map_replicate,
      List.map_replicate, hdashes, List.map_replicate]
    rfl
  · rw [String.toList_intercalate, List.map_replicate, hdashes]
    intro hnewline
    rcases Joined.mem_intercalate hnewline with hsep | ⟨l, hl, hmem⟩
    · exact absurd hsep (by decide)
    · rw [List.eq_of_mem_replicate hl] at hmem
      exact absurd (List.eq_of_mem_replicate hmem) (by decide)

/-- The text of a grid is aligned. -/
theorem gridText_aligned (hs : 1 ≤ s) {divider : String}
    {cell : Coord s → String}
    (hdivider : Line '+' (textColumns s width) divider)
    (hcell : ∀ c, Cell width (cell c)) :
    Aligned s
      ((List.finRange (s * s)).map fun y =>
        (rowText s fun x => cell (x, y)).toList)
      divider.toList ((gridText s divider cell).toList.splitOn '\n') := by
  have hbands : ((sectors s).map (List.map fun y =>
      rowText s fun x => cell (x, y))).length = s := by
    rw [List.length_map, length_sectors]
  have haligned := aligned_of_lines hs hbands
    (fun band hband => length_of_mem_map_sectors hband) hdivider (by
      intro line hline
      rw [flatten_map_sectors] at hline
      obtain ⟨y, -, rfl⟩ := List.mem_map.mp hline
      exact rowText_line fun x => hcell (x, y))
  rw [flatten_map_sectors, List.map_map] at haligned
  exact haligned

/-! ## Texts tell the cells -/

theorem length_rowText {cell : Index s → String}
    (hcell : ∀ x, Cell width (cell x)) :
    (rowText s cell).toList.length = (textColumns s width).length :=
  (rowText_line hcell).length_eq

theorem rowText_injective {cell cell' : Index s → String}
    (hcell : ∀ x, Cell width (cell x)) (hcell' : ∀ x, Cell width (cell' x))
    (h : rowText s cell = rowText s cell') : cell = cell' := by
  have hlist := congrArg String.toList h
  rw [toList_rowText, toList_rowText] at hlist
  have hlength : ∀ x, (cell x).toList.length = (cell' x).toList.length :=
    fun x => (hcell x).length_eq.trans (hcell' x).length_eq.symm
  have hsectors := Joined.eq_of_intercalate_eq (by
    rw [List.map_map, List.map_map]
    refine List.map_congr_left fun sector _ => ?_
    simp only [Function.comp_apply, List.length_flatMap, hlength]) hlist
  funext x
  have hsector : ∀ sector ∈ sectors s, x ∈ sector →
      (cell x).toList = (cell' x).toList := by
    intro sector hsector hx
    have hflat := List.map_eq_map_iff.mp hsectors sector hsector
    rw [List.flatMap_def, List.flatMap_def] at hflat
    have hcells := List.eq_iff_flatten_eq.mpr ⟨hflat, by
      rw [List.map_map, List.map_map]
      exact List.map_congr_left fun x _ => hlength x⟩
    exact List.map_eq_map_iff.mp hcells x hx
  obtain ⟨sector, hmem, hx⟩ := List.mem_flatten.mp
    (show x ∈ (sectors s).flatten by
      rw [flatten_sectors]
      exact List.mem_finRange x)
  exact String.toList_inj.mp (hsector sector hmem hx)

/-- Two texts are the same exactly when all cells are. -/
theorem gridText_eq_iff {divider : String} {cell cell' : Coord s → String}
    (hcell : ∀ c, Cell width (cell c)) (hcell' : ∀ c, Cell width (cell' c)) :
    gridText s divider cell = gridText s divider cell' ↔ cell = cell' := by
  constructor
  · intro h
    have hlist := congrArg String.toList h
    rw [gridText, gridText, String.toList_intercalate,
      String.toList_intercalate, Joined.map_intercalate,
      Joined.map_intercalate] at hlist
    have hrow : ∀ y, (rowText s fun x => cell (x, y)).toList.length =
        (rowText s fun x => cell' (x, y)).toList.length := fun y =>
      (length_rowText fun x => hcell (x, y)).trans
        (length_rowText fun x => hcell' (x, y)).symm
    have hlines := Joined.eq_of_intercalate_eq (by
      rw [Joined.map_intercalate, Joined.map_intercalate]
      simp only [List.map_map, Function.comp_def, hrow]) hlist
    have hbands := Joined.eq_of_intercalate_eq (by
      simp only [List.map_map, Function.comp_def, List.length_map]) hlines
    funext c
    obtain ⟨band, hmem, hy⟩ := List.mem_flatten.mp
      (show c.2 ∈ (sectors s).flatten by
        rw [flatten_sectors]
        exact List.mem_finRange c.2)
    rw [List.map_map, List.map_map] at hbands
    have hband := List.map_eq_map_iff.mp hbands band hmem
    simp only [Function.comp_apply, List.map_map] at hband
    have hline := String.toList_inj.mp
      (List.map_eq_map_iff.mp hband c.2 hy)
    exact congrFun (rowText_injective (fun x => hcell (x, c.2))
      (fun x => hcell' (x, c.2)) hline) c.1
  · rintro rfl
    rfl

end SudokuSolver
