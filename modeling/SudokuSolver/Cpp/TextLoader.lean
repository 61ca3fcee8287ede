import SudokuSolver.Lines

/-!
# Puzzles and their loader in C++

`types.cpp` and `text_loader.cpp`.  A puzzle is a vector of values with zero
for an unknown one.  A text file delivers its lines one after the other.
-/

namespace SudokuSolver.Cpp

/-- `PuzzleT`. -/
abbrev Puzzle := List ℕ

/-- The string of a puzzle; puzzles with more than 81 values are refused. -/
def puzzleToString (puzzle : Puzzle) : Except String String :=
  if puzzle.length > 81 then
    .error ("Cannot convert a puzzle with dimension" ++
      " greater than nine to a string")
  else
    .ok (String.join (puzzle.map fun value =>
      if 0 = value then "." else toString value))

/-- The message of a `std::range_error`; it is missing where building it is
undefined behaviour. -/
structure RangeError where
  message : Option String

/-- A character added to the pointer to a string literal: the rest of the
literal from that offset on, unless the result is outside of the literal. -/
def literalFrom (literal : String) (offset : Char) : Option String :=
  if offset.toNat ≤ literal.length then
    some (String.ofList (literal.toList.drop offset.toNat))
  else none

/-- The error for a character that is not valid in its line. -/
def invalidCharacter (char : Char) (line : String) : RangeError where
  message :=
    (literalFrom " is not valid in puzzle " char).map fun text => text ++ line

/-- The sector dimension of a string that represents a puzzle. -/
def getSectorDimension (puzzleString : String) : Except RangeError ℕ :=
  match [1, 2, 3].find? fun nSectorDimension =>
      let nValuesInSector := nSectorDimension * nSectorDimension
      nValuesInSector * nValuesInSector == puzzleString.length with
  | some nSectorDimension => .ok nSectorDimension
  | none =>
      .error ⟨some ("Puzzle " ++ puzzleString ++
        " has an invalid number of characters")⟩

/-- Validate one character of a line and add it to the puzzle. -/
def addCharacter (nMaxValue : ℕ) (line : String) (puzzle : Puzzle)
    (char : Char) : Except RangeError Puzzle :=
  match digitValue char with
  | none => .error (invalidCharacter char line)
  | some nValue =>
      if nValue > nMaxValue then .error (invalidCharacter char line)
      else .ok (puzzle ++ [nValue])

/-- The puzzle of one line. -/
def parseLine (line : String) : Except RangeError Puzzle := do
  let nSectorDimension ← getSectorDimension line
  line.toList.foldlM
    (addCharacter (nSectorDimension * nSectorDimension) line) []

/-- A loader, by its queue of puzzles. -/
structure TextLoader where
  m_puzzles : List Puzzle

namespace TextLoader

/-- The constructor, given the lines of the file. -/
def new (lines : List String) : Except RangeError TextLoader := do
  let puzzles ← lines.mapM parseLine
  return ⟨puzzles⟩

/-- The next puzzle, if there is one, and the loader without it. -/
def getPuzzle (loader : TextLoader) : Option Puzzle × TextLoader :=
  match loader.m_puzzles with
  | [] => (none, loader)
  | puzzle :: puzzles => (some puzzle, ⟨puzzles⟩)

def getPuzzleCount (loader : TextLoader) : ℕ := loader.m_puzzles.length

theorem length_getPuzzle_lt {loader rest : TextLoader} {puzzle : Puzzle}
    (h : loader.getPuzzle = (some puzzle, rest)) :
    rest.m_puzzles.length < loader.m_puzzles.length := by
  rw [getPuzzle] at h
  split at h
  · simp at h
  · next hpuzzles =>
    cases h
    simp [hpuzzles]

end TextLoader

/-! ## What a loader delivers -/

/-- A puzzle of sector dimension `s`: as many values as a board has squares,
none of them above the grid dimension. -/
structure IsPuzzle (s : ℕ) (puzzle : Puzzle) : Prop where
  length_eq : puzzle.length = s ^ 4
  le_dimension : ∀ value ∈ puzzle, value ≤ s * s

/-- A puzzle that a loader can deliver. -/
def Loadable (puzzle : Puzzle) : Prop :=
  ∃ s, 1 ≤ s ∧ s ≤ 3 ∧ IsPuzzle s puzzle

theorem getSectorDimension_ok {puzzleString : String} {s : ℕ}
    (h : getSectorDimension puzzleString = .ok s) :
    1 ≤ s ∧ s ≤ 3 ∧ puzzleString.length = s ^ 4 := by
  rw [getSectorDimension] at h
  split at h
  · next n hfind =>
    cases h
    have hmem := List.mem_of_find?_eq_some hfind
    have hlength := List.find?_some hfind
    rw [beq_iff_eq] at hlength
    refine ⟨?_, ?_, ?_⟩
    · simp only [List.mem_cons, List.not_mem_nil, or_false] at hmem
      omega
    · simp only [List.mem_cons, List.not_mem_nil, or_false] at hmem
      omega
    · rw [← hlength, ← pow_two, ← pow_two, ← pow_mul]
  · cases h

/-- The values that validated characters add to a puzzle. -/
theorem foldlM_addCharacter {nMaxValue : ℕ} {line : String} {chars : List Char}
    {puzzle result : Puzzle}
    (h : chars.foldlM (addCharacter nMaxValue line) puzzle = .ok result) :
    ∃ values, result = puzzle ++ values ∧
      List.Forall₂ (fun char value => digitValue char = some value ∧
        value ≤ nMaxValue) chars values := by
  induction chars generalizing puzzle with
  | nil => exact ⟨[], by rw [List.append_nil]; exact (Except.ok.inj h).symm, .nil⟩
  | cons char chars ih =>
      rw [List.foldlM_cons] at h
      obtain ⟨next, hnext, h⟩ := bind_eq_ok_iff.mp h
      rw [addCharacter] at hnext
      split at hnext
      · cases hnext
      · next value hdigit =>
        split at hnext
        · cases hnext
        · next hle =>
          cases hnext
          obtain ⟨values, rfl, hvalues⟩ := ih h
          exact ⟨value :: values, by simp,
            .cons ⟨hdigit, not_lt.mp hle⟩ hvalues⟩

theorem loadable_of_parseLine {line : String} {puzzle : Puzzle}
    (h : parseLine line = .ok puzzle) : Loadable puzzle := by
  obtain ⟨s, hs, h⟩ := bind_eq_ok_iff.mp h
  obtain ⟨hpos, hle, hlength⟩ := getSectorDimension_ok hs
  obtain ⟨values, rfl, hvalues⟩ := foldlM_addCharacter h
  have hbounds := hvalues.flip.imp fun _ _ hboth => And.symm hboth
  exact ⟨s, hpos, hle,
    by rw [← hvalues.length_eq, String.length_toList, hlength],
    ((List.forall₂_and_left _ _).mp hbounds).1⟩

/-- The constructor parses line after line. -/
theorem TextLoader.new_eq_ok_iff {lines : List String} {loader : TextLoader} :
    TextLoader.new lines = .ok loader ↔
      List.Forall₂ (fun line puzzle => parseLine line = .ok puzzle) lines
        loader.m_puzzles := by
  have hmap : ∀ puzzles, lines.mapM parseLine = .ok puzzles ↔
      List.Forall₂ (fun line puzzle => parseLine line = .ok puzzle) lines
        puzzles := by
    induction lines with
    | nil =>
        intro puzzles
        rw [List.forall₂_nil_left_iff, List.mapM_nil]
        exact ⟨fun h => (Except.ok.inj h).symm, fun h => h ▸ rfl⟩
    | cons line lines ih =>
        intro puzzles
        rw [List.mapM_cons, bind_eq_ok_iff]
        constructor
        · rintro ⟨puzzle, hpuzzle, h⟩
          obtain ⟨rest, hrest, h⟩ := bind_eq_ok_iff.mp h
          cases h
          exact .cons hpuzzle ((ih rest).mp hrest)
        · rintro (_ | ⟨hpuzzle, hrest⟩)
          exact ⟨_, hpuzzle, bind_eq_ok_iff.mpr ⟨_, (ih _).mpr hrest, rfl⟩⟩
  rw [TextLoader.new, bind_eq_ok_iff]
  constructor
  · rintro ⟨puzzles, hpuzzles, h⟩
    cases h
    exact (hmap puzzles).mp hpuzzles
  · exact fun h => ⟨loader.m_puzzles, (hmap _).mpr h, rfl⟩

/-- Everything a loader delivers is a puzzle. -/
theorem TextLoader.loadable {lines : List String} {loader : TextLoader}
    (h : TextLoader.new lines = .ok loader) :
    ∀ puzzle ∈ loader.m_puzzles, Loadable puzzle :=
  ((List.forall₂_and_left _ _).mp ((TextLoader.new_eq_ok_iff.mp h).flip.imp
    fun _ _ hline => And.intro (loadable_of_parseLine hline) hline)).1

/-! ## The format of a file -/

/-- A character that a line can hold: a digit whose value is not above the
grid dimension. -/
def Accepts (nMaxValue : ℕ) (char : Char) : Prop :=
  char.isDigit = true ∧ char.toNat - '0'.toNat ≤ nMaxValue

instance (nMaxValue : ℕ) (char : Char) : Decidable (Accepts nMaxValue char) :=
  inferInstanceAs (Decidable (_ ∧ _))

/-- A line of the format: of the length of a grid, with characters that it
can hold. -/
structure IsLine (line : String) : Prop where
  length_eq : line.length = 1 ∨ line.length = 16 ∨ line.length = 81
  accepts : ∀ char ∈ line.toList, Accepts line.length.sqrt char

/-- The digits of a line. -/
def digitsOf (line : String) : Puzzle :=
  line.toList.map fun char => char.toNat - '0'.toNat

/-- The first character of a line that the line cannot hold. -/
def offender (line : String) : Option Char :=
  line.toList.find? fun char => ¬ Accepts line.length.sqrt char

theorem addCharacter_eq (nMaxValue : ℕ) (line : String) (puzzle : Puzzle)
    (char : Char) :
    addCharacter nMaxValue line puzzle char =
      if Accepts nMaxValue char then .ok (puzzle ++ [char.toNat - '0'.toNat])
      else .error (invalidCharacter char line) := by
  rw [addCharacter, digitValue]
  by_cases hdigit : char.isDigit = true
  · by_cases hle : char.toNat - '0'.toNat ≤ nMaxValue
    · have haccepts : Accepts nMaxValue char := ⟨hdigit, hle⟩
      rw [if_pos haccepts, if_pos hdigit]
      exact if_neg (not_lt.mpr hle)
    · have hrefuses : ¬ Accepts nMaxValue char := fun h => hle h.2
      rw [if_neg hrefuses, if_pos hdigit]
      exact if_pos (not_le.mp hle)
  · have hrefuses : ¬ Accepts nMaxValue char := fun h => hdigit h.1
    rw [if_neg hrefuses, if_neg hdigit]

/-- The characters of a line are added up to the first one that the line
cannot hold. -/
theorem foldlM_addCharacter_eq (nMaxValue : ℕ) (line : String)
    (puzzle : Puzzle) (chars : List Char) :
    chars.foldlM (addCharacter nMaxValue line) puzzle =
      match chars.find? fun char => ¬ Accepts nMaxValue char with
      | none => .ok (puzzle ++ chars.map fun char => char.toNat - '0'.toNat)
      | some char => .error (invalidCharacter char line) := by
  induction chars generalizing puzzle with
  | nil => simp [pure, Except.pure]
  | cons char chars ih =>
      rw [List.foldlM_cons, addCharacter_eq, List.find?_cons]
      by_cases haccepts : Accepts nMaxValue char
      · rw [if_pos haccepts]
        simp only [haccepts, not_true_eq_false, decide_false, List.map_cons]
        refine (ih _).trans ?_
        rw [List.append_assoc, List.singleton_append]
      · rw [if_neg haccepts]
        simp only [haccepts, not_false_eq_true, decide_true]
        rfl

/-- A line of the length of a grid has the sector dimension of the grid. -/
theorem getSectorDimension_eq {line : String}
    (hlength : line.length = 1 ∨ line.length = 16 ∨ line.length = 81) :
    ∃ s, getSectorDimension line = .ok s ∧ s * s = line.length.sqrt := by
  rcases hlength with hlength | hlength | hlength
  · exact ⟨1, by rw [getSectorDimension, hlength]; rfl,
      by rw [hlength]; exact (Nat.sqrt_eq 1).symm⟩
  · exact ⟨2, by rw [getSectorDimension, hlength]; rfl,
      by rw [hlength]; exact (Nat.sqrt_eq 4).symm⟩
  · exact ⟨3, by rw [getSectorDimension, hlength]; rfl,
      by rw [hlength]; exact (Nat.sqrt_eq 9).symm⟩

/-- A line of the length of a grid is refused for its first character that
cannot be held, and gives its digits when there is no such character. -/
theorem parseLine_eq {line : String}
    (hlength : line.length = 1 ∨ line.length = 16 ∨ line.length = 81) :
    parseLine line =
      match offender line with
      | none => .ok (digitsOf line)
      | some char => .error (invalidCharacter char line) := by
  obtain ⟨s, hs, hdimension⟩ := getSectorDimension_eq hlength
  rw [parseLine, hs, offender, ← hdimension]
  exact foldlM_addCharacter_eq (s * s) line [] line.toList

theorem isLine_iff {line : String} :
    IsLine line ↔
      (line.length = 1 ∨ line.length = 16 ∨ line.length = 81) ∧
        offender line = none := by
  have hnone : offender line = none ↔
      ∀ char ∈ line.toList, Accepts line.length.sqrt char := by
    rw [offender, List.find?_eq_none]
    simp
  rw [hnone]
  exact ⟨fun h => ⟨h.length_eq, h.accepts⟩, fun h => ⟨h.1, h.2⟩⟩

theorem parseLine_eq_ok_iff {line : String} {puzzle : Puzzle} :
    parseLine line = .ok puzzle ↔ IsLine line ∧ puzzle = digitsOf line := by
  rw [isLine_iff]
  constructor
  · intro h
    obtain ⟨s, hs, -⟩ := bind_eq_ok_iff.mp h
    obtain ⟨hpos, hle, hpow⟩ := getSectorDimension_ok hs
    have hlength : line.length = 1 ∨ line.length = 16 ∨ line.length = 81 := by
      interval_cases s <;> omega
    rw [parseLine_eq hlength] at h
    cases hoffender : offender line with
    | none =>
        rw [hoffender] at h
        exact ⟨⟨hlength, rfl⟩, (Except.ok.inj h).symm⟩
    | some char =>
        rw [hoffender] at h
        cases h
  · rintro ⟨⟨hlength, hoffender⟩, rfl⟩
    rw [parseLine_eq hlength, hoffender]

/-! ## Taking puzzles -/

namespace TextLoader

/-- A loader after a number of takes. -/
def taken (loader : TextLoader) (k : ℕ) : TextLoader :=
  (fun loader => loader.getPuzzle.2)^[k] loader

theorem m_puzzles_getPuzzle (loader : TextLoader) :
    loader.getPuzzle.2.m_puzzles = loader.m_puzzles.tail := by
  rw [getPuzzle]
  split
  · next hpuzzles => rw [hpuzzles, List.tail_nil]
  · next hpuzzles => rw [hpuzzles, List.tail_cons]

theorem getPuzzle_fst (loader : TextLoader) :
    loader.getPuzzle.1 = loader.m_puzzles.head? := by
  rw [getPuzzle]
  split
  · next hpuzzles => rw [hpuzzles, List.head?_nil]
  · next hpuzzles => rw [hpuzzles, List.head?_cons]

theorem m_puzzles_taken (loader : TextLoader) (k : ℕ) :
    (loader.taken k).m_puzzles = loader.m_puzzles.drop k := by
  induction k with
  | zero => rfl
  | succ k ih =>
      rw [taken, Function.iterate_succ_apply', m_puzzles_getPuzzle]
      rw [taken] at ih
      rw [ih, List.tail_drop]

/-- A loader accepts the lines of its format and delivers their digits, line
after line; it counts what it has not delivered yet. -/
theorem new_getPuzzle (lines : List String) :
    ((∃ loader, TextLoader.new lines = .ok loader) ↔
        ∀ line ∈ lines, IsLine line) ∧
      ∀ loader, TextLoader.new lines = .ok loader → ∀ k,
        (loader.taken k).getPuzzle.1 = lines[k]?.map digitsOf ∧
          (loader.taken k).getPuzzleCount = lines.length - k := by
  have hnew : ∀ loader, TextLoader.new lines = .ok loader ↔
      (∀ line ∈ lines, IsLine line) ∧
        loader.m_puzzles = lines.map digitsOf := by
    intro loader
    have hdigits : List.Forall₂ (fun line puzzle => puzzle = digitsOf line)
        lines loader.m_puzzles ↔ lines.map digitsOf = loader.m_puzzles := by
      rw [← congrFun₂ List.forall₂_eq_eq_eq, List.forall₂_map_left_iff]
      simp only [eq_comm]
    rw [new_eq_ok_iff]
    simp only [parseLine_eq_ok_iff, List.forall₂_and_left]
    rw [hdigits, eq_comm]
  constructor
  · constructor
    · rintro ⟨loader, hloader⟩
      exact ((hnew loader).mp hloader).1
    · intro hlines
      exact ⟨⟨lines.map digitsOf⟩, (hnew _).mpr ⟨hlines, rfl⟩⟩
  · intro loader hloader k
    have hpuzzles := ((hnew loader).mp hloader).2
    constructor
    · rw [getPuzzle_fst, m_puzzles_taken, hpuzzles, List.head?_drop,
        List.getElem?_map]
    · rw [getPuzzleCount, m_puzzles_taken, hpuzzles, List.length_drop,
        List.length_map]

/-- Two lines of different lengths. -/
theorem new_getPuzzle_two :
    ∃ loader, TextLoader.new ["0", "1234123412341230"] = .ok loader ∧
      (loader.taken 1).getPuzzle.1 =
        some [1, 2, 3, 4, 1, 2, 3, 4, 1, 2, 3, 4, 1, 2, 3, 0] ∧
      (loader.taken 1).getPuzzleCount = 1 := by
  obtain ⟨haccepts, htaken⟩ := new_getPuzzle ["0", "1234123412341230"]
  have hlines : ∀ line ∈ ["0", "1234123412341230"], IsLine line := by
    intro line hline
    rw [isLine_iff]
    rcases List.mem_pair.mp hline with rfl | rfl
    · exact ⟨.inl rfl, by decide +kernel⟩
    · exact ⟨.inr (.inl rfl), by decide +kernel⟩
  obtain ⟨loader, hloader⟩ := haccepts.mpr hlines
  exact ⟨loader, hloader, htaken loader hloader 1⟩

/-! ## Refusing lines -/

/-- The first line that cannot be parsed decides how the constructor fails. -/
theorem new_eq_error {before after : List String} {line : String}
    {error : RangeError} (hbefore : ∀ line ∈ before, IsLine line)
    (hline : parseLine line = .error error) :
    TextLoader.new (before ++ line :: after) = .error error := by
  have hmap : (before ++ line :: after).mapM parseLine = .error error := by
    induction before with
    | nil =>
        rw [List.nil_append, List.mapM_cons, hline]
        rfl
    | cons first before ih =>
        have hfirst := parseLine_eq_ok_iff.mpr
          ⟨hbefore first List.mem_cons_self, rfl⟩
        have hrest := ih fun line hline =>
          hbefore line (List.mem_cons_of_mem first hline)
        rw [List.cons_append, List.mapM_cons, hfirst, hrest]
        rfl
  rw [TextLoader.new, hmap]
  rfl

/-- The message for a character is only there when the character, as an
offset, stays inside of the literal, its terminator included. -/
theorem message_invalidCharacter_iff (char : Char) (line : String) :
    (∃ message, (invalidCharacter char line).message = some message) ↔
      char.toNat ≤ 24 := by
  have hliteral : " is not valid in puzzle ".length = 24 := by rfl
  rw [invalidCharacter, literalFrom, hliteral]
  constructor
  · rintro ⟨message, hmessage⟩
    by_contra hfar
    rw [if_neg hfar] at hmessage
    cases hmessage
  · intro hnear
    rw [if_pos hnear]
    exact ⟨_, rfl⟩

theorem suffix_message {char : Char} {line message : String}
    (h : (invalidCharacter char line).message = some message) :
    line.toList <:+ message.toList := by
  rw [invalidCharacter, Option.map_eq_some_iff] at h
  obtain ⟨text, -, rfl⟩ := h
  rw [String.toList_append]
  exact List.suffix_append _ _

/-- A line of the length of a grid with a character that it cannot hold is
always refused, but the message that says so can only be built when the code
of the first such character is at most the length of the literal. -/
theorem new_refused_iff {before after : List String} {line : String}
    (hbefore : ∀ line ∈ before, IsLine line)
    (hlength : line.length = 1 ∨ line.length = 16 ∨ line.length = 81)
    (hline : ∃ char ∈ line.toList, ¬ Accepts line.length.sqrt char) :
    ∃ char error, offender line = some char ∧
      TextLoader.new (before ++ line :: after) = .error error ∧
      ((∃ message, error.message = some message ∧
          char ∈ message.toList ∧ line.toList <:+: message.toList) ↔
        char.toNat ≤ 24) := by
  have hoffender : (offender line).isSome := by
    rw [offender, List.find?_isSome]
    simpa using hline
  obtain ⟨char, hchar⟩ := Option.isSome_iff_exists.mp hoffender
  have hparse : parseLine line = .error (invalidCharacter char line) := by
    rw [parseLine_eq hlength, hchar]
  refine ⟨char, invalidCharacter char line, hchar,
    new_eq_error hbefore hparse, ?_⟩
  rw [← message_invalidCharacter_iff char line]
  constructor
  · rintro ⟨message, hmessage, -, -⟩
    exact ⟨message, hmessage⟩
  · rintro ⟨message, hmessage⟩
    have hmem : char ∈ line.toList := List.mem_of_find?_eq_some hchar
    have hsuffix := suffix_message hmessage
    exact ⟨message, hmessage, hsuffix.subset hmem, hsuffix.isInfix⟩

/-- A grid of one square that is given a five: there is no message. -/
theorem new_refused_five :
    ¬ ∃ error message, TextLoader.new ["5"] = .error error ∧
      error.message = some message ∧
      '5' ∈ message.toList ∧ "5".toList <:+: message.toList := by
  rintro ⟨error, message, hnew, hmessage, -, -⟩
  have herror : TextLoader.new ["5"] = .error (invalidCharacter '5' "5") := by
    rfl
  rw [herror] at hnew
  cases hnew
  have hnear := (message_invalidCharacter_iff '5' "5").mp ⟨message, hmessage⟩
  exact absurd hnear (by decide)

/-- A tabulator after a line that is valid. -/
theorem new_refused_tab :
    ∃ error message, TextLoader.new ["1", "\t"] = .error error ∧
      error.message = some message ∧ '\t' ∈ message.toList := by
  have hbefore : ∀ line ∈ ["1"], IsLine line := by
    intro line hline
    rw [List.mem_singleton.mp hline, isLine_iff]
    exact ⟨.inl rfl, by decide⟩
  obtain ⟨char, error, hchar, hnew, hmessage⟩ :=
    @new_refused_iff ["1"] [] "\t" hbefore (.inl rfl)
      ⟨'\t', by decide, by decide⟩
  have htab : char = '\t' := by
    rw [show offender "\t" = some '\t' from by decide] at hchar
    exact (Option.some.inj hchar).symm
  subst htab
  obtain ⟨message, hsome, hmem, -⟩ := hmessage.mpr (by decide)
  exact ⟨error, message, hnew, hsome, hmem⟩

end TextLoader

end SudokuSolver.Cpp
