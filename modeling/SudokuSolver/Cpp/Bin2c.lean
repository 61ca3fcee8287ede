import Mathlib.Data.List.Basic
import SudokuSolver.Lines

/-!
# Binary files as C source

`bin2c`, by which the scripts that the worker embeds become the vector
`sudoku_bytecode` that it includes.  The vector is read back the way a compiler
reads it.
-/

namespace SudokuSolver.Cpp.Bin2c

/-! ## Writing a vector -/

/-- The input file, by the bytes that are left of it, and the global
`zeroterminated`. -/
structure InputFile where
  bytes : List UInt8
  zeroterminated : Bool

def myfgetc (f : InputFile) : Option UInt8 × InputFile :=
  match f.bytes with
  | c :: bytes => (some c, { f with bytes := bytes })
  | [] =>
      if f.zeroterminated then (some 0, { f with zeroterminated := false })
      else (none, f)

/-- The number of characters that `myfgetc` still returns. -/
def InputFile.size (f : InputFile) : ℕ :=
  f.bytes.length + f.zeroterminated.toNat

theorem size_myfgetc_lt {f rest : InputFile} {c : UInt8}
    (h : myfgetc f = (some c, rest)) : rest.size < f.size := by
  obtain ⟨bytes, zeroterminated⟩ := f
  cases bytes with
  | cons byte bytes =>
      cases h
      simp [InputFile.size]
  | nil =>
      cases zeroterminated with
      | true =>
          cases h
          simp [InputFile.size]
      | false => cases h

/-- What `0x%.2x, ` prints. -/
def element (c : UInt8) : List Char :=
  ['0', 'x', Nat.digitChar (c.toNat / 16), Nat.digitChar (c.toNat % 16), ',',
    ' ']

/-- The loop of `process`. -/
def writeElements (ifile : InputFile) (col : ℕ) : List Char :=
  match _h : myfgetc ifile with
  | (none, _) => []
  | (some c, ifile) =>
      if col ≥ 78 - 6 then '\n' :: (element c ++ writeElements ifile (1 + 6))
      else element c ++ writeElements ifile (col + 6)
termination_by ifile.size
decreasing_by all_goals exact size_myfgetc_lt _h

/-- What comes after the last occurrence of a byte, where there is one. -/
def strrchr (s : List UInt8) (c : UInt8) : Option (List UInt8) :=
  if c ∈ s then some (s.reverse.takeWhile (· ≠ c)).reverse else none

/-- `isalnum` of the C locale, in which only ASCII has letters and digits. -/
def isalnum (p : UInt8) : Bool := (Char.ofNat p.toNat).isAlphanum

/-- The name of the vector, which has a character for every byte. -/
def vectorName (ifname : String) : List Char :=
  let ifname := ifname.toList.flatMap String.utf8EncodeChar
  let cp :=
    match strrchr ifname '/'.toUInt8 with
    | some cp => cp
    | none => (strrchr ifname '\\'.toUInt8).getD ifname
  cp.map fun p => if !isalnum p then '_' else Char.ofNat p.toNat

/-- The file that a name leads to, where there is one, the bytes of the files
that can be read, and whether a name can be opened for writing. -/
structure Files where
  inode : String → Option ℕ
  bytes : ℕ → Option (List UInt8)
  writable : String → Bool

/-- What opening a file for reading finds. -/
def Files.read (files : Files) (ifname : String) : Option (List UInt8) :=
  (files.inode ifname).bind files.bytes

/-- What is left in the input file when the output file has been opened, which
empties it: nothing, if it is the same file. -/
def Files.kept (files : Files) (ifname ofname : String) (bytes : List UInt8) :
    List UInt8 :=
  if files.inode ofname = files.inode ifname then [] else bytes

/-- The text that is written to the output file, or the message with which the
program exits. -/
def process (files : Files) (useconst zeroterminated : Bool)
    (ifname ofname : String) : Except String (List Char) :=
  match files.read ifname with
  | none => .error ("cannot open " ++ ifname ++ " for reading\n")
  | some bytes =>
      if !files.writable ofname then
        .error ("cannot open " ++ ofname ++ " for writing\n")
      else
        let ifile := ⟨files.kept ifname ofname bytes, zeroterminated⟩
        .ok ("static ".toList ++ (if useconst then "const ".toList else []) ++
          "unsigned char ".toList ++ vectorName ifname ++
          "[] = \x7b\n".toList ++ writeElements ifile 1 ++
          "\n\x7d;\n".toList)

def usage : String := "usage: bin2c [-cz] <input_file> <output_file>\n"

/-- The loop of `main` over its arguments and what comes after it. -/
def run (files : Files) (useconst zeroterminated : Bool) :
    List String → Except String (List Char)
  | option :: argument :: ofname :: argv =>
      if option = "-c" then
        run files true zeroterminated (argument :: ofname :: argv)
      else if option = "-z" then
        run files useconst true (argument :: ofname :: argv)
      else .error usage
  | [ifname, ofname] => process files useconst zeroterminated ifname ofname
  | _ => .error usage

def main (files : Files) (argv : List String) : Except String (List Char) :=
  run files false false argv

/-! ## Reading a vector -/

/-- The value of a hexadecimal digit. -/
def hexValue (char : Char) : Option ℕ :=
  (List.range 16).find? fun value => Nat.digitChar value == char

/-- The elements of an initializer, up to its end. -/
def readElements : List Char → Option (List UInt8)
  | ['}', ';', '\n'] => some []
  | '\n' :: text => readElements text
  | ' ' :: text => readElements text
  | '0' :: 'x' :: high :: low :: ',' :: text =>
      match hexValue high, hexValue low with
      | some h, some l =>
          (readElements text).map (List.cons (UInt8.ofNat (16 * h + l)))
      | _, _ => none
  | _ => none

/-- A vector as it is defined in C. -/
structure Vector where
  useconst : Bool
  name : List Char
  elements : List UInt8
deriving DecidableEq

/-- The part of a text after another one. -/
def dropText (text : String) (rest : List Char) : Option (List Char) :=
  if text.toList.isPrefixOf rest then some (rest.drop text.length) else none

/-- The definition of a vector. -/
def readVector (text : List Char) : Option Vector := do
  let text ← dropText "static " text
  let (useconst, text) :=
    match dropText "const " text with
    | some text => (true, text)
    | none => (false, text)
  let text ← dropText "unsigned char " text
  let name := text.takeWhile (· ≠ '[')
  let text ← dropText "[] = \x7b\n" (text.dropWhile (· ≠ '['))
  let elements ← readElements text
  return ⟨useconst, name, elements⟩

/-! ## The elements -/

theorem hexValue_digitChar {value : ℕ} (h : value < 16) :
    hexValue (Nat.digitChar value) = some value := by
  have hall : ∀ value < 16,
      hexValue (Nat.digitChar value) = some value := by decide
  exact hall value h

theorem readElements_element (c : UInt8) (text : List Char) :
    readElements (element c ++ text) =
      (readElements text).map (List.cons c) := by
  have hlt : c.toNat < 256 := c.toNat_lt
  have hvalue : UInt8.ofNat (16 * (c.toNat / 16) + c.toNat % 16) = c := by
    rw [Nat.div_add_mod]
    exact UInt8.ofNat_toNat
  rw [element]
  simp only [List.cons_append, List.nil_append]
  rw [readElements, hexValue_digitChar (by omega), hexValue_digitChar (by omega)]
  dsimp only
  rw [hvalue]
  rfl

/-- What `myfgetc` returns up to the end of the file. -/
def InputFile.content (f : InputFile) : List UInt8 :=
  f.bytes ++ if f.zeroterminated then [0] else []

theorem content_myfgetc (f : InputFile) :
    (f.content = [] ∧ myfgetc f = (none, f)) ∨
      ∃ c rest, myfgetc f = (some c, rest) ∧ f.content = c :: rest.content := by
  obtain ⟨bytes, zeroterminated⟩ := f
  cases bytes with
  | cons byte bytes => exact Or.inr ⟨byte, ⟨bytes, _⟩, rfl, rfl⟩
  | nil =>
      cases zeroterminated with
      | true => exact Or.inr ⟨0, ⟨[], false⟩, rfl, rfl⟩
      | false => exact Or.inl ⟨rfl, rfl⟩

theorem writeElements_none {f : InputFile} (h : myfgetc f = (none, f))
    (col : ℕ) : writeElements f col = [] := by
  rw [writeElements]
  split
  · rfl
  · next c rest heq =>
    rw [h] at heq
    cases heq

theorem writeElements_some {f rest : InputFile} {c : UInt8}
    (h : myfgetc f = (some c, rest)) (col : ℕ) :
    writeElements f col =
      if col ≥ 78 - 6 then '\n' :: (element c ++ writeElements rest (1 + 6))
      else element c ++ writeElements rest (col + 6) := by
  rw [writeElements]
  split
  · next heq =>
    rw [h] at heq
    cases heq
  · next heq =>
    rw [h] at heq
    cases heq
    rfl

/-- The elements are read back, whatever the column they begin in. -/
theorem readElements_writeElements (content : List UInt8) {f : InputFile}
    (hcontent : f.content = content) (col : ℕ) :
    readElements (writeElements f col ++ "\n\x7d;\n".toList) = some content := by
  induction content generalizing f col with
  | nil =>
      rcases content_myfgetc f with ⟨-, hend⟩ | ⟨c, rest, -, hcons⟩
      · rw [writeElements_none hend]
        rfl
      · rw [hcontent] at hcons
        cases hcons
  | cons c content ih =>
      rcases content_myfgetc f with ⟨hnil, -⟩ | ⟨c', rest, hnext, hcons⟩
      · rw [hcontent] at hnil
        cases hnil
      · rw [hcontent] at hcons
        cases hcons
        rw [writeElements_some hnext]
        split
        · rw [List.cons_append, List.append_assoc, readElements,
            readElements_element, ih rfl]
          rfl
        · rw [List.append_assoc, readElements_element, ih rfl]
          rfl

/-! ## The lines -/

/-- No line of a text that goes on in a column is longer than a width. -/
def Narrow (width : ℕ) : ℕ → List Char → Prop
  | _, [] => True
  | col, char :: text =>
      if char = '\n' then Narrow width 0 text
      else col < width ∧ Narrow width (col + 1) text

theorem narrow_append {width : ℕ} {line : List Char} (hline : '\n' ∉ line)
    (col : ℕ) (text : List Char) :
    Narrow width col (line ++ text) ↔
      (line = [] ∨ col + line.length ≤ width) ∧
        Narrow width (col + line.length) text := by
  induction line generalizing col with
  | nil => simp
  | cons char line ih =>
      rw [List.mem_cons, not_or] at hline
      obtain ⟨hchar, hrest⟩ := hline
      rw [List.cons_append, Narrow, if_neg (Ne.symm hchar), ih hrest,
        List.length_cons]
      have hcol : col + 1 + line.length = col + (line.length + 1) := by omega
      rw [hcol]
      constructor
      · rintro ⟨hlt, hor, hnarrow⟩
        refine ⟨Or.inr ?_, hnarrow⟩
        rcases hor with rfl | hle
        · exact hlt
        · exact hle
      · rintro ⟨hor, hnarrow⟩
        rcases hor with hnil | hle
        · cases hnil
        · exact ⟨by omega, Or.inr hle, hnarrow⟩

theorem newline_notMem_element (c : UInt8) : '\n' ∉ element c := by
  have hdigit : ∀ value < 16, Nat.digitChar value ≠ '\n' := by decide
  have hlt : c.toNat < 256 := c.toNat_lt
  simp only [element, List.mem_cons, List.not_mem_nil, or_false, not_or]
  exact ⟨by decide, by decide, (hdigit _ (by omega)).symm,
    (hdigit _ (by omega)).symm, by decide, by decide⟩

theorem length_element (c : UInt8) : (element c).length = 6 := rfl

/-- A line holds as many elements as begin left of the column that `process`
tests, and no more. -/
theorem narrow_writeElements (content : List UInt8) {f : InputFile}
    (hcontent : f.content = content) {col : ℕ} (hcol : col ≤ 12) :
    Narrow 72 (6 * col)
      (writeElements f (6 * col + 1) ++ "\n\x7d;\n".toList) := by
  induction content generalizing f col with
  | nil =>
      rcases content_myfgetc f with ⟨-, hend⟩ | ⟨c, rest, -, hcons⟩
      · rw [writeElements_none hend]
        change Narrow 72 (6 * col) ['\n', '}', ';', '\n']
        simp [Narrow]
      · rw [hcontent] at hcons
        cases hcons
  | cons c content ih =>
      rcases content_myfgetc f with ⟨hnil, -⟩ | ⟨c', rest, hnext, hcons⟩
      · rw [hcontent] at hnil
        cases hnil
      · rw [hcontent] at hcons
        cases hcons
        rw [writeElements_some hnext]
        split
        · rw [List.cons_append, Narrow, if_pos rfl, List.append_assoc,
            narrow_append (newline_notMem_element c), length_element]
          exact ⟨Or.inr (by omega), ih (f := rest) rfl (Nat.le_add_left 1 11)⟩
        · rw [List.append_assoc, narrow_append (newline_notMem_element c),
            length_element]
          refine ⟨Or.inr (by omega), ?_⟩
          have hle : col + 1 ≤ 12 := by omega
          have hnext' := ih (f := rest) rfl hle
          rw [Nat.mul_succ] at hnext'
          have hsame : 6 * col + 1 + 6 = 6 * col + 6 + 1 := by omega
          rw [hsame]
          exact hnext'

/-! ## The definition -/

theorem dropText_append (text : String) (rest : List Char) :
    dropText text (text.toList ++ rest) = some rest := by
  have hprefix : text.toList.isPrefixOf (text.toList ++ rest) = true :=
    List.isPrefixOf_iff_prefix.mpr (List.prefix_append _ _)
  rw [dropText, if_pos hprefix, ← String.length_toList, List.drop_left]

/-- The name of a vector is made up of letters, digits and underscores. -/
theorem mem_vectorName {ifname : String} {char : Char}
    (h : char ∈ vectorName ifname) : char.isAlphanum = true ∨ char = '_' := by
  obtain ⟨p, -, rfl⟩ := List.mem_map.mp h
  by_cases hp : isalnum p = true
  · rw [if_neg (by simp [hp])]
    exact Or.inl hp
  · rw [if_pos (by simp [hp])]
    exact Or.inr rfl

/-- The definition that is written is read back. -/
theorem readVector_definition (useconst : Bool) {name rest : List Char}
    {elements : List UInt8}
    (hname : ∀ char ∈ name, char.isAlphanum = true ∨ char = '_')
    (hrest : readElements rest = some elements) :
    readVector ("static ".toList ++
        (if useconst then "const ".toList else []) ++
        "unsigned char ".toList ++ name ++ "[] = \x7b\n".toList ++ rest) =
      some ⟨useconst, name, elements⟩ := by
  have hbracket : ∀ char ∈ name, decide (char ≠ '[') = true := by
    intro char hchar
    rw [decide_eq_true_eq]
    rintro rfl
    exact absurd (hname '[' hchar) (by decide)
  have htail : ∀ more, List.takeWhile (· ≠ '[')
      (name ++ ("[] = \x7b\n".toList ++ more)) = name ∧
        List.dropWhile (· ≠ '[') (name ++ ("[] = \x7b\n".toList ++ more)) =
          "[] = \x7b\n".toList ++ more := by
    intro more
    rw [List.takeWhile_append_of_pos hbracket,
      List.dropWhile_append_of_pos hbracket]
    exact ⟨List.append_nil name, rfl⟩
  obtain ⟨htake, hdrop⟩ := htail rest
  rw [readVector]
  simp only [List.append_assoc]
  rw [dropText_append "static "]
  cases useconst with
  | true =>
      rw [if_pos rfl]
      dsimp only [Option.bind_eq_bind, Option.bind_some]
      rw [dropText_append "const "]
      dsimp only
      rw [dropText_append "unsigned char "]
      dsimp only [Option.bind_some]
      rw [htake, hdrop, dropText_append "[] = \x7b\n"]
      dsimp only [Option.bind_some]
      rw [hrest]
      rfl
  | false =>
      have hnone : dropText "const " ("unsigned char ".toList ++
          (name ++ ("[] = \x7b\n".toList ++ rest))) = none := rfl
      rw [if_neg Bool.false_ne_true, List.nil_append]
      dsimp only [Option.bind_eq_bind, Option.bind_some]
      rw [hnone]
      dsimp only
      rw [dropText_append "unsigned char "]
      dsimp only [Option.bind_some]
      rw [htake, hdrop, dropText_append "[] = \x7b\n"]
      dsimp only [Option.bind_some]
      rw [hrest]
      rfl

/-! ## The arguments -/

/-- An argument before the last two is an option. -/
theorem run_cons (files : Files) (useconst zeroterminated : Bool)
    (option : String) {argv : List String} (hargv : 2 ≤ argv.length) :
    run files useconst zeroterminated (option :: argv) =
      if option = "-c" then run files true zeroterminated argv
      else if option = "-z" then run files useconst true argv
      else .error usage := by
  match argv with
  | [] => simp at hargv
  | [_] => simp at hargv
  | argument :: ofname :: argv => rw [run]

theorem run_options (files : Files) {options : List String}
    (hoptions : ∀ option ∈ options, option = "-c" ∨ option = "-z")
    (ifname ofname : String) (useconst zeroterminated : Bool) :
    run files useconst zeroterminated (options ++ [ifname, ofname]) =
      process files (useconst || options.contains "-c")
        (zeroterminated || options.contains "-z") ifname ofname := by
  induction options generalizing useconst zeroterminated with
  | nil =>
      rw [List.nil_append, run]
      simp
  | cons option options ih =>
      obtain ⟨hoption, hrest⟩ := List.forall_mem_cons.mp hoptions
      rw [List.cons_append, run_cons _ _ _ _ (by simp)]
      rcases hoption with rfl | rfl
      · rw [if_pos rfl, ih hrest]
        simp
      · rw [if_neg (by decide), if_pos rfl, ih hrest]
        simp

theorem run_usage (files : Files) {options : List String}
    (hoptions : ¬∀ option ∈ options, option = "-c" ∨ option = "-z")
    (ifname ofname : String) (useconst zeroterminated : Bool) :
    run files useconst zeroterminated (options ++ [ifname, ofname]) =
      .error usage := by
  induction options generalizing useconst zeroterminated with
  | nil => exact absurd (by simp) hoptions
  | cons option options ih =>
      rw [List.forall_mem_cons, not_and] at hoptions
      rw [List.cons_append, run_cons _ _ _ _ (by simp)]
      split
      · next hc => exact ih (hoptions (Or.inl hc)) _ _
      · split
        · next hz => exact ih (hoptions (Or.inr hz)) _ _
        · rfl

/-- A file of two bytes that has two names. -/
def twoNames : Files where
  inode name :=
    if name = "build/sudoku.bytecode" ∨ name = "./build/sudoku.bytecode" then
      some 0
    else none
  bytes _ := some [27, 76]
  writable _ := true

end SudokuSolver.Cpp.Bin2c
