import Mathlib.Data.Nat.Sqrt
import Mathlib.Tactic.IntervalCases
import Mathlib.Tactic.NormNum
import SudokuSolver.Board

/-!
# Lines of characters

What the parsers of the different solvers share: the length of a line is the
fourth power of a sector size, and a digit stands for its value.
-/

namespace SudokuSolver

universe u

/-- The fourth root of a length, when it is integral. -/
def fourthRoot (n : ℕ) : Option ℕ :=
  let root := n.sqrt.sqrt
  if root ^ 4 = n then some root else none

theorem fourthRoot_eq_some_iff {n s : ℕ} : fourthRoot n = some s ↔ s ^ 4 = n := by
  have hpow : ∀ r : ℕ, (r ^ 4).sqrt.sqrt = r := by
    intro r
    have hsquare : r ^ 4 = (r ^ 2) ^ 2 := by rw [← pow_mul]
    rw [hsquare, Nat.sqrt_eq', Nat.sqrt_eq']
  constructor
  · intro h
    simp only [fourthRoot, Option.ite_none_right_eq_some, Option.some.injEq] at h
    obtain ⟨hroot, rfl⟩ := h
    exact hroot
  · rintro rfl
    simp [fourthRoot, hpow]

/-- The value of a decimal digit.  Only `int` of Python reads the digits of other
scripts as well. -/
def digitValue (char : Char) : Option ℕ :=
  if char.isDigit then some (char.toNat - '0'.toNat) else none

theorem digitValue_digitChar {v : ℕ} (hv : v ≤ 9) :
    digitValue v.digitChar = some v := by
  interval_cases v <;> decide

theorem value_le_nine {s : ℕ} (hs : s ≤ 3) (value : Value s) : value.1 ≤ 9 :=
  (Finset.mem_Icc.mp value.2).2.trans (Nat.mul_le_mul hs hs)

/-- A number of one digit is written with one character. -/
theorem toList_toString_digit {v : ℕ} (hv : v ≤ 9) :
    (toString v).toList = [v.digitChar] := by
  interval_cases v <;> decide

theorem digitChar_ne_dot {v : ℕ} (hv : v ≤ 9) : v.digitChar ≠ '.' := by
  interval_cases v <;> decide

theorem digitChar_ne_zero {v : ℕ} (hpos : 1 ≤ v) (hv : v ≤ 9) :
    v.digitChar ≠ '0' := by
  interval_cases v <;> decide

theorem eq_zero_of_digitValue {char : Char} (h : digitValue char = some 0) :
    char = '0' := by
  rw [digitValue] at h
  split at h
  · next hdigit =>
    have hge : '0'.toNat ≤ char.toNat := by
      simp only [Char.isDigit, Bool.and_eq_true, decide_eq_true_eq] at hdigit
      exact UInt32.le_iff_toNat_le.mp hdigit.1
    have hzero := Option.some.inj h
    exact Char.toNat_inj.mp (by omega)
  · exact absurd h (by simp)

theorem le_nine_of_digitValue {char : Char} {v : ℕ}
    (h : digitValue char = some v) : v ≤ 9 := by
  rw [digitValue] at h
  split at h
  · next hdigit =>
    have hle : char.toNat ≤ '9'.toNat := by
      simp only [Char.isDigit, Bool.and_eq_true, decide_eq_true_eq] at hdigit
      exact UInt32.le_iff_toNat_le.mp hdigit.2
    have hnine : '9'.toNat = '0'.toNat + 9 := by decide
    have hvalue := Option.some.inj h
    omega
  · cases h

theorem toList_eq_map {α : Type*} {n : ℕ} (v : Vector α n) :
    v.toList = (List.finRange n).map fun i => v.get i := by
  refine List.ext_getElem (by simp) fun i hi _ => ?_
  rw [List.getElem_map, List.getElem_finRange, Vector.getElem_toList]
  rfl

/-- A computation that may fail succeeds when both of its parts do. -/
theorem bind_eq_ok_iff {ε : Type*} {β γ : Type u} {x : Except ε β}
    {f : β → Except ε γ} {b : γ} : (x >>= f) = .ok b ↔ ∃ a, x = .ok a ∧ f a = .ok b := by
  cases x with
  | error e => exact iff_of_false (by rintro ⟨⟩) (by rintro ⟨a, ⟨⟩, -⟩)
  | ok a =>
      constructor
      · exact fun h => ⟨a, rfl, h⟩
      · rintro ⟨a', ⟨⟩, h⟩
        exact h

/-- Items that are turned into others, all of which succeed. -/
theorem mapM_eq_ok_iff {ε α : Type*} {β : Type u} {f : α → Except ε β}
    {l : List α} {bs : List β} :
    l.mapM f = .ok bs ↔ List.Forall₂ (fun a b => f a = .ok b) l bs := by
  induction l generalizing bs with
  | nil =>
      rw [List.forall₂_nil_left_iff]
      exact ⟨fun h => (Except.ok.inj h).symm, fun h => h ▸ rfl⟩
  | cons a l ih =>
      rw [List.mapM_cons, bind_eq_ok_iff, List.forall₂_cons_left_iff]
      refine exists_congr fun b => ?_
      rw [bind_eq_ok_iff]
      constructor
      · rintro ⟨hb, bs', hbs, heq⟩
        exact ⟨bs', hb, ih.mp hbs, (Except.ok.inj heq).symm⟩
      · rintro ⟨bs', hb, hbs, rfl⟩
        exact ⟨hb, bs', ih.mpr hbs, rfl⟩

theorem exists_mapM_eq_ok_iff {ε α : Type*} {β : Type u} {f : α → Except ε β}
    {l : List α} :
    (∃ bs, l.mapM f = .ok bs) ↔ ∀ a ∈ l, ∃ b, f a = .ok b := by
  simp only [mapM_eq_ok_iff]
  induction l with
  | nil => simp
  | cons a l ih =>
      rw [List.forall_mem_cons, ← ih]
      simp only [List.forall₂_cons_left_iff]
      constructor
      · rintro ⟨-, b, bs, hb, hbs, rfl⟩
        exact ⟨⟨b, hb⟩, bs, hbs⟩
      · rintro ⟨⟨b, hb⟩, bs, hbs⟩
        exact ⟨b :: bs, b, bs, hb, hbs, rfl⟩

/-! ## Reading characters -/

section Reading

variable {G H ε : Type*} {char : Char} {bound bound' : ℕ}
variable {set : {v : ℕ // v ∈ Finset.Icc 1 bound} → G}
variable {set' : {v : ℕ // v ∈ Finset.Icc 1 bound'} → H}

/-- A character that stands for no clue or for a digit up to a bound. -/
def Readable (bound : ℕ) (char : Char) : Prop :=
  char = '.' ∨ ∃ v ≤ bound, digitValue char = some v

/-- Every digit is at most nine. -/
theorem readable_nine_iff :
    Readable 9 char ↔ char = '.' ∨ char.isDigit = true := by
  refine or_congr_right ⟨?_, fun hdigit => ?_⟩
  · rintro ⟨v, -, hv⟩
    by_contra hdigit
    rw [digitValue, if_neg hdigit] at hv
    cases hv
  · have hv : digitValue char = some (char.toNat - '0'.toNat) := if_pos hdigit
    exact ⟨_, le_nine_of_digitValue hv, hv⟩

/-- Reading a character leaves a grid alone for a dot or a zero, and sets the
value of any other digit up to a bound. -/
def Reads (bound : ℕ) (set : {v : ℕ // v ∈ Finset.Icc 1 bound} → G)
    (char : Char) (g g' : G) : Prop :=
  (char = '.' ∨ char = '0') ∧ g' = g ∨
    ∃ v, digitValue char = some v.1 ∧ g' = set v

theorem not_skipped_of_digitValue {v : ℕ} (hdigit : digitValue char = some v)
    (hv : 1 ≤ v) : ¬(char = '.' ∨ char = '0') := by
  rintro (rfl | rfl)
  · have hdot : digitValue '.' = none := by decide
    rw [hdot] at hdigit
    cases hdigit
  · have hzero : digitValue '0' = some 0 := by decide
    rw [hzero] at hdigit
    cases hdigit
    omega

theorem exists_reads_iff {g : G} :
    (∃ g', Reads bound set char g g') ↔ Readable bound char := by
  constructor
  · rintro ⟨g', ⟨rfl | rfl, -⟩ | ⟨v, hdigit, -⟩⟩
    · exact Or.inl rfl
    · exact Or.inr ⟨0, Nat.zero_le _, by decide⟩
    · exact Or.inr ⟨v.1, (Finset.mem_Icc.mp v.2).2, hdigit⟩
  · rintro (rfl | ⟨v, hv, hdigit⟩)
    · exact ⟨g, Or.inl ⟨Or.inl rfl, rfl⟩⟩
    · by_cases hzero : v = 0
      · subst v
        exact ⟨g, Or.inl ⟨Or.inr (eq_zero_of_digitValue hdigit), rfl⟩⟩
      · have hmem : v ∈ Finset.Icc 1 bound := by
          rw [Finset.mem_Icc]
          omega
        exact ⟨set ⟨v, hmem⟩, Or.inr ⟨⟨v, hmem⟩, hdigit, rfl⟩⟩

/-- Reading sets the value of every digit but zero, and nothing else. -/
theorem Reads.sets {g g' : G} (h : Reads bound set char g g') :
    (g' = g ∧ ∀ v, digitValue char = some v → v = 0) ∨
      ∃ v, digitValue char = some v.1 ∧ g' = set v := by
  refine h.imp_left fun ⟨hskip, hsame⟩ => ⟨hsame, fun v hdigit => ?_⟩
  by_contra hv
  exact not_skipped_of_digitValue hdigit (Nat.one_le_iff_ne_zero.mpr hv) hskip

/-- A step that skips a dot and a zero, sets the digits in range and fails for
everything else reads characters. -/
theorem eq_ok_iff_reads {x : Except ε G} {g g' : G}
    (hskip : char = '.' ∨ char = '0' → x = .ok g)
    (hother : ¬(char = '.' ∨ char = '0') → digitValue char = none →
      ∃ e, x = .error e)
    (hset : ¬(char = '.' ∨ char = '0') → ∀ v, digitValue char = some v.1 →
      x = .ok (set v))
    (hlarge : ¬(char = '.' ∨ char = '0') → ∀ v, digitValue char = some v →
      bound < v → ∃ e, x = .error e) :
    x = .ok g' ↔ Reads bound set char g g' := by
  by_cases hskipped : char = '.' ∨ char = '0'
  · rw [hskip hskipped, Except.ok.injEq]
    constructor
    · exact fun h => Or.inl ⟨hskipped, h.symm⟩
    · rintro (⟨-, rfl⟩ | ⟨v, hdigit, -⟩)
      · rfl
      · exact absurd hskipped
          (not_skipped_of_digitValue hdigit (Finset.mem_Icc.mp v.2).1)
  · cases hdigit : digitValue char with
    | none =>
        obtain ⟨e, he⟩ := hother hskipped hdigit
        rw [he, Reads, hdigit]
        simp [hskipped]
    | some v =>
        have hpos : v ≠ 0 := by
          rintro rfl
          exact hskipped (Or.inr (eq_zero_of_digitValue hdigit))
        by_cases hlarger : bound < v
        · obtain ⟨e, he⟩ := hlarge hskipped v hdigit hlarger
          rw [he]
          refine iff_of_false (by simp) ?_
          rintro (⟨h, -⟩ | ⟨w, hw, -⟩)
          · exact hskipped h
          · have hle := (Finset.mem_Icc.mp w.2).2
            rw [hdigit, Option.some.injEq] at hw
            omega
        · have hmem : v ∈ Finset.Icc 1 bound := by
            rw [Finset.mem_Icc]
            omega
          rw [hset hskipped ⟨v, hmem⟩ hdigit, Except.ok.injEq]
          constructor
          · exact fun h => Or.inr ⟨⟨v, hmem⟩, hdigit, h.symm⟩
          · rintro (⟨h, -⟩ | ⟨w, hw, rfl⟩)
            · exact absurd h hskipped
            · rw [hdigit, Option.some.injEq] at hw
              exact congrArg set (Subtype.ext hw)

/-- Reading one character into two grids keeps what relates them. -/
theorem Reads.rel {R : G → H → Prop} {g g' : G} {h h' : H}
    (hset : ∀ v w, v.1 = w.1 → R (set v) (set' w)) (hrel : R g h)
    (hg : Reads bound set char g g') (hh : Reads bound' set' char h h') :
    R g' h' := by
  rcases hg with ⟨hskipped, rfl⟩ | ⟨v, hv, rfl⟩
  · rcases hh with ⟨-, rfl⟩ | ⟨w, hw, -⟩
    · exact hrel
    · exact absurd hskipped
        (not_skipped_of_digitValue hw (Finset.mem_Icc.mp w.2).1)
  · rcases hh with ⟨hskipped, -⟩ | ⟨w, hw, rfl⟩
    · exact absurd hskipped
        (not_skipped_of_digitValue hv (Finset.mem_Icc.mp v.2).1)
    · exact hset v w (Option.some.inj (hv.symm.trans hw))

end Reading

/-- The lengths and sizes that every parser of lines checks first. -/
theorem parse_eq_ok_iff {ε : Type*} {grid : ℕ → Type} {n s : ℕ} {noRoot : ε}
    {tooLarge : ℕ → ε} {new : ∀ s, Except ε (grid s)}
    {fill : ∀ s, grid s → Except ε (grid s)} {g : grid s} :
    ((match fourthRoot n with
      | none => .error noRoot
      | some size =>
          if size > 3 then .error (tooLarge size)
          else do
            let empty ← new size
            let filled ← fill size empty
            return ⟨size, filled⟩) : Except ε ((s : ℕ) × grid s)) = .ok ⟨s, g⟩ ↔
      n = s ^ 4 ∧ s ≤ 3 ∧ ∃ empty, new s = .ok empty ∧ fill s empty = .ok g := by
  constructor
  · intro h
    split at h
    · cases h
    · next size hroot =>
      split at h
      · cases h
      · next hsize =>
        obtain ⟨empty, hempty, h⟩ := bind_eq_ok_iff.mp h
        obtain ⟨filled, hfilled, h⟩ := bind_eq_ok_iff.mp h
        cases h
        exact ⟨(fourthRoot_eq_some_iff.mp hroot).symm, not_lt.mp hsize, empty,
          hempty, hfilled⟩
  · rintro ⟨hlength, hsize, empty, hempty, hfilled⟩
    rw [fourthRoot_eq_some_iff.mpr hlength.symm]
    dsimp only
    rw [if_neg (not_lt.mpr hsize), hempty]
    exact bind_eq_ok_iff.mpr
      ⟨empty, rfl, bind_eq_ok_iff.mpr ⟨g, hfilled, rfl⟩⟩

/-! ## Items that stand for clues -/

variable {s : ℕ} {α G ε : Type*}

/-- The item of a square is at the place of the square, row by row. -/
def itemAt (items : List α) (c : Coord s) : Option α := items[place c]?

theorem mem_zip_rowMajor {items : List α} (hlength : items.length = s ^ 4)
    {a : α} {c : Coord s} :
    (a, c) ∈ items.zip (rowMajor s) ↔ itemAt items c = some a := by
  have hplaces := length_rowMajor s
  rw [itemAt, List.mem_iff_getElem]
  constructor
  · rintro ⟨k, hk, heq⟩
    rw [List.getElem_zip, Prod.mk.injEq] at heq
    obtain ⟨rfl, rfl⟩ := heq
    simp [rowMajor]
  · intro ha
    obtain ⟨hk, rfl⟩ := List.getElem?_eq_some_iff.mp ha
    refine ⟨place c, by rw [List.length_zip]; omega, ?_⟩
    simp [rowMajor]

/-- Reading items one after the other, each of which stands for a clue or for
nothing, sets clues at different squares. -/
theorem exists_clues (set : G → Coord s → Value s → G)
    {read : G → α × Coord s → Except ε G} {digit : α → Option ℕ}
    (hread : ∀ {g a c g'}, read g (a, c) = .ok g' →
      (g' = g ∧ ∀ v, digit a = some v → v = 0) ∨
        ∃ v : Value s, digit a = some v.1 ∧ g' = set g c v)
    {items : List (α × Coord s)} (hnodup : (items.map Prod.snd).Nodup)
    {g g' : G} (h : items.foldlM read g = .ok g') :
    ∃ clues : List (Coord s × Value s),
      g' = clues.foldl (fun g clue => set g clue.1 clue.2) g ∧
      (clues.map Prod.fst).Nodup ∧
      ∀ c v, (∃ value : Value s, value.1 = v ∧ (c, value) ∈ clues) ↔
        ∃ a, (a, c) ∈ items ∧ digit a = some v ∧ v ≠ 0 := by
  induction items generalizing g with
  | nil => exact ⟨[], (Except.ok.inj h).symm, List.nodup_nil, by simp⟩
  | cons item items ih =>
      obtain ⟨a, c⟩ := item
      rw [List.foldlM_cons] at h
      obtain ⟨g₁, hg, h⟩ := bind_eq_ok_iff.mp h
      rw [List.map_cons, List.nodup_cons] at hnodup
      obtain ⟨clues, hclues, hdistinct, hmem⟩ := ih hnodup.2 h
      rcases hread hg with ⟨rfl, hnothing⟩ | ⟨value, hvalue, rfl⟩
      · refine ⟨clues, hclues, hdistinct, fun d v => ?_⟩
        rw [hmem]
        constructor
        · rintro ⟨b, hb, hdigit⟩
          exact ⟨b, List.mem_cons_of_mem _ hb, hdigit⟩
        · rintro ⟨b, hb, hdigit, hv⟩
          rcases List.mem_cons.mp hb with heq | hb
          · cases heq
            exact absurd (hnothing v hdigit) hv
          · exact ⟨b, hb, hdigit, hv⟩
      · refine ⟨(c, value) :: clues, hclues, ?_, fun d v => ?_⟩
        · rw [List.map_cons, List.nodup_cons]
          refine ⟨fun hc => ?_, hdistinct⟩
          obtain ⟨⟨d, w⟩, hd, rfl⟩ := List.mem_map.mp hc
          obtain ⟨b, hb, -⟩ := (hmem d w.1).mp ⟨w, rfl, hd⟩
          exact hnodup.1 (List.mem_map.mpr ⟨(b, d), hb, rfl⟩)
        · constructor
          · rintro ⟨w, rfl, hw⟩
            rcases List.mem_cons.mp hw with heq | hw
            · cases heq
              exact ⟨a, List.mem_cons_self, hvalue,
                Nat.ne_of_gt (Finset.mem_Icc.mp value.2).1⟩
            · obtain ⟨b, hb, hdigit⟩ := (hmem d w.1).mp ⟨w, rfl, hw⟩
              exact ⟨b, List.mem_cons_of_mem _ hb, hdigit⟩
          · rintro ⟨b, hb, hdigit, hv⟩
            rcases List.mem_cons.mp hb with heq | hb
            · cases heq
              rw [hvalue] at hdigit
              exact ⟨value, Option.some.inj hdigit, List.mem_cons_self⟩
            · obtain ⟨w, hw, hmem'⟩ := (hmem d v).mpr ⟨b, hb, hdigit, hv⟩
              exact ⟨w, hw, List.mem_cons_of_mem _ hmem'⟩

/-- Reading succeeds when every item can be read. -/
theorem exists_foldlM_ok {β : Type*} {read : G → β → Except ε G}
    {items : List β} (hread : ∀ g, ∀ b ∈ items, ∃ g', read g b = .ok g')
    (g : G) : ∃ g', items.foldlM read g = .ok g' := by
  induction items generalizing g with
  | nil => exact ⟨g, rfl⟩
  | cons b items ih =>
      obtain ⟨g₁, hg⟩ := hread g b List.mem_cons_self
      obtain ⟨g', hg'⟩ :=
        ih (fun g b hb => hread g b (List.mem_cons_of_mem _ hb)) g₁
      exact ⟨g', by rw [List.foldlM_cons, hg]; exact hg'⟩

/-- When reading succeeds every item could be read. -/
theorem read_ok_of_foldlM_ok {β : Type*} {read : G → β → Except ε G}
    {items : List β} {g g' : G} (h : items.foldlM read g = .ok g') :
    ∀ b ∈ items, ∃ g₁ g₂, read g₁ b = .ok g₂ := by
  induction items generalizing g with
  | nil => simp
  | cons b items ih =>
      rw [List.foldlM_cons] at h
      obtain ⟨g₁, hg, h⟩ := bind_eq_ok_iff.mp h
      intro a ha
      rcases List.mem_cons.mp ha with rfl | ha
      · exact ⟨g, g₁, hg⟩
      · exact ih h a ha

/-- A line can be read when each of its characters can be read. -/
theorem exists_foldlM_iff_readable {bound : ℕ}
    {set : G → Coord s → {v : ℕ // v ∈ Finset.Icc 1 bound} → G}
    {read : G → Char × Coord s → Except ε G}
    (hread : ∀ {g g' char c}, read g (char, c) = .ok g' ↔
      Reads bound (set g c) char g g')
    {chars : List Char} (hlength : chars.length = s ^ 4) (g : G) :
    (∃ g', (chars.zip (rowMajor s)).foldlM read g = .ok g') ↔
      ∀ char ∈ chars, Readable bound char := by
  constructor
  · rintro ⟨g', hg⟩ char hchar
    have hfst : (chars.zip (rowMajor s)).map Prod.fst = chars :=
      List.map_fst_zip (by rw [hlength, length_rowMajor])
    rw [← hfst] at hchar
    obtain ⟨⟨char, c⟩, hmem, rfl⟩ := List.mem_map.mp hchar
    obtain ⟨g₁, g₂, hstep⟩ := read_ok_of_foldlM_ok hg _ hmem
    exact exists_reads_iff.mp ⟨g₂, hread.mp hstep⟩
  · intro hchars
    apply exists_foldlM_ok
    rintro g ⟨char, c⟩ hmem
    obtain ⟨g', hg⟩ := exists_reads_iff.mpr (hchars char (List.of_mem_zip hmem).1)
    exact ⟨g', hread.mpr hg⟩

/-- Two readings of the same items keep what relates their grids. -/
theorem foldlM_rel {H β ε' : Type*} {R : G → H → Prop}
    {read : G → β → Except ε G} {read' : H → β → Except ε' H}
    {items : List β}
    (hread : ∀ {g h}, R g h → ∀ b ∈ items, ∀ {g' h'}, read g b = .ok g' →
      read' h b = .ok h' → R g' h')
    {g g' : G} {h h' : H} (hrel : R g h)
    (hg : items.foldlM read g = .ok g')
    (hh : items.foldlM read' h = .ok h') : R g' h' := by
  induction items generalizing g h with
  | nil =>
      cases hg
      cases hh
      exact hrel
  | cons b items ih =>
      rw [List.foldlM_cons] at hg hh
      obtain ⟨g₁, hg₁, hg⟩ := bind_eq_ok_iff.mp hg
      obtain ⟨h₁, hh₁, hh⟩ := bind_eq_ok_iff.mp hh
      exact ih (fun hr b hb => hread hr b (List.mem_cons_of_mem _ hb))
        (hread hrel b List.mem_cons_self hg₁ hh₁) hg hh

/-- A completion with the value of every item that stands for one. -/
def CompletesItems (digit : α → Option ℕ) (items : List α)
    (S : Coord s → Value s) : Prop :=
  IsCompletion Finset.univ S ∧
    ∀ c v, (itemAt items c).bind digit = some v → v ≠ 0 → (S c).1 = v

/-- The clues that reading items sets ask for what the items ask for. -/
theorem completes_clues_iff {digit : α → Option ℕ} {items : List α}
    (hlength : items.length = s ^ 4) {clues : List (Coord s × Value s)}
    (hclues : ∀ c v, (∃ value : Value s, value.1 = v ∧ (c, value) ∈ clues) ↔
      ∃ a, (a, c) ∈ items.zip (rowMajor s) ∧ digit a = some v ∧ v ≠ 0)
    {S : Coord s → Value s} :
    Completes Finset.univ clues S ↔ CompletesItems digit items S := by
  rw [Completes, CompletesItems]
  refine and_congr_right fun _ => ?_
  constructor
  · intro hagrees c v hitem hv
    obtain ⟨a, ha, hdigit⟩ := Option.bind_eq_some_iff.mp hitem
    obtain ⟨value, rfl, hmem⟩ := (hclues c v).mpr
      ⟨a, (mem_zip_rowMajor hlength).mpr ha, hdigit, hv⟩
    exact congrArg Subtype.val (hagrees _ hmem)
  · rintro hitems ⟨c, value⟩ hmem
    obtain ⟨a, ha, hdigit, hv⟩ := (hclues c value.1).mp ⟨value, rfl, hmem⟩
    refine Subtype.ext (hitems c value.1 ?_ hv)
    rw [(mem_zip_rowMajor hlength).mp ha]
    exact hdigit

end SudokuSolver
