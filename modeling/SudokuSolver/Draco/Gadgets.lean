import SudokuSolver.Draco.Runs

/-!
# Square gadgets in Draco

The gadgets of `sudoku_solver_gui.d` in which the values of a puzzle are entered
and shown, and the procedures that go through all of them.
-/

namespace SudokuSolver.Draco

open Propagation

/-- `SquareGadget_t`, as far as its value goes.  Where the buffer is empty the
value is zero. -/
structure SquareGadget where
  si_Buffer : List Char
  si_LongInt : ℤ
  sg_PreviousValue : ℤ
  GADGDISABLED : Bool
  empty : si_Buffer = [] → si_LongInt = 0

/-- The gadgets, one row after the other. -/
abbrev SquareGadgets := ℕ → SquareGadget

def getSquareGadget (pSquareGadgets : SquareGadgets) (dimension x y : ℕ) :
    SquareGadget := pSquareGadgets (y * dimension + x)

/-- A loop over the columns and the rows, in which each gadget is changed. -/
def forSquareGadgets (dimension : ℕ)
    (change : ℕ → ℕ → SquareGadget → SquareGadget)
    (pSquareGadgets : SquareGadgets) : SquareGadgets :=
  (List.range dimension).foldl (fun pSquareGadgets x =>
    (List.range dimension).foldl (fun pSquareGadgets y =>
      Function.update pSquareGadgets (y * dimension + x)
        (change x y (getSquareGadget pSquareGadgets dimension x y)))
      pSquareGadgets) pSquareGadgets

theorem toString_ne_nil (value : ℤ) : (toString value).toList ≠ [] := by
  cases value with
  | ofNat n =>
      have hdigits : (toString (Int.ofNat n)).toList = n.repr.toList := rfl
      rw [hdigits, Nat.toList_repr]
      exact Nat.toDigits_ne_nil
  | negSucc n =>
      have hsign : (toString (Int.negSucc n)).toList =
          ("-" ++ n.succ.repr).toList := rfl
      rw [hsign]
      simp

def updateSquareGadgetValue (pSquareGadget : SquareGadget) (value : ℤ) :
    SquareGadget :=
  if pSquareGadget.si_LongInt = value then pSquareGadget
  else
    { pSquareGadget with
      si_LongInt := value
      si_Buffer := if value ≠ 0 then (toString value).toList else []
      empty := by
        intro hempty
        by_contra hvalue
        rw [if_pos hvalue] at hempty
        exact toString_ne_nil value hempty }

def updateSquareGadgetValues (pSquareGadgets : SquareGadgets) (pGrid : Block) :
    SquareGadgets :=
  forSquareGadgets pGrid.g_dimension (fun x y pSquareGadget =>
    updateSquareGadgetValue pSquareGadget (getSquareValue pGrid x y))
    pSquareGadgets

def toggleSquareGadgetsEnabled (dimension : ℕ)
    (pSquareGadgets : SquareGadgets) : SquareGadgets :=
  forSquareGadgets dimension (fun _ _ pSquareGadget =>
    { pSquareGadget with GADGDISABLED := !pSquareGadget.GADGDISABLED })
    pSquareGadgets

def stashCurrentValues (dimension : ℕ) (pSquareGadgets : SquareGadgets) :
    SquareGadgets :=
  forSquareGadgets dimension (fun _ _ pSquareGadget =>
    { pSquareGadget with sg_PreviousValue := pSquareGadget.si_LongInt })
    pSquareGadgets

def restorePreviousValues (dimension : ℕ) (pSquareGadgets : SquareGadgets) :
    SquareGadgets :=
  forSquareGadgets dimension (fun _ _ pSquareGadget =>
    { updateSquareGadgetValue pSquareGadget pSquareGadget.sg_PreviousValue with
      sg_PreviousValue := 0 }) pSquareGadgets

/-- The test of `valuesAreValid`, with the text that it sets. -/
def checkSquareGadget (dimension x y : ℕ) (pSquareGadget : SquareGadget) :
    Except String Unit :=
  if pSquareGadget.si_Buffer ≠ [] ∧
      (pSquareGadget.si_LongInt < 1 ∨ pSquareGadget.si_LongInt > dimension) then
    .error ("Invalid valid '" ++ String.ofList pSquareGadget.si_Buffer ++
      "' at (" ++ toString (x + 1) ++ "," ++ toString (y + 1) ++ ")")
  else .ok ()

def valuesAreValid (dimension : ℕ) (pSquareGadgets : SquareGadgets) :
    Except String Unit :=
  forM (List.range dimension) fun x =>
    forM (List.range dimension) fun y =>
      checkSquareGadget dimension x y
        (getSquareGadget pSquareGadgets dimension x y)

/-- A value as an argument of type `uint`. -/
def uint (value : ℤ) : ℕ := (value % 2 ^ 16).toNat

/-- The body of the loops of `createGridFromSquareGadgets`. -/
def setFromSquareGadget (pGrid dimension : ℕ) (pSquareGadgets : SquareGadgets)
    (mem : Memory) (x y : ℕ) : Option Memory :=
  let pSquareGadget := getSquareGadget pSquareGadgets dimension x y
  if pSquareGadget.si_LongInt ≠ 0 then
    mem.onBlock pGrid fun block =>
      setValueAt block x y (uint pSquareGadget.si_LongInt)
  else some mem

def createGridFromSquareGadgets (mem : Memory) (fails : ℕ → Bool)
    (sectorDimension : ℕ) (pSquareGadgets : SquareGadgets) :
    Option (Option ℕ × Memory) :=
  let dimension := sectorDimension * sectorDimension
  match mem.createGrid fails sectorDimension with
  | (none, mem) => some (none, mem)
  | (some pGrid, mem) => do
      let mem ← (List.range dimension).reverse.foldlM (fun mem y =>
        (List.range dimension).reverse.foldlM (fun mem x =>
          setFromSquareGadget pGrid dimension pSquareGadgets mem x y) mem) mem
      return (some pGrid, mem)

/-! ## Going through the gadgets -/

variable {s : ℕ} {pSquareGadgets : SquareGadgets}

/-- The gadget of a square. -/
def gadgetAt (pSquareGadgets : SquareGadgets) (c : Coord s) : SquareGadget :=
  getSquareGadget pSquareGadgets (s * s) c.1 c.2

/-- The loop changes each gadget once. -/
theorem gadgetAt_forSquareGadgets
    (change : ℕ → ℕ → SquareGadget → SquareGadget) (c : Coord s) :
    gadgetAt (forSquareGadgets (s * s) change pSquareGadgets) c =
      change c.1 c.2 (gadgetAt pSquareGadgets c) := by
  have hplace : ∀ d : Coord s, d.1.1 * (s * s) + d.2.1 = place d.swap := by
    intro d
    rw [place_eq, Nat.mul_comm]
    rfl
  have hinj : Function.Injective
      fun d : Coord s => d.1.1 * (s * s) + d.2.1 := by
    intro d e hde
    dsimp only at hde
    rw [hplace, hplace] at hde
    exact Prod.swap_injective (place_injective hde)
  have hloops := foldl_range_range (s := s) (fun pSquareGadgets y x =>
    Function.update pSquareGadgets (y * (s * s) + x)
      (change x y (pSquareGadgets (y * (s * s) + x)))) pSquareGadgets
  have hfold := foldl_update hinj (fun d => change d.2.1 d.1.1)
    (nodup_rowMajor s) pSquareGadgets c.swap
  rw [if_pos (mem_rowMajor c.swap)] at hfold
  rw [gadgetAt, forSquareGadgets]
  simp only [getSquareGadget]
  rw [hloops]
  exact hfold

theorem si_LongInt_toggleSquareGadgetsEnabled (c : Coord s) :
    (gadgetAt (toggleSquareGadgetsEnabled (s * s) pSquareGadgets)
      c).si_LongInt = (gadgetAt pSquareGadgets c).si_LongInt := by
  rw [toggleSquareGadgetsEnabled, gadgetAt_forSquareGadgets]

theorem si_LongInt_stashCurrentValues (c : Coord s) :
    (gadgetAt (stashCurrentValues (s * s) pSquareGadgets) c).si_LongInt =
      (gadgetAt pSquareGadgets c).si_LongInt := by
  rw [stashCurrentValues, gadgetAt_forSquareGadgets]

/-- The gadgets show the values of a choice. -/
def Shows (pSquareGadgets : SquareGadgets) (S : Coord s → Value s) : Prop :=
  ∀ c, (gadgetAt pSquareGadgets c).si_LongInt = (S c).1

/-- The choice has every value that is entered. -/
def Extends (pSquareGadgets : SquareGadgets) (S : Coord s → Value s) : Prop :=
  ∀ c, (gadgetAt pSquareGadgets c).si_LongInt ≠ 0 →
    (gadgetAt pSquareGadgets c).si_LongInt = (S c).1

theorem si_LongInt_updateSquareGadgetValue (pSquareGadget : SquareGadget)
    (value : ℤ) :
    (updateSquareGadgetValue pSquareGadget value).si_LongInt = value := by
  rw [updateSquareGadgetValue]
  by_cases heq : pSquareGadget.si_LongInt = value
  · rw [if_pos heq, heq]
  · rw [if_neg heq]

/-- The values of a complete grid are shown. -/
theorem shows_updateSquareGadgetValues {pGrid : Block} (h : Valid s pGrid)
    {S : Coord s → Value s} (hS : pGrid.candidates s = pointwise S) :
    Shows (updateSquareGadgetValues pSquareGadgets pGrid) S := by
  intro c
  have hc : pGrid.candidates s c = {S c} := congrFun hS c
  rw [updateSquareGadgetValues, h.fits.dimension, gadgetAt_forSquareGadgets,
    si_LongInt_updateSquareGadgetValue, h.getSquareValue_of_one hc]

/-! ## The values that are entered -/

/-- The values are zero or in the range of values. -/
def InRange (s : ℕ) (pSquareGadgets : SquareGadgets) : Prop :=
  ∀ c : Coord s, (gadgetAt pSquareGadgets c).si_LongInt = 0 ∨
    ∃ v : Value s, (gadgetAt pSquareGadgets c).si_LongInt = v.1

theorem forM_eq_ok_iff {α ε : Type*} {check : α → Except ε Unit} {l : List α} :
    forM l check = .ok () ↔ ∀ a ∈ l, check a = .ok () := by
  induction l with
  | nil => simp [pure, Except.pure]
  | cons a l ih =>
      rw [List.forM_cons, List.forall_mem_cons, ← ih]
      cases check a with
      | error e => simp [bind, Except.bind]
      | ok u => simp [bind, Except.bind]

theorem inRange_of_valid
    (h : valuesAreValid (s * s) pSquareGadgets = .ok ()) :
    InRange s pSquareGadgets := by
  intro c
  rw [valuesAreValid, forM_eq_ok_iff] at h
  have hcolumn := h c.1 (List.mem_range.mpr c.1.isLt)
  rw [forM_eq_ok_iff] at hcolumn
  have hcheck := hcolumn c.2 (List.mem_range.mpr c.2.isLt)
  change checkSquareGadget _ _ _ (gadgetAt pSquareGadgets c) = _ at hcheck
  rw [checkSquareGadget] at hcheck
  by_cases hempty : (gadgetAt pSquareGadgets c).si_Buffer = []
  · exact Or.inl ((gadgetAt pSquareGadgets c).empty hempty)
  · right
    by_cases hrange : (gadgetAt pSquareGadgets c).si_LongInt < 1 ∨
        (gadgetAt pSquareGadgets c).si_LongInt > (s * s : ℕ)
    · rw [if_pos ⟨hempty, hrange⟩] at hcheck
      cases hcheck
    · refine ⟨⟨(gadgetAt pSquareGadgets c).si_LongInt.toNat,
        Finset.mem_Icc.mpr (by omega)⟩, ?_⟩
      dsimp only
      omega

/-- The clue that is entered for a square. -/
def clueAt (pSquareGadgets : SquareGadgets) (c : Coord s) :
    Option (Coord s × Value s) :=
  if h : (gadgetAt pSquareGadgets c).si_LongInt.toNat ∈ Finset.Icc 1 (s * s)
  then some (c, ⟨_, h⟩) else none

theorem clueAt_eq_some_iff {c d : Coord s} {v : Value s} :
    clueAt pSquareGadgets c = some (d, v) ↔
      c = d ∧ (gadgetAt pSquareGadgets c).si_LongInt = v.1 := by
  obtain ⟨hpos, hle⟩ := Finset.mem_Icc.mp v.2
  rw [clueAt]
  by_cases h :
      (gadgetAt pSquareGadgets c).si_LongInt.toNat ∈ Finset.Icc 1 (s * s)
  · rw [dif_pos h, Option.some.injEq, Prod.mk.injEq, Subtype.ext_iff]
    have hpos' := (Finset.mem_Icc.mp h).1
    refine and_congr_right fun _ => ?_
    dsimp only
    omega
  · rw [dif_neg h]
    refine iff_of_false (by simp) ?_
    rintro ⟨-, hvalue⟩
    refine h (Finset.mem_Icc.mpr ?_)
    rw [hvalue, Int.toNat_natCast]
    exact ⟨hpos, hle⟩

/-- The clues that are entered, in the order in which they are set. -/
def clues (s : ℕ) (pSquareGadgets : SquareGadgets) :
    List (Coord s × Value s) :=
  (rowMajor s).reverse.filterMap (clueAt pSquareGadgets)

theorem mem_clues_iff {c : Coord s} {v : Value s} :
    (c, v) ∈ clues s pSquareGadgets ↔
      (gadgetAt pSquareGadgets c).si_LongInt = v.1 := by
  rw [clues, List.mem_filterMap]
  constructor
  · rintro ⟨d, -, hd⟩
    obtain ⟨rfl, hvalue⟩ := clueAt_eq_some_iff.mp hd
    exact hvalue
  · intro hvalue
    exact ⟨c, List.mem_reverse.mpr (mem_rowMajor c),
      clueAt_eq_some_iff.mpr ⟨rfl, hvalue⟩⟩

theorem nodup_clues (pSquareGadgets : SquareGadgets) :
    ((clues s pSquareGadgets).map Prod.fst).Nodup := by
  rw [clues, List.map_filterMap]
  refine List.Nodup.filterMap ?_ (List.nodup_reverse.mpr (nodup_rowMajor s))
  intro c d e hc hd
  obtain ⟨⟨c', v⟩, hclue, rfl⟩ := Option.map_eq_some_iff.mp hc
  obtain ⟨⟨d', w⟩, hclue', heq⟩ := Option.map_eq_some_iff.mp hd
  obtain ⟨rfl, -⟩ := clueAt_eq_some_iff.mp hclue
  obtain ⟨rfl, -⟩ := clueAt_eq_some_iff.mp hclue'
  exact heq.symm

/-- A choice agrees with the clues when it has every value that is entered. -/
theorem agrees_clues_iff (h : InRange s pSquareGadgets)
    (S : Coord s → Value s) :
    Agrees (clues s pSquareGadgets) S ↔ Extends pSquareGadgets S := by
  constructor
  · intro hagrees c hc
    obtain ⟨v, hv⟩ := (h c).resolve_left hc
    rw [hagrees _ (mem_clues_iff.mpr hv), hv]
  · rintro hextends ⟨c, v⟩ hclue
    have hvalue := mem_clues_iff.mp hclue
    have hpos := (Finset.mem_Icc.mp v.2).1
    have heq := hextends c (by omega)
    apply Subtype.ext
    dsimp only
    omega

/-! ## The grid that is created -/

theorem foldlM_flatMap {α β G : Type*} (f : α → List β)
    (step : G → β → Option G) (l : List α) (g : G) :
    (l.flatMap f).foldlM step g =
      l.foldlM (fun g a => (f a).foldlM step g) g := by
  induction l generalizing g with
  | nil => rfl
  | cons a l ih =>
      rw [List.flatMap_cons, List.foldlM_append, List.foldlM_cons]
      exact bind_congr ih

/-- Two nested loops downwards visit the squares row by row, from the last one
to the first. -/
theorem foldlM_range_range_reverse {G : Type*}
    (step : G → ℕ → ℕ → Option G) (g : G) :
    (List.range (s * s)).reverse.foldlM (fun g y =>
        (List.range (s * s)).reverse.foldlM (fun g x => step g x y) g) g =
      (rowMajor s).reverse.foldlM (fun g c => step g c.1.1 c.2.1) g := by
  rw [rowMajor_eq_flatMap, List.reverse_flatMap, foldlM_flatMap,
    ← List.map_coe_finRange_eq_range, ← List.map_reverse]
  simp only [Function.comp_apply, ← List.map_reverse, List.foldlM_map]

theorem uint_eq (v : Value s) (hs' : s ≤ 5) : uint v.1 = v.1 := by
  have hle := (Finset.mem_Icc.mp v.2).2
  have hbound : s * s ≤ 25 := Nat.mul_le_mul hs' hs'
  rw [uint]
  omega

/-- Setting the values that are entered in some of the squares. -/
theorem represents_setFromSquareGadget (hs' : s ≤ 5)
    (hrange : InRange s pSquareGadgets) {p : ℕ}
    (squares : List (Coord s)) {mem : Memory}
    {m : Candidates (Coord s) (Value s)}
    (h : mem.Represents s [p] [] [m] []) :
    ∃ mem', squares.foldlM (fun mem c =>
        setFromSquareGadget p (s * s) pSquareGadgets mem c.1 c.2) mem =
        some mem' ∧
      mem'.Represents s [p] [] [mapStore.setSquares (visitOrder s)
        (squares.filterMap (clueAt pSquareGadgets)) m] [] := by
  induction squares generalizing mem m with
  | nil => exact ⟨mem, rfl, h⟩
  | cons c squares ih =>
      rw [List.foldlM_cons]
      change ∃ mem', (setFromSquareGadget p (s * s) pSquareGadgets mem c.1
        c.2).bind _ = _ ∧ _
      have hgadget : getSquareGadget pSquareGadgets (s * s) c.1 c.2 =
          gadgetAt pSquareGadgets c := rfl
      rw [setFromSquareGadget, hgadget]
      by_cases hzero : (gadgetAt pSquareGadgets c).si_LongInt = 0
      · have hclue : clueAt pSquareGadgets c = none := by
          rw [clueAt, dif_neg]
          rw [hzero]
          simp
        rw [if_neg (not_not.mpr hzero), Option.bind_some,
          List.filterMap_cons_none hclue]
        exact ih h
      · obtain ⟨v, hv⟩ := (hrange c).resolve_left hzero
        obtain ⟨mem₁, hset, h₁⟩ := h.setFrontValue c v
        rw [if_pos hzero, hv, uint_eq v hs', hset, Option.bind_some,
          List.filterMap_cons_some (clueAt_eq_some_iff.mpr ⟨rfl, hv⟩),
          CandidateStore.setSquares_cons]
        exact ih h₁

/-- The grid that is created has the map that the clues lead to, if there is
memory for it. -/
theorem represents_createGridFromSquareGadgets (hs : 2 ≤ s) (hs' : s ≤ 5)
    (hrange : InRange s pSquareGadgets) (fails : ℕ → Bool) (mallocs : ℕ) :
    (fails mallocs = true ∧ createGridFromSquareGadgets
        (Memory.noGrids mallocs) fails s pSquareGadgets =
      some (none, Memory.noGrids (mallocs + 1))) ∨
    ∃ p mem, createGridFromSquareGadgets (Memory.noGrids mallocs) fails s
        pSquareGadgets = some (some p, mem) ∧
      mem.Represents s [p] [] [mapStore.setSquares (visitOrder s)
        (clues s pSquareGadgets) fun _ => Finset.univ] [] := by
  rw [createGridFromSquareGadgets]
  rcases represents_createGrid hs hs' fails mallocs with
    ⟨hfails, hnone⟩ | ⟨p, mem, hsome, hrep⟩
  · left
    rw [hnone]
    exact ⟨hfails, rfl⟩
  · right
    obtain ⟨mem', hloops, hrep'⟩ := represents_setFromSquareGadget hs' hrange
      (rowMajor s).reverse hrep
    refine ⟨p, mem', ?_, hrep'⟩
    rw [hsome]
    dsimp only
    rw [foldlM_range_range_reverse, hloops]
    rfl

end SudokuSolver.Draco
