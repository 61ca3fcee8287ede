import SudokuSolver.Draco.Lines
import SudokuSolver.Draco.Reached
import SudokuSolver.Support.Deduction

/-!
# Refining a grid in Draco

`getDeducedValueAt` and `refineGrid` of `sudoku_solver.d`: laps over the squares
that end when no square has been decided since the last visit, or as soon as the
grid has become impossible.
-/

namespace SudokuSolver.Draco

open Propagation

variable {s : ℕ} {pGrid : Block}

/-- The condition of the loop of `getDeducedValueAt`, where the square has the
possibility. -/
def mustBeValue (pGrid : Block) (x y value : ℕ) : Option Bool := do
  let (byRow, _) ← mustBeValueByRow pGrid x y value
  if byRow then some true
  else
    let (byColumn, _) ← mustBeValueByColumn pGrid x y value
    if byColumn then some true
    else some (mustBeValueBySector pGrid x y value).1

/-- The loop of `getDeducedValueAt`, over the values that are left. -/
def deduceFrom (pGrid : Block) (x y : ℕ) : List ℕ → Option ℕ
  | [] => some 0
  | value :: values => do
      let deduced ←
        if squareHasPossibility pGrid x y value then
          mustBeValue pGrid x y value
        else some false
      if deduced then some value else deduceFrom pGrid x y values

/-- Zero if no value could be deduced. -/
def getDeducedValueAt (pGrid : Block) (x y : ℕ) : Option ℕ :=
  if getPossibilityCount pGrid x y > 1 then
    deduceFrom pGrid x y (List.range' 1 pGrid.g_dimension)
  else some 0

/-- One round of the loop of `refineGrid`, with the grid, the square and the
square at which the loop stops. -/
def refineSquare : Block × ℕ × ℕ × ℕ × ℕ →
    Option ((Block × ℕ × ℕ × ℕ × ℕ) ⊕ Block)
  | (pGrid, x, y, lastX, lastY) => do
      let value ← getDeducedValueAt pGrid x y
      let pGrid ← if value ≠ 0 then setValueAt pGrid x y value else some pGrid
      if value ≠ 0 ∧ !isPossible pGrid then some (.inr pGrid)
      else
        let (lastX, lastY) := if value ≠ 0 then (x, y) else (lastX, lastY)
        let (x, y) :=
          if x < pGrid.g_dimension - 1 then (x + 1, y)
          else (0, (y + 1) % pGrid.g_dimension)
        if x = lastX ∧ y = lastY then some (.inr pGrid)
        else some (.inl (pGrid, x, y, lastX, lastY))

def refineGrid (pGrid : Block) : Option Block :=
  loop refineSquare (pGrid, 0, 0, 0, 0)

/-! ## Deduced values -/

theorem mustBeValue_eq (h : Fits s pGrid) (c : Coord s) (v : Value s) :
    ∃ found, mustBeValue pGrid c.1 c.2 v.1 = some found ∧
      (found = true ↔ ∃ house : House s, c ∈ house.squares ∧
        ∀ d ∈ house.squares, d ≠ c → v ∉ pGrid.candidates s d) := by
  obtain ⟨byRow, _, hrow, hbyRow, -⟩ := mustBeValueByRow_exact h c v
  obtain ⟨byColumn, _, hcolumn, hbyColumn, -⟩ :=
    mustBeValueByColumn_exact h c v
  obtain ⟨hbySector, -⟩ := mustBeValueBySector_exact h c v
  have hhouse : (∃ house : House s, c ∈ house.squares ∧
      ∀ d ∈ house.squares, d ≠ c → v ∉ pGrid.candidates s d) ↔
      byRow = true ∨ byColumn = true ∨
        (mustBeValueBySector pGrid c.1 c.2 v.1).1 = true := by
    rw [exists_house_iff, hbyRow, hbyColumn, hbySector]
    simp only [mem_candidates, Bool.not_eq_true]
  rw [hhouse, mustBeValue, hrow]
  cases byRow with
  | true => exact ⟨true, rfl, by simp⟩
  | false =>
      simp only [Option.bind_eq_bind, Option.bind_some, hcolumn]
      cases byColumn with
      | true => exact ⟨true, rfl, by simp⟩
      | false => exact ⟨_, rfl, by simp⟩

/-- The first value in order that a house forces on a square. -/
noncomputable def mapDeducer (s : ℕ) :
    Deducer (mapStore (ι := Coord s) (V := Value s)) House.squares where
  deduce m c := by
    classical
    exact (oneTo s).find? fun p => Deducible House.squares m c p
  deduce_some h := by
    classical
    have hfound := List.find?_some h
    exact of_decide_eq_true hfound
  deduce_none h p := by
    classical
    have hnot := List.find?_eq_none.mp h p (mem_oneTo p)
    exact fun hded => hnot (decide_eq_true hded)

/-- The loop over the values visits them in ascending order. -/
theorem Fits.range'_eq (h : Fits s pGrid) :
    List.range' 1 pGrid.g_dimension = (oneTo s).map Subtype.val := by
  rw [h.dimension, List.range'_eq_map_range, oneTo, List.map_map,
    ← List.map_coe_finRange_eq_range, List.map_map]
  exact List.map_congr_left fun i _ => Nat.add_comm 1 i.1

/-- `getDeducedValueAt` finds what a search over the map finds. -/
theorem getDeducedValueAt_eq (h : Valid s pGrid) (c : Coord s) :
    getDeducedValueAt pGrid c.1 c.2 =
      some (((mapDeducer s).deduce (pGrid.candidates s) c).elim 0
        Subtype.val) := by
  classical
  have hcount : getPossibilityCount pGrid c.1 c.2 =
      (pGrid.candidates s c).card := h.simulates.getPossibilityCount c
  have hdeduce : (mapDeducer s).deduce (pGrid.candidates s) c =
      (oneTo s).find? fun p =>
        Deducible House.squares (pGrid.candidates s) c p := by
    rw [mapDeducer]
  rw [getDeducedValueAt, hcount, hdeduce, h.fits.range'_eq]
  by_cases hcard : 1 < (pGrid.candidates s c).card
  · rw [if_pos hcard]
    generalize oneTo s = values
    induction values with
    | nil => rfl
    | cons v values ih =>
        obtain ⟨found, hfound, hiff⟩ := mustBeValue_eq h.fits c v
        have hded : Deducible House.squares (pGrid.candidates s) c v ↔
            squareHasPossibility pGrid c.1 c.2 v.1 = true ∧ found = true := by
          rw [Deducible, hiff, mem_candidates]
          exact and_iff_right hcard
        rw [List.map_cons, deduceFrom, ih, hfound, List.find?_cons]
        by_cases hhas : squareHasPossibility pGrid c.1 c.2 v.1 = true
        · cases found with
          | true =>
              rw [if_pos hhas, decide_eq_true (hded.mpr ⟨hhas, rfl⟩)]
              rfl
          | false =>
              rw [if_pos hhas, decide_eq_false fun hd => by
                simpa using (hded.mp hd).2]
              rfl
        · rw [if_neg hhas, decide_eq_false fun hd => hhas (hded.mp hd).1]
          rfl
  · rw [if_neg hcard, List.find?_eq_none.mpr]
    · rfl
    · intro p _ hded
      exact hcard (of_decide_eq_true hded).1

/-! ## Laps -/

/-- No square of a map is empty. -/
noncomputable def mapIsPossible (m : Candidates (Coord s) (Value s)) : Bool := by
  classical
  exact decide (Live m)

theorem mapIsPossible_iff {m : Candidates (Coord s) (Value s)} :
    mapIsPossible m = true ↔ Live m := by
  classical
  rw [mapIsPossible, decide_eq_true_eq]

theorem Valid.isPossible_eq (h : Valid s pGrid) :
    isPossible pGrid = mapIsPossible (pGrid.candidates s) := by
  rw [Bool.eq_iff_iff, h.isPossible_iff, mapIsPossible_iff]
  exact forall_congr' fun c => Finset.nonempty_iff_ne_empty.symm

/-- The lap of `refineGrid` over a map. -/
noncomputable def refineMap (last : Option (Coord s)) (current : Coord s)
    (m : Candidates (Coord s) (Value s)) : Candidates (Coord s) (Value s) :=
  refineLap mapStore (visitOrder s) (mapDeducer s) (boardLap s) mapIsPossible
    last current m

/-- The indices of the next square. -/
theorem nextCoord_eq (c : Coord s) :
    (if c.1.1 < s * s - 1 then (c.1.1 + 1, c.2.1)
      else (0, (c.2.1 + 1) % (s * s))) =
      ((nextCoord c).1.1, (nextCoord c).2.1) := by
  have hx := c.1.isLt
  have hy := c.2.isLt
  rw [nextCoord]
  by_cases hlast : c.1.1 + 1 < s * s
  · rw [if_pos (by omega), dif_pos hlast]
  · rw [if_neg (by omega), dif_neg hlast]
    by_cases hbottom : c.2.1 + 1 < s * s
    · rw [dif_pos hbottom, Nat.mod_eq_of_lt hbottom]
    · have hend : c.2.1 + 1 = s * s := by omega
      rw [dif_neg hbottom, hend, Nat.mod_self]

/-- The end of an iteration: the loop is left at the square decided last, as the
lap is. -/
theorem returns_next (h : Valid s pGrid) {last : Option (Coord s)}
    (current lastCoord : Coord s) (hlast : last = some lastCoord)
    (hnext : last ≠ some (nextCoord current) →
      Returns s
        (loop refineSquare (pGrid, (nextCoord current).1.1,
          (nextCoord current).2.1, lastCoord.1.1, lastCoord.2.1))
        (refineMap last (nextCoord current) (pGrid.candidates s))) :
    Returns s
      ((let (x, y) :=
          if current.1.1 < pGrid.g_dimension - 1 then
            (current.1.1 + 1, current.2.1)
          else (0, (current.2.1 + 1) % pGrid.g_dimension)
        if x = lastCoord.1.1 ∧ y = lastCoord.2.1 then some (Sum.inr pGrid)
        else some (Sum.inl (pGrid, x, y, lastCoord.1.1, lastCoord.2.1))).bind
          (Sum.elim (loop refineSquare) some))
      (refineMap last (nextCoord current) (pGrid.candidates s)) := by
  rw [h.fits.dimension, nextCoord_eq]
  dsimp only
  by_cases hback : nextCoord current = lastCoord
  · have hstop : last = some (nextCoord current) := by rw [hlast, hback]
    rw [if_pos (by rw [hback]; exact ⟨rfl, rfl⟩), refineMap, refineLap,
      if_pos hstop]
    exact h.returns
  · rw [if_neg]
    · refine hnext fun heq => hback ?_
      exact (Option.some.inj (hlast.symm.trans heq)).symm
    · rintro ⟨hx, hy⟩
      exact hback (Prod.ext (Fin.ext hx) (Fin.ext hy))

/-- The loop returns what the lap over the map does. -/
theorem returns_loop_refineSquare (last : Option (Coord s)) (current : Coord s)
    {m : Candidates (Coord s) (Value s)} (h : Valid s pGrid)
    (hm : pGrid.candidates s = m) (hlast : last ≠ some current) :
    Returns s
      (loop refineSquare (pGrid, current.1.1, current.2.1,
        (last.getD current).1.1, (last.getD current).2.1))
      (refineMap last current m) := by
  have hpositive : ∀ v : Value s, v.1 ≠ 0 := fun v =>
    Nat.ne_of_gt (Finset.mem_Icc.mp v.2).1
  rw [refineMap]
  fun_induction refineLap mapStore (visitOrder s) (mapDeducer s) (boardLap s)
      mapIsPossible last current m generalizing pGrid with
  | case1 current m => exact absurd rfl hlast
  | case2 last current m _ v hdeduce hpossible ih =>
      subst hm
      obtain ⟨pNext, hset, hvalid, hnext⟩ := returns_setValueAt h current v
      rw [← hnext] at hpossible ih ⊢
      rw [loop_eq, refineSquare, getDeducedValueAt_eq h, hdeduce]
      simp only [Option.elim_some, Option.bind_eq_bind, Option.bind_some,
        if_pos (hpositive v), hset]
      rw [if_neg (by simp [hvalid.isPossible_eq, hpossible])]
      exact returns_next hvalid current current rfl (ih hvalid rfl)
  | case3 last current m _ v hdeduce hpossible =>
      subst hm
      obtain ⟨pNext, hset, hvalid, hnext⟩ := returns_setValueAt h current v
      rw [← hnext] at hpossible ⊢
      rw [loop_eq, refineSquare, getDeducedValueAt_eq h, hdeduce]
      simp only [Option.elim_some, Option.bind_eq_bind, Option.bind_some,
        if_pos (hpositive v), hset]
      rw [if_pos (by simpa [hvalid.isPossible_eq, hpositive v] using hpossible)]
      exact hvalid.returns
  | case4 last current m hlast' hdeduce ih =>
      subst hm
      rw [loop_eq, refineSquare, getDeducedValueAt_eq h, hdeduce]
      simp only [Option.elim_none, Option.bind_eq_bind, Option.bind_some,
        ne_eq, not_true_eq_false, if_false, false_and]
      cases last with
      | none => exact returns_next h current current rfl (ih h rfl)
      | some last => exact returns_next h current last rfl (ih h rfl)

/-- The square that a lap begins with. -/
def Fits.origin (h : Fits s pGrid) : Coord s :=
  (⟨0, Nat.lt_of_lt_of_le (by decide) h.area_pos⟩,
    ⟨0, Nat.lt_of_lt_of_le (by decide) h.area_pos⟩)

theorem returns_refineGrid (h : Valid s pGrid) :
    Returns s (refineGrid pGrid)
      (refineMap none h.fits.origin (pGrid.candidates s)) :=
  returns_loop_refineSquare none h.fits.origin h rfl (by simp)

/-- Refining a grid is drawing deductions from its map; what is settled stays
settled, and where no square becomes empty nothing is left to deduce. -/
theorem Valid.refineGrid (h : Valid s pGrid) :
    ∃ pNext, refineGrid pGrid = some pNext ∧ Valid s pNext ∧
      Deduces Peer House.squares (pGrid.candidates s) (pNext.candidates s) ∧
      (Closed Peer (pGrid.candidates s) → Closed Peer (pNext.candidates s)) ∧
      (Live (pNext.candidates s) →
        Exhausted House.squares (pNext.candidates s)) := by
  obtain ⟨pNext, hnext, hvalid, hm⟩ := returns_refineGrid h
  refine ⟨pNext, hnext, hvalid, ?_, ?_, ?_⟩
  · rw [hm]
    exact deduces_refineLap mapStore (visitOrder s) (mapDeducer s) (boardLap s)
      mapIsPossible none _ _
  · intro hclosed
    rw [hm]
    exact closed_refineLap mapStore (visitOrder s) (mapDeducer s) (boardLap s)
      mapIsPossible none _ _ hclosed
  · intro hlive
    rw [hm] at hlive ⊢
    exact exhausted_refineLap_none mapStore (visitOrder s) (mapDeducer s)
      (boardLap s) mapIsPossible (fun _ => mapIsPossible_iff) _ _ hlive

/-- `refineGrid` ends with a grid that is impossible or in which no square has a
value to deduce, and it adds no possibility. -/
theorem refineGrid_fixpoint (h : Valid s pGrid) :
    ∃ pNext, refineGrid pGrid = some pNext ∧
      (isPossible pNext = false ∨
        ∀ c : Coord s, getDeducedValueAt pNext c.1 c.2 = some 0) ∧
      ∀ (c : Coord s) (v : Value s),
        squareHasPossibility pNext c.1 c.2 v.1 = true →
          squareHasPossibility pGrid c.1 c.2 v.1 = true := by
  obtain ⟨pNext, hnext, hvalid, hdeduces, -, hexhausted⟩ := h.refineGrid
  refine ⟨pNext, hnext, ?_, fun c v hv => ?_⟩
  · rw [hvalid.isPossible_eq, or_iff_not_imp_left, Bool.not_eq_false,
      mapIsPossible_iff]
    intro hlive c
    rw [getDeducedValueAt_eq hvalid]
    cases hdeduce : (mapDeducer s).deduce (pNext.candidates s) c with
    | none => rfl
    | some p =>
        exact absurd ((mapDeducer s).deduce_some hdeduce)
          (hexhausted hlive c p)
  · exact mem_candidates.mp (hdeduces.le c (mem_candidates.mpr hv))

/-- The values that have been written into the first row leave one for its first
square, which still has all possibilities. -/
theorem refineGrid_fixpoint_row :
    ∃ pNew pNext, createGrid 2 = some pNew ∧
      refineGrid (setSquareValue (setSquareValue (setSquareValue pNew 1 0 2)
        2 0 3) 3 0 4) = some pNext ∧
      isPossible pNext = true ∧
      (∀ c : Coord 2, getDeducedValueAt pNext c.1 c.2 = some 0) ∧
      ∀ v : Value 2, squareHasPossibility pNext 0 0 v.1 = true → v.1 = 1 := by
  obtain ⟨pNew, hcreate, -⟩ := createGrid_ok (s := 2) (by decide) (by decide)
  refine ⟨pNew, ?_⟩
  have htwo : Reached 2 (setSquareValue pNew 1 0 2) _ :=
    (Reached.createGrid hcreate).setSquareValue (1, 0) ⟨2, by decide⟩
  have hthree : Reached 2 (setSquareValue (setSquareValue pNew 1 0 2) 2 0 3) _ :=
    htwo.setSquareValue (2, 0) ⟨3, by decide⟩
  have hfour : Reached 2 (setSquareValue (setSquareValue
      (setSquareValue pNew 1 0 2) 2 0 3) 3 0 4) _ :=
    hthree.setSquareValue (3, 0) ⟨4, by decide⟩
  generalize setSquareValue (setSquareValue (setSquareValue pNew 1 0 2)
    2 0 3) 3 0 4 = pGrid at hfour ⊢
  obtain ⟨hvalid, hm⟩ := hfour.valid (by decide) (by decide)
  obtain ⟨pNext, hnext, hfixpoint, hle⟩ := refineGrid_fixpoint hvalid
  obtain ⟨pNext', hnext', hvalidNext, hdeduces, -, hexhausted⟩ :=
    hvalid.refineGrid
  cases hnext.symm.trans hnext'
  -- a completion with the three values is left
  have hadmits : Admits (pNext.candidates 2) smallCompletion := by
    apply hdeduces.admits completes_smallCompletion.1.fills
      fun c => Finset.subset_univ _
    rw [hm, Admits]
    decide +kernel
  have hpossible : isPossible pNext = true := by
    rw [hvalidNext.isPossible_eq, mapIsPossible_iff]
    exact hadmits.live
  have hdone := hfixpoint.resolve_left (by rw [hpossible]; decide)
  refine ⟨pNext, hcreate, hnext, hpossible, hdone, fun v hv => ?_⟩
  -- with another possibility there were a value to deduce
  by_contra hne
  apply hexhausted hadmits.live (0, 0) ⟨1, by decide⟩
  refine ⟨Finset.one_lt_card.mpr ⟨v, mem_candidates.mpr hv, _, hadmits (0, 0),
    fun heq => hne (congrArg Subtype.val heq)⟩, hadmits (0, 0), House.row 0,
    by simp, fun d hd hdne hone => ?_⟩
  have hmem := mem_candidates.mpr (hle d ⟨1, by decide⟩ (mem_candidates.mp hone))
  have hnot : ∀ d : Coord 2, d.2 = 0 → d ≠ (0, 0) →
      (⟨1, by decide⟩ : Value 2) ∉ decideAt (decideAt (decideAt
        (fun _ => Finset.univ) (1, 0) ⟨2, by decide⟩) (2, 0) ⟨3, by decide⟩)
          (3, 0) ⟨4, by decide⟩ d := by
    decide +kernel
  rw [hm] at hmem
  exact hnot d (by simpa using hd) hdne hmem

end SudokuSolver.Draco
