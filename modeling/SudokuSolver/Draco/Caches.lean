import Mathlib.Tactic.IntervalCases
import SudokuSolver.Draco.Grid
import SudokuSolver.Support.Cascade

/-!
# The caches of a Draco grid

For every square its count and its only value are kept, and for the whole grid
the number of squares without possibilities and of squares that do not have
exactly one.  Setting a square and removing a possibility that is there keep all
four in agreement with the bits.
-/

namespace SudokuSolver.Draco

open Propagation

variable {s : ℕ} {pGrid : Block}

/-- The caches of a block agree with the bits of its packs. -/
structure Valid (s : ℕ) (pGrid : Block) : Prop where
  fits : Fits s pGrid
  count : ∀ c : Coord s,
    (pGrid.byteOf c 0).toNat = (pGrid.candidates s c).card
  value_of_one : ∀ (c : Coord s) v, pGrid.candidates s c = {v} →
    (pGrid.byteOf c 1).toNat = v.1
  value_of_not_one : ∀ c : Coord s, (pGrid.candidates s c).card ≠ 1 →
    (pGrid.byteOf c 1).toNat = 0
  impossible : pGrid.gc_impossibleSquares.toNat =
    (Finset.univ.filter fun c => pGrid.candidates s c = ∅).card
  incomplete : pGrid.gc_incompleteSquares.toNat =
    (Finset.univ.filter fun c => (pGrid.candidates s c).card ≠ 1).card

/-! ## The possibilities after a write -/

theorem getLsbD_mask (value : ℕ) (i : ℕ) :
    (1#8 <<< bitIndex value).getLsbD i = decide (bitIndex value = i) := by
  rw [← BitVec.twoPow_eq, BitVec.getLsbD_twoPow]
  simp [bitIndex_lt]

theorem fits_setSquareValue (h : Fits s pGrid) (x y value : ℕ) :
    Fits s (setSquareValue pGrid x y value) :=
  ⟨h.two_le, h.sectorDimension, h.dimension, h.squareSize, h.totalSize, h.words⟩

theorem candidates_setSquareValue (h : Fits s pGrid) (c : Coord s)
    (v : Value s) :
    (setSquareValue pGrid c.1 c.2 v.1).candidates s =
      decideAt (pGrid.candidates s) c v := by
  funext d
  ext w
  rw [mem_candidates, squareHasPossibility_eq (fits_setSquareValue h _ _ _),
    byteOf_setSquareValue h c d v (packIndex_lt h w)]
  by_cases hdc : d = c
  · subst hdc
    have h0 : SQUARE_POSSIBILITY_PACK + packIndex w.1 ≠ 0 := by
      simp [SQUARE_POSSIBILITY_PACK]
    have h1 : SQUARE_POSSIBILITY_PACK + packIndex w.1 ≠ 1 := by
      rw [SQUARE_POSSIBILITY_PACK]
      omega
    rw [if_pos rfl, if_neg h0, if_neg h1, decideAt_self, Finset.mem_singleton]
    by_cases hpack : packIndex w.1 = packIndex v.1
    · rw [if_pos (by rw [hpack]), getLsbD_mask, decide_eq_true_eq]
      constructor
      · intro hbit
        exact bit_inj h hpack hbit.symm
      · rintro rfl
        rfl
    · rw [if_neg (by omega)]
      refine iff_of_false (by simp) ?_
      rintro rfl
      exact hpack rfl
  · rw [if_neg hdc, decideAt_of_ne _ hdc, mem_candidates,
      squareHasPossibility_eq h]

theorem fits_clearPossibility (h : Fits s pGrid) (x y value : ℕ) :
    Fits s (clearPossibility pGrid x y value) :=
  ⟨h.two_le, h.sectorDimension, h.dimension, h.squareSize, h.totalSize, h.words⟩

theorem candidates_clearPossibility (h : Fits s pGrid) (c : Coord s)
    (v : Value s) :
    (clearPossibility pGrid c.1 c.2 v.1).candidates s =
      eraseAt (pGrid.candidates s) c v := by
  funext d
  ext w
  rw [mem_candidates, squareHasPossibility_eq (fits_clearPossibility h _ _ _),
    byteOf_clearPossibility h c d v (packIndex_lt h w)]
  by_cases hdc : d = c
  · subst hdc
    have h0 : SQUARE_POSSIBILITY_PACK + packIndex w.1 ≠ 0 := by
      simp [SQUARE_POSSIBILITY_PACK]
    rw [if_pos rfl, if_neg h0, eraseAt_self, Finset.mem_erase, mem_candidates,
      squareHasPossibility_eq h]
    by_cases hpack : packIndex w.1 = packIndex v.1
    · rw [if_pos (by rw [hpack]), BitVec.getLsbD_and, BitVec.getLsbD_not,
        getLsbD_mask, Bool.and_eq_true]
      have hbit : (decide (bitIndex w.1 < 8) &&
          !decide (bitIndex v.1 = bitIndex w.1)) = true ↔ w ≠ v := by
        rw [Bool.and_eq_true, decide_eq_true_eq, Bool.not_eq_true',
          decide_eq_false_iff_not, and_iff_right (bitIndex_lt w.1)]
        refine not_congr ⟨fun hbit => bit_inj h hpack hbit.symm, ?_⟩
        rintro rfl
        rfl
      rw [hbit, and_comm]
    · rw [if_neg (by omega)]
      refine (and_iff_right ?_).symm
      rintro rfl
      exact hpack rfl
  · rw [if_neg hdc, eraseAt_of_ne _ hdc, mem_candidates,
      squareHasPossibility_eq h]

/-! ## The numbers in the caches -/

theorem Fits.area_lt (h : Fits s pGrid) : s * s * (s * s) < 2 ^ 16 := by
  have hwords := h.words
  have hmul : s * s * (s * s) * 1 ≤
      (s * s * (s * s) + s * s) * pGrid.gc_squareSize :=
    Nat.mul_le_mul (Nat.le_add_right _ _) (by
      have hpos := h.squareSize_pos
      omega)
  omega

/-- A number of squares is a word. -/
theorem Fits.card_filter_lt (h : Fits s pGrid) (P : Coord s → Prop)
    [DecidablePred P] : (Finset.univ.filter P).card < 2 ^ 16 := by
  refine (Finset.card_filter_le _ _).trans_lt ?_
  rw [Finset.card_univ, Fintype.card_prod, Fintype.card_fin]
  exact h.area_lt

theorem toNat_sub_one {word : BitVec 16} {n : ℕ} (h : word.toNat = n + 1) :
    (word - 1).toNat = n := by
  bv_omega

theorem toNat_add_one {word : BitVec 16} {n : ℕ} (h : word.toNat + 1 = n)
    (hn : n < 2 ^ 16) : (word + 1).toNat = n := by
  bv_omega

theorem Valid.count_eq_zero_iff (h : Valid s pGrid) (c : Coord s) :
    pGrid.byteOf c 0 = 0 ↔ pGrid.candidates s c = ∅ := by
  rw [← Finset.card_eq_zero, ← h.count c]
  exact BitVec.toNat_eq

theorem Valid.count_eq_one_iff (h : Valid s pGrid) (c : Coord s) :
    pGrid.byteOf c 0 = 1 ↔ (pGrid.candidates s c).card = 1 := by
  rw [← h.count c]
  exact BitVec.toNat_eq

/-! ## Setting a square -/

/-- Counting one square less where the square that is set was one of the squares
that are counted. -/
theorem toNat_decideAt (P : Finset (Value s) → Prop) [DecidablePred P]
    {m : Candidates (Coord s) (Value s)} {word : BitVec 16}
    (hword : word.toNat = (Finset.univ.filter fun d => P (m d)).card)
    (c : Coord s) {v : Value s} (hv : ¬P {v}) :
    (if P (m c) then word - 1 else word).toNat =
      (Finset.univ.filter fun d => P (decideAt m c v d)).card := by
  have hnumber := card_filter_update P m c {v}
  rw [if_neg hv, Nat.add_zero] at hnumber
  by_cases hP : P (m c)
  · rw [if_pos hP] at hnumber ⊢
    exact toNat_sub_one (hword.trans hnumber.symm)
  · rw [if_neg hP, Nat.add_zero] at hnumber
    rw [if_neg hP]
    exact hword.trans hnumber.symm

theorem Valid.setSquareValue (h : Valid s pGrid) (c : Coord s) (v : Value s) :
    Valid s (setSquareValue pGrid c.1 c.2 v.1) := by
  have hpos := h.fits.squareSize_pos
  have hcandidates := candidates_setSquareValue h.fits c v
  have hpointer : pGrid.bytes (getSquarePointer pGrid c.1 c.2) =
      pGrid.byteOf c 0 := by
    rw [getSquarePointer, getSquareOffset_eq h.fits c (Nat.zero_le _)]
    rfl
  constructor
  · exact fits_setSquareValue h.fits _ _ _
  · intro d
    rw [byteOf_setSquareValue h.fits c d v (by omega), hcandidates]
    by_cases hdc : d = c
    · subst hdc
      rw [if_pos rfl, if_pos rfl, decideAt_self, Finset.card_singleton]
      rfl
    · rw [if_neg hdc, decideAt_of_ne _ hdc]
      exact h.count d
  · intro d w hw
    rw [hcandidates] at hw
    rw [byteOf_setSquareValue h.fits c d v (by omega)]
    by_cases hdc : d = c
    · subst hdc
      rw [decideAt_self] at hw
      rw [if_pos rfl, if_neg (by decide), if_pos rfl, BitVec.toNat_ofNat,
        Nat.mod_eq_of_lt (h.fits.value_lt v), Finset.singleton_injective hw]
    · rw [decideAt_of_ne _ hdc] at hw
      rw [if_neg hdc]
      exact h.value_of_one d w hw
  · intro d hd
    rw [hcandidates] at hd
    rw [byteOf_setSquareValue h.fits c d v (by omega)]
    by_cases hdc : d = c
    · subst hdc
      rw [decideAt_self, Finset.card_singleton] at hd
      exact absurd rfl hd
    · rw [decideAt_of_ne _ hdc] at hd
      rw [if_neg hdc]
      exact h.value_of_not_one d hd
  · rw [hcandidates]
    change (if pGrid.bytes (getSquarePointer pGrid c.1 c.2) = 0 then
      pGrid.gc_impossibleSquares - 1 else pGrid.gc_impossibleSquares).toNat = _
    rw [hpointer, if_congr (h.count_eq_zero_iff c) rfl rfl]
    exact toNat_decideAt (fun values => values = ∅) h.impossible c
      (Finset.singleton_ne_empty v)
  · rw [hcandidates]
    change (if pGrid.bytes (getSquarePointer pGrid c.1 c.2) ≠ 1 then
      pGrid.gc_incompleteSquares - 1 else pGrid.gc_incompleteSquares).toNat = _
    rw [hpointer, if_congr (not_congr (h.count_eq_one_iff c)) rfl rfl]
    exact toNat_decideAt (fun values => values.card ≠ 1) h.incomplete c
      (not_not_intro (Finset.card_singleton v))

/-! ## Removing a possibility -/

/-- The value of a square with one possibility. -/
theorem getSquareValueImpl_eq (h : Fits s pGrid) {c : Coord s} {v : Value s}
    (hc : pGrid.candidates s c = {v}) :
    getSquareValueImpl pGrid c.1 c.2 = v.1 := by
  obtain ⟨hpos, hle⟩ := Finset.mem_Icc.mp v.2
  have hhas : ∀ p ∈ List.range' 1 (pGrid.g_dimension - 1),
      squareHasPossibility pGrid c.1 c.2 p = true ↔ p = v.1 := by
    intro p hp
    rw [List.mem_range'_1, h.dimension] at hp
    have hmem : p ∈ Finset.Icc 1 (s * s) := by
      rw [Finset.mem_Icc]
      omega
    have hiff : (⟨p, hmem⟩ : Value s) ∈ pGrid.candidates s c ↔ _ :=
      mem_candidates
    rw [← hiff, hc, Finset.mem_singleton, Subtype.ext_iff]
  rw [getSquareValueImpl]
  cases hfind : (List.range' 1 (pGrid.g_dimension - 1)).find? fun possibility =>
      squareHasPossibility pGrid c.1 c.2 possibility with
  | some p =>
      have hp := (hhas p (List.mem_of_find?_eq_some hfind)).mp
        (List.find?_some hfind)
      exact hp
  | none =>
      rw [List.find?_eq_none] at hfind
      rw [Option.getD_none, h.dimension]
      by_contra hne
      have hmem : v.1 ∈ List.range' 1 (pGrid.g_dimension - 1) := by
        rw [List.mem_range'_1, h.dimension]
        omega
      exact hfind v.1 hmem ((hhas v.1 hmem).mpr rfl)

/-- A block with another value in the cache of a square and other numbers in the
cache of the grid. -/
def recache (pGrid : Block) (c : Coord s) (value : BitVec 8)
    (impossible incomplete : BitVec 16) : Block :=
  { pGrid with
    bytes := poke pGrid.bytes (address pGrid c 1) value
    gc_impossibleSquares := impossible
    gc_incompleteSquares := incomplete }

section Recache

variable (c : Coord s) (value : BitVec 8) (impossible incomplete : BitVec 16)

theorem fits_recache (h : Fits s pGrid) :
    Fits s (recache pGrid c value impossible incomplete) :=
  ⟨h.two_le, h.sectorDimension, h.dimension, h.squareSize, h.totalSize, h.words⟩

theorem byteOf_recache (h : Fits s pGrid) (d : Coord s) {j : ℕ}
    (hj : j < pGrid.gc_squareSize) :
    (recache pGrid c value impossible incomplete).byteOf d j =
      if d = c ∧ j = 1 then value else pGrid.byteOf d j := by
  have hpos := h.squareSize_pos
  have hone : 1 < pGrid.gc_squareSize := by omega
  exact poke_address hone hj

theorem candidates_recache (h : Fits s pGrid) :
    (recache pGrid c value impossible incomplete).candidates s =
      pGrid.candidates s := by
  refine candidates_congr h (fits_recache c value impossible incomplete h) ?_
  intro d i hi hlt
  rw [byteOf_recache c value impossible incomplete h d hlt, if_neg]
  rintro ⟨-, rfl⟩
  exact absurd hi (by decide)

end Recache

/-- A block in which a possibility has been cleared is valid again once the
value of the square and the numbers of the grid have been brought up to date. -/
theorem Valid.recache_cleared (h : Valid s pGrid) {c : Coord s} {v : Value s}
    (hv : v ∈ pGrid.candidates s c) {value : BitVec 8}
    {impossible incomplete : BitVec 16}
    (hone : ∀ w, (pGrid.candidates s c).erase v = {w} → value.toNat = w.1)
    (hnotone : ((pGrid.candidates s c).erase v).card ≠ 1 → value.toNat = 0)
    (himpossible : impossible.toNat = (Finset.univ.filter fun d =>
      eraseAt (pGrid.candidates s) c v d = ∅).card)
    (hincomplete : incomplete.toNat = (Finset.univ.filter fun d =>
      (eraseAt (pGrid.candidates s) c v d).card ≠ 1).card) :
    Valid s (recache (clearPossibility pGrid c.1 c.2 v.1) c value impossible
      incomplete) := by
  have hpos := h.fits.squareSize_pos
  have hcleared := fits_clearPossibility h.fits c.1 c.2 v.1
  have hcandidates :=
    (candidates_recache c value impossible incomplete hcleared).trans
      (candidates_clearPossibility h.fits c v)
  have hbyte := fun (d : Coord s) {j : ℕ} (hj : j < pGrid.gc_squareSize) =>
    byteOf_recache c value impossible incomplete hcleared d hj
  constructor
  · exact fits_recache c value impossible incomplete hcleared
  · intro d
    rw [hbyte d (by omega), if_neg (by simp),
      byteOf_clearPossibility h.fits c d v (by omega), hcandidates]
    by_cases hdc : d = c
    · subst hdc
      have hcard := Finset.card_erase_add_one hv
      have hcount := h.count d
      rw [if_pos rfl, if_pos rfl, eraseAt_self]
      bv_omega
    · rw [if_neg hdc, eraseAt_of_ne _ hdc]
      exact h.count d
  · intro d w hw
    rw [hcandidates] at hw
    rw [hbyte d (by omega)]
    by_cases hdc : d = c
    · subst hdc
      rw [eraseAt_self] at hw
      rw [if_pos ⟨rfl, rfl⟩]
      exact hone w hw
    · rw [eraseAt_of_ne _ hdc] at hw
      rw [if_neg (fun heq => hdc heq.1),
        byteOf_clearPossibility h.fits c d v (by omega), if_neg hdc]
      exact h.value_of_one d w hw
  · intro d hd
    rw [hcandidates] at hd
    rw [hbyte d (by omega)]
    by_cases hdc : d = c
    · subst hdc
      rw [eraseAt_self] at hd
      rw [if_pos ⟨rfl, rfl⟩]
      exact hnotone hd
    · rw [eraseAt_of_ne _ hdc] at hd
      rw [if_neg (fun heq => hdc heq.1),
        byteOf_clearPossibility h.fits c d v (by omega), if_neg hdc]
      exact h.value_of_not_one d hd
  · rw [hcandidates]
    exact himpossible
  · rw [hcandidates]
    exact hincomplete

/-- What `removeSquarePossibility` puts into the caches, by the number of
possibilities that are left. -/
theorem removeSquarePossibility_recache (h : Valid s pGrid) {c : Coord s}
    {v : Value s} (hv : v ∈ pGrid.candidates s c) :
    removeSquarePossibility pGrid c.1 c.2 v.1 =
      let pCleared := clearPossibility pGrid c.1 c.2 v.1
      let left := ((pGrid.candidates s c).erase v).card
      if left = 0 then
        recache pCleared c 0 (pGrid.gc_impossibleSquares + 1)
          (pGrid.gc_incompleteSquares + 1)
      else if left = 1 then
        recache pCleared c
          (BitVec.ofNat 8 (getSquareValueImpl pCleared c.1 c.2))
          pGrid.gc_impossibleSquares (pGrid.gc_incompleteSquares - 1)
      else
        recache pCleared c (pGrid.byteOf c 1) pGrid.gc_impossibleSquares
          pGrid.gc_incompleteSquares := by
  have hpos := h.fits.squareSize_pos
  have hpointer : getSquarePointer pGrid c.1 c.2 = address pGrid c 0 :=
    getSquareOffset_eq h.fits c (Nat.zero_le _)
  have hleft : ((clearPossibility pGrid c.1 c.2 v.1).bytes
      (address pGrid c 0)).toNat = ((pGrid.candidates s c).erase v).card := by
    have hcard := Finset.card_erase_add_one hv
    have hcount := h.count c
    have hbyte := byteOf_clearPossibility h.fits c c v (j := 0) (by omega)
    rw [if_pos rfl, if_pos rfl] at hbyte
    rw [← Nat.add_right_cancel_iff (n := 1), hcard, ← hcount]
    change ((clearPossibility pGrid c.1 c.2 v.1).byteOf c 0).toNat + 1 = _
    rw [hbyte]
    bv_omega
  have hzero : (clearPossibility pGrid c.1 c.2 v.1).bytes (address pGrid c 0) =
      0 ↔ ((pGrid.candidates s c).erase v).card = 0 := by
    rw [← hleft]
    exact BitVec.toNat_eq
  have hone : (clearPossibility pGrid c.1 c.2 v.1).bytes (address pGrid c 0) =
      1 ↔ ((pGrid.candidates s c).erase v).card = 1 := by
    rw [← hleft]
    exact BitVec.toNat_eq
  have hsame : (clearPossibility pGrid c.1 c.2 v.1).bytes (address pGrid c 1) =
      pGrid.byteOf c 1 := by
    have hbyte := byteOf_clearPossibility h.fits c c v (j := 1) (by omega)
    have hne : 1 ≠ SQUARE_POSSIBILITY_PACK + packIndex v.1 := by
      rw [SQUARE_POSSIBILITY_PACK]
      omega
    rwa [if_pos rfl, if_neg (by decide), if_neg hne] at hbyte
  rw [removeSquarePossibility_eq]
  simp only [hpointer, address_add, hzero, hone]
  split_ifs
  · rfl
  · rfl
  · rw [recache, ← hsame, poke]
    exact (congrArg (fun bytes => { clearPossibility pGrid c.1 c.2 v.1 with
      bytes := bytes }) (Function.update_eq_self _ _)).symm

/-- Removing a possibility that a square has. -/
theorem Valid.removeSquarePossibility (h : Valid s pGrid) {c : Coord s}
    {v : Value s} (hv : v ∈ pGrid.candidates s c) :
    Valid s (removeSquarePossibility pGrid c.1 c.2 v.1) ∧
      (removeSquarePossibility pGrid c.1 c.2 v.1).candidates s =
        eraseAt (pGrid.candidates s) c v := by
  have hcard := Finset.card_erase_add_one hv
  have hcleared := fits_clearPossibility h.fits c.1 c.2 v.1
  have hcandidates := candidates_clearPossibility h.fits c v
  have hempty := card_filter_update (fun values => values = ∅)
    (pGrid.candidates s) c ((pGrid.candidates s c).erase v)
  have hopen := card_filter_update (fun values => values.card ≠ 1)
    (pGrid.candidates s) c ((pGrid.candidates s c).erase v)
  rw [if_neg (Finset.ne_empty_of_mem hv), Nat.add_zero, ← h.impossible]
    at hempty
  rw [← h.incomplete] at hopen
  have hlt := h.fits.card_filter_lt fun d =>
    eraseAt (pGrid.candidates s) c v d = ∅
  have hlt' := h.fits.card_filter_lt fun d =>
    (eraseAt (pGrid.candidates s) c v d).card ≠ 1
  rw [removeSquarePossibility_recache h hv]
  dsimp only
  split_ifs with hzero hone
  · refine ⟨h.recache_cleared hv ?_ (fun _ => rfl) ?_ ?_, ?_⟩
    · intro w hw
      rw [hw, Finset.card_singleton] at hzero
      exact absurd hzero one_ne_zero
    · rw [if_pos (Finset.card_eq_zero.mp hzero)] at hempty
      exact toNat_add_one hempty.symm hlt
    · rw [if_neg (by omega), if_pos (by omega)] at hopen
      exact toNat_add_one hopen.symm hlt'
    · exact (candidates_recache _ _ _ _ hcleared).trans hcandidates
  · refine ⟨h.recache_cleared hv ?_ (fun hnot => absurd hone hnot) ?_ ?_, ?_⟩
    · intro w hw
      have hw' : (clearPossibility pGrid c.1 c.2 v.1).candidates s c = {w} := by
        rw [hcandidates, eraseAt_self, hw]
      rw [getSquareValueImpl_eq hcleared hw', BitVec.toNat_ofNat,
        Nat.mod_eq_of_lt (h.fits.value_lt w)]
    · rw [if_neg (mt Finset.card_eq_zero.mpr hzero)] at hempty
      exact hempty.symm
    · rw [if_pos (by omega), if_neg (by omega)] at hopen
      exact toNat_sub_one hopen.symm
    · exact (candidates_recache _ _ _ _ hcleared).trans hcandidates
  · refine ⟨h.recache_cleared hv ?_ (fun _ => ?_) ?_ ?_, ?_⟩
    · intro w hw
      rw [hw, Finset.card_singleton] at hone
      exact absurd rfl hone
    · exact h.value_of_not_one c (by omega)
    · rw [if_neg (mt Finset.card_eq_zero.mpr hzero)] at hempty
      exact hempty.symm
    · rw [if_pos (by omega), if_pos (by omega)] at hopen
      exact (Nat.add_right_cancel hopen).symm
    · exact (candidates_recache _ _ _ _ hcleared).trans hcandidates

/-! ## New grids and copies -/

theorem fits_initSquare (h : Fits s pGrid) (dimension x y : ℕ) :
    Fits s (initSquare dimension pGrid x y) :=
  ⟨h.two_le, h.sectorDimension, h.dimension, h.squareSize, h.totalSize, h.words⟩

theorem byteOf_initSquare (h : Fits s pGrid) (dimension : ℕ) (c d : Coord s)
    {j : ℕ} (hj : j < pGrid.gc_squareSize) :
    (initSquare dimension pGrid c.1 c.2).byteOf d j =
      if d = c ∧ j = 1 then 0
      else if d = c ∧ j = 0 then BitVec.ofNat 8 dimension
      else pGrid.byteOf d j := by
  have hpos := h.squareSize_pos
  have hzero : 0 < pGrid.gc_squareSize := by omega
  have hone : 1 < pGrid.gc_squareSize := by omega
  change poke _ _ _ (address pGrid d j) = _
  rw [getSquarePointer, getSquareOffset_eq h c (Nat.zero_le _), address_add,
    poke_address hone hj, poke_address hzero hj]
  rfl

/-- The loops of `createGrid` write the caches of the squares they visit. -/
theorem foldl_initSquare (h : Fits s pGrid) (dimension : ℕ)
    (squares : List (Coord s)) :
    ∃ pNew, squares.foldl (fun pGrid c => initSquare dimension pGrid c.1 c.2)
        pGrid = pNew ∧ Fits s pNew ∧
      pNew.gc_impossibleSquares = pGrid.gc_impossibleSquares ∧
      pNew.gc_incompleteSquares = pGrid.gc_incompleteSquares ∧
      ∀ (d : Coord s) {j : ℕ}, j < pNew.gc_squareSize → pNew.byteOf d j =
        if d ∈ squares ∧ j = 1 then 0
        else if d ∈ squares ∧ j = 0 then BitVec.ofNat 8 dimension
        else pGrid.byteOf d j := by
  induction squares generalizing pGrid with
  | nil => exact ⟨pGrid, rfl, h, rfl, rfl, by simp⟩
  | cons c squares ih =>
      obtain ⟨pNew, hnew, hfits, himpossible, hincomplete, hbyte⟩ :=
        ih (fits_initSquare h dimension c.1 c.2)
      refine ⟨pNew, hnew, hfits, himpossible, hincomplete, ?_⟩
      intro d j hj
      have hsize : pNew.gc_squareSize = pGrid.gc_squareSize :=
        hfits.squareSize.trans h.squareSize.symm
      rw [hbyte d hj, byteOf_initSquare h dimension c d (hsize ▸ hj)]
      simp only [List.mem_cons]
      split_ifs <;> grind

theorem fits_fillGrid (hs : 2 ≤ s) (hs' : s ≤ 5) : Fits s (fillGrid s) := by
  refine ⟨hs, rfl, rfl, rfl, Nat.le_add_right _ _, ?_⟩
  interval_cases s <;> decide

theorem byteOf_fillGrid (hs : 2 ≤ s) (hs' : s ≤ 5) (c : Coord s) {j : ℕ}
    (hj : j < (fillGrid s).gc_squareSize) : (fillGrid s).byteOf c j = 0xff := by
  have hlt := address_lt (fits_fillGrid hs hs') c hj
  refine if_pos ⟨?_, ?_⟩
  · rw [address]
    omega
  · change address (fillGrid s) c j <
      SQUARES_OFFSET + ((fillGrid s).gc_totalSize - SQUARES_OFFSET)
    omega

/-- A new grid has all possibilities in every square. -/
theorem createGrid_ok (hs : 2 ≤ s) (hs' : s ≤ 5) :
    ∃ pGrid, createGrid s = some pGrid ∧ Valid s pGrid ∧
      pGrid.candidates s = fun _ => Finset.univ := by
  obtain ⟨pNew, hnew, hfits, himpossible, hincomplete, hbyte⟩ :=
    foldl_initSquare (fits_fillGrid hs hs') (s * s) (rowMajor s)
  have hpos := hfits.squareSize_pos
  have harea := hfits.area_pos
  have hcreate : createGrid s = some pNew := by
    rw [createGrid, if_neg (by omega), ← hnew]
    exact congrArg some (foldl_range_range _ _)
  have hbyte' : ∀ (c : Coord s) {j : ℕ}, j < pNew.gc_squareSize →
      pNew.byteOf c j = if j = 1 then 0
        else if j = 0 then BitVec.ofNat 8 (s * s) else 0xff := by
    intro c j hj
    have hsize : pNew.gc_squareSize = (fillGrid s).gc_squareSize :=
      hfits.squareSize
    rw [hbyte c hj, byteOf_fillGrid hs hs' c (hsize ▸ hj)]
    simp only [mem_rowMajor, true_and]
  have hall : pNew.candidates s = fun _ => Finset.univ := by
    funext c
    ext v
    have hne : SQUARE_POSSIBILITY_PACK + packIndex v.1 ≠ 1 ∧
        SQUARE_POSSIBILITY_PACK + packIndex v.1 ≠ 0 := by
      rw [SQUARE_POSSIBILITY_PACK]
      omega
    have hfull : ∀ i < 8, (0xff : BitVec 8).getLsbD i = true := by decide
    rw [mem_candidates, squareHasPossibility_eq hfits,
      hbyte' c (packIndex_lt hfits v), if_neg hne.1, if_neg hne.2]
    exact iff_of_true (hfull _ (bitIndex_lt _)) (Finset.mem_univ v)
  have hcard : ∀ c : Coord s, (pNew.candidates s c).card = s * s := by
    intro c
    rw [hall, card_values]
  refine ⟨pNew, hcreate, ⟨hfits, ?_, ?_, ?_, ?_, ?_⟩, hall⟩
  · intro c
    have hbound : s * s < 2 ^ 8 := by
      interval_cases s <;> decide
    rw [hbyte' c (by omega), if_neg (by decide), if_pos rfl, hcard,
      BitVec.toNat_ofNat, Nat.mod_eq_of_lt hbound]
  · intro c v hv
    have hone := hcard c
    rw [hv, Finset.card_singleton] at hone
    omega
  · intro c _
    rw [hbyte' c (by omega), if_pos rfl]
    rfl
  · rw [himpossible, Finset.filter_false_of_mem]
    · rfl
    · intro c _ hempty
      have hzero := hcard c
      rw [hempty, Finset.card_empty] at hzero
      omega
  · rw [hincomplete, Finset.filter_true_of_mem]
    · rw [Finset.card_univ, Fintype.card_prod, Fintype.card_fin]
      exact Nat.mod_eq_of_lt hfits.area_lt
    · intro c _
      rw [hcard c]
      omega

/-- A copy has the possibilities of its source, whatever was in the memory
before. -/
theorem Valid.cloneIntoGrid (h : Valid s pGrid) (pTarget : Block) :
    Valid s (cloneIntoGrid pGrid pTarget) ∧
      (cloneIntoGrid pGrid pTarget).candidates s = pGrid.candidates s := by
  have hbyte : ∀ (c : Coord s) {j : ℕ}, j < pGrid.gc_squareSize →
      (Draco.cloneIntoGrid pGrid pTarget).byteOf c j = pGrid.byteOf c j := by
    intro c j hj
    exact if_pos (address_lt h.fits c hj)
  have hpos := h.fits.squareSize_pos
  have hfits : Fits s (Draco.cloneIntoGrid pGrid pTarget) :=
    ⟨h.fits.two_le, h.fits.sectorDimension, h.fits.dimension,
      h.fits.squareSize, h.fits.totalSize, h.fits.words⟩
  have hcandidates := candidates_congr h.fits hfits
    fun c i _ hi => hbyte c hi
  refine ⟨⟨hfits, ?_, ?_, ?_, ?_, ?_⟩, hcandidates⟩
  · intro c
    rw [hbyte c (by omega), hcandidates]
    exact h.count c
  · intro c v hv
    rw [hcandidates] at hv
    rw [hbyte c (by omega)]
    exact h.value_of_one c v hv
  · intro c hc
    rw [hcandidates] at hc
    rw [hbyte c (by omega)]
    exact h.value_of_not_one c hc
  · rw [hcandidates]
    exact h.impossible
  · rw [hcandidates]
    exact h.incomplete

/-! ## Removing a possibility that is not there -/

/-- Only the value of the square is written after its possibility has been
cleared. -/
theorem byteOf_removeSquarePossibility (h : Fits s pGrid) (c d : Coord s)
    (v : Value s) {j : ℕ} (hj : j < pGrid.gc_squareSize)
    (hvalue : ¬(d = c ∧ j = 1)) :
    (removeSquarePossibility pGrid c.1 c.2 v.1).byteOf d j =
      (clearPossibility pGrid c.1 c.2 v.1).byteOf d j := by
  have hpos := h.squareSize_pos
  have hpoke : ∀ (bytes : ℕ → BitVec 8) byte,
      poke bytes (getSquarePointer pGrid c.1 c.2 + 1) byte
        (address pGrid d j) = bytes (address pGrid d j) := by
    intro bytes byte
    rw [getSquarePointer, getSquareOffset_eq h c (Nat.zero_le _), address_add,
      poke_address (by omega) hj, if_neg hvalue]
  rw [removeSquarePossibility_eq]
  dsimp only
  split_ifs
  · exact hpoke _ _
  · exact hpoke _ _
  · rfl

/-- What a removal is for: the possibility is gone, no other square has changed,
the caches agree with the bits, and nothing at all has changed where the
possibility was not there. -/
structure RemovesExactly (pGrid pNext : Block) (c : Coord s) (v : Value s) :
    Prop where
  candidates : pNext.candidates s = eraseAt (pGrid.candidates s) c v
  untouched : ∀ d : Coord s, d ≠ c → ∀ j < pGrid.gc_squareSize,
    pNext.byteOf d j = pGrid.byteOf d j
  valid : Valid s pNext
  unchanged : v ∉ pGrid.candidates s c → pNext = pGrid

/-- The guard never holds, so the count falls although no bit is cleared. -/
theorem not_removesExactly (h : Valid s pGrid) {c : Coord s} {v : Value s}
    (hv : v ∉ pGrid.candidates s c) :
    ¬RemovesExactly pGrid (removeSquarePossibility pGrid c.1 c.2 v.1) c v := by
  intro hremoves
  have hpos := h.fits.squareSize_pos
  have hcount := byteOf_removeSquarePossibility h.fits c c v (j := 0) (by omega)
    (by simp)
  rw [byteOf_clearPossibility h.fits c c v (by omega), if_pos rfl, if_pos rfl,
    hremoves.unchanged hv] at hcount
  bv_omega

/-- A removal does what it is for exactly when the square has the
possibility. -/
theorem removeSquarePossibility_exact_iff (h : Valid s pGrid) (c : Coord s)
    (v : Value s) :
    RemovesExactly pGrid (removeSquarePossibility pGrid c.1 c.2 v.1) c v ↔
      squareHasPossibility pGrid c.1 c.2 v.1 = true := by
  constructor
  · intro hremoves
    by_contra hnot
    exact not_removesExactly h (mt mem_candidates.mp hnot) hremoves
  · intro hhas
    have hv := mem_candidates.mpr hhas
    obtain ⟨hvalid, hcandidates⟩ := h.removeSquarePossibility hv
    refine ⟨hcandidates, fun d hdc j hj => ?_, hvalid, fun hnot => ?_⟩
    · rw [byteOf_removeSquarePossibility h.fits c d v hj fun heq => hdc heq.1,
        byteOf_clearPossibility h.fits c d v hj, if_neg hdc]
    · exact absurd hv hnot

/-- The first removal from a new grid. -/
theorem removeSquarePossibility_exact_iff_new :
    ∃ pGrid, createGrid 2 = some pGrid ∧ Valid 2 pGrid ∧
      RemovesExactly pGrid (removeSquarePossibility pGrid 0 0 1)
        ((0, 0) : Coord 2) ⟨1, by decide⟩ := by
  obtain ⟨pGrid, hcreate, hvalid, hall⟩ :=
    createGrid_ok (s := 2) (by decide) (by decide)
  refine ⟨pGrid, hcreate, hvalid, ?_⟩
  refine (removeSquarePossibility_exact_iff hvalid (0, 0)
    ⟨1, by decide⟩).mpr (mem_candidates.mp ?_)
  rw [hall]
  exact Finset.mem_univ _

/-- The second removal counts the possibility again. -/
theorem removeSquarePossibility_twice :
    ∃ pNew, createGrid 2 = some pNew ∧
      Valid 2 (removeSquarePossibility pNew 0 0 1) ∧
      squareHasPossibility (removeSquarePossibility pNew 0 0 1) 0 0 1 = false ∧
      ¬RemovesExactly (removeSquarePossibility pNew 0 0 1)
        (removeSquarePossibility (removeSquarePossibility pNew 0 0 1) 0 0 1)
        ((0, 0) : Coord 2) ⟨1, by decide⟩ := by
  obtain ⟨pNew, hcreate, hvalid, hall⟩ :=
    createGrid_ok (s := 2) (by decide) (by decide)
  have hmem : (⟨1, by decide⟩ : Value 2) ∈ pNew.candidates 2 (0, 0) := by
    rw [hall]
    exact Finset.mem_univ _
  obtain ⟨hnext, hcandidates⟩ := hvalid.removeSquarePossibility hmem
  have hnot : (⟨1, by decide⟩ : Value 2) ∉
      (removeSquarePossibility pNew 0 0 1).candidates 2 (0, 0) := by
    intro hleft
    rw [show (removeSquarePossibility pNew 0 0 1).candidates 2 = _ from
      hcandidates, eraseAt_self] at hleft
    exact Finset.notMem_erase _ _ hleft
  have hfails := not_removesExactly hnext hnot
  refine ⟨pNew, hcreate, hnext, ?_, hfails⟩
  by_contra hhas
  rw [Bool.not_eq_false] at hhas
  exact hnot (mem_candidates.mpr hhas)

end SudokuSolver.Draco
