import SudokuSolver.Draco.Block

/-!
# What the bytes of a Draco grid stand for

A block of the right layout stands for the set of possibilities of every square.
The caches of a grid, of the squares and of the whole grid, agree with these
sets; every routine keeps it that way.
-/

namespace SudokuSolver.Draco

open Propagation

variable {s : ℕ} {pGrid : Block}

/-! ## The layout of a block -/

/-- A block laid out for a sector dimension: its offsets, up to one row past the
last, are words. -/
structure Fits (s : ℕ) (pGrid : Block) : Prop where
  two_le : 2 ≤ s
  sectorDimension : pGrid.g_sectorDimension = s
  dimension : pGrid.g_dimension = s * s
  squareSize : pGrid.gc_squareSize =
    SQUARE_POSSIBILITY_PACK + (s * s - 1) / 8 + 1
  totalSize : SQUARES_OFFSET + s * s * (s * s) * pGrid.gc_squareSize ≤
    pGrid.gc_totalSize
  words : SQUARES_OFFSET + (s * s * (s * s) + s * s) * pGrid.gc_squareSize +
    SQUARE_POSSIBILITY_PACK < 2 ^ 16

/-- The address of one byte of a square. -/
def address (pGrid : Block) (c : Coord s) (i : ℕ) : ℕ :=
  SQUARES_OFFSET + place c * pGrid.gc_squareSize + i

theorem place_eq (c : Coord s) : place c = s * s * c.2.1 + c.1.1 := by
  have hplace : place c = c.1.1 + s * s * c.2.1 := rfl
  rw [hplace, Nat.add_comm]

theorem mulu_eq {a b : ℕ} (h : a * b < 2 ^ 16) : mulu a b = a * b := by
  rcases Nat.eq_zero_or_pos a with rfl | ha
  · simp [mulu]
  rcases Nat.eq_zero_or_pos b with rfl | hb
  · simp [mulu]
  have hale := Nat.le_mul_of_pos_right a hb
  have hble := Nat.le_mul_of_pos_left b ha
  rw [mulu, Nat.mod_eq_of_lt (by omega), Nat.mod_eq_of_lt (by omega)]

theorem addWord_eq {a b : ℕ} (h : a + b < 2 ^ 16) : addWord a b = a + b := by
  rw [addWord]
  omega

theorem Fits.squareSize_pos (h : Fits s pGrid) : 3 ≤ pGrid.gc_squareSize := by
  rw [h.squareSize, SQUARE_POSSIBILITY_PACK]
  omega

theorem Fits.area_pos (h : Fits s pGrid) : 4 ≤ s * s :=
  Nat.mul_le_mul h.two_le h.two_le

/-- The end of a square, from the beginning of the squares. -/
theorem place_mul_lt (c : Coord s) (q : ℕ) :
    place c * q + q ≤ s * s * (s * s) * q := by
  rw [← Nat.succ_mul]
  exact Nat.mul_le_mul_right q (place_lt c)

theorem getSquareOffset_eq (h : Fits s pGrid) (c : Coord s) {field : ℕ}
    (hfield : field ≤ SQUARE_POSSIBILITY_PACK) :
    getSquareOffset pGrid field c.1 c.2 = address pGrid c field := by
  have hwords := h.words
  have hpos := h.squareSize_pos
  have hend := place_mul_lt c pGrid.gc_squareSize
  have hplace := place_eq c
  rw [Nat.add_mul] at hwords
  simp only [SQUARES_OFFSET, SQUARE_POSSIBILITY_PACK] at hwords hfield
  have hle : place c ≤ place c * pGrid.gc_squareSize :=
    Nat.le_mul_of_pos_right _ (by omega)
  have hcomm : pGrid.gc_squareSize * place c = place c * pGrid.gc_squareSize :=
    Nat.mul_comm _ _
  have hrow : addWord (mulu (s * s) c.2.1) c.1.1 = place c := by
    rw [mulu_eq (by omega), addWord_eq (by omega), ← hplace]
  rw [getSquareOffset, h.dimension, hrow, mulu_eq (by omega),
    addWord_eq (by rw [SQUARES_OFFSET]; omega), address, hcomm]
  omega

/-- Different bytes of squares have different addresses. -/
theorem address_inj {c d : Coord s} {i j : ℕ}
    (hi : i < pGrid.gc_squareSize) (hj : j < pGrid.gc_squareSize) :
    address pGrid c i = address pGrid d j ↔ c = d ∧ i = j := by
  constructor
  · intro heq
    have hsum : pGrid.gc_squareSize * place c + i =
        pGrid.gc_squareSize * place d + j := by
      rw [address, address, Nat.mul_comm (place c), Nat.mul_comm (place d)] at heq
      omega
    have hdiv := congrArg (· / pGrid.gc_squareSize) hsum
    have hmod := congrArg (· % pGrid.gc_squareSize) hsum
    simp only [Nat.mul_add_div (Nat.zero_lt_of_lt hi), Nat.div_eq_of_lt hi,
      Nat.div_eq_of_lt hj, Nat.add_zero, Nat.mul_add_mod, Nat.mod_eq_of_lt hi,
      Nat.mod_eq_of_lt hj] at hdiv hmod
    exact ⟨place_injective hdiv, hmod⟩
  · rintro ⟨rfl, rfl⟩
    rfl

/-- Every byte of a square lies in the block. -/
theorem address_lt (h : Fits s pGrid) (c : Coord s) {i : ℕ}
    (hi : i < pGrid.gc_squareSize) : address pGrid c i < pGrid.gc_totalSize := by
  have htotal := h.totalSize
  have hend := place_mul_lt c pGrid.gc_squareSize
  rw [address]
  omega

/-! ## The bytes of a square -/

/-- One byte of a square: 0 is its count, 1 its value, and the rest its pack. -/
def Block.byteOf (pGrid : Block) (c : Coord s) (i : ℕ) : BitVec 8 :=
  pGrid.bytes (address pGrid c i)

theorem Fits.value_lt (h : Fits s pGrid) (v : Value s) : v.1 < 2 ^ 8 := by
  have hwords := h.words
  have hpos := h.squareSize_pos
  have hle := (Finset.mem_Icc.mp v.2).2
  have hmul : s * s * (s * s) * 3 ≤
      (s * s * (s * s) + s * s) * pGrid.gc_squareSize :=
    Nat.mul_le_mul (Nat.le_add_right _ _) hpos
  by_contra hv
  have hsquare : 2 ^ 8 * 2 ^ 8 ≤ s * s * (s * s) :=
    Nat.mul_le_mul (by omega) (by omega)
  omega

theorem pred_eq (h : Fits s pGrid) (v : Value s) : pred v.1 = v.1 - 1 := by
  have hlt := h.value_lt v
  have hpos := (Finset.mem_Icc.mp v.2).1
  rw [pred]
  omega

/-- The place of the bit of a value in the bytes of a square. -/
theorem packIndex_lt (h : Fits s pGrid) (v : Value s) :
    SQUARE_POSSIBILITY_PACK + packIndex v.1 < pGrid.gc_squareSize := by
  have hv := Finset.mem_Icc.mp v.2
  rw [packIndex, pred_eq h v, h.squareSize]
  omega

/-- Different values have different bits. -/
theorem bit_inj (h : Fits s pGrid) {v w : Value s}
    (hpack : packIndex v.1 = packIndex w.1) (hbit : bitIndex v.1 = bitIndex w.1) :
    v = w := by
  have hv := (Finset.mem_Icc.mp v.2).1
  have hw := (Finset.mem_Icc.mp w.2).1
  rw [packIndex, packIndex, pred_eq h v, pred_eq h w] at hpack
  rw [bitIndex, bitIndex, pred_eq h v, pred_eq h w] at hbit
  apply Subtype.ext
  omega

theorem bitIndex_lt (value : ℕ) : bitIndex value < 8 :=
  Nat.mod_lt _ (by decide)

theorem getPossibilityCount_eq (h : Fits s pGrid) (c : Coord s) :
    getPossibilityCount pGrid c.1 c.2 = (pGrid.byteOf c 0).toNat := by
  rw [getPossibilityCount, getSquareOffset_eq h c (Nat.zero_le _)]
  rfl

theorem getSquareValue_eq (h : Fits s pGrid) (c : Coord s) :
    getSquareValue pGrid c.1 c.2 = (pGrid.byteOf c 1).toNat := by
  rw [getSquareValue, getSquareOffset_eq h c (by decide)]
  rfl

theorem squareHasPossibility_eq (h : Fits s pGrid) (c : Coord s) (v : ℕ) :
    squareHasPossibility pGrid c.1 c.2 v =
      (pGrid.byteOf c (SQUARE_POSSIBILITY_PACK + packIndex v)).getLsbD
        (bitIndex v) := by
  rw [squareHasPossibility, getSquareOffset_eq h c le_rfl, Block.byteOf,
    address, address, Nat.add_assoc _ SQUARE_POSSIBILITY_PACK]

/-- The possibilities of every square. -/
def Block.candidates (s : ℕ) (pGrid : Block) :
    Candidates (Coord s) (Value s) := fun c =>
  Finset.univ.filter fun v => squareHasPossibility pGrid c.1 c.2 v.1 = true

@[simp] theorem mem_candidates {c : Coord s} {v : Value s} :
    v ∈ pGrid.candidates s c ↔ squareHasPossibility pGrid c.1 c.2 v.1 = true := by
  simp [Block.candidates]

/-- Blocks with the same packs have the same possibilities. -/
theorem candidates_congr {pGrid' : Block} (h : Fits s pGrid)
    (h' : Fits s pGrid')
    (hpacks : ∀ (c : Coord s) i, SQUARE_POSSIBILITY_PACK ≤ i →
      i < pGrid.gc_squareSize → pGrid'.byteOf c i = pGrid.byteOf c i) :
    pGrid'.candidates s = pGrid.candidates s := by
  funext c
  ext v
  rw [mem_candidates, mem_candidates, squareHasPossibility_eq h,
    squareHasPossibility_eq h', hpacks c _ (Nat.le_add_right _ _)
      (packIndex_lt h v)]

/-! ## What the routines write -/

theorem poke_address {bytes : ℕ → BitVec 8} {byte : BitVec 8} {c d : Coord s}
    {i j : ℕ} (hi : i < pGrid.gc_squareSize) (hj : j < pGrid.gc_squareSize) :
    poke bytes (address pGrid c i) byte (address pGrid d j) =
      if d = c ∧ j = i then byte else bytes (address pGrid d j) := by
  rw [poke, Function.update_apply]
  exact if_congr (address_inj hj hi) rfl rfl

/-- Filling a square from one of its bytes on. -/
theorem blockFill_address {bytes : ℕ → BitVec 8} {byte : BitVec 8}
    {c d : Coord s} {i j : ℕ} (hj : j < pGrid.gc_squareSize) :
    blockFill bytes (address pGrid c i) (pGrid.gc_squareSize - i) byte
        (address pGrid d j) =
      if d = c ∧ i ≤ j then byte else bytes (address pGrid d j) := by
  rw [blockFill]
  refine if_congr ?_ rfl rfl
  constructor
  · rintro ⟨hle, hlt⟩
    have hinside : address pGrid d j - address pGrid c 0 <
        pGrid.gc_squareSize := by
      simp only [address] at hle hlt ⊢
      omega
    have hsame : address pGrid d j =
        address pGrid c (address pGrid d j - address pGrid c 0) := by
      simp only [address] at hle ⊢
      omega
    obtain ⟨rfl, -⟩ := (address_inj hj hinside).mp hsame
    simp only [address] at hle
    exact ⟨rfl, by omega⟩
  · rintro ⟨rfl, hij⟩
    simp only [address]
    omega

theorem address_add (c : Coord s) (i j : ℕ) :
    address pGrid c i + j = address pGrid c (i + j) :=
  Nat.add_assoc _ i j

theorem byteOf_setSquareValue (h : Fits s pGrid) (c d : Coord s) (v : Value s)
    {j : ℕ} (hj : j < pGrid.gc_squareSize) :
    (setSquareValue pGrid c.1 c.2 v.1).byteOf d j =
      if d = c then
        if j = 0 then 1
        else if j = 1 then BitVec.ofNat 8 v.1
        else if j = SQUARE_POSSIBILITY_PACK + packIndex v.1 then
          1#8 <<< bitIndex v.1
        else 0
      else pGrid.byteOf d j := by
  have hpos := h.squareSize_pos
  have hpack := packIndex_lt h v
  change poke _ _ _ (address pGrid d j) = _
  rw [getSquarePointer, getSquareOffset_eq h c (Nat.zero_le _)]
  simp only [address_add, Nat.zero_add]
  rw [poke_address hpack hj, blockFill_address hpack,
    blockFill_address hj, poke_address (by omega) hj,
    poke_address (by omega) hj]
  by_cases hdc : d = c
  · subst hdc
    simp only [true_and, if_true, SQUARE_POSSIBILITY_PACK]
    by_cases hj0 : j = 0
    · subst hj0
      have hne : 0 ≠ 2 + packIndex v.1 := by omega
      simp [hne]
    · by_cases hj1 : j = 1
      · subst hj1
        have hne : 1 ≠ 2 + packIndex v.1 := by omega
        simp [hne]
      · have hge : 2 ≤ j := by omega
        simp [hj0, hj1, hge]
        rfl
  · simp only [hdc, false_and, if_false]
    rfl

/-- The block of `removeSquarePossibility` before it updates the caches of the
grid. -/
def clearPossibility (pGrid : Block) (x y value : ℕ) : Block :=
  let pSquareCache := getSquarePointer pGrid x y
  let pSquare := pSquareCache + SQUARE_POSSIBILITY_PACK + packIndex value
  let bytes := poke pGrid.bytes pSquare
    (pGrid.bytes pSquare &&& ~~~(1#8 <<< bitIndex value))
  { pGrid with bytes := poke bytes pSquareCache (bytes pSquareCache - 1) }

theorem byteOf_clearPossibility (h : Fits s pGrid) (c d : Coord s) (v : Value s)
    {j : ℕ} (hj : j < pGrid.gc_squareSize) :
    (clearPossibility pGrid c.1 c.2 v.1).byteOf d j =
      if d = c then
        if j = 0 then pGrid.byteOf d 0 - 1
        else if j = SQUARE_POSSIBILITY_PACK + packIndex v.1 then
          pGrid.byteOf d j &&& ~~~(1#8 <<< bitIndex v.1)
        else pGrid.byteOf d j
      else pGrid.byteOf d j := by
  have hpos := h.squareSize_pos
  have hpack := packIndex_lt h v
  have hne : 0 ≠ SQUARE_POSSIBILITY_PACK + packIndex v.1 := by
    rw [SQUARE_POSSIBILITY_PACK]
    omega
  change poke _ _ _ (address pGrid d j) = _
  rw [getSquarePointer, getSquareOffset_eq h c (Nat.zero_le _)]
  simp only [address_add, Nat.zero_add]
  rw [poke_address (by omega) hj, poke_address hpack (by omega),
    poke_address hpack hj]
  by_cases hdc : d = c
  · subst hdc
    by_cases hj0 : j = 0
    · subst hj0
      simp only [true_and, if_true, hne, if_false]
      rfl
    · by_cases hjv : j = SQUARE_POSSIBILITY_PACK + packIndex v.1
      · subst hjv
        simp only [true_and, if_true, hj0, if_false]
        rfl
      · simp only [true_and, if_true, hj0, hjv, if_false]
        rfl
  · simp only [hdc, false_and, if_false]
    rfl

theorem removeSquarePossibility_eq (pGrid : Block) (x y value : ℕ) :
    removeSquarePossibility pGrid x y value =
      let pSquareCache := getSquarePointer pGrid x y
      let pCleared := clearPossibility pGrid x y value
      if pCleared.bytes pSquareCache = 0 then
        { pCleared with
          bytes := poke pCleared.bytes (pSquareCache + 1) 0
          gc_impossibleSquares := pCleared.gc_impossibleSquares + 1
          gc_incompleteSquares := pCleared.gc_incompleteSquares + 1 }
      else if pCleared.bytes pSquareCache = 1 then
        { pCleared with
          bytes := poke pCleared.bytes (pSquareCache + 1)
            (BitVec.ofNat 8 (getSquareValueImpl pCleared x y))
          gc_incompleteSquares := pCleared.gc_incompleteSquares - 1 }
      else pCleared := by
  have hmask : ∀ byte : BitVec 8, byte ||| 1#8 <<< bitIndex value ≠ 0 := by
    intro byte hzero
    have hbit := congrArg (fun b : BitVec 8 => b.getLsbD (bitIndex value)) hzero
    simp [bitIndex_lt] at hbit
  have hcount : ∀ (bytes : ℕ → BitVec 8) (pointer : ℕ) (byte : BitVec 8),
      poke bytes pointer byte pointer = byte :=
    fun bytes pointer byte => Function.update_self _ _ _
  simp only [removeSquarePossibility, if_neg (hmask _), clearPossibility, hcount]

end SudokuSolver.Draco
