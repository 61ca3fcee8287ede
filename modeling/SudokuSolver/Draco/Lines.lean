import Mathlib.Tactic.Ring
import SudokuSolver.Draco.Caches
import SudokuSolver.Support.Loop

/-!
# The line tests of Draco

`mustBeValueByRow` and `mustBeValueByColumn` of `sudoku_grid.a` walk backwards
over a line with a pointer and a counter that `dbne` counts down;
`mustBeValueBySector` of `sudoku_grid.d` walks forwards over a sector.  Each test
comes with the addresses of the packs it reads.  A test succeeds when no other
square of the line has the value.
-/

namespace SudokuSolver.Draco

open Propagation

variable {s : ℕ} {pGrid : Block}

/-! ## The routines -/

/-- `sub.w` from an address, which extends the sign of the word. -/
def subAddress (pointer word : ℕ) : ℕ :=
  ((pointer : ℤ) - (BitVec.ofNat 16 word).toInt).toNat

/-- `dbne`: whether it branches, and the counter it leaves. -/
def dbne (condition : Bool) (counter : BitVec 16) : Bool × BitVec 16 :=
  if condition then (false, counter) else (counter - 1 ≠ -1, counter - 1)

/-- One round of the loops `nxtCol` and `nxtRow`, with the pointer, the counter
and the addresses that have been tested. -/
def nextSquare (test : ℕ → Bool) (size : ℕ) (ignore : BitVec 16) :
    ℕ × BitVec 16 × List ℕ →
      Option ((ℕ × BitVec 16 × List ℕ) ⊕ (BitVec 16 × List ℕ))
  | (pointer, counter, reads) =>
      let pointer := subAddress pointer size
      let reads := reads ++ [pointer]
      let (branch, counter) := dbne (test pointer) counter
      let (branch, counter) :=
        if branch then (true, counter) else dbne (counter ≠ ignore) counter
      some (if branch then .inl (pointer, counter, reads)
        else .inr (counter, reads))

/-- The loops: the counter they end with, and the addresses they test. -/
def walkLine (test : ℕ → Bool) (size : ℕ) (ignore : BitVec 16) (pointer : ℕ)
    (counter : BitVec 16) : Option (BitVec 16 × List ℕ) :=
  loop (nextSquare test size ignore) (pointer, counter, [])

/-- `btst` on the pack that a pointer is at. -/
def testPossibility (pGrid : Block) (value pointer : ℕ) : Bool :=
  (pGrid.bytes pointer).getLsbD (bitIndex value)

def mustBeValueByRow (pGrid : Block) (x y value : ℕ) :
    Option (Bool × List ℕ) :=
  let d0 := mulu pGrid.g_dimension (addWord y 1)
  let d0 := mulu pGrid.gc_squareSize d0
  let d0 := addWord d0 (SQUARE_POSSIBILITY_PACK + SQUARES_OFFSET)
  (walkLine (testPossibility pGrid value) pGrid.gc_squareSize
    (BitVec.ofNat 16 x) (d0 + packIndex value)
    (BitVec.ofNat 16 pGrid.g_dimension - 1)).map fun r => (r.1.msb, r.2)

def mustBeValueByColumn (pGrid : Block) (x y value : ℕ) :
    Option (Bool × List ℕ) :=
  let d0 := mulu pGrid.g_dimension pGrid.g_dimension
  let d0 := mulu pGrid.gc_squareSize (addWord d0 x)
  let d0 := addWord d0 (SQUARE_POSSIBILITY_PACK + SQUARES_OFFSET)
  (walkLine (testPossibility pGrid value)
    (mulu pGrid.g_dimension pGrid.gc_squareSize)
    (BitVec.ofNat 16 y) (d0 + packIndex value)
    (BitVec.ofNat 16 pGrid.g_dimension - 1)).map fun r => (r.1.msb, r.2)

/-- The loop of `mustBeValueBySector`, over the indices that are left. -/
def sectorFrom (test : ℕ → Bool) (squareSize bumpSize sectorDimension
    ignoreIndex : ℕ) : List ℕ → ℕ → Bool × List ℕ
  | [], _ => (true, [])
  | index :: indices, pSquare =>
      let reads := if index ≠ ignoreIndex then [pSquare] else []
      if index ≠ ignoreIndex ∧ test pSquare then (false, reads)
      else
        let pSquare :=
          if (index + 1) % sectorDimension ≠ 0 then pSquare + squareSize
          else pSquare + bumpSize
        let rest := sectorFrom test squareSize bumpSize sectorDimension
          ignoreIndex indices pSquare
        (rest.1, reads ++ rest.2)

def mustBeValueBySector (pGrid : Block) (x y value : ℕ) : Bool × List ℕ :=
  let squareSize := pGrid.gc_squareSize
  let dimension := pGrid.g_dimension
  let sectorDimension := pGrid.g_sectorDimension
  let pSquare := SQUARES_OFFSET +
    (y / sectorDimension * sectorDimension * pGrid.g_dimension +
      x / sectorDimension * sectorDimension) * squareSize % 2 ^ 16 +
    SQUARE_POSSIBILITY_PACK + packIndex value
  let mask := 1#8 <<< bitIndex value
  let bumpSize := squareSize * (dimension - sectorDimension + 1) % 2 ^ 16
  let ignoreIndex := y % sectorDimension * sectorDimension + x % sectorDimension
  sectorFrom (fun pSquare => pGrid.bytes pSquare &&& mask ≠ 0) squareSize
    bumpSize sectorDimension ignoreIndex (List.range pGrid.g_dimension) pSquare

/-! ## Walking backwards -/

theorem subAddress_eq {pointer word : ℕ} (hword : word < 2 ^ 15) :
    subAddress (pointer + word) word = pointer := by
  have hnat : (BitVec.ofNat 16 word).toNat = word :=
    Nat.mod_eq_of_lt (by omega)
  have hint : (BitVec.ofNat 16 word).toInt = word := by
    rw [BitVec.toInt_eq_toNat_of_lt (by omega), hnat]
  rw [subAddress, hint]
  omega

theorem dbne_true (counter : BitVec 16) : dbne true counter = (false, counter) :=
  rfl

theorem dbne_false_zero : dbne false (BitVec.ofNat 16 0) = (false, -1) := rfl

theorem dbne_false_succ {n : ℕ} (hn : n + 1 < 2 ^ 15) :
    dbne false (BitVec.ofNat 16 (n + 1)) = (true, BitVec.ofNat 16 n) := by
  have hpred : BitVec.ofNat 16 (n + 1) - 1 = BitVec.ofNat 16 n := by
    bv_omega
  have hne : BitVec.ofNat 16 n ≠ -1 := by
    bv_omega
  rw [dbne, if_neg (by simp), hpred, decide_eq_true hne]

theorem ofNat_word_inj {n ignore : ℕ} (hn : n < 2 ^ 15)
    (hignore : ignore < 2 ^ 15) :
    BitVec.ofNat 16 n = BitVec.ofNat 16 ignore ↔ n = ignore := by
  constructor
  · intro heq
    bv_omega
  · exact congrArg _

section Walk

variable (test : ℕ → Bool) {size ignore pointer n : ℕ} {reads : List ℕ}

/-- The walk stops at a square that passes the test and is not ignored. -/
theorem nextSquare_stop (hsize : size < 2 ^ 15) (hignore : ignore < 2 ^ 15)
    (hn : n < 2 ^ 15) (htest : test pointer = true) (hne : n ≠ ignore) :
    nextSquare test size (BitVec.ofNat 16 ignore)
        (pointer + size, BitVec.ofNat 16 n, reads) =
      some (.inr (BitVec.ofNat 16 n, reads ++ [pointer])) := by
  have hword := mt (ofNat_word_inj hn hignore).mp hne
  rw [nextSquare, subAddress_eq hsize, htest]
  simp [dbne_true, hword]

/-- The walk is over after the first square. -/
theorem nextSquare_zero (hsize : size < 2 ^ 15) (hignore : ignore < 2 ^ 15)
    (hpass : test pointer = false ∨ 0 = ignore) :
    nextSquare test size (BitVec.ofNat 16 ignore)
        (pointer + size, BitVec.ofNat 16 0, reads) =
      some (.inr (-1, reads ++ [pointer])) := by
  have hnegative : ¬65535#16 = BitVec.ofNat 16 ignore := by
    bv_omega
  rw [nextSquare, subAddress_eq hsize]
  cases htest : test pointer with
  | false => simp [dbne_false_zero, dbne_true, hnegative]
  | true =>
      have hzero := hpass.resolve_left (by simp [htest])
      subst hzero
      simp [dbne_true, dbne_false_zero]

/-- Otherwise the walk goes on with the square before. -/
theorem nextSquare_succ (hsize : size < 2 ^ 15) (hn : n + 1 < 2 ^ 15)
    (hpass : test pointer = false ∨ n + 1 = ignore) :
    nextSquare test size (BitVec.ofNat 16 ignore)
        (pointer + size, BitVec.ofNat 16 (n + 1), reads) =
      some (.inl (pointer, BitVec.ofNat 16 n, reads ++ [pointer])) := by
  rw [nextSquare, subAddress_eq hsize]
  cases htest : test pointer with
  | false => simp [dbne_false_succ hn]
  | true =>
      have hsucc := hpass.resolve_left (by simp [htest])
      subst hsucc
      simp [dbne_true, dbne_false_succ hn]

/-- A walk from the square `n` on is over with a negative counter when no square
but the ignored one passes the test, and it reads nothing but these squares. -/
theorem loop_nextSquare (hsize : size < 2 ^ 15) (hignore : ignore < 2 ^ 15)
    (hn : n < 2 ^ 15) (base : ℕ) (reads : List ℕ) :
    ∃ counter visited,
      loop (nextSquare test size (BitVec.ofNat 16 ignore))
        (base + n * size + size, BitVec.ofNat 16 n, reads) =
          some (counter, reads ++ visited) ∧
      (counter.msb = true ↔
        ∀ i ≤ n, i ≠ ignore → test (base + i * size) = false) ∧
      ∀ address ∈ visited, ∃ i ≤ n, address = base + i * size := by
  have hstop : ∀ n < 2 ^ 15, ∀ reads : List ℕ,
      ¬(test (base + n * size) = false ∨ n = ignore) →
      ∃ counter visited,
        loop (nextSquare test size (BitVec.ofNat 16 ignore))
          (base + n * size + size, BitVec.ofNat 16 n, reads) =
            some (counter, reads ++ visited) ∧
        (counter.msb = true ↔
          ∀ i ≤ n, i ≠ ignore → test (base + i * size) = false) ∧
        ∀ address ∈ visited, ∃ i ≤ n, address = base + i * size := by
    intro n hn reads hpass
    rw [not_or, Bool.not_eq_false] at hpass
    obtain ⟨htest, hne⟩ := hpass
    refine ⟨_, _, loop_done (nextSquare_stop test hsize hignore hn htest hne),
      ?_, ?_⟩
    · refine iff_of_false ?_ fun hall => ?_
      · rw [BitVec.msb_eq_decide, decide_eq_true_eq]
        bv_omega
      · exact absurd (hall n le_rfl hne) (by simp [htest])
    · intro address haddress
      exact ⟨n, le_rfl, List.mem_singleton.mp haddress⟩
  induction n generalizing reads with
  | zero =>
      by_cases hpass : test (base + 0 * size) = false ∨ 0 = ignore
      · refine ⟨_, _, loop_done (nextSquare_zero test hsize hignore hpass),
          ?_, ?_⟩
        · refine iff_of_true (by decide) fun i hi hne => ?_
          obtain rfl := Nat.le_zero.mp hi
          exact hpass.resolve_right hne
        · intro address haddress
          exact ⟨0, le_rfl, List.mem_singleton.mp haddress⟩
      · exact hstop 0 hn reads hpass
  | succ n ih =>
      by_cases hpass : test (base + (n + 1) * size) = false ∨ n + 1 = ignore
      · obtain ⟨counter, visited, hwalk, hmsb, hreads⟩ :=
          ih (by omega) (reads ++ [base + (n + 1) * size])
        have hstep : base + (n + 1) * size = base + n * size + size := by
          rw [Nat.succ_mul, Nat.add_assoc]
        refine ⟨counter, (base + (n + 1) * size) :: visited, ?_, ?_, ?_⟩
        · rw [loop_next (nextSquare_succ test hsize hn hpass)]
          rw [← hstep, List.append_assoc, List.singleton_append] at hwalk
          exact hwalk
        · rw [hmsb]
          constructor
          · intro hall i hi hne
            rcases Nat.of_le_succ hi with hi | rfl
            · exact hall i hi hne
            · exact hpass.resolve_right hne
          · exact fun hall i hi => hall i (Nat.le_succ_of_le hi)
        · intro address haddress
          rcases List.mem_cons.mp haddress with rfl | haddress
          · exact ⟨n + 1, le_rfl, rfl⟩
          · obtain ⟨i, hi, rfl⟩ := hreads address haddress
            exact ⟨i, Nat.le_succ_of_le hi, rfl⟩
      · exact hstop (n + 1) hn reads hpass

end Walk

/-! ## Walking over a sector -/

/-- A walk over consecutive indices, whose squares are where `position` says,
succeeds when none of them but the ignored one passes the test. -/
theorem sectorFrom_exact (test : ℕ → Bool) (position : ℕ → ℕ)
    {squareSize bumpSize sectorDimension : ℕ} (ignoreIndex : ℕ)
    (hposition : ∀ i, position (i + 1) =
      if (i + 1) % sectorDimension ≠ 0 then position i + squareSize
      else position i + bumpSize) (n k : ℕ) :
    ((sectorFrom test squareSize bumpSize sectorDimension ignoreIndex
        (List.range' k n) (position k)).1 = true ↔
      ∀ i ∈ List.range' k n, i ≠ ignoreIndex → test (position i) = false) ∧
    ∀ address ∈ (sectorFrom test squareSize bumpSize sectorDimension ignoreIndex
        (List.range' k n) (position k)).2,
      ∃ i ∈ List.range' k n, address = position i := by
  induction n generalizing k with
  | zero => simp [sectorFrom]
  | succ n ih =>
      obtain ⟨hresult, hreads⟩ := ih (k + 1)
      rw [List.range'_succ, sectorFrom, ← hposition]
      by_cases hfound : k ≠ ignoreIndex ∧ test (position k) = true
      · rw [if_pos hfound, if_pos hfound.1]
        constructor
        · refine iff_of_false (by simp) fun hall => ?_
          have hnot := hall k List.mem_cons_self hfound.1
          rw [hfound.2] at hnot
          exact absurd hnot (by simp)
        · intro address haddress
          exact ⟨k, List.mem_cons_self, List.mem_singleton.mp haddress⟩
      · rw [if_neg hfound]
        have hpass : k ≠ ignoreIndex → test (position k) = false := by
          intro hne
          rw [← Bool.not_eq_true]
          exact fun htest => hfound ⟨hne, htest⟩
        constructor
        · rw [hresult, List.forall_mem_cons]
          exact (and_iff_right hpass).symm
        · intro address haddress
          rcases List.mem_append.mp haddress with hhere | hlater
          · refine ⟨k, List.mem_cons_self, ?_⟩
            split_ifs at hhere
            · exact List.mem_singleton.mp hhere
            · exact absurd hhere List.not_mem_nil
          · obtain ⟨i, hi, rfl⟩ := hreads address hlater
            exact ⟨i, List.mem_cons_of_mem k hi, rfl⟩

/-! ## The squares of a line -/

/-- The byte of a square that has the bit of a value. -/
def packAddress (pGrid : Block) (c : Coord s) (v : Value s) : ℕ :=
  address pGrid c (SQUARE_POSSIBILITY_PACK + packIndex v.1)

theorem packAddress_eq (pGrid : Block) (c : Coord s) (v : Value s) :
    packAddress pGrid c v = SQUARES_OFFSET +
      s * s * c.2.1 * pGrid.gc_squareSize + c.1.1 * pGrid.gc_squareSize +
      (SQUARE_POSSIBILITY_PACK + packIndex v.1) := by
  rw [packAddress, address, place_eq, Nat.add_mul]
  omega

theorem testPossibility_eq (h : Fits s pGrid) (c : Coord s) (v : Value s) :
    testPossibility pGrid v.1 (packAddress pGrid c v) =
      squareHasPossibility pGrid c.1 c.2 v.1 :=
  (squareHasPossibility_eq h c v.1).symm

/-- The offsets of a row past the last one are words. -/
theorem Fits.row_lt (h : Fits s pGrid) {y : ℕ} (hy : y ≤ s * s) {x : ℕ}
    (hx : x ≤ s * s) :
    SQUARES_OFFSET + (s * s * y * pGrid.gc_squareSize +
      x * pGrid.gc_squareSize) + SQUARE_POSSIBILITY_PACK < 2 ^ 16 := by
  refine lt_of_le_of_lt ?_ h.words
  rw [← Nat.add_mul]
  gcongr

theorem Fits.squareSize_lt (h : Fits s pGrid) :
    s * s * pGrid.gc_squareSize < 2 ^ 15 := by
  have hpos := h.area_pos
  have hrow := h.row_lt le_rfl (Nat.zero_le (s * s))
  have hmul : 4 * (s * s * pGrid.gc_squareSize) ≤
      s * s * (s * s) * pGrid.gc_squareSize := by
    rw [Nat.mul_assoc (s * s)]
    exact Nat.mul_le_mul_right _ hpos
  omega

theorem ofNat_dimension_sub_one (h : Fits s pGrid) :
    BitVec.ofNat 16 pGrid.g_dimension - 1 = BitVec.ofNat 16 (s * s - 1) := by
  have hpos := h.area_pos
  have hlt := h.squareSize_lt
  have hsize := h.squareSize_pos
  have hle : s * s ≤ s * s * pGrid.gc_squareSize :=
    Nat.le_mul_of_pos_right _ (by omega)
  rw [h.dimension]
  bv_omega

/-- A walk backwards over a line whose squares lie one step apart. -/
theorem walkLine_exact (h : Fits s pGrid) (v : Value s)
    {line : Index s → Coord s} {base size : ℕ} (hsize : size < 2 ^ 15)
    (hline : ∀ i, packAddress pGrid (line i) v = base + i.1 * size)
    (ignore : Index s) :
    ∃ found reads,
      (walkLine (testPossibility pGrid v.1) size (BitVec.ofNat 16 ignore.1)
        (base + s * s * size) (BitVec.ofNat 16 pGrid.g_dimension - 1)).map
          (fun r => (r.1.msb, r.2)) = some (found, reads) ∧
      (found = true ↔ ∀ i, i ≠ ignore →
        squareHasPossibility pGrid (line i).1 (line i).2 v.1 = false) ∧
      ∀ address ∈ reads, ∃ i, address = packAddress pGrid (line i) v := by
  have hpos := h.area_pos
  have hdimension : s * s < 2 ^ 15 := by
    have hlt := h.squareSize_lt
    have hthree := h.squareSize_pos
    have hle : s * s ≤ s * s * pGrid.gc_squareSize :=
      Nat.le_mul_of_pos_right _ (by omega)
    omega
  have hignore := ignore.isLt
  have hend : base + s * s * size = base + (s * s - 1) * size + size := by
    rw [Nat.sub_one_mul, Nat.add_assoc, Nat.sub_add_cancel]
    exact Nat.le_mul_of_pos_left _ (by omega)
  obtain ⟨counter, reads, hwalk, hmsb, hreads⟩ :=
    loop_nextSquare (testPossibility pGrid v.1) hsize
      (show ignore.1 < 2 ^ 15 by omega) (n := s * s - 1) (by omega) base []
  refine ⟨counter.msb, reads, ?_, ?_, ?_⟩
  · rw [walkLine, ofNat_dimension_sub_one h, hend, hwalk]
    rfl
  · rw [hmsb]
    constructor
    · intro hall i hne
      rw [← testPossibility_eq h, hline]
      exact hall i.1 (by have hi := i.isLt; omega) (Fin.val_ne_of_ne hne)
    · intro hall i hi hne
      have hfalse := hall ⟨i, by omega⟩ fun heq => hne (congrArg Fin.val heq)
      rwa [← testPossibility_eq h, hline] at hfalse
  · intro address haddress
    obtain ⟨i, hi, rfl⟩ := hreads address haddress
    exact ⟨⟨i, by omega⟩, (hline ⟨i, by omega⟩).symm⟩

/-- The row test, and what it reads. -/
theorem mustBeValueByRow_exact (h : Fits s pGrid) (c : Coord s) (v : Value s) :
    ∃ found reads,
      mustBeValueByRow pGrid c.1 c.2 v.1 = some (found, reads) ∧
      (found = true ↔ ∀ x : Index s, x ≠ c.1 →
        squareHasPossibility pGrid x c.2 v.1 = false) ∧
      ∀ address ∈ reads, ∃ x, address = packAddress pGrid (x, c.2) v := by
  have hpos := h.area_pos
  have hthree := h.squareSize_pos
  have hy := c.2.isLt
  have hrow := h.row_lt (y := c.2.1 + 1) hy (Nat.zero_le (s * s))
  have hnext : s * s * (c.2.1 + 1) * pGrid.gc_squareSize =
      s * s * c.2.1 * pGrid.gc_squareSize + s * s * pGrid.gc_squareSize := by
    rw [Nat.mul_succ, Nat.add_mul]
  have hle : s * s * (c.2.1 + 1) ≤
      s * s * (c.2.1 + 1) * pGrid.gc_squareSize :=
    Nat.le_mul_of_pos_right _ (by omega)
  have hle' : c.2.1 + 1 ≤ s * s * (c.2.1 + 1) :=
    Nat.le_mul_of_pos_left _ (by omega)
  have hsize : pGrid.gc_squareSize < 2 ^ 15 :=
    (Nat.le_mul_of_pos_left _ (by omega)).trans_lt h.squareSize_lt
  have hcomm : pGrid.gc_squareSize * (s * s * (c.2.1 + 1)) =
      s * s * (c.2.1 + 1) * pGrid.gc_squareSize := Nat.mul_comm _ _
  simp only [SQUARES_OFFSET, SQUARE_POSSIBILITY_PACK] at hrow
  have hbelow : mulu (s * s) (addWord c.2.1 1) = s * s * (c.2.1 + 1) := by
    rw [addWord_eq (by omega), mulu_eq (by omega)]
  have hpointer : addWord (mulu pGrid.gc_squareSize
      (mulu pGrid.g_dimension (addWord c.2.1 1)))
        (SQUARE_POSSIBILITY_PACK + SQUARES_OFFSET) + packIndex v.1 =
      SQUARES_OFFSET + s * s * c.2.1 * pGrid.gc_squareSize +
        (SQUARE_POSSIBILITY_PACK + packIndex v.1) +
        s * s * pGrid.gc_squareSize := by
    rw [h.dimension, hbelow, mulu_eq (by omega), hcomm, addWord_eq (by
      rw [SQUARES_OFFSET, SQUARE_POSSIBILITY_PACK]
      omega), hnext]
    omega
  have hline : ∀ x : Index s, packAddress pGrid (x, c.2) v =
      SQUARES_OFFSET + s * s * c.2.1 * pGrid.gc_squareSize +
        (SQUARE_POSSIBILITY_PACK + packIndex v.1) +
        x.1 * pGrid.gc_squareSize := by
    intro x
    rw [packAddress_eq]
    dsimp only
    omega
  have hwalk := walkLine_exact h v hsize hline c.1
  simp only [mustBeValueByRow, hpointer]
  exact hwalk

/-- The column test, and what it reads. -/
theorem mustBeValueByColumn_exact (h : Fits s pGrid) (c : Coord s)
    (v : Value s) :
    ∃ found reads,
      mustBeValueByColumn pGrid c.1 c.2 v.1 = some (found, reads) ∧
      (found = true ↔ ∀ y : Index s, y ≠ c.2 →
        squareHasPossibility pGrid c.1 y v.1 = false) ∧
      ∀ address ∈ reads, ∃ y, address = packAddress pGrid (c.1, y) v := by
  have hpos := h.area_pos
  have hthree := h.squareSize_pos
  have hx := c.1.isLt
  have hrow := h.row_lt le_rfl hx.le
  have hlast : (s * s * (s * s) + c.1.1) * pGrid.gc_squareSize =
      s * s * (s * s) * pGrid.gc_squareSize + c.1.1 * pGrid.gc_squareSize :=
    Nat.add_mul _ _ _
  have hle : s * s * (s * s) + c.1.1 ≤
      (s * s * (s * s) + c.1.1) * pGrid.gc_squareSize :=
    Nat.le_mul_of_pos_right _ (by omega)
  have hcomm : pGrid.gc_squareSize * (s * s * (s * s) + c.1.1) =
      (s * s * (s * s) + c.1.1) * pGrid.gc_squareSize := Nat.mul_comm _ _
  have hassoc : s * s * (s * s) * pGrid.gc_squareSize =
      s * s * (s * s * pGrid.gc_squareSize) := Nat.mul_assoc _ _ _
  have hsize := h.squareSize_lt
  simp only [SQUARES_OFFSET, SQUARE_POSSIBILITY_PACK] at hrow
  have hbottom : addWord (mulu (s * s) (s * s)) c.1.1 =
      s * s * (s * s) + c.1.1 := by
    rw [mulu_eq (by omega), addWord_eq (by omega)]
  have hpointer : addWord (mulu pGrid.gc_squareSize
      (addWord (mulu pGrid.g_dimension pGrid.g_dimension) c.1.1))
        (SQUARE_POSSIBILITY_PACK + SQUARES_OFFSET) + packIndex v.1 =
      SQUARES_OFFSET + c.1.1 * pGrid.gc_squareSize +
        (SQUARE_POSSIBILITY_PACK + packIndex v.1) +
        s * s * (s * s * pGrid.gc_squareSize) := by
    rw [h.dimension, hbottom, mulu_eq (by omega), hcomm, addWord_eq (by
      rw [SQUARES_OFFSET, SQUARE_POSSIBILITY_PACK]
      omega), hlast]
    omega
  have hstep : mulu pGrid.g_dimension pGrid.gc_squareSize =
      s * s * pGrid.gc_squareSize := by
    rw [h.dimension, mulu_eq (by omega)]
  have hline : ∀ y : Index s, packAddress pGrid (c.1, y) v =
      SQUARES_OFFSET + c.1.1 * pGrid.gc_squareSize +
        (SQUARE_POSSIBILITY_PACK + packIndex v.1) +
        y.1 * (s * s * pGrid.gc_squareSize) := by
    intro y
    have hmul : s * s * y.1 * pGrid.gc_squareSize =
        y.1 * (s * s * pGrid.gc_squareSize) := by
      rw [Nat.mul_comm (s * s), Nat.mul_assoc]
    rw [packAddress_eq]
    dsimp only
    omega
  have hwalk := walkLine_exact h v hsize hline c.2
  simp only [mustBeValueByColumn, hpointer, hstep]
  exact hwalk

/-! ## The squares of a sector -/

/-- The square of a sector at an index, row by row. -/
def sectorSquare (c : Coord s) (i : Index s) : Coord s :=
  (finProdFinEquiv (band c.1, i.modNat), finProdFinEquiv (band c.2, i.divNat))

/-- The index of a square in its sector. -/
def sectorIndex (c : Coord s) : Index s :=
  finProdFinEquiv (c.2.modNat, c.1.modNat)

theorem sectorSquare_eq_iff {c d : Coord s} {i : Index s} :
    sectorSquare c i = d ↔
      band d.1 = band c.1 ∧ band d.2 = band c.2 ∧ i = sectorIndex d := by
  have hx : d.1 = finProdFinEquiv (band c.1, i.modNat) ↔ _ :=
    eq_finProdFinEquiv_iff
  have hy : d.2 = finProdFinEquiv (band c.2, i.divNat) ↔ _ :=
    eq_finProdFinEquiv_iff
  have hi : i = sectorIndex d ↔ _ := eq_finProdFinEquiv_iff
  rw [eq_comm, Prod.ext_iff, sectorSquare, hx, hy, hi, band]
  constructor
  · rintro ⟨⟨hbandx, hmodx⟩, hbandy, hmody⟩
    exact ⟨hbandx, hbandy, hmody.symm, hmodx.symm⟩
  · rintro ⟨hbandx, hbandy, hmody, hmodx⟩
    exact ⟨⟨hbandx, hmodx.symm⟩, hbandy, hmody.symm⟩

/-- The other squares of a sector, by their indices. -/
theorem forall_sectorSquare_iff {p : Coord s → Prop} {c : Coord s} :
    (∀ i : Index s, i ≠ sectorIndex c → p (sectorSquare c i)) ↔
      ∀ d : Coord s, band d.1 = band c.1 ∧ band d.2 = band c.2 → d ≠ c →
        p d := by
  constructor
  · rintro hall d ⟨hx, hy⟩ hne
    have hsquare : sectorSquare c (sectorIndex d) = d :=
      sectorSquare_eq_iff.mpr ⟨hx, hy, rfl⟩
    have hindex : sectorIndex d ≠ sectorIndex c := by
      intro heq
      refine hne (hsquare.symm.trans (sectorSquare_eq_iff.mpr ?_))
      exact ⟨rfl, rfl, heq⟩
    have hp := hall _ hindex
    rwa [hsquare] at hp
  · intro hall i hne
    obtain ⟨hx, hy, hindex⟩ :=
      sectorSquare_eq_iff.mp (rfl : sectorSquare c i = _)
    refine hall _ ⟨hx, hy⟩ fun heq => hne ?_
    rwa [heq] at hindex

/-- How far the squares of a sector lie from its first one. -/
def sectorOffset (s i : ℕ) : ℕ := s * s * (i / s) + i % s

/-- From one square of a sector to the next: one square on, or to the beginning
of the next row of the sector. -/
theorem sectorOffset_succ (hs : 2 ≤ s) (i : ℕ) :
    sectorOffset s (i + 1) =
      if (i + 1) % s ≠ 0 then sectorOffset s i + 1
      else sectorOffset s i + (s * s - s + 1) := by
  have hdiv := Nat.div_add_mod i s
  have hmod := Nat.mod_lt i (show 0 < s by omega)
  have hle : s ≤ s * s := Nat.le_mul_of_pos_left s (by omega)
  by_cases hlast : i % s + 1 = s
  · have hnext : i + 1 = s * (i / s + 1) := by
      rw [Nat.mul_succ]
      omega
    have hzero : (i + 1) % s = 0 := by
      rw [hnext, Nat.mul_mod_right]
    have hquotient : (i + 1) / s = i / s + 1 := by
      rw [hnext, Nat.mul_div_cancel_left _ (by omega)]
    rw [if_neg (by simpa using hzero), sectorOffset, sectorOffset, hzero,
      hquotient, Nat.mul_succ]
    omega
  · have hlt : i % s + 1 < s := by omega
    have hnext : i + 1 = s * (i / s) + (i % s + 1) := by omega
    have hrest : (i + 1) % s = i % s + 1 := by
      rw [hnext, Nat.mul_add_mod, Nat.mod_eq_of_lt hlt]
    have hquotient : (i + 1) / s = i / s := by
      rw [hnext, Nat.mul_add_div (by omega), Nat.div_eq_of_lt hlt,
        Nat.add_zero]
    rw [if_pos (by omega), sectorOffset, sectorOffset, hrest, hquotient,
      Nat.add_assoc]

/-- The pack of the first square of a sector. -/
def sectorBase (pGrid : Block) (c : Coord s) (v : Value s) : ℕ :=
  SQUARES_OFFSET +
    (c.2.1 / s * s * (s * s) + c.1.1 / s * s) * pGrid.gc_squareSize +
    SQUARE_POSSIBILITY_PACK + packIndex v.1

theorem packAddress_sectorSquare (pGrid : Block) (c : Coord s) (v : Value s)
    (i : Index s) :
    packAddress pGrid (sectorSquare c i) v =
      sectorBase pGrid c v + sectorOffset s i.1 * pGrid.gc_squareSize := by
  have hx : (sectorSquare c i).1.1 = i.1 % s + s * (c.1.1 / s) := rfl
  have hy : (sectorSquare c i).2.1 = i.1 / s + s * (c.2.1 / s) := rfl
  rw [packAddress_eq, sectorBase, sectorOffset, hx, hy]
  ring

/-- The step of `mustBeValueBySector` from one pack to the next. -/
theorem sectorPosition_succ (hs : 2 ≤ s) (base squareSize i : ℕ) :
    base + sectorOffset s (i + 1) * squareSize =
      if (i + 1) % s ≠ 0 then
        base + sectorOffset s i * squareSize + squareSize
      else base + sectorOffset s i * squareSize +
        (s * s - s + 1) * squareSize := by
  rw [sectorOffset_succ hs]
  split_ifs <;> ring

/-- The byte that the mask of a value picks out of. -/
theorem and_mask_ne_zero_iff (byte : BitVec 8) (value : ℕ) :
    byte &&& 1#8 <<< bitIndex value ≠ 0 ↔ byte.getLsbD (bitIndex value) = true := by
  constructor
  · intro hne
    by_contra hbit
    rw [Bool.not_eq_true] at hbit
    refine hne (BitVec.eq_of_getLsbD_eq fun i hi => ?_)
    rw [BitVec.getLsbD_and, getLsbD_mask]
    by_cases heq : bitIndex value = i
    · rw [← heq, hbit]
      simp
    · simp [heq]
  · intro hbit hzero
    have hand : (byte &&& 1#8 <<< bitIndex value).getLsbD (bitIndex value) =
        (0#8).getLsbD (bitIndex value) := by
      rw [hzero]
      rfl
    rw [BitVec.getLsbD_and, hbit, getLsbD_mask] at hand
    simp at hand

/-- The test of `mustBeValueBySector` on a square of the sector. -/
theorem testMask_eq_false_iff (h : Fits s pGrid) (c : Coord s) (v : Value s)
    (i : Index s) :
    decide (pGrid.bytes (sectorBase pGrid c v +
        sectorOffset s i.1 * pGrid.gc_squareSize) &&&
          1#8 <<< bitIndex v.1 ≠ 0) = false ↔
      squareHasPossibility pGrid (sectorSquare c i).1 (sectorSquare c i).2
        v.1 = false := by
  rw [← packAddress_sectorSquare, ← testPossibility_eq h,
    decide_eq_false_iff_not, and_mask_ne_zero_iff, Bool.not_eq_true]
  rfl

/-- The steps to the next row of a sector are words. -/
theorem Fits.bumpSize_eq (h : Fits s pGrid) :
    pGrid.gc_squareSize * (s * s - s + 1) % 2 ^ 16 =
      (s * s - s + 1) * pGrid.gc_squareSize := by
  have hs := h.two_le
  have hsize := h.squareSize_lt
  have hle : s ≤ s * s := Nat.le_mul_of_pos_left s (by omega)
  have hmul : (s * s - s + 1) * pGrid.gc_squareSize ≤
      s * s * pGrid.gc_squareSize := Nat.mul_le_mul_right _ (by omega)
  rw [Nat.mul_comm, Nat.mod_eq_of_lt (by omega)]

/-- The offset of the first square of a sector is a word. -/
theorem Fits.sectorStart_eq (h : Fits s pGrid) (c : Coord s) :
    (c.2.1 / s * s * (s * s) + c.1.1 / s * s) * pGrid.gc_squareSize % 2 ^ 16 =
      (c.2.1 / s * s * (s * s) + c.1.1 / s * s) * pGrid.gc_squareSize := by
  apply Nat.mod_eq_of_lt
  have hx := Nat.div_mul_le_self c.1.1 s
  have hy := Nat.mul_le_mul_right (s * s) (Nat.div_mul_le_self c.2.1 s)
  have hplace := place_eq c
  have hcomm : s * s * c.2.1 = c.2.1 * (s * s) := Nat.mul_comm _ _
  have hmul : (c.2.1 / s * s * (s * s) + c.1.1 / s * s) *
      pGrid.gc_squareSize ≤ place c * pGrid.gc_squareSize :=
    Nat.mul_le_mul_right _ (by omega)
  have hend := place_mul_lt c pGrid.gc_squareSize
  have hrow := h.row_lt le_rfl (Nat.zero_le (s * s))
  omega

/-- The sector test, and what it reads. -/
theorem mustBeValueBySector_exact (h : Fits s pGrid) (c : Coord s)
    (v : Value s) :
    ((mustBeValueBySector pGrid c.1 c.2 v.1).1 = true ↔
      ∀ d : Coord s, band d.1 = band c.1 ∧ band d.2 = band c.2 → d ≠ c →
        squareHasPossibility pGrid d.1 d.2 v.1 = false) ∧
    ∀ address ∈ (mustBeValueBySector pGrid c.1 c.2 v.1).2,
      ∃ d : Coord s, (band d.1 = band c.1 ∧ band d.2 = band c.2) ∧
        address = packAddress pGrid d v := by
  have hignore : c.2.1 % s * s + c.1.1 % s = (sectorIndex c).1 := by
    have hindex : (sectorIndex c).1 = c.1.1 % s + s * (c.2.1 % s) := rfl
    rw [hindex, Nat.mul_comm, Nat.add_comm]
  have hzero : sectorBase pGrid c v +
      sectorOffset s 0 * pGrid.gc_squareSize = sectorBase pGrid c v := by
    simp [sectorOffset]
  obtain ⟨hresult, hreads⟩ := sectorFrom_exact
    (fun pSquare => pGrid.bytes pSquare &&& 1#8 <<< bitIndex v.1 ≠ 0)
    (fun i => sectorBase pGrid c v + sectorOffset s i * pGrid.gc_squareSize)
    (sectorIndex c).1 (sectorPosition_succ h.two_le _ _) (s * s) 0
  rw [hzero] at hresult hreads
  simp only [List.mem_range'_1, Nat.zero_le, true_and, Nat.zero_add]
    at hresult hreads
  simp only [mustBeValueBySector, h.dimension, h.sectorDimension, h.bumpSize_eq,
    h.sectorStart_eq, hignore, List.range_eq_range']
  constructor
  · refine hresult.trans (Iff.trans ?_ forall_sectorSquare_iff)
    rw [Fin.forall_iff]
    refine forall₂_congr fun i hi => ?_
    rw [testMask_eq_false_iff h c v ⟨i, hi⟩, ne_eq, ne_eq, Fin.ext_iff]
  · intro address haddress
    obtain ⟨i, hi, rfl⟩ := hreads address haddress
    obtain ⟨hx, hy, -⟩ :=
      sectorSquare_eq_iff.mp (rfl : sectorSquare c ⟨i, hi⟩ = _)
    exact ⟨_, ⟨hx, hy⟩, (packAddress_sectorSquare pGrid c v ⟨i, hi⟩).symm⟩

/-! ## The tests together -/

/-- A header whose offsets, up to the end of the row past the last, are words
makes a block fit, however much memory it says it takes. -/
theorem fits_of_header (hs : 2 ≤ s) (hsector : pGrid.g_sectorDimension = s)
    (hdimension : pGrid.g_dimension = s * s)
    (hsize : pGrid.gc_squareSize =
      SQUARE_POSSIBILITY_PACK + (s * s - 1) / 8 + 1)
    (hwords : SQUARES_OFFSET +
      (s * s * (s * s) + s * s) * pGrid.gc_squareSize ≤ 2 ^ 16) :
    Fits s { pGrid with gc_totalSize :=
      SQUARES_OFFSET + s * s * (s * s) * pGrid.gc_squareSize } := by
  refine ⟨hs, hsector, hdimension, hsize, le_rfl, ?_⟩
  dsimp only
  rw [hsize, SQUARES_OFFSET, SQUARE_POSSIBILITY_PACK] at hwords ⊢
  have hs' : s ≤ 8 := by
    by_contra hlarge
    have hsquare : 9 * 9 ≤ s * s := Nat.mul_le_mul (by omega) (by omega)
    have harea : 81 * 81 ≤ s * s * (s * s) := Nat.mul_le_mul hsquare hsquare
    have hbytes : (81 * 81 + 81) * 13 ≤ (s * s * (s * s) + s * s) *
        (2 + (s * s - 1) / 8 + 1) := Nat.mul_le_mul (by omega) (by omega)
    omega
  interval_cases s <;> omega

/-- For every content of the squares, each of the three tests succeeds exactly
when no other square of its line has the value, and reads nothing but packs of
its line. -/
theorem lineTests_exact (hs : 2 ≤ s) (hsector : pGrid.g_sectorDimension = s)
    (hdimension : pGrid.g_dimension = s * s)
    (hsize : pGrid.gc_squareSize =
      SQUARE_POSSIBILITY_PACK + (s * s - 1) / 8 + 1)
    (hwords : SQUARES_OFFSET +
      (s * s * (s * s) + s * s) * pGrid.gc_squareSize ≤ 2 ^ 16)
    (c : Coord s) (v : Value s) :
    (∃ found reads,
      mustBeValueByRow pGrid c.1 c.2 v.1 = some (found, reads) ∧
      (found = true ↔ ∀ x : Index s, x ≠ c.1 →
        squareHasPossibility pGrid x c.2 v.1 = false) ∧
      ∀ address ∈ reads, ∃ x, address = packAddress pGrid (x, c.2) v) ∧
    (∃ found reads,
      mustBeValueByColumn pGrid c.1 c.2 v.1 = some (found, reads) ∧
      (found = true ↔ ∀ y : Index s, y ≠ c.2 →
        squareHasPossibility pGrid c.1 y v.1 = false) ∧
      ∀ address ∈ reads, ∃ y, address = packAddress pGrid (c.1, y) v) ∧
    ((mustBeValueBySector pGrid c.1 c.2 v.1).1 = true ↔
      ∀ d : Coord s, band d.1 = band c.1 ∧ band d.2 = band c.2 → d ≠ c →
        squareHasPossibility pGrid d.1 d.2 v.1 = false) ∧
    ∀ address ∈ (mustBeValueBySector pGrid c.1 c.2 v.1).2,
      ∃ d : Coord s, (band d.1 = band c.1 ∧ band d.2 = band c.2) ∧
        address = packAddress pGrid d v := by
  have hfits := fits_of_header hs hsector hdimension hsize hwords
  have hrow := mustBeValueByRow_exact hfits c v
  have hcolumn := mustBeValueByColumn_exact hfits c v
  have hblock := mustBeValueBySector_exact hfits c v
  exact ⟨hrow, hcolumn, hblock⟩

/-- The only square with possibilities is in the same column, but in another
row and another sector. -/
theorem lineTests_exact_column :
    ∃ pGrid rowReads columnReads, squareHasPossibility pGrid 1 0 3 = true ∧
      mustBeValueByRow pGrid 1 2 3 = some (true, rowReads) ∧
      mustBeValueByColumn pGrid 1 2 3 = some (false, columnReads) ∧
      (mustBeValueBySector pGrid 1 2 3).1 = true := by
  have hone : squareHasPossibility
      { fillGrid 2 with bytes := poke (fun _ => 0) 25 0xff } 1 0 3 = true := by
    decide +kernel
  have hnone : ∀ x y : Index 2, y ≠ 0 → squareHasPossibility
      { fillGrid 2 with bytes := poke (fun _ => 0) 25 0xff } x y 3 = false := by
    decide +kernel
  generalize hGrid : { fillGrid 2 with bytes := poke (fun _ => 0) 25 0xff } =
    pGrid at hone hnone
  obtain ⟨⟨byRow, rowReads, hrow, hbyRow, -⟩,
    ⟨byColumn, columnReads, hcolumn, hbyColumn, -⟩, hbySector, -⟩ :=
    lineTests_exact (s := 2) (by decide)
      (show pGrid.g_sectorDimension = 2 by rw [← hGrid]; rfl)
      (by rw [← hGrid]; rfl) (by rw [← hGrid]; rfl) (by rw [← hGrid]; decide)
      (1, 2) ⟨3, by decide⟩
  refine ⟨pGrid, rowReads, columnReads, hone, ?_, ?_, hbySector.mpr ?_⟩
  · rw [← hbyRow.mpr fun x _ => hnone x 2 (by decide)]
    exact hrow
  · have hfound : byColumn = false := by
      rw [Bool.eq_false_iff]
      intro hall
      exact Bool.false_ne_true
        ((hbyColumn.mp hall 0 (by decide)).symm.trans hone)
    rw [← hfound]
    exact hcolumn
  · rintro ⟨x, y⟩ ⟨-, hband⟩ -
    apply hnone x y
    rintro rfl
    exact absurd hband (show ¬band (0 : Index 2) = band (2 : Index 2) by decide)

end SudokuSolver.Draco
