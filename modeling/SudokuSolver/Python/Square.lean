import Mathlib.Data.Finset.Image
import Mathlib.Data.Int.Basic
import Mathlib.Data.List.Sort
import SudokuSolver.Board

/-!
# Squares in Python

`square.py`.  Values are arbitrary integers: nothing checks the range of a
value that a square is set to.  A square starts with positive possibilities and
only `setValue` can bring in zero, so zero is never one of several
possibilities.
-/

namespace SudokuSolver.Python

/-- `sorted`, for a set of integers. -/
def sorted (values : Finset ℤ) : List ℤ :=
  Quotient.liftOn values.1 (fun l => l.insertionSort (· ≤ ·)) fun l l' h =>
    ((List.perm_insertionSort _ l).trans
      (h.trans (List.perm_insertionSort _ l').symm)).eq_of_pairwise'
        (List.pairwise_insertionSort _ l) (List.pairwise_insertionSort _ l')

theorem coe_sorted (values : Finset ℤ) :
    (↑(sorted values) : Multiset ℤ) = values.1 := by
  obtain ⟨values, hnodup⟩ := values
  induction values using Quotient.inductionOn with
  | h l => exact Multiset.coe_eq_coe.mpr (List.perm_insertionSort _ l)

theorem pairwise_sorted (values : Finset ℤ) :
    (sorted values).Pairwise (· ≤ ·) := by
  obtain ⟨values, hnodup⟩ := values
  induction values using Quotient.inductionOn with
  | h l => exact List.pairwise_insertionSort _ l

@[simp] theorem mem_sorted {values : Finset ℤ} {v : ℤ} :
    v ∈ sorted values ↔ v ∈ values := by
  rw [← Multiset.mem_coe, coe_sorted, Finset.mem_val]

theorem nodup_sorted (values : Finset ℤ) : (sorted values).Nodup := by
  rw [← Multiset.coe_nodup, coe_sorted]
  exact values.nodup

@[simp] theorem length_sorted (values : Finset ℤ) :
    (sorted values).length = values.card := by
  rw [← Multiset.coe_card, coe_sorted]
  rfl

/-- `set(range(1, param + 1))`. -/
def setRange (param : ℕ) : Finset ℤ :=
  (Finset.range param).image fun i : ℕ => (i : ℤ) + 1

@[simp] theorem mem_setRange {param : ℕ} {v : ℤ} :
    v ∈ setRange param ↔ 1 ≤ v ∧ v ≤ param := by
  rw [setRange, Finset.mem_image]
  constructor
  · rintro ⟨i, hi, rfl⟩
    have hlt := Finset.mem_range.mp hi
    omega
  · rintro ⟨hpos, hle⟩
    exact ⟨(v - 1).toNat, Finset.mem_range.mpr (by omega), by omega⟩

@[simp] theorem card_setRange (param : ℕ) : (setRange param).card = param := by
  have hinj : Function.Injective fun i : ℕ => (i : ℤ) + 1 := by
    intro i j hij
    have heq : (i : ℤ) + 1 = (j : ℤ) + 1 := hij
    omega
  rw [setRange, Finset.card_image_of_injective _ hinj, Finset.card_range]

/-- Whether a value, or `None`, counts as true. -/
def truthy : Option ℤ → Bool
  | none => false
  | some value => value ≠ 0

/-- A square, by its `_possibilities`. -/
@[ext] structure Square where
  possibilities : Finset ℤ
  zero_alone : 0 ∈ possibilities → possibilities = {0}

namespace Square

/-- A square with one to the parameter as possible values. -/
def withRange (param : ℕ) : Square where
  possibilities := setRange param
  zero_alone h := absurd h (by simp)

def hasPossibility (square : Square) (value : ℤ) : Bool :=
  decide (value ∈ square.possibilities)

/-- The square without a possible value. -/
def erase (square : Square) (possibility : ℤ) : Square where
  possibilities := square.possibilities.erase possibility
  zero_alone h := by
    obtain ⟨hne, hzero⟩ := Finset.mem_erase.mp h
    rw [square.zero_alone hzero, Finset.erase_eq_of_notMem]
    rw [Finset.mem_singleton]
    exact fun heq => hne heq.symm

/-- Removes a possible value from the square, and whether it existed. -/
def removePossibility (square : Square) (possibility : ℤ) : Square × Bool :=
  if square.hasPossibility possibility then (square.erase possibility, true)
  else (square, false)

/-- True if the square has any possible values. -/
def isPossible (square : Square) : Bool :=
  decide (square.possibilities.card ≠ 0)

/-- The value of the square if it has only a single possibility. -/
def getValue (square : Square) : Option ℤ :=
  if square.possibilities.card = 1 then (sorted square.possibilities).head?
  else none

/-- A square that only contains the given value as a possibility. -/
def withValue (value : ℤ) : Square where
  possibilities := {value}
  zero_alone h := by rw [Finset.mem_singleton.mp h]

/-- The possible values for the square. -/
def getPossibilities (square : Square) : List ℤ := sorted square.possibilities

theorem getValue_eq_some_iff {square : Square} {v : ℤ} :
    square.getValue = some v ↔ square.possibilities = {v} := by
  have hcoe := coe_sorted square.possibilities
  rw [getValue]
  constructor
  · intro h
    split at h
    · next hcard =>
      obtain ⟨w, hw⟩ := Finset.card_eq_one.mp hcard
      have hmem : v ∈ sorted square.possibilities := List.mem_of_mem_head? h
      rw [mem_sorted, hw, Finset.mem_singleton] at hmem
      rw [hw, hmem]
    · exact absurd h (by simp)
  · intro h
    have hsorted : sorted square.possibilities = [v] := by
      rw [h] at hcoe ⊢
      exact Multiset.coe_eq_singleton.mp hcoe
    rw [h, Finset.card_singleton, if_pos rfl, ← h, hsorted]
    rfl

theorem isPossible_iff {square : Square} :
    square.isPossible = true ↔ square.possibilities.Nonempty := by
  rw [isPossible, decide_eq_true_eq, Finset.card_ne_zero]

theorem removePossibility_fst (square : Square) (possibility : ℤ) :
    (square.removePossibility possibility).1 = square.erase possibility := by
  rw [removePossibility]
  split
  · rfl
  · next h =>
    apply Square.ext
    rw [hasPossibility, decide_eq_true_eq] at h
    exact (Finset.erase_eq_of_notMem h).symm

/-- After a removal that happened the value of a square, if there is one, is
true. -/
theorem truthy_getValue_erase {square : Square} {possibility : ℤ}
    (hmem : possibility ∈ square.possibilities) :
    truthy (square.erase possibility).getValue =
      (square.erase possibility).getValue.isSome := by
  cases hvalue : (square.erase possibility).getValue with
  | none => rfl
  | some v =>
      have herase : square.possibilities.erase possibility = {v} :=
        getValue_eq_some_iff.mp hvalue
      have hv : v ∈ square.possibilities.erase possibility := by
        rw [herase]
        exact Finset.mem_singleton_self v
      obtain ⟨hne, hv⟩ := Finset.mem_erase.mp hv
      refine decide_eq_true fun hzero => ?_
      subst hzero
      rw [square.zero_alone hv, Finset.mem_singleton] at hmem
      exact hne hmem.symm

/-- A square with several possibilities does not have zero among them. -/
theorem zero_notMem {square : Square} (h : 1 < square.possibilities.card) :
    0 ∉ square.possibilities := by
  intro hzero
  rw [square.zero_alone hzero, Finset.card_singleton] at h
  exact absurd h (lt_irrefl 1)

end Square

end SudokuSolver.Python
