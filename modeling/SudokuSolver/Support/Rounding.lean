import Mathlib.Algebra.Order.Ring.Nat

/-!
# Rounding to significant bits

What becomes of a natural number when it is converted to a binary floating-point
number with fewer bits: the nearest number whose significant bits are enough, and
of two that are equally near the even one.
-/

namespace SudokuSolver.Rounding

/-- The multiple of a unit that is nearest to a number; in a tie the even one. -/
def nearest (unit n : ℕ) : ℕ :=
  let quotient := n / unit
  let rest := n % unit
  if 2 * rest < unit ∨ 2 * rest = unit ∧ quotient % 2 = 0 then quotient * unit
  else (quotient + 1) * unit

/-- The unit in the last place of a number that is given `bits` significant
bits. -/
def lastPlace (bits n : ℕ) : ℕ := 2 ^ (n.log2 + 1 - bits)

/-- A number with no more than `bits` significant bits. -/
def round (bits n : ℕ) : ℕ := nearest (lastPlace bits n) n

variable {unit bits a b n : ℕ}

theorem nearest_mul (hunit : 0 < unit) (quotient : ℕ) :
    nearest unit (quotient * unit) = quotient * unit := by
  rw [nearest, Nat.mul_mod_left, Nat.mul_div_cancel _ hunit,
    if_pos (Or.inl hunit)]

theorem nearest_of_dvd (hunit : 0 < unit) (h : unit ∣ n) :
    nearest unit n = n := by
  obtain ⟨quotient, rfl⟩ := h
  rw [mul_comm, nearest_mul hunit]

theorem quotient_mul_le_nearest (unit n : ℕ) :
    n / unit * unit ≤ nearest unit n := by
  rw [nearest]
  split
  · exact le_rfl
  · exact Nat.mul_le_mul_right _ (Nat.le_succ _)

theorem nearest_le (unit n : ℕ) : nearest unit n ≤ (n / unit + 1) * unit := by
  rw [nearest]
  split
  · exact Nat.mul_le_mul_right _ (Nat.le_succ _)
  · exact le_rfl

/-- Rounding to multiples of one unit keeps the order. -/
theorem nearest_mono (h : a ≤ b) : nearest unit a ≤ nearest unit b := by
  rcases (Nat.div_le_div_right (c := unit) h).lt_or_eq with hlt | hsame
  · calc
      nearest unit a ≤ (a / unit + 1) * unit := nearest_le unit a
      _ ≤ b / unit * unit := Nat.mul_le_mul_right _ hlt
      _ ≤ nearest unit b := quotient_mul_le_nearest unit b
  · -- The quotients are equal, so that it is the rests which decide.
    have hrest : a % unit ≤ b % unit := by
      have ha := Nat.div_add_mod a unit
      have hb := Nat.div_add_mod b unit
      rw [hsame] at ha
      omega
    rw [nearest, nearest, hsame]
    split
    · split
      · exact le_rfl
      · exact Nat.mul_le_mul_right _ (Nat.le_succ _)
    · next hdown =>
      rw [if_neg]
      rintro (hlt | ⟨htie, heven⟩)
      · exact hdown (Or.inl (by omega))
      · rcases Nat.lt_or_eq_of_le hrest with hlt | heq
        · exact hdown (Or.inl (by omega))
        · exact hdown (Or.inr ⟨by omega, heven⟩)

theorem lastPlace_pos (bits n : ℕ) : 0 < lastPlace bits n :=
  Nat.two_pow_pos _

/-- A number that has no more than the bits is kept. -/
theorem round_of_lt (h : n < 2 ^ bits) : round bits n = n := by
  rcases eq_or_ne n 0 with rfl | hn
  · exact nearest_of_dvd (lastPlace_pos bits 0) (Nat.dvd_zero _)
  · have hplace : lastPlace bits n = 1 := by
      have hlog := (Nat.log2_lt hn).mpr h
      rw [lastPlace, Nat.sub_eq_zero_of_le hlog, pow_zero]
    rw [round, hplace]
    exact nearest_of_dvd Nat.one_pos (one_dvd n)

/-- Rounding keeps the order: between numbers of different lengths there is a
power of two, which needs no rounding in either place. -/
theorem round_mono (hbits : 0 < bits) (h : a ≤ b) :
    round bits a ≤ round bits b := by
  rcases eq_or_ne a 0 with rfl | ha
  · rw [round_of_lt (Nat.two_pow_pos bits)]
    exact Nat.zero_le _
  have hb : b ≠ 0 := by omega
  have hlog : a.log2 ≤ b.log2 :=
    (Nat.le_log2 hb).mpr ((Nat.log2_self_le ha).trans h)
  rcases hlog.lt_or_eq with hlt | hsame
  · have hpower : a ≤ 2 ^ b.log2 := by
      have hle := Nat.pow_le_pow_right Nat.two_pos hlt
      have hlt' := Nat.lt_log2_self (n := a)
      exact hlt'.le.trans hle
    calc
      round bits a ≤ nearest (lastPlace bits a) (2 ^ b.log2) :=
        nearest_mono hpower
      _ = 2 ^ b.log2 := nearest_of_dvd (lastPlace_pos bits a)
        (pow_dvd_pow 2 (by omega))
      _ = nearest (lastPlace bits b) (2 ^ b.log2) :=
        (nearest_of_dvd (lastPlace_pos bits b)
          (pow_dvd_pow 2 (by omega))).symm
      _ ≤ round bits b := nearest_mono (Nat.log2_self_le hb)
  · rw [round, round, lastPlace, lastPlace, hsame]
    exact nearest_mono h

end SudokuSolver.Rounding
