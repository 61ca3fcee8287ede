import Mathlib.Data.Fin.Basic

/-!
# Square tables

A square table is an array of rows, addressed by column and row.
-/

namespace SudokuSolver

variable {α : Type*} {n : ℕ}

/-- `n` rows of `n` entries each. -/
abbrev Table (α : Type*) (n : ℕ) := Vector (Vector α n) n

namespace Table

/-- The entry in the given column and row. -/
def entry (rows : Table α n) (c : Fin n × Fin n) : α :=
  rows[c.2][c.1]

/-- The table with one entry replaced, in a copy of its row. -/
def replace (rows : Table α n) (c : Fin n × Fin n) (a : α) : Table α n :=
  rows.set c.2 (rows[c.2].set c.1 a)

theorem entry_replace (rows : Table α n) (c d : Fin n × Fin n) (a : α) :
    (replace rows c a).entry d = if d = c then a else entry rows d := by
  obtain ⟨x, y⟩ := c
  obtain ⟨x', y'⟩ := d
  simp only [entry, replace, Fin.getElem_fin, Vector.getElem_set, Prod.mk.injEq]
  by_cases hy : y = y'
  · subst y'
    by_cases hx : x = x'
    · simp [hx]
    · simp [Fin.val_inj, hx, Ne.symm hx]
  · simp [Fin.val_inj, hy, Ne.symm hy]

theorem entry_replicate (a : α) (c : Fin n × Fin n) :
    entry (Vector.replicate n (Vector.replicate n a)) c = a := by
  simp [entry]

theorem all_all_iff {p : α → Bool} {rows : Table α n} :
    (rows.all fun row => row.all p) = true ↔
      ∀ c, p (entry rows c) = true := by
  simp only [Vector.all_eq_true]
  constructor
  · intro h c
    exact h c.2 c.2.isLt c.1 c.1.isLt
  · intro h y hy x hx
    exact h (⟨x, hx⟩, ⟨y, hy⟩)

end Table

end SudokuSolver
