import Mathlib.Algebra.BigOperators.Group.Finset.Basic
import Mathlib.Data.Fintype.Card
import Mathlib.Data.Fintype.BigOperators

/-!
# Families of which one member changes

Totals over such a family, and loops that change one member after the other.
-/

namespace SudokuSolver

variable {ι A : Type*} [Fintype ι] [DecidableEq ι]

/-- A total before and after one member of a family changes. -/
theorem sum_update {M : Type*} [AddCommMonoid M] (f : A → M) (family : ι → A)
    (i : ι) (a : A) :
    (∑ j, f (Function.update family i a j)) + f (family i) =
      (∑ j, f (family j)) + f a := by
  have hrest : ∑ j ∈ Finset.univ.erase i, f (Function.update family i a j) =
      ∑ j ∈ Finset.univ.erase i, f (family j) := by
    refine Finset.sum_congr rfl fun j hj => ?_
    rw [Function.update_of_ne (Finset.ne_of_mem_erase hj)]
  rw [← Finset.sum_erase_add _ _ (Finset.mem_univ i),
    ← Finset.sum_erase_add _ (fun j => f (family j)) (Finset.mem_univ i),
    hrest, Function.update_self]
  exact add_right_comm _ _ _

/-- The number of members with a property before and after one of them
changes. -/
theorem card_filter_update (P : A → Prop) [DecidablePred P] (family : ι → A)
    (i : ι) (a : A) :
    (Finset.univ.filter fun j => P (Function.update family i a j)).card +
        (if P (family i) then 1 else 0) =
      (Finset.univ.filter fun j => P (family j)).card +
        if P a then 1 else 0 := by
  rw [Finset.card_filter, Finset.card_filter]
  exact sum_update (fun b => if P b then 1 else 0) family i a

omit [Fintype ι] in
/-- A loop that changes different members changes each of them once. -/
theorem foldl_update {κ : Type*} [DecidableEq κ] {key : κ → ι}
    (hkey : Function.Injective key) (change : κ → A → A) {l : List κ}
    (hl : l.Nodup) (family : ι → A) (k : κ) :
    l.foldl (fun family j =>
        Function.update family (key j) (change j (family (key j)))) family
      (key k) =
      if k ∈ l then change k (family (key k)) else family (key k) := by
  induction l generalizing family with
  | nil => simp
  | cons j l ih =>
      obtain ⟨hj, hl⟩ := List.nodup_cons.mp hl
      rw [List.foldl_cons, ih hl]
      by_cases hkj : k = j
      · subst j
        rw [if_neg hj, if_pos List.mem_cons_self, Function.update_self]
      · rw [Function.update_of_ne (hkey.ne hkj)]
        simp only [List.mem_cons, hkj, false_or]

end SudokuSolver
