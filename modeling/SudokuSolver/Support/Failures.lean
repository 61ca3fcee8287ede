import Mathlib.Data.List.Basic

/-!
# Failures that can be foreseen

Code that may fail, where it is known in advance when it does not and with which
errors it can fail otherwise, whatever the state it starts in.  There is a rule
for each way to compose such code.
-/

namespace SudokuSolver

variable {α ε σ τ : Type}

/-- The result is not an error if and only if `good` holds; an error is one of
those that are `bad`. -/
structure Foreseen (good : Prop) (bad : ε → Prop) (result : Except ε σ) :
    Prop where
  ok_iff : (∃ st, result = .ok st) ↔ good
  error : ∀ e, result = .error e → bad e

namespace Foreseen

variable {good good' : Prop} {bad bad' : ε → Prop}

theorem ok (st : σ) : Foreseen True bad (.ok st : Except ε σ) where
  ok_iff := iff_true_intro ⟨st, rfl⟩
  error := by
    intro e h
    cases h

/-- A failure that is no surprise. -/
theorem throw {e : ε} (hgood : ¬good) (hbad : bad e) :
    Foreseen good bad (.error e : Except ε σ) where
  ok_iff := by
    apply iff_of_false _ hgood
    rintro ⟨st, h⟩
    cases h
  error := by
    intro e' h
    cases h
    exact hbad

theorem imp {result : Except ε σ} (h : Foreseen good bad result)
    (hgood : good ↔ good') (hbad : ∀ e, bad e → bad' e) :
    Foreseen good' bad' result :=
  ⟨h.ok_iff.trans hgood, fun e he => hbad e (h.error e he)⟩

theorem bind {result : Except ε σ} {next : σ → Except ε τ}
    (h : Foreseen good bad result)
    (hnext : ∀ st, Foreseen good' bad' (next st)) :
    Foreseen (good ∧ good') (fun e => bad e ∨ good ∧ bad' e)
      (result >>= next) := by
  rcases hresult : result with e | st
  · have hnot : ¬good := by
      intro hgood
      obtain ⟨st, hst⟩ := h.ok_iff.mpr hgood
      rw [hresult] at hst
      cases hst
    exact throw (mt And.left hnot) (Or.inl (h.error e hresult))
  · have hgood : good := h.ok_iff.mp ⟨st, hresult⟩
    exact (hnext st).imp (and_iff_right hgood).symm
      fun e he => Or.inr ⟨hgood, he⟩

/-- A loop fails at the first item for which its body does. -/
theorem foldlM {step : σ → α → Except ε σ} {good : α → Prop}
    {bad : α → ε → Prop} {l : List α}
    (hstep : ∀ a ∈ l, ∀ st, Foreseen (good a) (bad a) (step st a)) (st : σ) :
    Foreseen (∀ a ∈ l, good a)
      (fun e => ∃ before a after, l = before ++ a :: after ∧
        (∀ b ∈ before, good b) ∧ bad a e) (l.foldlM step st) := by
  induction l generalizing st with
  | nil => exact (ok st).imp (by simp) fun _ he => he
  | cons a l ih =>
      obtain ⟨ha, hl⟩ := List.forall_mem_cons.mp hstep
      rw [List.foldlM_cons]
      apply ((ha st).bind fun st => ih hl st).imp List.forall_mem_cons.symm
      rintro e (he | ⟨hgood, before, b, after, rfl, hbefore, he⟩)
      · exact ⟨[], a, l, rfl, List.forall_mem_nil _, he⟩
      · exact ⟨a :: before, b, after, rfl,
          List.forall_mem_cons.mpr ⟨hgood, hbefore⟩, he⟩

end Foreseen

end SudokuSolver
