import Mathlib.Data.Multiset.Bind
import Mathlib.Algebra.BigOperators.Group.List.Basic
import Mathlib.Algebra.GroupWithZero.Nat

/-!
# Worklists

A worklist takes the first pending item, hands out some results for it and puts
some new items in front of the others, until nothing is pending.  It ends
because the new items together weigh less than the item they replace.  If the
results and the new items of every step together stand for what the item stood
for, then the results of the whole run stand for what was pending at its start.
-/

namespace SudokuSolver

variable {σ G E S : Type*}

/-- The step of a worklist, with a state `σ` that is carried along.  A step
without a result is one that raises an error. -/
structure Worklist (σ G E : Type*) where
  step : σ → G → Option (σ × List E × List G)
  weight : G → ℕ
  weight_lt : ∀ {st g st' out pushed}, step st g = some (st', out, pushed) →
    (pushed.map weight).sum < weight g

namespace Worklist

variable (w : Worklist σ G E)

/-- Everything handed out until nothing is pending, with the final state. -/
def run (st : σ) : List G → Option (List E × σ)
  | [] => some ([], st)
  | g :: pending =>
      match _hstep : w.step st g with
      | none => none
      | some (st', out, pushed) =>
          (run st' (pushed ++ pending)).map fun r => (out ++ r.1, r.2)
termination_by pending => (pending.map w.weight).sum
decreasing_by
  have hlt := w.weight_lt _hstep
  simp only [List.map_append, List.sum_append, List.map_cons, List.sum_cons]
  omega

@[simp] theorem run_nil (st : σ) : w.run st [] = some ([], st) := by
  rw [run]

theorem run_cons {st st' : σ} {g : G} {out : List E} {pushed : List G}
    (hstep : w.step st g = some (st', out, pushed)) (pending : List G) :
    w.run st (g :: pending) =
      (w.run st' (pushed ++ pending)).map fun r => (out ++ r.1, r.2) := by
  rw [run]
  split
  next h => exact absurd (h.symm.trans hstep) (by simp)
  next st'' out' pushed' h =>
    have heq := h.symm.trans hstep
    simp only [Option.some.injEq, Prod.mk.injEq] at heq
    obtain ⟨rfl, rfl, rfl⟩ := heq
    rfl

theorem run_cons_none {st : σ} {g : G} (hstep : w.step st g = none)
    (pending : List G) : w.run st (g :: pending) = none := by
  rw [run]
  split
  next => rfl
  next h => exact absurd (h.symm.trans hstep) (by simp)

/-- What a worklist hands out, counted with multiplicity, is what its pending
items stand for. -/
theorem run_exact (inv : G → Prop) (denote : G → Multiset S) (val : E → S)
    (hstep : ∀ st g, inv g → ∃ st' out pushed,
      w.step st g = some (st', out, pushed) ∧
      (∀ x ∈ pushed, inv x) ∧
      denote g = ↑(out.map val) + (↑pushed : Multiset G).bind denote)
    (st : σ) (pending : List G) (hinv : ∀ g ∈ pending, inv g) :
    ∃ out st', w.run st pending = some (out, st') ∧
      (↑(out.map val) : Multiset S) = (↑pending : Multiset G).bind denote := by
  generalize hn : (pending.map w.weight).sum = n
  induction n using Nat.strong_induction_on generalizing st pending with
  | h n ih =>
      cases pending with
      | nil => exact ⟨[], st, w.run_nil st, by simp⟩
      | cons g pending =>
          obtain ⟨st', out, pushed, hg, hpushed, hdenote⟩ :=
            hstep st g (hinv g List.mem_cons_self)
          have hlt : ((pushed ++ pending).map w.weight).sum < n := by
            have hweight := w.weight_lt hg
            simp only [List.map_append, List.sum_append, List.map_cons,
              List.sum_cons] at hn ⊢
            omega
          have hinv' : ∀ x ∈ pushed ++ pending, inv x := by
            intro x hx
            rcases List.mem_append.mp hx with hx | hx
            · exact hpushed x hx
            · exact hinv x (List.mem_cons_of_mem g hx)
          obtain ⟨rest, st'', hrun, hval⟩ :=
            ih _ hlt st' (pushed ++ pending) hinv' rfl
          refine ⟨out ++ rest, st'', ?_, ?_⟩
          · rw [w.run_cons hg, hrun]
            rfl
          · calc
              (↑((out ++ rest).map val) : Multiset S)
                  = ↑(out.map val) + ↑(rest.map val) := by
                    rw [List.map_append, Multiset.coe_add]
              _ = ↑(out.map val) + ((↑pushed : Multiset G).bind denote +
                    (↑pending : Multiset G).bind denote) := by
                    rw [hval, ← Multiset.coe_add, Multiset.add_bind]
              _ = denote g + (↑pending : Multiset G).bind denote := by
                    rw [hdenote, add_assoc]
              _ = (↑(g :: pending) : Multiset G).bind denote := by
                    rw [← Multiset.cons_coe, Multiset.cons_bind]

end Worklist

end SudokuSolver
