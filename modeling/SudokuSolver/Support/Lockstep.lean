import SudokuSolver.Support.Correspondence
import SudokuSolver.Support.Search

/-!
# Searches in step

Two solvers that refine and split related grids into related grids, in the same
order, find related solutions in the same order and in the same states.
-/

namespace SudokuSolver

/-- Filtering by what related items agree on. -/
theorem forall₂_filter {α β : Type*} {R : α → β → Prop} {p : α → Bool}
    {q : β → Bool} (hpq : ∀ a b, R a b → q b = p a) {l : List α}
    {l' : List β} (h : List.Forall₂ R l l') :
    List.Forall₂ R (l.filter p) (l'.filter q) := by
  induction h with
  | nil => exact List.Forall₂.nil
  | @cons a b l l' hab _ ih =>
      rw [List.filter_cons, List.filter_cons, hpq a b hab]
      split
      · exact List.Forall₂.cons hab ih
      · exact ih

/-! ## Worklists -/

namespace Worklist

variable {σ G H E F : Type*} (w : Worklist σ G E) (w' : Worklist σ H F)
variable {grids : G → H → Prop} {results : E → F → Prop}

/-- The results of two steps: the same state, and related lists. -/
def StepRel (grids : G → H → Prop) (results : E → F → Prop) :
    Option (σ × List E × List G) → Option (σ × List F × List H) → Prop :=
  Option.Rel fun r r' => r.1 = r'.1 ∧
    List.Forall₂ results r.2.1 r'.2.1 ∧ List.Forall₂ grids r.2.2 r'.2.2

/-- The results of two runs: related lists, and the same final state. -/
def RunRel (results : E → F → Prop) :
    Option (List E × σ) → Option (List F × σ) → Prop :=
  Option.Rel fun r r' => List.Forall₂ results r.1 r'.1 ∧ r.2 = r'.2

/-- Related steps, taken for related pending items, are related runs. -/
theorem run_rel
    (hstep : ∀ st g h, grids g h →
      StepRel grids results (w.step st g) (w'.step st h))
    (st : σ) {pending : List G} {pending' : List H}
    (hpending : List.Forall₂ grids pending pending') :
    RunRel results (w.run st pending) (w'.run st pending') := by
  generalize hn : (pending.map w.weight).sum = n
  induction n using Nat.strong_induction_on
    generalizing st pending pending' with
  | h n ih =>
      cases hpending with
      | nil =>
          rw [run_nil, run_nil]
          exact Option.Rel.some ⟨List.Forall₂.nil, rfl⟩
      | @cons g h pending pending' hgh hpending =>
          have hgrid := hstep st g h hgh
          cases hg : w.step st g with
          | none =>
              rw [hg] at hgrid
              cases hh : w'.step st h with
              | none =>
                  rw [w.run_cons_none hg, w'.run_cons_none hh]
                  exact Option.Rel.none
              | some r =>
                  rw [hh] at hgrid
                  cases hgrid
          | some r =>
              obtain ⟨st₁, out, pushed⟩ := r
              rw [hg] at hgrid
              cases hh : w'.step st h with
              | none =>
                  rw [hh] at hgrid
                  cases hgrid
              | some r' =>
                  obtain ⟨st₁', out', pushed'⟩ := r'
                  rw [hh] at hgrid
                  cases hgrid with
                  | some hsame =>
                      obtain ⟨rfl, hout, hpushed⟩ := hsame
                      have hlt : ((pushed ++ pending).map w.weight).sum < n := by
                        have hweight := w.weight_lt hg
                        simp only [List.map_append, List.sum_append,
                          List.map_cons, List.sum_cons] at hn ⊢
                        omega
                      have hrest := ih _ hlt st₁
                        (List.rel_append hpushed hpending) rfl
                      rw [w.run_cons hg, w'.run_cons hh]
                      revert hrest
                      generalize w.run st₁ (pushed ++ pending) = r
                      generalize w'.run st₁ (pushed' ++ pending') = r'
                      rintro (⟨hrest⟩ | _)
                      · exact Option.Rel.some
                          ⟨List.rel_append hout hrest.1, hrest.2⟩
                      · exact Option.Rel.none

end Worklist

namespace Propagation

variable {σ G H ι V W κ : Type*} [DecidableEq ι] [DecidableEq V] [DecidableEq W]
variable {f : V ↪ W} {m : Candidates ι V} {m' : Candidates ι W}
variable {peer : ι → ι → Prop} {houses : κ → Finset ι}

/-! ## Corresponding maps -/

omit [DecidableEq ι] [DecidableEq V] [DecidableEq W] in
theorem Corresponds.live_iff (h : Corresponds f m m') : Live m' ↔ Live m := by
  refine forall_congr' fun c => ?_
  rw [h c, Finset.map_nonempty]

omit [DecidableEq ι] [DecidableEq V] [DecidableEq W] in
theorem Corresponds.decided_iff (h : Corresponds f m m') :
    Decided m' ↔ Decided m := by
  refine forall_congr' fun c => ?_
  rw [h c, Finset.card_map]

omit [DecidableEq ι] [DecidableEq V] [DecidableEq W] in
theorem Corresponds.closed (h : Corresponds f m m') (hclosed : Closed peer m') :
    Closed peer m := by
  intro c v hv d hpeer hmem
  exact hclosed c (f v) (h.eq_singleton_iff.mpr hv) d hpeer
    (h.mem_iff.mpr hmem)

omit [DecidableEq ι] [DecidableEq V] [DecidableEq W] in
theorem Corresponds.justified {digits : Finset V} (h : Corresponds f m m')
    (hjust : Justified peer (digits.map f) m') : Justified peer digits m := by
  intro d hcard v hv hnot
  have hcard' : 1 < (m' d).card := by
    rw [h d, Finset.card_map]
    exact hcard
  obtain ⟨c, hpeer, hc⟩ := hjust d hcard' (f v)
    (Finset.mem_map_of_mem f hv) (mt h.mem_iff.mp hnot)
  rw [h c, ← Finset.map_singleton, Finset.map_subset_map] at hc
  exact ⟨c, hpeer, hc⟩

/-- Laps that deduce the same values keep corresponding grids in step. -/
theorem refineLap_corresponds [Fintype ι] {store : CandidateStore G ι V}
    {store' : CandidateStore H ι W} {order : PeerOrder peer}
    {deducer : Deducer store houses} {deducer' : Deducer store' houses}
    {lap : Lap ι} {isPossible : G → Bool} {isPossible' : H → Bool}
    (hdeduce : ∀ {g h}, Corresponds f (store.candidates g)
      (store'.candidates h) →
      ∀ c, deducer'.deduce h c = (deducer.deduce g c).map f)
    (hpossible : ∀ {g h}, Corresponds f (store.candidates g)
      (store'.candidates h) → isPossible' h = isPossible g)
    (last : Option ι) (cur : ι) {g : G} {h : H}
    (hgrids : Corresponds f (store.candidates g) (store'.candidates h)) :
    Corresponds f
      (store.candidates
        (refineLap store order deducer lap isPossible last cur g))
      (store'.candidates
        (refineLap store' order deducer' lap isPossible' last cur h)) := by
  fun_induction refineLap store order deducer lap isPossible last cur g
    generalizing h with
  | case1 cur g =>
      rw [refineLap, if_pos rfl]
      exact hgrids
  | case2 last cur g hlast p hded hpos ih =>
      have hset := store.setSquare_corresponds store' order hgrids p cur
      have hded' := hdeduce hgrids cur
      rw [hded, Option.map_some] at hded'
      rw [refineLap.eq_def store' order deducer', if_neg hlast]
      split
      · next q hq =>
        cases hded'.symm.trans hq
        rw [if_pos ((hpossible hset).trans hpos)]
        exact ih hset
      · next hnone => cases hded'.symm.trans hnone
  | case3 last cur g hlast p hded hpos =>
      have hset := store.setSquare_corresponds store' order hgrids p cur
      have hded' := hdeduce hgrids cur
      rw [hded, Option.map_some] at hded'
      rw [refineLap.eq_def store' order deducer', if_neg hlast]
      split
      · next q hq =>
        cases hded'.symm.trans hq
        rw [if_neg (by rw [hpossible hset]; exact hpos)]
        exact hset
      · next hnone => cases hded'.symm.trans hnone
  | case4 last cur g hlast hded ih =>
      have hded' := hdeduce hgrids cur
      rw [hded, Option.map_none] at hded'
      rw [refineLap.eq_def store' order deducer', if_neg hlast]
      split
      · next q hq => cases hded'.symm.trans hq
      · exact ih hgrids

/-! ## Solvers -/

namespace Solver

variable {digits : Finset V} {digits' : Finset W}

/-- Two solvers that treat related grids alike. -/
structure InStep (solver : Solver σ G peer houses digits)
    (solver' : Solver σ H peer houses digits') (grids : G → H → Prop) :
    Prop where
  refine : ∀ {g h}, grids g h → grids (solver.refine g) (solver'.refine h)
  isComplete : ∀ {g h}, grids g h → solver'.isComplete h = solver.isComplete g
  isPossible : ∀ {g h}, grids g h → solver'.isPossible h = solver.isPossible g
  keep : ∀ {g h}, grids g h → solver'.keep h = solver.keep g
  split : ∀ st {g h}, grids g h → Option.Rel
    (fun r r' => r.1 = r'.1 ∧ List.Forall₂ grids r.2 r'.2)
    (solver.split st g) (solver'.split st h)
  arrange : ∀ {l l'}, List.Forall₂ grids l l' →
    List.Forall₂ grids (solver.arrange l) (solver'.arrange l')

variable {solver : Solver σ G peer houses digits}
variable {solver' : Solver σ H peer houses digits'} {grids : G → H → Prop}

/-- Related solutions that are found in the same state. -/
def SolutionRel (grids : G → H → Prop) (e : G × σ) (e' : H × σ) : Prop :=
  grids e.1 e'.1 ∧ e.2 = e'.2

/-- One round of two solvers in step. -/
theorem InStep.inspect (hstep : InStep solver solver' grids) (st : σ) {g : G}
    {h : H} (hgrids : grids g h) :
    Worklist.StepRel grids (SolutionRel grids) (solver.inspect st g)
      (solver'.inspect st h) := by
  have hrefine := hstep.refine hgrids
  rw [Solver.inspect, Solver.inspect, hstep.isComplete hrefine,
    hstep.isPossible hrefine]
  split
  · exact Option.Rel.some
      ⟨rfl, List.Forall₂.cons ⟨hrefine, rfl⟩ List.Forall₂.nil,
        List.Forall₂.nil⟩
  · split
    · have hsplit := hstep.split st hrefine
      revert hsplit
      generalize solver.split st (solver.refine g) = r
      generalize solver'.split st (solver'.refine h) = r'
      rintro (⟨hsame, hsplits⟩ | _)
      · refine Option.Rel.some ⟨hsame, ?_, ?_⟩
        · rw [List.forall₂_map_left_iff, List.forall₂_map_right_iff]
          have hcomplete := forall₂_filter
            (fun x y hxy => hstep.isComplete hxy) hsplits
          exact hcomplete.imp fun x y hxy => ⟨hxy, hsame⟩
        · apply hstep.arrange
          apply forall₂_filter _ hsplits
          intro x y hxy
          rw [hstep.isComplete hxy, hstep.keep hxy]
      · exact Option.Rel.none
    · exact Option.Rel.some ⟨rfl, List.Forall₂.nil, List.Forall₂.nil⟩

variable [Fintype ι]

/-- Solvers in step find related solutions, in the same order and in the same
states. -/
theorem InStep.run (hstep : InStep solver solver' grids) (st : σ)
    {pending : List G} {pending' : List H}
    (hpending : List.Forall₂ grids pending pending') :
    Worklist.RunRel (SolutionRel grids) (solver.run st pending)
      (solver'.run st pending') :=
  solver.worklist.run_rel solver'.worklist
    (fun st _ _ hgrids => hstep.inspect st hgrids) st hpending

end Solver

end Propagation

end SudokuSolver
