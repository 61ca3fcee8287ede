import SudokuSolver.Support.Clues

/-!
# Exhaustive search

A solver takes a grid, draws deductions from it, and splits one of its cells
when there is still something open.  Splits that are complete are solutions;
the others are put in front of the pending grids.  The solvers differ in how
they refine and split a grid, in which incomplete splits they keep, and in the
order in which they keep them.  Whatever the choice, every filling of the grid
is found exactly once.
-/

namespace SudokuSolver.Propagation

variable {σ G ι V κ : Type*} [DecidableEq ι] [DecidableEq V]

/-- The list holds one version of `m` for every candidate of an open cell. -/
def Branches (peer : ι → ι → Prop) (candidates : G → Candidates ι V)
    (m : Candidates ι V) (splits : List G) : Prop :=
  ∃ c values, 1 < (m c).card ∧ values.Nodup ∧ (∀ v, v ∈ values ↔ v ∈ m c) ∧
    List.Forall₂ (fun v x => Decides peer m c v (candidates x)) values splits

/-- The order of the versions does not matter. -/
theorem Branches.perm {peer : ι → ι → Prop} {candidates : G → Candidates ι V}
    {m : Candidates ι V} {splits visited : List G}
    (h : Branches peer candidates m splits) (hperm : splits.Perm visited) :
    Branches peer candidates m visited := by
  obtain ⟨c, values, hcard, hnodup, hmem, hsplits⟩ := h
  have hcomp : Relation.Comp
      (List.Forall₂ fun v x => Decides peer m c v (candidates x))
      List.Perm values visited := ⟨splits, hsplits, hperm⟩
  rw [List.forall₂_comp_perm_eq_perm_comp_forall₂] at hcomp
  obtain ⟨values', hvalues, hvisited⟩ := hcomp
  exact ⟨c, values', hcard, hvalues.nodup_iff.mp hnodup,
    fun v => hvalues.mem_iff.symm.trans (hmem v), hvisited⟩

/-- A solver for grids of type `G`, with a state `σ` that its splits change.
A split without a result is one that raises an error. -/
structure Solver (σ G : Type*) (peer : ι → ι → Prop) (houses : κ → Finset ι)
    (digits : Finset V) where
  candidates : G → Candidates ι V
  refine : G → G
  isComplete : G → Bool
  isPossible : G → Bool
  split : σ → G → Option (σ × List G)
  keep : G → Bool
  arrange : List G → List G
  deduces_refine : ∀ g,
    Deduces peer houses (candidates g) (candidates (refine g))
  closed_refine : ∀ g, Closed peer (candidates g) →
    Closed peer (candidates (refine g))
  isComplete_iff : ∀ g, Within digits (candidates g) →
    (isComplete g = true ↔ Decided (candidates g))
  isPossible_iff : ∀ g, isPossible g = true ↔ Live (candidates g)
  branches_split : ∀ st g st' splits, split st g = some (st', splits) →
    Branches peer candidates (candidates g) splits
  split_isSome : ∀ st g, Live (candidates g) → ¬Decided (candidates g) →
    ∃ st' splits, split st g = some (st', splits)
  keep_of_live : ∀ g, Live (candidates g) → keep g = true
  arrange_perm : ∀ l, (arrange l).Perm l

namespace Solver

variable {peer : ι → ι → Prop} {houses : κ → Finset ι} {digits : Finset V}
variable [Fintype ι] (solver : Solver σ G peer houses digits)

/-- The splits of a grid that are put in front of the pending grids. -/
def pushed (splits : List G) : List G :=
  solver.arrange
    (splits.filter fun x => !solver.isComplete x && solver.keep x)

/-- One round: the new state, the solutions found, each with the state it is
found in, and the grids that become pending. -/
def inspect (st : σ) (g : G) : Option (σ × List (G × σ) × List G) :=
  if solver.isComplete (solver.refine g) then
    some (st, [(solver.refine g, st)], [])
  else if solver.isPossible (solver.refine g) then
    (solver.split st (solver.refine g)).map fun p =>
      (p.1, (p.2.filter solver.isComplete).map fun x => (x, p.1),
        solver.pushed p.2)
  else some (st, [], [])

theorem sum_weight_pushed_lt {m : Candidates ι V} {splits : List G}
    (h : Branches peer solver.candidates m splits) :
    ((solver.pushed splits).map fun x => weight (solver.candidates x)).sum <
      weight m := by
  obtain ⟨c, values, hcard, hnodup, hmem, hsplits⟩ := h
  have hlength : values.length = (m c).card := by
    rw [← List.toFinset_card_of_nodup hnodup]
    congr 1
    ext v
    rw [List.mem_toFinset, hmem]
  rw [pushed, ((solver.arrange_perm _).map _).sum_eq]
  exact sum_weight_splits_lt _ hlength hcard hsplits

theorem inspect_weight_lt {st st' : σ} {g : G} {out : List (G × σ)}
    {pushed : List G} (h : solver.inspect st g = some (st', out, pushed)) :
    (pushed.map fun x => weight (solver.candidates x)).sum <
      weight (solver.candidates g) := by
  have hle := weight_mono (solver.deduces_refine g).le
  have hpos := weight_pos (solver.candidates g)
  rw [inspect] at h
  split at h
  · cases h
    exact hpos
  · split at h
    · obtain ⟨⟨st₁, splits⟩, hsplit, heq⟩ := Option.map_eq_some_iff.mp h
      cases heq
      exact (solver.sum_weight_pushed_lt
        (solver.branches_split _ _ _ _ hsplit)).trans_le hle
    · cases h
      exact hpos

/-- The grids awaiting inspection. -/
def worklist : Worklist σ G (G × σ) where
  step := solver.inspect
  weight g := weight (solver.candidates g)
  weight_lt := solver.inspect_weight_lt

/-- All solutions found until nothing is pending, and the final state. -/
def run (st : σ) (pending : List G) : Option (List (G × σ) × σ) :=
  solver.worklist.run st pending

@[simp] theorem run_nil (st : σ) : solver.run st [] = some ([], st) :=
  solver.worklist.run_nil st

section Recursion

variable {solver} {st : σ} {g : G} {pending : List G}

theorem run_cons_of_inspect {st' : σ} {out : List (G × σ)} {pushed : List G}
    (h : solver.inspect st g = some (st', out, pushed)) :
    solver.run st (g :: pending) =
      (solver.run st' (pushed ++ pending)).map fun r => (out ++ r.1, r.2) :=
  solver.worklist.run_cons h pending

/-- A grid that is complete is handed out. -/
theorem run_cons_complete
    (hcomplete : solver.isComplete (solver.refine g) = true) :
    solver.run st (g :: pending) = (solver.run st pending).map fun r =>
      ((solver.refine g, st) :: r.1, r.2) := by
  rw [run_cons_of_inspect (by rw [inspect, if_pos hcomplete])]
  rfl

/-- An open grid is split, and its splits go in front of the other grids. -/
theorem run_cons_split
    (hcomplete : ¬solver.isComplete (solver.refine g) = true)
    (hpossible : solver.isPossible (solver.refine g) = true) :
    solver.run st (g :: pending) =
      (solver.split st (solver.refine g)).bind fun p =>
        (solver.run p.1 (solver.pushed p.2 ++ pending)).map fun r =>
          ((p.2.filter solver.isComplete).map (fun x => (x, p.1)) ++ r.1,
            r.2) := by
  cases hsplit : solver.split st (solver.refine g) with
  | none =>
      exact solver.worklist.run_cons_none
        (show solver.inspect st g = none by
          rw [inspect, if_neg hcomplete, if_pos hpossible, hsplit]
          rfl) pending
  | some p =>
      rw [run_cons_of_inspect (by
        rw [inspect, if_neg hcomplete, if_pos hpossible, hsplit]
        rfl)]
      rfl

/-- An impossible grid is dropped. -/
theorem run_cons_impossible
    (hcomplete : ¬solver.isComplete (solver.refine g) = true)
    (hpossible : ¬solver.isPossible (solver.refine g) = true) :
    solver.run st (g :: pending) = solver.run st pending := by
  rw [run_cons_of_inspect
    (by rw [inspect, if_neg hcomplete, if_neg hpossible])]
  simp

end Recursion

theorem completions_refine {g : G}
    (hwithin : Within digits (solver.candidates g)) :
    completions peer houses digits (solver.candidates (solver.refine g)) =
      completions peer houses digits (solver.candidates g) :=
  completions_congr fun _ hS =>
    (solver.deduces_refine g).admits_iff hS hwithin

/-- One round loses no filling and shows none twice. -/
theorem inspect_exact
    (hfills : ∀ S : ι → V, (∀ c, S c ∈ digits) →
      (∀ c d, peer c d → S c ≠ S d) → Fills peer houses digits S)
    (st : σ) {g : G} (hclosed : Closed peer (solver.candidates g))
    (hwithin : Within digits (solver.candidates g)) :
    ∃ st' out pushed, solver.inspect st g = some (st', out, pushed) ∧
      (∀ x ∈ pushed, Closed peer (solver.candidates x) ∧
        Within digits (solver.candidates x)) ∧
      completions peer houses digits (solver.candidates g) =
        ↑(out.map fun e => solver.candidates e.1) +
          (↑pushed : Multiset G).bind fun x =>
            completions peer houses digits (solver.candidates x) := by
  have hclosed' := solver.closed_refine g hclosed
  have hwithin' := hwithin.mono (solver.deduces_refine g).le
  rw [← solver.completions_refine hwithin, inspect]
  generalize solver.refine g = g at hclosed' hwithin' ⊢
  by_cases hcomplete : solver.isComplete g = true
  · rw [if_pos hcomplete]
    refine ⟨_, _, _, rfl, by simp, ?_⟩
    rw [completions_decided hfills hclosed' hwithin'
      ((solver.isComplete_iff g hwithin').mp hcomplete)]
    simp
  · rw [if_neg hcomplete]
    by_cases hpossible : solver.isPossible g = true
    · rw [if_pos hpossible]
      obtain ⟨st', splits, hsplit⟩ := solver.split_isSome st g
        ((solver.isPossible_iff g).mp hpossible)
        (fun h => hcomplete ((solver.isComplete_iff g hwithin').mpr h))
      obtain ⟨c, values, -, hnodup, hmem, hsplits⟩ :=
        solver.branches_split _ _ _ _ hsplit
      have hperm := solver.arrange_perm
        (splits.filter fun x => !solver.isComplete x && solver.keep x)
      rw [hsplit]
      refine ⟨_, _, _, rfl, ?_, ?_⟩
      · intro x hx
        exact splits_invariant hclosed' hwithin' hmem hsplits
          (List.mem_of_mem_filter (hperm.mem_iff.mp hx))
      · rw [pushed, Multiset.coe_eq_coe.mpr hperm, List.map_map]
        exact completions_partition hfills solver.candidates
          solver.isComplete solver.keep solver.isComplete_iff
          solver.keep_of_live hclosed' hwithin' hnodup hmem hsplits
    · rw [if_neg hpossible]
      refine ⟨_, _, _, rfl, by simp, ?_⟩
      rw [completions_of_not_live fun hlive =>
        hpossible ((solver.isPossible_iff g).mpr hlive)]
      simp

/-- The search ends, and shows every filling of the grid once. -/
theorem enumerates_run
    (hfills : ∀ S : ι → V, (∀ c, S c ∈ digits) →
      (∀ c d, peer c d → S c ≠ S d) → Fills peer houses digits S)
    (st : σ) {g : G} (hclosed : Closed peer (solver.candidates g))
    (hwithin : Within digits (solver.candidates g)) :
    ∃ found st', solver.run st [g] = some (found, st') ∧
      Enumerates (found.map fun e => solver.candidates e.1) fun S =>
        Fills peer houses digits S ∧ Admits (solver.candidates g) S := by
  obtain ⟨found, st', hrun, hval⟩ := solver.worklist.run_exact
    (fun g => Closed peer (solver.candidates g) ∧
      Within digits (solver.candidates g))
    (fun g => completions peer houses digits (solver.candidates g))
    (fun e => solver.candidates e.1)
    (fun st g hg => by
      obtain ⟨st', out, pushed, hinspect, hinv, hcount⟩ :=
        solver.inspect_exact hfills st hg.1 hg.2
      exact ⟨st', out, pushed, hinspect, hinv, hcount⟩)
    st [g] (by simpa using ⟨hclosed, hwithin⟩)
  refine ⟨found, st', hrun, enumerates_of_eq_completions ?_⟩
  rw [hval, Multiset.coe_singleton, Multiset.singleton_bind]

end Solver

end SudokuSolver.Propagation
