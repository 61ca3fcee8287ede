import Mathlib.Dynamics.PeriodicPts.Defs
import SudokuSolver.Support.Cascade

/-!
# Deduction and its fixpoints

A house is a set of cells in which every digit has to occur.  A value that is
left in only one cell of a house must be the value of that cell.  Together with
justified eliminations this gives the deductions of this module.  Deductions
never lose a filling, and as long as there is a filling at all, every strategy
that ends in a fixpoint ends in the same one.

The last section is a strategy: one lap over the cells that goes on until it is
back at the last cell it decided.
-/

namespace SudokuSolver.Propagation

variable {G ι V κ : Type*} {peer : ι → ι → Prop} {houses : κ → Finset ι}

/-- The undecided cell `c` must hold `p`, since it is the only cell of some
house in which `p` is left. -/
def Deducible (houses : κ → Finset ι) (m : Candidates ι V)
    (c : ι) (p : V) : Prop :=
  1 < (m c).card ∧ p ∈ m c ∧
    ∃ h, c ∈ houses h ∧ ∀ d ∈ houses h, d ≠ c → p ∉ m d

/-- Nothing is left to deduce. -/
def Exhausted (houses : κ → Finset ι) (m : Candidates ι V) : Prop :=
  ∀ c p, ¬Deducible houses m c p

/-- A choice that gives peers different values and uses every digit in every
house. -/
structure Fills (peer : ι → ι → Prop) (houses : κ → Finset ι)
    (digits : Finset V) (S : ι → V) : Prop where
  distinct : ∀ c d, peer c d → S c ≠ S d
  covers : ∀ h, ∀ v ∈ digits, ∃ d ∈ houses h, S d = v

/-- All candidates are digits. -/
def Within (digits : Finset V) (m : Candidates ι V) : Prop :=
  ∀ c, m c ⊆ digits

theorem Within.mono {digits : Finset V} {m m' : Candidates ι V}
    (h : Within digits m) (hle : m' ≤ m) : Within digits m' :=
  fun c => (hle c).trans (h c)

/-- The value a house forces on a cell is the value of that cell in every
filling. -/
theorem Deducible.eq_of_fills {digits : Finset V} {m : Candidates ι V}
    {S : ι → V} {c : ι} {p : V} (hded : Deducible houses m c p)
    (hS : Fills peer houses digits S) (hwithin : Within digits m)
    (hadm : Admits m S) : S c = p := by
  obtain ⟨-, hp, h, -, honly⟩ := hded
  obtain ⟨d, hd, hdp⟩ := hS.covers h p (hwithin c hp)
  have hdc : d = c := by
    by_contra hne
    exact honly d hd hne (hdp ▸ hadm d)
  rw [← hdc, hdp]

section Deductions

variable [DecidableEq ι] [DecidableEq V]

/-- One deduction: a justified elimination, or deciding a cell whose value is
forced by a house. -/
inductive Deduction (peer : ι → ι → Prop) (houses : κ → Finset ι) :
    Candidates ι V → Candidates ι V → Prop
  | eliminate {m m' : Candidates ι V} :
      Elimination peer m m' → Deduction peer houses m m'
  | decide {m : Candidates ι V} {c : ι} {p : V} :
      Deducible houses m c p → Deduction peer houses m (decideAt m c p)

/-- Any number of deductions. -/
abbrev Deduces (peer : ι → ι → Prop) (houses : κ → Finset ι) :
    Candidates ι V → Candidates ι V → Prop :=
  Relation.ReflTransGen (Deduction peer houses)

theorem Deduction.le {m m' : Candidates ι V}
    (h : Deduction peer houses m m') : m' ≤ m := by
  cases h with
  | eliminate h => exact h.le
  | decide h => exact decideAt_le h.2.1

theorem Deduces.le {m m' : Candidates ι V}
    (h : Deduces peer houses m m') : m' ≤ m := by
  induction h with
  | refl => exact le_rfl
  | tail _ hstep ih => exact hstep.le.trans ih

theorem Eliminates.deduces {m m' : Candidates ι V}
    (h : Eliminates peer m m') : Deduces peer houses m m' := by
  induction h with
  | refl => exact Relation.ReflTransGen.refl
  | tail _ hstep ih => exact ih.tail (Deduction.eliminate hstep)

theorem Deduces.admits {digits : Finset V} {m m' : Candidates ι V} {S : ι → V}
    (h : Deduces peer houses m m') (hS : Fills peer houses digits S)
    (hwithin : Within digits m) (hadm : Admits m S) : Admits m' S := by
  induction h with
  | refl => exact hadm
  | tail hsteps hstep ih =>
      cases hstep with
      | eliminate hstep =>
          exact Eliminates.admits (Relation.ReflTransGen.single hstep)
            hS.distinct ih
      | decide hded =>
          exact ih.decideAt
            (hded.eq_of_fills hS (hwithin.mono (Deduces.le hsteps)) ih)

theorem Deduces.admits_iff {digits : Finset V} {m m' : Candidates ι V}
    {S : ι → V} (h : Deduces peer houses m m')
    (hS : Fills peer houses digits S) (hwithin : Within digits m) :
    Admits m' S ↔ Admits m S :=
  ⟨fun hadm => hadm.mono h.le, h.admits hS hwithin⟩

/-! ## Confluence -/

/-- A fixpoint with a filling that starts below `m` stays below everything
deduced from `m`. -/
theorem Deduces.keeps {digits : Finset V} {m m' h : Candidates ι V}
    {S : ι → V} (hsteps : Deduces peer houses m m')
    (hS : Fills peer houses digits S) (hwithin : Within digits m)
    (hadm : Admits h S) (hclosed : Closed peer h)
    (hexhausted : Exhausted houses h) (hle : h ≤ m) : h ≤ m' := by
  induction hsteps with
  | refl => exact hle
  | @tail k m' hbefore hstep ih =>
      cases hstep with
      | eliminate hstep => exact hstep.keeps hclosed hadm.live ih
      | @decide c p hded =>
          have hSc : S c = p := hded.eq_of_fills hS
            (hwithin.mono (Deduces.le hbefore)) (hadm.mono ih)
          have hp : p ∈ h c := hSc ▸ hadm c
          have hcard : (h c).card ≤ 1 := by
            by_contra hmore
            obtain ⟨-, -, house, hc, honly⟩ := hded
            exact hexhausted c p ⟨not_le.mp hmore, hp, house, hc,
              fun d hd hdc hmem => honly d hd hdc (ih d hmem)⟩
          intro d
          by_cases hdc : d = c
          · subst d
            rw [decideAt_self]
            intro v hv
            rw [Finset.mem_singleton]
            exact Finset.card_le_one.mp hcard v hv p hp
          · rw [decideAt_of_ne k hdc]
            exact ih d

/-- Two strategies that end in fixpoints agree, as soon as the map they start
from has a filling. -/
theorem Deduces.confluent {digits : Finset V} {m r₁ r₂ : Candidates ι V}
    {S : ι → V} (hS : Fills peer houses digits S)
    (hwithin : Within digits m) (hadm : Admits m S)
    (h₁ : Deduces peer houses m r₁) (hclosed₁ : Closed peer r₁)
    (hexhausted₁ : Exhausted houses r₁)
    (h₂ : Deduces peer houses m r₂) (hclosed₂ : Closed peer r₂)
    (hexhausted₂ : Exhausted houses r₂) : r₁ = r₂ :=
  le_antisymm
    (h₂.keeps hS hwithin (h₁.admits hS hwithin hadm) hclosed₁
      hexhausted₁ h₁.le)
    (h₁.keeps hS hwithin (h₂.admits hS hwithin hadm) hclosed₂
      hexhausted₂ h₂.le)

end Deductions

/-! ## Deductions on a concrete grid -/

variable [DecidableEq ι] [DecidableEq V]

/-- A search for a value that a house forces on a cell. -/
structure Deducer (store : CandidateStore G ι V) (houses : κ → Finset ι) where
  deduce : G → ι → Option V
  deduce_some : ∀ {g c p}, deduce g c = some p →
    Deducible houses (store.candidates g) c p
  deduce_none : ∀ {g c}, deduce g c = none →
    ∀ p, ¬Deducible houses (store.candidates g) c p

section Strategy

variable [Fintype ι] (store : CandidateStore G ι V) (order : PeerOrder peer)

theorem CandidateStore.deduces_setSquare {g : G} {c : ι} {p : V}
    (hded : Deducible houses (store.candidates g) c p) :
    Deduces peer houses (store.candidates g)
      (store.candidates (store.setSquare order p c g)) :=
  Relation.ReflTransGen.head (Deduction.decide hded)
    (store.eliminates_setSquare order p c g).deduces

theorem CandidateStore.size_setSquare_lt {g : G} {c : ι} {p : V}
    (hded : Deducible houses (store.candidates g) c p) :
    size (store.candidates (store.setSquare order p c g)) <
      size (store.candidates g) := by
  have hsize := store.size_setSquare order p c g
  have hcard := hded.1
  omega

/-- A cell that has just been decided offers nothing to deduce. -/
theorem CandidateStore.not_deducible_setSquare (p q : V) (c : ι) (g : G) :
    ¬Deducible houses (store.candidates (store.setSquare order p c g)) c q := by
  rintro ⟨hcard, -⟩
  have hle := Finset.card_le_card (store.setSquare_self_subset order p c g)
  rw [Finset.card_singleton] at hle
  omega

end Strategy

/-! ## Laps -/

/-- A successor function that runs through all cells. -/
structure Lap (ι : Type*) where
  next : ι → ι
  cyclic : ∀ c d, ∃ n, next^[n] c = d

namespace Lap

variable (lap : Lap ι)

/-- How many moves lead from `c` to `d`. -/
def distance (c d : ι) : ℕ := Nat.find (lap.cyclic c d)

theorem iterate_distance (c d : ι) : lap.next^[lap.distance c d] c = d :=
  Nat.find_spec (lap.cyclic c d)

theorem distance_le {c d : ι} {n : ℕ} (h : lap.next^[n] c = d) :
    lap.distance c d ≤ n :=
  Nat.find_min' (lap.cyclic c d) h

theorem distance_next {c d : ι} (hcd : c ≠ d) :
    lap.distance c d = lap.distance (lap.next c) d + 1 := by
  apply le_antisymm
  · apply lap.distance_le
    rw [Function.iterate_succ_apply]
    exact lap.iterate_distance (lap.next c) d
  · cases hk : lap.distance c d with
    | zero =>
        have hzero := lap.iterate_distance c d
        rw [hk] at hzero
        exact absurd hzero hcd
    | succ k =>
        have hsucc := lap.iterate_distance c d
        rw [hk, Function.iterate_succ_apply] at hsucc
        exact Nat.succ_le_succ (lap.distance_le hsucc)

/-- How many cells a lap still visits when it stands at `cur` and stops as
soon as it is back at `last`; without a `last` it visits every cell. -/
def remaining : Option ι → ι → ℕ
  | none, cur => lap.distance (lap.next cur) cur + 1
  | some last, cur => lap.distance cur last

/-- The cells a lap still visits. -/
def Ahead (last : Option ι) (cur c : ι) : Prop :=
  ∃ i < lap.remaining last cur, lap.next^[i] cur = c

/-- A lap that starts anywhere visits every cell before it is back. -/
theorem ahead_none (cur c : ι) : lap.Ahead none cur c := by
  have hperiod : Function.IsPeriodicPt lap.next
      (lap.distance (lap.next cur) cur + 1) cur := by
    rw [Function.IsPeriodicPt, Function.IsFixedPt,
      Function.iterate_succ_apply]
    exact lap.iterate_distance (lap.next cur) cur
  obtain ⟨n, hn⟩ := lap.cyclic cur c
  refine ⟨n % (lap.distance (lap.next cur) cur + 1),
    Nat.mod_lt _ (Nat.succ_pos _), ?_⟩
  rw [hperiod.iterate_mod_apply, hn]

/-- Moving on leaves behind only the cell just visited. -/
theorem Ahead.next {last : Option ι} {cur c : ι}
    (hlast : last ≠ some cur) (h : lap.Ahead last cur c) :
    c = cur ∨ lap.Ahead (last.or (some cur)) (lap.next cur) c := by
  obtain ⟨i, hi, hc⟩ := h
  cases i with
  | zero => exact Or.inl hc.symm
  | succ i =>
      rw [Function.iterate_succ_apply] at hc
      refine Or.inr ⟨i, ?_, hc⟩
      cases last with
      | none => exact Nat.lt_of_succ_lt_succ hi
      | some last =>
          have hne : cur ≠ last := fun h => hlast (congrArg some h.symm)
          have hstep := lap.distance_next hne
          simp only [remaining] at hi
          simp only [Option.some_or, remaining]
          omega

theorem remaining_next {last : Option ι} {cur : ι}
    (hlast : last ≠ some cur) :
    lap.remaining (last.or (some cur)) (lap.next cur) <
      lap.remaining last cur := by
  cases last with
  | none => exact Nat.lt_succ_self _
  | some last =>
      have hne : cur ≠ last := fun h => hlast (congrArg some h.symm)
      simp only [Option.some_or, remaining, lap.distance_next hne]
      exact Nat.lt_succ_self _

end Lap

section LapStrategy

variable [Fintype ι] (store : CandidateStore G ι V) (order : PeerOrder peer)
variable (deducer : Deducer store houses) (lap : Lap ι)
variable (isPossible : G → Bool)

/-- Visit cell after cell and decide those whose value a house forces, until
the lap is back at the last cell it decided or the grid has become
impossible. -/
def refineLap (last : Option ι) (cur : ι) (g : G) : G :=
  if last = some cur then g
  else
    match _hded : deducer.deduce g cur with
    | some p =>
        if isPossible (store.setSquare order p cur g) then
          refineLap (some cur) (lap.next cur) (store.setSquare order p cur g)
        else store.setSquare order p cur g
    | none => refineLap (last.or (some cur)) (lap.next cur) g
termination_by (size (store.candidates g), lap.remaining last cur)
decreasing_by
  · exact Prod.Lex.left _ _
      (store.size_setSquare_lt order (deducer.deduce_some _hded))
  · rename_i hlast
    exact Prod.Lex.right _ (lap.remaining_next hlast)

theorem deduces_refineLap (last : Option ι) (cur : ι) (g : G) :
    Deduces peer houses (store.candidates g) (store.candidates
      (refineLap store order deducer lap isPossible last cur g)) := by
  fun_induction refineLap store order deducer lap isPossible last cur g with
  | case1 => exact Relation.ReflTransGen.refl
  | case2 _ _ _ _ _ hded _ ih =>
      exact (store.deduces_setSquare order (deducer.deduce_some hded)).trans ih
  | case3 _ _ _ _ _ hded =>
      exact store.deduces_setSquare order (deducer.deduce_some hded)
  | case4 _ _ _ _ _ ih => exact ih

theorem closed_refineLap (last : Option ι) (cur : ι) (g : G)
    (hclosed : Closed peer (store.candidates g)) :
    Closed peer (store.candidates
      (refineLap store order deducer lap isPossible last cur g)) := by
  fun_induction refineLap store order deducer lap isPossible last cur g with
  | case1 => exact hclosed
  | case2 _ cur _ _ p _ _ ih =>
      exact ih (store.closed_setSquare order p cur hclosed)
  | case3 _ cur _ _ p => exact store.closed_setSquare order p cur hclosed
  | case4 _ _ _ _ _ ih => exact ih hclosed

/-- A lap that stops with every cell still possible has nothing left to
deduce: the cells behind it offered nothing when they were visited, and nothing
has changed since. -/
theorem exhausted_refineLap
    (hpossible : ∀ g, isPossible g = true ↔ Live (store.candidates g))
    (last : Option ι) (cur : ι) (g : G)
    (hbehind : ∀ c, ¬lap.Ahead last cur c →
      ∀ p, ¬Deducible houses (store.candidates g) c p)
    (hlive : Live (store.candidates
      (refineLap store order deducer lap isPossible last cur g))) :
    Exhausted houses (store.candidates
      (refineLap store order deducer lap isPossible last cur g)) := by
  fun_induction refineLap store order deducer lap isPossible last cur g with
  | case1 cur g =>
      intro c
      apply hbehind c
      rintro ⟨i, hi, -⟩
      have hzero : lap.remaining (some cur) cur ≤ 0 :=
        lap.distance_le (n := 0) rfl
      omega
  | case2 last cur g hlast p hded hpos ih =>
      refine ih ?_ hlive
      intro c hc q
      rcases (lap.ahead_none cur c).next lap (by simp) with rfl | hahead
      · exact store.not_deducible_setSquare order p q c _
      · exact absurd hahead hc
  | case3 last cur g hlast p hded hpos =>
      exact absurd ((hpossible _).mpr hlive) hpos
  | case4 last cur g hlast hded ih =>
      refine ih ?_ hlive
      intro c hc
      by_cases hahead : lap.Ahead last cur c
      · rcases hahead.next lap hlast with rfl | hnext
        · exact deducer.deduce_none hded
        · exact absurd hnext hc
      · exact hbehind c hahead

/-- A whole lap, started anywhere without a last decided cell. -/
theorem exhausted_refineLap_none
    (hpossible : ∀ g, isPossible g = true ↔ Live (store.candidates g))
    (cur : ι) (g : G)
    (hlive : Live (store.candidates
      (refineLap store order deducer lap isPossible none cur g))) :
    Exhausted houses (store.candidates
      (refineLap store order deducer lap isPossible none cur g)) :=
  exhausted_refineLap store order deducer lap isPossible hpossible none cur g
    (fun c hc => absurd (lap.ahead_none cur c) hc) hlive

end LapStrategy

end SudokuSolver.Propagation
