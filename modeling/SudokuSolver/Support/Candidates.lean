import Mathlib.Algebra.BigOperators.Fin
import Mathlib.Algebra.Order.BigOperators.Group.Finset
import Mathlib.Data.Fintype.BigOperators
import Mathlib.Logic.Relation
import SudokuSolver.Support.Update

/-!
# Candidate maps and justified eliminations

A candidate map assigns to every cell the finite set of values the cell may
still take.  Two cells are peers when they must not hold the same value.  A
removal is justified by a peer that can hold nothing else than the removed
value.  This module contains the order-theoretic part of that picture, over
arbitrary cells, values and peer relations: what justified eliminations keep,
what they remove, and how the number of remaining candidates falls.
-/

namespace SudokuSolver.Propagation

variable {ι V : Type*}

/-- The values every cell may still take. -/
abbrev Candidates (ι V : Type*) := ι → Finset V

/-- Every choice made by `S` is still a candidate. -/
def Admits (m : Candidates ι V) (S : ι → V) : Prop :=
  ∀ c, S c ∈ m c

/-- No cell has lost all of its candidates. -/
def Live (m : Candidates ι V) : Prop :=
  ∀ c, (m c).Nonempty

/-- Once `c` has a single candidate, no peer of `c` has it. -/
def Settled (peer : ι → ι → Prop) (m : Candidates ι V) (c : ι) : Prop :=
  ∀ v, m c = {v} → ∀ d, peer c d → v ∉ m d

/-- Every cell is settled. -/
def Closed (peer : ι → ι → Prop) (m : Candidates ι V) : Prop :=
  ∀ c, Settled peer m c

theorem Admits.live {m : Candidates ι V} {S : ι → V} (hS : Admits m S) :
    Live m := fun c => ⟨S c, hS c⟩

theorem Admits.mono {m m' : Candidates ι V} {S : ι → V}
    (hS : Admits m' S) (hle : m' ≤ m) : Admits m S :=
  fun c => hle c (hS c)

theorem Live.mono {m m' : Candidates ι V} (hlive : Live m') (hle : m' ≤ m) :
    Live m := fun c => (hlive c).mono (hle c)

/-- In a live map a cell with at most one candidate has exactly that one. -/
theorem Live.eq_singleton {m : Candidates ι V} (hlive : Live m)
    {c : ι} {v : V} (hc : m c ⊆ {v}) : m c = {v} :=
  (hlive c).subset_singleton_iff.mp hc

/-! ## The two elementary updates -/

section Updates

variable [DecidableEq ι]

/-- Leave `v` as the only candidate of `c`, whatever `c` held before. -/
def decideAt (m : Candidates ι V) (c : ι) (v : V) : Candidates ι V :=
  Function.update m c {v}

@[simp] theorem decideAt_self (m : Candidates ι V) (c : ι) (v : V) :
    decideAt m c v c = {v} := by
  simp [decideAt]

theorem decideAt_of_ne (m : Candidates ι V) {c d : ι} (hdc : d ≠ c) (v : V) :
    decideAt m c v d = m d := by
  simp [decideAt, hdc]

theorem decideAt_le {m : Candidates ι V} {c : ι} {v : V} (hv : v ∈ m c) :
    decideAt m c v ≤ m := by
  intro d
  by_cases hdc : d = c
  · subst d
    rw [decideAt_self]
    exact Finset.singleton_subset_iff.mpr hv
  · rw [decideAt_of_ne m hdc]

theorem Admits.decideAt {m : Candidates ι V} {S : ι → V} (hS : Admits m S)
    {c : ι} {v : V} (hc : S c = v) : Admits (decideAt m c v) S := by
  intro d
  by_cases hdc : d = c
  · subst d
    rw [decideAt_self]
    exact Finset.mem_singleton.mpr hc
  · rw [decideAt_of_ne m hdc]
    exact hS d

variable [DecidableEq V]

/-- Remove the candidate `v` from `c`. -/
def eraseAt (m : Candidates ι V) (c : ι) (v : V) : Candidates ι V :=
  Function.update m c ((m c).erase v)

@[simp] theorem eraseAt_self (m : Candidates ι V) (c : ι) (v : V) :
    eraseAt m c v c = (m c).erase v := by
  simp [eraseAt]

theorem eraseAt_of_ne (m : Candidates ι V) {c d : ι} (hdc : d ≠ c) (v : V) :
    eraseAt m c v d = m d := by
  simp [eraseAt, hdc]

theorem eraseAt_le (m : Candidates ι V) (c : ι) (v : V) :
    eraseAt m c v ≤ m := by
  intro d
  by_cases hdc : d = c
  · subst d
    rw [eraseAt_self]
    exact Finset.erase_subset _ _
  · rw [eraseAt_of_ne m hdc]

theorem eraseAt_of_notMem {m : Candidates ι V} {c : ι} {v : V}
    (hv : v ∉ m c) : eraseAt m c v = m := by
  rw [eraseAt, Finset.erase_eq_of_notMem hv, Function.update_eq_self]

end Updates

/-! ## Counting candidates -/

section Size

variable [Fintype ι]

/-- The number of candidates left in the whole map. -/
def size (m : Candidates ι V) : ℕ :=
  ∑ c, (m c).card

theorem size_mono {m m' : Candidates ι V} (hle : m' ≤ m) :
    size m' ≤ size m :=
  Finset.sum_le_sum fun c _ => Finset.card_le_card (hle c)

variable [DecidableEq ι]

theorem size_update (m : Candidates ι V) (c : ι) (s : Finset V) :
    size (Function.update m c s) + (m c).card = size m + s.card :=
  sum_update Finset.card m c s

theorem size_decideAt (m : Candidates ι V) (c : ι) (v : V) :
    size (decideAt m c v) + (m c).card = size m + 1 := by
  simpa [decideAt] using size_update m c {v}

theorem size_eraseAt_lt [DecidableEq V] {m : Candidates ι V} {c : ι} {v : V}
    (hv : v ∈ m c) : size (eraseAt m c v) < size m := by
  have hupdate := size_update m c ((m c).erase v)
  have hcard := Finset.card_erase_lt_of_mem hv
  rw [eraseAt]
  omega

end Size

/-! ## A single choice as a candidate map -/

/-- The map that leaves every cell only the choice of `S`. -/
def pointwise (S : ι → V) : Candidates ι V := fun c => {S c}

theorem pointwise_live (S : ι → V) : Live (pointwise S) :=
  fun c => Finset.singleton_nonempty (S c)

theorem pointwise_closed {peer : ι → ι → Prop} {S : ι → V}
    (hS : ∀ c d, peer c d → S c ≠ S d) : Closed peer (pointwise S) := by
  intro c v hv d hpeer
  have hcv : S c = v := Finset.singleton_injective hv
  intro hmem
  exact hS c d hpeer (hcv.trans (Finset.mem_singleton.mp hmem))

theorem pointwise_le_iff {S : ι → V} {m : Candidates ι V} :
    pointwise S ≤ m ↔ Admits m S := by
  constructor
  · intro hle c
    exact hle c (Finset.mem_singleton_self (S c))
  · intro hS c
    exact Finset.singleton_subset_iff.mpr (hS c)

/-! ## Justified eliminations -/

section Eliminations

variable [DecidableEq ι] [DecidableEq V] {peer : ι → ι → Prop}

/-- One justified elimination: a peer of `d` that can hold nothing else than
`v` takes `v` away from `d`. -/
def Elimination (peer : ι → ι → Prop) (m m' : Candidates ι V) : Prop :=
  ∃ c d v, peer c d ∧ m c ⊆ {v} ∧ m' = eraseAt m d v

/-- Any number of justified eliminations, one after the other. -/
abbrev Eliminates (peer : ι → ι → Prop) :
    Candidates ι V → Candidates ι V → Prop :=
  Relation.ReflTransGen (Elimination peer)

theorem Elimination.le {m m' : Candidates ι V}
    (h : Elimination peer m m') : m' ≤ m := by
  obtain ⟨c, d, v, -, -, rfl⟩ := h
  exact eraseAt_le m d v

theorem Eliminates.le {m m' : Candidates ι V}
    (h : Eliminates peer m m') : m' ≤ m := by
  induction h with
  | refl => exact le_rfl
  | tail _ hstep ih => exact hstep.le.trans ih

/-- A closed, live map below `m` stays below every elimination from `m`: the
peer that justifies a removal is decided in it, with the same value. -/
theorem Elimination.keeps {m m' h : Candidates ι V}
    (hstep : Elimination peer m m')
    (hclosed : Closed peer h) (hlive : Live h) (hle : h ≤ m) : h ≤ m' := by
  obtain ⟨c, d, v, hpeer, hc, rfl⟩ := hstep
  intro e
  by_cases hed : e = d
  · subst e
    have hdecided : h c = {v} := hlive.eq_singleton ((hle c).trans hc)
    have hv : v ∉ h d := hclosed c v hdecided d hpeer
    rw [eraseAt_self]
    exact Finset.subset_erase.mpr ⟨hle d, hv⟩
  · rw [eraseAt_of_ne m hed]
    exact hle e

theorem Eliminates.keeps {m m' h : Candidates ι V}
    (hsteps : Eliminates peer m m')
    (hclosed : Closed peer h) (hlive : Live h) (hle : h ≤ m) : h ≤ m' := by
  induction hsteps with
  | refl => exact hle
  | tail _ hstep ih => exact hstep.keeps hclosed hlive ih

/-- Every candidate that eliminations take away is, at the end, the only
value some peer could hold. -/
theorem Eliminates.justified {m m' : Candidates ι V}
    (hsteps : Eliminates peer m m') {d : ι} {v : V}
    (hold : v ∈ m d) (hnew : v ∉ m' d) :
    ∃ c, peer c d ∧ m' c ⊆ {v} := by
  induction hsteps with
  | refl => exact absurd hold hnew
  | @tail k m' _ hstep ih =>
      by_cases hmid : v ∈ k d
      · obtain ⟨c, e, w, hpeer, hc, rfl⟩ := hstep
        have hed : d = e := by
          by_contra hne
          exact hnew (by rwa [eraseAt_of_ne k hne])
        subst e
        have hwv : w = v := by
          by_contra hne
          apply hnew
          rw [eraseAt_self]
          exact Finset.mem_erase.mpr ⟨Ne.symm hne, hmid⟩
        subst w
        exact ⟨c, hpeer, (eraseAt_le k d v c).trans hc⟩
      · obtain ⟨c, hpeer, hc⟩ := ih hmid
        exact ⟨c, hpeer, (hstep.le c).trans hc⟩

/-- A choice that gives peers different values survives every elimination. -/
theorem Eliminates.admits {m m' : Candidates ι V} {S : ι → V}
    (hsteps : Eliminates peer m m')
    (hS : ∀ c d, peer c d → S c ≠ S d) (hadm : Admits m S) :
    Admits m' S :=
  pointwise_le_iff.mp <|
    hsteps.keeps (pointwise_closed hS) (pointwise_live S)
      (pointwise_le_iff.mpr hadm)

theorem Eliminates.admits_iff {m m' : Candidates ι V} {S : ι → V}
    (hsteps : Eliminates peer m m')
    (hS : ∀ c d, peer c d → S c ≠ S d) :
    Admits m' S ↔ Admits m S :=
  ⟨fun h => h.mono hsteps.le, hsteps.admits hS⟩

end Eliminations

/-! ## Cells settled along the way -/

section Settling

variable {peer : ι → ι → Prop}

/-- `m'` is reached from `m` so that every cell it decides was already decided
the same way in `m`, or is settled in `m'`. -/
def Settles (peer : ι → ι → Prop) (m m' : Candidates ι V) : Prop :=
  m' ≤ m ∧ ∀ c w, m' c = {w} → m c = {w} ∨ Settled peer m' c

theorem Settles.refl (m : Candidates ι V) : Settles peer m m :=
  ⟨le_rfl, fun _ _ h => Or.inl h⟩

/-- A settled cell that keeps its value stays settled while candidates only
disappear. -/
theorem Settled.mono {m m' : Candidates ι V} {c : ι} {w : V}
    (hset : Settled peer m c) (hle : m' ≤ m) (hc : m c = {w})
    (hc' : m' c = {w}) : Settled peer m' c := by
  intro v hv d hpeer hmem
  have hwv : w = v := Finset.singleton_injective (hc'.symm.trans hv)
  exact hset v (hwv ▸ hc) d hpeer (hle d hmem)

theorem Settles.trans {m k m' : Candidates ι V}
    (hmk : Settles peer m k) (hkm' : Settles peer k m') :
    Settles peer m m' := by
  refine ⟨hkm'.1.trans hmk.1, ?_⟩
  intro c w hc
  rcases hkm'.2 c w hc with hk | hset
  · rcases hmk.2 c w hk with hm | hset
    · exact Or.inl hm
    · exact Or.inr (hset.mono hkm'.1 hk hc)
  · exact Or.inr hset

/-- Settling from a closed map gives a closed map. -/
theorem Settles.closed {m m' : Candidates ι V}
    (h : Settles peer m m') (hclosed : Closed peer m) : Closed peer m' := by
  intro c w hc
  rcases h.2 c w hc with hm | hset
  · exact (hclosed c).mono h.1 hm hc w hc
  · exact hset w hc

end Settling

end SudokuSolver.Propagation
