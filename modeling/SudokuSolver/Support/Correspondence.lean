import Mathlib.Data.Finset.Image
import SudokuSolver.Support.Cascade

/-!
# Corresponding grids

Two grid types may name their values differently.  Cascades that visit the
peers of a cell in the same order keep two grids in step.
-/

namespace SudokuSolver.Propagation

variable {G H ι V W : Type*}

/-- The second map has the candidates of the first one under other names. -/
def Corresponds (f : V ↪ W) (m : Candidates ι V) (m' : Candidates ι W) : Prop :=
  ∀ c, m' c = (m c).map f

variable {f : V ↪ W} {m : Candidates ι V} {m' : Candidates ι W}

theorem Corresponds.mem_iff (h : Corresponds f m m') {c : ι} {v : V} :
    f v ∈ m' c ↔ v ∈ m c := by
  rw [h c, Finset.mem_map']

theorem Corresponds.eq_singleton_iff (h : Corresponds f m m') {c : ι} {v : V} :
    m' c = {f v} ↔ m c = {v} := by
  rw [h c, ← Finset.map_singleton, Finset.map_inj]

variable [DecidableEq ι]

theorem Corresponds.decideAt (h : Corresponds f m m') (c : ι) (v : V) :
    Corresponds f (decideAt m c v) (decideAt m' c (f v)) := by
  intro d
  by_cases hd : d = c
  · subst d
    rw [decideAt_self, decideAt_self, Finset.map_singleton]
  · rw [decideAt_of_ne _ hd, decideAt_of_ne _ hd, h d]

variable [DecidableEq V] [DecidableEq W]

theorem Corresponds.eraseAt (h : Corresponds f m m') (c : ι) (v : V) :
    Corresponds f (eraseAt m c v) (eraseAt m' c (f v)) := by
  intro d
  by_cases hd : d = c
  · subst d
    rw [eraseAt_self, eraseAt_self, h c, Finset.map_erase]
  · rw [eraseAt_of_ne _ hd, eraseAt_of_ne _ hd, h d]

variable {peer : ι → ι → Prop}
variable (store : CandidateStore G ι V) (store' : CandidateStore H ι W)
variable (order : PeerOrder peer)

namespace CandidateStore

/-- Corresponding grids have corresponding values. -/
theorem value_corresponds {g : G} {h : H}
    (hgrids : Corresponds f (store.candidates g) (store'.candidates h)) (c : ι) :
    store'.value h c = (store.value g c).map f := by
  cases hvalue : store.value g c with
  | some v =>
      have hdecided := (store.value_eq_some_iff g c v).mp hvalue
      exact (store'.value_eq_some_iff h c (f v)).mpr
        (hgrids.eq_singleton_iff.mpr hdecided)
  | none =>
      rw [Option.map_none, Option.eq_none_iff_forall_ne_some]
      intro w hw
      have hdecided := (store'.value_eq_some_iff h c w).mp hw
      have hmem : w ∈ (store.candidates g c).map f := by
        rw [← hgrids c, hdecided]
        exact Finset.mem_singleton_self w
      obtain ⟨v, -, rfl⟩ := Finset.mem_map.mp hmem
      have hsome := (store.value_eq_some_iff g c v).mpr
        (hgrids.eq_singleton_iff.mp hdecided)
      rw [hvalue] at hsome
      cases hsome

variable [Fintype ι]

/-- Cascades keep corresponding grids in step. -/
theorem removePossibility_corresponds (v : V) {g : G} {h : H}
    (hgrids : Corresponds f (store.candidates g) (store'.candidates h)) (c : ι) :
    Corresponds f (store.candidates (store.removePossibility order v g c))
      (store'.candidates (store'.removePossibility order (f v) h c)) := by
  generalize hn : size (store.candidates g) = n
  induction n using Nat.strong_induction_on generalizing v g h c with
  | h n ih =>
      rw [removePossibility_eq, removePossibility_eq]
      by_cases hv : v ∈ store.candidates g c
      · rw [if_pos hv, if_pos (hgrids.mem_iff.mpr hv)]
        have hremove : Corresponds f (store.candidates (store.remove g c v))
            (store'.candidates (store'.remove h c (f v))) := by
          rw [store.candidates_remove, store'.candidates_remove]
          exact hgrids.eraseAt c v
        have hlt : size (store.candidates (store.remove g c v)) < n := by
          rw [store.candidates_remove, ← hn]
          exact size_eraseAt_lt hv
        rw [value_corresponds store store' hremove c]
        cases store.value (store.remove g c v) c with
        | none => exact hremove
        | some w =>
            -- the peers are visited on grids that stay below the first one
            have hfold : ∀ (l : List ι) (r : G) (r' : H),
                size (store.candidates r) < n →
                Corresponds f (store.candidates r) (store'.candidates r') →
                Corresponds f
                  (store.candidates (l.foldl (store.removePossibility order w) r))
                  (store'.candidates
                    (l.foldl (store'.removePossibility order (f w)) r')) := by
              intro l
              induction l with
              | nil => exact fun _ _ _ hr => hr
              | cons d l ihl =>
                  intro r r' hsize hr
                  refine ihl _ _ ?_ (ih _ hsize w hr d rfl)
                  exact (size_mono
                    (store.removePossibility_le order w r d)).trans_lt hsize
            exact hfold (order.related c) _ _ hlt hremove
      · rw [if_neg hv, if_neg (mt hgrids.mem_iff.mp hv)]
        exact hgrids

theorem setSquare_corresponds {g : G} {h : H}
    (hgrids : Corresponds f (store.candidates g) (store'.candidates h))
    (v : V) (c : ι) :
    Corresponds f (store.candidates (store.setSquare order v c g))
      (store'.candidates (store'.setSquare order (f v) c h)) := by
  have hassign : Corresponds f (store.candidates (store.assign g c v))
      (store'.candidates (store'.assign h c (f v))) := by
    rw [store.candidates_assign, store'.candidates_assign]
    exact hgrids.decideAt c v
  rw [setSquare, setSquare, removeRelated, removeRelated]
  generalize store.assign g c v = r at hassign ⊢
  generalize store'.assign h c (f v) = r' at hassign ⊢
  induction order.related c generalizing r r' with
  | nil => exact hassign
  | cons d l ih =>
      exact ih _ _
        (store.removePossibility_corresponds store' order v hassign d)

end CandidateStore

end SudokuSolver.Propagation
