import Mathlib.Data.BitVec
import Mathlib.Tactic.LinearCombination
import SudokuSolver.Draco.WindowVerdict

/-!
# The statistics of Draco

`writeCounters` writes how many grids are in memory and the counters of the
solve.  As long as there is memory, every grid in memory is the first one or
comes from a split, and leaves memory when it is impossible or has been shown,
so the counters tell how many there are.
-/

namespace SudokuSolver.Draco

variable {fails : ℕ → Bool} {mem mem' : Memory} {p : ℕ}
variable {pCounters pCounters' : Counters} {pGridList rest : Option ℕ}

/-! ## What the counters tell -/

/-- What the counters tell about the grids that have left memory, without those
that have come from splits. -/
def tally (pCounters : Counters) : BitVec 32 :=
  pCounters.c_ImpossibleGrids + pCounters.c_Solutions - pCounters.c_GridSplits

/-- The number of grids in memory has changed by at most `steps`, and the
counters tell of the change, but for `untold` of them. -/
def Tallied (steps : ℕ) (untold : ℤ) (mem : Memory) (pCounters : Counters)
    (mem' : Memory) (pCounters' : Counters) : Prop :=
  ∃ change : ℤ, |change| ≤ steps ∧
    mem'.gridsInMemory = mem.gridsInMemory + (change : BitVec 16) ∧
    tally pCounters' + (change : BitVec 32) =
      tally pCounters + (untold : BitVec 32)

namespace Tallied

variable {steps steps' : ℕ} {untold untold' : ℤ} {mem₁ : Memory}
  {pCounters₁ : Counters}

/-- Nothing has changed. -/
theorem of_eq (hgrids : mem'.gridsInMemory = mem.gridsInMemory)
    (htally : tally pCounters' = tally pCounters) :
    Tallied 0 0 mem pCounters mem' pCounters' := by
  refine ⟨0, by simp, ?_, ?_⟩
  · rw [hgrids, Int.cast_zero, add_zero]
  · rw [htally]

theorem mono (h : Tallied steps untold mem pCounters mem' pCounters')
    (hsteps : steps ≤ steps') :
    Tallied steps' untold mem pCounters mem' pCounters' := by
  obtain ⟨change, hchange, hgrids, htally⟩ := h
  exact ⟨change, hchange.trans (Int.ofNat_le.mpr hsteps), hgrids, htally⟩

theorem trans (h : Tallied steps untold mem pCounters mem₁ pCounters₁)
    (h' : Tallied steps' untold' mem₁ pCounters₁ mem' pCounters') :
    Tallied (steps + steps') (untold + untold') mem pCounters mem'
      pCounters' := by
  obtain ⟨change, hchange, hgrids, htally⟩ := h
  obtain ⟨change', hchange', hgrids', htally'⟩ := h'
  refine ⟨change + change', ?_, ?_, ?_⟩
  · have habs := abs_add_le change change'
    push_cast
    omega
  · rw [hgrids', hgrids, Int.cast_add, add_assoc]
  · rw [Int.cast_add, Int.cast_add]
    linear_combination htally + htally'

/-- A grid leaves memory and is counted. -/
theorem of_left (hgrids : mem'.gridsInMemory = mem.gridsInMemory - 1)
    (htally : tally pCounters' = tally pCounters + 1) :
    Tallied 1 0 mem pCounters mem' pCounters' := by
  refine ⟨-1, by simp, ?_, ?_⟩
  · rw [hgrids, Int.cast_neg, Int.cast_one, sub_eq_add_neg]
  · rw [htally, Int.cast_neg, Int.cast_one, Int.cast_zero]
    ring

end Tallied

/-- A number of grids that is far from wrapping around changes as it would with
more bits. -/
theorem setWidth_of_change {grids grids' : BitVec 16} {change : ℤ}
    (h : grids' = grids + (change : BitVec 16)) (hchange : |change| ≤ 5)
    (hgrids : grids.toNat ≤ 15626) (hgrids' : grids'.toNat ≤ 15626) :
    grids'.setWidth 32 = grids.setWidth 32 + (change : BitVec 32) := by
  obtain ⟨hlow, hhigh⟩ := abs_le.mp hchange
  have hnat := congrArg BitVec.toNat h
  rw [BitVec.toNat_add] at hnat
  change _ = (_ + (BitVec.ofInt 16 change).toNat) % _ at hnat
  rw [BitVec.toNat_ofInt] at hnat
  apply BitVec.eq_of_toNat_eq
  rw [BitVec.toNat_add]
  change _ = (_ + (BitVec.ofInt 32 change).toNat) % _
  rw [BitVec.toNat_ofInt, BitVec.toNat_setWidth, BitVec.toNat_setWidth]
  omega

namespace Memory

theorem write_gridsInMemory {change : Grid → Grid}
    (h : mem.write p change = some mem') :
    mem'.gridsInMemory = mem.gridsInMemory := by
  obtain ⟨grid, -, h⟩ := Option.bind_eq_some_iff.mp h
  cases h
  rfl

theorem onBlock_gridsInMemory {routine : Block → Option Block}
    (h : mem.onBlock p routine = some mem') :
    mem'.gridsInMemory = mem.gridsInMemory := by
  obtain ⟨grid, -, h⟩ := Option.bind_eq_some_iff.mp h
  obtain ⟨block, -, h⟩ := Option.bind_eq_some_iff.mp h
  cases h
  rfl

theorem tallied_onBlock {routine : Block → Option Block}
    (h : mem.onBlock p routine = some mem') (pCounters : Counters) :
    Tallied 0 0 mem pCounters mem' pCounters :=
  Tallied.of_eq (onBlock_gridsInMemory h) rfl

theorem detachFrontGrid_gridsInMemory
    (h : mem.detachFrontGrid p = some (rest, mem')) :
    mem'.gridsInMemory = mem.gridsInMemory := by
  obtain ⟨front, -, h⟩ := Option.bind_eq_some_iff.mp h
  by_cases hlast : front.g_pNext = p
  · rw [if_pos hlast] at h
    cases h
    rfl
  · rw [if_neg hlast] at h
    obtain ⟨mem₁, h₁, h⟩ := Option.bind_eq_some_iff.mp h
    obtain ⟨front₁, -, h⟩ := Option.bind_eq_some_iff.mp h
    obtain ⟨mem₂, h₂, h⟩ := Option.bind_eq_some_iff.mp h
    obtain ⟨front₂, -, h⟩ := Option.bind_eq_some_iff.mp h
    cases h
    rw [write_gridsInMemory h₂, write_gridsInMemory h₁]

theorem freeGrid_gridsInMemory (h : mem.freeGrid p = some mem') :
    mem'.gridsInMemory = mem.gridsInMemory - 1 := by
  obtain ⟨grid, -, h⟩ := Option.bind_eq_some_iff.mp h
  cases h
  rfl

theorem freeFrontGrid_gridsInMemory
    (h : mem.freeFrontGrid p = some (rest, mem')) :
    mem'.gridsInMemory = mem.gridsInMemory - 1 := by
  obtain ⟨⟨rest', mem₁⟩, h₁, h⟩ := Option.bind_eq_some_iff.mp h
  obtain ⟨mem₂, h₂, h⟩ := Option.bind_eq_some_iff.mp h
  cases h
  rw [freeGrid_gridsInMemory h₂, detachFrontGrid_gridsInMemory h₁]

/-- A grid that has become impossible leaves memory and is counted. -/
theorem tallied_impossible (pCounters : Counters)
    (h : mem'.gridsInMemory = mem.gridsInMemory - 1) :
    Tallied 1 0 mem pCounters mem' { pCounters with
      c_ImpossibleGrids := pCounters.c_ImpossibleGrids + 1 } := by
  apply Tallied.of_left h
  rw [tally, tally]
  ring

theorem tallied_attachToFrontIfPossible
    (h : mem.attachToFrontIfPossible pGridList p pCounters =
      some (rest, mem', pCounters')) :
    Tallied 1 0 mem pCounters mem' pCounters' := by
  obtain ⟨grid, -, h⟩ := Option.bind_eq_some_iff.mp h
  by_cases himpossible : (!isPossible grid.block) = true
  · rw [if_pos himpossible] at h
    obtain ⟨mem₁, h₁, h⟩ := Option.bind_eq_some_iff.mp h
    cases h
    exact tallied_impossible pCounters (freeGrid_gridsInMemory h₁)
  rw [if_neg himpossible] at h
  cases pGridList with
  | none =>
      obtain ⟨mem₁, h₁, h⟩ := Option.bind_eq_some_iff.mp h
      cases h
      exact (Tallied.of_eq (write_gridsInMemory h₁) rfl).mono zero_le_one
  | some front =>
      obtain ⟨mem₁, h₁, h⟩ := Option.bind_eq_some_iff.mp h
      obtain ⟨front₁, -, h⟩ := Option.bind_eq_some_iff.mp h
      obtain ⟨mem₂, h₂, h⟩ := Option.bind_eq_some_iff.mp h
      obtain ⟨front₂, -, h⟩ := Option.bind_eq_some_iff.mp h
      obtain ⟨mem₃, h₃, h⟩ := Option.bind_eq_some_iff.mp h
      obtain ⟨mem₄, h₄, h⟩ := Option.bind_eq_some_iff.mp h
      cases h
      refine (Tallied.of_eq ?_ rfl).mono zero_le_one
      rw [write_gridsInMemory h₄, write_gridsInMemory h₃,
        write_gridsInMemory h₂, write_gridsInMemory h₁]

/-! ## Splits -/

theorem cloneIntoGrid_gridsInMemory {q : ℕ}
    (h : mem.cloneIntoGrid p q = some mem') :
    mem'.gridsInMemory = mem.gridsInMemory := by
  obtain ⟨source, -, h⟩ := Option.bind_eq_some_iff.mp h
  exact write_gridsInMemory h

theorem cloneGrid_gridsInMemory {pClone : Option ℕ}
    (h : mem.cloneGrid fails p = some (pClone, mem')) :
    pClone = none ∧ mem'.gridsInMemory = mem.gridsInMemory ∨
      pClone ≠ none ∧ mem'.gridsInMemory = mem.gridsInMemory + 1 := by
  obtain ⟨grid, -, h⟩ := Option.bind_eq_some_iff.mp h
  by_cases hfails : fails mem.mallocs = true
  · rw [if_pos hfails] at h
    cases h
    exact Or.inl ⟨rfl, rfl⟩
  · rw [if_neg hfails] at h
    obtain ⟨mem₁, h₁, h⟩ := Option.bind_eq_some_iff.mp h
    cases h
    refine Or.inr ⟨Option.some_ne_none _, ?_⟩
    dsimp only
    rw [cloneIntoGrid_gridsInMemory h₁]
    rfl

end Memory

/-- What the counters tell while a grid is split. -/
inductive Cloned (mem : Memory) (pCounters : Counters) (pClone : Option ℕ)
    (mem' : Memory) (pCounters' : Counters) : Prop
  /-- There is a clone, of which the counters do not tell yet. -/
  | cloned (hclone : pClone ≠ none)
      (hlost : pCounters'.c_GridsLost = pCounters.c_GridsLost)
      (htallied : Tallied 1 1 mem pCounters mem' pCounters')
  /-- A grid is lost for the clone. -/
  | reused (hclone : pClone ≠ none)
      (hlost : pCounters'.c_GridsLost = pCounters.c_GridsLost + 1)
      (htallied : Tallied 1 0 mem pCounters mem' pCounters')
  /-- The clone is lost. -/
  | missing (hclone : pClone = none)
      (hlost : pCounters'.c_GridsLost = pCounters.c_GridsLost + 1)
      (htallied : Tallied 1 0 mem pCounters mem' pCounters')

/-- What the counters tell after a step of the search.  They tell of a split for
which a grid was used again. -/
inductive Settled (steps : ℕ) (mem : Memory) (pCounters : Counters)
    (mem' : Memory) (pCounters' : Counters) : Prop
  | kept (hlost : pCounters'.c_GridsLost = pCounters.c_GridsLost)
      (htallied : Tallied steps 0 mem pCounters mem' pCounters')
  | missing (hlost : pCounters'.c_GridsLost = pCounters.c_GridsLost + 1)
      (htallied : Tallied steps 0 mem pCounters mem' pCounters')
  | reused (hlost : pCounters'.c_GridsLost = pCounters.c_GridsLost + 1)
      (htallied : Tallied steps (-1) mem pCounters mem' pCounters')

namespace Settled

variable {steps steps' : ℕ} {mem₁ : Memory} {pCounters₁ : Counters}

theorem mono (h : Settled steps mem pCounters mem' pCounters')
    (hsteps : steps ≤ steps') : Settled steps' mem pCounters mem' pCounters' := by
  cases h with
  | kept hlost htallied => exact Settled.kept hlost (htallied.mono hsteps)
  | missing hlost htallied =>
      exact Settled.missing hlost (htallied.mono hsteps)
  | reused hlost htallied => exact Settled.reused hlost (htallied.mono hsteps)

/-- What the counters tell of can come before. -/
theorem of_tallied (hlost : pCounters₁.c_GridsLost = pCounters.c_GridsLost)
    (htallied : Tallied steps 0 mem pCounters mem₁ pCounters₁)
    (h : Settled steps' mem₁ pCounters₁ mem' pCounters') :
    Settled (steps + steps') mem pCounters mem' pCounters' := by
  cases h with
  | kept hlost' htallied' =>
      exact Settled.kept (hlost'.trans hlost) (htallied.trans htallied')
  | missing hlost' htallied' =>
      rw [hlost] at hlost'
      exact Settled.missing hlost' (htallied.trans htallied')
  | reused hlost' htallied' =>
      have hboth := htallied.trans htallied'
      rw [zero_add] at hboth
      rw [hlost] at hlost'
      exact Settled.reused hlost' hboth

/-- What the counters tell of can come after. -/
theorem trans_tallied (h : Settled steps mem pCounters mem₁ pCounters₁)
    (hlost : pCounters'.c_GridsLost = pCounters₁.c_GridsLost)
    (htallied : Tallied steps' 0 mem₁ pCounters₁ mem' pCounters') :
    Settled (steps + steps') mem pCounters mem' pCounters' := by
  cases h with
  | kept hlost₁ htallied₁ =>
      exact Settled.kept (hlost.trans hlost₁) (htallied₁.trans htallied)
  | missing hlost₁ htallied₁ =>
      exact Settled.missing (hlost.trans hlost₁) (htallied₁.trans htallied)
  | reused hlost₁ htallied₁ =>
      have hboth := htallied₁.trans htallied
      rw [add_zero] at hboth
      exact Settled.reused (hlost.trans hlost₁) hboth

end Settled

namespace Memory

theorem gridsLost_attachToFrontIfPossible
    (h : mem.attachToFrontIfPossible pGridList p pCounters =
      some (rest, mem', pCounters')) :
    pCounters'.c_GridsLost = pCounters.c_GridsLost := by
  obtain ⟨grid, -, h⟩ := Option.bind_eq_some_iff.mp h
  by_cases himpossible : (!isPossible grid.block) = true
  · rw [if_pos himpossible] at h
    obtain ⟨mem₁, -, h⟩ := Option.bind_eq_some_iff.mp h
    cases h
    rfl
  rw [if_neg himpossible] at h
  cases pGridList with
  | none =>
      obtain ⟨mem₁, -, h⟩ := Option.bind_eq_some_iff.mp h
      cases h
      rfl
  | some front =>
      obtain ⟨mem₁, -, h⟩ := Option.bind_eq_some_iff.mp h
      obtain ⟨front₁, -, h⟩ := Option.bind_eq_some_iff.mp h
      obtain ⟨mem₂, -, h⟩ := Option.bind_eq_some_iff.mp h
      obtain ⟨front₂, -, h⟩ := Option.bind_eq_some_iff.mp h
      obtain ⟨mem₃, -, h⟩ := Option.bind_eq_some_iff.mp h
      obtain ⟨mem₄, -, h⟩ := Option.bind_eq_some_iff.mp h
      cases h
      rfl

theorem cloned_cloneOrReuse {pClone : Option ℕ}
    (h : mem.cloneOrReuse fails pGridList p pCounters =
      some (pClone, rest, mem', pCounters')) :
    Cloned mem pCounters pClone mem' pCounters' := by
  obtain ⟨⟨pCloneGrid, mem₁⟩, h₁, h⟩ := Option.bind_eq_some_iff.mp h
  rcases cloneGrid_gridsInMemory h₁ with ⟨rfl, hgrids⟩ | ⟨hclone, hgrids⟩
  · cases pGridList with
    | none =>
        cases h
        exact Cloned.missing rfl rfl
          ((Tallied.of_eq hgrids rfl).mono zero_le_one)
    | some front =>
        obtain ⟨front₁, -, h⟩ := Option.bind_eq_some_iff.mp h
        obtain ⟨⟨rest', mem₂⟩, h₂, h⟩ := Option.bind_eq_some_iff.mp h
        obtain ⟨mem₃, h₃, h⟩ := Option.bind_eq_some_iff.mp h
        cases h
        apply Cloned.reused (Option.some_ne_none _) rfl
        refine (Tallied.of_eq ?_ rfl).mono zero_le_one
        rw [cloneIntoGrid_gridsInMemory h₃, detachFrontGrid_gridsInMemory h₂,
          hgrids]
  · cases pCloneGrid with
    | none => exact absurd rfl hclone
    | some clone =>
        cases h
        apply Cloned.cloned hclone rfl
        refine ⟨1, by simp, ?_, rfl⟩
        rw [hgrids, Int.cast_one]

theorem tallied_attachClone {clone bestX bestY possibility : ℕ}
    (h : mem.attachClone pGridList (some clone) bestX bestY possibility
      pCounters = some (rest, mem', pCounters')) :
    pCounters'.c_GridsLost = pCounters.c_GridsLost ∧
      Tallied 1 (-1) mem pCounters mem' pCounters' := by
  obtain ⟨mem₁, h₁, h⟩ := Option.bind_eq_some_iff.mp h
  have hcounted : Tallied 0 (-1) mem pCounters mem₁ { pCounters with
      c_GridSplits := pCounters.c_GridSplits + 1 } := by
    refine ⟨0, by simp, ?_, ?_⟩
    · rw [onBlock_gridsInMemory h₁, Int.cast_zero, add_zero]
    · rw [tally, tally, Int.cast_zero, Int.cast_neg, Int.cast_one]
      ring
  have hlost := gridsLost_attachToFrontIfPossible h
  exact ⟨hlost, hcounted.trans (tallied_attachToFrontIfPossible h)⟩

theorem settled_attachSplits {mem₁ : Memory} {pCounters₁ : Counters}
    {pClone : Option ℕ} {bestX bestY possibility : ℕ}
    (hcloned : Cloned mem pCounters pClone mem₁ pCounters₁)
    (h : mem₁.attachSplits pGridList pClone p bestX bestY possibility
      pCounters₁ = some (rest, mem', pCounters')) :
    Settled 3 mem pCounters mem' pCounters' := by
  obtain ⟨⟨list, mem₂, pCounters₂⟩, h₂, h⟩ := Option.bind_eq_some_iff.mp h
  obtain ⟨mem₃, h₃, h⟩ := Option.bind_eq_some_iff.mp h
  have hlost' := gridsLost_attachToFrontIfPossible h
  have htallied' := (tallied_onBlock h₃ pCounters₂).trans
    (tallied_attachToFrontIfPossible h)
  cases pClone with
  | none =>
      cases h₂
      cases hcloned with
      | cloned hclone => exact absurd rfl hclone
      | reused hclone => exact absurd rfl hclone
      | missing _ hlost htallied =>
          exact Settled.missing (hlost'.trans hlost)
            ((htallied.trans htallied').mono (by decide))
  | some clone =>
      obtain ⟨hlost₂, htallied₂⟩ := tallied_attachClone h₂
      cases hcloned with
      | cloned _ hlost htallied =>
          exact Settled.kept (hlost'.trans (hlost₂.trans hlost))
            (htallied.trans (htallied₂.trans htallied'))
      | reused _ hlost htallied =>
          exact Settled.reused (hlost'.trans (hlost₂.trans hlost))
            (htallied.trans (htallied₂.trans htallied'))
      | missing hclone => cases hclone

theorem settled_splitFirstGridToFront
    (h : mem.splitFirstGridToFront fails p pCounters =
      some (rest, mem', pCounters')) :
    Settled 3 mem pCounters mem' pCounters' := by
  obtain ⟨⟨list, mem₁⟩, h₁, h⟩ := Option.bind_eq_some_iff.mp h
  obtain ⟨grid, -, h⟩ := Option.bind_eq_some_iff.mp h
  obtain ⟨⟨bestX, bestY⟩, -, h⟩ := Option.bind_eq_some_iff.mp h
  obtain ⟨⟨pClone, list₂, mem₂, pCounters₂⟩, h₂, h⟩ :=
    Option.bind_eq_some_iff.mp h
  exact Settled.of_tallied rfl
    (Tallied.of_eq (detachFrontGrid_gridsInMemory h₁) rfl)
    (settled_attachSplits (cloned_cloneOrReuse h₂) h)

theorem settled_refineFrontGrid
    (h : mem.refineFrontGrid fails p pCounters =
      some (rest, mem', pCounters')) :
    Settled 3 mem pCounters mem' pCounters' := by
  obtain ⟨mem₁, h₁, h⟩ := Option.bind_eq_some_iff.mp h
  obtain ⟨front, -, h⟩ := Option.bind_eq_some_iff.mp h
  have htallied := tallied_onBlock h₁ pCounters
  by_cases hsplit : (!isComplete front.block && isPossible front.block) = true
  · rw [if_pos hsplit] at h
    exact Settled.of_tallied rfl htallied (settled_splitFirstGridToFront h)
  · rw [if_neg hsplit] at h
    cases h
    exact Settled.kept rfl (htallied.mono (Nat.zero_le 3))

/-- After a call of `advanceSolving` the counters tell of all grids, unless one
was lost. -/
theorem settled_advanceSolving
    (h : mem.advanceSolving fails pGridList pCounters =
      some (rest, mem', pCounters')) :
    Settled 4 mem pCounters mem' pCounters' := by
  cases pGridList with
  | none =>
      cases h
      exact Settled.kept rfl ((Tallied.of_eq rfl rfl).mono (Nat.zero_le 4))
  | some p =>
      obtain ⟨front, -, h⟩ := Option.bind_eq_some_iff.mp h
      by_cases himpossible : (!isPossible front.block) = true
      · rw [if_pos himpossible] at h
        obtain ⟨⟨list, mem₁⟩, h₁, h⟩ := Option.bind_eq_some_iff.mp h
        have htallied :=
          tallied_impossible pCounters (freeFrontGrid_gridsInMemory h₁)
        cases list with
        | none =>
            cases h
            exact Settled.kept rfl (htallied.mono (by decide))
        | some q =>
            apply Settled.of_tallied ?_ htallied (settled_refineFrontGrid h)
            rfl
      · rw [if_neg himpossible] at h
        exact (settled_refineFrontGrid h).mono (Nat.le_succ 3)

end Memory

/-! ## Rounds -/

section Rounds

variable {s : ℕ} {st st' : EventLoop}

/-- The first grid and the splits account for all grids, up to those that were
used again for a clone. -/
def Balanced (st : EventLoop) : Prop :=
  ∃ reused : ℕ, reused ≤ st.counters.c_GridsLost.toNat ∧
    st.mem.gridsInMemory.setWidth 32 + tally st.counters +
      (reused : BitVec 32) = 1

theorem Settled.balanced
    (h : Settled 5 st.mem st.counters st'.mem st'.counters)
    (hlost : st.counters.c_GridsLost.toNat + 1 < 2 ^ 32)
    (hgrids : st.mem.gridsInMemory.toNat ≤ 15626)
    (hgrids' : st'.mem.gridsInMemory.toNat ≤ 15626)
    (hbalanced : Balanced st) : Balanced st' := by
  obtain ⟨reused, hreused, hbalance⟩ := hbalanced
  have hsucc : (st.counters.c_GridsLost + 1).toNat =
      st.counters.c_GridsLost.toNat + 1 := by
    rw [BitVec.toNat_add]
    exact Nat.mod_eq_of_lt hlost
  cases h with
  | kept hlost' htallied =>
      obtain ⟨change, hchange, hmemory, htally⟩ := htallied
      refine ⟨reused, hlost'.symm ▸ hreused, ?_⟩
      rw [setWidth_of_change hmemory hchange hgrids hgrids']
      rw [Int.cast_zero] at htally
      linear_combination hbalance + htally
  | missing hlost' htallied =>
      obtain ⟨change, hchange, hmemory, htally⟩ := htallied
      refine ⟨reused, ?_, ?_⟩
      · rw [hlost', hsucc]
        exact Nat.le_succ_of_le hreused
      · rw [setWidth_of_change hmemory hchange hgrids hgrids']
        rw [Int.cast_zero] at htally
        linear_combination hbalance + htally
  | reused hlost' htallied =>
      obtain ⟨change, hchange, hmemory, htally⟩ := htallied
      refine ⟨reused + 1, ?_, ?_⟩
      · rw [hlost', hsucc]
        exact Nat.succ_le_succ hreused
      · rw [setWidth_of_change hmemory hchange hgrids hgrids', Nat.cast_succ]
        rw [Int.cast_neg, Int.cast_one] at htally
        linear_combination hbalance + htally

/-- A grid that has been shown leaves memory and is counted. -/
theorem tallied_solution {mem mem' : Memory} {p : ℕ} {rest : Option ℕ}
    (h : mem.freeFrontGrid p = some (rest, mem')) (pCounters : Counters) :
    Tallied 1 0 mem pCounters mem' { pCounters with
      c_Solutions := pCounters.c_Solutions + 1 } := by
  apply Tallied.of_left (Memory.freeFrontGrid_gridsInMemory h)
  rw [tally, tally]
  ring

/-- A solution that leaves grids has freed one and has been counted. -/
theorem solutionCounted_eq {dimension : ℕ}
    (h : st.solutionCounted dimension = some st')
    (hlist' : st'.pGridList ≠ none) :
    st'.mem = st.mem ∧ st'.counters = st.counters := by
  rw [EventLoop.solutionCounted] at h
  by_cases hmany : st.counters.c_Solutions > 1
  · rw [if_pos hmany] at h
    obtain ⟨next, -, h⟩ := Option.bind_eq_some_iff.mp h
    cases h
    exact absurd rfl hlist'
  rw [if_neg hmany] at h
  rcases hlist : st.pGridList with _ | p
  · rw [hlist, Option.isSome_none, if_neg Bool.false_ne_true] at h
    by_cases hlost : st.counters.c_GridsLost = 0
    · rw [if_pos hlost] at h
      obtain ⟨-, -, -, hnone, -⟩ := EventLoop.cleanupAfterSolver_eq h
      exact absurd (hnone.trans hlist) hlist'
    · rw [if_neg hlost] at h
      obtain ⟨-, -, -, hnone, -⟩ := EventLoop.cleanupAfterSolver_eq h
      exact absurd (hnone.trans hlist) hlist'
  · rw [hlist, Option.isSome_some, if_pos rfl] at h
    cases h
    exact ⟨rfl, rfl⟩

/-- After a round that leaves grids the counters tell of all grids, unless one
was lost. -/
theorem settled_solvingStep (h : st.solvingStep fails s = some st')
    (hlist' : st'.pGridList ≠ none) :
    Settled 5 st.mem st.counters st'.mem st'.counters := by
  rw [EventLoop.solvingStep] at h
  obtain ⟨⟨front, mem, counters⟩, hadvance, h⟩ := Option.bind_eq_some_iff.mp h
  have hsettled := Memory.settled_advanceSolving hadvance
  rcases front with _ | p
  · dsimp only at h
    obtain ⟨text, htext⟩ := EventLoop.noMoreSolutions_eq
      { st with pGridList := none, mem := mem, counters := counters } (s * s)
    rw [htext] at h
    obtain ⟨-, -, -, hnone, -⟩ := EventLoop.cleanupAfterSolver_eq h
    exact absurd hnone hlist'
  obtain ⟨grid, -, h⟩ := Option.bind_eq_some_iff.mp h
  by_cases hcomplete : isComplete grid.block = true
  · rw [if_pos hcomplete, EventLoop.solutionFound] at h
    obtain ⟨⟨rest, mem'⟩, hfree, h⟩ := Option.bind_eq_some_iff.mp h
    obtain ⟨hmem', hcounters'⟩ := solutionCounted_eq h hlist'
    rw [hmem', hcounters']
    apply hsettled.trans_tallied ?_ (tallied_solution hfree counters)
    rfl
  rw [if_neg hcomplete] at h
  by_cases hnone : counters.c_Solutions = 0
  · rw [if_pos hnone] at h
    cases h
    exact hsettled.mono (Nat.le_succ 4)
  · rw [if_neg hnone] at h
    cases h
    exact hsettled.mono (Nat.le_succ 4)

/-- A solve begins with counters that are zero. -/
theorem counters_of_gadgetUp (hlist : st.pGridList = none)
    (hst : st.gadgetUp fails s = some st') (hlist' : st'.pGridList ≠ none) :
    st'.counters = ⟨0, 0, 0, 0⟩ := by
  rw [EventLoop.gadgetUp, hlist] at hst
  dsimp only at hst
  rw [EventLoop.startSolving] at hst
  rcases hvalid : valuesAreValid (s * s) st.pSquareGadgets with text | _
  · rw [hvalid] at hst
    cases hst
    exact absurd hlist hlist'
  rw [hvalid] at hst
  obtain ⟨next, hnext, hst⟩ := Option.bind_eq_some_iff.mp hst
  cases hst
  obtain ⟨⟨created, mem⟩, -, hnext⟩ := Option.bind_eq_some_iff.mp hnext
  cases created with
  | none =>
      cases hnext
      exact absurd rfl hlist'
  | some p =>
      cases hnext
      rfl

end Rounds

/-! ## Solves -/

namespace Window

variable {s n rounds : ℕ} {pressed w : Window}

/-- At the beginning the first grid is the only one. -/
theorem balanced_started (hs : 2 ≤ s) (hs' : s ≤ 5)
    (hpressed : Reached fails s n pressed)
    (hidle : pressed.loop.pGridList = none)
    (hstep : (system fails s).step .getMsg pressed = some w)
    (hopen : w.returned = none) (hlist : w.loop.pGridList ≠ none) :
    Balanced w.loop := by
  obtain ⟨-, hsolving⟩ :=
    solving_started hs hs' hpressed hidle hstep hopen hlist
  obtain ⟨l, -, hrep⟩ := hsolving.list
  have hone : l.length = 1 := by
    have hlength := congrArg List.length hrep.maps
    rwa [List.length_map] at hlength
  have hgrids : w.loop.mem.gridsInMemory = 1 := by
    rw [hrep.holds.count, List.append_nil, hone]
    rfl
  have hcounters : w.loop.counters = ⟨0, 0, 0, 0⟩ :=
    counters_of_gadgetUp hidle
      (gadgetUp_of_started hidle hstep hopen hlist) hlist
  refine ⟨0, Nat.zero_le _, ?_⟩
  rw [tally, hgrids, hcounters]
  rfl

/-- There are less candidates than the counters can count. -/
theorem candidates_le (hs' : s ≤ 5) :
    s * s * (s * s) * (s * s) ≤ 15625 := by
  have hsquare : s * s ≤ 25 := Nat.mul_le_mul hs' hs'
  exact Nat.mul_le_mul (Nat.mul_le_mul hsquare hsquare) hsquare

/-- A solve never loses as many grids as the counter can count. -/
theorem SolvingAfter.gridsLost (hs : 2 ≤ s) (hs' : s ≤ 5)
    (hpressed : Reached fails s n pressed)
    (h : SolvingAfter fails s pressed rounds w) (hopen : w.returned = none) :
    ∃ l, w.loop.pGridList = l.head? ∧ w.loop.mem.Holds l [] ∧
      w.loop.counters.c_GridsLost.toNat + l.length ≤
        s * s * (s * s) * (s * s) + 1 := by
  obtain ⟨b, -, ⟨⟨shown, hsolving⟩, -⟩, -⟩ :=
    h.underway hs hs' hpressed hopen
  obtain ⟨l, hhead, hrep⟩ := hsolving.list
  have hlength : l.length = b.waiting.length := by
    rw [← hrep.maps, List.length_map]
  have hle := hsolving.bounded.length_le
  have hbound := candidates_le hs'
  have hlost : w.loop.counters.c_GridsLost.toNat = b.lost := by
    rw [hsolving.gridsLost, BitVec.toNat_ofNat]
    exact Nat.mod_eq_of_lt (by omega)
  refine ⟨l, hhead, hrep.holds, ?_⟩
  omega

/-- The number of grids in memory is the length of the list. -/
theorem gridsInMemory_eq {l : List ℕ} (hs' : s ≤ 5) {mem : Memory}
    (hholds : mem.Holds l []) (hlength : l.length ≤ s * s * (s * s) * (s * s) + 1) :
    mem.gridsInMemory.toNat = l.length := by
  have hbound := candidates_le hs'
  rw [hholds.count, List.append_nil, BitVec.toNat_ofNat]
  exact Nat.mod_eq_of_lt (by omega)

/-- In every state of a solve the statistics account for the grids. -/
theorem SolvingAfter.balanced (hs : 2 ≤ s) (hs' : s ≤ 5)
    (hpressed : Reached fails s n pressed)
    (h : SolvingAfter fails s pressed rounds w) (hopen : w.returned = none) :
    Balanced w.loop := by
  induction h with
  | started hidle hstep hlist =>
      exact balanced_started hs hs' hpressed hidle hstep hopen hlist
  | @step rounds a w w' h hstep hlist ih =>
      obtain ⟨hreturned, hact⟩ := act_of_step hstep
      have hbalanced := ih hreturned
      rcases act_during h.pGridList_ne hact hopen hlist with
        ⟨-, hround⟩ | ⟨-, hsame⟩
      · obtain ⟨l, -, hholds, hlost⟩ := h.gridsLost hs hs' hpressed hreturned
        obtain ⟨l', -, hholds', hlost'⟩ :=
          (h.step hstep hlist).gridsLost hs hs' hpressed hopen
        have hbound := candidates_le hs'
        apply (settled_solvingStep hround hlist).balanced
        · omega
        · rw [gridsInMemory_eq hs' hholds (by omega)]
          omega
        · rw [gridsInMemory_eq hs' hholds' (by omega)]
          omega
        · exact hbalanced
      · rw [Balanced, hsame.mem, hsame.counters]
        exact hbalanced

end Window

end SudokuSolver.Draco
