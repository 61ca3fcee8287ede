import SudokuSolver.Draco.Removal

/-!
# Grids that Draco reaches

A grid that begins with `createGrid` and is only changed by the routines below
simulates a map from squares to sets of values: what it caches is what a scan of
the map would find.
-/

namespace SudokuSolver.Draco

open Propagation

variable {s : ℕ} {pGrid : Block} {m : Candidates (Coord s) (Value s)}

/-- The grids that are reached, each with the map that the same operations lead
to.  Besides the procedures that cascade there are the two routines they write
with, so that the grids in the midst of a cascade are among them. -/
inductive Reached (s : ℕ) : Block → Candidates (Coord s) (Value s) → Prop
  | createGrid {pGrid : Block} (h : createGrid s = some pGrid) :
      Reached s pGrid fun _ => Finset.univ
  | setValueAt {pGrid pNext : Block} {m : Candidates (Coord s) (Value s)}
      (h : Reached s pGrid m) (c : Coord s) (v : Value s)
      (hnext : setValueAt pGrid c.1 c.2 v.1 = some pNext) :
      Reached s pNext (mapStore.setSquare (visitOrder s) v c m)
  | removePossibilityAt {pGrid pNext : Block}
      {m : Candidates (Coord s) (Value s)}
      (h : Reached s pGrid m) (c : Coord s) (v : Value s)
      (hnext : removePossibilityAt pGrid c.1 c.2 v.1 = some pNext) :
      Reached s pNext (mapStore.removePossibility (visitOrder s) v m c)
  | setSquareValue {pGrid : Block} {m : Candidates (Coord s) (Value s)}
      (h : Reached s pGrid m) (c : Coord s) (v : Value s) :
      Reached s (setSquareValue pGrid c.1 c.2 v.1) (decideAt m c v)
  | removeSquarePossibility {pGrid : Block} {m : Candidates (Coord s) (Value s)}
      (h : Reached s pGrid m) (c : Coord s) (v : Value s)
      (hv : squareHasPossibility pGrid c.1 c.2 v.1 = true) :
      Reached s (removeSquarePossibility pGrid c.1 c.2 v.1) (eraseAt m c v)
  | cloneIntoGrid {pSource : Block} {m : Candidates (Coord s) (Value s)}
      (h : Reached s pSource m) (pTarget : Block) :
      Reached s (cloneIntoGrid pSource pTarget) m

theorem Reached.valid (hs : 2 ≤ s) (hs' : s ≤ 5) (h : Reached s pGrid m) :
    Valid s pGrid ∧ pGrid.candidates s = m := by
  induction h with
  | createGrid h =>
      obtain ⟨pNew, hcreate, hvalid, hm⟩ := createGrid_ok hs hs'
      rw [h] at hcreate
      cases hcreate
      exact ⟨hvalid, hm⟩
  | setValueAt _ c v hnext ih =>
      obtain ⟨hvalid, rfl⟩ := ih
      obtain ⟨pNext, hreturn, hnew, hm⟩ := returns_setValueAt hvalid c v
      rw [hnext] at hreturn
      cases hreturn
      exact ⟨hnew, hm⟩
  | removePossibilityAt _ c v hnext ih =>
      obtain ⟨hvalid, rfl⟩ := ih
      obtain ⟨pNext, hreturn, hnew, hm⟩ :=
        returns_removePossibilityAt hvalid c v
      rw [hnext] at hreturn
      cases hreturn
      exact ⟨hnew, hm⟩
  | setSquareValue _ c v ih =>
      obtain ⟨hvalid, rfl⟩ := ih
      exact ⟨hvalid.setSquareValue c v,
        candidates_setSquareValue hvalid.fits c v⟩
  | removeSquarePossibility _ c v hv ih =>
      obtain ⟨hvalid, rfl⟩ := ih
      exact hvalid.removeSquarePossibility (mem_candidates.mpr hv)
  | cloneIntoGrid _ pTarget ih =>
      obtain ⟨hvalid, rfl⟩ := ih
      exact hvalid.cloneIntoGrid pTarget

/-- A block gives the answers that a scan of a map gives. -/
structure Simulates (s : ℕ) (pGrid : Block)
    (m : Candidates (Coord s) (Value s)) : Prop where
  squareHasPossibility : ∀ (c : Coord s) (v : Value s),
    squareHasPossibility pGrid c.1 c.2 v.1 = true ↔ v ∈ m c
  getPossibilityCount : ∀ c : Coord s,
    getPossibilityCount pGrid c.1 c.2 = (m c).card
  getSquareValue_of_one : ∀ (c : Coord s) (v : Value s), m c = {v} →
    getSquareValue pGrid c.1 c.2 = v.1
  getSquareValue_of_not_one : ∀ c : Coord s, (m c).card ≠ 1 →
    getSquareValue pGrid c.1 c.2 = 0
  gc_impossibleSquares : pGrid.gc_impossibleSquares.toNat =
    (Finset.univ.filter fun c => m c = ∅).card
  gc_incompleteSquares : pGrid.gc_incompleteSquares.toNat =
    (Finset.univ.filter fun c => (m c).card ≠ 1).card
  isPossible : isPossible pGrid = true ↔ ∀ c, m c ≠ ∅
  isComplete : isComplete pGrid = true ↔ ∀ c, (m c).card = 1

theorem word_eq_zero_iff {word : BitVec 16} : word = 0 ↔ word.toNat = 0 :=
  BitVec.toNat_eq

theorem Valid.isPossible_iff (h : Valid s pGrid) :
    isPossible pGrid = true ↔ ∀ c, pGrid.candidates s c ≠ ∅ := by
  rw [isPossible, decide_eq_true_eq, word_eq_zero_iff, h.impossible, Finset.card_eq_zero,
    Finset.filter_eq_empty_iff]
  simp

theorem Valid.isComplete_iff (h : Valid s pGrid) :
    isComplete pGrid = true ↔ ∀ c, (pGrid.candidates s c).card = 1 := by
  rw [isComplete, decide_eq_true_eq, word_eq_zero_iff, h.incomplete, Finset.card_eq_zero,
    Finset.filter_eq_empty_iff]
  simp

theorem Valid.simulates (h : Valid s pGrid) :
    Simulates s pGrid (pGrid.candidates s) where
  squareHasPossibility _ _ := mem_candidates.symm
  getPossibilityCount c := (getPossibilityCount_eq h.fits c).trans (h.count c)
  getSquareValue_of_one _ _ hc := h.getSquareValue_of_one hc
  getSquareValue_of_not_one _ hc := h.getSquareValue_of_not_one hc
  gc_impossibleSquares := h.impossible
  gc_incompleteSquares := h.incomplete
  isPossible := h.isPossible_iff
  isComplete := h.isComplete_iff

/-- Every grid that is reached simulates its map, and the procedures that
cascade return from it whatever square and value they are called with. -/
theorem reached_simulates (hs : 2 ≤ s) (hs' : s ≤ 5) (h : Reached s pGrid m) :
    Simulates s pGrid m ∧
      ∀ (c : Coord s) (v : Value s),
        (∃ pNext, setValueAt pGrid c.1 c.2 v.1 = some pNext) ∧
        ∃ pNext, removePossibilityAt pGrid c.1 c.2 v.1 = some pNext := by
  obtain ⟨hvalid, rfl⟩ := h.valid hs hs'
  refine ⟨hvalid.simulates, fun c v => ⟨?_, ?_⟩⟩
  · obtain ⟨pNext, hnext, -⟩ := returns_setValueAt hvalid c v
    exact ⟨pNext, hnext⟩
  · obtain ⟨pNext, hnext, -⟩ := returns_removePossibilityAt hvalid c v
    exact ⟨pNext, hnext⟩

/-- A value that has been set is not a possibility in the same row. -/
theorem reached_simulates_row :
    ∃ pGrid pNext, createGrid 2 = some pGrid ∧
      setValueAt pGrid 0 0 1 = some pNext ∧
      squareHasPossibility pNext 1 0 1 = false := by
  obtain ⟨pGrid, hcreate, -⟩ :=
    createGrid_ok (s := 2) (by decide) (by decide)
  have hreached : Reached 2 pGrid _ := Reached.createGrid hcreate
  obtain ⟨-, hreturns⟩ := reached_simulates (by decide) (by decide) hreached
  obtain ⟨⟨pNext, hnext⟩, -⟩ := hreturns (0, 0) ⟨1, by decide⟩
  obtain ⟨hsimulates, -⟩ := reached_simulates (by decide) (by decide)
    (hreached.setValueAt (0, 0) ⟨1, by decide⟩ hnext)
  refine ⟨pGrid, pNext, hcreate, hnext, ?_⟩
  have hpeer : Peer (s := 2) (0, 0) (1, 0) := by decide
  have hnot := mapStore.notMem_setSquare (visitOrder 2)
    (v := (⟨1, by decide⟩ : Value 2)) (fun _ => Finset.univ) hpeer
  exact Bool.eq_false_iff.mpr
    (mt (hsimulates.squareHasPossibility (1, 0) ⟨1, by decide⟩).mp hnot)

end SudokuSolver.Draco
