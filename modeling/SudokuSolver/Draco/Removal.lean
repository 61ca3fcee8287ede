import SudokuSolver.Draco.Caches

/-!
# Removing possibilities in Draco

The procedures of `sudoku_solver.d` that remove possibilities call each other
for as long as squares are left with one value.  How deep the calls nest is
bounded here; no valid block comes to the bound, and on one they do to the
possibilities what the cascade does to a candidate map.
-/

namespace SudokuSolver.Draco

open Propagation

variable {s : ℕ} {pGrid : Block}

/-! ## The procedures -/

mutual

/-- `removePossibilitiesRelatedTo`, with so many calls left to nest. -/
def removeRelatedWithin : ℕ → Block → ℕ → ℕ → ℕ → Option Block
  | 0, _, _, _, _ => none
  | depth + 1, pGrid, x, y, value => do
      let pGrid ← (List.range pGrid.g_dimension).foldlM (fun pGrid indexX =>
        if indexX ≠ x then removePossibilityWithin depth pGrid indexX y value
        else some pGrid) pGrid
      let pGrid ← (List.range pGrid.g_dimension).foldlM (fun pGrid indexY =>
        if indexY ≠ y then removePossibilityWithin depth pGrid x indexY value
        else some pGrid) pGrid
      let startX := x / pGrid.g_sectorDimension * pGrid.g_sectorDimension
      let startY := y / pGrid.g_sectorDimension * pGrid.g_sectorDimension
      (List.range' startY pGrid.g_sectorDimension).foldlM (fun pGrid indexY =>
        (List.range' startX pGrid.g_sectorDimension).foldlM
          (fun pGrid indexX =>
            if indexX ≠ x ∧ indexY ≠ y then
              removePossibilityWithin depth pGrid indexX indexY value
            else some pGrid) pGrid) pGrid

/-- `removePossibilityAt`, with so many calls left to nest. -/
def removePossibilityWithin : ℕ → Block → ℕ → ℕ → ℕ → Option Block
  | 0, _, _, _, _ => none
  | depth + 1, pGrid, x, y, value =>
      if squareHasPossibility pGrid x y value then
        let pGrid := removeSquarePossibility pGrid x y value
        let value := getSquareValue pGrid x y
        if value ≠ 0 then removeRelatedWithin depth pGrid x y value
        else some pGrid
      else some pGrid

end

/-- More calls than can nest: of two nested ones, one has removed a
possibility. -/
def callDepth (pGrid : Block) : ℕ :=
  2 * (pGrid.g_dimension * pGrid.g_dimension * pGrid.g_dimension) + 2

def removePossibilitiesRelatedTo (pGrid : Block) (x y value : ℕ) :
    Option Block :=
  removeRelatedWithin (callDepth pGrid) pGrid x y value

def removePossibilityAt (pGrid : Block) (x y value : ℕ) : Option Block :=
  removePossibilityWithin (callDepth pGrid) pGrid x y value

def setValueAt (pGrid : Block) (x y value : ℕ) : Option Block :=
  removePossibilitiesRelatedTo (setSquareValue pGrid x y value) x y value

/-! ## The order of the related squares -/

/-- The squares related to the given one, in the order they are visited: its
row, its column, and what else is in its sector. -/
def related (c : Coord s) : List (Coord s) :=
  (((List.finRange (s * s)).filter (· ≠ c.1)).map fun indexX => (indexX, c.2)) ++
    (((List.finRange (s * s)).filter (· ≠ c.2)).map fun indexY =>
      (c.1, indexY)) ++
    (bandRange (band c.2)).flatMap fun indexY =>
      ((bandRange (band c.1)).filter fun indexX =>
        indexX ≠ c.1 ∧ indexY ≠ c.2).map fun indexX => (indexX, indexY)

theorem mem_related (c d : Coord s) : d ∈ related c ↔ Peer c d := by
  simp only [related, List.mem_append, List.mem_map, List.mem_filter,
    List.mem_finRange, true_and, List.mem_flatMap, mem_bandRange,
    decide_eq_true_eq]
  constructor
  · rintro ((⟨x, hx, rfl⟩ | ⟨y, hy, rfl⟩) | ⟨y, hy, x, ⟨hx, hne, -⟩, rfl⟩)
    · exact ⟨fun heq => hx (congrArg Prod.fst heq).symm, Or.inl rfl⟩
    · exact ⟨fun heq => hy (congrArg Prod.snd heq).symm, Or.inr (Or.inl rfl)⟩
    · exact ⟨fun heq => hne (congrArg Prod.fst heq).symm,
        Or.inr (Or.inr ⟨hx.symm, hy.symm⟩)⟩
  · rintro ⟨hne, hshare⟩
    by_cases hrow : c.2 = d.2
    · refine Or.inl (Or.inl ⟨d.1, fun heq => hne ?_, Prod.ext rfl hrow⟩)
      exact Prod.ext heq.symm hrow
    · by_cases hcolumn : c.1 = d.1
      · exact Or.inl (Or.inr ⟨d.2, fun heq => hrow heq.symm,
          Prod.ext hcolumn rfl⟩)
      · obtain ⟨hx, hy⟩ :=
          (hshare.resolve_left hrow).resolve_left hcolumn
        exact Or.inr ⟨d.2, hy.symm, d.1,
          ⟨hx.symm, fun heq => hcolumn heq.symm, fun heq => hrow heq.symm⟩, rfl⟩

/-- The order in which Draco visits related squares. -/
def visitOrder (s : ℕ) : PeerOrder (Peer (s := s)) where
  related := related
  mem_related := mem_related
  symm _ _ := Peer.symm
  irrefl := Peer.irrefl

/-! ## Blocks and maps -/

/-- A procedure returns a valid block whose possibilities are those of a map. -/
def Returns (s : ℕ) (result : Option Block)
    (m : Candidates (Coord s) (Value s)) : Prop :=
  ∃ pGrid, result = some pGrid ∧ Valid s pGrid ∧ pGrid.candidates s = m

theorem Valid.returns (h : Valid s pGrid) :
    Returns s (some pGrid) (pGrid.candidates s) := ⟨pGrid, rfl, h, rfl⟩

/-- A loop over steps each of which returns what a step on maps does. -/
theorem returns_foldlM {α : Type*} {step : Block → α → Option Block}
    {step' : Candidates (Coord s) (Value s) → α →
      Candidates (Coord s) (Value s)}
    {P : Candidates (Coord s) (Value s) → Prop}
    (hstep : ∀ pGrid a, Valid s pGrid → P (pGrid.candidates s) →
      Returns s (step pGrid a) (step' (pGrid.candidates s) a))
    (hP : ∀ m a, P m → P (step' m a)) (l : List α) {pGrid : Block}
    (h : Valid s pGrid) (hm : P (pGrid.candidates s)) :
    Returns s (l.foldlM step pGrid) (l.foldl step' (pGrid.candidates s)) ∧
      P (l.foldl step' (pGrid.candidates s)) := by
  induction l generalizing pGrid with
  | nil => exact ⟨h.returns, hm⟩
  | cons a l ih =>
      obtain ⟨pNext, hstep, hnext, hcandidates⟩ := hstep pGrid a h hm
      rw [List.foldlM_cons, List.foldl_cons, hstep, ← hcandidates]
      apply ih hnext
      rw [hcandidates]
      exact hP _ a hm

theorem Valid.getSquareValue_of_one (h : Valid s pGrid) {c : Coord s}
    {v : Value s} (hc : pGrid.candidates s c = {v}) :
    getSquareValue pGrid c.1 c.2 = v.1 := by
  rw [getSquareValue_eq h.fits]
  exact h.value_of_one c v hc

theorem Valid.getSquareValue_of_not_one (h : Valid s pGrid) {c : Coord s}
    (hc : (pGrid.candidates s c).card ≠ 1) :
    getSquareValue pGrid c.1 c.2 = 0 := by
  rw [getSquareValue_eq h.fits]
  exact h.value_of_not_one c hc

/-- The indices of a band, as a loop counts them. -/
theorem range'_eq_bandRange (i : Index s) :
    List.range' (i.1 / s * s) s = (bandRange (band i)).map Fin.val := by
  rw [bandRange, List.map_map, List.range'_eq_map_range,
    ← List.map_coe_finRange_eq_range, List.map_map]
  refine List.map_congr_left fun k _ => ?_
  have hplace : (finProdFinEquiv (band i, k)).1 = k.1 + s * (i.1 / s) := rfl
  have hcomm : i.1 / s * s = s * (i.1 / s) := Nat.mul_comm _ _
  simp only [Function.comp_apply, hplace, hcomm]
  exact Nat.add_comm _ _

section Sweep

variable {bound depth : ℕ}

/-- Every removal from a map of a bounded size returns what the cascade does,
with so many calls left to nest. -/
def RemovesUpTo (s bound depth : ℕ) : Prop :=
  ∀ pGrid, Valid s pGrid → size (pGrid.candidates s) ≤ bound →
    ∀ (c : Coord s) (v : Value s),
      Returns s (removePossibilityWithin depth pGrid c.1 c.2 v.1)
        (mapStore.removePossibility (visitOrder s) v (pGrid.candidates s) c)

/-- The step of a loop that skips some of the squares. -/
noncomputable def sweepStep (v : Value s) (p : Prop) [Decidable p]
    (m : Candidates (Coord s) (Value s)) (d : Coord s) :
    Candidates (Coord s) (Value s) :=
  if p then mapStore.removePossibility (visitOrder s) v m d else m

theorem size_sweepStep_le (v : Value s) (p : Prop) [Decidable p]
    {m : Candidates (Coord s) (Value s)} (d : Coord s) (hm : size m ≤ bound) :
    size (sweepStep v p m d) ≤ bound := by
  rw [sweepStep]
  split_ifs
  · exact (size_mono (mapStore.removePossibility_le _ v m d)).trans hm
  · exact hm

theorem returns_sweepStep (hremoves : RemovesUpTo s bound depth) (v : Value s)
    (p : Prop) [Decidable p] (d : Coord s) (h : Valid s pGrid)
    (hsize : size (pGrid.candidates s) ≤ bound) :
    Returns s
      (if p then removePossibilityWithin depth pGrid d.1 d.2 v.1
        else some pGrid)
      (sweepStep v p (pGrid.candidates s) d) := by
  rw [sweepStep]
  split_ifs
  · exact hremoves pGrid h hsize d v
  · exact h.returns

/-- The sweep over the related squares as three loops over maps. -/
theorem removeRelated_eq_loops (c : Coord s) (v : Value s)
    (m : Candidates (Coord s) (Value s)) :
    mapStore.removeRelated (visitOrder s) v c m =
      (bandRange (band c.2)).foldl (fun m y =>
          (bandRange (band c.1)).foldl (fun m x =>
            sweepStep v (x ≠ c.1 ∧ y ≠ c.2) m (x, y)) m)
        ((List.finRange (s * s)).foldl
          (fun m y => sweepStep v (y ≠ c.2) m (c.1, y))
          ((List.finRange (s * s)).foldl
            (fun m x => sweepStep v (x ≠ c.1) m (x, c.2)) m)) := by
  rw [CandidateStore.removeRelated]
  simp only [visitOrder, related, List.foldl_append, List.foldl_map,
    List.foldl_filter, List.foldl_flatMap, decide_eq_true_eq]
  rfl

theorem size_sweep_le (v : Value s) (p : Index s → Prop) [DecidablePred p]
    (coord : Index s → Coord s) (indices : List (Index s))
    {m : Candidates (Coord s) (Value s)} (hm : size m ≤ bound) :
    size (indices.foldl (fun m index => sweepStep v (p index) m (coord index))
      m) ≤ bound := by
  induction indices generalizing m with
  | nil => exact hm
  | cons index indices ih =>
      exact ih (size_sweepStep_le v (p index) (coord index) hm)

/-- One loop over indices, of which a step visits the square `coord`. -/
theorem returns_sweep (hremoves : RemovesUpTo s bound depth) (v : Value s)
    (p : Index s → Prop) [DecidablePred p] (coord : Index s → Coord s)
    (indices : List (Index s)) (h : Valid s pGrid)
    (hsize : size (pGrid.candidates s) ≤ bound) :
    Returns s
        (indices.foldlM (fun pGrid index =>
          if p index then
            removePossibilityWithin depth pGrid (coord index).1 (coord index).2
              v.1
          else some pGrid) pGrid)
        (indices.foldl (fun m index => sweepStep v (p index) m (coord index))
          (pGrid.candidates s)) ∧
      size (indices.foldl
        (fun m index => sweepStep v (p index) m (coord index))
        (pGrid.candidates s)) ≤ bound :=
  returns_foldlM (P := fun m => size m ≤ bound)
    (fun _ index h hm =>
      returns_sweepStep hremoves v (p index) (coord index) h hm)
    (fun _ index hm => size_sweepStep_le v (p index) (coord index) hm)
    indices h hsize

/-- A sweep over the related squares returns what the sweep over the map
does. -/
theorem returns_removeRelated (hremoves : RemovesUpTo s bound depth)
    (h : Valid s pGrid) (hsize : size (pGrid.candidates s) ≤ bound)
    (c : Coord s) (v : Value s) :
    Returns s (removeRelatedWithin (depth + 1) pGrid c.1 c.2 v.1)
      (mapStore.removeRelated (visitOrder s) v c (pGrid.candidates s)) := by
  rw [removeRelatedWithin, removeRelated_eq_loops, h.fits.dimension,
    ← List.map_coe_finRange_eq_range, List.foldlM_map]
  simp only [ne_eq, Fin.val_inj]
  obtain ⟨⟨pRow, hrow, hvalid, hm⟩, hsize⟩ := returns_sweep hremoves v
    (fun x => x ≠ c.1) (fun x => (x, c.2)) (List.finRange (s * s)) h hsize
  rw [hrow, ← hm, Option.bind_eq_bind, Option.bind_some, hvalid.fits.dimension,
    ← List.map_coe_finRange_eq_range, List.foldlM_map]
  rw [← hm] at hsize
  simp only [Fin.val_inj]
  obtain ⟨⟨pColumn, hcolumn, hvalid, hm⟩, hsize⟩ := returns_sweep hremoves v
    (fun y => y ≠ c.2) (fun y => (c.1, y)) (List.finRange (s * s)) hvalid hsize
  rw [hcolumn, ← hm, Option.bind_some,
    hvalid.fits.sectorDimension, range'_eq_bandRange, List.foldlM_map]
  rw [← hm] at hsize
  refine (returns_foldlM (P := fun m => size m ≤ bound) ?_ ?_ _ hvalid hsize).1
  · intro pGrid y hvalid hsize
    rw [hvalid.fits.sectorDimension, range'_eq_bandRange, List.foldlM_map]
    simp only [Fin.val_inj]
    exact (returns_sweep hremoves v (fun x => x ≠ c.1 ∧ y ≠ c.2)
      (fun x => (x, y)) _ hvalid hsize).1
  · intro m y hm
    exact size_sweep_le v _ _ _ hm

end Sweep

/-- Whatever follows from a removal, it returns, and it does what the cascade
does. -/
theorem returns_removePossibilityWithin {depth : ℕ} (h : Valid s pGrid)
    (hdepth : 2 * size (pGrid.candidates s) + 1 ≤ depth) (c : Coord s)
    (v : Value s) :
    Returns s (removePossibilityWithin depth pGrid c.1 c.2 v.1)
      (mapStore.removePossibility (visitOrder s) v (pGrid.candidates s) c) := by
  induction hn : size (pGrid.candidates s) using Nat.strongRecOn
    generalizing pGrid depth c v with
  | _ n ih =>
      obtain ⟨depth, rfl⟩ := Nat.exists_eq_add_of_le' (Nat.le_of_add_left_le hdepth)
      rw [removePossibilityWithin, CandidateStore.removePossibility_eq]
      have hmem : v ∈ mapStore.candidates (pGrid.candidates s) c ↔
          squareHasPossibility pGrid c.1 c.2 v.1 = true := mem_candidates
      by_cases hv : squareHasPossibility pGrid c.1 c.2 v.1 = true
      · rw [if_pos hv, if_pos (hmem.mpr hv)]
        obtain ⟨hvalid, hcandidates⟩ :=
          h.removeSquarePossibility (mem_candidates.mpr hv)
        have hremove : mapStore.remove (pGrid.candidates s) c v =
            (removeSquarePossibility pGrid c.1 c.2 v.1).candidates s :=
          hcandidates.symm
        have hlt : size ((removeSquarePossibility pGrid c.1 c.2 v.1).candidates s)
            < n := by
          rw [hcandidates, ← hn]
          exact size_eraseAt_lt (mem_candidates.mpr hv)
        rw [hremove]
        dsimp only
        cases hvalue : mapStore.value
            ((removeSquarePossibility pGrid c.1 c.2 v.1).candidates s) c with
        | none =>
            have hcard : ((removeSquarePossibility pGrid c.1 c.2 v.1).candidates s
                c).card ≠ 1 := by
              intro hone
              obtain ⟨w, hw⟩ := Finset.card_eq_one.mp hone
              have hsome := (mapStore.value_eq_some_iff
                ((removeSquarePossibility pGrid c.1 c.2 v.1).candidates s) c
                w).mpr hw
              rw [hvalue] at hsome
              cases hsome
            rw [hvalid.getSquareValue_of_not_one hcard, if_neg (by simp)]
            exact hvalid.returns
        | some w =>
            have hw : (removeSquarePossibility pGrid c.1 c.2 v.1).candidates s c =
                {w} := (mapStore.value_eq_some_iff _ c w).mp hvalue
            have hpos := (Finset.mem_Icc.mp w.2).1
            rw [hvalid.getSquareValue_of_one hw, if_pos (by omega)]
            -- The removal has left two calls more than are needed now.
            obtain ⟨rest, rfl⟩ := Nat.exists_eq_add_of_le'
              (show 1 ≤ depth by omega)
            refine returns_removeRelated ?_ hvalid le_rfl c w
            intro pNext hnext hsize d u
            exact ih _ (hsize.trans_lt hlt) hnext (by omega) d u rfl
      · rw [if_neg hv, if_neg (mt hmem.mp hv)]
        exact h.returns

/-- A board has at most so many candidates. -/
theorem size_le (m : Candidates (Coord s) (Value s)) :
    size m ≤ s * s * (s * s) * (s * s) := by
  calc
    size m ≤ ∑ _c : Coord s, s * s := by
      refine Finset.sum_le_sum fun c _ => ?_
      exact (Finset.card_le_card (Finset.subset_univ (m c))).trans_eq
        (card_values s)
    _ = s * s * (s * s) * (s * s) := by
      rw [Finset.sum_const, Finset.card_univ, Fintype.card_prod,
        Fintype.card_fin, smul_eq_mul]

/-- The calls of the source never nest deeper than `callDepth`. -/
theorem Fits.size_lt_callDepth (h : Fits s pGrid)
    (m : Candidates (Coord s) (Value s)) :
    2 * size m + 2 ≤ callDepth pGrid := by
  have hle := size_le m
  rw [callDepth, h.dimension]
  omega

theorem returns_removePossibilityAt (h : Valid s pGrid) (c : Coord s)
    (v : Value s) :
    Returns s (removePossibilityAt pGrid c.1 c.2 v.1)
      (mapStore.removePossibility (visitOrder s) v (pGrid.candidates s) c) := by
  have hdepth := h.fits.size_lt_callDepth (pGrid.candidates s)
  exact returns_removePossibilityWithin h (by omega) c v

/-- `setValueAt` returns for every value, whether the square was decided, open
or empty before. -/
theorem returns_setValueAt (h : Valid s pGrid) (c : Coord s) (v : Value s) :
    Returns s (setValueAt pGrid c.1 c.2 v.1)
      (mapStore.setSquare (visitOrder s) v c (pGrid.candidates s)) := by
  have hassign : mapStore.assign (pGrid.candidates s) c v =
      (setSquareValue pGrid c.1 c.2 v.1).candidates s :=
    (candidates_setSquareValue h.fits c v).symm
  have hvalid := h.setSquareValue c v
  have hdepth := hvalid.fits.size_lt_callDepth
    ((setSquareValue pGrid c.1 c.2 v.1).candidates s)
  obtain ⟨depth, hcalls⟩ := Nat.exists_eq_add_of_le' (show
    1 ≤ callDepth (setSquareValue pGrid c.1 c.2 v.1) by omega)
  rw [setValueAt, CandidateStore.setSquare, hassign,
    removePossibilitiesRelatedTo, hcalls]
  refine returns_removeRelated ?_ hvalid le_rfl c v
  intro pNext hnext hsize d u
  exact returns_removePossibilityWithin hnext (by omega) d u

end SudokuSolver.Draco
