import SudokuSolver.Draco.Advance

/-!
# Runs of the solver in Draco

A run creates a grid, sets values, and then advances the search; a complete grid
at the front of the list is freed.  A map of candidates bounds how many grids a
run can hold at a time, so that the count of the grids in memory never wraps.
-/

namespace SudokuSolver.Draco

open Propagation LinkedList

variable {s : ℕ} {fails : ℕ → Bool} {pGridList : Option ℕ} {mem : Memory}
variable {pCounters : Counters}

/-- A memory without grids. -/
def Memory.noGrids (mallocs : ℕ) : Memory := ⟨fun _ => none, mallocs, 0⟩

/-- What is reached by creating a grid and setting values in it. -/
inductive Clued (fails : ℕ → Bool) (s : ℕ) : Option ℕ → Memory → Prop
  | createGrid {mallocs : ℕ} {pGridList : Option ℕ} {mem : Memory}
      (h : (Memory.noGrids mallocs).createGrid fails s = (pGridList, mem)) :
      Clued fails s pGridList mem
  | setValueAt {pGrid : ℕ} {mem mem' : Memory}
      (h : Clued fails s (some pGrid) mem) (c : Coord s) (v : Value s)
      (hnext : mem.onBlock pGrid (fun block =>
        setValueAt block c.1 c.2 v.1) = some mem') :
      Clued fails s (some pGrid) mem'

/-- What is reached by advancing the search, where the caller frees front grids
that are complete. -/
inductive Run (fails : ℕ → Bool) (s : ℕ) :
    Option ℕ → Memory → Counters → Prop
  | clued {pGridList : Option ℕ} {mem : Memory}
      (h : Clued fails s pGridList mem) (pCounters : Counters) :
      Run fails s pGridList mem pCounters
  | advanceSolving {pGridList pGridList' : Option ℕ} {mem mem' : Memory}
      {pCounters pCounters' : Counters}
      (h : Run fails s pGridList mem pCounters)
      (hnext : mem.advanceSolving fails pGridList pCounters =
        some (pGridList', mem', pCounters')) :
      Run fails s pGridList' mem' pCounters'
  | freeFrontGrid {pGridList : ℕ} {pGridList' : Option ℕ} {mem mem' : Memory}
      {pCounters : Counters} {grid : Grid}
      (h : Run fails s (some pGridList) mem pCounters)
      (hgrid : mem.grids pGridList = some grid)
      (hcomplete : isComplete grid.block = true)
      (hnext : mem.freeFrontGrid pGridList = some (pGridList', mem')) :
      Run fails s pGridList' mem' pCounters

/-! ## What holds between the calls -/

theorem represents_noGrids (mallocs : ℕ) :
    (Memory.noGrids mallocs).Represents s [] [] [] [] where
  holds :=
    { ring := isRing_nil
      nodup := List.nodup_nil
      allocated := fun _ => iff_of_false Bool.false_ne_true List.not_mem_nil
      count := rfl
      fresh := fun _ hp => absurd hp List.not_mem_nil }
  valid _ _ hblock := by cases hblock
  maps := rfl
  looseMaps := rfl

/-- A new grid has all possibilities in every square, if there is memory for
it. -/
theorem represents_createGrid (hs : 2 ≤ s) (hs' : s ≤ 5) (fails : ℕ → Bool)
    (mallocs : ℕ) :
    (fails mallocs = true ∧ (Memory.noGrids mallocs).createGrid fails s =
      (none, Memory.noGrids (mallocs + 1))) ∨
    ∃ p mem, (Memory.noGrids mallocs).createGrid fails s = (some p, mem) ∧
      mem.Represents s [p] [] [fun _ => Finset.univ] [] := by
  obtain ⟨block, hcreate, hvalid, hm⟩ := createGrid_ok hs hs'
  by_cases hfails : fails mallocs = true
  · left
    refine ⟨hfails, ?_⟩
    simp only [Memory.createGrid, hcreate, Memory.noGrids, hfails, if_true]
  · right
    obtain ⟨p, mem, hresult, hholds, hblock⟩ :=
      Memory.createGrid_holds (represents_noGrids (s := s) mallocs).holds
        hcreate (Bool.not_eq_true _ ▸ hfails)
    refine ⟨p, mem, hresult, hholds, ?_, ?_, rfl⟩
    · intro q block' hblock'
      have hq : q ∈ [p] ++ [] :=
        (hholds.allocated q).mp (by rw [hblock']; rfl)
      rw [List.append_nil, List.mem_singleton] at hq
      subst q
      rw [hblock, Option.some.injEq] at hblock'
      exact hblock' ▸ hvalid
    · rw [List.map_singleton, Memory.mapAt_of_blocks hblock, hm]

/-- No grid, or one. -/
theorem Clued.represents (hs : 2 ≤ s) (hs' : s ≤ 5)
    (h : Clued fails s pGridList mem) :
    ∃ l ms, pGridList = l.head? ∧ mem.Represents s l [] ms [] ∧
      l.length ≤ 1 := by
  induction h with
  | @createGrid mallocs pGridList mem h =>
      rcases represents_createGrid hs hs' fails mallocs with
        ⟨-, hnone⟩ | ⟨p, mem', hsome, hrep⟩
      · rw [hnone] at h
        cases h
        exact ⟨[], [], rfl, represents_noGrids _, Nat.zero_le 1⟩
      · rw [hsome] at h
        cases h
        exact ⟨[p], _, rfl, hrep, le_rfl⟩
  | @setValueAt pGrid mem mem' h c v hnext ih =>
      obtain ⟨l, ms, hhead, hrep, hlength⟩ := ih
      obtain ⟨l, rfl⟩ := List.head?_eq_some_iff.mp hhead.symm
      obtain ⟨m, ms, rfl⟩ := hrep.exists_cons
      obtain ⟨mem₁, hset, hrep₁⟩ := hrep.setFrontValue c v
      rw [hnext] at hset
      cases hset
      exact ⟨pGrid :: l, _, rfl, hrep₁, hlength⟩

/-- The list of a run stands for a state of a search that began with a single
map. -/
theorem Run.represents (hs : 2 ≤ s) (hs' : s ≤ 5)
    (h : Run fails s pGridList mem pCounters) :
    ∃ (l : List ℕ) (b : Backlog (Coord s) (Value s)),
      pGridList = l.head? ∧ mem.Represents s l [] b.waiting [] ∧
        Backlog.Bounded (s * s * (s * s) * (s * s)) b.lost b.waiting := by
  induction h with
  | @clued pGridList mem h pCounters =>
      obtain ⟨l, ms, hhead, hrep, hlength⟩ := h.represents hs hs'
      refine ⟨l, ⟨ms, [], 0⟩, hhead, hrep, ?_⟩
      rw [← List.length_map (mem.mapAt s), hrep.maps] at hlength
      cases ms with
      | nil => exact Nat.zero_le _
      | cons m ms =>
          obtain rfl := List.eq_nil_of_length_eq_zero
            (Nat.le_zero.mp (Nat.le_of_succ_le_succ hlength))
          exact ⟨size_le m, Nat.zero_le _⟩
  | @advanceSolving pGridList pGridList' mem mem' pCounters pCounters' h hnext
      ih =>
      obtain ⟨l, b, rfl, hrep, hbounded⟩ := ih
      obtain ⟨l', b', mem₁, pCounters₁, hresult, hrep', hadvanced, -⟩ :=
        hrep.advanceSolving fails pCounters
      rw [hnext] at hresult
      cases hresult
      exact ⟨l', b', rfl, hrep', hadvanced.steps.bounded hbounded⟩
  | @freeFrontGrid pGridList pGridList' mem mem' pCounters grid h hgrid
      hcomplete hnext ih =>
      obtain ⟨l, ⟨ms, displayed, lost⟩, hhead, hrep, hbounded⟩ := ih
      obtain ⟨l, rfl⟩ := List.head?_eq_some_iff.mp hhead.symm
      obtain ⟨m, ms, rfl⟩ := hrep.exists_cons
      obtain ⟨mem₁, hfree, hrep₁⟩ := hrep.freeFrontGrid
      rw [hnext] at hfree
      cases hfree
      exact ⟨l, ⟨ms, m :: displayed, lost⟩, rfl, hrep₁, hbounded.2⟩

/-- Between the calls the grids in memory form one ring, they are as many as are
counted, and every call that may follow returns, so that it neither reads nor
writes nor frees what has been freed.  Freeing the list leaves no grid. -/
theorem list_integrity (hs : 2 ≤ s) (hs' : s ≤ 5)
    (h : Run fails s pGridList mem pCounters) :
    (∃ l, pGridList = l.head? ∧ IsRing mem.next mem.previous l ∧
      (∀ p ∈ l, ∀ q, mem.next p = some q ↔ q ∈ l ∧ mem.previous q = some p) ∧
      (∀ p, (mem.grids p).isSome ↔ p ∈ l) ∧
      mem.gridsInMemory.toNat = l.length) ∧
    (∀ p, pGridList = some p → ∀ (c : Coord s) (v : Value s), ∃ mem',
      mem.onBlock p (fun block => setValueAt block c.1 c.2 v.1) = some mem') ∧
    (∃ result, mem.advanceSolving fails pGridList pCounters = some result) ∧
    (∀ p, pGridList = some p → ∃ result, mem.freeFrontGrid p = some result) ∧
    ∃ mem', mem.freeGridList pGridList = some mem' ∧
      (∀ p, mem'.grids p = none) ∧ mem'.gridsInMemory = 0 := by
  obtain ⟨l, b, rfl, hrep, hbounded⟩ := h.represents hs hs'
  have hfront : ∀ p, l.head? = some p → ∃ l', l = p :: l' := fun p hp =>
    List.head?_eq_some_iff.mp hp
  refine ⟨⟨l, rfl, hrep.holds.ring, fun p hp q =>
    hrep.holds.ring.next_eq_some_iff hp, fun p => ?_, ?_⟩, ?_, ?_, ?_, ?_⟩
  · have halive := hrep.holds.allocated p
    rwa [Memory.blocks, Option.isSome_map, List.append_nil] at halive
  · have hlength := hbounded.length_le
    rw [← hrep.maps, List.length_map] at hlength
    have hbound : s * s * (s * s) * (s * s) ≤ 15625 := by
      interval_cases s <;> decide
    rw [hrep.holds.count, List.append_nil, BitVec.toNat_ofNat]
    exact Nat.mod_eq_of_lt (by omega)
  · rintro p hp c v
    obtain ⟨l, rfl⟩ := hfront p hp
    obtain ⟨m, ms, hms⟩ := hrep.exists_cons
    obtain ⟨mem', hset, -⟩ := (hms ▸ hrep).setFrontValue c v
    exact ⟨mem', hset⟩
  · obtain ⟨l', b', mem', pCounters', hresult, -⟩ :=
      hrep.advanceSolving fails pCounters
    exact ⟨_, hresult⟩
  · rintro p hp
    obtain ⟨l, rfl⟩ := hfront p hp
    obtain ⟨mem', hfree, -⟩ := hrep.holds.freeFrontGrid
    exact ⟨_, hfree⟩
  · obtain ⟨mem', hfree, hholds⟩ := hrep.holds.freeGridList
    refine ⟨mem', hfree, fun p => ?_, hholds.count⟩
    have hdead := hholds.allocated p
    rw [Memory.blocks, Option.isSome_map] at hdead
    exact Option.not_isSome_iff_eq_none.mp (mt hdead.mp List.not_mem_nil)

/-- A run of one call, in which no grid can be cloned. -/
theorem list_integrity_no_clones :
    ∃ pGrid mem pGridList mem₁ pCounters mem₂,
      (Memory.noGrids 0).createGrid (fun mallocs => mallocs != 0) 2 =
        (some pGrid, mem) ∧
      mem.advanceSolving (fun mallocs => mallocs != 0) (some pGrid)
        ⟨0, 0, 0, 0⟩ = some (pGridList, mem₁, pCounters) ∧
      mem₁.freeGridList pGridList = some mem₂ ∧
      (∀ p, mem₂.grids p = none) ∧ mem₂.gridsInMemory = 0 := by
  rcases represents_createGrid (s := 2) (by decide) (by decide)
    (fun mallocs => mallocs != 0) 0 with ⟨hfails, -⟩ | ⟨pGrid, mem, hcreate, -⟩
  · exact absurd hfails (by decide)
  · have hstart := Run.clued (Clued.createGrid hcreate) ⟨0, 0, 0, 0⟩
    obtain ⟨-, -, ⟨⟨pGridList, mem₁, pCounters⟩, hadvance⟩, -⟩ :=
      list_integrity (by decide) (by decide) hstart
    obtain ⟨-, -, -, -, mem₂, hfree⟩ :=
      list_integrity (by decide) (by decide) (hstart.advanceSolving hadvance)
    exact ⟨pGrid, mem, pGridList, mem₁, pCounters, mem₂, hcreate, hadvance,
      hfree⟩

end SudokuSolver.Draco
