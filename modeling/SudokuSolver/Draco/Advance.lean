import SudokuSolver.Draco.Represents

/-!
# Advancing the search in Draco

`advanceSolving` of `sudoku_solver.d` refines the grid at the front of the list,
and splits it if it is still open.  Where there is no memory for the clone, the
last grid of the list is given up for it.  On the maps of the grids this is a
step of a search with a limited memory, so that the list stays a ring of
allocated grids, and the number of grids that were lost is known.
-/

namespace SudokuSolver.Draco

open Propagation

/-! ## The square to split -/

def getAPossibilityAt (pGrid : Block) (x y : ℕ) : ℕ :=
  ((List.range' 1 pGrid.g_dimension).find? fun index =>
    squareHasPossibility pGrid x y index).getD 0

/-- The variables `bestCount`, `bestX` and `bestY`; the last two have no value
before a square is found. -/
structure Best where
  bestCount : ℕ
  bestXY : Option (ℕ × ℕ)

/-- The body of the loops over the squares. -/
def considerSquare (pGrid : Block) (best : Best) (x y : ℕ) : Best :=
  let count := getPossibilityCount pGrid x y
  if count > 1 ∧ (best.bestCount = 0 ∨ count < best.bestCount) then
    ⟨count, some (x, y)⟩
  else best

def bestSquare (pGrid : Block) : Best :=
  (List.range pGrid.g_dimension).foldl (fun best y =>
    (List.range pGrid.g_dimension).foldl (fun best x =>
      considerSquare pGrid best x y) best) ⟨0, none⟩

/-! ## Splitting -/

namespace Memory

/-- The clone that `splitFirstGridToFront` works on, and the list besides. -/
def cloneOrReuse (mem : Memory) (fails : ℕ → Bool) (pGridList : Option ℕ)
    (pGrid : ℕ) (pCounters : Counters) :
    Option (Option ℕ × Option ℕ × Memory × Counters) := do
  let (pCloneGrid, mem) ← mem.cloneGrid fails pGrid
  match pCloneGrid with
  | some pCloneGrid => return (some pCloneGrid, pGridList, mem, pCounters)
  | none =>
      let pCounters :=
        { pCounters with c_GridsLost := pCounters.c_GridsLost + 1 }
      match pGridList with
      | none => return (none, none, mem, pCounters)
      | some pGridList =>
          let front ← mem.grids pGridList
          let pCloneGrid := front.g_pPrevious
          let (pGridList, mem) ← mem.detachFrontGrid front.g_pPrevious
          let mem ← mem.cloneIntoGrid pGrid pCloneGrid
          return (some pCloneGrid, pGridList, mem, pCounters)

/-- What `splitFirstGridToFront` does with the clone. -/
def attachClone (mem : Memory) (pGridList pCloneGrid : Option ℕ)
    (bestX bestY possibility : ℕ) (pCounters : Counters) :
    Option (Option ℕ × Memory × Counters) :=
  match pCloneGrid with
  | none => some (pGridList, mem, pCounters)
  | some pCloneGrid => do
      let pCounters :=
        { pCounters with c_GridSplits := pCounters.c_GridSplits + 1 }
      let mem ← mem.onBlock pCloneGrid fun block =>
        removePossibilityAt block bestX bestY possibility
      mem.attachToFrontIfPossible pGridList pCloneGrid pCounters

/-- What `splitFirstGridToFront` does once it has a clone or none. -/
def attachSplits (mem : Memory) (pGridList pCloneGrid : Option ℕ)
    (pGrid bestX bestY possibility : ℕ) (pCounters : Counters) :
    Option (Option ℕ × Memory × Counters) := do
  let (pGridList, mem, pCounters) ←
    mem.attachClone pGridList pCloneGrid bestX bestY possibility pCounters
  let mem ← mem.onBlock pGrid fun block =>
    setValueAt block bestX bestY possibility
  mem.attachToFrontIfPossible pGridList pGrid pCounters

/-- This must not be called with complete or impossible grids. -/
def splitFirstGridToFront (mem : Memory) (fails : ℕ → Bool) (pGridList : ℕ)
    (pCounters : Counters) : Option (Option ℕ × Memory × Counters) := do
  let pGrid := pGridList
  let (pGridList, mem) ← mem.detachFrontGrid pGridList
  let grid ← mem.grids pGrid
  let (bestX, bestY) ← (bestSquare grid.block).bestXY
  let possibility := getAPossibilityAt grid.block bestX bestY
  let (pCloneGrid, pGridList, mem, pCounters) ←
    mem.cloneOrReuse fails pGridList pGrid pCounters
  mem.attachSplits pGridList pCloneGrid pGrid bestX bestY possibility pCounters

/-- What `advanceSolving` does with a front grid that it has not freed. -/
def refineFrontGrid (mem : Memory) (fails : ℕ → Bool) (pGridList : ℕ)
    (pCounters : Counters) : Option (Option ℕ × Memory × Counters) := do
  let mem ← mem.onBlock pGridList refineGrid
  let front ← mem.grids pGridList
  if !isComplete front.block && isPossible front.block then
    mem.splitFirstGridToFront fails pGridList pCounters
  else return (some pGridList, mem, pCounters)

/-- Returns nil if there are no more solutions.  The caller must free the front
grid if it is complete before calling again. -/
def advanceSolving (mem : Memory) (fails : ℕ → Bool) (pGridList : Option ℕ)
    (pCounters : Counters) : Option (Option ℕ × Memory × Counters) :=
  match pGridList with
  | none => some (none, mem, pCounters)
  | some pGridList => do
      let front ← mem.grids pGridList
      if !isPossible front.block then
        let pCounters := { pCounters with
          c_ImpossibleGrids := pCounters.c_ImpossibleGrids + 1 }
        let (pGridList, mem) ← mem.freeFrontGrid pGridList
        match pGridList with
        | none => return (none, mem, pCounters)
        | some pGridList => mem.refineFrontGrid fails pGridList pCounters
      else mem.refineFrontGrid fails pGridList pCounters

end Memory

/-! ## What is split -/

variable {s : ℕ} {pGrid : Block}

/-- The squares that were visited have no fewer possibilities than the best
one, as far as they have several. -/
def Chosen (s : ℕ) (pGrid : Block) (visited : List (Coord s))
    (best : Best) : Prop :=
  (best = ⟨0, none⟩ ∧ ∀ c ∈ visited, (pGrid.candidates s c).card ≤ 1) ∨
    ∃ d : Coord s,
      best = ⟨(pGrid.candidates s d).card, some (d.1.1, d.2.1)⟩ ∧
      1 < (pGrid.candidates s d).card ∧
      ∀ c ∈ visited, 1 < (pGrid.candidates s c).card →
        (pGrid.candidates s d).card ≤ (pGrid.candidates s c).card

theorem Chosen.considerSquare (h : Valid s pGrid) {visited : List (Coord s)}
    {best : Best} (hbest : Chosen s pGrid visited best) (c : Coord s) :
    Chosen s pGrid (c :: visited) (considerSquare pGrid best c.1.1 c.2.1) := by
  have hcount : getPossibilityCount pGrid c.1 c.2 =
      (pGrid.candidates s c).card := h.simulates.getPossibilityCount c
  rw [Draco.considerSquare, hcount]
  rcases hbest with ⟨rfl, hvisited⟩ | ⟨d, rfl, hopen, hvisited⟩
  · by_cases hc : (pGrid.candidates s c).card > 1
    · rw [if_pos ⟨hc, Or.inl rfl⟩]
      refine Or.inr ⟨c, rfl, hc, List.forall_mem_cons.mpr ⟨fun _ => le_rfl, ?_⟩⟩
      intro e he hopen
      exact absurd hopen (Nat.not_lt.mpr (hvisited e he))
    · rw [if_neg fun hboth => hc hboth.1]
      exact Or.inl ⟨rfl, List.forall_mem_cons.mpr
        ⟨Nat.not_lt.mp hc, hvisited⟩⟩
  · have hpos : (pGrid.candidates s d).card ≠ 0 := by omega
    by_cases hc : (pGrid.candidates s c).card > 1 ∧
        (pGrid.candidates s c).card < (pGrid.candidates s d).card
    · rw [if_pos ⟨hc.1, Or.inr hc.2⟩]
      refine Or.inr ⟨c, rfl, hc.1, List.forall_mem_cons.mpr
        ⟨fun _ => le_rfl, fun e he he' => ?_⟩⟩
      exact hc.2.le.trans (hvisited e he he')
    · rw [if_neg fun hboth => hc ⟨hboth.1, hboth.2.resolve_left hpos⟩]
      refine Or.inr ⟨d, rfl, hopen, List.forall_mem_cons.mpr
        ⟨fun hc' => ?_, hvisited⟩⟩
      exact Nat.not_lt.mp fun hlt => hc ⟨hc', hlt⟩

/-- Of the squares with several possibilities one with the fewest is split. -/
theorem Valid.bestSquare (h : Valid s pGrid) {c : Coord s}
    (hc : 1 < (pGrid.candidates s c).card) :
    ∃ d : Coord s, (bestSquare pGrid).bestXY = some (d.1.1, d.2.1) ∧
      1 < (pGrid.candidates s d).card ∧
      ∀ e : Coord s, 1 < (pGrid.candidates s e).card →
        (pGrid.candidates s d).card ≤ (pGrid.candidates s e).card := by
  have hfold : ∀ (l visited : List (Coord s)) (best : Best),
      Chosen s pGrid visited best →
      Chosen s pGrid (l.reverse ++ visited)
        (l.foldl (fun best c => Draco.considerSquare pGrid best c.1.1 c.2.1)
          best) := by
    intro l
    induction l with
    | nil => exact fun visited best hbest => hbest
    | cons d l ih =>
        intro visited best hbest
        rw [List.foldl_cons, List.reverse_cons, List.append_assoc]
        exact ih _ _ (hbest.considerSquare h d)
  have hloops : Draco.bestSquare pGrid = (rowMajor s).foldl (fun best c =>
      Draco.considerSquare pGrid best c.1.1 c.2.1) ⟨0, none⟩ := by
    rw [Draco.bestSquare, h.fits.dimension]
    exact foldl_range_range _ _
  have hall : ∀ e : Coord s, e ∈ (rowMajor s).reverse ++ [] := by
    intro e
    rw [List.append_nil, List.mem_reverse]
    exact mem_rowMajor e
  rw [hloops]
  rcases hfold (rowMajor s) [] ⟨0, none⟩ (Or.inl ⟨rfl, by simp⟩) with
    ⟨-, hnone⟩ | ⟨d, hd, hopen, hfewest⟩
  · exact absurd hc (Nat.not_lt.mpr (hnone c (hall c)))
  · exact ⟨d, by rw [hd], hopen, fun e he => hfewest e (hall e) he⟩

theorem Valid.getAPossibilityAt (h : Valid s pGrid) {c : Coord s}
    (hc : (pGrid.candidates s c).Nonempty) :
    ∃ v : Value s, getAPossibilityAt pGrid c.1 c.2 = v.1 ∧
      v ∈ pGrid.candidates s c := by
  have hmap : ((oneTo s).map Subtype.val).find? (fun index =>
      squareHasPossibility pGrid c.1 c.2 index) = ((oneTo s).find? fun v =>
        squareHasPossibility pGrid c.1 c.2 v.1).map Subtype.val :=
    List.find?_map ..
  rw [Draco.getAPossibilityAt, h.fits.range'_eq, hmap]
  cases hfind : (oneTo s).find? fun v =>
      squareHasPossibility pGrid c.1 c.2 v.1 with
  | none =>
      obtain ⟨v, hv⟩ := hc
      have hnot := List.find?_eq_none.mp hfind v (mem_oneTo v)
      exact absurd (mem_candidates.mp hv) hnot
  | some v =>
      have hv := List.find?_some hfind
      refine ⟨v, ?_, mem_candidates.mpr hv⟩
      rw [Option.map_some, Option.getD_some]

/-! ## What the routines do to the maps -/

/-- The search has gone on, and the counters with it. -/
structure Advanced (fails : ℕ → Bool) (pCounters pCounters' : Counters)
    (b b' : Backlog (Coord s) (Value s)) : Prop where
  steps : Backlog.Steps Peer House.squares b b'
  displayed : b'.displayed = b.displayed
  gridsLost : ∃ n, b'.lost = b.lost + n ∧
    pCounters'.c_GridsLost = pCounters.c_GridsLost + BitVec.ofNat 32 n ∧
    ((∀ i, fails i = false) → n = 0)
  solutions : pCounters'.c_Solutions = pCounters.c_Solutions

/-- Nothing is lost in steps of the search that cost no memory. -/
theorem Advanced.of_steps {fails : ℕ → Bool} {pCounters pCounters' : Counters}
    {ms ms' displayed : List (Candidates (Coord s) (Value s))} {lost : ℕ}
    (hsteps : Backlog.Steps Peer House.squares ⟨ms, displayed, lost⟩
      ⟨ms', displayed, lost⟩)
    (hlost : pCounters'.c_GridsLost = pCounters.c_GridsLost)
    (hsolutions : pCounters'.c_Solutions = pCounters.c_Solutions) :
    Advanced fails pCounters pCounters' ⟨ms, displayed, lost⟩
      ⟨ms', displayed, lost⟩ where
  steps := hsteps
  displayed := rfl
  gridsLost := ⟨0, rfl, hlost.trans (BitVec.add_zero _).symm, fun _ => rfl⟩
  solutions := hsolutions

/-- One grid is lost where `Malloc` has failed. -/
theorem Advanced.of_lost {fails : ℕ → Bool} {pCounters pCounters' : Counters}
    {ms ms' displayed : List (Candidates (Coord s) (Value s))} {lost i : ℕ}
    (hfails : fails i = true)
    (hsteps : Backlog.Steps Peer House.squares ⟨ms, displayed, lost⟩
      ⟨ms', displayed, lost + 1⟩)
    (hlost : pCounters'.c_GridsLost = pCounters.c_GridsLost + 1)
    (hsolutions : pCounters'.c_Solutions = pCounters.c_Solutions) :
    Advanced fails pCounters pCounters' ⟨ms, displayed, lost⟩
      ⟨ms', displayed, lost + 1⟩ where
  steps := hsteps
  displayed := rfl
  gridsLost := by
    refine ⟨1, rfl, hlost, fun hnever => ?_⟩
    rw [hnever] at hfails
    cases hfails
  solutions := hsolutions

theorem Advanced.trans {fails : ℕ → Bool}
    {pCounters₁ pCounters₂ pCounters₃ : Counters}
    {b₁ b₂ b₃ : Backlog (Coord s) (Value s)}
    (h₁ : Advanced fails pCounters₁ pCounters₂ b₁ b₂)
    (h₂ : Advanced fails pCounters₂ pCounters₃ b₂ b₃) :
    Advanced fails pCounters₁ pCounters₃ b₁ b₃ where
  steps := h₁.steps.trans h₂.steps
  displayed := h₂.displayed.trans h₁.displayed
  gridsLost := by
    obtain ⟨n, hn, hcounter, hnone⟩ := h₁.gridsLost
    obtain ⟨n', hn', hcounter', hnone'⟩ := h₂.gridsLost
    refine ⟨n + n', ?_, ?_, fun hnever => ?_⟩
    · rw [hn', hn, Nat.add_assoc]
    · rw [hcounter', hcounter, BitVec.add_assoc, BitVec.ofNat_add]
    · rw [hnone hnever, hnone' hnever]
  solutions := h₂.solutions.trans h₁.solutions

/-- Every call does away with some work, unless it leaves a complete grid at the
front or nothing at all. -/
def Progress (b b' : Backlog (Coord s) (Value s)) : Prop :=
  b'.waiting = [] ∨ Backlog.load b'.waiting < Backlog.load b.waiting ∨
    ∃ m ms, b'.waiting = m :: ms ∧ Decided m

namespace Memory

variable {mem : Memory} {p : ℕ} {l loose : List ℕ}
variable {m : Candidates (Coord s) (Value s)}
variable {ms : List (Candidates (Coord s) (Value s))}

/-- There is a clone, perhaps in place of the last grid; without either the
list is empty. -/
theorem Represents.cloneOrReuse (h : Represents s mem l [p] ms [m])
    (fails : ℕ → Bool) (pCounters : Counters) :
    (∃ q mem', mem.cloneOrReuse fails l.head? p pCounters =
        some (some q, l.head?, mem', pCounters) ∧
      Represents s mem' l [q, p] ms [m, m]) ∨
    fails mem.mallocs = true ∧
      ∃ pCloneGrid l' mem' pCounters',
        mem.cloneOrReuse fails l.head? p pCounters =
          some (pCloneGrid, l'.head?, mem', pCounters') ∧
        pCounters'.c_GridsLost = pCounters.c_GridsLost + 1 ∧
        pCounters'.c_Solutions = pCounters.c_Solutions ∧
        ((pCloneGrid = none ∧ ms = [] ∧ Represents s mem' l' [p] [] [m]) ∨
          ∃ q ms' k, pCloneGrid = some q ∧ ms = ms' ++ [k] ∧
            Represents s mem' l' [q, p] ms' [m, m]) := by
  rw [Memory.cloneOrReuse]
  rcases h.cloneGrid fails with
    ⟨mem₁, hclone, h₁, hfails⟩ | ⟨q, mem₁, hclone, h₁⟩
  · right
    refine ⟨hfails, ?_⟩
    generalize hcounters :
      { pCounters with c_GridsLost := pCounters.c_GridsLost + 1 } = pCounters'
    have hlost : pCounters'.c_GridsLost = pCounters.c_GridsLost + 1 := by
      rw [← hcounters]
    have hsolutions : pCounters'.c_Solutions = pCounters.c_Solutions := by
      rw [← hcounters]
    rw [hclone]
    simp only [Option.bind_eq_bind, Option.bind_some]
    rcases List.eq_nil_or_concat l with rfl | ⟨l', q, rfl⟩
    · obtain rfl : [] = ms := h₁.maps
      exact ⟨none, [], mem₁, pCounters', rfl, hlost, hsolutions,
        Or.inl ⟨rfl, rfl, h₁⟩⟩
    · obtain ⟨ms', k, rfl⟩ : ∃ ms' k, ms = ms' ++ [k] := by
        refine ⟨l'.map (mem.mapAt s), mem.mapAt s q, ?_⟩
        rw [← h.maps, List.concat_eq_append, List.map_append,
          List.map_singleton]
      rw [List.concat_eq_append] at h₁ ⊢
      obtain ⟨pGridList, grid, mem₂, mem₃, hhead, hgrid, hq, hdetach, hcopy,
        h₃⟩ := h₁.reuse
      refine ⟨some q, l', mem₃, pCounters', ?_, hlost, hsolutions,
        Or.inr ⟨q, ms', k, rfl, rfl, h₃⟩⟩
      rw [hhead]
      simp only [hgrid, Option.bind_some, hq, hdetach, hcopy]
      rfl
  · left
    rw [hclone]
    exact ⟨q, mem₁, rfl, h₁⟩

/-- What becomes of a split when there is a clone. -/
theorem Represents.attachClone {q : ℕ} (h : Represents s mem l [q, p] ms [m, m])
    {c : Coord s} {v : Value s} (pCounters : Counters) :
    ∃ l' ms' m₂ mem' pCounters',
      mem.attachClone l.head? (some q) c.1 c.2 v.1 pCounters =
        some (l'.head?, mem', pCounters') ∧
      Represents s mem' l' [p] ms' [m] ∧
      Backlog.Excludes Peer m c v m₂ ∧ Backlog.Kept m₂ ms ms' ∧
      pCounters'.c_GridsLost = pCounters.c_GridsLost ∧
      pCounters'.c_Solutions = pCounters.c_Solutions := by
  have hreturns : ∀ block, Valid s block → block.candidates s = m →
      Returns s (removePossibilityAt block c.1 c.2 v.1)
        (mapStore.removePossibility (visitOrder s) v m c) := by
    rintro block hvalid rfl
    exact returns_removePossibilityAt hvalid c v
  obtain ⟨mem₁, hremove, h₁⟩ := h.onBlock_loose hreturns
  obtain ⟨l', ms', mem₂, pCounters', hattach, h₂, hkept, hlost, hsolutions⟩ :=
    h₁.attachToFrontIfPossible
      { pCounters with c_GridSplits := pCounters.c_GridSplits + 1 }
  refine ⟨l', ms', _, mem₂, pCounters', ?_, h₂,
    Backlog.excludes_removePossibility mapStore (visitOrder s) v m c, hkept,
    hlost, hsolutions⟩
  rw [Memory.attachClone, hremove]
  exact hattach

/-- What becomes of the grid that is split itself. -/
theorem Represents.attachGrid (h : Represents s mem l [p] ms [m]) (c : Coord s)
    (v : Value s) (pCounters : Counters) :
    ∃ l' ms' m₁ mem₁ mem' pCounters',
      mem.onBlock p (fun block => setValueAt block c.1 c.2 v.1) = some mem₁ ∧
      mem₁.attachToFrontIfPossible l.head? p pCounters =
        some (l'.head?, mem', pCounters') ∧
      Represents s mem' l' [] ms' [] ∧
      Decides Peer m c v m₁ ∧ Backlog.Kept m₁ ms ms' ∧
      pCounters'.c_GridsLost = pCounters.c_GridsLost ∧
      pCounters'.c_Solutions = pCounters.c_Solutions := by
  have hreturns : ∀ block, Valid s block → block.candidates s = m →
      Returns s (setValueAt block c.1 c.2 v.1)
        (mapStore.setSquare (visitOrder s) v c m) := by
    rintro block hvalid rfl
    exact returns_setValueAt hvalid c v
  obtain ⟨mem₁, hset, h₁⟩ := h.onBlock_loose hreturns
  obtain ⟨l', ms', mem', pCounters', hattach, h', hkept, hlost, hsolutions⟩ :=
    h₁.attachToFrontIfPossible pCounters
  exact ⟨l', ms', _, mem₁, mem', pCounters', hset, hattach, h',
    mapStore.decides_setSquare (visitOrder s) v c m, hkept, hlost, hsolutions⟩

/-- Both halves of a split go to the front of the list. -/
theorem Represents.attachSplits {q : ℕ}
    (h : Represents s mem l [q, p] ms [m, m]) {c : Coord s} {v : Value s}
    (hc : 1 < (m c).card) (hv : v ∈ m c) (pCounters : Counters)
    (displayed : List (Candidates (Coord s) (Value s))) (lost : ℕ) :
    ∃ l' ms' mem' pCounters',
      mem.attachSplits l.head? (some q) p c.1 c.2 v.1 pCounters =
        some (l'.head?, mem', pCounters') ∧
      Represents s mem' l' [] ms' [] ∧
      Backlog.Steps Peer House.squares ⟨m :: ms, displayed, lost⟩
        ⟨ms', displayed, lost⟩ ∧
      Backlog.load ms' < Backlog.load (m :: ms) ∧
      pCounters'.c_GridsLost = pCounters.c_GridsLost ∧
      pCounters'.c_Solutions = pCounters.c_Solutions := by
  obtain ⟨l₁, ms₁, m₂, mem₁, pCounters₁, hattach, h₁, hexcludes, hkept₁,
    hlost₁, hsolutions₁⟩ := h.attachClone (c := c) (v := v) pCounters
  obtain ⟨l', ms', m₁, mem₂, mem', pCounters', hset, hfront, h', hdecides,
    hkept', hlost', hsolutions'⟩ := h₁.attachGrid c v pCounters₁
  obtain ⟨hsteps, hload⟩ := Backlog.steps_split hc hv hdecides hexcludes hkept₁
    hkept' displayed lost
  refine ⟨l', ms', mem', pCounters', ?_, h', hsteps, hload,
    hlost'.trans hlost₁, hsolutions'.trans hsolutions₁⟩
  rw [Memory.attachSplits, hattach]
  simp only [Option.bind_eq_bind, Option.bind_some, hset, hfront]

/-- Splitting the front grid: with a clone, with the last grid in its place, or,
where there is none, without one half. -/
theorem Represents.splitFirstGridToFront
    (h : Represents s mem (p :: l) [] (m :: ms) []) {c : Coord s}
    (hc : 1 < (m c).card) (fails : ℕ → Bool) (pCounters : Counters)
    (displayed : List (Candidates (Coord s) (Value s))) (lost : ℕ) :
    ∃ l' b' mem' pCounters',
      mem.splitFirstGridToFront fails p pCounters =
        some (l'.head?, mem', pCounters') ∧
      Represents s mem' l' [] b'.waiting [] ∧
      Advanced fails pCounters pCounters' ⟨m :: ms, displayed, lost⟩ b' ∧
      Backlog.load b'.waiting < Backlog.load (m :: ms) := by
  obtain ⟨mem₁, hdetach, h₁⟩ := h.detachFrontGrid
  obtain ⟨block, hblock, hvalid, hm⟩ := h₁.exists_loose
  obtain ⟨grid, hgrid, rfl⟩ := grids_of_blocks hblock
  obtain ⟨d, hbest, hd, -⟩ := hvalid.bestSquare (hm ▸ hc)
  obtain ⟨v, hpossibility, hv⟩ := hvalid.getAPossibilityAt (c := d)
    (Finset.card_pos.mp (Nat.zero_lt_of_lt hd))
  rw [hm] at hd hv
  have hunfold : mem.splitFirstGridToFront fails p pCounters =
      (mem₁.cloneOrReuse fails l.head? p pCounters).bind fun r =>
        r.2.2.1.attachSplits r.2.1 r.1 p d.1 d.2 v.1 r.2.2.2 := by
    rw [Memory.splitFirstGridToFront, hdetach]
    simp only [Option.bind_eq_bind, Option.bind_some, hgrid, hbest,
      hpossibility]
  rw [hunfold]
  rcases h₁.cloneOrReuse fails pCounters with
    ⟨q, mem₂, hclone, h₂⟩ |
    ⟨hfails, pCloneGrid, l₂, mem₂, pCounters₂, hclone, hlost₂, hsolutions₂,
      ⟨rfl, rfl, h₂⟩ | ⟨q, ms', k, rfl, rfl, h₂⟩⟩
  · obtain ⟨l', ms', mem', pCounters', hattach, h', hsteps, hload, hlost',
      hsolutions'⟩ := h₂.attachSplits hd hv pCounters displayed lost
    refine ⟨l', ⟨ms', displayed, lost⟩, mem', pCounters', ?_, h',
      Advanced.of_steps hsteps hlost' hsolutions', hload⟩
    rw [hclone]
    exact hattach
  · have hexcludes :=
      Backlog.excludes_removePossibility mapStore (visitOrder s) v m d
    obtain ⟨l', ms', m₁, mem₃, mem', pCounters', hset, hfront, h', hdecides,
      hkept', hlost', hsolutions'⟩ := h₂.attachGrid d v pCounters₂
    obtain ⟨hsteps, hload⟩ := Backlog.steps_split_lose hd hv hdecides hexcludes
      hkept' displayed lost
    refine ⟨l', ⟨ms', displayed, lost + 1⟩, mem', pCounters', ?_, h',
      Advanced.of_lost hfails hsteps (hlost'.trans hlost₂)
        (hsolutions'.trans hsolutions₂), hload⟩
    rw [hclone]
    simp only [Option.bind_some, Memory.attachSplits, Memory.attachClone,
      Option.bind_eq_bind, hset, hfront]
  · obtain ⟨l', ms'', mem', pCounters', hattach, h', hsteps, hload, hlost',
      hsolutions'⟩ := h₂.attachSplits hd hv pCounters₂ displayed (lost + 1)
    have hlose : Backlog.Step Peer House.squares
        ⟨m :: (ms' ++ [k]), displayed, lost⟩ ⟨m :: ms', displayed, lost + 1⟩ :=
      Backlog.Step.lose m ms' k displayed lost
    refine ⟨l', ⟨ms'', displayed, lost + 1⟩, mem', pCounters', ?_, h',
      Advanced.of_lost hfails (Relation.ReflTransGen.head hlose hsteps)
        (hlost'.trans hlost₂) (hsolutions'.trans hsolutions₂),
      hload.trans_le hlose.load_le⟩
    rw [hclone]
    exact hattach

/-- An open map has a cell that can be split. -/
theorem exists_open (hlive : Live m) (hopen : ¬Decided m) :
    ∃ c, 1 < (m c).card := by
  by_contra hnone
  refine hopen fun c => le_antisymm ?_ (Finset.card_pos.mpr (hlive c))
  exact Nat.not_lt.mp fun hc => hnone ⟨c, hc⟩

/-- The front grid is refined, and then split if it is still open. -/
theorem Represents.refineFrontGrid
    (h : Represents s mem (p :: l) [] (m :: ms) []) (fails : ℕ → Bool)
    (pCounters : Counters)
    (displayed : List (Candidates (Coord s) (Value s))) (lost : ℕ) :
    ∃ l' b' mem' pCounters',
      mem.refineFrontGrid fails p pCounters =
        some (l'.head?, mem', pCounters') ∧
      Represents s mem' l' [] b'.waiting [] ∧
      Advanced fails pCounters pCounters' ⟨m :: ms, displayed, lost⟩ b' ∧
      (Live m → Progress ⟨m :: ms, displayed, lost⟩ b') := by
  obtain ⟨block, -, hvalid, -⟩ := h.exists_front
  generalize hrefined : refineMap none hvalid.fits.origin m = m'
  have hreturns : ∀ block, Valid s block → block.candidates s = m →
      Returns s (refineGrid block) m' := by
    rintro block hvalid rfl
    exact hrefined ▸ returns_refineGrid hvalid
  obtain ⟨mem₁, hrefine, h₁⟩ := h.onBlock_front hreturns
  have hdeduces : Deduces Peer House.squares m m' :=
    hrefined ▸ deduces_refineLap mapStore (visitOrder s) (mapDeducer s)
      (boardLap s) mapIsPossible none _ m
  have hclosed : Closed Peer m → Closed Peer m' :=
    hrefined ▸ closed_refineLap mapStore (visitOrder s) (mapDeducer s)
      (boardLap s) mapIsPossible none _ m
  have hstep : Backlog.Step Peer House.squares ⟨m :: ms, displayed, lost⟩
      ⟨m' :: ms, displayed, lost⟩ :=
    Backlog.Step.deduce ms displayed lost hdeduces hclosed
  have hadvanced : Advanced fails pCounters pCounters
      ⟨m :: ms, displayed, lost⟩ ⟨m' :: ms, displayed, lost⟩ :=
    Advanced.of_steps (Relation.ReflTransGen.single hstep) rfl rfl
  obtain ⟨block', hblock', hvalid', hm'⟩ := h₁.exists_front
  obtain ⟨front, hfront, rfl⟩ := grids_of_blocks hblock'
  have hopen : (!isComplete front.block && isPossible front.block) = true ↔
      ¬Decided m' ∧ Live m' := by
    rw [Bool.and_eq_true, Bool.not_eq_true', ← Bool.not_eq_true,
      hvalid'.isComplete_iff, hvalid'.isPossible_eq, hm', mapIsPossible_iff]
    exact Iff.rfl
  have hunfold : mem.refineFrontGrid fails p pCounters =
      if !isComplete front.block && isPossible front.block then
        mem₁.splitFirstGridToFront fails p pCounters
      else some (some p, mem₁, pCounters) := by
    rw [Memory.refineFrontGrid, hrefine]
    simp only [Option.bind_eq_bind, Option.bind_some, hfront]
    rfl
  rw [hunfold]
  by_cases hsplit : (!isComplete front.block && isPossible front.block) = true
  · rw [if_pos hsplit]
    obtain ⟨hundecided, hlive⟩ := hopen.mp hsplit
    obtain ⟨c, hc⟩ := exists_open hlive hundecided
    obtain ⟨l', b', mem', pCounters', hresult, h', hadvanced', hload⟩ :=
      h₁.splitFirstGridToFront hc fails pCounters displayed lost
    exact ⟨l', b', mem', pCounters', hresult, h', hadvanced.trans hadvanced',
      fun _ => Or.inr (Or.inl (hload.trans_le hstep.load_le))⟩
  · rw [if_neg hsplit]
    refine ⟨p :: l, ⟨m' :: ms, displayed, lost⟩, mem₁, pCounters, rfl, h₁,
      hadvanced, fun hlive => Or.inr ?_⟩
    by_cases hdecided : Decided m'
    · exact Or.inr ⟨m', ms, rfl, hdecided⟩
    · left
      have hdead : ¬Live m' := fun hlive' =>
        hsplit (hopen.mpr ⟨hdecided, hlive'⟩)
      have hne : m' ≠ m := by
        rintro rfl
        exact hdead hlive
      have hlt := Backlog.weight_lt hdeduces.le hne
      simp only [Backlog.load_cons]
      omega

/-- A call of `advanceSolving` returns, and is a number of steps of the
search. -/
theorem Represents.advanceSolving {b : Backlog (Coord s) (Value s)}
    (h : Represents s mem l [] b.waiting []) (fails : ℕ → Bool)
    (pCounters : Counters) :
    ∃ l' b' mem' pCounters',
      mem.advanceSolving fails l.head? pCounters =
        some (l'.head?, mem', pCounters') ∧
      Represents s mem' l' [] b'.waiting [] ∧
      Advanced fails pCounters pCounters' b b' ∧ Progress b b' := by
  obtain ⟨ms, displayed, lost⟩ := b
  dsimp only at h
  cases l with
  | nil =>
      obtain rfl : [] = ms := h.maps
      exact ⟨[], ⟨[], displayed, lost⟩, mem, pCounters, rfl, h,
        Advanced.of_steps Relation.ReflTransGen.refl rfl rfl, Or.inl rfl⟩
  | cons p l =>
      obtain ⟨m, ms, rfl⟩ := h.exists_cons
      obtain ⟨block, hblock, hvalid, hm⟩ := h.exists_front
      obtain ⟨front, hfront, rfl⟩ := grids_of_blocks hblock
      have hpossible : isPossible front.block = true ↔ Live m := by
        rw [hvalid.isPossible_eq, hm, mapIsPossible_iff]
      rw [List.head?_cons, Memory.advanceSolving, hfront]
      simp only [Option.bind_eq_bind, Option.bind_some]
      by_cases hlive : Live m
      · rw [hpossible.mpr hlive, if_neg (by simp)]
        obtain ⟨l', b', mem', pCounters', hresult, h', hadvanced, hprogress⟩ :=
          h.refineFrontGrid fails pCounters displayed lost
        exact ⟨l', b', mem', pCounters', hresult, h', hadvanced,
          hprogress hlive⟩
      · rw [Bool.eq_false_iff.mpr (mt hpossible.mp hlive), Bool.not_false,
          if_pos rfl]
        obtain ⟨mem₁, hfree, h₁⟩ := h.freeFrontGrid
        generalize hcounters : { pCounters with c_ImpossibleGrids :=
          pCounters.c_ImpossibleGrids + 1 } = pCounters₁
        have hdrop : Advanced fails pCounters pCounters₁
            ⟨m :: ms, displayed, lost⟩ ⟨ms, displayed, lost⟩ :=
          Advanced.of_steps (Relation.ReflTransGen.single
            (Backlog.Step.drop [] ms displayed lost hlive))
            (by rw [← hcounters]) (by rw [← hcounters])
        rw [hfree]
        simp only [Option.bind_some]
        cases l with
        | nil =>
            obtain rfl : [] = ms := h₁.maps
            exact ⟨[], ⟨[], displayed, lost⟩, mem₁, pCounters₁, rfl, h₁, hdrop,
              Or.inl rfl⟩
        | cons q l =>
            obtain ⟨k, ks, rfl⟩ := h₁.exists_cons
            obtain ⟨l', b', mem', pCounters', hresult, h', hadvanced, -⟩ :=
              h₁.refineFrontGrid fails pCounters₁ displayed lost
            refine ⟨l', b', mem', pCounters', hresult, h',
              hdrop.trans hadvanced, Or.inr (Or.inl ?_)⟩
            have hle := hadvanced.steps.load_le
            have hpos := weight_pos m
            simp only [Backlog.load_cons] at hle ⊢
            omega

end Memory

end SudokuSolver.Draco
