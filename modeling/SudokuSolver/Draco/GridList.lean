import SudokuSolver.Draco.Refine
import SudokuSolver.Support.Ring

/-!
# The list of grids in Draco

Grids in memory, and the list that their links make of them.  A grid is known by
the call of `Malloc` it comes from; a pointer to a grid that has been freed
points nowhere, even where `Malloc` gives its memory out again.  A routine that
reads, writes or frees what is not there has no result.
-/

namespace SudokuSolver.Draco

open LinkedList

/-- `Grid_t`, with the rest of its block. -/
structure Grid where
  g_pNext : ℕ
  g_pPrevious : ℕ
  block : Block

/-- `Counters_t`. -/
structure Counters where
  c_GridSplits : BitVec 32
  c_ImpossibleGrids : BitVec 32
  c_GridsLost : BitVec 32
  c_Solutions : BitVec 32

/-- The grids that are allocated, and how often `Malloc` has been called for
one. -/
structure Memory where
  grids : ℕ → Option Grid
  mallocs : ℕ
  gridsInMemory : BitVec 16
  deriving Inhabited

namespace Memory

/-- The memory with another grid, or none, at the end of a pointer. -/
def put (mem : Memory) (pGrid : ℕ) (grid : Option Grid) : Memory :=
  { mem with grids := Function.update mem.grids pGrid grid }

/-- Writing to a grid. -/
def write (mem : Memory) (pGrid : ℕ) (change : Grid → Grid) :
    Option Memory := do
  let grid ← mem.grids pGrid
  return mem.put pGrid (some (change grid))

/-- A routine that works on the block of a grid. -/
def onBlock (mem : Memory) (pGrid : ℕ) (routine : Block → Option Block) :
    Option Memory := do
  let grid ← mem.grids pGrid
  let block ← routine grid.block
  return mem.put pGrid (some { grid with block := block })

/-! ## Single grids -/

/-- `createGrid`, where `fails` tells which calls of `Malloc` fail. -/
def createGrid (mem : Memory) (fails : ℕ → Bool) (sectorDimension : ℕ) :
    Option ℕ × Memory :=
  match Draco.createGrid sectorDimension with
  | none => (none, mem)
  | some block =>
      let pGrid := mem.mallocs
      let mem := { mem with mallocs := mem.mallocs + 1 }
      if fails pGrid then (none, mem)
      else
        let mem := mem.put pGrid (some ⟨pGrid, pGrid, block⟩)
        (some pGrid, { mem with gridsInMemory := mem.gridsInMemory + 1 })

/-- This also clones the list pointers. -/
def cloneIntoGrid (mem : Memory) (pSource pTarget : ℕ) : Option Memory := do
  let source ← mem.grids pSource
  mem.write pTarget fun target =>
    { source with block := Draco.cloneIntoGrid source.block target.block }

/-- What a grid is like before anything is written to it. -/
def unwritten : Grid := ⟨0, 0, ⟨0, 0, 0, 0, 0, 0, fun _ => 0⟩⟩

/-- This also clones the list pointers. -/
def cloneGrid (mem : Memory) (fails : ℕ → Bool) (pGrid : ℕ) :
    Option (Option ℕ × Memory) := do
  let _ ← mem.grids pGrid
  let pClone := mem.mallocs
  let mem := { mem with mallocs := mem.mallocs + 1 }
  if fails pClone then return (none, mem)
  else
    let mem := mem.put pClone (some unwritten)
    let mem ← mem.cloneIntoGrid pGrid pClone
    return (some pClone, { mem with gridsInMemory := mem.gridsInMemory + 1 })

/-- Doesn't free other grids in the list. -/
def freeGrid (mem : Memory) (pGrid : ℕ) : Option Memory := do
  let _ ← mem.grids pGrid
  let mem := mem.put pGrid none
  return { mem with gridsInMemory := mem.gridsInMemory - 1 }

/-! ## The list -/

def detachFrontGrid (mem : Memory) (pGridList : ℕ) :
    Option (Option ℕ × Memory) := do
  let front ← mem.grids pGridList
  if front.g_pNext = pGridList then return (none, mem)
  else
    let mem ← mem.write front.g_pNext fun grid =>
      { grid with g_pPrevious := front.g_pPrevious }
    let front ← mem.grids pGridList
    let mem ← mem.write front.g_pPrevious fun grid =>
      { grid with g_pNext := front.g_pNext }
    let front ← mem.grids pGridList
    return (some front.g_pNext, mem)

def freeFrontGrid (mem : Memory) (pGridList : ℕ) :
    Option (Option ℕ × Memory) := do
  let (rest, mem) ← mem.detachFrontGrid pGridList
  let mem ← mem.freeGrid pGridList
  return (rest, mem)

/-- One round of the loop of `freeGridList`. -/
def freeNextGrid : Memory × Option ℕ →
    Option ((Memory × Option ℕ) ⊕ Memory)
  | (mem, none) => some (.inr mem)
  | (mem, some pGridList) => do
      let (rest, mem) ← mem.freeFrontGrid pGridList
      return .inl (mem, rest)

def freeGridList (mem : Memory) (pGridList : Option ℕ) : Option Memory :=
  loop freeNextGrid (mem, pGridList)

def attachToFrontIfPossible (mem : Memory) (pGridList : Option ℕ) (pGrid : ℕ)
    (pCounters : Counters) : Option (Option ℕ × Memory × Counters) := do
  let grid ← mem.grids pGrid
  if !isPossible grid.block then
    let mem ← mem.freeGrid pGrid
    return (pGridList, mem, { pCounters with
      c_ImpossibleGrids := pCounters.c_ImpossibleGrids + 1 })
  else
    match pGridList with
    | none =>
        let mem ← mem.write pGrid fun grid =>
          { grid with g_pNext := pGrid, g_pPrevious := pGrid }
        return (some pGrid, mem, pCounters)
    | some pGridList =>
        let mem ← mem.write pGrid fun grid =>
          { grid with g_pNext := pGridList }
        let front ← mem.grids pGridList
        let mem ← mem.write pGrid fun grid =>
          { grid with g_pPrevious := front.g_pPrevious }
        let front ← mem.grids pGridList
        let mem ← mem.write front.g_pPrevious fun grid =>
          { grid with g_pNext := pGrid }
        let mem ← mem.write pGridList fun grid =>
          { grid with g_pPrevious := pGrid }
        return (some pGrid, mem, pCounters)

/-! ## Links and blocks -/

/-- The links and the block of a grid, where there is one. -/
def next (mem : Memory) (p : ℕ) : Option ℕ := (mem.grids p).map Grid.g_pNext

def previous (mem : Memory) (p : ℕ) : Option ℕ :=
  (mem.grids p).map Grid.g_pPrevious

def blocks (mem : Memory) (p : ℕ) : Option Block :=
  (mem.grids p).map Grid.block

variable {mem mem' : Memory} {p q r : ℕ} {grid : Grid} {l loose : List ℕ}

@[simp] theorem next_put (grid : Option Grid) :
    (mem.put p grid).next =
      Function.update mem.next p (grid.map Grid.g_pNext) :=
  Function.comp_update (Option.map Grid.g_pNext) mem.grids p grid

@[simp] theorem previous_put (grid : Option Grid) :
    (mem.put p grid).previous =
      Function.update mem.previous p (grid.map Grid.g_pPrevious) :=
  Function.comp_update (Option.map Grid.g_pPrevious) mem.grids p grid

@[simp] theorem blocks_put (grid : Option Grid) :
    (mem.put p grid).blocks =
      Function.update mem.blocks p (grid.map Grid.block) :=
  Function.comp_update (Option.map Grid.block) mem.grids p grid

/-- Memories that differ in their links only. -/
structure Relinked (mem mem' : Memory) : Prop where
  blocks : mem'.blocks = mem.blocks
  mallocs : mem'.mallocs = mem.mallocs
  gridsInMemory : mem'.gridsInMemory = mem.gridsInMemory

theorem Relinked.trans {mem'' : Memory} (h : Relinked mem mem')
    (h' : Relinked mem' mem'') : Relinked mem mem'' :=
  ⟨h'.blocks.trans h.blocks, h'.mallocs.trans h.mallocs,
    h'.gridsInMemory.trans h.gridsInMemory⟩

theorem exists_grid (h : (mem.blocks p).isSome) :
    ∃ grid, mem.grids p = some grid := by
  rw [blocks, Option.isSome_map] at h
  exact Option.isSome_iff_exists.mp h

/-- A write to one of the links. -/
theorem write_next (mem : Memory) (p : ℕ) (h : (mem.blocks p).isSome) (q : ℕ) :
    ∃ mem', mem.write p (fun grid => { grid with g_pNext := q }) = some mem' ∧
      mem'.next = Function.update mem.next p (some q) ∧
      mem'.previous = mem.previous ∧ Relinked mem mem' := by
  obtain ⟨grid, hgrid⟩ := exists_grid h
  have hprevious : mem.previous p = some grid.g_pPrevious := by
    rw [previous, hgrid, Option.map_some]
  have hblock : mem.blocks p = some grid.block := by
    rw [blocks, hgrid, Option.map_some]
  rw [write, hgrid]
  refine ⟨_, rfl, next_put _, ?_, ?_, rfl, rfl⟩
  · exact (previous_put _).trans (by rw [Option.map_some, ← hprevious,
      Function.update_eq_self])
  · exact (blocks_put _).trans (by rw [Option.map_some, ← hblock,
      Function.update_eq_self])

theorem write_previous (mem : Memory) (p : ℕ) (h : (mem.blocks p).isSome)
    (q : ℕ) :
    ∃ mem', mem.write p (fun grid => { grid with g_pPrevious := q }) =
        some mem' ∧
      mem'.next = mem.next ∧
      mem'.previous = Function.update mem.previous p (some q) ∧
      Relinked mem mem' := by
  obtain ⟨grid, hgrid⟩ := exists_grid h
  have hnext : mem.next p = some grid.g_pNext := by
    rw [next, hgrid, Option.map_some]
  have hblock : mem.blocks p = some grid.block := by
    rw [blocks, hgrid, Option.map_some]
  rw [write, hgrid]
  refine ⟨_, rfl, ?_, previous_put _, ?_, rfl, rfl⟩
  · exact (next_put _).trans (by rw [Option.map_some, ← hnext,
      Function.update_eq_self])
  · exact (blocks_put _).trans (by rw [Option.map_some, ← hblock,
      Function.update_eq_self])

/-! ## What the routines change -/

/-- The grids of `l` form the list, in this order; the grids of `loose` are
those that are allocated besides. -/
structure Holds (mem : Memory) (l loose : List ℕ) : Prop where
  ring : IsRing mem.next mem.previous l
  nodup : (l ++ loose).Nodup
  allocated : ∀ p, (mem.blocks p).isSome ↔ p ∈ l ++ loose
  count : mem.gridsInMemory = BitVec.ofNat 16 (l ++ loose).length
  fresh : ∀ p ∈ l ++ loose, p < mem.mallocs

theorem Holds.relink (h : Holds mem l loose) (hrelinked : Relinked mem mem')
    {l' loose' : List ℕ} (hperm : (l' ++ loose').Perm (l ++ loose))
    (hring : IsRing mem'.next mem'.previous l') : Holds mem' l' loose' where
  ring := hring
  nodup := hperm.nodup_iff.mpr h.nodup
  allocated p := by rw [hrelinked.blocks, h.allocated, hperm.mem_iff]
  count := by rw [hrelinked.gridsInMemory, h.count, hperm.length_eq]
  fresh p hp := by
    rw [hrelinked.mallocs]
    exact h.fresh p (hperm.mem_iff.mp hp)

/-- The links of the grid at the front. -/
theorem read_links (mem : Memory) (p : ℕ) (hnext : mem.next p = some q)
    (hprevious : mem.previous p = some r) :
    ∃ grid, mem.grids p = some grid ∧ grid.g_pNext = q ∧
      grid.g_pPrevious = r := by
  rw [next, Option.map_eq_some_iff] at hnext
  obtain ⟨grid, hgrid, hq⟩ := hnext
  rw [previous, hgrid, Option.map_some, Option.some.injEq] at hprevious
  exact ⟨grid, hgrid, hq, hprevious⟩

theorem Holds.detachFrontGrid (h : Holds mem (p :: l) loose) :
    ∃ mem', mem.detachFrontGrid p = some (l.head?, mem') ∧
      Holds mem' l (p :: loose) ∧ mem'.blocks = mem.blocks := by
  cases l with
  | nil =>
      obtain ⟨-, -, hnext, hprevious⟩ := isRing_cons_iff.mp h.ring
      rw [List.getLast_singleton] at hnext hprevious
      obtain ⟨front, hfront, hq, -⟩ := read_links mem p hnext hprevious
      refine ⟨mem, ?_, ?_, rfl⟩
      · rw [Memory.detachFrontGrid, hfront]
        exact if_pos hq
      · exact h.relink ⟨rfl, rfl, rfl⟩ (List.Perm.refl _) isRing_nil
  | cons q l =>
      obtain ⟨hnext, hprevious⟩ := h.ring.links
      generalize hr : (q :: l).getLast (List.cons_ne_nil q l) = r at hprevious
      have hmem : r ∈ q :: l := hr ▸ List.getLast_mem _
      have hp : p ∉ q :: l := (List.nodup_cons.mp h.ring.nodup).1
      have hpq : p ≠ q := fun heq => hp (heq ▸ List.mem_cons_self)
      have halive : ∀ a ∈ q :: l, (mem.blocks a).isSome := fun a ha =>
        (h.allocated a).mpr
          (List.mem_append_left _ (List.mem_cons_of_mem p ha))
      obtain ⟨front, hfront, hq, hfrontr⟩ := read_links mem p hnext hprevious
      obtain ⟨mem₁, hmem₁, hnext₁, hprevious₁, hrelinked₁⟩ :=
        write_previous mem q (halive q List.mem_cons_self) r
      obtain ⟨front₁, hfront₁, hq₁, hr₁⟩ := read_links mem₁ p
        (by rw [hnext₁, hnext])
        (by rw [hprevious₁, Function.update_of_ne hpq, hprevious])
      obtain ⟨mem₂, hmem₂, hnext₂, hprevious₂, hrelinked₂⟩ :=
        write_next mem₁ r
          (by rw [hrelinked₁.blocks]; exact halive r hmem) q
      have hpr : p ≠ r := fun heq => hp (heq ▸ hmem)
      obtain ⟨front₂, hfront₂, hq₂, -⟩ := read_links mem₂ p
        (by rw [hnext₂, Function.update_of_ne hpr, hnext₁, hnext])
        (by rw [hprevious₂, hprevious₁, Function.update_of_ne hpq, hprevious])
      refine ⟨mem₂, ?_, ?_, ?_⟩
      · rw [Memory.detachFrontGrid, hfront]
        simp only [Option.bind_eq_bind, Option.bind_some, hq, hfrontr,
          if_neg hpq.symm, hmem₁, hfront₁, hq₁, hr₁, hmem₂, hfront₂, hq₂]
        rfl
      · refine h.relink (hrelinked₁.trans hrelinked₂) ?_ ?_
        · exact List.perm_middle
        · rw [hnext₂, hnext₁, hprevious₂, hprevious₁]
          exact h.ring.unlink hprevious
      · exact (hrelinked₁.trans hrelinked₂).blocks

/-- A change to grids outside of the list that neither allocates nor frees. -/
theorem Holds.of_list_unchanged (h : Holds mem l loose)
    (hnext : ∀ p ∈ l, mem'.next p = mem.next p)
    (hprevious : ∀ p ∈ l, mem'.previous p = mem.previous p)
    (hblocks : ∀ p, (mem'.blocks p).isSome ↔ (mem.blocks p).isSome)
    (hmallocs : mem'.mallocs = mem.mallocs)
    (hcount : mem'.gridsInMemory = mem.gridsInMemory) : Holds mem' l loose where
  ring := h.ring.congr hnext hprevious
  nodup := h.nodup
  allocated p := (hblocks p).trans (h.allocated p)
  count := hcount.trans h.count
  fresh p hp := hmallocs ▸ h.fresh p hp

theorem notMem_of_loose (h : Holds mem l (p :: loose)) : p ∉ l := fun hp =>
  (List.nodup_append.mp h.nodup).2.2 p hp p List.mem_cons_self rfl

theorem Holds.freeGrid (h : Holds mem l (p :: loose)) :
    ∃ mem', mem.freeGrid p = some mem' ∧ Holds mem' l loose ∧
      mem'.blocks = Function.update mem.blocks p none := by
  have hperm : (l ++ p :: loose).Perm (p :: (l ++ loose)) := List.perm_middle
  obtain ⟨hp, hnodup⟩ := List.nodup_cons.mp (hperm.nodup_iff.mp h.nodup)
  obtain ⟨grid, hgrid⟩ := exists_grid ((h.allocated p).mpr (by simp))
  rw [Memory.freeGrid, hgrid]
  refine ⟨_, rfl, ?_, blocks_put none⟩
  have hne : ∀ q ∈ l ++ loose, q ≠ p := fun q hq heq => hp (heq ▸ hq)
  refine ⟨?_, hnodup, fun q => ?_, ?_, fun q hq => ?_⟩
  · refine h.ring.congr (fun q hq => ?_) fun q hq => ?_
    · exact congrFun (next_put none) q |>.trans
        (Function.update_of_ne (hne q (List.mem_append_left _ hq)) _ _)
    · exact congrFun (previous_put none) q |>.trans
        (Function.update_of_ne (hne q (List.mem_append_left _ hq)) _ _)
  · change ((mem.put p none).blocks q).isSome ↔ _
    rw [blocks_put]
    by_cases hq : q = p
    · subst q
      simpa using hp
    · rw [Function.update_of_ne hq, h.allocated, hperm.mem_iff, List.mem_cons]
      exact or_iff_right hq
  · have hcount := h.count
    rw [hperm.length_eq, List.length_cons] at hcount
    have hstep : mem.gridsInMemory - 1 =
        BitVec.ofNat 16 (l ++ loose).length := by
      rw [hcount]
      bv_omega
    exact hstep
  · exact h.fresh q (hperm.mem_iff.mpr (List.mem_cons_of_mem p hq))

theorem Holds.freeFrontGrid (h : Holds mem (p :: l) loose) :
    ∃ mem', mem.freeFrontGrid p = some (l.head?, mem') ∧ Holds mem' l loose ∧
      mem'.blocks = Function.update mem.blocks p none := by
  obtain ⟨mem₁, hmem₁, h₁, hblocks₁⟩ := h.detachFrontGrid
  obtain ⟨mem₂, hmem₂, h₂, hblocks₂⟩ := h₁.freeGrid
  refine ⟨mem₂, ?_, h₂, by rw [hblocks₂, hblocks₁]⟩
  rw [Memory.freeFrontGrid, hmem₁]
  simp only [Option.bind_eq_bind, Option.bind_some, hmem₂]
  rfl

/-- Freeing a list frees each of its grids, once. -/
theorem Holds.freeGridList (h : Holds mem l loose) :
    ∃ mem', mem.freeGridList l.head? = some mem' ∧ Holds mem' [] loose := by
  induction l generalizing mem with
  | nil => exact ⟨mem, loop_done rfl, h⟩
  | cons p l ih =>
      obtain ⟨mem₁, hmem₁, h₁, -⟩ := h.freeFrontGrid
      obtain ⟨mem₂, hmem₂, h₂⟩ := ih h₁
      refine ⟨mem₂, ?_, h₂⟩
      have hnext : freeNextGrid (mem, some p) =
          some (.inl (mem₁, l.head?)) := by
        rw [freeNextGrid, hmem₁]
        rfl
      rw [List.head?_cons, Memory.freeGridList, loop_next hnext]
      exact hmem₂

/-- A routine that works on the block of a grid. -/
theorem Holds.onBlock (h : Holds mem l loose) {block block' : Block}
    (hblock : mem.blocks p = some block) {routine : Block → Option Block}
    (hroutine : routine block = some block') :
    ∃ mem', mem.onBlock p routine = some mem' ∧ Holds mem' l loose ∧
      mem'.blocks = Function.update mem.blocks p (some block') := by
  rw [blocks, Option.map_eq_some_iff] at hblock
  obtain ⟨grid, hgrid, rfl⟩ := hblock
  have hnext : mem.next p = some grid.g_pNext := by
    rw [next, hgrid, Option.map_some]
  have hprevious : mem.previous p = some grid.g_pPrevious := by
    rw [previous, hgrid, Option.map_some]
  have hsome : (mem.blocks p).isSome := by
    rw [blocks, hgrid]
    rfl
  rw [Memory.onBlock, hgrid]
  simp only [Option.bind_eq_bind, Option.bind_some, hroutine]
  refine ⟨_, rfl, h.of_list_unchanged ?_ ?_ ?_ rfl rfl, blocks_put _⟩
  · intro q _
    rw [next_put, Option.map_some, ← hnext, Function.update_eq_self]
  · intro q _
    rw [previous_put, Option.map_some, ← hprevious, Function.update_eq_self]
  · intro q
    rw [blocks_put]
    by_cases hq : q = p
    · subst q
      simp [hsome]
    · rw [Function.update_of_ne hq]

theorem grids_of_blocks {block : Block} (h : mem.blocks p = some block) :
    ∃ grid, mem.grids p = some grid ∧ grid.block = block :=
  Option.map_eq_some_iff.mp h

/-- A grid that is impossible is freed. -/
theorem Holds.attach_impossible (h : Holds mem l (p :: loose)) {block : Block}
    (hblock : mem.blocks p = some block) (hpossible : isPossible block = false)
    (pGridList : Option ℕ) (pCounters : Counters) :
    ∃ mem', mem.attachToFrontIfPossible pGridList p pCounters =
        some (pGridList, mem', { pCounters with
          c_ImpossibleGrids := pCounters.c_ImpossibleGrids + 1 }) ∧
      Holds mem' l loose ∧ mem'.blocks = Function.update mem.blocks p none := by
  obtain ⟨grid, hgrid, rfl⟩ := grids_of_blocks hblock
  obtain ⟨mem', hmem', hholds, hblocks⟩ := h.freeGrid
  refine ⟨mem', ?_, hholds, hblocks⟩
  rw [attachToFrontIfPossible.eq_def, hgrid]
  simp only [Option.bind_eq_bind, Option.bind_some, hpossible, Bool.not_false,
    if_true, hmem']
  rfl

/-- A grid that is possible becomes the first one of the list. -/
theorem Holds.attach_possible (h : Holds mem l (p :: loose)) {block : Block}
    (hblock : mem.blocks p = some block) (hpossible : isPossible block = true)
    (pCounters : Counters) :
    ∃ mem', mem.attachToFrontIfPossible l.head? p pCounters =
        some (some p, mem', pCounters) ∧
      Holds mem' (p :: l) loose ∧ mem'.blocks = mem.blocks := by
  obtain ⟨grid, hgrid, rfl⟩ := grids_of_blocks hblock
  have hp := notMem_of_loose h
  have hperm : ((p :: l) ++ loose).Perm (l ++ p :: loose) :=
    List.perm_middle.symm
  have halive : ∀ a ∈ l ++ p :: loose, (mem.blocks a).isSome := fun a =>
    (h.allocated a).mpr
  cases l with
  | nil =>
      have hrelinked : Relinked mem
          (mem.put p (some { grid with g_pNext := p, g_pPrevious := p })) := by
        refine ⟨?_, rfl, rfl⟩
        rw [blocks_put, Option.map_some, ← hblock, Function.update_eq_self]
      refine ⟨_, ?_, h.relink hrelinked hperm ?_, hrelinked.blocks⟩
      · rw [attachToFrontIfPossible.eq_def, hgrid]
        simp only [Option.bind_eq_bind, Option.bind_some, hpossible,
          Bool.not_true, Bool.false_eq_true, if_false, List.head?_nil, write,
          hgrid]
        rfl
      · refine isRing_singleton ?_ ?_
        · rw [next_put, Function.update_self]
          rfl
        · rw [previous_put, Function.update_self]
          rfl
  | cons q l =>
      obtain ⟨⟨a, hnext⟩, hprevious⟩ := h.ring.exists_links
      generalize hr : (q :: l).getLast (List.cons_ne_nil q l) = r at hprevious
      have hmem : r ∈ q :: l := hr ▸ List.getLast_mem _
      have hqp : q ≠ p := fun heq => hp (heq ▸ List.mem_cons_self)
      have hqr : (mem.blocks r).isSome :=
        halive r (List.mem_append_left _ hmem)
      obtain ⟨mem₁, hmem₁, hnext₁, hprevious₁, hrelinked₁⟩ :=
        write_next mem p (halive p (by simp)) q
      obtain ⟨front₁, hfront₁, -, hr₁⟩ := read_links mem₁ q
        (by rw [hnext₁, Function.update_of_ne hqp, hnext])
        (by rw [hprevious₁, hprevious])
      obtain ⟨mem₂, hmem₂, hnext₂, hprevious₂, hrelinked₂⟩ :=
        write_previous mem₁ p
          (by rw [hrelinked₁.blocks]; exact halive p (by simp)) r
      obtain ⟨front₂, hfront₂, -, hr₂⟩ := read_links mem₂ q
        (by rw [hnext₂, hnext₁, Function.update_of_ne hqp, hnext])
        (by rw [hprevious₂, Function.update_of_ne hqp, hprevious₁, hprevious])
      have h₂ := hrelinked₁.trans hrelinked₂
      obtain ⟨mem₃, hmem₃, hnext₃, hprevious₃, hrelinked₃⟩ :=
        write_next mem₂ r (by rw [h₂.blocks]; exact hqr) p
      have h₃ := h₂.trans hrelinked₃
      obtain ⟨mem₄, hmem₄, hnext₄, hprevious₄, hrelinked₄⟩ :=
        write_previous mem₃ q
          (by rw [h₃.blocks]; exact halive q (by simp)) p
      have h₄ := h₃.trans hrelinked₄
      refine ⟨mem₄, ?_, h.relink h₄ hperm ?_, h₄.blocks⟩
      · rw [attachToFrontIfPossible.eq_def, hgrid]
        simp only [Option.bind_eq_bind, Option.bind_some, hpossible,
          Bool.not_true, Bool.false_eq_true, if_false, List.head?_cons, hmem₁,
          hfront₁, hr₁, hmem₂, hfront₂, hr₂, hmem₃, hmem₄]
        rfl
      · rw [hnext₄, hnext₃, hnext₂, hnext₁, hprevious₄, hprevious₃, hprevious₂,
          hprevious₁]
        exact h.ring.push hp hprevious

/-! ## New grids -/

theorem Holds.cloneIntoGrid (h : Holds mem l loose) (hq : q ∉ l)
    {source target : Block} (hsource : mem.blocks p = some source)
    (htarget : mem.blocks q = some target) :
    ∃ mem', mem.cloneIntoGrid p q = some mem' ∧ Holds mem' l loose ∧
      mem'.blocks = Function.update mem.blocks q
        (some (Draco.cloneIntoGrid source target)) := by
  have hsome : (mem.blocks q).isSome := by
    rw [htarget]
    rfl
  obtain ⟨pSource, hpSource, rfl⟩ := grids_of_blocks hsource
  obtain ⟨pTarget, hpTarget, rfl⟩ := grids_of_blocks htarget
  have hne : ∀ a ∈ l, a ≠ q := by
    rintro a ha rfl
    exact hq ha
  rw [Memory.cloneIntoGrid, hpSource]
  simp only [Option.bind_eq_bind, Option.bind_some, write, hpTarget]
  refine ⟨_, rfl, h.of_list_unchanged ?_ ?_ ?_ rfl rfl, blocks_put _⟩
  · intro a ha
    rw [next_put, Function.update_of_ne (hne a ha)]
  · intro a ha
    rw [previous_put, Function.update_of_ne (hne a ha)]
  · intro a
    rw [blocks_put]
    by_cases ha : a = q
    · subst a
      simp [hsome]
    · rw [Function.update_of_ne ha]

/-- A grid that has just been allocated. -/
def allocate (mem : Memory) (grid : Grid) : Memory where
  grids := Function.update mem.grids mem.mallocs (some grid)
  mallocs := mem.mallocs + 1
  gridsInMemory := mem.gridsInMemory + 1

theorem blocks_allocate (mem : Memory) (grid : Grid) :
    (mem.allocate grid).blocks =
      Function.update mem.blocks mem.mallocs (some grid.block) :=
  blocks_put (some grid)

theorem Holds.mallocs_notMem (h : Holds mem l loose) :
    mem.mallocs ∉ l ++ loose := fun hmem =>
  absurd (h.fresh _ hmem) (lt_irrefl _)

theorem Holds.allocate (h : Holds mem l loose) (grid : Grid) :
    Holds (mem.allocate grid) l (mem.mallocs :: loose) := by
  have hnot := h.mallocs_notMem
  have hperm : (l ++ mem.mallocs :: loose).Perm (mem.mallocs :: (l ++ loose)) :=
    List.perm_middle
  have hne : ∀ a ∈ l, a ≠ mem.mallocs := by
    rintro a ha rfl
    exact hnot (List.mem_append_left _ ha)
  refine ⟨?_, ?_, fun a => ?_, ?_, fun a ha => ?_⟩
  · refine h.ring.congr (fun a ha => ?_) fun a ha => ?_
    · exact (congrFun (next_put (some grid)) a).trans
        (Function.update_of_ne (hne a ha) _ _)
    · exact (congrFun (previous_put (some grid)) a).trans
        (Function.update_of_ne (hne a ha) _ _)
  · exact hperm.nodup_iff.mpr (List.nodup_cons.mpr ⟨hnot, h.nodup⟩)
  · rw [blocks_allocate, hperm.mem_iff, List.mem_cons, ← h.allocated]
    by_cases ha : a = mem.mallocs
    · subst a
      simp
    · rw [Function.update_of_ne ha]
      exact (or_iff_right ha).symm
  · have hstep : mem.gridsInMemory + 1 =
        BitVec.ofNat 16 (l ++ mem.mallocs :: loose).length := by
      rw [hperm.length_eq, List.length_cons, h.count]
      bv_omega
    exact hstep
  · rcases List.mem_cons.mp (hperm.mem_iff.mp ha) with rfl | ha
    · exact Nat.lt_succ_self _
    · exact Nat.lt_succ_of_lt (h.fresh a ha)

/-- A clone gets a block of its own, or there is none. -/
theorem Holds.cloneGrid (h : Holds mem l loose) (fails : ℕ → Bool)
    {source : Block} (hsource : mem.blocks p = some source) :
    (∃ mem', mem.cloneGrid fails p = some (none, mem') ∧
      Holds mem' l loose ∧ mem'.blocks = mem.blocks ∧
      fails mem.mallocs = true) ∨
    ∃ q mem', mem.cloneGrid fails p = some (some q, mem') ∧
      q ∉ l ++ loose ∧ Holds mem' l (q :: loose) ∧
      mem'.blocks = Function.update mem.blocks q
        (some (Draco.cloneIntoGrid source unwritten.block)) := by
  have hmem : p ∈ l ++ loose := (h.allocated p).mp (by rw [hsource]; rfl)
  have hnot := h.mallocs_notMem
  have hp : p ≠ mem.mallocs := by
    rintro rfl
    exact hnot hmem
  obtain ⟨grid, hgrid, rfl⟩ := grids_of_blocks hsource
  rw [Memory.cloneGrid, hgrid]
  simp only [Option.bind_eq_bind, Option.bind_some]
  by_cases hfails : fails mem.mallocs = true
  · left
    rw [if_pos hfails]
    exact ⟨_, rfl, ⟨h.ring, h.nodup, h.allocated, h.count,
      fun a ha => Nat.lt_succ_of_lt (h.fresh a ha)⟩, rfl, hfails⟩
  · right
    rw [if_neg hfails]
    generalize hblock :
      Draco.cloneIntoGrid grid.block unwritten.block = block
    refine ⟨mem.mallocs, mem.allocate { grid with block := block }, ?_, hnot,
      h.allocate _, blocks_allocate ..⟩
    simp only [Memory.cloneIntoGrid, write, put, Function.update_self,
      Function.update_of_ne hp, hgrid, Option.bind_eq_bind, Option.bind_some,
      Function.update_idem, hblock]
    rfl

/-- A new grid is a list of its own. -/
theorem createGrid_holds {fails : ℕ → Bool} {s : ℕ} {block : Block}
    (h : Holds mem [] []) (hcreate : Draco.createGrid s = some block)
    (hfails : fails mem.mallocs = false) :
    ∃ p mem', mem.createGrid fails s = (some p, mem') ∧ Holds mem' [p] [] ∧
      mem'.blocks p = some block := by
  generalize hgrid : (⟨mem.mallocs, mem.mallocs, block⟩ : Grid) = grid
  have hallocate : mem.createGrid fails s =
      (some mem.mallocs, mem.allocate grid) := by
    simp only [Memory.createGrid, hcreate, hfails, Bool.false_eq_true, if_false,
      hgrid]
    rfl
  refine ⟨mem.mallocs, mem.allocate grid, hallocate, ?_, ?_⟩
  · refine (h.allocate grid).relink ⟨rfl, rfl, rfl⟩ (List.Perm.refl _) ?_
    have hnew : (mem.allocate grid).grids mem.mallocs = some grid :=
      Function.update_self ..
    refine isRing_singleton ?_ ?_
    · rw [next, hnew, ← hgrid]
      rfl
    · rw [previous, hnew, ← hgrid]
      rfl
  · rw [blocks_allocate, Function.update_self, ← hgrid]

end Memory

end SudokuSolver.Draco
