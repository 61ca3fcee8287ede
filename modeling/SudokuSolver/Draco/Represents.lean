import SudokuSolver.Draco.GridList
import SudokuSolver.Support.Backlog

/-!
# The maps of a list of grids

Every grid in memory stands for a map from squares to sets of values, and a list
of grids for the list of their maps.  The routines that work on the list, or on
the block of a grid, are followed on the maps here; nothing else about the
memory is needed from here on.
-/

namespace SudokuSolver.Draco.Memory

open Propagation LinkedList

variable {s : ℕ} {mem mem' : Memory} {p q : ℕ} {l loose : List ℕ}
variable {m m' k : Candidates (Coord s) (Value s)}
variable {ms ks : List (Candidates (Coord s) (Value s))}

/-- The map that a grid stands for. -/
def mapAt (s : ℕ) (mem : Memory) (p : ℕ) : Candidates (Coord s) (Value s) :=
  (mem.blocks p).elim (fun _ => ∅) (Block.candidates s)

/-- The grids of the list stand for `ms`, and those besides for `ks`. -/
structure Represents (s : ℕ) (mem : Memory) (l loose : List ℕ)
    (ms ks : List (Candidates (Coord s) (Value s))) : Prop where
  holds : Holds mem l loose
  valid : ∀ p block, mem.blocks p = some block → Valid s block
  maps : l.map (mem.mapAt s) = ms
  looseMaps : loose.map (mem.mapAt s) = ks

/-! ## Changing one grid -/

theorem mapAt_of_blocks {block : Block} (h : mem.blocks p = some block) :
    mem.mapAt s p = block.candidates s := by
  rw [mapAt, h]
  rfl

theorem mapAt_congr (h : mem'.blocks = mem.blocks) :
    mem'.mapAt s = mem.mapAt s := by
  funext p
  rw [mapAt, mapAt, h]

theorem mapAt_update {block : Block}
    (h : mem'.blocks = Function.update mem.blocks p (some block)) :
    mem'.mapAt s = Function.update (mem.mapAt s) p (block.candidates s) := by
  funext q
  rw [mapAt, h]
  by_cases hq : q = p
  · subst q
    rw [Function.update_self, Function.update_self]
    rfl
  · rw [Function.update_of_ne hq, Function.update_of_ne hq, mapAt]

/-- Other grids keep their maps. -/
theorem map_update_of_notMem {α : Type*} {l : List ℕ} (hp : p ∉ l) (f : ℕ → α)
    (a : α) : l.map (Function.update f p a) = l.map f := by
  refine List.map_congr_left fun q hq => Function.update_of_ne ?_ _ _
  rintro rfl
  exact hp hq

namespace Represents

theorem exists_block (h : Represents s mem l loose ms ks)
    (hp : p ∈ l ++ loose) :
    ∃ block, mem.blocks p = some block ∧ Valid s block ∧
      block.candidates s = mem.mapAt s p := by
  obtain ⟨block, hblock⟩ :=
    Option.isSome_iff_exists.mp ((h.holds.allocated p).mpr hp)
  exact ⟨block, hblock, h.valid p block hblock, (mapAt_of_blocks hblock).symm⟩

theorem exists_front (h : Represents s mem (p :: l) loose (m :: ms) ks) :
    ∃ block, mem.blocks p = some block ∧ Valid s block ∧
      block.candidates s = m := by
  obtain ⟨block, hblock, hvalid, hmap⟩ := h.exists_block (p := p) (by simp)
  exact ⟨block, hblock, hvalid, hmap.trans (List.cons.inj h.maps).1⟩

theorem exists_loose (h : Represents s mem l (p :: loose) ms (m :: ks)) :
    ∃ block, mem.blocks p = some block ∧ Valid s block ∧
      block.candidates s = m := by
  obtain ⟨block, hblock, hvalid, hmap⟩ := h.exists_block (p := p) (by simp)
  exact ⟨block, hblock, hvalid, hmap.trans (List.cons.inj h.looseMaps).1⟩

theorem exists_cons (h : Represents s mem (p :: l) loose ms ks) :
    ∃ m ms', ms = m :: ms' := ⟨_, _, h.maps.symm.trans List.map_cons⟩

/-- The same blocks, in another arrangement. -/
theorem rearrange (h : Represents s mem l loose ms ks)
    {l' loose' : List ℕ} (hholds : Holds mem' l' loose')
    (hblocks : mem'.blocks = mem.blocks) :
    Represents s mem' l' loose' (l'.map (mem.mapAt s))
      (loose'.map (mem.mapAt s)) where
  holds := hholds
  valid p block hblock := h.valid p block (hblocks ▸ hblock)
  maps := by rw [mapAt_congr hblocks]
  looseMaps := by rw [mapAt_congr hblocks]

/-- One block is written. -/
theorem update (h : Represents s mem l loose ms ks) {l' loose' : List ℕ}
    (hholds : Holds mem' l' loose') {block : Block} (hvalid : Valid s block)
    (hblocks : mem'.blocks = Function.update mem.blocks p (some block)) :
    Represents s mem' l' loose'
      (l'.map (Function.update (mem.mapAt s) p (block.candidates s)))
      (loose'.map (Function.update (mem.mapAt s) p (block.candidates s))) where
  holds := hholds
  valid q block' hblock' := by
    rw [hblocks] at hblock'
    by_cases hq : q = p
    · subst q
      rw [Function.update_self, Option.some.injEq] at hblock'
      exact hblock' ▸ hvalid
    · rw [Function.update_of_ne hq] at hblock'
      exact h.valid q block' hblock'
  maps := by rw [mapAt_update hblocks]
  looseMaps := by rw [mapAt_update hblocks]

/-- One grid is freed. -/
theorem remove (h : Represents s mem l loose ms ks) {l' loose' : List ℕ}
    (hholds : Holds mem' l' loose')
    (hblocks : mem'.blocks = Function.update mem.blocks p none) :
    Represents s mem' l' loose' (l'.map (mem.mapAt s))
      (loose'.map (mem.mapAt s)) := by
  have hp : p ∉ l' ++ loose' := by
    rw [← hholds.allocated, hblocks, Function.update_self]
    exact Bool.false_ne_true
  have hne : ∀ q ∈ l' ++ loose', q ≠ p := by
    rintro q hq rfl
    exact hp hq
  have hmaps : ∀ q ∈ l' ++ loose', mem'.mapAt s q = mem.mapAt s q := by
    intro q hq
    rw [mapAt, hblocks, Function.update_of_ne (hne q hq), mapAt]
  refine ⟨hholds, ?_, ?_, ?_⟩
  · intro q block hblock
    rw [hblocks] at hblock
    by_cases hq : q = p
    · subst q
      rw [Function.update_self] at hblock
      cases hblock
    · rw [Function.update_of_ne hq] at hblock
      exact h.valid q block hblock
  · exact List.map_congr_left fun q hq =>
      hmaps q (List.mem_append_left loose' hq)
  · exact List.map_congr_left fun q hq =>
      hmaps q (List.mem_append_right l' hq)

/-! ## The list -/

theorem detachFrontGrid (h : Represents s mem (p :: l) loose (m :: ms) ks) :
    ∃ mem', mem.detachFrontGrid p = some (l.head?, mem') ∧
      Represents s mem' l (p :: loose) ms (m :: ks) := by
  obtain ⟨mem', hdetach, hholds, hblocks⟩ := h.holds.detachFrontGrid
  obtain ⟨hm, hms⟩ := List.cons.inj h.maps
  refine ⟨mem', hdetach, ?_⟩
  have hnew := h.rearrange hholds hblocks
  rwa [List.map_cons, hm, hms, h.looseMaps] at hnew

theorem freeFrontGrid (h : Represents s mem (p :: l) loose (m :: ms) ks) :
    ∃ mem', mem.freeFrontGrid p = some (l.head?, mem') ∧
      Represents s mem' l loose ms ks := by
  obtain ⟨mem', hfree, hholds, hblocks⟩ := h.holds.freeFrontGrid
  refine ⟨mem', hfree, ?_⟩
  have hnew := h.remove hholds hblocks
  rwa [(List.cons.inj h.maps).2, h.looseMaps] at hnew

/-- A grid beside the list becomes its first one, if it is possible. -/
theorem attachToFrontIfPossible
    (h : Represents s mem l (p :: loose) ms (m :: ks)) (pCounters : Counters) :
    ∃ l' ms' mem' pCounters',
      mem.attachToFrontIfPossible l.head? p pCounters =
        some (l'.head?, mem', pCounters') ∧
      Represents s mem' l' loose ms' ks ∧
      Backlog.Kept m ms ms' ∧
      pCounters'.c_GridsLost = pCounters.c_GridsLost ∧
      pCounters'.c_Solutions = pCounters.c_Solutions := by
  obtain ⟨block, hblock, hvalid, rfl⟩ := h.exists_loose
  obtain ⟨hfront, hks⟩ := List.cons.inj h.looseMaps
  by_cases hpossible : isPossible block = true
  · obtain ⟨mem', hattach, hholds, hblocks⟩ :=
      h.holds.attach_possible hblock hpossible pCounters
    refine ⟨p :: l, _, mem', pCounters, hattach, ?_, Or.inl rfl, rfl, rfl⟩
    have hnew := h.rearrange hholds hblocks
    rwa [List.map_cons, h.maps, hfront, hks] at hnew
  · have hdead : ¬Live (block.candidates s) := by
      rwa [← mapIsPossible_iff, ← hvalid.isPossible_eq]
    rw [Bool.not_eq_true] at hpossible
    obtain ⟨mem', hattach, hholds, hblocks⟩ :=
      h.holds.attach_impossible hblock hpossible l.head? pCounters
    refine ⟨l, ms, mem', _, hattach, ?_, Or.inr ⟨rfl, hdead⟩, rfl, rfl⟩
    have hnew := h.remove hholds hblocks
    rwa [h.maps, hks] at hnew

/-! ## Blocks -/

/-- A routine on the block of a grid of the list, at its front. -/
theorem onBlock_front (h : Represents s mem (p :: l) loose (m :: ms) ks)
    {routine : Block → Option Block}
    (hroutine : ∀ block, Valid s block → block.candidates s = m →
      Returns s (routine block) m') :
    ∃ mem', mem.onBlock p routine = some mem' ∧
      Represents s mem' (p :: l) loose (m' :: ms) ks := by
  obtain ⟨block, hblock, hvalid, hm⟩ := h.exists_front
  obtain ⟨block', hreturn, hvalid', rfl⟩ := hroutine block hvalid hm
  obtain ⟨mem', hmem', hholds, hblocks⟩ := h.holds.onBlock hblock hreturn
  have hp := h.holds.nodup
  rw [List.cons_append, List.nodup_cons, List.mem_append, not_or] at hp
  refine ⟨mem', hmem', ?_⟩
  have hnew := h.update hholds hvalid' hblocks
  rwa [List.map_cons, Function.update_self, map_update_of_notMem hp.1.1,
    map_update_of_notMem hp.1.2, (List.cons.inj h.maps).2, h.looseMaps] at hnew

theorem setFrontValue (h : Represents s mem (p :: l) loose (m :: ms) ks)
    (c : Coord s) (v : Value s) :
    ∃ mem', mem.onBlock p (fun block => setValueAt block c.1 c.2 v.1) =
        some mem' ∧
      Represents s mem' (p :: l) loose
        (mapStore.setSquare (visitOrder s) v c m :: ms) ks := by
  apply h.onBlock_front
  rintro block hvalid rfl
  exact returns_setValueAt hvalid c v

/-- A routine on the block of a grid beside the list. -/
theorem onBlock_loose (h : Represents s mem l (p :: loose) ms (m :: ks))
    {routine : Block → Option Block}
    (hroutine : ∀ block, Valid s block → block.candidates s = m →
      Returns s (routine block) m') :
    ∃ mem', mem.onBlock p routine = some mem' ∧
      Represents s mem' l (p :: loose) ms (m' :: ks) := by
  obtain ⟨block, hblock, hvalid, hm⟩ := h.exists_loose
  obtain ⟨block', hreturn, hvalid', rfl⟩ := hroutine block hvalid hm
  obtain ⟨mem', hmem', hholds, hblocks⟩ := h.holds.onBlock hblock hreturn
  have hp := notMem_of_loose h.holds
  have hp' := (List.nodup_cons.mp (List.nodup_append.mp h.holds.nodup).2.1).1
  refine ⟨mem', hmem', ?_⟩
  have hnew := h.update hholds hvalid' hblocks
  rwa [List.map_cons, Function.update_self, map_update_of_notMem hp,
    map_update_of_notMem hp', h.maps, (List.cons.inj h.looseMaps).2] at hnew

/-- A grid beside the list is cloned, unless there is no memory for it. -/
theorem cloneGrid (h : Represents s mem l (p :: loose) ms (m :: ks))
    (fails : ℕ → Bool) :
    (∃ mem', mem.cloneGrid fails p = some (none, mem') ∧
      Represents s mem' l (p :: loose) ms (m :: ks) ∧
      fails mem.mallocs = true) ∨
    ∃ q mem', mem.cloneGrid fails p = some (some q, mem') ∧
      Represents s mem' l (q :: p :: loose) ms (m :: m :: ks) := by
  obtain ⟨block, hblock, hvalid, hm⟩ := h.exists_loose
  obtain ⟨hvalid', hm'⟩ := hvalid.cloneIntoGrid unwritten.block
  rcases h.holds.cloneGrid fails hblock with
    ⟨mem', hclone, hholds, hblocks, hfails⟩ |
    ⟨q, mem', hclone, hq, hholds, hblocks⟩
  · left
    refine ⟨mem', hclone, ?_, hfails⟩
    have hnew := h.rearrange hholds hblocks
    rwa [h.maps, h.looseMaps] at hnew
  · right
    rw [List.mem_append, not_or] at hq
    refine ⟨q, mem', hclone, ?_⟩
    have hnew := h.update hholds hvalid' hblocks
    rwa [List.map_cons, Function.update_self, map_update_of_notMem hq.1,
      map_update_of_notMem hq.2, h.maps, h.looseMaps, hm', hm] at hnew

/-- The last grid is taken out of the list, and becomes a clone of a grid beside
the list. -/
theorem reuse
    (h : Represents s mem (l ++ [q]) (p :: loose) (ms ++ [k]) (m :: ks)) :
    ∃ pGridList grid mem₁ mem₂, (l ++ [q]).head? = some pGridList ∧
      mem.grids pGridList = some grid ∧ grid.g_pPrevious = q ∧
      mem.detachFrontGrid q = some (l.head?, mem₁) ∧
      mem₁.cloneIntoGrid p q = some mem₂ ∧
      Represents s mem₂ l (q :: p :: loose) ms (m :: m :: ks) := by
  have hperm : ((q :: l) ++ p :: loose).Perm ((l ++ [q]) ++ p :: loose) :=
    (List.perm_append_singleton q l).symm.append_right _
  have hrotated : Represents s mem (q :: l) (p :: loose) (k :: ms) (m :: ks) := by
    have hmaps := h.maps
    rw [List.map_append, List.map_singleton] at hmaps
    obtain ⟨hms, hk⟩ := List.append_inj' hmaps rfl
    have hnew := h.rearrange (h.holds.relink ⟨rfl, rfl, rfl⟩ hperm
      (isRing_concat_iff.mp h.holds.ring)) rfl
    rwa [List.map_cons, hms, (List.cons.inj hk).1, h.looseMaps] at hnew
  obtain ⟨pGridList, hhead⟩ : ∃ a, (l ++ [q]).head? = some a :=
    ⟨_, List.head?_eq_some_head (List.concat_ne_nil q l)⟩
  obtain ⟨grid, hgrid, hprevious⟩ : ∃ grid, mem.grids pGridList = some grid ∧
      grid.g_pPrevious = q := by
    obtain ⟨rest, hrest⟩ := List.head?_eq_some_iff.mp hhead
    have hring := h.holds.ring
    have hlast := List.getLast_concat (a := q) (l := l)
    simp only [hrest] at hring hlast
    obtain ⟨⟨a, hnext⟩, hprev⟩ := hring.exists_links
    rw [hlast] at hprev
    obtain ⟨grid, hgrid, -, hq⟩ := read_links mem pGridList hnext hprev
    exact ⟨grid, hgrid, hq⟩
  obtain ⟨mem₁, hdetach, h₁⟩ := hrotated.detachFrontGrid
  obtain ⟨source, hsource, hvalid, hm⟩ :=
    h₁.exists_block (p := p) (by simp)
  obtain ⟨target, htarget, -, -⟩ := h₁.exists_loose
  obtain ⟨mem₂, hclone, hholds, hblocks⟩ :=
    h₁.holds.cloneIntoGrid (notMem_of_loose h₁.holds) hsource htarget
  obtain ⟨hvalid', hm'⟩ := hvalid.cloneIntoGrid target
  refine ⟨pGridList, grid, mem₁, mem₂, hhead, hgrid, hprevious, hdetach,
    hclone, ?_⟩
  have hq := List.nodup_cons.mp (List.nodup_append.mp h₁.holds.nodup).2.1
  obtain ⟨-, hks⟩ := List.cons.inj h₁.looseMaps
  have hnew := h₁.update hholds hvalid' hblocks
  rw [List.map_cons, Function.update_self, map_update_of_notMem hq.1,
    map_update_of_notMem (notMem_of_loose h₁.holds), h₁.maps, hks, hm',
    hm] at hnew
  rwa [(List.cons.inj hks).1] at hnew

end Represents

end SudokuSolver.Draco.Memory
