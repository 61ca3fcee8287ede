import SudokuSolver.Draco.Branches
import SudokuSolver.Draco.Verdict

/-!
# The memory under the window of Draco

Between the messages and the rounds the grids in memory are those of the list.
Therefore the loop can always go on: in whichever place it is, it neither reads
nor writes nor frees a grid that has been freed.
-/

namespace SudokuSolver.Draco

open Propagation LinkedList

variable {s : ℕ}

/-- The grids in memory are those of the list. -/
def EventLoop.Sound (s : ℕ) (st : EventLoop) : Prop :=
  ∃ (l : List ℕ) (ms : List (Candidates (Coord s) (Value s))),
    st.pGridList = l.head? ∧ st.mem.Represents s l [] ms []

/-- Where no grid is allocated, there has only been a number of calls of
`Malloc`. -/
theorem Memory.Holds.eq_noGrids {mem : Memory} (h : mem.Holds [] []) :
    mem = Memory.noGrids mem.mallocs := by
  obtain ⟨grids, mallocs, gridsInMemory⟩ := mem
  have hgrids : grids = fun _ => none := by
    funext p
    have hblock := mt (h.allocated p).mp List.not_mem_nil
    rw [Memory.blocks, Option.isSome_map] at hblock
    exact Option.not_isSome_iff_eq_none.mp hblock
  have hcount : gridsInMemory = 0 := h.count
  rw [hgrids, hcount]
  rfl

namespace EventLoop.Sound

variable {st st' : EventLoop}

theorem of_nil {ms : List (Candidates (Coord s) (Value s))}
    (hlist : st.pGridList = none) (h : st.mem.Represents s [] [] ms []) :
    Sound s st := ⟨[], ms, hlist, h⟩

theorem eq_noGrids (h : Sound s st) (hlist : st.pGridList = none) :
    st.mem = Memory.noGrids st.mem.mallocs := by
  obtain ⟨l, ms, hhead, hrep⟩ := h
  rw [hlist, eq_comm, List.head?_eq_none_iff] at hhead
  subst hhead
  exact hrep.holds.eq_noGrids

/-- The list can be freed, and no grid is left. -/
theorem freeGridList (h : Sound s st) :
    ∃ mem, st.mem.freeGridList st.pGridList = some mem ∧
      mem.Represents s [] [] [] [] := by
  obtain ⟨l, ms, hhead, hrep⟩ := h
  obtain ⟨mem, hfree, hholds⟩ := hrep.holds.freeGridList
  refine ⟨mem, hhead ▸ hfree, ?_⟩
  rw [hholds.eq_noGrids]
  exact represents_noGrids mem.mallocs

/-! ## Messages -/

theorem startSolving (hs : 2 ≤ s) (hs' : s ≤ 5) (h : Sound s st)
    (fails : ℕ → Bool) (hlist : st.pGridList = none) :
    ∃ st', st.startSolving fails s = some st' ∧ Sound s st' := by
  rw [EventLoop.startSolving]
  dsimp only
  rcases hvalid : valuesAreValid (s * s) st.pSquareGadgets with text | _
  · obtain ⟨l, ms, hhead, hrep⟩ := h
    exact ⟨_, rfl, l, ms, hhead, hrep⟩
  dsimp only
  rw [h.eq_noGrids hlist]
  have hrange : InRange s (toggleSquareGadgetsEnabled (s * s)
      (stashCurrentValues (s * s) st.pSquareGadgets)) := by
    intro c
    rw [si_LongInt_disabled]
    exact inRange_of_valid hvalid c
  rcases represents_createGridFromSquareGadgets hs hs' hrange fails
    st.mem.mallocs with ⟨-, hnone⟩ | ⟨p, mem, hsome, hrep⟩
  · rw [hnone]
    exact ⟨_, rfl, of_nil rfl (represents_noGrids _)⟩
  · rw [hsome]
    exact ⟨_, rfl, [p], _, rfl, hrep⟩

theorem cancelSolving (h : Sound s st) :
    ∃ st', st.cancelSolving s = some st' ∧ Sound s st' := by
  obtain ⟨mem, hfree, hrep⟩ := h.freeGridList
  rw [EventLoop.cancelSolving]
  dsimp only
  by_cases hnone : st.counters.c_Solutions = 0
  · rw [if_pos hnone]
    dsimp only
    rw [hfree]
    exact ⟨_, rfl, of_nil rfl hrep⟩
  · rw [if_neg hnone]
    rw [hfree]
    exact ⟨_, rfl, of_nil rfl hrep⟩

theorem gadgetUp (hs : 2 ≤ s) (hs' : s ≤ 5) (h : Sound s st)
    (fails : ℕ → Bool) :
    ∃ st', st.gadgetUp fails s = some st' ∧ Sound s st' := by
  rw [EventLoop.gadgetUp]
  rcases hlist : st.pGridList with _ | pGridList
  · obtain ⟨next, hnext, l, ms, hhead, hrep⟩ :=
      h.startSolving hs hs' fails hlist
    dsimp only
    rw [hnext]
    exact ⟨_, rfl, l, ms, hhead, hrep⟩
  · obtain ⟨next, hnext, l, ms, hhead, hrep⟩ := h.cancelSolving
    dsimp only
    rw [hnext]
    exact ⟨_, rfl, l, ms, hhead, hrep⟩

theorem resetPicked (h : Sound s st) :
    ∃ st', st.resetPicked s = some st' ∧ Sound s st' := by
  rw [EventLoop.resetPicked]
  dsimp only
  rcases hlist : st.pGridList with _ | pGridList
  · obtain ⟨l, ms, hhead, hrep⟩ := h
    exact ⟨_, rfl, l, ms, hlist ▸ hhead, hrep⟩
  · obtain ⟨mem, hfree, hrep⟩ := h.freeGridList
    rw [hlist] at hfree
    dsimp only
    rw [EventLoop.resetSolving]
    dsimp only
    rw [hfree]
    exact ⟨_, rfl, of_nil rfl hrep⟩

/-- What the loop has returned, or it can go on. -/
def GoesOn (s : ℕ) (next : EventLoop × Option ℕ) : Prop :=
  next.2 = none → Sound s next.1

theorem leave (h : Sound s st) (returned : ℕ) :
    ∃ next, st.leave returned = some next ∧ GoesOn s next := by
  obtain ⟨mem, hfree, -⟩ := h.freeGridList
  rw [EventLoop.leave, hfree]
  exact ⟨_, rfl, fun hreturned => by cases hreturned⟩

theorem menuPick (h : Sound s st) (picks : List MenuItem) :
    ∃ next, st.menuPick s picks = some next ∧ GoesOn s next := by
  induction picks generalizing st with
  | nil => exact ⟨_, rfl, fun _ => h⟩
  | cons pick picks ih =>
      cases pick with
      | resetMenuItem =>
          obtain ⟨st', hreset, h'⟩ := h.resetPicked
          rw [EventLoop.menuPick, hreset]
          exact ih h'
      | size3MenuItem =>
          rw [EventLoop.menuPick]
          split_ifs
          · exact h.leave 3
          · exact ih h
      | size4MenuItem =>
          rw [EventLoop.menuPick]
          split_ifs
          · exact h.leave 4
          · exact ih h

theorem handleMessage (hs : 2 ≤ s) (hs' : s ≤ 5) (h : Sound s st)
    (fails : ℕ → Bool) (message : Message) :
    ∃ next, st.handleMessage fails s message = some next ∧ GoesOn s next := by
  cases message with
  | CLOSEWINDOW => exact h.leave 0
  | MENUPICK picks distinct => exact h.menuPick picks
  | GADGETDOWN =>
      obtain ⟨l, ms, hhead, hrep⟩ := h
      exact ⟨_, rfl, fun _ => ⟨l, ms, hhead, hrep⟩⟩
  | GADGETUP =>
      obtain ⟨st', hup, h'⟩ := h.gadgetUp hs hs' fails
      rw [EventLoop.handleMessage, hup]
      exact ⟨_, rfl, fun _ => h'⟩

/-! ## Rounds -/

/-- Cleaning up frees the list, but leaves the pointer to it. -/
theorem cleanupAfterSolver (h : Sound s st) :
    ∃ st', st.cleanupAfterSolver (s * s) = some st' ∧
      st'.mem.Represents s [] [] [] [] ∧ st'.pGridList = st.pGridList := by
  obtain ⟨mem, hfree, hrep⟩ := h.freeGridList
  rw [EventLoop.cleanupAfterSolver, hfree]
  exact ⟨_, rfl, hrep, rfl⟩

theorem noMoreSolutions (h : Sound s st) (hlist : st.pGridList = none) :
    ∃ st', st.noMoreSolutions (s * s) = some st' ∧ Sound s st' := by
  obtain ⟨text, heq⟩ := st.noMoreSolutions_eq (s * s)
  rw [heq]
  generalize hshown : ({ st with
    pSquareGadgets :=
      if st.counters.c_Solutions = 1 then st.pSquareGadgets
      else restorePreviousValues (s * s) st.pSquareGadgets
    text := text } : EventLoop) = shown
  have hsound : Sound s shown := by
    obtain ⟨l, ms, hhead, hrep⟩ := h
    rw [← hshown]
    exact ⟨l, ms, hhead, hrep⟩
  have hlist' : shown.pGridList = none := by
    rw [← hshown]
    exact hlist
  obtain ⟨st', hcleanup, hrep, hsame⟩ := hsound.cleanupAfterSolver
  exact ⟨st', hcleanup, of_nil (hsame.trans hlist') hrep⟩

theorem setText (h : Sound s st) (text : Option String) :
    Sound s (st.setText text) := by
  obtain ⟨l, ms, hhead, hrep⟩ := h
  exact ⟨l, ms, hhead, hrep⟩

theorem solutionCounted (h : Sound s st) :
    ∃ st', st.solutionCounted (s * s) = some st' ∧ Sound s st' := by
  rw [EventLoop.solutionCounted]
  by_cases hmany : st.counters.c_Solutions > 1
  · rw [if_pos hmany]
    obtain ⟨st', hcleanup, hrep, -⟩ :=
      (h.setText (some "Solution is not unique")).cleanupAfterSolver
    dsimp only
    rw [hcleanup]
    exact ⟨_, rfl, of_nil rfl hrep⟩
  rw [if_neg hmany]
  rcases hlist : st.pGridList with _ | pGridList
  · rw [Option.isSome_none, if_neg Bool.false_ne_true]
    by_cases hlost : st.counters.c_GridsLost = 0
    · rw [if_pos hlost]
      obtain ⟨st', hcleanup, hrep, hsame⟩ :=
        (h.setText (some "Solution is unique")).cleanupAfterSolver
      exact ⟨st', hcleanup, of_nil (hsame.trans hlist) hrep⟩
    · rw [if_neg hlost]
      obtain ⟨st', hcleanup, hrep, hsame⟩ :=
        (h.setText (some "Failed to check for uniqueness")).cleanupAfterSolver
      exact ⟨st', hcleanup, of_nil (hsame.trans hlist) hrep⟩
  · rw [Option.isSome_some, if_pos rfl]
    exact ⟨_, rfl, h.setText _⟩

/-- A round can be gone through, and advancing the search does not count
solutions. -/
theorem solvingStep (h : Sound s st) (fails : ℕ → Bool) :
    ∃ pGridList mem counters st',
      st.mem.advanceSolving fails st.pGridList st.counters =
        some (pGridList, mem, counters) ∧
      counters.c_Solutions = st.counters.c_Solutions ∧
      st.solvingStep fails s = some st' ∧ Sound s st' := by
  obtain ⟨l, ms, hhead, hrep⟩ := h
  obtain ⟨l', b', mem, counters, hadvance, hrep', hadvanced, -⟩ :=
    Memory.Represents.advanceSolving (b := ⟨ms, [], 0⟩) hrep fails st.counters
  rw [← hhead] at hadvance
  suffices hrest : ∃ st', st.solvingStep fails s = some st' ∧ Sound s st' by
    obtain ⟨st', hresult, h'⟩ := hrest
    exact ⟨l'.head?, mem, counters, st', hadvance, hadvanced.solutions,
      hresult, h'⟩
  rw [EventLoop.solvingStep, hadvance]
  simp only [Option.bind_eq_bind, Option.bind_some]
  cases l' with
  | nil =>
      generalize hnext : ({ st with
        pGridList := none, mem := mem, counters := counters } : EventLoop) =
          next
      have hsound : Sound s next := hnext ▸ of_nil rfl hrep'
      have hlist : next.pGridList = none := hnext ▸ rfl
      obtain ⟨st', hresult, h'⟩ := hsound.noMoreSolutions hlist
      exact ⟨st', hnext ▸ hresult, h'⟩
  | cons p l' =>
      obtain ⟨m, ms', hms⟩ := hrep'.exists_cons
      rw [hms] at hrep'
      obtain ⟨block, hblock, -, -⟩ := hrep'.exists_front
      obtain ⟨grid, hgrid, rfl⟩ := Memory.grids_of_blocks hblock
      rw [List.head?_cons]
      simp only [hgrid, Option.bind_some]
      by_cases hcomplete : isComplete grid.block = true
      · obtain ⟨mem', hfree, hrep''⟩ := hrep'.freeFrontGrid
        rw [if_pos hcomplete, EventLoop.solutionFound]
        dsimp only
        rw [hfree]
        simp only [Option.bind_eq_bind, Option.bind_some]
        generalize hnext : (EventLoop.mk
          (updateSquareGadgetValues st.pSquareGadgets grid.block) st.SELECTED
          st.it_IText st.text l'.head? mem'
          { counters with c_Solutions := counters.c_Solutions + 1 }) = next
        have hsound : Sound s next := hnext ▸ ⟨l', ms', rfl, hrep''⟩
        obtain ⟨st', hresult, h'⟩ := hsound.solutionCounted
        exact ⟨st', hresult, h'⟩
      · rw [if_neg hcomplete]
        by_cases hnone : counters.c_Solutions = 0
        · rw [if_pos hnone]
          exact ⟨_, rfl, p :: l', _, rfl, hrep'⟩
        · rw [if_neg hnone]
          exact ⟨_, rfl, p :: l', _, rfl, hrep'⟩

end EventLoop.Sound

/-! ## Runs -/

namespace Window

open EventLoop

variable {n : ℕ} {fails : ℕ → Bool} {a : Action} {w w' : Window}

theorem exists_getMsg (hs : 2 ≤ s) (hs' : s ≤ 5) (h : Sound s w.loop)
    (fails : ℕ → Bool) : ∃ w', w.getMsg fails s = some w' := by
  rw [getMsg]
  rcases w.messages with _ | ⟨message, messages⟩
  · exact ⟨_, rfl⟩
  · obtain ⟨next, hhandle, -⟩ := h.handleMessage hs hs' fails message
    dsimp only
    rw [hhandle]
    exact ⟨_, rfl⟩

theorem exists_endRound (h : Sound s w.loop) (fails : ℕ → Bool) :
    ∃ w', w.endRound fails s = some w' := by
  rw [endRound]
  rcases w.loop.pGridList with _ | pGridList
  · exact ⟨_, rfl⟩
  · obtain ⟨-, -, -, loop, -, -, hstep, -⟩ := h.solvingStep fails
    dsimp only
    rw [hstep]
    exact ⟨_, rfl⟩

theorem sound_act (hs : 2 ≤ s) (hs' : s ≤ 5) (h : Sound s w.loop)
    (hact : act fails s a w = some w') (hopen : w'.returned = none) :
    Sound s w'.loop := by
  obtain ⟨l, ms, hhead, hrep⟩ := id h
  cases act_cases hact with
  | clicked => exact ⟨l, ms, hhead, hrep⟩
  | posted message => exact h
  | edited pSquareGadgets => exact ⟨l, ms, hhead, hrep⟩
  | moved phase => exact h
  | left hleave => cases hopen
  | @handled message messages loop returned _ _ hhandle =>
      obtain ⟨next, hnext, hgoes⟩ := h.handleMessage hs hs' fails message
      rw [hhandle] at hnext
      cases hnext
      exact hgoes hopen
  | round _ hround =>
      obtain ⟨_, _, _, loop, -, -, hstep, h'⟩ := h.solvingStep fails
      rw [hround] at hstep
      cases hstep
      exact h'

/-- The grids in memory, in every run. -/
theorem Reached.sound (hs : 2 ≤ s) (hs' : s ≤ 5) (h : Reached fails s n w)
    (hopen : w.returned = none) : Sound s w.loop := by
  induction h with
  | createWindow mallocs counters =>
      exact Sound.of_nil rfl (represents_noGrids mallocs)
  | step h _ hstep ih =>
      obtain ⟨hreturned, hact⟩ := act_of_step hstep
      exact sound_act hs hs' (ih hreturned) hact hopen
  | failed h _ hstep ih =>
      obtain ⟨hreturned, hact⟩ := act_of_step hstep
      exact sound_act hs hs' (ih hreturned) hact hopen

/-- In every run the loop can go on until it returns. -/
theorem Reached.exists_step (hs : 2 ≤ s) (hs' : s ≤ 5)
    (h : Reached fails s n w) (hopen : w.returned = none)
    (ha : a ∈ w.phase.actions) :
    ∃ w', (system fails s).step a w = some w' := by
  have hsound := h.sound hs hs' hopen
  rw [step_eq_act hopen]
  cases hphase : w.phase with
  | outer =>
      rw [hphase, Phase.actions, List.mem_pair] at ha
      rcases ha with rfl | rfl
      · obtain ⟨next, hleave, -⟩ := hsound.leave 0
        rw [act, hphase]
        dsimp only
        rw [hleave]
        exact ⟨_, rfl⟩
      · rw [act, hphase]
        exact ⟨_, rfl⟩
  | messages =>
      rw [hphase, Phase.actions, List.mem_singleton] at ha
      rw [ha, act, hphase]
      exact exists_getMsg hs hs' hsound fails
  | solver =>
      rw [hphase, Phase.actions, List.mem_singleton] at ha
      rw [ha, act, hphase]
      exact exists_endRound hsound fails

end Window

end SudokuSolver.Draco
