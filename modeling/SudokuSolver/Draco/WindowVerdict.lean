import SudokuSolver.Draco.Flags
import SudokuSolver.Draco.Restored

/-!
# The verdicts in the window of Draco

The user can click, select, pick and edit while the solver runs.  The search
does not look at the gadgets, so whatever the user does, it goes on until its
verdict or until the solve is given up, and the verdict is about the values from
before the click.  The gadgets keep showing the solution as long as they are
disabled.
-/

namespace SudokuSolver.Draco

open Propagation

variable {s : ℕ} {fails : ℕ → Bool} {st st' st₂ : EventLoop}
variable {pSquareGadgets : SquareGadgets} {b : Backlog (Coord s) (Value s)}

/-! ## The search behind the gadgets -/

namespace EventLoop

/-- What the search works on, and what is said about it. -/
def search (st : EventLoop) : Option ℕ × Memory × Counters × Option String :=
  (st.pGridList, st.mem, st.counters, st.text)

theorem exists_of_search (h : st.search = st₂.search) :
    ∃ (shown : SquareGadgets) (SELECTED : Bool) (it_IText : String),
      st₂ = { st with
        pSquareGadgets := shown
        SELECTED := SELECTED
        it_IText := it_IText } := by
  obtain ⟨shown, SELECTED, it_IText, _, _, _, _⟩ := st₂
  simp only [search, Prod.mk.injEq] at h
  obtain ⟨rfl, rfl, rfl, rfl⟩ := h
  exact ⟨shown, SELECTED, it_IText, rfl⟩

theorem cleanupAfterSolver_search (dimension : ℕ)
    (h : st.search = st₂.search) :
    (st.cleanupAfterSolver dimension).map search =
      (st₂.cleanupAfterSolver dimension).map search := by
  obtain ⟨shown, SELECTED, it_IText, rfl⟩ := exists_of_search h
  rw [cleanupAfterSolver, cleanupAfterSolver]
  dsimp only
  rcases st.mem.freeGridList st.pGridList with _ | mem'
  · rfl
  · rfl

theorem noMoreSolutions_search (dimension : ℕ) (h : st.search = st₂.search) :
    (st.noMoreSolutions dimension).map search =
      (st₂.noMoreSolutions dimension).map search := by
  obtain ⟨shown, SELECTED, it_IText, rfl⟩ := exists_of_search h
  rw [noMoreSolutions, noMoreSolutions]
  dsimp only
  apply cleanupAfterSolver_search
  by_cases hone : st.counters.c_Solutions = 1
  · rw [if_pos hone, if_pos hone]
    by_cases hlost : st.counters.c_GridsLost = 0
    · rw [if_pos hlost, if_pos hlost]
      rfl
    · rw [if_neg hlost, if_neg hlost]
      rfl
  · rw [if_neg hone, if_neg hone]
    by_cases hlost : st.counters.c_GridsLost = 0
    · rw [if_pos hlost, if_pos hlost]
      rfl
    · rw [if_neg hlost, if_neg hlost]
      rfl

theorem solutionCounted_search (dimension : ℕ) (h : st.search = st₂.search) :
    (st.solutionCounted dimension).map search =
      (st₂.solutionCounted dimension).map search := by
  obtain ⟨shown, SELECTED, it_IText, rfl⟩ := exists_of_search h
  rw [solutionCounted, solutionCounted]
  dsimp only
  by_cases hmany : st.counters.c_Solutions > 1
  · rw [if_pos hmany, if_pos hmany]
    rw [cleanupAfterSolver, cleanupAfterSolver]
    dsimp only [setText]
    rcases st.mem.freeGridList st.pGridList with _ | mem'
    · rfl
    · rfl
  rw [if_neg hmany, if_neg hmany]
  by_cases hsome : st.pGridList.isSome = true
  · rw [if_pos hsome, if_pos hsome]
    rfl
  rw [if_neg hsome, if_neg hsome]
  by_cases hlost : st.counters.c_GridsLost = 0
  · rw [if_pos hlost, if_pos hlost]
    exact cleanupAfterSolver_search dimension rfl
  · rw [if_neg hlost, if_neg hlost]
    exact cleanupAfterSolver_search dimension rfl

/-- A round does with the search what it would do if the gadgets showed
something else. -/
theorem solvingStep_search (fails : ℕ → Bool) (sectorDimension : ℕ)
    (h : st.search = st₂.search) :
    (st.solvingStep fails sectorDimension).map search =
      (st₂.solvingStep fails sectorDimension).map search := by
  obtain ⟨shown, SELECTED, it_IText, rfl⟩ := exists_of_search h
  rw [solvingStep, solvingStep]
  dsimp only
  rcases st.mem.advanceSolving fails st.pGridList st.counters with
    _ | ⟨front, mem, counters⟩
  · rfl
  simp only [Option.bind_eq_bind, Option.bind_some]
  rcases front with _ | p
  · exact noMoreSolutions_search _ rfl
  dsimp only
  rcases mem.grids p with _ | grid
  · rfl
  rw [Option.bind_some, Option.bind_some]
  by_cases hcomplete : isComplete grid.block = true
  · rw [if_pos hcomplete, if_pos hcomplete, solutionFound, solutionFound]
    dsimp only
    rcases mem.freeFrontGrid p with _ | ⟨rest, mem'⟩
    · rfl
    · exact solutionCounted_search _ rfl
  rw [if_neg hcomplete, if_neg hcomplete]
  by_cases hnone : counters.c_Solutions = 0
  · rw [if_pos hnone, if_pos hnone]
    rfl
  · rw [if_neg hnone, if_neg hnone]
    rfl

end EventLoop

/-! ## A solve behind the gadgets -/

/-- The search has come to a backlog, whatever the gadgets show. -/
structure Underway (s : ℕ) (fails : ℕ → Bool) (pSquareGadgets : SquareGadgets)
    (b : Backlog (Coord s) (Value s)) (st : EventLoop) : Prop where
  solving : ∃ shown, Solving s fails pSquareGadgets b
    { st with pSquareGadgets := shown }
  few : b.displayed.length ≤ 1

/-- What does not touch the search leaves it underway. -/
theorem Underway.congr (h : Underway s fails pSquareGadgets b st)
    (hlist : st'.pGridList = st.pGridList) (hmem : st'.mem = st.mem)
    (hcounters : st'.counters = st.counters) :
    Underway s fails pSquareGadgets b st' := by
  obtain ⟨⟨shown, hlist₀, hsearching, hbounded, hlost, hnever, hsolutions, hfew,
    hshows⟩, hone⟩ := h
  refine ⟨⟨shown, ?_, hsearching, hbounded, ?_, hnever, ?_, hfew, hshows⟩, hone⟩
  · rwa [hlist, hmem]
  · rwa [hcounters]
  · rwa [hcounters]

/-- As long as there are grids, there is work left. -/
theorem Underway.load_pos (h : Underway s fails pSquareGadgets b st)
    (hlist : st.pGridList ≠ none) : 0 < Backlog.load b.waiting := by
  obtain ⟨⟨shown, hsolving⟩, -⟩ := h
  obtain ⟨l, hhead, hrep⟩ := hsolving.list
  cases hwaiting : b.waiting with
  | nil =>
      have hmaps := hrep.maps
      rw [hwaiting, List.map_eq_nil_iff] at hmaps
      rw [hmaps] at hhead
      exact absurd hhead hlist
  | cons m ms =>
      rw [Backlog.load_cons]
      exact Nat.add_pos_left (weight_pos m) _

/-- After a round there is a verdict, or less work is left. -/
theorem Underway.solvingStep (hs' : s ≤ 5) (hrange : InRange s pSquareGadgets)
    (h : Underway s fails pSquareGadgets b st)
    (hst : st.solvingStep fails s = some st') :
    st'.pGridList = none ∧ Verdict s fails pSquareGadgets st'.text ∨
      st'.pGridList ≠ none ∧ ∃ b', Underway s fails pSquareGadgets b' st' ∧
        Backlog.load b'.waiting < Backlog.load b.waiting := by
  obtain ⟨⟨shown, hsolving⟩, hfew⟩ := h
  obtain ⟨st₂, hst₂, hgoes⟩ := hsolving.solvingStep hs' hrange hfew
  have hsearch := EventLoop.solvingStep_search fails s
    (show st.search = EventLoop.search { st with pSquareGadgets := shown }
      from rfl)
  rw [hst, hst₂, Option.map_some, Option.map_some, Option.some.injEq] at hsearch
  obtain ⟨shown₂, SELECTED, it_IText, rfl⟩ := EventLoop.exists_of_search hsearch
  rcases hgoes with hended | ⟨b', h', hfew', hlist', hload⟩
  · exact Or.inl ⟨hended.pGridList, hended.verdict⟩
  · refine Or.inr ⟨hlist', b', ⟨⟨shown₂, ?_⟩, hfew'⟩, hload⟩
    exact ⟨h'.list, h'.searching, h'.bounded, h'.gridsLost, h'.never,
      h'.solutions, h'.few, h'.shows⟩

/-- What a verdict means does not depend on what else the gadgets hold. -/
theorem Verdict.congr {text : Option String} {entered : SquareGadgets}
    (h : Verdict s fails pSquareGadgets text)
    (hvalues : ∀ c : Coord s, (gadgetAt pSquareGadgets c).si_LongInt =
      (gadgetAt entered c).si_LongInt) :
    Verdict s fails entered text := by
  have hsolves : ∀ S : Coord s → Value s,
      Solves pSquareGadgets S ↔ Solves entered S := by
    intro S
    simp only [Solves, Extends, hvalues]
  cases h with
  | unique htext h => exact Verdict.unique htext (by simpa only [hsolves] using h)
  | none htext h => exact Verdict.none htext (by simpa only [hsolves] using h)
  | two htext h => exact Verdict.two htext (by simpa only [hsolves] using h)
  | failed htext h => exact Verdict.failed htext h

/-- A pick that leaves grids has changed nothing. -/
theorem menuPick_stays {picks : List MenuItem} (hlist : st.pGridList ≠ none)
    (hst : st.menuPick s picks = some (st', none))
    (hlist' : st'.pGridList ≠ none) : st' = st := by
  induction picks with
  | nil =>
      cases hst
      rfl
  | cons pick picks ih =>
      rcases EventLoop.menuPick_cons hst with ⟨next, -, hnext, hst⟩ | ⟨-, hst⟩
      · obtain ⟨-, hcases⟩ := EventLoop.resetPicked_cases hnext
        have hnone : next.pGridList = none := by
          cases hcases with
          | idle hnone => exact absurd hnone hlist
          | solving _ hnone => exact hnone
        exact absurd (Stashed.menuPick_idle hnone hst) hlist'
      · exact ih hst

/-- A solve begins with valid values. -/
theorem valuesAreValid_of_gadgetUp (hlist : st.pGridList = none)
    (hst : st.gadgetUp fails s = some st') (hlist' : st'.pGridList ≠ none) :
    valuesAreValid (s * s) st.pSquareGadgets = .ok () := by
  rcases hvalid : valuesAreValid (s * s) st.pSquareGadgets with text | _
  · rw [EventLoop.gadgetUp, hlist] at hst
    dsimp only at hst
    rw [EventLoop.startSolving, hvalid] at hst
    cases hst
    exact absurd hlist hlist'
  · rfl

/-! ## Runs -/

/-- The search is left as it is, and so are the values of gadgets that are
disabled. -/
structure Undisturbed (s : ℕ) (st st' : EventLoop) : Prop where
  pGridList : st'.pGridList = st.pGridList
  mem : st'.mem = st.mem
  counters : st'.counters = st.counters
  values : (∀ c : Coord s, (gadgetAt st.pSquareGadgets c).GADGDISABLED = true) →
    ∀ c : Coord s, gadgetAt st'.pSquareGadgets c = gadgetAt st.pSquareGadgets c

/-- How many rounds an action is. -/
def Action.rounds : Action → ℕ
  | .endRound => 1
  | _ => 0

/-- The gadgets after a click that begins to solve. -/
abbrev startedGadgets (s : ℕ) (pSquareGadgets : SquareGadgets) : SquareGadgets :=
  toggleSquareGadgetsEnabled (s * s)
    (stashCurrentValues (s * s) pSquareGadgets)

namespace Window

variable {n rounds : ℕ} {a : Action} {pressed w w' : Window}

/-- A window in which the solve goes on that a click has begun in the window
`pressed`, after a number of rounds. -/
inductive SolvingAfter (fails : ℕ → Bool) (s : ℕ) (pressed : Window) :
    ℕ → Window → Prop
  | started {w : Window} (hidle : pressed.loop.pGridList = none)
      (hstep : (system fails s).step .getMsg pressed = some w)
      (hlist : w.loop.pGridList ≠ none) : SolvingAfter fails s pressed 0 w
  | step {rounds : ℕ} {a : Action} {w w' : Window}
      (h : SolvingAfter fails s pressed rounds w)
      (hstep : (system fails s).step a w = some w')
      (hlist : w'.loop.pGridList ≠ none) :
      SolvingAfter fails s pressed (rounds + a.rounds) w'

theorem SolvingAfter.pGridList_ne (h : SolvingAfter fails s pressed rounds w) :
    w.loop.pGridList ≠ none := by
  cases h with
  | started _ _ hlist => exact hlist
  | step _ _ hlist => exact hlist

/-- The round of a solve. -/
theorem solvingStep_of_endRound (hlist : w.loop.pGridList ≠ none)
    (hact : act fails s .endRound w = some w') :
    w.loop.solvingStep fails s = some w'.loop ∧ w'.returned = w.returned := by
  rw [act] at hact
  split at hact
  · rw [endRound] at hact
    obtain ⟨p, hp⟩ := Option.ne_none_iff_exists'.mp hlist
    rw [hp] at hact
    obtain ⟨loop, hround, hact⟩ := Option.bind_eq_some_iff.mp hact
    cases hact
    exact ⟨hround, rfl⟩
  · cases hact

/-- A gadget that is disabled is not edited. -/
theorem editGadget_disabled {x y : ℕ} {si_Buffer : List Char}
    {si_LongInt : ℤ} {empty : si_Buffer = [] → si_LongInt = 0}
    (hdisabled : ∀ c : Coord s,
      (gadgetAt w.loop.pSquareGadgets c).GADGDISABLED = true)
    (h : w.editGadget s x y si_Buffer si_LongInt empty = some w')
    (c : Coord s) :
    gadgetAt w'.loop.pSquareGadgets c = gadgetAt w.loop.pSquareGadgets c := by
  rw [editGadget] at h
  dsimp only at h
  rw [Option.ite_none_left_eq_some, Option.some.injEq] at h
  obtain ⟨henabled, rfl⟩ := h
  rw [gadgetAt, gadgetAt, getSquareGadget, getSquareGadget]
  apply Function.update_of_ne
  intro hindex
  apply henabled
  rw [getSquareGadget, ← hindex]
  exact hdisabled c

/-- A message that leaves grids leaves the search. -/
theorem undisturbed_handleMessage {message : Message} {loop : EventLoop}
    (hlist : w.loop.pGridList ≠ none)
    (hhandle : w.loop.handleMessage fails s message = some (loop, none))
    (hlist' : loop.pGridList ≠ none) : Undisturbed s w.loop loop := by
  cases message with
  | CLOSEWINDOW => cases EventLoop.leave_snd hhandle
  | MENUPICK picks distinct =>
      rw [menuPick_stays hlist hhandle hlist']
      exact ⟨rfl, rfl, rfl, fun _ _ => rfl⟩
  | GADGETDOWN =>
      cases hhandle
      exact ⟨rfl, rfl, rfl, fun _ _ => rfl⟩
  | GADGETUP =>
      obtain ⟨next, hnext, heq⟩ := Option.map_eq_some_iff.mp hhandle
      cases heq
      obtain ⟨-, hcases⟩ := EventLoop.gadgetUp_cases hnext
      cases hcases with
      | invalid _ _ hnone => exact absurd hnone hlist'
      | failed _ _ _ hnone => exact absurd hnone hlist'
      | started hnone => exact absurd hnone hlist
      | cancelled _ hnone => exact absurd hnone hlist'

/-- An action that leaves grids is a round, or leaves the search. -/
theorem act_during (hlist : w.loop.pGridList ≠ none)
    (hact : act fails s a w = some w') (hopen : w'.returned = none)
    (hlist' : w'.loop.pGridList ≠ none) :
    a = .endRound ∧ w.loop.solvingStep fails s = some w'.loop ∨
      a ≠ .endRound ∧ Undisturbed s w.loop w'.loop := by
  cases a with
  | endRound => exact Or.inl ⟨rfl, (solvingStep_of_endRound hlist hact).1⟩
  | edit x y si_Buffer si_LongInt empty =>
      refine Or.inr ⟨Action.noConfusion, ?_⟩
      obtain ⟨shown, rfl, -⟩ := editGadget_spec hact
      exact ⟨rfl, rfl, rfl, editGadget_disabled (h := hact)⟩
  | getMsg =>
      refine Or.inr ⟨Action.noConfusion, ?_⟩
      rw [act] at hact
      split at hact
      · rw [getMsg] at hact
        rcases hmessages : w.messages with _ | ⟨message, messages⟩
        · rw [hmessages] at hact
          cases hact
          exact ⟨rfl, rfl, rfl, fun _ _ => rfl⟩
        · rw [hmessages] at hact
          obtain ⟨⟨loop, returned⟩, hhandle, hact⟩ :=
            Option.bind_eq_some_iff.mp hact
          cases hact
          subst hopen
          exact undisturbed_handleMessage hlist hhandle hlist'
      · cases hact
  | breakSignaled =>
      rw [act] at hact
      split at hact
      · obtain ⟨⟨loop, returned⟩, hleave, hact⟩ :=
          Option.bind_eq_some_iff.mp hact
        cases hact
        subst hopen
        cases EventLoop.leave_snd hleave
      · cases hact
  | beginRound =>
      rw [act] at hact
      split at hact
      · cases hact
        exact Or.inr ⟨Action.noConfusion, rfl, rfl, rfl, fun _ _ => rfl⟩
      · cases hact
  | _ =>
      cases hact
      exact Or.inr ⟨Action.noConfusion, rfl, rfl, rfl, fun _ _ => rfl⟩

/-- A solve begins with a click. -/
theorem gadgetUp_of_started (hidle : pressed.loop.pGridList = none)
    (hstep : (system fails s).step .getMsg pressed = some w)
    (hopen : w.returned = none) (hlist : w.loop.pGridList ≠ none) :
    pressed.loop.gadgetUp fails s = some w.loop := by
  obtain ⟨-, hact⟩ := act_of_step hstep
  cases act_cases hact with
  | clicked => exact absurd hidle hlist
  | posted message => exact absurd hidle hlist
  | edited shown => exact absurd hidle hlist
  | moved phase => exact absurd hidle hlist
  | left hleave => cases hopen
  | @handled message messages loop returned _ _ hhandle =>
      subst hopen
      cases message with
      | CLOSEWINDOW => cases EventLoop.leave_snd hhandle
      | MENUPICK picks distinct =>
          exact absurd (Stashed.menuPick_idle hidle hhandle) hlist
      | GADGETDOWN =>
          cases hhandle
          exact absurd hidle hlist
      | GADGETUP =>
          obtain ⟨next, hnext, heq⟩ := Option.map_eq_some_iff.mp hhandle
          cases heq
          exact hnext
  | round hsome => exact absurd hidle hsome

/-- A solve begins with the search of the values that are entered. -/
theorem solving_started (hs : 2 ≤ s) (hs' : s ≤ 5)
    (hpressed : Reached fails s n pressed)
    (hidle : pressed.loop.pGridList = none)
    (hstep : (system fails s).step .getMsg pressed = some w)
    (hopen : w.returned = none) (hlist : w.loop.pGridList ≠ none) :
    InRange s (startedGadgets s pressed.loop.pSquareGadgets) ∧
      Solving s fails (startedGadgets s pressed.loop.pSquareGadgets)
        ⟨[startMap s (startedGadgets s pressed.loop.pSquareGadgets)], [], 0⟩
        w.loop := by
  have hgadget := gadgetUp_of_started hidle hstep hopen hlist
  have hmem :=
    (hpressed.sound hs hs' (act_of_step hstep).1).eq_noGrids hidle
  have hvalid := valuesAreValid_of_gadgetUp hidle hgadget hlist
  obtain ⟨start, hstart, hcases⟩ :=
    EventLoop.gadgetUp_start hs hs' fails hidle hmem hvalid
  rw [hgadget] at hstart
  cases hstart
  rcases hcases with ⟨hnone, -⟩ | ⟨-, hsolving⟩
  · exact absurd hnone hlist
  · refine ⟨fun c => ?_, hsolving⟩
    rw [si_LongInt_disabled]
    exact inRange_of_valid hvalid c

/-- An action during a solve: the search goes on, and a round of it leaves less
work. -/
theorem underway_step (h : Underway s fails pSquareGadgets b w.loop)
    (hs' : s ≤ 5) (hrange : InRange s pSquareGadgets)
    (hlist : w.loop.pGridList ≠ none) (hact : act fails s a w = some w')
    (hopen : w'.returned = none) (hlist' : w'.loop.pGridList ≠ none) :
    ∃ b', Underway s fails pSquareGadgets b' w'.loop ∧
      a.rounds + Backlog.load b'.waiting ≤ Backlog.load b.waiting := by
  rcases act_during hlist hact hopen hlist' with ⟨rfl, hstep⟩ | ⟨hround, hsame⟩
  · rcases h.solvingStep hs' hrange hstep with ⟨hnone, -⟩ | ⟨-, b', h', hload⟩
    · exact absurd hnone hlist'
    · refine ⟨b', h', ?_⟩
      rw [Action.rounds, Nat.add_comm]
      exact hload
  · have hzero : a.rounds = 0 := by
      cases a with
      | endRound => exact absurd rfl hround
      | _ => rfl
    refine ⟨b, h.congr hsame.pGridList hsame.mem hsame.counters, ?_⟩
    rw [hzero, Nat.zero_add]

/-- No click of a solve fails to create a grid. -/
theorem SolvingAfter.reached (hpressed : Reached fails s n pressed)
    (h : SolvingAfter fails s pressed rounds w) : Reached fails s n w := by
  induction h with
  | @started w hidle hstep hlist =>
      apply hpressed.step _ hstep
      rintro ⟨-, hhead, hfails⟩
      obtain ⟨messages, hmessages⟩ := List.head?_eq_some_iff.mp hhead
      obtain ⟨-, hact⟩ := act_of_step hstep
      rw [act] at hact
      split at hact
      · rw [getMsg, hmessages] at hact
        obtain ⟨⟨loop, returned⟩, hhandle, hact⟩ :=
          Option.bind_eq_some_iff.mp hact
        cases hact
        obtain ⟨next, hnext, heq⟩ := Option.map_eq_some_iff.mp hhandle
        cases heq
        obtain ⟨-, hcases⟩ := EventLoop.gadgetUp_cases hnext
        cases hcases with
        | invalid _ _ hnone => exact hlist hnone
        | failed _ _ _ hnone => exact hlist hnone
        | started _ hcreate => exact hcreate hfails.2.2
        | cancelled hsome => exact hsome hidle
      · cases hact
  | step h hstep _ ih =>
      apply ih.step _ hstep
      rintro ⟨-, -, hfails⟩
      exact h.pGridList_ne hfails.1

/-- In every state of a solve the search is underway, and it has not taken more
rounds than there was work. -/
theorem SolvingAfter.underway (hs : 2 ≤ s) (hs' : s ≤ 5)
    (hpressed : Reached fails s n pressed)
    (h : SolvingAfter fails s pressed rounds w) (hopen : w.returned = none) :
    ∃ b, InRange s (startedGadgets s pressed.loop.pSquareGadgets) ∧
      Underway s fails (startedGadgets s pressed.loop.pSquareGadgets) b w.loop ∧
      rounds + Backlog.load b.waiting ≤ 3 ^ (s * s * (s * s) * (s * s)) := by
  induction h with
  | started hidle hstep hlist =>
      obtain ⟨hrange, hsolving⟩ :=
        solving_started hs hs' hpressed hidle hstep hopen hlist
      refine ⟨_, hrange, ⟨⟨_, hsolving⟩, Nat.zero_le 1⟩, ?_⟩
      rw [Nat.zero_add, Backlog.load, List.map_singleton, List.sum_singleton,
        weight]
      exact Nat.pow_le_pow_right (by decide) (size_le _)
  | @step rounds a w w' h hstep hlist ih =>
      obtain ⟨hreturned, hact⟩ := act_of_step hstep
      obtain ⟨b, hrange, hunderway, hwork⟩ := ih hreturned
      obtain ⟨b', hunderway', hload⟩ := underway_step hunderway hs' hrange
        h.pGridList_ne hact hopen hlist
      exact ⟨b', hrange, hunderway', by omega⟩

/-- The button is clicked in the window as it is opened, and the loop comes to
the click. -/
theorem exists_solvingAfter (hs : 2 ≤ s) (hs' : s ≤ 5)
    (hvalid : valuesAreValid (s * s) emptyWindow.pSquareGadgets = .ok ()) :
    ∃ pressed w, Reached (fun _ => false) s 0 pressed ∧
      pressed.loop.pSquareGadgets = emptyWindow.pSquareGadgets ∧
      SolvingAfter (fun _ => false) s pressed 0 w ∧ w.returned = none ∧
      w.messages = [] ∧ w.phase = .messages := by
  let opened := createWindow 0 ⟨0, 0, 0, 0⟩
  have hclicked : Reached (fun _ => false) s 0
      (opened.toggleSelected.post .GADGETUP) :=
    (Reached.createWindow 0 ⟨0, 0, 0, 0⟩).step (a := .clickButton)
      (fun hfails => Action.noConfusion hfails.1) rfl
  have hbegun : Reached (fun _ => false) s 0
      ⟨opened.toggleSelected.loop, [.GADGETUP], .messages, none⟩ :=
    hclicked.step (a := .beginRound)
      (fun hfails => Action.noConfusion hfails.1) rfl
  obtain ⟨start, hstart, ⟨-, hfalse⟩ | ⟨hlist, -⟩⟩ :=
    EventLoop.gadgetUp_start hs hs' (fun _ => false)
      (show opened.toggleSelected.loop.pGridList = none from rfl) rfl hvalid
  · cases hfalse
  · exact ⟨_, _, hbegun, rfl,
      SolvingAfter.started rfl (step_getMsg hstart []) hlist, rfl, rfl, rfl⟩

/-- When there is no message, the loop goes on with the round. -/
theorem SolvingAfter.solver (h : SolvingAfter fails s pressed rounds w)
    (hopen : w.returned = none) (hmessages : w.messages = [])
    (hphase : w.phase = .messages) :
    SolvingAfter fails s pressed rounds { w with phase := .solver } := by
  have hget : (system fails s).step .getMsg w =
      some { w with phase := .solver } := by
    rw [step_eq_act hopen, act, hphase]
    dsimp only
    rw [getMsg, hmessages]
  exact h.step hget h.pGridList_ne

/-- When there is no message, a round that leaves grids leads to the next one. -/
theorem SolvingAfter.round {loop : EventLoop}
    (h : SolvingAfter fails s pressed rounds w) (hopen : w.returned = none)
    (hmessages : w.messages = []) (hphase : w.phase = .messages)
    (hround : w.loop.solvingStep fails s = some loop)
    (hlist : loop.pGridList ≠ none) :
    SolvingAfter fails s pressed (rounds + 1)
      { w with loop := loop, phase := .messages } := by
  have hend : (system fails s).step .endRound { w with phase := .solver } =
      some { w with loop := loop, phase := .outer } := by
    obtain ⟨p, hp⟩ := Option.ne_none_iff_exists'.mp h.pGridList_ne
    rw [step_eq_act (w := { w with phase := .solver }) hopen, act]
    dsimp only
    rw [endRound, hp]
    dsimp only
    rw [hround]
    rfl
  have hbegin : (system fails s).step .beginRound
      { w with loop := loop, phase := .outer } =
        some { w with loop := loop, phase := .messages } := by
    rw [step_eq_act (w := { w with loop := loop, phase := .outer }) hopen]
    rfl
  exact ((h.solver hopen hmessages hphase).step hend hlist).step hbegin hlist

/-- Whatever the user does during a solve, it has a bounded number of rounds,
and a round that ends it sets a verdict that is right about the values from
before the click. -/
theorem verdict_in_window (hs : 2 ≤ s) (hs' : s ≤ 5)
    (hpressed : Reached fails s n pressed)
    (h : SolvingAfter fails s pressed rounds w)
    (hstep : (system fails s).step .endRound w = some w') :
    rounds < 3 ^ (s * s * (s * s) * (s * s)) ∧ w'.returned = none ∧
      (w'.loop.pGridList = none →
        Verdict s fails pressed.loop.pSquareGadgets w'.loop.text) := by
  obtain ⟨hreturned, hact⟩ := act_of_step hstep
  obtain ⟨b, hrange, hunderway, hwork⟩ := h.underway hs hs' hpressed hreturned
  obtain ⟨hround, hreturned'⟩ := solvingStep_of_endRound h.pGridList_ne hact
  have hpos := hunderway.load_pos h.pGridList_ne
  refine ⟨by omega, hreturned'.trans hreturned, fun hnone => ?_⟩
  rcases hunderway.solvingStep hs' hrange hround with ⟨-, hverdict⟩ | ⟨hlist, -⟩
  · exact hverdict.congr fun c => si_LongInt_disabled _ c
  · exact absurd hnone hlist

/-- The first round after the click, when there is no other message. -/
theorem verdict_in_window_first :
    ∃ pressed w w', SolvingAfter (fun _ => false) 3 pressed 0 w ∧
      (system (fun _ => false) 3).step .endRound w = some w' ∧
      0 < 3 ^ (3 * 3 * (3 * 3) * (3 * 3)) ∧ w'.returned = none ∧
      (w'.loop.pGridList = none →
        Verdict 3 (fun _ => false) pressed.loop.pSquareGadgets
          w'.loop.text) := by
  obtain ⟨pressed, w, hpressed, -, h, hopen, hmessages, hphase⟩ :=
    exists_solvingAfter (s := 3) (by decide) (by decide) (by decide)
  have h' := h.solver hopen hmessages hphase
  obtain ⟨w', hstep⟩ := (h'.reached hpressed).exists_step (by decide)
    (by decide) (a := .endRound) hopen (List.mem_singleton_self _)
  exact ⟨pressed, _, w', h', hstep,
    verdict_in_window (by decide) (by decide) hpressed h' hstep⟩

/-! ## What is shown -/

/-- As long as an even number of clicks has failed to create a grid, the gadgets
are disabled during a solve. -/
theorem SolvingAfter.disabled (hpressed : Reached fails s n pressed)
    (heven : Even n) (h : SolvingAfter fails s pressed rounds w)
    (hopen : w.returned = none) (c : Coord s) :
    (gadgetAt w.loop.pSquareGadgets c).GADGDISABLED = true := by
  have hbodd : n.bodd = false := by
    rw [Nat.even_iff, Nat.mod_two_of_bodd] at heven
    cases hn : n.bodd with
    | false => rfl
    | true =>
        rw [hn] at heven
        cases heven
  rw [((h.reached hpressed).flags hopen).disabled c, hbodd,
    Option.isSome_iff_ne_none.mpr h.pGridList_ne]
  rfl

/-- The gadgets of a solve show what the search has found. -/
theorem SolvingAfter.solving (hs : 2 ≤ s) (hs' : s ≤ 5)
    (hpressed : Reached fails s n pressed) (heven : Even n)
    (h : SolvingAfter fails s pressed rounds w) (hopen : w.returned = none) :
    InRange s (startedGadgets s pressed.loop.pSquareGadgets) ∧
      ∃ b, Solving s fails (startedGadgets s pressed.loop.pSquareGadgets) b
        w.loop ∧ b.displayed.length ≤ 1 := by
  induction h with
  | started hidle hstep hlist =>
      obtain ⟨hrange, hsolving⟩ :=
        solving_started hs hs' hpressed hidle hstep hopen hlist
      exact ⟨hrange, _, hsolving, Nat.zero_le 1⟩
  | @step rounds a w w' h hstep hlist ih =>
      obtain ⟨hreturned, hact⟩ := act_of_step hstep
      obtain ⟨hrange, b, hsolving, hfew⟩ := ih hreturned
      refine ⟨hrange, ?_⟩
      rcases act_during h.pGridList_ne hact hopen hlist with
        ⟨-, hround⟩ | ⟨-, hsame⟩
      · obtain ⟨next, hnext, hgoes⟩ := hsolving.solvingStep hs' hrange hfew
        rw [hround] at hnext
        cases hnext
        rcases hgoes with hended | ⟨b', h', hfew', -⟩
        · exact absurd hended.pGridList hlist
        · exact ⟨b', h', hfew'⟩
      · refine ⟨b, ⟨?_, hsolving.searching, hsolving.bounded, ?_,
          hsolving.never, ?_, hsolving.few, fun S rest hS c => ?_⟩, hfew⟩
        · rw [hsame.pGridList, hsame.mem]
          exact hsolving.list
        · rw [hsame.counters]
          exact hsolving.gridsLost
        · rw [hsame.counters]
          exact hsolving.solutions
        · rw [hsame.values (h.disabled hpressed heven hreturned) c]
          exact hsolving.shows S rest hS c

/-! ## A solve with several solutions -/

/-- A round that finds the first solution does not find another one. -/
theorem text_of_solvingStep {st st' : EventLoop}
    (hfirst : ∀ next, st.mem.advanceSolving fails st.pGridList st.counters =
      some next → next.2.2.c_Solutions = 0)
    (h : st.solvingStep fails s = some st') (hnone : st'.pGridList = none) :
    st'.text ≠ some "Solution is not unique" := by
  have hcleanup : ∀ {before after : EventLoop},
      before.cleanupAfterSolver (s * s) = some after →
      after.text = before.text := by
    intro before after hafter
    obtain ⟨mem, -, hafter⟩ := Option.bind_eq_some_iff.mp hafter
    cases hafter
    rfl
  rw [EventLoop.solvingStep] at h
  obtain ⟨⟨front, mem, counters⟩, hadvance, h⟩ := Option.bind_eq_some_iff.mp h
  have hzero : counters.c_Solutions = 0 := hfirst _ hadvance
  rcases front with _ | p
  · -- No grid is left, and none has been shown.
    have hone : ¬counters.c_Solutions = 1 := by
      rw [hzero]
      decide
    dsimp only at h
    rw [EventLoop.noMoreSolutions] at h
    dsimp only at h
    rw [if_neg hone] at h
    rw [hcleanup h]
    split <;> simp [EventLoop.setText]
  obtain ⟨grid, -, h⟩ := Option.bind_eq_some_iff.mp h
  by_cases hcomplete : isComplete grid.block = true
  · rw [if_pos hcomplete, EventLoop.solutionFound] at h
    obtain ⟨⟨rest, mem'⟩, -, h⟩ := Option.bind_eq_some_iff.mp h
    have hmany : ¬counters.c_Solutions + 1 > 1 := by
      rw [hzero]
      decide
    dsimp only at h
    rw [EventLoop.solutionCounted] at h
    dsimp only at h
    rw [if_neg hmany] at h
    rcases rest with _ | q
    · rw [Option.isSome_none, if_neg Bool.false_ne_true] at h
      split at h
      · rw [hcleanup h]
        simp [EventLoop.setText]
      · rw [hcleanup h]
        simp [EventLoop.setText]
    · rw [Option.isSome_some, if_pos rfl] at h
      cases h
      cases hnone
  · rw [if_neg hcomplete, if_pos hzero] at h
    cases h
    cases hnone

theorem solves_emptyWindow {S : Coord 2 → Value 2}
    (hS : ∀ c d, Peer c d → S c ≠ S d) :
    Solves emptyWindow.pSquareGadgets S :=
  ⟨isCompletion_of_distinct (card_values 2) (fun c => Finset.mem_univ (S c)) hS,
    fun _ hc => absurd rfl hc⟩

/-- The empty board has two completions at least. -/
theorem verdict_emptyWindow {text : Option String}
    (h : Verdict 2 (fun _ => false) emptyWindow.pSquareGadgets text) :
    text = some "Solution is not unique" := by
  have hfirst : Solves emptyWindow.pSquareGadgets smallCompletion :=
    solves_emptyWindow (by decide +kernel)
  have hsecond : Solves emptyWindow.pSquareGadgets
      fun c => smallCompletion c.swap :=
    solves_emptyWindow (by decide +kernel)
  cases h with
  | unique _ hunique =>
      have hsame := hunique.unique hfirst hsecond
      exact absurd (congrFun hsame (1, 0)) (by decide)
  | none _ hnone => exact absurd hfirst (hnone _)
  | two htext _ => exact htext
  | failed _ hfails =>
      obtain ⟨i, hi⟩ := hfails
      cases hi

/-- In a solve of the empty board for which there is memory, the first solution
is counted while there are grids left. -/
theorem exists_solutionCounted :
    ∃ pressed rounds w, Reached (fun _ => false) 2 0 pressed ∧
      SolvingAfter (fun _ => false) 2 pressed rounds w ∧ w.returned = none ∧
      w.loop.counters.c_Solutions ≠ 0 := by
  obtain ⟨pressed, w₀, hpressed, hempty, h₀, hopen₀, hmessages₀, hphase₀⟩ :=
    exists_solvingAfter (s := 2) le_rfl (by decide) (by decide)
  by_contra hnever
  have hzero : ∀ {rounds w},
      SolvingAfter (fun _ => false) 2 pressed rounds w →
      w.returned = none → w.loop.counters.c_Solutions = 0 := by
    intro rounds w h hopen
    by_contra hsolutions
    exact hnever ⟨pressed, rounds, w, hpressed, h, hopen, hsolutions⟩
  -- No round can be the last one, so that there are more than there can be.
  have hrounds : ∀ rounds, ∃ w,
      SolvingAfter (fun _ => false) 2 pressed rounds w ∧
      w.returned = none ∧ w.messages = [] ∧ w.phase = .messages := by
    intro rounds
    induction rounds with
    | zero => exact ⟨w₀, h₀, hopen₀, hmessages₀, hphase₀⟩
    | succ rounds ih =>
        obtain ⟨w, h, hopen, hmessages, hphase⟩ := ih
        have h' := h.solver hopen hmessages hphase
        obtain ⟨w', hstep⟩ := (h'.reached hpressed).exists_step le_rfl
          (by decide) (a := .endRound) hopen (List.mem_singleton_self _)
        obtain ⟨hround, -⟩ :=
          solvingStep_of_endRound h'.pGridList_ne (act_of_step hstep).2
        refine ⟨_, h.round hopen hmessages hphase hround ?_, hopen, hmessages,
          rfl⟩
        intro hnone
        have hverdict :=
          (verdict_in_window le_rfl (by decide) hpressed h' hstep).2.2 hnone
        rw [hempty] at hverdict
        refine text_of_solvingStep (fun next hnext => ?_) hround hnone
          (verdict_emptyWindow hverdict)
        obtain ⟨b, -, ⟨⟨shown, hsolving⟩, -⟩, -⟩ :=
          h.underway le_rfl (by decide) hpressed hopen
        obtain ⟨l, hlist, hrep⟩ := hsolving.list
        obtain ⟨l', b', mem, counters, hadvance, -, hadvanced, -⟩ :=
          hrep.advanceSolving (fun _ => false) w.loop.counters
        rw [show w.loop.pGridList = l.head? from hlist, hadvance] at hnext
        cases hnext
        exact hadvanced.solutions.trans (hzero h hopen)
  obtain ⟨w, h, hopen, hmessages, hphase⟩ :=
    hrounds (3 ^ (2 * 2 * (2 * 2) * (2 * 2)))
  have h' := h.solver hopen hmessages hphase
  obtain ⟨w', hstep⟩ := (h'.reached hpressed).exists_step le_rfl
    (by decide) (a := .endRound) hopen (List.mem_singleton_self _)
  obtain ⟨hlt, -⟩ := verdict_in_window le_rfl (by decide) hpressed h' hstep
  exact lt_irrefl _ hlt

/-- From the first solution on, until the solve ends, the gadgets show a
completion of the values from before the click, as long as an even number of
clicks has failed to create a grid. -/
theorem solution_shown (hs : 2 ≤ s) (hs' : s ≤ 5)
    (hpressed : Reached fails s n pressed) (heven : Even n)
    (h : SolvingAfter fails s pressed rounds w) (hopen : w.returned = none) :
    (w.loop.counters.c_Solutions ≠ 0 →
      ∃ S : Coord s → Value s, Solves pressed.loop.pSquareGadgets S ∧
        Shows w.loop.pSquareGadgets S) ∧
      ∀ w', (system fails s).step .endRound w = some w' →
        w'.loop.counters.c_Solutions ≠ 0 →
        ∃ S : Coord s → Value s, Solves pressed.loop.pSquareGadgets S ∧
          Shows w'.loop.pSquareGadgets S := by
  have hsolves : ∀ S : Coord s → Value s,
      Solves (startedGadgets s pressed.loop.pSquareGadgets) S ↔
        Solves pressed.loop.pSquareGadgets S := by
    intro S
    simp only [Solves, Extends, si_LongInt_disabled]
  simp only [← hsolves]
  obtain ⟨hrange, b, hsolving, hfew⟩ := h.solving hs hs' hpressed heven hopen
  refine ⟨hsolving.exists_shown hrange, fun w' hstep hsolutions => ?_⟩
  obtain ⟨hround, -⟩ :=
    solvingStep_of_endRound h.pGridList_ne (act_of_step hstep).2
  obtain ⟨next, hnext, hgoes⟩ := hsolving.solvingStep hs' hrange hfew
  rw [hround] at hnext
  cases hnext
  rcases hgoes with hended | ⟨b', h', -⟩
  · exact hended.shows hsolutions
  · exact h'.exists_shown hrange hsolutions

/-- The empty board is solved until the first solution has been counted. -/
theorem solution_shown_first :
    ∃ pressed rounds w, SolvingAfter (fun _ => false) 2 pressed rounds w ∧
      w.loop.counters.c_Solutions ≠ 0 ∧
      ∃ S : Coord 2 → Value 2, Solves pressed.loop.pSquareGadgets S ∧
        Shows w.loop.pSquareGadgets S := by
  obtain ⟨pressed, rounds, w, hpressed, h, hopen, hsolutions⟩ :=
    exists_solutionCounted
  exact ⟨pressed, rounds, w, h, hsolutions,
    (solution_shown (by decide) (by decide) hpressed Even.zero h hopen).1
      hsolutions⟩

end Window

end SudokuSolver.Draco
