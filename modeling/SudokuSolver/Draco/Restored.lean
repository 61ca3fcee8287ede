import SudokuSolver.Draco.Sound

/-!
# The puzzle that is given back in Draco

While the solver runs, what it finds is written over the values that the user
has entered, and the only copy is what is stashed.  Whichever way a solve ends
that has found no solution, the values are restored from it, once.
-/

namespace SudokuSolver.Draco

variable {s : ℕ} {before : SquareGadgets} {st st' : EventLoop}

/-- The values are stashed, and at most one solution has been counted. -/
structure Stashed (s : ℕ) (before : SquareGadgets) (st : EventLoop) : Prop where
  sg_PreviousValue : ∀ c : Coord s,
    (gadgetAt st.pSquareGadgets c).sg_PreviousValue =
      (gadgetAt before c).si_LongInt
  few : st.counters.c_Solutions = 0 ∨ st.counters.c_Solutions = 1

/-- The gadgets have the values from before. -/
def Restored (s : ℕ) (before after : SquareGadgets) : Prop :=
  ∀ c : Coord s, (gadgetAt after c).si_LongInt = (gadgetAt before c).si_LongInt

/-- A step of a solve leaves the values stashed, or gives them back unless a
solution was found. -/
inductive GivesBack (s : ℕ) (before : SquareGadgets) (st' : EventLoop) : Prop
  | solving (hlist : st'.pGridList ≠ none) (h : Stashed s before st')
  | ended (hlist : st'.pGridList = none)
      (h : st'.counters.c_Solutions = 0 →
        Restored s before st'.pSquareGadgets)

namespace Stashed

/-- What was stashed is what is restored. -/
theorem restored (h : Stashed s before st) :
    Restored s before (toggleSquareGadgetsEnabled (s * s)
      (restorePreviousValues (s * s) st.pSquareGadgets)) := by
  intro c
  rw [si_LongInt_toggleSquareGadgetsEnabled, si_LongInt_restorePreviousValues,
    h.sg_PreviousValue]

/-- A click that begins to solve stashes the values. -/
theorem of_gadgetUp {fails : ℕ → Bool} (hlist : st.pGridList = none)
    (hst : st.gadgetUp fails s = some st') (hlist' : st'.pGridList ≠ none) :
    Stashed s st.pSquareGadgets st' := by
  obtain ⟨-, hcases⟩ := EventLoop.gadgetUp_cases hst
  cases hcases with
  | invalid _ _ hnone => exact absurd hnone hlist'
  | failed _ _ _ hnone => exact absurd hnone hlist'
  | started _ _ _ _ hgadgets hsolutions =>
      refine ⟨fun c => ?_, Or.inl hsolutions⟩
      rw [hgadgets, sg_PreviousValue_toggleSquareGadgetsEnabled,
        sg_PreviousValue_stashCurrentValues]
  | cancelled hsome => exact absurd hlist hsome

/-- A click while the solver runs. -/
theorem gadgetUp {fails : ℕ → Bool} (h : Stashed s before st)
    (hlist : st.pGridList ≠ none) (hst : st.gadgetUp fails s = some st') :
    GivesBack s before st' := by
  obtain ⟨-, hcases⟩ := EventLoop.gadgetUp_cases hst
  cases hcases with
  | invalid hnone => exact absurd hnone hlist
  | failed hnone => exact absurd hnone hlist
  | started hnone => exact absurd hnone hlist
  | cancelled _ hlist' _ hgadgets hcounters =>
      refine GivesBack.ended hlist' fun hsolutions => ?_
      rw [hcounters] at hsolutions
      rw [hgadgets, if_pos hsolutions]
      exact h.restored

theorem resetPicked (h : Stashed s before st) (hlist : st.pGridList ≠ none)
    (hst : st.resetPicked s = some st') :
    st'.pGridList = none ∧ Restored s before st'.pSquareGadgets := by
  obtain ⟨-, hcases⟩ := EventLoop.resetPicked_cases hst
  cases hcases with
  | idle hnone => exact absurd hnone hlist
  | solving _ hlist' _ _ hgadgets =>
      rw [hgadgets]
      exact ⟨hlist', h.restored⟩

/-- Without the reset item a pick changes nothing. -/
theorem menuPick_eq {picks : List MenuItem} (hpicks : .resetMenuItem ∉ picks)
    (hst : st.menuPick s picks = some (st', none)) : st' = st := by
  induction picks with
  | nil =>
      cases hst
      rfl
  | cons pick picks ih =>
      rw [List.mem_cons, not_or] at hpicks
      rcases EventLoop.menuPick_cons hst with ⟨next, rfl, -, -⟩ | ⟨-, hst⟩
      · exact absurd rfl hpicks.1
      · exact ih hpicks.2 hst

/-- A pick begins no solve. -/
theorem menuPick_idle {picks : List MenuItem} (hlist : st.pGridList = none)
    (hst : st.menuPick s picks = some (st', none)) : st'.pGridList = none := by
  induction picks generalizing st with
  | nil =>
      cases hst
      exact hlist
  | cons pick picks ih =>
      rcases EventLoop.menuPick_cons hst with ⟨next, -, hnext, hst⟩ | ⟨-, hst⟩
      · obtain ⟨-, hcases⟩ := EventLoop.resetPicked_cases hnext
        cases hcases with
        | idle _ hlist' => exact ih hlist' hst
        | solving _ hlist' => exact ih hlist' hst
      · exact ih hlist hst

/-- A pick restores the values at most once, as no item is picked twice. -/
theorem menuPick {picks : List MenuItem} (h : Stashed s before st)
    (hlist : st.pGridList ≠ none) (distinct : picks.Nodup)
    (hst : st.menuPick s picks = some (st', none)) :
    GivesBack s before st' := by
  induction picks with
  | nil =>
      cases hst
      exact GivesBack.solving hlist h
  | cons pick picks ih =>
      obtain ⟨hpick, hpicks⟩ := List.nodup_cons.mp distinct
      rcases EventLoop.menuPick_cons hst with
        ⟨next, rfl, hnext, hst⟩ | ⟨-, hst⟩
      · obtain rfl := menuPick_eq hpick hst
        obtain ⟨hlist', hrestored⟩ := h.resetPicked hlist hnext
        exact GivesBack.ended hlist' fun _ => hrestored
      · exact ih hpicks hst

theorem handleMessage {fails : ℕ → Bool} {message : Message}
    (h : Stashed s before st) (hlist : st.pGridList ≠ none)
    (hst : st.handleMessage fails s message = some (st', none)) :
    GivesBack s before st' := by
  cases message with
  | CLOSEWINDOW => cases EventLoop.leave_snd hst
  | MENUPICK picks distinct => exact h.menuPick hlist distinct hst
  | GADGETDOWN =>
      cases hst
      exact GivesBack.solving hlist ⟨h.sg_PreviousValue, h.few⟩
  | GADGETUP =>
      obtain ⟨next, hnext, heq⟩ := Option.map_eq_some_iff.mp hst
      cases heq
      exact h.gadgetUp hlist hnext

/-- A round shows what has been found.  The counter of solutions is zero at the
end only if none has been counted. -/
theorem solvingStep {fails : ℕ → Bool} (h : Stashed s before st)
    (hsound : st.Sound s) (hst : st.solvingStep fails s = some st') :
    GivesBack s before st' := by
  obtain ⟨pGridList, mem, counters, hadvance, hround⟩ :=
    EventLoop.solvingStep_cases hst
  have hcounters : counters.c_Solutions = st.counters.c_Solutions := by
    obtain ⟨_, _, _, _, hadvance', hsolutions, -, -⟩ := hsound.solvingStep fails
    rw [hadvance] at hadvance'
    cases hadvance'
    exact hsolutions
  have hfew := h.few
  rw [← hcounters] at hfew
  cases hround with
  | stays hlist' _ _ hgadgets hcounters' =>
      refine GivesBack.solving hlist' ⟨fun c => ?_, ?_⟩
      · rw [hgadgets.sg_PreviousValue, h.sg_PreviousValue]
      · rw [hcounters']
        exact hfew
  | counted hlist' _ _ hgadgets hsolutions hfirst =>
      refine GivesBack.solving hlist' ⟨fun c => ?_, ?_⟩
      · rw [hgadgets.sg_PreviousValue, h.sg_PreviousValue]
      · rw [hsolutions]
        rcases hfew with hzero | hone
        · rw [hzero]
          exact Or.inr rfl
        · rw [hone] at hfirst
          exact absurd (by decide) hfirst
  | exhausted hlist' _ _ hgadgets hcounters' =>
      refine GivesBack.ended hlist' fun hnone => ?_
      have hone : counters.c_Solutions ≠ 1 := by
        rw [← hcounters', hnone]
        decide
      rw [hgadgets, if_neg hone]
      exact h.restored
  | found pSquareGadgets _ hlist' _ _ _ hsolutions =>
      refine GivesBack.ended hlist' fun hnone => ?_
      rw [hsolutions] at hnone
      rcases hfew with hzero | hone
      · rw [hzero] at hnone
        exact absurd hnone (by decide)
      · rw [hone] at hnone
        exact absurd hnone (by decide)

end Stashed

/-! ## Runs -/

namespace Window

/-- A window in which the solve goes on that a click has begun in the window
`pressed`. -/
inductive SolvingFrom (fails : ℕ → Bool) (s : ℕ) (pressed : Window) :
    Window → Prop
  | started {w : Window} (hidle : pressed.loop.pGridList = none)
      (hstep : (system fails s).step .getMsg pressed = some w)
      (hlist : w.loop.pGridList ≠ none) : SolvingFrom fails s pressed w
  | step {a : Action} {w w' : Window} (h : SolvingFrom fails s pressed w)
      (hstep : (system fails s).step a w = some w')
      (hlist : w'.loop.pGridList ≠ none) : SolvingFrom fails s pressed w'

variable {n : ℕ} {fails : ℕ → Bool} {a : Action} {pressed w w' : Window}

/-- What the user does, and what the loop does, while the solver runs. -/
theorem givesBack_act (h : Stashed s before w.loop)
    (hlist : w.loop.pGridList ≠ none) (hsound : w.loop.Sound s)
    (hact : act fails s a w = some w') (hopen : w'.returned = none) :
    GivesBack s before w'.loop := by
  cases act_cases hact with
  | clicked => exact GivesBack.solving hlist ⟨h.sg_PreviousValue, h.few⟩
  | posted message => exact GivesBack.solving hlist h
  | edited pSquareGadgets hkept =>
      exact GivesBack.solving hlist ⟨fun c =>
        (hkept.sg_PreviousValue c).trans (h.sg_PreviousValue c), h.few⟩
  | moved phase => exact GivesBack.solving hlist h
  | left hleave => cases hopen
  | handled _ _ hhandle =>
      subst hopen
      exact h.handleMessage hlist hhandle
  | round _ hround => exact h.solvingStep hsound hround

/-- A step of a run is a step of a run, whether a click fails or not. -/
theorem Reached.next (h : Reached fails s n w)
    (hstep : (system fails s).step a w = some w') :
    ∃ m, Reached fails s m w' := by
  by_cases hfails : FailsToCreate fails s a w
  · exact ⟨n + 1, h.failed hfails hstep⟩
  · exact ⟨n, h.step hfails hstep⟩

/-- What a schedule leads to is reached. -/
theorem Reached.run (h : Reached fails s n w) {schedule : List Action}
    (hrun : (system fails s).run schedule w = some w') :
    ∃ m, Reached fails s m w' := by
  induction schedule generalizing n w with
  | nil =>
      cases hrun
      exact ⟨n, h⟩
  | cons a schedule ih =>
      obtain ⟨next, hstep, hrun⟩ :=
        (Transition.System.run_cons_eq_some_iff _).mp hrun
      obtain ⟨m, hm⟩ := h.next hstep
      exact ih hm hrun

theorem SolvingFrom.reached (h : SolvingFrom fails s pressed w)
    (hpressed : Reached fails s n pressed) : ∃ m, Reached fails s m w := by
  induction h with
  | started _ hstep => exact hpressed.next hstep
  | step _ hstep _ ih =>
      obtain ⟨m, hm⟩ := ih
      exact hm.next hstep

theorem SolvingFrom.pGridList_ne (h : SolvingFrom fails s pressed w) :
    w.loop.pGridList ≠ none := by
  cases h with
  | started _ _ hlist => exact hlist
  | step _ _ hlist => exact hlist

/-- A solve begins with a click, and so with stashed values. -/
theorem stashed_started (hidle : pressed.loop.pGridList = none)
    (hact : act fails s .getMsg pressed = some w)
    (hopen : w.returned = none) (hlist : w.loop.pGridList ≠ none) :
    Stashed s pressed.loop.pSquareGadgets w.loop := by
  cases act_cases hact with
  | clicked => exact absurd hidle hlist
  | posted message => exact absurd hidle hlist
  | edited pSquareGadgets => exact absurd hidle hlist
  | moved phase => exact absurd hidle hlist
  | left hleave => cases hopen
  | @handled message messages loop returned _ _ hhandle =>
      subst hopen
      cases message with
      | CLOSEWINDOW => cases EventLoop.leave_snd hhandle
      | MENUPICK picks distinct =>
          exact absurd (Stashed.menuPick_idle hidle hhandle) hlist
      | GADGETDOWN =>
          cases hhandle
          exact absurd hidle hlist
      | GADGETUP =>
          obtain ⟨next, hnext, heq⟩ := Option.map_eq_some_iff.mp hhandle
          cases heq
          exact Stashed.of_gadgetUp hidle hnext hlist
  | round hsome => exact absurd hidle hsome

/-- In every state of a solve the values are stashed. -/
theorem SolvingFrom.stashed (hs : 2 ≤ s) (hs' : s ≤ 5)
    (hpressed : Reached fails s n pressed) (h : SolvingFrom fails s pressed w)
    (hopen : w.returned = none) :
    Stashed s pressed.loop.pSquareGadgets w.loop := by
  induction h with
  | started hidle hstep hlist =>
      exact stashed_started hidle (act_of_step hstep).2 hopen hlist
  | step h hstep hlist ih =>
      obtain ⟨hreturned, hact⟩ := act_of_step hstep
      obtain ⟨m, hm⟩ := h.reached hpressed
      rcases givesBack_act (ih hreturned) h.pGridList_ne
        (hm.sound hs hs' hreturned) hact hopen with ⟨-, hstashed⟩ | ⟨hnone, -⟩
      · exact hstashed
      · exact absurd hnone hlist

/-- When a solve that a click has begun ends, and the window stays open, every
gadget has the value from before the click unless a solution was found. -/
theorem values_given_back (hs : 2 ≤ s) (hs' : s ≤ 5)
    (hpressed : Reached fails s n pressed) (h : SolvingFrom fails s pressed w)
    (hstep : (system fails s).step a w = some w') (hopen : w'.returned = none)
    (hended : w'.loop.pGridList = none)
    (hnone : w'.loop.counters.c_Solutions = 0) (c : Coord s) :
    (gadgetAt w'.loop.pSquareGadgets c).si_LongInt =
      (gadgetAt pressed.loop.pSquareGadgets c).si_LongInt := by
  obtain ⟨hreturned, hact⟩ := act_of_step hstep
  obtain ⟨m, hm⟩ := h.reached hpressed
  have hstashed := h.stashed hs hs' hpressed hreturned
  rcases givesBack_act hstashed h.pGridList_ne (hm.sound hs hs' hreturned) hact
    hopen with ⟨hlist, -⟩ | ⟨-, hrestored⟩
  · exact absurd hended hlist
  · exact hrestored hnone c

/-- A five is entered at the top left, and the button is clicked twice. -/
theorem values_given_back_cancel :
    ∃ pressed w : Window,
      (system (fun _ => false) 3).run
        [.edit 0 0 ['5'] 5 (by decide), .clickButton, .beginRound]
        (createWindow 0 ⟨0, 0, 0, 0⟩) = some pressed ∧
      (system (fun _ => false) 3).run [.getMsg, .clickButton, .getMsg] pressed =
        some w ∧
      w.loop.pGridList = none ∧
      ∀ c : Coord 3, (gadgetAt w.loop.pSquareGadgets c).si_LongInt =
        (gadgetAt pressed.loop.pSquareGadgets c).si_LongInt := by
  obtain ⟨loop, hrun, hidle, hvalid, hmem⟩ :
      ∃ loop : EventLoop, (system (fun _ => false) 3).run
          [.edit 0 0 ['5'] 5 (by decide), .clickButton, .beginRound]
          (createWindow 0 ⟨0, 0, 0, 0⟩) =
            some ⟨loop, [.GADGETUP], .messages, none⟩ ∧
        loop.pGridList = none ∧
        valuesAreValid (3 * 3) loop.pSquareGadgets = .ok () ∧
        loop.mem = Memory.noGrids 0 := ⟨_, rfl, rfl, rfl, rfl⟩
  obtain ⟨m, hm⟩ := (Reached.createWindow 0 ⟨0, 0, 0, 0⟩).run hrun
  obtain ⟨start, hstart, ⟨-, hfalse⟩ | ⟨hlist, -⟩⟩ :=
    EventLoop.gadgetUp_start (s := 3) (by decide) (by decide) (fun _ => false)
      hidle hmem hvalid
  · cases hfalse
  have hget := step_getMsg hstart []
  have hstarted := SolvingFrom.started hidle hget hlist
  generalize hclicked : ({ start with SELECTED := !start.SELECTED } : EventLoop)
    = clicked
  have hclick : (system (fun _ => false) 3).step .clickButton
      ⟨start, [], .messages, none⟩ =
        some ⟨clicked, [.GADGETUP], .messages, none⟩ := by
    rw [step_eq_act rfl, ← hclicked]
    rfl
  have hlist' : clicked.pGridList ≠ none := hclicked ▸ hlist
  have hsolving := hstarted.step hclick hlist'
  obtain ⟨m', hm'⟩ := hsolving.reached hm
  obtain ⟨last, hlast, -⟩ := (hm'.sound (by decide) (by decide) rfl).gadgetUp
    (by decide) (by decide) fun _ => false
  have hget' := step_getMsg hlast []
  have hnone : start.counters.c_Solutions = 0 := by
    obtain ⟨-, hcases⟩ := EventLoop.gadgetUp_cases hstart
    cases hcases with
    | invalid _ _ hnone => exact absurd hnone hlist
    | failed _ _ _ hnone => exact absurd hnone hlist
    | started _ _ _ _ _ hsolutions => exact hsolutions
    | cancelled hsome => exact absurd hidle hsome
  obtain ⟨hended, hcounters⟩ : last.pGridList = none ∧
      last.counters = start.counters := by
    obtain ⟨-, hcases⟩ := EventLoop.gadgetUp_cases hlast
    cases hcases with
    | invalid hnone => exact absurd hnone hlist'
    | failed hnone => exact absurd hnone hlist'
    | started hnone => exact absurd hnone hlist'
    | cancelled _ hended _ _ hcounters =>
        exact ⟨hended, hcounters.trans (hclicked ▸ rfl)⟩
  refine ⟨_, _, hrun, ?_, hended, values_given_back (by decide) (by decide) hm
    hsolving hget' rfl hended (hcounters ▸ hnone)⟩
  rw [Transition.System.run_cons_eq_some_iff]
  refine ⟨_, hget, ?_⟩
  rw [Transition.System.run_cons_eq_some_iff]
  refine ⟨_, hclick, ?_⟩
  rw [Transition.System.run_cons_eq_some_iff]
  exact ⟨_, hget', rfl⟩

end Window

end SudokuSolver.Draco
