import Mathlib.Algebra.Group.Nat.Even
import Mathlib.Data.Nat.Bits
import SudokuSolver.Draco.Sound

/-!
# The flags of the window of Draco

The flag of the button, its text and the flags of the gadgets are only ever
toggled, and have to agree with whether there are grids.  They do once the loop
has come to all clicks, but for the clicks for which no grid was created: such a
click disables the gadgets, and nothing enables them again.
-/

namespace SudokuSolver.Draco

/-- Whether there are grids shows in the flag and the text of the button and in
the flags of the gadgets. -/
structure Consistent (s : ℕ) (st : EventLoop) : Prop where
  selected : st.pGridList = none ↔ st.SELECTED = true
  text : st.pGridList = none ↔ st.it_IText = "Solve"
  enabled : st.pGridList = none ↔
    ∀ c : Coord s, (gadgetAt st.pSquareGadgets c).GADGDISABLED = false

/-- The clicks that the loop has not come to. -/
def clicks (messages : List Message) : ℕ :=
  messages.countP fun message => message matches .GADGETUP

theorem clicks_cons (messages : List Message) :
    clicks (.GADGETUP :: messages) = clicks messages + 1 :=
  List.countP_cons_of_pos rfl

theorem clicks_post (messages : List Message) (message : Message) :
    clicks (messages ++ [message]) = clicks messages + clicks [message] :=
  List.countP_append

/-- The flags and the text with `k` clicks that the loop has not come to, when
`n` clicks have failed to create a grid. -/
structure Flags (s k n : ℕ) (st : EventLoop) : Prop where
  selected : st.SELECTED = (st.pGridList.isNone ^^ k.bodd)
  text : k = 0 → st.it_IText = buttonText st.SELECTED
  disabled : ∀ c : Coord s, (gadgetAt st.pSquareGadgets c).GADGDISABLED =
    (st.pGridList.isSome ^^ n.bodd)

namespace Flags

variable {s k n : ℕ} {fails : ℕ → Bool} {st st' : EventLoop}

theorem isNone_of_ne {pGridList : Option ℕ} (h : pGridList ≠ none) :
    pGridList.isNone = false := Option.isNone_eq_false_iff.mpr
  (Option.isSome_iff_ne_none.mpr h)

/-! ## Agreement -/

/-- With an odd number of clicks that failed, the gadgets are disabled just when
there are no grids. -/
theorem bodd_of_consistent (h : Flags s k n st) (hs : 1 ≤ s)
    (hconsistent : Consistent s st) : n.bodd = false := by
  have c : Coord s := (⟨0, Nat.mul_pos hs hs⟩, ⟨0, Nat.mul_pos hs hs⟩)
  have henabled := hconsistent.enabled
  simp only [h.disabled] at henabled
  cases hn : n.bodd with
  | false => rfl
  | true =>
      rw [hn] at henabled
      generalize st.pGridList = pGridList at henabled
      cases pGridList with
      | none => exact absurd (henabled.mp rfl c) (by simp)
      | some pGridList => exact absurd (henabled.mpr fun _ => rfl) (by simp)

theorem consistent (h : Flags s 0 n st) (hs : 1 ≤ s) (hn : n.bodd = false) :
    Consistent s st := by
  have hselected : st.SELECTED = st.pGridList.isNone := by
    rw [h.selected, Nat.bodd_zero, Bool.xor_false]
  refine ⟨?_, ?_, ?_⟩
  · rw [hselected, Option.isNone_iff_eq_none]
  · rw [h.text rfl, hselected]
    rcases st.pGridList with _ | pGridList
    · exact iff_of_true rfl rfl
    · rw [Option.isNone_some]
      exact iff_of_false (Option.some_ne_none _) (by decide)
  · simp only [h.disabled, hn, Bool.xor_false]
    rcases st.pGridList with _ | pGridList
    · exact iff_of_true rfl fun _ => rfl
    · refine iff_of_false (Option.some_ne_none _) fun h => ?_
      exact absurd (h (⟨0, Nat.mul_pos hs hs⟩, ⟨0, Nat.mul_pos hs hs⟩))
        (by simp)

/-! ## What the loop does -/

/-- A click for which no grid is created changes the flags of the gadgets. -/
theorem gadgetUp_failed (h : Flags s (k + 1) n st)
    (hfails : st.FailsToCreate fails s)
    (hst : st.gadgetUp fails s = some st') : Flags s k (n + 1) st' := by
  obtain ⟨hlist, hvalid, hcreate⟩ := hfails
  have hselected := h.selected
  obtain ⟨htext, hcases⟩ := EventLoop.gadgetUp_cases hst
  cases hcases with
  | invalid _ hinvalid => exact absurd hvalid hinvalid
  | failed _ _ _ hlist' hselected' hgadgets =>
      refine ⟨?_, fun _ => htext, fun c => ?_⟩
      · rw [hselected', hselected, hlist, hlist', Nat.bodd_succ]
        simp
      · rw [hgadgets, GADGDISABLED_toggleSquareGadgetsEnabled,
          GADGDISABLED_stashCurrentValues, h.disabled, hlist, hlist',
          Nat.bodd_succ]
        simp
  | started _ hcreated => exact absurd hcreate hcreated
  | cancelled hsolving => exact absurd hlist hsolving

/-- Any other click keeps them as they should be. -/
theorem gadgetUp (h : Flags s (k + 1) n st) (hcreates : ¬st.FailsToCreate fails s)
    (hst : st.gadgetUp fails s = some st') : Flags s k n st' := by
  have hselected := h.selected
  obtain ⟨htext, hcases⟩ := EventLoop.gadgetUp_cases hst
  cases hcases with
  | invalid hlist _ hlist' hselected' hgadgets =>
      refine ⟨?_, fun _ => htext, fun c => ?_⟩
      · rw [hselected', hselected, hlist, hlist', Nat.bodd_succ]
        simp
      · rw [hgadgets, h.disabled, hlist, hlist']
  | failed hlist hvalid hcreate => exact absurd ⟨hlist, hvalid, hcreate⟩ hcreates
  | started hlist _ hlist' hselected' hgadgets =>
      refine ⟨?_, fun _ => htext, fun c => ?_⟩
      · rw [hselected', hselected, hlist, isNone_of_ne hlist', Nat.bodd_succ]
        simp
      · rw [hgadgets, GADGDISABLED_toggleSquareGadgetsEnabled,
          GADGDISABLED_stashCurrentValues, h.disabled, hlist,
          Option.isSome_iff_ne_none.mpr hlist']
        simp
  | cancelled hlist hlist' hselected' hgadgets =>
      refine ⟨?_, fun _ => htext, fun c => ?_⟩
      · rw [hselected', hselected, isNone_of_ne hlist, hlist', Nat.bodd_succ]
        simp
      · rw [hgadgets, GADGDISABLED_toggleSquareGadgetsEnabled]
        have hkept : (gadgetAt (if st.counters.c_Solutions = 0 then
            restorePreviousValues (s * s) st.pSquareGadgets
          else st.pSquareGadgets) c).GADGDISABLED =
            (gadgetAt st.pSquareGadgets c).GADGDISABLED := by
          split_ifs
          · exact GADGDISABLED_restorePreviousValues c
          · rfl
        rw [hkept, h.disabled, Option.isSome_iff_ne_none.mpr hlist, hlist']
        simp

theorem resetPicked (h : Flags s k n st)
    (hst : st.resetPicked s = some st') : Flags s k n st' := by
  have hselected := h.selected
  obtain ⟨-, hcases⟩ := EventLoop.resetPicked_cases hst
  cases hcases with
  | idle hlist hlist' hselected' htext hgadgets =>
      refine ⟨?_, fun hk => ?_, fun c => ?_⟩
      · rw [hselected', hselected, hlist, hlist']
      · rw [htext, hselected', h.text hk]
      · rw [hgadgets, GADGDISABLED_restorePreviousValues, h.disabled, hlist,
          hlist']
  | solving hlist hlist' hselected' htext hgadgets =>
      refine ⟨?_, fun _ => htext, fun c => ?_⟩
      · rw [hselected', hselected, isNone_of_ne hlist, hlist']
        simp
      · rw [hgadgets, GADGDISABLED_toggleSquareGadgetsEnabled,
          GADGDISABLED_restorePreviousValues, h.disabled,
          Option.isSome_iff_ne_none.mpr hlist, hlist']
        simp

theorem menuPick {picks : List MenuItem} (h : Flags s k n st)
    (hst : st.menuPick s picks = some (st', none)) : Flags s k n st' := by
  induction picks generalizing st with
  | nil =>
      cases hst
      exact h
  | cons pick picks ih =>
      rcases EventLoop.menuPick_cons hst with ⟨next, -, hnext, hst⟩ | ⟨-, hst⟩
      · exact ih (h.resetPicked hnext) hst
      · exact ih h hst

theorem solvingStep (h : Flags s k n st) (hlist : st.pGridList ≠ none)
    (hst : st.solvingStep fails s = some st') : Flags s k n st' := by
  have hselected := h.selected
  obtain ⟨-, -, counters, -, hround⟩ := EventLoop.solvingStep_cases hst
  have hopen (hlist' : st'.pGridList ≠ none)
      (hselected' : st'.SELECTED = st.SELECTED)
      (htext : st'.it_IText = st.it_IText)
      (hgadgets : Kept s st.pSquareGadgets st'.pSquareGadgets) :
      Flags s k n st' := by
    refine ⟨?_, fun hk => ?_, fun c => ?_⟩
    · rw [hselected', hselected, isNone_of_ne hlist, isNone_of_ne hlist']
    · rw [htext, hselected', h.text hk]
    · rw [hgadgets.GADGDISABLED, h.disabled,
        Option.isSome_iff_ne_none.mpr hlist,
        Option.isSome_iff_ne_none.mpr hlist']
  have hdone {pSquareGadgets : SquareGadgets}
      (hdisabled : ∀ c : Coord s, (gadgetAt pSquareGadgets c).GADGDISABLED =
        (gadgetAt st.pSquareGadgets c).GADGDISABLED)
      (hlist' : st'.pGridList = none)
      (hselected' : st'.SELECTED = !st.SELECTED)
      (htext : st'.it_IText = buttonText st'.SELECTED)
      (hgadgets : st'.pSquareGadgets =
        toggleSquareGadgetsEnabled (s * s) pSquareGadgets) :
      Flags s k n st' := by
    refine ⟨?_, fun _ => htext, fun c => ?_⟩
    · rw [hselected', hselected, isNone_of_ne hlist, hlist']
      simp
    · rw [hgadgets, GADGDISABLED_toggleSquareGadgetsEnabled, hdisabled,
        h.disabled, Option.isSome_iff_ne_none.mpr hlist, hlist']
      simp
  cases hround with
  | stays hlist' hselected' htext hgadgets =>
      exact hopen hlist' hselected' htext hgadgets
  | counted hlist' hselected' htext hgadgets =>
      exact hopen hlist' hselected' htext hgadgets
  | exhausted hlist' hselected' htext hgadgets =>
      refine hdone (fun c => ?_) hlist' hselected' htext hgadgets
      split_ifs
      · rfl
      · exact GADGDISABLED_restorePreviousValues c
  | found pSquareGadgets hkept hlist' hselected' htext hgadgets =>
      exact hdone hkept.GADGDISABLED hlist' hselected' htext hgadgets

/-- What the loop does about a message, unless it returns or a click fails to
create a grid. -/
theorem handleMessage {message : Message} {messages : List Message}
    (h : Flags s (clicks (message :: messages)) n st)
    (hcreates : message = .GADGETUP → ¬st.FailsToCreate fails s)
    (hst : st.handleMessage fails s message = some (st', none)) :
    Flags s (clicks messages) n st' := by
  cases message with
  | CLOSEWINDOW => cases EventLoop.leave_snd hst
  | MENUPICK picks distinct =>
      have h : Flags s (clicks messages) n st := h
      exact h.menuPick hst
  | GADGETDOWN =>
      cases hst
      exact ⟨h.selected, h.text, h.disabled⟩
  | GADGETUP =>
      rw [clicks_cons] at h
      obtain ⟨next, hnext, heq⟩ := Option.map_eq_some_iff.mp hst
      cases heq
      exact h.gadgetUp (hcreates rfl) hnext

end Flags

/-! ## Runs -/

namespace Window

variable {s n : ℕ} {fails : ℕ → Bool} {a : Action} {w w' : Window}

/-- What the user does, and what the loop does, unless a click fails to create a
grid. -/
theorem flags_act (h : Flags s (clicks w.messages) n w.loop)
    (hcreates : ¬FailsToCreate fails s a w)
    (hact : act fails s a w = some w') (hopen : w'.returned = none) :
    Flags s (clicks w'.messages) n w'.loop := by
  cases act_cases hact with
  | clicked =>
      have hclicks := clicks_post w.messages .GADGETUP
      change Flags s (clicks (w.messages ++ [.GADGETUP])) n
        w.toggleSelected.loop
      rw [hclicks]
      refine ⟨?_, fun hk => absurd hk (Nat.succ_ne_zero _), h.disabled⟩
      change (!w.loop.SELECTED) = (w.loop.pGridList.isNone ^^ Nat.bodd (_ + 1))
      rw [h.selected, Nat.bodd_succ]
      simp
  | posted message hmessage =>
      have hzero : clicks [message] = 0 := by
        cases message with
        | GADGETUP => exact absurd rfl hmessage
        | _ => rfl
      change Flags s (clicks (w.messages ++ [message])) n w.loop
      rwa [clicks_post, hzero]
  | edited pSquareGadgets hkept =>
      exact ⟨h.selected, h.text, fun c =>
        (hkept.GADGDISABLED c).trans (h.disabled c)⟩
  | moved phase => exact h
  | left hleave => cases hopen
  | @handled message messages loop returned ha hmessages hhandle =>
      subst hopen
      rw [hmessages] at h
      refine h.handleMessage (fun hmessage hloop => hcreates ⟨ha, ?_, hloop⟩)
        hhandle
      rw [hmessages, hmessage, List.head?_cons]
  | round hlist hround => exact h.solvingStep hlist hround

/-- A click that fails to create a grid. -/
theorem flags_failed (h : Flags s (clicks w.messages) n w.loop)
    (hfails : FailsToCreate fails s a w)
    (hact : act fails s a w = some w') :
    Flags s (clicks w'.messages) (n + 1) w'.loop := by
  obtain ⟨rfl, hhead, hloop⟩ := hfails
  obtain ⟨messages, hmessages⟩ := List.head?_eq_some_iff.mp hhead
  rw [act] at hact
  split at hact
  · rw [getMsg, hmessages] at hact
    obtain ⟨⟨loop, returned⟩, hhandle, hact⟩ := Option.bind_eq_some_iff.mp hact
    cases hact
    obtain ⟨next, hnext, heq⟩ := Option.map_eq_some_iff.mp hhandle
    cases heq
    rw [hmessages, clicks_cons] at h
    exact h.gadgetUp_failed hloop hnext
  · cases hact

/-- The flags and the text, in every run. -/
theorem Reached.flags (h : Reached fails s n w) (hopen : w.returned = none) :
    Flags s (clicks w.messages) n w.loop := by
  induction h with
  | createWindow mallocs counters =>
      refine ⟨?_, fun _ => rfl, fun c => ?_⟩
      · change true = (true ^^ Nat.bodd 0)
        rw [Nat.bodd_zero]
        rfl
      · change false = (false ^^ Nat.bodd 0)
        rw [Nat.bodd_zero]
        rfl
  | step h hcreates hstep ih =>
      obtain ⟨hreturned, hact⟩ := act_of_step hstep
      exact flags_act (ih hreturned) hcreates hact hopen
  | failed h hfails hstep ih =>
      obtain ⟨hreturned, hact⟩ := act_of_step hstep
      exact flags_failed (ih hreturned) hfails hact

/-- When no click is left to come to, the flags and the text agree with whether
there are grids just when an even number of clicks has failed to create one. -/
theorem consistent_iff (hs : 1 ≤ s) (h : Reached fails s n w)
    (hopen : w.returned = none) (hclick : .GADGETUP ∉ w.messages) :
    Consistent s w.loop ↔ Even n := by
  have hclicks : clicks w.messages = 0 := by
    refine List.countP_eq_zero.mpr fun message hmessage hmatches => hclick ?_
    cases message with
    | GADGETUP => exact hmessage
    | _ => cases hmatches
  have hflags := h.flags hopen
  rw [hclicks] at hflags
  have heven : Even n ↔ n.bodd = false := by
    rw [Nat.even_iff, Nat.mod_two_of_bodd]
    cases n.bodd <;> simp
  rw [heven]
  exact ⟨hflags.bodd_of_consistent hs, hflags.consistent hs⟩

/-- The button is clicked in the window as it is opened, and the solver takes a
step. -/
theorem consistent_round :
    ∃ w, (system (fun _ => false) 3).run
        [.clickButton, .beginRound, .getMsg, .getMsg, .endRound]
        (createWindow 0 ⟨0, 0, 0, 0⟩) = some w ∧ Consistent 3 w.loop := by
  let opened := (createWindow 0 ⟨0, 0, 0, 0⟩).toggleSelected.loop
  have hbegun : Reached (fun _ => false) 3 0
      ⟨opened, [.GADGETUP], .messages, none⟩ :=
    ((Reached.createWindow 0 ⟨0, 0, 0, 0⟩).step (a := .clickButton)
      (fun hfails => Action.noConfusion hfails.1) rfl).step (a := .beginRound)
      (fun hfails => Action.noConfusion hfails.1) rfl
  obtain ⟨start, hstart, hcases⟩ :=
    EventLoop.gadgetUp_start (s := 3) (by decide) (by decide) (fun _ => false)
      (show opened.pGridList = none from rfl) rfl (by decide)
  have hlist : start.pGridList ≠ none := by
    rcases hcases with ⟨-, hfalse⟩ | ⟨hlist, -⟩
    · cases hfalse
    · exact hlist
  have hget := step_getMsg hstart []
  have hstarted : Reached (fun _ => false) 3 0 ⟨start, [], .messages, none⟩ := by
    apply hbegun.step _ hget
    rintro ⟨-, -, hfails⟩
    obtain ⟨-, hgone⟩ := EventLoop.gadgetUp_cases hstart
    cases hgone with
    | invalid _ _ hnone => exact hlist hnone
    | failed _ _ _ hnone => exact hlist hnone
    | started _ hcreate => exact hcreate hfails.2.2
    | cancelled hsome => exact hsome hfails.1
  have hsolver : Reached (fun _ => false) 3 0 ⟨start, [], .solver, none⟩ :=
    hstarted.step (a := .getMsg) (fun hfails => nomatch hfails.2.1) rfl
  obtain ⟨p, hp⟩ := Option.ne_none_iff_exists'.mp hlist
  obtain ⟨w, hend⟩ := hsolver.exists_step (by decide) (by decide)
    (a := .endRound) rfl (List.mem_singleton_self _)
  have hround := hend
  rw [step_eq_act rfl, act] at hround
  dsimp only at hround
  rw [endRound, hp] at hround
  obtain ⟨loop, -, hround⟩ := Option.bind_eq_some_iff.mp hround
  have hreached : Reached (fun _ => false) 3 0 w :=
    hsolver.step (fun hfails => Action.noConfusion hfails.1) hend
  refine ⟨w, ?_, ?_⟩
  · rw [Transition.System.run_cons_eq_some_iff]
    refine ⟨_, rfl, ?_⟩
    rw [Transition.System.run_cons_eq_some_iff]
    refine ⟨_, rfl, ?_⟩
    rw [Transition.System.run_cons_eq_some_iff]
    refine ⟨_, hget, ?_⟩
    rw [Transition.System.run_cons_eq_some_iff]
    refine ⟨_, rfl, ?_⟩
    rw [Transition.System.run_cons_eq_some_iff]
    exact ⟨w, hend, rfl⟩
  · cases hround
    exact (consistent_iff (by decide) hreached rfl List.not_mem_nil).mpr
      Even.zero

/-- The button is clicked in the window as it is opened, and there is no memory
for a grid. -/
theorem not_consistent_click :
    ∃ w, (system (fun _ => true) 3).run
        [.clickButton, .beginRound, .getMsg, .getMsg]
        (createWindow 0 ⟨0, 0, 0, 0⟩) = some w ∧
      w.returned = none ∧ w.messages = [] ∧ w.phase = .solver ∧
      ¬Consistent 3 w.loop := by
  have hcreate :
      (createWindow 0 ⟨0, 0, 0, 0⟩).toggleSelected.loop.FailsToCreate
        (fun _ => true) 3 := by
    refine ⟨rfl, rfl, ?_⟩
    rw [Memory.createGrid]
    split <;> rfl
  have hflags : Flags 3 (0 + 1) 0
      (createWindow 0 ⟨0, 0, 0, 0⟩).toggleSelected.loop := by
    refine ⟨?_, fun hk => absurd hk (Nat.succ_ne_zero 0), fun c => ?_⟩
    · rw [Nat.bodd_succ, Nat.bodd_zero]
      rfl
    · rw [Nat.bodd_zero]
      rfl
  obtain ⟨loop, hloop⟩ := hcreate.gadgetUp
  refine ⟨⟨loop, [], .solver, none⟩, ?_, rfl, rfl, rfl, fun hconsistent => ?_⟩
  · have hget := step_getMsg hloop []
    rw [Transition.System.run_cons_eq_some_iff]
    refine ⟨_, rfl, ?_⟩
    rw [Transition.System.run_cons_eq_some_iff]
    refine ⟨_, rfl, ?_⟩
    rw [Transition.System.run_cons_eq_some_iff]
    exact ⟨_, hget, rfl⟩
  · have hbodd := (hflags.gadgetUp_failed hcreate hloop).bodd_of_consistent
      (by decide) hconsistent
    rw [Nat.bodd_one] at hbodd
    cases hbodd

end Window

end SudokuSolver.Draco
