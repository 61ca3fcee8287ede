import SudokuSolver.Draco.Restored

/-!
# The program around the window of Draco

`main` of `sudoku_solver_gui.d` opens one window after another, of the size that
the last one has returned, until one returns zero.  The memory goes from window
to window.  In every run the windows are of nine or sixteen squares a side, and
what is allocated is what the list of the open window holds.
-/

namespace SudokuSolver.Draco

/-! ## The program -/

/-- The variables of `main`, with the window that is open and the memory while
there is none. -/
structure Program where
  sectorDimension : ℕ
  window : Option Window
  mem : Memory

/-- What happens next: `createWindow` opens a window or fails to, the window and
its user go on, or `createWindow` returns what `eventLoop` has returned. -/
inductive ProgramAction
  | openWindow (counters : Counters)
  | failToOpen
  | inWindow (a : Action)
  | closeWindow

namespace Program

/-- The program when `main` comes to its loop. -/
def start : Program := ⟨4, none, Memory.noGrids 0⟩

/-- A new window, over the memory that the last one has left. -/
def openedWindow (mem : Memory) (counters : Counters) : Window :=
  let w := Window.createWindow mem.mallocs counters
  { w with loop := { w.loop with mem := mem } }

def act (fails : ℕ → Bool) : ProgramAction → Program → Option Program
  | .openWindow counters, program =>
      match program.window with
      | some _ => none
      | none =>
          if program.sectorDimension = 0 then none
          else
            some { program with
              window := some (openedWindow program.mem counters) }
  | .failToOpen, program =>
      match program.window with
      | some _ => none
      | none =>
          if program.sectorDimension = 0 then none
          else some { program with sectorDimension := 0 }
  | .inWindow a, program => do
      let w ← program.window
      let w ← (Window.system fails program.sectorDimension).step a w
      return { program with window := some w }
  | .closeWindow, program => do
      let w ← program.window
      let returned ← w.returned
      return ⟨returned, none, w.loop.mem⟩

/-- The program and its user. -/
def system (fails : ℕ → Bool) : Transition.System ProgramAction Program where
  step := act fails

end Program

/-! ## What a window returns -/

/-- There are no grids in memory. -/
def Memory.IsFree (mem : Memory) : Prop := mem = Memory.noGrids mem.mallocs

/-- What the loop returns is the size of another window or zero, and it leaves
no grid behind. -/
def Leaves (s : ℕ) (next : EventLoop × Option ℕ) : Prop :=
  ∀ returned, next.2 = some returned →
    (returned = 0 ∨ returned = 3 ∨ returned = 4) ∧ returned ≠ s ∧
      next.1.mem.IsFree

namespace EventLoop.Sound

variable {s : ℕ} {fails : ℕ → Bool} {st : EventLoop}
variable {next : EventLoop × Option ℕ}

theorem leaves_of_leave (h : Sound s st) {returned : ℕ}
    (hreturned : returned = 0 ∨ returned = 3 ∨ returned = 4)
    (hne : returned ≠ s) (hleave : st.leave returned = some next) :
    Leaves s next := by
  obtain ⟨mem, hfree, hrep⟩ := h.freeGridList
  rw [EventLoop.leave, hfree] at hleave
  cases hleave
  rintro _ ⟨⟩
  exact ⟨hreturned, hne, hrep.holds.eq_noGrids⟩

theorem leaves_of_menuPick {picks : List MenuItem} (h : Sound s st)
    (hpick : st.menuPick s picks = some next) : Leaves s next := by
  induction picks generalizing st with
  | nil =>
      cases hpick
      exact fun _ hreturned => by cases hreturned
  | cons pick picks ih =>
      cases pick with
      | resetMenuItem =>
          obtain ⟨st', hreset, h'⟩ := h.resetPicked
          rw [EventLoop.menuPick, hreset] at hpick
          exact ih h' hpick
      | size3MenuItem =>
          rw [EventLoop.menuPick] at hpick
          by_cases hsize : s ≠ 3
          · rw [if_pos hsize] at hpick
            exact h.leaves_of_leave (by simp) hsize.symm hpick
          · rw [if_neg hsize] at hpick
            exact ih h hpick
      | size4MenuItem =>
          rw [EventLoop.menuPick] at hpick
          by_cases hsize : s ≠ 4
          · rw [if_pos hsize] at hpick
            exact h.leaves_of_leave (by simp) hsize.symm hpick
          · rw [if_neg hsize] at hpick
            exact ih h hpick

theorem leaves_of_handleMessage {message : Message} (h : Sound s st)
    (hs : s ≠ 0) (hhandle : st.handleMessage fails s message = some next) :
    Leaves s next := by
  cases message with
  | CLOSEWINDOW => exact h.leaves_of_leave (Or.inl rfl) hs.symm hhandle
  | MENUPICK picks distinct => exact h.leaves_of_menuPick hhandle
  | GADGETDOWN =>
      cases hhandle
      exact fun _ hreturned => by cases hreturned
  | GADGETUP =>
      obtain ⟨st', -, heq⟩ := Option.map_eq_some_iff.mp hhandle
      cases heq
      exact fun _ hreturned => by cases hreturned

end EventLoop.Sound

namespace Window

variable {s : ℕ} {fails : ℕ → Bool} {a : Action} {w w' : Window}

theorem leaves_act (h : w.loop.Sound s) (hs : s ≠ 0)
    (hopen : w.returned = none) (hact : act fails s a w = some w') :
    Leaves s (w'.loop, w'.returned) := by
  have hopen' : ∀ loop : EventLoop, Leaves s (loop, w.returned) :=
    fun loop returned hreturned => by
      rw [hopen] at hreturned
      cases hreturned
  cases act_cases hact with
  | clicked => exact hopen' _
  | posted message => exact hopen' _
  | edited pSquareGadgets => exact hopen' _
  | moved phase => exact hopen' _
  | left hleave => exact h.leaves_of_leave (Or.inl rfl) hs.symm hleave
  | handled _ _ hhandle => exact h.leaves_of_handleMessage hs hhandle
  | round => exact hopen' _

end Window

/-! ## Runs -/

namespace Program

variable {fails : ℕ → Bool} {program next : Program} {a : ProgramAction}

/-- What holds in every state of the program. -/
structure Inv (fails : ℕ → Bool) (program : Program) : Prop where
  size : program.sectorDimension = 0 ∨ program.sectorDimension = 3 ∨
    program.sectorDimension = 4
  free : program.window = none → program.mem.IsFree
  reached : ∀ w, program.window = some w → program.sectorDimension ≠ 0 ∧
    (∃ n, Window.Reached fails program.sectorDimension n w) ∧
    Leaves program.sectorDimension (w.loop, w.returned)

namespace Inv

theorem two_le (h : Inv fails program) (hne : program.sectorDimension ≠ 0) :
    2 ≤ program.sectorDimension ∧ program.sectorDimension ≤ 5 := by
  have hsize := h.size
  omega

/-- A window is opened as if none had been open before. -/
theorem openedWindow_eq {mem : Memory} (hfree : mem.IsFree)
    (counters : Counters) :
    openedWindow mem counters = Window.createWindow mem.mallocs counters := by
  rw [openedWindow, hfree]
  rfl

theorem step (h : Inv fails program)
    (hstep : (system fails).step a program = some next) : Inv fails next := by
  obtain ⟨sectorDimension, window, mem⟩ := program
  cases a with
  | openWindow counters =>
      rcases window with _ | w
      · obtain ⟨hne, hnext⟩ := Option.ite_none_left_eq_some.mp hstep
        cases hnext
        refine ⟨h.size, fun hnone => (by cases hnone), ?_⟩
        rintro _ ⟨⟩
        rw [openedWindow_eq (h.free rfl)]
        refine ⟨hne, ⟨0, Window.Reached.createWindow _ counters⟩, ?_⟩
        exact fun _ hreturned => by cases hreturned
      · cases hstep
  | failToOpen =>
      rcases window with _ | w
      · obtain ⟨-, hnext⟩ := Option.ite_none_left_eq_some.mp hstep
        cases hnext
        exact ⟨Or.inl rfl, fun _ => h.free rfl, fun w hw => by cases hw⟩
      · cases hstep
  | inWindow a =>
      obtain ⟨w, hw, hstep⟩ := Option.bind_eq_some_iff.mp hstep
      obtain ⟨w', hact, hnext⟩ := Option.bind_eq_some_iff.mp hstep
      cases hnext
      obtain ⟨hne, ⟨n, hn⟩, -⟩ := h.reached w hw
      obtain ⟨hs, hs'⟩ := h.two_le hne
      obtain ⟨hopen, hact'⟩ := Window.act_of_step hact
      refine ⟨h.size, fun hnone => (by cases hnone), ?_⟩
      rintro _ ⟨⟩
      exact ⟨hne, hn.next hact,
        Window.leaves_act (hn.sound hs hs' hopen) hne hopen hact'⟩
  | closeWindow =>
      obtain ⟨w, hw, hstep⟩ := Option.bind_eq_some_iff.mp hstep
      obtain ⟨returned, hreturned, hnext⟩ := Option.bind_eq_some_iff.mp hstep
      cases hnext
      obtain ⟨-, -, hleaves⟩ := h.reached w hw
      obtain ⟨hsize, -, hfree⟩ := hleaves returned hreturned
      exact ⟨hsize, fun _ => hfree, fun w hw => by cases hw⟩

end Inv

theorem inv_of_run {schedule : List ProgramAction}
    (hrun : (system fails).run schedule start = some program) :
    Inv fails program := by
  apply (system fails).run_invariant (P := Inv fails)
  · exact fun _ _ _ h hstep => h.step hstep
  · exact hrun
  · exact ⟨Or.inr (Or.inr rfl), fun _ => rfl, fun w hw => by cases hw⟩

/-- In every run of the program the windows are of nine or sixteen squares a
side.  As long as a window is open, the loop can go on and the grids in memory
are those of its list; the loop returns zero or another size, and neither then
nor while there is no window is a grid in memory. -/
theorem run_sound {schedule : List ProgramAction}
    (hrun : (system fails).run schedule start = some program) :
    (program.sectorDimension = 0 ∨ program.sectorDimension = 3 ∨
        program.sectorDimension = 4) ∧
      (program.window = none →
        program.mem = Memory.noGrids program.mem.mallocs) ∧
      ∀ w, program.window = some w →
        (w.returned = none →
          (∀ a ∈ w.phase.actions, ∃ next,
            (system fails).step (.inWindow a) program = some next) ∧
          ∃ l, w.loop.pGridList = l.head? ∧ w.loop.mem.Holds l []) ∧
        ∀ returned, w.returned = some returned →
          (returned = 0 ∨ returned = 3 ∨ returned = 4) ∧
            returned ≠ program.sectorDimension ∧
            w.loop.mem = Memory.noGrids w.loop.mem.mallocs := by
  have hinv := inv_of_run hrun
  refine ⟨hinv.size, hinv.free, fun w hw => ?_⟩
  obtain ⟨hne, ⟨n, hn⟩, hleaves⟩ := hinv.reached w hw
  obtain ⟨hs, hs'⟩ := hinv.two_le hne
  refine ⟨fun hopen => ⟨fun a ha => ?_, ?_⟩, hleaves⟩
  · obtain ⟨w', hstep⟩ := hn.exists_step hs hs' hopen ha
    refine ⟨{ program with window := some w' }, ?_⟩
    change (program.window.bind fun w =>
      ((Window.system fails program.sectorDimension).step a w).bind _) = _
    rw [hw, Option.bind_some, hstep, Option.bind_some]
    rfl
  · obtain ⟨l, ms, hhead, hrep⟩ := hn.sound hs hs' hopen
    exact ⟨l, hhead, hrep.holds⟩

/-- A window is opened, and the smaller size is picked. -/
theorem run_sound_size3 :
    ∃ program w, (system fun _ => false).run
        [.openWindow ⟨0, 0, 0, 0⟩,
          .inWindow (.pickItems [.size3MenuItem] (List.nodup_singleton _)),
          .inWindow .beginRound, .inWindow .getMsg] start = some program ∧
      program.window = some w ∧ w.returned = some 3 ∧
      w.loop.mem = Memory.noGrids w.loop.mem.mallocs := by
  let picked : Window :=
    { openedWindow (Memory.noGrids 0) ⟨0, 0, 0, 0⟩ with
      messages := [.MENUPICK [.size3MenuItem] (List.nodup_singleton _)]
      phase := .messages }
  have hfree : picked.loop.mem.freeGridList picked.loop.pGridList =
      some picked.loop.mem := loop_done rfl
  have hget : (Window.system (fun _ => false) 4).step .getMsg picked =
      some { picked with messages := [], returned := some 3 } := by
    change (picked.loop.leave 3).bind _ = _
    rw [EventLoop.leave, hfree]
    rfl
  have hrun : (system fun _ => false).run
      [.openWindow ⟨0, 0, 0, 0⟩,
        .inWindow (.pickItems [.size3MenuItem] (List.nodup_singleton _)),
        .inWindow .beginRound, .inWindow .getMsg] start =
      some ⟨4, some { picked with messages := [], returned := some 3 },
        Memory.noGrids 0⟩ := by
    change (((Window.system (fun _ => false) 4).step .getMsg picked).bind
      _).bind _ = _
    rw [hget]
    rfl
  obtain ⟨-, -, hopened⟩ := run_sound hrun
  exact ⟨_, _, hrun, rfl, rfl, ((hopened _ rfl).2 3 rfl).2.2⟩

end Program

end SudokuSolver.Draco
