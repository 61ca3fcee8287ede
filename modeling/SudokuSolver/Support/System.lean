import Mathlib.Algebra.GroupWithZero.Nat
import Mathlib.Data.Option.Basic
import Mathlib.Data.List.Basic
import Mathlib.Order.Basic

/-!
# Systems of agents that share a state

An agent is named by the action it takes; an action that is not possible in a
state has no result.  A schedule is the order in which actions are taken.  What
holds of every schedule is shown for one action and carried to the run by
induction, and a measure that falls with every action bounds all schedules.
-/

namespace SudokuSolver.Transition

variable {A State : Type*}

/-- A system, by the effect of each action. -/
structure System (A State : Type*) where
  step : A → State → Option State

namespace System

variable (sys : System A State)

/-- The state after a schedule, if each of its actions was possible. -/
def run : List A → State → Option State
  | [], st => some st
  | a :: schedule, st => (sys.step a st).bind (run schedule)

@[simp] theorem run_nil (st : State) : sys.run [] st = some st := rfl

theorem run_cons_eq_some_iff {a : A} {schedule : List A} {st last : State} :
    sys.run (a :: schedule) st = some last ↔
      ∃ next, sys.step a st = some next ∧ sys.run schedule next = some last :=
  Option.bind_eq_some_iff

theorem run_append_eq_some_iff {first second : List A} {st last : State} :
    sys.run (first ++ second) st = some last ↔
      ∃ middle, sys.run first st = some middle ∧
        sys.run second middle = some last := by
  induction first generalizing st with
  | nil => simp
  | cons a first ih =>
      rw [List.cons_append, run_cons_eq_some_iff]
      simp only [ih, run_cons_eq_some_iff]
      constructor
      · rintro ⟨next, hstep, middle, hfirst, hsecond⟩
        exact ⟨middle, ⟨next, hstep, hfirst⟩, hsecond⟩
      · rintro ⟨middle, ⟨next, hstep, hfirst⟩, hsecond⟩
        exact ⟨next, hstep, middle, hfirst, hsecond⟩

/-- What every action preserves holds after every schedule. -/
theorem run_invariant {P : State → Prop}
    (hP : ∀ a st next, P st → sys.step a st = some next → P next)
    {schedule : List A} {st last : State}
    (hrun : sys.run schedule st = some last) (hst : P st) : P last := by
  induction schedule generalizing st with
  | nil => exact Option.some.inj hrun ▸ hst
  | cons a schedule ih =>
      obtain ⟨next, hstep, hrun⟩ := (sys.run_cons_eq_some_iff).mp hrun
      exact ih hrun (hP a st next hst hstep)

/-- What does not hold at first but does at the end of a schedule comes about
with one of its actions. -/
theorem exists_change {P : State → Prop} {schedule : List A} {st last : State}
    (hrun : sys.run schedule st = some last) (hfirst : ¬P st) (hlast : P last) :
    ∃ before a after middle next, schedule = before ++ a :: after ∧
      sys.run before st = some middle ∧ ¬P middle ∧
      sys.step a middle = some next ∧ P next ∧
      sys.run after next = some last := by
  induction schedule generalizing st with
  | nil =>
      cases hrun
      exact absurd hlast hfirst
  | cons a schedule ih =>
      obtain ⟨next, hstep, hrun⟩ := (sys.run_cons_eq_some_iff).mp hrun
      by_cases hnext : P next
      · exact ⟨[], a, schedule, st, next, rfl, rfl, hfirst, hstep, hnext, hrun⟩
      · obtain ⟨before, b, after, middle, next', rfl, hbefore, hrest⟩ :=
          ih hrun hnext
        exact ⟨a :: before, b, after, middle, next', rfl,
          (sys.run_cons_eq_some_iff).mpr ⟨next, hstep, hbefore⟩, hrest⟩

/-- A system whose actions are only taken where they are permitted. -/
def restrict (permitted : A → State → Bool) : System A State where
  step a st := if permitted a st then sys.step a st else none

theorem restrict_eq_some_iff {permitted : A → State → Bool} {a : A}
    {st next : State} :
    (sys.restrict permitted).step a st = some next ↔
      permitted a st = true ∧ sys.step a st = some next := by
  rw [restrict, Option.ite_none_right_eq_some]

/-- No action is possible. -/
def Stuck (st : State) : Prop := ∀ a, sys.step a st = none

/-- A schedule is not longer than what a measure that falls with every action
can fall. -/
theorem length_le_of_run {measure : State → ℕ}
    (hfall : ∀ a st next, sys.step a st = some next →
      measure next < measure st)
    {schedule : List A} {st last : State}
    (hrun : sys.run schedule st = some last) :
    schedule.length + measure last ≤ measure st := by
  induction schedule generalizing st with
  | nil =>
      cases hrun
      simp
  | cons a schedule ih =>
      obtain ⟨next, hstep, hrun⟩ := (sys.run_cons_eq_some_iff).mp hrun
      have hlength := ih hrun
      have hlt := hfall a st next hstep
      rw [List.length_cons]
      omega

/-- A schedule is not longer than what a measure can fall, and can rise with
those actions that have a price. -/
theorem length_le_of_run_price {measure : State → ℕ} {price : A → ℕ}
    (hfall : ∀ a st next, sys.step a st = some next →
      measure next + 1 ≤ measure st + price a)
    {schedule : List A} {st last : State}
    (hrun : sys.run schedule st = some last) :
    schedule.length + measure last ≤
      measure st + (schedule.map price).sum := by
  induction schedule generalizing st with
  | nil =>
      cases hrun
      simp
  | cons a schedule ih =>
      obtain ⟨next, hstep, hrun⟩ := (sys.run_cons_eq_some_iff).mp hrun
      have hlength := ih hrun
      have hle := hfall a st next hstep
      rw [List.length_cons, List.map_cons, List.sum_cons]
      omega

/-- Where every action leaves a part of the state alone or changes it as another
system would, a schedule changes that part as a schedule of the other system
would. -/
theorem exists_run_part {B Part : Type*} {other : System B Part}
    (part : State → Part) {P : State → Prop}
    (hP : ∀ a st next, P st → sys.step a st = some next → P next)
    (hpart : ∀ a st next, P st → sys.step a st = some next →
      part next = part st ∨ ∃ b, other.step b (part st) = some (part next))
    {schedule : List A} {st last : State}
    (hrun : sys.run schedule st = some last) (hst : P st) :
    ∃ schedule', other.run schedule' (part st) = some (part last) := by
  induction schedule generalizing st with
  | nil =>
      cases hrun
      exact ⟨[], rfl⟩
  | cons a schedule ih =>
      obtain ⟨next, hstep, hrun⟩ := (sys.run_cons_eq_some_iff).mp hrun
      obtain ⟨schedule', hrest⟩ := ih hrun (hP a st next hst hstep)
      rcases hpart a st next hst hstep with hsame | ⟨b, hb⟩
      · rw [hsame] at hrest
        exact ⟨schedule', hrest⟩
      · exact ⟨b :: schedule',
          (other.run_cons_eq_some_iff).mpr ⟨_, hb, hrest⟩⟩

end System

end SudokuSolver.Transition
