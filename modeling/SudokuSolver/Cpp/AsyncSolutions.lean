import SudokuSolver.Cpp.LuaWorker
import SudokuSolver.Support.System

/-!
# Handing over solutions asynchronously

`async_solutions.cpp`: producers append to a queue, and a consumer thread hands
the queue to the solutions it wraps.  A critical section under `m_mutex` is one
atomic step.  The steps between the end of a critical section and the
`notify_one` after it, and between a wake-up and the next look at the condition,
can be interleaved with the steps of every other thread.
-/

namespace SudokuSolver.Cpp

open Transition

variable {n : ℕ}

/-! ## The threads -/

/-- Where the consumer thread is: about to look at the condition with the mutex
locked, blocked in `wait` without having been notified, about to hand over the
list it has swapped out, or at the end of `ConsumeSolutions`. -/
inductive Consumer where
  | checking
  | waiting
  | delivering (solutionList : List Solution)
  | stopped
deriving DecidableEq

/-- Where a producer is: outside of `AddSolutions`, or between its critical
section and its `notify_one`. -/
inductive Producer where
  | idle
  | notifying
deriving DecidableEq

/-- Where the destructor is: not yet entered, before its critical section,
before its `notify_one`, in `join`, or after it. -/
inductive Destructor where
  | outside
  | entered
  | notifying
  | joining
  | joined
deriving DecidableEq

/-- The object and its threads; `delivered` and `added` are the lists that the
wrapped solutions and the object have been given so far. -/
structure Async (n : ℕ) where
  m_solutionQueue : List Solution
  m_bShouldStop : Bool
  consumer : Consumer
  producers : Fin n → Producer
  destructor : Destructor
  delivered : List (List Solution)
  added : List (List Solution)

namespace Async

/-- The object after its constructor. -/
def start (n : ℕ) : Async n where
  m_solutionQueue := []
  m_bShouldStop := false
  consumer := .checking
  producers _ := .idle
  destructor := .outside
  delivered := []
  added := []

/-- `notify_one`: a consumer that waits looks at the condition again. -/
def notifyOne (st : Async n) : Async n :=
  { st with
    consumer := if st.consumer = .waiting then .checking else st.consumer }

@[simp] theorem notifyOne_queue (st : Async n) :
    st.notifyOne.m_solutionQueue = st.m_solutionQueue := rfl

@[simp] theorem notifyOne_shouldStop (st : Async n) :
    st.notifyOne.m_bShouldStop = st.m_bShouldStop := rfl

@[simp] theorem notifyOne_delivered (st : Async n) :
    st.notifyOne.delivered = st.delivered := rfl

@[simp] theorem notifyOne_added (st : Async n) :
    st.notifyOne.added = st.added := rfl

/-- The critical section of `ConsumeSolutions`, from a look at the condition to
the next `wait` or the end of the section. -/
def check (st : Async n) : Async n :=
  if !st.m_bShouldStop && st.m_solutionQueue.isEmpty then
    { st with consumer := .waiting }
  else if st.m_bShouldStop then { st with consumer := .stopped }
  else
    { st with
      consumer := .delivering st.m_solutionQueue
      m_solutionQueue := [] }

end Async

/-- What a thread can do next: the two steps of a producer's `AddSolutions`, a
step of the consumer of its own, a spurious wake-up, and a step of the
destructor. -/
inductive Action (n : ℕ) where
  | add (i : Fin n) (rSolutionList : List Solution)
  | notify (i : Fin n)
  | consume
  | wake
  | destroy

/-- The effect of a step. -/
def stepAsync : Action n → Async n → Option (Async n)
  | .add i rSolutionList, st =>
      match st.producers i with
      | .idle =>
          some { st with
            m_solutionQueue := st.m_solutionQueue ++ rSolutionList
            producers := Function.update st.producers i .notifying
            added := st.added ++ [rSolutionList] }
      | .notifying => none
  | .notify i, st =>
      match st.producers i with
      | .idle => none
      | .notifying =>
          some { st.notifyOne with
            producers := Function.update st.producers i .idle }
  | .consume, st =>
      match st.consumer with
      | .checking => some st.check
      | .waiting => none
      | .delivering solutionList =>
          some { st with
            consumer := .checking
            delivered := st.delivered ++ [solutionList] }
      | .stopped => none
  | .wake, st =>
      match st.consumer with
      | .waiting => some { st with consumer := .checking }
      | _ => none
  | .destroy, st =>
      match st.destructor with
      | .outside => some { st with destructor := .entered }
      | .entered =>
          some { st with m_bShouldStop := true, destructor := .notifying }
      | .notifying => some { st.notifyOne with destructor := .joining }
      | .joining =>
          match st.consumer with
          | .stopped => some { st with destructor := .joined }
          | _ => none
      | .joined => none

/-- The threads of `n` producers, the consumer and the destructor. -/
def asyncSolutions (n : ℕ) : System (Action n) (Async n) where
  step := stepAsync

/-- Where the producers are joined before the object is destroyed, the destructor
is entered when every `AddSolutions` has returned, and none is called later. -/
def joinedFirst (action : Action n) (st : Async n) : Bool :=
  match action with
  | .add _ _ => st.destructor = .outside
  | .destroy =>
      (List.finRange n).all fun i => st.producers i = .idle
  | _ => true

/-- The threads of a program that joins its producers first. -/
def joinedAsyncSolutions (n : ℕ) : System (Action n) (Async n) :=
  (asyncSolutions n).restrict joinedFirst

/-! ## What a step does -/

/-- The steps of the threads, one case for each way in which one can go. -/
inductive AsyncStep : Action n → Async n → Async n → Prop
  | add {st : Async n} {i : Fin n} {rSolutionList : List Solution}
      (hidle : st.producers i = .idle) :
      AsyncStep (.add i rSolutionList) st { st with
        m_solutionQueue := st.m_solutionQueue ++ rSolutionList
        producers := Function.update st.producers i .notifying
        added := st.added ++ [rSolutionList] }
  | notify {st : Async n} {i : Fin n}
      (hnotifying : st.producers i = .notifying) :
      AsyncStep (.notify i) st { st.notifyOne with
        producers := Function.update st.producers i .idle }
  | wait {st : Async n} (hchecking : st.consumer = .checking)
      (hrunning : st.m_bShouldStop = false)
      (hempty : st.m_solutionQueue = []) :
      AsyncStep .consume st { st with consumer := .waiting }
  | stop {st : Async n} (hchecking : st.consumer = .checking)
      (hstopping : st.m_bShouldStop = true) :
      AsyncStep .consume st { st with consumer := .stopped }
  | swap {st : Async n} (hchecking : st.consumer = .checking)
      (hrunning : st.m_bShouldStop = false)
      (hqueue : st.m_solutionQueue ≠ []) :
      AsyncStep .consume st { st with
        consumer := .delivering st.m_solutionQueue
        m_solutionQueue := [] }
  | deliver {st : Async n} {solutionList : List Solution}
      (hdelivering : st.consumer = .delivering solutionList) :
      AsyncStep .consume st { st with
        consumer := .checking
        delivered := st.delivered ++ [solutionList] }
  | wake {st : Async n} (hwaiting : st.consumer = .waiting) :
      AsyncStep .wake st { st with consumer := .checking }
  | enter {st : Async n} (houtside : st.destructor = .outside) :
      AsyncStep .destroy st { st with destructor := .entered }
  | setStop {st : Async n} (hentered : st.destructor = .entered) :
      AsyncStep .destroy st
        { st with m_bShouldStop := true, destructor := .notifying }
  | notifyStop {st : Async n} (hnotifying : st.destructor = .notifying) :
      AsyncStep .destroy st { st.notifyOne with destructor := .joining }
  | join {st : Async n} (hjoining : st.destructor = .joining)
      (hstopped : st.consumer = .stopped) :
      AsyncStep .destroy st { st with destructor := .joined }

/-- Every look at the condition ends in one of three ways. -/
theorem asyncStep_check {st : Async n} (hchecking : st.consumer = .checking) :
    AsyncStep .consume st st.check := by
  rw [Async.check]
  by_cases hstop : st.m_bShouldStop = true
  · rw [if_neg (by simp [hstop]), if_pos hstop]
    exact .stop hchecking hstop
  · rw [Bool.not_eq_true] at hstop
    by_cases hempty : st.m_solutionQueue = []
    · rw [if_pos (by simp [hstop, hempty])]
      exact .wait hchecking hstop hempty
    · rw [if_neg (by simp [hempty]), if_neg (by simp [hstop])]
      exact .swap hchecking hstop hempty

theorem asyncStep_of_step {action : Action n} {st next : Async n}
    (h : (asyncSolutions n).step action st = some next) :
    AsyncStep action st next := by
  change stepAsync action st = some next at h
  cases action with
  | add i rSolutionList =>
      rw [stepAsync] at h
      split at h
      · next hidle =>
        cases h
        exact .add hidle
      · cases h
  | notify i =>
      rw [stepAsync] at h
      split at h
      · cases h
      · next hnotifying =>
        cases h
        exact .notify hnotifying
  | consume =>
      rw [stepAsync] at h
      split at h
      · next hchecking =>
        cases h
        exact asyncStep_check hchecking
      · cases h
      · next solutionList hdelivering =>
        cases h
        exact .deliver hdelivering
      · cases h
  | wake =>
      rw [stepAsync] at h
      split at h
      · next hwaiting =>
        cases h
        exact .wake hwaiting
      · cases h
  | destroy =>
      rw [stepAsync] at h
      split at h
      · next houtside =>
        cases h
        exact .enter houtside
      · next hentered =>
        cases h
        exact .setStop hentered
      · next hnotifying =>
        cases h
        exact .notifyStop hnotifying
      · next hjoining =>
        split at h
        · next hstopped =>
          cases h
          exact .join hjoining hstopped
        · cases h
      · cases h

/-! ## What the threads preserve -/

/-- The list that the consumer has swapped out and not yet handed over. -/
def Consumer.inHand : Consumer → List Solution
  | .delivering solutionList => solutionList
  | _ => []

/-- The destructor has left its critical section. -/
def Destructor.hasStopped : Destructor → Bool
  | .outside => false
  | .entered => false
  | .notifying => true
  | .joining => true
  | .joined => true

/-- Solutions are handed over in the order in which they were added; the stop
flag is set by the destructor; and the join waits for the consumer. -/
structure Async.Inv (st : Async n) : Prop where
  conserved : st.delivered.flatten ++ st.consumer.inHand ++ st.m_solutionQueue =
    st.added.flatten
  stopping : st.m_bShouldStop = st.destructor.hasStopped
  joined : st.destructor = .joined → st.consumer = .stopped

theorem Async.inv_start (n : ℕ) : (Async.start n).Inv where
  conserved := rfl
  stopping := rfl
  joined := by simp [Async.start]

@[simp] theorem inHand_notifyOne (st : Async n) :
    st.notifyOne.consumer.inHand = st.consumer.inHand := by
  rw [Async.notifyOne]
  by_cases hwaiting : st.consumer = .waiting
  · simp [hwaiting, Consumer.inHand]
  · simp [hwaiting]

theorem notifyOne_stopped {st : Async n} (hstopped : st.consumer = .stopped) :
    st.notifyOne.consumer = .stopped := by
  simp [Async.notifyOne, hstopped]

theorem Async.Inv.step {action : Action n} {st next : Async n} (hinv : st.Inv)
    (h : AsyncStep action st next) : next.Inv := by
  obtain ⟨hconserved, hstopping, hjoined⟩ := hinv
  cases h with
  | add hidle =>
      refine ⟨?_, hstopping, hjoined⟩
      simp [← hconserved]
  | notify hnotifying =>
      refine ⟨?_, hstopping, fun h => notifyOne_stopped (hjoined h)⟩
      simpa using hconserved
  | wait hchecking hrunning hempty =>
      refine ⟨?_, hstopping, fun h => ?_⟩
      · simpa [hchecking, Consumer.inHand] using hconserved
      · exact absurd (hjoined h) (by simp [hchecking])
  | stop hchecking hstop =>
      refine ⟨?_, hstopping, fun _ => rfl⟩
      simpa [hchecking, Consumer.inHand] using hconserved
  | swap hchecking hrunning hqueue =>
      refine ⟨?_, hstopping, fun h => ?_⟩
      · simpa [hchecking, Consumer.inHand] using hconserved
      · exact absurd (hjoined h) (by simp [hchecking])
  | deliver hdelivering =>
      refine ⟨?_, hstopping, fun h => ?_⟩
      · simpa [hdelivering, Consumer.inHand] using hconserved
      · exact absurd (hjoined h) (by simp [hdelivering])
  | wake hwaiting =>
      refine ⟨?_, hstopping, fun h => ?_⟩
      · simpa [hwaiting, Consumer.inHand] using hconserved
      · exact absurd (hjoined h) (by simp [hwaiting])
  | enter houtside =>
      refine ⟨hconserved, ?_, by simp⟩
      rw [hstopping, houtside]
      rfl
  | setStop hentered => exact ⟨hconserved, rfl, by simp⟩
  | notifyStop hnotifying =>
      refine ⟨?_, ?_, by simp⟩
      · simpa using hconserved
      · change st.m_bShouldStop = true
        rw [hstopping, hnotifying]
        rfl
  | join hjoining hstopped =>
      refine ⟨hconserved, ?_, fun _ => hstopped⟩
      rw [hstopping, hjoining]
      rfl

/-! ## What is lost -/

theorem inv_of_run {schedule : List (Action n)} {st last : Async n}
    (hrun : (joinedAsyncSolutions n).run schedule st = some last)
    (hst : st.Inv) : last.Inv := by
  refine (joinedAsyncSolutions n).run_invariant ?_ hrun hst
  intro action st next hinv hstep
  obtain ⟨-, hstep⟩ := (System.restrict_eq_some_iff _).mp hstep
  exact hinv.step (asyncStep_of_step hstep)

/-- Once the destructor has set the stop flag, the queue never changes. -/
theorem queue_step_of_stopping {action : Action n} {st next : Async n}
    (hinv : st.Inv) (hstopping : st.m_bShouldStop = true)
    (h : (joinedAsyncSolutions n).step action st = some next) :
    next.m_bShouldStop = true ∧ next.m_solutionQueue = st.m_solutionQueue := by
  obtain ⟨hpermitted, hstep⟩ := (System.restrict_eq_some_iff _).mp h
  cases asyncStep_of_step hstep with
  | add hidle =>
      have houtside : st.destructor = .outside := by
        simpa [joinedFirst] using hpermitted
      have hrunning := hinv.stopping
      rw [houtside, hstopping] at hrunning
      exact absurd hrunning (by simp [Destructor.hasStopped])
  | swap hchecking hrunning hqueue =>
      rw [hstopping] at hrunning
      exact absurd hrunning (by simp)
  | setStop hentered => exact ⟨rfl, rfl⟩
  | _ => exact ⟨hstopping, rfl⟩

theorem queue_run_of_stopping {schedule : List (Action n)} {st last : Async n}
    (hrun : (joinedAsyncSolutions n).run schedule st = some last)
    (hinv : st.Inv) (hstopping : st.m_bShouldStop = true) :
    last.m_solutionQueue = st.m_solutionQueue := by
  have hkept := (joinedAsyncSolutions n).run_invariant
    (P := fun st' => st'.Inv ∧ st'.m_bShouldStop = true ∧
      st'.m_solutionQueue = st.m_solutionQueue)
    ?_ hrun ⟨hinv, hstopping, rfl⟩
  · exact hkept.2.2
  · rintro action st' next ⟨hinv', hstopping', hqueue⟩ hstep
    obtain ⟨hstop, hsame⟩ := queue_step_of_stopping hinv' hstopping' hstep
    obtain ⟨-, hstep⟩ := (System.restrict_eq_some_iff _).mp hstep
    exact ⟨hinv'.step (asyncStep_of_step hstep), hstop, hsame.trans hqueue⟩

/-- Only the critical section of the destructor sets the stop flag. -/
theorem setStop_of_step {action : Action n} {st next : Async n}
    (hrunning : ¬st.m_bShouldStop = true)
    (h : (joinedAsyncSolutions n).step action st = some next)
    (hstopping : next.m_bShouldStop = true) :
    action = .destroy ∧ st.destructor = .entered ∧
      next = { st with m_bShouldStop := true, destructor := .notifying } := by
  obtain ⟨-, hstep⟩ := (System.restrict_eq_some_iff _).mp h
  cases asyncStep_of_step hstep with
  | setStop hentered => exact ⟨rfl, hentered, rfl⟩
  | _ => exact absurd hstopping hrunning

/-- The queue is empty whenever the destructor's critical section begins. -/
def StopsWhenEmpty (schedule : List (Action n)) : Prop :=
  ∀ before after st, schedule = before ++ .destroy :: after →
    (joinedAsyncSolutions n).run before (Async.start n) = some st →
    st.destructor = .entered → st.m_solutionQueue = []

/-- When the join of the destructor returns, every solution that was added has
been handed over, in the order of the critical sections, exactly when the queue
was empty as the destructor set the stop flag. -/
theorem delivered_eq_added_iff {schedule : List (Action n)} {last : Async n}
    (hrun : (joinedAsyncSolutions n).run schedule (Async.start n) = some last)
    (hjoined : last.destructor = .joined) :
    last.delivered.flatten = last.added.flatten ↔ StopsWhenEmpty schedule := by
  have hinv := inv_of_run hrun (Async.inv_start n)
  have hlast : last.delivered.flatten ++ last.m_solutionQueue =
      last.added.flatten := by
    have hconserved := hinv.conserved
    rw [hinv.joined hjoined] at hconserved
    simpa [Consumer.inHand] using hconserved
  have hstopping : last.m_bShouldStop = true := by
    rw [hinv.stopping, hjoined]
    rfl
  have hempty : last.delivered.flatten = last.added.flatten ↔
      last.m_solutionQueue = [] := by
    rw [← hlast]
    exact List.self_eq_append_right
  -- From the critical section on, the queue is what it is at the end.
  have hsection : ∀ before after st, schedule = before ++ .destroy :: after →
      (joinedAsyncSolutions n).run before (Async.start n) = some st →
      st.destructor = .entered → last.m_solutionQueue = st.m_solutionQueue := by
    rintro before after st rfl hbefore hentered
    obtain ⟨middle, hmiddle, hrest⟩ :=
      ((joinedAsyncSolutions n).run_append_eq_some_iff).mp hrun
    cases hbefore.symm.trans hmiddle
    obtain ⟨next, hstep, hafter⟩ :=
      ((joinedAsyncSolutions n).run_cons_eq_some_iff).mp hrest
    have hnext : next.m_bShouldStop = true ∧
        next.m_solutionQueue = st.m_solutionQueue ∧ next.Inv := by
      obtain ⟨-, hstep⟩ := (System.restrict_eq_some_iff _).mp hstep
      have hnextinv :=
        (inv_of_run hbefore (Async.inv_start n)).step (asyncStep_of_step hstep)
      change stepAsync .destroy st = some next at hstep
      rw [stepAsync, hentered] at hstep
      cases hstep
      exact ⟨rfl, rfl, hnextinv⟩
    obtain ⟨hstop, hsame, hnextinv⟩ := hnext
    exact (queue_run_of_stopping hafter hnextinv hstop).trans hsame
  rw [hempty]
  constructor
  · intro hqueue before after st hschedule hbefore hentered
    rw [← hsection before after st hschedule hbefore hentered]
    exact hqueue
  · intro hstops
    obtain ⟨before, action, after, st, next, rfl, hbefore, hrunning, hstep,
      hset, -⟩ := (joinedAsyncSolutions n).exists_change
        (P := fun st => st.m_bShouldStop = true) hrun (by simp [Async.start])
        hstopping
    obtain ⟨rfl, hentered, -⟩ := setStop_of_step hrunning hstep hset
    rw [hsection before after st rfl hbefore hentered]
    exact hstops before after st rfl hbefore hentered

/-- A run in which the consumer is faster than the destructor. -/
theorem delivered_eq_added_iff_prompt :
    ∃ last, (joinedAsyncSolutions 1).run
        [.add 0 [⟨[0], [1]⟩], .notify 0, .consume, .consume, .destroy, .destroy,
          .consume, .destroy, .destroy] (Async.start 1) = some last ∧
      last.destructor = .joined ∧
      (last.delivered.flatten = last.added.flatten ↔
        StopsWhenEmpty (n := 1)
          [.add 0 [⟨[0], [1]⟩], .notify 0, .consume, .consume, .destroy,
            .destroy, .consume, .destroy, .destroy]) :=
  ⟨_, rfl, rfl, delivered_eq_added_iff rfl rfl⟩

/-- A solution that is still in the queue when the stop flag is set is lost. -/
theorem solution_lost :
    ((joinedAsyncSolutions 1).run
        [.consume, .add 0 [⟨[0], [1]⟩], .notify 0, .destroy, .destroy, .destroy,
          .consume, .destroy] (Async.start 1)).map
      (fun last => (last.destructor, last.delivered, last.added)) =
    some (.joined, [], [[⟨[0], [1]⟩]]) := by
  rfl

/-! ## While it runs -/

/-- The lists that the critical sections of a schedule add, in their order. -/
def addedLists (schedule : List (Action n)) : List (List Solution) :=
  schedule.filterMap fun action =>
    match action with
    | .add _ rSolutionList => some rSolutionList
    | _ => none

theorem added_of_run {schedule : List (Action n)} {st last : Async n}
    (hrun : (asyncSolutions n).run schedule st = some last) :
    last.added = st.added ++ addedLists schedule := by
  induction schedule generalizing st with
  | nil =>
      rw [← Option.some.inj hrun]
      exact (List.append_nil _).symm
  | cons action schedule ih =>
      obtain ⟨next, hstep, hrun⟩ :=
        ((asyncSolutions n).run_cons_eq_some_iff).mp hrun
      rw [ih hrun]
      cases asyncStep_of_step hstep with
      | add hidle => exact List.append_assoc _ _ _
      | _ => rfl

/-- A thread that has left its critical section has its `notify_one` yet to
execute. -/
def Async.NotifyPending (st : Async n) : Prop :=
  (∃ i, st.producers i = .notifying) ∨ st.destructor = .notifying

/-- A consumer that waits although there is something to do will be notified. -/
def Async.NoLostWakeUp (st : Async n) : Prop :=
  st.consumer = .waiting →
    st.m_solutionQueue ≠ [] ∨ st.m_bShouldStop = true → st.NotifyPending

theorem not_waiting_notifyOne (st : Async n) :
    st.notifyOne.consumer ≠ .waiting := by
  rw [Async.notifyOne]
  by_cases hwaiting : st.consumer = .waiting
  · simp [hwaiting]
  · simp [hwaiting]

theorem Async.NoLostWakeUp.step {action : Action n} {st next : Async n}
    (hawake : st.NoLostWakeUp) (h : AsyncStep action st next) :
    next.NoLostWakeUp := by
  intro hwaiting hwork
  cases h with
  | add hidle => exact Or.inl ⟨_, Function.update_self _ _ _⟩
  | notify hnotifying => exact absurd hwaiting (not_waiting_notifyOne st)
  | wait hchecking hrunning hempty =>
      rcases hwork with hqueue | hstop
      · exact absurd hempty hqueue
      · exact absurd (hrunning.symm.trans hstop) (by simp)
  | stop hchecking hstop => exact absurd hwaiting (by simp)
  | swap hchecking hrunning hqueue => exact absurd hwaiting (by simp)
  | deliver hdelivering => exact absurd hwaiting (by simp)
  | wake hwaiting' => exact absurd hwaiting (by simp)
  | enter houtside =>
      rcases hawake hwaiting hwork with hproducer | hdestructor
      · exact Or.inl hproducer
      · exact absurd (houtside.symm.trans hdestructor) (by simp)
  | setStop hentered => exact Or.inr rfl
  | notifyStop hnotifying => exact absurd hwaiting (not_waiting_notifyOne st)
  | join hjoining hstopped =>
      exact absurd (hstopped.symm.trans hwaiting) (by simp)

/-- In every state of every interleaving the solutions handed over, the list in
the hand of the consumer and the queue are what the critical sections have added
so far, in their order, and no wake-up is lost. -/
theorem asyncSolutions_running {schedule : List (Action n)} {st : Async n}
    (hrun : (asyncSolutions n).run schedule (Async.start n) = some st) :
    st.delivered.flatten ++ st.consumer.inHand ++ st.m_solutionQueue =
        (addedLists schedule).flatten ∧
      st.NoLostWakeUp := by
  have hinv : st.Inv ∧ st.NoLostWakeUp := by
    refine (asyncSolutions n).run_invariant
      (P := fun st => st.Inv ∧ st.NoLostWakeUp) ?_ hrun ?_
    · rintro action st next ⟨hinv, hawake⟩ hstep
      have hstep := asyncStep_of_step hstep
      exact ⟨hinv.step hstep, hawake.step hstep⟩
    · refine ⟨Async.inv_start n, fun hwaiting => ?_⟩
      exact absurd hwaiting (by simp [Async.start])
  refine ⟨?_, hinv.2⟩
  rw [hinv.1.conserved, added_of_run hrun]
  rfl

/-- The consumer waits, a solution is in the queue, and its producer is about to
notify. -/
theorem asyncSolutions_running_pending :
    ∃ st, (asyncSolutions 1).run [.consume, .add 0 [⟨[0], [1]⟩]]
        (Async.start 1) = some st ∧
      st.m_solutionQueue = [⟨[0], [1]⟩] ∧ st.NotifyPending :=
  ⟨_, rfl, rfl,
    (asyncSolutions_running (show (asyncSolutions 1).run
      [.consume, .add 0 [⟨[0], [1]⟩]] (Async.start 1) = some _ from rfl)).2 rfl
      (Or.inl (by simp [Async.start, Async.check]))⟩

end SudokuSolver.Cpp
