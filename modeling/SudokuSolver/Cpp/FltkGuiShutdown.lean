import SudokuSolver.Cpp.FltkGuiProgress

/-!
# How the graphical program ends

Between two events no interleaving goes on for ever.  Nothing is deadlocked: a
program in which no thread can go on waits for its user, or has returned.  And
the objects of `main` are destroyed when no thread needs them any more.
-/

namespace SudokuSolver.Cpp

open Transition

variable {n : ℕ} {order : Puzzle → Order} {earlyAwake : Bool}

/-! ## Every interleaving comes to rest -/

/-- A bound for the steps that a worker and those it wakes up can still take. -/
def Worker.effort : Worker → ℕ
  | .waiting => 1
  | .adding _ => 11
  | .finished => 0
  | .failed _ => 0

@[simp] theorem effort_waiting : Worker.waiting.effort = 1 := rfl

@[simp] theorem effort_adding (solutionList : List Solution) :
    (Worker.adding solutionList).effort = 11 := rfl

@[simp] theorem effort_finished : Worker.finished.effort = 0 := rfl

def Producer.effort : Producer → ℕ
  | .idle => 0
  | .notifying => 2

def Consumer.effort : Consumer → ℕ
  | .checking => 1
  | .waiting => 0
  | .delivering _ => 7
  | .stopped => 0

def Destructor.effort : Destructor → ℕ
  | .outside => 5
  | .entered => 4
  | .notifying => 3
  | .joining => 1
  | .joined => 0

def queueEffort : List Solution → ℕ
  | [] => 0
  | _ :: _ => 7

def Async.effort (st : Async n) : ℕ :=
  ∑ i, (st.producers i).effort + queueEffort st.m_solutionQueue +
    st.consumer.effort + st.destructor.effort

def Main.effort (n : ℕ) (message : Bool) : Main → ℕ
  | .starting => n + 5 + 4 * message.toNat
  | .waiting => n + 4 + 4 * message.toNat
  | .fetching bShouldUpdateProgress =>
      if message then n + 7
      else if bShouldUpdateProgress then n + 6 else n + 5
  | .updating => n + 5 + 4 * message.toNat
  | .closed => n + 3
  | .joining joined => 2 + (n - joined)
  | .destroying => 1
  | .returned => 0

/-- A bound for the steps that are left if nothing comes from outside. -/
def Gui.effort (gui : Gui n) : ℕ :=
  11 * gui.stoppableLoader.m_pLoader.m_puzzles.length +
    ∑ i, (gui.workers i).effort + gui.asyncSolutions.effort +
    (!gui.multicastSolutions.stored).toNat +
    gui.main.effort n gui.message + gui.terminated.isNone.toNat

/-- What an action adds to the steps that are left. -/
def Action.price : Action n → ℕ
  | .add _ _ => 10
  | .wake => 2
  | _ => 0

theorem effort_notifyOne_le (st : Async n) :
    st.notifyOne.consumer.effort ≤ st.consumer.effort + 1 := by
  rw [Async.notifyOne]
  by_cases hwaiting : st.consumer = .waiting
  · simp [hwaiting, Consumer.effort]
  · simp [hwaiting]

theorem queueEffort_le (solutionQueue : List Solution) :
    queueEffort solutionQueue ≤ 7 := by
  cases solutionQueue with
  | nil => exact Nat.zero_le 7
  | cons _ _ => exact le_rfl

theorem queueEffort_of_ne {solutionQueue : List Solution}
    (hqueue : solutionQueue ≠ []) : queueEffort solutionQueue = 7 := by
  obtain ⟨first, rest, rfl⟩ := List.exists_cons_of_ne_nil hqueue
  rfl

theorem Async.effort_step {action : Action n} {st next : Async n}
    (h : AsyncStep action st next) :
    next.effort + 1 ≤ st.effort + action.price := by
  cases h with
  | @add _ i rSolutionList hidle =>
      have hsum := sum_update Producer.effort st.producers i .notifying
      have hqueue := queueEffort_le (st.m_solutionQueue ++ rSolutionList)
      rw [hidle] at hsum
      change _ + 0 = _ + 2 at hsum
      simp only [Async.effort, Action.price]
      omega
  | @notify _ i hnotifying =>
      have hsum := sum_update Producer.effort st.producers i .idle
      have hconsumer := effort_notifyOne_le st
      rw [hnotifying] at hsum
      change _ + 2 = _ + 0 at hsum
      simp only [Async.effort, Action.price, Async.notifyOne_queue]
      change _ + st.destructor.effort + 1 ≤ _
      omega
  | wait hchecking _ _ =>
      simp only [Async.effort, Action.price, Consumer.effort, hchecking]
      omega
  | stop hchecking _ =>
      simp only [Async.effort, Action.price, Consumer.effort, hchecking]
      omega
  | swap hchecking _ hqueue =>
      simp only [Async.effort, Action.price, Consumer.effort, hchecking,
        queueEffort_of_ne hqueue]
      change _ + 0 + 7 + _ + 1 ≤ _
      omega
  | deliver hdelivering =>
      simp only [Async.effort, Action.price, Consumer.effort, hdelivering]
      omega
  | wake hwaiting =>
      simp only [Async.effort, Action.price, Consumer.effort, hwaiting]
      omega
  | enter houtside =>
      simp only [Async.effort, Action.price, Destructor.effort, houtside]
      omega
  | setStop hentered =>
      simp only [Async.effort, Action.price, Destructor.effort, hentered]
      omega
  | notifyStop hnotifying =>
      have hconsumer := effort_notifyOne_le st
      simp only [Async.effort, Action.price, Destructor.effort, hnotifying,
        Async.notifyOne_queue]
      change ∑ i, (st.producers i).effort + _ + _ + _ + 1 ≤ _
      omega
  | join hjoining _ =>
      simp only [Async.effort, Action.price, Destructor.effort, hjoining]
      omega

/-- The actions that no thread of the program takes of its own accord. -/
def GuiAction.isOutside : GuiAction n → Bool
  | .wake => true
  | .event => true
  | _ => false

def GuiAction.price (action : GuiAction n) : ℕ :=
  if action.isOutside then 2 else 0

/-- A message is worth a few steps of the main thread. -/
theorem effort_message_le (n : ℕ) (main : Main) (message message' : Bool) :
    main.effort n message' ≤ main.effort n message + 4 := by
  have hle := Bool.toNat_le message'
  cases main with
  | fetching b =>
      cases message <;> cases message' <;> cases b <;> simp [Main.effort]
  | starting | waiting | updating =>
      simp only [Main.effort]
      omega
  | closed | joining joined | destroying | returned =>
      exact Nat.le_add_right _ _

theorem effort_afterGetPuzzle_le (order : Puzzle → Order)
    (pPuzzle : Option Puzzle) :
    (afterGetPuzzle order pPuzzle).effort ≤ 11 := by
  cases afterGetPuzzle order pPuzzle with
  | waiting => exact Nat.le_add_left 1 10
  | adding _ => exact le_rfl
  | finished => exact Nat.zero_le 11
  | failed _ => exact Nat.zero_le 11

theorem Gui.effort_step (action : GuiAction n) (gui next : Gui n)
    (h : (guiThreads order earlyAwake n).step action gui = some next) :
    next.effort + 1 ≤ gui.effort + action.price := by
  obtain ⟨hnone, hstep⟩ := guiStep_of_step h
  cases hstep with
  | notify hstep =>
      have hasync := Async.effort_step hstep
      simp only [Action.price] at hasync
      simp only [Gui.effort, GuiAction.price, GuiAction.isOutside]
      omega
  | @exhausted _ i _ hwaiting _ =>
      have hsum := sum_update Worker.effort gui.workers i .finished
      rw [hwaiting, effort_waiting, effort_finished] at hsum
      simp only [Gui.effort]
      omega
  | @take _ i puzzle puzzles _ hwaiting _ hpuzzles =>
      have hsum := sum_update Worker.effort gui.workers i
        (afterGetPuzzle order (some puzzle))
      have hle := effort_afterGetPuzzle_le order (some puzzle)
      rw [hwaiting, effort_waiting] at hsum
      simp only [Gui.effort, hpuzzles, List.length_cons]
      omega
  | @add _ i solutionList _ hadding hstep =>
      have hsum := sum_update Worker.effort gui.workers i .waiting
      have hasync := Async.effort_step hstep
      rw [hadding, effort_adding, effort_waiting] at hsum
      simp only [Action.price] at hasync
      simp only [Gui.effort]
      omega
  | check hchecking hstep =>
      have hasync := Async.effort_step hstep
      simp only [Action.price] at hasync
      simp only [Gui.effort, GuiAction.price, GuiAction.isOutside]
      omega
  | store hdelivering hdatabase _ =>
      have hstored :=
        (MulticastSolutions.nextDatabase_eq_some_iff.mp hdatabase).1
      simp only [Gui.effort, MulticastSolutions.store, hstored, Bool.not_true,
        Bool.not_false, Bool.toNat_true, Bool.toNat_false]
      omega
  | deliver hdelivering _ =>
      have hmessage := effort_message_le n gui.main gui.message
        (gui.message || earlyAwake || gui.main ≠ .starting)
      simp only [Gui.effort, Async.effort, hdelivering, Consumer.effort,
        MulticastSolutions.count, Bool.not_false, Bool.toNat_true]
      omega
  | wake hstep =>
      have hasync := Async.effort_step hstep
      simp only [Action.price] at hasync
      simp only [Gui.effort, GuiAction.price, GuiAction.isOutside, if_pos]
      omega
  | fail _ | refuse _ _ _ | throw _ _ => simp [Gui.effort, hnone]
  | @join _ i hmain hfinished =>
      have hlt := i.isLt
      simp only [Gui.effort, hmain, Main.effort]
      omega
  | joined hmain hall =>
      simp only [Gui.effort, hmain, Main.effort]
      omega
  | destroy hmain hstep =>
      have hasync := Async.effort_step hstep
      simp only [Action.price] at hasync
      simp only [Gui.effort, hmain]
      split <;> simp only [Main.effort] <;> omega
  | awake hmain hmessage =>
      simp only [Gui.effort, hmain, hmessage, Main.effort, if_pos,
        Bool.toNat_true]
      omega
  | event hmain =>
      have hmain' : Main.effort n gui.message (.fetching false) ≤
          Main.effort n gui.message .waiting + 1 := by
        cases gui.message <;> simp [Main.effort]
      simp only [Gui.effort, hmain, GuiAction.price, GuiAction.isOutside,
        if_pos]
      omega
  | fetch hmain hmessage =>
      simp only [Gui.effort, hmain, hmessage, Main.effort, if_pos,
        Bool.false_eq_true, if_false]
      omega
  | fetched hmain hmessage | ignored hmain hmessage =>
      simp only [Gui.effort, hmain, hmessage, Main.effort, if_pos,
        Bool.false_eq_true, if_false, Bool.toNat_false]
      omega
  | lock hmain | close hmain | update hmain | stop hmain =>
      simp only [Gui.effort, hmain, Main.effort, StoppableLoader.stop]
      omega

theorem effort_start (n : ℕ) (loader : TextLoader)
    (database : Option (List (String × String))) :
    (Gui.start n loader database).effort =
      11 * loader.getPuzzleCount + 2 * n + 13 := by
  simp only [Gui.effort, Gui.start, Async.effort, Async.start, queueEffort,
    Producer.effort, Consumer.effort, Destructor.effort, effort_waiting,
    Main.effort, TextLoader.getPuzzleCount, Finset.sum_const, Finset.card_univ,
    Fintype.card_fin, smul_eq_mul, Option.isNone_none, Bool.not_false,
    Bool.toNat_true, Bool.toNat_false]
  omega

theorem sum_price (schedule : List (GuiAction n)) :
    (schedule.map GuiAction.price).sum =
      2 * schedule.countP GuiAction.isOutside := by
  induction schedule with
  | nil => rfl
  | cons action schedule ih =>
      rw [List.map_cons, List.sum_cons, ih, List.countP_cons, GuiAction.price]
      split <;> omega

/-! ## Where it comes to rest -/

/-- No thread can go on: neither a worker nor the consumer nor the main thread,
which is not waiting for a message that has been sent. -/
def Gui.AtRest (order : Puzzle → Order) (earlyAwake : Bool) (gui : Gui n) :
    Prop :=
  (∀ i, (guiThreads order earlyAwake n).step (.worker i) gui = none) ∧
    (guiThreads order earlyAwake n).step .consume gui = none ∧
    (guiThreads order earlyAwake n).step .main gui = none ∧
    (guiThreads order earlyAwake n).step .awake gui = none

namespace Gui.AtRest

variable {gui : Gui n}

theorem step_eq (hnone : gui.terminated = none) (action : GuiAction n) :
    (guiThreads order earlyAwake n).step action gui =
      stepRunning order earlyAwake action gui := by
  change stepGui order earlyAwake action gui = _
  rw [stepGui, hnone]
  rfl

/-- A worker that cannot go on is finished. -/
theorem worker (h : gui.AtRest order earlyAwake)
    (hnone : gui.terminated = none) (i : Fin n) :
    gui.asyncSolutions.producers i = .idle ∧ gui.workers i = .finished := by
  have hi := h.1 i
  rw [step_eq hnone, stepRunning, stepGuiWorker] at hi
  split at hi
  · next hnotifying =>
    rw [stepAsync, hnotifying] at hi
    cases hi
  · next hidle =>
    apply And.intro hidle
    split at hi
    · cases hi
    · rw [stepAsync, hidle] at hi
      cases hi
    · assumption
    · cases hi

/-- A consumer that cannot go on waits, or has ended because it was told to. -/
theorem consumer (h : gui.AtRest order earlyAwake)
    (hnone : gui.terminated = none) :
    gui.asyncSolutions.consumer = .waiting ∨
      gui.asyncSolutions.consumer = .stopped := by
  have hconsume := h.2.1
  rw [step_eq hnone, stepRunning, stepGuiConsumer] at hconsume
  cases hconsumer : gui.asyncSolutions.consumer with
  | checking =>
      rw [hconsumer] at hconsume
      dsimp only at hconsume
      rw [stepAsync, hconsumer] at hconsume
      cases hconsume
  | delivering solutionList =>
      rw [hconsumer] at hconsume
      cases hdatabase : gui.multicastSolutions.nextDatabase with
      | none =>
          rw [hdatabase] at hconsume
          dsimp only at hconsume
          rw [stepAsync, hconsumer] at hconsume
          cases hconsume
      | some rows =>
          rw [hdatabase] at hconsume
          dsimp only at hconsume
          split at hconsume <;> cases hconsume
  | waiting => exact Or.inl rfl
  | stopped => exact Or.inr rfl

/-- When all workers are finished, the consumer does not wait while there is
something to do, unless the destructor is about to notify it. -/
theorem idle (h : gui.AtRest order earlyAwake) (hphases : gui.Phases)
    (hnone : gui.terminated = none)
    (hwaiting : gui.asyncSolutions.consumer = .waiting)
    (hdestructor : gui.asyncSolutions.destructor ≠ .notifying) :
    gui.asyncSolutions.m_solutionQueue = [] ∧
      gui.asyncSolutions.m_bShouldStop = false := by
  have hnothing : ¬(gui.asyncSolutions.m_solutionQueue ≠ [] ∨
      gui.asyncSolutions.m_bShouldStop = true) := by
    intro hwork
    rcases hphases.awake hwaiting hwork with ⟨i, hnotifying⟩ | hnotifying
    · rw [(h.worker hnone i).1] at hnotifying
      cases hnotifying
    · exact hdestructor hnotifying
  rw [not_or, not_not, Bool.not_eq_true] at hnothing
  exact hnothing

/-- A main thread that cannot go on waits for an event, or has returned. -/
theorem main (h : gui.AtRest order earlyAwake) (hphases : gui.Phases)
    (hasync : gui.asyncSolutions.Inv) (hnone : gui.terminated = none) :
    gui.main = .waiting ∧ gui.message = false ∨ gui.main = .returned := by
  have hmain := h.2.2.1
  have hawake := h.2.2.2
  rw [step_eq hnone] at hmain hawake
  unfold stepRunning at hmain hawake
  dsimp only at hmain
  rw [stepMain] at hmain
  cases hat : gui.main with
  | waiting =>
      cases hmessage : gui.message with
      | true =>
          rw [hat, hmessage] at hawake
          cases hawake
      | false => exact Or.inl ⟨rfl, rfl⟩
  | returned => exact Or.inr rfl
  | starting | updating | closed =>
      rw [hat] at hmain
      cases hmain
  | fetching b =>
      rw [hat] at hmain
      dsimp only at hmain
      split at hmain
      · cases hmain
      · split at hmain <;> cases hmain
  | joining joined =>
      rw [hat] at hmain
      dsimp only at hmain
      split at hmain
      · next hlt =>
        rw [(h.worker hnone ⟨joined, hlt⟩).2] at hmain
        cases hmain
      · cases hmain
  | destroying =>
      rw [hat] at hmain
      dsimp only at hmain
      rw [stepAsync] at hmain
      cases hdestructor : gui.asyncSolutions.destructor with
      | joined =>
          have hreturned := hphases.returned.mpr hdestructor
          rw [hat] at hreturned
          cases hreturned
      | joining =>
          rcases h.consumer hnone with hwaiting | hstopped
          · have hstop := hasync.stopping
            rw [hdestructor,
              (h.idle hphases hnone hwaiting (by simp [hdestructor])).2] at hstop
            cases hstop
          · rw [hdestructor, hstopped] at hmain
            cases hmain
      | outside | entered | notifying =>
          rw [hdestructor] at hmain
          cases hmain

/-- A waiting program that cannot go on has nothing left to do. -/
theorem quiet {puzzles : List Puzzle}
    {database : Option (List (String × String))}
    (h : gui.AtRest order earlyAwake)
    (hinv : gui.Inv order earlyAwake puzzles database)
    (hnone : gui.terminated = none) (hn : 0 < n) (hmain : gui.main = .waiting) :
    gui.asyncSolutions.consumer = .waiting ∧
      gui.asyncSolutions.m_solutionQueue = [] ∧
      gui.stoppableLoader.m_pLoader.m_puzzles = [] := by
  obtain ⟨haccounts, hphases, -, -⟩ := hinv
  have houtside := hphases.outside (by simp [hmain]) (by simp [hmain])
  have hrunning : gui.asyncSolutions.m_bShouldStop = false := by
    rw [haccounts.async.stopping, houtside]
    rfl
  have hwaiting : gui.asyncSolutions.consumer = .waiting := by
    rcases h.consumer hnone with hwaiting | hstopped
    · exact hwaiting
    · have htold := hphases.consumer hstopped
      rw [hrunning] at htold
      cases htold
  refine ⟨hwaiting, (h.idle hphases hnone hwaiting (by simp [houtside])).1, ?_⟩
  have hfinished := (h.worker hnone ⟨0, hn⟩).2
  rcases (hphases.finished ⟨0, hn⟩ hfinished).2 with hstopped | hleft
  · rw [hphases.stopped, hmain] at hstopped
    cases hstopped
  · exact hleft

/-- It has solved what can be solved. -/
theorem solved {puzzles : List Puzzle}
    {database : Option (List (String × String))}
    (h : gui.AtRest order earlyAwake)
    (hloadable : ∀ puzzle ∈ puzzles, Loadable puzzle)
    (hinv : gui.Inv order earlyAwake puzzles database)
    (hnone : gui.terminated = none) (hn : 0 < n) (hmain : gui.main = .waiting) :
    open Classical in
    (gui.asyncSolutions.delivered.flatten.map Solution.m_puzzle).Perm
      (puzzles.filter fun puzzle => Solvable puzzle) := by
  obtain ⟨hwaiting, hqueue, hleft⟩ := h.quiet hinv hnone hn hmain
  have haccounts := hinv.accounts
  have hadded : gui.asyncSolutions.added.flatten =
      gui.asyncSolutions.delivered.flatten := by
    rw [← haccounts.async.conserved, hwaiting, hqueue]
    simp [Consumer.inHand]
  rw [← hadded]
  apply haccounts.accounted.settled hloadable hleft
  intro i
  rw [(h.worker hnone i).2]
  rfl

/-- No worker has come across a puzzle that is not consistent. -/
theorem consistent {puzzles : List Puzzle}
    {database : Option (List (String × String))}
    (h : gui.AtRest order earlyAwake)
    (hinv : gui.Inv order earlyAwake puzzles database)
    (hnone : gui.terminated = none) (hn : 0 < n) (hmain : gui.main = .waiting) :
    ∀ puzzle ∈ puzzles, Consistent puzzle := by
  obtain ⟨-, -, hleft⟩ := h.quiet hinv hnone hn hmain
  exact hinv.accounts.inspected.consistent_of_finished hleft
    fun i => (h.worker hnone i).2

end Gui.AtRest

/-- A loader that has been stopped hands out no more puzzles. -/
theorem GuiStep.stopped {action : GuiAction n} {gui next : Gui n}
    (h : GuiStep order earlyAwake action gui next)
    (hstopped : gui.stoppableLoader.m_bStopCalled = true) :
    next.stoppableLoader = gui.stoppableLoader := by
  cases h with
  | take _ _ hrunning _ =>
      rw [hstopped] at hrunning
      cases hrunning
  | stop hmain =>
      dsimp only
      rw [StoppableLoader.stop, ← hstopped]
  | _ => rfl

/-- A program that has returned has no thread left. -/
theorem Gui.Phases.stuck (order : Puzzle → Order) (earlyAwake : Bool)
    {gui : Gui n} (h : gui.Phases) (hasync : gui.asyncSolutions.Inv)
    (hreturned : gui.main = .returned) :
    (∀ i, gui.workers i = .finished) ∧
      gui.asyncSolutions.consumer = .stopped ∧
      (guiThreads order earlyAwake n).Stuck gui := by
  have hfinished : ∀ i, gui.workers i = .finished := by
    intro i
    apply h.joined
    rw [hreturned]
    exact i.isLt
  have hstopped := hasync.joined (h.returned.mp hreturned)
  refine ⟨hfinished, hstopped, ?_⟩
  intro action
  cases hstep : (guiThreads order earlyAwake n).step action gui with
  | none => rfl
  | some next =>
      exfalso
      cases (guiStep_of_step hstep).2 with
      | @notify _ i _ hasyncStep =>
          cases hasyncStep with
          | notify hnotifying =>
              rw [(h.finished i (hfinished i)).1] at hnotifying
              cases hnotifying
      | exhausted _ hwaiting _ =>
          rw [hfinished] at hwaiting
          cases hwaiting
      | take _ hwaiting _ _ =>
          rw [hfinished] at hwaiting
          cases hwaiting
      | fail hfailed =>
          rw [hfinished] at hfailed
          cases hfailed
      | add hadding _ =>
          rw [hfinished] at hadding
          cases hadding
      | check hchecking _ =>
          rw [hstopped] at hchecking
          cases hchecking
      | store hdelivering _ _ | refuse hdelivering _ _
      | deliver hdelivering _ | throw hdelivering _ =>
          rw [hstopped] at hdelivering
          cases hdelivering
      | wake hasyncStep =>
          cases hasyncStep with
          | wake hwaiting =>
              rw [hstopped] at hwaiting
              cases hwaiting
      | lock hmain | awake hmain _ | event hmain | fetch hmain _
      | fetched hmain _ | ignored hmain _ | update hmain | close hmain
      | stop hmain | join hmain _ | joined hmain _ | destroy hmain _ =>
          rw [hreturned] at hmain
          cases hmain

/-- Once the loader has been stopped, no interleaving takes another puzzle from
it.  When `main` has returned, no thread is left, and every puzzle of the file
has been left with the loader, been found to have no solution, been solved and
handed over, or been solved and left in the queue. -/
theorem guiThreads_stopped (order : Puzzle → Order) (earlyAwake : Bool)
    {lines : List String} {loader : TextLoader}
    {database : Option (List (String × String))}
    {before after : List (GuiAction n)} {gui last : Gui n}
    (hload : TextLoader.new lines = .ok loader)
    (hbefore : (guiThreads order earlyAwake n).run before
      (Gui.start n loader database) = some gui)
    (hstopped : gui.stoppableLoader.m_bStopCalled = true)
    (hafter : (guiThreads order earlyAwake n).run after gui = some last) :
    last.stoppableLoader = gui.stoppableLoader ∧
      (last.main = .returned →
        (∀ i, last.workers i = .finished) ∧
          last.asyncSolutions.consumer = .stopped ∧
          (guiThreads order earlyAwake n).Stuck last ∧
          ∃ dropped : Multiset Puzzle,
            (∀ puzzle ∈ dropped, ¬Solvable puzzle) ∧
            (gui.stoppableLoader.m_pLoader.m_puzzles : Multiset Puzzle) +
              (last.asyncSolutions.delivered.flatten.map
                Solution.m_puzzle : List Puzzle) +
              (last.asyncSolutions.m_solutionQueue.map
                Solution.m_puzzle : List Puzzle) + dropped =
                  loader.m_puzzles) := by
  have hkept : last.stoppableLoader = gui.stoppableLoader := by
    apply (guiThreads order earlyAwake n).run_invariant
      (P := fun st => st.stoppableLoader = gui.stoppableLoader) ?_ hafter rfl
    intro action st next hst hstep
    rw [← hst] at hstopped ⊢
    exact (guiStep_of_step hstep).2.stopped hstopped
  apply And.intro hkept
  intro hreturned
  have hrun := ((guiThreads order earlyAwake n).run_append_eq_some_iff).mpr
    ⟨gui, hbefore, hafter⟩
  obtain ⟨haccounts, hphases, -, -⟩ := inv_of_guiRun hload hrun
  obtain ⟨hfinished, hconsumer, hstuck⟩ := hphases.stuck order earlyAwake
    haccounts.async hreturned
  refine ⟨hfinished, hconsumer, hstuck, ?_⟩
  obtain ⟨dropped, hdropped, hconserved⟩ := haccounts.accounted.conserved
  refine ⟨dropped, hdropped, ?_⟩
  have htaken : ∑ i, (last.workers i).taken = 0 := by
    apply Finset.sum_eq_zero
    intro i _
    rw [hfinished i]
    rfl
  rw [htaken, ← haccounts.async.conserved, hconsumer, hkept] at hconserved
  rw [← hconserved, List.map_append, List.map_append, ← Multiset.coe_add,
    ← Multiset.coe_add]
  simp only [Consumer.inHand, List.map_nil, Multiset.coe_nil]
  abel

/-- The window is closed while the solution is in the queue. -/
theorem guiThreads_stopped_early :
    ∃ gui last, (guiThreads (fun _ => Order.inOrder) true 1).run
        [.worker 0, .worker 0, .main, .close, .main] (Gui.start 1 ⟨[[0]]⟩ (some [])) =
            some gui ∧
      (guiThreads (fun _ => Order.inOrder) true 1).run
        [.worker 0, .worker 0, .main, .main, .main, .main, .main, .consume,
          .main] gui = some last ∧
      last.asyncSolutions.m_solutionQueue = [⟨[0], [1]⟩] ∧
      (guiThreads (fun _ => Order.inOrder) true 1).Stuck last := by
  have hload : TextLoader.new ["0"] = .ok ⟨[[0]]⟩ := rfl
  refine ⟨_, _, run_one rfl, rfl, rfl, ?_⟩
  exact ((guiThreads_stopped _ _ hload (show (guiThreads _ true 1).run
    [.worker 0, .worker 0, .main, .close, .main] _ = some _ from run_one rfl)
    rfl (show (guiThreads _ true 1).run [.worker 0, .worker 0, .main, .main,
      .main, .main, .main, .consume, .main] _ = some _ from rfl)).2 rfl).2.2.1

/-! ## What the asynchronous solutions see of it -/

theorem step_of_asyncStep {action : Action n} {st next : Async n}
    (h : AsyncStep action st next) :
    (asyncSolutions n).step action st = some next := by
  change stepAsync action st = some next
  cases h with
  | add hidle => simp only [stepAsync, hidle]
  | notify hnotifying => simp only [stepAsync, hnotifying]
  | wait hchecking hrunning hempty =>
      simp [stepAsync, hchecking, Async.check, hrunning, hempty]
  | stop hchecking hstopping =>
      simp [stepAsync, hchecking, Async.check, hstopping]
  | swap hchecking hrunning hqueue =>
      simp [stepAsync, hchecking, Async.check, hrunning, hqueue]
  | deliver hdelivering => simp only [stepAsync, hdelivering]
  | wake hwaiting => simp only [stepAsync, hwaiting]
  | enter houtside => simp only [stepAsync, houtside]
  | setStop hentered => simp only [stepAsync, hentered]
  | notifyStop hnotifying => simp only [stepAsync, hnotifying]
  | join hjoining hstopped => simp only [stepAsync, hjoining, hstopped]

/-- A step of the program leaves the asynchronous solutions alone, or is a step
of theirs in which the producers have been joined first. -/
theorem GuiStep.async {action : GuiAction n} {gui next : Gui n}
    (h : GuiStep order earlyAwake action gui next) (hphases : gui.Phases) :
    next.asyncSolutions = gui.asyncSolutions ∨
      ∃ action', (joinedAsyncSolutions n).step action' gui.asyncSolutions =
        some next.asyncSolutions := by
  have hjoined : ∀ {action' : Action n} {next' : Async n},
      joinedFirst action' gui.asyncSolutions = true →
      AsyncStep action' gui.asyncSolutions next' →
      ∃ action', (joinedAsyncSolutions n).step action' gui.asyncSolutions =
        some next' := by
    intro action' next' hpermitted hstep
    exact ⟨action', (System.restrict_eq_some_iff _).mpr
      ⟨hpermitted, step_of_asyncStep hstep⟩⟩
  cases h with
  | notify hstep => exact Or.inr (hjoined rfl hstep)
  | @add _ i _ _ hadding hstep =>
      -- A worker that has something to add has not been joined.
      have hnot := hphases.not_joined (i := i) (by simp [hadding])
      have houtside : gui.asyncSolutions.destructor = .outside := by
        apply hphases.outside
        · intro hmain
          rw [hmain] at hnot
          exact absurd i.isLt (not_lt.mpr hnot)
        · intro hmain
          rw [hmain] at hnot
          exact absurd i.isLt (not_lt.mpr hnot)
      exact Or.inr (hjoined (by simp [joinedFirst, houtside]) hstep)
  | check _ hstep => exact Or.inr (hjoined rfl hstep)
  | deliver hdelivering _ =>
      exact Or.inr (hjoined rfl (.deliver hdelivering))
  | wake hstep => exact Or.inr (hjoined rfl hstep)
  | destroy hmain hstep =>
      refine Or.inr (hjoined ?_ hstep)
      rw [joinedFirst, List.all_eq_true]
      intro i _
      have hfinished : gui.workers i = .finished := by
        apply hphases.joined
        rw [hmain]
        exact i.isLt
      rw [decide_eq_true_eq]
      exact (hphases.finished i hfinished).1
  | _ => exact Or.inl rfl

/-- Every interleaving of the program is, for its asynchronous solutions, one in
which every `AddSolutions` has returned before the destructor is entered, and in
which none is called later; and the workers are finished by then. -/
theorem guiThreads_async (order : Puzzle → Order) (earlyAwake : Bool)
    {lines : List String} {loader : TextLoader}
    {database : Option (List (String × String))}
    {schedule : List (GuiAction n)} {gui : Gui n}
    (hload : TextLoader.new lines = .ok loader)
    (hrun : (guiThreads order earlyAwake n).run schedule
      (Gui.start n loader database) = some gui) :
    (∃ schedule', (joinedAsyncSolutions n).run schedule' (Async.start n) =
        some gui.asyncSolutions) ∧
      (gui.asyncSolutions.destructor ≠ .outside →
        ∀ i, gui.workers i = .finished) := by
  constructor
  · have hstart : (Gui.start n loader database).Inv order earlyAwake
        loader.m_puzzles database :=
      inv_of_guiRun hload ((guiThreads order earlyAwake n).run_nil _)
    apply (guiThreads order earlyAwake n).exists_run_part Gui.asyncSolutions
      (Gui.Inv.step (TextLoader.loadable hload)) ?_ hrun hstart
    intro action st next hst hstep
    exact (guiStep_of_step hstep).2.async hst.phases
  · intro hdestructor i
    have hphases := (inv_of_guiRun hload hrun).phases
    apply hphases.joined
    have hmain : gui.main = .destroying ∨ gui.main = .returned := by
      by_contra hneither
      obtain ⟨hdestroying, hreturned⟩ := not_or.mp hneither
      exact hdestructor (hphases.outside hdestroying hreturned)
    rcases hmain with hmain | hmain
    · rw [hmain]
      exact i.isLt
    · rw [hmain]
      exact i.isLt

/-- The destructor of the asynchronous solutions has been entered. -/
theorem guiThreads_async_destroying :
    ∃ gui, (guiThreads (fun _ => Order.inOrder) true 1).run
        [.worker 0, .worker 0, .main, .close, .main, .worker 0, .worker 0, .main,
          .main, .main] (Gui.start 1 ⟨[[0]]⟩ (some [])) = some gui ∧
      gui.asyncSolutions.destructor = .entered ∧
      ∃ schedule', (joinedAsyncSolutions 1).run schedule' (Async.start 1) =
        some gui.asyncSolutions := by
  have hload : TextLoader.new ["0"] = .ok ⟨[[0]]⟩ := rfl
  refine ⟨_, run_one rfl, rfl, ?_⟩
  exact (guiThreads_async _ _ hload (show (guiThreads _ true 1).run
    [.worker 0, .worker 0, .main, .close, .main, .worker 0, .worker 0, .main,
      .main, .main] _ = some _ from run_one rfl)).1

end SudokuSolver.Cpp
