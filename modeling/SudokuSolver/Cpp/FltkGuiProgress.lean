import SudokuSolver.Cpp.BatchOutcome
import SudokuSolver.Cpp.FltkGui

/-!
# What the graphical program has solved and shows

In every interleaving no puzzle is lost or counted twice before the loader is
stopped, and the progress bar catches up with what the database has been given.
-/

namespace SudokuSolver.Cpp

open Rounding Transition

variable {n : ℕ} {order : Puzzle → Order} {earlyAwake : Bool}

/-! ## No puzzle is lost or counted twice -/

/-- What neither adds a list nor hands one over; nor does it take back one that
is being handed over. -/
theorem AsyncStep.quiet {action : Action n} {st next : Async n}
    (h : AsyncStep action st next)
    (hadd : ∀ i rSolutionList, action ≠ .add i rSolutionList)
    (hconsume : action = .consume → st.consumer = .checking) :
    next.added = st.added ∧ next.delivered = st.delivered ∧
      ∀ solutionList, st.consumer = .delivering solutionList →
        next.consumer = .delivering solutionList := by
  cases h with
  | @add _ i rSolutionList _ => exact absurd rfl (hadd i rSolutionList)
  | deliver hdelivering =>
      have hchecking := hconsume rfl
      rw [hdelivering] at hchecking
      cases hchecking
  | notify _ | notifyStop _ =>
      refine ⟨rfl, rfl, fun solutionList hdelivering => ?_⟩
      dsimp only
      rw [Async.notifyOne, hdelivering]
      rfl
  | wait hconsumer _ _ | stop hconsumer _ | swap hconsumer _ _
  | wake hconsumer =>
      refine ⟨rfl, rfl, fun solutionList hdelivering => ?_⟩
      rw [hconsumer] at hdelivering
      cases hdelivering
  | _ => exact ⟨rfl, rfl, fun _ hdelivering => hdelivering⟩

/-- The solutions that the database has been given: those that have been handed
over, and those of the list that is being handed over once the database has been
left behind. -/
def Gui.given (gui : Gui n) : List Solution :=
  gui.asyncSolutions.delivered.flatten ++
    if gui.multicastSolutions.stored then gui.asyncSolutions.consumer.inHand
    else []

/-- Every puzzle is accounted for by what has been added; the progress bar has
counted what has been handed over, and the database has the rows of what it has
been given. -/
structure Gui.Accounts (order : Puzzle → Order) (puzzles : List Puzzle)
    (database : Option (List (String × String))) (gui : Gui n) : Prop where
  accounted : Accounted order puzzles gui.stoppableLoader.m_pLoader.m_puzzles
    gui.workers gui.asyncSolutions.added.flatten
  inspected : Inspected puzzles gui.stoppableLoader.m_pLoader.m_puzzles
    gui.workers
  async : gui.asyncSolutions.Inv
  counted : gui.multicastSolutions.progress.m_nSolutionCount =
    gui.asyncSolutions.delivered.flatten.length
  puzzleCount :
    gui.multicastSolutions.progress.m_nPuzzleCount = puzzles.length
  maximum :
    gui.multicastSolutions.progress.maximum = toFloat puzzles.length
  storing : gui.multicastSolutions.stored = true →
    ∃ solutionList, gui.asyncSolutions.consumer = .delivering solutionList
  database : (database.map fun rows => addRows rows gui.given) =
    gui.multicastSolutions.database.map Except.ok

namespace Gui.Accounts

variable {puzzles : List Puzzle} {database : Option (List (String × String))}
variable {gui next : Gui n}

theorem start (order : Puzzle → Order) (n : ℕ) (loader : TextLoader)
    (database : Option (List (String × String))) :
    (Gui.start n loader database).Accounts order loader.m_puzzles
      database where
  accounted := Accounted.start order n loader.m_puzzles
  inspected := Inspected.start n loader.m_puzzles
  async := Async.inv_start n
  counted := rfl
  puzzleCount := rfl
  maximum := rfl
  storing := by simp [Gui.start]
  database := by cases database <;> rfl

/-- A step of the asynchronous solutions that nobody else takes notice of. -/
theorem quiet (h : gui.Accounts order puzzles database) {action : Action n}
    {asyncSolutions : Async n}
    (hstep : AsyncStep action gui.asyncSolutions asyncSolutions)
    (hadd : ∀ i rSolutionList, action ≠ .add i rSolutionList)
    (hconsume : action = .consume → gui.asyncSolutions.consumer = .checking) :
    ({ gui with asyncSolutions := asyncSolutions } : Gui n).Accounts order
      puzzles database := by
  obtain ⟨hadded, hdelivered, hkept⟩ := hstep.quiet hadd hconsume
  have hgiven : ({ gui with asyncSolutions := asyncSolutions } : Gui n).given =
      gui.given := by
    rw [Gui.given, Gui.given]
    dsimp only
    rw [hdelivered]
    split
    · next hstored =>
      obtain ⟨solutionList, hdelivering⟩ := h.storing hstored
      rw [hkept _ hdelivering, hdelivering]
    · rfl
  constructor
  · rw [hadded]
    exact h.accounted
  · exact h.inspected
  · exact h.async.step hstep
  · rw [hdelivered]
    exact h.counted
  · exact h.puzzleCount
  · exact h.maximum
  · intro hstored
    obtain ⟨solutionList, hdelivering⟩ := h.storing hstored
    exact ⟨solutionList, hkept _ hdelivering⟩
  · rw [hgiven]
    exact h.database

/-- A worker changes and the others see nothing of it. -/
theorem worker (h : gui.Accounts order puzzles database)
    {loader : StoppableLoader} {workers : Fin n → Worker}
    (haccounted : Accounted order puzzles loader.m_pLoader.m_puzzles workers
      gui.asyncSolutions.added.flatten)
    (hinspected : Inspected puzzles loader.m_pLoader.m_puzzles workers) :
    ({ gui with stoppableLoader := loader, workers := workers } :
      Gui n).Accounts order puzzles database :=
  ⟨haccounted, hinspected, h.async, h.counted, h.puzzleCount, h.maximum,
    h.storing, h.database⟩

/-- The database is given the list. -/
theorem store (h : gui.Accounts order puzzles database)
    {solutionList : List Solution} {rows rows' : List (String × String)}
    (hdelivering : gui.asyncSolutions.consumer = .delivering solutionList)
    (hdatabase : gui.multicastSolutions.nextDatabase = some rows)
    (hrows : addRows rows solutionList = .ok rows') :
    ({ gui with multicastSolutions := gui.multicastSolutions.store rows' } :
      Gui n).Accounts order puzzles database := by
  obtain ⟨hstored, hsome⟩ :=
    MulticastSolutions.nextDatabase_eq_some_iff.mp hdatabase
  refine ⟨h.accounted, h.inspected, h.async, h.counted, h.puzzleCount,
    h.maximum, fun _ => ⟨solutionList, hdelivering⟩, ?_⟩
  have hbefore := h.database
  rw [Gui.given, hstored, if_neg Bool.false_ne_true, List.append_nil,
    hsome] at hbefore
  obtain ⟨first, hfirst, hadded⟩ := Option.map_eq_some_iff.mp hbefore
  change (database.map fun rows => addRows rows
    (gui.asyncSolutions.delivered.flatten ++
      gui.asyncSolutions.consumer.inHand)) = some (.ok rows')
  rw [hfirst, Option.map_some, addRows_append, hadded, hdelivering]
  exact congrArg some hrows

/-- The progress bar is given the list. -/
theorem deliver (h : gui.Accounts order puzzles database)
    {solutionList : List Solution} {message : Bool}
    (hdelivering : gui.asyncSolutions.consumer = .delivering solutionList)
    (hdatabase : gui.multicastSolutions.nextDatabase = none) :
    ({ gui with
      asyncSolutions := { gui.asyncSolutions with
        consumer := .checking
        delivered := gui.asyncSolutions.delivered ++ [solutionList] }
      multicastSolutions := gui.multicastSolutions.count solutionList
      message := message } : Gui n).Accounts order puzzles database := by
  refine ⟨h.accounted, h.inspected, h.async.step (.deliver hdelivering), ?_,
    h.puzzleCount, h.maximum, ?_, ?_⟩
  · change gui.multicastSolutions.progress.m_nSolutionCount +
      solutionList.length = _
    rw [h.counted, List.flatten_concat, List.length_append]
  · intro hstored
    cases hstored
  · have hbefore := h.database
    change (database.map fun rows => addRows rows
      ((gui.asyncSolutions.delivered ++ [solutionList]).flatten ++ [])) =
        gui.multicastSolutions.database.map Except.ok
    rw [List.append_nil, List.flatten_concat]
    cases hstored : gui.multicastSolutions.stored with
    | true =>
        rw [Gui.given, hstored, if_pos rfl, hdelivering] at hbefore
        exact hbefore
    | false =>
        -- There is no database.
        rw [MulticastSolutions.nextDatabase, hstored,
          if_neg Bool.false_ne_true] at hdatabase
        rw [hdatabase] at hbefore ⊢
        rw [Option.map_none, Option.map_eq_none_iff] at hbefore
        rw [hbefore]
        rfl

theorem step (hloadable : ∀ puzzle ∈ puzzles, Loadable puzzle)
    {action : GuiAction n} (h : gui.Accounts order puzzles database)
    (hstep : GuiStep order earlyAwake action gui next) :
    next.Accounts order puzzles database := by
  have haccounted := h.accounted
  have hinspected := h.inspected
  cases hstep with
  | notify hstep => exact h.quiet hstep (by simp) (by simp)
  | exhausted hidle hwaiting hnone =>
      exact h.worker (haccounted.exhausted hwaiting)
        (hinspected.goOn (by simp [hwaiting]) (by simp))
  | @take _ _ puzzle _ hidle hwaiting hrunning hpuzzles =>
      rw [hpuzzles] at haccounted hinspected
      have hmem : puzzle ∈ puzzles := haccounted.mem_left List.mem_cons_self
      exact h.worker (haccounted.take hwaiting (hloadable puzzle hmem))
        (hinspected.take hwaiting hmem (hloadable puzzle hmem))
  | @add _ i solutionList _ hadding hstep =>
      have hasync := h.async.step hstep
      cases hstep with
      | add hidle =>
          have hadd := haccounted.add hadding
          rw [← List.flatten_concat] at hadd
          exact ⟨hadd, hinspected.goOn (by simp [hadding]) (by simp), hasync,
            h.counted, h.puzzleCount, h.maximum, h.storing, h.database⟩
  | check hchecking hstep =>
      exact h.quiet hstep (by simp) fun _ => hchecking
  | store hdelivering hdatabase hrows =>
      exact h.store hdelivering hdatabase hrows
  | deliver hdelivering hdatabase => exact h.deliver hdelivering hdatabase
  | wake hstep => exact h.quiet hstep (by simp) (by simp)
  | destroy hmain hstep =>
      have hquiet := h.quiet hstep (by simp) (by simp)
      exact ⟨hquiet.accounted, hquiet.inspected, hquiet.async, hquiet.counted,
        hquiet.puzzleCount, hquiet.maximum, hquiet.storing, hquiet.database⟩
  | _ =>
      exact ⟨haccounted, hinspected, h.async, h.counted, h.puzzleCount,
        h.maximum, h.storing, h.database⟩

end Gui.Accounts

/-! ## Where the threads are -/

/-- The main thread has called `Stop`. -/
def Main.hasStopped : Main → Bool
  | .joining _ => true
  | .destroying => true
  | .returned => true
  | _ => false

/-- The number of workers that the main thread has joined. -/
def Main.joined (n : ℕ) : Main → ℕ
  | .joining joined => joined
  | .destroying => n
  | .returned => n
  | _ => 0

/-- The consumer thread ends only after it has been told to. -/
def Async.StopsWhenTold (st : Async n) : Prop :=
  st.consumer = .stopped → st.m_bShouldStop = true

theorem Async.StopsWhenTold.step {action : Action n} {st next : Async n}
    (htold : st.StopsWhenTold) (h : AsyncStep action st next) :
    next.StopsWhenTold := by
  intro hstopped
  cases h with
  | notify _ | notifyStop _ =>
      apply htold
      dsimp only at hstopped
      rw [Async.notifyOne] at hstopped
      dsimp only at hstopped
      split at hstopped
      · cases hstopped
      · exact hstopped
  | stop _ hstopping => exact hstopping
  | setStop _ => rfl
  | add _ | enter _ => exact htold hstopped
  | join _ hstopped' => exact htold hstopped'
  | _ => cases hstopped

/-- How far the threads can have got while the main thread is where it is. -/
structure Gui.Phases (gui : Gui n) : Prop where
  stopped : gui.stoppableLoader.m_bStopCalled = gui.main.hasStopped
  outside : gui.main ≠ .destroying → gui.main ≠ .returned →
    gui.asyncSolutions.destructor = .outside
  returned : gui.main = .returned ↔ gui.asyncSolutions.destructor = .joined
  finished : ∀ i, gui.workers i = .finished →
    gui.asyncSolutions.producers i = .idle ∧
      (gui.stoppableLoader.m_bStopCalled = true ∨
        gui.stoppableLoader.m_pLoader.m_puzzles = [])
  joined : ∀ i : Fin n, i < gui.main.joined n → gui.workers i = .finished
  awake : gui.asyncSolutions.NoLostWakeUp
  consumer : gui.asyncSolutions.StopsWhenTold

namespace Gui.Phases

variable {gui next : Gui n}

theorem start (n : ℕ) (loader : TextLoader)
    (database : Option (List (String × String))) :
    (Gui.start n loader database).Phases where
  stopped := rfl
  outside _ _ := rfl
  returned := by simp [Gui.start, Async.start]
  finished := by simp [Gui.start]
  joined := by simp [Gui.start, Main.joined]
  awake := by
    intro hwaiting
    exact absurd hwaiting (by simp [Gui.start, Async.start])
  consumer := by
    intro hstopped
    exact absurd hstopped (by simp [Gui.start, Async.start])

/-- A worker that is not finished has not been joined. -/
theorem not_joined (h : gui.Phases) {i : Fin n}
    (hrunning : gui.workers i ≠ .finished) : gui.main.joined n ≤ i := by
  by_contra hlt
  exact hrunning (h.joined i (not_le.mp hlt))

/-- A worker that is not finished changes. -/
theorem worker (h : gui.Phases) {i : Fin n} {worker : Worker}
    {loader : StoppableLoader} {asyncSolutions : Async n}
    (hrunning : gui.workers i ≠ .finished)
    (hloader : loader.m_bStopCalled = gui.stoppableLoader.m_bStopCalled)
    (hleft : gui.stoppableLoader.m_pLoader.m_puzzles = [] →
      loader.m_pLoader.m_puzzles = [])
    (hdestructor : asyncSolutions.destructor =
      gui.asyncSolutions.destructor)
    (hproducers : ∀ j, j ≠ i →
      asyncSolutions.producers j = gui.asyncSolutions.producers j)
    (hawake : asyncSolutions.NoLostWakeUp)
    (hconsumer : asyncSolutions.StopsWhenTold)
    (hfinished : worker = .finished → asyncSolutions.producers i = .idle ∧
      (loader.m_bStopCalled = true ∨ loader.m_pLoader.m_puzzles = [])) :
    ({ gui with
      stoppableLoader := loader
      workers := Function.update gui.workers i worker
      asyncSolutions := asyncSolutions } : Gui n).Phases := by
  constructor
  · exact hloader.trans h.stopped
  · intro hdestroying hreturned
    exact hdestructor.trans (h.outside hdestroying hreturned)
  · rw [hdestructor]
    exact h.returned
  · intro j hj
    by_cases hji : j = i
    · subst hji
      dsimp only at hj
      rw [Function.update_self] at hj
      exact hfinished hj
    · dsimp only at hj ⊢
      rw [Function.update_of_ne hji] at hj
      obtain ⟨hidle, hnothing⟩ := h.finished j hj
      rw [hproducers j hji, hloader]
      exact ⟨hidle, hnothing.imp_right hleft⟩
  · intro j hj
    have hjoined := h.joined j hj
    by_cases hji : j = i
    · subst hji
      exact absurd hjoined hrunning
    · dsimp only
      rw [Function.update_of_ne hji]
      exact hjoined
  · exact hawake
  · exact hconsumer

/-- A step of the asynchronous solutions which leaves no producer on its way that
was not, and does not concern the destructor. -/
theorem quiet (h : gui.Phases) {action : Action n} {asyncSolutions : Async n}
    {multicast : MulticastSolutions} {message : Bool}
    (hstep : AsyncStep action gui.asyncSolutions asyncSolutions)
    (hdestructor : asyncSolutions.destructor = gui.asyncSolutions.destructor)
    (hproducers : ∀ i, gui.asyncSolutions.producers i = .idle →
      asyncSolutions.producers i = .idle) :
    ({ gui with
      asyncSolutions := asyncSolutions
      multicastSolutions := multicast
      message := message } : Gui n).Phases := by
  obtain ⟨hstopped, houtside, hreturned, hfinished, hjoined, hawake,
    hconsumer⟩ := h
  constructor
  · exact hstopped
  · rwa [hdestructor]
  · rwa [hdestructor]
  · intro i hi
    exact (hfinished i hi).imp_left (hproducers i)
  · exact hjoined
  · exact hawake.step hstep
  · exact hconsumer.step hstep

/-- A step of the main thread that calls nothing of the other objects. -/
theorem moved (h : gui.Phases) {main : Main} {multicast : MulticastSolutions}
    {message : Bool} (hstopped : main.hasStopped = gui.main.hasStopped)
    (houtside : main ≠ .returned → gui.main ≠ .destroying ∧
      gui.main ≠ .returned)
    (hreturned : main ≠ .returned)
    (hjoined : ∀ i : Fin n, i < main.joined n → gui.workers i = .finished) :
    ({ gui with
      multicastSolutions := multicast
      message := message
      main := main } : Gui n).Phases := by
  obtain ⟨hdestroying, hnot⟩ := houtside hreturned
  constructor
  · exact h.stopped.trans hstopped.symm
  · exact fun _ _ => h.outside hdestroying hnot
  · rw [← h.returned]
    exact iff_of_false hreturned hnot
  · exact h.finished
  · exact hjoined
  · exact h.awake
  · exact h.consumer

theorem destroy (h : gui.Phases) {asyncSolutions : Async n}
    (hmain : gui.main = .destroying)
    (hstep : AsyncStep .destroy gui.asyncSolutions asyncSolutions) :
    ({ gui with
      asyncSolutions := asyncSolutions
      main :=
        if asyncSolutions.destructor = .joined then .returned
        else .destroying } : Gui n).Phases := by
  have hproducers :
      asyncSolutions.producers = gui.asyncSolutions.producers := by
    cases hstep <;> rfl
  have hstopped := h.stopped
  have hjoined := h.joined
  rw [hmain] at hstopped hjoined
  constructor
  · rw [hstopped]
    dsimp only
    split <;> rfl
  · intro hdestroying hreturned
    dsimp only at hdestroying hreturned
    split at hdestroying
    · next hlast => exact absurd (if_pos hlast) hreturned
    · exact absurd rfl hdestroying
  · dsimp only
    split
    · next hlast => exact iff_of_true rfl hlast
    · next hlast => exact iff_of_false (by simp) hlast
  · intro i hi
    rw [hproducers]
    exact h.finished i hi
  · intro i hi
    exact hjoined i i.isLt
  · exact h.awake.step hstep
  · exact h.consumer.step hstep

theorem step {action : GuiAction n} (h : gui.Phases)
    (hstep : GuiStep order earlyAwake action gui next) : next.Phases := by
  cases hstep with
  | @notify _ i _ hstep =>
      refine h.quiet hstep ?_ ?_
      · cases hstep
        rfl
      · intro j hj
        cases hstep with
        | notify hnotifying =>
            by_cases hji : j = i
            · subst hji
              exact Function.update_self _ _ _
            · exact (Function.update_of_ne hji _ _).trans hj
  | exhausted hidle hwaiting hnothing =>
      apply h.worker (by simp [hwaiting]) rfl id rfl (fun _ _ => rfl) h.awake
        h.consumer
      exact fun _ => ⟨hidle, hnothing⟩
  | @take _ _ puzzle puzzles hidle hwaiting hrunning hpuzzles =>
      refine h.worker (by simp [hwaiting]) rfl ?_ rfl (fun _ _ => rfl) h.awake
        h.consumer ?_
      · intro hempty
        rw [hempty] at hpuzzles
        cases hpuzzles
      · intro hfinished
        rw [afterGetPuzzle] at hfinished
        split at hfinished <;> cases hfinished
  | @add _ i _ _ hadding hstep =>
      have hawake := h.awake.step hstep
      have hconsumer := h.consumer.step hstep
      cases hstep with
      | add hidle =>
          refine h.worker (by simp [hadding]) rfl id rfl ?_ hawake hconsumer
            (by simp)
          intro j hj
          exact Function.update_of_ne hj _ _
  | check hchecking hstep =>
      refine h.quiet hstep ?_ ?_
      · cases hstep <;> rfl
      · cases hstep <;> exact fun _ hi => hi
  | fail _ | store _ _ _ | refuse _ _ _ | throw _ _ =>
      exact ⟨h.stopped, h.outside, h.returned, h.finished, h.joined, h.awake,
        h.consumer⟩
  | deliver hdelivering _ =>
      exact h.quiet (.deliver hdelivering) rfl fun _ hi => hi
  | wake hstep =>
      refine h.quiet hstep ?_ ?_
      · cases hstep
        rfl
      · cases hstep
        exact fun _ hi => hi
  | stop hmain =>
      have houtside := h.outside (by simp [hmain]) (by simp [hmain])
      constructor
      · rfl
      · exact fun _ _ => houtside
      · exact iff_of_false (by simp) (by simp [houtside])
      · intro i hi
        exact ⟨(h.finished i hi).1, Or.inl rfl⟩
      · simp [Main.joined]
      · exact h.awake
      · exact h.consumer
  | @join _ i hmain hfinished =>
      refine h.moved ?_ (by simp [hmain]) (by simp) ?_
      · rw [hmain]
        rfl
      · intro j hj
        have hjoined := h.joined j
        rw [hmain] at hjoined
        rcases Nat.lt_succ_iff_lt_or_eq.mp hj with hlt | heq
        · exact hjoined hlt
        · rwa [Fin.ext heq]
  | joined hmain hall =>
      refine h.moved ?_ (by simp [hmain]) (by simp) ?_
      · rw [hmain]
        rfl
      · intro j _
        have hjoined := h.joined j
        rw [hmain] at hjoined
        exact hjoined (lt_of_lt_of_le j.isLt hall)
  | destroy hmain hstep => exact h.destroy hmain hstep
  | lock hmain | awake hmain _ | event hmain | fetch hmain _ | fetched hmain _
  | ignored hmain _ | update hmain | close hmain =>
      refine h.moved ?_ (by simp [hmain]) (by simp) (by simp [Main.joined])
      rw [hmain]
      rfl

end Gui.Phases

/-! ## What the progress bar shows -/

/-- The widget shows that `count` puzzles have been solved. -/
structure SolutionsProgress.Shows (progress : SolutionsProgress) (count : ℕ) :
    Prop where
  value : progress.value = toFloat count
  selectionColor : progress.selectionColor =
    if progress.m_nPuzzleCount = count then .green else .blue
  label : progress.label = "Solved " ++ toString count ++ " of " ++
    toString progress.m_nPuzzleCount

namespace SolutionsProgress

variable {progress : SolutionsProgress} {count : ℕ}

theorem shows_update (progress : SolutionsProgress) :
    progress.update.Shows progress.m_nSolutionCount :=
  ⟨rfl, rfl, rfl⟩

theorem Shows.addSolutions (h : progress.Shows count)
    (rSolutionList : List Solution) :
    (progress.addSolutions rSolutionList).Shows count :=
  ⟨h.value, h.selectionColor, h.label⟩

theorem Shows.green_iff (h : progress.Shows count) :
    progress.selectionColor = .green ↔ progress.m_nPuzzleCount = count := by
  rw [h.selectionColor]
  split
  · next heq => exact iff_of_true rfl heq
  · next hne => exact iff_of_false (by simp) hne

end SolutionsProgress

/-- The main thread knows of a message, or will find one. -/
def Gui.Notified (gui : Gui n) : Prop :=
  gui.message = true ∨ gui.main = .fetching true ∨ gui.main = .updating

/-- The progress bar shows an earlier count; and unless the main thread is about
to bring it up to date, it shows the count of now, or no message has been kept
so far. -/
structure Gui.Shown (earlyAwake : Bool) (gui : Gui n) : Prop where
  behind : ∃ count ≤ gui.multicastSolutions.progress.m_nSolutionCount,
    gui.multicastSolutions.progress.Shows count
  starting : gui.main = .starting → gui.multicastSolutions.progress.Shows 0
  current : gui.Notified ∨
    gui.multicastSolutions.progress.Shows
      gui.multicastSolutions.progress.m_nSolutionCount ∨
    earlyAwake = false ∧ gui.multicastSolutions.progress.Shows 0

namespace Gui.Shown

variable {gui next : Gui n}

theorem start (n : ℕ) (loader : TextLoader)
    (database : Option (List (String × String))) :
    (Gui.start n loader database).Shown earlyAwake := by
  have hshows : (SolutionsProgress.new loader.getPuzzleCount).Shows 0 :=
    SolutionsProgress.shows_update _
  exact ⟨⟨0, le_rfl, hshows⟩, fun _ => hshows, Or.inr (Or.inl hshows)⟩

theorem deliver (h : gui.Shown earlyAwake) {asyncSolutions : Async n}
    (solutionList : List Solution) :
    ({ gui with
      asyncSolutions := asyncSolutions
      multicastSolutions := gui.multicastSolutions.count solutionList
      message := gui.message || earlyAwake || gui.main ≠ .starting } :
        Gui n).Shown earlyAwake := by
  obtain ⟨⟨count, hle, hshows⟩, hstarting, hcurrent⟩ := h
  refine ⟨⟨count, le_trans hle (Nat.le_add_right _ _),
    hshows.addSolutions _⟩, fun hmain => (hstarting hmain).addSolutions _, ?_⟩
  by_cases hmain : gui.main = .starting
  · cases earlyAwake with
    | true => exact Or.inl (Or.inl (by simp))
    | false =>
        exact Or.inr (Or.inr ⟨rfl, (hstarting hmain).addSolutions _⟩)
  · exact Or.inl (Or.inl (by simp [hmain]))

/-- A step of the main thread that does not change the progress bar. -/
theorem moved (h : gui.Shown earlyAwake) {main : Main} {message : Bool}
    {loader : StoppableLoader} {asyncSolutions : Async n}
    (hstarting : main ≠ .starting)
    (hnotified : gui.Notified →
      message = true ∨ main = .fetching true ∨ main = .updating) :
    ({ gui with
      stoppableLoader := loader
      asyncSolutions := asyncSolutions
      message := message
      main := main } : Gui n).Shown earlyAwake :=
  ⟨h.behind, fun hmain => absurd hmain hstarting, h.current.imp_left hnotified⟩

theorem step {action : GuiAction n} (h : gui.Shown earlyAwake)
    (hstep : GuiStep order earlyAwake action gui next) :
    next.Shown earlyAwake := by
  cases hstep with
  | deliver hdelivering _ => exact h.deliver _
  | update hmain =>
      have hshows := SolutionsProgress.shows_update
        gui.multicastSolutions.progress
      exact ⟨⟨_, le_rfl, hshows⟩, by simp, Or.inr (Or.inl hshows)⟩
  | lock hmain | awake hmain _ | event hmain | close hmain | stop hmain
  | join hmain _ | joined hmain _ | ignored hmain _ =>
      apply h.moved (by simp)
      rintro (hmessage | hfetching | hupdating)
      · simp_all
      · simp_all
      · simp_all
  | fetch hmain hmessage =>
      apply h.moved (by simp)
      exact fun _ => Or.inr (Or.inl rfl)
  | fetched hmain hmessage =>
      apply h.moved (by simp)
      exact fun _ => Or.inr (Or.inr rfl)
  | destroy hmain hstep =>
      apply h.moved
      · split <;> simp
      · rintro (hmessage | hfetching | hupdating)
        · exact Or.inl hmessage
        · simp [hmain] at hfetching
        · simp [hmain] at hupdating
  | _ => exact ⟨h.behind, h.starting, h.current⟩

end Gui.Shown

/-! ## Every interleaving -/

/-- The program is terminated because of a puzzle or by the database. -/
def Gui.Ended (puzzles : List Puzzle) (gui : Gui n) : Prop :=
  gui.terminated ≠ none → (∃ puzzle ∈ puzzles, ¬Consistent puzzle) ∨
    gui.multicastSolutions.database ≠ none

theorem Gui.Ended.step {puzzles : List Puzzle}
    {database : Option (List (String × String))} {action : GuiAction n}
    {gui next : Gui n} (haccounts : gui.Accounts order puzzles database)
    (hnone : gui.terminated = none)
    (hstep : GuiStep order earlyAwake action gui next) : next.Ended puzzles := by
  intro hterminated
  cases hstep with
  | @fail _ i message hfailed =>
      exact Or.inl (haccounts.inspected.failed i message hfailed).2
  | refuse _ hdatabase _ | throw _ hdatabase =>
      have hsome := MulticastSolutions.nextDatabase_eq_some_iff.mp hdatabase
      exact Or.inr (by simp [hsome.2])
  | _ => exact absurd hnone hterminated

/-- What holds of every state that a program with the puzzles can reach. -/
structure Gui.Inv (order : Puzzle → Order) (earlyAwake : Bool)
    (puzzles : List Puzzle) (database : Option (List (String × String)))
    (gui : Gui n) : Prop where
  accounts : gui.Accounts order puzzles database
  phases : gui.Phases
  shown : gui.Shown earlyAwake
  ended : gui.Ended puzzles

theorem Gui.Inv.step {puzzles : List Puzzle}
    {database : Option (List (String × String))}
    (hloadable : ∀ puzzle ∈ puzzles, Loadable puzzle)
    (action : GuiAction n) (gui next : Gui n)
    (h : gui.Inv order earlyAwake puzzles database)
    (hstep : (guiThreads order earlyAwake n).step action gui = some next) :
    next.Inv order earlyAwake puzzles database := by
  obtain ⟨hnone, hstep⟩ := guiStep_of_step hstep
  exact ⟨h.accounts.step hloadable hstep, h.phases.step hstep,
    h.shown.step hstep, Gui.Ended.step h.accounts hnone hstep⟩

theorem inv_of_guiRun {lines : List String} {loader : TextLoader}
    {database : Option (List (String × String))}
    {schedule : List (GuiAction n)} {gui : Gui n}
    (hload : TextLoader.new lines = .ok loader)
    (hrun : (guiThreads order earlyAwake n).run schedule
      (Gui.start n loader database) = some gui) :
    gui.Inv order earlyAwake loader.m_puzzles database := by
  apply (guiThreads order earlyAwake n).run_invariant
    (Gui.Inv.step (TextLoader.loadable hload)) hrun
  exact ⟨Gui.Accounts.start order n loader database,
    Gui.Phases.start n loader database, Gui.Shown.start n loader database,
    fun hterminated => absurd rfl hterminated⟩

/-- The solutions that have been added and not yet handed over. -/
def Async.underway (st : Async n) : List Solution :=
  st.consumer.inHand ++ st.m_solutionQueue

/-- What the database has been given is what has been handed over, and once the
loop has left it behind also the list that is being handed over. -/
theorem Gui.Accounts.given_cases {puzzles : List Puzzle}
    {database : Option (List (String × String))} {gui : Gui n}
    (h : gui.Accounts order puzzles database) :
    gui.given = gui.asyncSolutions.delivered.flatten ∨
      ∃ solutionList,
        gui.asyncSolutions.consumer = .delivering solutionList ∧
        gui.given = gui.asyncSolutions.delivered.flatten ++ solutionList := by
  rw [Gui.given]
  split
  · next hstored =>
    obtain ⟨solutionList, hdelivering⟩ := h.storing hstored
    refine Or.inr ⟨solutionList, hdelivering, ?_⟩
    rw [hdelivering]
    rfl
  · exact Or.inl (List.append_nil _)

/-- A database that was there from the start is still there. -/
theorem Gui.Accounts.exists_rows {puzzles : List Puzzle}
    {rows : List (String × String)} {gui : Gui n}
    (h : gui.Accounts order puzzles (some rows)) :
    ∃ rows', gui.multicastSolutions.database = some rows' ∧
      addRows rows gui.given = .ok rows' := by
  obtain ⟨rows', hrows', hadded⟩ := Option.map_eq_some_iff.mp h.database.symm
  exact ⟨rows', hrows', hadded.symm⟩

/-- In every state of every interleaving the puzzles of the file are, but for
some that have been found to have no solution, with the loader, with a worker,
on their way to the consumers or handed over to them, each as often as it is in
the file; the solutions are right; the progress bar has counted those that have
been handed over, of which there are never more than puzzles; and the database,
which is given a list before the progress bar is, has just the rows it had at
first and those of the solutions it has been given, and no row twice. -/
theorem guiThreads_accounted (order : Puzzle → Order) (earlyAwake : Bool)
    {lines : List String} {loader : TextLoader}
    {database : Option (List (String × String))}
    {schedule : List (GuiAction n)} {gui : Gui n}
    (hload : TextLoader.new lines = .ok loader)
    (hrun : (guiThreads order earlyAwake n).run schedule
      (Gui.start n loader database) = some gui) :
    let solved := gui.asyncSolutions.delivered.flatten
    (∃ dropped : Multiset Puzzle, (∀ puzzle ∈ dropped, ¬Solvable puzzle) ∧
      (gui.stoppableLoader.m_pLoader.m_puzzles : Multiset Puzzle) +
        ∑ i, (gui.workers i).taken +
        (gui.asyncSolutions.underway.map Solution.m_puzzle : List Puzzle) +
        (solved.map Solution.m_puzzle : List Puzzle) + dropped =
          loader.m_puzzles) ∧
      (∀ solution ∈ solved ++ gui.asyncSolutions.underway,
        IsSolution solution.m_puzzle solution.m_solution) ∧
      gui.multicastSolutions.progress.m_nSolutionCount = solved.length ∧
      solved.length ≤ loader.getPuzzleCount ∧
      (gui.given = solved ∨ ∃ solutionList,
        gui.asyncSolutions.consumer = .delivering solutionList ∧
          gui.given = solved ++ solutionList) ∧
      ∀ rows, database = some rows → ∃ rows',
        gui.multicastSolutions.database = some rows' ∧
        (rows.Nodup → rows'.Nodup) ∧
        (∀ row, row ∈ rows' ↔
          row ∈ rows ∨ ∃ solution ∈ gui.given, rowOf solution = .ok row) ∧
        ∀ solution ∈ gui.given, ∃ row ∈ rows', rowOf solution = .ok row := by
  intro solved
  have haccounts := (inv_of_guiRun hload hrun).accounts
  have haccounted := haccounts.accounted
  have hadded : solved ++ gui.asyncSolutions.underway =
      gui.asyncSolutions.added.flatten := by
    rw [← haccounts.async.conserved, List.append_assoc]
    rfl
  have hlength := haccounted.length_le
  rw [← hadded] at haccounted hlength
  refine ⟨?_, ?_, haccounts.counted, ?_, haccounts.given_cases, ?_⟩
  · obtain ⟨dropped, hdropped, hconserved⟩ := haccounted.conserved
    refine ⟨dropped, hdropped, ?_⟩
    rw [← hconserved, List.map_append, ← Multiset.coe_add]
    abel
  · intro solution hsolution
    exact haccounted.isSolution (TextLoader.loadable hload) hsolution
  · rw [List.length_append] at hlength
    exact le_trans (Nat.le_add_right _ _) hlength
  · rintro rows rfl
    obtain ⟨rows', hrows', hgiven⟩ := haccounts.exists_rows
    obtain ⟨hnodup, hmem⟩ := addRows_spec hgiven
    refine ⟨rows', hrows', hnodup, hmem, ?_⟩
    intro solution hsolution
    obtain ⟨row, hrow⟩ := rowOf_of_mem hgiven hsolution
    exact ⟨row, (hmem row).mpr (Or.inr ⟨solution, hsolution, hrow⟩), hrow⟩

/-- The program with the puzzle of one square and an empty database after a
worker has taken the puzzle. -/
def Gui.takenOne : Gui 1 :=
  { Gui.start 1 ⟨[[0]]⟩ (some []) with
    stoppableLoader := ⟨⟨[]⟩, false⟩
    workers := Function.update (fun _ => .waiting) ⟨0, Nat.one_pos⟩
      (.adding [⟨[0], [1]⟩]) }

theorem run_one {schedule : List (GuiAction 1)} {gui : Gui 1}
    (h : (guiThreads (fun _ => Order.inOrder) true 1).run schedule
      Gui.takenOne = some gui) :
    (guiThreads (fun _ => Order.inOrder) true 1).run (.worker 0 :: schedule)
      (Gui.start 1 ⟨[[0]]⟩ (some [])) = some gui := by
  rw [← h, Gui.takenOne, ← afterGetPuzzle_one]
  rfl

/-- The database has the solution, and the progress bar has not counted it. -/
theorem guiThreads_accounted_stored :
    ∃ gui, (guiThreads (fun _ => Order.inOrder) true 1).run
        [.worker 0, .worker 0, .consume, .consume]
        (Gui.start 1 ⟨[[0]]⟩ (some [])) = some gui ∧
      gui.given = [⟨[0], [1]⟩] ∧
      gui.multicastSolutions.progress.m_nSolutionCount = 0 ∧
      ∃ rows, gui.multicastSolutions.database = some rows ∧
        (".", "1") ∈ rows ∧ rows.Nodup := by
  have hload : TextLoader.new ["0"] = .ok ⟨[[0]]⟩ := rfl
  refine ⟨_, run_one rfl, rfl, rfl, ?_⟩
  obtain ⟨-, -, -, -, -, hdatabase⟩ := guiThreads_accounted _ _ hload
    (show (guiThreads _ true 1).run [.worker 0, .worker 0, .consume, .consume]
      _ = some _ from run_one rfl)
  obtain ⟨rows, hrows, hnodup, hmem, -⟩ := hdatabase [] rfl
  refine ⟨rows, hrows, ?_, hnodup List.nodup_nil⟩
  rw [hmem]
  exact Or.inr ⟨⟨[0], [1]⟩, List.mem_singleton_self _, rfl⟩

/-- Once the progress bar is green, all puzzles have been solved. -/
theorem Gui.Inv.green {puzzles : List Puzzle}
    {database : Option (List (String × String))} {gui : Gui n}
    (h : gui.Inv order earlyAwake puzzles database)
    (hgreen : gui.multicastSolutions.progress.selectionColor = .green) :
    gui.multicastSolutions.progress.m_nSolutionCount = puzzles.length ∧
      (gui.asyncSolutions.delivered.flatten.map Solution.m_puzzle).Perm
        puzzles := by
  have haccounts := h.accounts
  have haccounted := haccounts.accounted
  rw [← haccounts.async.conserved, List.append_assoc] at haccounted
  have hlength := haccounted.length_le
  rw [List.length_append, ← haccounts.counted] at hlength
  obtain ⟨count, hle, hshows⟩ := h.shown.behind
  have hcount := hshows.green_iff.mp hgreen
  rw [haccounts.puzzleCount] at hcount
  have hall : gui.multicastSolutions.progress.m_nSolutionCount =
      puzzles.length := by
    omega
  have hnothing : gui.asyncSolutions.consumer.inHand ++
      gui.asyncSolutions.m_solutionQueue = [] :=
    List.length_eq_zero_iff.mp (by omega)
  rw [hnothing, List.append_nil] at haccounted
  apply And.intro hall
  apply haccounted.of_length_eq
  rw [← haccounts.counted, hall]

/-- Once the progress bar is green, it stays so. -/
theorem Gui.Inv.green_step {puzzles : List Puzzle}
    {database : Option (List (String × String))} {action : GuiAction n}
    {gui next : Gui n} (h : gui.Inv order earlyAwake puzzles database)
    (hstep : GuiStep order earlyAwake action gui next)
    (hgreen : gui.multicastSolutions.progress.selectionColor = .green) :
    next.multicastSolutions.progress.selectionColor = .green := by
  cases hstep with
  | update hmain =>
      have hcount := (h.green hgreen).1
      rw [(SolutionsProgress.shows_update _).green_iff, hcount]
      exact h.accounts.puzzleCount
  | _ => exact hgreen

/-- The widget shows no more than its maximum. -/
theorem Gui.Inv.value_le {puzzles : List Puzzle}
    {database : Option (List (String × String))} {gui : Gui n}
    (h : gui.Inv order earlyAwake puzzles database) :
    gui.multicastSolutions.progress.value ≤
      gui.multicastSolutions.progress.maximum := by
  have haccounts := h.accounts
  have hlength := haccounts.accounted.length_le
  rw [← haccounts.async.conserved, List.append_assoc, List.length_append,
    ← haccounts.counted] at hlength
  obtain ⟨count, hle, hshows⟩ := h.shown.behind
  rw [hshows.value, haccounts.maximum]
  exact round_mono (by decide) (by omega)

end SudokuSolver.Cpp
