import SudokuSolver.Cpp.Console

/-!
# What the console program prints

Only the worker that holds the mutex prints, so that the text is at all times
made up of whole solutions but for the last one, and in the end there is one for
each puzzle that has one.
-/

namespace SudokuSolver.Cpp

open Transition

variable {n : ℕ} {order : Puzzle → Order}

/-! ## The text of a solution -/

/-- The strings of a solution whose puzzle and values can be converted. -/
def stringsOf (rSolution : Solution) : List String :=
  match streamed rSolution with
  | .ok strings => strings
  | .error _ => []

/-- The text that is printed for a solution. -/
def IsText (rSolution : Solution) (text : String) : Prop :=
  ∃ puzzle solution, puzzleToString rSolution.m_puzzle = .ok puzzle ∧
    puzzleToString rSolution.m_solution = .ok solution ∧
    text = "Puzzle:   " ++ puzzle ++ "\nSolution: " ++ solution ++ "\n\n"

theorem length_of_streamed {rSolution : Solution} {strings : List String}
    (h : streamed rSolution = .ok strings) : strings.length = 6 := by
  obtain ⟨puzzle, -, h⟩ := bind_eq_ok_iff.mp h
  obtain ⟨solution, -, h⟩ := bind_eq_ok_iff.mp h
  cases h
  rfl

theorem stringsOf_eq {rSolution : Solution} {strings : List String}
    (h : streamed rSolution = .ok strings) : stringsOf rSolution = strings := by
  rw [stringsOf, h]

/-- The solution of a puzzle from a loader can be printed. -/
theorem exists_streamed {rSolution : Solution}
    (hpuzzle : Loadable rSolution.m_puzzle)
    (hsolution : IsSolution rSolution.m_puzzle rSolution.m_solution) :
    (∃ strings, streamed rSolution = .ok strings) ∧
      IsText rSolution (String.join (stringsOf rSolution)) := by
  obtain ⟨puzzle, hpuzzleText⟩ := exists_puzzleText hpuzzle
  obtain ⟨solution, hsolutionText⟩ := exists_text hpuzzle hsolution
  have hstreamed : streamed rSolution = .ok
      ["Puzzle:   ", puzzle, "\n", "Solution: ", solution, "\n\n"] := by
    rw [streamed, hpuzzleText, hsolutionText]
    rfl
  refine ⟨⟨_, hstreamed⟩, puzzle, solution, hpuzzleText, hsolutionText, ?_⟩
  rw [stringsOf_eq hstreamed]
  simp only [String.join_cons, String.join_nil, String.append_assoc,
    String.append_empty]
  rfl

/-! ## Only the owner of the mutex prints -/

def Printer.unprinted : Printer → List String
  | .outside _ => []
  | .printing strings solutionList =>
      strings ++ solutionList.flatMap stringsOf

/-- The strings that the owner of the mutex has still to insert. -/
def Console.unprinted (console : Console n) : List String :=
  match console.m_mutex with
  | none => []
  | some i => (console.printers i).unprinted

def Printer.isPrinting : Printer → Bool
  | .outside _ => false
  | .printing _ _ => true

/-- What holds in every state: the text so far and what its worker has still to
insert are the solutions that were handed on, one after the other; and only a
worker that has failed terminates the program. -/
structure Console.Inv (order : Puzzle → Order) (puzzles : List Puzzle)
    (console : Console n) : Prop where
  examined : console.batch.Examined order puzzles
  mutex : ∀ i, (console.printers i).isPrinting = true ↔
    console.m_mutex = some i
  text : console.cout ++ String.join console.unprinted =
    String.join (console.handed.flatMap stringsOf)
  handed : ∀ i strings solutionList,
    console.printers i = .printing strings solutionList →
      ∀ solution ∈ solutionList, solution ∈ console.handed
  failed : ∀ message, console.terminated = some message →
    ∃ i, console.printers i = .outside (.failed message)

namespace Console.Inv

variable {puzzles : List Puzzle} {console next : Console n}

theorem start (order : Puzzle → Order) (n : ℕ) (loader : TextLoader) :
    (Console.start n loader).Inv order loader.m_puzzles where
  examined := Batch.Examined.start order n loader
  mutex := by simp [Console.start, Printer.isPrinting]
  text := rfl
  handed := by simp [Console.start]
  failed := by simp [Console.start]

/-- A worker outside of the critical section does not own the mutex. -/
theorem not_owner (h : console.Inv order puzzles) {i : Fin n} {worker : Worker}
    (houtside : console.printers i = .outside worker) :
    console.m_mutex ≠ some i := by
  rw [ne_eq, ← h.mutex i, houtside]
  simp [Printer.isPrinting]

/-- What is not printed yet does not depend on the other workers. -/
theorem unprinted_update {i : Fin n} {printer : Printer}
    {loader : TextLoader} {cout : String} {handed : List Solution}
    (hnot : console.m_mutex ≠ some i) :
    ({ console with
      threadSafeLoader := loader
      cout := cout
      printers := Function.update console.printers i printer
      handed := handed } : Console n).unprinted =
      console.unprinted := by
  cases howner : console.m_mutex with
  | none =>
      rw [Console.unprinted, Console.unprinted, howner]
  | some j =>
      have hji : j ≠ i := by
        rintro rfl
        exact hnot howner
      rw [Console.unprinted, Console.unprinted, howner]
      dsimp only
      rw [Function.update_of_ne hji]

/-- One worker of a program that goes on changes, and what it has to do with the
others fits. -/
theorem update (h : console.Inv order puzzles)
    (hnone : console.terminated = none) {i : Fin n} {printer : Printer}
    {loader : TextLoader} {m_mutex : Option (Fin n)} {cout : String}
    {handed : List Solution}
    (hexamined : ({ console with
      threadSafeLoader := loader
      m_mutex := m_mutex
      cout := cout
      printers := Function.update console.printers i printer
      handed := handed } : Console n).batch.Examined order puzzles)
    (hmutex : printer.isPrinting = true ↔ m_mutex = some i)
    (hothers : ∀ j, j ≠ i → (console.m_mutex = some j ↔ m_mutex = some j))
    (htext : cout ++ String.join ({ console with
      threadSafeLoader := loader
      m_mutex := m_mutex
      cout := cout
      printers := Function.update console.printers i printer
      handed := handed } : Console n).unprinted =
        String.join (handed.flatMap stringsOf))
    (hlist : ∀ strings solutionList, printer = .printing strings solutionList →
      ∀ solution ∈ solutionList, solution ∈ handed)
    (hhanded : ∀ solution ∈ console.handed, solution ∈ handed) :
    ({ console with
      threadSafeLoader := loader
      m_mutex := m_mutex
      cout := cout
      printers := Function.update console.printers i printer
      handed := handed } : Console n).Inv order puzzles := by
  constructor
  · exact hexamined
  · apply (Function.forall_update_iff console.printers fun j printer =>
      printer.isPrinting = true ↔ m_mutex = some j).mpr
    exact ⟨hmutex, fun j hj => (h.mutex j).trans (hothers j hj)⟩
  · exact htext
  · apply (Function.forall_update_iff console.printers fun _ printer =>
      ∀ strings solutionList, printer = .printing strings solutionList →
        ∀ solution ∈ solutionList, solution ∈ handed).mpr
    apply And.intro hlist
    intro j _ strings solutionList hj solution hsolution
    exact hhanded solution (h.handed j _ _ hj solution hsolution)
  · intro message hterminated
    rw [hnone] at hterminated
    cases hterminated

/-- A worker takes a step that has nothing to do with printing. -/
theorem outside (h : console.Inv order puzzles)
    (hnone : console.terminated = none) {i : Fin n}
    {worker before : Worker} {loader : TextLoader}
    (hbefore : console.printers i = .outside before)
    (hexamined : ({ console with
      threadSafeLoader := loader
      printers := Function.update console.printers i (.outside worker) } :
        Console n).batch.Examined order puzzles) :
    ({ console with
      threadSafeLoader := loader
      printers := Function.update console.printers i (.outside worker) } :
        Console n).Inv order puzzles := by
  have hnot := h.not_owner hbefore
  apply h.update hnone hexamined
  · exact iff_of_false (by simp [Printer.isPrinting]) hnot
  · exact fun _ _ => Iff.rfl
  · rw [unprinted_update hnot]
    exact h.text
  · intro strings solutionList hprinting
    cases hprinting
  · exact fun _ hsolution => hsolution

/-- A worker that has failed throws. -/
theorem fail (h : console.Inv order puzzles) {i : Fin n} {message : String}
    (hfailed : console.printers i = .outside (.failed message)) :
    ({ console with terminated := some message } : Console n).Inv order
      puzzles := by
  refine ⟨h.examined, h.mutex, h.text, h.handed, ?_⟩
  intro message' hterminated
  cases hterminated
  exact ⟨i, hfailed⟩

/-- A worker enters the critical section. -/
theorem lock (h : console.Inv order puzzles)
    (hnone : console.terminated = none) {i : Fin n}
    {solutionList : List Solution}
    (hfree : console.m_mutex = none)
    (hexamined : ({ console with
      m_mutex := some i
      printers := Function.update console.printers i
        (.printing [] solutionList)
      handed := console.handed ++ solutionList } : Console n).batch.Examined
        order puzzles) :
    ({ console with
      m_mutex := some i
      printers := Function.update console.printers i
        (.printing [] solutionList)
      handed := console.handed ++ solutionList } : Console n).Inv order
        puzzles := by
  apply h.update hnone hexamined
  · exact iff_of_true rfl rfl
  · intro j hj
    rw [hfree]
    exact iff_of_false (by simp) fun hsame => hj (Option.some.inj hsame).symm
  · have htext := h.text
    rw [Console.unprinted, hfree] at htext
    rw [Console.unprinted]
    dsimp only at htext ⊢
    rw [Function.update_self, Printer.unprinted, List.nil_append,
      List.flatMap_append, String.join_append, ← htext, String.join_nil,
      String.append_empty]
  · intro strings solutionList' hprinting
    cases hprinting
    exact fun _ hsolution => List.mem_append_right _ hsolution
  · exact fun _ hsolution => List.mem_append_left _ hsolution

/-- The owner of the mutex goes on printing. -/
theorem printing (h : console.Inv order puzzles)
    (hnone : console.terminated = none) {i : Fin n}
    {strings strings' : List String} {solutionList solutionList' : List Solution}
    {cout : String}
    (hbefore : console.printers i = .printing strings solutionList)
    (htext : cout ++ String.join
        (strings' ++ solutionList'.flatMap stringsOf) =
      console.cout ++ String.join
        (strings ++ solutionList.flatMap stringsOf))
    (hsub : ∀ solution ∈ solutionList', solution ∈ solutionList) :
    ({ console with
      cout := cout
      printers := Function.update console.printers i
        (.printing strings' solutionList') } : Console n).Inv order
        puzzles := by
  have howner : console.m_mutex = some i := by
    rw [← h.mutex i, hbefore]
    rfl
  apply h.update hnone
  · exact (congrArg (Batch.Examined order puzzles)
      (batch_printing hbefore rfl)).mpr h.examined
  · exact iff_of_true rfl howner
  · exact fun _ _ => Iff.rfl
  · have hbeforeText := h.text
    rw [Console.unprinted, howner] at hbeforeText ⊢
    dsimp only at hbeforeText ⊢
    rw [hbefore, Printer.unprinted] at hbeforeText
    rw [Function.update_self, Printer.unprinted, htext]
    exact hbeforeText
  · intro strings'' solutionList'' hprinting
    cases hprinting
    exact fun solution hsolution =>
      h.handed i _ _ hbefore solution (hsub solution hsolution)
  · exact fun _ hsolution => hsolution

/-- The owner of the mutex leaves the critical section. -/
theorem unlock (h : console.Inv order puzzles)
    (hnone : console.terminated = none) {i : Fin n}
    (hbefore : console.printers i = .printing [] []) :
    ({ console with
      m_mutex := none
      printers := Function.update console.printers i (.outside .waiting) } :
        Console n).Inv order puzzles := by
  have howner : console.m_mutex = some i := by
    rw [← h.mutex i, hbefore]
    rfl
  apply h.update hnone
  · exact (congrArg (Batch.Examined order puzzles)
      (batch_printing hbefore rfl)).mpr h.examined
  · exact iff_of_false (by simp [Printer.isPrinting]) (by simp)
  · intro j hj
    rw [howner]
    exact iff_of_false (fun hsame => hj (Option.some.inj hsame).symm) (by simp)
  · have htext := h.text
    rw [Console.unprinted, howner] at htext
    dsimp only at htext
    rw [hbefore] at htext
    exact htext
  · intro strings solutionList hprinting
    cases hprinting
  · exact fun _ hsolution => hsolution

theorem step (hloadable : ∀ puzzle ∈ puzzles, Loadable puzzle) (i : Fin n)
    (console next : Console n) (h : console.Inv order puzzles)
    (hstep : (consoleThreads order n).step i console = some next) :
    next.Inv order puzzles := by
  obtain ⟨hnone, hstep⟩ := consoleStep_of_step hstep
  have hexamined : next.batch.Examined order puzzles := by
    rcases hstep.batch with hsame | ⟨j, hbatch⟩
    · rw [hsame]
      exact h.examined
    · exact h.examined.step hloadable j _ _ hbatch
  cases hstep with
  | exhausted hwaiting hempty => exact h.outside hnone hwaiting hexamined
  | take hwaiting hpuzzles => exact h.outside hnone hwaiting hexamined
  | fail hfailed => exact h.fail hfailed
  | lock hadding hfree => exact h.lock hnone hfree hexamined
  | insert hprinting =>
      apply h.printing hnone hprinting
      · rw [List.cons_append, String.join_cons, String.append_assoc]
      · exact fun _ hsolution => hsolution
  | @throw rSolution _ message hprinting herror =>
      -- What is printed comes from the loader and from Lua.
      have hmem := h.handed i _ _ hprinting rSolution List.mem_cons_self
      obtain ⟨⟨strings, hstrings⟩, -⟩ := exists_streamed
        (hloadable _ (h.examined.accounted.mem_puzzles hmem))
        (h.examined.accounted.isSolution hloadable hmem)
      rw [hstrings] at herror
      cases herror
  | convert hprinting hstrings =>
      apply h.printing hnone hprinting
      · rw [List.nil_append, List.flatMap_cons, stringsOf_eq hstrings]
      · exact fun _ hsolution => List.mem_cons_of_mem _ hsolution
  | unlock hprinting => exact h.unlock hnone hprinting

end Console.Inv

theorem inv_of_consoleRun {loader : TextLoader} {schedule : List (Fin n)}
    {console : Console n}
    (hloadable : ∀ puzzle ∈ loader.m_puzzles, Loadable puzzle)
    (hrun : (consoleThreads order n).run schedule (Console.start n loader) =
      some console) : console.Inv order loader.m_puzzles :=
  (consoleThreads order n).run_invariant (Console.Inv.step hloadable) hrun
    (Console.Inv.start order n loader)

/-! ## Every interleaving comes to an end -/

/-- A bound for the steps that a worker can take without another puzzle. -/
def Printer.effort : Printer → ℕ
  | .outside .waiting => 1
  | .outside (.adding solutionList) => 3 + 7 * solutionList.length
  | .outside .finished => 0
  | .outside (.failed _) => 0
  | .printing strings solutionList =>
      strings.length + 7 * solutionList.length + 2

@[simp] theorem effort_outside_waiting :
    (Printer.outside .waiting).effort = 1 := rfl

@[simp] theorem effort_outside_adding (solutionList : List Solution) :
    (Printer.outside (.adding solutionList)).effort =
      3 + 7 * solutionList.length := rfl

@[simp] theorem effort_outside_finished :
    (Printer.outside .finished).effort = 0 := rfl

@[simp] theorem effort_printing (strings : List String)
    (solutionList : List Solution) :
    (Printer.printing strings solutionList).effort =
      strings.length + 7 * solutionList.length + 2 := rfl

theorem effort_outside_afterGetPuzzle_le (order : Puzzle → Order)
    (puzzle : Puzzle) :
    (Printer.outside (afterGetPuzzle order (some puzzle))).effort ≤ 10 := by
  rw [afterGetPuzzle]
  split
  · exact Nat.zero_le 10
  · exact Nat.le_add_left 1 9
  · exact le_rfl

/-- A bound for the steps that are left. -/
def Console.effort (console : Console n) : ℕ :=
  10 * console.threadSafeLoader.m_puzzles.length +
    ∑ i, (console.printers i).effort + console.terminated.isNone.toNat

theorem Console.effort_lt (i : Fin n) (console next : Console n)
    (h : (consoleThreads order n).step i console = some next) :
    next.effort < console.effort := by
  obtain ⟨hnone, hstep⟩ := consoleStep_of_step h
  cases hstep with
  | exhausted hwaiting hempty =>
      have hsum := sum_update Printer.effort console.printers i
        (.outside .finished)
      rw [hwaiting, effort_outside_waiting, effort_outside_finished] at hsum
      simp only [Console.effort]
      omega
  | @take puzzle puzzles hwaiting hpuzzles =>
      have hsum := sum_update Printer.effort console.printers i
        (.outside (afterGetPuzzle order (some puzzle)))
      have hle := effort_outside_afterGetPuzzle_le order puzzle
      rw [hwaiting, effort_outside_waiting] at hsum
      simp only [Console.effort, hpuzzles, List.length_cons]
      omega
  | @lock solutionList hadding hfree =>
      have hsum := sum_update Printer.effort console.printers i
        (.printing [] solutionList)
      rw [hadding, effort_outside_adding, effort_printing] at hsum
      simp only [Console.effort]
      rw [List.length_nil] at hsum
      omega
  | @insert string strings solutionList hprinting =>
      have hsum := sum_update Printer.effort console.printers i
        (.printing strings solutionList)
      rw [hprinting, effort_printing, effort_printing, List.length_cons] at hsum
      simp only [Console.effort]
      omega
  | fail hfailed | throw hprinting herror =>
      simp [Console.effort, hnone]
  | @convert rSolution solutionList strings hprinting hstrings =>
      have hsum := sum_update Printer.effort console.printers i
        (.printing strings solutionList)
      rw [hprinting, effort_printing, effort_printing, List.length_cons,
        List.length_nil, length_of_streamed hstrings] at hsum
      simp only [Console.effort]
      omega
  | unlock hprinting =>
      have hsum := sum_update Printer.effort console.printers i
        (.outside .waiting)
      rw [hprinting, effort_printing, effort_outside_waiting] at hsum
      simp only [Console.effort]
      simp only [List.length_nil] at hsum
      omega

theorem Console.effort_start (n : ℕ) (loader : TextLoader) :
    (Console.start n loader).effort = 10 * loader.getPuzzleCount + n + 1 := by
  simp [Console.effort, Console.start, TextLoader.getPuzzleCount]

/-- Where no worker can go on and the program has not been terminated, all of
them are finished. -/
theorem finished_of_consoleStuck {puzzles : List Puzzle} {console : Console n}
    (h : console.Inv order puzzles) (hnone : console.terminated = none)
    (hstuck : (consoleThreads order n).Stuck console) (i : Fin n) :
    console.printers i = .outside .finished := by
  have hstep : ∀ j, stepPrinter order j console = none := hstuck
  have hprinting : ∀ j strings solutionList,
      console.printers j ≠ .printing strings solutionList := by
    intro j strings solutionList hj
    have hnext := hstep j
    rw [stepPrinter, hnone, hj] at hnext
    cases strings with
    | cons string strings => cases hnext
    | nil =>
        cases solutionList with
        | nil => cases hnext
        | cons rSolution solutionList =>
            dsimp only [Option.isSome_none] at hnext
            rw [if_neg (by simp)] at hnext
            split at hnext <;> cases hnext
  have hfree : console.m_mutex = none := by
    cases howner : console.m_mutex with
    | none => rfl
    | some j =>
        have hj := (h.mutex j).mpr howner
        cases hprinter : console.printers j with
        | outside worker =>
            rw [hprinter] at hj
            cases hj
        | printing strings solutionList =>
            exact absurd hprinter (hprinting j strings solutionList)
  have hnext := hstep i
  rw [stepPrinter, hnone] at hnext
  cases hprinter : console.printers i with
  | printing strings solutionList =>
      exact absurd hprinter (hprinting i strings solutionList)
  | outside worker =>
      rw [hprinter] at hnext
      cases worker with
      | waiting => cases hnext
      | adding solutionList =>
          rw [hfree] at hnext
          cases hnext
      | finished => rfl
      | failed message => cases hnext

theorem consoleMain_eq {lines : List String} {loader : TextLoader}
    {schedule : List (Fin n)} {console : Console n}
    (hload : TextLoader.new lines = .ok loader)
    (hrun : (consoleThreads order n).run schedule (Console.start n loader) =
      some console) :
    consoleMain order lines schedule =
      if (List.finRange n).all fun i => (console.printers i).isFinished then
        some (console.cout, 0)
      else none := by
  rw [consoleMain, hload]
  dsimp only
  rw [hrun]
  rfl

/-! ## What is printed -/

theorem join_flatMap (strings : Solution → List String)
    (printed : List Solution) :
    String.join (printed.flatMap strings) =
      String.join (printed.map fun solution =>
        String.join (strings solution)) := by
  induction printed with
  | nil => rfl
  | cons solution printed ih =>
      rw [List.flatMap_cons, String.join_append, ih, List.map_cons,
        String.join_cons]

namespace Console.Inv

variable {puzzles : List Puzzle} {console : Console n}

/-- The text so far is that of the solutions that were handed on, but for what
its worker has still to insert. -/
theorem texts (h : console.Inv order puzzles)
    (hloadable : ∀ puzzle ∈ puzzles, Loadable puzzle) :
    ∃ texts, List.Forall₂ IsText console.handed texts ∧
      console.cout ++ String.join console.unprinted = String.join texts := by
  refine ⟨console.handed.map fun solution =>
    String.join (stringsOf solution), ?_, h.text.trans (join_flatMap _ _)⟩
  rw [List.forall₂_map_right_iff, List.forall₂_same]
  intro solution hmem
  have haccounted := h.examined.accounted
  exact (exists_streamed (hloadable _ (haccounted.mem_puzzles hmem))
    (haccounted.isSolution hloadable hmem)).2

theorem unprinted_eq_nil (h : console.Inv order puzzles)
    (hnobody : ∀ i, (console.printers i).isPrinting = false) :
    console.unprinted = [] := by
  rw [Console.unprinted]
  cases howner : console.m_mutex with
  | none => rfl
  | some i =>
      have hi := (h.mutex i).mpr howner
      rw [hnobody i] at hi
      cases hi

/-- The error of a program that has been terminated is the one of a worker. -/
theorem terminated {message : String} (h : console.Inv order puzzles)
    (hmessage : console.terminated = some message) :
    message = inconsistentMessage ∧
      (∃ i, console.printers i = .outside (.failed message)) ∧
      ∃ puzzle ∈ puzzles, ¬Consistent puzzle := by
  obtain ⟨i, hi⟩ := h.failed message hmessage
  obtain ⟨hsame, hpuzzle⟩ :=
    h.examined.inspected.failed i message (congrArg Printer.worker hi)
  exact ⟨hsame, ⟨i, hi⟩, hpuzzle⟩

end Console.Inv

/-- In every state of every interleaving at most one worker prints, and the text
so far is that of whole solutions, one after the other, but for what this worker
has still to insert; the solutions are right, and no puzzle is printed more often
than it is in the file. -/
theorem consoleThreads_whole (order : Puzzle → Order) {lines : List String}
    {loader : TextLoader} {schedule : List (Fin n)} {console : Console n}
    (hload : TextLoader.new lines = .ok loader)
    (hrun : (consoleThreads order n).run schedule (Console.start n loader) =
      some console) :
    (∀ i j, (console.printers i).isPrinting = true →
        (console.printers j).isPrinting = true → i = j) ∧
      ((∀ i, (console.printers i).isPrinting = false) →
        console.unprinted = []) ∧
      (∀ i, (console.printers i).isPrinting = true →
        console.unprinted = (console.printers i).unprinted) ∧
      ∃ (printed : List Solution) (texts : List String),
        List.Forall₂ IsText printed texts ∧
          console.cout ++ String.join console.unprinted =
            String.join texts ∧
          (∀ solution ∈ printed,
            IsSolution solution.m_puzzle solution.m_solution) ∧
          List.Subperm (printed.map Solution.m_puzzle) loader.m_puzzles := by
  have hloadable := TextLoader.loadable hload
  have hinv := inv_of_consoleRun hloadable hrun
  have haccounted := hinv.examined.accounted
  refine ⟨?_, hinv.unprinted_eq_nil, ?_, ?_⟩
  · intro i j hi hj
    have hsame := ((hinv.mutex i).mp hi).symm.trans ((hinv.mutex j).mp hj)
    exact Option.some.inj hsame
  · intro i hi
    rw [Console.unprinted, (hinv.mutex i).mp hi]
  · obtain ⟨texts, htexts, hcout⟩ := hinv.texts hloadable
    refine ⟨console.handed, texts, htexts, hcout, ?_, ?_⟩
    · exact fun solution hmem => haccounted.isSolution hloadable hmem
    · obtain ⟨dropped, -, hconserved⟩ := haccounted.conserved
      rw [← Multiset.coe_le, ← hconserved]
      exact le_trans (Multiset.le_add_left _ _) (Multiset.le_add_right _ _)

/-- The program with the puzzle of one square after a worker has taken it. -/
def Console.takenOne : Console 2 :=
  { Console.start 2 ⟨[]⟩ with
    printers := Function.update (fun _ => .outside .waiting) 0
      (.outside (.adding [⟨[0], [1]⟩])) }

theorem consoleRun_one {schedule : List (Fin 2)} {console : Console 2}
    (h : (consoleThreads (fun _ => Order.inOrder) 2).run schedule
      Console.takenOne = some console) :
    (consoleThreads (fun _ => Order.inOrder) 2).run (0 :: schedule)
      (Console.start 2 ⟨[[0]]⟩) = some console := by
  rw [← h, Console.takenOne, ← afterGetPuzzle_one]
  rfl

/-- The program with a contradictory puzzle before the one of one square, after
each worker has taken one of them. -/
def Console.takenBoth : Console 2 :=
  { Console.start 2 ⟨[]⟩ with
    printers := Function.update
      (Function.update (fun _ => .outside .waiting) 0
        (.outside (.failed inconsistentMessage)))
      1 (.outside (.adding [⟨[0], [1]⟩])) }

theorem consoleRun_both {schedule : List (Fin 2)} {console : Console 2}
    (h : (consoleThreads (fun _ => Order.inOrder) 2).run schedule
      Console.takenBoth = some console) :
    (consoleThreads (fun _ => Order.inOrder) 2).run (0 :: 1 :: schedule)
      (Console.start 2 ⟨[contradictory, [0]]⟩) = some console := by
  rw [← h, Console.takenBoth, ← afterGetPuzzle_one,
    ← afterGetPuzzle_contradictory fun _ => Order.inOrder]
  rfl

/-- A worker is about to print the values of its puzzle, and another one to end
the program. -/
theorem consoleThreads_whole_begun :
    ∃ console, (consoleThreads (fun _ => Order.inOrder) 2).run [0, 1, 1, 1, 1]
        (Console.start 2 ⟨[contradictory, [0]]⟩) = some console ∧
      console.printers 0 = .outside (.failed inconsistentMessage) ∧
      console.cout = "Puzzle:   " ∧
      console.unprinted = (console.printers 1).unprinted := by
  have hload : TextLoader.new ["1100000000000000", "0"] =
      .ok ⟨[contradictory, [0]]⟩ := by rfl
  refine ⟨_, consoleRun_both rfl, rfl, rfl, ?_⟩
  exact (consoleThreads_whole _ hload (show (consoleThreads _ 2).run
    [0, 1, 1, 1, 1] _ = some _ from consoleRun_both rfl)).2.2.1 1 rfl

/-- Every interleaving ends after a bounded number of steps.  If some puzzle of
an accepted file is not consistent, the program is terminated with the error of
Lua and never gets to the end of `main`.  Otherwise it prints one solution for
each puzzle that has one, each of them as a whole, and returns zero. -/
theorem consoleMain_output (order : Puzzle → Order) {lines : List String}
    {loader : TextLoader} {schedule : List (Fin n)} {console : Console n}
    (hn : 0 < n) (hload : TextLoader.new lines = .ok loader)
    (hrun : (consoleThreads order n).run schedule (Console.start n loader) =
      some console) :
    schedule.length ≤ 10 * loader.getPuzzleCount + n + 1 ∧
      ((consoleThreads order n).Stuck console →
        ((∃ puzzle ∈ loader.m_puzzles, ¬Consistent puzzle) →
          console.terminated = some inconsistentMessage ∧
            consoleMain order lines schedule = none) ∧
        ((∀ puzzle ∈ loader.m_puzzles, Consistent puzzle) →
          ∃ printed texts, List.Forall₂ IsText printed texts ∧
            (∀ solution ∈ printed,
              IsSolution solution.m_puzzle solution.m_solution) ∧
            (open Classical in (printed.map Solution.m_puzzle).Perm
              (loader.m_puzzles.filter fun puzzle => Solvable puzzle)) ∧
            consoleMain order lines schedule =
              some (String.join texts, 0))) := by
  have hloadable := TextLoader.loadable hload
  have hinv := inv_of_consoleRun hloadable hrun
  constructor
  · have hlength :=
      (consoleThreads order n).length_le_of_run Console.effort_lt hrun
    rw [Console.effort_start] at hlength
    omega
  · intro hstuck
    constructor
    · rintro ⟨puzzle, hpuzzle, hinconsistent⟩
      have hterminated : console.terminated ≠ none := by
        intro hrunning
        apply hinconsistent
        exact hinv.examined.consistent_of_finished hn (fun i => congrArg
          Printer.worker (finished_of_consoleStuck hinv hrunning hstuck i))
          puzzle hpuzzle
      obtain ⟨message, hmessage⟩ := Option.ne_none_iff_exists'.mp hterminated
      obtain ⟨hsame, ⟨i, hi⟩, -⟩ := hinv.terminated hmessage
      refine ⟨by rw [hmessage, hsame], ?_⟩
      rw [consoleMain_eq hload hrun, if_neg]
      rw [List.all_eq_true]
      intro hall
      have hfinished := hall i (List.mem_finRange i)
      rw [hi] at hfinished
      cases hfinished
    · intro hconsistent
      have hrunning : console.terminated = none := by
        by_contra hterminated
        obtain ⟨message, hmessage⟩ := Option.ne_none_iff_exists'.mp hterminated
        obtain ⟨-, -, puzzle, hpuzzle, hinconsistent⟩ :=
          hinv.terminated hmessage
        exact hinconsistent (hconsistent puzzle hpuzzle)
      have hfinished := finished_of_consoleStuck hinv hrunning hstuck
      have haccounted := hinv.examined.accounted
      have hworkers : ∀ i, console.batch.workers i = .finished :=
        fun i => congrArg Printer.worker (hfinished i)
      obtain ⟨texts, htexts, hcout⟩ := hinv.texts hloadable
      have hnobody : ∀ i, (console.printers i).isPrinting = false := by
        intro i
        rw [hfinished i]
        rfl
      rw [hinv.unprinted_eq_nil hnobody, String.join_nil,
        String.append_empty] at hcout
      refine ⟨console.handed, texts, htexts, ?_, ?_, ?_⟩
      · exact fun solution hmem => haccounted.isSolution hloadable hmem
      · apply haccounted.settled hloadable
          (hinv.examined.finished ⟨0, hn⟩ (hworkers _))
        intro i
        rw [hworkers i]
        rfl
      · rw [consoleMain_eq hload hrun, if_pos, hcout]
        rw [List.all_eq_true]
        intro i _
        rw [hfinished i]
        rfl

/-- The puzzle of one square is printed. -/
theorem consoleMain_output_one :
    ∃ printed texts, List.Forall₂ IsText printed texts ∧
      (∀ solution ∈ printed,
        IsSolution solution.m_puzzle solution.m_solution) ∧
      (open Classical in (printed.map Solution.m_puzzle).Perm
        ([[0]].filter fun puzzle => Solvable puzzle)) ∧
      consoleMain (n := 2) (fun _ => Order.inOrder) ["0"]
          [0, 0, 1, 0, 0, 0, 0, 0, 0, 0, 0, 0] =
        some (String.join texts, 0) := by
  have hload : TextLoader.new ["0"] = .ok ⟨[[0]]⟩ := rfl
  have hline : parseLine "0" = .ok [0] := rfl
  have hconsistent : Consistent [0] := by
    by_contra hinconsistent
    have hfailed : afterGetPuzzle (fun _ => Order.inOrder) (some [0]) =
        .failed inconsistentMessage :=
      afterGetPuzzle_of_not_consistent (loadable_of_parseLine hline)
        hinconsistent
    rw [afterGetPuzzle_one] at hfailed
    cases hfailed
  refine ((consoleMain_output _ Nat.two_pos hload (show
    (consoleThreads _ 2).run [0, 0, 1, 0, 0, 0, 0, 0, 0, 0, 0, 0] _ = some _
      from consoleRun_one rfl)).2 fun i => ?_).2 ?_
  · match i with
    | 0 => rfl
    | 1 => rfl
  · intro puzzle hpuzzle
    rw [List.mem_singleton.mp hpuzzle]
    exact hconsistent

end SudokuSolver.Cpp
