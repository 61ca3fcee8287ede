import SudokuSolver.Cpp.SqliteLifetime

/-!
# The rows of the database

What `AddSolutions` of `sqlite_solutions.cpp` does to the rows of the table when
no call of the library fails.
-/

namespace SudokuSolver.Cpp

/-- The row of a solution. -/
def rowOf (rSolution : Solution) : Except String (String × String) := do
  let puzzle ← puzzleToString rSolution.m_puzzle
  let solution ← puzzleToString rSolution.m_solution
  return (puzzle, solution)

/-- `INSERT OR IGNORE`, where both columns together are the primary key. -/
def insertOrIgnore (rows : List (String × String)) (row : String × String) :
    List (String × String) :=
  if rows.contains row then rows else rows ++ [row]

/-- The rows after solutions have been added in a transaction. -/
def addRows (rows : List (String × String)) (rSolutionList : List Solution) :
    Except String (List (String × String)) :=
  rSolutionList.foldlM (fun rows rSolution => do
    let row ← rowOf rSolution
    return insertOrIgnore rows row) rows

theorem insertOrIgnore_eq (rows : List (String × String))
    (row : String × String) :
    insertOrIgnore rows row = if row ∈ rows then rows else rows ++ [row] := by
  simp only [insertOrIgnore, List.contains_iff_mem]

theorem mem_insertOrIgnore {rows : List (String × String)}
    {row other : String × String} :
    other ∈ insertOrIgnore rows row ↔ other ∈ rows ∨ other = row := by
  rw [insertOrIgnore_eq]
  split
  · next hmem =>
    constructor
    · exact Or.inl
    · rintro (hother | rfl)
      · exact hother
      · exact hmem
  · rw [List.mem_append, List.mem_singleton]

theorem nodup_insertOrIgnore {rows : List (String × String)}
    (h : rows.Nodup) (row : String × String) :
    (insertOrIgnore rows row).Nodup := by
  rw [insertOrIgnore_eq]
  split
  · exact h
  · next hmem =>
    apply h.append (List.nodup_singleton row)
    exact List.disjoint_singleton.mpr hmem

theorem addRows_append (rows : List (String × String))
    (first second : List Solution) :
    addRows rows (first ++ second) =
      (addRows rows first).bind fun rows => addRows rows second :=
  List.foldlM_append

/-- No row is there twice, and none is there that was not and is not one of a
solution. -/
theorem addRows_spec {rows rows' : List (String × String)}
    {rSolutionList : List Solution}
    (h : addRows rows rSolutionList = .ok rows') :
    (rows.Nodup → rows'.Nodup) ∧ ∀ row, row ∈ rows' ↔
      row ∈ rows ∨ ∃ solution ∈ rSolutionList, rowOf solution = .ok row := by
  induction rSolutionList generalizing rows with
  | nil =>
      cases h
      simp
  | cons solution rSolutionList ih =>
      obtain ⟨next, hnext, hrest⟩ := bind_eq_ok_iff.mp h
      obtain ⟨added, hadded, hinsert⟩ := bind_eq_ok_iff.mp hnext
      cases hinsert
      obtain ⟨hnodup, hmem⟩ := ih hrest
      refine ⟨fun hrows => hnodup (nodup_insertOrIgnore hrows added), ?_⟩
      intro row
      rw [hmem, mem_insertOrIgnore, List.exists_mem_cons_iff, hadded, or_assoc,
        Except.ok.injEq, eq_comm (a := row)]

theorem rowOf_of_mem {rows rows' : List (String × String)}
    {rSolutionList : List Solution} {solution : Solution}
    (h : addRows rows rSolutionList = .ok rows')
    (hmem : solution ∈ rSolutionList) : ∃ row, rowOf solution = .ok row := by
  induction rSolutionList generalizing rows with
  | nil => cases hmem
  | cons first rSolutionList ih =>
      obtain ⟨next, hnext, hrest⟩ := bind_eq_ok_iff.mp h
      obtain ⟨added, hadded, hinsert⟩ := bind_eq_ok_iff.mp hnext
      rcases List.mem_cons.mp hmem with rfl | hmem
      · exact ⟨added, hadded⟩
      · exact ih hrest hmem

/-! ## A transaction in which no call fails -/

namespace SqliteSolutions

open Unwind

variable {rows : List (String × String)} {saved : Option (List (String × String))}
variable {statement : Option String} {bound : ℕ → String}
variable {transaction : SqliteTransaction} {pStatment : Option Unit}
variable {calls : List Call}

/-- An object with an open handle and a table of which no call is going to
fail. -/
def working (rows : List (String × String))
    (saved : Option (List (String × String))) (statement : Option String)
    (bound : ℕ → String) (calls : List Call)
    (transaction : SqliteTransaction) (pStatment : Option Unit) :
    SqliteSolutions Table Unit where
  db := ⟨rows, saved, statement, bound, []⟩
  closed := false
  calls := calls
  m_pDatabase := .database
  sqliteTransaction := transaction
  m_pStatment := pStatment

/-- The constructor takes the table as it is. -/
theorem exec_construct (rFilePath : String) :
    ∃ statement' calls' pStatment',
      exec (construct Table.sqlite rFilePath)
          (start ⟨rows, saved, statement, bound, []⟩) =
        (.ok (), working rows none statement' bound calls' ⟨.NULL, true⟩
          pStatment') :=
  ⟨_, _, _, rfl⟩

theorem exec_prepareStatment (text : String) :
    ∃ calls', exec (PrepareStatment Table.sqlite text)
        (working rows saved statement bound calls transaction pStatment) =
      (.ok (), working rows saved (some text) bound calls' transaction
        (some ())) :=
  ⟨_, rfl⟩

theorem exec_bindText (index : ℕ) (text : String) :
    ∃ calls', exec (bindText Table.sqlite index text)
        (working rows saved statement bound calls transaction (some ())) =
      (.ok (), working rows saved statement (Function.update bound index text)
        calls' transaction (some ())) :=
  ⟨_, rfl⟩

theorem exec_executeStatment :
    ∃ calls', exec (ExecuteStatment Table.sqlite)
        (working rows saved (some insertStatment) bound calls transaction
          (some ())) =
      (.ok (), working (insertOrIgnore rows (bound 1, bound 2)) saved
        (some insertStatment) bound calls' transaction (some ())) := by
  have hstep : Table.sqlite.sqlite3_step ()
      ⟨rows, saved, some insertStatment, bound, []⟩ =
      (SQLITE_DONE, ⟨insertOrIgnore rows (bound 1, bound 2), saved,
        some insertStatment, bound, []⟩) := by
    rw [Table.step_eq, Table.attempt]
    dsimp only
    rw [if_pos rfl, Table.insertOrIgnore, insertOrIgnore_eq]
    dsimp only
    split <;> rfl
  have hcall : exec
      (onStatment .sqlite3_step SQLITE_MISUSE Table.sqlite.sqlite3_step)
      (working rows saved (some insertStatment) bound calls transaction
        (some ())) =
      (.ok SQLITE_DONE, working (insertOrIgnore rows (bound 1, bound 2)) saved
        (some insertStatment) bound
        (calls ++ [⟨.sqlite3_step, .live, SQLITE_DONE⟩]) transaction
        (some ())) := by
    change (Except.ok (Table.sqlite.sqlite3_step ()
        ⟨rows, saved, some insertStatment, bound, []⟩).1,
      ({ working rows saved (some insertStatment) bound calls transaction
          (some ()) with
        db := (Table.sqlite.sqlite3_step ()
          ⟨rows, saved, some insertStatment, bound, []⟩).2 } :
        SqliteSolutions Table Unit).note ⟨.sqlite3_step, .live,
          (Table.sqlite.sqlite3_step ()
            ⟨rows, saved, some insertStatment, bound, []⟩).1⟩) = _
    rw [hstep]
    rfl
  exact ⟨_, (exec_bind_ok hcall).trans rfl⟩

theorem exec_puzzleToString {rPuzzle : Puzzle} {text : String}
    (h : puzzleToString rPuzzle = .ok text)
    (st : SqliteSolutions Table Unit) :
    exec (PuzzleToString rPuzzle) st = (.ok text, st) := by
  rw [PuzzleToString, h]
  rfl

/-- A solution becomes a row. -/
theorem exec_addSolution {rSolution : Solution} {row : String × String}
    (hrow : rowOf rSolution = .ok row) :
    ∃ bound' calls', exec (addSolution Table.sqlite rSolution)
        (working rows saved statement bound calls transaction pStatment) =
      (.ok (), working (insertOrIgnore rows row) saved none bound' calls'
        transaction (some ())) := by
  obtain ⟨puzzle, hpuzzle, hrow⟩ := bind_eq_ok_iff.mp hrow
  obtain ⟨solution, hsolution, hrow⟩ := bind_eq_ok_iff.mp hrow
  cases hrow
  obtain ⟨calls₁, hprepare⟩ :=
    @exec_prepareStatment rows saved statement bound transaction none calls
      insertStatment
  obtain ⟨calls₂, hfirst⟩ :=
    @exec_bindText rows saved (some insertStatment) bound transaction calls₁
      1 puzzle
  obtain ⟨calls₃, hsecond⟩ :=
    @exec_bindText rows saved (some insertStatment)
      (Function.update bound 1 puzzle) transaction calls₂ 2 solution
  obtain ⟨calls₄, hexecute⟩ :=
    @exec_executeStatment rows saved
      (Function.update (Function.update bound 1 puzzle) 2 solution)
      transaction calls₃
  have hblock : exec (do
      PrepareStatment Table.sqlite insertStatment
      let puzzle ← PuzzleToString rSolution.m_puzzle
      let solution ← PuzzleToString rSolution.m_solution
      bindText Table.sqlite 1 puzzle
      bindText Table.sqlite 2 solution
      ExecuteStatment Table.sqlite)
      (working rows saved statement bound calls transaction none) =
      (.ok (), working (insertOrIgnore rows (puzzle, solution)) saved
        (some insertStatment)
        (Function.update (Function.update bound 1 puzzle) 2 solution) calls₄
        transaction (some ())) := by
    rw [exec_bind_ok hprepare, exec_bind_ok (exec_puzzleToString hpuzzle _),
      exec_bind_ok (exec_puzzleToString hsolution _), exec_bind_ok hfirst,
      exec_bind_ok hsecond]
    exact hexecute
  have hfinalize : exec
      (onStatment .sqlite3_finalize SQLITE_OK Table.sqlite.sqlite3_finalize)
      (working (insertOrIgnore rows (puzzle, solution)) saved
        (some insertStatment)
        (Function.update (Function.update bound 1 puzzle) 2 solution) calls₄
        transaction (some ())) =
      (.ok SQLITE_OK, working (insertOrIgnore rows (puzzle, solution)) saved
        none (Function.update (Function.update bound 1 puzzle) 2 solution)
        (calls₄ ++ [⟨.sqlite3_finalize, .live, SQLITE_OK⟩]) transaction
        (some ())) := rfl
  exact ⟨_, _, exec_tryFinally hblock hfinalize⟩

/-- Solutions become rows one after another. -/
theorem exec_forM_addSolution {rows' : List (String × String)}
    {rSolutionList : List Solution}
    (h : addRows rows rSolutionList = .ok rows') :
    ∃ statement' bound' calls' pStatment',
      exec (rSolutionList.forM (addSolution Table.sqlite))
          (working rows saved statement bound calls transaction pStatment) =
        (.ok (), working rows' saved statement' bound' calls' transaction
          pStatment') := by
  induction rSolutionList generalizing rows statement bound calls pStatment with
  | nil =>
      cases h
      exact ⟨statement, bound, calls, pStatment, rfl⟩
  | cons rSolution rSolutionList ih =>
      obtain ⟨next, hnext, hrest⟩ := bind_eq_ok_iff.mp h
      obtain ⟨row, hrow, hinsert⟩ := bind_eq_ok_iff.mp hnext
      cases hinsert
      obtain ⟨bound₁, calls₁, hfirst⟩ :=
        @exec_addSolution rows saved statement bound transaction pStatment calls
          _ _ hrow
      obtain ⟨statement', bound', calls', pStatment', hloop⟩ :=
        @ih (insertOrIgnore rows row) none bound₁ (some ()) calls₁ hrest
      exact ⟨statement', bound', calls', pStatment',
        (exec_bind_ok hfirst).trans hloop⟩

/-- Where no call fails, the rows that `AddSolutions` leaves are those of
`addRows`, and no transaction is left open. -/
theorem exec_addSolutions {rows' : List (String × String)}
    {rSolutionList : List Solution}
    (h : addRows rows rSolutionList = .ok rows') :
    ∃ statement' bound' calls' transaction' pStatment',
      exec (AddSolutions Table.sqlite rSolutionList)
          (working rows none statement bound calls transaction pStatment) =
        (.ok (), working rows' none statement' bound' calls' transaction'
          pStatment') := by
  obtain ⟨calls₁, hbegin⟩ : ∃ calls₁, exec (begin Table.sqlite)
      (working rows none statement bound calls transaction pStatment) =
      (.ok (), working rows (some rows) statement bound calls₁
        ⟨.database, false⟩ pStatment) :=
    ⟨_, rfl⟩
  obtain ⟨statement₂, bound₂, calls₂, pStatment₂, hloop⟩ :=
    @exec_forM_addSolution rows (some rows) statement bound ⟨.database, false⟩
      pStatment calls₁ _ _ h
  obtain ⟨calls₃, hcommit⟩ : ∃ calls₃, exec (Commit Table.sqlite)
      (working rows' (some rows) statement₂ bound₂ calls₂ ⟨.database, false⟩
        pStatment₂) =
      (.ok (), working rows' none statement₂ bound₂ calls₃
        ⟨.database, true⟩ pStatment₂) :=
    ⟨_, rfl⟩
  have hblock : exec (do
      rSolutionList.forM (addSolution Table.sqlite)
      Commit Table.sqlite)
      (working rows (some rows) statement bound calls₁ ⟨.database, false⟩
        pStatment) =
      (.ok (), working rows' none statement₂ bound₂ calls₃
        ⟨.database, true⟩ pStatment₂) :=
    (exec_bind_ok hloop).trans hcommit
  have hend : exec (endTransaction Table.sqlite)
      (working rows' none statement₂ bound₂ calls₃ ⟨.database, true⟩
        pStatment₂) =
      (.ok (), working rows' none statement₂ bound₂ calls₃ ⟨.database, true⟩
        pStatment₂) := rfl
  exact ⟨statement₂, bound₂, calls₃, ⟨.database, true⟩, pStatment₂,
    (exec_bind_ok hbegin).trans (exec_tryFinally hblock hend)⟩

end SqliteSolutions

end SudokuSolver.Cpp
