import SudokuSolver.Cpp.LuaWorker
import SudokuSolver.Cpp.Sqlite

/-!
# Solutions in an SQLite database

`sqlite_solutions.cpp`.  Solutions are added in one transaction, and the guards
of a transaction and of a statement tidy up when an exception passes through
them.  The guard of the transaction has a pointer to the handle of its own.
-/

namespace SudokuSolver.Cpp

open Unwind

/-- `SqliteTransaction`. -/
structure SqliteTransaction where
  m_pDatabase : Handle
  m_bCommitted : Bool

/-- The library with the calls so far, the object with its pointer, and the
guards in `AddSolutions`. -/
structure SqliteSolutions (Db Stmt : Type) where
  db : Db
  closed : Bool
  calls : List Call
  m_pDatabase : Handle
  sqliteTransaction : SqliteTransaction
  m_pStatment : Option Stmt

namespace SqliteSolutions

variable {Db Stmt γ : Type}

/-! ## Calls of the library -/

def note (call : Call) (st : SqliteSolutions Db Stmt) :
    SqliteSolutions Db Stmt :=
  { st with calls := st.calls ++ [call] }

/-- A call through a pointer, which has `ifNull` as its result where the pointer
is null. -/
def onHandle (pDatabase : SqliteSolutions Db Stmt → Handle)
    (function : Function) (codeOf : γ → ℤ) (ifNull : γ)
    (effect : Db → γ × Db) : Code (SqliteSolutions Db Stmt) String γ :=
  modifyGet fun st =>
    match pDatabase st with
    | .NULL => (ifNull, st.note ⟨function, .nothing, codeOf ifNull⟩)
    | .database =>
        if st.closed then (ifNull, st.note ⟨function, .closed, codeOf ifNull⟩)
        else
          let result := effect st.db
          (result.1, { st with db := result.2 }.note
            ⟨function, .live, codeOf result.1⟩)

/-- A call with the statement of the guard. -/
def onStatment (function : Function) (ifNull : ℤ)
    (effect : Stmt → Db → ℤ × Db) : Code (SqliteSolutions Db Stmt) String ℤ :=
  modifyGet fun st =>
    match st.m_pStatment with
    | none => (ifNull, st.note ⟨function, .nothing, ifNull⟩)
    | some stmt =>
        if st.closed then (ifNull, st.note ⟨function, .closed, ifNull⟩)
        else
          let result := effect stmt st.db
          (result.1, { st with db := result.2 }.note
            ⟨function, .live, result.1⟩)

/-- Closing, after which the handle must not be used any more unless there were
statements left. -/
def sqlite3_close (sql : Sqlite Db Stmt) :
    Code (SqliteSolutions Db Stmt) String ℤ :=
  modifyGet fun st =>
    match st.m_pDatabase with
    | .NULL => (SQLITE_OK, st.note ⟨.sqlite3_close, .nothing, SQLITE_OK⟩)
    | .database =>
        if st.closed then
          (SQLITE_MISUSE, st.note ⟨.sqlite3_close, .closed, SQLITE_MISUSE⟩)
        else
          let result := sql.sqlite3_close st.db
          (result.1, { st with
            db := result.2
            closed := decide (result.1 = SQLITE_OK) }.note
              ⟨.sqlite3_close, .live, result.1⟩)

variable (sql : Sqlite Db Stmt)

/-! ## Errors and statements -/

def ThrowLastError : Code (SqliteSolutions Db Stmt) String Unit := do
  let errorCode ← onHandle m_pDatabase .sqlite3_errcode (fun _ => SQLITE_OK)
    SQLITE_NOMEM fun db => (sql.sqlite3_errcode db, db)
  let error ← onHandle m_pDatabase .sqlite3_errmsg (fun _ => SQLITE_OK)
    "out of memory" fun db => (sql.sqlite3_errmsg db, db)
  let _ ← sqlite3_close sql
  modify fun st => { st with m_pDatabase := .NULL }
  throw ("Error " ++ toString errorCode ++ ": " ++ error)

/-- The statement is handed back through a reference, to the guard. -/
def PrepareStatment (rSqlStatment : String) :
    Code (SqliteSolutions Db Stmt) String Unit := do
  let (code, pStatment) ← onHandle m_pDatabase (.sqlite3_prepare rSqlStatment)
    Prod.fst (SQLITE_MISUSE, none) (sql.sqlite3_prepare rSqlStatment)
  modify fun st => { st with m_pStatment := pStatment }
  if code ≠ SQLITE_OK then ThrowLastError sql

def bindText (index : ℕ) (text : String) :
    Code (SqliteSolutions Db Stmt) String Unit := do
  let code ← onStatment (.sqlite3_bind_text index text) SQLITE_MISUSE
    fun stmt => sql.sqlite3_bind_text stmt index text
  if code ≠ SQLITE_OK then ThrowLastError sql

def ExecuteStatment : Code (SqliteSolutions Db Stmt) String Unit := do
  let code ← onStatment .sqlite3_step SQLITE_MISUSE sql.sqlite3_step
  if code ≠ SQLITE_DONE then ThrowLastError sql

/-- A block with an `ExceptionSafeStatment`, whose destructor finalizes the
statement. -/
def withStatment (block : Code (SqliteSolutions Db Stmt) String Unit) :
    Code (SqliteSolutions Db Stmt) String Unit := do
  modify fun st => { st with m_pStatment := none }
  tryFinally block
    (onStatment .sqlite3_finalize SQLITE_OK sql.sqlite3_finalize)

/-! ## Transactions -/

/-- The constructor of the transaction. -/
def begin : Code (SqliteSolutions Db Stmt) String Unit := do
  modify fun st => { st with sqliteTransaction := ⟨st.m_pDatabase, false⟩ }
  let code ← onHandle (fun st => st.sqliteTransaction.m_pDatabase)
    (.sqlite3_exec "BEGIN") id SQLITE_MISUSE (sql.sqlite3_exec "BEGIN")
  if code ≠ SQLITE_OK then throw "Could not begin sqlite transaction"

def Commit : Code (SqliteSolutions Db Stmt) String Unit := do
  let code ← onHandle (fun st => st.sqliteTransaction.m_pDatabase)
    (.sqlite3_exec "COMMIT") id SQLITE_MISUSE (sql.sqlite3_exec "COMMIT")
  if code ≠ SQLITE_OK then throw "Could not commit sqlite transaction"
  modify fun st => { st with
    sqliteTransaction := { st.sqliteTransaction with m_bCommitted := true } }

/-- The destructor of the transaction. -/
def endTransaction : Code (SqliteSolutions Db Stmt) String Unit := do
  let st ← get
  if !st.sqliteTransaction.m_bCommitted then
    let _ ← onHandle (fun st => st.sqliteTransaction.m_pDatabase)
      (.sqlite3_exec "ROLLBACK") id SQLITE_MISUSE (sql.sqlite3_exec "ROLLBACK")

/-! ## The object -/

def PuzzleToString (rPuzzle : Puzzle) :
    Code (SqliteSolutions Db Stmt) String String :=
  match puzzleToString rPuzzle with
  | .ok text => return text
  | .error error => throw error

/-- The body of the loop of `AddSolutions`. -/
def addSolution (rSolution : Solution) :
    Code (SqliteSolutions Db Stmt) String Unit :=
  withStatment sql do
    PrepareStatment sql insertStatment
    let puzzle ← PuzzleToString rSolution.m_puzzle
    let solution ← PuzzleToString rSolution.m_solution
    bindText sql 1 puzzle
    bindText sql 2 solution
    ExecuteStatment sql

def AddSolutions (rSolutionList : List Solution) :
    Code (SqliteSolutions Db Stmt) String Unit := do
  begin sql
  tryFinally
    (do
      rSolutionList.forM (addSolution sql)
      Commit sql)
    (endTransaction sql)

/-- The constructor. -/
def construct (rFilePath : String) :
    Code (SqliteSolutions Db Stmt) String Unit := do
  let code ← modifyGet fun st =>
    let result := sql.sqlite3_open rFilePath st.db
    (result.1.1, { st with db := result.2, m_pDatabase := result.1.2 }.note
      ⟨.sqlite3_open, .live, result.1.1⟩)
  if code ≠ SQLITE_OK then ThrowLastError sql
  withStatment sql do
    PrepareStatment sql createStatment
    ExecuteStatment sql

/-- The destructor. -/
def destroy : Code (SqliteSolutions Db Stmt) String Unit := do
  let _ ← sqlite3_close sql

end SqliteSolutions

end SudokuSolver.Cpp
