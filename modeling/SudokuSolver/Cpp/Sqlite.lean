import Mathlib.Data.Set.Basic
import SudokuSolver.Support.Unwind

/-!
# SQLite as its callers see it

The functions of `sqlite3.h` that are called from C++, as they work on a handle
that is open; what they do about rows, transactions and statements is what
SQLite documents.  A call through a null pointer has no effect.  A call on a
handle that has been closed is not defined, so that it is only noted here.
-/

namespace SudokuSolver.Cpp

open Unwind

/-! ## Result codes -/

def SQLITE_OK : ℤ := 0
def SQLITE_BUSY : ℤ := 5
def SQLITE_NOMEM : ℤ := 7
def SQLITE_MISUSE : ℤ := 21
def SQLITE_DONE : ℤ := 101

/-! ## The library -/

/-- A pointer of type `sqlite3*`; there is only one handle. -/
inductive Handle where
  | NULL
  | database
deriving DecidableEq

/-- The functions on an open handle, with what can be observed of its state: the
rows of `tbl_Solutions`, those that a rollback leads back to while there is a
transaction, and the text of each statement that is not finalized. -/
structure Sqlite (Db Stmt : Type) where
  sqlite3_open : String → Db → (ℤ × Handle) × Db
  sqlite3_exec : String → Db → ℤ × Db
  sqlite3_prepare : String → Db → (ℤ × Option Stmt) × Db
  sqlite3_bind_text : Stmt → ℕ → String → Db → ℤ × Db
  sqlite3_step : Stmt → Db → ℤ × Db
  sqlite3_finalize : Stmt → Db → ℤ × Db
  sqlite3_close : Db → ℤ × Db
  sqlite3_errcode : Db → ℤ
  sqlite3_errmsg : Db → String
  rows : Db → Set (String × String)
  saved : Db → Option (Set (String × String))
  statements : Db → Stmt → Option String

namespace Sqlite

variable {Db Stmt : Type} (sql : Sqlite Db Stmt)

/-- The rows that are left if an open transaction is undone. -/
def undone (db : Db) : Set (String × String) :=
  (sql.saved db).getD (sql.rows db)

/-- No statement is waiting to be finalized. -/
def NoStatements (db : Db) : Prop := ∀ stmt, sql.statements db stmt = none

variable {sql} in
theorem NoStatements.of_eq {db db' : Db} (h : sql.NoStatements db)
    (hstatements : sql.statements db' = sql.statements db) :
    sql.NoStatements db' :=
  fun stmt => (congrFun hstatements stmt).trans (h stmt)

/-- Nothing has happened to the statements, and an open transaction would be
undone to the same rows, even if it has been rolled back in the meantime. -/
structure Undoable (db db' : Db) : Prop where
  undone : sql.undone db' = sql.undone db
  statements : sql.statements db' = sql.statements db

end Sqlite

def insertStatment : String :=
  "INSERT OR IGNORE INTO tbl_Solutions (Puzzle, Solution) VALUES (?, ?)"

def createStatment : String :=
  "CREATE TABLE IF NOT EXISTS tbl_Solutions (Puzzle" ++
    " TEXT NOT NULL, Solution TEXT NOT NULL, PRIMARY" ++
    " KEY (Puzzle, Solution) ON CONFLICT IGNORE)"

/-- What SQLite documents. -/
structure Sqlite.Documented {Db Stmt : Type} (sql : Sqlite Db Stmt) : Prop where
  open_ok {path : String} {handle : Handle} {db db' : Db}
    (h : sql.sqlite3_open path db = ((SQLITE_OK, handle), db')) :
    handle = .database ∧ sql.NoStatements db' ∧ sql.saved db' = none
  begin_ok {db db' : Db}
    (h : sql.sqlite3_exec "BEGIN" db = (SQLITE_OK, db')) :
    sql.rows db' = sql.rows db ∧ sql.saved db' = some (sql.rows db) ∧
      sql.statements db' = sql.statements db
  begin_failed {code : ℤ} {db db' : Db}
    (h : sql.sqlite3_exec "BEGIN" db = (code, db')) (hcode : code ≠ SQLITE_OK) :
    sql.rows db' = sql.rows db ∧ sql.saved db' = sql.saved db ∧
      sql.statements db' = sql.statements db
  commit_ok {db db' : Db}
    (h : sql.sqlite3_exec "COMMIT" db = (SQLITE_OK, db')) :
    sql.rows db' = sql.rows db ∧ sql.saved db' = none ∧
      sql.statements db' = sql.statements db
  commit_failed {code : ℤ} {db db' : Db}
    (h : sql.sqlite3_exec "COMMIT" db = (code, db'))
    (hcode : code ≠ SQLITE_OK) : sql.Undoable db db'
  rollback {code : ℤ} {db db' : Db} (hstmt : sql.NoStatements db)
    (h : sql.sqlite3_exec "ROLLBACK" db = (code, db')) :
    sql.rows db' = sql.undone db ∧ sql.saved db' = none ∧
      sql.statements db' = sql.statements db
  prepare_ok {text : String} {pStatment : Option Stmt} {db db' : Db}
    (h : sql.sqlite3_prepare text db = ((SQLITE_OK, pStatment), db')) :
    ∃ stmt, pStatment = some stmt ∧ sql.statements db' stmt = some text ∧
      (∀ other, other ≠ stmt →
        sql.statements db' other = sql.statements db other) ∧
      sql.rows db' = sql.rows db ∧ sql.saved db' = sql.saved db
  prepare_failed {text : String} {code : ℤ} {pStatment : Option Stmt}
    {db db' : Db}
    (h : sql.sqlite3_prepare text db = ((code, pStatment), db'))
    (hcode : code ≠ SQLITE_OK) : pStatment = none ∧ sql.Undoable db db'
  bind_text {stmt : Stmt} {index : ℕ} {text : String} {code : ℤ} {db db' : Db}
    (h : sql.sqlite3_bind_text stmt index text db = (code, db')) :
    sql.Undoable db db' ∧ (code = SQLITE_OK → sql.saved db' = sql.saved db)
  insert {stmt : Stmt} {code : ℤ} {db db' : Db}
    (hstmt : sql.statements db stmt = some insertStatment)
    (hsaved : sql.saved db ≠ none)
    (h : sql.sqlite3_step stmt db = (code, db')) :
    sql.Undoable db db' ∧ (code = SQLITE_DONE → sql.saved db' = sql.saved db)
  create {stmt : Stmt} {db db' : Db}
    (hstmt : sql.statements db stmt = some createStatment)
    (hsaved : sql.saved db = none)
    (h : sql.sqlite3_step stmt db = (SQLITE_DONE, db')) :
    sql.saved db' = none ∧ sql.statements db' = sql.statements db
  finalize {stmt : Stmt} {code : ℤ} {db db' : Db}
    (h : sql.sqlite3_finalize stmt db = (code, db')) :
    sql.statements db' stmt = none ∧
      (∀ other, other ≠ stmt →
        sql.statements db' other = sql.statements db other) ∧
      sql.undone db' = sql.undone db
  finalize_done {stmt : Stmt} {code : ℤ} {db db' db'' : Db}
    (hdone : sql.sqlite3_step stmt db = (SQLITE_DONE, db'))
    (h : sql.sqlite3_finalize stmt db' = (code, db'')) :
    sql.saved db'' = sql.saved db'
  close_busy {stmt : Stmt} {code : ℤ} {db db' : Db}
    (hstmt : sql.statements db stmt ≠ none)
    (h : sql.sqlite3_close db = (code, db')) :
    code = SQLITE_BUSY ∧ sql.Undoable db db'
  close_ok {code : ℤ} {db db' : Db} (hstmt : sql.NoStatements db)
    (h : sql.sqlite3_close db = (code, db')) :
    code = SQLITE_OK ∧ sql.rows db' = sql.undone db

/-! ## Calls -/

/-- The functions, with the texts that they are called with. -/
inductive Function where
  | sqlite3_open
  | sqlite3_exec (text : String)
  | sqlite3_prepare (text : String)
  | sqlite3_bind_text (index : ℕ) (text : String)
  | sqlite3_step
  | sqlite3_finalize
  | sqlite3_close
  | sqlite3_errcode
  | sqlite3_errmsg
deriving DecidableEq

/-- What a pointer points to at the time of a call. -/
inductive Target where
  | nothing
  | live
  | closed
deriving DecidableEq

/-- A call that was made, and the result code, which is `SQLITE_OK` where the
function has none. -/
structure Call where
  function : Function
  target : Target
  code : ℤ
deriving DecidableEq

end SudokuSolver.Cpp
