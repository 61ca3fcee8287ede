import SudokuSolver.Cpp.Sqlite

/-!
# A database of one table

A library as it is documented, with one statement at a time.  Which of its calls
fail is settled beforehand.
-/

namespace SudokuSolver.Cpp

/-- The rows of the table, those saved by a transaction, the statement with what
is bound to it, and whether each of the next calls fails. -/
structure Table where
  rows : List (String × String)
  saved : Option (List (String × String))
  statement : Option String
  bound : ℕ → String
  failures : List Bool

namespace Table

def empty (failures : List Bool) : Table where
  rows := []
  saved := none
  statement := none
  bound _ := ""
  failures := failures

/-- A call that may fail without an effect. -/
def attempt (good : ℤ) (effect : Table → Table) (table : Table) : ℤ × Table :=
  match table.failures with
  | true :: failures => (SQLITE_NOMEM, { table with failures := failures })
  | _ => (good, effect { table with failures := table.failures.tail })

def rollback (table : Table) : Table :=
  { table with rows := table.saved.getD table.rows, saved := none }

def insertOrIgnore (table : Table) : Table :=
  let row := (table.bound 1, table.bound 2)
  if row ∈ table.rows then table
  else { table with rows := table.rows ++ [row] }

def sqlite : Sqlite Table Unit where
  sqlite3_open _ table :=
    ((SQLITE_OK, .database), { table with saved := none, statement := none })
  sqlite3_exec text table :=
    if text = "BEGIN" then
      table.attempt SQLITE_OK fun table =>
        { table with saved := some table.rows }
    else if text = "COMMIT" then
      table.attempt SQLITE_OK fun table => { table with saved := none }
    else (SQLITE_OK, table.rollback)
  sqlite3_prepare text table :=
    let (code, table) := table.attempt SQLITE_OK fun table =>
      { table with statement := some text }
    ((code, if code = SQLITE_OK then some () else none), table)
  sqlite3_bind_text _ index text table :=
    table.attempt SQLITE_OK fun table =>
      { table with bound := Function.update table.bound index text }
  sqlite3_step _ table :=
    table.attempt SQLITE_DONE fun table =>
      if table.statement = some insertStatment then table.insertOrIgnore
      else table
  sqlite3_finalize _ table := (SQLITE_OK, { table with statement := none })
  sqlite3_close table :=
    match table.statement with
    | some _ => (SQLITE_BUSY, table)
    | none => (SQLITE_OK, table.rollback)
  sqlite3_errcode _ := SQLITE_NOMEM
  sqlite3_errmsg _ := "out of memory"
  rows table := {row | row ∈ table.rows}
  saved table := table.saved.map fun rows => {row | row ∈ rows}
  statements table _ := table.statement

/-! ## What it does is what is documented -/

section Attempt

variable {good code : ℤ} {effect : Table → Table} {table table' : Table}

theorem attempt_cases (h : table.attempt good effect = (code, table')) :
    (code = good ∧
      table' = effect { table with failures := table.failures.tail }) ∨
    (code = SQLITE_NOMEM ∧
      table' = { table with failures := table.failures.tail }) := by
  rw [attempt] at h
  split at h
  · next failures hfailures =>
      cases h
      exact Or.inr ⟨rfl, by rw [hfailures, List.tail_cons]⟩
  · cases h
    exact Or.inl ⟨rfl, rfl⟩

theorem attempt_good (h : table.attempt good effect = (good, table'))
    (hgood : good ≠ SQLITE_NOMEM) :
    table' = effect { table with failures := table.failures.tail } := by
  rcases attempt_cases h with ⟨-, htable⟩ | ⟨hcode, -⟩
  · exact htable
  · exact (hgood hcode).elim

theorem attempt_failed (h : table.attempt good effect = (code, table'))
    (hcode : code ≠ good) :
    table' = { table with failures := table.failures.tail } := by
  rcases attempt_cases h with ⟨hgood, -⟩ | ⟨-, htable⟩
  · exact (hcode hgood).elim
  · exact htable

/-- Nothing more is observed of a call than its effect. -/
theorem attempt_eq {α : Type}
    (h : table.attempt good effect = (code, table')) (observe : Table → α)
    (hfailures : ∀ table failures,
      observe { table with failures := failures } = observe table)
    (heffect : ∀ table, observe (effect table) = observe table) :
    observe table' = observe table := by
  rcases attempt_cases h with ⟨-, rfl⟩ | ⟨-, rfl⟩
  · exact (heffect _).trans (hfailures _ _)
  · exact hfailures _ _

end Attempt

theorem undone_rollback (table : Table) :
    sqlite.rows table.rollback = sqlite.undone table := by
  rw [Sqlite.undone]
  cases hsaved : table.saved with
  | none => simp [sqlite, rollback, hsaved]
  | some rows => simp [sqlite, rollback, hsaved]

theorem exec_begin (table : Table) :
    sqlite.sqlite3_exec "BEGIN" table = table.attempt SQLITE_OK fun table =>
      { table with saved := some table.rows } := by
  simp [sqlite]

theorem exec_commit (table : Table) :
    sqlite.sqlite3_exec "COMMIT" table =
      table.attempt SQLITE_OK fun table => { table with saved := none } := by
  simp [sqlite]

theorem exec_rollback (table : Table) :
    sqlite.sqlite3_exec "ROLLBACK" table = (SQLITE_OK, table.rollback) := by
  simp [sqlite]

theorem bind_text_eq (stmt : Unit) (index : ℕ) (text : String) (table : Table) :
    sqlite.sqlite3_bind_text stmt index text table =
      table.attempt SQLITE_OK fun table =>
        { table with bound := Function.update table.bound index text } :=
  rfl

theorem step_eq (stmt : Unit) (table : Table) :
    sqlite.sqlite3_step stmt table = table.attempt SQLITE_DONE fun table =>
      if table.statement = some insertStatment then table.insertOrIgnore
      else table :=
  rfl

/-- A step may add a row, which a transaction still undoes. -/
theorem step_spec {stmt : Unit} {code : ℤ} {table table' : Table}
    (h : sqlite.sqlite3_step stmt table = (code, table')) :
    table'.saved = table.saved ∧ table'.statement = table.statement := by
  have hinsert (table : Table) :
      table.insertOrIgnore.saved = table.saved ∧
        table.insertOrIgnore.statement = table.statement := by
    rw [insertOrIgnore]
    split
    · exact ⟨rfl, rfl⟩
    · exact ⟨rfl, rfl⟩
  have heffect (table : Table) :
      (if table.statement = some insertStatment then table.insertOrIgnore
        else table).saved = table.saved ∧
      (if table.statement = some insertStatment then table.insertOrIgnore
        else table).statement = table.statement := by
    split
    · exact hinsert table
    · exact ⟨rfl, rfl⟩
  rw [step_eq] at h
  exact ⟨attempt_eq h saved (fun _ _ => rfl) fun table => (heffect table).1,
    attempt_eq h statement (fun _ _ => rfl) fun table => (heffect table).2⟩

theorem prepare_cases {text : String} {code : ℤ} {pStatment : Option Unit}
    {table table' : Table}
    (h : sqlite.sqlite3_prepare text table = ((code, pStatment), table')) :
    (table.attempt SQLITE_OK fun table => { table with statement := some text })
      = (code, table') ∧
    pStatment = if code = SQLITE_OK then some () else none := by
  cases h
  exact ⟨rfl, rfl⟩

theorem documented : sqlite.Documented where
  open_ok h := by
    cases h
    exact ⟨rfl, fun _ => rfl, rfl⟩
  begin_ok h := by
    obtain rfl := attempt_good ((exec_begin _).symm.trans h) (by decide)
    exact ⟨rfl, rfl, rfl⟩
  begin_failed h hcode := by
    obtain rfl := attempt_failed ((exec_begin _).symm.trans h) hcode
    exact ⟨rfl, rfl, rfl⟩
  commit_ok h := by
    obtain rfl := attempt_good ((exec_commit _).symm.trans h) (by decide)
    exact ⟨rfl, rfl, rfl⟩
  commit_failed h hcode := by
    obtain rfl := attempt_failed ((exec_commit _).symm.trans h) hcode
    exact ⟨rfl, rfl⟩
  rollback hstmt h := by
    cases (exec_rollback _).symm.trans h
    exact ⟨undone_rollback _, rfl, rfl⟩
  prepare_ok h := by
    obtain ⟨hattempt, rfl⟩ := prepare_cases h
    obtain rfl := attempt_good hattempt (by decide)
    exact ⟨(), if_pos rfl, rfl, fun other hother => (hother rfl).elim, rfl, rfl⟩
  prepare_failed h hcode := by
    obtain ⟨hattempt, rfl⟩ := prepare_cases h
    obtain rfl := attempt_failed hattempt hcode
    exact ⟨if_neg hcode, rfl, rfl⟩
  bind_text h := by
    rw [bind_text_eq] at h
    exact ⟨⟨attempt_eq h sqlite.undone (fun _ _ => rfl) fun _ => rfl,
      attempt_eq h sqlite.statements (fun _ _ => rfl) fun _ => rfl⟩,
      fun _ => attempt_eq h sqlite.saved (fun _ _ => rfl) fun _ => rfl⟩
  insert {stmt code db db'} hstmt hsaved h := by
    obtain ⟨hsaved', hstatement⟩ := step_spec h
    obtain ⟨rows, hrows⟩ := Option.ne_none_iff_exists'.mp hsaved
    have hrows' : sqlite.saved db' = some rows := by
      rw [← hrows]
      exact congrArg (Option.map fun rows => {row | row ∈ rows}) hsaved'
    refine ⟨⟨?_, funext fun _ => hstatement⟩, fun _ => hrows'.trans hrows.symm⟩
    rw [Sqlite.undone, Sqlite.undone, hrows, hrows']
    rfl
  create {stmt db db'} hstmt hsaved h := by
    obtain ⟨hsaved', hstatement⟩ := step_spec h
    refine ⟨?_, funext fun _ => hstatement⟩
    rw [← hsaved]
    exact congrArg (Option.map fun rows => {row | row ∈ rows}) hsaved'
  finalize h := by
    cases h
    exact ⟨rfl, fun other hother => (hother rfl).elim, rfl⟩
  finalize_done hdone h := by
    cases h
    rfl
  close_busy {stmt code db db'} hstmt h := by
    obtain ⟨text, hstatement⟩ := Option.ne_none_iff_exists'.mp hstmt
    have hstatement : db.statement = some text := hstatement
    simp only [sqlite, hstatement] at h
    cases h
    exact ⟨rfl, rfl, rfl⟩
  close_ok {code db db'} hstmt h := by
    have hstatement : db.statement = none := hstmt ()
    simp only [sqlite, hstatement] at h
    cases h
    exact ⟨rfl, undone_rollback db⟩

end Table

end SudokuSolver.Cpp
