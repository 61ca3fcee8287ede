import SudokuSolver.Cpp.SqliteTable
import SudokuSolver.Cpp.SqliteUnwinding

/-!
# The lifetime of an SQLite database

Between two calls of `AddSolutions` there is neither a transaction nor a
statement, and the object either has an open handle or a null pointer.  A call
that throws leaves the rows as they were, but if a statement could not be
prepared it has used the handle after closing it.
-/

namespace SudokuSolver.Cpp

open Unwind

namespace SqliteSolutions

variable {Db Stmt : Type} {sql : Sqlite Db Stmt}
variable {rows : Set (String × String)}

/-! ## Between two calls -/

/-- The object is not in use. -/
def Idle (sql : Sqlite Db Stmt) (st : SqliteSolutions Db Stmt) : Prop :=
  st.m_pDatabase = .database →
    st.closed = false ∧ sql.saved st.db = none ∧ sql.NoStatements st.db

/-- A call is about to be made. -/
structure Starting (sql : Sqlite Db Stmt) (rows : Set (String × String))
    (st : SqliteSolutions Db Stmt) : Prop where
  idle : Idle sql st
  calls : st.calls = []
  rows : sql.rows st.db = rows

/-- A call has thrown, and the handle is as good as before. -/
structure Undone (sql : Sqlite Db Stmt) (rows : Set (String × String))
    (st : SqliteSolutions Db Stmt) : Prop where
  idle : Idle sql st
  safe : Safe st.calls
  prepared : ∀ call ∈ st.calls, ¬call.PrepareFailed
  rows : sql.rows st.db = rows

/-- A call has thrown, and has used the handle after closing it. -/
structure Misused (sql : Sqlite Db Stmt) (st : SqliteSolutions Db Stmt) :
    Prop where
  idle : Idle sql st
  unsafe_calls : ¬Safe st.calls
  failed : ∃ call ∈ st.calls, call.PrepareFailed

/-- A call has returned. -/
structure Added (sql : Sqlite Db Stmt) (rSolutionList : List Solution)
    (st : SqliteSolutions Db Stmt) : Prop where
  idle : Idle sql st
  safe : Safe st.calls
  clean : ∀ call ∈ st.calls, ¬call.Failed
  converts : ∀ rSolution ∈ rSolutionList, Converts rSolution

/-! ## One call -/

/-- What is known after a call of `sqlite3_exec` with `BEGIN`. -/
def Begun (sql : Sqlite Db Stmt) (rows : Set (String × String)) (code : ℤ)
    (st : SqliteSolutions Db Stmt) : Prop :=
  (code = SQLITE_OK → Inside sql rows st ∧ sql.NoStatements st.db) ∧
  (code ≠ SQLITE_OK → Undone sql rows st)

theorem mem_first {st st' : SqliteSolutions Db Stmt} {p : Call → Prop}
    {call : Call} (hstart : Starting sql rows st) (hcall : p call)
    (hcalls : st'.calls = st.calls ++ [call]) : ∀ call ∈ st'.calls, p call := by
  have hnone : ∀ call ∈ st.calls, p call := by
    rw [hstart.calls]
    exact fun call hmem => (List.not_mem_nil hmem).elim
  exact mem_note hnone hcall hcalls

/-- The null pointer is refused. -/
theorem begin_null (sql : Sqlite Db Stmt) (rows : Set (String × String)) :
    Triple (fun st => Starting sql rows st ∧ st.m_pDatabase = .NULL ∧
        st.sqliteTransaction.m_pDatabase = .NULL)
      (onHandle (fun st => st.sqliteTransaction.m_pDatabase)
        (.sqlite3_exec "BEGIN") id SQLITE_MISUSE (sql.sqlite3_exec "BEGIN"))
      (Begun sql rows) (fun _ st => Undone sql rows st) := by
  refine Triple.modifyGet fun st hst => ?_
  obtain ⟨hstart, hpointer, hguard⟩ := hst
  simp only [hguard]
  refine ⟨fun hcode => ?_, fun _ => ⟨fun hdatabase => ?_, ?_, ?_, hstart.rows⟩⟩
  · cases hcode
  · cases hpointer.symm.trans hdatabase
  · exact mem_first hstart Target.noConfusion rfl
  · exact mem_first hstart (Call.not_prepareFailed rfl) rfl

theorem begin_database (hsql : sql.Documented) (rows : Set (String × String)) :
    Triple (fun st => Starting sql rows st ∧ st.m_pDatabase = .database ∧
        st.sqliteTransaction = ⟨.database, false⟩)
      (onHandle (fun st => st.sqliteTransaction.m_pDatabase)
        (.sqlite3_exec "BEGIN") id SQLITE_MISUSE (sql.sqlite3_exec "BEGIN"))
      (Begun sql rows) (fun _ st => Undone sql rows st) := by
  refine triple_onHandle fun st hst => ?_
  obtain ⟨hstart, hpointer, htransaction⟩ := hst
  obtain ⟨hclosed, hsaved, hnone⟩ := hstart.idle hpointer
  refine ⟨by rw [htransaction], hclosed, fun code db hbegin => ?_⟩
  have halive : Alive ({ st with db := db }.note
      ⟨.sqlite3_exec "BEGIN", .live, code⟩) :=
    ⟨hclosed, mem_first hstart Target.noConfusion rfl,
      mem_first hstart (Call.not_prepareFailed rfl) rfl⟩
  refine ⟨?_, fun hcode => ?_⟩
  · rintro rfl
    obtain ⟨-, hsaved', hstatements⟩ := hsql.begin_ok hbegin
    have hgood : ¬(⟨.sqlite3_exec "BEGIN", .live, SQLITE_OK⟩ : Call).Failed :=
      fun hfailed => hfailed.2 rfl
    exact ⟨⟨halive, hpointer, htransaction, hstart.rows ▸ hsaved',
      mem_first hstart hgood rfl⟩, hnone.of_eq hstatements⟩
  · obtain ⟨hrows, hsaved', hstatements⟩ := hsql.begin_failed hbegin hcode
    exact ⟨fun _ => ⟨hclosed, hsaved'.trans hsaved, hnone.of_eq hstatements⟩,
      halive.safe, halive.prepared, hrows.trans hstart.rows⟩

theorem begin_spec (hsql : sql.Documented) :
    Triple (Starting sql rows) (begin sql)
      (fun _ st => Inside sql rows st ∧ sql.NoStatements st.db)
      (fun _ st => Undone sql rows st) := by
  refine Triple.assign (Triple.bind
    ((begin_null sql rows).either (begin_database hsql rows)) fun code => ?_)
    fun st hst => ?_
  · apply Triple.check
    · intro hcode
      exact Triple.pure fun st hst => hst.1 hcode
    · intro hcode
      exact Triple.throw fun st hst => hst.2 hcode
  · have hstart : Starting sql rows
        { st with sqliteTransaction := ⟨st.m_pDatabase, false⟩ } :=
      ⟨hst.idle, hst.calls, hst.rows⟩
    cases hpointer : st.m_pDatabase with
    | NULL => exact Or.inl ⟨hpointer ▸ hstart, rfl, rfl⟩
    | database => exact Or.inr ⟨hpointer ▸ hstart, rfl, rfl⟩

/-- The guard of a transaction that was committed. -/
theorem endTransaction_committed (sql : Sqlite Db Stmt) :
    Triple (fun st => Committed sql st ∧ sql.NoStatements st.db)
      (endTransaction sql)
      (fun _ st => Committed sql st ∧ sql.NoStatements st.db)
      fun _ _ => False := by
  refine Triple.read fun st hst => ?_
  rw [hst.1.m_bCommitted]
  exact Triple.pure fun st' heq => heq ▸ hst

/-- The guard of a transaction that was not committed. -/
theorem endTransaction_rollback {P : SqliteSolutions Db Stmt → Prop}
    {Q : Unit → SqliteSolutions Db Stmt → Prop}
    {E : String → SqliteSolutions Db Stmt → Prop}
    (hguard : ∀ st, P st → st.sqliteTransaction = ⟨.database, false⟩)
    (hrollback : Triple P
      (onHandle (fun st => st.sqliteTransaction.m_pDatabase)
        (.sqlite3_exec "ROLLBACK") id SQLITE_MISUSE
        (sql.sqlite3_exec "ROLLBACK")) (fun _ => Q ()) E) :
    Triple P (endTransaction sql) Q E := by
  refine Triple.read fun st hst => ?_
  rw [hguard st hst]
  exact Triple.bind (hrollback.consequence (fun st' heq => heq ▸ hst)
    (fun _ _ => id) fun _ _ => id) fun _ => Triple.pure fun _ => id

/-- The guard of a transaction, after an exception. -/
theorem endTransaction_unwinding (hsql : sql.Documented)
    (rows : Set (String × String)) :
    Triple (fun st => (Rolling sql rows st ∧ sql.NoStatements st.db) ∨ Broken st)
      (endTransaction sql)
      (fun _ st => Undone sql rows st ∨ Misused sql st) fun _ _ => False := by
  refine Triple.either (endTransaction_rollback
    (fun st hst => hst.1.sqliteTransaction) (triple_onHandle fun st hst => ?_))
    (endTransaction_rollback (fun st hst => hst.sqliteTransaction)
      (Triple.modifyGet fun st hst => ?_))
  · obtain ⟨hrolling, hnone⟩ := hst
    refine ⟨by rw [hrolling.sqliteTransaction], hrolling.alive.closed,
      fun code db hcall => ?_⟩
    obtain ⟨hrows, hsaved, hstatements⟩ := hsql.rollback hnone hcall
    have halive : Alive ({ st with db := db }.note
        ⟨.sqlite3_exec "ROLLBACK", .live, code⟩) :=
      hrolling.alive.note Target.noConfusion (Call.not_prepareFailed rfl)
        hrolling.alive.closed rfl
    exact Or.inl ⟨fun _ => ⟨halive.closed, hsaved, hnone.of_eq hstatements⟩,
      halive.safe, halive.prepared, hrows.trans hrolling.undone⟩
  · obtain ⟨⟨call, hcall, hfailed⟩, hclosed, hpointer, htransaction, -⟩ := hst
    simp only [htransaction, hclosed, if_true]
    refine Or.inr ⟨fun hdatabase => ?_, fun hsafe => ?_, call,
      List.mem_append_left _ hcall, hfailed⟩
    · cases hpointer.symm.trans hdatabase
    · exact hsafe _ (List.mem_append_right _ (List.mem_singleton_self _)) rfl

/-- The loop over the solutions. -/
theorem forM_addSolution_spec (hsql : sql.Documented)
    (rSolutionList : List Solution) :
    Triple (fun st => Inside sql rows st ∧ sql.NoStatements st.db)
      (rSolutionList.forM (addSolution sql))
      (fun _ st => (Inside sql rows st ∧ sql.NoStatements st.db) ∧
        ∀ rSolution ∈ rSolutionList, Converts rSolution)
      (fun _ st => (Rolling sql rows st ∧ sql.NoStatements st.db) ∨
        Broken st) := by
  have hforM := Triple.forM (l := rSolutionList) (f := addSolution sql)
    (E := fun _ st => (Rolling sql rows st ∧ sql.NoStatements st.db) ∨
      Broken st)
    (I := fun visited st => (Inside sql rows st ∧ sql.NoStatements st.db) ∧
      ∀ rSolution ∈ visited, Converts rSolution)
    (fun visited rSolution _ => Triple.known fun hvisited => ?_) []
  · exact hforM.consequence
      (fun st hst => ⟨hst, fun _ hmem => (List.not_mem_nil hmem).elim⟩)
      (fun _ _ => id) fun _ _ => id
  · refine (addSolution_spec hsql rSolution).consequence (fun _ => id)
      (fun _ st hst => ⟨hst.1, fun other hmem => ?_⟩) fun _ _ => id
    rcases List.mem_append.mp hmem with hmem | hmem
    · exact hvisited other hmem
    · exact List.mem_singleton.mp hmem ▸ hst.2

/-- A call returns with nothing failed, or throws with the rows as before, or
has misused the handle. -/
theorem addSolutions_spec (hsql : sql.Documented)
    (rSolutionList : List Solution) :
    Triple (Starting sql rows) (AddSolutions sql rSolutionList)
      (fun _ st => Added sql rSolutionList st)
      (fun _ st => Undone sql rows st ∨ Misused sql st) := by
  have hblock : Triple
      (fun st => Inside sql rows st ∧ sql.NoStatements st.db)
      (do
        rSolutionList.forM (addSolution sql)
        Commit sql)
      (fun _ st => (Committed sql st ∧ sql.NoStatements st.db) ∧
        ∀ rSolution ∈ rSolutionList, Converts rSolution)
      (fun _ st => (Rolling sql rows st ∧ sql.NoStatements st.db) ∨
        Broken st) := by
    refine Triple.bind (forM_addSolution_spec hsql rSolutionList) fun _ => ?_
    refine Triple.known fun hconverts => ?_
    exact (commit_spec hsql).consequence (fun _ => id)
      (fun _ _ hst => ⟨hst, hconverts⟩) fun _ _ => Or.inl
  refine Triple.bind ((begin_spec hsql).consequence (fun _ => id)
    (fun _ _ => id) fun _ _ => Or.inl) fun _ => ?_
  refine Triple.tryFinally hblock (fun _ => Triple.known fun hconverts => ?_)
    fun _ => endTransaction_unwinding hsql rows
  refine (endTransaction_committed sql).consequence (fun _ => id)
    (fun _ st hst => ?_) fun _ _ => id
  obtain ⟨hcommitted, hnone⟩ := hst
  exact ⟨fun _ => ⟨hcommitted.alive.closed, hcommitted.saved, hnone⟩,
    hcommitted.alive.safe, hcommitted.clean, hconverts⟩

/-! ## The object -/

/-- The handle has been opened. -/
structure Opened (sql : Sqlite Db Stmt) (st : SqliteSolutions Db Stmt) :
    Prop where
  closed : st.closed = false
  m_pDatabase : st.m_pDatabase = .database
  saved : sql.saved st.db = none

theorem Opened.withStatment {st : SqliteSolutions Db Stmt}
    (h : Opened sql st) (pStatment : Option Stmt) :
    Opened sql { st with m_pStatment := pStatment } :=
  ⟨h.closed, h.m_pDatabase, h.saved⟩

/-- The last error is thrown, whatever has become of the handle. -/
theorem throwLastError_throws {P : SqliteSolutions Db Stmt → Prop}
    {Q : Unit → SqliteSolutions Db Stmt → Prop} (sql : Sqlite Db Stmt) :
    Triple P (ThrowLastError sql) Q fun _ _ => True := by
  refine Triple.bind (R := fun _ _ => True)
    (Triple.modifyGet fun _ _ => trivial) fun errorCode => ?_
  refine Triple.bind (R := fun _ _ => True)
    (Triple.modifyGet fun _ _ => trivial) fun error => ?_
  refine Triple.bind (R := fun _ _ => True)
    (Triple.modifyGet fun _ _ => trivial) fun _ => ?_
  exact Triple.assign (R := fun _ => True) (Triple.throw fun _ _ => trivial)
    fun _ _ => trivial

theorem createStatment_prepared (hsql : sql.Documented) :
    Triple (fun st => Opened sql st ∧ sql.NoStatements st.db)
      (PrepareStatment sql createStatment)
      (fun _ st => Opened sql st ∧ Holding sql createStatment st)
      (fun _ _ => True) := by
  refine Triple.bind (R := fun result st => result.1 = SQLITE_OK →
    Opened sql { st with m_pStatment := result.2 } ∧
      Holding sql createStatment { st with m_pStatment := result.2 })
    (triple_onHandle fun st hst => ?_) ?_
  · obtain ⟨hopened, hnone⟩ := hst
    refine ⟨hopened.m_pDatabase, hopened.closed, ?_⟩
    rintro ⟨code, pStatment⟩ db hprepare hcode
    obtain rfl : code = SQLITE_OK := hcode
    obtain ⟨stmt, hstmt, htext, hothers, -, hsaved⟩ := hsql.prepare_ok hprepare
    exact ⟨⟨hopened.closed, hopened.m_pDatabase, hsaved.trans hopened.saved⟩,
      stmt, hstmt, htext,
      fun other hother => (hothers other hother).trans (hnone other)⟩
  · rintro ⟨code, pStatment⟩
    refine Triple.bind (R := fun _ st => code = SQLITE_OK →
      Opened sql st ∧ Holding sql createStatment st)
      (Triple.update fun _ => id) fun _ => ?_
    apply Triple.check
    · intro hcode
      exact Triple.pure fun st hst => hst hcode
    · intro hcode
      exact throwLastError_throws sql

theorem createStatment_executed (hsql : sql.Documented) :
    Triple (fun st => Opened sql st ∧ Holding sql createStatment st)
      (ExecuteStatment sql)
      (fun _ st => Opened sql st ∧ Holding sql createStatment st ∧
        Finished sql st) (fun _ _ => True) := by
  refine triple_check (R := fun _ => True) (triple_onStatment fun st hst => ?_)
    (throwLastError_throws sql)
  obtain ⟨hopened, hholding⟩ := hst
  obtain ⟨stmt, hstmt, htext, -⟩ := id hholding
  refine ⟨stmt, hstmt, hopened.closed, fun code db hstep => ⟨?_, fun _ => trivial⟩⟩
  rintro rfl
  obtain ⟨hsaved, hstatements⟩ := hsql.create htext hopened.saved hstep
  exact ⟨⟨hopened.closed, hopened.m_pDatabase, hsaved⟩,
    hholding.note hstatements rfl, stmt, st.db, hstmt, hstep⟩

theorem createStatment_finalized (hsql : sql.Documented) :
    Triple (fun st => Opened sql st ∧ Holding sql createStatment st ∧
        Finished sql st)
      (onStatment .sqlite3_finalize SQLITE_OK sql.sqlite3_finalize)
      (fun _ st => Opened sql st ∧ sql.NoStatements st.db)
      fun _ _ => False := by
  refine triple_onStatment fun st hst => ?_
  obtain ⟨hopened, hholding, hfinished⟩ := hst
  obtain ⟨stmt, hstmt, hfinalized⟩ := hholding.finalize hsql
  refine ⟨stmt, hstmt, hopened.closed, fun code db hcall => ?_⟩
  obtain ⟨hnone, -, hsaved⟩ := hfinalized code db hcall
  exact ⟨⟨hopened.closed, hopened.m_pDatabase,
    (hsaved hfinished).trans hopened.saved⟩, hnone⟩

theorem createStatment_spec (hsql : sql.Documented) :
    Triple (fun st => Opened sql st ∧ sql.NoStatements st.db)
      (withStatment sql do
        PrepareStatment sql createStatment
        ExecuteStatment sql)
      (fun _ st => Opened sql st ∧ sql.NoStatements st.db)
      (fun _ _ => True) := by
  refine Triple.assign (Triple.tryFinally (Triple.bind
    (createStatment_prepared hsql) fun _ => createStatment_executed hsql)
    (fun _ => createStatment_finalized hsql) fun _ => ?_) fun st hst => ?_
  · exact Triple.modifyGet fun _ _ => trivial
  · exact ⟨hst.1.withStatment none, hst.2⟩

/-- The object that is constructed has an open handle. -/
theorem construct_spec (hsql : sql.Documented) (rFilePath : String) :
    Triple (fun st => st.closed = false) (construct sql rFilePath)
      (fun _ st => Opened sql st ∧ sql.NoStatements st.db)
      (fun _ _ => True) := by
  refine Triple.bind (R := fun code st => code = SQLITE_OK → Opened sql st ∧
    sql.NoStatements st.db) (Triple.modifyGet fun st hst hcode => ?_)
    fun code => ?_
  · have hopen : sql.sqlite3_open rFilePath st.db =
        ((SQLITE_OK, (sql.sqlite3_open rFilePath st.db).1.2),
          (sql.sqlite3_open rFilePath st.db).2) :=
      Prod.ext (Prod.ext hcode rfl) rfl
    obtain ⟨hpointer, hnone, hsaved⟩ := hsql.open_ok hopen
    exact ⟨⟨hst, hpointer, hsaved⟩, hnone⟩
  · apply Triple.check
    · intro hcode
      exact (createStatment_spec hsql).consequence (fun st hst => hst hcode)
        (fun _ _ => id) fun _ _ => id
    · intro hcode
      exact Triple.bind_throw (throwLastError_throws sql)

/-- The destructor uses a handle that is open, if any. -/
theorem destroy_spec (sql : Sqlite Db Stmt) :
    Triple (fun st => Idle sql st ∧ st.calls = []) (destroy sql)
      (fun _ st => Safe st.calls) fun _ _ => False := by
  refine Triple.bind (R := fun _ st => Safe st.calls)
    (Triple.modifyGet fun st hst => ?_) fun _ => Triple.pure fun _ => id
  obtain ⟨hidle, hcalls⟩ := hst
  have hfirst {st' : SqliteSolutions Db Stmt} {call : Call}
      (htarget : call.target ≠ .closed)
      (hcalls' : st'.calls = st.calls ++ [call]) : Safe st'.calls :=
    mem_first ⟨hidle, hcalls, rfl⟩ htarget hcalls'
  cases hpointer : st.m_pDatabase with
  | NULL => exact hfirst Target.noConfusion rfl
  | database =>
      simp only [if_neg (Bool.eq_false_iff.mp (hidle hpointer).1)]
      exact hfirst Target.noConfusion rfl

/-! ## Lifetimes -/

/-- An object that is about to be constructed. -/
def start (db : Db) : SqliteSolutions Db Stmt where
  db := db
  closed := false
  calls := []
  m_pDatabase := .NULL
  sqliteTransaction := ⟨.NULL, true⟩
  m_pStatment := none

/-- A call of `AddSolutions`, with the library before and after it. -/
structure Outcome (Db : Type) where
  rSolutionList : List Solution
  before : Db
  result : Except String Unit
  after : Db
  calls : List Call

/-- The calls of `AddSolutions` on an object, and what its destructor calls. -/
structure Lifetime (Db : Type) where
  outcomes : List (Outcome Db)
  destructor : List Call

def addOutcome (sql : Sqlite Db Stmt) (rSolutionList : List Solution)
    (st : SqliteSolutions Db Stmt) : Outcome Db × SqliteSolutions Db Stmt :=
  let (result, st') := exec (AddSolutions sql rSolutionList)
    { st with calls := [] }
  (⟨rSolutionList, st.db, result, st'.db, st'.calls⟩, st')

/-- The object is given the lists and then destroyed. -/
def lifetime (sql : Sqlite Db Stmt) :
    List (List Solution) → SqliteSolutions Db Stmt → Lifetime Db
  | [], st => ⟨[], (exec (destroy sql) { st with calls := [] }).2.calls⟩
  | rSolutionList :: lists, st =>
      let (outcome, st') := addOutcome sql rSolutionList st
      let rest := lifetime sql lists st'
      ⟨outcome :: rest.outcomes, rest.destructor⟩

/-- If a step fails then the call throws, and if it throws then the rows are
those before it. -/
structure Outcome.Atomic (sql : Sqlite Db Stmt) (outcome : Outcome Db) :
    Prop where
  failed (call : Call) (hcall : call ∈ outcome.calls) (hfailed : call.Failed) :
    ∃ error, outcome.result = .error error
  oversize (rSolution : Solution) (hmem : rSolution ∈ outcome.rSolutionList)
    (hconverts : ¬Converts rSolution) : ∃ error, outcome.result = .error error
  rows (error : String) (herror : outcome.result = .error error) :
    sql.rows outcome.after = sql.rows outcome.before

/-- Every call is atomic, and the handle is not used after it was closed. -/
structure Lifetime.AtomicAndSafe (sql : Sqlite Db Stmt)
    (lifetime : Lifetime Db) : Prop where
  outcomes (outcome : Outcome Db) (hmem : outcome ∈ lifetime.outcomes) :
    outcome.Atomic sql ∧ Safe outcome.calls
  destructor : Safe lifetime.destructor

/-- What one call does, from a state in which the object is not in use. -/
theorem addOutcome_spec (hsql : sql.Documented) (rSolutionList : List Solution)
    {st : SqliteSolutions Db Stmt} (hidle : Idle sql st) :
    Idle sql (addOutcome sql rSolutionList st).2 ∧
      ((addOutcome sql rSolutionList st).1.Atomic sql ∧
          Safe (addOutcome sql rSolutionList st).1.calls ↔
        ∀ call ∈ (addOutcome sql rSolutionList st).1.calls,
          ¬call.PrepareFailed) := by
  have hstart : Starting sql (sql.rows st.db) { st with calls := [] } :=
    ⟨hidle, rfl, rfl⟩
  obtain ⟨hreturn, hthrow⟩ := addSolutions_spec hsql rSolutionList _ hstart
  rcases hend : exec (AddSolutions sql rSolutionList) { st with calls := [] }
    with ⟨error | ⟨⟩, st'⟩
  · simp only [addOutcome, hend]
    rcases hthrow error st' hend with hundone | hmisused
    · refine ⟨hundone.idle, fun _ => hundone.prepared, fun _ => ⟨?_, hundone.safe⟩⟩
      exact ⟨fun _ _ _ => ⟨error, rfl⟩, fun _ _ _ => ⟨error, rfl⟩,
        fun _ _ => hundone.rows⟩
    · refine ⟨hmisused.idle, fun h => (hmisused.unsafe_calls h.2).elim,
        fun h => ?_⟩
      obtain ⟨call, hcall, hfailed⟩ := hmisused.failed
      exact (h call hcall hfailed).elim
  · simp only [addOutcome, hend]
    have hadded := hreturn () st' hend
    refine ⟨hadded.idle, fun _ call hcall hfailed => ?_,
      fun _ => ⟨⟨?_, ?_, ?_⟩, hadded.safe⟩⟩
    · exact hadded.clean call hcall hfailed.failed
    · intro call hcall hfailed
      exact (hadded.clean call hcall hfailed).elim
    · intro rSolution hmem hconverts
      exact (hconverts (hadded.converts rSolution hmem)).elim
    · intro error herror
      cases herror

theorem lifetime_spec (hsql : sql.Documented) (lists : List (List Solution))
    {st : SqliteSolutions Db Stmt} (hidle : Idle sql st) :
    Safe (lifetime sql lists st).destructor ∧
      ∀ outcome ∈ (lifetime sql lists st).outcomes,
        (outcome.Atomic sql ∧ Safe outcome.calls ↔
          ∀ call ∈ outcome.calls, ¬call.PrepareFailed) := by
  induction lists generalizing st with
  | nil =>
      refine ⟨?_, fun outcome hmem => (List.not_mem_nil hmem).elim⟩
      obtain ⟨hreturn, hthrow⟩ :=
        destroy_spec sql { st with calls := [] } ⟨hidle, rfl⟩
      rcases hend : exec (destroy sql) { st with calls := [] }
        with ⟨error | ⟨⟩, st'⟩
      · exact (hthrow error st' hend).elim
      · rw [lifetime, hend]
        exact hreturn () st' hend
  | cons rSolutionList lists ih =>
      obtain ⟨hidle', hspec⟩ := addOutcome_spec hsql rSolutionList hidle
      obtain ⟨hdestructor, houtcomes⟩ := ih hidle'
      refine ⟨hdestructor, fun outcome hmem => ?_⟩
      rcases List.mem_cons.mp hmem with rfl | hmem
      · exact hspec
      · exact houtcomes outcome hmem

/-- The object is atomic and safe unless a statement cannot be prepared. -/
theorem atomicAndSafe_iff (hsql : sql.Documented) {rFilePath : String}
    {db : Db} {st : SqliteSolutions Db Stmt}
    (hconstruct : exec (construct sql rFilePath) (start db) = (.ok (), st))
    (lists : List (List Solution)) :
    (lifetime sql lists st).AtomicAndSafe sql ↔
      ∀ outcome ∈ (lifetime sql lists st).outcomes, ∀ call ∈ outcome.calls,
        ¬call.PrepareFailed := by
  obtain ⟨hopened, hnone⟩ :=
    (construct_spec hsql rFilePath (start db) rfl).1 () st hconstruct
  have hidle : Idle sql st := fun _ => ⟨hopened.closed, hopened.saved, hnone⟩
  obtain ⟨hdestructor, houtcomes⟩ := lifetime_spec hsql lists hidle
  constructor
  · intro hsafe outcome hmem
    exact (houtcomes outcome hmem).mp (hsafe.outcomes outcome hmem)
  · intro hprepared
    exact ⟨fun outcome hmem => (houtcomes outcome hmem).mpr
      (hprepared outcome hmem), hdestructor⟩

/-- The object with an empty table, and the calls that are going to fail. -/
def opened (failures : List Bool) : SqliteSolutions Table Unit :=
  (exec (construct Table.sqlite "solutions") (start (.empty failures))).2

/-- The first value cannot be bound, and from then on there is no handle. -/
theorem atomicAndSafe_bindFails :
    (lifetime Table.sqlite [[⟨[0], [1]⟩], [⟨[0], [1]⟩]]
      (opened [false, false, false, false, true])).AtomicAndSafe
        Table.sqlite := by
  have hconstruct : exec (construct Table.sqlite "solutions")
      (start (.empty [false, false, false, false, true])) =
      (.ok (), opened [false, false, false, false, true]) := rfl
  refine (atomicAndSafe_iff Table.documented hconstruct _).mpr ?_
  decide

/-- The statement cannot be prepared, and the transaction is undone with a
handle that is closed. -/
theorem not_atomicAndSafe_prepareFails :
    Table.sqlite.Documented ∧
      exec (construct Table.sqlite "solutions")
          (start (.empty [false, false, false, true])) =
        (.ok (), opened [false, false, false, true]) ∧
      ¬(lifetime Table.sqlite [[⟨[0], [1]⟩]]
        (opened [false, false, false, true])).AtomicAndSafe Table.sqlite := by
  refine ⟨Table.documented, rfl, fun hsafe => ?_⟩
  have hclosed : ∃ outcome ∈ (lifetime Table.sqlite [[⟨[0], [1]⟩]]
      (opened [false, false, false, true])).outcomes,
      ∃ call ∈ outcome.calls, call.target = .closed := by
    decide
  obtain ⟨outcome, hmem, call, hcall, htarget⟩ := hclosed
  exact (hsafe.outcomes outcome hmem).2 call hcall htarget

end SqliteSolutions

end SudokuSolver.Cpp
