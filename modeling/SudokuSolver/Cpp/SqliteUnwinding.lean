import SudokuSolver.Cpp.SqliteSolutions

/-!
# Unwinding with SQLite

Where an exception passes through `AddSolutions`, up to three owners deal with
the handle: the error itself closes it, the guard of the statement finalizes,
and the guard of the transaction rolls back.  The handle is only closed where
there is no statement, and so only where the statement could not be prepared;
then the guard of the transaction still uses it.
-/

namespace SudokuSolver.Cpp

open Unwind

/-- The call failed, and `AddSolutions` has to throw. -/
def Call.Failed (call : Call) : Prop :=
  match call.function with
  | .sqlite3_exec text => text ≠ "ROLLBACK" ∧ call.code ≠ SQLITE_OK
  | .sqlite3_prepare _ => call.code ≠ SQLITE_OK
  | .sqlite3_bind_text _ _ => call.code ≠ SQLITE_OK
  | .sqlite3_step => call.code ≠ SQLITE_DONE
  | _ => False

def Function.prepares : Function → Bool
  | .sqlite3_prepare _ => true
  | _ => false

/-- A statement could not be prepared. -/
def Call.PrepareFailed (call : Call) : Prop :=
  call.function.prepares = true ∧ call.code ≠ SQLITE_OK

instance : DecidablePred Call.PrepareFailed :=
  fun _ => inferInstanceAs (Decidable (_ ∧ _))

/-- No call was made on a handle that had been closed. -/
def Safe (calls : List Call) : Prop := ∀ call ∈ calls, call.target ≠ .closed

theorem Call.PrepareFailed.failed {call : Call} (h : call.PrepareFailed) :
    call.Failed := by
  obtain ⟨function, target, code⟩ := call
  obtain ⟨hprepares, hcode⟩ := h
  cases function with
  | sqlite3_prepare text => exact hcode
  | _ => cases hprepares

theorem Call.not_prepareFailed {call : Call}
    (h : call.function.prepares = false) : ¬call.PrepareFailed :=
  fun hfailed => Bool.eq_false_iff.mp h hfailed.1

namespace SqliteSolutions

variable {Db Stmt γ : Type} {sql : Sqlite Db Stmt}
variable {P R : SqliteSolutions Db Stmt → Prop}
variable {E : String → SqliteSolutions Db Stmt → Prop}

/-! ## Rules for the calls -/

/-- A call on the open handle. -/
theorem triple_onHandle {pDatabase : SqliteSolutions Db Stmt → Handle}
    {function : Function} {codeOf : γ → ℤ} {ifNull : γ} {effect : Db → γ × Db}
    {Q : γ → SqliteSolutions Db Stmt → Prop}
    (h : ∀ st, P st → pDatabase st = .database ∧ st.closed = false ∧
      ∀ result db, effect st.db = (result, db) →
        Q result ({ st with db := db }.note ⟨function, .live, codeOf result⟩)) :
    Triple P (onHandle pDatabase function codeOf ifNull effect) Q E := by
  refine Triple.modifyGet fun st hst => ?_
  obtain ⟨hpointer, hclosed, hresult⟩ := h st hst
  simp only [hpointer, if_neg (Bool.eq_false_iff.mp hclosed)]
  exact hresult _ _ rfl

/-- A call with a statement of the open handle. -/
theorem triple_onStatment {function : Function} {ifNull : ℤ}
    {effect : Stmt → Db → ℤ × Db}
    {Q : ℤ → SqliteSolutions Db Stmt → Prop}
    (h : ∀ st, P st → ∃ stmt, st.m_pStatment = some stmt ∧ st.closed = false ∧
      ∀ code db, effect stmt st.db = (code, db) →
        Q code ({ st with db := db }.note ⟨function, .live, code⟩)) :
    Triple P (onStatment function ifNull effect) Q E := by
  refine Triple.modifyGet fun st hst => ?_
  obtain ⟨stmt, hstatment, hclosed, hresult⟩ := h st hst
  obtain ⟨db, closed, calls, pointer, transaction, pStatment⟩ := st
  cases hstatment
  cases hclosed
  exact hresult _ _ rfl

/-- The state after the last error has been thrown. -/
def thrown (code : ℤ) (db : Db) (st : SqliteSolutions Db Stmt) :
    SqliteSolutions Db Stmt :=
  { st with
    db := db
    closed := decide (code = SQLITE_OK)
    calls := st.calls ++ [⟨.sqlite3_errcode, .live, SQLITE_OK⟩] ++
      [⟨.sqlite3_errmsg, .live, SQLITE_OK⟩] ++ [⟨.sqlite3_close, .live, code⟩]
    m_pDatabase := .NULL }

/-- Throwing the last error never returns, and closes the open handle unless
there are statements. -/
theorem triple_throwLastError {Q : Unit → SqliteSolutions Db Stmt → Prop}
    (h : ∀ st, P st → st.m_pDatabase = .database ∧ st.closed = false ∧
      ∀ code db, sql.sqlite3_close st.db = (code, db) →
        ∀ error, E error (thrown code db st)) :
    Triple P (ThrowLastError sql) Q E := by
  intro st hst
  obtain ⟨hpointer, hclosed, hthrown⟩ := h st hst
  obtain ⟨db, closed, calls, pointer, transaction, pStatment⟩ := st
  cases hpointer
  cases hclosed
  have hend : exec (ThrowLastError sql)
      ⟨db, false, calls, .database, transaction, pStatment⟩ =
      (.error ("Error " ++ toString (sql.sqlite3_errcode db) ++ ": " ++
        sql.sqlite3_errmsg db),
        thrown (sql.sqlite3_close db).1 (sql.sqlite3_close db).2
          ⟨db, false, calls, .database, transaction, pStatment⟩) := by
    rfl
  rw [hend]
  refine ⟨fun a st' heq => ?_, fun e st' heq => ?_⟩
  · cases heq
  · cases heq
    exact hthrown _ _ rfl _

/-- A call whose code is checked. -/
theorem triple_check {call : Code (SqliteSolutions Db Stmt) String ℤ}
    {good : ℤ} {Q : Unit → SqliteSolutions Db Stmt → Prop}
    (hcall : Triple P call
      (fun code st => (code = good → Q () st) ∧ (code ≠ good → R st)) E)
    (hthrow : Triple R (ThrowLastError sql) (fun _ _ => False) E) :
    Triple P (do
      let code ← call
      if code ≠ good then ThrowLastError sql) Q E := by
  refine Triple.bind hcall fun code => ?_
  apply Triple.check
  · intro hcode
    exact Triple.pure fun st hst => hst.1 hcode
  · intro hcode
    exact hthrow.consequence (fun st hst => hst.2 hcode) (fun _ _ => False.elim)
      fun _ _ => id

/-! ## Assertions -/

/-- The handle is open, and nothing has gone wrong with it. -/
structure Alive (st : SqliteSolutions Db Stmt) : Prop where
  closed : st.closed = false
  safe : Safe st.calls
  prepared : ∀ call ∈ st.calls, ¬call.PrepareFailed

/-- The guard of the transaction is going to undo it. -/
structure Rolling (sql : Sqlite Db Stmt) (rows : Set (String × String))
    (st : SqliteSolutions Db Stmt) : Prop where
  alive : Alive st
  sqliteTransaction : st.sqliteTransaction = ⟨.database, false⟩
  undone : sql.undone st.db = rows

/-- Nothing has failed in the transaction. -/
structure Inside (sql : Sqlite Db Stmt) (rows : Set (String × String))
    (st : SqliteSolutions Db Stmt) : Prop where
  alive : Alive st
  m_pDatabase : st.m_pDatabase = .database
  sqliteTransaction : st.sqliteTransaction = ⟨.database, false⟩
  saved : sql.saved st.db = some rows
  clean : ∀ call ∈ st.calls, ¬call.Failed

/-- The guard of the statement has the only one there is. -/
def Holding (sql : Sqlite Db Stmt) (text : String)
    (st : SqliteSolutions Db Stmt) : Prop :=
  ∃ stmt, st.m_pStatment = some stmt ∧ sql.statements st.db stmt = some text ∧
    ∀ other, other ≠ stmt → sql.statements st.db other = none

/-- The statement of the guard has just been stepped to its end. -/
def Finished (sql : Sqlite Db Stmt) (st : SqliteSolutions Db Stmt) : Prop :=
  ∃ stmt db, st.m_pStatment = some stmt ∧
    sql.sqlite3_step stmt db = (SQLITE_DONE, st.db)

/-- The statement could not be prepared, and the handle is still open. -/
structure Unprepared (sql : Sqlite Db Stmt) (st : SqliteSolutions Db Stmt) :
    Prop where
  failed : ∃ call ∈ st.calls, call.PrepareFailed
  closed : st.closed = false
  m_pDatabase : st.m_pDatabase = .database
  sqliteTransaction : st.sqliteTransaction = ⟨.database, false⟩
  m_pStatment : st.m_pStatment = none
  statements : sql.NoStatements st.db

/-- The handle has been closed under the guard of the transaction. -/
structure Broken (st : SqliteSolutions Db Stmt) : Prop where
  failed : ∃ call ∈ st.calls, call.PrepareFailed
  closed : st.closed = true
  m_pDatabase : st.m_pDatabase = .NULL
  sqliteTransaction : st.sqliteTransaction = ⟨.database, false⟩
  m_pStatment : st.m_pStatment = none

section Notes

variable {st st' : SqliteSolutions Db Stmt} {rows : Set (String × String)}
variable {text : String} {call : Call}

theorem mem_note {p : Call → Prop} (h : ∀ call ∈ st.calls, p call)
    (hcall : p call) (hcalls : st'.calls = st.calls ++ [call]) :
    ∀ call ∈ st'.calls, p call := by
  rw [hcalls]
  intro call' hmem
  rcases List.mem_append.mp hmem with hmem | hmem
  · exact h call' hmem
  · exact List.mem_singleton.mp hmem ▸ hcall

theorem mem_thrown {p : Call → Prop} {code : ℤ} {db : Db}
    (h : ∀ call ∈ st.calls, p call)
    (hp : ∀ function, function.prepares = false →
      ∀ code, p ⟨function, .live, code⟩) :
    ∀ call ∈ (thrown code db st).calls, p call := by
  intro call hmem
  simp only [thrown, List.mem_append, List.mem_singleton] at hmem
  rcases hmem with ((hmem | rfl) | rfl) | rfl
  · exact h call hmem
  · exact hp _ rfl _
  · exact hp _ rfl _
  · exact hp _ rfl _

theorem Alive.note (h : Alive st) (htarget : call.target ≠ .closed)
    (hcall : ¬call.PrepareFailed) (hclosed : st'.closed = false)
    (hcalls : st'.calls = st.calls ++ [call]) : Alive st' where
  closed := hclosed
  safe := mem_note h.safe htarget hcalls
  prepared := mem_note h.prepared hcall hcalls

theorem Inside.rolling (h : Inside sql rows st) : Rolling sql rows st where
  alive := h.alive
  sqliteTransaction := h.sqliteTransaction
  undone := by rw [Sqlite.undone, h.saved, Option.getD_some]

theorem Inside.withStatment (h : Inside sql rows st) (pStatment : Option Stmt) :
    Inside sql rows { st with m_pStatment := pStatment } :=
  ⟨⟨h.alive.closed, h.alive.safe, h.alive.prepared⟩, h.m_pDatabase,
    h.sqliteTransaction, h.saved, h.clean⟩

theorem Holding.note (h : Holding sql text st)
    (hstatments : sql.statements st'.db = sql.statements st.db)
    (hpointer : st'.m_pStatment = st.m_pStatment) : Holding sql text st' := by
  obtain ⟨stmt, hstmt, htext, hothers⟩ := h
  exact ⟨stmt, hpointer.trans hstmt, hstatments ▸ htext, hstatments ▸ hothers⟩

end Notes

/-! ## Throwing -/

variable {rows : Set (String × String)} {text : String}

/-- With a statement the handle stays open. -/
theorem throwLastError_holding (hsql : sql.Documented) :
    Triple (fun st => Rolling sql rows st ∧ st.m_pDatabase = .database ∧
        Holding sql text st) (ThrowLastError sql) (fun _ _ => False)
      (fun _ st => Rolling sql rows st ∧ Holding sql text st) := by
  refine triple_throwLastError fun st hst => ?_
  obtain ⟨hrolling, hpointer, hholding⟩ := hst
  refine ⟨hpointer, hrolling.alive.closed, fun code db hclose error => ?_⟩
  obtain ⟨stmt, -, hstmt, -⟩ := id hholding
  obtain ⟨rfl, hundoable⟩ :=
    hsql.close_busy (hstmt ▸ Option.some_ne_none text) hclose
  refine ⟨⟨⟨rfl, ?_, ?_⟩, hrolling.sqliteTransaction, ?_⟩, ?_⟩
  · exact mem_thrown hrolling.alive.safe fun _ _ _ => Target.noConfusion
  · exact mem_thrown hrolling.alive.prepared fun _ hprepares _ =>
      Call.not_prepareFailed hprepares
  · exact hundoable.undone.trans hrolling.undone
  · exact hholding.note hundoable.statements rfl

/-- Without a statement the handle is closed. -/
theorem throwLastError_broken (hsql : sql.Documented) :
    Triple (Unprepared sql) (ThrowLastError sql) (fun _ _ => False)
      (fun _ st => Broken st) := by
  refine triple_throwLastError fun st hst => ?_
  refine ⟨hst.m_pDatabase, hst.closed, fun code db hclose error => ?_⟩
  obtain ⟨rfl, -⟩ := hsql.close_ok hst.statements hclose
  obtain ⟨call, hcall, hfailed⟩ := hst.failed
  exact ⟨⟨call, by simp [thrown, hcall], hfailed⟩, rfl, rfl,
    hst.sqliteTransaction, hst.m_pStatment⟩

/-! ## Statements -/

/-- What is known once a statement has been prepared, or has not. -/
def Prepared (sql : Sqlite Db Stmt) (rows : Set (String × String))
    (text : String) (code : ℤ) (st : SqliteSolutions Db Stmt) : Prop :=
  (code = SQLITE_OK → Inside sql rows st ∧ Holding sql text st) ∧
  (code ≠ SQLITE_OK → Unprepared sql st)

theorem sqlite3_prepare_spec (hsql : sql.Documented) (text : String) :
    Triple (fun st => Inside sql rows st ∧ sql.NoStatements st.db)
      (onHandle m_pDatabase (.sqlite3_prepare text) Prod.fst
        (SQLITE_MISUSE, none) (sql.sqlite3_prepare text))
      (fun result st => Prepared sql rows text result.1
        { st with m_pStatment := result.2 }) E := by
  refine triple_onHandle fun st hst => ?_
  obtain ⟨hinside, hnone⟩ := hst
  refine ⟨hinside.m_pDatabase, hinside.alive.closed, ?_⟩
  rintro ⟨code, pStatment⟩ db hprepare
  refine ⟨fun hcode => ?_, fun hcode => ?_⟩
  · obtain rfl : code = SQLITE_OK := hcode
    obtain ⟨stmt, hstmt, htext, hothers, hrows, hsaved⟩ :=
      hsql.prepare_ok hprepare
    have hgood : ¬(⟨.sqlite3_prepare text, .live, SQLITE_OK⟩ : Call).Failed :=
      fun hfailed => hfailed rfl
    refine ⟨⟨?_, hinside.m_pDatabase, hinside.sqliteTransaction,
      hsaved.trans hinside.saved, mem_note hinside.clean hgood rfl⟩,
      stmt, hstmt, htext, fun other hother => ?_⟩
    · exact hinside.alive.note Target.noConfusion
        (fun hfailed => hgood hfailed.failed) hinside.alive.closed rfl
    · exact (hothers other hother).trans (hnone other)
  · obtain ⟨hnull, hundoable⟩ := hsql.prepare_failed hprepare hcode
    exact ⟨⟨_, List.mem_append_right _ (List.mem_singleton_self _),
      rfl, hcode⟩, hinside.alive.closed, hinside.m_pDatabase,
      hinside.sqliteTransaction, hnull, hnone.of_eq hundoable.statements⟩

/-- Either there is a statement for the guard, or the handle is closed. -/
theorem prepareStatment_spec (hsql : sql.Documented) (text : String) :
    Triple (fun st => Inside sql rows st ∧ sql.NoStatements st.db)
      (PrepareStatment sql text)
      (fun _ st => Inside sql rows st ∧ Holding sql text st)
      (fun _ st => Broken st) := by
  refine Triple.bind (sqlite3_prepare_spec hsql text) ?_
  rintro ⟨code, pStatment⟩
  refine Triple.bind (R := fun _ => Prepared sql rows text code)
    (Triple.update fun _ => id) fun _ => ?_
  apply Triple.check
  · intro hcode
    exact Triple.pure fun st hst => hst.1 hcode
  · intro hcode
    exact (throwLastError_broken hsql).consequence
      (fun st hst => hst.2 hcode) (fun _ _ => False.elim) fun _ _ => id

theorem puzzleToString_spec (rPuzzle : Puzzle) :
    Triple P (PuzzleToString rPuzzle)
      (fun text st => P st ∧ puzzleToString rPuzzle = .ok text)
      (fun _ st => P st) := by
  rw [PuzzleToString]
  rcases htext : puzzleToString rPuzzle with error | text
  · exact Triple.throw fun _ => id
  · exact Triple.pure fun _ hst => ⟨hst, rfl⟩

/-- A call with the statement of the guard that leaves the transaction as it is,
unless it fails. -/
theorem onStatment_spec {function : Function} {ifNull good : ℤ}
    {effect : Stmt → Db → ℤ × Db}
    (heffect : ∀ stmt db code db', sql.saved db ≠ none →
      sql.statements db stmt = some insertStatment →
      effect stmt db = (code, db') → sql.Undoable db db' ∧
        (code = good → sql.saved db' = sql.saved db))
    (hprepares : function.prepares = false)
    (hgood : ¬(⟨function, .live, good⟩ : Call).Failed) :
    Triple (fun st => Inside sql rows st ∧ Holding sql insertStatment st)
      (onStatment function ifNull effect)
      (fun code st =>
        (code = good → Inside sql rows st ∧ Holding sql insertStatment st ∧
          ∃ stmt db, st.m_pStatment = some stmt ∧
            effect stmt db = (good, st.db)) ∧
        (code ≠ good → Rolling sql rows st ∧ st.m_pDatabase = .database ∧
          Holding sql insertStatment st)) E := by
  refine triple_onStatment fun st hst => ?_
  obtain ⟨hinside, hholding⟩ := hst
  obtain ⟨stmt, hstmt, htext, -⟩ := id hholding
  refine ⟨stmt, hstmt, hinside.alive.closed, fun code db hcall => ?_⟩
  obtain ⟨hundoable, hsaved⟩ := heffect stmt st.db code db
    (hinside.saved ▸ Option.some_ne_none rows) htext hcall
  have hholding' : Holding sql insertStatment
      ({ st with db := db }.note ⟨function, .live, code⟩) :=
    hholding.note hundoable.statements rfl
  have halive : Alive ({ st with db := db }.note ⟨function, .live, code⟩) :=
    hinside.alive.note Target.noConfusion (Call.not_prepareFailed hprepares)
      hinside.alive.closed rfl
  refine ⟨?_, fun _ => ⟨⟨halive, hinside.sqliteTransaction,
    hundoable.undone.trans hinside.rolling.undone⟩, hinside.m_pDatabase,
    hholding'⟩⟩
  rintro rfl
  exact ⟨⟨halive, hinside.m_pDatabase, hinside.sqliteTransaction,
    (hsaved rfl).trans hinside.saved, mem_note hinside.clean hgood rfl⟩,
    hholding', stmt, st.db, hstmt, hcall⟩

theorem bindText_spec (hsql : sql.Documented) (index : ℕ) (text : String) :
    Triple (fun st => Inside sql rows st ∧ Holding sql insertStatment st)
      (bindText sql index text)
      (fun _ st => Inside sql rows st ∧ Holding sql insertStatment st)
      (fun _ st => Rolling sql rows st ∧ Holding sql insertStatment st) := by
  have hgood : ¬(⟨.sqlite3_bind_text index text, .live, SQLITE_OK⟩ :
      Call).Failed := fun hfailed => hfailed rfl
  refine triple_check ((onStatment_spec
    (fun _ _ _ _ _ _ hcall => hsql.bind_text hcall)
    rfl hgood).consequence
    (fun _ => id) (fun code st hst => ⟨fun hcode => ?_, hst.2⟩) fun _ _ => id)
    (throwLastError_holding hsql)
  obtain ⟨hinside, hholding, -⟩ := hst.1 hcode
  exact ⟨hinside, hholding⟩

theorem executeStatment_spec (hsql : sql.Documented) :
    Triple (fun st => Inside sql rows st ∧ Holding sql insertStatment st)
      (ExecuteStatment sql)
      (fun _ st => Inside sql rows st ∧ Holding sql insertStatment st ∧
        Finished sql st)
      (fun _ st => Rolling sql rows st ∧ Holding sql insertStatment st) := by
  have hgood : ¬(⟨.sqlite3_step, .live, SQLITE_DONE⟩ : Call).Failed :=
    fun hfailed => hfailed rfl
  exact triple_check (onStatment_spec
    (fun _ _ _ _ hsaved hstmt hcall => hsql.insert hstmt hsaved hcall)
    rfl hgood) (throwLastError_holding hsql)

/-- Finalizing the statement of the guard, which leaves none. -/
theorem Holding.finalize (hsql : sql.Documented)
    {st : SqliteSolutions Db Stmt} (h : Holding sql text st) :
    ∃ stmt, st.m_pStatment = some stmt ∧ ∀ code db,
      sql.sqlite3_finalize stmt st.db = (code, db) →
        sql.NoStatements db ∧ sql.undone db = sql.undone st.db ∧
          (Finished sql st → sql.saved db = sql.saved st.db) := by
  obtain ⟨stmt, hstmt, -, hothers⟩ := h
  refine ⟨stmt, hstmt, fun code db hcall => ?_⟩
  obtain ⟨hnone, hsame, hundone⟩ := hsql.finalize hcall
  refine ⟨fun other => ?_, hundone, ?_⟩
  · by_cases hother : other = stmt
    · exact hother ▸ hnone
    · exact (hsame other hother).trans (hothers other hother)
  · rintro ⟨stmt', db₀, hstmt', hdone⟩
    obtain rfl : stmt = stmt' := Option.some.inj (hstmt.symm.trans hstmt')
    exact hsql.finalize_done hdone hcall

/-- The guard of a statement that has been stepped to its end. -/
theorem finalize_finished (hsql : sql.Documented) :
    Triple (fun st => Inside sql rows st ∧ Holding sql text st ∧
        Finished sql st)
      (onStatment .sqlite3_finalize SQLITE_OK sql.sqlite3_finalize)
      (fun _ st => Inside sql rows st ∧ sql.NoStatements st.db) E := by
  refine triple_onStatment fun st hst => ?_
  obtain ⟨hinside, hholding, hfinished⟩ := hst
  obtain ⟨stmt, hstmt, hfinalized⟩ := hholding.finalize hsql
  refine ⟨stmt, hstmt, hinside.alive.closed, fun code db hcall => ?_⟩
  obtain ⟨hnone, -, hsaved⟩ := hfinalized code db hcall
  have hgood : ¬(⟨.sqlite3_finalize, .live, code⟩ : Call).Failed := id
  have halive : Alive ({ st with db := db }.note
      ⟨.sqlite3_finalize, .live, code⟩) :=
    hinside.alive.note Target.noConfusion
      (fun hfailed => hgood hfailed.failed) hinside.alive.closed rfl
  exact ⟨⟨halive, hinside.m_pDatabase, hinside.sqliteTransaction,
    (hsaved hfinished).trans hinside.saved,
    mem_note hinside.clean hgood rfl⟩, hnone⟩

/-- The guard of a statement, after an exception. -/
theorem finalize_unwinding (hsql : sql.Documented) :
    Triple (fun st => (Rolling sql rows st ∧ Holding sql text st) ∨ Broken st)
      (onStatment .sqlite3_finalize SQLITE_OK sql.sqlite3_finalize)
      (fun _ st => (Rolling sql rows st ∧ sql.NoStatements st.db) ∨ Broken st)
      E := by
  refine Triple.either (triple_onStatment fun st hst => ?_)
    (Triple.modifyGet fun st hst => ?_)
  · obtain ⟨hrolling, hholding⟩ := hst
    obtain ⟨stmt, hstmt, hfinalized⟩ := hholding.finalize hsql
    refine ⟨stmt, hstmt, hrolling.alive.closed, fun code db hcall => ?_⟩
    obtain ⟨hnone, hundone, -⟩ := hfinalized code db hcall
    refine Or.inl ⟨⟨?_, hrolling.sqliteTransaction,
      hundone.trans hrolling.undone⟩, hnone⟩
    exact hrolling.alive.note Target.noConfusion (Call.not_prepareFailed rfl)
      hrolling.alive.closed rfl
  · obtain ⟨⟨call, hcall, hfailed⟩, hclosed, hpointer, htransaction, hnull⟩ :=
      hst
    simp only [hnull]
    exact Or.inr ⟨⟨call, List.mem_append_left _ hcall, hfailed⟩, hclosed,
      hpointer, htransaction, hnull⟩

/-- A solution that has strings. -/
def Converts (rSolution : Solution) : Prop :=
  (∃ text, puzzleToString rSolution.m_puzzle = .ok text) ∧
    ∃ text, puzzleToString rSolution.m_solution = .ok text

/-- One solution: nothing has failed, or the transaction will be undone, or the
handle has been closed. -/
theorem addSolution_spec (hsql : sql.Documented) (rSolution : Solution) :
    Triple (fun st => Inside sql rows st ∧ sql.NoStatements st.db)
      (addSolution sql rSolution)
      (fun _ st => (Inside sql rows st ∧ sql.NoStatements st.db) ∧
        Converts rSolution)
      (fun _ st => (Rolling sql rows st ∧ sql.NoStatements st.db) ∨
        Broken st) := by
  have hblock : Triple
      (fun st => Inside sql rows st ∧ sql.NoStatements st.db)
      (do
        PrepareStatment sql insertStatment
        let puzzle ← PuzzleToString rSolution.m_puzzle
        let solution ← PuzzleToString rSolution.m_solution
        bindText sql 1 puzzle
        bindText sql 2 solution
        ExecuteStatment sql)
      (fun _ st => (Inside sql rows st ∧ Holding sql insertStatment st ∧
        Finished sql st) ∧ Converts rSolution)
      (fun _ st => (Rolling sql rows st ∧ Holding sql insertStatment st) ∨
        Broken st) := by
    refine Triple.bind ((prepareStatment_spec hsql insertStatment).consequence
      (fun _ => id) (fun _ _ => id) fun _ _ => Or.inr) fun _ => ?_
    refine Triple.bind ((puzzleToString_spec rSolution.m_puzzle).consequence
      (fun _ => id) (fun _ _ => id)
      fun _ _ hst => Or.inl ⟨hst.1.rolling, hst.2⟩) fun puzzle => ?_
    refine Triple.known fun hpuzzle => ?_
    refine Triple.bind ((puzzleToString_spec rSolution.m_solution).consequence
      (fun _ => id) (fun _ _ => id)
      fun _ _ hst => Or.inl ⟨hst.1.rolling, hst.2⟩) fun solution => ?_
    refine Triple.known fun hsolution => ?_
    refine Triple.bind ((bindText_spec hsql 1 puzzle).consequence
      (fun _ => id) (fun _ _ => id) fun _ _ => Or.inl) fun _ => ?_
    refine Triple.bind ((bindText_spec hsql 2 solution).consequence
      (fun _ => id) (fun _ _ => id) fun _ _ => Or.inl) fun _ => ?_
    exact (executeStatment_spec hsql).consequence (fun _ => id)
      (fun _ _ hst => ⟨hst, ⟨puzzle, hpuzzle⟩, ⟨solution, hsolution⟩⟩)
      fun _ _ => Or.inl
  refine Triple.assign (Triple.tryFinally hblock (fun _ => ?_)
    fun _ => finalize_unwinding hsql) fun st hst => ?_
  · exact Triple.known fun hconverts => (finalize_finished hsql).consequence
      (fun _ => id) (fun _ _ hst => ⟨hst, hconverts⟩) fun _ _ => id
  · exact ⟨hst.1.withStatment none, hst.2⟩

/-! ## Transactions -/

/-- The transaction has been committed. -/
structure Committed (sql : Sqlite Db Stmt) (st : SqliteSolutions Db Stmt) :
    Prop where
  alive : Alive st
  m_bCommitted : st.sqliteTransaction.m_bCommitted = true
  saved : sql.saved st.db = none
  clean : ∀ call ∈ st.calls, ¬call.Failed

theorem commit_spec (hsql : sql.Documented) :
    Triple (fun st => Inside sql rows st ∧ sql.NoStatements st.db) (Commit sql)
      (fun _ st => Committed sql st ∧ sql.NoStatements st.db)
      (fun _ st => Rolling sql rows st ∧ sql.NoStatements st.db) := by
  refine Triple.bind (R := fun code st =>
    (code = SQLITE_OK → Alive st ∧ sql.saved st.db = none ∧
      (∀ call ∈ st.calls, ¬call.Failed) ∧ sql.NoStatements st.db) ∧
    (code ≠ SQLITE_OK → Rolling sql rows st ∧ sql.NoStatements st.db))
    (triple_onHandle fun st hst => ?_) fun code => ?_
  · obtain ⟨hinside, hnone⟩ := hst
    refine ⟨by rw [hinside.sqliteTransaction], hinside.alive.closed,
      fun code db hcommit => ?_⟩
    have halive : Alive ({ st with db := db }.note
        ⟨.sqlite3_exec "COMMIT", .live, code⟩) :=
      hinside.alive.note Target.noConfusion (Call.not_prepareFailed rfl)
        hinside.alive.closed rfl
    refine ⟨?_, fun hcode => ?_⟩
    · rintro rfl
      obtain ⟨-, hsaved, hstatements⟩ := hsql.commit_ok hcommit
      have hgood : ¬(⟨.sqlite3_exec "COMMIT", .live, SQLITE_OK⟩ : Call).Failed :=
        fun hfailed => hfailed.2 rfl
      exact ⟨halive, hsaved, mem_note hinside.clean hgood rfl,
        hnone.of_eq hstatements⟩
    · have hundoable := hsql.commit_failed hcommit hcode
      exact ⟨⟨halive, hinside.sqliteTransaction,
        hundoable.undone.trans hinside.rolling.undone⟩,
        hnone.of_eq hundoable.statements⟩
  · apply Triple.check
    · intro hcode
      refine Triple.update fun st hst => ?_
      obtain ⟨⟨hclosed, hsafe, hprepared⟩, hsaved, hclean, hnone⟩ :=
        hst.1 hcode
      exact ⟨⟨⟨hclosed, hsafe, hprepared⟩, rfl, hsaved, hclean⟩, hnone⟩
    · intro hcode
      exact Triple.bind_throw (Triple.throw fun st hst => hst.2 hcode)

end SqliteSolutions

end SudokuSolver.Cpp
