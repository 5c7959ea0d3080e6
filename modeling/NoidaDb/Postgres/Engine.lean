/-
The engine's statement executor and its transactions.

Every transaction works on a copy of the whole database.  The first statement that writes takes
the single write lock and refreshes the copy; COMMIT publishes it.  A statement runs at the moment
it gets the lock, or fails with 55P03 while another session holds it.
-/

import NoidaDb.Postgres.Settings

namespace NoidaDb.Postgres

class Database (D : Type) where
  /-- `check_deferred_named`: the deferrable constraints, all or those named. -/
  checkDeferredNamed : D → Option (List String) → PgResult Unit
  /-- Whether the constraint a (possibly qualified) name finds is deferrable. -/
  findConstraint : D → List String → Option String × String → Option Bool
  /-- `on_commit_actions`, for the session's temporary schema. -/
  onCommitActions : String → D → D

open Database

/-- `SET CONSTRAINTS ALL`, and `SET CONSTRAINTS` by name. -/
structure Modes where
  deferredAll : Option Bool := none
  deferred : List (String × Bool) := []
deriving Repr, DecidableEq

inductive TxStatus where
  | idle
  | inTransaction
  | failed
deriving Repr, DecidableEq

/-- An entry of `savepoints` with its entry of `savepoint_settings`: the code pushes
and truncates the two together. -/
structure Savepoint (D : Type) where
  name : String
  state : D
  settings : Settings
  modes : Modes

structure Txn (D : Type) where
  state : D
  /-- Newest first. -/
  savepoints : List (Savepoint D) := []
  wrote : Bool := false
  settings : Settings

structure Runtime where
  user : String := "postgres"
  /-- The role in the user's place, by SET ROLE or SET SESSION AUTHORIZATION. -/
  role : Option String := none
  settings : Settings
  /-- Settings set LOCAL in this transaction (restored at its end). -/
  localSettings : List String := []
  modes : Modes := {}

structure Session (D : Type) where
  id : Nat
  status : TxStatus := .idle
  txn : Option (Txn D) := none
  rt : Runtime
  inImplicitTx : Bool := false

structure Global (D : Type) where
  db : D
  writer : Option Nat := none

@[ext] structure Conn (D : Type) where
  global : Global D
  session : Session D

structure StmtResult where
  tag : String
  notices : List String := []
deriving Repr, DecidableEq

/-- What the sessions share and no transaction has a copy of. -/
structure Outside where
  /-- Each sequence's last value, and whether `nextval` has been called. -/
  seqs : List (Nat × Int × Bool) := []
  roles : List String := []
  databases : List String := []
  channels : List (Nat × String) := []
  notifications : List (Nat × String × String) := []
deriving DecidableEq

/-- A statement that touches the database: whether the engine takes it to write, and what it does to
the copy and to what has none (`nextval`, RESTART IDENTITY, CREATE ROLE, NOTIFY), also when it
fails. -/
structure DataStmt (D : Type) where
  writes : D → Bool
  run : Modes → D → D × PgResult StmtResult
  outside : Modes → D → Outside → Outside := fun _ _ outside => outside

inductive Stmt (D : Type) where
  | startTransaction
  | commit
  | rollback
  | rollbackTo (name : String)
  | savepoint (name : String)
  | releaseSavepoint (name : String)
  | set (isLocal : Bool) (name value : String)
  | setTimeZone (isLocal : Bool) (value : String)
  /-- `SET [LOCAL] ROLE` or `SET [LOCAL] SESSION AUTHORIZATION`, where `roles` have been created; no
  name stands for NONE and DEFAULT. -/
  | setRole (isLocal : Bool) (name : Option String) (roles : List String)
  | setConstraints (names : Option (List (Option String × String))) (deferred : Bool)
  | data (stmt : DataStmt D)

variable {D : Type} [Database D]

def Global.release (g : Global D) (id : Nat) : Global D :=
  if g.writer = some id then { g with writer := none } else g

def begin (c : Conn D) : Conn D :=
  { c with session := { c.session with
      rt := { c.session.rt with localSettings := [] }
      txn := some { state := c.global.db, settings := c.session.rt.settings } } }

def lockNotAvailable : PgError :=
  { code := Code.lockNotAvailable
    message := "could not obtain lock on database: another transaction is writing" }

def Txn.startWriting (tx : Txn D) (latest : D) : Txn D :=
  { tx with state := if tx.wrote then tx.state else latest, wrote := true }

def acquireWriter (c : Conn D) : Conn D × PgResult Unit :=
  if c.global.writer = none ∨ c.global.writer = some c.session.id then
    ({ global := { c.global with writer := some c.session.id }
       session := { c.session with
         txn := c.session.txn.map (fun tx => tx.startWriting c.global.db) } }, .ok ())
  else (c, .error lockNotAvailable)

def rollback (c : Conn D) : Conn D :=
  { global := c.global.release c.session.id
    session := { c.session with
      txn := none
      rt := { c.session.rt with
        settings := (c.session.txn.map Txn.settings).getD c.session.rt.settings
        localSettings := []
        modes := {} } } }

def checkDeferred (db : D) : PgResult Unit := checkDeferredNamed db none

/-- The session once its transaction is over and its settings are `settings`. -/
def Session.ended (s : Session D) (settings : Settings) : Session D :=
  { s with txn := none, rt := { s.rt with settings := settings, localSettings := [], modes := {} } }

def commit (c : Conn D) : Conn D × PgResult Unit :=
  match c.session.txn with
  | none => (c, .ok ())
  | some tx =>
    -- Deferred constraints are checked now; a violation rolls back.
    match if tx.wrote then checkDeferred tx.state else .ok () with
    | .error e =>
      let back := rollback c
      ({ back with session := { back.session with status := .idle } }, .error e)
    | .ok () =>
      let settings := restoreLocals c.session.rt.localSettings c.session.rt.settings tx.settings
      let published := Database.onCommitActions settings.tempSchema tx.state
      let global := if tx.wrote then { c.global with db := published } else c.global
      ({ global := global.release c.session.id, session := c.session.ended settings }, .ok ())

def noSuchSavepoint (name : String) : PgError :=
  { code := Code.invalidSavepointSpecification
    message := "savepoint \"" ++ name ++ "\" does not exist" }

def noTransaction (what : String) : PgError :=
  { code := Code.noActiveSqlTransaction
    message := what ++ " can only be used in transaction blocks" }

/-- The savepoints from the innermost `name` outwards. -/
def fromInnermost (name : String) (savepoints : List (Savepoint D)) : List (Savepoint D) :=
  savepoints.dropWhile (fun sp => sp.name != name)

def rollbackTo (name : String) (c : Conn D) : Conn D × PgResult StmtResult :=
  match c.session.txn with
  | none => (c, .error (noTransaction "ROLLBACK TO SAVEPOINT"))
  | some tx =>
    match fromInnermost name tx.savepoints with
    | [] => (c, .error (noSuchSavepoint name))
    | sp :: outer =>
      ({ c with session := { c.session with
          status := .inTransaction
          txn := some { tx with state := sp.state, savepoints := sp :: outer }
          rt := { c.session.rt with settings := sp.settings, modes := sp.modes } } },
        .ok { tag := "ROLLBACK" })

def savepoint (name : String) (c : Conn D) : Conn D × PgResult StmtResult :=
  match c.session.txn with
  | none => (c, .error (noTransaction "SAVEPOINT"))
  | some tx =>
    let sp : Savepoint D :=
      { name := name, state := tx.state, settings := c.session.rt.settings
        modes := c.session.rt.modes }
    ({ c with session := { c.session with
        txn := some { tx with savepoints := sp :: tx.savepoints } } }, .ok { tag := "SAVEPOINT" })

def releaseSavepoint (name : String) (c : Conn D) : Conn D × PgResult StmtResult :=
  match c.session.txn with
  | none => (c, .error (noTransaction "RELEASE SAVEPOINT"))
  | some tx =>
    match fromInnermost name tx.savepoints with
    | [] => (c, .error (noSuchSavepoint name))
    | _ :: outer =>
      ({ c with session := { c.session with txn := some { tx with savepoints := outer } } },
        .ok { tag := "RELEASE" })

def Conn.withSettings (c : Conn D) (settings : Settings) : Conn D :=
  { c with session := { c.session with rt := { c.session.rt with settings := settings } } }

def Conn.withModes (c : Conn D) (modes : Modes) : Conn D :=
  { c with session := { c.session with rt := { c.session.rt with modes := modes } } }

/-- `local_settings.push(name)`, for SET LOCAL. -/
def Conn.noteLocal (c : Conn D) (isLocal : Bool) (name : String) : Conn D :=
  { c with session := { c.session with rt := { c.session.rt with
      localSettings :=
        if isLocal then c.session.rt.localSettings ++ [name] else c.session.rt.localSettings } } }

def runSet (rules : SettingRules) (isLocal : Bool) (name value : String) (c : Conn D) :
    Conn D × PgResult StmtResult :=
  if isLocal = true ∧ c.session.status ≠ .inTransaction then
    -- Outside a transaction block it would last only for this statement.
    (c, .ok { tag := "SET", notices := ["SET LOCAL can only be used in transaction blocks"] })
  else
    let noted := c.noteLocal isLocal name
    match c.session.rt.settings.set rules name value with
    | .error e => (noted, .error e)
    | .ok settings => (noted.withSettings settings, .ok { tag := "SET" })

/-- `SET [LOCAL] TIME ZONE`: the scope is not looked at. -/
def runSetTimeZone (rules : SettingRules) (_isLocal : Bool) (value : String) (c : Conn D) :
    Conn D × PgResult StmtResult :=
  let v :=
    if toAsciiLowercase value = "default" ∨ toAsciiLowercase value = "local" then "UTC" else value
  match c.session.rt.settings.set rules "TimeZone" v with
  | .error e => (c, .error e)
  | .ok settings => (c.withSettings settings, .ok { tag := "SET" })

def Conn.withRole (c : Conn D) (role : Option String) : Conn D :=
  { c with session := { c.session with rt := { c.session.rt with role := role } } }

def noRoleSetting (name : String) : PgError :=
  { code := Code.invalidParameterValue, message := "role \"" ++ name ++ "\" does not exist" }

/-- The scope is not looked at, and nothing notes the role that was there before. -/
def runSetRole (rules : SettingRules) (_isLocal : Bool) (name : Option String) (roles : List String)
    (c : Conn D) : Conn D × PgResult StmtResult :=
  let user := c.session.rt.user
  let name := name.getD user
  if name == user || roles.contains name then
    let changed := c.withRole (if name == user then none else some name)
    match c.session.rt.settings.set rules "session_authorization" name with
    | .error e => (changed, .error e)
    | .ok settings => (changed.withSettings settings, .ok { tag := "SET" })
  else (c, .error (noRoleSetting name))

def checkDeferrable (db : D) (path : List String) (name : Option String × String) :
    PgResult Unit :=
  match findConstraint db path name with
  | none =>
    .error { code := Code.undefinedObject
             message := "constraint \"" ++ name.2 ++ "\" does not exist" }
  | some false =>
    .error { code := Code.wrongObjectType
             message := "constraint \"" ++ name.2 ++ "\" is not deferrable" }
  | some true => .ok ()

/-- `SET CONSTRAINTS names|ALL DEFERRED|IMMEDIATE`: for the rest of the transaction;
IMMEDIATE also checks those constraints now. -/
def setConstraints (rules : SettingRules) (names : Option (List (Option String × String)))
    (deferred : Bool) (c : Conn D) : Conn D × PgResult StmtResult :=
  match c.session.status, c.session.txn with
  | .inTransaction, some tx =>
    match names with
    | none =>
      let changed := c.withModes { deferredAll := some deferred }
      match if deferred then .ok () else checkDeferredNamed tx.state none with
      | .error e => (changed, .error e)
      | .ok () => (changed, .ok { tag := "SET CONSTRAINTS" })
    | some qualified =>
      match qualified.forM (checkDeferrable tx.state (rules.lookupPath c.session.rt.settings)) with
      | .error e => (c, .error e)
      | .ok () =>
        let entries := (qualified.map (fun n => (n.2, deferred))).reverse
        let changed := c.withModes { c.session.rt.modes with
          deferred := entries ++ c.session.rt.modes.deferred }
        match if deferred then .ok ()
          else checkDeferredNamed tx.state (some (qualified.map Prod.snd)) with
        | .error e => (changed, .error e)
        | .ok () => (changed, .ok { tag := "SET CONSTRAINTS" })
  | _, _ =>
    (c, .ok { tag := "SET CONSTRAINTS"
              notices := ["SET CONSTRAINTS can only be used in transaction blocks"] })

/-- The copy a statement of this session reads: its transaction's, or the committed
database. -/
def Conn.visible (c : Conn D) : D :=
  match c.session.txn with
  | some tx => tx.state
  | none => c.global.db

/-- `run_in_txn`: the statement works on the transaction's copy. -/
def runInTxn (stmt : DataStmt D) (c : Conn D) : Conn D × PgResult StmtResult :=
  match c.session.txn with
  | none => (c, .error { code := "XX000", message := "transaction" })
  | some tx =>
    let ran := stmt.run c.session.rt.modes tx.state
    ({ c with session := { c.session with txn := some { tx with state := ran.1 } } }, ran.2)

/-- What `run_in_txn` leaves behind outside of the transaction. -/
def DataStmt.leaves (stmt : DataStmt D) (c : Conn D) (outside : Outside) : Outside :=
  match c.session.txn with
  | none => outside
  | some tx => stmt.outside c.session.rt.modes tx.state outside

/-- Everything that touches the database: queries, DML and DDL. -/
def runDataStatement (stmt : DataStmt D) (c : Conn D) : Conn D × PgResult StmtResult :=
  let writes := stmt.writes c.visible
  let implicit := c.session.txn.isNone
  let started := if implicit then begin c else c
  let locked := if writes then acquireWriter started else (started, .ok ())
  match locked.2 with
  | .error e => (locked.1, .error e)
  | .ok () =>
    let out := runInTxn stmt locked.1
    if implicit then
      match out.2 with
      | .error e => (rollback out.1, .error e)
      | .ok r =>
        let committed := commit out.1
        (committed.1, committed.2.map (fun _ => r))
    else out

def Stmt.isTransactionControl : Stmt D → Bool
  | .commit | .rollback | .rollbackTo _ => true
  | _ => false

def Conn.withStatus (c : Conn D) (status : TxStatus) : Conn D :=
  { c with session := { c.session with status := status } }

def runStatement (rules : SettingRules) (stmt : Stmt D) (c : Conn D) :
    Conn D × PgResult StmtResult :=
  match stmt with
  | .startTransaction =>
    if c.session.txn.isSome = true ∧ c.session.status ≠ .idle then
      (c, .ok { tag := "BEGIN", notices := ["there is already a transaction in progress"] })
    else ((begin c).withStatus .inTransaction, .ok { tag := "BEGIN" })
  | .commit =>
    if c.session.status = .idle ∧ c.session.txn.isNone = true then
      (c, .ok { tag := "COMMIT", notices := ["there is no transaction in progress"] })
    else if c.session.status = .failed then
      ((rollback c).withStatus .idle, .ok { tag := "ROLLBACK" })
    else
      let ended := commit c
      match ended.2 with
      | .error e => (ended.1, .error e)
      | .ok () => (ended.1.withStatus .idle, .ok { tag := "COMMIT" })
  | .rollback =>
    if c.session.status = .idle ∧ c.session.txn.isNone = true then
      (c, .ok { tag := "ROLLBACK", notices := ["there is no transaction in progress"] })
    else ((rollback c).withStatus .idle, .ok { tag := "ROLLBACK" })
  | .rollbackTo name => rollbackTo name c
  | .savepoint name => savepoint name c
  | .releaseSavepoint name => releaseSavepoint name c
  | .set isLocal name value => runSet rules isLocal name value c
  | .setTimeZone isLocal value => runSetTimeZone rules isLocal value c
  | .setRole isLocal name roles => runSetRole rules isLocal name roles c
  | .setConstraints names deferred => setConstraints rules names deferred c
  | .data stmt => runDataStatement stmt c

def inFailedTransaction : PgError :=
  { code := Code.inFailedSqlTransaction
    message := "current transaction is aborted, commands ignored until end of transaction block" }

/-- What an error does to the transaction: a block fails, an implicit transaction is
rolled back. -/
def afterError (c : Conn D) : Conn D :=
  match c.session.status with
  | .inTransaction => c.withStatus .failed
  | .idle => if c.session.txn.isSome then rollback c else c
  | .failed => c

def settle (ran : Conn D × PgResult StmtResult) : Conn D × PgResult StmtResult :=
  match ran.2 with
  | .error _ => (afterError ran.1, ran.2)
  | .ok _ => ran

def execute (rules : SettingRules) (stmt : Stmt D) (c : Conn D) : Conn D × PgResult StmtResult :=
  if c.session.status = .failed ∧ stmt.isTransactionControl = false then
    (c, .error inFailedTransaction)
  else settle (runStatement rules stmt c)

def beginImplicit (c : Conn D) : Conn D :=
  if c.session.txn.isNone then
    let started := begin c
    { started with session := { started.session with inImplicitTx := true } }
  else c

def Conn.leaveImplicit (c : Conn D) : Conn D :=
  { c with session := { c.session with inImplicitTx := false } }

def commitImplicit (c : Conn D) : Conn D × PgResult Unit :=
  if c.session.inImplicitTx = true then
    if c.session.status ≠ .inTransaction then commit c.leaveImplicit
    else (c.leaveImplicit, .ok ())
  else (c, .ok ())

def rollbackImplicit (c : Conn D) : Conn D :=
  if c.session.inImplicitTx = true then
    if c.session.status ≠ .inTransaction then (rollback c.leaveImplicit).withStatus .idle
    else c.leaveImplicit
  else c

end NoidaDb.Postgres
