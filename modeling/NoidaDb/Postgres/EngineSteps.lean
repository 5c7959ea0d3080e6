/-
What one executed statement can do to the engine, case by case.
-/

import NoidaDb.Postgres.Engine

namespace NoidaDb.Postgres

open Database

variable {D : Type}

@[simp] theorem settle_ok (c : Conn D) (r : StmtResult) : settle (c, .ok r) = (c, .ok r) := rfl

@[simp] theorem settle_error (c : Conn D) (e : PgError) :
    settle (c, .error e) = (afterError c, .error e) := rfl

variable {c : Conn D} {tx : Txn D}

theorem afterError_idle (idle : c.session.status = .idle) (none' : c.session.txn = none) :
    afterError c = c := by
  simp [afterError, idle, none']

theorem afterError_implicit (idle : c.session.status = .idle) (open' : c.session.txn = some tx) :
    afterError c = rollback c := by
  simp [afterError, idle, open']

theorem afterError_block (active : c.session.status ≠ .idle) :
    afterError c = c.withStatus .failed := by
  cases status : c.session.status with
  | idle => exact (active status).elim
  | inTransaction => simp [afterError, status]
  | failed =>
    have same : c.withStatus .failed = c := by
      rw [← status]
      rfl
    rw [same]
    simp [afterError, status]

@[simp] theorem afterError_db (c : Conn D) : (afterError c).global.db = c.global.db := by
  have released : (c.global.release c.session.id).db = c.global.db := by
    unfold Global.release
    split <;> rfl
  unfold afterError
  split
  · rfl
  · split
    · exact released
    · rfl
  · rfl

def Session.Coherent (s : Session D) : Prop := s.status ≠ .idle → s.txn.isSome = true

theorem Session.Coherent.txn_cases (coherent : c.session.Coherent) :
    (∃ tx, c.session.txn = some tx) ∨ (c.session.status = .idle ∧ c.session.txn = none) := by
  cases found : c.session.txn with
  | some tx => exact Or.inl ⟨tx, rfl⟩
  | none =>
    apply Or.inr
    refine ⟨?_, rfl⟩
    by_contra active
    have isSome := coherent active
    simp [found] at isSome

def Conn.MayWrite (c : Conn D) : Prop :=
  c.global.writer = none ∨ c.global.writer = some c.session.id

def Conn.locked (c : Conn D) (tx : Txn D) (writes : Bool) : Global D × Txn D :=
  if writes then ({ c.global with writer := some c.session.id }, tx.startWriting c.global.db)
  else (c.global, tx)

section Lock

variable {c : Conn D}

theorem acquireWriter_blocked (blocked : ¬ c.MayWrite) :
    acquireWriter c = (c, .error lockNotAvailable) := by
  unfold acquireWriter
  exact if_neg blocked

theorem acquireWriter_free {tx : Txn D} (open' : c.session.txn = some tx) (writes : Bool)
    (free : writes = true → c.MayWrite) :
    (if writes = true then acquireWriter c else (c, .ok ())) =
      ({ global := (c.locked tx writes).1
         session := { c.session with txn := some (c.locked tx writes).2 } }, .ok ()) := by
  cases writes with
  | true =>
    have may : c.global.writer = none ∨ c.global.writer = some c.session.id := free rfl
    unfold acquireWriter
    rw [if_pos rfl, if_pos may, open']
    rfl
  | false =>
    rw [if_neg (by simp)]
    simp only [Conn.locked, Bool.false_eq_true, if_false, ← open']

def Conn.alone (c : Conn D) (writes : Bool) (state : D) : Conn D :=
  { global := if writes then { c.global with writer := some c.session.id } else c.global
    session := { c.session with
      txn := some { state := state, wrote := writes, settings := c.session.rt.settings }
      rt := { c.session.rt with localSettings := [] } } }

theorem alone_locked (writes : Bool) (free : writes = true → c.MayWrite) :
    (if writes = true then acquireWriter (begin c) else (begin c, .ok ())) =
      (c.alone writes c.global.db, .ok ()) := by
  have opened : (begin c).session.txn =
      some { state := c.global.db, settings := c.session.rt.settings } := rfl
  rw [acquireWriter_free opened writes free]
  cases writes <;> rfl

theorem release_taken {g : Global D} {id : Nat} (may : g.writer = none ∨ g.writer = some id) :
    ({ g with writer := some id } : Global D).release id = g.release id := by
  cases g with
  | mk db writer =>
    rcases may with free | mine
    · simp only at free
      simp [Global.release, free]
    · simp only at mine
      simp [Global.release, mine]

theorem alone_release (writes : Bool) (state : D) (free : writes = true → c.MayWrite) :
    (c.alone writes state).global.release c.session.id = c.global.release c.session.id := by
  cases writes with
  | true => exact release_taken (free rfl)
  | false => rfl

theorem alone_rollback (writes : Bool) (state : D) (none' : c.session.txn = none)
    (free : writes = true → c.MayWrite) : rollback (c.alone writes state) = rollback c := by
  apply Conn.ext
  · exact alone_release writes state free
  · simp [rollback, Conn.alone, none']

end Lock

section Entering

variable {c : Conn D} {stmt : DataStmt D}

/-- The session when the statement starts on its copy: in a transaction, and with the
write lock if the statement is taken to write. -/
def Conn.entering (stmt : DataStmt D) (c : Conn D) : Conn D :=
  let started := if c.session.txn.isNone then begin c else c
  if stmt.writes c.visible then (acquireWriter started).1 else started

theorem entering_inTxn {tx tx' : Txn D} {g : Global D} (open' : c.session.txn = some tx)
    (free : stmt.writes tx.state = true → c.MayWrite)
    (locked : c.locked tx (stmt.writes tx.state) = (g, tx')) :
    c.entering stmt = { global := g, session := { c.session with txn := some tx' } } := by
  have visible : c.visible = tx.state := by simp [Conn.visible, open']
  have taken := acquireWriter_free open' (stmt.writes tx.state) free
  rw [locked] at taken
  unfold Conn.entering
  rw [visible]
  simp only [open', Option.isNone_some, Bool.false_eq_true, if_false]
  cases writes : stmt.writes tx.state with
  | true =>
    rw [writes] at taken
    simpa using congrArg Prod.fst taken
  | false =>
    rw [writes] at taken
    simpa using congrArg Prod.fst taken

theorem entering_alone (none' : c.session.txn = none)
    (free : stmt.writes c.global.db = true → c.MayWrite) :
    c.entering stmt = c.alone (stmt.writes c.global.db) c.global.db := by
  have visible : c.visible = c.global.db := by simp [Conn.visible, none']
  have taken := alone_locked (stmt.writes c.global.db) free
  unfold Conn.entering
  rw [visible]
  simp only [none', Option.isNone_none, if_true]
  cases writes : stmt.writes c.global.db with
  | true =>
    rw [writes] at taken
    simpa using congrArg Prod.fst taken
  | false =>
    rw [writes] at taken
    simpa using congrArg Prod.fst taken

end Entering

variable [Database D]

def Quiet (c : Conn D) : Stmt D → Prop
  | .startTransaction => c.session.status = .inTransaction
  | .commit | .rollback => c.session.status = .idle ∧ c.session.txn = none
  | .set isLocal _ _ => isLocal = true ∧ c.session.status = .idle
  | .setConstraints _ _ => c.session.status = .idle
  | _ => False

def Conn.published (c : Conn D) (tx : Txn D) (settings : Settings) : Global D :=
  let global :=
    if tx.wrote then { c.global with db := Database.onCommitActions settings.tempSchema tx.state }
    else c.global
  global.release c.session.id

inductive Effect (rules : SettingRules) (c : Conn D) :
    Stmt D → Conn D → PgResult StmtResult → Prop where
  | refused {stmt : Stmt D} (failed : c.session.status = .failed)
      (gated : stmt.isTransactionControl = false) :
      Effect rules c stmt c (.error inFailedTransaction)
  | warned {stmt : Stmt D} {r : StmtResult} (quiet : Quiet c stmt) : Effect rules c stmt c (.ok r)
  | began (idle : c.session.status = .idle) :
      Effect rules c .startTransaction ((begin c).withStatus .inTransaction) (.ok { tag := "BEGIN" })
  | committed {tx : Txn D} {settings : Settings} (open' : c.session.txn = some tx)
      (sound : c.session.status ≠ .failed)
      (passed : tx.wrote = true → checkDeferred tx.state = .ok ())
      (restored : settings =
        restoreLocals c.session.rt.localSettings c.session.rt.settings tx.settings) :
      Effect rules c .commit
        ({ global := c.published tx settings
           session := { c.session.ended settings with status := .idle } })
        (.ok { tag := "COMMIT" })
  | violated {tx : Txn D} {e : PgError} (open' : c.session.txn = some tx)
      (sound : c.session.status ≠ .failed)
      (fails : ¬ (tx.wrote = true → checkDeferred tx.state = .ok ())) :
      Effect rules c .commit ((rollback c).withStatus .idle) (.error e)
  | abandoned {stmt : Stmt D} {tx : Txn D} (open' : c.session.txn = some tx)
      (ends : stmt = .rollback ∨ stmt = .commit ∧ c.session.status = .failed) :
      Effect rules c stmt ((rollback c).withStatus .idle) (.ok { tag := "ROLLBACK" })
  | wentBack {name : String} {tx : Txn D} {sp : Savepoint D} {outer : List (Savepoint D)}
      (open' : c.session.txn = some tx)
      (found : fromInnermost name tx.savepoints = sp :: outer) :
      Effect rules c (.rollbackTo name)
        { c with session := { c.session with
            status := .inTransaction
            txn := some { tx with state := sp.state, savepoints := sp :: outer }
            rt := { c.session.rt with settings := sp.settings, modes := sp.modes } } }
        (.ok { tag := "ROLLBACK" })
  | marked {name : String} {tx : Txn D} (open' : c.session.txn = some tx)
      (sound : c.session.status ≠ .failed) :
      Effect rules c (.savepoint name)
        { c with session := { c.session with
            txn := some { tx with savepoints :=
              { name := name, state := tx.state, settings := c.session.rt.settings
                modes := c.session.rt.modes } :: tx.savepoints } } }
        (.ok { tag := "SAVEPOINT" })
  | released {name : String} {tx : Txn D} {sp : Savepoint D} {outer : List (Savepoint D)}
      (open' : c.session.txn = some tx) (sound : c.session.status ≠ .failed)
      (found : fromInnermost name tx.savepoints = sp :: outer) :
      Effect rules c (.releaseSavepoint name)
        { c with session := { c.session with txn := some { tx with savepoints := outer } } }
        (.ok { tag := "RELEASE" })
  | misnamed {stmt : Stmt D} {e : PgError}
      (kind : (∃ name, stmt = .rollbackTo name ∧
          ∀ tx, c.session.txn = some tx → fromInnermost name tx.savepoints = []) ∨
        (∃ name, stmt = .savepoint name ∧ c.session.txn = none) ∨
        (∃ name, stmt = .releaseSavepoint name) ∨ (∃ isLocal value, stmt = .setTimeZone isLocal value) ∨
        ∃ isLocal name roles, stmt = .setRole isLocal name roles) :
      Effect rules c stmt (afterError c) (.error e)
  | assigned {isLocal : Bool} {name value : String} {settings : Settings}
      (sound : c.session.status ≠ .failed)
      (inBlock : isLocal = true → c.session.status = .inTransaction)
      (done : c.session.rt.settings.set rules name value = .ok settings) :
      Effect rules c (.set isLocal name value)
        ((c.noteLocal isLocal name).withSettings settings) (.ok { tag := "SET" })
  | unassigned {isLocal : Bool} {name value : String} {e : PgError}
      (sound : c.session.status ≠ .failed)
      (inBlock : isLocal = true → c.session.status = .inTransaction) :
      Effect rules c (.set isLocal name value)
        (afterError (c.noteLocal isLocal name)) (.error e)
  | zoned {isLocal : Bool} {value v : String} {settings : Settings}
      (sound : c.session.status ≠ .failed)
      (done : c.session.rt.settings.set rules "TimeZone" v = .ok settings) :
      Effect rules c (.setTimeZone isLocal value) (c.withSettings settings) (.ok { tag := "SET" })
  | roled {isLocal : Bool} {name role : Option String} {roles : List String} {v : String}
      {settings : Settings} (sound : c.session.status ≠ .failed)
      (done : c.session.rt.settings.set rules "session_authorization" v = .ok settings) :
      Effect rules c (.setRole isLocal name roles) ((c.withRole role).withSettings settings)
        (.ok { tag := "SET" })
  | unroled {isLocal : Bool} {name role : Option String} {roles : List String} {e : PgError}
      (sound : c.session.status ≠ .failed) :
      Effect rules c (.setRole isLocal name roles) (afterError (c.withRole role)) (.error e)
  | deferred {names : Option (List (Option String × String))} {mode : Bool} {modes : Modes}
      {r : StmtResult} (block : c.session.status = .inTransaction) :
      Effect rules c (.setConstraints names mode) (c.withModes modes) (.ok r)
  | undeferred {names : Option (List (Option String × String))} {mode : Bool} {modes : Modes}
      {e : PgError} (block : c.session.status = .inTransaction) :
      Effect rules c (.setConstraints names mode) (afterError (c.withModes modes)) (.error e)
  | busy {stmt : DataStmt D} (sound : c.session.status ≠ .failed)
      (writes : stmt.writes c.visible = true) (blocked : ¬ c.MayWrite) :
      Effect rules c (.data stmt)
        (if c.session.txn.isNone then rollback c else afterError c)
        (.error lockNotAvailable)
  | ranInTxn {stmt : DataStmt D} {tx tx' : Txn D} {g : Global D} {d : D} {r : StmtResult}
      (open' : c.session.txn = some tx) (sound : c.session.status ≠ .failed)
      (free : stmt.writes tx.state = true → c.MayWrite)
      (locked : c.locked tx (stmt.writes tx.state) = (g, tx'))
      (ran : stmt.run c.session.rt.modes tx'.state = (d, .ok r)) :
      Effect rules c (.data stmt)
        { global := g, session := { c.session with txn := some { tx' with state := d } } } (.ok r)
  | failedInTxn {stmt : DataStmt D} {tx tx' : Txn D} {g : Global D} {d : D} {e : PgError}
      (open' : c.session.txn = some tx) (sound : c.session.status ≠ .failed)
      (free : stmt.writes tx.state = true → c.MayWrite)
      (locked : c.locked tx (stmt.writes tx.state) = (g, tx')) :
      Effect rules c (.data stmt)
        (afterError
          { global := g, session := { c.session with txn := some { tx' with state := d } } })
        (.error e)
  | ranAlone {stmt : DataStmt D} {r : StmtResult} {d : D} (idle : c.session.status = .idle)
      (none' : c.session.txn = none) (free : stmt.writes c.global.db = true → c.MayWrite)
      (ran : stmt.run c.session.rt.modes c.global.db = (d, .ok r))
      (passed : stmt.writes c.global.db = true → checkDeferred d = .ok ()) :
      Effect rules c (.data stmt)
        { global := c.published { state := d, wrote := stmt.writes c.global.db
                                  settings := c.session.rt.settings } c.session.rt.settings
          session := c.session.ended c.session.rt.settings }
        (.ok r)
  | failedAlone {stmt : DataStmt D} {e : PgError} (idle : c.session.status = .idle)
      (none' : c.session.txn = none) :
      Effect rules c (.data stmt) (rollback c) (.error e)

variable (rules : SettingRules) {c : Conn D}

/-- An outcome of `execute`, as a property of the pair it returns. -/
def Settles (c : Conn D) (stmt : Stmt D) (ran : Conn D × PgResult StmtResult) : Prop :=
  Effect rules c stmt ran.1 ran.2

theorem startTransaction_settles (coherent : c.session.Coherent)
    (sound : c.session.status ≠ .failed) :
    Settles rules c .startTransaction (settle (runStatement rules .startTransaction c)) := by
  simp only [runStatement]
  split
  · rename_i again
    apply Effect.warned
    cases status : c.session.status with
    | idle => exact (again.2 status).elim
    | inTransaction => exact status
    | failed => exact (sound status).elim
  · rename_i fresh
    have idle : c.session.status = .idle := by
      by_contra active
      exact fresh ⟨coherent active, active⟩
    exact Effect.began idle

theorem commit_cases (open' : c.session.txn = some tx) :
    (∃ e, commit c = ((rollback c).withStatus .idle, .error e)) ∨
      ((tx.wrote = true → checkDeferred tx.state = .ok ()) ∧
        ∃ settings,
          settings = restoreLocals c.session.rt.localSettings c.session.rt.settings tx.settings ∧
          commit c = ({ global := c.published tx settings, session := c.session.ended settings },
            .ok ())) := by
  unfold commit
  simp only [open']
  cases checked : (if tx.wrote then checkDeferred tx.state else .ok () : PgResult Unit) with
  | error e => exact Or.inl ⟨e, rfl⟩
  | ok done =>
    apply Or.inr
    constructor
    · intro wrote
      rw [if_pos wrote] at checked
      exact checked
    · exact ⟨_, rfl, rfl⟩

theorem commit_passes (open' : c.session.txn = some tx)
    (passed : tx.wrote = true → checkDeferred tx.state = .ok ()) :
    ∃ c', commit c = (c', .ok ()) := by
  have checked : (if tx.wrote then checkDeferred tx.state else .ok () : PgResult Unit) = .ok () := by
    split
    · rename_i wrote
      exact passed wrote
    · rfl
  unfold commit
  simp only [open', checked]
  exact ⟨_, rfl⟩

theorem commit_settles (coherent : c.session.Coherent) :
    Settles rules c .commit (settle (runStatement rules .commit c)) := by
  simp only [runStatement]
  rcases coherent.txn_cases with ⟨tx, open'⟩ | ⟨idle, none'⟩
  · rw [if_neg (by simp [open'])]
    split
    · rename_i failed
      exact Effect.abandoned open' (Or.inr ⟨rfl, failed⟩)
    · rename_i sound
      rcases commit_cases open' with ⟨e, ended⟩ | ⟨passed, settings, restored, ended⟩
      · rw [ended]
        have stays : afterError ((rollback c).withStatus .idle) = (rollback c).withStatus .idle :=
          afterError_idle rfl rfl
        simp only [settle_error, stays]
        refine Effect.violated open' sound (fun passed => ?_)
        obtain ⟨c', isOk⟩ := commit_passes open' passed
        rw [ended] at isOk
        cases isOk
      · rw [ended]
        exact Effect.committed open' sound passed restored
  · rw [if_pos ⟨idle, by simp [none']⟩]
    exact Effect.warned ⟨idle, none'⟩

theorem rollback_settles (coherent : c.session.Coherent) :
    Settles rules c .rollback (settle (runStatement rules .rollback c)) := by
  simp only [runStatement]
  rcases coherent.txn_cases with ⟨tx, open'⟩ | ⟨idle, none'⟩
  · rw [if_neg (by simp [open'])]
    exact Effect.abandoned open' (Or.inl rfl)
  · rw [if_pos ⟨idle, by simp [none']⟩]
    exact Effect.warned ⟨idle, none'⟩

theorem rollbackTo_settles (name : String) :
    Settles rules c (.rollbackTo name) (settle (runStatement rules (.rollbackTo name) c)) := by
  simp only [runStatement, rollbackTo]
  split
  · rename_i none'
    exact Effect.misnamed (Or.inl ⟨name, rfl, by simp [none']⟩)
  · rename_i tx open'
    split
    · rename_i missing
      refine Effect.misnamed (Or.inl ⟨name, rfl, ?_⟩)
      intro tx' open''
      rw [open'] at open''
      cases open''
      exact missing
    · rename_i sp outer found
      exact Effect.wentBack open' found

theorem savepoint_settles (name : String) (sound : c.session.status ≠ .failed) :
    Settles rules c (.savepoint name) (settle (runStatement rules (.savepoint name) c)) := by
  simp only [runStatement, savepoint]
  split
  · rename_i none'
    exact Effect.misnamed (Or.inr (Or.inl ⟨name, rfl, none'⟩))
  · rename_i tx open'
    exact Effect.marked open' sound

theorem releaseSavepoint_settles (name : String) (sound : c.session.status ≠ .failed) :
    Settles rules c (.releaseSavepoint name)
      (settle (runStatement rules (.releaseSavepoint name) c)) := by
  simp only [runStatement, releaseSavepoint]
  split
  · exact Effect.misnamed (Or.inr (Or.inr (Or.inl ⟨name, rfl⟩)))
  · rename_i tx open'
    split
    · exact Effect.misnamed (Or.inr (Or.inr (Or.inl ⟨name, rfl⟩)))
    · rename_i sp outer found
      exact Effect.released open' sound found

theorem set_settles (isLocal : Bool) (name value : String) (sound : c.session.status ≠ .failed) :
    Settles rules c (.set isLocal name value)
      (settle (runStatement rules (.set isLocal name value) c)) := by
  simp only [runStatement, runSet]
  split
  · rename_i outside
    apply Effect.warned
    refine ⟨outside.1, ?_⟩
    cases status : c.session.status with
    | idle => rfl
    | inTransaction => exact (outside.2 status).elim
    | failed => exact (sound status).elim
  · rename_i inside
    have inBlock : isLocal = true → c.session.status = .inTransaction := by
      intro local'
      by_contra outside
      exact inside ⟨local', outside⟩
    cases done : c.session.rt.settings.set rules name value with
    | error e => exact Effect.unassigned sound inBlock
    | ok settings => exact Effect.assigned sound inBlock done

theorem setTimeZone_settles (isLocal : Bool) (value : String)
    (sound : c.session.status ≠ .failed) :
    Settles rules c (.setTimeZone isLocal value)
      (settle (runStatement rules (.setTimeZone isLocal value) c)) := by
  simp only [runStatement, runSetTimeZone]
  split
  · exact Effect.misnamed (Or.inr (Or.inr (Or.inr (Or.inl ⟨isLocal, value, rfl⟩))))
  · rename_i settings done
    exact Effect.zoned sound done

theorem setRole_settles (isLocal : Bool) (name : Option String) (roles : List String)
    (sound : c.session.status ≠ .failed) :
    Settles rules c (.setRole isLocal name roles)
      (settle (runStatement rules (.setRole isLocal name roles) c)) := by
  simp only [runStatement, runSetRole]
  split
  · cases done : c.session.rt.settings.set rules "session_authorization"
        (name.getD c.session.rt.user) with
    | error e => exact Effect.unroled sound
    | ok settings => exact Effect.roled sound done
  · exact Effect.misnamed (Or.inr (Or.inr (Or.inr (Or.inr ⟨isLocal, name, roles, rfl⟩))))

theorem setConstraints_settles (names : Option (List (Option String × String))) (mode : Bool)
    (coherent : c.session.Coherent) (sound : c.session.status ≠ .failed) :
    Settles rules c (.setConstraints names mode)
      (settle (runStatement rules (.setConstraints names mode) c)) := by
  simp only [runStatement, setConstraints]
  split
  · rename_i tx block open'
    cases names with
    | none =>
      simp only
      split
      · exact Effect.undeferred block
      · exact Effect.deferred block
    | some qualified =>
      simp only
      split
      · exact @Effect.undeferred _ _ _ _ _ _ c.session.rt.modes _ block
      · split
        · exact Effect.undeferred block
        · exact Effect.deferred block
  · rename_i outside
    apply Effect.warned
    cases status : c.session.status with
    | idle => exact status
    | inTransaction =>
      obtain ⟨tx, open'⟩ := Option.isSome_iff_exists.mp (coherent (by simp [status]))
      exact (outside tx status open').elim
    | failed => exact (sound status).elim

theorem data_settles_inTxn (stmt : DataStmt D) (open' : c.session.txn = some tx)
    (sound : c.session.status ≠ .failed) :
    Settles rules c (.data stmt) (settle (runStatement rules (.data stmt) c)) := by
  have visible : c.visible = tx.state := by simp only [Conn.visible, open']
  simp only [runStatement, runDataStatement, visible, open', Option.isNone_some,
    Bool.false_eq_true, if_false]
  by_cases free : stmt.writes tx.state = true → c.MayWrite
  · rw [acquireWriter_free open' (stmt.writes tx.state) free]
    simp only [runInTxn]
    rcases locked : c.locked tx (stmt.writes tx.state) with ⟨g, tx'⟩
    rcases ran : stmt.run c.session.rt.modes tx'.state with ⟨d, result⟩
    cases result with
    | error e => exact Effect.failedInTxn open' sound free locked
    | ok r => exact Effect.ranInTxn open' sound free locked ran
  · rw [Classical.not_imp] at free
    rw [if_pos free.1, acquireWriter_blocked free.2]
    have busy : Effect rules c (.data stmt)
        (if c.session.txn.isNone then rollback c else afterError c) (.error lockNotAvailable) :=
      Effect.busy sound (by rw [visible]; exact free.1) free.2
    simpa [Settles, open'] using busy

theorem alone_published (writes : Bool) (state : D) (free : writes = true → c.MayWrite) :
    (c.alone writes state).published
        { state := state, wrote := writes, settings := c.session.rt.settings }
        c.session.rt.settings =
      c.published { state := state, wrote := writes, settings := c.session.rt.settings }
        c.session.rt.settings := by
  cases writes with
  | true =>
    have may : c.global.writer = none ∨ c.global.writer = some c.session.id := free rfl
    exact release_taken
      (g := { c.global with db := Database.onCommitActions c.session.rt.settings.tempSchema state }) may
  | false => rfl

theorem data_settles_alone (stmt : DataStmt D) (idle : c.session.status = .idle)
    (none' : c.session.txn = none) :
    Settles rules c (.data stmt) (settle (runStatement rules (.data stmt) c)) := by
  have visible : c.visible = c.global.db := by simp only [Conn.visible, none']
  have ended : (rollback c).session.status = .idle := idle
  have stays : afterError (rollback c) = rollback c := afterError_idle ended rfl
  simp only [runStatement, runDataStatement, visible, none', Option.isNone_none, if_true]
  by_cases free : stmt.writes c.global.db = true → c.MayWrite
  · rw [alone_locked (stmt.writes c.global.db) free]
    rcases ran : stmt.run c.session.rt.modes c.global.db with ⟨d, result⟩
    have runs : runInTxn stmt (c.alone (stmt.writes c.global.db) c.global.db) =
        (c.alone (stmt.writes c.global.db) d, result) := by
      simp only [runInTxn, Conn.alone]
      rw [ran]
    simp only [runs]
    cases result with
    | error e =>
      simp only [settle_error, alone_rollback _ d none' free, stays]
      exact Effect.failedAlone idle none'
    | ok r =>
      have opened : (c.alone (stmt.writes c.global.db) d).session.txn =
          some { state := d, wrote := stmt.writes c.global.db
                 settings := c.session.rt.settings } := rfl
      rcases commit_cases opened with ⟨e, refused⟩ | ⟨passed, settings, restored, done⟩
      · rw [refused]
        have same : ((rollback c).withStatus .idle) = rollback c := by
          simp [Conn.withStatus, rollback, idle]
        simp only [Except.map, settle_error, alone_rollback _ d none' free, same, stays]
        exact Effect.failedAlone idle none'
      · rw [done]
        obtain rfl : settings = c.session.rt.settings := restored
        simp only [Except.map, settle_ok, alone_published _ d free]
        exact Effect.ranAlone idle none' free ran passed
  · rw [Classical.not_imp] at free
    have held : ¬ (begin c).MayWrite := free.2
    rw [if_pos free.1, acquireWriter_blocked held]
    have undone : afterError (begin c) = rollback c := by
      have started : (begin c).session.status = .idle := idle
      simp only [afterError, started]
      simp [begin, rollback, none']
    have busy : Effect rules c (.data stmt)
        (if c.session.txn.isNone then rollback c else afterError c) (.error lockNotAvailable) :=
      Effect.busy (by simp [idle]) (by rw [visible]; exact free.1) free.2
    simpa [Settles, none', undone] using busy

theorem execute_effect (stmt : Stmt D) (coherent : c.session.Coherent) :
    Effect rules c stmt (execute rules stmt c).1 (execute rules stmt c).2 := by
  unfold execute
  split
  · rename_i gated
    exact Effect.refused gated.1 gated.2
  · rename_i accepted
    have sound : stmt.isTransactionControl = false → c.session.status ≠ .failed :=
      fun gated failed => accepted ⟨failed, gated⟩
    cases stmt with
    | startTransaction => exact startTransaction_settles rules coherent (sound rfl)
    | commit => exact commit_settles rules coherent
    | rollback => exact rollback_settles rules coherent
    | rollbackTo name => exact rollbackTo_settles rules name
    | savepoint name => exact savepoint_settles rules name (sound rfl)
    | releaseSavepoint name => exact releaseSavepoint_settles rules name (sound rfl)
    | set isLocal name value => exact set_settles rules isLocal name value (sound rfl)
    | setTimeZone isLocal value => exact setTimeZone_settles rules isLocal value (sound rfl)
    | setRole isLocal name roles => exact setRole_settles rules isLocal name roles (sound rfl)
    | setConstraints names mode =>
      exact setConstraints_settles rules names mode coherent (sound rfl)
    | data stmt =>
      rcases coherent.txn_cases with ⟨tx, open'⟩ | ⟨idle, none'⟩
      · exact data_settles_inTxn rules stmt open' (sound rfl)
      · exact data_settles_alone rules stmt idle none'

end NoidaDb.Postgres
