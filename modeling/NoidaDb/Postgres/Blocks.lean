/-
Transaction blocks over Query messages.

The client follows its block by the statements it sends and the answers it gets
(`TxStatus.after`); the engine keeps a status of its own, which both `execute` and the
connection's implicit rollback change.
-/

import NoidaDb.Postgres.Server
import NoidaDb.Postgres.Sessions

namespace NoidaDb.Postgres

variable {D : Type}

/-- The block as the client has it after an answer.  ROLLBACK TO recovers a failed block
and turns an implicit transaction into one. -/
def TxStatus.after (expected : TxStatus) (command : Option (Command D))
    (result : PgResult StmtResult) : TxStatus :=
  match command, result with
  | some (.plain .startTransaction), .ok _ => if expected = .idle then .inTransaction else expected
  | some (.plain .commit), _ => .idle
  | some (.plain .rollback), _ => .idle
  | some (.plain (.rollbackTo _)), .ok _ => .inTransaction
  | _, .ok _ => expected
  | _, .error _ => if expected = .inTransaction then .failed else expected

def Command.isTransactionControl : Command D → Bool
  | .plain stmt => stmt.isTransactionControl
  | _ => false

/-- A failed block refuses everything but its end and ROLLBACK TO; a block publishes nothing before a
COMMIT that finds it sound; and BEGIN keeps what an implicit transaction did. -/
structure Obeys (expected : TxStatus) (event : Answered D) : Prop where
  refuses : expected = .failed → ∀ command, event.command = some command →
    command.isTransactionControl = false → event.result = .error inFailedTransaction
  publishes : expected ≠ .idle →
    expected = .inTransaction ∧ (∃ stmt, event.command = some (.plain stmt) ∧ stmt = .commit) ∨
      ∀ call, call ∈ event.calls → call.Untouched
  keeps : ∀ stmt, event.command = some (.plain stmt) → stmt = .startTransaction →
    expected = .idle → ∀ r, event.result = .ok r → ∀ call, call ∈ event.calls →
      ∃ tx, call.after.session.txn = some tx ∧
        tx.state = replay call.ledger.own call.after.global.db

def ObeysAll : TxStatus → List (Answered D) → Prop
  | _, [] => True
  | expected, event :: rest =>
    Obeys expected event ∧ ObeysAll (expected.after event.command event.result) rest

def TxStatus.afterAll (expected : TxStatus) (events : List (Answered D)) : TxStatus :=
  events.foldl (fun s e => s.after e.command e.result) expected

variable {c : Conn D} {stmt : Stmt D} {expected : TxStatus}

theorem ObeysAll.append {first later : List (Answered D)} :
    ObeysAll expected (first ++ later) ↔ ObeysAll expected first ∧
      ObeysAll (expected.afterAll first) later := by
  induction first generalizing expected with
  | nil => simp [ObeysAll, TxStatus.afterAll]
  | cons event rest ih => simp [ObeysAll, ih, and_assoc, TxStatus.afterAll]

structure Transition (c c' : Conn D) (stmt : Stmt D) (result : PgResult StmtResult) : Prop where
  status : c'.session.status = c.session.status.after (some (.plain stmt)) result
  coherent : c'.session.Coherent
  implicit : c'.session.inImplicitTx = c.session.inImplicitTx
  db : c.session.status ≠ .idle → (stmt = .commit → c.session.status ≠ .inTransaction) →
    c'.global.db = c.global.db

theorem afterError_status (c : Conn D) :
    (afterError c).session.status =
      if c.session.status = .inTransaction then .failed else c.session.status := by
  unfold afterError
  cases status : c.session.status with
  | idle =>
    cases c.session.txn with
    | none => simp [status]
    | some tx => simp [rollback, status]
  | inTransaction => rfl
  | failed => simp [status]

@[simp] theorem afterError_inImplicitTx (c : Conn D) :
    (afterError c).session.inImplicitTx = c.session.inImplicitTx := by
  unfold afterError
  split
  · rfl
  · split
    · rfl
    · rfl
  · rfl

theorem afterError_coherent (coherent : c.session.Coherent) : (afterError c).session.Coherent := by
  intro active
  by_cases idle : c.session.status = .idle
  · rw [afterError_status, idle] at active
    exact (active (by simp)).elim
  · rw [afterError_block idle]
    exact coherent idle

theorem Transition.of_error {c₀ : Conn D} {e : PgError}
    (status : c₀.session.status = c.session.status) (coherent : c₀.session.Coherent)
    (implicit : c₀.session.inImplicitTx = c.session.inImplicitTx)
    (db : c₀.global.db = c.global.db) (stays : stmt ≠ .commit ∧ stmt ≠ .rollback) :
    Transition c (afterError c₀) stmt (.error e) where
  status := by
    rw [afterError_status, status]
    cases stmt with
    | commit => exact (stays.1 rfl).elim
    | rollback => exact (stays.2 rfl).elim
    | _ => rfl
  coherent := afterError_coherent coherent
  implicit := by simp [implicit]
  db := by simp [db]

theorem Transition.of_ok {c' : Conn D} {r : StmtResult}
    (status : c'.session.status = c.session.status) (coherent : c'.session.Coherent)
    (implicit : c'.session.inImplicitTx = c.session.inImplicitTx)
    (db : c'.global.db = c.global.db)
    (plain : TxStatus.after c.session.status (some (.plain stmt)) (.ok r) = c.session.status) :
    Transition c c' stmt (.ok r) :=
  ⟨status.trans plain.symm, coherent, implicit, fun _ _ => db⟩

theorem locked_db {tx tx' : Txn D} {g : Global D} {writes : Bool}
    (locked : c.locked tx writes = (g, tx')) : g.db = c.global.db := by
  cases writes with
  | true =>
    cases locked
    rfl
  | false =>
    cases locked
    rfl

theorem Session.Coherent.of_txn {s : Session D} {tx : Txn D} (open' : s.txn = some tx) :
    s.Coherent :=
  fun _ => by simp [open']

theorem Session.Coherent.of_idle {s : Session D} (idle : s.status = .idle) : s.Coherent :=
  fun active => (active idle).elim

variable [Database D] {rules : SettingRules}

theorem Effect.transition {c' : Conn D} {result : PgResult StmtResult}
    (coherent : c.session.Coherent) (effect : Effect rules c stmt c' result) :
    Transition c c' stmt result := by
  cases effect with
  | refused failed gated =>
    have same : afterError c = c := by
      rw [afterError_block (by simp [failed]), ← failed]
      rfl
    have refused : Transition c (afterError c) stmt (.error inFailedTransaction) := by
      apply Transition.of_error rfl coherent rfl rfl
      constructor
      · intro isCommit
        rw [isCommit] at gated
        cases gated
      · intro isRollback
        rw [isRollback] at gated
        cases gated
    rw [same] at refused
    exact refused
  | warned quiet =>
    apply Transition.of_ok rfl coherent rfl rfl
    cases stmt with
    | startTransaction => simp [TxStatus.after, show c.session.status = .inTransaction from quiet]
    | commit => exact quiet.1.symm
    | rollback => exact quiet.1.symm
    | set isLocal name value => rfl
    | setConstraints names mode => rfl
    | _ => exact quiet.elim
  | began idle =>
    refine ⟨?_, .of_txn rfl, rfl, fun _ _ => rfl⟩
    simp [TxStatus.after, idle, Conn.withStatus]
  | committed open' sound passed restored =>
    refine ⟨rfl, .of_idle rfl, rfl, ?_⟩
    intro active notCommit
    cases status : c.session.status with
    | idle => exact (active status).elim
    | inTransaction => exact (notCommit rfl status).elim
    | failed => exact (sound status).elim
  | violated open' sound =>
    exact ⟨rfl, .of_idle rfl, rfl, fun _ _ => release_db _ _⟩
  | abandoned open' ends =>
    rcases ends with isRollback | ⟨isCommit, _⟩
    · subst isRollback
      exact ⟨rfl, .of_idle rfl, rfl, fun _ _ => release_db _ _⟩
    · subst isCommit
      exact ⟨rfl, .of_idle rfl, rfl, fun _ _ => release_db _ _⟩
  | wentBack open' found => exact ⟨rfl, .of_txn rfl, rfl, fun _ _ => rfl⟩
  | marked open' sound => exact .of_ok rfl (.of_txn rfl) rfl rfl rfl
  | released open' sound found => exact .of_ok rfl (.of_txn rfl) rfl rfl rfl
  | misnamed kind =>
    apply Transition.of_error rfl coherent rfl rfl
    constructor
    · intro isCommit
      simp [isCommit] at kind
    · intro isRollback
      simp [isRollback] at kind
  | assigned sound inBlock done => exact .of_ok rfl coherent rfl rfl rfl
  | unassigned sound inBlock => exact .of_error rfl coherent rfl rfl (by simp)
  | zoned sound done => exact .of_ok rfl coherent rfl rfl rfl
  | roled sound done => exact .of_ok rfl coherent rfl rfl rfl
  | unroled sound => exact .of_error rfl coherent rfl rfl (by simp)
  | deferred block => exact .of_ok rfl coherent rfl rfl rfl
  | undeferred block => exact .of_error rfl coherent rfl rfl (by simp)
  | busy sound writes blocked =>
    rcases coherent.txn_cases with ⟨tx, open'⟩ | ⟨idle, none'⟩
    · simp only [open', Option.isNone_some, Bool.false_eq_true, if_false]
      exact .of_error rfl coherent rfl rfl (by simp)
    · simp only [none', Option.isNone_none, if_true]
      refine ⟨?_, .of_idle idle, rfl, fun _ _ => release_db _ _⟩
      simp [TxStatus.after, rollback, idle]
  | ranInTxn open' sound free locked ran =>
    exact .of_ok rfl (.of_txn rfl) rfl (locked_db locked) rfl
  | failedInTxn open' sound free locked =>
    exact .of_error rfl (.of_txn rfl) rfl (locked_db locked) (by simp)
  | ranAlone idle none' free ran passed =>
    refine ⟨?_, .of_idle idle, rfl, fun active _ => (active idle).elim⟩
    simp [TxStatus.after, Session.ended]
  | failedAlone idle none' =>
    refine ⟨?_, .of_idle idle, rfl, fun _ _ => release_db _ _⟩
    simp [TxStatus.after, rollback, idle]

/-- BEGIN finds no work in the implicit transaction it is sent in; no command but COMMIT fails in the
message that opened its block; and no COPY is sent in a failed block. -/
structure Contained (rules : SettingRules) (link : Link D) (command : Command D) : Prop where
  fresh : command = .plain .startTransaction → link.conn.session.status = .idle →
    link.ledger.own = []
  inside : link.conn.session.status = .inTransaction → link.conn.session.inImplicitTx = true →
    command ≠ .plain .commit → ∃ r, (runCommand rules command link).2 = .ok r
  gated : link.conn.session.status = .failed → ∃ stmt, command = .plain stmt

structure Link.Steady (link : Link D) : Prop where
  coherent : link.conn.session.Coherent
  unmixed : link.conn.session.status = .failed → link.conn.session.inImplicitTx = false

theorem Contained.unmixed {link : Link D} {command : Command D}
    (contained : Contained rules link command) (notCommit : command ≠ .plain .commit) (e : PgError)
    (isError : (runCommand rules command link).2 = .error e)
    (open' : link.conn.session.status = .inTransaction) :
    link.conn.session.inImplicitTx = false := by
  by_contra mixed
  obtain ⟨r, ok⟩ := contained.inside open' (by simpa using mixed) notCommit
  rw [isError] at ok
  cases ok

def reported (ran : Link D × PgResult StmtResult) : Link D :=
  match ran.2 with
  | .ok _ => ran.1
  | .error _ => error ran.1

structure Handled (link : Link D) (command : Command D) (ran : Link D × PgResult StmtResult) :
    Prop where
  obeys : Obeys link.conn.session.status ⟨some command, ran.1.since link, ran.2⟩
  coherent : ran.1.conn.session.Coherent
  status : (reported ran).conn.session.status =
    link.conn.session.status.after (some command) ran.2
  sound : ∀ r, ran.2 = .ok r → ran.1.conn.session.status ≠ .failed
  unmixed : ∀ e, ran.2 = .error e → ran.1.conn.session.inImplicitTx = true →
    link.conn.session.status.after (some command) ran.2 = .idle

omit [Database D] in
theorem after_reported {command : Command D} {ran : Link D × PgResult StmtResult}
    (status : ran.1.conn.session.status = expected.after (some command) ran.2)
    (settled : ∀ e, ran.2 = .error e → expected.after (some command) ran.2 ≠ .inTransaction) :
    (reported ran).conn.session.status = expected.after (some command) ran.2 := by
  unfold reported
  cases result : ran.2 with
  | ok r =>
    rw [result] at status
    exact status
  | error e =>
    have notOpen := settled e result
    rw [result] at status notOpen
    simp only [error]
    rw [if_neg (by rw [status]; exact notOpen)]
    exact status

theorem call_transition {link : Link D} (coherent : link.conn.session.Coherent) (stmt : Stmt D) :
    Transition link.now (link.call rules (.statement stmt)).1.conn stmt
      (link.call rules (.statement stmt)).2 := by
  have coherentNow : link.now.session.Coherent := by
    rw [now_session]
    exact coherent
  exact (execute_effect rules stmt coherentNow).transition coherentNow

omit [Database D] in
theorem after_error_ne (expected : TxStatus) (stmt : Stmt D) (e : PgError) :
    expected.after (some (.plain stmt)) (.error e) ≠ .inTransaction := by
  cases stmt with
  | commit => simp [TxStatus.after]
  | rollback => simp [TxStatus.after]
  | _ =>
    simp only [TxStatus.after]
    split
    · simp
    · assumption

omit [Database D] in
theorem after_ok_ne (sound : expected ≠ .failed) (stmt : Stmt D) (r : StmtResult) :
    expected.after (some (.plain stmt)) (.ok r) ≠ .failed := by
  cases stmt with
  | startTransaction =>
    simp only [TxStatus.after]
    split
    · simp
    · exact sound
  | commit => simp [TxStatus.after]
  | rollback => simp [TxStatus.after]
  | rollbackTo name => simp [TxStatus.after]
  | _ => exact sound

omit [Database D] in
theorem after_idle_error (stmt : Stmt D) (e : PgError) :
    TxStatus.idle.after (some (.plain stmt)) (.error e) = .idle := by
  cases stmt <;> rfl

theorem call_refused {link : Link D} {stmt : Stmt D}
    (failed : link.conn.session.status = .failed) (gated : stmt.isTransactionControl = false) :
    (link.call rules (.statement stmt)).2 = .error inFailedTransaction := by
  have refused : link.now.session.status = .failed ∧ stmt.isTransactionControl = false := by
    rw [now_session]
    exact ⟨failed, gated⟩
  simp only [Link.call, serve, execute]
  rw [if_pos refused]

theorem call_begun {link : Link D} (idle : link.conn.session.status = .idle) :
    (link.call rules (.statement .startTransaction)).1.conn =
      (begin link.now).withStatus .inTransaction := by
  simp [Link.call, serve, execute, runStatement, settle, idle]

theorem plain_handled {link : Link D} (steady : link.Steady)
    (contained : Contained rules link (.plain stmt)) :
    Handled link (.plain stmt) (runCommand rules (.plain stmt) link) := by
  obtain ⟨status, coherent, implicit, db⟩ := @call_transition D _ rules link steady.coherent stmt
  rw [now_session] at status implicit db
  simp only [runCommand]
  constructor
  · constructor
    · intro failed command isCommand gated
      cases isCommand
      exact call_refused failed gated
    · intro active
      by_cases publishes : link.conn.session.status = .inTransaction ∧ stmt = .commit
      · exact Or.inl ⟨publishes.1, stmt, rfl, publishes.2⟩
      · apply Or.inr
        intro call member
        rw [Link.call_since, List.mem_singleton] at member
        subst member
        exact db active (fun isCommit open' => publishes ⟨open', isCommit⟩)
    · intro stmt' same isBegin idle r _ call member
      cases same
      subst isBegin
      rw [Link.call_since, List.mem_singleton] at member
      subst member
      have begun : (link.made rules (.statement .startTransaction)).after =
          (begin link.now).withStatus .inTransaction := call_begun idle
      have fresh : (link.made rules (.statement .startTransaction)).ledger.own = [] :=
        contained.fresh rfl idle
      rw [begun, fresh]
      exact ⟨_, rfl, rfl⟩
  · exact coherent
  · apply after_reported status
    intro e isError
    rw [isError]
    exact after_error_ne _ stmt e
  · intro r isOk
    rw [status, isOk]
    by_cases failed : link.conn.session.status = .failed
    · have control : stmt.isTransactionControl = true := by
        by_contra gated
        have refused := @call_refused D _ rules link stmt failed (by simpa using gated)
        rw [isOk] at refused
        cases refused
      cases stmt with
      | commit => simp [TxStatus.after]
      | rollback => simp [TxStatus.after]
      | rollbackTo name => simp [TxStatus.after]
      | _ => cases control
    · exact after_ok_ne failed stmt r
  · intro e isError mixed
    rw [implicit] at mixed
    rw [isError]
    cases expected : link.conn.session.status with
    | idle => exact after_idle_error stmt e
    | inTransaction =>
      by_cases isCommit : stmt = .commit
      · rw [isCommit]
        rfl
      · rw [contained.unmixed (by simpa using isCommit) e isError expected] at mixed
        cases mixed
    | failed =>
      rw [steady.unmixed expected] at mixed
      cases mixed

section Implicit

variable {c : Conn D}

omit [Database D] in
theorem beginImplicit_status : (beginImplicit c).session.status = c.session.status := by
  unfold beginImplicit
  split <;> rfl

omit [Database D] in
theorem beginImplicit_global : (beginImplicit c).global = c.global := by
  unfold beginImplicit
  split <;> rfl

omit [Database D] in
theorem beginImplicit_coherent : (beginImplicit c).session.Coherent := by
  cases found : c.session.txn with
  | none => exact .of_txn (by simp [beginImplicit, found, begin]; rfl)
  | some tx => exact .of_txn (by simp [beginImplicit, found]; rfl)

omit [Database D] in
theorem beginImplicit_block (coherent : c.session.Coherent) (active : c.session.status ≠ .idle) :
    beginImplicit c = c := by
  obtain ⟨tx, open'⟩ := Option.isSome_iff_exists.mp (coherent active)
  simp [beginImplicit, open']

omit [Database D] in
theorem rollbackImplicit_db : (rollbackImplicit c).global.db = c.global.db := by
  unfold rollbackImplicit
  split
  · split
    · exact release_db _ _
    · rfl
  · rfl

omit [Database D] in
theorem rollbackImplicit_off (off : c.session.inImplicitTx = false) : rollbackImplicit c = c := by
  simp [rollbackImplicit, off]

omit [Database D] in
theorem rollbackImplicit_idle (idle : c.session.status = .idle) :
    (rollbackImplicit c).session.status = .idle := by
  unfold rollbackImplicit
  split
  · split
    · rfl
    · exact idle
  · exact idle

theorem commitImplicit_idle (idle : c.session.status = .idle) :
    (commitImplicit c).1.session.status = .idle := by
  unfold commitImplicit
  split
  · simp only [idle, ne_eq, reduceCtorEq, not_false_eq_true, if_true]
    cases found : c.session.txn with
    | none => simp [commit, Conn.leaveImplicit, found, idle]
    | some tx =>
      have open' : c.leaveImplicit.session.txn = some tx := found
      rcases commit_cases open' with ⟨e, ended⟩ | ⟨passed, settings, restored, ended⟩
      · rw [ended]
        rfl
      · rw [ended]
        exact idle
  · exact idle

theorem commitImplicit_block (open' : c.session.status = .inTransaction) :
    (commitImplicit c).2 = .ok () ∧ (commitImplicit c).1.session.status = .inTransaction ∧
      (commitImplicit c).1.global = c.global ∧ (commitImplicit c).1.session.txn = c.session.txn := by
  unfold commitImplicit
  split
  · simp [open', Conn.leaveImplicit]
  · exact ⟨rfl, open', rfl, rfl⟩

end Implicit

/-- While COPY reads its data: a batch that fails fails an open block. -/
structure Copying.Holds (start : Link D) (copying : Copying D) : Prop where
  coherent : copying.link.conn.session.Coherent
  implicit : copying.link.conn.session.inImplicitTx = start.conn.session.inImplicitTx
  status : copying.link.conn.session.status = start.conn.session.status ∨
    copying.failed.isSome = true ∧ start.conn.session.status = .inTransaction ∧
      copying.link.conn.session.status = .failed
  calls : start.conn.session.status ≠ .idle → Link.Grows Call.Untouched start copying.link

section Copy

variable {start : Link D} {copy : CopyFrom D} {copying : Copying D}

omit [Database D] in
theorem Copying.Holds.status_of_sound (holds : copying.Holds start)
    (sound : copying.failed = none) :
    copying.link.conn.session.status = start.conn.session.status := by
  rcases holds.status with same | ⟨failed, _⟩
  · exact same
  · simp [sound] at failed

theorem Copying.Holds.flushBatch (holds : copying.Holds start) :
    (copying.flushBatch rules copy).Holds start := by
  unfold Copying.flushBatch
  split
  · exact holds
  · rename_i pending
    have sound : copying.failed = none := by
      cases failed : copying.failed with
      | none => rfl
      | some e => exact (pending (Or.inr (by simp [failed]))).elim
    have same := holds.status_of_sound sound
    cases parsed : copy.insert copying.batch with
    | error e => exact ⟨holds.coherent, holds.implicit, Or.inl same, holds.calls⟩
    | ok stmt =>
      obtain ⟨status, coherent, implicit, db⟩ :=
        @call_transition D _ rules copying.link holds.coherent (.data stmt)
      rw [now_session] at status implicit db
      have untouched : start.conn.session.status ≠ .idle →
          Link.Grows Call.Untouched start (copying.link.call rules (.statement (.data stmt))).1 := by
        intro active
        apply (holds.calls active).trans
        apply Link.call_grows
        exact db (by rw [same]; exact active) (by simp)
      rw [same] at status
      rw [holds.implicit] at implicit
      simp only
      cases result : (copying.link.call rules (.statement (.data stmt))).2 with
      | ok r =>
        rw [result] at status
        exact ⟨coherent, implicit, Or.inl status, untouched⟩
      | error e =>
        rw [result] at status
        refine ⟨coherent, implicit, ?_, untouched⟩
        by_cases open' : start.conn.session.status = .inTransaction
        · refine Or.inr ⟨rfl, open', ?_⟩
          rw [status, open']
          rfl
        · apply Or.inl
          rw [status]
          simp [TxStatus.after, open']

theorem Copying.Holds.line (holds : copying.Holds start) (decoded : PgResult CopyRow) :
    (copying.line rules copy decoded).Holds start := by
  unfold Copying.line
  split
  · exact holds
  · rename_i unfailed
    have sound : copying.failed = none := by simpa using unfailed
    have same := holds.status_of_sound sound
    cases decoded with
    | error e => exact ⟨holds.coherent, holds.implicit, Or.inl same, holds.calls⟩
    | ok row =>
      have grown : ({ copying with batch := copying.batch ++ [row] } : Copying D).Holds start :=
        ⟨holds.coherent, holds.implicit, Or.inl same, holds.calls⟩
      simp only
      split
      · exact grown.flushBatch
      · exact grown

theorem Copying.Holds.lines (holds : copying.Holds start) (lines : List (PgResult CopyRow)) :
    (lines.foldl (Copying.line rules copy) copying).Holds start := by
  induction lines generalizing copying with
  | nil => exact holds
  | cons decoded rest ih => exact ih (holds.line decoded)

theorem Copying.Holds.finish (holds : copying.Holds start) :
    (copying.finish rules copy).Holds start := by
  unfold Copying.finish
  cases copy.ending with
  | done => exact holds.flushBatch
  | failed e =>
    refine ⟨holds.coherent, holds.implicit, ?_, holds.calls⟩
    rcases holds.status with same | ⟨_, open', failed⟩
    · exact Or.inl same
    · exact Or.inr ⟨rfl, open', failed⟩
  | hangup => exact holds

variable {link : Link D} {command : Command D} {ran : Link D × PgResult StmtResult}

omit [Database D] in
theorem Handled.of_copy (notPlain : ∀ stmt, command ≠ .plain stmt)
    (sound : link.conn.session.status ≠ .failed) (coherent : ran.1.conn.session.Coherent)
    (grows : link.conn.session.status ≠ .idle → Link.Grows Call.Untouched link ran.1)
    (status : ran.1.conn.session.status = link.conn.session.status ∨
      (∃ e, ran.2 = .error e) ∧ link.conn.session.status = .inTransaction ∧
        ran.1.conn.session.status = .failed)
    (unmixed : ∀ e, ran.2 = .error e → link.conn.session.status = .inTransaction →
      ran.1.conn.session.inImplicitTx = false) : Handled link command ran := by
  have after : ∀ result, link.conn.session.status.after (some command) result =
      match result with
      | .ok _ => link.conn.session.status
      | .error _ =>
        if link.conn.session.status = .inTransaction then .failed
        else link.conn.session.status := by
    intro result
    cases command with
    | plain stmt => exact (notPlain stmt rfl).elim
    | copyIn copy => cases result <;> rfl
    | copyOut select => cases result <;> rfl
  constructor
  · constructor
    · intro failed
      exact (sound failed).elim
    · intro active
      exact Or.inr (grows active).since
    · intro stmt isPlain
      exact (notPlain stmt (Option.some.inj isPlain)).elim
  · exact coherent
  · rw [after]
    cases result : ran.2 with
    | ok r =>
      simp only [reported, result]
      rcases status with same | ⟨⟨e, isError⟩, _⟩
      · exact same
      · rw [result] at isError
        cases isError
    | error e =>
      simp only [reported, result, error]
      rcases status with same | ⟨_, open', failed⟩
      · split
        · rename_i nowOpen
          rw [same] at nowOpen
          simp [nowOpen, Conn.withStatus]
        · rename_i notOpen
          rw [same] at notOpen
          simp [notOpen, same]
      · simp [open', failed]
  · intro r isOk
    rcases status with same | ⟨⟨e, isError⟩, _⟩
    · rw [same]
      exact sound
    · rw [isOk] at isError
      cases isError
  · intro e isError mixed
    rw [after, isError]
    cases expected : link.conn.session.status with
    | idle => simp
    | inTransaction =>
      rw [unmixed e isError expected] at mixed
      cases mixed
    | failed => exact (sound expected).elim

theorem copyOut_handled {select : PgResult (DataStmt D)} (steady : link.Steady)
    (contained : Contained rules link (.copyOut select))
    (sound : link.conn.session.status ≠ .failed) :
    Handled link (.copyOut select) (runCommand rules (.copyOut select) link) := by
  have unmixed := contained.unmixed (by simp)
  cases select with
  | error e =>
    exact .of_copy (by simp) sound steady.coherent (fun _ => .of_calls rfl) (Or.inl rfl) unmixed
  | ok stmt =>
    obtain ⟨status, coherent, implicit, db⟩ :=
      @call_transition D _ rules link steady.coherent (.data stmt)
    rw [now_session] at status implicit db
    simp only [runCommand, copyOut] at unmixed ⊢
    apply Handled.of_copy (by simp) sound coherent
    · intro active
      exact Link.call_grows (db active (by simp))
    · cases result : (link.call rules (.statement (.data stmt))).2 with
      | ok r =>
        rw [result] at status
        exact Or.inl status
      | error e =>
        rw [result] at status
        by_cases open' : link.conn.session.status = .inTransaction
        · refine Or.inr ⟨⟨e, rfl⟩, open', ?_⟩
          rw [status, open']
          rfl
        · apply Or.inl
          rw [status]
          simp [TxStatus.after, open']
    · intro e isError open'
      rw [implicit]
      exact unmixed e isError open'

theorem Copying.Holds.finished {copied : Copying D}
    (notPlain : ∀ stmt, command ≠ .plain stmt) (sound : link.conn.session.status ≠ .failed)
    (status : start.conn.session.status = link.conn.session.status)
    (implicit : link.conn.session.status = .inTransaction →
      start.conn.session.inImplicitTx = link.conn.session.inImplicitTx)
    (opening : Link.Grows Call.Untouched link start) (holds : copied.Holds start)
    (unmixed : ∀ e, (copied.finished rules).2 = .error e →
      link.conn.session.status = .inTransaction → link.conn.session.inImplicitTx = false) :
    Handled link command (copied.finished rules) := by
  have copying : link.conn.session.status ≠ .idle →
      Link.Grows Call.Untouched link copied.link := by
    intro active
    exact opening.trans (holds.calls (by rw [status]; exact active))
  have idleOr : link.conn.session.status = .idle ∨ link.conn.session.status = .inTransaction := by
    cases now : link.conn.session.status with
    | idle => exact Or.inl rfl
    | inTransaction => exact Or.inr rfl
    | failed => exact (sound now).elim
  have stillIdle : link.conn.session.status = .idle → copied.link.now.session.status = .idle := by
    intro idle
    rw [now_session]
    rcases holds.status with same | ⟨_, open', _⟩
    · rw [same, status, idle]
    · rw [status, idle] at open'
      cases open'
  unfold Copying.finished at unmixed ⊢
  cases failure : copied.failed with
  | some e =>
    simp only [failure] at unmixed ⊢
    rcases idleOr with idle | open'
    · have ended := rollbackImplicit_idle (stillIdle idle)
      apply Handled.of_copy notPlain sound (.of_idle ended)
      · intro active
        exact (active idle).elim
      · exact Or.inl (ended.trans idle.symm)
      · intro _ _ open'
        rw [idle] at open'
        cases open'
    · have off : copied.link.now.session.inImplicitTx = false := by
        rw [now_session, holds.implicit, implicit open']
        exact unmixed e rfl open'
      have same : (copied.link.call rules .rollbackImplicit).1.conn = copied.link.now :=
        rollbackImplicit_off off
      have sameSession : (copied.link.call rules .rollbackImplicit).1.conn.session =
          copied.link.conn.session := by rw [same, now_session]
      apply Handled.of_copy notPlain sound
      · rw [sameSession]
        exact holds.coherent
      · intro active
        exact (copying active).trans (Link.call_grows rollbackImplicit_db)
      · rw [sameSession]
        rcases holds.status with unmoved | ⟨_, _, failed⟩
        · exact Or.inl (unmoved.trans status)
        · exact Or.inr ⟨⟨e, rfl⟩, open', failed⟩
      · intro _ _ _
        rw [same]
        exact off
  | none =>
    simp only [failure] at unmixed ⊢
    have unmoved := holds.status_of_sound failure
    rcases idleOr with idle | open'
    · have ended := commitImplicit_idle (stillIdle idle)
      apply Handled.of_copy notPlain sound (.of_idle ended)
      · intro active
        exact (active idle).elim
      · exact Or.inl (ended.trans idle.symm)
      · intro _ _ open'
        rw [idle] at open'
        cases open'
    · have openNow : copied.link.now.session.status = .inTransaction := by
        rw [now_session, unmoved, status, open']
      obtain ⟨isOk, still, global, txn⟩ := commitImplicit_block openNow
      apply Handled.of_copy notPlain sound
      · intro active
        change (commitImplicit copied.link.now).1.session.txn.isSome = true
        rw [txn, now_session]
        exact holds.coherent (by rw [unmoved, status, open']; simp)
      · intro active
        exact (copying active).trans (Link.call_grows (congrArg Global.db global))
      · exact Or.inl (still.trans open'.symm)
      · intro e isError _
        have ok : (copied.link.call rules .commitImplicit).2 = .ok silent := by
          change ((commitImplicit copied.link.now).2.map (fun _ => silent)) = .ok silent
          rw [isOk]
          rfl
        simp only [ok] at isError
        cases isError

theorem copyIn_handled (steady : link.Steady) (contained : Contained rules link (.copyIn copy))
    (sound : link.conn.session.status ≠ .failed) :
    Handled link (.copyIn copy) (runCommand rules (.copyIn copy) link) := by
  have unmixed := contained.unmixed (by simp)
  simp only [runCommand, copyIn] at unmixed ⊢
  cases spec : copy.spec with
  | error e =>
    rw [spec] at unmixed
    exact .of_copy (by simp) sound steady.coherent (fun _ => .of_calls rfl) (Or.inl rfl) unmixed
  | ok done =>
    rw [spec] at unmixed
    have coherentNow : link.now.session.Coherent := by
      rw [now_session]
      exact steady.coherent
    have holds : Copying.Holds (link.call rules .beginImplicit).1
        { link := (link.call rules .beginImplicit).1 } :=
      ⟨beginImplicit_coherent, rfl, Or.inl rfl, fun _ => .of_calls rfl⟩
    have holds := @Copying.Holds.lines D _ rules _ copy _ holds copy.lines
    have holds := @Copying.Holds.finish D _ rules _ copy _ holds
    refine Copying.Holds.finished (by simp) sound ?_ ?_ ?_ holds unmixed
    · exact beginImplicit_status.trans (by rw [now_session])
    · intro open'
      have active : link.now.session.status ≠ .idle := by
        rw [now_session, open']
        simp
      change (beginImplicit link.now).session.inImplicitTx = _
      rw [beginImplicit_block coherentNow active, now_session]
    · exact Link.call_grows (congrArg Global.db beginImplicit_global)

theorem runCommand_handled (steady : link.Steady) (contained : Contained rules link command) :
    Handled link command (runCommand rules command link) := by
  cases command with
  | plain stmt => exact plain_handled steady contained
  | copyIn copy =>
    apply copyIn_handled steady contained
    intro failed
    obtain ⟨stmt, isPlain⟩ := contained.gated failed
    cases isPlain
  | copyOut select =>
    apply copyOut_handled steady contained
    intro failed
    obtain ⟨stmt, isPlain⟩ := contained.gated failed
    cases isPlain

end Copy

def ContainedCommands (rules : SettingRules) (link : Link D) : List (Command D) → Prop
  | [] => True
  | command :: rest =>
    Contained rules link command ∧
      ∀ r, (runCommand rules command link).2 = .ok r →
        ContainedCommands rules (runCommand rules command link).1 rest

def ContainedQueries (rules : SettingRules) (link : Link D) :
    List (PgResult (List (Command D))) → Prop
  | [] => True
  | sql :: later =>
    (∀ command rest, sql = .ok (command :: rest) →
      ContainedCommands rules (opened rules link rest) (command :: rest)) ∧
    ContainedQueries rules (simpleQuery rules link sql).1 later

structure Answers (link : Link D) (done : Link D × List (Answered D)) : Prop where
  obeys : ObeysAll link.conn.session.status done.2
  coherent : done.1.conn.session.Coherent
  explicit : done.1.conn.session.inImplicitTx = false
  status : done.1.conn.session.status = link.conn.session.status.afterAll done.2

section Messages

variable {link : Link D}

omit [Database D] in
theorem error_of_settled (settled : link.conn.session.status ≠ .inTransaction) :
    error link = link := by
  simp [error, settled]

omit [Database D] in
theorem error_inImplicitTx :
    (error link).conn.session.inImplicitTx = link.conn.session.inImplicitTx := by
  unfold error
  split <;> rfl

omit [Database D] in
theorem error_coherent (coherent : link.conn.session.Coherent) :
    (error link).conn.session.Coherent := by
  by_cases open' : link.conn.session.status = .inTransaction
  · simp only [error, open', if_true]
    intro _
    exact coherent (by rw [open']; simp)
  · rw [error_of_settled open']
    exact coherent

theorem commitImplicit_leaves (c : Conn D) :
    (commitImplicit c).1.session.inImplicitTx = false := by
  unfold commitImplicit
  split
  · split
    · cases found : c.session.txn with
      | none => simp [commit, Conn.leaveImplicit, found]
      | some tx =>
        have open' : c.leaveImplicit.session.txn = some tx := found
        rcases commit_cases open' with ⟨e, ended⟩ | ⟨passed, settings, restored, ended⟩
        · rw [ended]
          rfl
        · rw [ended]
          rfl
    · rfl
  · rename_i off
    simpa using off

omit [Database D] in
theorem rollbackImplicit_leaves (c : Conn D) :
    (rollbackImplicit c).session.inImplicitTx = false := by
  unfold rollbackImplicit
  split
  · split <;> rfl
  · rename_i off
    simpa using off

theorem endImplicit_answers (steady : link.Steady)
    (mixed : link.conn.session.inImplicitTx = true) : Answers link (endImplicit rules link) := by
  have leaves : (link.call rules .commitImplicit).1.conn.session.inImplicitTx = false :=
    commitImplicit_leaves link.now
  have same : (link.call rules .commitImplicit).1.conn = (commitImplicit link.now).1 := rfl
  cases status : link.conn.session.status with
  | failed =>
    rw [steady.unmixed status] at mixed
    cases mixed
  | idle =>
    have idleNow : link.now.session.status = .idle := by rw [now_session, status]
    have ended : (link.call rules .commitImplicit).1.conn.session.status = .idle :=
      commitImplicit_idle idleNow
    have settled : error (link.call rules .commitImplicit).1 = (link.call rules .commitImplicit).1 :=
      error_of_settled (by rw [ended]; simp)
    have final : (endImplicit rules link).1 = (link.call rules .commitImplicit).1 := by
      simp only [endImplicit, settled]
      split <;> rfl
    refine ⟨?_, ?_, ?_, ?_⟩
    · rw [status]
      refine ⟨⟨by simp, by simp, by simp⟩, trivial⟩
    · rw [final]
      exact .of_idle ended
    · rw [final]
      exact leaves
    · rw [final, ended, status]
      simp only [endImplicit, TxStatus.afterAll, List.foldl_cons, List.foldl_nil]
      cases (link.call rules .commitImplicit).2 <;> rfl
  | inTransaction =>
    have openNow : link.now.session.status = .inTransaction := by rw [now_session, status]
    obtain ⟨isOk, still, global, txn⟩ := commitImplicit_block openNow
    have ok : (link.call rules .commitImplicit).2 = .ok silent := by
      change ((commitImplicit link.now).2.map (fun _ => silent)) = .ok silent
      rw [isOk]
      rfl
    have done : endImplicit rules link = ((link.call rules .commitImplicit).1,
        [⟨none, (link.call rules .commitImplicit).1.since link, .ok silent⟩]) := by
      simp only [endImplicit, ok]
    rw [done]
    refine ⟨?_, ?_, leaves, ?_⟩
    · rw [status]
      refine ⟨⟨by simp, ?_, by simp⟩, trivial⟩
      intro _
      apply Or.inr
      have grows : Link.Grows Call.Untouched link (link.call rules .commitImplicit).1 :=
        Link.call_grows (congrArg Global.db global)
      exact grows.since
    · intro active
      rw [same, txn, now_session]
      exact steady.coherent (by rw [status]; simp)
    · rw [status]
      exact still

theorem runCommands_answers (commands : List (Command D)) (steady : link.Steady)
    (contained : ContainedCommands rules link commands) :
    Answers link (runCommands rules link commands) := by
  induction commands generalizing link with
  | nil =>
    simp only [runCommands]
    split
    · rename_i mixed
      exact endImplicit_answers steady mixed
    · rename_i explicit
      exact ⟨trivial, steady.coherent, by simpa using explicit, rfl⟩
  | cons command rest ih =>
    have handled := runCommand_handled steady contained.1
    have status := handled.status
    have obeys := handled.obeys
    simp only [runCommands]
    cases result : (runCommand rules command link).2 with
    | ok r =>
      simp only [reported, result] at status obeys
      have later := ih ⟨handled.coherent, fun failed => (handled.sound r result failed).elim⟩
        (contained.2 r result)
      refine ⟨⟨obeys, ?_⟩, later.coherent, later.explicit, ?_⟩
      · rw [← status]
        exact later.obeys
      · rw [later.status, status]
        rfl
    | error e =>
      simp only [reported, result] at status obeys
      by_cases mixed : (error (runCommand rules command link).1).conn.session.inImplicitTx = true
      · rw [if_pos mixed]
        rw [error_inImplicitTx] at mixed
        have isIdle := handled.unmixed e result mixed
        rw [result] at isIdle
        have idleNow : (error (runCommand rules command link).1).now.session.status = .idle := by
          rw [now_session, status, isIdle]
        have ended := rollbackImplicit_idle idleNow
        exact ⟨⟨obeys, trivial⟩, .of_idle ended, rollbackImplicit_leaves _,
          ended.trans isIdle.symm⟩
      · rw [if_neg mixed]
        exact ⟨⟨obeys, trivial⟩, error_coherent handled.coherent, by simpa using mixed, status⟩

theorem simpleQuery_answers {sql : PgResult (List (Command D))}
    (coherent : link.conn.session.Coherent) (explicit : link.conn.session.inImplicitTx = false)
    (contained : ∀ command rest, sql = .ok (command :: rest) →
      ContainedCommands rules (opened rules link rest) (command :: rest)) :
    Answers link (simpleQuery rules link sql) := by
  cases sql with
  | error e =>
    refine ⟨⟨⟨by simp, fun _ => Or.inr (by simp), by simp⟩, trivial⟩, error_coherent coherent,
      error_inImplicitTx.trans explicit, ?_⟩
    simp only [simpleQuery, TxStatus.afterAll, List.foldl_cons, List.foldl_nil, TxStatus.after,
      error]
    split <;> rfl
  | ok commands =>
    cases commands with
    | nil => exact ⟨trivial, coherent, explicit, rfl⟩
    | cons command rest =>
      have contained := contained command rest rfl
      simp only [simpleQuery]
      by_cases single : rest = []
      · simp only [opened, single, if_true] at contained ⊢
        exact runCommands_answers _ ⟨coherent, fun _ => explicit⟩ contained
      · simp only [opened, single, if_false] at contained ⊢
        have status : (link.call rules .beginImplicit).1.conn.session.status =
            link.conn.session.status := beginImplicit_status.trans (by rw [now_session])
        have steady : (link.call rules .beginImplicit).1.Steady := by
          refine ⟨beginImplicit_coherent, ?_⟩
          intro failed
          rw [status] at failed
          have coherentNow : link.now.session.Coherent := by
            rw [now_session]
            exact coherent
          have active : link.now.session.status ≠ .idle := by
            rw [now_session, failed]
            simp
          change (beginImplicit link.now).session.inImplicitTx = false
          rw [beginImplicit_block coherentNow active, now_session]
          exact explicit
        have answers := runCommands_answers _ steady contained
        refine ⟨?_, answers.coherent, answers.explicit, ?_⟩
        · rw [← status]
          exact answers.obeys
        · rw [← status]
          exact answers.status

theorem simpleQueries_obeyAll (rules : SettingRules) (messages : List (PgResult (List (Command D))))
    (link : Link D) (coherent : link.conn.session.Coherent)
    (explicit : link.conn.session.inImplicitTx = false)
    (contained : ContainedQueries rules link messages) :
    ObeysAll link.conn.session.status (simpleQueries rules link messages).2 := by
  induction messages generalizing link with
  | nil => trivial
  | cons sql later ih =>
    have answers := simpleQuery_answers coherent explicit contained.1
    have rest := ih _ answers.coherent answers.explicit contained.2
    rw [answers.status] at rest
    exact ObeysAll.append.mpr ⟨answers.obeys, rest⟩

end Messages

end NoidaDb.Postgres
