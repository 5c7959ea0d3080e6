/-
What holds of every copy of the database.

A property that statements keep, and that a commit keeps once the deferred constraints have
passed, holds of all copies, in any interleaving of sessions.  The copy of a failed block is the
exception: it may hold half a statement, and is only ever thrown away.
-/

import NoidaDb.Postgres.Sessions

namespace NoidaDb.Postgres

variable {D : Type}

/-- `kept` holds of the copies a session can still publish. -/
structure Session.CopiesHold (kept : D → Prop) (s : Session D) : Prop where
  coherent : s.Coherent
  current : ∀ tx, s.txn = some tx → s.status ≠ .failed → kept tx.state
  saved : ∀ tx, s.txn = some tx → ∀ sp, sp ∈ tx.savepoints → kept sp.state

section Session

variable {kept : D → Prop} {s : Session D}

theorem Session.CopiesHold.closed (idle : s.status = .idle) (none' : s.txn = none) :
    s.CopiesHold kept where
  coherent := fun active => (active idle).elim
  current := by
    intro tx open'
    rw [none'] at open'
    cases open'
  saved := by
    intro tx open'
    rw [none'] at open'
    cases open'

theorem Session.CopiesHold.opened {tx : Txn D} (open' : s.txn = some tx)
    (current : s.status ≠ .failed → kept tx.state)
    (saved : ∀ sp, sp ∈ tx.savepoints → kept sp.state) : s.CopiesHold kept where
  coherent := fun _ => by rw [open']; rfl
  current := by
    intro other open''
    obtain rfl := Option.some.inj (open'.symm.trans open'')
    exact current
  saved := by
    intro other open''
    obtain rfl := Option.some.inj (open'.symm.trans open'')
    exact saved

theorem Session.CopiesHold.congr (holds : s.CopiesHold kept) {s' : Session D}
    (sameTxn : s'.txn = s.txn) (sameStatus : s'.status = s.status) : s'.CopiesHold kept where
  coherent := by
    intro active
    rw [sameStatus] at active
    rw [sameTxn]
    exact holds.coherent active
  current := by
    rw [sameTxn, sameStatus]
    exact holds.current
  saved := by
    rw [sameTxn]
    exact holds.saved

theorem copiesHold_rollback {c : Conn D} (idle : c.session.status = .idle) :
    (rollback c).session.CopiesHold kept :=
  .closed idle rfl

theorem copiesHold_rolledBack (c : Conn D) :
    ((rollback c).withStatus .idle).session.CopiesHold kept :=
  .closed rfl rfl

theorem copiesHold_afterError {c : Conn D} (coherent : c.session.Coherent)
    (saved : ∀ tx, c.session.txn = some tx → ∀ sp, sp ∈ tx.savepoints → kept sp.state) :
    (afterError c).session.CopiesHold kept := by
  by_cases idle : c.session.status = .idle
  · cases found : c.session.txn with
    | none =>
      rw [afterError_idle idle found]
      exact .closed idle found
    | some tx =>
      rw [afterError_implicit idle found]
      exact copiesHold_rollback idle
  · rw [afterError_block idle]
    refine ⟨fun _ => coherent idle, ?_, saved⟩
    intro tx _ sound
    exact (sound rfl).elim

theorem rollback_db (c : Conn D) : (rollback c).global.db = c.global.db := by
  unfold rollback Global.release
  split <;> rfl

end Session

variable [Database D]

/-- Statements admitted by `admits` keep `kept`; what a commit publishes also satisfies
`published`. -/
structure CopyRules (kept published : D → Prop) (admits : Modes → D → DataStmt D → Prop) :
    Prop where
  statement : ∀ {modes d stmt d' r}, kept d → admits modes d stmt →
    stmt.run modes d = (d', .ok r) → kept d'
  commit : ∀ {d} tempSchema, kept d → checkDeferred d = .ok () →
    kept (Database.onCommitActions tempSchema d) ∧ published (Database.onCommitActions tempSchema d)

/-- A data statement is admitted on the copy it runs on.  A failed group is not
committed: the server sees to that. -/
def Admitted (admits : Modes → D → DataStmt D → Prop) (c : Conn D) : Request D → Prop
  | .statement (.data stmt) =>
    (stmt.writes c.visible = true → c.MayWrite) →
      admits c.session.rt.modes (c.entering stmt).visible stmt
  | .commitImplicit => c.session.status ≠ .failed
  | _ => True

structure Conn.CopiesHold (kept published : D → Prop) (c : Conn D) : Prop where
  committed : kept c.global.db ∧ published c.global.db
  session : c.session.CopiesHold kept

section Steps

variable {kept published : D → Prop} {admits : Modes → D → DataStmt D → Prop} {c : Conn D}

omit [Database D] in
theorem Conn.CopiesHold.locked (holds : c.CopiesHold kept published) {tx tx' : Txn D}
    (open' : c.session.txn = some tx) (sound : c.session.status ≠ .failed) {writes : Bool}
    {g : Global D} (locked : c.locked tx writes = (g, tx')) :
    g.db = c.global.db ∧ kept tx'.state ∧ tx'.savepoints = tx.savepoints := by
  have current := holds.session.current tx open' sound
  unfold Conn.locked at locked
  split at locked
  · cases locked
    refine ⟨rfl, ?_, rfl⟩
    unfold Txn.startWriting
    split
    · exact current
    · exact holds.committed.1
  · cases locked
    exact ⟨rfl, current, rfl⟩

theorem Conn.CopiesHold.publishes (rules : CopyRules kept published admits)
    (holds : c.CopiesHold kept published) {tx : Txn D} (current : kept tx.state)
    (passed : tx.wrote = true → checkDeferred tx.state = .ok ()) (settings : Settings) :
    kept (c.published tx settings).db ∧ published (c.published tx settings).db := by
  have release : ∀ (g : Global D) (id : Nat), (g.release id).db = g.db := by
    intro g id
    unfold Global.release
    split <;> rfl
  unfold Conn.published
  rw [release]
  split
  · rename_i wrote
    exact rules.commit settings.tempSchema current (passed wrote)
  · exact holds.committed

theorem Conn.CopiesHold.executed (rules : CopyRules kept published admits)
    (settings : SettingRules) (holds : c.CopiesHold kept published) {stmt : Stmt D}
    (admitted : Admitted admits c (.statement stmt)) :
    (execute settings stmt c).1.CopiesHold kept published := by
  have effect := execute_effect settings stmt holds.session.coherent
  have session := holds.session
  generalize (execute settings stmt c).1 = c' at effect
  generalize (execute settings stmt c).2 = result at effect
  cases effect with
  | refused failed gated => exact holds
  | warned quiet => exact holds
  | began idle =>
    refine ⟨holds.committed, .opened rfl (fun _ => holds.committed.1) ?_⟩
    intro sp member
    cases member
  | committed open' sound passed restored =>
    exact ⟨holds.publishes rules (session.current _ open' sound) passed _, .closed rfl rfl⟩
  | violated open' sound => exact ⟨by rw [Conn.withStatus, rollback_db]; exact holds.committed,
      copiesHold_rolledBack c⟩
  | abandoned open' ends => exact ⟨by rw [Conn.withStatus, rollback_db]; exact holds.committed,
      copiesHold_rolledBack c⟩
  | @wentBack name tx sp outer open' found =>
    have within : ∀ other, other ∈ sp :: outer → kept other.state := by
      intro other member
      apply session.saved tx open' other
      rw [← found] at member
      exact List.dropWhile_subset _ member
    exact ⟨holds.committed, .opened rfl (fun _ => within sp List.mem_cons_self) within⟩
  | @marked name tx open' sound =>
    refine ⟨holds.committed, .opened rfl (session.current tx open') ?_⟩
    intro sp member
    rcases List.mem_cons.mp member with same | older
    · subst same
      exact session.current tx open' sound
    · exact session.saved tx open' sp older
  | @released name tx sp outer open' sound found =>
    refine ⟨holds.committed, .opened rfl (session.current tx open') ?_⟩
    intro other member
    apply session.saved tx open' other
    have listed : other ∈ sp :: outer := List.mem_cons_of_mem sp member
    rw [← found] at listed
    exact List.dropWhile_subset _ listed
  | misnamed kind =>
    exact ⟨by rw [afterError_db]; exact holds.committed,
      copiesHold_afterError session.coherent session.saved⟩
  | assigned sound inBlock done => exact ⟨holds.committed, session.congr rfl rfl⟩
  | unassigned sound inBlock =>
    exact ⟨by rw [afterError_db]; exact holds.committed,
      copiesHold_afterError session.coherent session.saved⟩
  | zoned sound done => exact ⟨holds.committed, session.congr rfl rfl⟩
  | roled sound done => exact ⟨holds.committed, session.congr rfl rfl⟩
  | unroled sound =>
    exact ⟨by rw [afterError_db]; exact holds.committed,
      copiesHold_afterError session.coherent session.saved⟩
  | deferred block => exact ⟨holds.committed, session.congr rfl rfl⟩
  | undeferred block =>
    exact ⟨by rw [afterError_db]; exact holds.committed,
      copiesHold_afterError session.coherent session.saved⟩
  | busy sound writes blocked =>
    split
    · rename_i none'
      have closed : c.session.txn = none := by simpa using none'
      have idle : c.session.status = .idle := by
        rcases session.coherent.txn_cases with ⟨tx, open'⟩ | ⟨idle, _⟩
        · rw [open'] at closed
          cases closed
        · exact idle
      exact ⟨by rw [rollback_db]; exact holds.committed, copiesHold_rollback idle⟩
    · exact ⟨by rw [afterError_db]; exact holds.committed,
        copiesHold_afterError session.coherent session.saved⟩
  | @ranInTxn stmt tx tx' g d r open' sound free locked ran =>
    obtain ⟨sameDb, current, sameSaved⟩ := holds.locked open' sound locked
    have visible : c.visible = tx.state := by simp [Conn.visible, open']
    have admits' := admitted (by rw [visible]; exact free)
    rw [entering_inTxn open' free locked] at admits'
    refine ⟨by rw [sameDb]; exact holds.committed,
      .opened rfl (fun _ => rules.statement current admits' ran) ?_⟩
    rw [sameSaved]
    exact session.saved tx open'
  | @failedInTxn stmt tx tx' g d e open' sound free locked =>
    obtain ⟨sameDb, _, sameSaved⟩ := holds.locked open' sound locked
    refine ⟨by rw [afterError_db, sameDb]; exact holds.committed,
      copiesHold_afterError (fun _ => rfl) ?_⟩
    intro other isOpen
    cases isOpen
    rw [sameSaved]
    exact session.saved tx open'
  | @ranAlone stmt r d idle none' free ran passed =>
    have visible : c.visible = c.global.db := by simp [Conn.visible, none']
    have admits' := admitted (by rw [visible]; exact free)
    rw [entering_alone none' free] at admits'
    have current : kept d := rules.statement holds.committed.1 admits' ran
    exact ⟨holds.publishes rules current passed _, .closed idle rfl⟩
  | failedAlone idle none' =>
    exact ⟨by rw [rollback_db]; exact holds.committed, copiesHold_rollback idle⟩

theorem Conn.CopiesHold.committedImplicit (rules : CopyRules kept published admits)
    (holds : c.CopiesHold kept published) (sound : c.session.status ≠ .failed) :
    (commitImplicit c).1.CopiesHold kept published := by
  unfold commitImplicit
  have left : c.leaveImplicit.CopiesHold kept published :=
    ⟨holds.committed, holds.session.congr rfl rfl⟩
  split
  · split
    · rename_i outside
      have idle : c.leaveImplicit.session.status = .idle := by
        cases status : c.session.status with
        | idle => exact status
        | inTransaction => exact (outside status).elim
        | failed => exact (sound status).elim
      cases found : c.leaveImplicit.session.txn with
      | none =>
        have unchanged : commit c.leaveImplicit = (c.leaveImplicit, .ok ()) := by
          unfold commit
          rw [found]
        rw [unchanged]
        exact left
      | some tx =>
        rcases commit_cases found with ⟨e, refused⟩ | ⟨passed, restored, _, done⟩
        · rw [refused]
          exact ⟨by rw [Conn.withStatus, rollback_db]; exact left.committed,
            copiesHold_rolledBack _⟩
        · rw [done]
          exact ⟨left.publishes rules (left.session.current tx found sound) passed restored,
            .closed idle rfl⟩
    · exact left
  · exact holds

theorem Conn.CopiesHold.served (rules : CopyRules kept published admits) (settings : SettingRules)
    (holds : c.CopiesHold kept published) {request : Request D}
    (admitted : Admitted admits c request) :
    (serve settings c request).1.CopiesHold kept published := by
  cases request with
  | statement stmt => exact holds.executed rules settings admitted
  | beginImplicit =>
    simp only [serve, beginImplicit]
    split
    · refine ⟨holds.committed, .opened rfl (fun _ => holds.committed.1) ?_⟩
      intro sp member
      cases member
    · exact holds
  | commitImplicit => exact holds.committedImplicit rules admitted
  | rollbackImplicit =>
    simp only [serve, rollbackImplicit]
    split
    · split
      · exact ⟨by rw [Conn.withStatus, rollback_db]; exact holds.committed,
          copiesHold_rolledBack _⟩
      · exact ⟨holds.committed, holds.session.congr rfl rfl⟩
    · exact holds

end Steps

/-- Session `call.1` sends the request `call.2`. -/
def World.next (settings : SettingRules) (w : World D) (call : Nat × Request D) : World D :=
  let served := serve settings (w.conn call.1) call.2
  { global := served.1.global
    sessions := Function.update w.sessions call.1 served.1.session }

def World.run (settings : SettingRules) (w : World D) (calls : List (Nat × Request D)) : World D :=
  calls.foldl (World.next settings) w

def World.Admits (admits : Modes → D → DataStmt D → Prop) (settings : SettingRules) :
    World D → List (Nat × Request D) → Prop
  | _, [] => True
  | w, call :: rest =>
    Admitted admits (w.conn call.1) call.2 ∧
      World.Admits admits settings (w.next settings call) rest

structure World.CopiesHold (kept published : D → Prop) (w : World D) : Prop where
  committed : kept w.global.db ∧ published w.global.db
  sessions : ∀ i, (w.sessions i).CopiesHold kept

variable {kept published : D → Prop} {admits : Modes → D → DataStmt D → Prop}

theorem World.CopiesHold.next (rules : CopyRules kept published admits) (settings : SettingRules)
    {w : World D} (holds : w.CopiesHold kept published) {call : Nat × Request D}
    (admitted : Admitted admits (w.conn call.1) call.2) :
    (w.next settings call).CopiesHold kept published := by
  have conn : (w.conn call.1).CopiesHold kept published := ⟨holds.committed, holds.sessions call.1⟩
  have served := conn.served rules settings admitted
  refine ⟨served.committed, ?_⟩
  intro i
  by_cases same : i = call.1
  · subst same
    simpa [World.next] using served.session
  · simpa [World.next, same] using holds.sessions i

theorem World.CopiesHold.run (rules : CopyRules kept published admits) (settings : SettingRules)
    (calls : List (Nat × Request D)) {w : World D} (holds : w.CopiesHold kept published)
    (admitted : w.Admits admits settings calls) :
    (w.run settings calls).CopiesHold kept published := by
  induction calls generalizing w with
  | nil => exact holds
  | cons call rest ih => exact ih (holds.next rules settings admitted.1) admitted.2

end NoidaDb.Postgres
