/-
The writes a client may count on, session by session.

`Accounts` ties the ledger to the engine: the session's copy is the committed database with those
writes replayed.  The write lock is what keeps it so.
-/

import Mathlib.Data.List.Forall2
import NoidaDb.Postgres.EngineSteps

namespace NoidaDb.Postgres

open Database

variable {D : Type}

def replay (writes : List (D → D)) (db : D) : D := writes.foldl (fun d write => write d) db

@[simp] theorem replay_nil (db : D) : replay [] db = db := rfl

@[simp] theorem replay_append (first later : List (D → D)) (db : D) :
    replay (first ++ later) db = replay later (replay first db) :=
  List.foldl_append

@[simp] theorem replay_singleton (write : D → D) (db : D) : replay [write] db = write db := rfl

theorem replay_holds {holds : D → Prop} (writes : List (D → D))
    (kept : ∀ write, write ∈ writes → ∀ db, holds db → holds (write db)) {db : D}
    (now : holds db) : holds (replay writes db) := by
  induction writes generalizing db with
  | nil => exact now
  | cons write rest ih =>
    apply ih
    · intro other member
      exact kept other (List.mem_cons_of_mem write member)
    · exact kept write List.mem_cons_self db now

/-- A live savepoint: the writes before it, and whether it precedes the
transaction's first write. -/
structure LedgerMark (D : Type) where
  name : String
  early : Bool
  own : List (D → D)

structure Ledger (D : Type) where
  own : List (D → D) := []
  /-- Newest first. -/
  marks : List (LedgerMark D) := []

def Ledger.innermost (ledger : Ledger D) (name : String) : List (LedgerMark D) :=
  ledger.marks.dropWhile (fun m => m.name != name)

def Conn.wrote (c : Conn D) : Bool := (c.session.txn.map Txn.wrote).getD false

inductive Request (D : Type) where
  | statement (stmt : Stmt D)
  | beginImplicit
  | commitImplicit
  | rollbackImplicit

def Request.isData : Request D → Bool
  | .statement (.data _) => true
  | _ => false

def silent : StmtResult := { tag := "" }

def DataStmt.effect (stmt : DataStmt D) (modes : Modes) (d : D) : D := (stmt.run modes d).1

def Ledger.noteStatement (ledger : Ledger D) (c : Conn D) : Stmt D → Ledger D
  | .startTransaction =>
    if c.session.status = .idle then { ledger with marks := [] } else ledger
  | .savepoint name =>
    { ledger with marks := ⟨name, !c.wrote, ledger.own⟩ :: ledger.marks }
  | .releaseSavepoint name => { ledger with marks := (ledger.innermost name).tail }
  | .rollbackTo name =>
    match ledger.innermost name with
    | m :: outer => { own := m.own, marks := m :: outer }
    | [] => ledger
  | .data stmt =>
    if stmt.writes c.visible then
      { ledger with own := ledger.own ++ [stmt.effect c.session.rt.modes] }
    else ledger
  | _ => ledger

def Ledger.note (ledger : Ledger D) (c c' : Conn D) (request : Request D)
    (result : PgResult StmtResult) : Ledger D :=
  match c'.session.txn with
  | none => {}
  | some _ =>
    match request, result with
    | .statement stmt, .ok _ => ledger.noteStatement c stmt
    | _, _ => ledger

/-- What a COMMIT at `c` publishes. -/
def Ledger.published [Database D] (ledger : Ledger D) (c c' : Conn D) : List (D → D) :=
  ledger.own ++ if c.wrote then [Database.onCommitActions c'.session.rt.settings.tempSchema] else []

def Ledger.acknowledged [Database D] (ledger : Ledger D) (c c' : Conn D) (request : Request D)
    (result : PgResult StmtResult) : List (D → D) :=
  match request, result with
  | .statement .commit, .ok r => if r.tag = "COMMIT" then ledger.published c c' else []
  | .statement (.data stmt), .ok _ =>
    if c.session.txn.isNone = true ∧ stmt.writes c.visible = true then
      [stmt.effect c.session.rt.modes, Database.onCommitActions c'.session.rt.settings.tempSchema]
    else []
  | .commitImplicit, .ok _ => if c'.session.txn.isNone then ledger.published c c' else []
  | _, _ => []

structure Saved (db : D) (wrote : Bool) (sp : Savepoint D) (m : LedgerMark D) : Prop where
  name : sp.name = m.name
  early : m.early = true → m.own = []
  late : m.early = false → wrote = true ∧ sp.state = replay m.own db

structure Balanced (c : Conn D) (ledger : Ledger D) (tx : Txn D) : Prop where
  lock : tx.wrote = true → c.global.writer = some c.session.id
  unwritten : tx.wrote = false → ledger.own = []
  copy : tx.wrote = true → c.session.status ≠ .failed →
    tx.state = replay ledger.own c.global.db
  marks : List.Forall₂ (Saved c.global.db tx.wrote) tx.savepoints ledger.marks

structure Accounts (c : Conn D) (ledger : Ledger D) : Prop where
  coherent : c.session.Coherent
  closed : c.session.txn = none → ledger = {}
  opened : ∀ tx, c.session.txn = some tx → Balanced c ledger tx

/-- What the engine does not guard against: a savepoint taken before the first write keeps an old copy;
BEGIN drops what an implicit transaction did; a statement taken to read may write. -/
def Undisturbed (c : Conn D) (ledger : Ledger D) : Request D → Prop
  | .statement (.rollbackTo name) =>
    ∀ tx sp outer m rest, c.session.txn = some tx → tx.wrote = true →
      fromInnermost name tx.savepoints = sp :: outer → ledger.innermost name = m :: rest →
        m.early = true → sp.state = c.global.db
  | .statement .startTransaction => c.session.status = .idle → ledger.own = []
  | .statement (.data stmt) =>
    stmt.writes c.visible = false → stmt.effect c.session.rt.modes c.visible = c.visible
  | .commitImplicit => c.session.status ≠ .failed
  | _ => True

def Ledger.kept (ledger : Ledger D) (c' : Conn D) : Ledger D :=
  match c'.session.txn with
  | none => {}
  | some _ => ledger

theorem Ledger.note_error (ledger : Ledger D) (c c' : Conn D) (request : Request D)
    (e : PgError) : ledger.note c c' request (.error e) = ledger.kept c' := by
  unfold Ledger.note Ledger.kept
  cases c'.session.txn with
  | none => rfl
  | some tx => cases request <;> rfl

theorem Accounts.kept {c : Conn D} {ledger : Ledger D} (accounts : Accounts c ledger) :
    ledger.kept c = ledger := by
  unfold Ledger.kept
  cases found : c.session.txn with
  | none => exact (accounts.closed found).symm
  | some tx => rfl

variable {c : Conn D} {ledger : Ledger D} {tx : Txn D}

theorem Accounts.atRest (idle : c.session.status = .idle) (none' : c.session.txn = none) :
    Accounts c {} where
  coherent := fun active => (active idle).elim
  closed := fun _ => rfl
  opened := by
    intro tx open'
    rw [none'] at open'
    cases open'

theorem Accounts.holding (open' : c.session.txn = some tx) (balanced : Balanced c ledger tx) :
    Accounts c ledger where
  coherent := fun _ => by simp [open']
  closed := by
    intro none'
    rw [open'] at none'
    cases none'
  opened := by
    intro other open''
    obtain rfl := Option.some.inj (open'.symm.trans open'')
    exact balanced

/-- One request, settled: the ledger after it, and what it published.  A session that
holds the lock keeps the others off the committed database. -/
structure Posted (c c' : Conn D) (ledger : Ledger D) (published : List (D → D)) : Prop where
  accounts : Accounts c' ledger
  db : c'.global.db = replay published c.global.db
  id : c'.session.id = c.session.id
  excluded : ∀ j, j ≠ c.session.id → c.global.writer = some j → c'.global = c.global

theorem Accounts.frame {c' : Conn D} (accounts : Accounts c ledger)
    (txn : c'.session.txn = c.session.txn) (global : c'.global = c.global)
    (id : c'.session.id = c.session.id) (status : c'.session.status = c.session.status ∨
      c.session.status ≠ .idle ∧ c'.session.status = .failed) : Posted c c' ledger [] := by
  have active : c'.session.status ≠ .idle → c.session.status ≠ .idle := by
    intro active
    rcases status with same | ⟨block, _⟩
    · rwa [same] at active
    · exact block
  have sound : c'.session.status ≠ .failed → c.session.status ≠ .failed := by
    intro sound
    rcases status with same | ⟨_, failed⟩
    · rwa [same] at sound
    · exact (sound failed).elim
  constructor
  · constructor
    · intro block
      rw [txn]
      exact accounts.coherent (active block)
    · intro none'
      exact accounts.closed (txn ▸ none')
    · intro tx open'
      have balanced := accounts.opened tx (txn ▸ open')
      exact ⟨by rw [global, id]; exact balanced.lock, balanced.unwritten,
        by rw [global]; exact fun wrote ok => balanced.copy wrote (sound ok),
        by rw [global]; exact balanced.marks⟩
  · rw [global]
    rfl
  · exact id
  · exact fun _ _ _ => global

@[simp] theorem release_db (g : Global D) (id : Nat) : (g.release id).db = g.db := by
  unfold Global.release
  split <;> rfl

theorem release_other {g : Global D} {id j : Nat} (other : j ≠ id) (held : g.writer = some j) :
    g.release id = g := by
  unfold Global.release
  rw [if_neg]
  rw [held, Option.some.injEq]
  exact other

theorem Posted.rolledBack (c₀ : Conn D) (db : c₀.global.db = c.global.db)
    (id : c₀.session.id = c.session.id)
    (excluded : ∀ j, j ≠ c.session.id → c.global.writer = some j → c₀.global = c.global)
    {c' : Conn D} (global : c'.global = (rollback c₀).global)
    (same : c'.session.id = c₀.session.id) (idle : c'.session.status = .idle)
    (none' : c'.session.txn = none) : Posted c c' {} [] where
  accounts := .atRest idle none'
  db := by rw [global]; simp [rollback, db]
  id := same.trans id
  excluded := by
    intro j other held
    have kept := excluded j other held
    rw [global]
    simp only [rollback, kept, id]
    exact release_other other held

theorem Posted.onError {c₀ : Conn D} (posted : Posted c c₀ ledger []) :
    Posted c (afterError c₀) (ledger.kept (afterError c₀)) [] := by
  by_cases idle : c₀.session.status = .idle
  · cases found : c₀.session.txn with
    | none =>
      rw [afterError_idle idle found, posted.accounts.kept]
      exact posted
    | some tx =>
      rw [afterError_implicit idle found]
      exact Posted.rolledBack c₀ posted.db posted.id posted.excluded rfl rfl idle rfl
  · rw [afterError_block idle]
    have failed : Posted c₀ (c₀.withStatus .failed) ledger [] :=
      posted.accounts.frame rfl rfl rfl (Or.inr ⟨idle, rfl⟩)
    rw [failed.accounts.kept]
    exact ⟨failed.accounts, posted.db, posted.id, posted.excluded⟩

theorem forall₂_dropWhile {α β : Type} {R : α → β → Prop} {p : α → Bool} {q : β → Bool}
    {xs : List α} {ys : List β} (related : List.Forall₂ R xs ys)
    (agree : ∀ x y, R x y → p x = q y) :
    List.Forall₂ R (xs.dropWhile p) (ys.dropWhile q) := by
  induction related with
  | nil => exact List.Forall₂.nil
  | @cons x y xs ys head tail ih =>
    rw [List.dropWhile_cons, List.dropWhile_cons, agree x y head]
    split
    · exact ih
    · exact List.Forall₂.cons head tail

theorem Balanced.innermost (balanced : Balanced c ledger tx) (name : String) :
    List.Forall₂ (Saved c.global.db tx.wrote) (fromInnermost name tx.savepoints)
      (ledger.innermost name) := by
  apply forall₂_dropWhile balanced.marks
  intro sp m saved
  rw [saved.name]

structure CopyReady (c : Conn D) (ledger : Ledger D) (tx : Txn D) (writes : Bool) (g : Global D)
    (tx' : Txn D) : Prop where
  db : g.db = c.global.db
  lock : tx'.wrote = true → g.writer = some c.session.id
  unwritten : tx'.wrote = false → ledger.own = []
  copy : tx'.wrote = true → tx'.state = replay ledger.own c.global.db
  writing : writes = true → tx'.wrote = true
  reading : writes = false → tx' = tx
  marks : List.Forall₂ (Saved c.global.db tx'.wrote) tx'.savepoints ledger.marks
  excluded : ∀ j, j ≠ c.session.id → c.global.writer = some j → g = c.global

theorem Balanced.prepare {tx' : Txn D} {g : Global D} {writes : Bool}
    (balanced : Balanced c ledger tx) (free : writes = true → c.MayWrite)
    (sound : c.session.status ≠ .failed) (locked : c.locked tx writes = (g, tx')) :
    CopyReady c ledger tx writes g tx' := by
  cases writes with
  | false =>
    cases locked
    exact ⟨rfl, balanced.lock, balanced.unwritten, fun wrote => balanced.copy wrote sound,
      by simp, fun _ => rfl, balanced.marks, fun _ _ _ => rfl⟩
  | true =>
    cases locked
    constructor
    · rfl
    · intro _
      rfl
    · intro unwritten
      cases unwritten
    · intro _
      by_cases wrote : tx.wrote = true
      · simpa [Txn.startWriting, wrote] using balanced.copy wrote sound
      · have unwritten : tx.wrote = false := by simpa using wrote
        simp [Txn.startWriting, unwritten, balanced.unwritten unwritten]
    · intro _
      rfl
    · intro reads
      cases reads
    · apply balanced.marks.imp
      intro sp m saved
      exact ⟨saved.name, saved.early, fun late => ⟨rfl, (saved.late late).2⟩⟩
    · intro j other held
      rcases free rfl with none' | mine
      · rw [none'] at held
        cases held
      · rw [mine, Option.some.injEq] at held
        exact (other held.symm).elim

section Steps

variable {c : Conn D} {ledger : Ledger D} {tx : Txn D}

theorem Posted.began {c' : Conn D} {settings : Settings} (global : c'.global = c.global)
    (id : c'.session.id = c.session.id)
    (txn : c'.session.txn = some { state := c.global.db, settings := settings })
    (fresh : ledger.own = []) : Posted c c' { ledger with marks := [] } [] where
  accounts := by
    apply Accounts.holding txn
    constructor
    · intro wrote
      cases wrote
    · exact fun _ => fresh
    · intro wrote
      cases wrote
    · exact List.Forall₂.nil
  db := by
    rw [global]
    rfl
  id := id
  excluded := fun _ _ _ => global

theorem Accounts.marked (accounts : Accounts c ledger) (open' : c.session.txn = some tx)
    (sound : c.session.status ≠ .failed) (name : String) (settings : Settings) (modes : Modes) :
    Posted c
      { c with session := { c.session with
          txn := some { tx with savepoints :=
            { name := name, state := tx.state, settings := settings, modes := modes }
              :: tx.savepoints } } }
      { ledger with marks := ⟨name, !tx.wrote, ledger.own⟩ :: ledger.marks } [] where
  accounts := by
    have balanced := accounts.opened tx open'
    apply Accounts.holding rfl
    refine ⟨balanced.lock, balanced.unwritten, balanced.copy, List.Forall₂.cons ?_ balanced.marks⟩
    constructor
    · rfl
    · intro early
      exact balanced.unwritten (by simpa using early)
    · intro late
      have wrote : tx.wrote = true := by simpa using late
      exact ⟨wrote, balanced.copy wrote sound⟩
  db := rfl
  id := rfl
  excluded := fun _ _ _ => rfl

theorem Accounts.wentBack (accounts : Accounts c ledger) (open' : c.session.txn = some tx)
    {name : String} {sp : Savepoint D} {outer : List (Savepoint D)}
    (found : fromInnermost name tx.savepoints = sp :: outer)
    (undisturbed : Undisturbed c ledger (.statement (.rollbackTo name))) (settings : Settings)
    (modes : Modes) :
    Posted c
      { c with session := { c.session with
          status := .inTransaction
          txn := some { tx with state := sp.state, savepoints := sp :: outer }
          rt := { c.session.rt with settings := settings, modes := modes } } }
      (ledger.noteStatement c (.rollbackTo name)) [] where
  accounts := by
    have balanced := accounts.opened tx open'
    have kept := balanced.innermost name
    rw [found] at kept
    cases split : ledger.innermost name with
    | nil =>
      rw [split] at kept
      cases kept
    | cons m rest =>
      rw [split] at kept
      obtain ⟨saved, older⟩ := List.forall₂_cons.mp kept
      simp only [Ledger.noteStatement, split]
      apply Accounts.holding rfl
      constructor
      · exact balanced.lock
      · intro unwritten
        cases early : m.early with
        | true => exact saved.early early
        | false =>
          have wrote := (saved.late early).1
          rw [unwritten] at wrote
          cases wrote
      · intro wrote _
        cases early : m.early with
        | true =>
          rw [saved.early early]
          exact undisturbed tx sp outer m rest open' wrote found split early
        | false => exact (saved.late early).2
      · exact List.Forall₂.cons saved older
  db := rfl
  id := rfl
  excluded := fun _ _ _ => rfl

theorem Accounts.released (accounts : Accounts c ledger) (open' : c.session.txn = some tx)
    {name : String} {sp : Savepoint D} {outer : List (Savepoint D)}
    (found : fromInnermost name tx.savepoints = sp :: outer) :
    Posted c { c with session := { c.session with txn := some { tx with savepoints := outer } } }
      { ledger with marks := (ledger.innermost name).tail } [] where
  accounts := by
    have balanced := accounts.opened tx open'
    have kept := balanced.innermost name
    rw [found] at kept
    apply Accounts.holding rfl
    refine ⟨balanced.lock, balanced.unwritten, balanced.copy, ?_⟩
    cases split : ledger.innermost name with
    | nil =>
      rw [split] at kept
      cases kept
    | cons m rest =>
      rw [split] at kept
      exact (List.forall₂_cons.mp kept).2
  db := rfl
  id := rfl
  excluded := fun _ _ _ => rfl

theorem Accounts.ran (accounts : Accounts c ledger) (open' : c.session.txn = some tx)
    (sound : c.session.status ≠ .failed) {stmt : DataStmt D} {tx' : Txn D} {g : Global D}
    (free : stmt.writes tx.state = true → c.MayWrite)
    (locked : c.locked tx (stmt.writes tx.state) = (g, tx'))
    (undisturbed : Undisturbed c ledger (.statement (.data stmt))) :
    Posted c
      { global := g
        session := { c.session with
          txn := some { tx' with state := stmt.effect c.session.rt.modes tx'.state } } }
      (ledger.noteStatement c (.data stmt)) [] := by
  have prepared := (accounts.opened tx open').prepare free sound locked
  have visible : c.visible = tx.state := by simp [Conn.visible, open']
  refine ⟨?_, prepared.db, rfl, prepared.excluded⟩
  apply Accounts.holding rfl
  simp only [Undisturbed, Ledger.noteStatement, visible] at undisturbed ⊢
  cases writes : stmt.writes tx.state with
  | true =>
    constructor
    · exact prepared.lock
    · intro unwritten
      have wrote := prepared.writing writes
      rw [unwritten] at wrote
      cases wrote
    · intro wrote _
      simp [prepared.copy wrote, prepared.db]
    · simpa [prepared.db] using prepared.marks
  | false =>
    have same := prepared.reading writes
    constructor
    · exact prepared.lock
    · exact prepared.unwritten
    · intro wrote _
      have copied := prepared.copy wrote
      rw [same] at copied
      simp only [same, prepared.db, Bool.false_eq_true, if_false]
      exact (undisturbed writes).trans copied
    · simpa [prepared.db] using prepared.marks

theorem Accounts.ranBadly (accounts : Accounts c ledger) (open' : c.session.txn = some tx)
    (sound : c.session.status ≠ .failed) {writes : Bool} {tx' : Txn D} {g : Global D}
    (free : writes = true → c.MayWrite) (locked : c.locked tx writes = (g, tx')) {d : D}
    {c₀ : Conn D} (global : c₀.global = g) (id : c₀.session.id = c.session.id)
    (left : c₀.session.txn = some { tx' with state := d }) :
    Posted c (afterError c₀) (ledger.kept (afterError c₀)) [] := by
  have prepared := (accounts.opened tx open').prepare free sound locked
  subst global
  by_cases idle : c₀.session.status = .idle
  · rw [afterError_implicit idle left]
    exact Posted.rolledBack c₀ prepared.db id prepared.excluded rfl rfl idle rfl
  · rw [afterError_block idle]
    have held : Accounts (c₀.withStatus .failed) ledger := by
      have left' : (c₀.withStatus .failed).session.txn = some { tx' with state := d } := left
      apply Accounts.holding left'
      constructor
      · intro wrote
        exact (prepared.lock wrote).trans (congrArg some id.symm)
      · exact prepared.unwritten
      · intro _ notFailed
        exact (notFailed rfl).elim
      · change List.Forall₂ (Saved c₀.global.db tx'.wrote) tx'.savepoints ledger.marks
        rw [prepared.db]
        exact prepared.marks
    rw [held.kept]
    exact ⟨held, prepared.db, id, prepared.excluded⟩

end Steps

variable [Database D] {rules : SettingRules} {c c' : Conn D} {ledger : Ledger D}

theorem Accounts.committed (accounts : Accounts c ledger) (open' : c.session.txn = some tx)
    (sound : c.session.status ≠ .failed) {settings : Settings}
    (global : c'.global = c.published tx settings) (id : c'.session.id = c.session.id)
    (current : c'.session.rt.settings = settings) (idle : c'.session.status = .idle)
    (none' : c'.session.txn = none) : Posted c c' {} (ledger.published c c') := by
  have balanced := accounts.opened tx open'
  have wrote : c.wrote = tx.wrote := by simp [Conn.wrote, open']
  refine ⟨.atRest idle none', ?_, id, ?_⟩
  · rw [global]
    simp only [Conn.published, Ledger.published, wrote, current]
    cases written : tx.wrote with
    | true => simp [balanced.copy written sound]
    | false => simp [balanced.unwritten written]
  · intro j other held
    have unwritten : tx.wrote = false := by
      cases written : tx.wrote with
      | false => rfl
      | true =>
        have mine := balanced.lock written
        rw [held, Option.some.injEq] at mine
        exact (other mine).elim
    rw [global]
    simp only [Conn.published, unwritten, Bool.false_eq_true, if_false]
    exact release_other other held

theorem Posted.ranAlone {stmt : DataStmt D} {d : D} {r : StmtResult}
    (idle : c.session.status = .idle) (free : stmt.writes c.global.db = true → c.MayWrite)
    (ran : stmt.run c.session.rt.modes c.global.db = (d, .ok r)) :
    Posted c
      { global := c.published { state := d, wrote := stmt.writes c.global.db
                                settings := c.session.rt.settings } c.session.rt.settings
        session := c.session.ended c.session.rt.settings } {}
      (if stmt.writes c.global.db = true then
        [stmt.effect c.session.rt.modes, Database.onCommitActions c.session.rt.settings.tempSchema]
      else []) := by
  have effect : stmt.effect c.session.rt.modes c.global.db = d := by simp [DataStmt.effect, ran]
  refine ⟨.atRest idle rfl, ?_, rfl, ?_⟩
  · cases stmt.writes c.global.db with
    | true => simp [Conn.published, replay, effect]
    | false => simp [Conn.published]
  · intro j other held
    have reads : stmt.writes c.global.db = false := by
      by_contra writes
      have writes : stmt.writes c.global.db = true := by simpa using writes
      rcases free writes with none'' | mine
      · rw [none''] at held
        cases held
      · rw [mine, Option.some.injEq] at held
        exact other held.symm
    simp only [Conn.published, reads, Bool.false_eq_true, if_false]
    exact release_other other held

@[simp] theorem Ledger.acknowledged_error (c c' : Conn D) (request : Request D) (e : PgError) :
    ledger.acknowledged c c' request (.error e) = [] := by
  cases request with
  | statement stmt => cases stmt <;> rfl
  | _ => rfl

omit [Database D] in
theorem Ledger.note_open {stmt : Stmt D} {r : StmtResult} (open' : c'.session.txn = some tx) :
    ledger.note c c' (.statement stmt) (.ok r) = ledger.noteStatement c stmt := by
  simp [Ledger.note, open']

omit [Database D] in
theorem Ledger.note_over {request : Request D} {result : PgResult StmtResult}
    (none' : c'.session.txn = none) : ledger.note c c' request result = {} := by
  simp [Ledger.note, none']

omit [Database D] in
theorem Posted.stays {stmt : Stmt D} {r : StmtResult} (posted : Posted c c' ledger [])
    (plain : ledger.noteStatement c stmt = ledger) :
    Posted c c' (ledger.note c c' (.statement stmt) (.ok r)) [] := by
  cases found : c'.session.txn with
  | none =>
    rw [Ledger.note_over found, ← posted.accounts.closed found]
    exact posted
  | some tx =>
    rw [Ledger.note_open found, plain]
    exact posted

theorem Posted.fails {c₀ : Conn D} (request : Request D) (e : PgError)
    (posted : Posted c (afterError c₀) (ledger.kept (afterError c₀)) []) :
    Posted c (afterError c₀) (ledger.note c (afterError c₀) request (.error e))
      (ledger.acknowledged c (afterError c₀) request (.error e)) := by
  rw [Ledger.note_error, Ledger.acknowledged_error]
  exact posted

theorem Accounts.step {stmt : Stmt D} {result : PgResult StmtResult}
    (accounts : Accounts c ledger) (undisturbed : Undisturbed c ledger (.statement stmt))
    (effect : Effect rules c stmt c' result) :
    Posted c c' (ledger.note c c' (.statement stmt) result)
      (ledger.acknowledged c c' (.statement stmt) result) := by
  have unmoved : ∀ {c₀ : Conn D}, c₀.session.txn = c.session.txn → c₀.global = c.global →
      c₀.session.id = c.session.id → c₀.session.status = c.session.status →
        Posted c c₀ ledger [] :=
    fun txn global id status => accounts.frame txn global id (Or.inl status)
  have here : Posted c c ledger [] := unmoved rfl rfl rfl rfl
  have back : ∀ {c₀ : Conn D}, c₀.global = (rollback c).global → c₀.session.id = c.session.id →
      c₀.session.status = .idle → c₀.session.txn = none → Posted c c₀ {} [] :=
    fun global id idle none' =>
      Posted.rolledBack c rfl rfl (fun _ _ _ => rfl) global id idle none'
  cases effect with
  | refused failed gated =>
    rw [Ledger.note_error, Ledger.acknowledged_error, accounts.kept]
    exact here
  | @warned _ r quiet =>
    cases stmt with
    | startTransaction =>
      apply here.stays
      simp [Ledger.noteStatement, show c.session.status = .inTransaction from quiet]
    | commit =>
      have empty := accounts.closed quiet.2
      have nothing : ledger.acknowledged c c (.statement .commit) (.ok r) = [] := by
        simp [Ledger.acknowledged, Ledger.published, Conn.wrote, quiet.2, empty]
      rw [nothing]
      exact here.stays rfl
    | rollback => exact here.stays rfl
    | set isLocal name value => exact here.stays rfl
    | setConstraints names mode => exact here.stays rfl
    | _ => exact quiet.elim
  | began idle =>
    rw [Ledger.note_open rfl]
    simp only [Ledger.noteStatement, idle, if_true]
    exact Posted.began rfl rfl rfl (undisturbed idle)
  | committed open' sound passed restored =>
    exact accounts.committed open' sound rfl rfl rfl rfl rfl
  | violated open' sound =>
    rw [Ledger.note_over rfl, Ledger.acknowledged_error]
    exact back rfl rfl rfl rfl
  | abandoned open' ends =>
    rcases ends with rfl | ⟨rfl, failed⟩
    · exact back rfl rfl rfl rfl
    · exact back rfl rfl rfl rfl
  | wentBack open' found =>
    rw [Ledger.note_open rfl]
    exact accounts.wentBack open' found undisturbed _ _
  | @marked name tx open' sound =>
    have wrote : c.wrote = tx.wrote := by simp [Conn.wrote, open']
    rw [Ledger.note_open rfl]
    simp only [Ledger.noteStatement, wrote]
    exact accounts.marked open' sound name _ _
  | released open' sound found =>
    rw [Ledger.note_open rfl]
    exact accounts.released open' found
  | misnamed kind => exact here.onError.fails _ _
  | assigned sound inBlock done =>
    apply Posted.stays ?_ rfl
    exact unmoved rfl rfl rfl rfl
  | unassigned sound inBlock =>
    apply Posted.fails
    apply Posted.onError
    exact unmoved rfl rfl rfl rfl
  | zoned sound done =>
    apply Posted.stays ?_ rfl
    exact unmoved rfl rfl rfl rfl
  | roled sound done =>
    apply Posted.stays ?_ rfl
    exact unmoved rfl rfl rfl rfl
  | unroled sound =>
    apply Posted.fails
    apply Posted.onError
    exact unmoved rfl rfl rfl rfl
  | deferred block =>
    apply Posted.stays ?_ rfl
    exact unmoved rfl rfl rfl rfl
  | undeferred block =>
    apply Posted.fails
    apply Posted.onError
    exact unmoved rfl rfl rfl rfl
  | busy sound writes blocked =>
    rw [Ledger.note_error, Ledger.acknowledged_error]
    cases found : c.session.txn with
    | none =>
      have idle : c.session.status = .idle := by
        by_contra active
        have isSome := accounts.coherent active
        simp [found] at isSome
      exact back rfl rfl idle rfl
    | some tx =>
      simp only [Option.isNone_some, Bool.false_eq_true, if_false]
      exact here.onError
  | @ranInTxn stmt tx tx' g d r open' sound free locked ran =>
    have visible : c.visible = tx.state := by simp [Conn.visible, open']
    have effect : d = stmt.effect c.session.rt.modes tx'.state := by
      simp [DataStmt.effect, ran]
    subst effect
    rw [Ledger.note_open rfl]
    simpa [Ledger.acknowledged, open'] using accounts.ran open' sound free locked undisturbed
  | failedInTxn open' sound free locked =>
    apply Posted.fails
    exact accounts.ranBadly open' sound free locked rfl rfl rfl
  | @ranAlone stmt r d idle none' free ran passed =>
    have visible : c.visible = c.global.db := by simp [Conn.visible, none']
    have posted := Posted.ranAlone idle free ran
    simpa [Ledger.note_over, Ledger.acknowledged, none', visible, Session.ended] using posted
  | failedAlone idle none' =>
    rw [Ledger.note_over rfl, Ledger.acknowledged_error]
    exact back rfl rfl idle rfl

def serve (rules : SettingRules) (c : Conn D) : Request D → Conn D × PgResult StmtResult
  | .statement stmt => execute rules stmt c
  | .beginImplicit => (beginImplicit c, .ok silent)
  | .commitImplicit => ((commitImplicit c).1, (commitImplicit c).2.map (fun _ => silent))
  | .rollbackImplicit => (rollbackImplicit c, .ok silent)

omit [Database D] in
theorem Accounts.opensImplicit (accounts : Accounts c ledger) :
    Posted c (beginImplicit c) (ledger.kept (beginImplicit c)) [] := by
  cases found : c.session.txn with
  | none =>
    have empty : ledger.own = [] := by rw [accounts.closed found]
    have noMarks : { ledger with marks := [] } = ledger := by rw [accounts.closed found]
    have started : (beginImplicit c).session.txn =
        some { state := c.global.db, settings := c.session.rt.settings } := by
      simp [beginImplicit, found, begin]
    have unmoved : (beginImplicit c).global = c.global ∧
        (beginImplicit c).session.id = c.session.id := by
      simp [beginImplicit, found, begin]
    have posted := Posted.began unmoved.1 unmoved.2 started empty
    rw [noMarks] at posted
    rw [posted.accounts.kept]
    exact posted
  | some tx =>
    have same : beginImplicit c = c := by simp [beginImplicit, found]
    rw [same, accounts.kept]
    exact accounts.frame rfl rfl rfl (Or.inl rfl)

omit [Database D] in
theorem Accounts.leaves (accounts : Accounts c ledger) : Posted c c.leaveImplicit ledger [] :=
  accounts.frame rfl rfl rfl (Or.inl rfl)

omit [Database D] in
theorem Posted.dropped (c : Conn D) :
    Posted c ((rollback c.leaveImplicit).withStatus .idle) {} [] where
  accounts := .atRest rfl rfl
  db := release_db _ _
  id := rfl
  excluded := fun _ other held => release_other other held

omit [Database D] in
theorem Accounts.dropsImplicit (accounts : Accounts c ledger) :
    Posted c (rollbackImplicit c) (ledger.kept (rollbackImplicit c)) [] := by
  unfold rollbackImplicit
  split
  · split
    · exact Posted.dropped c
    · rw [accounts.leaves.accounts.kept]
      exact accounts.leaves
  · rw [accounts.kept]
    exact accounts.frame rfl rfl rfl (Or.inl rfl)

theorem Accounts.closesImplicit (accounts : Accounts c ledger)
    (sound : c.session.status ≠ .failed) :
    Posted c (serve rules c .commitImplicit).1
      (ledger.note c (serve rules c .commitImplicit).1 .commitImplicit
        (serve rules c .commitImplicit).2)
      (ledger.acknowledged c (serve rules c .commitImplicit).1 .commitImplicit
        (serve rules c .commitImplicit).2) := by
  have stays : ∀ {c' : Conn D}, Posted c c' ledger [] → c'.session.txn = c.session.txn →
      Posted c c' (ledger.note c c' .commitImplicit (.ok silent))
        (ledger.acknowledged c c' .commitImplicit (.ok silent)) := by
    intro c' posted txn
    cases found : c.session.txn with
    | none =>
      have empty := accounts.closed found
      rw [found] at txn
      have nothing : ledger.acknowledged c c' .commitImplicit (.ok silent) = [] := by
        simp [Ledger.acknowledged, Ledger.published, Conn.wrote, found, empty]
      rw [Ledger.note_over txn, nothing, ← empty]
      exact posted
    | some tx =>
      rw [found] at txn
      simpa [Ledger.note, Ledger.acknowledged, txn] using posted
  simp only [serve, commitImplicit]
  by_cases implicit : c.session.inImplicitTx = true
  · by_cases block : c.session.status = .inTransaction
    · simp only [implicit, block, if_true, ne_eq, not_true_eq_false, if_false]
      exact stays accounts.leaves rfl
    · simp only [implicit, block, if_true, ne_eq, not_false_eq_true]
      have idle : c.session.status = .idle := by
        cases status : c.session.status with
        | idle => rfl
        | inTransaction => exact (block status).elim
        | failed => exact (sound status).elim
      cases found : c.session.txn with
      | none =>
        have nothing : commit c.leaveImplicit = (c.leaveImplicit, .ok ()) := by
          simp [commit, Conn.leaveImplicit, found]
        rw [nothing]
        exact stays accounts.leaves rfl
      | some tx =>
        have open' : c.leaveImplicit.session.txn = some tx := found
        rcases commit_cases open' with ⟨e, ended⟩ | ⟨passed, settings, restored, ended⟩
        · rw [ended]
          exact Posted.dropped c
        · rw [ended]
          exact accounts.committed found sound rfl rfl rfl idle rfl
  · simp only [implicit]
    exact stays (accounts.frame rfl rfl rfl (Or.inl rfl)) rfl

theorem Accounts.serve (accounts : Accounts c ledger) {request : Request D}
    (undisturbed : Undisturbed c ledger request) {result : PgResult StmtResult}
    (served : serve rules c request = (c', result)) :
    Posted c c' (ledger.note c c' request result) (ledger.acknowledged c c' request result) := by
  cases request with
  | statement stmt =>
    have effect := execute_effect rules stmt accounts.coherent
    simp only [NoidaDb.Postgres.serve] at served
    rw [served] at effect
    exact accounts.step undisturbed effect
  | beginImplicit =>
    cases served
    exact accounts.opensImplicit
  | commitImplicit =>
    have posted := @Accounts.closesImplicit D _ rules c ledger accounts undisturbed
    rw [served] at posted
    exact posted
  | rollbackImplicit =>
    cases served
    exact accounts.dropsImplicit

omit [Database D] in
theorem Accounts.others {global : Global D} (accounts : Accounts c ledger)
    (excluded : c.global.writer = some c.session.id → global = c.global) :
    Accounts { c with global := global } ledger := by
  constructor
  · exact accounts.coherent
  · exact accounts.closed
  · intro tx open'
    have balanced := accounts.opened tx open'
    cases wrote : tx.wrote with
    | true =>
      rw [excluded (balanced.lock wrote)]
      exact balanced
    | false =>
      constructor
      · simp [wrote]
      · exact balanced.unwritten
      · simp [wrote]
      · apply balanced.marks.imp
        intro sp m saved
        refine ⟨saved.name, saved.early, ?_⟩
        intro late
        have written := (saved.late late).1
        rw [wrote] at written
        cases written

end NoidaDb.Postgres
