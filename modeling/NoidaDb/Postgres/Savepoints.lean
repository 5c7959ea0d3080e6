/-
Savepoints and settings.

`Block` is what a client may expect of its transaction, noted from the statements it sends and
their answers.  The engine keeps one list of the names set LOCAL, which ROLLBACK TO does not
shorten, and at COMMIT puts every name on it back.  It never puts a role back.
-/

import NoidaDb.Postgres.Deferred
import NoidaDb.Postgres.EngineSteps

namespace NoidaDb.Postgres

variable {D : Type}

structure Expected where
  kept : String → Option String
  plain : List String := []
  /-- Set LOCAL by a form whose scope is not looked at, and not set plainly since. -/
  unscoped : List String := []
  role : Option String

structure Mark (D : Type) where
  created : Savepoint D
  expected : Expected
  role : Option String

structure Block (D : Type) where
  atBegin : Settings
  roleAtBegin : Option String
  expected : Expected
  marks : List (Mark D) := []
  locals : List String := []

/-- The live savepoints from the innermost `name` outwards. -/
def innermost (name : String) (marks : List (Mark D)) : List (Mark D) :=
  marks.dropWhile (fun m => m.created.name != name)

/-- A plain SET of `name`, which stored `value`. -/
def Expected.assign (expected : Expected) (name : String) (value : Option String) : Expected :=
  { expected with
    kept := Function.update expected.kept (Settings.slot name) value
    plain := Settings.slot name :: expected.plain
    unscoped := expected.unscoped.filter (fun k => k != Settings.slot name) }

def Expected.assignUnscoped (expected : Expected) (name : String) : Expected :=
  { expected with unscoped := Settings.slot name :: expected.unscoped }

/-- The savepoint that SAVEPOINT `name` makes at `c`. -/
def Conn.savepointNow (c : Conn D) (name : String) (tx : Txn D) : Savepoint D :=
  { name := name, state := tx.state, settings := c.session.rt.settings
    modes := c.session.rt.modes }

/-- The client's notes after `stmt` took the engine from `c` to `c'`. -/
def observe (c c' : Conn D) (stmt : Stmt D) (result : PgResult StmtResult) :
    Option (Block D) → Option (Block D)
  | none =>
    match stmt, result with
    | .startTransaction, .ok _ =>
      some { atBegin := c.session.rt.settings
             roleAtBegin := c.session.rt.role
             expected := { kept := c.session.rt.settings.values, role := c.session.rt.role } }
    | _, _ => none
  | some b =>
    match stmt, result with
    | .commit, _ => none
    | .rollback, _ => none
    | .savepoint name, .ok _ =>
      match c.session.txn with
      | some tx =>
        some { b with marks := ⟨c.savepointNow name tx, b.expected, c.session.rt.role⟩ :: b.marks }
      | none => some b
    | .releaseSavepoint name, .ok _ => some { b with marks := (innermost name b.marks).tail }
    | .rollbackTo name, .ok _ =>
      match innermost name b.marks with
      | m :: outer => some { b with marks := m :: outer, expected := m.expected }
      | [] => some b
    | .set true name _, _ =>
      if c.session.status = .inTransaction then
        some { b with locals := Settings.slot name :: b.locals }
      else some b
    | .set false name _, .ok _ =>
      some { b with expected :=
        b.expected.assign name (c'.session.rt.settings.values (Settings.slot name)) }
    | .setTimeZone false _, .ok _ =>
      some { b with expected :=
        b.expected.assign "TimeZone" (c'.session.rt.settings.values (Settings.slot "TimeZone")) }
    | .setTimeZone true _, .ok _ =>
      some { b with expected := b.expected.assignUnscoped "TimeZone" }
    | .setRole false _ _, .ok _ =>
      some { b with expected :=
        { b.expected.assign "session_authorization"
            (c'.session.rt.settings.values (Settings.slot "session_authorization")) with
          role := c'.session.rt.role } }
    | .setRole true _ _, .ok _ =>
      some { b with expected := b.expected.assignUnscoped "session_authorization" }
    | _, _ => some b

/-- What the statement that ends or rewinds a transaction has to establish. -/
def Lawful (block : Option (Block D)) (stmt : Stmt D) (result : PgResult StmtResult)
    (c' : Conn D) : Prop :=
  ∀ b, block = some b →
    match stmt with
    | .rollbackTo name =>
      ∀ m outer, innermost name b.marks = m :: outer →
        (∃ r, result = .ok r) ∧ ∃ tx, c'.session.txn = some tx ∧
          tx.state = m.created.state ∧ c'.session.rt.settings = m.created.settings ∧
          c'.session.rt.role = m.role ∧ c'.session.rt.modes = m.created.modes ∧
          tx.savepoints = (m :: outer).map Mark.created
    | .rollback => c'.session.rt.settings = b.atBegin ∧ c'.session.rt.role = b.roleAtBegin
    | .commit =>
      if result = .ok { tag := "COMMIT" } then
        (∀ k, c'.session.rt.settings.values k = b.expected.kept k) ∧
          c'.session.rt.role = b.expected.role
      else c'.session.rt.settings = b.atBegin ∧ c'.session.rt.role = b.roleAtBegin
    | _ => True

/-- A COMMIT here commits; else it rolls back. -/
def Conn.Commits [Database D] (c : Conn D) : Prop :=
  c.session.status ≠ .failed ∧ ∀ tx, c.session.txn = some tx → tx.wrote = true →
    checkDeferred tx.state = .ok ()

/-- No setting has both a SET LOCAL and a surviving plain SET when the transaction commits, and none
is in force that a SET LOCAL made for good. -/
def LocalsApart (block : Option (Block D)) (stmt : Stmt D) : Prop :=
  stmt = .commit → ∀ b, block = some b →
    (∀ k, k ∈ b.locals → k ∉ b.expected.plain) ∧ b.expected.unscoped = []

/-- The role is already the one that the statement has to leave. -/
def RoleInPlace [Database D] (c : Conn D) (block : Option (Block D)) (stmt : Stmt D) : Prop :=
  ∀ b, block = some b →
    match stmt with
    | .rollbackTo name => ∀ m outer, innermost name b.marks = m :: outer → c.session.rt.role = m.role
    | .rollback => c.session.rt.role = b.roleAtBegin
    | .commit => (c.Commits → c.session.rt.role = b.expected.role) ∧
        (¬ c.Commits → c.session.rt.role = b.roleAtBegin)
    | _ => True

def Restorable [Database D] (c : Conn D) (block : Option (Block D)) (stmt : Stmt D) : Prop :=
  LocalsApart block stmt ∧ RoleInPlace c block stmt

structure Agrees (atBegin : Settings) (locals : List String) (expected : Expected)
    (current : Settings) : Prop where
  extended : current.Extends atBegin
  kept : ∀ k, k ∉ locals → k ∉ expected.unscoped → current.values k = expected.kept k
  untouched : ∀ k, k ∉ expected.plain → expected.kept k = atBegin.values k

structure Tracks (c : Conn D) (b : Block D) (tx : Txn D) : Prop where
  opened : c.session.txn = some tx
  active : c.session.status ≠ .idle
  settings : tx.settings = b.atBegin
  savepoints : tx.savepoints = b.marks.map Mark.created
  locals : ∀ k, k ∈ b.locals ↔ k ∈ c.session.rt.localSettings.map Settings.slot
  agrees : Agrees b.atBegin b.locals b.expected c.session.rt.settings
  marks : ∀ m, m ∈ b.marks → Agrees b.atBegin b.locals m.expected m.created.settings

def Follows (c : Conn D) : Option (Block D) → Prop
  | none => c.session.status = .idle ∧ c.session.txn = none
  | some b => ∃ tx, Tracks c b tx

variable {c c' : Conn D} {b : Block D} {tx : Txn D} {atBegin current : Settings}
  {locals : List String} {expected : Expected} {rules : SettingRules} {block : Option (Block D)}

theorem Agrees.more_locals {more : List String} (agrees : Agrees atBegin locals expected current)
    (grows : ∀ k, k ∈ locals → k ∈ more) : Agrees atBegin more expected current :=
  ⟨agrees.extended, fun k absent => agrees.kept k (fun present => absent (grows k present)),
    agrees.untouched⟩

theorem Agrees.assign {after : Settings} {name value : String}
    (agrees : Agrees atBegin locals expected current)
    (done : current.set rules name value = .ok after) :
    Agrees atBegin locals (expected.assign name (after.values (Settings.slot name))) after := by
  refine ⟨Settings.set_extends done agrees.extended, ?_, ?_⟩
  · intro k absent plainly
    by_cases same : k = Settings.slot name
    · simp [Expected.assign, same]
    · have plainly : k ∉ expected.unscoped := by simpa [Expected.assign, same] using plainly
      rw [Settings.set_values_of_ne done same]
      simpa [Expected.assign, same] using agrees.kept k absent plainly
  · intro k unset
    have unset : k ≠ Settings.slot name ∧ k ∉ expected.plain := by
      simpa [Expected.assign] using unset
    simpa [Expected.assign, unset.1] using agrees.untouched k unset.2

theorem Agrees.assignLocal {after : Settings} {name value : String}
    (agrees : Agrees atBegin locals expected current)
    (done : current.set rules name value = .ok after) :
    Agrees atBegin (Settings.slot name :: locals) expected after := by
  refine ⟨Settings.set_extends done agrees.extended, ?_, agrees.untouched⟩
  intro k absent plainly
  have absent : k ≠ Settings.slot name ∧ k ∉ locals := by simpa using absent
  rw [Settings.set_values_of_ne done absent.1]
  exact agrees.kept k absent.2 plainly

theorem Agrees.assignUnscoped {after : Settings} {name value : String}
    (agrees : Agrees atBegin locals expected current)
    (done : current.set rules name value = .ok after) :
    Agrees atBegin locals (expected.assignUnscoped name) after := by
  refine ⟨Settings.set_extends done agrees.extended, ?_, agrees.untouched⟩
  intro k absent plainly
  have plainly : k ≠ Settings.slot name ∧ k ∉ expected.unscoped := by
    simpa [Expected.assignUnscoped] using plainly
  rw [Settings.set_values_of_ne done plainly.1]
  exact agrees.kept k absent plainly.2

theorem Agrees.withRole (agrees : Agrees atBegin locals expected current) (role : Option String) :
    Agrees atBegin locals { expected with role := role } current :=
  ⟨agrees.extended, agrees.kept, agrees.untouched⟩

theorem fromInnermost_map (name : String) (marks : List (Mark D)) :
    fromInnermost name (marks.map Mark.created) = (innermost name marks).map Mark.created := by
  unfold fromInnermost innermost
  rw [List.dropWhile_map]
  rfl

theorem mem_of_innermost {name : String} {marks : List (Mark D)} {m : Mark D}
    (member : m ∈ innermost name marks) : m ∈ marks :=
  (List.dropWhile_sublist _).mem member

theorem Tracks.innermost_cons (tracks : Tracks c b tx) {name : String} {sp : Savepoint D}
    {outer : List (Savepoint D)} (found : fromInnermost name tx.savepoints = sp :: outer) :
    ∃ m rest, innermost name b.marks = m :: rest ∧ m.created = sp ∧
      rest.map Mark.created = outer := by
  rw [tracks.savepoints, fromInnermost_map] at found
  cases split : innermost name b.marks with
  | nil =>
    rw [split] at found
    cases found
  | cons m rest =>
    rw [split, List.map_cons] at found
    cases found
    exact ⟨m, rest, rfl, rfl, rfl⟩

theorem Tracks.frame {tx' : Txn D} (tracks : Tracks c b tx) (opened : c'.session.txn = some tx')
    (active : c'.session.status ≠ .idle) (settings : tx'.settings = tx.settings)
    (savepoints : tx'.savepoints = tx.savepoints)
    (current : c'.session.rt.settings = c.session.rt.settings)
    (locals : c'.session.rt.localSettings = c.session.rt.localSettings) : Tracks c' b tx' where
  opened := opened
  active := active
  settings := settings.trans tracks.settings
  savepoints := savepoints.trans tracks.savepoints
  locals := by rw [locals]; exact tracks.locals
  agrees := by rw [current]; exact tracks.agrees
  marks := tracks.marks

theorem Tracks.failed (tracks : Tracks c b tx) : Tracks (afterError c) b tx := by
  rw [afterError_block tracks.active]
  exact tracks.frame tracks.opened (by simp [Conn.withStatus]) rfl rfl rfl rfl

theorem Tracks.nameLocal {name : String} (tracks : Tracks c b tx)
    (opened : c'.session.txn = some tx) (active : c'.session.status ≠ .idle)
    (locals : c'.session.rt.localSettings = c.session.rt.localSettings ++ [name])
    (agrees : Agrees b.atBegin (Settings.slot name :: b.locals) b.expected c'.session.rt.settings) :
    Tracks c' { b with locals := Settings.slot name :: b.locals } tx where
  opened := opened
  active := active
  settings := tracks.settings
  savepoints := tracks.savepoints
  locals := by
    intro k
    rw [locals, List.map_append, List.mem_append, List.mem_cons, tracks.locals k]
    simp [or_comm]
  agrees := agrees
  marks := fun m member =>
    (tracks.marks m member).more_locals (fun k present => List.mem_cons_of_mem _ present)

/-- The settings and what is expected of them change together. -/
theorem Tracks.expects {e : Expected} (tracks : Tracks c b tx) (opened : c'.session.txn = some tx)
    (active : c'.session.status ≠ .idle)
    (locals : c'.session.rt.localSettings = c.session.rt.localSettings)
    (agrees : Agrees b.atBegin b.locals e c'.session.rt.settings) :
    Tracks c' { b with expected := e } tx where
  opened := opened
  active := active
  settings := tracks.settings
  savepoints := tracks.savepoints
  locals := by rw [locals]; exact tracks.locals
  agrees := agrees
  marks := tracks.marks

theorem locked_frame {tx' : Txn D} {g : Global D} {writes : Bool}
    (locked : c.locked tx writes = (g, tx')) :
    tx'.settings = tx.settings ∧ tx'.savepoints = tx.savepoints := by
  cases writes with
  | true =>
    cases locked
    exact ⟨rfl, rfl⟩
  | false =>
    cases locked
    exact ⟨rfl, rfl⟩

theorem observe_error {stmt : Stmt D} {e : PgError} (notEnd : stmt ≠ .commit ∧ stmt ≠ .rollback)
    (notLocal : c.session.status = .inTransaction → ∀ name value, stmt ≠ .set true name value) :
    observe c c' stmt (.error e) (some b) = some b := by
  cases stmt with
  | commit => exact (notEnd.1 rfl).elim
  | rollback => exact (notEnd.2 rfl).elim
  | set isLocal name value =>
    cases isLocal with
    | true =>
      simp only [observe, ite_eq_right_iff]
      intro inBlock
      exact (notLocal inBlock name value rfl).elim
    | false => rfl
  | setTimeZone isLocal value => cases isLocal <;> rfl
  | setRole isLocal name roles => cases isLocal <;> rfl
  | _ => rfl

theorem Follows.coherent (follows : Follows c block) : c.session.Coherent := by
  intro active
  cases block with
  | none => exact (active follows.1).elim
  | some b =>
    obtain ⟨tx, tracks⟩ := follows
    simp [tracks.opened]

theorem Tracks.rolledBack (tracks : Tracks c b tx) (inPlace : c.session.rt.role = b.roleAtBegin) :
    ((rollback c).withStatus .idle).session.rt.settings = b.atBegin ∧
      ((rollback c).withStatus .idle).session.rt.role = b.roleAtBegin := by
  simp [rollback, Conn.withStatus, tracks.opened, tracks.settings, inPlace]

theorem Tracks.committed (tracks : Tracks c b tx)
    (apart : ∀ k, k ∈ b.locals → k ∉ b.expected.plain) (plainly : b.expected.unscoped = [])
    (k : String) :
    (restoreLocals c.session.rt.localSettings c.session.rt.settings tx.settings).values k =
      b.expected.kept k := by
  rw [tracks.settings,
    restoreLocals_values _ _ _ tracks.agrees.extended k]
  by_cases isLocal : k ∈ c.session.rt.localSettings.map Settings.slot
  · have noted := (tracks.locals k).mpr isLocal
    rw [if_pos isLocal, tracks.agrees.untouched k (apart k noted)]
  · have unnoted : k ∉ b.locals := fun noted => isLocal ((tracks.locals k).mp noted)
    rw [if_neg isLocal]
    exact tracks.agrees.kept k unnoted (by simp [plainly])

variable [Database D] {rules : SettingRules} {c c' : Conn D} {stmt : Stmt D}
  {result : PgResult StmtResult}

theorem Follows.step_outside (follows : Follows c none) (effect : Effect rules c stmt c' result) :
    Follows c' (observe c c' stmt result none) := by
  obtain ⟨idle, none'⟩ := follows
  have notFailed : c.session.status ≠ .failed := by simp [idle]
  have notBlock : c.session.status ≠ .inTransaction := by simp [idle]
  have outside : stmt ≠ .startTransaction → c'.session.status = .idle → c'.session.txn = none →
      Follows c' (observe c c' stmt result none) := by
    intro other idle' none''
    cases stmt with
    | startTransaction => exact (other rfl).elim
    | _ => exact ⟨idle', none''⟩
  cases effect with
  | refused failed gated => exact (notFailed failed).elim
  | warned quiet =>
    apply outside _ idle none'
    intro isBegin
    subst isBegin
    exact notBlock quiet
  | began _ =>
    refine ⟨{ state := c.global.db, settings := c.session.rt.settings }, ?_⟩
    exact { opened := rfl
            active := by simp [Conn.withStatus]
            settings := rfl
            savepoints := rfl
            locals := by intro k; simp [Conn.withStatus, begin]
            agrees := ⟨fun k had => had, fun k _ _ => rfl, fun k _ => rfl⟩
            marks := by intro m member; cases member }
  | committed open' _ _ _ => simp [none'] at open'
  | violated open' _ => simp [none'] at open'
  | abandoned open' _ => simp [none'] at open'
  | wentBack open' _ => simp [none'] at open'
  | marked open' _ => simp [none'] at open'
  | released open' _ _ => simp [none'] at open'
  | misnamed kind =>
    rw [afterError_idle idle none'] at outside ⊢
    apply outside _ idle none'
    intro isBegin
    simp [isBegin] at kind
  | assigned _ _ _ => exact outside (by simp) idle none'
  | @unassigned isLocal name _ _ _ _ =>
    have noted : afterError (c.noteLocal isLocal name) = c.noteLocal isLocal name :=
      afterError_idle idle none'
    rw [noted] at outside ⊢
    exact outside (by simp) idle none'
  | zoned _ _ => exact outside (by simp) idle none'
  | roled _ _ => exact outside (by simp) idle none'
  | @unroled _ _ role _ _ _ =>
    have noted : afterError (c.withRole role) = c.withRole role := afterError_idle idle none'
    rw [noted] at outside ⊢
    exact outside (by simp) idle none'
  | deferred block => exact (notBlock block).elim
  | undeferred block => exact (notBlock block).elim
  | busy _ _ _ => simp [none', observe, Follows, rollback, idle]
  | ranInTxn open' _ _ _ _ => simp [none'] at open'
  | failedInTxn open' _ _ _ => simp [none'] at open'
  | ranAlone _ _ _ _ _ => exact outside (by simp) idle rfl
  | failedAlone _ _ => exact outside (by simp) idle rfl

theorem Follows.step_inside (follows : Follows c (some b))
    (effect : Effect rules c stmt c' result) : Follows c' (observe c c' stmt result (some b)) := by
  obtain ⟨tx, tracks⟩ := follows
  have active := tracks.active
  cases effect with
  | refused failed gated =>
    rw [observe_error]
    · exact ⟨tx, tracks⟩
    · constructor <;> rintro rfl <;> cases gated
    · simp [failed]
  | warned quiet =>
    cases stmt with
    | startTransaction => exact ⟨tx, tracks⟩
    | commit => exact (active quiet.1).elim
    | rollback => exact (active quiet.1).elim
    | set isLocal name value => exact (active quiet.2).elim
    | setConstraints names mode => exact (active quiet).elim
    | _ => exact quiet.elim
  | began idle => exact (active idle).elim
  | committed _ _ _ _ => exact ⟨rfl, rfl⟩
  | violated _ _ => exact ⟨rfl, rfl⟩
  | abandoned _ ends =>
    rcases ends with rfl | ⟨rfl, _⟩
    · exact ⟨rfl, rfl⟩
    · exact ⟨rfl, rfl⟩
  | @wentBack name tx₀ sp outer open' found =>
    obtain rfl : tx₀ = tx := Option.some.inj (open'.symm.trans tracks.opened)
    obtain ⟨m, rest, split, created, restCreated⟩ := tracks.innermost_cons found
    have kept : ∀ m', m' ∈ m :: rest → m' ∈ b.marks := by
      intro m' member
      rw [← split] at member
      exact mem_of_innermost member
    simp only [observe, split]
    refine ⟨{ tx₀ with state := sp.state, savepoints := sp :: outer }, ?_⟩
    exact { opened := rfl
            active := by simp
            settings := tracks.settings
            savepoints := by simp [created, restCreated]
            locals := tracks.locals
            agrees := by
              simpa [created] using tracks.marks m (kept m List.mem_cons_self)
            marks := fun m' member => tracks.marks m' (kept m' member) }
  | @marked name tx₀ open' sound =>
    obtain rfl : tx₀ = tx := Option.some.inj (open'.symm.trans tracks.opened)
    simp only [observe, tracks.opened]
    refine ⟨{ tx₀ with savepoints := c.savepointNow name tx₀ :: tx₀.savepoints }, ?_⟩
    exact { opened := rfl
            active := active
            settings := tracks.settings
            savepoints := by simp [tracks.savepoints, Conn.savepointNow]
            locals := tracks.locals
            agrees := tracks.agrees
            marks := by
              intro m member
              rcases List.mem_cons.mp member with same | old
              · subst same
                exact tracks.agrees
              · exact tracks.marks m old }
  | @released name tx₀ sp outer open' sound found =>
    obtain rfl : tx₀ = tx := Option.some.inj (open'.symm.trans tracks.opened)
    obtain ⟨m, rest, split, created, restCreated⟩ := tracks.innermost_cons found
    simp only [observe, split, List.tail_cons]
    refine ⟨{ tx₀ with savepoints := outer }, ?_⟩
    exact { opened := rfl
            active := active
            settings := tracks.settings
            savepoints := restCreated.symm
            locals := tracks.locals
            agrees := tracks.agrees
            marks := by
              intro m' member
              apply tracks.marks m'
              apply @mem_of_innermost D name
              rw [split]
              exact List.mem_cons_of_mem m member }
  | misnamed kind =>
    rw [observe_error]
    · exact ⟨tx, tracks.failed⟩
    · constructor <;> rintro rfl <;> simp at kind
    · rintro _ name value rfl
      simp at kind
  | @assigned isLocal name value settings sound inBlock done =>
    cases isLocal with
    | true =>
      simp only [observe, inBlock rfl, if_true]
      exact ⟨tx, tracks.nameLocal tracks.opened active rfl (tracks.agrees.assignLocal done)⟩
    | false =>
      exact ⟨tx, tracks.expects tracks.opened active rfl (tracks.agrees.assign done)⟩
  | @unassigned isLocal name value e sound inBlock =>
    cases isLocal with
    | true =>
      simp only [observe, inBlock rfl, if_true]
      refine ⟨tx, Tracks.failed ?_⟩
      exact tracks.nameLocal tracks.opened active rfl
        (tracks.agrees.more_locals (fun k present => List.mem_cons_of_mem _ present))
    | false =>
      refine ⟨tx, Tracks.failed ?_⟩
      exact tracks.frame tracks.opened active rfl rfl rfl rfl
  | @zoned isLocal value v settings sound done =>
    cases isLocal with
    | true =>
      exact ⟨tx, tracks.expects tracks.opened active rfl (tracks.agrees.assignUnscoped done)⟩
    | false =>
      exact ⟨tx, tracks.expects tracks.opened active rfl (tracks.agrees.assign done)⟩
  | @roled isLocal name role roles v settings sound done =>
    cases isLocal with
    | true =>
      exact ⟨tx, tracks.expects tracks.opened active rfl (tracks.agrees.assignUnscoped done)⟩
    | false =>
      exact ⟨tx, tracks.expects tracks.opened active rfl ((tracks.agrees.assign done).withRole role)⟩
  | @unroled isLocal name role roles e sound =>
    rw [observe_error]
    · refine ⟨tx, Tracks.failed ?_⟩
      exact tracks.frame tracks.opened active rfl rfl rfl rfl
    · simp
    · simp
  | deferred block => exact ⟨tx, tracks.frame tracks.opened active rfl rfl rfl rfl⟩
  | undeferred block =>
    refine ⟨tx, Tracks.failed ?_⟩
    exact tracks.frame tracks.opened active rfl rfl rfl rfl
  | busy _ _ _ =>
    simp only [tracks.opened, Option.isNone_some, Bool.false_eq_true, if_false]
    exact ⟨tx, tracks.failed⟩
  | ranInTxn open' _ _ locked _ =>
    obtain rfl := Option.some.inj (open'.symm.trans tracks.opened)
    obtain ⟨settings, savepoints⟩ := locked_frame locked
    exact ⟨_, tracks.frame rfl active settings savepoints rfl rfl⟩
  | @failedInTxn _ _ tx' _ d _ open' _ _ locked =>
    obtain rfl := Option.some.inj (open'.symm.trans tracks.opened)
    obtain ⟨settings, savepoints⟩ := locked_frame locked
    refine ⟨{ tx' with state := d }, Tracks.failed ?_⟩
    exact tracks.frame rfl active settings savepoints rfl rfl
  | ranAlone idle _ _ _ _ => exact (active idle).elim
  | failedAlone idle _ => exact (active idle).elim

theorem Follows.step {block : Option (Block D)} (follows : Follows c block)
    (effect : Effect rules c stmt c' result) : Follows c' (observe c c' stmt result block) := by
  cases block with
  | none => exact follows.step_outside effect
  | some b => exact follows.step_inside effect

theorem Follows.lawful (follows : Follows c block) (effect : Effect rules c stmt c' result)
    (restorable : Restorable c block stmt) : Lawful block stmt result c' := by
  rintro b rfl
  obtain ⟨apart, inPlace⟩ := restorable
  obtain ⟨tx, tracks⟩ := follows
  cases stmt with
  | rollbackTo name =>
    intro m outer split
    cases effect with
    | refused failed gated => cases gated
    | warned quiet => exact quiet.elim
    | abandoned _ ends => rcases ends with ends | ⟨ends, _⟩ <;> cases ends
    | @wentBack _ tx₀ sp rest open' found =>
      obtain rfl : tx₀ = tx := Option.some.inj (open'.symm.trans tracks.opened)
      obtain ⟨m', rest', split', created, restCreated⟩ := tracks.innermost_cons found
      rw [split] at split'
      cases split'
      refine ⟨⟨_, rfl⟩, _, rfl, ?_⟩
      simp [created, restCreated, inPlace b rfl m outer split]
    | misnamed kind =>
      exfalso
      simp only [Stmt.rollbackTo.injEq, reduceCtorEq, false_and, exists_false, or_false] at kind
      obtain ⟨name', rfl, missing⟩ := kind
      have none := missing tx tracks.opened
      rw [tracks.savepoints, fromInnermost_map, split] at none
      cases none
  | rollback =>
    cases effect with
    | refused failed gated => cases gated
    | warned quiet => exact (tracks.active quiet.1).elim
    | abandoned _ _ => exact tracks.rolledBack (inPlace b rfl)
    | misnamed kind => simp at kind
  | commit =>
    obtain ⟨disjoint, plainly⟩ := apart rfl b rfl
    obtain ⟨committing, failing⟩ := inPlace b rfl
    cases effect with
    | refused failed gated => cases gated
    | warned quiet => exact (tracks.active quiet.1).elim
    | committed open' sound passed restored =>
      obtain rfl := Option.some.inj (open'.symm.trans tracks.opened)
      simp only [if_true]
      constructor
      · intro k
        rw [restored]
        exact tracks.committed disjoint plainly k
      · apply committing
        refine ⟨sound, fun tx₀ open₀ wrote => ?_⟩
        obtain rfl := Option.some.inj (open₀.symm.trans open')
        exact passed wrote
    | violated open' _ fails =>
      rw [if_neg (by simp)]
      exact tracks.rolledBack (failing (fun commits => fails (commits.2 _ open')))
    | abandoned _ ends =>
      rw [if_neg (by simp)]
      rcases ends with isRollback | ⟨_, failed⟩
      · cases isRollback
      · exact tracks.rolledBack (failing (fun commits => commits.1 failed))
    | misnamed kind => simp at kind
  | _ => trivial

/-- A session's run, with the client's notes: its statements, and in between
whatever other sessions do to the committed database and the lock. -/
inductive Session.Run (rules : SettingRules)
    (allowed : Conn D → Option (Block D) → Stmt D → Prop) :
    Conn D → Option (Block D) → Prop where
  | start {c : Conn D} (idle : c.session.status = .idle) (none' : c.session.txn = none) :
      Session.Run rules allowed c none
  | others {c : Conn D} {block : Option (Block D)} (global : Global D)
      (before : Session.Run rules allowed c block) :
      Session.Run rules allowed { c with global := global } block
  | statement {c : Conn D} {block : Option (Block D)} (stmt : Stmt D)
      (before : Session.Run rules allowed c block) (admitted : allowed c block stmt) :
      Session.Run rules allowed (execute rules stmt c).1
        (observe c (execute rules stmt c).1 stmt (execute rules stmt c).2 block)

theorem Session.Run.follows {allowed : Conn D → Option (Block D) → Stmt D → Prop}
    (run : Session.Run rules allowed c block) : Follows c block := by
  induction run with
  | start idle none' => exact ⟨idle, none'⟩
  | @others c block global before ih =>
    cases block with
    | none => exact ih
    | some b =>
      obtain ⟨tx, tracks⟩ := ih
      exact ⟨tx, tracks.frame tracks.opened tracks.active rfl rfl rfl rfl⟩
  | statement stmt before admitted ih => exact ih.step (execute_effect rules stmt ih.coherent)

/-- In every run whose COMMITs find no setting set both LOCAL and plainly, and which has its role in
place, ROLLBACK TO, ROLLBACK and COMMIT leave the settings that they should. -/
theorem run_lawful (rules : SettingRules) (c : Conn D) (block : Option (Block D)) (stmt : Stmt D)
    (run : Session.Run rules Restorable c block) (restorable : Restorable c block stmt) :
    Lawful block stmt (execute rules stmt c).2 (execute rules stmt c).1 :=
  run.follows.lawful (execute_effect rules stmt run.follows.coherent) restorable

def advance (rules : SettingRules) (at' : Conn D × Option (Block D)) (stmt : Stmt D) :
    Conn D × Option (Block D) :=
  ((execute rules stmt at'.1).1,
    observe at'.1 (execute rules stmt at'.1).1 stmt (execute rules stmt at'.1).2 at'.2)

theorem Session.Run.advance_all {allowed : Conn D → Option (Block D) → Stmt D → Prop}
    (stmts : List (Stmt D)) {at' : Conn D × Option (Block D)}
    (run : Session.Run rules allowed at'.1 at'.2)
    (admitted : ∀ stmt, stmt ∈ stmts → ∀ c block, allowed c block stmt) :
    Session.Run rules allowed (stmts.foldl (advance rules) at').1
      (stmts.foldl (advance rules) at').2 := by
  induction stmts generalizing at' with
  | nil => exact run
  | cons stmt rest ih =>
    apply ih
    · exact Session.Run.statement stmt run (admitted stmt List.mem_cons_self at'.1 at'.2)
    · intro other member
      exact admitted other (List.mem_cons_of_mem stmt member)

def textSession : Conn (DbState Scalar) where
  global := { db := { schemas := [(2200, "public")], tables := [], rows := fun _ => [] } }
  session :=
    { id := 1
      rt := { settings := { values := fun k => if k = "application_name" then some "psql" else none } } }

/-- `BEGIN; SET LOCAL application_name = 'one'; SET application_name = 'two'`. -/
def setBothWays : Conn (DbState Scalar) × Option (Block (DbState Scalar)) :=
  [.startTransaction, .set true "application_name" "one", .set false "application_name" "two"].foldl
    (advance textRules) (textSession, none)

/-- COMMIT then takes `application_name` back to `psql`, though it was plainly set to `two`. -/
theorem run_unlawful_setBothWays :
    ¬ ∀ (rules : SettingRules) (c : Conn (DbState Scalar)) (block : Option (Block (DbState Scalar)))
      (stmt : Stmt (DbState Scalar)), Session.Run rules (fun _ _ _ => True) c block →
        Lawful block stmt (execute rules stmt c).2 (execute rules stmt c).1 := by
  intro claimed
  have run : Session.Run textRules (fun _ _ _ => True) setBothWays.1 setBothWays.2 :=
    Session.Run.advance_all _ (Session.Run.start rfl rfl) (fun _ _ _ _ => trivial)
  have isBlock : setBothWays.2.isSome = true := by decide +kernel
  obtain ⟨b, noted⟩ := Option.isSome_iff_exists.mp isBlock
  have lawful := claimed textRules setBothWays.1 setBothWays.2 .commit run b noted
  have acknowledged : (execute textRules .commit setBothWays.1).2 = .ok { tag := "COMMIT" } := by
    decide +kernel
  have left : (execute textRules .commit setBothWays.1).1.session.rt.settings.values "application_name" =
      some "psql" := by decide +kernel
  have expected : setBothWays.2.map (fun b => b.expected.kept "application_name") = some (some "two") := by
    decide +kernel
  simp only [acknowledged, if_true] at lawful
  rw [noted, Option.map_some, Option.some.injEq] at expected
  have kept := lawful.1 "application_name"
  rw [left, expected] at kept
  exact absurd kept (by decide)

/-- `BEGIN; SET ROLE admin; SET application_name = 'two'; SAVEPOINT s; SET LOCAL search_path = 'x';
SET application_name = 'three'`. -/
def setInSavepoint : Conn (DbState Scalar) × Option (Block (DbState Scalar)) :=
  [.startTransaction, .setRole false (some "admin") ["admin"], .set false "application_name" "two",
    .savepoint "s", .set true "search_path" "x", .set false "application_name" "three"].foldl
      (advance textRules) (textSession, none)

def setApart : Conn (DbState Scalar) × Option (Block (DbState Scalar)) :=
  advance textRules setInSavepoint (.rollbackTo "s")

theorem setApart_run : Session.Run textRules Restorable setApart.1 setApart.2 := by
  have before : Session.Run textRules Restorable setInSavepoint.1 setInSavepoint.2 := by
    apply Session.Run.advance_all _ (Session.Run.start rfl rfl)
    intro stmt member c block
    constructor
    · intro isCommit
      simp [isCommit] at member
    · intro b _
      simp only [List.mem_cons, List.not_mem_nil, or_false] at member
      rcases member with rfl | rfl | rfl | rfl | rfl | rfl <;> trivial
  refine Session.Run.statement _ before ⟨fun isCommit => (by cases isCommit), ?_⟩
  intro b noted m outer split
  have role : setInSavepoint.1.session.rt.role = some "admin" := by decide +kernel
  have marked : setInSavepoint.2.map (fun b => b.marks.map Mark.role) = some [some "admin"] := by
    decide +kernel
  rw [noted, Option.map_some, Option.some.injEq] at marked
  have among : m ∈ b.marks := by
    apply @mem_of_innermost _ "s"
    rw [split]
    exact List.mem_cons_self
  have isRole : m.role ∈ b.marks.map Mark.role := List.mem_map_of_mem among
  rw [marked, List.mem_singleton] at isRole
  rw [role, isRole]

theorem setApart_restorable : Restorable setApart.1 setApart.2 .commit := by
  constructor
  · intro _ b noted
    have locals : setApart.2.map Block.locals = some ["search_path"] := by decide +kernel
    have plain : setApart.2.map (fun b => b.expected.plain) =
        some ["application_name", "session_authorization"] := by decide +kernel
    have unscoped : setApart.2.map (fun b => b.expected.unscoped) = some [] := by decide +kernel
    rw [noted, Option.map_some, Option.some.injEq] at locals plain unscoped
    refine ⟨?_, unscoped⟩
    intro k isLocal
    rw [locals, List.mem_singleton] at isLocal
    rw [plain, isLocal]
    decide
  · intro b noted
    have role : setApart.2.map (fun b => b.expected.role) = some setApart.1.session.rt.role := by
      decide +kernel
    rw [noted, Option.map_some, Option.some.injEq] at role
    have commits : setApart.1.Commits := by
      refine ⟨by decide +kernel, ?_⟩
      intro tx open' wrote
      have unwritten : setApart.1.session.txn.map Txn.wrote = some false := by decide +kernel
      rw [open', Option.map_some, wrote] at unwritten
      cases unwritten
    exact ⟨fun _ => role.symm, fun fails => (fails commits).elim⟩

theorem run_lawful_setApart :
    ∃ b, setApart.2 = some b ∧ b.expected.kept "application_name" = some "two" ∧
      b.expected.role = some "admin" ∧
      (execute textRules .commit setApart.1).2 = .ok { tag := "COMMIT" } ∧
      Lawful setApart.2 .commit (execute textRules .commit setApart.1).2
        (execute textRules .commit setApart.1).1 := by
  have isBlock : setApart.2.isSome = true := by decide +kernel
  obtain ⟨b, noted⟩ := Option.isSome_iff_exists.mp isBlock
  have expected : setApart.2.map (fun b => (b.expected.kept "application_name", b.expected.role)) =
      some (some "two", some "admin") := by
    decide +kernel
  rw [noted, Option.map_some, Option.some.injEq, Prod.mk.injEq] at expected
  refine ⟨b, noted, expected.1, expected.2, by decide +kernel, ?_⟩
  exact run_lawful textRules setApart.1 setApart.2 .commit setApart_run setApart_restorable

end NoidaDb.Postgres
