/-
The engines of all connections over the shared database.

A plan is attempted again and again as long as it must wait for a row that another transaction
holds.  An attempt, a commit or a rollback is one step.
-/

import NoidaDb.Lib.WaitGraphs
import NoidaDb.MySql.LockWaits

namespace NoidaDb.MySql

open MyValue Lib

section Plans

variable {V : Type} [DecidableEq V] [MyValue V]

/-- An INSERT, UPDATE or DELETE, and what of it is known when it is attempted. -/
inductive Writing (V : Type) where
  | insert (s : Session V) (key : Key) (columns : List String) (rows : List (Values V))
      (mode : InsertMode V)
  | update (s : Session V) (key : Key) (assignments : List (Assignment V)) (choice : Choice V)
  | delete (s : Session V) (key : Key) (choice : Choice V)
  | multiUpdate (s : Session V) (updates : MyResult (List (Key × List (Nat × List (Assignment V)))))
  | multiDelete (s : Session V) (ids : MyResult (List (Key × List Nat)))

namespace Writing

def program : Writing V → Exec V (Outcome V)
  | .insert s key columns rows mode => MySql.insert s key columns rows mode
  | .update s key assignments choice => MySql.update s key assignments choice
  | .delete s key choice => MySql.delete s key choice
  | .multiUpdate s updates => MySql.multiUpdate s updates
  | .multiDelete s ids => MySql.multiDelete s ids

def session : Writing V → Session V
  | .insert s _ _ _ _ => s
  | .update s _ _ _ => s
  | .delete s _ _ => s
  | .multiUpdate s _ => s
  | .multiDelete s _ => s

def Quiet : Writing V → Prop
  | .insert s _ _ rows mode => s.Quiet ∧ (∀ row ∈ rows, ValuesQuiet row) ∧ mode.Quiet
  | .update s _ assignments choice => s.Quiet ∧ AssignmentsQuiet assignments ∧ choice.Quiet
  | .delete s _ choice => s.Quiet ∧ choice.Quiet
  | .multiUpdate s updates => s.Quiet ∧ MySql.Quiet updates ∧
      ∀ targets, updates = .ok targets → ∀ x ∈ targets, ∀ u ∈ x.2, AssignmentsQuiet u.2
  | .multiDelete s ids => s.Quiet ∧ MySql.Quiet ids

theorem honest (walk : Walk (Nat × TxUndo V)) (virtual : VirtualTables V) {w : Writing V}
    (quiet : w.Quiet) : Honest walk virtual w.session.connId w.program := by
  cases w with
  | insert s key columns rows mode => exact honest_insert quiet.1 key columns quiet.2.1 quiet.2.2
  | update s key assignments choice => exact honest_update quiet.1 key quiet.2.1 quiet.2.2
  | delete s key choice => exact honest_delete s key quiet.2
  | multiUpdate s updates => exact honest_multiUpdate quiet.1 quiet.2.1 quiet.2.2
  | multiDelete s ids => exact honest_multiDelete s quiet.2

end Writing

inductive PlanKind where
  | query
  | ddl
  | write (targets : List Key)

/-- A plan that locks no rows but those it writes.  What it does may depend on the state that
it is attempted in. -/
structure Statement (V : Type) [DecidableEq V] [MyValue V] where
  kind : PlanKind
  program : Nat → DbState V → Exec V (Outcome V)
  honest : ∀ walk virtual me state, Honest walk virtual me (program me state)

def Statement.write (targets : List Key) (writing : Nat → DbState V → Writing V)
    (own : ∀ me state, (writing me state).session.connId = me)
    (quiet : ∀ me state, (writing me state).Quiet) : Statement V where
  kind := .write targets
  program := fun me state => (writing me state).program
  honest := by
    intro walk virtual me state
    have honest := Writing.honest walk virtual (quiet me state)
    rwa [own me state] at honest

/-- `SELECT ... FOR UPDATE` or `FOR SHARE`.  The rows to lock are those of a query of their
own, which skips the rows that it is told to. -/
structure LockingRead (V : Type) where
  target : Option (Key × (DbState V → List (List V) → MyResult (List (Row V))))
  exclusive : Bool
  nowait : Bool := false
  skipLocked : Bool := false
  source : DbState V → List (List V) → MyResult (List (Row V))
  quietTarget : ∀ x ∈ target, ∀ state skip, Quiet (x.2 state skip)
  quietSource : ∀ state skip, Quiet (source state skip)

inductive Plan (V : Type) [DecidableEq V] [MyValue V] where
  | statement (s : Statement V)
  | locking (read : LockingRead V)

inductive Reply (V : Type) where
  | done (outcome : Outcome V)
  | rows (rows : List (Row V))

end Plans

namespace DbState

variable {V : Type}

def dropTxn (state : DbState V) (conn : Nat) : DbState V :=
  { state with openTxns := state.openTxns.filter (fun x => x.1 != conn) }

def withTxn (state : DbState V) (conn : Nat) (undo : TxUndo V) : DbState V :=
  { state with openTxns := (conn, undo) :: (state.dropTxn conn).openTxns }

/-- `open_txns.entry(conn).or_default()`. -/
def openTxn (state : DbState V) (conn : Nat) : DbState V :=
  match state.undoOf conn with
  | some _ => state
  | none => state.withTxn conn {}

def recordImage (state : DbState V) (conn : Nat) (key : Key) : DbState V :=
  let undo := (state.undoOf conn).getD {}
  match state.get key, undo.tables.lookup key with
  | some t, none => state.withTxn conn { undo with tables := put key (t, t) undo.tables }
  | _, _ => state.withTxn conn undo

def recordWrite (state : DbState V) (conn : Nat) (key : Key) : DbState V :=
  match state.get key, state.undoOf conn with
  | some now, some undo =>
    match undo.tables.lookup key with
    | some images => state.withTxn conn { undo with tables := put key (images.1, now) undo.tables }
    | none => state
  | _, _ => state

def reachOf (state : DbState V) (targets : List Key) : List Key :=
  targets.foldl (fun keys target => (state.cascadeReach target).foldl
    (fun keys key => if keys.contains key then keys else keys ++ [key]) keys) []

def addLocks (state : DbState V) (conn : Nat) (key : Key) (exclusive : Bool)
    (rows : List (List V)) : DbState V :=
  match state.undoOf conn with
  | none => state
  | some undo => state.withTxn conn { undo with
      locks := undo.locks ++ rows.map (fun row => ⟨key, row, exclusive⟩) }

end DbState

section Attempts

variable {V : Type} [DecidableEq V] [MyValue V] (walk : Walk (Nat × TxUndo V))
  (virtual : VirtualTables V)

def nowaitError : MySqlError :=
  .error 3572 "HY000" ("Statement aborted because lock(s) could not be acquired immediately " ++
    "and NOWAIT is set.")

/-- `locked` are the rows that others hold. -/
def LockingRead.attemptUnder (read : LockingRead V) (me : Nat)
    (locked : Key → List (Nat × List V × Bool)) (state : DbState V) :
    MyResult (List (Row V)) × DbState V :=
  match read.target with
  | none => (read.source state [], state)
  | some (key, keyPlan) =>
    match state.loadTable virtual key with
    | .error e => (.error e, state)
    | .ok t =>
      -- Shared locks only conflict with exclusive ones.
      let held := (locked key).filter (fun l => read.exclusive || l.2.2)
      let skip := if read.skipLocked then held.map (fun l => l.2.1) else []
      match keyPlan state skip with
      | .error e => (.error e, state)
      | .ok rows =>
        let keys := rows.map (rowKey t)
        let blocked := held.filter (fun l => keys.contains l.2.1)
        match blocked.head?, read.nowait, read.skipLocked with
        | some _, true, _ => (.error nowaitError, state)
        | some l, false, false => (.error (.lockWait l.1), state)
        | _, _, _ =>
          let taken := keys.filter (fun k => !(blocked.map (fun l => l.2.1)).contains k)
          let state := state.addLocks me key read.exclusive taken
          (read.source state skip, state)

def LockingRead.attempt (read : LockingRead V) (me : Nat) (state : DbState V) :
    MyResult (List (Row V)) × DbState V :=
  read.attemptUnder virtual me (state.lockedRows walk me) state

def Plan.attempt (me : Nat) : Plan V → DbState V → MyResult (Reply V) × DbState V
  | .statement s, state =>
    let r := ((s.program me state).run).run (DbState.serve walk virtual) state
    (r.1.map Reply.done, r.2)
  | .locking read, state =>
    let r := read.attempt walk virtual me state
    (r.1.map Reply.rows, r.2)

/-- The attempt as it would go if, of all rows that others hold, only those of `holder` were
held. -/
def Plan.attemptAlone (holder me : Nat) : Plan V → DbState V → MyResult (Reply V) × DbState V
  | .statement s, state =>
    let r := ((s.program me state).run).run (DbState.serveAlone walk virtual holder) state
    (r.1.map Reply.done, r.2)
  | .locking read, state =>
    let r := read.attemptUnder virtual me
      (fun key => (state.lockedRows walk me key).filter (fun l => l.1 == holder)) state
    (r.1.map Reply.rows, r.2)

variable {walk} {virtual}

theorem LockingRead.attempt_honest (read : LockingRead V) {me : Nat} {state : DbState V}
    {holder : Nat}
    (isWait : (read.attempt walk virtual me state).1 = .error (.lockWait holder)) :
    HoldsRow walk state me holder := by
  unfold LockingRead.attempt LockingRead.attemptUnder at isWait
  split at isWait
  · exact (read.quietSource _ _ holder isWait).elim
  · rename_i key keyPlan isTarget
    split at isWait
    · rename_i e failed
      cases isWait
      exact (quiet_loadTable state key holder failed).elim
    · simp only at isWait
      split at isWait
      · rename_i e failed
        cases isWait
        exact (read.quietTarget _ isTarget _ _ holder failed).elim
      · split at isWait
        · cases isWait
        · rename_i l isFirst _ _
          cases isWait
          have inBlocked := List.mem_of_mem_head? isFirst
          have inHeld := (List.mem_filter.mp inBlocked).1
          exact ⟨key, l.2.1, l.2.2, (List.mem_filter.mp inHeld).1⟩
        · exact (read.quietSource _ _ holder isWait).elim

theorem Plan.attempt_honest {plan : Plan V} {me : Nat} {state : DbState V} {holder : Nat}
    (isWait : (plan.attempt walk virtual me state).1 = .error (.lockWait holder)) :
    HoldsRow walk state me holder := by
  cases plan with
  | statement s =>
    cases isRun : (((s.program me state).run).run (DbState.serve walk virtual) state).1 with
    | ok outcome => simp [Plan.attempt, isRun, Except.map] at isWait
    | error e =>
      simp only [Plan.attempt, isRun, Except.map, Except.error.injEq] at isWait
      subst isWait
      exact (s.honest walk virtual me state).holds state holder isRun
  | locking read =>
    cases isRun : (read.attempt walk virtual me state).1 with
    | ok rows => simp [Plan.attempt, isRun, Except.map] at isWait
    | error e =>
      simp only [Plan.attempt, isRun, Except.map, Except.error.injEq] at isWait
      subst isWait
      exact read.attempt_honest isRun

/-- The rows that a locking read wants and others hold. -/
def LockingRead.conflicts (virtual : VirtualTables V) (read : LockingRead V)
    (locked : Key → List (Nat × List V × Bool)) (state : DbState V) :
    List (Nat × List V × Bool) :=
  match read.target with
  | none => []
  | some (key, keyPlan) =>
    match state.loadTable virtual key, keyPlan state [] with
    | .ok t, .ok rows =>
      ((locked key).filter (fun l => read.exclusive || l.2.2)).filter
        (fun l => (rows.map (rowKey t)).contains l.2.1)
    | _, _ => []

theorem LockingRead.attemptUnder_waits (read : LockingRead V) {me : Nat}
    {locked : Key → List (Nat × List V × Bool)} {state : DbState V} {holder : Nat} :
    (read.attemptUnder virtual me locked state).1 = .error (.lockWait holder) ↔
      read.nowait = false ∧ read.skipLocked = false ∧
        (read.conflicts virtual locked state).head?.map Prod.fst = some holder := by
  unfold attemptUnder conflicts
  cases isTarget : read.target with
  | none =>
    have quiet := read.quietSource state [] holder
    simp [quiet]
  | some target =>
    obtain ⟨key, keyPlan⟩ := target
    have quiet := read.quietTarget _ isTarget
    simp only
    cases loaded : state.loadTable virtual key with
    | error e =>
      have notWait : e ≠ .lockWait holder := by
        intro isWait
        rw [isWait] at loaded
        exact quiet_loadTable state key holder loaded
      simp [notWait]
    | ok t =>
      simp only
      generalize (locked key).filter (fun l => read.exclusive || l.2.2) = held
      cases read.skipLocked with
      | true =>
        simp only [if_true]
        cases planned : keyPlan state (held.map (fun l => l.2.1)) with
        | error e =>
          have notWait : e ≠ .lockWait holder := by
            intro isWait
            rw [isWait] at planned
            exact quiet state _ holder planned
          simp [notWait]
        | ok rows =>
          have later := fun state => read.quietSource state (held.map (fun l => l.2.1)) holder
          simp only
          split
          · simp [nowaitError]
          · rename_i impossible
            cases impossible
          · simp [later]
      | false =>
        simp only [Bool.false_eq_true, if_false]
        cases planned : keyPlan state [] with
        | error e =>
          have notWait : e ≠ .lockWait holder := by
            intro isWait
            rw [isWait] at planned
            exact quiet state _ holder planned
          simp [notWait]
        | ok rows =>
          simp only
          generalize held.filter (fun l => (rows.map (rowKey t)).contains l.2.1) = stopped
          have later := fun state => read.quietSource state [] holder
          cases stopped with
          | nil => simp [later]
          | cons l rest =>
            cases read.nowait with
            | true => simp [nowaitError]
            | false => simp

theorem LockingRead.conflicts_alone (read : LockingRead V)
    (locked : Key → List (Nat × List V × Bool)) (state : DbState V) (holder : Nat) :
    read.conflicts virtual (fun key => (locked key).filter (fun l => l.1 == holder)) state =
      (read.conflicts virtual locked state).filter (fun l => l.1 == holder) := by
  unfold conflicts
  split
  · rfl
  · split
    · simp only [List.filter_filter]
      congr 1
      funext l
      ac_rfl
    · rfl

/-- A plan that waits for a connection waits for it whatever others hold. -/
theorem Plan.attemptAlone_of_waits {plan : Plan V} {me : Nat} {state : DbState V} {holder : Nat}
    (isWait : (plan.attempt walk virtual me state).1 = .error (.lockWait holder)) :
    (plan.attemptAlone walk virtual holder me state).1 = .error (.lockWait holder) := by
  cases plan with
  | statement s =>
    have same := (s.honest walk virtual me state).alone state holder (by
      intro other isOther
      simp only [attempt, isOther, Except.map, Except.error.injEq] at isWait
      cases isWait
      rfl)
    simp only [attemptAlone, same]
    exact isWait
  | locking read =>
    cases isRun : (read.attempt walk virtual me state).1 with
    | ok rows => simp [attempt, isRun, Except.map] at isWait
    | error e =>
      simp only [attempt, isRun, Except.map, Except.error.injEq] at isWait
      subst isWait
      obtain ⟨waits, keeps, isFirst⟩ := read.attemptUnder_waits.mp isRun
      have alone : (read.attemptUnder virtual me (fun key =>
          (state.lockedRows walk me key).filter (fun l => l.1 == holder)) state).1 =
            .error (.lockWait holder) := by
        rw [read.attemptUnder_waits]
        refine ⟨waits, keeps, ?_⟩
        obtain ⟨l, isHead, isHolder⟩ := Option.map_eq_some_iff.mp isFirst
        obtain ⟨rest, isConflicts⟩ := List.head?_eq_some_iff.mp isHead
        rw [read.conflicts_alone, isConflicts]
        simp [isHolder]
      simp [attemptAlone, alone, Except.map]

theorem Plan.waits_of_alone {plan : Plan V} {me : Nat} {state : DbState V} {holder : Nat}
    (isAlone : (plan.attemptAlone walk virtual holder me state).1 = .error (.lockWait holder)) :
    ∃ reported, (plan.attempt walk virtual me state).1 = .error (.lockWait reported) := by
  by_contra waitsNot
  cases plan with
  | statement s =>
    have same := (s.honest walk virtual me state).alone state holder (by
      intro other isOther
      apply (waitsNot ⟨other, _⟩).elim
      simp [attempt, isOther, Except.map])
    simp only [attemptAlone, same] at isAlone
    exact waitsNot ⟨holder, isAlone⟩
  | locking read =>
    cases isRun : (read.attemptUnder virtual me (fun key =>
        (state.lockedRows walk me key).filter (fun l => l.1 == holder)) state).1 with
    | ok rows => simp [attemptAlone, isRun, Except.map] at isAlone
    | error e =>
      simp only [attemptAlone, isRun, Except.map, Except.error.injEq] at isAlone
      subst isAlone
      obtain ⟨waits, keeps, isFirst⟩ := read.attemptUnder_waits.mp isRun
      obtain ⟨l, isHead, _⟩ := Option.map_eq_some_iff.mp isFirst
      rw [read.conflicts_alone] at isHead
      have isConflict := List.mem_of_mem_filter (List.mem_of_mem_head? isHead)
      obtain ⟨first, isReported⟩ := List.isSome_head?.mpr (List.ne_nil_of_mem isConflict)
        |> Option.isSome_iff_exists.mp
      have reported : (read.attempt walk virtual me state).1 = .error (.lockWait first.1) :=
        read.attemptUnder_waits.mpr ⟨waits, keeps, by rw [isReported]; rfl⟩
      exact waitsNot ⟨first.1, by simp [attempt, reported, Except.map]⟩

end Attempts

section Engines

variable {V : Type} [DecidableEq V] [MyValue V]

abbrev TableImages (V : Type) := List (Key × Shared V)

structure Engine (V : Type) [DecidableEq V] [MyValue V] where
  inTx : Bool := false
  autocommit : Bool := true
  /-- Oldest first. -/
  savepoints : List (String × TableImages V) := []
  /-- The plan being run, with the tables that it can write. -/
  running : Option (Plan V × List Key) := none

structure Engines (V : Type) [DecidableEq V] [MyValue V] where
  db : DbState V
  waits : FiniteMap Nat Nat := .empty
  engine : Nat → Engine V := fun _ => {}

def deadlockError : MySqlError :=
  .error 1213 "40001" "Deadlock found when trying to get lock; try restarting transaction"

def lockWaitTimeoutError : MySqlError :=
  .error 1205 "HY000" "Lock wait timeout exceeded; try restarting transaction"

/-- What a step is answered with; a plan that goes on waiting is not answered. -/
inductive Answer (V : Type) where
  | nothing
  | done (reply : Reply V)
  | failed (e : MySqlError)
  | deadlock
  | timeout

def Answer.error {V : Type} : Answer V → Option MySqlError
  | .nothing => none
  | .done _ => none
  | .failed e => some e
  | .deadlock => some deadlockError
  | .timeout => some lockWaitTimeoutError

inductive Event (V : Type) [DecidableEq V] [MyValue V] where
  | start (conn : Nat)
  | commit (conn : Nat)
  | rollback (conn : Nat)
  | savepoint (conn : Nat) (name : String)
  | rollbackTo (conn : Nat) (name : String)
  | release (conn : Nat) (name : String)
  | setAutocommit (conn : Nat) (on : Bool)
  | disconnect (conn : Nat)
  | run (conn : Nat) (plan : Plan V)
  /-- One attempt at the plan that the connection runs, with whether its time is up. -/
  | attempt (conn : Nat) (timeIsUp : Bool)

namespace Engines

def update (s : Engines V) (conn : Nat) (change : Engine V → Engine V) : Engines V :=
  { s with engine := Function.update s.engine conn (change (s.engine conn)) }

def commit (s : Engines V) (conn : Nat) : Engines V :=
  let s := if (s.engine conn).inTx then { s with db := s.db.dropTxn conn } else s
  s.update conn (fun e => { e with inTx := false, savepoints := [] })

def rollback (s : Engines V) (conn : Nat) : Engines V :=
  let s := match s.db.undoOf conn with
    | none => s
    | some undo => { s with db := (s.db.dropTxn conn).undo undo }
  s.update conn (fun e => { e with inTx := false })

def enterTx (s : Engines V) (conn : Nat) : Engines V :=
  s.update conn (fun e => { e with inTx := e.inTx || !e.autocommit })

def savepoint (s : Engines V) (conn : Nat) (name : String) : Engines V :=
  let s := s.enterTx conn
  if (s.engine conn).inTx then
    let written := ((s.db.undoOf conn).map TxUndo.tables).getD []
    let images := written.filterMap (fun x => (s.db.get x.1).map (fun now => (x.1, now)))
    s.update conn (fun e => { e with
      savepoints := e.savepoints.filter (fun p => !eqIgnoreAsciiCase p.1 name) ++ [(name, images)] })
  else s

def findSavepoint (e : Engine V) (name : String) : Option Nat :=
  (e.savepoints.reverse.findIdx? (fun p => eqIgnoreAsciiCase p.1 name)).map
    (fun i => e.savepoints.length - 1 - i)

def noSavepointError (name : String) : MySqlError :=
  .error 1305 "42000" ("SAVEPOINT " ++ name ++ " does not exist")

/-- Tables written before the savepoint go back to how they stood then; tables first written
after it, to how they were before the transaction. -/
def rollbackTo (s : Engines V) (conn : Nat) (name : String) : Answer V × Engines V :=
  match findSavepoint (s.engine conn) name with
  | none => (.failed (noSavepointError name), s)
  | some pos =>
    let images := ((s.engine conn).savepoints.getD pos ("", [])).2
    let s := s.update conn (fun e => { e with savepoints := e.savepoints.take (pos + 1) })
    match s.db.undoOf conn with
    | none => (.nothing, s)
    | some undo =>
      let since := undo.tables.map (fun x => (x.1, (images.lookup x.1).getD x.2.1, x.2.2))
      let db := s.db.undo { tables := since }
      let kept := (undo.tables.filter (fun x => (images.lookup x.1).isSome)).map (fun x =>
        (x.1, x.2.1, (db.get x.1).getD x.2.2))
      (.nothing, { s with db := db.withTxn conn { undo with tables := kept } })

def release (s : Engines V) (conn : Nat) (name : String) : Answer V × Engines V :=
  match findSavepoint (s.engine conn) name with
  | none => (.failed (noSavepointError name), s)
  | some pos =>
    (.nothing, s.update conn (fun e => { e with savepoints := e.savepoints.take pos }))

def beforePlan (s : Engines V) (conn : Nat) : Plan V → Engines V × List Key
  | .locking _ =>
    let s := s.enterTx conn
    (if (s.engine conn).inTx then { s with db := s.db.openTxn conn } else s, [])
  | .statement p =>
    match p.kind with
    | .query => (s, [])
    | .ddl => (s.commit conn, [])
    | .write targets =>
      let s := s.enterTx conn
      if (s.engine conn).inTx then
        let keys := s.db.reachOf targets
        ({ s with db := keys.foldl (fun db key => db.recordImage conn key) s.db }, keys)
      else (s, [])

def afterPlan (s : Engines V) (conn : Nat) (written : List Key) : Engines V :=
  { s with db := written.foldl (fun db key => db.recordWrite conn key) s.db }

def finish (s : Engines V) (conn : Nat) : Engines V :=
  let idle := s.update conn (fun e => { e with running := none })
  { idle with waits := s.waits.erase conn }

variable (walk : Walk (Nat × TxUndo V)) (virtual : VirtualTables V)

/-- One turn of the loop in `run_plan`. -/
def attempt (s : Engines V) (conn : Nat) (timeIsUp : Bool) : Answer V × Engines V :=
  match (s.engine conn).running with
  | none => (.nothing, s)
  | some (plan, written) =>
    let tried := plan.attempt walk virtual conn s.db
    let s := { s with db := tried.2 }
    match tried.1 with
    | .ok reply => (.done reply, (s.finish conn).afterPlan conn written)
    | .error (.error code sqlState message) =>
      (.failed (.error code sqlState message), s.finish conn)
    | .error (.lockWait holder) =>
      let s := { s with waits := s.waits.insert conn holder }
      if comesTo s.waits conn (s.waits.keys.card + 1) holder then
        (.deadlock, ((s.finish conn).rollback conn).update conn
          (fun e => { e with savepoints := [] }))
      else if timeIsUp then (.timeout, s.finish conn)
      else (.nothing, s)

/-- One step.  A connection that runs a plan does nothing else. -/
def step (s : Engines V) : Event V → Answer V × Engines V
  | .attempt conn timeIsUp => s.attempt walk virtual conn timeIsUp
  | .start conn =>
    if (s.engine conn).running.isSome then (.nothing, s)
    else (.nothing, (s.commit conn).update conn (fun e => { e with inTx := true }))
  | .commit conn => if (s.engine conn).running.isSome then (.nothing, s) else (.nothing, s.commit conn)
  | .rollback conn =>
    if (s.engine conn).running.isSome then (.nothing, s)
    else (.nothing, (s.update conn (fun e => { e with savepoints := [] })).rollback conn)
  | .savepoint conn name =>
    if (s.engine conn).running.isSome then (.nothing, s) else (.nothing, s.savepoint conn name)
  | .rollbackTo conn name =>
    if (s.engine conn).running.isSome then (.nothing, s) else s.rollbackTo conn name
  | .release conn name =>
    if (s.engine conn).running.isSome then (.nothing, s) else s.release conn name
  | .setAutocommit conn on =>
    if (s.engine conn).running.isSome then (.nothing, s)
    else
      let s := if on && !(s.engine conn).autocommit then s.commit conn else s
      (.nothing, s.update conn (fun e => { e with autocommit := on }))
  | .disconnect conn =>
    if (s.engine conn).running.isSome then (.nothing, s)
    else (.nothing, (s.rollback conn).update conn (fun _ => {}))
  | .run conn plan =>
    if (s.engine conn).running.isSome then (.nothing, s)
    else
      let prepared := s.beforePlan conn plan
      (.nothing, prepared.1.update conn (fun e => { e with running := some (plan, prepared.2) }))

def next (s : Engines V) (e : Event V) : Engines V := (s.step walk virtual e).2

def run (s : Engines V) (events : List (Event V)) : Engines V := events.foldl (next walk virtual) s

end Engines

end Engines

end NoidaDb.MySql
