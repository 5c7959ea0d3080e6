/-
INSERT, UPDATE and DELETE, and the multi-table forms.
-/

import NoidaDb.Lib.ExceptState
import NoidaDb.MySql.Executor

namespace NoidaDb.MySql

open MyValue Lib

section Statements

variable {V : Type} [DecidableEq V] [MyValue V]

structure Choice (V : Type) where
  selection : Option (Table V → Row V → MyResult V) := none
  order : List ((Table V → Row V → MyResult V) × Bool) := []
  limit : Option (MyResult Nat) := none

def selects (choice : Choice V) (t : Table V) (row : Row V) : MyResult Bool :=
  match choice.selection with
  | none => .ok true
  | some sel => do
      let v ← sel t row
      pure (!(isNull v || decide (v = ofInt 0)))

def orderLe : List Bool → List V → List V → Bool
  | asc :: rest, a :: as, b :: bs =>
    if sortLe a b && sortLe b a then orderLe rest as bs
    else if asc then sortLe a b else sortLe b a
  | _, _, _ => true

def dmlTargets (choice : Choice V) (t : Table V) : MyResult (List Nat) := do
  let limit ← match choice.limit with
    | none => pure none
    | some l => do
        let n ← l
        pure (some n)
  let matching ← t.rows.zipIdx.filterM (fun x => selects choice t x.1)
  let targets ←
    if choice.order.isEmpty then pure (matching.map Prod.snd)
    else do
      let keyed ← matching.mapM (fun x => do
        let k ← choice.order.mapM (fun e => e.1 t x.1)
        pure (k, x.2))
      pure ((keyed.mergeSort (fun a b => orderLe (choice.order.map Prod.snd) a.1 b.1)).map Prod.snd)
  match limit with
  | none => pure targets
  | some n => pure (targets.take n)

/-- The value of `SET column = DEFAULT`. -/
def defaultValue (s : Session V) (col : Column V) : V :=
  if col.defaultNow then s.now
  else
    match col.default with
    | some d => d
    | none => if col.notNull then s.addedColumnValue col else null

def assign (s : Session V) (t : Table V) (state : Row V × List Nat) (a : Assignment V) :
    MyResult (Row V × List Nat) :=
  match (resolveColumnIndex t.columns a.1).bind (fun idx => (t.columns[idx]?).map (fun c => (idx, c))) with
  | none => .error (.unknownColumn a.1)
  | some (idx, col) => do
      let v ←
        match a.2 with
        | none => pure (defaultValue s col)
        | some value => value t state.1
      if isNull v && col.notNull then throw (columnCannotBeNull col.name)
      else do
        let stored ← s.coerceToColumn v col
        pure (state.1.set idx stored, state.2 ++ [idx])

def touch (s : Session V) (columns : List (Column V)) (assigned : List Nat) (row : Row V) : Row V :=
  columns.zipIdx.foldl (fun row x =>
    if x.1.onUpdateNow && !assigned.contains x.2 then row.set x.2 s.now else row) row

/-- Row `i` after the assignments, made one at a time. -/
def applyAssignments (s : Session V) (t : Table V) (i : Nat) (assignments : List (Assignment V)) :
    MyResult (Table V) := do
  let before := t.rows.getD i []
  let (row, assigned) ← assignments.foldlM (fun state a =>
    assign s { t with rows := t.rows.set i state.1 } state a) (before, [])
  let row := if row = before then row else touch s t.columns assigned row
  let t := { t with rows := t.rows.set i row }
  if t.checks.isEmpty then pure t
  else do
    bindChecks s t
    enforceChecks s t row
    pure t

theorem applyAssignments_eq {s : Session V} {t t' : Table V} {i : Nat}
    {assignments : List (Assignment V)} (done : applyAssignments s t i assignments = .ok t') :
    ∃ row, t' = { t with rows := t.rows.set i row } := by
  unfold applyAssignments at done
  obtain ⟨⟨row, assigned⟩, _, done⟩ := bind_eq_ok done
  simp only at done
  split at done
  · cases done
    exact ⟨_, rfl⟩
  · obtain ⟨_, _, done⟩ := bind_eq_ok done
    obtain ⟨_, _, done⟩ := bind_eq_ok done
    cases done
    exact ⟨_, rfl⟩

structure Inserting (V : Type) where
  work : Table V
  replaced : List (Row V) := []
  affected : Nat := 0
  generated : List Int := []

abbrev Insert (V : Type) := ExceptT MySqlError (StateT (Inserting V) (Section V))

def Insert.ofExec {α : Type} (program : Exec V α) : Insert V α :=
  ExceptT.mk (fun state => do
    let result ← program.run
    pure (result, state))

def Insert.ofResult {α : Type} (result : MyResult α) : Insert V α :=
  ExceptT.mk (fun state => pure (result, state))

abbrev Values (V : Type) := List (Option (MyResult V))

def columnCountError (rowNo : Nat) : MySqlError :=
  .error 1136 "21S01" ("Column count doesn't match value count at row " ++ toString (rowNo + 1))

def noDefaultError (col : String) : MySqlError :=
  .error 1364 "HY000" ("Field '" ++ col ++ "' doesn't have a default value")

def givenRow (width : Nat) (colIndices : List Nat) (values : Values V) :
    MyResult (Row V × List Bool) :=
  (values.zip colIndices).foldlM (fun state x =>
    match x.1 with
    | none => pure state
    | some value => do
        let v ← value
        pure (state.1.set x.2 v, state.2.set x.2 true))
    (List.replicate width null, List.replicate width false)

/-- `id + 1` as an i64, which wraps around. -/
def nextId (id : Int) : Int :=
  if id = 9223372036854775807 then -9223372036854775808 else id + 1

def countPast (id : Int) : Insert V Unit := do
  Insert.ofExec (ExceptT.lift (Program.ask (I := dbInterface V) (DbCall.countPast id)))
  modify (fun state =>
    { state with work := { state.work with nextAutoIncrement := nextId id } })

def fillColumn (s : Session V) (provided : List Bool) (row : Row V) (x : Column V × Nat) :
    Insert V (Row V) := do
  let v := row.col x.2
  if x.1.autoIncrement && (isNull v || decide (v = ofInt 0)) then do
    let id := (← get).work.nextAutoIncrement
    countPast id
    modify (fun state => { state with generated := state.generated ++ [id] })
    pure (row.set x.2 (ofInt id))
  else if provided.getD x.2 false then
    if isNull v && x.1.notNull then throw (columnCannotBeNull x.1.name) else pure row
  else if isNull v then
    if x.1.defaultNow then pure (row.set x.2 s.now)
    else
      match x.1.default with
      | some d => pure (row.set x.2 d)
      | none =>
        if x.1.notNull then
          if s.strict then throw (noDefaultError x.1.name)
          else pure (row.set x.2 (s.addedColumnValue x.1))
        else pure row
  else pure row

def coerceColumn (s : Session V) (row : Row V) (x : Column V × Nat) : Insert V (Row V) := do
  let v ← Insert.ofResult (s.coerceToColumn (row.col x.2) x.1)
  let row := row.set x.2 v
  match (if x.1.autoIncrement then asInt v else none) with
  | none => pure row
  | some n => do
      if (← get).work.nextAutoIncrement ≤ n then countPast n
      pure row

/-- REPLACE removes rows as long as one collides with the new row.  Each removal makes the
table shorter, so `n` is its length. -/
def replaceRows (keys : List (String × List Nat)) (newRow : Row V) :
    Nat → Inserting V → Inserting V
  | 0, state => state
  | n + 1, state =>
    match findKeyConflict state.work.rows keys newRow none with
    | none => state
    | some (i, _) =>
      replaceRows keys newRow n { state with
        work := { state.work with rows := state.work.rows.eraseIdx i }
        replaced := state.replaced ++ [state.work.rows.getD i []]
        affected := state.affected + 1 }

def Inserting.push (state : Inserting V) (row : Row V) : Inserting V :=
  { state with
    work := { state.work with rows := state.work.rows ++ [row] }
    affected := state.affected + 1 }

/-- What each mode makes of a row that collides with row `i` on key `k`. -/
def resolveConflict (s : Session V) (keys : List (String × List Nat)) (mode : InsertMode V)
    (newRow : Row V) (i k : Nat) (state : Inserting V) : MyResult (Inserting V) :=
  match mode with
  | .error => .error (duplicateKeyError state.work keys k newRow)
  | .ignore => .ok state
  | .replace => .ok ((replaceRows keys newRow state.work.rows.length state).push newRow)
  | .upsert assignments => do
      let updated ← applyAssignments s state.work i (assignments newRow)
      let row := updated.rows.getD i []
      match findKeyConflict updated.rows keys row (some i) with
      | some (_, k) => throw (duplicateKeyError updated keys k row)
      | none =>
        let affected :=
          if row ≠ state.work.rows.getD i [] then 2 else if s.foundRows then 1 else 0
        pure { state with work := updated, affected := state.affected + affected }

def placeRow (s : Session V) (db : String) (keys : List (String × List Nat)) (mode : InsertMode V)
    (newRow : Row V) : Insert V Unit := do
  let state ← get
  match findKeyConflict state.work.rows keys newRow none with
  | none => set (state.push newRow)
  | some (i, k) => do
      -- A duplicate of another transaction's row waits for it.
      Insert.ofExec (waitIfLocked s db state.work [state.work.rows.getD i []])
      let placed ← Insert.ofResult (resolveConflict s keys mode newRow i k state)
      set placed

def insertRow (s : Session V) (db : String) (keys : List (String × List Nat))
    (mode : InsertMode V) (columns : List String) (colIndices : List Nat) (x : Values V × Nat) :
    Insert V Unit := do
  let state ← get
  let width := state.work.columns.length
  if !(x.1.isEmpty && columns.isEmpty) && x.1.length ≠ colIndices.length then
    throw (columnCountError x.2)
  else do
    let (row, provided) ← Insert.ofResult (givenRow width colIndices x.1)
    let row ← state.work.columns.zipIdx.foldlM (fillColumn s provided) row
    let row ← state.work.columns.zipIdx.foldlM (coerceColumn s) row
    let state ← get
    match enforceChecks s state.work row with
    | .ok () => placeRow s db keys mode row
    | .error e =>
      match mode with
      | .ignore => pure ()
      | _ => throw e

def insertColumns (t : Table V) (columns : List String) : MyResult (List Nat) :=
  if columns.isEmpty then .ok (List.range t.columns.length)
  else columns.mapM (fun c =>
    match resolveColumnIndex t.columns c with
    | some idx => .ok idx
    | none => .error (.unknownColumn c))

/-- Stores the copy of an INSERT.  REPLACE deletes rows, as far as foreign keys go, even when
the same row goes back in. -/
def storeInsert (s : Session V) (db : String) (copy : Table V) (relevant : Bool)
    (state : Inserting V) : Exec V (Pending V) :=
  if relevant then
    let diff := rowDiff copy.rows state.work.rows
    let gone := if state.replaced.isEmpty then s.walk.list diff.1 else state.replaced
    finishWrite s db copy state.work (gone.map (fun r => (r, none))) diff.2
  else do
    storeTable s db copy state.work
    pure [((db, state.work.name), copy, state.work)]

def insertBody (s : Session V) (db : String) (columns : List String) (rows : List (Values V))
    (mode : InsertMode V) (copy : Table V) (relevant : Bool) : Insert V (Outcome V) := do
  Insert.ofResult (bindChecks s copy)
  let colIndices ← Insert.ofResult (insertColumns copy columns)
  rows.zipIdx.forM (insertRow s db copy.keys mode columns colIndices)
  let state ← get
  let written ← Insert.ofExec (storeInsert s db copy relevant state)
  pure { affectedRows := state.affected
         insertId := state.generated.headD 0
         generated := state.generated.map (fun id => ((db, state.work.name), id))
         written := written }

def insert (s : Session V) (key : Key) (columns : List String) (rows : List (Values V))
    (mode : InsertMode V) : Exec V (Outcome V) := do
  let copy ← loadTable key
  let relevant ← fkRelevant s key.1 copy
  let (result, state) ← ExceptT.lift
    ((insertBody s key.1 columns rows mode copy relevant).run.run { work := copy })
  match result with
  | .ok outcome => pure outcome
  | .error e => do
      -- A failed INSERT still uses up the ids it generated, unless it only waits.
      match e with
      | .lockWait _ => throw e
      | .error _ _ _ => do
          if copy.nextAutoIncrement < state.work.nextAutoIncrement then
            ExceptT.lift (setCounter key copy state.work.nextAutoIncrement)
          throw e

structure Updating (V : Type) where
  work : Table V
  changed : Nat := 0
  changes : List (Change V) := []
  toCheck : List (Row V) := []

def keysChanged (t : Table V) (before after : Row V) : Bool :=
  t.primaryColumns.any (fun c => decide (before.col c ≠ after.col c)) ||
    t.foreignKeys.any (fun f => decide (fkValues t before f.columns ≠ fkValues t after f.columns))

/-- One row of an UPDATE.  `recheck` says whether the changed row's foreign keys are checked. -/
def updateRow (s : Session V) (keys : List (String × List Nat)) (fk : Bool)
    (recheck : Table V → Row V → Row V → Bool) (state : Updating V)
    (x : Nat × List (Assignment V)) : MyResult (Updating V) := do
  let before := state.work.rows.getD x.1 []
  let work ← applyAssignments s state.work x.1 x.2
  let after := work.rows.getD x.1 []
  match findKeyConflict work.rows keys after (some x.1) with
  | some (_, k) => throw (duplicateKeyError work keys k after)
  | none =>
    if after = before then pure { state with work := work }
    else if fk then
      pure { work := work
             changed := state.changed + 1
             changes := state.changes ++ [(before, some after)]
             toCheck := if recheck work before after then state.toCheck ++ [after]
               else state.toCheck }
    else pure { state with work := work, changed := state.changed + 1 }

def storeUpdate (s : Session V) (db : String) (copy : Table V) (fk : Bool) (state : Updating V) :
    Exec V (Pending V) :=
  if fk then finishWrite s db copy state.work state.changes state.toCheck
  else do
    storeTable s db copy state.work
    pure [((db, state.work.name), copy, state.work)]

def update (s : Session V) (key : Key) (assignments : List (Assignment V)) (choice : Choice V) :
    Exec V (Outcome V) := do
  let copy ← loadTable key
  let targets ← liftResult (dmlTargets choice copy)
  let fk ← fkRelevant s key.1 copy
  let state ← liftResult (targets.foldlM (fun state i =>
    updateRow s copy.keys fk keysChanged state (i, assignments)) { work := copy })
  let written ← storeUpdate s key.1 copy fk state
  pure { affectedRows := if s.foundRows then targets.length else state.changed
         written := written }

def withoutTargets (rows : List (Row V)) (targets : List Nat) : List (Row V) :=
  (rows.zipIdx.filter (fun x => !targets.contains x.2)).map Prod.fst

def storeDelete (s : Session V) (db : String) (copy : Table V) (targets : List Nat) :
    Exec V (Pending V) := do
  let fk ← fkRelevant s db copy
  let removed := if fk then targets.map (fun i => copy.rows.getD i []) else []
  let work := { copy with rows := withoutTargets copy.rows targets }
  if removed.isEmpty then do
    storeTable s db copy work
    pure [((db, work.name), copy, work)]
  else finishWrite s db copy work (removed.map (fun r => (r, none))) []

def delete (s : Session V) (key : Key) (choice : Choice V) : Exec V (Outcome V) := do
  let copy ← loadTable key
  let targets ← liftResult (dmlTargets choice copy)
  let written ← storeDelete s key.1 copy targets
  pure { affectedRows := targets.length, written := written }

/-- One target of a multi-table UPDATE: the places of the rows to change, in order, with
the values that the join gave for them. -/
def updateTarget (s : Session V) (x : Key × List (Nat × List (Assignment V))) :
    Exec V (Nat × Pending V) :=
  if x.2.isEmpty then pure (0, [])
  else do
    let copy ← loadTable x.1
    let fk ← fkRelevant s x.1.1 copy
    let state ← liftResult ((x.2.filter (fun u => decide (u.1 < copy.rows.length))).foldlM
      (updateRow s copy.keys fk (fun _ _ _ => true)) { work := copy })
    let written ← storeUpdate s x.1.1 copy fk state
    pure (state.changed, written)

def thenTarget {α : Type} (target : α → Exec V (Nat × Pending V)) (done : Outcome V) (x : α) :
    Exec V (Outcome V) := do
  let (affected, written) ← target x
  pure { done with
    affectedRows := done.affectedRows + affected
    written := done.written ++ written }

/-- A multi-table UPDATE; `updates` is what the join and the assignments came to. -/
def multiUpdate (s : Session V) (updates : MyResult (List (Key × List (Nat × List (Assignment V))))) :
    Exec V (Outcome V) := do
  let targets ← liftResult updates
  targets.foldlM (thenTarget (updateTarget s)) {}

def deleteTarget (s : Session V) (x : Key × List Nat) : Exec V (Nat × Pending V) :=
  if x.2.isEmpty then pure (0, [])
  else do
    let copy ← loadTable x.1
    let removed := (x.2.filter (fun i => decide (i < copy.rows.length))).map
      (fun i => copy.rows.getD i [])
    let work := { copy with rows := withoutTargets copy.rows x.2 }
    let fk ← fkRelevant s x.1.1 work
    let written ←
      if fk then finishWrite s x.1.1 copy work (removed.map (fun r => (r, none))) []
      else do
        storeTable s x.1.1 copy work
        pure [((x.1.1, work.name), copy, work)]
    pure (removed.length, written)

def multiDelete (s : Session V) (ids : MyResult (List (Key × List Nat))) : Exec V (Outcome V) := do
  let targets ← liftResult ids
  targets.foldlM (thenTarget (deleteTarget s)) {}

end Statements

end NoidaDb.MySql
