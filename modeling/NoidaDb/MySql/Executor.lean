/-
Statements as programs over sections of the shared database.

A statement works on copies of the tables it writes.  Each time it takes the lock on the database
it makes a call.  Expressions are the functions they evaluate to.
-/

import NoidaDb.Lib.Sections
import NoidaDb.MySql.Catalog

namespace NoidaDb.MySql

open MyValue Lib

/-- What a statement does under the lock.  A store comes with the copy that the statement
started from, which the code does not keep. -/
inductive DbCall (V : Type) where
  /-- `load_table`. -/
  | load (key : Key)
  | referencing (key : Key)
  /-- `locked_rows`, with the table as it stands. -/
  | locked (me : Nat) (key : Key)
  /-- The insert in `store_table`. -/
  | store (key : Key) (copy work : Table V)
  | counter (key : Key) (copy : Table V) (next : Int)
  /-- No section: the counter of a copy moves past an id. -/
  | countPast (id : Int)

def DbCall.Answer {V : Type} : DbCall V → Type
  | .load _ => MyResult (Table V)
  | .referencing _ => List (Key × ForeignKey)
  | .locked _ _ => List (Nat × List V × Bool) × Option (Table V)
  | .store _ _ _ => MyResult Unit
  | .counter _ _ _ => Unit
  | .countPast _ => Unit

abbrev dbInterface (V : Type) : Interface := ⟨DbCall V, DbCall.Answer⟩

abbrev Section (V : Type) := Program (dbInterface V)

abbrev VirtualTables (V : Type) := DbState V → String → Option (Table V)

def isInformationSchema (db : String) : Bool := eqIgnoreAsciiCase db "information_schema"

namespace DbState

variable {V : Type}

/-- `infoschema::lookup_table`. -/
def lookupTable (virtual : VirtualTables V) (state : DbState V) (key : Key) : Option (Table V) :=
  if isInformationSchema key.1 then virtual state key.2.toUpper
  else (state.get key).map Shared.table

def loadTable (virtual : VirtualTables V) (state : DbState V) (key : Key) : MyResult (Table V) :=
  match state.lookupTable virtual key with
  | some t => .ok t
  | none =>
    if key.1 ∈ state.databases then .error (.unknownTable key.2)
    else .error (.unknownDatabase key.1)

/-- `Arc::make_mut` on a table that may be shared. -/
def setCounter (state : DbState V) (key : Key) (next : Int) : DbState V :=
  match state.get key with
  | none => state
  | some current => state.insert key { current.table with nextAutoIncrement := next }

variable [DecidableEq V] [MyValue V]

def serve (walk : Walk (Nat × TxUndo V)) (virtual : VirtualTables V) :
    Program.Server (dbInterface V) (DbState V)
  | .load key, state => (state.loadTable virtual key, state)
  | .referencing key, state => (state.referencing key, state)
  | .locked me key, state =>
    ((state.lockedRows walk me key, (state.get key).map Shared.table), state)
  | .store key _ work, state =>
    if key.1 ∈ state.databases then (.ok (), state.insert key work)
    else (.error (.unknownDatabase key.1), state)
  | .counter key _ next, state => ((), state.setCounter key next)
  | .countPast _, state => ((), state)

end DbState

abbrev Exec (V : Type) := ExceptT MySqlError (Section V)

section Calls

variable {V : Type}

def loadTable (key : Key) : Exec V (Table V) :=
  ExceptT.mk (Program.ask (I := dbInterface V) (DbCall.load key))

def referencing (key : Key) : Exec V (List (Key × ForeignKey)) :=
  ExceptT.lift (Program.ask (I := dbInterface V) (DbCall.referencing key))

def lockedRows (me : Nat) (key : Key) :
    Exec V (List (Nat × List V × Bool) × Option (Table V)) :=
  ExceptT.lift (Program.ask (I := dbInterface V) (DbCall.locked me key))

def insertTable (key : Key) (copy work : Table V) : Exec V Unit :=
  ExceptT.mk (Program.ask (I := dbInterface V) (DbCall.store key copy work))

def setCounter (key : Key) (copy : Table V) (next : Int) : Section V Unit :=
  Program.ask (I := dbInterface V) (DbCall.counter key copy next)

def liftResult {α : Type} (result : MyResult α) : Exec V α := ExceptT.mk (pure result)

end Calls

structure Session (V : Type) where
  connId : Nat
  fkChecks : Bool := true
  foundRows : Bool := false
  strict : Bool := true
  now : V
  coerceToColumn : V → Column V → MyResult V
  addedColumnValue : Column V → V
  bindCheck : Check → MyResult Unit
  evalCheck : Check → Table V → Row V → MyResult V
  /-- The order of `row_diff`'s removed rows. -/
  walk : Walk (Row V) := Walk.inTurn

/-- `SET column = value`, where no value is DEFAULT. -/
abbrev Assignment (V : Type) := String × Option (Table V → Row V → MyResult V)

inductive InsertMode (V : Type) where
  | error
  | ignore
  | replace
  /-- ON DUPLICATE KEY UPDATE; the assignments see the row that was to be inserted. -/
  | upsert (assignments : Row V → List (Assignment V))

/-- What a statement did: the numbers of the OK packet, and for the reader the ids it
generated and the tables it stored with the copies it started from. -/
structure Outcome (V : Type) where
  affectedRows : Nat := 0
  insertId : Int := 0
  generated : List (Key × Int) := []
  written : List (Key × Table V × Table V) := []

section Statements

variable {V : Type} [DecidableEq V] [MyValue V]

def sameKey (cols : List Nat) (row other : Row V) : Bool :=
  cols.all (fun c => cmpEqual (row.col c) (other.col c))

/-- The first row (other than `skip`) that `row` collides with on some key, with the place of
the key.  A key with a NULL never collides. -/
def findKeyConflict (rows : List (Row V)) (keys : List (String × List Nat)) (row : Row V)
    (skip : Option Nat) : Option (Nat × Nat) :=
  keys.zipIdx.findSome? (fun k =>
    if k.1.2.any (fun c => isNull (row.col c)) then none
    else (rows.zipIdx.find? (fun other =>
      decide (some other.2 ≠ skip) && sameKey k.1.2 row other.1)).map (fun other => (other.2, k.2)))

def duplicateKeyError (t : Table V) (keys : List (String × List Nat)) (k : Nat) (row : Row V) :
    MySqlError :=
  let key := keys.getD k ("", [])
  .error 1062 "23000" ("Duplicate entry '" ++
    String.intercalate "-" (key.2.map (fun c => renderText (row.col c))) ++ "' for key '" ++
    t.name ++ "." ++ key.1 ++ "'")

def columnCannotBeNull (col : String) : MySqlError :=
  .error 1048 "23000" ("Column '" ++ col ++ "' cannot be null")

def bindChecks (s : Session V) (t : Table V) : MyResult Unit :=
  t.checks.forM s.bindCheck

def enforceChecks (s : Session V) (t : Table V) (row : Row V) : MyResult Unit :=
  t.checks.forM (fun c => do
    let v ← s.evalCheck c t row
    if !isNull v && !truthy v then
      throw (.error 3819 "HY000" ("Check constraint '" ++ c.name ++ "' is violated."))
    else pure ())

/-- The values of `cols` in `row`; none if a column is missing. -/
def fkValues (t : Table V) (row : Row V) (cols : List String) : Option (List V) :=
  cols.mapM (fun c => (resolveColumnIndex t.columns c).map row.col)

def quoted (names : List String) : String :=
  String.intercalate ", " (names.map (fun n => "`" ++ n ++ "`"))

def FkAction.clause (what : String) : FkAction → String
  | .cascade => " ON " ++ what ++ " CASCADE"
  | .setNull => " ON " ++ what ++ " SET NULL"
  | _ => ""

def fkDescription (child : Key) (fk : ForeignKey) : String :=
  let parent :=
    if fk.refDb = child.1 then "`" ++ fk.refTable ++ "`"
    else "`" ++ fk.refDb ++ "`.`" ++ fk.refTable ++ "`"
  "`" ++ child.1 ++ "`.`" ++ child.2 ++ "`, CONSTRAINT `" ++ fk.name ++ "` FOREIGN KEY (" ++
    quoted fk.columns ++ ") REFERENCES " ++ parent ++ " (" ++ quoted fk.refColumns ++ ")" ++
    fk.onDelete.clause "DELETE" ++ fk.onUpdate.clause "UPDATE"

def childRowError (child : Key) (fk : ForeignKey) : MySqlError :=
  .error 1452 "23000" ("Cannot add or update a child row: a foreign key constraint fails (" ++
    fkDescription child fk ++ ")")

def parentRowError (child : Key) (fk : ForeignKey) : MySqlError :=
  .error 1451 "23000" ("Cannot delete or update a parent row: a foreign key constraint fails (" ++
    fkDescription child fk ++ ")")

def fkRelevant (s : Session V) (db : String) (t : Table V) : Exec V Bool :=
  if !s.fkChecks then pure false
  else if t.foreignKeys ≠ [] then pure true
  else do
    let refs ← referencing (db, t.name)
    pure (!refs.isEmpty)

def hasParent (t parent : Table V) (fk : ForeignKey) (row : Row V) : Bool :=
  match fkValues t row fk.columns with
  | none => true
  | some key =>
    key.any isNull || parent.rows.any (fun p =>
      match fkValues parent p fk.refColumns with
      | none => false
      | some k => keysEqual k key)

def parentTable (db : String) (t : Table V) (fk : ForeignKey) : Exec V (Table V) :=
  if fk.refDb = db ∧ fk.refTable = t.name then pure t
  else ExceptT.tryCatch (loadTable (fk.refDb, fk.refTable))
    (fun _ => throw (childRowError (db, t.name) fk))

/-- Error 1452 unless every row of `rows` has a matching parent row for each foreign key of
the table. -/
def checkParents (s : Session V) (db : String) (t : Table V) (rows : List (Row V)) :
    Exec V Unit :=
  if !s.fkChecks || rows.isEmpty then pure ()
  else t.foreignKeys.forM (fun fk => do
    let parent ← parentTable db t fk
    if rows.all (hasParent t parent fk) then pure () else throw (childRowError (db, t.name) fk))

abbrev Change (V : Type) := Row V × Option (Row V)

abbrev Pending (V : Type) := List (Key × Table V × Table V)

def hits (child : Table V) (fk : ForeignKey) (oldKey : List V) (row : Row V) : Bool :=
  match fkValues child row fk.columns with
  | none => false
  | some k => keysEqual k oldKey

def rewritten (child : Table V) (fk : ForeignKey) (newKey : Option (List V)) (row : Row V) :
    Row V :=
  let cols := fk.columns.filterMap (resolveColumnIndex child.columns)
  cols.zipIdx.foldl (fun row x =>
    row.set x.1 (match newKey with
      | some k => k.getD x.2 null
      | none => null)) row

def childChange (parent : Table V) (childKey : Key) (fk : ForeignKey)
    (state : Table V × List (Change V)) (change : Change V) : MyResult (Table V × List (Change V)) :=
  let child := state.1
  match fkValues parent change.1 fk.refColumns with
  | none => .ok state
  | some oldKey =>
    let newKey := change.2.map (fun n => (fkValues parent n fk.refColumns).getD [])
    if oldKey.any isNull || newKey.any (fun k => keysEqual k oldKey) then .ok state
    else
      let found := child.rows.filter (hits child fk oldKey)
      if found.isEmpty then .ok state
      else
        match (if newKey.isNone then fk.onDelete else fk.onUpdate), newKey with
        | .restrict, _ => .error (parentRowError childKey fk)
        | .noAction, _ => .error (parentRowError childKey fk)
        | .cascade, none =>
          .ok ({ child with rows := child.rows.filter (fun r => !hits child fk oldKey r) },
            state.2 ++ found.map (fun r => (r, none)))
        | .cascade, some k =>
          .ok ({ child with rows := child.rows.map (fun r =>
              if hits child fk oldKey r then rewritten child fk (some k) r else r) },
            state.2 ++ found.map (fun r => (r, some (rewritten child fk (some k) r))))
        | .setNull, _ =>
          .ok ({ child with rows := child.rows.map (fun r =>
              if hits child fk oldKey r then rewritten child fk none r else r) },
            state.2 ++ found.map (fun r => (r, some (rewritten child fk none r))))

def cascadeTooDeep : MySqlError :=
  .error 3008 "HY000" "Foreign key cascade delete/update exceeds max depth of 15."

def loadPending (pending : Pending V) (key : Key) : Exec V (Pending V × Table V × Table V) :=
  match pending.lookup key with
  | some copies => pure (pending, copies)
  | none => do
      let t ← loadTable key
      pure (put key (t, t) pending, t, t)

/-- ON DELETE and ON UPDATE for every table that references `key`, for the changed rows.
`levels` counts down from the depth the code allows. -/
def onParentChange (levels : Nat) (pending : Pending V) (key : Key)
    (changes : List (Change V)) : Exec V (Pending V) :=
  if changes.isEmpty then pure pending
  else
    match levels with
    | 0 => throw cascadeTooDeep
    | levels + 1 => do
        let refs ← referencing key
        match pending.lookup key with
        | none => pure pending
        | some (_, parent) =>
          refs.foldlM (fun pending x => do
            let (pending, copy, child) ← loadPending pending x.1
            let (child, childChanges) ← liftResult
              (changes.foldlM (childChange parent x.1 x.2) (child, []))
            onParentChange levels (put x.1 (copy, child) pending) x.1 childChanges) pending

def holderOf (t : Table V) (locked : List (Nat × List V × Bool)) (rows : List (Row V)) :
    Option Nat :=
  rows.findSome? (fun r => (locked.find? (fun l => decide (l.2.1 = rowKey t r))).map Prod.fst)

def checkWriteLocks (s : Session V) (db : String) (t : Table V) : Exec V Unit := do
  let (locked, current) ← lockedRows s.connId (db, t.name)
  match current with
  | none => pure ()
  | some current =>
    let diff := rowDiff current.rows t.rows
    match holderOf t locked (diff.1 ++ diff.2) with
    | some holder => throw (.lockWait holder)
    | none => pure ()

def waitIfLocked (s : Session V) (db : String) (t : Table V) (rows : List (Row V)) :
    Exec V Unit := do
  let (locked, _) ← lockedRows s.connId (db, t.name)
  match holderOf t locked rows with
  | some holder => throw (.lockWait holder)
  | none => pure ()

def accessDenied : MySqlError :=
  .error 1044 "42000" "Access denied for user 'root'@'localhost' to database 'information_schema'"

def storeTable (s : Session V) (db : String) (copy t : Table V) : Exec V Unit :=
  if isInformationSchema db then throw accessDenied
  else do
    checkWriteLocks s db t
    insertTable (db, t.name) copy t

def finishWrite (s : Session V) (db : String) (copy work : Table V) (changes : List (Change V))
    (check : List (Row V)) : Exec V (Pending V) := do
  checkParents s db work check
  let pending ← onParentChange 16 [((db, work.name), copy, work)] (db, work.name) changes
  pending.forM (fun x => checkWriteLocks s x.1.1 x.2.2)
  pending.forM (fun x => storeTable s x.1.1 x.2.1 x.2.2)
  pure (pending.map (fun x => ((x.1.1, x.2.2.name), x.2)))

end Statements

end NoidaDb.MySql
