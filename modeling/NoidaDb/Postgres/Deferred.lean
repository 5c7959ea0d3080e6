/-
The engine's database: deferred constraints, and ON COMMIT actions of temporary
tables.
-/

import Mathlib.Data.List.Sort
import NoidaDb.Postgres.Dml
import NoidaDb.Postgres.Engine

namespace NoidaDb.Postgres

open PgValue

variable {V : Type} [PgValue V]

def compareOn (cols : List Nat) (a b : Row V) : Ordering :=
  ((cols.map (fun c => cmpValues (Row.col a c) (Row.col b c))).find? (fun o => o != .eq)).getD .eq

/-- A row equal to its successor on `cols`. -/
def adjacentDuplicate (cols : List Nat) : List (Row V) → Option (Row V)
  | a :: b :: rest =>
    if cols.all (fun c => valuesEqual (Row.col a c) (Row.col b c)) then some a
    else adjacentDuplicate cols (b :: rest)
  | _ => none

/-- A deferred key, checked over the whole table: sorted on the key, a duplicate sits
next to its twin. -/
def checkUniqueNow (db : DbState V) (t : Table V) (cons : Constraint V) : PgResult Unit :=
  let keyed := (db.rows t.oid).filter (fun r =>
    t.nullsNotDistinct cons || !cons.cols.any (fun c => isNull (Row.col r c)))
  match adjacentDuplicate cons.cols
      (keyed.insertionSort (fun a b => compareOn cons.cols a b ≠ .gt)) with
  | none => .ok ()
  | some dup =>
    .error (duplicateKeyError (db.schemaName t.schema) t cons.name (keyDetail t cons.cols dup))

def notPresent (t parent : Table V) (cons : Constraint V) (row : Row V) : PgError :=
  { code := Code.foreignKeyViolation
    message := "insert or update on table \"" ++ t.name ++
      "\" violates foreign key constraint \"" ++ cons.name ++ "\""
    detail := some (keyDetail t cons.cols row ++ " is not present in table \"" ++
      parent.name ++ "\".")
    constraint := some cons.name }

def checkReferences (db : DbState V) (t parent : Table V) (cons : Constraint V)
    (refCols : List Nat) : PgResult Unit :=
  (db.rows t.oid).forM (fun row =>
    if cons.cols.any (fun c => isNull (Row.col row c)) then .ok ()
    else if (db.rows parent.oid).any (fun parentRow => fkMatches cons.cols refCols row parentRow)
    then .ok ()
    else .error (notPresent t parent cons row))

def checkDeferredConstraint (db : DbState V) (names : Option (List String)) (t : Table V)
    (cons : Constraint V) : PgResult Unit :=
  let named := (names.map (fun n => n.contains cons.name)).getD true
  match cons.kind with
  | .primaryKey | .unique =>
    if cons.mayDefer && named then checkUniqueNow db t cons else .ok ()
  | .check _ => .ok ()
  | .foreignKey refTable refCols _ _ =>
    if cons.mayDefer && named then
      match db.table refTable with
      | none => .ok ()
      | some parent => checkReferences db t parent cons refCols
    else .ok ()

def checkDeferredNamed (db : DbState V) (names : Option (List String)) : PgResult Unit :=
  db.tables.forM (fun t => t.constraints.forM (checkDeferredConstraint db names t))

def findConstraint (db : DbState V) (path : List String) (name : Option String × String) :
    Option Bool :=
  let tables := db.tables.filter (fun t =>
    match name.1 with
    | some schema => db.schemaName t.schema == schema
    | none => path.contains (db.schemaName t.schema))
  ((tables.flatMap Table.constraints).find? (fun c => c.name == name.2)).map Constraint.mayDefer

/-- Temporary tables' `ON COMMIT DELETE ROWS` / `ON COMMIT DROP`. -/
def onCommitActions (tempSchema : String) (db : DbState V) : DbState V :=
  match db.schemas.find? (fun s => s.2 == tempSchema) with
  | none => db
  | some (ns, _) =>
    let emptied := fun oid => db.tables.any (fun t =>
      t.oid == oid && t.schema == ns && t.onCommit != .preserveRows)
    { db with
      tables := db.tables.filter (fun t => !(t.schema == ns && t.onCommit == .drop))
      rows := fun oid => if emptied oid then [] else db.rows oid }

instance : Database (DbState V) where
  checkDeferredNamed := checkDeferredNamed
  findConstraint := findConstraint
  onCommitActions := onCommitActions

/-- A data statement on tables without triggers.  What a failed statement leaves of
the copy is not modelled; `leftover` stands for it. -/
def DataStmt.ofDml [Functions V] (depth ticks : Nat) (leftover : DbState V → DbState V) (stmt : Dml V) :
    DataStmt (DbState V) where
  writes _ := true
  run modes db :=
    match runDml depth stmt
        { db := db, deferredAll := modes.deferredAll, deferred := modes.deferred
          ticks := ticks } with
    | .ok (_, ctx) => (ctx.db, .ok { tag := "" })
    | .error e => (leftover db, .error e)

end NoidaDb.Postgres
