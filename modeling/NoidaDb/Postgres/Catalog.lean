/-
Schema objects and table data.

A table's definition and its rows are kept apart.  Expressions are embedded by their meaning: a
CHECK, a generated column, an index key and an index predicate are functions of the row; every
other expression may also read the tables, differ from one evaluation to the next and call
functions that write.
-/

import NoidaDb.Postgres.Value

namespace NoidaDb.Postgres

open PgValue

variable {V : Type}

abbrev Rows (V : Type) := Nat → List (Row V)

structure RowExpr (V : Type) where
  sql : String
  eval : Row V → PgResult V

abbrev Expr (V : Type) := Row V → Rows V → Nat → PgResult V

/-- What the functions called in the `n`-th evaluation do to the rows. -/
class Functions (V : Type) where
  writes : Nat → Rows V → Rows V

/-- Where nothing else is said, functions only read. -/
instance (priority := low) Functions.reading : Functions V where
  writes _ rows := rows

def Functions.Quiet (functions : Functions V) : Prop :=
  ∀ n rows, functions.writes n rows = rows

theorem Functions.Quiet.eq_reading {functions : Functions V} (quiet : functions.Quiet) :
    functions = Functions.reading := by
  obtain ⟨writes⟩ := functions
  congr
  funext n rows
  exact quiet n rows

theorem Functions.reading_quiet : (Functions.reading : Functions V).Quiet := fun _ _ => rfl

inductive FkAction where
  | noAction
  | restrict
  | cascade
  | setNull
  | setDefault
deriving Repr, DecidableEq

structure Column (V : Type) where
  name : String
  notNull : Bool := false
  default : Option (Expr V) := none
  /-- `GENERATED ALWAYS AS IDENTITY`. -/
  identityAlways : Bool := false
  generated : Option (RowExpr V) := none
  dropped : Bool := false
  /-- `types::apply_typmod` at the column's type and type modifier. -/
  applyTypmod : V → PgResult V := .ok

inductive ConstraintKind (V : Type) where
  | primaryKey
  | unique
  | check (expr : RowExpr V)
  | foreignKey (refTable : Nat) (refCols : List Nat) (onDelete onUpdate : FkAction)

structure Constraint (V : Type) where
  name : String
  kind : ConstraintKind V
  cols : List Nat
  indexOid : Option Nat := none
  deferrable : Bool := false
  initiallyDeferred : Bool := false

def Constraint.mayDefer (cons : Constraint V) : Bool := cons.deferrable || cons.initiallyDeferred

structure Index (V : Type) where
  oid : Nat
  name : String
  /-- Key columns; `none` for an expression key, taken from `exprs` in order. -/
  cols : List (Option Nat)
  exprs : List (RowExpr V) := []
  unique : Bool := true
  predicate : Option (RowExpr V) := none
  nullsNotDistinct : Bool := false

inductive OnCommit where
  | preserveRows
  | deleteRows
  | drop
deriving Repr, DecidableEq

structure Table (V : Type) where
  oid : Nat
  name : String
  schema : Nat := 2200
  columns : List (Column V)
  constraints : List (Constraint V) := []
  indexes : List (Index V) := []
  onCommit : OnCommit := .preserveRows

structure DbState (V : Type) where
  schemas : List (Nat × String)
  tables : List (Table V)
  rows : Rows V

namespace Table

def liveColumns (t : Table V) : List (Nat × Column V) :=
  (t.columns.zipIdx.map (fun pair => (pair.2, pair.1))).filter (fun pair => !pair.2.dropped)

def columnName (t : Table V) (c : Nat) : String :=
  (t.columns[c]?.map Column.name).getD ""

def backsConstraint (t : Table V) (idx : Index V) : Bool :=
  t.constraints.any (fun c => c.indexOid == some idx.oid)

def nullsNotDistinct (t : Table V) (cons : Constraint V) : Bool :=
  match cons.indexOid.bind (fun oid => t.indexes.find? (fun i => i.oid == oid)) with
  | some idx => idx.nullsNotDistinct
  | none => false

/-- The values of `ctid`/`xmin`/`cmin`/`xmax`/`cmax`/`tableoid` of the row at `pos`. -/
def systemColValues [PgValue V] (t : Table V) (pos : Nat) : List V :=
  [ofText ("(0," ++ toString (pos + 1) ++ ")"), ofInt 1, ofInt 0, ofInt 0, ofInt 0,
    ofInt t.oid]

end Table

namespace DbState

def table (db : DbState V) (oid : Nat) : Option (Table V) :=
  db.tables.find? (fun t => t.oid == oid)

def schemaName (db : DbState V) (oid : Nat) : String :=
  ((db.schemas.find? (fun s => s.1 == oid)).map Prod.snd).getD "?"

def setRows (db : DbState V) (oid : Nat) (rows : List (Row V)) : DbState V :=
  { db with rows := Function.update db.rows oid rows }

@[simp] theorem setRows_tables (db : DbState V) (oid : Nat) (rows : List (Row V)) :
    (db.setRows oid rows).tables = db.tables := rfl

@[simp] theorem setRows_schemas (db : DbState V) (oid : Nat) (rows : List (Row V)) :
    (db.setRows oid rows).schemas = db.schemas := rfl

@[simp] theorem setRows_table (db : DbState V) (oid other : Nat) (rows : List (Row V)) :
    (db.setRows oid rows).table other = db.table other := rfl

@[simp] theorem setRows_rows_self (db : DbState V) (oid : Nat) (rows : List (Row V)) :
    (db.setRows oid rows).rows oid = rows := by
  simp [setRows]

theorem setRows_rows_of_ne (db : DbState V) {oid other : Nat} (rows : List (Row V))
    (different : other ≠ oid) : (db.setRows oid rows).rows other = db.rows other := by
  simp [setRows, different]

variable {db : DbState V}

theorem table_mem {oid : Nat} {t : Table V} (found : db.table oid = some t) :
    t ∈ db.tables ∧ t.oid = oid := by
  refine ⟨List.mem_of_find?_eq_some found, ?_⟩
  have matched := List.find?_some found
  simpa using matched

/-- What `CREATE TABLE` builds: OIDs are distinct, the columns of a primary key are
NOT NULL and the tables foreign keys reference exist. -/
structure WellFormed (db : DbState V) : Prop where
  oidsNodup : (db.tables.map Table.oid).Nodup
  primaryKeyNotNull : ∀ t, t ∈ db.tables → ∀ cons, cons ∈ t.constraints →
    cons.kind = .primaryKey → ∀ c, c ∈ cons.cols →
      ∀ column, t.columns[c]? = some column → column.notNull = true
  referencedExists : ∀ t, t ∈ db.tables → ∀ cons, cons ∈ t.constraints →
    ∀ refTable refCols onDelete onUpdate,
      cons.kind = .foreignKey refTable refCols onDelete onUpdate →
        (db.table refTable).isSome = true

def constraintsFormed (db : DbState V) : Bool :=
  db.tables.all (fun t => t.constraints.all (fun cons =>
    match cons.kind with
    | .primaryKey => cons.cols.all (fun c => (t.columns[c]?.map Column.notNull).getD true)
    | .foreignKey refTable _ _ _ => (db.table refTable).isSome
    | _ => true))

theorem WellFormed.of_check (oidsNodup : (db.tables.map Table.oid).Nodup)
    (formed : db.constraintsFormed = true) : db.WellFormed := by
  have each : ∀ t, t ∈ db.tables → ∀ cons, cons ∈ t.constraints → _ :=
    fun t member cons present => List.all_eq_true.mp (List.all_eq_true.mp formed t member) cons present
  refine ⟨oidsNodup, ?_, ?_⟩
  · intro t member cons present kind c inKey column found
    have columns := each t member cons present
    simp only [kind] at columns
    have required := List.all_eq_true.mp columns c inKey
    rw [found] at required
    exact required
  · intro t member cons present refTable refCols onDelete onUpdate kind
    have exists' := each t member cons present
    simp only [kind] at exists'
    exact exists'

theorem WellFormed.table_eq (formed : db.WellFormed) {t : Table V} (member : t ∈ db.tables) :
    db.table t.oid = some t := by
  unfold DbState.table
  have nodup := formed.oidsNodup
  generalize db.tables = tables at member nodup
  induction tables with
  | nil => cases member
  | cons head rest ih =>
    rw [List.map_cons, List.nodup_cons] at nodup
    rcases List.mem_cons.mp member with same | later
    · subst same
      simp
    · have different : head.oid ≠ t.oid := by
        intro equal
        exact nodup.1 (equal ▸ List.mem_map_of_mem later)
      rw [List.find?_cons_of_neg (by simpa using different)]
      exact ih later nodup.2

end DbState

/-- The position of a row of the table (other than `skip`) that agrees with `row`
on `cols`; a null in `row` agrees with nothing unless nulls are not distinct. -/
def checkUniqueViolation [PgValue V] (rows : List (Row V)) (cols : List Nat) (row : Row V)
    (skip : Option Nat) (nullsNotDistinct : Bool) : Option Nat :=
  if !nullsNotDistinct && cols.any (fun c => isNull (row.col c)) then none
  else
    (rows.zipIdx.find? (fun entry =>
      decide (some entry.2 ≠ skip) &&
        cols.all (fun c => valuesEqual (entry.1.col c) (row.col c)))).map Prod.snd

end NoidaDb.Postgres
