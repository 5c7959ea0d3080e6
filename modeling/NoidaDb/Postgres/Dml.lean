/-
INSERT, UPDATE and DELETE, with constraint checks and foreign-key actions.

No table has triggers.  `cascade_delete` calls itself along the foreign keys and has no depth
limit in the source; here it takes the call depth that is available and fails when a run would
need more.
-/

import NoidaDb.Lib.ExceptState
import NoidaDb.Postgres.Catalog

namespace NoidaDb.Postgres

open PgValue

variable {V : Type} [PgValue V] [Functions V]

structure Ctx (V : Type) where
  db : DbState V
  /-- `SET CONSTRAINTS ALL`, and `SET CONSTRAINTS` by name. -/
  deferredAll : Option Bool := none
  deferred : List (String × Bool) := []
  ticks : Nat := 0
  affected : Nat := 0

abbrev Exec (V α : Type) := StateT (Ctx V) (Except PgError) α

abbrev Query (V : Type) := Rows V → Nat → PgResult (List (Row V))

def tableOf (ctx : Ctx V) (oid : Nat) : PgResult (Table V) :=
  match ctx.db.table oid with
  | some t => .ok t
  | none =>
    .error { code := Code.undefinedTable
             message := "relation with OID " ++ toString oid ++ " does not exist" }

/-- Whether a constraint is deferred now: `SET CONSTRAINTS` for it by name, else
`SET CONSTRAINTS ALL`, else its `INITIALLY DEFERRED`. -/
def isDeferred (cons : Constraint V) (ctx : Ctx V) : Bool :=
  if !cons.deferrable && !cons.initiallyDeferred then false
  else
    match ctx.deferred.lookup cons.name with
    | some deferred => deferred
    | none => ctx.deferredAll.getD cons.initiallyDeferred

/-- The evaluation has ended, and what its functions wrote is stored. -/
def evaluated : Exec V Unit :=
  modify (fun ctx => { ctx with
    db := { ctx.db with rows := Functions.writes ctx.ticks ctx.db.rows }
    ticks := ctx.ticks + 1 })

def evalIn (rows : Rows V) (e : Expr V) (row : Row V) : Exec V V := do
  let ctx ← get
  let v ← StateT.lift (e row rows ctx.ticks)
  evaluated
  pure v

def eval (e : Expr V) (row : Row V) : Exec V V := do
  let ctx ← get
  evalIn ctx.db.rows e row

def runQuery (q : Query V) : Exec V (List (Row V)) := do
  let ctx ← get
  let rows ← StateT.lift (q ctx.db.rows ctx.ticks)
  evaluated
  pure rows

def passes (filter : Option (Expr V)) (row : Row V) : Exec V Bool :=
  match filter with
  | none => pure true
  | some f => do
      let v ← eval f row
      pure (asBool v == some true)

def valueText (v : V) : String := if isNull v then "null" else toText v

def joined (parts : List String) : String := String.intercalate ", " parts

def failingRow (t : Table V) (row : Row V) : String :=
  joined (t.liveColumns.map (fun entry => valueText (row.col entry.1)))

def keyDetail (t : Table V) (cols : List Nat) (row : Row V) : String :=
  "Key (" ++ joined (cols.map t.columnName) ++ ")=(" ++
    joined (cols.map (fun c => valueText (row.col c))) ++ ")"

/-- The values `row` has in the key of `idx`. -/
def indexKeyValues : List (Option Nat) → List (RowExpr V) → Row V → PgResult (List V)
  | [], _, _ => .ok []
  | some c :: cols, exprs, row => do
      let rest ← indexKeyValues cols exprs row
      pure (row.col c :: rest)
  | none :: cols, e :: exprs, row => do
      let v ← e.eval row
      let rest ← indexKeyValues cols exprs row
      pure (v :: rest)
  | none :: _, [], _ => .error { code := "XX000", message := "expression index key" }

/-- The key `idx` stores for `row`: `none` when a partial index excludes it. -/
def indexKey (idx : Index V) (row : Row V) : PgResult (Option (List V)) :=
  match idx.predicate with
  | none => do
      let key ← indexKeyValues idx.cols idx.exprs row
      pure (some key)
  | some p => do
      let v ← p.eval row
      if asBool v = some true then do
        let key ← indexKeyValues idx.cols idx.exprs row
        pure (some key)
      else pure none

/-- A key that unique index `idx` can't hold twice (nulls are distinct unless
NULLS NOT DISTINCT). -/
def uniqueKey (idx : Index V) (row : Row V) : PgResult (Option (List V)) := do
  let key ← indexKey idx row
  pure (key.filter (fun k => idx.nullsNotDistinct || !k.any isNull))

def keysAgree (a b : List V) : Bool :=
  (a.zip b).all (fun pair => valuesEqual pair.1 pair.2)

def conflictFrom (idx : Index V) (key : List V) (skip : Option Nat) :
    Nat → List (Row V) → PgResult (Option (List V))
  | _, [] => .ok none
  | i, other :: rest =>
    if some i = skip then conflictFrom idx key skip (i + 1) rest
    else do
      match ← indexKey idx other with
      | none => conflictFrom idx key skip (i + 1) rest
      | some k =>
        if keysAgree k key then pure (some key)
        else conflictFrom idx key skip (i + 1) rest

/-- The key in which `row` collides with a row other than `skip` in the unique
index `idx`. -/
def uniqueIndexConflict (rows : List (Row V)) (idx : Index V) (row : Row V)
    (skip : Option Nat) : PgResult (Option (List V)) := do
  match ← uniqueKey idx row with
  | none => pure none
  | some key => conflictFrom idx key skip 0 rows

def checkNotNull (schema : String) (t : Table V) (row : Row V) (entry : Nat × Column V) :
    PgResult Unit :=
  if entry.2.notNull && isNull (row.col entry.1) then
    .error { code := Code.notNullViolation
             message := "null value in column \"" ++ entry.2.name ++ "\" of relation \"" ++
               t.name ++ "\" violates not-null constraint"
             detail := some ("Failing row contains (" ++ failingRow t row ++ ").")
             schema := some schema
             table := some t.name
             column := some entry.2.name }
  else .ok ()

def duplicateKeyError (schema : String) (t : Table V) (name detail : String) : PgError :=
  { code := Code.uniqueViolation
    message := "duplicate key value violates unique constraint \"" ++ name ++ "\""
    detail := some (detail ++ " already exists.")
    schema := some schema
    table := some t.name
    constraint := some name }

def indexKeyDetail (t : Table V) (idx : Index V) (key : List V) : String :=
  let firstExpr := ((idx.exprs.head?).map RowExpr.sql).getD ""
  "Key (" ++ joined (idx.cols.map (fun c => c.elim firstExpr t.columnName)) ++ ")=(" ++
    joined (key.map valueText) ++ ")"

def checkUniqueIndex (schema : String) (rows : List (Row V)) (t : Table V) (row : Row V)
    (skip : Option Nat) (idx : Index V) : PgResult Unit := do
  match ← uniqueIndexConflict rows idx row skip with
  | none => pure ()
  | some key => .error (duplicateKeyError schema t idx.name (indexKeyDetail t idx key))

/-- `row` refers to `parentRow`: every referencing column equals its column there. -/
def fkMatches (cols refCols : List Nat) (row parentRow : Row V) : Bool :=
  (cols.zip refCols).all (fun pair => cmpValues (row.col pair.1) (parentRow.col pair.2) == .eq)

def checkConstraint (ctx : Ctx V) (schema : String) (t : Table V) (row : Row V)
    (skip : Option Nat) (cons : Constraint V) : PgResult Unit :=
  match cons.kind with
  | .primaryKey | .unique =>
    -- A deferred key is checked at COMMIT (`checkDeferred`).
    if isDeferred cons ctx then .ok ()
    else
      match checkUniqueViolation (ctx.db.rows t.oid) cons.cols row skip
          (t.nullsNotDistinct cons) with
      | none => .ok ()
      | some _ =>
        .error (duplicateKeyError schema t cons.name (keyDetail t cons.cols row))
  | .check e => do
      let v ← e.eval row
      if asBool v = some false then
        .error { code := Code.checkViolation
                 message := "new row for relation \"" ++ t.name ++
                   "\" violates check constraint \"" ++ cons.name ++ "\""
                 detail := some ("Failing row contains (" ++ failingRow t row ++ ").")
                 schema := some schema
                 table := some t.name
                 constraint := some cons.name }
      else pure ()
  | .foreignKey refTable refCols _ _ =>
    if cons.cols.any (fun c => isNull (row.col c)) || isDeferred cons ctx then .ok ()
    else do
      let parent ← tableOf ctx refTable
      if (ctx.db.rows refTable).any (fun parentRow =>
          fkMatches cons.cols refCols row parentRow) then pure ()
      else
        .error { code := Code.foreignKeyViolation
                 message := "insert or update on table \"" ++ t.name ++
                   "\" violates foreign key constraint \"" ++ cons.name ++ "\""
                 detail := some (keyDetail t cons.cols row ++ " is not present in table \"" ++
                   parent.name ++ "\".")
                 schema := some schema
                 table := some t.name
                 constraint := some cons.name }

def checkRow (ctx : Ctx V) (table : Nat) (row : Row V) (skip : Option Nat) :
    PgResult Unit := do
  let t ← tableOf ctx table
  let schema := ctx.db.schemaName t.schema
  t.liveColumns.forM (checkNotNull schema t row)
  ((t.indexes.filter (fun idx => idx.unique)).filter (fun idx => !t.backsConstraint idx)).forM
    (checkUniqueIndex schema (ctx.db.rows table) t row skip)
  t.constraints.forM (checkConstraint ctx schema t row skip)

def check (table : Nat) (row : Row V) (skip : Option Nat) : Exec V Unit := do
  let ctx ← get
  StateT.lift (checkRow ctx table row skip)

def applyGenerated (t : Table V) (row : Row V) : PgResult (Row V) :=
  t.columns.zipIdx.foldlM (fun current entry =>
    match entry.1.generated with
    | none => pure current
    | some g => do
        let v ← g.eval current
        pure (current.set entry.2 v)) row

def coerceRow (t : Table V) (row : Row V) : PgResult (Row V) :=
  t.columns.zipIdx.foldlM (fun current entry => do
    let v ← entry.1.applyTypmod (current.col entry.2)
    pure (current.set entry.2 v)) row

def finishRow (table : Nat) (row : Row V) : Exec V (Row V) := do
  let ctx ← get
  let t ← StateT.lift (tableOf ctx table)
  let generated ← StateT.lift (applyGenerated t row)
  StateT.lift (coerceRow t generated)

def defaultValue (table col : Nat) : Exec V V := do
  let ctx ← get
  let t ← StateT.lift (tableOf ctx table)
  match (t.columns[col]?).bind Column.default with
  | none => pure null
  | some e => eval e []

/-- One `SET` item: `DEFAULT` of a column, or an expression. -/
inductive Assign (V : Type) where
  | default (col : Nat)
  | value (e : Expr V)

inductive ConflictAction (V : Type) where
  | nothing
  | update (sets : List (Nat × Assign V)) (filter : Option (Expr V))

structure OnConflict (V : Type) where
  target : Option (List Nat)
  action : ConflictAction V

structure Returning (V : Type) where
  exprs : List (Expr V) := []
  hasSub : Bool := false

structure InsertPlan (V : Type) where
  table : Nat
  cols : List Nat
  source : Query V
  /-- `source_default`: the column whose DEFAULT stands at a VALUES position. -/
  sourceDefault : Nat → Option Nat := fun _ => none
  defaults : List (Option (Expr V)) := []
  onConflict : Option (OnConflict V) := none
  returning : Returning V := {}
  overridingSystem : Bool := false

structure UpdatePlan (V : Type) where
  table : Nat
  fromQuery : Option (Query V) := none
  filter : Option (Expr V) := none
  sets : List (Nat × Assign V)
  defaults : List (Option (Expr V)) := []
  returning : Returning V := {}

structure DeletePlan (V : Type) where
  table : Nat
  usingQuery : Option (Query V) := none
  filter : Option (Expr V) := none
  returning : Returning V := {}

inductive Dml (V : Type) where
  | insert (plan : InsertPlan V)
  | update (plan : UpdatePlan V)
  | delete (plan : DeletePlan V)

def returningSnapshot (returning : Returning V) (ctx : Ctx V) : Option (Rows V) :=
  if returning.hasSub then some ctx.db.rows else none

def projectSnap (returning : Returning V) (row : Row V) (snap : Option (Rows V)) :
    Exec V (Row V) :=
  returning.exprs.foldlM (fun out e => do
    let ctx ← get
    let v ← evalIn (snap.getD ctx.db.rows) e row
    pure (out ++ [v])) []

/-- A stored row followed by its system column values (as RETURNING sees them); an
updated row's `xmax` is the updating transaction. -/
def withSystem (t : Table V) (row : Row V) (pos : Nat) (xmax : Option Int) : Row V :=
  let all := row ++ t.systemColValues pos
  match xmax with
  | none => all
  | some x => all.set (t.columns.length + 3) (ofInt x)

def output (returning : Returning V) (snap : Option (Rows V)) (table : Nat) (row : Row V)
    (pos : Nat) (xmax : Option Int) (out : List (Row V)) : Exec V (List (Row V)) :=
  if returning.exprs.isEmpty then pure out
  else do
    let ctx ← get
    let t ← StateT.lift (tableOf ctx table)
    let projected ← projectSnap returning (withSystem t row pos xmax) snap
    pure (out ++ [projected])

def identityError (name : String) : PgError :=
  { code := Code.generatedAlways
    message := "cannot insert a non-DEFAULT value into column \"" ++ name ++ "\""
    detail := some ("Column \"" ++ name ++
      "\" is an identity column defined as GENERATED ALWAYS.")
    hint := some "Use OVERRIDING SYSTEM VALUE to override." }

def givenValues (plan : InsertPlan V) (t : Table V) (src : Row V) :
    PgResult (Row V × List Nat) :=
  plan.cols.zipIdx.foldlM (fun state entry =>
    let v := src.getD entry.2 null
    if plan.sourceDefault entry.2 = some entry.1 ∧ isNull v = true then pure state
    else if plan.overridingSystem = false ∧
        ((t.columns[entry.1]?).map Column.identityAlways).getD false = true then
      .error (identityError (t.columnName entry.1))
    else pure (state.1.set entry.1 v, entry.1 :: state.2))
    (List.replicate t.columns.length null, [])

def fillDefaults (plan : InsertPlan V) (t : Table V) (given : Row V × List Nat) :
    Exec V (Row V) :=
  (List.range t.columns.length).foldlM (fun row c =>
    if c ∈ given.2 then pure row
    else
      match (plan.defaults[c]?).bind id with
      | none => pure row
      | some e => do
          let v ← eval e []
          pure (row.set c v)) given.1

def proposedRow (plan : InsertPlan V) (src : Row V) : Exec V (Row V) := do
  let ctx ← get
  let t ← StateT.lift (tableOf ctx plan.table)
  let given ← StateT.lift (givenValues plan t src)
  let filled ← fillDefaults plan t given
  finishRow plan.table filled

def conflictInConstraints (rows : List (Row V)) (row : Row V) (target : Option (List Nat)) :
    List (Constraint V) → Option Nat
  | [] => none
  | c :: rest =>
    let arbitrates :=
      match c.kind with
      | .primaryKey | .unique => (target.map (fun cols => c.cols == cols)).getD true
      | _ => false
    if arbitrates then
      (checkUniqueViolation rows c.cols row none false).orElse
        (fun _ => conflictInConstraints rows row target rest)
    else conflictInConstraints rows row target rest

def conflictInIndexes (rows : List (Row V)) (row : Row V) (target : List Nat) :
    List (Index V) → Option Nat
  | [] => none
  | idx :: rest =>
    let cols := idx.cols.filterMap id
    if idx.unique && cols.length == idx.cols.length && target == cols then
      (checkUniqueViolation rows cols row none idx.nullsNotDistinct).orElse
        (fun _ => conflictInIndexes rows row target rest)
    else conflictInIndexes rows row target rest

def findConflict (t : Table V) (rows : List (Row V)) (row : Row V)
    (target : Option (List Nat)) : Option Nat :=
  (conflictInConstraints rows row target t.constraints).orElse (fun _ =>
    -- A unique index without a constraint can also arbitrate.
    target.bind (fun cols => conflictInIndexes rows row cols t.indexes))

def conflictValue (table : Nat) (combined : Row V) : Assign V → Exec V V
  | .default col => defaultValue table col
  | .value e => eval e combined

/-- The image ON CONFLICT DO UPDATE gives `existing`. -/
def conflictImage (table : Nat) (sets : List (Nat × Assign V)) (existing combined : Row V) :
    Exec V (Row V) := do
  let assigned ← sets.foldlM (fun updated item => do
    let v ← conflictValue table combined item.2
    pure (updated.set item.1 v)) existing
  finishRow table assigned

def cannotAffectTwice : PgError :=
  { code := Code.cardinalityViolation
    message := "ON CONFLICT DO UPDATE command cannot affect row a second time"
    hint := some "Ensure that no rows proposed for insertion within the same command have duplicate constrained values." }

structure InsertState (V : Type) where
  touched : List Nat := []
  count : Nat := 0
  out : List (Row V) := []

def setRow (table pos : Nat) (row : Row V) : Exec V Unit :=
  modify (fun ctx => { ctx with db := ctx.db.setRows table ((ctx.db.rows table).set pos row) })

def pushRow (table : Nat) (row : Row V) : Exec V Unit :=
  modify (fun ctx => { ctx with db := ctx.db.setRows table (ctx.db.rows table ++ [row]) })

def insertNew (plan : InsertPlan V) (snap : Option (Rows V)) (state : InsertState V)
    (row : Row V) : Exec V (InsertState V) := do
  check plan.table row none
  let ctx ← get
  let pos := (ctx.db.rows plan.table).length
  pushRow plan.table row
  let out ← output plan.returning snap plan.table row pos none state.out
  pure { touched := pos :: state.touched, count := state.count + 1, out := out }

def updateConflicting (plan : InsertPlan V) (snap : Option (Rows V)) (state : InsertState V)
    (row : Row V) (sets : List (Nat × Assign V)) (filter : Option (Expr V)) (idx : Nat) :
    Exec V (InsertState V) :=
  if idx ∈ state.touched then throw cannotAffectTwice
  else do
    let ctx ← get
    let existing := (ctx.db.rows plan.table).getD idx []
    let combined := existing ++ row
    let wanted ← passes filter combined
    if wanted then do
      let updated ← conflictImage plan.table sets existing combined
      check plan.table updated (some idx)
      setRow plan.table idx updated
      let out ← output plan.returning snap plan.table updated idx (some 1) state.out
      pure { touched := idx :: state.touched, count := state.count + 1, out := out }
    else pure state

def insertOne (plan : InsertPlan V) (snap : Option (Rows V)) (state : InsertState V)
    (src : Row V) : Exec V (InsertState V) := do
  let row ← proposedRow plan src
  match plan.onConflict with
  | none => insertNew plan snap state row
  | some oc => do
      let ctx ← get
      let t ← StateT.lift (tableOf ctx plan.table)
      match findConflict t (ctx.db.rows plan.table) row oc.target with
      | none => insertNew plan snap state row
      | some idx =>
        match oc.action with
        | .nothing => pure state
        | .update sets filter => updateConflicting plan snap state row sets filter idx

def runInsert (plan : InsertPlan V) : Exec V (List (Row V)) := do
  let ctx ← get
  let rows ← runQuery plan.source
  let final ← rows.foldlM (insertOne plan (returningSnapshot plan.returning ctx)) {}
  modify (fun current => { current with affected := final.count })
  pure final.out

/-- The foreign keys pointing at `table`, with the OID of the table each belongs to. -/
def referencing (db : DbState V) (table : Nat) : List (Nat × Constraint V) :=
  db.tables.flatMap (fun t =>
    (t.constraints.filter (fun c =>
      match c.kind with
      | .foreignKey refTable _ _ _ => refTable == table
      | _ => false)).map (fun c => (t.oid, c)))

/-- A row whose foreign key is set and names `row`'s key. -/
def refersTo (cols refCols : List Nat) (row childRow : Row V) : Bool :=
  (cols.zip refCols).all (fun pair =>
    !isNull (childRow.col pair.1) &&
      cmpValues (childRow.col pair.1) (row.col pair.2) == .eq)

def matchingRows (rows : List (Row V)) (cols refCols : List Nat) (row : Row V) : List Nat :=
  (rows.zipIdx.filter (fun entry => refersTo cols refCols row entry.1)).map Prod.snd

def stillReferenced (parent child : Table V) (schema : String) (cons : Constraint V)
    (detail : Option String) : PgError :=
  { code := Code.foreignKeyViolation
    message := "update or delete on table \"" ++ parent.name ++
      "\" violates foreign key constraint \"" ++ cons.name ++ "\" on table \"" ++
      child.name ++ "\""
    detail := detail
    schema := some schema
    table := some child.name
    constraint := some cons.name }

def clearedValue (childOid : Nat) (setDefault : Bool) (c : Nat) : Exec V V :=
  if setDefault then defaultValue childOid c else pure null

def clearedRow (childOid : Nat) (cons : Constraint V) (setDefault : Bool) (row : Row V) :
    Exec V (Row V) :=
  cons.cols.foldlM (fun current c => do
    let v ← clearedValue childOid setDefault c
    pure (current.set c v)) row

def clearRows (childOid : Nat) (cons : Constraint V) (setDefault : Bool)
    (rows : List (Row V)) (matching : List Nat) : Exec V Unit :=
  matching.forM (fun i => do
    let new ← clearedRow childOid cons setDefault (rows.getD i [])
    setRow childOid i new)

def rowsEqual (a b : Row V) : Bool :=
  (a.zip b).all (fun pair => cmpValues pair.1 pair.2 == .eq)

def withoutEqual (rows doomed : List (Row V)) : List (Row V) :=
  rows.filter (fun r => !doomed.any (fun d => rowsEqual r d))

def removeEqual (table : Nat) (doomed : List (Row V)) : Exec V Unit :=
  modify (fun ctx =>
    { ctx with db := ctx.db.setRows table (withoutEqual (ctx.db.rows table) doomed) })

/-- One foreign key's ON DELETE action for the deleted `row`; `deleteRow` cascades
from a referencing row. -/
def cascadeDeleteKey (deleteRow : Nat → Row V → Exec V Unit) (table : Nat) (row : Row V)
    (entry : Nat × Constraint V) : Exec V Unit :=
  match entry.2.kind with
  | .foreignKey _ refCols onDelete _ => do
      let ctx ← get
      let child ← StateT.lift (tableOf ctx entry.1)
      let rows := ctx.db.rows entry.1
      let matching := matchingRows rows entry.2.cols refCols row
      if matching.isEmpty then pure ()
      else if isDeferred entry.2 ctx && onDelete == .noAction then pure ()
      else
        match onDelete with
        | .noAction | .restrict => do
            let parent ← StateT.lift (tableOf ctx table)
            throw (stillReferenced parent child (ctx.db.schemaName child.schema) entry.2
              (some (keyDetail child entry.2.cols (rows.getD (matching.headD 0) []) ++
                " is still referenced from table \"" ++ child.name ++ "\".")))
        | .cascade => do
            let doomed := matching.map (fun i => rows.getD i [])
            doomed.forM (deleteRow entry.1)
            removeEqual entry.1 doomed
        | .setNull => clearRows entry.1 entry.2 false rows matching
        | .setDefault => clearRows entry.1 entry.2 true rows matching
  | _ => pure ()

def cascadeDelete : Nat → Nat → Row V → Exec V Unit
  | 0, _, _ => throw { code := Code.statementTooComplex, message := "stack depth exceeded" }
  | depth + 1, table, row => do
      let ctx ← get
      (referencing ctx.db table).forM (cascadeDeleteKey (cascadeDelete depth) table row)

def keyUnchanged (refCols : List Nat) (old new : Row V) : Bool :=
  refCols.all (fun p => cmpValues (old.col p) (new.col p) == .eq)

def followedRow (cols refCols : List Nat) (new row : Row V) : Row V :=
  (cols.zip refCols).foldl (fun current pair => current.set pair.1 (new.col pair.2)) row

def followRows (childOid : Nat) (cols refCols : List Nat) (new : Row V)
    (rows : List (Row V)) (matching : List Nat) : Exec V Unit :=
  matching.forM (fun i => setRow childOid i (followedRow cols refCols new (rows.getD i [])))

def cascadeUpdateKey (table : Nat) (old new : Row V) (entry : Nat × Constraint V) :
    Exec V Unit :=
  match entry.2.kind with
  | .foreignKey _ refCols _ onUpdate =>
    if keyUnchanged refCols old new then pure ()
    else do
      let ctx ← get
      let child ← StateT.lift (tableOf ctx entry.1)
      let rows := ctx.db.rows entry.1
      let matching := matchingRows rows entry.2.cols refCols old
      if matching.isEmpty then pure ()
      else
        match onUpdate with
        | .cascade => followRows entry.1 entry.2.cols refCols new rows matching
        | .setNull => clearRows entry.1 entry.2 false rows matching
        | .setDefault => clearRows entry.1 entry.2 true rows matching
        | .noAction | .restrict => do
            let parent ← StateT.lift (tableOf ctx table)
            throw (stillReferenced parent child (ctx.db.schemaName child.schema) entry.2 none)
  | _ => pure ()

def cascadeUpdate (table : Nat) (old new : Row V) : Exec V Unit := do
  let ctx ← get
  (referencing ctx.db table).forM (cascadeUpdateKey table old new)

def fromRows (q : Option (Query V)) : Exec V (List (Row V)) :=
  match q with
  | none => pure [[]]
  | some f => runQuery f

def updateValue (plan : UpdatePlan V) (row : Row V) : Assign V → Exec V V
  | .default col =>
    match (plan.defaults[col]?).bind id with
    | none => pure null
    | some e => eval e []
  | .value e => eval e row

/-- The image the SET list gives `old`; `row` is the row its expressions see. -/
def updateImage (plan : UpdatePlan V) (old row : Row V) : Exec V (Row V) := do
  let assigned ← plan.sets.foldlM (fun updated item => do
    let v ← updateValue plan row item.2
    pure (updated.set item.1 v)) old
  finishRow plan.table assigned

def firstImage (plan : UpdatePlan V) (old system : Row V) :
    List (Row V) → Exec V (Option (Row V))
  | [] => pure none
  | e :: rest => do
      let row := old ++ system ++ e
      let wanted ← passes plan.filter row
      if wanted then do
        let image ← updateImage plan old row
        pure (some image)
      else firstImage plan old system rest

/-- The new images of the rows from position `i` on that the UPDATE changes. -/
def imagesFrom (plan : UpdatePlan V) (t : Table V) (extra : List (Row V)) :
    Nat → List (Row V) → Exec V (List (Nat × Row V))
  | _, [] => pure []
  | i, old :: rest => do
      let image ← firstImage plan old (t.systemColValues i) extra
      let later ← imagesFrom plan t extra (i + 1) rest
      match image with
      | none => pure later
      | some new => pure ((i, new) :: later)

def plannedUpdates (plan : UpdatePlan V) : Exec V (List (Nat × Row V)) := do
  let ctx ← get
  let t ← StateT.lift (tableOf ctx plan.table)
  let extra ← fromRows plan.fromQuery
  imagesFrom plan t extra 0 (ctx.db.rows plan.table)

def checkAndCascade (table : Nat) (base : List (Row V)) (item : Nat × Row V) :
    Exec V Unit := do
  check table item.2 (some item.1)
  cascadeUpdate table (base.getD item.1 []) item.2

def writeBack (plan : UpdatePlan V) (snap : Option (Rows V)) (out : List (Row V))
    (item : Nat × Row V) : Exec V (List (Row V)) := do
  setRow plan.table item.1 item.2
  output plan.returning snap plan.table item.2 item.1 (some 1) out

def runUpdate (plan : UpdatePlan V) : Exec V (List (Row V)) := do
  let ctx ← get
  let updates ← plannedUpdates plan
  -- Every new row is checked, and its key's foreign keys followed, before any is
  -- written.
  updates.forM (checkAndCascade plan.table (ctx.db.rows plan.table))
  let out ← updates.foldlM (writeBack plan (returningSnapshot plan.returning ctx)) []
  modify (fun current => { current with affected := updates.length })
  pure out

def anyPasses (filter : Option (Expr V)) (row : Row V) : List (Row V) → Exec V Bool
  | [] => pure false
  | e :: rest => do
      let wanted ← passes filter (row ++ e)
      if wanted then pure true else anyPasses filter row rest

def doomedFrom (plan : DeletePlan V) (t : Table V) (extra : List (Row V)) :
    Nat → List (Row V) → Exec V (List Nat)
  | _, [] => pure []
  | i, old :: rest => do
      let wanted ← anyPasses plan.filter (old ++ t.systemColValues i) extra
      let later ← doomedFrom plan t extra (i + 1) rest
      pure (if wanted then i :: later else later)

def plannedDeletes (plan : DeletePlan V) : Exec V (List Nat) := do
  let ctx ← get
  let t ← StateT.lift (tableOf ctx plan.table)
  let extra ← fromRows plan.usingQuery
  doomedFrom plan t extra 0 (ctx.db.rows plan.table)

/-- `rows.retain` by position. -/
def removePositions (rows : List (Row V)) (doomed : List Nat) : List (Row V) :=
  (rows.zipIdx.filter (fun entry => !doomed.contains entry.2)).map Prod.fst

def runDelete (depth : Nat) (plan : DeletePlan V) : Exec V (List (Row V)) := do
  let ctx ← get
  let base := ctx.db.rows plan.table
  let doomed ← plannedDeletes plan
  let out ← doomed.foldlM (fun out i =>
    output plan.returning (returningSnapshot plan.returning ctx) plan.table
      (base.getD i []) i none out) []
  doomed.forM (fun i => cascadeDelete depth plan.table (base.getD i []))
  modify (fun current => { current with
    db := current.db.setRows plan.table
      (removePositions (current.db.rows plan.table) doomed)
    affected := doomed.length })
  pure out

def runDml (depth : Nat) : Dml V → Exec V (List (Row V))
  | .insert plan => runInsert plan
  | .update plan => runUpdate plan
  | .delete plan => runDelete depth plan

end NoidaDb.Postgres
