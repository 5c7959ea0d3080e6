/-
Expressions, joins and filters of a SELECT.

An expression keeps the forms that test whether a value is true; every other form is an operation
on the values of its arguments.
-/

import NoidaDb.MySql.Types

namespace NoidaDb.MySql.Plans

class ExprValue (V : Type) where
  null : V
  ofInt : Int → V
  /-- `is_null`. -/
  absent : V → Bool
  /-- `==`. -/
  same : V → V → Bool

instance : ExprValue Types.Value where
  null := .null
  ofInt := .int
  absent := Types.Value.isNull
  same := Types.Value.eq

open ExprValue

section Tests

variable {V : Type} [ExprValue V]

/-- `v == Value::Int(0)`. -/
def isZero (v : V) : Bool := same v (ofInt 0)

/-- `v == Value::Int(1)`. -/
def isOne (v : V) : Bool := same v (ofInt 1)

/-- `!v.is_null() && v != Value::Int(0)`. -/
def passes (v : V) : Bool := !absent v && !isZero v

end Tests

inductive Expr (V : Type) where
  | const (v : V)
  | colName (name : String)
  /-- `Compare`, `Arith`, `Call`, `InList`, `IsNull` and `Like`. -/
  | apply (operation : List V → MyResult V) (args : List (Expr V))
  /-- A variable, a subquery or a window, with the column names outside of any subquery. -/
  | other (names : List String) (eval : Row V → Option (Table V) → MyResult V)
  | agg (names : List String) (compute : List (Row V) → Option (Table V) → MyResult V)
  | and (es : List (Expr V))
  | or (es : List (Expr V))
  | not (e : Expr V)
  | case (conditions : List (Expr V × Expr V)) (elseResult : Option (Expr V))

def unsupported (what : String) : MySqlError :=
  .error 1235 "42000" ("This version of MySQL doesn't yet support '" ++ what ++ "'")

def ambiguousColumn (name : String) : MySqlError :=
  .error 1052 "23000" ("Column '" ++ name ++ "' in field list is ambiguous")

def sameName (a b : List Char) : Bool := a.map Char.toLower == b.map Char.toLower

section Columns

variable {V : Type}

/-- Where a column is; `none` if there is no such column. -/
def resolveColumn (t : Table V) (sought : String) : MyResult (Option Nat) :=
  match t.columns.findIdx? (fun c => c.name == sought || eqIgnoreAsciiCase c.name sought) with
  | some i => .ok (some i)
  | none =>
    match Types.rsplitOnce '.' sought.toList with
    | some (qualifier, col) =>
      let isJoin := t.columns.any (fun c => c.name.toList.contains '.')
      if isJoin || !sameName (lastPart (String.ofList qualifier)) t.name.toList then .ok none
      else .ok (t.columns.findIdx? (fun c => sameName c.name.toList col))
    | none =>
      match t.columns.zipIdx.filter (fun c => sameName (lastPart c.1.name) sought.toList) with
      | [] => .ok none
      | [c] => .ok (some c.2)
      | _ => .error (ambiguousColumn sought)

def outerColumn [ExprValue V] (name : String) : List (Table V × Row V) → MyResult (Option V)
  | [] => .ok none
  | (t, row) :: rest => do
      match ← resolveColumn t name with
      | some i => pure (some (row.getD i null))
      | none => outerColumn name rest

variable [ExprValue V] (outer : List (Table V × Row V))

def columnValue (row : Row V) (table : Option (Table V)) (name : String) : MyResult V := do
  let own ← match table with
    | some t => resolveColumn t name
    | none => pure none
  match own with
  | some i => pure (row.getD i null)
  | none =>
    match ← outerColumn name outer.reverse with
    | some v => pure v
    | none => .error (MySqlError.unknownColumn name)

end Columns

section Evaluation

variable {V : Type} [ExprValue V] (outer : List (Table V × Row V))

mutual

def evalExpr (row : Row V) (table : Option (Table V)) : Expr V → MyResult V
  | .const v => .ok v
  | .colName name => columnValue outer row table name
  | .apply operation args => do
      let values ← evalAll row table args
      operation values
  | .other _ eval => eval row table
  | .agg _ _ => .error (unsupported "expr in execution")
  | .and es => evalAnd row table (ofInt 1) es
  | .or es => evalOr row table (ofInt 0) es
  | .not e => do
      let v ← evalExpr row table e
      pure (if absent v then null else if isZero v then ofInt 1 else ofInt 0)
  | .case conditions elseResult => do
      match ← evalConditions row table conditions with
      | some v => pure v
      | none => evalElse row table elseResult

def evalAll (row : Row V) (table : Option (Table V)) : List (Expr V) → MyResult (List V)
  | [] => .ok []
  | e :: es => do
      let v ← evalExpr row table e
      let vs ← evalAll row table es
      pure (v :: vs)

/-- The loop of `And`, with the result so far. -/
def evalAnd (row : Row V) (table : Option (Table V)) (res : V) : List (Expr V) → MyResult V
  | [] => .ok res
  | e :: es => do
      let v ← evalExpr row table e
      if absent v then evalAnd row table null es
      else if isZero v then pure (ofInt 0)
      else evalAnd row table res es

/-- The loop of `Or`. -/
def evalOr (row : Row V) (table : Option (Table V)) (res : V) : List (Expr V) → MyResult V
  | [] => .ok res
  | e :: es => do
      let v ← evalExpr row table e
      if isOne v then pure (ofInt 1)
      else if absent v then evalOr row table null es
      else evalOr row table res es

def evalConditions (row : Row V) (table : Option (Table V)) :
    List (Expr V × Expr V) → MyResult (Option V)
  | [] => .ok none
  | (cond, result) :: rest => do
      let c ← evalExpr row table cond
      if passes c then do
        let v ← evalExpr row table result
        pure (some v)
      else evalConditions row table rest

def evalElse (row : Row V) (table : Option (Table V)) : Option (Expr V) → MyResult V
  | none => .ok null
  | some e => evalExpr row table e

end

mutual

def foldAggs (rows : List (Row V)) (table : Option (Table V)) : Expr V → MyResult (Expr V)
  | .agg _ compute => do
      let v ← compute rows table
      pure (.const v)
  | .and es => do
      let folded ← foldAll rows table es
      pure (.and folded)
  | .or es => do
      let folded ← foldAll rows table es
      pure (.or folded)
  | .apply operation args => do
      let folded ← foldAll rows table args
      pure (.apply operation folded)
  | .not e => do
      let folded ← foldAggs rows table e
      pure (.not folded)
  | .case conditions elseResult => do
      let folded ← foldConditions rows table conditions
      let foldedElse ← foldElse rows table elseResult
      pure (.case folded foldedElse)
  | .const v => .ok (.const v)
  | .colName name => .ok (.colName name)
  | .other names eval => .ok (.other names eval)

def foldAll (rows : List (Row V)) (table : Option (Table V)) :
    List (Expr V) → MyResult (List (Expr V))
  | [] => .ok []
  | e :: es => do
      let folded ← foldAggs rows table e
      let rest ← foldAll rows table es
      pure (folded :: rest)

def foldConditions (rows : List (Row V)) (table : Option (Table V)) :
    List (Expr V × Expr V) → MyResult (List (Expr V × Expr V))
  | [] => .ok []
  | (cond, result) :: rest => do
      let foldedCond ← foldAggs rows table cond
      let foldedResult ← foldAggs rows table result
      let folded ← foldConditions rows table rest
      pure ((foldedCond, foldedResult) :: folded)

def foldElse (rows : List (Row V)) (table : Option (Table V)) :
    Option (Expr V) → MyResult (Option (Expr V))
  | none => .ok none
  | some e => do
      let folded ← foldAggs rows table e
      pure (some folded)

end

def evalGroupExpr (e : Expr V) (rows : List (Row V)) (table : Option (Table V)) : MyResult V := do
  let folded ← foldAggs rows table e
  evalExpr outer (rows.headD []) table folded

/-- The rows at which a condition passes: the loops of `Filter` and of an inner join. -/
def passing (cond : Expr V) (table : Option (Table V)) (rows : List (Row V)) :
    MyResult (List (Row V)) :=
  rows.filterM (fun row => do
    let v ← evalExpr outer row table cond
    pure (passes v))

def keptGroups (having : Option (Expr V)) (table : Option (Table V))
    (groups : List (List (Row V))) : MyResult (List (List (Row V))) :=
  groups.filterM (fun rows =>
    match having with
    | none => pure true
    | some e => do
        let v ← evalGroupExpr outer e rows table
        pure (passes v))

def dmlMatches (t : Table V) (selection : Option (Expr V)) : MyResult (List (Row V × Nat)) :=
  t.rows.zipIdx.filterM (fun x =>
    match selection with
    | none => pure true
    | some e => do
        let v ← evalExpr outer x.1 (some t) e
        pure (passes v))

end Evaluation

inductive JoinOp (V : Type) where
  | cross
  | inner (cond : Expr V)
  | left (cond : Expr V)

def Rows (V : Type) (width : Nat) : Type :=
  { rows : List (Row V) // ∀ row ∈ rows, row.length = width }

inductive Plan (V : Type) where
  | scan (key : Key) (aliasName : Option String)
  | derived (aliasName : String) (names : List String) (rows : MyResult (Rows V names.length))
  | filter (source : Plan V) (predicate : Expr V)
  | join (left right : Plan V) (op : JoinOp V)

structure Reading (V : Type) where
  table : Key → MyResult (Table V)
  outer : List (Table V × Row V) := []
  rowidScans : Bool := false
  aligned : ∀ key t, table key = .ok t → ∀ row ∈ t.rows, row.length = t.columns.length

section Contexts

variable {V : Type}

def rowidColumn : Column V := { name := "__rowid", ty := .bigInt, notNull := true }

def derivedTable (aliasName : String) (names : List String) : Table V where
  name := aliasName
  columns := names.map (fun n => { name := String.ofList (lastPart n), ty := .text })

def qualify (t : Table V) : List (Column V) :=
  t.columns.map (fun c =>
    if c.name.toList.contains '.' then c else { c with name := t.name ++ "." ++ c.name })

def mergeTableContexts : Option (Table V) → Option (Table V) → Option (Table V)
  | some l, some r => some { name := "__join__", columns := qualify l ++ qualify r }
  | _, _ => none

def resolveTableContext (reading : Reading V) : Plan V → MyResult (Option (Table V))
  | .scan key aliasName => do
      let t ← reading.table key
      let columns := if reading.rowidScans then t.columns ++ [rowidColumn] else t.columns
      pure (some { t with rows := [], columns := columns, name := aliasName.getD t.name })
  | .derived aliasName names _ => .ok (some (derivedTable aliasName names))
  | .filter source _ => resolveTableContext reading source
  | .join left right _ => do
      let l ← resolveTableContext reading left
      let r ← resolveTableContext reading right
      pure (mergeTableContexts l r)

end Contexts

section Names

variable {V : Type}

mutual

/-- `for_each_colname`. -/
def colNames : Expr V → List String
  | .colName name => [name]
  | .apply _ args => colNamesAll args
  | .other names _ => names
  | .agg names _ => names
  | .and es => colNamesAll es
  | .or es => colNamesAll es
  | .not e => colNames e
  | .case conditions elseResult => colNamesConditions conditions ++ colNamesElse elseResult
  | .const _ => []

def colNamesAll : List (Expr V) → List String
  | [] => []
  | e :: es => colNames e ++ colNamesAll es

def colNamesConditions : List (Expr V × Expr V) → List String
  | [] => []
  | (cond, result) :: rest => colNames cond ++ colNames result ++ colNamesConditions rest

def colNamesElse : Option (Expr V) → List String
  | none => []
  | some e => colNames e

end

def isColumnOf (t : Table V) (name : String) : Bool :=
  match resolveColumn t name with
  | .ok (some _) => true
  | _ => false

def checkColumns (outer : List (Table V × Row V)) (table : Option (Table V)) (e : Expr V) :
    MyResult Unit :=
  match table with
  | none => .ok ()
  | some t => (colNames e).forM (fun name => do
      match ← resolveColumn t name with
      | some _ => pure ()
      | none =>
        if outer.any (fun o => isColumnOf o.1 name) then pure ()
        else .error (MySqlError.unknownColumn name))

end Names

section Execution

variable {V : Type} [ExprValue V] (reading : Reading V)

def executeFilter (predicate : Expr V) (context : Option (Table V)) (rows : List (Row V)) :
    MyResult (List (Row V)) := do
  if rows.isEmpty then checkColumns reading.outer context predicate
  passing reading.outer predicate context rows

/-- The loops of a join; the width of the padding is that of the first right row. -/
def executeJoin (op : JoinOp V) (context : Option (Table V)) (lRows rRows : List (Row V)) :
    MyResult (List (Row V)) :=
  match op with
  | .cross => .ok (lRows.flatMap (fun l => rRows.map (fun r => l ++ r)))
  | .inner cond => do
      let blocks ← lRows.mapM (fun l =>
        passing reading.outer cond context (rRows.map (fun r => l ++ r)))
      pure blocks.flatten
  | .left cond => do
      let rLen := (rRows.headD []).length
      let blocks ← lRows.mapM (fun l => do
        let matched ← passing reading.outer cond context (rRows.map (fun r => l ++ r))
        pure (if matched.isEmpty then [l ++ List.replicate rLen null] else matched))
      pure blocks.flatten

def executePlan : Plan V → MyResult (List (Row V))
  | .scan key _ => do
      let t ← reading.table key
      pure (if reading.rowidScans then t.rows.zipIdx.map (fun r => r.1 ++ [ofInt r.2]) else t.rows)
  | .derived _ _ rows => rows.map (fun rows => rows.val)
  | .filter source predicate => do
      let context ← resolveTableContext reading source
      let rows ← executePlan source
      executeFilter reading predicate context rows
  | .join left right op => do
      let lTable ← resolveTableContext reading left
      let rTable ← resolveTableContext reading right
      let lRows ← executePlan left
      let rRows ← executePlan right
      executeJoin reading op (mergeTableContexts lTable rTable) lRows rRows

end Execution

end NoidaDb.MySql.Plans
