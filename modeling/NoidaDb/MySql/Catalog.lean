/-
Tables, the shared database and the undo logs of open transactions.

`Shared` is a counted pointer; two are the same pointer if they have the same id.  Maps with ordered
keys are lists in key order; a hash map is walked in any order (`Walk`).
-/

import NoidaDb.MySql.Value

namespace NoidaDb.MySql

open MyValue

abbrev Key := String × String

def Key.before (a b : Key) : Bool :=
  decide (a.1 < b.1) || (decide (a.1 = b.1) && decide (a.2 < b.2))

/-- `BTreeMap::insert`. -/
def put {α : Type} (k : Key) (a : α) : List (Key × α) → List (Key × α)
  | [] => [(k, a)]
  | x :: rest =>
    if k = x.1 then (k, a) :: rest
    else if k.before x.1 then (k, a) :: x :: rest
    else x :: put k a rest

theorem lookup_cons_self {κ α : Type} [BEq κ] [LawfulBEq κ] (k : κ) (a : α)
    (rest : List (κ × α)) : ((k, a) :: rest).lookup k = some a := by
  simp

theorem lookup_cons_ne {κ α : Type} [BEq κ] [LawfulBEq κ] {k : κ} {x : κ × α}
    (different : k ≠ x.1) (rest : List (κ × α)) : (x :: rest).lookup k = rest.lookup k := by
  rw [List.lookup_cons, beq_eq_false_iff_ne.mpr different]

theorem lookup_put {α : Type} (k other : Key) (a : α) (map : List (Key × α)) :
    (put k a map).lookup other = if other = k then some a else map.lookup other := by
  by_cases same : other = k
  · rw [if_pos same, same]
    induction map with
    | nil => exact lookup_cons_self k a []
    | cons x rest ih =>
      unfold put
      split
      · exact lookup_cons_self k a rest
      · rename_i different
        split
        · exact lookup_cons_self k a (x :: rest)
        · rw [lookup_cons_ne different]
          exact ih
  · rw [if_neg same]
    induction map with
    | nil => exact lookup_cons_ne same []
    | cons x rest ih =>
      unfold put
      split
      · rename_i isKey
        rw [lookup_cons_ne same, lookup_cons_ne (by rw [← isKey]; exact same)]
      · split
        · exact lookup_cons_ne same (x :: rest)
        · rw [List.lookup_cons, List.lookup_cons, ih]

structure Walk (α : Type) where
  list : List α → List α
  perm : ∀ items, (list items).Perm items

def Walk.inTurn {α : Type} : Walk α := ⟨id, fun items => List.Perm.refl items⟩

inductive ColumnType where
  | int
  | bigInt
  | varchar (n : Nat)
  | text
  | float
  | double
  | decimal (precision scale : Nat)
  | date
  | datetime
  | boolean
  | enum (members : List String)
  | json
  | blob
  | tinyInt
  | smallInt
  | mediumInt
  | time (precision : Nat)
deriving Repr, DecidableEq

structure Column (V : Type) where
  name : String
  ty : ColumnType := .int
  notNull : Bool := false
  default : Option V := none
  autoIncrement : Bool := false
  primaryKey : Bool := false
  defaultNow : Bool := false
  onUpdateNow : Bool := false
  unsigned : Bool := false
deriving DecidableEq

structure UniqueKey where
  name : String
  columns : List String
deriving Repr, DecidableEq

inductive FkAction where
  | restrict
  | cascade
  | setNull
  | noAction
deriving Repr, DecidableEq

structure ForeignKey where
  name : String
  columns : List String
  refDb : String
  refTable : String
  refColumns : List String
  onDelete : FkAction := .noAction
  onUpdate : FkAction := .noAction
  index : String := ""
deriving Repr, DecidableEq

structure Check where
  name : String
  expr : String
deriving Repr, DecidableEq

structure Table (V : Type) where
  name : String
  columns : List (Column V)
  rows : List (Row V) := []
  nextAutoIncrement : Int := 1
  uniqueKeys : List UniqueKey := []
  foreignKeys : List ForeignKey := []
  indexes : List UniqueKey := []
  checks : List Check := []
deriving DecidableEq

def positionIgnoringCase {V : Type} (columns : List (Column V)) (name : String) : Option Nat :=
  columns.findIdx? (fun c => eqIgnoreAsciiCase c.name name)

def lastPart (name : String) : List Char :=
  (name.toList.reverse.takeWhile (fun c => c != '.')).reverse

def resolveColumnIndex {V : Type} (columns : List (Column V)) (sought : String) : Option Nat :=
  (columns.findIdx? (fun c => c.name == sought)).or
    ((positionIgnoringCase columns sought).or
      (columns.findIdx? (fun c =>
        (lastPart c.name).map Char.toLower == (lastPart sought).map Char.toLower)))

namespace Table

variable {V : Type}

def primaryColumns (t : Table V) : List Nat :=
  (t.columns.zipIdx.filter (fun x => x.1.primaryKey)).map Prod.snd

def keyColumns (t : Table V) (k : UniqueKey) : Option (List Nat) :=
  let idx := k.columns.filterMap (positionIgnoringCase t.columns)
  if idx.length = k.columns.length ∧ idx ≠ [] then some idx else none

def keys (t : Table V) : List (String × List Nat) :=
  (if t.primaryColumns = [] then [] else [("PRIMARY", t.primaryColumns)]) ++
    t.uniqueKeys.filterMap (fun k => (t.keyColumns k).map (fun idx => (k.name, idx)))

end Table

section Rows

variable {V : Type} [DecidableEq V]

def rowKey [MyValue V] (t : Table V) (row : Row V) : List V :=
  if t.primaryColumns = [] then row else t.primaryColumns.map row.col

/-- The rows only in `before` and the rows only in `after` (multisets). -/
def rowDiff (before after : List (Row V)) : List (Row V) × List (Row V) :=
  ((before.reverse.diff after).reverse, after.diff before)

/-- `swap_remove` at the first place `r` is found. -/
def swapRemove (rows : List (Row V)) (r : Row V) : List (Row V) :=
  match rows.getLast? with
  | none => rows
  | some last => (rows.set (rows.idxOf r) last).dropLast

/-- What is left of (`rows`, `removed`) after one row of the transaction's image. -/
def undoRow (left : List (Row V) × List (Row V)) (r : Row V) : List (Row V) × List (Row V) :=
  if r ∈ left.2 then (left.1, swapRemove left.2 r) else (left.1.erase r, left.2)

def undoRows (before ours current : List (Row V)) : List (Row V) :=
  let left := ours.foldl undoRow (current, before)
  left.1 ++ left.2

end Rows

structure Shared (V : Type) where
  id : Nat
  table : Table V

structure RowLock (V : Type) where
  key : Key
  row : List V
  exclusive : Bool

/-- One open transaction's undo log: for each table it wrote, the table before its first
write and as the transaction last left it. -/
structure TxUndo (V : Type) where
  tables : List (Key × Shared V × Shared V) := []
  locks : List (RowLock V) := []

structure DbState (V : Type) where
  databases : List String := []
  tables : List (Key × Shared V) := []
  openTxns : List (Nat × TxUndo V) := []
  nextId : Nat := 0

namespace DbState

variable {V : Type}

def get (state : DbState V) (key : Key) : Option (Shared V) := state.tables.lookup key

/-- `Arc::new` and `insert`. -/
def insert (state : DbState V) (key : Key) (t : Table V) : DbState V :=
  { state with
    tables := put key ⟨state.nextId, t⟩ state.tables
    nextId := state.nextId + 1 }

def undoOf (state : DbState V) (conn : Nat) : Option (TxUndo V) := state.openTxns.lookup conn

def referencing (state : DbState V) (key : Key) : List (Key × ForeignKey) :=
  state.tables.flatMap (fun x =>
    (x.2.table.foreignKeys.filter (fun fk =>
      decide (fk.refDb = key.1) && eqIgnoreAsciiCase fk.refTable key.2)).map (fun fk => (x.1, fk)))

/-- The tables that `key` is referenced by and that are not in `out`. -/
def reachedFrom (state : DbState V) (key : Key) (out : List Key) : List Key :=
  (state.referencing key).foldl (fun out x => if x.1 ∈ out then out else out ++ [x.1]) out

/-- The loop of `cascade_reach` from place `i` on. -/
def reachLoop (state : DbState V) : Nat → Nat → List Key → List Key
  | 0, _, out => out
  | fuel + 1, i, out =>
    match out[i]? with
    | none => out
    | some key => reachLoop state fuel (i + 1) (state.reachedFrom key out)

def cascadeReach (state : DbState V) (key : Key) : List Key :=
  state.reachLoop (state.tables.length + 2) 0 [key]

variable [DecidableEq V] [MyValue V]

/-- The row keys of the table that other connections' open transactions hold, with the
holder and whether the lock is exclusive. -/
def lockedRows (walk : Walk (Nat × TxUndo V)) (state : DbState V) (me : Nat) (key : Key) :
    List (Nat × List V × Bool) :=
  ((walk.list state.openTxns).filter (fun x => x.1 != me)).flatMap (fun x =>
    (match x.2.tables.lookup key with
      | none => []
      | some (before, ours) =>
        let diff := rowDiff before.table.rows ours.table.rows
        (diff.1 ++ diff.2).map (fun r => (x.1, rowKey ours.table r, true))) ++
      (x.2.locks.filter (fun l => decide (l.key = key))).map (fun l => (x.1, l.row, l.exclusive)))

def undoTable (current before ours : Shared V) : Table V :=
  let restored :=
    if current.id = ours.id then before.table
    else { current.table with
      rows := undoRows before.table.rows ours.table.rows current.table.rows }
  { restored with nextAutoIncrement := current.table.nextAutoIncrement }

def undo (state : DbState V) (undo : TxUndo V) : DbState V :=
  undo.tables.foldl (fun state x =>
    match state.get x.1 with
    | none => state
    | some current => state.insert x.1 (undoTable current x.2.1 x.2.2)) state

end DbState

end NoidaDb.MySql
