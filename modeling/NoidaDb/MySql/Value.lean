/-
Errors, values and rows of the MySQL engine.
-/

import Mathlib.Data.List.Basic
import Mathlib.Order.Compare

namespace NoidaDb.MySql

inductive MySqlError where
  /-- Never sent: the statement must wait for the transaction of connection `holder`. -/
  | lockWait (holder : Nat)
  | error (code : Nat) (sqlState message : String)
deriving Repr, DecidableEq

namespace MySqlError

def unknownTable (table : String) : MySqlError :=
  .error 1146 "42S02" ("Table '" ++ table ++ "' doesn't exist")

def unknownColumn (col : String) : MySqlError :=
  .error 1054 "42S22" ("Unknown column '" ++ col ++ "' in 'field list'")

def unknownDatabase (db : String) : MySqlError :=
  .error 1049 "42000" ("Unknown database '" ++ db ++ "'")

end MySqlError

abbrev MyResult (α : Type) := Except MySqlError α

/-- `eq_ignore_ascii_case`. -/
def eqIgnoreAsciiCase (a b : String) : Bool :=
  a.toList.map Char.toLower == b.toList.map Char.toLower

/-- What the statement code needs of `types::Value`.  Values of one column are equal under
`==` if they print the same: each is stored as its column's type. -/
class MyValue (V : Type) where
  null : V
  ofInt : Int → V
  asInt : V → Option Int
  /-- `funcs::truthy`. -/
  truthy : V → Bool
  renderText : V → String
  /-- `mysql_cmp(a, b) == Some(Ordering::Equal)`. -/
  cmpEqual : V → V → Bool
  /-- The order of `sort_cmp`: `a` does not come after `b`. -/
  sortLe : V → V → Bool
  cmpEqual_symm : ∀ a b, cmpEqual a b = true → cmpEqual b a = true

open MyValue

variable {V : Type} [DecidableEq V] [MyValue V]

def isNull (v : V) : Bool := decide (v = null)

abbrev Row (V : Type) := List V

/-- `row[c]`; every stored row has one value for each column. -/
def Row.col (row : Row V) (c : Nat) : V := row.getD c null

def keysEqual (a b : List V) : Bool :=
  (a.zip b).all (fun x =>
    match isNull x.1, isNull x.2 with
    | true, true => true
    | false, false => cmpEqual x.1 x.2
    | _, _ => false)

inductive Scalar where
  | null
  | int (i : Int)
  | text (s : String)
deriving Repr, DecidableEq

namespace Scalar

/-- `mysql_cmp` on values of one type: text compares without regard to case. -/
def cmpEqual : Scalar → Scalar → Bool
  | .null, .null => true
  | .int a, .int b => a == b
  | .text a, .text b => a.toLower == b.toLower
  | _, _ => false

def rank : Scalar → Nat
  | .null => 0
  | .int _ => 1
  | .text _ => 2

def sortLe : Scalar → Scalar → Bool
  | .int a, .int b => decide (a ≤ b)
  | .text a, .text b => decide (a.toLower ≤ b.toLower)
  | a, b => decide (a.rank ≤ b.rank)

end Scalar

instance : MyValue Scalar where
  null := .null
  ofInt := .int
  asInt
    | .int i => some i
    | _ => none
  truthy
    | .int i => i != 0
    | _ => false
  renderText
    | .null => ""
    | .int i => toString i
    | .text s => s
  cmpEqual := Scalar.cmpEqual
  sortLe := Scalar.sortLe
  cmpEqual_symm a b equal := by
    cases a <;> cases b <;> simp_all [Scalar.cmpEqual]

end NoidaDb.MySql
