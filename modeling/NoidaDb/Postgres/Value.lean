/-
Errors, values and rows as the executor and the constraint checks see them.
-/

import Mathlib.Data.List.Basic
import Mathlib.Order.Compare

namespace NoidaDb.Postgres

structure PgError where
  code : String
  message : String
  detail : Option String := none
  hint : Option String := none
  schema : Option String := none
  table : Option String := none
  column : Option String := none
  constraint : Option String := none
deriving Repr, DecidableEq

abbrev PgResult (α : Type) := Except PgError α

namespace Code

def cardinalityViolation : String := "21000"
def generatedAlways : String := "428C9"
def notNullViolation : String := "23502"
def foreignKeyViolation : String := "23503"
def uniqueViolation : String := "23505"
def checkViolation : String := "23514"
def inFailedSqlTransaction : String := "25P02"
def invalidParameterValue : String := "22023"
def noActiveSqlTransaction : String := "25P01"
def invalidSavepointSpecification : String := "3B001"
def undefinedTable : String := "42P01"
def undefinedObject : String := "42704"
def wrongObjectType : String := "42809"
def lockNotAvailable : String := "55P03"
def statementTooComplex : String := "54001"

end Code

/-- What the statement code needs of `types::Value`. -/
class PgValue (V : Type) where
  null : V
  isNull : V → Bool
  asBool : V → Option Bool
  ofInt : Int → V
  ofText : String → V
  toText : V → String
  cmpValues : V → V → Ordering
  isNull_null : isNull null = true
  cmp_refl : ∀ a, cmpValues a a = .eq
  cmp_symm : ∀ a b, cmpValues a b = .eq → cmpValues b a = .eq
  cmp_isNull : ∀ a b, cmpValues a b = .eq → isNull a = isNull b

open PgValue

/-- Equality is transitive, as it is on the values of one column and of those a foreign key pairs
with it.  Where an integer or a NUMERIC is compared with a float, it is not. -/
class TransitiveCmp (V : Type) [PgValue V] : Prop where
  cmp_trans : ∀ a b c : V, cmpValues a b = .eq → cmpValues b c = .eq → cmpValues a c = .eq

variable {V : Type} [PgValue V]

def valuesEqual (a b : V) : Bool :=
  cmpValues a b == .eq

theorem valuesEqual_iff (a b : V) : valuesEqual a b = true ↔ cmpValues a b = .eq := by
  simp [valuesEqual]

theorem valuesEqual_symm {a b : V} (equal : valuesEqual a b = true) :
    valuesEqual b a = true :=
  (valuesEqual_iff b a).mpr (cmp_symm a b ((valuesEqual_iff a b).mp equal))

abbrev Row (V : Type) := List V

/-- `row[c]`; every stored row has one value for each column. -/
def Row.col (row : Row V) (c : Nat) : V := row.getD c null

variable {c : Nat}

@[simp] theorem Row.col_set_eq (row : Row V) (c : Nat) (v : V) (within : c < row.length) :
    Row.col (row.set c v) c = v := by
  simp [Row.col, List.getD_eq_getElem?_getD, within]

theorem Row.col_set_ne (row : Row V) {d : Nat} (v : V) (different : d ≠ c) :
    Row.col (row.set c v) d = Row.col row d := by
  simp [Row.col, List.getD_eq_getElem?_getD, List.getElem?_set_ne (Ne.symm different)]

theorem Row.lt_length_of_isNull {row : Row V} (present : isNull (Row.col row c) = false) :
    c < row.length := by
  by_contra outside
  have short : row.length ≤ c := Nat.le_of_not_lt outside
  rw [Row.col, List.getD_eq_getElem?_getD, List.getElem?_eq_none short, Option.getD_none,
    isNull_null] at present
  cases present

inductive Scalar where
  | null
  | bool (b : Bool)
  | int (i : Int)
  | text (s : String)
deriving Repr, DecidableEq

/-- `Value::rank`, with the order `cmp_values` gives NULL (it sorts last). -/
def Scalar.rank : Scalar → Nat
  | .bool _ => 1
  | .int _ => 2
  | .text _ => 3
  | .null => 4

def Scalar.cmpValues : Scalar → Scalar → Ordering
  | .bool a, .bool b => compare a b
  | .int a, .int b => compare a b
  | .text a, .text b => compare a b
  | a, b => compare a.rank b.rank

theorem Scalar.cmpValues_eq_iff (a b : Scalar) : a.cmpValues b = .eq ↔ a = b := by
  cases a <;> cases b <;> simp [Scalar.cmpValues, Scalar.rank]

def Scalar.toText : Scalar → String
  | .null => "null"
  | .bool b => if b then "t" else "f"
  | .int i => toString i
  | .text s => s

instance : PgValue Scalar where
  null := .null
  isNull v := v == .null
  asBool
    | .bool b => some b
    | _ => none
  ofInt := .int
  ofText := .text
  toText := Scalar.toText
  cmpValues := Scalar.cmpValues
  isNull_null := rfl
  cmp_refl a := (Scalar.cmpValues_eq_iff a a).mpr rfl
  cmp_symm a b equal :=
    (Scalar.cmpValues_eq_iff b a).mpr ((Scalar.cmpValues_eq_iff a b).mp equal).symm
  cmp_isNull a b equal := by rw [(Scalar.cmpValues_eq_iff a b).mp equal]

instance : TransitiveCmp Scalar where
  cmp_trans a b c first second :=
    (Scalar.cmpValues_eq_iff a c).mpr
      (((Scalar.cmpValues_eq_iff a b).mp first).trans ((Scalar.cmpValues_eq_iff b c).mp second))

end NoidaDb.Postgres
