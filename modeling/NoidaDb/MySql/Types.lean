/-
Values of the MySQL engine, their text and their comparison.

`Value` is `types::Value`.  What the code asks of the standard library, of the conversions
to and from floating point, and of the readers of dates, is in `Readers`.
-/

import NoidaDb.MySql.Catalog
import NoidaDb.Sql.Datetime

namespace NoidaDb.MySql.Types

open Lib NoidaDb.Sql

inductive Value where
  | null
  | bool (b : Bool)
  | int (i : Int)
  /-- A double as the number it is: nothing here tells -0 from 0. -/
  | float (x : Amount)
  | num (n : Numeric)
  | text (s : String)
  | bytes (b : List UInt8)
  | date (d : Int)
  | time (us : Int)
  | ts (us : Int)
  | json (j : Json)

namespace Value

def isNull : Value → Bool
  | null => true
  | _ => false

/-- `==` on doubles: NaN is not equal to itself. -/
def floatEq (x y : Amount) : Bool := decide (x ≠ .nan) && decide (x = y)

/-- The derived `==`. -/
def eq : Value → Value → Bool
  | null, null => true
  | bool a, bool b => a == b
  | int a, int b => a == b
  | float a, float b => floatEq a b
  | num a, num b => cmpNum a b == .eq
  | text a, text b => a == b
  | bytes a, bytes b => a == b
  | date a, date b => a == b
  | time a, time b => a == b
  | ts a, ts b => a == b
  | json a, json b => Json.cmpJsonb a b == .eq
  | _, _ => false

def isNumeric : Value → Bool
  | int _ => true
  | float _ => true
  | num _ => true
  | bool _ => true
  | _ => false

def isText : Value → Bool
  | text _ => true
  | _ => false

def isTemporal : Value → Bool
  | date _ => true
  | ts _ => true
  | _ => false

def isExact : Value → Bool
  | int _ => true
  | num _ => true
  | bool _ => true
  | _ => false

end Value

/-- What is read or converted by code that a column's values do not depend on further. -/
structure Readers where
  /-- `str::to_lowercase`. -/
  lower : String → String
  /-- `String::from_utf8_lossy`. -/
  lossy : List UInt8 → String
  /-- `{}` of a double. -/
  showF64 : Amount → String
  f64OfInt : Int → Amount
  f64OfNumeric : Numeric → Amount
  /-- `Numeric::from_f64`. -/
  numericOfF64 : Amount → Numeric
  parseF64 : String → Option Amount
  /-- `parse::<i128>`. -/
  parseI128 : String → Option Int
  /-- `mysql_text_to_f64`. -/
  textToF64 : String → Amount
  leadingF64 : String → Amount
  parseTime : String → Option Int
  parseDate : String → Option Int
  parseDatetime : String → Option Int
  lossy_utf8 : ∀ s : String, lossy s.toUTF8.data.toList = s
  numericOfF64_normal : ∀ x, (numericOfF64 x).Normal
  /-- Days are in 32 bits, and microseconds in 64. -/
  parseDate_range : ∀ s d, parseDate s = some d → dateNegInf ≤ d
  parseDatetime_range : ∀ s t, parseDatetime s = some t → tsNegInf ≤ t
  /-- The zero dates do not parse. -/
  zeroDate : parseDatetime "0000-00-00" = none
  zeroDatetime : parseDatetime "0000-00-00 00:00:00" = none

/-- `Numeric::from_i64`. -/
def numericOfInt (i : Int) : Numeric :=
  .fin { neg := i < 0, digits := (Nat.digits 10 i.natAbs).reverse, scale := 0 }

/-- `rsplit_once`. -/
def rsplitOnce (sep : Char) (s : List Char) : Option (List Char × List Char) :=
  let tail := s.reverse.takeWhile (fun c => c ≠ sep)
  match s.reverse.dropWhile (fun c => c ≠ sep) with
  | [] => none
  | _ :: head => some (head.reverse, tail.reverse)

def mysqlFraction (text : List Char) (micros : Int) : List Char :=
  if micros % 1000000 = 0 then text
  else
    match rsplitOnce '.' text with
    | none => text
    | some parts =>
      if parts.2.length < 6 && parts.2.all isDigit then
        parts.1 ++ '.' :: parts.2 ++ List.replicate (6 - parts.2.length) '0'
      else text

/-- `838:59:59`. -/
def maxMysqlTime : Int := (838 * 3600 + 59 * 60 + 59) * 1000000

/-- `HH:MM:SS[.ffffff]`, where the hours do not wrap. -/
def clock (us : Nat) : List Char :=
  let secs := us / 1000000
  padded 2 (secs / 3600) ++ ':' :: padded 2 (secs / 60 % 60) ++ ':' :: padded 2 (secs % 60) ++
    if us % 1000000 = 0 then [] else '.' :: padded 6 (us % 1000000)

def formatMysqlTime (us : Int) : List Char :=
  (if us < 0 then ['-'] else []) ++ clock us.natAbs

namespace Amount

def short : Amount → Option Int
  | .real q => if q.den = 1 ∧ q.num.natAbs < 10 ^ 15 then some q.num else none
  | _ => none

end Amount

section Comparison

variable (r : Readers)

def formatDouble (x : Amount) : String :=
  match Amount.short x with
  | some i => toString i
  | none => r.showF64 x

def renderText : Value → String
  | .null => ""
  | .text s => s
  | .int i => toString i
  | .bool b => if b then "1" else "0"
  | .float x => formatDouble r x
  | .num n => String.ofList n.show
  | .date d => String.ofList (formatDate d)
  | .ts t => String.ofList (mysqlFraction (formatTimestamp t) t)
  | .time t => String.ofList (formatMysqlTime t)
  | .bytes b => r.lossy b
  | .json j => j.toJsonbString

def valueToF64 : Value → Amount
  | .int i => r.f64OfInt i
  | .float x => x
  | .num n => r.f64OfNumeric n
  | .bool b => .real (if b then 1 else 0)
  | .text s => r.textToF64 s
  | .json (.num n) => r.f64OfNumeric n
  | .json (.str s) => r.textToF64 s
  | .json (.bool b) => .real (if b then 1 else 0)
  | _ => .real 0

def valueToNumeric : Value → Option Numeric
  | .int i => some (numericOfInt i)
  | .num n => some n
  | .bool b => some (numericOfInt (if b then 1 else 0))
  | .float x => some (r.numericOfF64 x)
  | .text s =>
    match Numeric.parse (trim s.toList) with
    | .ok n => some n
    | .error _ => some (r.numericOfF64 (r.textToF64 s))
  | _ => none

/-- `f64::partial_cmp`. -/
def partialCmp (x y : Amount) : Option Ordering :=
  if x = .nan ∨ y = .nan then none else some (x.cmp y)

def midnight (d : Int) : Int := (d * usecsPerDay).bmod (2 ^ 64)

def cmpTemporal (a : Value) (us : Int) (s : String) : Ordering :=
  match r.parseDatetime s with
  | some t => compare us t
  | none => cmpText (renderText r a) s

def mysqlCmp (a b : Value) : Option Ordering :=
  match a, b with
  | .text x, .text y => some (cmpText (r.lower x) (r.lower y))
  | .date x, .date y => some (compare x y)
  | .ts x, .ts y => some (compare x y)
  | .date x, .ts y => some (compare (midnight x) y)
  | .ts x, .date y => some (compare x (midnight y))
  | .date x, .text s => some (cmpTemporal r (.date x) (midnight x) s)
  | .ts x, .text s => some (cmpTemporal r (.ts x) x s)
  | .text s, .date x => some (cmpTemporal r (.date x) (midnight x) s).swap
  | .text s, .ts x => some (cmpTemporal r (.ts x) x s).swap
  | .int x, .int y => some (compare x y)
  | a, b =>
    if a.isTemporal || b.isTemporal then some (cmpText (renderText r a) (renderText r b))
    else if (a.isNumeric || a.isText) && (b.isNumeric || b.isText) then
      if a.isExact && b.isExact then
        match valueToNumeric r a, valueToNumeric r b with
        | some x, some y => some (cmpNum x y)
        | _, _ => none
      else partialCmp (valueToF64 r a) (valueToF64 r b)
    else some (cmpText (renderText r a) (renderText r b))

/-- `mysql_cmp(a, b) == Some(Ordering::Equal)`. -/
def cmpEqual (a b : Value) : Bool := mysqlCmp r a b == some .eq

end Comparison

end NoidaDb.MySql.Types
