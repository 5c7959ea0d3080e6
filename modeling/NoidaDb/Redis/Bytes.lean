/-
Byte strings, the numbers in them, and replies.
-/

import Mathlib.Data.List.Sort
import Mathlib.Data.Nat.Digits.Defs
import Mathlib.Data.List.Lex
import Mathlib.Data.Prod.Lex

namespace NoidaDb.Redis

instance byteOrder : LinearOrder UInt8 :=
  LinearOrder.lift' UInt8.toNat (fun _ _ same => UInt8.toNat_inj.mp same)

/-- `Vec<u8>`. -/
abbrev Bytes := List UInt8

abbrev U64 := Fin (2 ^ 64)

instance u64NeZero : NeZero (2 ^ 64 : Nat) := ⟨by decide⟩

def ascii (s : String) : Bytes := s.toList.map (fun c => c.toNat.toUInt8)

def isAsciiDigit (b : UInt8) : Bool := 48 ≤ b.toNat && b.toNat ≤ 57

def toAsciiLower (b : UInt8) : UInt8 := if 65 ≤ b.toNat && b.toNat ≤ 90 then b + 32 else b

def eqIgnoreAsciiCase (a b : Bytes) : Bool := a.map toAsciiLower == b.map toAsciiLower

/-- `eq_ic`. -/
def eqIc (a : Bytes) (b : String) : Bool := eqIgnoreAsciiCase a (ascii b)

def isContinuation (b : UInt8) : Bool := 0x80 ≤ b.toNat && b.toNat ≤ 0xBF

def secondAllowed (first second : UInt8) : Bool :=
  match first.toNat with
  | 0xE0 => 0xA0 ≤ second.toNat && second.toNat ≤ 0xBF
  | 0xED => 0x80 ≤ second.toNat && second.toNat ≤ 0x9F
  | 0xF0 => 0x90 ≤ second.toNat && second.toNat ≤ 0xBF
  | 0xF4 => 0x80 ≤ second.toNat && second.toNat ≤ 0x8F
  | _ => isContinuation second

def utf8Width (b : UInt8) : Nat :=
  if b.toNat < 0x80 then 1
  else if 0xC2 ≤ b.toNat ∧ b.toNat ≤ 0xDF then 2
  else if 0xE0 ≤ b.toNat ∧ b.toNat ≤ 0xEF then 3
  else if 0xF0 ≤ b.toNat ∧ b.toNat ≤ 0xF4 then 4
  else 0

def wellFollowed (first : UInt8) (rest : Bytes) : Bytes :=
  match rest.take (utf8Width first - 1) with
  | [] => []
  | second :: more =>
    if secondAllowed first second then second :: more.takeWhile isContinuation else []

/-- `from_utf8_lossy`: one replacement character for each ill-formed run. -/
def lossyChars : Nat → Bytes → List Char
  | 0, _ => []
  | _, [] => []
  | fuel + 1, first :: rest =>
    let follow := wellFollowed first rest
    let c :=
      if utf8Width first = follow.length + 1 then
        let low := if utf8Width first = 1 then first.toNat
          else first.toNat % 2 ^ (7 - utf8Width first)
        Char.ofNat (follow.foldl (fun n b => 64 * n + b.toNat % 64) low)
      else '\uFFFD'
    c :: lossyChars fuel (rest.drop follow.length)

def lossy (b : Bytes) : String := String.ofList (lossyChars b.length b)

def digitValue (b : UInt8) : Nat := b.toNat - 48

def valueOf (digits : Bytes) : Nat := digits.foldl (fun n b => 10 * n + digitValue b) 0

def i64Min : Int := -2 ^ 63

def i64Max : Int := 2 ^ 63 - 1

/-- `string2ll`: no plus sign, no spaces, no leading zeros, and no overflow. -/
def parseInt (b : Bytes) : Option Int :=
  if b = [] || decide (20 < b.length) then none
  else if b = ascii "0" then some 0
  else
    let neg := b.head? == some 45
    let digits := if neg then b.tail else b
    if digits.head?.any (fun d => isAsciiDigit d && d != 48) && digits.all isAsciiDigit then
      let n : Int := if neg then -(valueOf digits : Int) else valueOf digits
      if i64Min ≤ n ∧ n ≤ i64Max then some n else none
    else none

/-- `parse::<u64>`, which takes a plus sign. -/
def parseU64 (b : Bytes) : Option U64 :=
  let digits := if b.head? == some 43 then b.tail else b
  if digits ≠ [] ∧ digits.all isAsciiDigit then
    if fits : valueOf digits < 2 ^ 64 then some ⟨valueOf digits, fits⟩ else none
  else none

/-- `to_string` of a natural number. -/
def showNat (n : Nat) : Bytes :=
  if n = 0 then [48] else (Nat.digits 10 n).reverse.map (fun d => (48 + d).toUInt8)

def showInt (i : Int) : Bytes := if i < 0 then 45 :: showNat i.natAbs else showNat i.natAbs

structure F64 where
  bits : U64
deriving DecidableEq, Repr

namespace F64

def negative (x : F64) : Bool := 2 ^ 63 ≤ x.bits.val

def magnitude (x : F64) : Nat := x.bits.val % 2 ^ 63

def infinite : Nat := 0x7FF * 2 ^ 52

def isNan (x : F64) : Bool := infinite < x.magnitude

def place (x : F64) : Int := if x.negative then -(x.magnitude : Int) else x.magnitude

/-- `partial_cmp`. -/
def partialCmp (x y : F64) : Option Ordering :=
  if x.isNan || y.isNan then none else some (compare x.place y.place)

def zero : F64 := ⟨0⟩

end F64

/-- `resp::Value`. -/
inductive Value where
  | simple (s : String)
  | error (s : String)
  | integer (n : Int)
  | bulk (b : Bytes)
  | null
  | array (items : List Value)
  | nullArray
  | map (pairs : List (Value × Value))
  | set (items : List Value)
  | verbatim (format : String) (text : Bytes)
  | double (d : F64)
  | bool (b : Bool)
  | bigNumber (n : String)
  | push (items : List Value)
  | attribute (pairs : List (Value × Value))
  | many (items : List Value)
  | noReply

abbrev Reply := Except Value Value

namespace Value

def ok : Value := .simple "OK"

end Value

/-- `Err(Value::err(msg))`. -/
def fail {α : Type} (message : String) : Except Value α := .error (.error message)

def syntaxError {α : Type} : Except Value α := fail "ERR syntax error"

def notInt {α : Type} : Except Value α := fail "ERR value is not an integer or out of range"

def wrongType : Value :=
  .error "WRONGTYPE Operation against a key holding the wrong kind of value"

def asI64 (n : Nat) : Int := if n % 2 ^ 64 < 2 ^ 63 then n % 2 ^ 64 else n % 2 ^ 64 - 2 ^ 64

def intArg (b : Bytes) : Except Value Int :=
  match parseInt b with
  | some n => .ok n
  | none => notInt

end NoidaDb.Redis
