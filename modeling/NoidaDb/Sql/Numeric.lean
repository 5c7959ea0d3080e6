/-
Arbitrary-precision `numeric`: a decimal digit string and a scale.

Digits stand most significant first, one a byte.  Scales and the columns of a product are
32-bit numbers.
-/

import NoidaDb.Lib.Digits

namespace NoidaDb.Sql

open Lib

/-- A finite decimal: `(-1)^neg * digits * 10^-scale`. -/
structure Dec where
  neg : Bool := false
  /-- No leading zeros; empty means zero. -/
  digits : List Nat := []
  scale : Nat := 0
  /-- How many of the fraction digits are not shown. -/
  hidden : Nat := 0
deriving Repr, DecidableEq

inductive Numeric where
  | nan
  /-- `true` for -Infinity. -/
  | inf (neg : Bool)
  | fin (d : Dec)
deriving Repr, DecidableEq

inductive NumError where
  | syntaxError
  | divByZero
  | overflow
  /-- Not an answer: the process is aborted. -/
  | aborts
deriving Repr, DecidableEq

def maxDisplayScale : Nat := 1000

def strip (v : List Nat) : List Nat := v.dropWhile (fun d => d == 0)

def cmpMag (a b : List Nat) : Ordering := (compare a.length b.length).then (compare a b)

def addCarry : List Nat → Nat → List Nat
  | [], carry => if carry = 0 then [] else [carry % 10]
  | x :: xs, carry => (x + carry) % 10 :: addCarry xs ((x + carry) / 10)

/-- The loop of `add_mag`, last digit first. -/
def addLoop : List Nat → List Nat → Nat → List Nat
  | [], ys, carry => addCarry ys carry
  | x :: xs, [], carry => addCarry (x :: xs) carry
  | x :: xs, y :: ys, carry => (x + y + carry) % 10 :: addLoop xs ys ((x + y + carry) / 10)

def addMag (a b : List Nat) : List Nat := strip (addLoop a.reverse b.reverse 0).reverse

/-- The loop of `sub_mag`, last digit first. -/
def subLoop : List Nat → List Nat → Int → List Nat
  | [], _, _ => []
  | x :: xs, ys, borrow =>
    let s := (x : Int) - borrow - ys.headD 0
    if s < 0 then (s + 10).toNat :: subLoop xs ys.tail 1 else s.toNat :: subLoop xs ys.tail 0

/-- `a - b` where `a >= b`. -/
def subMag (a b : List Nat) : List Nat := strip (subLoop a.reverse b.reverse 0).reverse

def addColumn (acc : List Nat) (k v : Nat) : List Nat := acc.modify k (fun c => (c + v) % 2 ^ 32)

def positions (a : List Nat) : List (Nat × Nat) := a.zipIdx.reverse

def mulColumns (a b : List Nat) : List Nat :=
  (positions a).foldl (fun acc x =>
    (positions b).foldl (fun acc y => addColumn acc (x.2 + y.2 + 1) (x.1 * y.1)) acc)
    (List.replicate (a.length + b.length) 0)

def carryLoop : List Nat → Nat → List Nat
  | [], _ => []
  | [c], carry => [(c + carry) % 2 ^ 32 % 256]
  | c :: d :: rest, carry =>
    (c + carry) % 2 ^ 32 % 10 :: carryLoop (d :: rest) ((c + carry) % 2 ^ 32 / 10)

def mulMag (a b : List Nat) : List Nat :=
  if a = [] ∨ b = [] then [] else strip (carryLoop (mulColumns a b).reverse 0).reverse

namespace Dec

def zero (scale : Nat) : Dec := { scale := scale }

def normalize (d : Dec) : Dec :=
  { d with digits := strip d.digits, neg := if strip d.digits = [] then false else d.neg }

def isZero (d : Dec) : Bool := d.digits.isEmpty

def withScale (d : Dec) (scale : Nat) : List Nat :=
  if d.digits = [] then [] else d.digits ++ List.replicate (scale - d.scale) 0

/-- Rounds half away from zero, or truncates, to `scale` digits after the point. -/
def roundTo (d : Dec) (scale : Int) (truncate : Bool) : Dec :=
  if (d.scale : Int) ≤ scale then
    let s := max (min scale.toNat maxDisplayScale) d.scale
    { neg := d.neg, digits := d.withScale s, scale := s }
  else
    let drop := (d.scale - scale).toNat
    let kept := d.digits.take (d.digits.length - drop)
    let removed := d.digits.drop (d.digits.length - drop)
    let roundUp := !truncate && decide (removed.length = drop) && removed.head?.any (fun x => decide (5 ≤ x))
    let kept := if roundUp then addMag kept [1] else kept
    let kept := if scale < 0 ∧ kept ≠ [] then kept ++ List.replicate (-scale).toNat 0 else kept
    { neg := d.neg, digits := kept, scale := scale.toNat : Dec }.normalize

end Dec

def addDec (a b : Dec) : Dec :=
  let scale := max a.scale b.scale
  let da := a.withScale scale
  let db := b.withScale scale
  if a.neg = b.neg then { neg := a.neg, digits := addMag da db, scale := scale : Dec }.normalize
  else
    match cmpMag da db with
    | .eq => Dec.zero scale
    | .gt => { neg := a.neg, digits := subMag da db, scale := scale : Dec }.normalize
    | .lt => { neg := b.neg, digits := subMag db da, scale := scale : Dec }.normalize

namespace Numeric

def isZero : Numeric → Bool
  | fin d => d.isZero
  | _ => false

def isNegative : Numeric → Bool
  | fin d => d.neg
  | inf neg => neg
  | nan => false

protected def neg : Numeric → Numeric
  | nan => nan
  | inf neg => inf !neg
  | fin d => fin { d with neg := !d.neg : Dec }.normalize

protected def add : Numeric → Numeric → Numeric
  | nan, _ => nan
  | _, nan => nan
  | inf a, inf b => if a = b then inf a else nan
  | inf a, _ => inf a
  | _, inf b => inf b
  | fin a, fin b => fin (addDec a b)

protected def sub (a b : Numeric) : Numeric := a.add b.neg

def mulDec (a b : Dec) : Dec :=
  let d := { neg := a.neg != b.neg
             digits := mulMag a.digits b.digits
             scale := (a.scale + b.scale) % 2 ^ 32 : Dec }.normalize
  if maxDisplayScale < d.scale then d.roundTo maxDisplayScale false else d

protected def mul (a b : Numeric) : Numeric :=
  match a, b with
  | nan, _ => nan
  | _, nan => nan
  | fin a, fin b => fin (mulDec a b)
  | a, b => if a.isZero || b.isZero then nan else inf (a.isNegative != b.isNegative)

end Numeric

def cmpNum : Numeric → Numeric → Ordering
  | .nan, .nan => .eq
  | .nan, _ => .gt
  | _, .nan => .lt
  | .inf x, .inf y => compare y x
  | .inf x, _ => if x then .lt else .gt
  | _, .inf y => if y then .gt else .lt
  | .fin x, .fin y =>
    if x.neg ≠ y.neg then (if x.neg then .lt else .gt)
    else
      let s := max x.scale y.scale
      let m := cmpMag (x.withScale s) (y.withScale s)
      if x.neg then m.swap else m

def isWhitespace (c : Char) : Bool :=
  let n := c.toNat
  (9 ≤ n && n ≤ 13) || n == 0x20 || n == 0x85 || n == 0xA0 || n == 0x1680 ||
    (0x2000 ≤ n && n ≤ 0x200A) || n == 0x2028 || n == 0x2029 || n == 0x202F || n == 0x205F ||
      n == 0x3000

def trim (s : List Char) : List Char :=
  ((s.dropWhile isWhitespace).reverse.dropWhile isWhitespace).reverse

/-- `char::is_ascii_digit`. -/
def isDigit (c : Char) : Bool := '0'.toNat ≤ c.toNat && c.toNat ≤ '9'.toNat

def digitOf (c : Char) : Nat := c.toNat - '0'.toNat

def digitChar (d : Nat) : Char := Char.ofNat ('0'.toNat + d)

structure ScannedDigits where
  digits : List Nat
  scale : Nat
  seenDigit : Bool
  rest : List Char
deriving Repr, DecidableEq

def scanDigits : List Char → Bool → Bool → ScannedDigits
  | [], seenDigit, _ => { digits := [], scale := 0, seenDigit := seenDigit, rest := [] }
  | c :: rest, seenDigit, seenPoint =>
    if isDigit c then
      let r := scanDigits rest true seenPoint
      { r with
        digits := digitOf c :: r.digits
        scale := if seenPoint then r.scale + 1 else r.scale }
    else if c = '.' ∧ seenPoint = false then scanDigits rest seenDigit true
    else if c = '_' ∧ seenDigit = true ∧ rest.head?.any isDigit = true then
      scanDigits rest seenDigit seenPoint
    else { digits := [], scale := 0, seenDigit := seenDigit, rest := c :: rest }

def splitSign : List Char → Bool × List Char
  | '+' :: rest => (false, rest)
  | '-' :: rest => (true, rest)
  | rest => (false, rest)

def scanExponent (s : List Char) : Except NumError (Int × List Char) :=
  let ds := (splitSign s).2.takeWhile isDigit
  let rest := (splitSign s).2.dropWhile isDigit
  if ds = [] then .error .syntaxError
  else
    let magnitude : Int := numberOf 10 (ds.map digitOf)
    let exp := if (splitSign s).1 then -magnitude else magnitude
    if exp < -2 ^ 63 ∨ 2 ^ 63 ≤ exp then .error .overflow
    -- The least 64-bit number has no absolute value, and passes.
    else if exp ≠ -2 ^ 63 ∧ 100000 < exp.natAbs then .error .overflow
    else .ok (exp, rest)

def optionalExponent : List Char → Except NumError (Int × List Char)
  | c :: rest => if c = 'e' ∨ c = 'E' then scanExponent rest else .ok (0, c :: rest)
  | [] => .ok (0, [])

def readDec (t : List Char) : Except NumError Dec :=
  let r := scanDigits (splitSign t).2 false false
  if r.seenDigit = false then .error .syntaxError
  else do
    let exp ← optionalExponent r.rest
    if exp.2 ≠ [] then .error .syntaxError
    -- 2^63 zeros are asked for.
    else if exp.1 = -2 ^ 63 then .error .aborts
    else
      let scale := (r.scale : Int) - exp.1
      .ok { neg := (splitSign t).1
            digits := r.digits ++ List.replicate (-scale).toNat 0
            scale := scale.toNat : Dec }.normalize

/-- `Numeric::parse`. -/
def Numeric.parse (s : List Char) : Except NumError Numeric :=
  let t := trim s
  let lower := t.map Char.toLower
  if lower = "nan".toList then .ok .nan
  else if lower ∈ ["infinity".toList, "+infinity".toList, "inf".toList, "+inf".toList] then
    .ok (.inf false)
  else if lower ∈ ["-infinity".toList, "-inf".toList] then .ok (.inf true)
  else (readDec t).map (fun d => .fin { d with scale := d.scale % 2 ^ 32 })

def Dec.padded (d : Dec) : List Nat :=
  if d.digits.length ≤ d.scale then
    List.replicate (d.scale + 1 - d.digits.length) 0 ++ d.digits
  else d.digits

def Dec.show (d : Dec) : List Char :=
  let intLen := d.padded.length - d.scale
  (if d.neg then ['-'] else []) ++ (d.padded.take intLen).map digitChar ++
    (if 0 < d.scale then '.' :: (d.padded.drop intLen).map digitChar else [])

/-- `Display` of a numeric. -/
def Numeric.show : Numeric → List Char
  | nan => "NaN".toList
  | inf false => "Infinity".toList
  | inf true => "-Infinity".toList
  | fin d =>
    if 0 < d.hidden then (d.roundTo (d.scale - min d.hidden d.scale : Nat) false).show else d.show

end NoidaDb.Sql
