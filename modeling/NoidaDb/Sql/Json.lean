/-
JSON values: the parser and the printers.

The scanner of the source runs over bytes.  All bytes that it looks for are ASCII, so here
it runs over characters.
-/

import NoidaDb.Sql.Numeric

namespace NoidaDb.Sql

inductive Json where
  | null
  | bool (b : Bool)
  | num (n : Numeric)
  | str (s : String)
  | array (items : List Json)
  /-- In input order; in jsonb order after `normalize`. -/
  | object (members : List (String × Json))

inductive ParseFailure where
  | jsonErr (message : String)
  /-- Not an answer: the process is aborted. -/
  | aborts
  | outOfFuel
deriving Repr, DecidableEq

structure Readers where
  hex : List Char → Option Nat
  number : List Char → Except NumError Numeric

namespace JsonParser

def maxDepth : Nat := 6400

def isWs (c : Char) : Bool := c = ' ' || c = '\t' || c = '\n' || c = '\r'

def ws (s : List Char) : List Char := s.dropWhile isWs

def err {α : Type} (what : String) : Except ParseFailure α := .error (.jsonErr what)

/-- `u8::is_ascii_alphanumeric`. -/
def isAlphanumeric (c : Char) : Bool :=
  isDigit c || ('a'.toNat ≤ c.toNat && c.toNat ≤ 'z'.toNat) ||
    ('A'.toNat ≤ c.toNat && c.toNat ≤ 'Z'.toNat)

def word (w : List Char) (v : Json) (s : List Char) : Except ParseFailure (Json × List Char) :=
  if w.isPrefixOf s then
    if (s.drop w.length).head?.any (fun c => isAlphanumeric c || c = '_') then err "Token is invalid."
    else .ok (v, s.drop w.length)
  else err "Token is invalid."

def fraction : List Char → Except ParseFailure (List Char × List Char)
  | '.' :: rest =>
    if rest.takeWhile isDigit = [] then err "Token is invalid."
    else .ok ('.' :: rest.takeWhile isDigit, rest.dropWhile isDigit)
  | s => .ok ([], s)

def exponentSign : List Char → List Char × List Char
  | '+' :: rest => (['+'], rest)
  | '-' :: rest => (['-'], rest)
  | s => ([], s)

def exponent : List Char → Except ParseFailure (List Char × List Char)
  | c :: rest =>
    if c = 'e' ∨ c = 'E' then
      let signed := exponentSign rest
      if signed.2.takeWhile isDigit = [] then err "Token is invalid."
      else .ok (c :: signed.1 ++ signed.2.takeWhile isDigit, signed.2.dropWhile isDigit)
    else .ok ([], c :: rest)
  | [] => .ok ([], [])

def minus : List Char → List Char × List Char
  | '-' :: rest => (['-'], rest)
  | s => ([], s)

def number (r : Readers) (s : List Char) : Except ParseFailure (Json × List Char) :=
  let signed := minus s
  let int := signed.2.takeWhile isDigit
  if int = [] ∨ (1 < int.length ∧ int.head? = some '0') then err "Token is invalid."
  else do
    let frac ← fraction (signed.2.dropWhile isDigit)
    let exp ← exponent frac.2
    if exp.2.head?.any isAlphanumeric then err "Token is invalid."
    else
      match r.number (signed.1 ++ int ++ frac.1 ++ exp.1) with
      | .ok n => .ok (.num n, exp.2)
      | .error .aborts => .error .aborts
      | .error _ => err "Token is invalid."

/-- `char::to_digit` for base 16. -/
def hexDigit (c : Char) : Option Nat :=
  if isDigit c then some (digitOf c)
  else if 'a'.toNat ≤ c.toNat ∧ c.toNat ≤ 'f'.toNat then some (c.toNat - 'a'.toNat + 10)
  else if 'A'.toNat ≤ c.toNat ∧ c.toNat ≤ 'F'.toNat then some (c.toNat - 'A'.toNat + 10)
  else none

def hexDigits : List Char → Option (List Nat)
  | [] => some []
  | c :: rest => do
      let d ← hexDigit c
      let ds ← hexDigits rest
      return d :: ds

def withoutPlus : List Char → List Char
  | '+' :: rest => rest
  | s => s

/-- `u32::from_str_radix` for base 16. -/
def fromStrRadix16 (s : List Char) : Option Nat :=
  if withoutPlus s = [] then none
  else do
    let ds ← hexDigits (withoutPlus s)
    if Lib.numberOf 16 ds < 2 ^ 32 then some (Lib.numberOf 16 ds) else none

/-- The next `n` bytes as characters. -/
def window : Nat → List Char → Except ParseFailure (List Char × List Char)
  | 0, rest => .ok ([], rest)
  | _ + 1, [] => err "\"\\u\" must be followed by four hexadecimal digits."
  | n + 1, c :: rest =>
    if c.utf8Size ≤ n + 1 then do
      let w ← window (n + 1 - c.utf8Size) rest
      return (c :: w.1, w.2)
    else err "bad escape"

def hex4 (r : Readers) (s : List Char) : Except ParseFailure (Nat × List Char) := do
  let w ← window 4 s
  match r.hex w.1 with
  | some v => .ok (v, w.2)
  | none => err "\"\\u\" must be followed by four hexadecimal digits."

def isHighSurrogate (cp : Nat) : Bool := 0xD800 ≤ cp && cp < 0xDC00

def isLowSurrogate (cp : Nat) : Bool := 0xDC00 ≤ cp && cp < 0xE000

/-- `char::from_u32`, or the replacement character. -/
def charOf (cp : Nat) : Char := if cp.isValidChar then Char.ofNat cp else Char.ofNat 0xFFFD

def lowSurrogateMissing : String := "Unicode low surrogate must follow a high surrogate."

def lowHalf (r : Readers) (high : Nat) : List Char → Except ParseFailure (Nat × List Char)
  | '\\' :: 'u' :: rest => do
      let low ← hex4 r rest
      if isLowSurrogate low.1 then
        return (0x10000 + (high - 0xD800) * 1024 + (low.1 - 0xDC00), low.2)
      else err lowSurrogateMissing
  | _ => err lowSurrogateMissing

def codePoint (r : Readers) (s : List Char) : Except ParseFailure (Nat × List Char) := do
  let cp ← hex4 r s
  if isHighSurrogate cp.1 then lowHalf r cp.1 cp.2
  else if isLowSurrogate cp.1 then err lowSurrogateMissing
  else return cp

/-- The character after `\u`. -/
def unicode (r : Readers) (s : List Char) : Except ParseFailure (Char × List Char) := do
  let cp ← codePoint r s
  if cp.1 = 0 then err "\\u0000 cannot be converted to text." else return (charOf cp.1, cp.2)

def simpleEscape (e : Char) : Option Char :=
  if e = '"' then some '"'
  else if e = '\\' then some '\\'
  else if e = '/' then some '/'
  else if e = 'b' then some (Char.ofNat 8)
  else if e = 'f' then some (Char.ofNat 12)
  else if e = 'n' then some '\n'
  else if e = 'r' then some '\r'
  else if e = 't' then some '\t'
  else none

def escaped (r : Readers) : List Char → Except ParseFailure (Char × List Char)
  | [] => err "The input string ended unexpectedly."
  | e :: rest =>
    match simpleEscape e with
    | some c => .ok (c, rest)
    | none => if e = 'u' then unicode r rest else err "Escape sequence is invalid."

def string (r : Readers) : Nat → List Char → Except ParseFailure (List Char × List Char)
  | 0, _ => .error .outOfFuel
  | _ + 1, [] => err "The input string ended unexpectedly."
  | fuel + 1, c :: rest =>
    if c = '"' then .ok ([], rest)
    else if c = '\\' then do
      let e ← escaped r rest
      let later ← string r fuel e.2
      return (e.1 :: later.1, later.2)
    else if c.toNat < 0x20 then err "Character with value 0x0a must be escaped."
    else do
      let later ← string r fuel rest
      return (c :: later.1, later.2)

mutual

def value (r : Readers) : Nat → Nat → List Char → Except ParseFailure (Json × List Char)
  | 0, _, _ => .error .outOfFuel
  | fuel + 1, depth, s =>
    match ws s with
    | [] => err "The input string ended unexpectedly."
    | c :: rest =>
      if c = '{' then
        if maxDepth < depth + 1 then err "stack depth limit exceeded"
        else if (ws rest).head? = some '}' then .ok (.object [], (ws rest).tail)
        else do
          let all ← members r fuel (depth + 1) rest
          return (.object all.1, all.2)
      else if c = '[' then
        if maxDepth < depth + 1 then err "stack depth limit exceeded"
        else if (ws rest).head? = some ']' then .ok (.array [], (ws rest).tail)
        else do
          let all ← items r fuel (depth + 1) rest
          return (.array all.1, all.2)
      else if c = '"' then do
        let text ← string r (rest.length + 1) rest
        return (.str (String.ofList text.1), text.2)
      else if c = 't' then word "true".toList (.bool true) (c :: rest)
      else if c = 'f' then word "false".toList (.bool false) (c :: rest)
      else if c = 'n' then word "null".toList .null (c :: rest)
      else if c = '-' ∨ isDigit c then number r (c :: rest)
      else err "Token is invalid."

def members (r : Readers) :
    Nat → Nat → List Char → Except ParseFailure (List (String × Json) × List Char)
  | 0, _, _ => .error .outOfFuel
  | fuel + 1, depth, s =>
    match ws s with
    | '"' :: s => do
        let k ← string r (s.length + 1) s
        match ws k.2 with
        | ':' :: s => do
            let v ← value r fuel depth s
            match ws v.2 with
            | ',' :: s => do
                let later ← members r fuel depth s
                return ((String.ofList k.1, v.1) :: later.1, later.2)
            | '}' :: s => return ([(String.ofList k.1, v.1)], s)
            | _ => err "Expected \",\" or \"\x7d\", but found something else."
        | _ => err "Expected \":\", but found something else."
    | _ => err "Expected string or \"\x7d\", but found something else."

def items (r : Readers) : Nat → Nat → List Char → Except ParseFailure (List Json × List Char)
  | 0, _, _ => .error .outOfFuel
  | fuel + 1, depth, s => do
      let v ← value r fuel depth s
      match ws v.2 with
      | ',' :: s => do
          let later ← items r fuel depth s
          return (v.1 :: later.1, later.2)
      | ']' :: s => return ([v.1], s)
      | _ => err "Expected \",\" or \"]\", but found something else."

end

end JsonParser

namespace Json

open JsonParser

/-- `parse` with the given readers. -/
def parseWith (r : Readers) (s : String) : Except ParseFailure Json := do
  let v ← value r (2 * s.toList.length + 1) 0 s.toList
  if ws v.2 ≠ [] then err "Expected end of input, but found something else." else return v.1

def readers : Readers := { hex := fromStrRadix16, number := Numeric.parse }

def parse (s : String) : Except ParseFailure Json := parseWith readers s

def keyCmp (a b : String) : Ordering :=
  (compare a.utf8ByteSize b.utf8ByteSize).then
    (compare (a.toList.map Char.toNat) (b.toList.map Char.toNat))

def insertMember (k : String) (v : Json) : List (String × Json) → List (String × Json)
  | [] => [(k, v)]
  | (ek, ev) :: rest =>
    match keyCmp ek k with
    | .eq => (ek, v) :: rest
    | .lt => (ek, ev) :: insertMember k v rest
    | .gt => (k, v) :: (ek, ev) :: rest

mutual

def normalize : Json → Json
  | array items => array (normalizeItems items)
  | object members => object (normalizeMembers [] members)
  | null => null
  | bool b => bool b
  | num n => num n
  | str s => str s

def normalizeItems : List Json → List Json
  | [] => []
  | v :: rest => v.normalize :: normalizeItems rest

def normalizeMembers (out : List (String × Json)) : List (String × Json) → List (String × Json)
  | [] => out
  | (k, v) :: rest => normalizeMembers (insertMember k v.normalize out) rest

end

def parseJsonb (s : String) : Except ParseFailure Json := (parse s).map normalize

def hexChar (d : Nat) : Char := if d < 10 then digitChar d else Char.ofNat ('a'.toNat + (d - 10))

def escapeChar (c : Char) : List Char :=
  if c = '"' then ['\\', '"']
  else if c = '\\' then ['\\', '\\']
  else if c = Char.ofNat 8 then ['\\', 'b']
  else if c = Char.ofNat 12 then ['\\', 'f']
  else if c = '\n' then ['\\', 'n']
  else if c = '\r' then ['\\', 'r']
  else if c = '\t' then ['\\', 't']
  else if c.toNat < 0x20 then
    ['\\', 'u', '0', '0', hexChar (c.toNat / 16), hexChar (c.toNat % 16)]
  else [c]

/-- `escape_into`. -/
def escape (s : String) : List Char := '"' :: (s.toList.flatMap escapeChar ++ ['"'])

mutual

def write (comma colon : List Char) : Json → List Char
  | null => "null".toList
  | bool b => if b then "true".toList else "false".toList
  | num n => n.show
  | str s => escape s
  | array items => '[' :: (writeItems comma colon items ++ [']'])
  | object members => '{' :: (writeMembers comma colon members ++ ['}'])

def writeItems (comma colon : List Char) : List Json → List Char
  | [] => []
  | [v] => v.write comma colon
  | v :: w :: rest => v.write comma colon ++ comma ++ writeItems comma colon (w :: rest)

def writeMembers (comma colon : List Char) : List (String × Json) → List Char
  | [] => []
  | [(k, v)] => escape k ++ colon ++ v.write comma colon
  | (k, v) :: m :: rest =>
    escape k ++ colon ++ v.write comma colon ++ comma ++ writeMembers comma colon (m :: rest)

end

def toJsonbString (j : Json) : String := String.ofList (j.write [',', ' '] [':', ' '])

def toCompactString (j : Json) : String := String.ofList (j.write [','] [':'])

def pad (level : Nat) : List Char := List.replicate (4 * level) ' '

mutual

def prettyInto (level : Nat) : Json → List Char
  | array items =>
    if items.isEmpty then (array items).write [',', ' '] [':', ' ']
    else ['[', '\n'] ++ prettyItems (level + 1) items ++ pad level ++ [']']
  | object members =>
    if members.isEmpty then (object members).write [',', ' '] [':', ' ']
    else ['{', '\n'] ++ prettyMembers (level + 1) members ++ pad level ++ ['}']
  | null => null.write [',', ' '] [':', ' ']
  | bool b => (bool b).write [',', ' '] [':', ' ']
  | num n => (num n).write [',', ' '] [':', ' ']
  | str s => (str s).write [',', ' '] [':', ' ']

def prettyItems (level : Nat) : List Json → List Char
  | [] => []
  | [v] => pad level ++ v.prettyInto level ++ ['\n']
  | v :: w :: rest => pad level ++ v.prettyInto level ++ [',', '\n'] ++ prettyItems level (w :: rest)

def prettyMembers (level : Nat) : List (String × Json) → List Char
  | [] => []
  | [(k, v)] => pad level ++ escape k ++ [':', ' '] ++ v.prettyInto level ++ ['\n']
  | (k, v) :: m :: rest =>
    pad level ++ escape k ++ [':', ' '] ++ v.prettyInto level ++ [',', '\n'] ++
      prettyMembers level (m :: rest)

end

/-- `jsonb_pretty`. -/
def pretty (j : Json) : String := String.ofList (j.prettyInto 0)

end Json

end NoidaDb.Sql
