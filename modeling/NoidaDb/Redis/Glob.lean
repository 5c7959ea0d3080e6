/-
Glob patterns: `stringmatchlen` and what KEYS and SCAN make of it.
-/

import NoidaDb.Redis.Bytes

namespace NoidaDb.Redis

namespace Glob

def eq (a b : UInt8) (nocase : Bool) : Bool :=
  if nocase then toAsciiLower a == toAsciiLower b else a == b

def star : UInt8 := 42

def question : UInt8 := 63

def backslash : UInt8 := 92

def openClass : UInt8 := 91

def closeClass : UInt8 := 93

def caret : UInt8 := 94

def dash : UInt8 := 45

def inRange (start stop c : UInt8) (nocase : Bool) : Bool :=
  let low := if stop < start then stop else start
  let high := if stop < start then start else stop
  if nocase then
    toAsciiLower low ≤ toAsciiLower c && toAsciiLower c ≤ toAsciiLower high
  else low ≤ c && c ≤ high

/-- The members of a class, up to its end or the end of the pattern: does one of them match, and
what is left of the pattern. -/
def classMembers (nocase : Bool) (c : UInt8) : Bytes → Bool → Bool × Bytes
  | [], matched => (matched, [])
  | [x], matched => (if x = closeClass then matched else matched || eq x c nocase, [])
  | [x, y], matched =>
    if x = backslash then (matched || y == c, [])
    else if x = closeClass then (matched, [y])
    else classMembers nocase c [y] (matched || eq x c nocase)
  | x :: y :: z :: rest, matched =>
    if x = backslash then classMembers nocase c (z :: rest) (matched || y == c)
    else if x = closeClass then (matched, y :: z :: rest)
    else if y = dash then classMembers nocase c rest (matched || inRange x z c nocase)
    else classMembers nocase c (y :: z :: rest) (matched || eq x c nocase)

/-- Tries a matcher on every suffix that is not empty. Its answer is whether the pattern matches
and whether a longer match of an earlier `*` is pointless. -/
def firstSuffix (f : Bytes → Bool → Bool × Bool) : Bytes → Bool → Bool × Bool
  | [], _ => (false, true)
  | x :: s, skip =>
    let result := f (x :: s) skip
    if result.1 then result
    else if result.2 then (false, true)
    else firstSuffix f s result.2

/-- The loop of `match_at`; the fuel is a bound on the length of the pattern. -/
def matchAt (nocase : Bool) : Nat → Bytes → Bytes → Bool → Nat → Bool × Bool
  | 0, _, _, skip, _ => (false, skip)
  | _, [], s, skip, _ => (s.isEmpty, skip)
  | _, _ :: _, [], skip, _ => (false, skip)
  | fuel + 1, p :: rest, c :: s, skip, nesting =>
    -- What follows a character that has matched.
    let goOn := fun (rest : Bytes) =>
      if s.isEmpty then ((rest.dropWhile (fun x => x == star)).isEmpty, skip)
      else matchAt nocase fuel rest s skip nesting
    if p = star then
      let rest := rest.dropWhile (fun x => x == star)
      if rest.isEmpty then (true, skip)
      else
        firstSuffix
          (fun suffix skip =>
            if 1000 < nesting + 1 then (false, skip)
            else matchAt nocase fuel rest suffix skip (nesting + 1))
          (c :: s) skip
    else if p = question then goOn rest
    else if p = openClass then
      let negated := rest.head? == some caret
      let members := classMembers nocase c (if negated then rest.tail else rest) false
      if members.1 == negated then (false, skip) else goOn members.2
    else if p = backslash then
      match rest with
      | escaped :: rest' => if eq escaped c nocase then goOn rest' else (false, skip)
      | [] => if eq p c nocase then goOn [] else (false, skip)
    else if eq p c nocase then goOn rest
    else (false, skip)

/-- `glob::matches`. -/
def globMatches (pattern s : Bytes) (nocase : Bool) : Bool :=
  (matchAt nocase (pattern.length + 1) pattern s false 0).1

/-- `matches_key`: a bare `*` matches everything, even the empty key. -/
def matchesKey (pattern key : Bytes) : Bool :=
  pattern == [star] || globMatches pattern key false

end Glob

end NoidaDb.Redis
