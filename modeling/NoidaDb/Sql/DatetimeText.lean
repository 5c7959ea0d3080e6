/-
Dates, times and timestamps read from text, and time zones.

All separators and digits are ASCII, so the parser runs over characters; the one place where the
source slices at a fixed number of bytes is kept (`sliceAt`).
-/

import NoidaDb.Sql.Calendar

namespace NoidaDb.Sql

open Lib

namespace DatetimeText

inductive DtErr where
  | syntaxError
  | range
  /-- Unknown time zone name. -/
  | zone (name : List Char)
  /-- Not an answer: the process is aborted. -/
  | aborts
deriving DecidableEq

inductive Zone where
  | fixed (offset : Int)
  /-- From a zone file: the offset in force at a UTC instant. -/
  | tzif (atUtc : Int → Int)

namespace Zone

def offsetAtUtc : Zone → Int → Int
  | fixed o, _ => o
  | tzif atUtc, t => atUtc t

/-- Offset for a local time.  An ambiguous or skipped one is resolved with the offset in force
just before the transition. -/
def offsetForLocal (zone : Zone) (wall : Int) : Int :=
  match zone with
  | fixed o => o
  | tzif atUtc =>
    let before := atUtc (wall - 86400)
    let o1 := atUtc (wall - before)
    let o2 := atUtc (wall - o1)
    if o1 = o2 then o1 else if atUtc (wall - before) = before then before else o2

end Zone

/-- `+05:30`, `-08`, `+05:21:10`. -/
def formatOffset (o : Int) : List Char :=
  let a := o.natAbs
  let sign := if o < 0 then '-' else '+'
  let h := a / 3600
  let m := a / 60 % 60
  let s := a % 60
  if s ≠ 0 then sign :: padded 2 h ++ ':' :: padded 2 m ++ ':' :: padded 2 s
  else if m ≠ 0 then sign :: padded 2 h ++ ':' :: padded 2 m
  else sign :: padded 2 h

def byteLen (s : List Char) : Nat := (s.map Char.utf8Size).sum

/-- `&s[..n]` and `&s[n..]`.  A place that is not between two characters aborts. -/
def sliceAt : Nat → List Char → Option (List Char × List Char)
  | n, [] => if n = 0 then some ([], []) else none
  | n, c :: s =>
    if n = 0 then some ([], c :: s)
    else if c.utf8Size ≤ n then (sliceAt (n - c.utf8Size) s).map (fun cut => (c :: cut.1, cut.2))
    else none

def allDigits (s : List Char) : Bool := s.all isDigit

/-- `parse` of digits. -/
def numeral (s : List Char) : Nat := numberOf 10 (s.map digitOf)

def slice (n : Nat) (s : List Char) : Except DtErr (List Char × List Char) :=
  match sliceAt n s with
  | some cut => .ok cut
  | none => .error .aborts

def compactParts (rest : List Char) : Except DtErr (Option (List (List Char))) :=
  if byteLen rest = 1 ∨ byteLen rest = 2 then .ok (some [rest])
  else if byteLen rest = 4 then do
    let hm ← slice 2 rest
    return some [hm.1, hm.2]
  else if byteLen rest = 6 then do
    let hm ← slice 2 rest
    let ms ← slice 2 hm.2
    return some [hm.1, ms.1, ms.2]
  else .ok none

def offsetOfParts (neg : Bool) (parts : List (List Char)) : Option Int :=
  if parts.isEmpty ∨ 3 < parts.length ∨ parts.any (fun p => p.isEmpty || !allDigits p) then none
  else
    let h := numeral (parts.getD 0 [])
    let m := numeral (parts.getD 1 [])
    let sec := numeral (parts.getD 2 [])
    if 15 < h ∨ 59 < m ∨ 59 < sec then none
    else
      let v : Int := h * 3600 + m * 60 + sec
      some (if neg then -v else v)

/-- `+05`, `-0530`, `+05:30`, `+05:30:15`: seconds east of UTC. -/
def parseIsoOffset (s : List Char) : Except DtErr (Option Int) :=
  match s with
  | [] => .ok none
  | c :: rest =>
    if rest = [] ∨ (c ≠ '+' ∧ c ≠ '-') then .ok none
    else if rest.contains ':' then .ok (offsetOfParts (c = '-') (rest.splitOn ':'))
    else do
      let parts ← compactParts rest
      return parts.bind (offsetOfParts (c = '-'))

def lowercase (s : List Char) : List Char := s.map Char.toLower

def months : List String :=
  ["jan", "feb", "mar", "apr", "may", "jun", "jul", "aug", "sep", "oct", "nov", "dec"]

def fullMonths : List String :=
  ["january", "february", "march", "april", "may", "june", "july", "august", "september",
    "october", "november", "december"]

def trimEndMatches (c : Char) (s : List Char) : List Char :=
  (s.reverse.dropWhile (fun d => d == c)).reverse

def monthFromName (s : List Char) : Option Nat :=
  let l := trimEndMatches '.' (lowercase s)
  if byteLen l < 3 then none
  else
    ((months.zip fullMonths).zipIdx.find?
      (fun m => l = m.1.1.toList || l = m.1.2.toList || (l = "sept".toList && m.2 = 8))).map
      (fun m => m.2 + 1)

def weekdays : List String :=
  ["sunday", "monday", "tuesday", "wednesday", "thursday", "friday", "saturday"]

def isWeekdayName (s : List Char) : Bool :=
  let l := trimEndMatches ',' (trimEndMatches '.' (lowercase s))
  weekdays.any (fun d => l = d.toList || (3 ≤ byteLen l && l.isPrefixOf d.toList))

def parseFracMicros (f : List Char) : Nat :=
  if f = [] then 0
  else
    let digits := (f.map digitOf ++ List.replicate 7 0).take 7
    numberOf 10 (digits.take 6) + if 5 ≤ digits.getD 6 0 then 1 else 0

def clockNum (p : List Char) : Except DtErr Nat :=
  if p = [] ∨ 9 < byteLen p ∨ allDigits p = false then .error .syntaxError else .ok (numeral p)

def clockSeconds (s : List Char) : Except DtErr (Nat × Nat) := do
  let sec ← clockNum (s.takeWhile (fun c => c != '.'))
  let f := (s.dropWhile (fun c => c != '.')).tail
  if allDigits f = false then .error .syntaxError else .ok (sec, parseFracMicros f)

def clockOf (h m : Nat) (sec : Nat × Nat) : Except DtErr Int :=
  if 59 < m ∨ 60 < sec.1 ∨ 24 < h then .error .range
  else
    let total : Int := ((h * 60 + m) * 60 + sec.1) * usecsPerSec + sec.2
    if usecsPerDay < total then .error .range else .ok total

/-- `HH:MM[:SS[.frac]]`. -/
def parseClock (s : List Char) : Except DtErr Int :=
  match s.splitOn ':' with
  | [hs, ms] => do
      let h ← clockNum hs
      let m ← clockNum ms
      clockOf h m (0, 0)
  | [hs, ms, ss] => do
      let h ← clockNum hs
      let m ← clockNum ms
      let sec ← clockSeconds ss
      clockOf h m sec
  | _ => .error .syntaxError

def dateNum (p : List Char) : Except DtErr Int :=
  if p = [] ∨ allDigits p = false then .error .syntaxError
  else if (numeral p : Int) < 2 ^ 63 then .ok (numeral p)
  else .error .range

def dateOfParts (p0 p1 p2 : List Char) : Except DtErr (Option (Int × Nat × Nat)) :=
  let midMonth := monthFromName p1
  if 3 ≤ byteLen p0 then do
    let y ← dateNum p0
    let m ← match midMonth with
      | some m => .ok (m : Int)
      | none => dateNum p1
    let d ← dateNum p2
    if 12 < m ∨ 31 < d then .error .range else .ok (some (y, m.toNat, d.toNat))
  else
    match midMonth with
    | some m => do
        let d ← dateNum p0
        let y ← dateNum p2
        return some (y, m, d.toNat)
    | none => do
        let m ← dateNum p0
        let d ← dateNum p1
        let y ← dateNum p2
        let y := if byteLen p2 ≤ 2 then (if y < 70 then y + 2000 else y + 1900) else y
        if 12 < m ∨ 31 < d then .error .range else .ok (some (y, m.toNat, d.toNat))

def dateOfSplit (parts : List (List Char)) : Except DtErr (Option (Int × Nat × Nat)) :=
  match parts with
  | [p0, p1, p2] => dateOfParts p0 p1 p2
  | parts => if parts.all allDigits then .error .syntaxError else .ok none

/-- `YYYY-MM-DD`, `YYYY/MM/DD`, `MM/DD/YYYY`, `YYYYMMDD`, `YYYY-Mon-DD`. -/
def parseDateToken (t : List Char) : Except DtErr (Option (Int × Nat × Nat)) :=
  if t.contains '-' ∧ t.head? ≠ some '-' then dateOfSplit (t.splitOn '-')
  else if t.contains '/' then dateOfSplit (t.splitOn '/')
  else if t.contains '.' then dateOfSplit (t.splitOn '.')
  else if byteLen t = 8 ∧ allDigits t = true then
    .ok (some (numeral (t.take 4), numeral ((t.drop 4).take 2), numeral (t.drop 6)))
  else .ok none

def isSign (c : Char) : Bool := c == '+' || c == '-'

def isT (c : Char) : Bool := c == 'T' || c == 't'

/-- ISO 8601: `2020-01-01T10:00:00`. -/
def splitT (raw : List Char) : List (List Char) :=
  let before := raw.takeWhile (fun c => !isT c)
  match raw.dropWhile (fun c => !isT c) with
  | [] => [raw]
  | _ :: after =>
    if before ≠ [] ∧ before.all (fun c => isDigit c || c == '-') ∧ after.head?.any isDigit = true then
      [before, after]
    else [raw]

def splitClock (p : List Char) : List (List Char) :=
  match p with
  | [] => [p]
  | c :: rest =>
    if p.contains ':' ∧ isDigit c then
      match rest.dropWhile (fun c => !isSign c) with
      | [] =>
        if p.getLast? = some 'Z' ∨ p.getLast? = some 'z' then [p.dropLast, ['Z']] else [p]
      | zone => [c :: rest.takeWhile (fun c => !isSign c), zone]
    else [p]

def tokenize (s : List Char) : List (List Char) :=
  (((s.splitOnP (fun c => isWhitespace c || c == ',')).filter (fun raw => !raw.isEmpty)).flatMap
    splitT).flatMap splitClock

inductive TzSpec where
  | offset (o : Int)
  | named (zone : Zone)

inductive Special where
  | infinity
  | negInfinity
  | epoch
  | now
  | today
  | tomorrow
  | yesterday
  | allballs
deriving DecidableEq

structure Parsed where
  ymd : Option (Int × Nat × Nat) := none
  time : Option Int := none
  tz : Option TzSpec := none
  special : Option Special := none

def wholeSpecial (lower : List Char) : Option Special :=
  if lower = "infinity".toList ∨ lower = "+infinity".toList then some .infinity
  else if lower = "-infinity".toList then some .negInfinity
  else if lower = "epoch".toList then some .epoch
  else if lower = "now".toList then some .now
  else if lower = "today".toList then some .today
  else if lower = "tomorrow".toList then some .tomorrow
  else if lower = "yesterday".toList then some .yesterday
  else if lower = "allballs".toList then some .allballs
  else none

def tokenSpecial (l : List Char) : Option Special :=
  if l = "today".toList then some .today
  else if l = "now".toList then some .now
  else if l = "tomorrow".toList then some .tomorrow
  else if l = "yesterday".toList then some .yesterday
  else if l = "allballs".toList then some .allballs
  else none

structure Scan where
  out : Parsed := {}
  bc : Bool := false
  pm : Option Bool := none
  monthName : Option Nat := none
  looseNums : List (List Char) := []

section Reading

variable (lookup : List Char → Except DtErr (Option Zone))

def readZone (st : Scan) (t : List Char) : Except DtErr Scan := do
  let iso ← if t.head? = some '-' then parseIsoOffset t else .ok none
  match iso with
  | some o => return { st with out := { st.out with tz := some (.offset o) } }
  | none =>
    let named ← lookup t
    match named with
    | some z => return { st with out := { st.out with tz := some (.named z) } }
    | none =>
      if t.contains '/' ∧ t.any Char.isAlpha then .error (.zone t) else .error .syntaxError

/-- A token that is no word of its own: a clock, an offset, a date, a name or a number. -/
def readPlain (st : Scan) (t : List Char) : Except DtErr Scan :=
  if t.contains ':' ∧ t.head?.any isDigit = true then
    if st.out.time.isSome then .error .syntaxError
    else do
      let time ← parseClock t
      return { st with out := { st.out with time := some time } }
  else if (t.head?.any isSign = true ∧ st.out.time.isSome) ∨ t.head? = some '+' then do
    let offset ← parseIsoOffset t
    match offset with
    | some o => return { st with out := { st.out with tz := some (.offset o) } }
    | none => .error .syntaxError
  else if lowercase t = "z".toList then
    .ok { st with out := { st.out with tz := some (.offset 0) } }
  else do
    let date ← parseDateToken t
    match date with
    | some ymd =>
      if st.out.ymd.isSome then .error .syntaxError
      else return { st with out := { st.out with ymd := some ymd } }
    | none =>
      match monthFromName t with
      | some m => return { st with monthName := some m }
      | none =>
        if isWeekdayName t then return st
        else if allDigits t then return { st with looseNums := st.looseNums ++ [t] }
        else readZone lookup st t

def readToken (st : Scan) (t : List Char) : Except DtErr Scan :=
  let l := lowercase t
  if l = "bc".toList then .ok { st with bc := true }
  else if l = "ad".toList then .ok st
  else if l = "am".toList ∨ l = "a.m.".toList then .ok { st with pm := some false }
  else if l = "pm".toList ∨ l = "p.m.".toList then .ok { st with pm := some true }
  else if (tokenSpecial l).isSome then
    .ok { st with out := { st.out with special := tokenSpecial l } }
  else readPlain lookup st t

def readTokens : Scan → List (List Char) → Except DtErr Scan
  | st, [] => .ok st
  | st, t :: rest => do
      let st ← readToken lookup st t
      readTokens st rest

/-- A month given by its name, with two numbers: the day, and the year that has more digits or
comes last. -/
def namedDate (st : Scan) : Except DtErr Scan :=
  match st.monthName with
  | none => .ok st
  | some m =>
    match st.looseNums with
    | [a, b] =>
      let day := if 2 < a.length then b else a
      let year := if 2 < a.length then a else b
      if st.out.ymd.isSome ∨ 2 ^ 63 ≤ numeral year ∨ 2 ^ 32 ≤ numeral day then .error .syntaxError
      else
        .ok { st with
          out := { st.out with ymd := some (numeral year, m, numeral day) }
          looseNums := [] }
    | _ => .error .syntaxError

def checkDate (st : Scan) : Except DtErr Parsed :=
  match st.out.ymd with
  | none => .ok st.out
  | some (y, m, d) =>
    let y := if st.bc then 1 - y else y
    if m < 1 ∨ 12 < m ∨ d < 1 ∨ Calendar.daysInMonth y m < d then .error .range
    else .ok { st.out with ymd := some (y, m, d) }

def usecsPerHour : Int := 3600 * usecsPerSec

def applyPm (pm : Option Bool) (out : Parsed) : Except DtErr Parsed :=
  match pm with
  | none => .ok out
  | some p =>
    match out.time with
    | none => .error .syntaxError
    | some t =>
      let h := t / usecsPerHour
      if 12 < h ∨ (h = 0 ∧ p = true) then .error .range
      else if p = true ∧ h < 12 then .ok { out with time := some (t + 12 * usecsPerHour) }
      else if p = false ∧ h = 12 then .ok { out with time := some (t - 12 * usecsPerHour) }
      else .ok out

def parseDatetime (s : List Char) : Except DtErr Parsed :=
  match wholeSpecial (lowercase (trim s)) with
  | some special => .ok { special := some special }
  | none =>
    if (tokenize s).isEmpty then .error .syntaxError
    else do
      let scanned ← readTokens lookup {} (tokenize s)
      let dated ← namedDate scanned
      if dated.looseNums ≠ [] then .error .syntaxError
      else do
        let out ← checkDate dated
        applyPm dated.pm out

end Reading

def minTs : Int := -211813488000000000

def maxTs : Int := 9223371331200000000

structure Ctx where
  now : Int
  zone : Zone

open Calendar (asI64 daysFromCivil InI64)

def utcSeconds (ts : Int) : Int := ts / usecsPerSec + pgEpochDays * 86400

def utcToLocal (ts : Int) (zone : Zone) : Int :=
  if ts = tsInf ∨ ts = tsNegInf then ts
  else asI64 (ts + zone.offsetAtUtc (utcSeconds ts) * usecsPerSec)

def localToUtc (wall : Int) (zone : Zone) : Int :=
  if wall = tsInf ∨ wall = tsNegInf then wall
  else asI64 (wall - zone.offsetForLocal (utcSeconds wall) * usecsPerSec)

def Ctx.todayLocal (ctx : Ctx) : Int := utcToLocal ctx.now ctx.zone / usecsPerDay

def checkYear (y : Int) : Except DtErr Unit :=
  if -4713 ≤ y ∧ y ≤ 5874897 then .ok () else .error .range

def dayOf (p : Parsed) (ctx : Ctx) : Except DtErr Int :=
  match p.special with
  | some .today => .ok ctx.todayLocal
  | some .tomorrow => .ok (ctx.todayLocal + 1)
  | some .yesterday => .ok (ctx.todayLocal - 1)
  | _ =>
    match p.ymd with
    | none => .error .syntaxError
    | some date => do
        checkYear date.1
        return daysFromCivil date - pgEpochDays

/-- `checked_mul` and `checked_add` of a day and a time. -/
def wallOf (day time : Int) : Except DtErr Int :=
  if -2 ^ 63 ≤ day * usecsPerDay ∧ day * usecsPerDay < 2 ^ 63 ∧
      -2 ^ 63 ≤ day * usecsPerDay + time ∧ day * usecsPerDay + time < 2 ^ 63 then
    .ok (day * usecsPerDay + time)
  else .error .range

def withZone (p : Parsed) (ctx : Ctx) (wall : Int) : Int :=
  match p.tz with
  | some (.offset o) => asI64 (wall - o * usecsPerSec)
  | some (.named z) => localToUtc wall z
  | none => localToUtc wall ctx.zone

def tsFromParts (p : Parsed) (ctx : Ctx) (withTz : Bool) : Except DtErr Int :=
  match p.special with
  | some .infinity => .ok tsInf
  | some .negInfinity => .ok tsNegInf
  | some .epoch => .ok (-pgEpochDays * usecsPerDay)
  | some .now => .ok (if withTz then ctx.now else utcToLocal ctx.now ctx.zone)
  | _ => do
      let day ← dayOf p ctx
      let wall ← wallOf day (p.time.getD 0)
      let ts := if withTz then withZone p ctx wall else wall
      if minTs ≤ ts ∧ ts < maxTs then .ok ts else .error .range

section Reading

variable (lookup : List Char → Except DtErr (Option Zone)) (ctx : Ctx)

def parseTimestamp (s : List Char) : Except DtErr Int := do
  let p ← parseDatetime lookup s
  tsFromParts p ctx false

def parseTimestamptz (s : List Char) : Except DtErr Int := do
  let p ← parseDatetime lookup s
  tsFromParts p ctx true

end Reading

def formatTsParts (ts : Int) : List Char × Bool :=
  let date := civilFromDays (ts / usecsPerDay + pgEpochDays)
  let year := yearStr date.1
  (year.1 ++ '-' :: padded 2 date.2.1 ++ '-' :: padded 2 date.2.2 ++
    ' ' :: formatTime (ts % usecsPerDay).toNat, year.2)

def formatTimestamptz (ts : Int) (zone : Zone) : List Char :=
  if ts = tsInf then "infinity".toList
  else if ts = tsNegInf then "-infinity".toList
  else
    let off := zone.offsetAtUtc (utcSeconds ts)
    let parts := formatTsParts (asI64 (ts + off * usecsPerSec))
    parts.1 ++ formatOffset off ++ if parts.2 then " BC".toList else []

end DatetimeText

end NoidaDb.Sql
