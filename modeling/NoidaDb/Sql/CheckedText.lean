/-
Reading dates and times with every slice and every integer operation checked.

A slice that is not between two characters, an index behind the end, and a result that its
integer type does not hold abort.  What is left to decide are the offsets, sliced by their lengths,
and the names of zones.
-/

import Mathlib.Data.List.TakeWhile
import NoidaDb.Lib.ExceptState
import NoidaDb.Lib.MachineIntegers
import NoidaDb.Sql.DatetimeText

namespace NoidaDb.Sql.CheckedText

open Lib DatetimeText

abbrev Checked := Except DtErr

def fit (type : IntType) (n : Int) : Checked Int := type.check .aborts n

def fitNat (type : IntType) (n : Nat) : Checked Nat :=
  if type.Holds n then .ok n else .error .aborts

/-! ### Offsets -/

/-- The parts of an offset: hours, minutes and seconds read as `i32`. -/
def offsetOfParts (neg : Bool) (parts : List (List Char)) : Checked (Option Int) :=
  if parts.isEmpty ∨ 3 < parts.length ∨ parts.any (fun p => p.isEmpty || !allDigits p) then .ok none
  else
    let h := numeral (parts.getD 0 [])
    let m := numeral (parts.getD 1 [])
    let sec := numeral (parts.getD 2 [])
    if ¬ (i32.Holds h ∧ i32.Holds m ∧ i32.Holds sec) then .ok none
    else if 15 < h ∨ 59 < m ∨ 59 < sec then .ok none
    else do
      let hours ← fit i32 (h * 3600)
      let minutes ← fit i32 (m * 60)
      let upTo ← fit i32 (hours + minutes)
      let v ← fit i32 (upTo + sec)
      if neg then do
        let v ← fit i32 (-v)
        return some v
      else return some v

/-- `+05`, `-0530`, `+05:30`, `+05:30:15`: seconds east of UTC. -/
def parseIsoOffset (s : List Char) : Checked (Option Int) :=
  match s with
  | [] => .ok none
  | c :: rest =>
    if rest = [] ∨ (c ≠ '+' ∧ c ≠ '-') then .ok none
    else if rest.contains ':' then offsetOfParts (c = '-') (rest.splitOn ':')
    else do
      let parts ← compactParts rest
      match parts with
      | none => .ok none
      | some parts => offsetOfParts (c = '-') parts

/-! ### Clocks -/

def addDigits : Nat → List Nat → Checked Nat
  | v, [] => .ok v
  | v, d :: rest => do
      let shifted ← fitNat i64 (v * 10)
      let v ← fitNat i64 (shifted + d)
      addDigits v rest

def parseFracMicros (f : List Char) : Checked Nat :=
  if f = [] then .ok 0
  else do
    let digits := (f.map digitOf ++ List.replicate 7 0).take 7
    let v ← addDigits 0 (digits.take 6)
    if 5 ≤ digits.getD 6 0 then fitNat i64 (v + 1) else .ok v

def clockSeconds (s : List Char) : Checked (Nat × Nat) := do
  let sec ← clockNum (s.takeWhile (fun c => c != '.'))
  let f := (s.dropWhile (fun c => c != '.')).tail
  if allDigits f = false then .error .syntaxError
  else do
    let micros ← parseFracMicros f
    return (sec, micros)

def clockOf (h m : Nat) (sec : Nat × Nat) : Checked Int :=
  if 59 < m ∨ 60 < sec.1 ∨ 24 < h then .error .range
  else do
    let minutes ← fit i64 (h * 60)
    let minutes ← fit i64 (minutes + m)
    let seconds ← fit i64 (minutes * 60)
    let seconds ← fit i64 (seconds + sec.1)
    let micros ← fit i64 (seconds * usecsPerSec)
    let total ← fit i64 (micros + sec.2)
    if usecsPerDay < total then .error .range else .ok total

/-- `HH:MM[:SS[.frac]]`. -/
def parseClock (s : List Char) : Checked Int :=
  match s.splitOn ':' with
  | [hs, ms] => do
      let h ← clockNum hs
      let m ← clockNum ms
      clockOf h m (0, 0)
  | [hs, ms, ss] => do
      let h ← clockNum hs
      let m ← clockNum ms
      let sec ← clockSeconds ss
      clockOf h m sec
  | _ => .error .syntaxError

/-! ### Dates -/

abbrev Ymd := Int × Nat × Nat

/-- A year, and a month and a day as `u32`. -/
def ymdOf (y m d : Int) : Checked (Option Ymd) := do
  let m ← fit u32 m
  let d ← fit u32 d
  return some (y, m.toNat, d.toNat)

def fullYear (p2 : List Char) (y : Int) : Checked Int :=
  if byteLen p2 ≤ 2 then fit i64 (y + if y < 70 then 2000 else 1900) else .ok y

def dateOfParts (p0 p1 p2 : List Char) : Checked (Option Ymd) :=
  let midMonth := monthFromName p1
  if 3 ≤ byteLen p0 then do
    let y ← dateNum p0
    let m ← match midMonth with
      | some m => .ok (m : Int)
      | none => dateNum p1
    let d ← dateNum p2
    if 12 < m ∨ 31 < d then .error .range else ymdOf y m d
  else
    match midMonth with
    | some m => do
        let d ← dateNum p0
        let y ← dateNum p2
        ymdOf y m d
    | none => do
        let m ← dateNum p0
        let d ← dateNum p1
        let y ← dateNum p2
        let y ← fullYear p2 y
        if 12 < m ∨ 31 < d then .error .range else ymdOf y m d

def dateOfSplit (parts : List (List Char)) : Checked (Option Ymd) :=
  match parts with
  | [p0, p1, p2] => dateOfParts p0 p1 p2
  | parts => if parts.all allDigits then .error .syntaxError else .ok none

/-- `YYYYMMDD`: three slices, each read by a `parse` that has to succeed. -/
def compactDate (t : List Char) : Checked (Option Ymd) := do
  let year ← slice 4 t
  let month ← slice 2 year.2
  let y ← fit i64 (numeral year.1)
  ymdOf y (numeral month.1) (numeral month.2)

/-- `YYYY-MM-DD`, `YYYY/MM/DD`, `MM/DD/YYYY`, `YYYYMMDD`, `YYYY-Mon-DD`. -/
def parseDateToken (t : List Char) : Checked (Option Ymd) :=
  if t.contains '-' ∧ t.head? ≠ some '-' then dateOfSplit (t.splitOn '-')
  else if t.contains '/' then dateOfSplit (t.splitOn '/')
  else if t.contains '.' then dateOfSplit (t.splitOn '.')
  else if byteLen t = 8 ∧ allDigits t = true then compactDate t
  else .ok none

/-! ### Tokens -/

/-- `as_bytes()[0]`. -/
def firstChar (p : List Char) : Checked Char :=
  match p with
  | [] => .error .aborts
  | c :: _ => .ok c

/-- ISO 8601: `2020-01-01T10:00:00`.  The letter is found at a byte and left out. -/
def splitT (raw : List Char) : Checked (List (List Char)) :=
  if raw.any isT then do
    let parts ← slice (byteLen (raw.takeWhile (fun c => !isT c))) raw
    if parts.1 = [] then return [raw]
    else if parts.1.all (fun c => isDigit c || c == '-') then do
      let after ← slice 1 parts.2
      if after.2.head?.any isDigit = true then return [parts.1, after.2] else return [raw]
    else return [raw]
  else return [raw]

def splitClock (p : List Char) : Checked (List (List Char)) :=
  if p.contains ':' then do
    let c ← firstChar p
    if isDigit c then do
      let rest ← slice 1 p
      if rest.2.any isSign then do
        let parts ← slice (byteLen (rest.2.takeWhile (fun c => !isSign c)) + 1) p
        return [parts.1, parts.2]
      else if p.getLast? = some 'Z' ∨ p.getLast? = some 'z' then do
        let parts ← slice (byteLen p - 1) p
        return [parts.1, ['Z']]
      else return [p]
    else return [p]
  else return [p]

def splitPieces (raw : List Char) : Checked (List (List Char)) := do
  let pieces ← splitT raw
  let tokens ← pieces.mapM splitClock
  return tokens.flatten

def tokenize (s : List Char) : Checked (List (List Char)) := do
  let tokens ← ((s.splitOnP (fun c => isWhitespace c || c == ',')).filter
    (fun raw => !raw.isEmpty)).mapM splitPieces
  return tokens.flatten

/-! ### Dates with times -/

section Reading

variable (lookup : List Char → Checked (Option Zone))

def readZone (st : Scan) (t : List Char) : Checked Scan := do
  let iso ← if t.head? = some '-' then parseIsoOffset t else .ok none
  match iso with
  | some o => return { st with out := { st.out with tz := some (.offset o) } }
  | none =>
    let named ← lookup t
    match named with
    | some z => return { st with out := { st.out with tz := some (.named z) } }
    | none =>
      if t.contains '/' ∧ t.any Char.isAlpha then .error (.zone t) else .error .syntaxError

/-- `t.contains(':') && t.as_bytes()[0].is_ascii_digit()`. -/
def isClock (t : List Char) : Checked Bool :=
  if t.contains ':' then do
    let c ← firstChar t
    return isDigit c
  else .ok false

/-- A token that is no word of its own: a clock, an offset, a date, a name or a number. -/
def readPlain (st : Scan) (t : List Char) : Checked Scan := do
  let clock ← isClock t
  if clock then
    if st.out.time.isSome then .error .syntaxError
    else do
      let time ← parseClock t
      return { st with out := { st.out with time := some time } }
  else if (t.head?.any isSign = true ∧ st.out.time.isSome) ∨ t.head? = some '+' then do
    let offset ← parseIsoOffset t
    match offset with
    | some o => return { st with out := { st.out with tz := some (.offset o) } }
    | none => .error .syntaxError
  else if lowercase t = "z".toList then
    .ok { st with out := { st.out with tz := some (.offset 0) } }
  else do
    let date ← parseDateToken t
    match date with
    | some ymd =>
      if st.out.ymd.isSome then .error .syntaxError
      else return { st with out := { st.out with ymd := some ymd } }
    | none =>
      match monthFromName t with
      | some m => return { st with monthName := some m }
      | none =>
        if isWeekdayName t then return st
        else if allDigits t then return { st with looseNums := st.looseNums ++ [t] }
        else readZone lookup st t

def readToken (st : Scan) (t : List Char) : Checked Scan :=
  let l := lowercase t
  if l = "bc".toList then .ok { st with bc := true }
  else if l = "ad".toList then .ok st
  else if l = "am".toList ∨ l = "a.m.".toList then .ok { st with pm := some false }
  else if l = "pm".toList ∨ l = "p.m.".toList then .ok { st with pm := some true }
  else if (tokenSpecial l).isSome then
    .ok { st with out := { st.out with special := tokenSpecial l } }
  else readPlain lookup st t

def readTokens : Scan → List (List Char) → Checked Scan
  | st, [] => .ok st
  | st, t :: rest => do
      let st ← readToken lookup st t
      readTokens st rest

def checkDate (st : Scan) : Checked Parsed :=
  match st.out.ymd with
  | none => .ok st.out
  | some (y, m, d) => do
      let y ← if st.bc then fit i64 (1 - y) else .ok y
      if m < 1 ∨ 12 < m ∨ d < 1 ∨ Calendar.daysInMonth y m < d then .error .range
      else .ok { st.out with ymd := some (y, m, d) }

def applyPm (pm : Option Bool) (out : Parsed) : Checked Parsed :=
  match pm with
  | none => .ok out
  | some p =>
    match out.time with
    | none => .error .syntaxError
    | some t => do
        let h ← fit i64 (t / usecsPerHour)
        if 12 < h ∨ (h = 0 ∧ p = true) then .error .range
        else if p = true ∧ h < 12 then do
          let t ← fit i64 (t + 12 * usecsPerHour)
          return { out with time := some t }
        else if p = false ∧ h = 12 then do
          let t ← fit i64 (t - 12 * usecsPerHour)
          return { out with time := some t }
        else .ok out

def parseDatetime (s : List Char) : Checked Parsed :=
  match wholeSpecial (lowercase (trim s)) with
  | some special => .ok { special := some special }
  | none => do
      let tokens ← tokenize s
      if tokens.isEmpty then .error .syntaxError
      else do
        let scanned ← readTokens lookup {} tokens
        let dated ← namedDate scanned
        if dated.looseNums ≠ [] then .error .syntaxError
        else do
          let out ← checkDate dated
          applyPm dated.pm out

end Reading

/-! ### Checked and plain -/

/-- A checked computation does what the plain one does: that one aborts just when `fits` fails,
and what it returns satisfies `post`. -/
structure Behaves {α : Type} (checked plain : Checked α) (fits : Prop) (post : α → Prop) : Prop where
  same : checked = plain
  aborts : plain = .error .aborts ↔ ¬ fits
  returns : ∀ a, plain = .ok a → post a

abbrev Sound {α : Type} (checked plain : Checked α) (post : α → Prop) : Prop :=
  Behaves checked plain True post

namespace Behaves

variable {α β : Type} {post : α → Prop} {fits : Prop}

theorem ok {a : α} (holds : post a) : Sound (.ok a) (.ok a) post where
  same := rfl
  aborts := ⟨fun impossible => (nomatch impossible), fun absurdity => absurd trivial absurdity⟩
  returns := by
    intro b isB
    cases isB
    exact holds

theorem error {e : DtErr} (answer : e ≠ .aborts) : Sound (.error e : Checked α) (.error e) post where
  same := rfl
  aborts := ⟨fun same => absurd (Except.error.inj same) answer, fun absurdity => absurd trivial absurdity⟩
  returns := fun _ impossible => nomatch impossible

variable {checked : Checked α}

theorem congr {plain : Checked α} (behaves : Behaves checked plain fits post) {fits' : Prop}
    (iff : fits' ↔ fits) : Behaves checked plain fits' post :=
  ⟨behaves.same, behaves.aborts.trans (not_congr iff.symm), behaves.returns⟩

theorem self {plain : Checked α} (behaves : Behaves checked plain fits post) :
    Behaves checked checked fits post := by
  obtain ⟨rfl, aborts, returns⟩ := behaves
  exact ⟨rfl, aborts, returns⟩

theorem weaken {plain : Checked α} (behaves : Behaves checked plain fits post) {weaker : α → Prop}
    (implied : ∀ a, post a → weaker a) : Behaves checked plain fits weaker :=
  ⟨behaves.same, behaves.aborts, fun a isA => implied a (behaves.returns a isA)⟩

theorem bind {plain : Checked α} (first : Behaves checked plain fits post)
    {next next' : α → Checked β} {fitsNext : α → Prop} {post' : β → Prop}
    (later : ∀ a, plain = .ok a → post a → Behaves (next a) (next' a) (fitsNext a) post') :
    Behaves (checked >>= next) (plain >>= next') (fits ∧ ∀ a, plain = .ok a → fitsNext a) post' := by
  obtain ⟨rfl, aborts, returns⟩ := first
  cases ran : checked with
  | error e =>
    rw [ran] at aborts
    refine ⟨rfl, ?_, fun _ impossible => nomatch impossible⟩
    rw [error_bind]
    constructor
    · intro same both
      cases same
      exact aborts.mp rfl both.1
    · intro unfit
      rw [Except.error.inj (aborts.mpr (fun all =>
        unfit ⟨all, fun a impossible => nomatch impossible⟩))]
  | ok a =>
    have here := later a ran (returns a ran)
    rw [ran] at aborts
    refine here.congr ⟨fun both => both.2 a rfl, fun fitsHere => ⟨?_, ?_⟩⟩
    · by_contra unfit
      cases aborts.mpr unfit
    · intro b isB
      cases isB
      exact fitsHere

theorem ite {c : Prop} [Decidable c] {yes yes' no no' : Checked α} {fitsYes fitsNo : Prop}
    (whenTrue : c → Behaves yes yes' fitsYes post) (whenFalse : ¬ c → Behaves no no' fitsNo post) :
    Behaves (if c then yes else no) (if c then yes' else no')
      ((c → fitsYes) ∧ (¬ c → fitsNo)) post := by
  by_cases holds : c
  · rw [if_pos holds, if_pos holds]
    exact (whenTrue holds).congr ⟨fun both => both.1 holds,
      fun all => ⟨fun _ => all, fun absent => absurd holds absent⟩⟩
  · rw [if_neg holds, if_neg holds]
    exact (whenFalse holds).congr ⟨fun both => both.2 holds,
      fun all => ⟨fun present => absurd present holds, fun _ => all⟩⟩

theorem bindSound {plain : Checked α} (first : Behaves checked plain fits post)
    {next next' : α → Checked β} {post' : β → Prop}
    (later : ∀ a, post a → Sound (next a) (next' a) post') :
    Behaves (checked >>= next) (plain >>= next') fits post' :=
  (first.bind (fun a _ holds => later a holds)).congr
    ⟨fun all => ⟨all, fun _ _ => trivial⟩, fun both => both.1⟩

theorem iteSound {c : Prop} [Decidable c] {yes yes' no no' : Checked α}
    (whenTrue : c → Sound yes yes' post) (whenFalse : ¬ c → Sound no no' post) :
    Sound (if c then yes else no) (if c then yes' else no') post :=
  (ite whenTrue whenFalse).congr ⟨fun _ => ⟨fun _ => trivial, fun _ => trivial⟩, fun _ => trivial⟩

theorem fit {type : IntType} {n : Int} (holds : type.Holds n) {next : Int → Checked α}
    {plain : Checked α} (later : Behaves (next n) plain fits post) :
    Behaves (CheckedText.fit type n >>= next) plain fits post := by
  rw [CheckedText.fit, IntType.check_ok holds]
  exact later

end Behaves

open Behaves (ok error bindSound iteSound)

/-! ### Slices -/

theorem byteLen_cons (c : Char) (s : List Char) : byteLen (c :: s) = c.utf8Size + byteLen s := rfl

theorem byteLen_append (a b : List Char) : byteLen (a ++ b) = byteLen a + byteLen b := by
  simp [byteLen]

theorem sliceAt_append (a b : List Char) : sliceAt (byteLen a) (a ++ b) = some (a, b) := by
  induction a with
  | nil => cases b <;> rfl
  | cons c rest ih =>
    have pos : 0 < c.utf8Size := Char.utf8Size_pos c
    rw [byteLen_cons, List.cons_append, sliceAt, if_neg (by omega), if_pos (by omega),
      Nat.add_sub_cancel_left, ih]
    rfl

variable {s p t : List Char} {c : Char}

theorem sliceAt_some {n : Nat} {a b : List Char} (isCut : sliceAt n s = some (a, b)) :
    s = a ++ b ∧ byteLen a = n := by
  induction s generalizing n a with
  | nil =>
    rw [sliceAt] at isCut
    split at isCut
    · next zero =>
      cases isCut
      exact ⟨rfl, zero.symm⟩
    · cases isCut
  | cons c rest ih =>
    rw [sliceAt] at isCut
    split at isCut
    · next zero =>
      cases isCut
      exact ⟨rfl, zero.symm⟩
    split at isCut
    · obtain ⟨parts, later, same⟩ := Option.map_eq_some_iff.mp isCut
      cases same
      obtain ⟨isRest, length⟩ := ih later
      refine ⟨by rw [isRest]; rfl, ?_⟩
      rw [byteLen_cons, length]
      omega
    · cases isCut

theorem slice_append (a b : List Char) : slice (byteLen a) (a ++ b) = .ok (a, b) := by
  rw [slice, sliceAt_append]

def Boundary (n : Nat) (s : List Char) : Prop := ∃ a b, s = a ++ b ∧ byteLen a = n

theorem slice_behaves (n : Nat) (s : List Char) :
    Behaves (slice n s) (slice n s) (Boundary n s)
      (fun cut => s = cut.1 ++ cut.2 ∧ byteLen cut.1 = n) := by
  unfold slice
  cases cut : sliceAt n s with
  | some parts =>
    obtain ⟨a, b⟩ := parts
    have isCut := sliceAt_some cut
    exact ⟨rfl, ⟨fun impossible => (nomatch impossible), fun unfit => absurd ⟨a, b, isCut⟩ unfit⟩,
      fun _ same => by cases same; exact isCut⟩
  | none =>
    refine ⟨rfl, ⟨?_, fun _ => rfl⟩, fun _ impossible => nomatch impossible⟩
    rintro _ ⟨a, b, rfl, rfl⟩
    rw [sliceAt_append] at cut
    cases cut

theorem boundary_append (a b : List Char) (n : Nat) :
    Boundary (byteLen a + n) (a ++ b) ↔ Boundary n b := by
  constructor
  · rintro ⟨x, y, same, length⟩
    rcases List.append_eq_append_iff.mp same with ⟨more, isX, isB⟩ | ⟨less, isA, _⟩
    · rw [isX, byteLen_append] at length
      exact ⟨more, y, isB, by omega⟩
    · rw [isA, byteLen_append] at length
      have zero : 0 = n := by omega
      exact ⟨[], b, rfl, zero⟩
  · rintro ⟨x, y, same, length⟩
    exact ⟨a ++ x, y, by rw [same, List.append_assoc], by rw [byteLen_append, length]⟩

/-! ### Offsets are sliced by their lengths -/

/-- A cut of an offset that has the length of four or of six digits goes through a character. -/
def CutInside (rest : List Char) : Prop :=
  (byteLen rest = 4 ∧ ¬ Boundary 2 rest) ∨
    (byteLen rest = 6 ∧ (¬ Boundary 2 rest ∨ ¬ Boundary 4 rest))

theorem compactParts_behaves (rest : List Char) :
    Behaves (compactParts rest) (compactParts rest) (¬ CutInside rest) (fun _ => True) := by
  unfold compactParts
  refine (Behaves.ite (fun _ => ok trivial) (fun _ => Behaves.ite
    (fun _ => (slice_behaves 2 rest).bindSound (fun _ _ => ok trivial))
    (fun _ => Behaves.ite (fun _ => (slice_behaves 2 rest).bind (fun hm _ _ =>
      (slice_behaves 2 hm.2).bindSound (fun _ _ => ok trivial))) (fun _ => ok trivial)))).congr ?_
  have twice : (Boundary 2 rest ∧ ∀ hm, slice 2 rest = .ok hm → Boundary 2 hm.2) ↔
      Boundary 2 rest ∧ Boundary 4 rest := by
    refine and_congr_right (fun first => ?_)
    obtain ⟨a, b, rfl, length⟩ := first
    have place := boundary_append a b 2
    have isCut := slice_append a b
    rw [length] at place isCut
    rw [isCut, place]
    exact ⟨fun all => all _ rfl, fun isPlace hm same => by cases same; exact isPlace⟩
  rw [twice]
  unfold CutInside
  generalize byteLen rest = n
  generalize Boundary 2 rest = first
  generalize Boundary 4 rest = second
  grind

theorem offsetOfParts_sound (neg : Bool) (parts : List (List Char)) :
    Sound (offsetOfParts neg parts) (.ok (DatetimeText.offsetOfParts neg parts))
      (fun o => ∀ v, o = some v → -60000 < v ∧ v < 60000) := by
  unfold offsetOfParts DatetimeText.offsetOfParts
  by_cases malformed : parts.isEmpty = true ∨ 3 < parts.length ∨
      parts.any (fun p => p.isEmpty || !allDigits p) = true
  · rw [if_pos malformed, if_pos malformed]
    exact ok (fun v impossible => nomatch impossible)
  rw [if_neg malformed, if_neg malformed]
  generalize numeral (parts.getD 0 []) = h
  generalize numeral (parts.getD 1 []) = m
  generalize numeral (parts.getD 2 []) = sec
  dsimp only
  by_cases above : 15 < h ∨ 59 < m ∨ 59 < sec
  · rw [if_pos above, if_pos above, ite_self]
    exact ok (fun v impossible => nomatch impossible)
  have inside : i32.Holds h ∧ i32.Holds m ∧ i32.Holds sec := by
    simp only [i32_holds]
    omega
  rw [if_neg (not_not.mpr inside), if_neg above, if_neg above]
  refine Behaves.fit (i32_holds.mpr (by omega)) (Behaves.fit (i32_holds.mpr (by omega))
    (Behaves.fit (i32_holds.mpr (by omega)) (Behaves.fit (i32_holds.mpr (by omega)) ?_)))
  cases neg with
  | true =>
    refine Behaves.fit (i32_holds.mpr (by omega)) (ok ?_)
    rintro v ⟨⟩
    omega
  | false =>
    refine ok ?_
    rintro v ⟨⟩
    omega

/-- An offset whose length is that of four or six digits, but with a character across a cut. -/
def SplitsCharacter (s : List Char) : Prop :=
  ∃ c rest, s = c :: rest ∧ (c = '+' ∨ c = '-') ∧ ':' ∉ rest ∧ CutInside rest

theorem parseIsoOffset_behaves (s : List Char) :
    Behaves (parseIsoOffset s) (DatetimeText.parseIsoOffset s) (¬ SplitsCharacter s)
      (fun o => ∀ v, o = some v → s.head?.any isSign = true ∧ -60000 < v ∧ v < 60000) := by
  cases s with
  | nil =>
    refine (ok (fun v impossible => nomatch impossible)).congr ⟨fun _ => trivial, ?_⟩
    rintro _ ⟨c, rest, same, _⟩
    cases same
  | cons c rest =>
    have signed : ¬ (rest = [] ∨ (c ≠ '+' ∧ c ≠ '-')) → isSign c = true := by
      intro isOffset
      simp only [isSign, Bool.or_eq_true, beq_iff_eq]
      by_contra noSign
      exact isOffset (Or.inr (not_or.mp noSign))
    have parts : ∀ parts, ¬ (rest = [] ∨ (c ≠ '+' ∧ c ≠ '-')) →
        Sound (offsetOfParts (c = '-') parts) (.ok (DatetimeText.offsetOfParts (c = '-') parts))
          (fun o => ∀ v, o = some v → isSign c = true ∧ -60000 < v ∧ v < 60000) :=
      fun parts isOffset => (offsetOfParts_sound (c = '-') parts).weaken
        (fun o bounds v same => ⟨signed isOffset, bounds v same⟩)
    refine (Behaves.ite (fun _ => ok (fun v impossible => nomatch impossible)) (fun isOffset =>
      Behaves.ite (fun _ => parts _ isOffset)
        (fun _ => (compactParts_behaves rest).bindSound (fun found _ => ?_)))).congr ?_
    · cases found with
      | none => exact ok (fun v impossible => nomatch impossible)
      | some found => exact parts found isOffset
    · have colon : rest.contains ':' = true ↔ ':' ∈ rest := List.contains_iff_mem
      rw [colon]
      constructor
      · intro whole
        refine ⟨fun _ => trivial, fun isOffset => ⟨fun _ => trivial, fun noColon inside => ?_⟩⟩
        have sign := signed isOffset
        simp only [isSign, Bool.or_eq_true, beq_iff_eq] at sign
        exact whole ⟨c, rest, rfl, sign, noColon, inside⟩
      · rintro ⟨_, compact⟩ ⟨d, others, same, sign, noColon, inside⟩
        cases same
        refine (compact ?_).2 noColon inside
        rintro (rfl | ⟨notPlus, notMinus⟩)
        · rcases inside with ⟨four, _⟩ | ⟨six, _⟩
          · cases four
          · cases six
        · exact sign.elim notPlus notMinus

/-! ### Digits -/

theorem isDigit_spec (digit : isDigit c = true) : digitOf c < 10 ∧ c.utf8Size = 1 := by
  simp only [isDigit, Bool.and_eq_true, decide_eq_true_eq] at digit
  have nine : '9'.toNat = '0'.toNat + 9 := rfl
  have last : '9'.toNat ≤ 127 := by decide
  refine ⟨by unfold digitOf; omega, ?_⟩
  rw [Char.utf8Size_eq_one_iff, UInt32.le_iff_toNat_le]
  exact Nat.le_trans digit.2 last

theorem digits_below (digits : allDigits p = true) : ∀ d ∈ p.map digitOf, d < 10 := by
  intro d isDigit
  obtain ⟨c, isChar, rfl⟩ := List.mem_map.mp isDigit
  exact (isDigit_spec (List.all_eq_true.mp digits c isChar)).1

theorem byteLen_digits (digits : allDigits s = true) : byteLen s = s.length := by
  induction s with
  | nil => rfl
  | cons c rest ih =>
    rw [allDigits, List.all_cons, Bool.and_eq_true] at digits
    rw [byteLen_cons, (isDigit_spec digits.1).2, ih digits.2, List.length_cons, Nat.add_comm]

theorem allDigits_of_sublist (sub : s.Sublist t) (digits : allDigits t = true) :
    allDigits s = true :=
  List.all_eq_true.mpr (fun c isChar => List.all_eq_true.mp digits c (sub.subset isChar))

theorem numeral_lt (digits : allDigits p = true) {n : Nat} (short : byteLen p ≤ n) :
    numeral p < 10 ^ n := by
  have below := numberOf_lt (b := 10) (by decide) (digits_below digits)
  rw [List.length_map, ← byteLen_digits digits] at below
  exact Nat.lt_of_lt_of_le below (Nat.pow_le_pow_right (by decide) short)

/-! ### Clocks -/

theorem addDigits_eq {ds : List Nat} (below : ∀ d ∈ ds, d < 10) {v : Nat}
    (fits : (v + 1) * 10 ^ ds.length < 2 ^ 63) :
    addDigits v ds = .ok (v * 10 ^ ds.length + numberOf 10 ds) := by
  induction ds generalizing v with
  | nil => simp [addDigits]
  | cons d rest ih =>
    have small : d < 10 := below d List.mem_cons_self
    rw [List.length_cons, Nat.pow_succ] at fits ⊢
    have grown : (v + 1) * (10 ^ rest.length * 10) = (v * 10 + 10) * 10 ^ rest.length := by ring
    rw [grown] at fits
    have pos : 0 < 10 ^ rest.length := Nat.pow_pos (by decide)
    have here : v * 10 + 10 < 2 ^ 63 := Nat.lt_of_le_of_lt (Nat.le_mul_of_pos_right _ pos) fits
    have next : (v * 10 + d + 1) * 10 ^ rest.length < 2 ^ 63 :=
      Nat.lt_of_le_of_lt (Nat.mul_le_mul_right _ (by omega)) fits
    rw [addDigits, fitNat, if_pos (i64_holds.mpr (by omega)), ok_bind, fitNat,
      if_pos (i64_holds.mpr (by omega)), ok_bind,
      ih (fun e isLater => below e (List.mem_cons_of_mem _ isLater)) next, numberOf_cons]
    congr 1
    ring

theorem parseFracMicros_sound {f : List Char} (digits : allDigits f = true) :
    Sound (parseFracMicros f) (.ok (DatetimeText.parseFracMicros f)) (fun us => us ≤ 1000000) := by
  unfold parseFracMicros DatetimeText.parseFracMicros
  by_cases empty : f = []
  · rw [if_pos empty, if_pos empty]
    exact ok (Nat.zero_le _)
  rw [if_neg empty, if_neg empty]
  have below : ∀ d ∈ ((f.map digitOf ++ List.replicate 7 0).take 7).take 6, d < 10 := by
    intro d isDigit
    rcases List.mem_append.mp (List.mem_of_mem_take (List.mem_of_mem_take isDigit)) with
      isRead | isZero
    · exact digits_below digits d isRead
    · rw [(List.mem_replicate.mp isZero).2]
      decide
  have six : (((f.map digitOf ++ List.replicate 7 0).take 7).take 6).length = 6 := by simp
  dsimp only
  generalize (f.map digitOf ++ List.replicate 7 0).take 7 = ds at below six ⊢
  have bound := numberOf_lt (b := 10) (by decide) below
  have added := addDigits_eq (v := 0) below (by rw [six]; decide)
  rw [six] at bound
  rw [Nat.zero_mul, Nat.zero_add] at added
  rw [added, ok_bind]
  by_cases up : 5 ≤ ds.getD 6 0
  · rw [if_pos up, if_pos up, fitNat, if_pos (i64_holds.mpr (by omega))]
    exact ok (by omega)
  · rw [if_neg up, if_neg up]
    exact ok (by omega)

theorem clockNum_sound (p : List Char) : Sound (clockNum p) (clockNum p) (fun _ => True) :=
  iteSound (fun _ => error (by decide)) (fun _ => ok trivial)

theorem clockSeconds_sound (s : List Char) :
    Sound (clockSeconds s) (DatetimeText.clockSeconds s) (fun sec => sec.2 ≤ 1000000) := by
  refine (clockNum_sound _).bindSound (fun sec _ => ?_)
  refine iteSound (fun _ => error (by decide)) (fun digits => ?_)
  exact (parseFracMicros_sound (Bool.not_eq_false _ ▸ digits)).bindSound (fun us small => ok small)

theorem clockOf_sound (h m : Nat) (sec : Nat × Nat) (small : sec.2 ≤ 1000000) :
    Sound (clockOf h m sec) (DatetimeText.clockOf h m sec) (fun t => 0 ≤ t ∧ t ≤ usecsPerDay) := by
  unfold clockOf DatetimeText.clockOf
  have micro : usecsPerSec = 1000000 := rfl
  rw [micro]
  refine iteSound (fun _ => error (by decide)) (fun inside => ?_)
  refine Behaves.fit (i64_holds.mpr (by omega)) (Behaves.fit (i64_holds.mpr (by omega))
    (Behaves.fit (i64_holds.mpr (by omega)) (Behaves.fit (i64_holds.mpr (by omega))
      (Behaves.fit (i64_holds.mpr (by omega)) (Behaves.fit (i64_holds.mpr (by omega)) ?_)))))
  exact iteSound (fun _ => error (by decide)) (fun early => ok ⟨by omega, by omega⟩)

theorem parseClock_sound (s : List Char) :
    Sound (parseClock s) (DatetimeText.parseClock s) (fun t => 0 ≤ t ∧ t ≤ usecsPerDay) := by
  unfold parseClock DatetimeText.parseClock
  rcases s.splitOn ':' with _ | ⟨hs, _ | ⟨ms, _ | ⟨ss, _ | ⟨_, _⟩⟩⟩⟩
  · exact error (by decide)
  · exact error (by decide)
  · exact (clockNum_sound hs).bindSound (fun h _ => (clockNum_sound ms).bindSound (fun m _ =>
      clockOf_sound h m (0, 0) (by decide)))
  · exact (clockNum_sound hs).bindSound (fun h _ => (clockNum_sound ms).bindSound (fun m _ =>
      (clockSeconds_sound ss).bindSound (fun sec small => clockOf_sound h m sec small)))
  · exact error (by decide)

/-! ### Dates -/

theorem dateNum_sound (p : List Char) :
    Sound (dateNum p) (dateNum p) (fun n => 0 ≤ n ∧ i64.Holds n ∧ (byteLen p ≤ 2 → n < 100)) := by
  refine iteSound (fun _ => error (by decide)) (fun wellFormed => ?_)
  refine iteSound (fun fits => ok ?_) (fun _ => error (by decide))
  have digits : allDigits p = true := by
    by_contra malformed
    exact wellFormed (Or.inr (Bool.eq_false_iff.mpr malformed))
  refine ⟨Int.natCast_nonneg _, i64_holds.mpr ⟨by omega, fits⟩, fun short => ?_⟩
  have small := numeral_lt digits short
  omega

/-- The year of a date is one that an `i64` holds. -/
abbrev YearFits (date : Option Ymd) : Prop := ∀ ymd, date = some ymd → 0 ≤ ymd.1 ∧ i64.Holds ymd.1

theorem ymdOf_sound {y m d : Int} (year : 0 ≤ y ∧ i64.Holds y) (month : 0 ≤ m ∧ m < 100)
    (day : 0 ≤ d ∧ d < 100) :
    Sound (ymdOf y m d) (.ok (some (y, m.toNat, d.toNat))) YearFits := by
  refine Behaves.fit (u32_holds.mpr (by omega)) (Behaves.fit (u32_holds.mpr (by omega)) (ok ?_))
  rintro ymd ⟨⟩
  exact year

theorem monthFromName_lt {m : Nat} (named : monthFromName s = some m) : m < 100 := by
  unfold monthFromName at named
  dsimp only at named
  split_ifs at named with short
  obtain ⟨found, isFound, rfl⟩ := Option.map_eq_some_iff.mp named
  have bound := (List.mem_zipIdx (List.mem_of_find?_eq_some isFound)).2.1
  have twelve : (months.zip fullMonths).length = 12 := by decide
  omega

theorem fullYear_sound {p2 : List Char} {y : Int} (year : 0 ≤ y ∧ i64.Holds y)
    (small : byteLen p2 ≤ 2 → y < 100) :
    Sound (fullYear p2 y)
      (.ok (if byteLen p2 ≤ 2 then (if y < 70 then y + 2000 else y + 1900) else y))
      (fun y => 0 ≤ y ∧ i64.Holds y) := by
  unfold fullYear
  by_cases short : byteLen p2 ≤ 2
  · have := small short
    rw [if_pos short, if_pos short, fit, IntType.check_ok (by rw [i64_holds]; split_ifs <;> omega)]
    split_ifs
    · exact ok ⟨by omega, i64_holds.mpr (by omega)⟩
    · exact ok ⟨by omega, i64_holds.mpr (by omega)⟩
  · rw [if_neg short, if_neg short]
    exact ok year

theorem dateOfParts_sound (p0 p1 p2 : List Char) :
    Sound (dateOfParts p0 p1 p2) (DatetimeText.dateOfParts p0 p1 p2) YearFits := by
  have monthAndDay : ∀ {y m d : Int}, 0 ≤ y ∧ i64.Holds y → 0 ≤ m → 0 ≤ d →
      Sound (if 12 < m ∨ 31 < d then .error .range else ymdOf y m d)
        (if 12 < m ∨ 31 < d then .error .range else .ok (some (y, m.toNat, d.toNat))) YearFits := by
    intro y m d year month day
    exact iteSound (fun _ => error (by decide))
      (fun inside => ymdOf_sound year ⟨month, by omega⟩ ⟨day, by omega⟩)
  unfold dateOfParts DatetimeText.dateOfParts
  dsimp only
  refine iteSound (fun _ => ?_) (fun short => ?_)
  · refine (dateNum_sound p0).bindSound (fun y year => ?_)
    cases monthFromName p1 with
    | some m =>
      exact (dateNum_sound p2).bindSound (fun d day =>
        monthAndDay ⟨year.1, year.2.1⟩ (Int.natCast_nonneg m) day.1)
    | none =>
      exact (dateNum_sound p1).bindSound (fun m month => (dateNum_sound p2).bindSound (fun d day =>
        monthAndDay ⟨year.1, year.2.1⟩ month.1 day.1))
  · cases named : monthFromName p1 with
    | some m =>
      have month := monthFromName_lt named
      exact (dateNum_sound p0).bindSound (fun d day => (dateNum_sound p2).bindSound (fun y year =>
        ymdOf_sound ⟨year.1, year.2.1⟩ ⟨Int.natCast_nonneg m, by omega⟩
          ⟨day.1, day.2.2 (by omega)⟩))
    | none =>
      exact (dateNum_sound p0).bindSound (fun m month => (dateNum_sound p1).bindSound (fun d day =>
        (dateNum_sound p2).bindSound (fun y year =>
          (fullYear_sound ⟨year.1, year.2.1⟩ year.2.2).bindSound (fun y year =>
            monthAndDay year month.1 day.1))))

theorem dateOfSplit_sound (parts : List (List Char)) :
    Sound (dateOfSplit parts) (DatetimeText.dateOfSplit parts) YearFits := by
  have other : ∀ parts : List (List Char), Sound
      (if parts.all allDigits then .error .syntaxError else .ok none)
      (if parts.all allDigits then .error .syntaxError else .ok none) YearFits := fun parts =>
    iteSound (fun _ => error (by decide)) (fun _ => ok (fun _ impossible => nomatch impossible))
  rcases parts with _ | ⟨p0, _ | ⟨p1, _ | ⟨p2, _ | ⟨p3, others⟩⟩⟩⟩
  · exact other []
  · exact other [p0]
  · exact other [p0, p1]
  · exact dateOfParts_sound p0 p1 p2
  · exact other (p0 :: p1 :: p2 :: p3 :: others)

theorem compactDate_sound (eight : byteLen t = 8) (digits : allDigits t = true) :
    Sound (compactDate t)
      (.ok (some (numeral (t.take 4), numeral ((t.drop 4).take 2), numeral (t.drop 6)))) YearFits := by
  have part : ∀ {p : List Char}, p.Sublist t → byteLen p = p.length ∧
      (p.length ≤ 4 → numeral p < 10000) ∧ (p.length ≤ 2 → numeral p < 100) := by
    intro p sub
    have inP := allDigits_of_sublist sub digits
    have same := byteLen_digits inP
    exact ⟨same, fun short => numeral_lt (n := 4) inP (by omega),
      fun short => numeral_lt (n := 2) inP (by omega)⟩
  have length : t.length = 8 := (part (List.Sublist.refl t)).1.symm.trans eight
  have year := part (List.take_sublist 4 t)
  have month := part ((List.take_sublist 2 _).trans (List.drop_sublist 4 t))
  have day := part (List.drop_sublist 6 t)
  rw [List.length_take, length] at year
  rw [List.length_take, List.length_drop, length] at month
  rw [List.length_drop, length] at day
  have yearSmall := year.2.1 (by decide)
  have monthSmall := month.2.2 (by decide)
  have daySmall := day.2.2 (by decide)
  have sliceYear : slice 4 t = .ok (t.take 4, t.drop 4) := by
    have cut := slice_append (t.take 4) (t.drop 4)
    rwa [List.take_append_drop, year.1] at cut
  have sliceMonth : slice 2 (t.drop 4) = .ok ((t.drop 4).take 2, t.drop 6) := by
    have cut := slice_append ((t.drop 4).take 2) ((t.drop 4).drop 2)
    rwa [List.take_append_drop, month.1, List.drop_drop] at cut
  unfold compactDate
  rw [sliceYear, ok_bind, sliceMonth, ok_bind]
  dsimp only
  exact Behaves.fit (i64_holds.mpr (by omega))
    (ymdOf_sound ⟨by omega, i64_holds.mpr (by omega)⟩ (by omega) (by omega))

theorem parseDateToken_sound (t : List Char) :
    Sound (parseDateToken t) (DatetimeText.parseDateToken t) YearFits :=
  iteSound (fun _ => dateOfSplit_sound _) (fun _ => iteSound (fun _ => dateOfSplit_sound _)
    (fun _ => iteSound (fun _ => dateOfSplit_sound _)
      (fun _ => iteSound (fun compact => compactDate_sound compact.1 compact.2)
        (fun _ => ok (fun _ impossible => nomatch impossible)))))

/-! ### Tokens -/

theorem slice_one (single : c.utf8Size = 1) (s : List Char) : slice 1 (c :: s) = .ok ([c], s) := by
  have cut := slice_append [c] s
  rwa [byteLen_cons, single] at cut

theorem utf8Size_isT (letter : isT c = true) : c.utf8Size = 1 := by
  simp only [isT, Bool.or_eq_true, beq_iff_eq] at letter
  rcases letter with rfl | rfl <;> rfl

theorem slice_search (p : Char → Bool) (s : List Char) :
    slice (byteLen (s.takeWhile p)) s = .ok (s.takeWhile p, s.dropWhile p) := by
  have cut := slice_append (s.takeWhile p) (s.dropWhile p)
  rwa [List.takeWhile_append_dropWhile] at cut

theorem dropWhile_not_any {p : Char → Bool} (absent : s.any p = false) :
    s.dropWhile (fun c => !p c) = [] := by
  apply List.dropWhile_eq_nil_iff.mpr
  intro c isChar
  rw [List.any_eq_false] at absent
  simpa using absent c isChar

theorem dropWhile_any {p : Char → Bool} (present : s.any p = true) :
    ∃ c rest, s.dropWhile (fun c => !p c) = c :: rest ∧ p c = true := by
  induction s with
  | nil => cases present
  | cons c rest ih =>
    cases found : p c with
    | true => exact ⟨c, rest, by simp [found], found⟩
    | false =>
      rw [List.any_cons, found, Bool.false_or] at present
      obtain ⟨d, later, same, isFound⟩ := ih present
      exact ⟨d, later, by simpa [found] using same, isFound⟩

theorem splitT_eq (raw : List Char) : splitT raw = .ok (DatetimeText.splitT raw) := by
  unfold splitT DatetimeText.splitT
  cases present : raw.any isT with
  | false =>
    rw [dropWhile_not_any present]
    rfl
  | true =>
    obtain ⟨c, after, rest, letter⟩ := dropWhile_any present
    rw [if_pos rfl, slice_search, rest, ok_bind]
    dsimp only
    by_cases empty : raw.takeWhile (fun c => !isT c) = []
    · rw [if_pos empty, if_neg (fun both => both.1 empty)]
      rfl
    rw [if_neg empty]
    by_cases digits : (raw.takeWhile (fun c => !isT c)).all (fun c => isDigit c || c == '-') = true
    · rw [if_pos digits, slice_one (utf8Size_isT letter), ok_bind]
      dsimp only
      by_cases next : after.head?.any isDigit = true
      · rw [if_pos next, if_pos ⟨empty, digits, next⟩]
        rfl
      · rw [if_neg next, if_neg (fun all => next all.2.2)]
        rfl
    · rw [if_neg digits, if_neg (fun all => digits all.2.1)]
      rfl

theorem slice_last (last : p.getLast? = some c) (single : c.utf8Size = 1) :
    slice (byteLen p - 1) p = .ok (p.dropLast, [c]) := by
  have parts : p = p.dropLast ++ [c] := (List.dropLast_append_getLast? c last).symm
  have cut := slice_append p.dropLast [c]
  have length : byteLen p - 1 = byteLen p.dropLast := by
    have both := congrArg byteLen parts
    rw [byteLen_append, byteLen_cons, single] at both
    simp only [byteLen, List.map_nil, List.sum_nil] at both ⊢
    omega
  rw [length]
  rwa [← parts] at cut

theorem splitClock_eq (p : List Char) : splitClock p = .ok (DatetimeText.splitClock p) := by
  cases p with
  | nil => rfl
  | cons c rest =>
    unfold splitClock DatetimeText.splitClock
    dsimp only
    by_cases colon : (c :: rest).contains ':' = true
    swap
    · rw [if_neg colon, if_neg (fun both => colon both.1)]
      rfl
    cases digit : isDigit c with
    | false =>
      rw [if_pos colon, firstChar, ok_bind, digit, if_neg (by decide)]
      rw [if_neg (fun both => Bool.false_ne_true both.2)]
      rfl
    | true =>
      have single := (isDigit_spec digit).2
      have clock : (c :: rest).contains ':' = true ∧ true = true := ⟨colon, rfl⟩
      rw [if_pos colon, firstChar, ok_bind, digit, if_pos rfl, if_pos clock,
        slice_one single, ok_bind]
      dsimp only
      cases signed : rest.any isSign with
      | true =>
        obtain ⟨sign, zone, same, isFound⟩ := dropWhile_any signed
        have cut := slice_append (c :: rest.takeWhile (fun c => !isSign c))
          (rest.dropWhile (fun c => !isSign c))
        rw [List.cons_append, List.takeWhile_append_dropWhile, byteLen_cons, single,
          Nat.add_comm] at cut
        rw [if_pos rfl, cut, ok_bind, same]
        rfl
      | false =>
        rw [dropWhile_not_any signed, if_neg (by decide)]
        dsimp only
        by_cases zulu : (c :: rest).getLast? = some 'Z' ∨ (c :: rest).getLast? = some 'z'
        · have cut : ∃ z, slice (byteLen (c :: rest) - 1) (c :: rest) =
              .ok ((c :: rest).dropLast, [z]) := by
            rcases zulu with upper | lower
            · exact ⟨'Z', slice_last upper rfl⟩
            · exact ⟨'z', slice_last lower rfl⟩
          obtain ⟨z, cut⟩ := cut
          rw [if_pos zulu, if_pos zulu, cut]
          rfl
        · rw [if_neg zulu, if_neg zulu]
          rfl

theorem mapM_ok {α β : Type} {f : α → Checked β} {g : α → β} (same : ∀ x, f x = .ok (g x))
    (xs : List α) : xs.mapM f = .ok (xs.map g) := by
  induction xs with
  | nil => rfl
  | cons x rest ih =>
    rw [List.mapM_cons, same, ok_bind, ih]
    rfl

theorem splitPieces_eq (raw : List Char) :
    splitPieces raw = .ok ((DatetimeText.splitT raw).flatMap DatetimeText.splitClock) := by
  unfold splitPieces
  rw [splitT_eq, ok_bind, mapM_ok splitClock_eq, ok_bind, List.flatMap_def]
  rfl

theorem tokenize_eq (s : List Char) : tokenize s = .ok (DatetimeText.tokenize s) := by
  unfold tokenize DatetimeText.tokenize
  rw [mapM_ok splitPieces_eq, ok_bind, List.flatMap_assoc, List.flatMap_def]
  rfl

theorem splitT_ne_nil {raw : List Char} (notEmpty : raw ≠ []) :
    ∀ p ∈ DatetimeText.splitT raw, p ≠ [] := by
  unfold DatetimeText.splitT
  dsimp only
  cases raw.dropWhile (fun c => !isT c) with
  | nil =>
    intro p isPiece
    rw [List.mem_singleton.mp isPiece]
    exact notEmpty
  | cons c after =>
    dsimp only
    split_ifs with isDate
    · intro p isPiece
      rcases List.mem_cons.mp isPiece with rfl | isLast
      · exact isDate.1
      · rw [List.mem_singleton.mp isLast]
        intro empty
        rw [empty] at isDate
        cases isDate.2.2
    · intro p isPiece
      rw [List.mem_singleton.mp isPiece]
      exact notEmpty

theorem splitClock_ne_nil (notEmpty : p ≠ []) : ∀ t ∈ DatetimeText.splitClock p, t ≠ [] := by
  have whole : ∀ t ∈ [p], t ≠ [] := by
    intro t isToken
    rw [List.mem_singleton.mp isToken]
    exact notEmpty
  cases p with
  | nil => exact absurd rfl notEmpty
  | cons c rest =>
    unfold DatetimeText.splitClock
    dsimp only
    by_cases clock : (c :: rest).contains ':' = true ∧ isDigit c = true
    swap
    · rw [if_neg clock]
      exact whole
    rw [if_pos clock]
    cases zone : rest.dropWhile (fun c => !isSign c) with
    | cons sign others =>
      intro t isToken
      rcases List.mem_cons.mp isToken with rfl | isLast
      · exact List.cons_ne_nil _ _
      · rw [List.mem_singleton.mp isLast]
        exact List.cons_ne_nil _ _
    | nil =>
      dsimp only
      by_cases zulu : (c :: rest).getLast? = some 'Z' ∨ (c :: rest).getLast? = some 'z'
      swap
      · rw [if_neg zulu]
        exact whole
      rw [if_pos zulu]
      intro t isToken
      rcases List.mem_cons.mp isToken with rfl | isLast
      · -- A single letter is no clock.
        cases rest with
        | nil =>
          have letter : c = ':' := by
            have colon := clock.1
            simp only [List.contains_cons, List.contains_nil, Bool.or_false, beq_iff_eq] at colon
            exact colon.symm
          subst letter
          exact absurd clock.2 (by decide)
        | cons d others => simp
      · rw [List.mem_singleton.mp isLast]
        exact List.cons_ne_nil _ _

theorem tokenize_ne_nil (s : List Char) : ∀ t ∈ DatetimeText.tokenize s, t ≠ [] := by
  intro t isToken
  unfold DatetimeText.tokenize at isToken
  obtain ⟨p, isPiece, inPiece⟩ := List.mem_flatMap.mp isToken
  obtain ⟨raw, isRaw, inRaw⟩ := List.mem_flatMap.mp isPiece
  have notEmpty : raw ≠ [] := by
    have kept := (List.mem_filter.mp isRaw).2
    intro empty
    rw [empty] at kept
    cases kept
  exact splitClock_ne_nil (splitT_ne_nil notEmpty p inRaw) t inPiece

/-! ### Dates with times -/

theorem isClock_eq (notEmpty : t ≠ []) :
    isClock t = .ok (decide (t.contains ':' = true ∧ t.head?.any isDigit = true)) := by
  cases t with
  | nil => exact absurd rfl notEmpty
  | cons c rest =>
    unfold isClock
    by_cases colon : (c :: rest).contains ':' = true
    · rw [if_pos colon, firstChar, ok_bind]
      simp only [colon, true_and, List.head?_cons, Option.any_some, Bool.decide_eq_true]
      rfl
    · rw [if_neg colon, decide_eq_false (fun both => colon both.1)]

/-- The year is one that an `i64` holds, and the time is one of a day. -/
structure Bounded (out : Parsed) : Prop where
  year : YearFits out.ymd
  time : ∀ t, out.time = some t → 0 ≤ t ∧ t ≤ usecsPerDay

theorem kept {st : Scan} (bounded : Bounded st.out) :
    Sound (.ok st) (.ok st) (fun st' => Bounded st'.out) := ok bounded

def IsWord (t : List Char) : Prop :=
  lowercase t = "bc".toList ∨ lowercase t = "ad".toList ∨
    (lowercase t = "am".toList ∨ lowercase t = "a.m.".toList) ∨
    (lowercase t = "pm".toList ∨ lowercase t = "p.m.".toList) ∨
    (tokenSpecial (lowercase t)).isSome = true

abbrev IsClock (t : List Char) : Prop := t.contains ':' = true ∧ t.head?.any isDigit = true

/-- A token that is read as an offset: after a time any with a sign, before it only with a plus. -/
abbrev IsOffset (st : Scan) (t : List Char) : Prop :=
  (t.head?.any isSign = true ∧ st.out.time.isSome = true) ∨ t.head? = some '+'

def IsZone (t : List Char) : Prop :=
  lowercase t ≠ "z".toList ∧ DatetimeText.parseDateToken t = .ok none ∧ monthFromName t = none ∧
    isWeekdayName t = false ∧ allDigits t = false

def IsName (t : List Char) : Prop :=
  t.head? = some '-' → DatetimeText.parseIsoOffset t = .ok none

section Reading

variable (lookup : List Char → Checked (Option Zone)) (names : List Char → Prop)

/-- An offset has no character across a cut, and a name is one that can be looked up. -/
def TokenFits (st : Scan) (t : List Char) : Prop :=
  ¬ IsWord t → ¬ IsClock t →
    (IsOffset st t → ¬ SplitsCharacter t) ∧
      (¬ IsOffset st t → IsZone t →
        (t.head? = some '-' → ¬ SplitsCharacter t) ∧ (IsName t → names t))

/-- Each token that the reader comes to fits; `st'` is what it has read before it. -/
def TokensFit (st : Scan) (ts : List (List Char)) : Prop :=
  ∀ before t after st', ts = before ++ t :: after →
    DatetimeText.readTokens lookup st before = .ok st' → TokenFits names st' t

def TextFits (s : List Char) : Prop :=
  wholeSpecial (lowercase (trim s)) = none →
    TokensFit lookup names {} (DatetimeText.tokenize s)

variable (named : ∀ t, Behaves (lookup t) (lookup t) (names t) (fun _ => True))
variable {st : Scan}

include named

theorem readZone_behaves (bounded : Bounded st.out) (t : List Char) :
    Behaves (readZone lookup st t) (DatetimeText.readZone lookup st t)
      ((t.head? = some '-' → ¬ SplitsCharacter t) ∧ (IsName t → names t))
      (fun st' => Bounded st'.out) := by
  unfold readZone DatetimeText.readZone
  have byName : Behaves (lookup t >>= fun found =>
      match found with
      | some z => pure { st with out := { st.out with tz := some (.named z) } }
      | none =>
        if t.contains '/' ∧ t.any Char.isAlpha then .error (.zone t) else .error .syntaxError)
      (lookup t >>= fun found =>
      match found with
      | some z => pure { st with out := { st.out with tz := some (.named z) } }
      | none =>
        if t.contains '/' ∧ t.any Char.isAlpha then .error (.zone t) else .error .syntaxError)
      (names t) (fun st' : Scan => Bounded st'.out) := by
    refine (named t).bindSound (fun found _ => ?_)
    cases found with
    | some z => exact ok ⟨bounded.year, bounded.time⟩
    | none =>
      exact iteSound (fun _ => error (fun same => nomatch same)) (fun _ => error (by decide))
  dsimp only
  by_cases dash : t.head? = some '-'
  · rw [if_pos dash, if_pos dash]
    suffices inTurn : Behaves _ _ (¬ SplitsCharacter t ∧
        ∀ iso, DatetimeText.parseIsoOffset t = .ok iso → iso = none → names t) _ by
      refine inTurn.congr ⟨fun both => ⟨both.1 dash, ?_⟩, fun both => ⟨fun _ => both.1, ?_⟩⟩
      · rintro iso read rfl
        exact both.2 (fun _ => read)
      · exact fun isName => both.2 none (isName dash) rfl
    refine (parseIsoOffset_behaves t).bind (fun iso _ _ => ?_)
    cases iso with
    | some o => exact (ok ⟨bounded.year, bounded.time⟩).congr ⟨fun _ => trivial, fun _ => nofun⟩
    | none => exact byName.congr ⟨fun all => all rfl, fun fits _ => fits⟩
  · rw [if_neg dash, if_neg dash]
    refine byName.congr ⟨fun all => all.2 (fun isDash => absurd isDash dash), fun fits => ?_⟩
    exact ⟨fun isDash => absurd isDash dash, fun _ => fits⟩

theorem readPlain_behaves (bounded : Bounded st.out) {t : List Char} (notEmpty : t ≠ []) :
    Behaves (readPlain lookup st t) (DatetimeText.readPlain lookup st t)
      (¬ IsClock t → (IsOffset st t → ¬ SplitsCharacter t) ∧
        (¬ IsOffset st t → IsZone t →
          (t.head? = some '-' → ¬ SplitsCharacter t) ∧ (IsName t → names t)))
      (fun st' => Bounded st'.out) := by
  unfold readPlain DatetimeText.readPlain
  rw [isClock_eq notEmpty, ok_bind]
  simp only [decide_eq_true_eq]
  suffices inTurn : Behaves _ _ ((IsClock t → True) ∧ (¬ IsClock t →
      (IsOffset st t → ¬ SplitsCharacter t) ∧ (¬ IsOffset st t →
        (lowercase t = "z".toList → True) ∧ (lowercase t ≠ "z".toList →
          True ∧ ∀ date, DatetimeText.parseDateToken t = .ok date →
            (date = none ∧ monthFromName t = none ∧ isWeekdayName t = false ∧ allDigits t = false →
              (t.head? = some '-' → ¬ SplitsCharacter t) ∧ (IsName t → names t)))))) _ by
    refine inTurn.congr ⟨fun all => ⟨fun _ => trivial, fun notClock => ⟨(all notClock).1, ?_⟩⟩, ?_⟩
    · refine fun notOffset => ⟨fun _ => trivial, fun notZ => ⟨trivial, ?_⟩⟩
      rintro date read ⟨rfl, rest⟩
      exact (all notClock).2 notOffset ⟨notZ, read, rest⟩
    · intro all notClock
      refine ⟨(all.2 notClock).1, fun notOffset isZone => ?_⟩
      exact (((all.2 notClock).2 notOffset).2 isZone.1).2 none isZone.2.1 ⟨rfl, isZone.2.2⟩
  refine Behaves.ite (fun _ => iteSound (fun _ => error (by decide)) (fun _ =>
    (parseClock_sound t).bindSound (fun time day => ok ⟨bounded.year, ?_⟩))) (fun _ =>
      Behaves.ite (fun _ => (parseIsoOffset_behaves t).bindSound (fun offset _ => ?_)) (fun _ =>
        Behaves.ite (fun _ => ok ⟨bounded.year, bounded.time⟩) (fun _ =>
          (parseDateToken_sound t).bind (fun date _ year => ?_))))
  · rintro t ⟨⟩
    exact day
  · cases offset with
    | none => exact error (by decide)
    | some o => exact ok ⟨bounded.year, bounded.time⟩
  · cases date with
    | some ymd =>
      refine (iteSound (fun _ => error (by decide)) (fun _ => ok ⟨?_, bounded.time⟩)).congr
        ⟨fun _ => trivial, fun _ both => absurd both.1 (Option.some_ne_none _)⟩
      exact fun other same => year other same
    | none =>
      cases monthFromName t with
      | some m =>
        refine Behaves.congr (@kept { st with monthName := some m } bounded)
          ⟨fun _ => trivial, ?_⟩
        rintro _ ⟨_, impossible, _⟩
        cases impossible
      | none =>
        refine (Behaves.ite (fun _ => kept bounded) (fun _ => Behaves.ite
          (fun _ => @kept { st with looseNums := st.looseNums ++ [t] } bounded)
          (fun _ => readZone_behaves lookup names named bounded t))).congr ?_
        constructor
        · exact fun all => ⟨fun _ => trivial, fun weekday => ⟨fun _ => trivial, fun digits =>
            all ⟨rfl, rfl, Bool.eq_false_iff.mpr weekday, Bool.eq_false_iff.mpr digits⟩⟩⟩
        · rintro all ⟨_, _, weekday, digits⟩
          exact (all.2 (Bool.eq_false_iff.mp weekday)).2 (Bool.eq_false_iff.mp digits)

theorem readToken_behaves (bounded : Bounded st.out) {t : List Char} (notEmpty : t ≠ []) :
    Behaves (readToken lookup st t) (DatetimeText.readToken lookup st t) (TokenFits names st t)
      (fun st' => Bounded st'.out) := by
  unfold readToken DatetimeText.readToken
  have special : Bounded { st.out with special := tokenSpecial (lowercase t) } :=
    ⟨bounded.year, bounded.time⟩
  refine (Behaves.ite (fun _ => @kept { st with bc := true } bounded) (fun _ =>
    Behaves.ite (fun _ => kept bounded) (fun _ =>
    Behaves.ite (fun _ => @kept { st with pm := some false } bounded) (fun _ =>
    Behaves.ite (fun _ => @kept { st with pm := some true } bounded) (fun _ =>
      Behaves.ite (fun _ => @kept { st with out := _ } special) (fun _ =>
        readPlain_behaves lookup names named bounded notEmpty)))))).congr ?_
  unfold TokenFits IsWord
  simp only [not_or, and_imp, implies_true, true_and]

theorem readTokens_behaves (bounded : Bounded st.out) {ts : List (List Char)}
    (notEmpty : ∀ t ∈ ts, t ≠ []) :
    Behaves (readTokens lookup st ts) (DatetimeText.readTokens lookup st ts)
      (TokensFit lookup names st ts) (fun st' => Bounded st'.out) := by
  induction ts generalizing st with
  | nil =>
    refine (kept bounded).congr ⟨fun _ => trivial, ?_⟩
    intro _ before t after st' same
    cases before <;> cases same
  | cons t rest ih =>
    refine ((readToken_behaves lookup names named bounded
      (notEmpty t List.mem_cons_self)).bind (fun st' _ bounded' =>
        ih bounded' (fun u isLater => notEmpty u (List.mem_cons_of_mem _ isLater)))).congr ?_
    constructor
    · intro all
      refine ⟨all [] t rest st rfl rfl, ?_⟩
      intro middle read before u after st' same ran
      refine all (t :: before) u after st' (by rw [same]; rfl) ?_
      rw [DatetimeText.readTokens, read]
      exact ran
    · rintro ⟨first, later⟩ before u after st' same ran
      cases before with
      | nil =>
        cases same
        cases ran
        exact first
      | cons v before =>
        cases same
        obtain ⟨middle, read, ran⟩ := bind_eq_ok ran
        exact later middle read before u after st' rfl ran

omit named

theorem namedDate_sound (bounded : Bounded st.out) :
    Sound (namedDate st) (namedDate st) (fun st' => Bounded st'.out) := by
  unfold namedDate
  split
  · exact ok bounded
  split
  · next a b _ =>
    refine iteSound (fun _ => error (by decide)) (fun inside => ok ⟨?_, bounded.time⟩)
    rintro ymd ⟨⟩
    generalize (if 2 < a.length then a else b) = year at inside ⊢
    exact ⟨Int.natCast_nonneg _, i64_holds.mpr (by dsimp only; omega)⟩
  · exact error (by decide)

theorem checkDate_sound (bounded : Bounded st.out) :
    Sound (checkDate st) (DatetimeText.checkDate st)
      (fun out => ∀ t, out.time = some t → 0 ≤ t ∧ t ≤ usecsPerDay) := by
  unfold checkDate DatetimeText.checkDate
  cases date : st.out.ymd with
  | none => exact ok bounded.time
  | some ymd =>
    have year := bounded.year ymd date
    rw [i64_holds] at year
    dsimp only
    cases st.bc with
    | true =>
      rw [if_pos rfl, if_pos rfl]
      exact Behaves.fit (i64_holds.mpr (by omega))
        (iteSound (fun _ => error (by decide)) (fun _ => ok bounded.time))
    | false =>
      rw [if_neg Bool.false_ne_true, if_neg Bool.false_ne_true]
      exact iteSound (fun _ => error (by decide)) (fun _ => ok bounded.time)

theorem applyPm_sound (pm : Option Bool) {out : Parsed}
    (bounded : ∀ t, out.time = some t → 0 ≤ t ∧ t ≤ usecsPerDay) :
    Sound (applyPm pm out) (DatetimeText.applyPm pm out) (fun _ => True) := by
  unfold applyPm DatetimeText.applyPm
  cases pm with
  | none => exact ok trivial
  | some p =>
    cases clock : out.time with
    | none => exact error (by decide)
    | some t =>
      have time := bounded t clock
      have day : usecsPerDay = 86400000000 := rfl
      have hour : usecsPerHour = 3600000000 := rfl
      rw [day] at time
      rw [hour]
      exact Behaves.fit (i64_holds.mpr (by omega)) (iteSound (fun _ => error (by decide))
        (fun _ => iteSound (fun _ => Behaves.fit (i64_holds.mpr (by omega)) (ok trivial))
          (fun _ => iteSound (fun _ => Behaves.fit (i64_holds.mpr (by omega)) (ok trivial))
            (fun _ => ok trivial))))

include named

theorem parseDatetime_behaves (s : List Char) :
    Behaves (parseDatetime lookup s) (DatetimeText.parseDatetime lookup s)
      (TextFits lookup names s) (fun _ => True) := by
  unfold parseDatetime DatetimeText.parseDatetime TextFits
  cases wholeSpecial (lowercase (trim s)) with
  | some special => exact (ok trivial).congr ⟨fun _ => trivial, fun _ => nofun⟩
  | none =>
    dsimp only
    rw [tokenize_eq, ok_bind]
    have fresh : Bounded ({} : Scan).out := ⟨nofun, nofun⟩
    have read := readTokens_behaves lookup names named fresh (tokenize_ne_nil s)
    by_cases empty : (DatetimeText.tokenize s).isEmpty = true
    · rw [if_pos empty, if_pos empty]
      rw [List.isEmpty_iff.mp empty] at read ⊢
      refine (error (by decide)).congr ⟨fun _ => trivial, fun _ _ => ?_⟩
      by_contra unfit
      cases read.aborts.mpr unfit
    · rw [if_neg empty, if_neg empty]
      refine (read.bindSound (fun scanned bounded => (namedDate_sound bounded).bindSound
        (fun dated boundedDate => iteSound (fun _ => error (by decide))
          (fun _ => (checkDate_sound boundedDate).bindSound (fun out time =>
            applyPm_sound dated.pm time))))).congr ?_
      exact ⟨fun all => all rfl, fun all _ => all⟩

end Reading

end NoidaDb.Sql.CheckedText
