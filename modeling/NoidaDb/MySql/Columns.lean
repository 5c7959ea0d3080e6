/-
What a column stores.

A value is converted to the type of the column it is written to, and a column of a type holds
values of few shapes only.
-/

import NoidaDb.MySql.Types
import NoidaDb.Sql.JsonPrinting

namespace NoidaDb.MySql.Types

open Lib NoidaDb.Sql

structure SqlMode where
  modes : List String
deriving Repr, DecidableEq

namespace SqlMode

def has (mode : SqlMode) (m : String) : Bool := mode.modes.contains m

def strict (mode : SqlMode) : Bool := mode.has "STRICT_TRANS_TABLES" || mode.has "STRICT_ALL_TABLES"

def noZeroDate (mode : SqlMode) : Bool := mode.has "NO_ZERO_DATE"

end SqlMode

/-- `round` of a numeric. -/
def roundNumeric (n : Numeric) (scale : Int) : Numeric :=
  match n with
  | .fin d => .fin (d.roundTo scale false)
  | other => other

def absNumeric : Numeric → Numeric
  | .nan => .nan
  | .inf _ => .inf false
  | .fin d => .fin { d with neg := false }

def parsedOrZero (s : List Char) : Numeric :=
  match Numeric.parse s with
  | .ok n => n
  | .error _ => .fin (Dec.zero 0)

def i128Min : Int := -2 ^ 127

def i128Max : Int := 2 ^ 127 - 1

/-- `f.round() as i128`: half away from zero, and as far as the type goes. -/
def roundAsI128 : Amount → Int
  | .nan => 0
  | .inf neg => if neg then i128Min else i128Max
  | .real q =>
    let whole := if 0 ≤ q then ⌊q + 1 / 2⌋ else -⌊-q + 1 / 2⌋
    max i128Min (min i128Max whole)

def roundToUnit (unit us : Int) : Int :=
  let rounded := (us.natAbs + unit / 2) / unit * unit
  if us < 0 then -rounded else rounded

/-- `clamp`. -/
def clampTo (low high i : Int) : Int := max low (min high i)

def trimEnd (s : List Char) : List Char := (s.reverse.dropWhile isWhitespace).reverse

namespace ColumnType

def bits : ColumnType → Option Nat
  | .tinyInt => some 8
  | .boolean => some 8
  | .smallInt => some 16
  | .mediumInt => some 24
  | .int => some 32
  | .bigInt => some 64
  | _ => none

end ColumnType

def intRange (bits : Nat) (unsigned : Bool) : Int × Int :=
  if unsigned then (0, 2 ^ bits - 1) else (-2 ^ (bits - 1), 2 ^ (bits - 1) - 1)

section Coercion

variable (r : Readers) (mode : SqlMode) (name : String)

def incorrect (what : String) (v : Value) : MySqlError :=
  .error 1366 "HY000" ("Incorrect " ++ what ++ " value: '" ++ renderText r v ++ "' for column '" ++
    name ++ "' at row 1")

def outOfRange : MySqlError :=
  .error 1264 "22003" ("Out of range value for column '" ++ name ++ "' at row 1")

def incorrectTemporal (what : String) (v : Value) : MySqlError :=
  .error 1292 "22007" ("Incorrect " ++ what ++ " value: '" ++ renderText r v ++ "' for column '" ++
    name ++ "' at row 1")

def integerOf (v : Value) : MyResult Int :=
  match v with
  | .int i => .ok i
  | .bool b => .ok (if b then 1 else 0)
  | .float x => .ok (roundAsI128 x)
  | .num n => .ok (roundAsI128 (r.f64OfNumeric n))
  | .text s =>
    let t := String.ofList (trim s.toList)
    match r.parseI128 t with
    | some i => .ok i
    | none =>
      match r.parseF64 t with
      | some x => .ok (roundAsI128 x)
      | none =>
        if mode.strict then .error (incorrect r name "integer" v)
        else .ok (roundAsI128 (r.leadingF64 t))
  | _ => if mode.strict then .error (incorrect r name "integer" v) else .ok 0

def coerceInteger (range : Int × Int) (v : Value) : MyResult Value := do
  let n ← integerOf r mode name v
  if n < range.1 ∨ range.2 < n then
    if mode.strict then .error (outOfRange name)
    else .ok (.int (min (clampTo range.1 range.2 n) (2 ^ 63 - 1)))
  -- An unsigned 64-bit number above the signed ones wraps.
  else .ok (.int (n.bmod (2 ^ 64)))

def coerceDouble (v : Value) : MyResult Value :=
  match v with
  | .float x => .ok (.float x)
  | .int _ => .ok (.float (valueToF64 r v))
  | .num _ => .ok (.float (valueToF64 r v))
  | .bool _ => .ok (.float (valueToF64 r v))
  | .text s =>
    match r.parseF64 (String.ofList (trim s.toList)) with
    | some x => .ok (.float x)
    | none =>
      if mode.strict then .error (incorrect r name "double" v)
      else .ok (.float (r.leadingF64 s))
  | _ => if mode.strict then .error (incorrect r name "double" v) else .ok (.float (.real 0))

def decimalOf (v : Value) : MyResult Numeric :=
  match v with
  | .text s =>
    match Numeric.parse (trim s.toList) with
    | .ok n => .ok n
    | .error _ =>
      if mode.strict then .error (incorrect r name "decimal" v)
      else .ok (r.numericOfF64 (r.leadingF64 s))
  | v =>
    if v.isNumeric then .ok ((valueToNumeric r v).getD (.fin (Dec.zero 0)))
    else if mode.strict then .error (incorrect r name "decimal" v)
    else .ok (.fin (Dec.zero 0))

def largestDecimal (intDigits scale : Nat) : Numeric :=
  parsedOrZero (List.replicate intDigits '9' ++ (if 0 < scale then ['.'] else []) ++
    List.replicate scale '9')

def coerceDecimal (precision scale : Nat) (v : Value) : MyResult Value := do
  let exact ← decimalOf r mode name v
  let n := roundNumeric exact scale
  let intDigits := precision - scale
  let limit := parsedOrZero ('1' :: List.replicate intDigits '0')
  if cmpNum (absNumeric n) limit ≠ .lt then
    if mode.strict then .error (outOfRange name)
    else
      let largest := largestDecimal intDigits scale
      .ok (.num (if n.isNegative then largest.neg else largest))
  else .ok (.num n)

def timeOf : Value → Option Int
  | .time t => some t
  | .ts t => some (t % usecsPerDay)
  | .date _ => some 0
  | .int i => r.parseTime (toString i)
  | other => r.parseTime (renderText r other)

def coerceTime (fsp : Nat) (v : Value) : MyResult Value :=
  match timeOf r v with
  | some t =>
    .ok (.time (clampTo (-maxMysqlTime) maxMysqlTime (roundToUnit (10 ^ (6 - min fsp 6)) t)))
  | none =>
    if mode.strict then .error (incorrectTemporal r name "time" v) else .ok (.time 0)

def isZeroDate (s : String) : Bool :=
  let t := trim s.toList
  ((t.dropWhile (fun c => c == '0')).dropWhile
    (fun c => c == '-' || c == ' ' || c == ':' || c == '0')).isEmpty &&
    "0000-00-00".toList.isPrefixOf t

def dateOf : Value → Option Value
  | .date d => some (.date d)
  | .ts t => some (.date ((t / usecsPerDay).bmod (2 ^ 32)))
  | other => (r.parseDate (renderText r other)).map .date

def datetimeOf : Value → Option Value
  | .date d => some (.ts (midnight d))
  | .ts t => some (.ts t)
  | other => (r.parseDatetime (renderText r other)).map .ts

def coerceTemporal (what zero : String) (parsed : Option Value) (v : Value) : MyResult Value :=
  match parsed with
  | some x => .ok x
  | none =>
    if mode.strict && (!isZeroDate (renderText r v) || mode.noZeroDate) then
      .error (incorrectTemporal r name what v)
    else .ok (.text zero)

def coerceVarchar (n : Nat) (v : Value) : MyResult Value :=
  let t := renderText r v
  if n < t.toList.length then
    if mode.strict then
      .error (.error 1406 "22001" ("Data too long for column '" ++ name ++ "' at row 1"))
    else .ok (.text (String.ofList (t.toList.take n)))
  else .ok (.text t)

def memberOf (members : List String) (v : Value) : Option String :=
  let t := String.ofList (trimEnd (renderText r v).toList)
  match members.find? (fun m => eqIgnoreAsciiCase m t) with
  | some m => some m
  | none =>
    match v with
    | .int i => if 1 ≤ i then members[i.toNat - 1]? else none
    | _ => none

def coerceEnum (members : List String) (v : Value) : MyResult Value :=
  match memberOf r members v with
  | some m => .ok (.text m)
  | none =>
    if mode.strict then
      .error (.error 1265 "01000" ("Data truncated for column '" ++ name ++ "' at row 1"))
    else .ok (.text "")

def coerceJson (v : Value) : MyResult Value :=
  match v with
  | .json j => .ok (.json j)
  | .text s =>
    match Json.parseJsonb s with
    | .ok j => .ok (.json j)
    | .error _ =>
      .error (.error 3140 "22032"
        ("Invalid JSON text: \"Invalid value.\" at position 0 in value for column '" ++ name ++
          "'."))
  | .int i => .ok (.json (.num (numericOfInt i)))
  | other => .ok (.text (renderText r other))

def coerceBlob (v : Value) : Value :=
  match v with
  | .bytes b => .bytes b
  | .text s => .text s
  | other => .text (renderText r other)

end Coercion

def coerceToColumn (r : Readers) (mode : SqlMode) (col : Column Value) (v : Value) :
    MyResult Value :=
  if v.isNull then .ok .null
  else
    match col.ty with
    | .float => coerceDouble r mode col.name v
    | .double => coerceDouble r mode col.name v
    | .decimal precision scale => coerceDecimal r mode col.name precision scale v
    | .time fsp => coerceTime r mode col.name fsp v
    | .date => coerceTemporal r mode col.name "date" "0000-00-00" (dateOf r v) v
    | .datetime =>
      coerceTemporal r mode col.name "datetime" "0000-00-00 00:00:00" (datetimeOf r v) v
    | .varchar n => coerceVarchar r mode col.name n v
    | .text => .ok (.text (renderText r v))
    | .blob => .ok (coerceBlob r v)
    | .enum members => coerceEnum r mode col.name members v
    | .json => coerceJson r col.name v
    | ty =>
      match ColumnType.bits ty with
      | some bits => coerceInteger r mode col.name (intRange bits col.unsigned) v
      | none => .ok v

def WellFormed : Value → Prop
  | .num n => n.Normal
  | .date d => dateNegInf ≤ d
  | .ts t => tsNegInf ≤ t
  | .json j => ∃ n, Json.Normal n j
  | _ => True

inductive Stored : ColumnType → Value → Prop
  | int {t : ColumnType} {bits : Nat} (isInt : ColumnType.bits t = some bits) (i : Int) :
      Stored t (.int i)
  | float (x : Amount) : Stored .float (.float x)
  | double (x : Amount) : Stored .double (.float x)
  | decimal {precision scale : Nat} {n : Numeric} (normal : n.Normal) :
      Stored (.decimal precision scale) (.num n)
  | time {fsp : Nat} {us : Int} (fits : us.natAbs ≤ maxMysqlTime.natAbs) :
      Stored (.time fsp) (.time us)
  | date {d : Int} (range : dateNegInf ≤ d) : Stored .date (.date d)
  | zeroDate : Stored .date (.text "0000-00-00")
  | datetime {us : Int} (range : tsNegInf ≤ us) : Stored .datetime (.ts us)
  | zeroDatetime : Stored .datetime (.text "0000-00-00 00:00:00")
  | varchar {n : Nat} {s : String} (fits : s.toList.length ≤ n) : Stored (.varchar n) (.text s)
  | text (s : String) : Stored .text (.text s)
  | bytes (b : List UInt8) : Stored .blob (.bytes b)
  | blobText (s : String) : Stored .blob (.text s)
  | member {members : List String} {m : String} (isMember : m ∈ members) :
      Stored (.enum members) (.text m)
  | noMember {members : List String} : Stored (.enum members) (.text "")
  | json {j : Json} (normal : ∃ n, Json.Normal n j) : Stored .json (.json j)
  | jsonText (s : String) : Stored .json (.text s)

def Stores (r : Readers) (t : ColumnType) (v : Value) : Prop :=
  v.isNull = false ∧ ∃ (mode : SqlMode) (col : Column Value) (given : Value),
    col.ty = t ∧ WellFormed given ∧ coerceToColumn r mode col given = .ok v

theorem digitOf_below {c : Char} (digit : isDigit c = true) : digitOf c < 10 := by
  simp only [isDigit, Bool.and_eq_true, decide_eq_true_eq] at digit
  have high : c.toNat ≤ 57 := digit.2
  have low : '0'.toNat = 48 := by decide
  unfold digitOf
  rw [low]
  omega

theorem scanDigits_below (s : List Char) (seenDigit seenPoint : Bool) :
    ∀ d ∈ (scanDigits s seenDigit seenPoint).digits, d < 10 := by
  induction s generalizing seenDigit seenPoint with
  | nil =>
    intro d member
    cases member
  | cons c rest ih =>
    unfold scanDigits
    split
    · rename_i digit
      intro d member
      rcases List.mem_cons.mp member with isFirst | isLater
      · rw [isFirst]
        exact digitOf_below digit
      · exact ih true seenPoint d isLater
    · split
      · exact ih seenDigit true
      · split
        · exact ih seenDigit seenPoint
        · intro d member
          cases member

theorem readDec_normal {t : List Char} {d : Dec} (read : readDec t = .ok d) : d.Normal := by
  unfold readDec at read
  dsimp only at read
  split at read
  · cases read
  · cases isExp : optionalExponent (scanDigits (splitSign t).2 false false).rest with
    | error e =>
      rw [isExp] at read
      cases read
    | ok exp =>
      rw [isExp] at read
      simp only [bind, Except.bind] at read
      split at read
      · cases read
      · split at read
        · cases read
        · rw [← Except.ok.inj read]
          apply Dec.normal_normalize
          intro x member
          rcases List.mem_append.mp member with scanned | zero
          · exact scanDigits_below _ _ _ x scanned
          · rw [List.eq_of_mem_replicate zero]
            decide

variable {n : Numeric}

theorem parse_normal {s : List Char} (parsed : Numeric.parse s = .ok n) : n.Normal := by
  unfold Numeric.parse at parsed
  simp only at parsed
  split at parsed
  · rw [← Except.ok.inj parsed]
    trivial
  · split at parsed
    · rw [← Except.ok.inj parsed]
      trivial
    · split at parsed
      · rw [← Except.ok.inj parsed]
        trivial
      · cases read : readDec (trim s) with
        | error e =>
          rw [read] at parsed
          cases parsed
        | ok d =>
          rw [read] at parsed
          rw [← Except.ok.inj parsed]
          have normal := readDec_normal read
          exact ⟨normal.magnitude, normal.zero⟩

theorem zero_normal (scale : Nat) : (Numeric.fin (Dec.zero scale)).Normal :=
  ⟨magnitude_nil, fun _ => rfl⟩

theorem parsedOrZero_normal (s : List Char) : (parsedOrZero s).Normal := by
  unfold parsedOrZero
  split
  · rename_i n parsed
    exact parse_normal parsed
  · exact zero_normal 0

theorem roundNumeric_normal (normal : n.Normal) (scale : Nat) : (roundNumeric n scale).Normal := by
  cases n with
  | nan => trivial
  | inf neg => trivial
  | fin d =>
    by_cases fewer : scale < d.scale
    · exact (roundTo_exact normal fewer).2.2
    · have more : (d.scale : Int) ≤ (scale : Int) := by omega
      show (d.roundTo scale false).Normal
      unfold Dec.roundTo
      rw [if_pos more]
      constructor
      · exact Dec.magnitude_withScale normal.magnitude _
      · intro isEmpty
        apply normal.zero
        simp only [Dec.withScale] at isEmpty
        split at isEmpty
        · assumption
        · exact (List.append_eq_nil_iff.mp isEmpty).1

theorem neg_normal (normal : n.Normal) : n.neg.Normal := by
  cases n with
  | nan => trivial
  | inf neg => trivial
  | fin d => exact Dec.normal_normalize normal.magnitude.digits

theorem numericOfInt_normal (i : Int) : (numericOfInt i).Normal := by
  constructor
  · exact digits_magnitude i.natAbs
  · intro isEmpty
    have isZero : i.natAbs = 0 := by
      by_contra some
      exact Nat.digits_ne_nil_iff_ne_zero.mpr some (List.reverse_eq_nil_iff.mp isEmpty)
    simp [Int.natAbs_eq_zero.mp isZero]

theorem jsonNormal_of_within {n : Nat} {j : Json} (within : JsonGrammar.Within JsonGrammar.Printable n j) :
    Json.Normal n j := by
  induction within with
  | null n => exact Json.Normal.null n
  | bool n b => exact Json.Normal.bool n b
  | @num n v holds =>
    apply Json.Normal.num
    cases v with
    | nan => trivial
    | inf neg => trivial
    | fin d => exact ⟨holds.1, holds.2.1⟩
  | @str n s noNul => exact Json.Normal.str n s
  | array items ih => exact Json.Normal.array ih
  | object keys members ih => exact Json.Normal.object ih

theorem parseJsonb_normal {s : String} {j : Json} (parsed : Json.parseJsonb s = .ok j) :
    ∃ n, Json.Normal n j :=
  ⟨JsonParser.maxDepth, jsonNormal_of_within (JsonGrammar.within_returned ⟨s, Or.inr parsed⟩)⟩

theorem midnight_range (d : Int) : tsNegInf ≤ midnight d := by
  have low := @Int.le_bmod (d * usecsPerDay) (2 ^ 64) (by decide)
  unfold midnight tsNegInf
  omega

theorem dayOf_range (t : Int) : dateNegInf ≤ (t / usecsPerDay).bmod (2 ^ 32) := by
  have low := @Int.le_bmod (t / usecsPerDay) (2 ^ 32) (by decide)
  unfold dateNegInf
  omega

theorem clampTo_fits {high : Int} (nonneg : 0 ≤ high) (i : Int) :
    (clampTo (-high) high i).natAbs ≤ high.natAbs := by
  unfold clampTo
  omega

section Shapes

variable {r : Readers} {mode : SqlMode} {name : String}

variable {v w : Value}

theorem coerceInteger_int {range : Int × Int}
    (coerced : coerceInteger r mode name range v = .ok w) : ∃ i, w = .int i := by
  unfold coerceInteger at coerced
  cases isInt : integerOf r mode name v with
  | error e =>
    rw [isInt] at coerced
    cases coerced
  | ok n =>
    rw [isInt] at coerced
    simp only [bind, Except.bind] at coerced
    split at coerced
    · split at coerced
      · cases coerced
      · exact ⟨_, (Except.ok.inj coerced).symm⟩
    · exact ⟨_, (Except.ok.inj coerced).symm⟩

theorem coerceDouble_float (coerced : coerceDouble r mode name v = .ok w) : ∃ x, w = .float x := by
  unfold coerceDouble at coerced
  split at coerced
  · exact ⟨_, (Except.ok.inj coerced).symm⟩
  · exact ⟨_, (Except.ok.inj coerced).symm⟩
  · exact ⟨_, (Except.ok.inj coerced).symm⟩
  · exact ⟨_, (Except.ok.inj coerced).symm⟩
  · split at coerced
    · exact ⟨_, (Except.ok.inj coerced).symm⟩
    · split at coerced
      · cases coerced
      · exact ⟨_, (Except.ok.inj coerced).symm⟩
  · split at coerced
    · cases coerced
    · exact ⟨_, (Except.ok.inj coerced).symm⟩

theorem valueToNumeric_normal (wellFormed : WellFormed v) {n : Numeric}
    (isNumber : valueToNumeric r v = some n) : n.Normal := by
  cases v with
  | int i =>
    rw [← Option.some.inj isNumber]
    exact numericOfInt_normal i
  | num m =>
    rw [← Option.some.inj isNumber]
    exact wellFormed
  | bool b =>
    rw [← Option.some.inj isNumber]
    exact numericOfInt_normal _
  | float x =>
    rw [← Option.some.inj isNumber]
    exact r.numericOfF64_normal x
  | text s =>
    simp only [valueToNumeric] at isNumber
    split at isNumber
    · rename_i m parsed
      rw [← Option.some.inj isNumber]
      exact parse_normal parsed
    · rw [← Option.some.inj isNumber]
      exact r.numericOfF64_normal _
  | _ => cases isNumber

theorem decimalOf_normal (wellFormed : WellFormed v) {n : Numeric}
    (isDecimal : decimalOf r mode name v = .ok n) : n.Normal := by
  unfold decimalOf at isDecimal
  split at isDecimal
  · split at isDecimal
    · rename_i m parsed
      rw [← Except.ok.inj isDecimal]
      exact parse_normal parsed
    · split at isDecimal
      · cases isDecimal
      · rw [← Except.ok.inj isDecimal]
        exact r.numericOfF64_normal _
  · split at isDecimal
    · rw [← Except.ok.inj isDecimal]
      cases isNumber : valueToNumeric r v with
      | none => exact zero_normal 0
      | some m => exact valueToNumeric_normal wellFormed isNumber
    · split at isDecimal
      · cases isDecimal
      · rw [← Except.ok.inj isDecimal]
        exact zero_normal 0

theorem coerceDecimal_num {precision scale : Nat} (wellFormed : WellFormed v)
    (coerced : coerceDecimal r mode name precision scale v = .ok w) :
    ∃ n : Numeric, w = .num n ∧ n.Normal := by
  unfold coerceDecimal at coerced
  cases isDecimal : decimalOf r mode name v with
  | error e =>
    rw [isDecimal] at coerced
    cases coerced
  | ok exact =>
    have normal := roundNumeric_normal (decimalOf_normal wellFormed isDecimal) scale
    have largest : (largestDecimal (precision - scale) scale).Normal := parsedOrZero_normal _
    rw [isDecimal] at coerced
    simp only [bind, Except.bind] at coerced
    split at coerced
    · split at coerced
      · cases coerced
      · apply Exists.intro _
        apply And.intro (Except.ok.inj coerced).symm
        split
        · exact neg_normal largest
        · exact largest
    · exact ⟨_, (Except.ok.inj coerced).symm, normal⟩

theorem coerceTime_time {fsp : Nat} (coerced : coerceTime r mode name fsp v = .ok w) :
    ∃ us, w = .time us ∧ us.natAbs ≤ maxMysqlTime.natAbs := by
  unfold coerceTime at coerced
  split at coerced
  · exact ⟨_, (Except.ok.inj coerced).symm, clampTo_fits (by decide) _⟩
  · split at coerced
    · cases coerced
    · exact ⟨0, (Except.ok.inj coerced).symm, by decide⟩

theorem coerceTemporal_parsed {what zero : String} {parsed : Option Value}
    (coerced : coerceTemporal r mode name what zero parsed v = .ok w) :
    parsed = some w ∨ w = .text zero := by
  unfold coerceTemporal at coerced
  split at coerced
  · exact Or.inl (congrArg some (Except.ok.inj coerced))
  · split at coerced
    · cases coerced
    · exact Or.inr (Except.ok.inj coerced).symm

theorem dateOf_date (wellFormed : WellFormed v) (isDate : dateOf r v = some w) :
    ∃ d, w = .date d ∧ dateNegInf ≤ d := by
  unfold dateOf at isDate
  split at isDate
  · exact ⟨_, (Option.some.inj isDate).symm, wellFormed⟩
  · exact ⟨_, (Option.some.inj isDate).symm, dayOf_range _⟩
  · obtain ⟨d, parsed, same⟩ := Option.map_eq_some_iff.mp isDate
    exact ⟨d, same.symm, r.parseDate_range _ d parsed⟩

theorem datetimeOf_ts (wellFormed : WellFormed v) (isDatetime : datetimeOf r v = some w) :
    ∃ us, w = .ts us ∧ tsNegInf ≤ us := by
  unfold datetimeOf at isDatetime
  split at isDatetime
  · exact ⟨_, (Option.some.inj isDatetime).symm, midnight_range _⟩
  · exact ⟨_, (Option.some.inj isDatetime).symm, wellFormed⟩
  · obtain ⟨t, parsed, same⟩ := Option.map_eq_some_iff.mp isDatetime
    exact ⟨t, same.symm, r.parseDatetime_range _ t parsed⟩

theorem coerceVarchar_text {n : Nat} (coerced : coerceVarchar r mode name n v = .ok w) :
    ∃ s : String, w = .text s ∧ s.toList.length ≤ n := by
  unfold coerceVarchar at coerced
  dsimp only at coerced
  split at coerced
  · split at coerced
    · cases coerced
    · apply Exists.intro _
      apply And.intro (Except.ok.inj coerced).symm
      rw [String.toList_ofList]
      exact List.length_take_le n _
  · rename_i fits
    exact ⟨_, (Except.ok.inj coerced).symm, Nat.le_of_not_lt fits⟩

theorem memberOf_mem {members : List String} {m : String}
    (isMember : memberOf r members v = some m) : m ∈ members := by
  unfold memberOf at isMember
  dsimp only at isMember
  split at isMember
  · rename_i found isFound
    rw [← Option.some.inj isMember]
    exact List.mem_of_find?_eq_some isFound
  · split at isMember
    · split at isMember
      · exact List.mem_of_getElem? isMember
      · cases isMember
    · cases isMember

theorem coerceEnum_text {members : List String}
    (coerced : coerceEnum r mode name members v = .ok w) : Stored (.enum members) w := by
  unfold coerceEnum at coerced
  split at coerced
  · rename_i m isMember
    rw [← Except.ok.inj coerced]
    exact Stored.member (memberOf_mem isMember)
  · split at coerced
    · cases coerced
    · rw [← Except.ok.inj coerced]
      exact Stored.noMember

theorem coerceJson_stored (wellFormed : WellFormed v) (coerced : coerceJson r name v = .ok w) :
    Stored .json w := by
  unfold coerceJson at coerced
  split at coerced
  · rw [← Except.ok.inj coerced]
    exact Stored.json wellFormed
  · split at coerced
    · rename_i j parsed
      rw [← Except.ok.inj coerced]
      exact Stored.json (parseJsonb_normal parsed)
    · cases coerced
  · rw [← Except.ok.inj coerced]
    exact Stored.json ⟨0, Json.Normal.num (numericOfInt_normal _)⟩
  · rw [← Except.ok.inj coerced]
    exact Stored.jsonText _

theorem coerceBlob_stored (v : Value) : Stored .blob (coerceBlob r v) := by
  unfold coerceBlob
  split
  · exact Stored.bytes _
  · exact Stored.blobText _
  · exact Stored.blobText _

end Shapes

theorem stored_of_stores {r : Readers} {t : ColumnType} {v : Value} (stores : Stores r t v) :
    Stored t v := by
  obtain ⟨notNull, mode, col, given, isType, wellFormed, coerced⟩ := stores
  unfold coerceToColumn at coerced
  split at coerced
  · rw [← Except.ok.inj coerced] at notNull
    cases notNull
  · rw [isType] at coerced
    cases t with
    | float =>
      obtain ⟨x, isFloat⟩ := coerceDouble_float coerced
      rw [isFloat]
      exact Stored.float x
    | double =>
      obtain ⟨x, isFloat⟩ := coerceDouble_float coerced
      rw [isFloat]
      exact Stored.double x
    | decimal precision scale =>
      obtain ⟨n, isNum, normal⟩ := coerceDecimal_num wellFormed coerced
      rw [isNum]
      exact Stored.decimal normal
    | time fsp =>
      obtain ⟨us, isTime, fits⟩ := coerceTime_time coerced
      rw [isTime]
      exact Stored.time fits
    | date =>
      rcases coerceTemporal_parsed coerced with parsed | isZero
      · obtain ⟨d, isDate, range⟩ := dateOf_date wellFormed parsed
        rw [isDate]
        exact Stored.date range
      · rw [isZero]
        exact Stored.zeroDate
    | datetime =>
      rcases coerceTemporal_parsed coerced with parsed | isZero
      · obtain ⟨us, isTs, range⟩ := datetimeOf_ts wellFormed parsed
        rw [isTs]
        exact Stored.datetime range
      · rw [isZero]
        exact Stored.zeroDatetime
    | varchar n =>
      obtain ⟨s, isText, fits⟩ := coerceVarchar_text coerced
      rw [isText]
      exact Stored.varchar fits
    | text =>
      rw [← Except.ok.inj coerced]
      exact Stored.text _
    | blob =>
      rw [← Except.ok.inj coerced]
      exact coerceBlob_stored given
    | enum members => exact coerceEnum_text coerced
    | json => exact coerceJson_stored wellFormed coerced
    | int =>
      obtain ⟨i, isInt⟩ := coerceInteger_int coerced
      rw [isInt]
      exact Stored.int rfl i
    | bigInt =>
      obtain ⟨i, isInt⟩ := coerceInteger_int coerced
      rw [isInt]
      exact Stored.int rfl i
    | boolean =>
      obtain ⟨i, isInt⟩ := coerceInteger_int coerced
      rw [isInt]
      exact Stored.int rfl i
    | tinyInt =>
      obtain ⟨i, isInt⟩ := coerceInteger_int coerced
      rw [isInt]
      exact Stored.int rfl i
    | smallInt =>
      obtain ⟨i, isInt⟩ := coerceInteger_int coerced
      rw [isInt]
      exact Stored.int rfl i
    | mediumInt =>
      obtain ⟨i, isInt⟩ := coerceInteger_int coerced
      rw [isInt]
      exact Stored.int rfl i

end NoidaDb.MySql.Types
