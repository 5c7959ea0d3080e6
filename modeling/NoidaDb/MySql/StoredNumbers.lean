/-
A column stores the number that it was given.

A decimal column reads all values as decimals; an integer column takes a `Num`, and a text that is
no whole number of 128 bits, through a double.
-/

import NoidaDb.MySql.Arithmetic

namespace NoidaDb.MySql.Types

open Lib NoidaDb.Sql
open JsonGrammar (scanDigits_digits digit_notSpace dropWhile_none splitSign_digit parse_of_digit)

structure DecimalText where
  /-- `true` for a minus sign. -/
  sign : Option Bool
  whole : List Char
  frac : Option (List Char)
  areDigits : ∀ c ∈ whole ++ frac.getD [], isDigit c = true
  hasDigit : whole ++ frac.getD [] ≠ []

namespace DecimalText

def signText (x : DecimalText) : List Char :=
  match x.sign with
  | none => []
  | some minus => if minus then ['-'] else ['+']

def fracText (x : DecimalText) : List Char :=
  match x.frac with
  | none => []
  | some frac => '.' :: frac

def text (x : DecimalText) : List Char := x.signText ++ (x.whole ++ x.fracText)

def minus (x : DecimalText) : Bool := x.sign.getD false

def digits (x : DecimalText) : List Nat := (x.whole ++ x.frac.getD []).map digitOf

def places (x : DecimalText) : Nat := (x.frac.getD []).length

def number (x : DecimalText) : Rat :=
  (if x.minus then -1 else 1) * (numberOf 10 x.digits / 10 ^ x.places)

end DecimalText

inductive Given : Value → Rat → Prop
  | int {i : Int} (fits : fitsI64 i = true) : Given (.int i) i
  | bool (b : Bool) : Given (.bool b) (if b then 1 else 0)
  | num {d : Dec} (normal : d.Normal) : Given (.num (.fin d)) d.value
  | text (x : DecimalText) (fits : x.places < 2 ^ 32) : Given (.text (String.ofList x.text)) x.number

/-- `parse::<i128>`. -/
def readI128 (s : List Char) : Option Int :=
  let digits := (splitSign s).2
  if digits = [] ∨ digits.all isDigit = false then none
  else
    let magnitude : Int := numberOf 10 (digits.map digitOf)
    let i := if (splitSign s).1 then -magnitude else magnitude
    if i128Min ≤ i ∧ i ≤ i128Max then some i else none

def Amount.atMost (q : Rat) : Amount → Prop
  | .real x => x ≤ q
  | .inf neg => neg = true
  | .nan => False

/-- The standard library's conversions: `parse::<i128>`, and the nearest double, which does not
pass 2^63, as that is one. -/
structure Converts (r : Readers) : Prop where
  parseI128 : ∀ s, r.parseI128 s = readI128 s.toList
  parseF64 : ∀ x : DecimalText, ∃ y, r.parseF64 (String.ofList x.text) = some y ∧
    (x.number ≤ 2 ^ 63 → Amount.atMost (2 ^ 63) y)
  f64OfNumeric : ∀ d : Dec, d.Normal → d.value ≤ 2 ^ 63 →
    Amount.atMost (2 ^ 63) (r.f64OfNumeric (.fin d))

def throughDouble (r : Readers) : Value → Option Amount
  | .num n => some (r.f64OfNumeric n)
  | .text s =>
    match r.parseI128 (String.ofList (trim s.toList)) with
    | some _ => none
    | none => r.parseF64 (String.ofList (trim s.toList))
  | _ => none

def taken (r : Readers) (v : Value) (x : Rat) : Int :=
  match throughDouble r v with
  | some y => roundAsI128 y
  | none => nearestInt x

def Reads (result : MyResult Value) (q : Rat) : Prop :=
  ∃ w, result = .ok w ∧ IsExact w ∧ rational w = q

/-- The number is stored if it is in the range; if not, it is out of range in strict mode,
and else the nearest end of the range is stored. -/
def StoresNumber (result : MyResult Value) (strict : Bool) (lo hi q : Rat) : Prop :=
  if lo ≤ q ∧ q ≤ hi then Reads result q
  else if strict then ∃ sqlState message, result = .error (.error 1264 sqlState message)
  else Reads result (if q < lo then lo else hi)

/-- The number that is taken is the number given, as far as the range goes, and what is to be
stored is below 2^63. -/
def TakenRight (strict : Bool) (lo hi t n : Int) : Prop :=
  if strict then
    (lo ≤ t ∧ t ≤ hi → n = t ∧ t < 2 ^ 63) ∧ (¬ (lo ≤ t ∧ t ≤ hi) → ¬ (lo ≤ n ∧ n ≤ hi))
  else clampTo lo hi n = clampTo lo hi t ∧ clampTo lo hi t < 2 ^ 63

section Text

variable (x : DecimalText)

theorem DecimalText.mem_text {c : Char} (member : c ∈ x.text) :
    isDigit c = true ∨ c ∈ ['-', '+', '.'] := by
  have digit : ∀ c ∈ x.whole ++ x.frac.getD [], isDigit c = true := x.areDigits
  rcases List.mem_append.mp member with inSign | member
  · right
    unfold DecimalText.signText at inSign
    cases isSign : x.sign with
    | none =>
      rw [isSign] at inSign
      cases inSign
    | some minus =>
      rw [isSign] at inSign
      cases minus with
      | true =>
        rw [List.mem_singleton.mp inSign]
        decide
      | false =>
        rw [List.mem_singleton.mp inSign]
        decide
  · rcases List.mem_append.mp member with inWhole | inFrac
    · exact .inl (digit c (List.mem_append_left _ inWhole))
    · unfold DecimalText.fracText at inFrac
      cases isFrac : x.frac with
      | none =>
        rw [isFrac] at inFrac
        cases inFrac
      | some frac =>
        rw [isFrac] at inFrac digit
        rcases List.mem_cons.mp inFrac with rfl | inFrac
        · exact .inr (by decide)
        · exact .inl (digit c (List.mem_append_right _ inFrac))

theorem DecimalText.trim_text : trim x.text = x.text := by
  have noSpace : ∀ c ∈ x.text, isWhitespace c = false := by
    intro c member
    rcases x.mem_text member with digit | other
    · exact digit_notSpace digit
    · simp only [List.mem_cons, List.not_mem_nil, or_false] at other
      rcases other with rfl | rfl | rfl <;> decide
  unfold trim
  rw [dropWhile_none noSpace, dropWhile_none, List.reverse_reverse]
  intro c member
  exact noSpace c (List.mem_reverse.mp member)

theorem DecimalText.splitSign_text : splitSign x.text = (x.minus, x.whole ++ x.fracText) := by
  unfold DecimalText.text DecimalText.signText DecimalText.minus
  cases x.sign with
  | some minus =>
    cases minus with
    | true => rfl
    | false => rfl
  | none =>
    rw [List.nil_append]
    have digit := x.areDigits
    have present := x.hasDigit
    unfold DecimalText.fracText
    cases isWhole : x.whole with
    | cons c rest =>
      rw [isWhole] at digit
      exact splitSign_digit (digit c List.mem_cons_self) _
    | nil =>
      cases isFrac : x.frac with
      | some frac => rfl
      | none =>
        rw [isWhole, isFrac] at present
        exact (present rfl).elim

theorem DecimalText.scan_text :
    scanDigits (x.whole ++ x.fracText) false false =
      { digits := x.digits, scale := x.places, seenDigit := true, rest := [] } := by
  have digit := x.areDigits
  have present := x.hasDigit
  unfold DecimalText.digits DecimalText.places DecimalText.fracText
  rw [scanDigits_digits (fun c inWhole => digit c (List.mem_append_left _ inWhole))]
  cases isFrac : x.frac with
  | none =>
    rw [isFrac] at present
    have some' : x.whole.isEmpty = false := by
      cases isWhole : x.whole with
      | nil =>
        rw [isWhole] at present
        exact (present rfl).elim
      | cons c rest => rfl
    simp [scanDigits, some']
  | some frac =>
    rw [isFrac] at present digit
    have point : ∀ seen, scanDigits ('.' :: frac) seen false = scanDigits frac seen true := by
      intro seen
      rw [scanDigits, if_neg (by decide), if_pos ⟨rfl, rfl⟩]
    have scanned := fun seen => scanDigits_digits
      (fun c inFrac => digit c (List.mem_append_right _ inFrac)) [] seen true
    simp only [List.append_nil] at scanned
    have some' : (!x.whole.isEmpty || !frac.isEmpty) = true := by
      cases isWhole : x.whole with
      | cons c rest => rfl
      | nil =>
        cases frac with
        | cons c rest => rfl
        | nil =>
          rw [isWhole] at present
          exact (present rfl).elim
    simp only [point]
    have scanned := scanned (false || !x.whole.isEmpty)
    rw [show (some frac).getD [] = frac from rfl] at *
    rw [scanned]
    simp [scanDigits, some']

theorem DecimalText.readDec_text :
    readDec x.text = .ok { neg := x.minus, digits := x.digits, scale := x.places : Dec }.normalize := by
  unfold readDec
  simp only [x.splitSign_text, x.scan_text]
  simp [optionalExponent, bind, Except.bind]

theorem DecimalText.parse_text (fits : x.places < 2 ^ 32) :
    ∃ d, Numeric.parse x.text = .ok (.fin d) ∧ d.Normal ∧ d.value = x.number := by
  obtain ⟨c, inNumber⟩ := List.exists_mem_of_ne_nil _ x.hasDigit
  have inText : c ∈ x.text := by
    apply List.mem_append_right
    rcases List.mem_append.mp inNumber with inWhole | inFrac
    · exact List.mem_append_left _ inWhole
    · apply List.mem_append_right
      unfold DecimalText.fracText
      cases isFrac : x.frac with
      | none =>
        rw [isFrac] at inFrac
        cases inFrac
      | some frac =>
        rw [isFrac] at inFrac
        exact List.mem_cons_of_mem _ inFrac
  have below : ∀ d ∈ x.digits, d < 10 := by
    intro d isIn
    obtain ⟨c, inNumber, rfl⟩ := List.mem_map.mp isIn
    exact digitOf_below (x.areDigits c inNumber)
  have normal : ({ neg := x.minus, digits := x.digits, scale := x.places : Dec }.normalize).Normal :=
    Dec.normal_normalize below
  have scale : ({ neg := x.minus, digits := x.digits, scale := x.places : Dec }.normalize).scale %
      2 ^ 32 = x.places := Nat.mod_eq_of_lt fits
  have value := Dec.value_normalize { neg := x.minus, digits := x.digits, scale := x.places : Dec }
  have trimmed : c ∈ trim x.text := by rwa [x.trim_text]
  rw [parse_of_digit trimmed (x.areDigits c inNumber), x.trim_text, x.readDec_text]
  refine ⟨_, rfl, ⟨normal.magnitude, normal.zero⟩, ?_⟩
  rw [show x.number = _ from value.symm]
  unfold Dec.value
  rw [scale]
  rfl

theorem DecimalText.readI128_text {i : Int} (read : readI128 x.text = some i) : x.number = i := by
  unfold readI128 at read
  rw [x.splitSign_text] at read
  have digit := x.areDigits
  cases isFrac : x.frac with
  | some frac =>
    have hasPoint : ((x.whole ++ x.fracText).all isDigit) = false := by
      rw [List.all_eq_false]
      refine ⟨'.', List.mem_append_right _ ?_, by decide⟩
      unfold DecimalText.fracText
      rw [isFrac]
      exact List.mem_cons_self
    simp [hasPoint] at read
  | none =>
    have noFrac : x.fracText = [] := by
      unfold DecimalText.fracText
      rw [isFrac]
    rw [noFrac, List.append_nil] at read
    have number : x.number = (if x.minus then -1 else 1) * (numberOf 10 (x.whole.map digitOf) : Rat) := by
      unfold DecimalText.number DecimalText.digits DecimalText.places
      rw [isFrac]
      simp
    have fits : ∀ m : Int, (if i128Min ≤ m ∧ m ≤ i128Max then some m else none) = some i → m = i := by
      intro m isSome
      split at isSome
      · exact Option.some.inj isSome
      · cases isSome
    simp only at read
    split at read
    · cases read
    · rw [number, ← fits _ read]
      cases x.minus with
      | true => simp
      | false => simp

end Text

theorem roundAway_zero (x : Rat) : roundAway x 0 = nearestInt x := by
  unfold roundAway nearestInt
  split
  · simp
  · simp

theorem roundAsI128_real (q : Rat) :
    roundAsI128 (.real q) = max i128Min (min i128Max (nearestInt q)) := by
  unfold roundAsI128 nearestInt
  by_cases isNeg : q < 0
  · simp only [if_pos isNeg, if_neg (not_le.mpr isNeg)]
  · simp only [if_neg isNeg, if_pos (not_lt.mp isNeg)]

theorem roundAsI128_atMost {y : Amount} (atMost : Amount.atMost (2 ^ 63) y) :
    roundAsI128 y ≤ 2 ^ 63 := by
  cases y with
  | nan => exact atMost.elim
  | inf neg =>
    have isNeg : neg = true := atMost
    subst isNeg
    show i128Min ≤ _
    unfold i128Min
    omega
  | real q =>
    have small : q ≤ ((2 ^ 63 : Int) : Rat) := by
      have atMost : q ≤ 2 ^ 63 := atMost
      exact_mod_cast atMost
    have nearest := nearestInt_mono small
    rw [roundAsI128_real]
    unfold i128Min
    omega

section Integers

variable {r : Readers} {mode : SqlMode} {name : String} {v : Value} {x : Rat}

theorem integerOf_given (converts : Converts r) (given : Given v x) :
    integerOf r mode name v = .ok (taken r v x) := by
  cases given with
  | int fits =>
    rename_i i
    exact congrArg Except.ok (nearestInt_int i).symm
  | bool b =>
    cases b with
    | true => exact congrArg Except.ok (nearestInt_int 1).symm
    | false => exact congrArg Except.ok (nearestInt_int 0).symm
  | num normal => rfl
  | text x fits =>
    have trimmed : String.ofList (trim (String.ofList x.text).toList) = String.ofList x.text := by
      rw [String.toList_ofList, x.trim_text]
    unfold integerOf taken throughDouble
    simp only [trimmed]
    cases read : r.parseI128 (String.ofList x.text) with
    | some i =>
      rw [converts.parseI128, String.toList_ofList] at read
      show Except.ok i = .ok (nearestInt x.number)
      rw [x.readI128_text read, nearestInt_int]
    | none =>
      obtain ⟨y, isDouble, _⟩ := converts.parseF64 x
      simp only [isDouble]

theorem taken_atMost (converts : Converts r) (given : Given v x) (small : x ≤ 2 ^ 63) :
    taken r v x ≤ 2 ^ 63 := by
  have nearest : nearestInt x ≤ 2 ^ 63 := by
    apply nearestInt_mono
    exact_mod_cast small
  cases given with
  | int fits => exact nearest
  | bool b => exact nearest
  | num normal => exact roundAsI128_atMost (converts.f64OfNumeric _ normal small)
  | text x fits =>
    have trimmed : String.ofList (trim (String.ofList x.text).toList) = String.ofList x.text := by
      rw [String.toList_ofList, x.trim_text]
    unfold taken throughDouble
    simp only [trimmed]
    cases r.parseI128 (String.ofList x.text) with
    | some i => exact nearest
    | none =>
      obtain ⟨y, isDouble, atMost⟩ := converts.parseF64 x
      simp only [isDouble]
      exact roundAsI128_atMost (atMost small)

theorem coerceInteger_eq {range : Int × Int} {n : Int}
    (isInt : integerOf r mode name v = .ok n) :
    coerceInteger r mode name range v =
      if n < range.1 ∨ range.2 < n then
        if mode.strict then .error (outOfRange name)
        else .ok (.int (min (clampTo range.1 range.2 n) (2 ^ 63 - 1)))
      else .ok (.int (n.bmod (2 ^ 64))) := by
  unfold coerceInteger
  rw [isInt]
  rfl

theorem intRange_bounds {t : ColumnType} {bits : Nat} (isBits : ColumnType.bits t = some bits)
    (unsigned : Bool) :
    -2 ^ 63 ≤ (intRange bits unsigned).1 ∧ (intRange bits unsigned).1 ≤ 0 ∧
      0 ≤ (intRange bits unsigned).2 ∧
      ((intRange bits unsigned).2 < 2 ^ 63 ∨
        (intRange bits unsigned).1 = 0 ∧ (intRange bits unsigned).2 = 2 ^ 64 - 1) := by
  have known : bits ∈ [8, 16, 24, 32, 64] := by
    unfold ColumnType.bits at isBits
    split at isBits <;> first | (cases isBits; decide) | cases isBits
  have each : ∀ b ∈ [8, 16, 24, 32, 64], ∀ unsigned,
      -2 ^ 63 ≤ (intRange b unsigned).1 ∧ (intRange b unsigned).1 ≤ 0 ∧
        0 ≤ (intRange b unsigned).2 ∧
        ((intRange b unsigned).2 < 2 ^ 63 ∨
          (intRange b unsigned).1 = 0 ∧ (intRange b unsigned).2 = 2 ^ 64 - 1) := by
    decide
  exact each bits known unsigned

variable {t lo hi : Int}

theorem reads_int_iff {i : Int} (fits : -2 ^ 63 ≤ i ∧ i < 2 ^ 63) :
    Reads (.ok (.int i)) t ↔ i = t := by
  have isExact : IsExact (.int i) := by
    show fitsI64 i = true
    unfold fitsI64
    rw [Bool.and_eq_true, decide_eq_true_iff, decide_eq_true_iff]
    exact fits
  constructor
  · rintro ⟨w, isValue, _, number⟩
    cases isValue
    have number : (i : Rat) = t := number
    exact_mod_cast number
  · rintro rfl
    exact ⟨_, rfl, isExact, rfl⟩

theorem storesNumber_int_iff {result : MyResult Value} {strict : Bool} :
    StoresNumber result strict lo hi t ↔
      if lo ≤ t ∧ t ≤ hi then Reads result t
      else if strict then ∃ sqlState message, result = .error (.error 1264 sqlState message)
      else Reads result (if t < lo then lo else hi : Int) := by
  have casts : ((if t < lo then lo else hi : Int) : Rat) =
      if (t : Rat) < lo then (lo : Rat) else hi := by
    by_cases low : t < lo
    · rw [if_pos low, if_pos (by exact_mod_cast low)]
    · rw [if_neg low, if_neg (by exact_mod_cast low)]
  unfold StoresNumber
  simp only [Int.cast_le, casts]

theorem clampTo_reads {result : MyResult Value} (range : lo ≤ hi) :
    (if lo ≤ t ∧ t ≤ hi then Reads result t
      else Reads result (if t < lo then lo else hi : Int)) ↔ Reads result (clampTo lo hi t) := by
  have clamped : clampTo lo hi t = if lo ≤ t ∧ t ≤ hi then t else if t < lo then lo else hi := by
    unfold clampTo
    split
    · omega
    · split <;> omega
  rw [clamped]
  split
  · rfl
  · rfl

theorem coerceInteger_iff (bounds : -2 ^ 63 ≤ lo ∧ lo ≤ 0 ∧ 0 ≤ hi ∧
      (hi < 2 ^ 63 ∨ lo = 0 ∧ hi = 2 ^ 64 - 1)) (converts : Converts r) (given : Given v x) :
    StoresNumber (coerceInteger r mode name (lo, hi) v) mode.strict lo hi (roundAway x 0) ↔
      TakenRight mode.strict lo hi (nearestInt x) (taken r v x) := by
  rw [roundAway_zero, storesNumber_int_iff, coerceInteger_eq (integerOf_given converts given)]
  have near : nearestInt x < 2 ^ 63 → taken r v x ≤ 2 ^ 63 := by
    intro below
    apply taken_atMost converts given
    by_contra above
    have atLeast : ((2 ^ 63 : Int) : Rat) ≤ x := by exact_mod_cast (le_of_not_ge above)
    have nearest := nearestInt_atLeast atLeast
    omega
  generalize nearestInt x = t at near ⊢
  generalize taken r v x = n at near ⊢
  -- From 2^63 on, what is stored is negative.
  have wrapped : lo ≤ n → n ≤ hi → n.bmod (2 ^ 64) = if n < 2 ^ 63 then n else n - 2 ^ 64 := by
    intro low high
    rw [Int.bmod_def]
    split <;> split <;> omega
  have fits : lo ≤ n → n ≤ hi → -2 ^ 63 ≤ (if n < 2 ^ 63 then n else n - 2 ^ 64) ∧
      (if n < 2 ^ 63 then n else n - 2 ^ 64) < 2 ^ 63 := by
    intro low high
    split <;> omega
  unfold TakenRight
  cases mode.strict with
  | true =>
    simp only [if_true]
    by_cases inRange : lo ≤ t ∧ t ≤ hi
    · rw [if_pos inRange]
      by_cases takenOut : n < lo ∨ hi < n
      · rw [if_pos takenOut]
        constructor
        · rintro ⟨w, isValue, _⟩
          cases isValue
        · intro right
          obtain ⟨rfl, _⟩ := right.1 inRange
          omega
      · rw [if_neg takenOut, wrapped (by omega) (by omega),
          reads_int_iff (fits (by omega) (by omega))]
        constructor
        · intro same
          refine ⟨fun _ => ?_, fun out => (out inRange).elim⟩
          split at same <;> omega
        · intro right
          obtain ⟨rfl, small⟩ := right.1 inRange
          rw [if_pos small]
    · rw [if_neg inRange]
      by_cases takenOut : n < lo ∨ hi < n
      · rw [if_pos takenOut]
        exact ⟨fun _ => ⟨fun within => (inRange within).elim, fun _ => by omega⟩,
          fun _ => ⟨_, _, rfl⟩⟩
      · rw [if_neg takenOut]
        constructor
        · rintro ⟨_, _, isError⟩
          cases isError
        · intro right
          exact (right.2 inRange (by omega)).elim
  | false =>
    simp only [Bool.false_eq_true, if_false]
    rw [clampTo_reads (by omega)]
    by_cases takenOut : n < lo ∨ hi < n
    · rw [if_pos takenOut, reads_int_iff]
      · unfold clampTo
        omega
      · unfold clampTo
        omega
    · rw [if_neg takenOut, wrapped (by omega) (by omega),
        reads_int_iff (fits (by omega) (by omega))]
      unfold clampTo
      split <;> omega

end Integers

theorem roundNumeric_exact {d : Dec} (normal : d.Normal) (scale : Nat) :
    ∃ d', roundNumeric (.fin d) scale = .fin d' ∧ d'.Normal ∧ d'.value = roundAway d.value scale := by
  refine ⟨d.roundTo scale false, rfl, roundNumeric_normal (n := .fin d) normal scale, ?_⟩
  by_cases fewer : scale < d.scale
  · exact (roundTo_exact normal fewer).1
  · have more : (d.scale : Int) ≤ (scale : Int) := by omega
    -- There is nothing to round.
    have whole : roundAway d.value scale = d.value := by
      have unit : (10 : Rat) ^ scale ≠ 0 := by positivity
      have split : (10 : Rat) ^ scale = 10 ^ d.scale * 10 ^ (scale - d.scale) := by
        rw [← pow_add, Nat.add_sub_cancel' (by omega)]
      have isInt : d.value * 10 ^ scale =
          ((if d.neg then -1 else 1) * (numberOf 10 d.digits * 10 ^ (scale - d.scale)) : Int) := by
        unfold Dec.value Dec.sign
        rw [split]
        push_cast
        field_simp
      rw [roundAway_scaled, isInt, nearestInt_int, ← isInt, mul_div_cancel_right₀ _ unit]
    rw [whole, Dec.value_withScale d (Nat.le_max_right (min (scale : Int).toNat maxDisplayScale) _)]
    unfold Dec.roundTo
    rw [if_pos more]
    rfl

theorem numberOf_nines (n : Nat) : numberOf 10 (List.replicate n 9) + 1 = 10 ^ n := by
  induction n with
  | zero => rfl
  | succ n ih =>
    rw [List.replicate_succ, numberOf_cons, List.length_replicate, pow_succ]
    omega

theorem mem_nines {n : Nat} {c : Char} (member : c ∈ List.replicate n '9') : isDigit c = true := by
  rw [List.eq_of_mem_replicate member]
  decide

def nines (whole frac : Nat) (some' : 0 < whole + frac) : DecimalText where
  sign := none
  whole := List.replicate whole '9'
  frac := if 0 < frac then some (List.replicate frac '9') else none
  areDigits := by
    intro c member
    rcases List.mem_append.mp member with inWhole | inFrac
    · exact mem_nines inWhole
    · split at inFrac
      · exact mem_nines inFrac
      · cases inFrac
  hasDigit := by
    intro isEmpty
    have lengths := congrArg List.length isEmpty
    split at lengths
    · simp at lengths
      omega
    · simp at lengths
      omega

theorem nines_text (whole frac : Nat) (some' : 0 < whole + frac) :
    (nines whole frac some').text =
      List.replicate whole '9' ++ (if 0 < frac then ['.'] else []) ++ List.replicate frac '9' := by
  unfold DecimalText.text DecimalText.signText DecimalText.fracText nines
  by_cases hasFrac : 0 < frac
  · simp [hasFrac]
  · have noFrac : frac = 0 := by omega
    simp [noFrac]

theorem nines_number (whole frac : Nat) (some' : 0 < whole + frac) :
    (nines whole frac some').number = 10 ^ whole - 1 / 10 ^ frac := by
  have digits : (nines whole frac some').digits = List.replicate (whole + frac) 9 := by
    have nine : digitOf '9' = 9 := by decide
    unfold DecimalText.digits nines
    by_cases hasFrac : 0 < frac
    · simp [hasFrac, nine]
    · have noFrac : frac = 0 := by omega
      simp [noFrac, nine]
  have places : (nines whole frac some').places = frac := by
    unfold DecimalText.places nines
    by_cases hasFrac : 0 < frac
    · simp [hasFrac]
    · simp [hasFrac]
      omega
  have count : (numberOf 10 (List.replicate (whole + frac) 9) : Rat) = 10 ^ whole * 10 ^ frac - 1 := by
    rw [← pow_add, eq_sub_iff_add_eq]
    exact_mod_cast numberOf_nines (whole + frac)
  unfold DecimalText.number
  rw [digits, places, count]
  show (1 : Rat) * _ = _
  field_simp

/-- A one, and `n` zeros. -/
def powerText (n : Nat) : DecimalText where
  sign := none
  whole := '1' :: List.replicate n '0'
  frac := none
  areDigits := by
    intro c member
    rw [Option.getD_none, List.append_nil] at member
    rcases List.mem_cons.mp member with rfl | zero
    · decide
    · rw [List.eq_of_mem_replicate zero]
      decide
  hasDigit := by simp

theorem powerText_number (n : Nat) : (powerText n).number = 10 ^ n := by
  have digits : (powerText n).digits = 1 :: List.replicate n 0 := by
    have one : digitOf '1' = 1 := by decide
    have zero : digitOf '0' = 0 := by decide
    unfold DecimalText.digits powerText
    simp [one, zero]
  unfold DecimalText.number
  rw [digits, numberOf_cons, numberOf_zeros, List.length_replicate]
  show (1 : Rat) * (_ / 10 ^ 0) = _
  push_cast
  ring

theorem parsedOrZero_text {x : DecimalText} (fits : x.places < 2 ^ 32) :
    ∃ d, parsedOrZero x.text = .fin d ∧ d.Normal ∧ d.value = x.number := by
  obtain ⟨d, parsed, normal, value⟩ := x.parse_text fits
  refine ⟨d, ?_, normal, value⟩
  unfold parsedOrZero
  rw [parsed]

theorem largestDecimal_exact (whole : Nat) {frac : Nat} (fits : frac < 2 ^ 32) :
    ∃ d, largestDecimal whole frac = .fin d ∧ d.Normal ∧ d.value = 10 ^ whole - 1 / 10 ^ frac := by
  by_cases some' : 0 < whole + frac
  · obtain ⟨d, parsed, normal, value⟩ := parsedOrZero_text (x := nines whole frac some') (by
      unfold DecimalText.places nines
      by_cases hasFrac : 0 < frac
      · simpa [hasFrac] using fits
      · simp [hasFrac])
    rw [nines_text] at parsed
    exact ⟨d, parsed, normal, by rw [value, nines_number]⟩
  · have isWhole : whole = 0 := by omega
    have isFrac : frac = 0 := by omega
    subst isWhole isFrac
    refine ⟨Dec.zero 0, rfl, ⟨magnitude_nil, fun _ => rfl⟩, ?_⟩
    show (1 : Rat) * ((0 : Nat) / _) = _
    norm_num

section Decimals

variable {r : Readers} {mode : SqlMode} {name : String} {v : Value} {x : Rat}

theorem decimalOf_given (given : Given v x) :
    ∃ d, decimalOf r mode name v = .ok (.fin d) ∧ d.Normal ∧ d.value = x := by
  cases given with
  | int fits => exact ⟨_, rfl, decOfInt_normal _, decOfInt_value _⟩
  | bool b =>
    refine ⟨decOfInt (if b then 1 else 0), rfl, decOfInt_normal _, ?_⟩
    rw [decOfInt_value]
    cases b with
    | true => rfl
    | false => rfl
  | num normal => exact ⟨_, rfl, normal, rfl⟩
  | text x fits =>
    obtain ⟨d, parsed, normal, value⟩ := x.parse_text fits
    refine ⟨d, ?_, normal, value⟩
    unfold decimalOf
    simp only [String.toList_ofList, x.trim_text, parsed]

theorem reads_num {n : Numeric} {d : Dec} {q : Rat} (isFin : n = .fin d) (normal : d.Normal)
    (value : d.value = q) : Reads (.ok (.num n)) q :=
  ⟨_, rfl, by rw [isFin]; exact normal, by rw [isFin]; exact value⟩

theorem value_unsigned (d : Dec) : ({ d with neg := false } : Dec).value = |d.value| := by
  have magnitude : (0 : Rat) ≤ numberOf 10 d.digits / 10 ^ d.scale := by positivity
  unfold Dec.value Dec.sign
  cases d.neg with
  | true => simp [abs_of_nonneg magnitude]
  | false => simp [abs_of_nonneg magnitude]

theorem scaled_lt_iff (m : Int) (whole frac : Nat) :
    |(m / 10 ^ frac : Rat)| < 10 ^ whole ↔
      -(10 ^ whole - 1 / 10 ^ frac : Rat) ≤ m / 10 ^ frac ∧
        (m / 10 ^ frac : Rat) ≤ 10 ^ whole - 1 / 10 ^ frac := by
  have unit : (0 : Rat) < 10 ^ frac := by positivity
  have bound : (10 ^ whole - 1 / 10 ^ frac : Rat) = ((10 ^ (whole + frac) - 1 : Int) : Rat) / 10 ^ frac := by
    push_cast
    rw [pow_add]
    field_simp
  have power : (10 ^ whole : Rat) = ((10 ^ (whole + frac) : Int) : Rat) / 10 ^ frac := by
    push_cast
    rw [pow_add]
    field_simp
  rw [bound, power, abs_lt, ← neg_div, ← neg_div, div_lt_div_iff_of_pos_right unit,
    div_lt_div_iff_of_pos_right unit, div_le_div_iff_of_pos_right unit,
    div_le_div_iff_of_pos_right unit]
  generalize (10 ^ (whole + frac) : Int) = power
  rw [← Int.cast_neg, ← Int.cast_neg, Int.cast_lt, Int.cast_lt, Int.cast_le, Int.cast_le]
  omega

theorem coerceDecimal_stores (given : Given v x) (precision : Nat) {scale : Nat}
    (fits : scale < 2 ^ 32) :
    StoresNumber (coerceDecimal r mode name precision scale v) mode.strict
      (-(10 ^ (precision - scale) - 1 / 10 ^ scale)) (10 ^ (precision - scale) - 1 / 10 ^ scale)
      (roundAway x scale) := by
  obtain ⟨exact', isExact, normal, value⟩ := @decimalOf_given r mode name v x given
  obtain ⟨d, rounded, normal, value'⟩ := roundNumeric_exact normal scale
  rw [value] at value'
  obtain ⟨limit, isLimit, normalLimit, valueLimit⟩ :=
    parsedOrZero_text (x := powerText (precision - scale))
      (show 0 < 2 ^ 32 by decide)
  have powerIs : (powerText (precision - scale)).text = '1' :: List.replicate (precision - scale) '0' := by
    unfold DecimalText.text DecimalText.signText DecimalText.fracText powerText
    simp
  rw [powerIs] at isLimit
  rw [powerText_number] at valueLimit
  obtain ⟨largest, isLargest, normalLargest, valueLargest⟩ := largestDecimal_exact (precision - scale) fits
  have within : cmpNum (absNumeric (.fin d)) (.fin limit) = .lt ↔
      -(10 ^ (precision - scale) - 1 / 10 ^ scale) ≤ roundAway x scale ∧
        roundAway x scale ≤ 10 ^ (precision - scale) - 1 / 10 ^ scale := by
    have unsigned : ({ d with neg := false } : Dec).Normal := ⟨normal.magnitude, fun _ => rfl⟩
    rw [roundAway_scaled, ← scaled_lt_iff, ← roundAway_scaled, ← value', ← value_unsigned,
      ← valueLimit]
    show cmpNum (.fin { d with neg := false }) (.fin limit) = .lt ↔ _
    rw [cmpNum_exact unsigned normalLimit, cmp_eq_lt_iff]
  have coerced : coerceDecimal r mode name precision scale v =
      if cmpNum (absNumeric (.fin d)) (.fin limit) ≠ .lt then
        if mode.strict then .error (outOfRange name)
        else .ok (.num (if (Numeric.fin d).isNegative then (Numeric.fin largest).neg else .fin largest))
      else .ok (.num (.fin d)) := by
    unfold coerceDecimal
    rw [isExact, ← rounded, ← isLimit, ← isLargest]
    rfl
  rw [coerced]
  unfold StoresNumber
  by_cases inside : cmpNum (absNumeric (.fin d)) (.fin limit) = .lt
  · rw [if_pos (within.mp inside), if_neg (not_not.mpr inside)]
    exact reads_num rfl normal value'
  · have outside := fun isWithin => inside (within.mpr isWithin)
    rw [if_neg outside, if_pos inside]
    cases mode.strict with
    | true => exact ⟨_, _, rfl⟩
    | false =>
      have nonneg : (0 : Rat) ≤ 10 ^ (precision - scale) - 1 / 10 ^ scale := by
        have whole : (1 : Rat) ≤ 10 ^ (precision - scale) := one_le_pow₀ (by norm_num)
        have frac : (1 : Rat) / 10 ^ scale ≤ 1 :=
          div_le_one_of_le₀ (one_le_pow₀ (by norm_num)) (by positivity)
        linarith
      simp only [Bool.false_eq_true, if_false]
      cases isMinus : d.neg with
      | true =>
        have below : roundAway x scale < -(10 ^ (precision - scale) - 1 / 10 ^ scale) := by
          have isNeg := neg_of_sign normal isMinus
          rw [value'] at isNeg
          by_contra notBelow
          exact outside ⟨not_lt.mp notBelow, by linarith⟩
        obtain ⟨flipped, _, normalFlipped⟩ := neg_exact normalLargest _ rfl
        have chosen : (if (Numeric.fin d).isNegative then (Numeric.fin largest).neg
            else .fin largest) = (Numeric.fin largest).neg := if_pos isMinus
        rw [if_pos below, chosen]
        exact reads_num rfl normalFlipped (by rw [flipped, valueLargest])
      | false =>
        have notBelow : ¬ roundAway x scale < -(10 ^ (precision - scale) - 1 / 10 ^ scale) := by
          have isPlus := nonneg_of_sign isMinus
          rw [value'] at isPlus
          linarith
        have chosen : (if (Numeric.fin d).isNegative then (Numeric.fin largest).neg
            else .fin largest) = .fin largest := if_neg (by
          show ¬ d.neg = true
          rw [isMinus]
          decide)
        rw [if_neg notBelow, chosen]
        exact reads_num rfl normalLargest valueLargest

end Decimals

def numberRange (col : Column Value) : Option (Nat × Rat × Rat) :=
  match col.ty with
  | .decimal precision scale =>
    let most : Rat := 10 ^ (precision - scale) - 1 / 10 ^ scale
    some (scale, -most, most)
  | ty =>
    (ColumnType.bits ty).map fun bits =>
      (0, (intRange bits col.unsigned).1, (intRange bits col.unsigned).2)

def TakenByColumn (r : Readers) (mode : SqlMode) (col : Column Value) (v : Value) (x : Rat) : Prop :=
  ∀ bits, ColumnType.bits col.ty = some bits →
    TakenRight mode.strict (intRange bits col.unsigned).1 (intRange bits col.unsigned).2
      (nearestInt x) (taken r v x)

/-- A column stores the number that it is given just if it is a decimal column, or an integer column
that takes the input for that number, below 2^63. -/
theorem coerceToColumn_stores_iff {r : Readers} (converts : Converts r) (mode : SqlMode)
    (col : Column Value) {scale : Nat} {lo hi : Rat} (hasRange : numberRange col = some (scale, lo, hi))
    (fits : scale < 2 ^ 32) {v : Value} {x : Rat} (given : Given v x) :
    StoresNumber (coerceToColumn r mode col v) mode.strict lo hi (roundAway x scale) ↔
      TakenByColumn r mode col v x := by
  have notNull : v.isNull = false := by cases given <;> rfl
  have integer : ∀ bits, ColumnType.bits col.ty = some bits →
      coerceToColumn r mode col v = coerceInteger r mode col.name (intRange bits col.unsigned) v ∧
        numberRange col =
          some (0, ((intRange bits col.unsigned).1 : Rat), ((intRange bits col.unsigned).2 : Rat)) := by
    intro bits isBits
    unfold coerceToColumn numberRange
    rw [notNull, if_neg (by decide)]
    cases isType : col.ty <;> rw [isType] at isBits <;> cases isBits <;> exact ⟨rfl, rfl⟩
  cases isBits : ColumnType.bits col.ty with
  | some bits =>
    obtain ⟨coerced, isRange⟩ := integer bits isBits
    rw [hasRange] at isRange
    cases isRange
    rw [coerced, coerceInteger_iff (intRange_bounds isBits col.unsigned) converts given]
    constructor
    · intro right bits' isBits'
      rw [isBits] at isBits'
      cases isBits'
      exact right
    · intro right
      exact right bits isBits
  | none =>
    have right : TakenByColumn r mode col v x := by
      intro bits isSome
      rw [isBits] at isSome
      cases isSome
    refine ⟨fun _ => right, fun _ => ?_⟩
    unfold numberRange at hasRange
    unfold coerceToColumn
    rw [notNull, if_neg (by decide)]
    cases isType : col.ty with
    | decimal precision scale' =>
      rw [isType] at hasRange
      cases hasRange
      exact coerceDecimal_stores given precision fits
    | _ =>
      rw [isType] at hasRange isBits
      simp only [isBits, Option.map_none] at hasRange
      cases hasRange

def halfReaders : Readers :=
  { upperAndLower with
    parseI128 := fun s => readI128 s.toList
    parseF64 := fun s => some (.real (if s = "2.5" then 5 / 2 else 0)) }

theorem halfReaders_converts : Converts halfReaders where
  parseI128 _ := rfl
  parseF64 x := by
    refine ⟨_, rfl, fun _ => ?_⟩
    show (if _ then _ else _ : Rat) ≤ 2 ^ 63
    split <;> norm_num
  f64OfNumeric d _ atMost := atMost

def twoAndHalf : DecimalText :=
  { sign := none, whole := ['2'], frac := some ['5']
    areDigits := List.all_eq_true.mp (by decide), hasDigit := by decide }

theorem twoAndHalf_number : twoAndHalf.number = 5 / 2 := by
  show (1 : Rat) * ((25 : Nat) / 10 ^ 1) = 5 / 2
  norm_num

theorem coerceToColumn_stores_iff_half :
    StoresNumber (coerceToColumn halfReaders ⟨["STRICT_TRANS_TABLES"]⟩ { name := "c", ty := .int }
        (.text "2.5")) true (-2 ^ 31) (2 ^ 31 - 1) (roundAway (5 / 2) 0) ↔
      TakenByColumn halfReaders ⟨["STRICT_TRANS_TABLES"]⟩ { name := "c", ty := .int }
        (.text "2.5") (5 / 2) := by
  have isRange : numberRange { name := "c", ty := .int : Column Value } =
      some (0, (-2 ^ 31 : Rat), (2 ^ 31 - 1 : Rat)) := by
    show some (0, (((-2 ^ 31 : Int) : Rat)), (((2 ^ 31 - 1 : Int) : Rat))) = _
    norm_num
  have given : Given (.text "2.5") (5 / 2) := by
    rw [← twoAndHalf_number]
    exact Given.text twoAndHalf (by decide)
  exact coerceToColumn_stores_iff halfReaders_converts ⟨["STRICT_TRANS_TABLES"]⟩
    { name := "c", ty := .int } isRange (by decide) given

def twoPow63 : DecimalText :=
  { sign := none, whole := "9223372036854775808".toList, frac := none
    areDigits := List.all_eq_true.mp (by decide), hasDigit := by decide }

theorem twoPow63_number : twoPow63.number = (2 ^ 63 : Int) := by
  have digits : numberOf 10 twoPow63.digits = 2 ^ 63 := by decide
  unfold DecimalText.number
  rw [digits]
  show (1 : Rat) * ((2 ^ 63 : Nat) / 10 ^ 0) = _
  norm_num

/-- A number that fits in `BIGINT UNSIGNED` is stored as another one. -/
theorem coerceToColumn_twoPow63 :
    ¬ (∀ (r : Readers), Converts r → ∀ (mode : SqlMode) (col : Column Value) (scale : Nat) (lo hi : Rat),
      numberRange col = some (scale, lo, hi) → scale < 2 ^ 32 → ∀ (v : Value) (x : Rat), Given v x →
        StoresNumber (coerceToColumn r mode col v) mode.strict lo hi (roundAway x scale)) := by
  intro claimed
  have given : Given (.text "9223372036854775808") ((2 ^ 63 : Int) : Rat) := by
    rw [← twoPow63_number]
    exact Given.text twoPow63 (by decide)
  have stores := claimed halfReaders halfReaders_converts ⟨["STRICT_TRANS_TABLES"]⟩
    { name := "c", ty := .bigInt, unsigned := true } 0 _ _ rfl (by decide) _ _ given
  have right := (coerceInteger_iff (by decide) halfReaders_converts given).mp stores
  rw [nearestInt_int] at right
  have small := (right.1 (by decide)).2
  exact absurd small (by decide)

end NoidaDb.MySql.Types
