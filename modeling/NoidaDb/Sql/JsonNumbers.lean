/-
The numbers and escapes of JSON texts, as the parser reads them.
-/

import NoidaDb.Sql.JsonParsing

namespace NoidaDb.Sql.JsonGrammar

open Lib JsonParser

namespace Numeral

def exponent (x : Numeral) : Int :=
  match x.exp with
  | none => 0
  | some (_, sign, ds) =>
    if sign = ['-'] then -(numberOf 10 (ds.map digitOf) : Int) else numberOf 10 (ds.map digitOf)

/-- The decimal that a number stands for.  Exponents past 100000 are not taken. -/
def exact (x : Numeral) : Option Dec :=
  if x.exponent.natAbs ≤ 100000 then
    some { neg := x.minus
           digits := (x.int ++ x.frac).map digitOf ++
             List.replicate (x.exponent - x.frac.length).toNat 0
           scale := (x.frac.length - x.exponent).toNat : Dec }.normalize
  else none

end Numeral

theorem scanDigits_digits {ds : List Char} (digits : ∀ c ∈ ds, isDigit c = true) (rest : List Char)
    (seenDigit seenPoint : Bool) :
    scanDigits (ds ++ rest) seenDigit seenPoint =
      { (scanDigits rest (seenDigit || !ds.isEmpty) seenPoint) with
        digits := ds.map digitOf ++ (scanDigits rest (seenDigit || !ds.isEmpty) seenPoint).digits
        scale := (scanDigits rest (seenDigit || !ds.isEmpty) seenPoint).scale +
          if seenPoint then ds.length else 0 } := by
  induction ds generalizing seenDigit with
  | nil => simp
  | cons d ds ih =>
    obtain ⟨here, later⟩ := List.forall_mem_cons.mp digits
    rw [List.cons_append, scanDigits, if_pos here, ih later]
    cases seenPoint with
    | true =>
      simp
      omega
    | false => simp

theorem scanDigits_stops {rest : List Char} {seenPoint : Bool}
    (ends : ∀ c, rest.head? = some c → isDigit c = false ∧ c ≠ '.' ∧ c ≠ '_') (seenDigit : Bool) :
    scanDigits rest seenDigit seenPoint =
      { digits := [], scale := 0, seenDigit := seenDigit, rest := rest } := by
  cases rest with
  | nil => rfl
  | cons c rest =>
    obtain ⟨notDigit, notPoint, notUnderscore⟩ := ends c rfl
    simp [scanDigits, notDigit, notPoint, notUnderscore]

theorem scanDigits_frac {frac : List Char} (digits : ∀ c ∈ frac, isDigit c = true) {rest : List Char}
    (ends : ∀ c, rest.head? = some c → isDigit c = false ∧ c ≠ '.' ∧ c ≠ '_') :
    scanDigits (Numeral.fracText frac ++ rest) true false =
      { digits := frac.map digitOf, scale := frac.length, seenDigit := true, rest := rest } := by
  unfold Numeral.fracText
  split
  · rename_i isEmpty
    rw [isEmpty, List.nil_append]
    exact scanDigits_stops ends true
  · rw [List.cons_append, scanDigits, if_neg (by decide), if_pos ⟨rfl, rfl⟩,
      scanDigits_digits digits, scanDigits_stops ends]
    simp

variable {x : Numeral} {d c : Char} {w : List Char}

theorem splitSign_digit (digit : isDigit d = true) (rest : List Char) :
    splitSign (d :: rest) = (false, d :: rest) := by
  unfold splitSign
  split
  · rename_i isPlus
    obtain ⟨rfl, _⟩ := List.cons.inj isPlus
    cases digit
  · rename_i isMinus
    obtain ⟨rfl, _⟩ := List.cons.inj isMinus
    cases digit
  · rfl

theorem scanExponent_eq {sign ds : List Char} (isSign : sign = [] ∨ sign = ['+'] ∨ sign = ['-'])
    (digits : ds ≠ [] ∧ ∀ c ∈ ds, isDigit c = true) :
    ∃ e : Int, e = (if sign = ['-'] then -(numberOf 10 (ds.map digitOf) : Int)
        else numberOf 10 (ds.map digitOf)) ∧
      scanExponent (sign ++ ds) =
        if e < -2 ^ 63 ∨ 2 ^ 63 ≤ e then .error .overflow
        else if e ≠ -2 ^ 63 ∧ 100000 < e.natAbs then .error .overflow
        else .ok (e, []) := by
  obtain ⟨taken, left⟩ := @digits_span ds [] digits.2 (by simp)
  rw [List.append_nil] at taken left
  refine ⟨_, rfl, ?_⟩
  rcases isSign with rfl | rfl | rfl
  · cases ds with
    | nil => exact (digits.1 rfl).elim
    | cons d ds =>
      have here := digits.2 d List.mem_cons_self
      have unsigned := splitSign_digit here ds
      rw [List.nil_append]
      simp [scanExponent, unsigned, taken, left]
  · simp [scanExponent, splitSign, taken, left, digits.1]
  · simp [scanExponent, splitSign, taken, left, digits.1]

theorem scanDigits_text (wellFormed : x.WellFormed) :
    scanDigits (x.int ++ (Numeral.fracText x.frac ++ Numeral.expText x.exp)) false false =
      { digits := (x.int ++ x.frac).map digitOf
        scale := x.frac.length
        seenDigit := true
        rest := Numeral.expText x.exp } := by
  have ends : ∀ c, (Numeral.expText x.exp).head? = some c →
      isDigit c = false ∧ c ≠ '.' ∧ c ≠ '_' := by
    intro c head
    rw [← List.append_nil (Numeral.expText x.exp)] at head
    rcases expText_head (fun y isY => (wellFormed.exp y isY).1) head with rfl | rfl | later
    · decide
    · decide
    · cases later
  have present : x.int.isEmpty = false := by
    cases isEmpty : x.int with
    | nil => exact (wellFormed.int.1 isEmpty).elim
    | cons d ds => rfl
  rw [scanDigits_digits wellFormed.int.2, present]
  simp [scanDigits_frac wellFormed.frac ends]

theorem readDec_text (wellFormed : x.WellFormed) (d : Dec) :
    readDec x.text = .ok d ↔ x.exact = some d := by
  have sign : splitSign x.text =
      (x.minus, x.int ++ (Numeral.fracText x.frac ++ Numeral.expText x.exp)) := by
    unfold Numeral.text
    cases x.minus with
    | true => simp [Numeral.minusText, splitSign]
    | false =>
      cases int : x.int with
      | nil => exact (wellFormed.int.1 int).elim
      | cons c ds =>
        have digit := wellFormed.int.2 c (by simp [int])
        simp [Numeral.minusText, splitSign_digit digit]
  unfold readDec
  simp only [sign, scanDigits_text wellFormed, Bool.true_eq_false, if_false]
  unfold Numeral.exact
  cases exp : x.exp with
  | none =>
    simp [Numeral.exponent, exp, Numeral.expText, optionalExponent, bind, Except.bind]
  | some y =>
    obtain ⟨e, expSign, ds⟩ := y
    obtain ⟨isLetter, isSign, present, digits⟩ := wellFormed.exp (e, expSign, ds) exp
    obtain ⟨value, isValue, scanned⟩ := scanExponent_eq isSign ⟨present, digits⟩
    have exponent : x.exponent = value := by
      rw [isValue]
      simp [Numeral.exponent, exp]
    simp only [Numeral.expText, List.cons_append, optionalExponent, if_pos isLetter, scanned,
      exponent]
    by_cases small : value.natAbs ≤ 100000
    · have inRange : ¬ (value < -2 ^ 63 ∨ 2 ^ 63 ≤ value) := by omega
      have fits : ¬ (value ≠ -2 ^ 63 ∧ 100000 < value.natAbs) := by omega
      have least : ¬ value = -9223372036854775808 := by omega
      rw [if_neg inRange, if_neg fits, if_pos small]
      simp [least, bind, Except.bind]
    · rw [if_neg small]
      simp only [reduceCtorEq, iff_false]
      split
      · simp [bind, Except.bind]
      · split
        · simp [bind, Except.bind]
        · rename_i inRange fits
          have least : value = -2 ^ 63 := by omega
          simp [least, bind, Except.bind]

theorem digit_notSpace (digit : isDigit c = true) : isWhitespace c = false := by
  simp only [isDigit, Bool.and_eq_true, decide_eq_true_eq] at digit
  have low : (48 : Nat) ≤ c.toNat := digit.1
  have high : c.toNat ≤ (57 : Nat) := digit.2
  unfold isWhitespace
  generalize c.toNat = n at low high ⊢
  simp
  omega

theorem mem_text (wellFormed : x.WellFormed) (member : c ∈ x.text) :
    isDigit c = true ∨ c ∈ ['-', '+', '.', 'e', 'E'] := by
  simp only [Numeral.text, List.mem_append] at member
  rcases member with ((isMinus | inInt) | inFrac) | inExp
  · apply Or.inr
    unfold Numeral.minusText at isMinus
    split at isMinus
    · rw [List.mem_singleton.mp isMinus]
      decide
    · cases isMinus
  · exact Or.inl (wellFormed.int.2 c inInt)
  · unfold Numeral.fracText at inFrac
    split at inFrac
    · cases inFrac
    · rcases List.mem_cons.mp inFrac with isPoint | digit
      · rw [isPoint]
        decide
      · exact Or.inl (wellFormed.frac c digit)
  · cases exp : x.exp with
    | none =>
      rw [exp] at inExp
      cases inExp
    | some y =>
      obtain ⟨e, sign, ds⟩ := y
      obtain ⟨isLetter, isSign, _, digits⟩ := wellFormed.exp (e, sign, ds) exp
      rw [exp] at inExp
      simp only [Numeral.expText, List.cons_append, List.mem_cons, List.mem_append] at inExp
      rcases inExp with isE | inSign | digit
      · apply Or.inr
        rw [isE]
        rcases isLetter with isSmall | isLarge
        · simp only at isSmall
          rw [isSmall]
          decide
        · simp only at isLarge
          rw [isLarge]
          decide
      · apply Or.inr
        rcases isSign with isNone | isPlus | isMinus
        · simp only at isNone
          rw [isNone] at inSign
          cases inSign
        · simp only at isPlus
          rw [isPlus] at inSign
          rw [List.mem_singleton.mp inSign]
          decide
        · simp only at isMinus
          rw [isMinus] at inSign
          rw [List.mem_singleton.mp inSign]
          decide
      · exact Or.inl (digits c digit)

theorem dropWhile_none {α : Type} {p : α → Bool} {s : List α} (none : ∀ c ∈ s, p c = false) :
    s.dropWhile p = s := by
  cases s with
  | nil => rfl
  | cons c s => rw [List.dropWhile_cons_of_neg (by simp [none c List.mem_cons_self])]

theorem trim_text (wellFormed : x.WellFormed) : trim x.text = x.text := by
  have noSpace : ∀ c ∈ x.text, isWhitespace c = false := by
    intro c member
    rcases mem_text wellFormed member with digit | other
    · exact digit_notSpace digit
    · simp only [List.mem_cons, List.not_mem_nil, or_false] at other
      rcases other with rfl | rfl | rfl | rfl | rfl <;> decide
  unfold trim
  rw [dropWhile_none noSpace, dropWhile_none, List.reverse_reverse]
  intro c member
  exact noSpace c (List.mem_reverse.mp member)

theorem toLower_digit (digit : isDigit d = true) : d.toLower = d := by
  have high : d.toNat ≤ 57 := by
    simp only [isDigit, Bool.and_eq_true, decide_eq_true_eq] at digit
    exact digit.2
  unfold Char.toLower
  rw [dif_neg]
  intro isUpper
  have low : 65 ≤ d.toNat := UInt32.le_iff_toNat_le.mp isUpper.1
  omega

theorem parse_of_digit {s : List Char} (inText : d ∈ trim s) (digit : isDigit d = true) :
    Numeric.parse s = (readDec (trim s)).map (fun d => .fin { d with scale := d.scale % 2 ^ 32 }) := by
  have notWord : ∀ word : List Char, (∀ c ∈ word, isDigit c = false) →
      (trim s).map Char.toLower ≠ word := by
    intro word noDigit same
    have inWord : d ∈ word := by
      rw [← same, ← toLower_digit digit]
      exact List.mem_map_of_mem inText
    rw [noDigit d inWord] at digit
    cases digit
  have notNan := notWord "nan".toList (by simp [isDigit])
  have notInf : (trim s).map Char.toLower ∉
      ["infinity".toList, "+infinity".toList, "inf".toList, "+inf".toList] := by
    simp only [List.mem_cons, List.not_mem_nil, or_false, not_or]
    exact ⟨notWord _ (by simp [isDigit]), notWord _ (by simp [isDigit]),
      notWord _ (by simp [isDigit]), notWord _ (by simp [isDigit])⟩
  have notMinusInf : (trim s).map Char.toLower ∉ ["-infinity".toList, "-inf".toList] := by
    simp only [List.mem_cons, List.not_mem_nil, or_false, not_or]
    exact ⟨notWord _ (by simp [isDigit]), notWord _ (by simp [isDigit])⟩
  unfold Numeric.parse
  simp only [if_neg notNan, if_neg notInf, if_neg notMinusInf]

theorem parse_text (wellFormed : x.WellFormed) (v : Numeric) :
    Numeric.parse x.text = .ok v ↔
      x.exact.map (fun d => .fin { d with scale := d.scale % 2 ^ 32 }) = some v := by
  obtain ⟨d, inInt⟩ := List.exists_mem_of_ne_nil x.int wellFormed.int.1
  have inText : d ∈ trim x.text := by
    rw [trim_text wellFormed]
    simp [Numeral.text, inInt]
  rw [parse_of_digit inText (wellFormed.int.2 d inInt), trim_text wellFormed]
  have reads := readDec_text wellFormed
  cases isDec : readDec x.text with
  | error failure =>
    have nothing : x.exact = none := by
      cases exact : x.exact with
      | none => rfl
      | some d =>
        have isOk := (reads d).mpr exact
        rw [isDec] at isOk
        cases isOk
    simp [nothing, Except.map]
  | ok d =>
    rw [(reads d).mp isDec]
    simp [Except.map]

theorem hexDigit_plain {d : Nat} (isHex : hexDigit c = some d) :
    d < 16 ∧ c.utf8Size = 1 ∧ c ≠ '+' := by
  have ascii : c.toNat ≤ 127 → c.utf8Size = 1 := by
    intro small
    apply Char.utf8Size_eq_one_iff.mpr
    exact UInt32.le_iff_toNat_le.mpr small
  have other : ∀ {k : Nat}, k ≤ c.toNat → 48 ≤ k → c ≠ '+' := by
    intro k atLeast large same
    rw [same] at atLeast
    have plus : k ≤ 43 := atLeast
    omega
  unfold hexDigit at isHex
  split at isHex
  · rename_i digit
    simp only [isDigit, Bool.and_eq_true, decide_eq_true_eq] at digit
    have low : 48 ≤ c.toNat := digit.1
    have high : c.toNat ≤ 57 := digit.2
    obtain rfl := Option.some.inj isHex
    have value : digitOf c = c.toNat - 48 := rfl
    exact ⟨by omega, ascii (by omega), other low (by decide)⟩
  · split at isHex
    · rename_i letter
      have low : 97 ≤ c.toNat := letter.1
      have high : c.toNat ≤ 102 := letter.2
      have value : c.toNat - 97 + 10 = d := Option.some.inj isHex
      exact ⟨by omega, ascii (by omega), other low (by decide)⟩
    · split at isHex
      · rename_i letter
        have low : 65 ≤ c.toNat := letter.1
        have high : c.toNat ≤ 70 := letter.2
        have value : c.toNat - 65 + 10 = d := Option.some.inj isHex
        exact ⟨by omega, ascii (by omega), other low (by decide)⟩
      · cases isHex

theorem hexDigits_plain {ds : List Nat} (isHex : hexDigits w = some ds) :
    (∀ d ∈ ds, d < 16) ∧ ds.length = w.length ∧ ∀ c ∈ w, c.utf8Size = 1 ∧ c ≠ '+' := by
  induction w generalizing ds with
  | nil =>
    obtain rfl := Option.some.inj isHex
    simp
  | cons c w ih =>
    rw [hexDigits] at isHex
    obtain ⟨d, isD, isHex⟩ := Option.bind_eq_some_iff.mp isHex
    obtain ⟨rest, isRest, isHex⟩ := Option.bind_eq_some_iff.mp isHex
    obtain rfl := Option.some.inj isHex
    obtain ⟨digits, length, plain⟩ := ih isRest
    obtain ⟨isDigit, isPlain⟩ := hexDigit_plain isD
    exact ⟨List.forall_mem_cons.mpr ⟨isDigit, digits⟩, by simp [length],
      List.forall_mem_cons.mpr ⟨isPlain, plain⟩⟩

def onlyHex (w : List Char) : Option Nat := (hexDigits w).map (numberOf 16)

theorem fromStrRadix16_ascii {v : Nat} (isHex : fromStrRadix16 w = some v) :
    ∀ c ∈ w, c.utf8Size = 1 := by
  unfold fromStrRadix16 at isHex
  split at isHex
  · cases isHex
  · obtain ⟨ds, isDs, _⟩ := Option.bind_eq_some_iff.mp isHex
    obtain ⟨_, _, plain⟩ := hexDigits_plain isDs
    intro c member
    unfold withoutPlus at plain
    split at plain
    · rcases List.mem_cons.mp member with isPlus | inRest
      · rw [isPlus]
        decide
      · exact (plain c inRest).1
    · exact (plain c member).1

theorem fromStrRadix16_of_onlyHex (four : w.length = 4) {v : Nat} (isHex : onlyHex w = some v) :
    fromStrRadix16 w = some v := by
  obtain ⟨ds, isDs, rfl⟩ := Option.map_eq_some_iff.mp isHex
  obtain ⟨digits, length, plain⟩ := hexDigits_plain isDs
  have noPlus : withoutPlus w = w := by
    unfold withoutPlus
    split
    · exact ((plain '+' List.mem_cons_self).2 rfl).elim
    · rfl
  have present : w ≠ [] := by
    intro isEmpty
    rw [isEmpty] at four
    cases four
  have small : numberOf 16 ds < 4294967296 := by
    have below := numberOf_lt (by decide) digits
    rw [length, four] at below
    exact Nat.lt_trans below (by decide)
  simp [fromStrRadix16, noPlus, present, isDs, small]

def numeralMeaning (wrap : Nat → Nat) (x : Numeral) : Option Numeric :=
  x.exact.map (fun d => .fin { d with scale := wrap d.scale })

def codeMeanings : Meanings where
  hex := fromStrRadix16
  numeral := numeralMeaning (fun scale => scale % 2 ^ 32)

theorem agrees_code : Agrees Json.readers codeMeanings where
  hex := rfl
  ascii := fun _ _ isHex => fromStrRadix16_ascii isHex
  number := fun _ wellFormed v => parse_text wellFormed v

theorem parse_iff (s : String) (j : Json) : Json.parse s = .ok j ↔ Text codeMeanings s j :=
  parseWith_iff agrees_code s j

end NoidaDb.Sql.JsonGrammar
