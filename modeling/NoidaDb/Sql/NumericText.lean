/-
The texts of numerics: what is read, and that what is printed is read back.

Underscores may stand between digits.  The scanner takes one right after the point, too.
-/

import NoidaDb.Sql.JsonOrder
import NoidaDb.Sql.JsonPrinting

namespace NoidaDb.Sql.NumericText

open Lib
open JsonGrammar (digits_span splitSign_digit scanExponent_eq parse_of_digit digits_map)

/-- Digits with at most one point, and single underscores between digits or, in a lenient text, after
the point.  The flags: an underscore may follow; the point has been. -/
inductive Body (strict : Bool) : Bool → Bool → List Char → List Nat → Nat → Prop
  | done (after point : Bool) : Body strict after point [] [] 0
  | digit {after point : Bool} {c : Char} {rest : List Char} {digits : List Nat} {places : Nat}
      (isDigit : isDigit c = true) (tail : Body strict true point rest digits places) :
      Body strict after point (c :: rest) (digitOf c :: digits) (if point then places + 1 else places)
  | point {after : Bool} {rest : List Char} {digits : List Nat} {places : Nat}
      (tail : Body strict (after && !strict) true rest digits places) :
      Body strict after false ('.' :: rest) digits places
  | underscore {point : Bool} {c : Char} {rest : List Char} {digits : List Nat} {places : Nat}
      (isDigit : isDigit c = true) (tail : Body strict true point (c :: rest) digits places) :
      Body strict true point ('_' :: c :: rest) digits places

inductive SignText : List Char → Bool → Prop
  | empty : SignText [] false
  | plus : SignText ['+'] false
  | minus : SignText ['-'] true

inductive ExpText : List Char → Int → Prop
  | empty : ExpText [] 0
  | written {letter : Char} {sign ds : List Char} {minus : Bool} (isLetter : letter = 'e' ∨ letter = 'E')
      (isSign : SignText sign minus) (present : ds ≠ []) (digits : ∀ c ∈ ds, isDigit c = true) :
      ExpText (letter :: (sign ++ ds))
        (if minus then -(numberOf 10 (ds.map digitOf) : Int) else numberOf 10 (ds.map digitOf))

/-- The text is a number: its sign, its digits, how many of them are after the point, and the
exponent. -/
structure NumberText (strict : Bool) (t : List Char) (minus : Bool) (digits : List Nat) (places : Nat)
    (exponent : Int) : Prop where
  parts : ∃ sign body exp, t = sign ++ (body ++ exp) ∧ SignText sign minus ∧
    Body strict false false body digits places ∧ ExpText exp exponent
  present : digits ≠ []

inductive StandsFor (t : List Char) : Amount → Prop
  | nan (word : t.map Char.toLower = "nan".toList) : StandsFor t .nan
  | inf (word : t.map Char.toLower ∈
      ["infinity".toList, "+infinity".toList, "inf".toList, "+inf".toList]) : StandsFor t (.inf false)
  | minusInf (word : t.map Char.toLower ∈ ["-infinity".toList, "-inf".toList]) :
      StandsFor t (.inf true)
  | number {minus : Bool} {digits : List Nat} {places : Nat} {exponent : Int}
      (isNumber : NumberText true t minus digits places exponent) (small : exponent.natAbs ≤ 100000) :
      StandsFor t (.real ((if minus then -1 else 1) * (numberOf 10 digits * 10 ^ (exponent - places))))

structure ParsedRight (s : List Char) : Prop where
  sound : ∀ n, Numeric.parse s = .ok n → StandsFor (trim s) n.amount ∧ n.Normal
  complete : ∀ a, StandsFor (trim s) a → ∃ n, Numeric.parse s = .ok n ∧ n.amount = a
  answers : Numeric.parse s ≠ .error .aborts

/-- No underscore right after the point, an exponent other than -2^63, and places that fit into 32 bits
(unless the number is zero). -/
def Sound (t : List Char) : Prop :=
  ∀ minus digits places exponent, NumberText false t minus digits places exponent →
    exponent ≠ -2 ^ 63 ∧
      (exponent.natAbs ≤ 100000 →
        ¬ ['.', '_'] <:+: t ∧ (numberOf 10 digits ≠ 0 → (places : Int) - exponent < 2 ^ 32))

variable {point : Bool} {rest exp : List Char}

theorem scanDigits_body {seenDigit seenPoint : Bool} {body : List Char} {digits : List Nat}
    {places : Nat} (isBody : Body false seenDigit seenPoint body digits places)
    (ends : ∀ c, rest.head? = some c → isDigit c = false ∧ c ≠ '.' ∧ c ≠ '_') :
    scanDigits (body ++ rest) seenDigit seenPoint =
      { digits := digits, scale := places, seenDigit := seenDigit || !digits.isEmpty, rest := rest } := by
  induction isBody with
  | done after point =>
    rw [List.nil_append, JsonGrammar.scanDigits_stops ends]
    simp
  | @digit after point c rest' digits places isDigit tail ih =>
    rw [List.cons_append, scanDigits, if_pos isDigit, ih]
    simp
  | @point after rest' digits places tail ih =>
    rw [List.cons_append, scanDigits, if_neg (by decide), if_pos ⟨rfl, rfl⟩]
    simpa using ih
  | @underscore point c rest' digits places isDigit tail ih =>
    rw [List.cons_append, List.cons_append, scanDigits, if_neg (by decide), if_neg (by simp),
      if_pos ⟨rfl, rfl, by simpa using isDigit⟩]
    exact ih

theorem Body.digits_nil {strict after : Bool} {digits : List Nat} {places : Nat}
    (isBody : Body strict after point [] digits places) : digits = [] := by
  cases isBody
  rfl

theorem body_scanDigits (t : List Char) (seenDigit seenPoint : Bool) :
    ∃ body, t = body ++ (scanDigits t seenDigit seenPoint).rest ∧
      Body false seenDigit seenPoint body (scanDigits t seenDigit seenPoint).digits
        (scanDigits t seenDigit seenPoint).scale ∧
      (scanDigits t seenDigit seenPoint).seenDigit =
        (seenDigit || !(scanDigits t seenDigit seenPoint).digits.isEmpty) := by
  induction t generalizing seenDigit seenPoint with
  | nil => exact ⟨[], rfl, .done _ _, by simp [scanDigits]⟩
  | cons c rest ih =>
    rw [scanDigits]
    by_cases digit : isDigit c = true
    · rw [if_pos digit]
      obtain ⟨body, isBody, taken, seen⟩ := ih true seenPoint
      refine ⟨c :: body, by rw [List.cons_append, ← isBody], .digit digit taken, ?_⟩
      rw [seen]
      simp
    · rw [if_neg digit]
      by_cases isPoint : c = '.' ∧ seenPoint = false
      · rw [if_pos isPoint]
        obtain ⟨rfl, rfl⟩ := isPoint
        obtain ⟨body, isBody, taken, seen⟩ := ih seenDigit true
        refine ⟨'.' :: body, by rw [List.cons_append, ← isBody], .point ?_, seen⟩
        simpa using taken
      · rw [if_neg isPoint]
        by_cases between : c = '_' ∧ seenDigit = true ∧ rest.head?.any isDigit = true
        · rw [if_pos between]
          obtain ⟨rfl, rfl, next⟩ := between
          obtain ⟨body, isBody, taken, seen⟩ := ih true seenPoint
          cases rest with
          | nil => simp at next
          | cons d rest =>
            have isDigit' : isDigit d = true := by simpa using next
            cases body with
            | nil =>
              have none := taken.digits_nil
              rw [scanDigits, if_pos isDigit'] at none
              cases none
            | cons e body =>
              obtain ⟨rfl, isRest⟩ := List.cons.inj isBody
              refine ⟨'_' :: d :: body, ?_, .underscore isDigit' taken, seen⟩
              rw [List.cons_append, ← isBody]
        · rw [if_neg between]
          exact ⟨[], rfl, .done _ _, by simp⟩

theorem splitSign_text (t : List Char) :
    ∃ sign, t = sign ++ (splitSign t).2 ∧ SignText sign (splitSign t).1 := by
  unfold splitSign
  split
  · exact ⟨['+'], rfl, .plus⟩
  · exact ⟨['-'], rfl, .minus⟩
  · exact ⟨[], rfl, .empty⟩

theorem splitSign_sign {sign : List Char} {minus : Bool} (isSign : SignText sign minus)
    (plain : ∀ c, rest.head? = some c → c ≠ '+' ∧ c ≠ '-') :
    splitSign (sign ++ rest) = (minus, rest) := by
  cases isSign with
  | plus => rfl
  | minus => rfl
  | empty =>
    rw [List.nil_append]
    unfold splitSign
    split
    · exact ((plain '+' rfl).1 rfl).elim
    · exact ((plain '-' rfl).2 rfl).elim
    · rfl

theorem digit_notSign {c : Char} (digit : isDigit c = true) : c ≠ '+' ∧ c ≠ '-' := by
  constructor
  · rintro rfl
    cases digit
  · rintro rfl
    cases digit

theorem ExpText.ends {exponent : Int} (isExp : ExpText exp exponent) :
    ∀ c, exp.head? = some c → isDigit c = false ∧ c ≠ '.' ∧ c ≠ '_' := by
  intro c isHead
  cases isExp with
  | empty => cases isHead
  | written isLetter isSign present digits =>
    cases isHead
    rcases isLetter with rfl | rfl
    · decide
    · decide

theorem Body.plain {strict : Bool} {body : List Char} {digits : List Nat} {places : Nat}
    (isBody : Body strict false false body digits places) (present : digits ≠ []) (exp : List Char) :
    ∀ c, (body ++ exp).head? = some c → c ≠ '+' ∧ c ≠ '-' := by
  intro c isHead
  cases isBody with
  | done => exact (present rfl).elim
  | digit isDigit tail =>
    cases isHead
    exact digit_notSign isDigit
  | point tail =>
    cases isHead
    decide

def expAnswer (exponent : Int) : Except NumError (Int × List Char) :=
  if exponent < -2 ^ 63 ∨ 2 ^ 63 ≤ exponent then .error .overflow
  else if exponent ≠ -2 ^ 63 ∧ 100000 < exponent.natAbs then .error .overflow
  else .ok (exponent, [])

theorem optionalExponent_text {exponent : Int} (isExp : ExpText exp exponent) :
    optionalExponent exp = expAnswer exponent := by
  cases isExp with
  | empty => rfl
  | @written letter sign ds minus isLetter isSign present digits =>
    have signs : sign = [] ∨ sign = ['+'] ∨ sign = ['-'] := by cases isSign <;> simp
    obtain ⟨e, isE, answer⟩ := scanExponent_eq signs ⟨present, digits⟩
    have isMinus : (sign = ['-']) = (minus = true) := by cases isSign <;> simp
    rw [optionalExponent, if_pos isLetter, answer, isE]
    simp only [isMinus]
    rfl

theorem expText_of_scan {e : Int} (scanned : optionalExponent rest = .ok (e, [])) :
    ExpText rest e ∧ expAnswer e = .ok (e, []) := by
  cases rest with
  | nil =>
    cases scanned
    exact ⟨.empty, rfl⟩
  | cons letter rest =>
    rw [optionalExponent] at scanned
    by_cases isLetter : letter = 'e' ∨ letter = 'E'
    · rw [if_pos isLetter] at scanned
      obtain ⟨sign, isRest, isSign⟩ := splitSign_text rest
      have digits : ∀ c ∈ (splitSign rest).2.takeWhile isDigit, isDigit c = true := by
        intro c member
        exact List.all_eq_true.mp List.all_takeWhile c member
      have left : (splitSign rest).2 =
          (splitSign rest).2.takeWhile isDigit ++ (splitSign rest).2.dropWhile isDigit :=
        (List.takeWhile_append_dropWhile).symm
      unfold scanExponent at scanned
      simp only at scanned
      generalize (splitSign rest).2.takeWhile isDigit = ds at scanned digits left
      generalize (splitSign rest).2.dropWhile isDigit = after at scanned left
      by_cases noDigit : ds = []
      · rw [if_pos noDigit] at scanned
        cases scanned
      · rw [if_neg noDigit] at scanned
        have isOk : ∀ value : Int, (if value < -2 ^ 63 ∨ 2 ^ 63 ≤ value then
            (.error .overflow : Except NumError (Int × List Char))
          else if value ≠ -2 ^ 63 ∧ 100000 < value.natAbs then .error .overflow
          else .ok (value, after)) = .ok (e, []) → value = e ∧ after = [] ∧ expAnswer e = .ok (e, []) := by
          intro value answered
          unfold expAnswer
          split at answered
          · cases answered
          · split at answered
            · cases answered
            · rename_i inRange small
              cases answered
              exact ⟨rfl, rfl, by rw [if_neg inRange, if_neg small]⟩
        obtain ⟨value, none, answer⟩ := isOk _ scanned
        refine ⟨?_, answer⟩
        rw [isRest, left, none, List.append_nil, ← value]
        exact .written isLetter isSign noDigit digits
    · rw [if_neg isLetter] at scanned
      cases scanned

theorem optionalExponent_notAborts (rest : List Char) : optionalExponent rest ≠ .error .aborts := by
  have answers : ∀ (value : Int) (after : List Char), (if value < -2 ^ 63 ∨ 2 ^ 63 ≤ value then
      (.error .overflow : Except NumError (Int × List Char))
    else if value ≠ -2 ^ 63 ∧ 100000 < value.natAbs then .error .overflow
    else .ok (value, after)) ≠ .error .aborts := by
    intro value after
    split
    · simp
    · split
      · simp
      · simp
  cases rest with
  | nil => simp [optionalExponent]
  | cons letter rest =>
    rw [optionalExponent]
    split
    · unfold scanExponent
      simp only
      split
      · simp
      · exact answers _ _
    · simp

def numberDec (minus : Bool) (digits : List Nat) (places : Nat) (exponent : Int) : Dec :=
  { neg := minus
    digits := digits ++ List.replicate (-((places : Int) - exponent)).toNat 0
    scale := ((places : Int) - exponent).toNat : Dec }.normalize

section Numbers

variable {t : List Char} {minus : Bool} {digits : List Nat} {places : Nat} {exponent : Int}

theorem NumberText.scanned (number : NumberText false t minus digits places exponent) :
    ∃ exp, splitSign t = (minus, (splitSign t).2) ∧
      scanDigits (splitSign t).2 false false =
        { digits := digits, scale := places, seenDigit := true, rest := exp } ∧
      optionalExponent exp = expAnswer exponent := by
  obtain ⟨sign, body, exp, rfl, isSign, isBody, isExp⟩ := number.parts
  have split := splitSign_sign isSign (isBody.plain number.present exp)
  have scan := scanDigits_body isBody isExp.ends
  have present : digits.isEmpty = false := List.isEmpty_eq_false_iff.mpr number.present
  rw [present] at scan
  refine ⟨exp, ?_, ?_, optionalExponent_text isExp⟩
  · rw [split]
  · rw [split]
    exact scan

theorem NumberText.readDec (number : NumberText false t minus digits places exponent) :
    readDec t = (expAnswer exponent).bind (fun _ =>
      if exponent = -2 ^ 63 then .error .aborts
      else .ok (numberDec minus digits places exponent)) := by
  obtain ⟨exp, split, scan, answer⟩ := number.scanned
  have isMinus : (splitSign t).1 = minus := congrArg Prod.fst split
  unfold NoidaDb.Sql.readDec
  simp only [scan, answer, isMinus, Bool.true_eq_false, if_false]
  unfold expAnswer
  split
  · rfl
  · split
    · rfl
    · rfl

theorem number_of_readDec (answered : (∃ d, readDec t = .ok d) ∨ readDec t = .error .aborts) :
    ∃ minus digits places exponent, NumberText false t minus digits places exponent := by
  obtain ⟨sign, isText, isSign⟩ := splitSign_text t
  obtain ⟨body, isRest, isBody, seen⟩ := body_scanDigits (splitSign t).2 false false
  rw [Bool.false_or] at seen
  unfold readDec at answered
  simp only at answered
  generalize scanDigits (splitSign t).2 false false = scan at answered isRest isBody seen
  cases noDigit : scan.seenDigit with
  | false =>
    rw [noDigit, if_pos rfl] at answered
    rcases answered with ⟨d, isOk⟩ | isAborts
    · cases isOk
    · cases isAborts
  | true =>
    rw [noDigit, if_neg (by decide)] at answered
    have present : scan.digits ≠ [] := by
      intro isEmpty
      rw [isEmpty, noDigit] at seen
      cases seen
    cases scanned : optionalExponent scan.rest with
    | error failure =>
      rw [scanned] at answered
      rcases answered with ⟨d, isOk⟩ | isAborts
      · cases isOk
      · have isFailure : failure = .aborts := Except.error.inj isAborts
        rw [isFailure] at scanned
        exact (optionalExponent_notAborts _ scanned).elim
    | ok exp =>
      by_cases whole : exp.2 = []
      · have isExp : optionalExponent scan.rest = .ok (exp.1, []) := by rw [scanned, ← whole]
        exact ⟨(splitSign t).1, scan.digits, scan.scale, exp.1,
          ⟨sign, body, scan.rest, by rw [← isRest]; exact isText, isSign, isBody,
            (expText_of_scan isExp).1⟩, present⟩
      · exfalso
        rw [scanned] at answered
        have failed : ∀ x : Except NumError Dec,
            (Except.ok exp >>= fun exp => if exp.2 ≠ [] then .error .syntaxError else x) =
              .error .syntaxError := fun x => if_pos whole
        simp only [bind, Except.bind, if_pos whole] at answered
        rcases answered with ⟨d, isOk⟩ | isAborts
        · cases isOk
        · cases isAborts

theorem NumberText.unique (number : NumberText false t minus digits places exponent)
    (small : exponent.natAbs ≤ 100000) {minus' : Bool} {digits' : List Nat} {places' : Nat}
    {exponent' : Int} (number' : NumberText false t minus' digits' places' exponent')
    (small' : exponent'.natAbs ≤ 100000) :
    minus = minus' ∧ digits = digits' ∧ places = places' ∧ exponent = exponent' := by
  obtain ⟨exp, split, scan, answer⟩ := number.scanned
  obtain ⟨exp', split', scan', answer'⟩ := number'.scanned
  rw [scan] at scan'
  injection scan' with isDigits isPlaces _ isExp
  have within : ∀ e : Int, e.natAbs ≤ 100000 → expAnswer e = .ok (e, []) := by
    intro e atMost
    unfold expAnswer
    rw [if_neg (by omega), if_neg (by omega)]
  rw [isExp, answer', within _ small, within _ small'] at answer
  refine ⟨?_, isDigits, isPlaces, ?_⟩
  · have same := split.symm.trans split'
    exact congrArg Prod.fst same
  · exact (congrArg Prod.fst (Except.ok.inj answer)).symm

end Numbers

theorem Body.lenient {after : Bool} {text : List Char} {digits : List Nat} {places : Nat}
    (isBody : Body true after point text digits places) {after' : Bool}
    (allowed : after = true → after' = true) : Body false after' point text digits places := by
  induction isBody generalizing after' with
  | done after point => exact .done _ _
  | digit isDigit tail ih => exact .digit isDigit (ih (fun _ => rfl))
  | point tail ih =>
    apply Body.point
    apply ih
    simp
  | underscore isDigit tail ih =>
    rw [allowed rfl]
    exact .underscore isDigit (ih (fun _ => rfl))

theorem Body.strict {after : Bool} {text : List Char} {digits : List Nat} {places : Nat}
    (isBody : Body false after point text digits places) (none : ¬ ['.', '_'] <:+: text ++ rest)
    {after' : Bool} (allowed : after' = after ∨ text.head? ≠ some '_') :
    Body true after' point text digits places := by
  induction isBody generalizing after' with
  | done after point => exact .done _ _
  | @digit after point c text digits places isDigit tail ih =>
    apply Body.digit isDigit
    apply ih _ (.inl rfl)
    exact fun infix' => none (List.infix_cons infix')
  | @point after text digits places tail ih =>
    apply Body.point
    apply ih (fun infix' => none (List.infix_cons infix'))
    right
    intro isHead
    apply none
    cases text with
    | nil => cases isHead
    | cons c text =>
      cases isHead
      exact ⟨[], text ++ rest, rfl⟩
  | @underscore point c text digits places isDigit tail ih =>
    have isAfter : after' = true := by
      rcases allowed with same | notHead
      · exact same
      · exact (notHead rfl).elim
    rw [isAfter]
    apply Body.underscore isDigit
    apply ih _ (.inl rfl)
    exact fun infix' => none (List.infix_cons infix')

theorem Body.head {text : List Char} {digits : List Nat} {places : Nat}
    (isBody : Body true false point text digits places) : text.head? ≠ some '_' := by
  intro isHead
  cases isBody with
  | done => cases isHead
  | digit isDigit tail =>
    cases isHead
    cases isDigit
  | point tail => cases isHead

theorem Body.noInfix {after : Bool} {text : List Char} {digits : List Nat} {places : Nat}
    (isBody : Body true after point text digits places) (none : ¬ ['.', '_'] <:+: rest)
    (plain : rest.head? ≠ some '_') : ¬ ['.', '_'] <:+: text ++ rest := by
  induction isBody with
  | done after point => exact none
  | @digit after point c text digits places isDigit tail ih =>
    intro infix'
    rcases List.infix_cons_iff.mp infix' with ⟨left, isPrefix⟩ | later
    · rw [← (List.cons.inj isPrefix).1] at isDigit
      cases isDigit
    · exact ih later
  | @point after text digits places tail ih =>
    intro infix'
    rcases List.infix_cons_iff.mp infix' with ⟨left, isPrefix⟩ | later
    · have isRest : text ++ rest = '_' :: left := (List.cons.inj isPrefix).2.symm
      have tail : Body true false true text digits places := by simpa using tail
      cases text with
      | nil =>
        apply plain
        have isRest : rest = '_' :: left := isRest
        rw [isRest]
        rfl
      | cons c text =>
        apply tail.head
        rw [(List.cons.inj isRest).1]
        rfl
    · exact ih later
  | @underscore point c text digits places isDigit tail ih =>
    intro infix'
    rcases List.infix_cons_iff.mp infix' with ⟨left, isPrefix⟩ | later
    · exact absurd (List.cons.inj isPrefix).1 (by decide)
    · exact ih later

theorem Body.mem_digit {strict after : Bool} {text : List Char} {digits : List Nat} {places : Nat}
    (isBody : Body strict after point text digits places) (present : digits ≠ []) :
    ∃ c ∈ text, isDigit c = true := by
  induction isBody with
  | done after point => exact (present rfl).elim
  | digit isDigit tail ih => exact ⟨_, List.mem_cons_self, isDigit⟩
  | point tail ih =>
    obtain ⟨c, inText, digit⟩ := ih present
    exact ⟨c, List.mem_cons_of_mem _ inText, digit⟩
  | underscore isDigit tail ih =>
    obtain ⟨c, inText, digit⟩ := ih present
    exact ⟨c, List.mem_cons_of_mem _ inText, digit⟩

theorem Body.digits_below {strict after : Bool} {text : List Char} {digits : List Nat}
    {places : Nat} (isBody : Body strict after point text digits places) :
    ∀ d ∈ digits, d < 10 := by
  induction isBody with
  | done after point => simp
  | digit isDigit tail ih =>
    exact List.forall_mem_cons.mpr ⟨JsonGrammar.digitOf_lt isDigit, ih⟩
  | point tail ih => exact ih
  | underscore isDigit tail ih => exact ih

theorem ExpText.noPoint {exponent : Int} (isExp : ExpText exp exponent) : '.' ∉ exp := by
  intro member
  cases isExp with
  | empty => cases member
  | written isLetter isSign present digits =>
    rcases List.mem_cons.mp member with isPoint | member
    · rcases isLetter with rfl | rfl
      · cases isPoint
      · cases isPoint
    · rcases List.mem_append.mp member with inSign | inDigits
      · cases isSign with
        | empty => cases inSign
        | plus => simp at inSign
        | minus => simp at inSign
      · exact absurd (digits '.' inDigits) (by decide)

section Numbers

variable {t : List Char} {minus : Bool} {digits : List Nat} {places : Nat} {exponent : Int}

theorem NumberText.lenient (number : NumberText true t minus digits places exponent) :
    NumberText false t minus digits places exponent := by
  obtain ⟨sign, body, exp, isText, isSign, isBody, isExp⟩ := number.parts
  exact ⟨⟨sign, body, exp, isText, isSign, isBody.lenient id, isExp⟩, number.present⟩

theorem NumberText.strict_iff (number : NumberText false t minus digits places exponent) :
    NumberText true t minus digits places exponent ↔ ¬ ['.', '_'] <:+: t := by
  have sameInfix : ∀ {sign rest : List Char} {minus : Bool}, SignText sign minus →
      (['.', '_'] <:+: sign ++ rest ↔ ['.', '_'] <:+: rest) := by
    intro sign rest minus isSign
    have skip : ∀ c, c ≠ '.' → (['.', '_'] <:+: c :: rest ↔ ['.', '_'] <:+: rest) := by
      intro c notPoint
      rw [List.infix_cons_iff]
      refine or_iff_right ?_
      rintro ⟨left, isPrefix⟩
      exact notPoint (List.cons.inj isPrefix).1.symm
    cases isSign with
    | empty => rfl
    | plus => exact skip '+' (by decide)
    | minus => exact skip '-' (by decide)
  constructor
  · intro strictly
    obtain ⟨sign, body, exp, rfl, isSign, isBody, isExp⟩ := strictly.parts
    rw [sameInfix isSign]
    apply isBody.noInfix
    · intro infix'
      exact isExp.noPoint (infix'.subset (by simp))
    · intro isHead
      exact (isExp.ends '_' isHead).2.2 rfl
  · intro none
    obtain ⟨sign, body, exp, rfl, isSign, isBody, isExp⟩ := number.parts
    rw [sameInfix isSign] at none
    exact ⟨⟨sign, body, exp, rfl, isSign, isBody.strict none (.inl rfl), isExp⟩, number.present⟩

theorem numberDec_value (minus : Bool) (digits : List Nat) (places : Nat) (exponent : Int) (kept : Nat) :
    ({ numberDec minus digits places exponent with scale := kept } : Dec).value =
      (if minus then -1 else 1) *
        ((numberOf 10 digits * 10 ^ (-((places : Int) - exponent)).toNat : Nat) / 10 ^ kept) := by
  have same : ({ numberDec minus digits places exponent with scale := kept } : Dec) =
      { neg := minus
        digits := digits ++ List.replicate (-((places : Int) - exponent)).toNat 0
        scale := kept : Dec }.normalize := rfl
  rw [same, Dec.value_normalize]
  unfold Dec.value Dec.sign
  rw [numberOf_append_zeros]

theorem numberDec_value_exact (minus : Bool) (digits : List Nat) (places : Nat) (exponent : Int) :
    ({ numberDec minus digits places exponent with
      scale := ((places : Int) - exponent).toNat } : Dec).value =
      (if minus then -1 else 1) * (numberOf 10 digits * 10 ^ (exponent - places)) := by
  have power : (10 : Rat) ^ (exponent - places) =
      10 ^ (-((places : Int) - exponent)).toNat / 10 ^ ((places : Int) - exponent).toNat := by
    have split : exponent - places =
        ((-((places : Int) - exponent)).toNat : Int) - (((places : Int) - exponent).toNat : Int) := by
      omega
    rw [split, zpow_sub₀ (by norm_num), zpow_natCast, zpow_natCast]
  rw [numberDec_value, power]
  push_cast
  rw [mul_div_assoc]

theorem numberDec_kept_iff (minus : Bool) (digits : List Nat) (places : Nat) (exponent : Int) :
    ({ numberDec minus digits places exponent with
      scale := ((places : Int) - exponent).toNat % 2 ^ 32 } : Dec).value =
        (if minus then -1 else 1) * (numberOf 10 digits * 10 ^ (exponent - places)) ↔
      (numberOf 10 digits ≠ 0 → (places : Int) - exponent < 2 ^ 32) := by
  rw [← numberDec_value_exact, numberDec_value, numberDec_value]
  have sign : (if minus then (-1 : Rat) else 1) ≠ 0 := by
    cases minus with
    | true => norm_num
    | false => norm_num
  rw [mul_right_inj' sign]
  by_cases isZero : numberOf 10 digits = 0
  · simp [isZero]
  · have positive : ((numberOf 10 digits * 10 ^ (-((places : Int) - exponent)).toNat : Nat) : Rat) ≠ 0 := by
      exact_mod_cast Nat.mul_ne_zero isZero (Nat.pow_pos (by decide)).ne'
    rw [div_eq_mul_inv, div_eq_mul_inv, mul_right_inj' positive, inv_inj]
    constructor
    · intro same _
      have same : ((places : Int) - exponent).toNat % 2 ^ 32 = ((places : Int) - exponent).toNat :=
        pow_right_injective₀ (by norm_num) (by norm_num) same
      have below := Nat.mod_lt ((places : Int) - exponent).toNat (show 0 < 2 ^ 32 by decide)
      omega
    · intro fits
      have fits := fits isZero
      rw [Nat.mod_eq_of_lt (by omega)]

def readNumber (minus : Bool) (digits : List Nat) (places : Nat) (exponent : Int) : Numeric :=
  .fin { numberDec minus digits places exponent with
    scale := ((places : Int) - exponent).toNat % 2 ^ 32 }

theorem parse_number {s : List Char} (number : NumberText false (trim s) minus digits places exponent) :
    Numeric.parse s = (expAnswer exponent).bind (fun _ =>
      if exponent = -2 ^ 63 then .error .aborts
      else .ok (readNumber minus digits places exponent)) := by
  obtain ⟨sign, body, exp, isText, isSign, isBody, isExp⟩ := number.parts
  obtain ⟨c, inBody, digit⟩ := isBody.mem_digit number.present
  have inText : c ∈ trim s := by
    rw [isText]
    exact List.mem_append_right _ (List.mem_append_left _ inBody)
  rw [parse_of_digit inText digit, number.readDec]
  unfold expAnswer
  split
  · rfl
  · split
    · rfl
    · simp only [Except.bind]
      split
      · rfl
      · rfl

theorem parse_small {s : List Char} (number : NumberText false (trim s) minus digits places exponent)
    (small : exponent.natAbs ≤ 100000) :
    Numeric.parse s = .ok (readNumber minus digits places exponent) := by
  rw [parse_number number]
  unfold expAnswer
  rw [if_neg (by omega), if_neg (by omega)]
  show (if exponent = -2 ^ 63 then _ else _) = _
  rw [if_neg (by omega)]

theorem readNumber_amount :
    (readNumber minus digits places exponent).amount =
        .real ((if minus then -1 else 1) * (numberOf 10 digits * 10 ^ (exponent - places))) ↔
      (numberOf 10 digits ≠ 0 → (places : Int) - exponent < 2 ^ 32) := by
  rw [← numberDec_kept_iff minus]
  exact ⟨fun same => Amount.real.inj same, fun same => congrArg Amount.real same⟩

theorem readNumber_normal (below : ∀ d ∈ digits, d < 10) :
    (readNumber minus digits places exponent).Normal := by
  have normal : (numberDec minus digits places exponent).Normal := by
    apply Dec.normal_normalize
    intro d member
    rcases List.mem_append.mp member with inDigits | isZero
    · exact below d inDigits
    · rw [(List.mem_replicate.mp isZero).2]
      decide
  exact ⟨normal.magnitude, normal.zero⟩

end Numbers

theorem parse_cases {s : List Char} {answer : Except NumError Numeric} (isAnswer : Numeric.parse s = answer)
    (notFailed : (∃ n, answer = .ok n) ∨ answer = .error .aborts) :
    (∃ n, answer = .ok n ∧ n.Normal ∧ StandsFor (trim s) n.amount) ∨
      ∃ minus digits places exponent, NumberText false (trim s) minus digits places exponent := by
  unfold Numeric.parse at isAnswer
  simp only at isAnswer
  split at isAnswer
  · rename_i word
    exact .inl ⟨.nan, isAnswer.symm, trivial, .nan word⟩
  · split at isAnswer
    · rename_i word
      exact .inl ⟨.inf false, isAnswer.symm, trivial, .inf word⟩
    · split at isAnswer
      · rename_i word
        exact .inl ⟨.inf true, isAnswer.symm, trivial, .minusInf word⟩
      · right
        apply number_of_readDec
        rcases notFailed with ⟨n, rfl⟩ | rfl
        · cases read : readDec (trim s) with
          | ok d => exact .inl ⟨d, rfl⟩
          | error failure =>
            rw [read] at isAnswer
            cases isAnswer
        · cases read : readDec (trim s) with
          | ok d =>
            rw [read] at isAnswer
            cases isAnswer
          | error failure =>
            rw [read] at isAnswer
            right
            exact congrArg Except.error (Except.error.inj isAnswer)

theorem parse_word {s : List Char} {a : Amount} (stands : StandsFor (trim s) a) :
    (∃ n, Numeric.parse s = .ok n ∧ n.amount = a) ∨
      ∃ minus digits places exponent, NumberText true (trim s) minus digits places exponent ∧
        exponent.natAbs ≤ 100000 ∧
        a = .real ((if minus then -1 else 1) * (numberOf 10 digits * 10 ^ (exponent - places))) := by
  cases stands with
  | nan word =>
    refine .inl ⟨.nan, ?_, rfl⟩
    unfold Numeric.parse
    simp only [if_pos word]
  | inf word =>
    have notNan : (trim s).map Char.toLower ≠ "nan".toList := by
      intro isNan
      rw [isNan] at word
      revert word
      decide
    refine .inl ⟨.inf false, ?_, rfl⟩
    unfold Numeric.parse
    simp only [if_neg notNan, if_pos word]
  | minusInf word =>
    have notNan : (trim s).map Char.toLower ≠ "nan".toList := by
      intro isNan
      rw [isNan] at word
      revert word
      decide
    have notInf : (trim s).map Char.toLower ∉
        ["infinity".toList, "+infinity".toList, "inf".toList, "+inf".toList] := by
      intro isInf
      simp only [List.mem_cons, List.not_mem_nil, or_false] at isInf
      rcases isInf with same | same | same | same <;>
        · rw [same] at word
          revert word
          decide
    refine .inl ⟨.inf true, ?_, rfl⟩
    unfold Numeric.parse
    simp only [if_neg notNan, if_neg notInf, if_pos word]
  | number isNumber small => exact .inr ⟨_, _, _, _, isNumber, small, rfl⟩

theorem parsedRight_iff (s : List Char) : ParsedRight s ↔ Sound (trim s) := by
  constructor
  · intro right minus digits places exponent number
    constructor
    · rintro rfl
      apply right.answers
      rw [parse_number number]
      rfl
    · intro small
      obtain ⟨stands, _⟩ := right.sound _ (parse_small number small)
      generalize isAmount : (readNumber minus digits places exponent).amount = a at stands
      cases stands with
      | nan word => cases isAmount
      | inf word => cases isAmount
      | minusInf word => cases isAmount
      | number isNumber small' =>
        obtain ⟨rfl, rfl, rfl, rfl⟩ := number.unique small isNumber.lenient small'
        exact ⟨number.strict_iff.mp isNumber, readNumber_amount.mp isAmount⟩
  · intro sound
    refine ⟨?_, ?_, ?_⟩
    · intro n parsed
      rcases parse_cases parsed (.inl ⟨n, rfl⟩) with ⟨n', isOk, normal, stands⟩ | ⟨minus, digits, places, exponent, number⟩
      · cases isOk
        exact ⟨stands, normal⟩
      · obtain ⟨notLeast, kept⟩ := sound _ _ _ _ number
        have small : exponent.natAbs ≤ 100000 := by
          by_contra large
          rw [parse_number number] at parsed
          unfold expAnswer at parsed
          split at parsed
          · cases parsed
          · rw [if_pos ⟨notLeast, by omega⟩] at parsed
            cases parsed
        obtain ⟨noUnderscore, fits⟩ := kept small
        rw [parse_small number small] at parsed
        cases parsed
        rw [readNumber_amount.mpr fits]
        obtain ⟨sign, body, exp, _, _, isBody, _⟩ := number.parts
        exact ⟨.number (number.strict_iff.mpr noUnderscore) small, readNumber_normal isBody.digits_below⟩
    · intro a stands
      rcases parse_word stands with word | ⟨minus, digits, places, exponent, number, small, rfl⟩
      · exact word
      · obtain ⟨_, kept⟩ := sound _ _ _ _ number.lenient
        exact ⟨_, parse_small number.lenient small, readNumber_amount.mpr (kept small).2⟩
    · intro isAborts
      rcases parse_cases isAborts (.inr rfl) with ⟨n, isOk, _⟩ | ⟨minus, digits, places, exponent, number⟩
      · cases isOk
      · rw [parse_number number] at isAborts
        unfold expAnswer at isAborts
        split at isAborts
        · cases isAborts
        · split at isAborts
          · cases isAborts
          · have isAborts : (if exponent = -2 ^ 63 then (.error .aborts : Except NumError Numeric)
                else .ok (readNumber minus digits places exponent)) = .error .aborts := isAborts
            rw [if_neg (sound _ _ _ _ number).1] at isAborts
            cases isAborts

theorem parse_show {n : Numeric} (normal : n.Normal)
    (fits : ∀ d, n = .fin d → d.scale < 2 ^ 32 ∧ d.hidden = 0) : Numeric.parse n.show = .ok n := by
  cases n with
  | nan => decide
  | inf neg =>
    cases neg with
    | true => decide
    | false => decide
  | fin d =>
    obtain ⟨scale, hidden⟩ := fits d rfl
    obtain ⟨x, wellFormed, isText, means⟩ :=
      JsonGrammar.show_text (v := .fin d) ⟨normal.magnitude, normal.zero, scale, hidden⟩
    rw [isText, JsonGrammar.parse_text wellFormed]
    exact means

/-- Numerics are read back as they were printed, and a text is read right just if it is sound. -/
theorem text_exact (n : Numeric) (s : List Char) :
    (n.Normal → (∀ d, n = .fin d → d.scale < 2 ^ 32 ∧ d.hidden = 0) →
      Numeric.parse n.show = .ok n) ∧
    (ParsedRight s ↔ Sound (trim s)) :=
  ⟨fun normal fits => parse_show normal fits, parsedRight_iff s⟩

theorem text_exact_half :
    Numeric.parse (Numeric.fin { neg := true, digits := [1, 5, 0], scale := 2 }).show =
        .ok (.fin { neg := true, digits := [1, 5, 0], scale := 2 }) ∧
      (ParsedRight "1_000.5".toList ↔ Sound (trim "1_000.5".toList)) := by
  have exact := text_exact (.fin { neg := true, digits := [1, 5, 0], scale := 2 }) "1_000.5".toList
  refine ⟨exact.1 ⟨⟨by decide, by decide⟩, by decide⟩ ?_, exact.2⟩
  intro d isFin
  cases isFin
  decide

theorem parse_underscoreAfterPoint : ¬ ∀ s, ParsedRight s := by
  intro claimed
  have sound := (parsedRight_iff "1._5".toList).mp (claimed _)
  have number : NumberText false "1._5".toList false [1, 5] 1 0 := by
    refine ⟨⟨[], "1._5".toList, [], rfl, .empty, ?_, .empty⟩, by decide⟩
    exact .digit (by decide) (.point (.underscore (by decide) (.digit (by decide) (.done _ _))))
  exact ((sound _ _ _ _ number).2 (by decide)).1 ⟨['1'], ['5'], rfl⟩

end NoidaDb.Sql.NumericText
