/-
Arithmetic of expressions, and SUM.

Integers stay integers, and other exact operands are computed as decimals, but for the
remainder, which goes through doubles.
-/

import NoidaDb.MySql.Comparisons
import NoidaDb.Sql.NumericDivision

namespace NoidaDb.MySql.Types

open Lib NoidaDb.Sql

inductive ArithOp where
  | add
  | sub
  | mul
  | div
  | mod
deriving Repr, DecidableEq

def ArithOp.symbol : ArithOp → String
  | .add => "+"
  | .sub => "-"
  | .mul => "*"
  | .div => "/"
  | .mod => "%"

structure Doubles where
  add : Amount → Amount → Amount
  sub : Amount → Amount → Amount
  mul : Amount → Amount → Amount
  div : Amount → Amount → Amount

def trunc (x : Rat) : Int := if 0 ≤ x then ⌊x⌋ else ⌈x⌉

def remainder (x y : Rat) : Rat := x - y * trunc (x / y)

/-- `%` of doubles, which does not round. -/
def Amount.rem : Amount → Amount → Amount
  | .real x, .real y => if y = 0 then .nan else .real (remainder x y)
  | .real x, .inf _ => .real x
  | _, _ => .nan

/-- Whether a number is an `i64`. -/
def fitsI64 (i : Int) : Bool := -2 ^ 63 ≤ i && i < 2 ^ 63

def bigintRangeError (op : ArithOp) (a b : Int) : MySqlError :=
  .error 1690 "22003" ("BIGINT value is out of range in '(" ++ toString a ++ " " ++ op.symbol ++
    " " ++ toString b ++ ")'")

section Evaluation

variable (r : Readers) (f : Doubles)

def quotientScale (shown scale : Nat) : Nat := min (max ((shown + 8) / 9 * 9) scale) 30

def exactArith (op : ArithOp) (a b : Numeric) : Value :=
  let da := a.displayScale
  let db := b.displayScale
  match op with
  | .add => .num ((a.add b).withDisplayScale (max da db))
  | .sub => .num ((a.sub b).withDisplayScale (max da db))
  | .mul => .num ((a.mul b).withDisplayScale (min ((da + db) % 2 ^ 32) 30))
  | .div =>
    if r.f64OfNumeric b = .real 0 then .null
    else
      let shown := min ((da + 4) % 2 ^ 32) 30
      match a.divScale b (quotientScale shown a.scale) false with
      | some v => .num (v.withDisplayScale shown)
      | none => .null
  | .mod =>
    let x := r.f64OfNumeric a
    let y := r.f64OfNumeric b
    if y = .real 0 then .null else .num (r.numericOfF64 (Amount.rem x y))

def floatArith (op : ArithOp) (a b : Amount) : Value :=
  match op with
  | .add => .float (f.add a b)
  | .sub => .float (f.sub a b)
  | .mul => .float (f.mul a b)
  | .div => if b = .real 0 then .null else .float (f.div a b)
  | .mod => if b = .real 0 then .null else .float (Amount.rem a b)

def checkedArith (op : ArithOp) (a b n : Int) : MyResult Value :=
  if fitsI64 n then .ok (.int n) else .error (bigintRangeError op a b)

def mixedArith (op : ArithOp) (l v : Value) : Value :=
  if l.isExact && v.isExact then
    match valueToNumeric r l, valueToNumeric r v with
    | some a, some b => exactArith r op a b
    | _, _ => .null
  else floatArith f op (valueToF64 r l) (valueToF64 r v)

/-- `none`: the process aborts. -/
def evalArith (op : ArithOp) (l v : Value) : Option (MyResult Value) :=
  if l.isNull || v.isNull then some (.ok .null)
  else
    match l, v with
    | .int a, .int b =>
      match op with
      | .add => some (checkedArith op a b (a + b))
      | .sub => some (checkedArith op a b (a - b))
      | .mul => some (checkedArith op a b (a * b))
      -- The quotient of the least integer and -1 overflows.
      | .mod =>
        if b = 0 then some (.ok .null)
        else if a = -2 ^ 63 ∧ b = -1 then none
        else some (.ok (.int (a.tmod b)))
      | .div => some (.ok (mixedArith r f op l v))
    | _, _ => some (.ok (mixedArith r f op l v))

def isInt : Value → Bool
  | .int _ => true
  | _ => false

def addInt (state : Int × Bool) : Value → Int × Bool
  | .int i => if fitsI64 (state.1 + i) then (state.1 + i, state.2) else (state.1, true)
  | _ => state

def sumInts (vals : List Value) : Int × Bool := vals.foldl addInt (0, false)

def addNumeric (state : Numeric × Nat) (v : Value) : Numeric × Nat :=
  match valueToNumeric r v with
  | some n => (state.1.add n, max state.2 n.displayScale)
  | none => state

def sumNumerics (vals : List Value) : Numeric × Nat :=
  vals.foldl (addNumeric r) (.fin (Dec.zero 0), 0)

/-- `compute_agg` for SUM. -/
def computeSum (vals : List Value) : Value :=
  let nonNull := vals.filter (fun v => !v.isNull)
  if nonNull.isEmpty then .null
  else if nonNull.any (fun v => !v.isExact) then
    .float ((nonNull.map (valueToF64 r)).foldl f.add (.real 0))
  else if nonNull.all isInt && !(sumInts nonNull).2 then .num (numericOfInt (sumInts nonNull).1)
  else .num ((sumNumerics r nonNull).1.withDisplayScale (sumNumerics r nonNull).2)

end Evaluation

def rational : Value → Rat
  | .int i => i
  | .bool b => if b then 1 else 0
  | .num (.fin d) => d.value
  | _ => 0

/-- An `Int`, a `Bool` or a finite `Num`. -/
def IsExact : Value → Prop
  | .int i => fitsI64 i = true
  | .bool _ => True
  | .num (.fin d) => d.Normal
  | _ => False

def decOfInt (i : Int) : Dec :=
  { neg := i < 0, digits := (Nat.digits 10 i.natAbs).reverse, scale := 0 }

def exactDec : Value → Dec
  | .int i => decOfInt i
  | .bool b => decOfInt (if b then 1 else 0)
  | .num (.fin d) => d
  | _ => Dec.zero 0

def bothInts (l v : Value) : Bool := isInt l && isInt v

theorem decOfInt_normal (i : Int) : (decOfInt i).Normal := numericOfInt_normal i

theorem decOfInt_value (i : Int) : (decOfInt i).value = i := by
  have magnitude : numberOf 10 (decOfInt i).digits = i.natAbs := by
    show numberOf 10 (Nat.digits 10 i.natAbs).reverse = _
    rw [numberOf_reverse, Nat.ofDigits_digits]
  have abs : ((i.natAbs : Nat) : Rat) = if i < 0 then -(i : Rat) else i := by
    rw [← Int.cast_natCast, Int.natCast_natAbs]
    split
    · rename_i isNeg
      rw [abs_of_neg isNeg, Int.cast_neg]
    · rename_i nonneg
      rw [abs_of_nonneg (not_lt.mp nonneg)]
  unfold Dec.value Dec.sign
  rw [magnitude, abs]
  show (if decide (i < 0) then (-1 : Rat) else 1) * ((if i < 0 then -(i : Rat) else i) / 10 ^ 0) = i
  by_cases isNeg : i < 0
  · simp [isNeg]
  · simp [isNeg]

section Exact

variable {v : Value}

theorem exactDec_normal (exact : IsExact v) : (exactDec v).Normal := by
  match v, exact with
  | .int i, _ => exact decOfInt_normal i
  | .bool b, _ => exact decOfInt_normal _
  | .num (.fin d), normal => exact normal

theorem exactDec_value (exact : IsExact v) : (exactDec v).value = rational v := by
  match v, exact with
  | .int i, _ => exact decOfInt_value i
  | .bool b, _ =>
    have isValue := decOfInt_value (if b then 1 else 0)
    cases b <;> exact isValue.trans (by norm_num [rational])
  | .num (.fin d), _ => rfl

theorem valueToNumeric_exact (r : Readers) (exact : IsExact v) :
    valueToNumeric r v = some (.fin (exactDec v)) := by
  match v, exact with
  | .int i, _ => rfl
  | .bool b, _ => rfl
  | .num (.fin d), _ => rfl

theorem isExact_of_exact (exact : IsExact v) : v.isExact = true ∧ v.isNull = false := by
  match v, exact with
  | .int i, _ => exact ⟨rfl, rfl⟩
  | .bool b, _ => exact ⟨rfl, rfl⟩
  | .num (.fin d), _ => exact ⟨rfl, rfl⟩

end Exact

theorem trunc_div (a b : Int) (some : b ≠ 0) : trunc ((a : Rat) / b) = a.tdiv b := by
  have positive : ∀ (a : Int) (n : Nat), 0 < n → trunc ((a : Rat) / (n : Int)) = a.tdiv n := by
    intro a n isPos
    have isPos : (0 : Rat) < (n : Int) := by exact_mod_cast isPos
    unfold trunc
    by_cases nonneg : 0 ≤ a
    · rw [if_pos (div_nonneg (by exact_mod_cast nonneg) isPos.le), Int.cast_natCast,
        Rat.floor_intCast_div_natCast, Int.tdiv_eq_ediv_of_nonneg nonneg]
    · have isNeg : a < 0 := not_le.mp nonneg
      have below : (a : Rat) / (n : Int) < 0 := div_neg_of_neg_of_pos (by exact_mod_cast isNeg) isPos
      rw [if_neg (not_le.mpr below), Int.cast_natCast, Rat.ceil_intCast_div_natCast,
        ← Int.tdiv_eq_ediv_of_nonneg (by omega), Int.neg_tdiv, neg_neg]
  rcases Int.lt_or_gt_of_ne some with isNeg | isPos
  · obtain ⟨n, isN⟩ := Int.eq_ofNat_of_zero_le (show 0 ≤ -b by omega)
    have isB : b = -(n : Int) := by omega
    have same : (a : Rat) / b = ((-a : Int) : Rat) / (n : Int) := by
      rw [isB]
      push_cast
      rw [div_neg, neg_div]
    rw [same, positive (-a) n (by omega), isB, Int.tdiv_neg, Int.neg_tdiv]
  · obtain ⟨n, isN⟩ := Int.eq_ofNat_of_zero_le (show 0 ≤ b by omega)
    rw [isN]
    exact positive a n (by omega)

theorem remainder_ints (a b : Int) (some : b ≠ 0) : remainder a b = (a.tmod b : Int) := by
  unfold remainder
  rw [trunc_div a b some, Int.tmod_def]
  push_cast
  ring

/-- The number that an operation means; `none` is NULL. -/
def exactResult (op : ArithOp) (x y : Rat) : Option Rat :=
  match op with
  | .add => some (x + y)
  | .sub => some (x - y)
  | .mul => some (x * y)
  | .div => if y = 0 then none else some (x / y)
  | .mod => if y = 0 then none else some (remainder x y)

def Answers (result : Option (MyResult Value)) (q : Rat) : Prop :=
  ∃ w, result = some (.ok w) ∧ IsExact w ∧ rational w = q

/-- The operation answers with its exact result, or with error 1690 if both operands are
integers and the result is none of 64 bits. -/
def ArithExact (r : Readers) (f : Doubles) (op : ArithOp) (l v : Value) : Prop :=
  match exactResult op (rational l) (rational v) with
  | none => evalArith r f op l v = some (.ok .null)
  | some q =>
    if bothInts l v = true ∧ ¬ (-2 ^ 63 ≤ q ∧ q < 2 ^ 63) then
      ∃ sqlState message, evalArith r f op l v = some (.error (.error 1690 sqlState message))
    else Answers (evalArith r f op l v) q

section Operations

variable (r : Readers) (f : Doubles) {op : ArithOp} {l v : Value}

theorem fitsI64_iff (i : Int) : fitsI64 i = true ↔ -2 ^ 63 ≤ (i : Rat) ∧ (i : Rat) < 2 ^ 63 := by
  have cast : ((2 ^ 63 : Int) : Rat) = 2 ^ 63 := by norm_num
  rw [← cast, ← Int.cast_neg, Int.cast_le, Int.cast_lt]
  simp [fitsI64]

theorem checkedArith_exact {a b n : Int} (isResult : exactResult op a b = some (n : Rat))
    (evaluates : evalArith r f op (.int a) (.int b) = some (checkedArith op a b n)) :
    ArithExact r f op (.int a) (.int b) := by
  unfold ArithExact
  rw [show exactResult op (rational (.int a)) (rational (.int b)) = some (n : Rat) from isResult,
    evaluates]
  unfold checkedArith
  show if _ then _ else _
  by_cases fits : fitsI64 n = true
  · rw [if_neg (fun out => out.2 ((fitsI64_iff n).mp fits)), if_pos fits]
    exact ⟨.int n, rfl, fits, rfl⟩
  · rw [if_pos ⟨rfl, fun within => fits ((fitsI64_iff n).mpr within)⟩, if_neg fits]
    exact ⟨_, _, rfl⟩

theorem evalArith_mixed (exactL : IsExact l) (exactV : IsExact v) (mixed : bothInts l v = false) :
    evalArith r f op l v =
      some (.ok (exactArith r op (.fin (exactDec l)) (.fin (exactDec v)))) := by
  have isMixed : evalArith r f op l v = some (.ok (mixedArith r f op l v)) := by
    unfold evalArith
    rw [(isExact_of_exact exactL).2, (isExact_of_exact exactV).2]
    split
    · contradiction
    · split
      · cases mixed
      · rfl
  rw [isMixed]
  unfold mixedArith
  rw [(isExact_of_exact exactL).1, (isExact_of_exact exactV).1, valueToNumeric_exact r exactL,
    valueToNumeric_exact r exactV]
  rfl

theorem mixed_exact_iff (exactL : IsExact l) (exactV : IsExact v) (mixed : bothInts l v = false)
    {q : Rat} (isResult : exactResult op (rational l) (rational v) = some q) {c : Dec}
    (normal : c.Normal) {display : Nat}
    (computed : exactArith r op (.fin (exactDec l)) (.fin (exactDec v)) =
      .num ((Numeric.fin c).withDisplayScale display)) :
    ArithExact r f op l v ↔ c.value = q := by
  obtain ⟨e, shown, normalE, valueE⟩ := withDisplayScale_exact normal display
  unfold ArithExact
  rw [isResult]
  show (if _ then _ else _) ↔ _
  rw [if_neg (by simp [mixed]), evalArith_mixed r f exactL exactV mixed, computed, shown, ← valueE]
  constructor
  · rintro ⟨w, isValue, _, isNumber⟩
    cases isValue
    exact isNumber
  · intro isNumber
    exact ⟨.num (.fin e), rfl, normalE, isNumber⟩

theorem ints_of_bothInts (ints : bothInts l v = true) : ∃ a b, l = .int a ∧ v = .int b := by
  cases l with
  | int a =>
    cases v with
    | int b => exact ⟨a, b, rfl, rfl⟩
    | _ => cases ints
  | _ => cases ints

theorem add_exact (exactL : IsExact l) (exactV : IsExact v) : ArithExact r f .add l v := by
  cases mixed : bothInts l v with
  | true =>
    obtain ⟨a, b, rfl, rfl⟩ := ints_of_bothInts mixed
    exact checkedArith_exact r f (congrArg some (Int.cast_add a b).symm) rfl
  | false =>
    obtain ⟨value, _, normal⟩ := addDec_exact (exactDec_normal exactL) (exactDec_normal exactV)
    apply (mixed_exact_iff r f exactL exactV mixed rfl normal rfl).mpr
    rw [value, exactDec_value exactL, exactDec_value exactV]

theorem sub_exact (exactL : IsExact l) (exactV : IsExact v) : ArithExact r f .sub l v := by
  cases mixed : bothInts l v with
  | true =>
    obtain ⟨a, b, rfl, rfl⟩ := ints_of_bothInts mixed
    exact checkedArith_exact r f (congrArg some (Int.cast_sub a b).symm) rfl
  | false =>
    obtain ⟨_, ⟨c, difference, value, _, normal⟩, _⟩ :=
      arithmetic_exact (exactDec_normal exactL) (exactDec_normal exactV)
    have computed : exactArith r .sub (.fin (exactDec l)) (.fin (exactDec v)) =
        .num ((Numeric.fin c).withDisplayScale
          (max (Numeric.fin (exactDec l)).displayScale (Numeric.fin (exactDec v)).displayScale)) := by
      rw [← difference]
      rfl
    apply (mixed_exact_iff r f exactL exactV mixed rfl normal computed).mpr
    rw [value, exactDec_value exactL, exactDec_value exactV]

theorem mul_ints_exact (ints : bothInts l v = true) : ArithExact r f .mul l v := by
  obtain ⟨a, b, rfl, rfl⟩ := ints_of_bothInts ints
  exact checkedArith_exact r f (congrArg some (Int.cast_mul a b).symm) rfl

theorem mul_exact_iff (exactL : IsExact l) (exactV : IsExact v) (mixed : bothInts l v = false) :
    ((exactDec l).scale + (exactDec v).scale ≤ 1000 →
      (ArithExact r f .mul l v ↔ ColumnsFit (exactDec l).digits (exactDec v).digits)) ∧
    (1000 < (exactDec l).scale + (exactDec v).scale →
      (exactDec l).scale + (exactDec v).scale < 2 ^ 32 →
      ColumnsFit (exactDec l).digits (exactDec v).digits →
      (ArithExact r f .mul l v ↔
        roundAway (rational l * rational v) 1000 = rational l * rational v)) := by
  obtain ⟨_, _, _, _, c, product, normal, small, large⟩ :=
    arithmetic_exact (exactDec_normal exactL) (exactDec_normal exactV)
  have computed : exactArith r .mul (.fin (exactDec l)) (.fin (exactDec v)) =
      .num ((Numeric.fin c).withDisplayScale (min (((Numeric.fin (exactDec l)).displayScale +
        (Numeric.fin (exactDec v)).displayScale) % 2 ^ 32) 30)) := by
    rw [← product]
    rfl
  have exactly := mixed_exact_iff r f exactL exactV mixed rfl normal computed
  rw [exactDec_value exactL, exactDec_value exactV] at small large
  constructor
  · intro few
    rw [exactly]
    exact (small few).2
  · intro many fits columns
    rw [exactly, (large many fits columns).2]

theorem mod_ints_exact_iff (exactL : IsExact l) (exactV : IsExact v) (ints : bothInts l v = true) :
    ArithExact r f .mod l v ↔ ¬ (rational l = -2 ^ 63 ∧ rational v = -1) := by
  obtain ⟨a, b, rfl, rfl⟩ := ints_of_bothInts ints
  have isLeast : (rational (.int a) = -2 ^ 63 ∧ rational (.int b) = -1) ↔
      (a = -2 ^ 63 ∧ b = -1) := by
    show ((a : Rat) = -2 ^ 63 ∧ (b : Rat) = -1) ↔ _
    constructor
    · rintro ⟨isA, isB⟩
      exact ⟨by exact_mod_cast isA, by exact_mod_cast isB⟩
    · rintro ⟨rfl, rfl⟩
      exact ⟨by norm_num, by norm_num⟩
  rw [isLeast]
  have evaluates : evalArith r f .mod (.int a) (.int b) =
      if b = 0 then some (.ok .null)
      else if a = -2 ^ 63 ∧ b = -1 then none
      else some (.ok (.int (a.tmod b))) := rfl
  unfold ArithExact
  rw [evaluates]
  by_cases isZero : b = 0
  · have isNone : exactResult .mod (rational (.int a)) (rational (.int b)) = none := by
      rw [isZero]
      rfl
    rw [isNone, if_pos isZero]
    exact ⟨fun _ least => by omega, fun _ => rfl⟩
  · have isSome : exactResult .mod (rational (.int a)) (rational (.int b)) =
        some ((a.tmod b : Int) : Rat) := by
      have notZero : rational (.int b) ≠ 0 := by
        show (b : Rat) ≠ 0
        exact_mod_cast isZero
      rw [← remainder_ints a b isZero]
      exact if_neg notZero
    have fits : fitsI64 (a.tmod b) = true := by
      have within : fitsI64 a = true := exactL
      have small : (a.tmod b).natAbs ≤ a.natAbs := by
        rw [Int.natAbs_tmod]
        exact Nat.mod_le _ _
      have sign : a < 0 → a.tmod b ≤ 0 := by
        intro isNeg
        have nonneg := Int.tmod_nonneg b (show 0 ≤ -a by omega)
        rw [Int.neg_tmod] at nonneg
        omega
      unfold fitsI64 at within ⊢
      rw [Bool.and_eq_true, decide_eq_true_iff, decide_eq_true_iff] at within ⊢
      generalize a.tmod b = m at small sign ⊢
      omega
    rw [isSome, if_neg isZero]
    show (if _ then _ else _) ↔ _
    rw [if_neg (fun out => out.2 ((fitsI64_iff _).mp fits))]
    by_cases least : a = -2 ^ 63 ∧ b = -1
    · rw [if_pos least]
      constructor
      · rintro ⟨w, answered, _⟩
        cases answered
      · intro notLeast
        exact (notLeast least).elim
    · rw [if_neg least]
      exact ⟨fun _ => least, fun _ => ⟨_, rfl, fits, rfl⟩⟩

/-- A remainder by zero is NULL whatever becomes of the other operand. -/
theorem mod_mixed_zero (exactL : IsExact l) (exactV : IsExact v) (mixed : bothInts l v = false)
    (isZero : rational v = 0) (isV : r.f64OfNumeric (.fin (exactDec v)) = .real 0) :
    ArithExact r f .mod l v := by
  have computed : exactArith r .mod (.fin (exactDec l)) (.fin (exactDec v)) = .null := by
    unfold exactArith
    simp only [isV, if_true]
  have isNone : exactResult .mod (rational l) (rational v) = none := if_pos isZero
  unfold ArithExact
  rw [evalArith_mixed r f exactL exactV mixed, computed, isNone]

theorem mod_mixed_exact (exactL : IsExact l) (exactV : IsExact v) (mixed : bothInts l v = false)
    (notZero : rational v ≠ 0)
    (isL : r.f64OfNumeric (.fin (exactDec l)) = .real (rational l))
    (isV : r.f64OfNumeric (.fin (exactDec v)) = .real (rational v))
    (number : (r.numericOfF64 (.real (remainder (rational l) (rational v)))).amount =
      .real (remainder (rational l) (rational v))) :
    ArithExact r f .mod l v := by
  have computed : exactArith r .mod (.fin (exactDec l)) (.fin (exactDec v)) =
      if Amount.real (rational v) = .real 0 then .null
      else .num (r.numericOfF64 (Amount.rem (.real (rational l)) (.real (rational v)))) := by
    unfold exactArith
    simp only [isL, isV]
  have isSome : exactResult .mod (rational l) (rational v) =
      some (remainder (rational l) (rational v)) := if_neg notZero
  have isRem : Amount.rem (.real (rational l)) (.real (rational v)) =
      .real (remainder (rational l) (rational v)) := if_neg notZero
  unfold ArithExact
  rw [evalArith_mixed r f exactL exactV mixed, computed, isSome,
    if_neg (fun same => notZero (Amount.real.inj same)), isRem]
  show if _ then _ else _
  rw [if_neg (by simp [mixed])]
  have normal := r.numericOfF64_normal (.real (remainder (rational l) (rational v)))
  cases converted : r.numericOfF64 (.real (remainder (rational l) (rational v))) with
  | nan =>
    rw [converted] at number
    cases number
  | inf neg =>
    rw [converted] at number
    cases number
  | fin d =>
    rw [converted] at number normal
    exact ⟨_, rfl, normal, Amount.real.inj number⟩

end Operations

section Sums

variable (r : Readers) (f : Doubles)

variable {vals : List Value}

theorem sumInts_loop (ints : vals.all isInt = true) (state : Int × Bool)
    (noOverflow : (vals.foldl addInt state).2 = false) :
    state.2 = false ∧ ((vals.foldl addInt state).1 : Rat) = state.1 + (vals.map rational).sum := by
  induction vals generalizing state with
  | nil => exact ⟨noOverflow, by simp⟩
  | cons v rest ih =>
    obtain ⟨isInt, ints⟩ := Bool.and_eq_true_iff.mp ints
    obtain ⟨i, rfl⟩ : ∃ i, v = .int i := by
      cases v with
      | int i => exact ⟨i, rfl⟩
      | _ => cases isInt
    rw [List.foldl_cons] at noOverflow ⊢
    by_cases fits : fitsI64 (state.1 + i) = true
    · have stepped : addInt state (.int i) = (state.1 + i, state.2) := if_pos fits
      rw [stepped] at noOverflow ⊢
      obtain ⟨notYet, sum⟩ := ih ints _ noOverflow
      refine ⟨notYet, sum.trans ?_⟩
      rw [List.map_cons, List.sum_cons]
      show ((state.1 + i : Int) : Rat) + _ = _ + ((i : Rat) + _)
      push_cast
      ring
    · have stepped : addInt state (.int i) = (state.1, true) := if_neg fits
      rw [stepped] at noOverflow
      cases (ih ints _ noOverflow).1

theorem sumNumerics_loop (exact : ∀ v ∈ vals, IsExact v) {d : Dec} (normal : d.Normal) (m : Nat) :
    ∃ e m', vals.foldl (addNumeric r) (.fin d, m) = (.fin e, m') ∧ e.Normal ∧
      e.value = d.value + (vals.map rational).sum := by
  induction vals generalizing d m with
  | nil => exact ⟨d, m, rfl, normal, by simp⟩
  | cons v rest ih =>
    have exactV := exact v List.mem_cons_self
    obtain ⟨value, _, normalSum⟩ := addDec_exact normal (exactDec_normal exactV)
    obtain ⟨e, m', folded, normalE, sum⟩ := ih
      (fun w isIn => exact w (List.mem_cons_of_mem v isIn)) normalSum
      (max m (Numeric.fin (exactDec v)).displayScale)
    refine ⟨e, m', ?_, normalE, ?_⟩
    · have stepped : addNumeric r (.fin d, m) v =
          (.fin (addDec d (exactDec v)), max m (Numeric.fin (exactDec v)).displayScale) := by
        unfold addNumeric
        rw [valueToNumeric_exact r exactV]
        rfl
      rw [List.foldl_cons, stepped, folded]
    · rw [sum, value, exactDec_value exactV, List.map_cons, List.sum_cons]
      ring

theorem computeSum_exact (exact : ∀ v ∈ vals, v = .null ∨ IsExact v) :
    (computeSum r f vals = .null ∧ ∀ v ∈ vals, v = .null) ∨
      ∃ d, computeSum r f vals = .num (.fin d) ∧ d.Normal ∧ d.value = (vals.map rational).sum := by
  have nonNull : ∀ v ∈ vals.filter (fun v => !v.isNull), IsExact v := by
    intro v isIn
    obtain ⟨isIn, notNull⟩ := List.mem_filter.mp isIn
    rcases exact v isIn with rfl | isExact
    · cases notNull
    · exact isExact
  have sameSum : ((vals.filter (fun v => !v.isNull)).map rational).sum = (vals.map rational).sum := by
    clear nonNull
    induction vals with
    | nil => rfl
    | cons v rest ih =>
      have ih := ih (fun w isIn => exact w (List.mem_cons_of_mem v isIn))
      cases isNull : v.isNull with
      | true =>
        have isZero : rational v = 0 := by
          cases v <;> first | rfl | cases isNull
        rw [List.filter_cons, isNull, List.map_cons, List.sum_cons, isZero, zero_add]
        exact ih
      | false =>
        rw [List.filter_cons, isNull]
        show ((v :: _).map rational).sum = _
        rw [List.map_cons, List.sum_cons, List.map_cons, List.sum_cons, ih]
  have allExact : (vals.filter (fun v => !v.isNull)).any (fun v => !v.isExact) = false := by
    rw [List.any_eq_false]
    intro v isIn
    simp [(isExact_of_exact (nonNull v isIn)).1]
  unfold computeSum
  simp only [allExact]
  cases isEmpty : (vals.filter (fun v => !v.isNull)).isEmpty with
  | true =>
    refine .inl ⟨rfl, ?_⟩
    intro v isIn
    by_contra notNull
    have kept : v ∈ vals.filter (fun v => !v.isNull) := by
      apply List.mem_filter.mpr
      refine ⟨isIn, ?_⟩
      cases v <;> first | rfl | exact (notNull rfl).elim
    rw [List.isEmpty_iff.mp isEmpty] at kept
    cases kept
  | false =>
    right
    cases whole : (vals.filter (fun v => !v.isNull)).all isInt &&
        !(sumInts (vals.filter (fun v => !v.isNull))).2 with
    | true =>
      obtain ⟨ints, noOverflow⟩ := Bool.and_eq_true_iff.mp whole
      have summed := (sumInts_loop ints (0, false) ((Bool.not_eq_true' _).mp noOverflow)).2
      refine ⟨decOfInt _, rfl, decOfInt_normal _, ?_⟩
      rw [decOfInt_value, ← sameSum]
      exact summed.trans (by simp)
    | false =>
      obtain ⟨e, m, folded, normal, sum⟩ := sumNumerics_loop r nonNull
        (show (Dec.zero 0).Normal from ⟨magnitude_nil, fun _ => rfl⟩) 0
      obtain ⟨shown, isShown, normalShown, value⟩ := withDisplayScale_exact normal m
      refine ⟨shown, ?_, normalShown, ?_⟩
      · show Value.num ((sumNumerics r _).1.withDisplayScale (sumNumerics r _).2) = _
        rw [show sumNumerics r (vals.filter (fun v => !v.isNull)) = (.fin e, m) from folded,
          isShown]
      · rw [value, sum, sameSum]
        simp [Dec.value, Dec.zero]

end Sums

/-- When results are exact: sums and differences always, products and remainders under conditions on
their lengths, quotients and roundings. -/
theorem arithmetic_exact_conditions (r : Readers) (f : Doubles) :
    (∀ l v, IsExact l → IsExact v →
      ArithExact r f .add l v ∧ ArithExact r f .sub l v ∧
      (bothInts l v = true → ArithExact r f .mul l v ∧
        (ArithExact r f .mod l v ↔ ¬ (rational l = -2 ^ 63 ∧ rational v = -1))) ∧
      (bothInts l v = false →
        ((exactDec l).scale + (exactDec v).scale ≤ 1000 →
          (ArithExact r f .mul l v ↔ ColumnsFit (exactDec l).digits (exactDec v).digits)) ∧
        (1000 < (exactDec l).scale + (exactDec v).scale →
          (exactDec l).scale + (exactDec v).scale < 2 ^ 32 →
          ColumnsFit (exactDec l).digits (exactDec v).digits →
          (ArithExact r f .mul l v ↔
            roundAway (rational l * rational v) 1000 = rational l * rational v)) ∧
        (rational v = 0 → r.f64OfNumeric (.fin (exactDec v)) = .real 0 → ArithExact r f .mod l v) ∧
        (rational v ≠ 0 → r.f64OfNumeric (.fin (exactDec l)) = .real (rational l) →
          r.f64OfNumeric (.fin (exactDec v)) = .real (rational v) →
          (r.numericOfF64 (.real (remainder (rational l) (rational v)))).amount =
            .real (remainder (rational l) (rational v)) →
          ArithExact r f .mod l v))) ∧
    ∀ vals, (∀ v ∈ vals, v = .null ∨ IsExact v) →
      (computeSum r f vals = .null ∧ ∀ v ∈ vals, v = .null) ∨
        ∃ d, computeSum r f vals = .num (.fin d) ∧ d.Normal ∧
          d.value = (vals.map rational).sum := by
  constructor
  · intro l v exactL exactV
    refine ⟨add_exact r f exactL exactV, sub_exact r f exactL exactV, ?_, ?_⟩
    · intro ints
      exact ⟨mul_ints_exact r f ints, mod_ints_exact_iff r f exactL exactV ints⟩
    · intro mixed
      obtain ⟨few, many⟩ := mul_exact_iff r f exactL exactV mixed
      exact ⟨few, many, mod_mixed_zero r f exactL exactV mixed,
        mod_mixed_exact r f exactL exactV mixed⟩
  · intro vals exact
    exact computeSum_exact r f exact

def nanDoubles : Doubles where
  add _ _ := .nan
  sub _ _ := .nan
  mul _ _ := .nan
  div _ _ := .nan

theorem arithmetic_exact_conditions_seven :
    ArithExact upperAndLower nanDoubles .mod (.int 7) (.int (-3)) := by
  have ints := ((arithmetic_exact_conditions upperAndLower nanDoubles).1 (.int 7) (.int (-3))
    (rfl : fitsI64 7 = true) (rfl : fitsI64 (-3) = true)).2.2.1 rfl
  apply ints.2.mpr
  norm_num [rational]

/-- The least integer `% -1`. -/
theorem evalArith_aborts :
    ¬ ∀ (r : Readers) (f : Doubles) (l v : Value), IsExact l → IsExact v →
      (evalArith r f .mod l v).isSome = true := by
  intro claimed
  have answered := claimed upperAndLower nanDoubles (.int (-2 ^ 63)) (.int (-1))
    (rfl : fitsI64 (-2 ^ 63) = true) (rfl : fitsI64 (-1) = true)
  have aborts : evalArith upperAndLower nanDoubles .mod (.int (-2 ^ 63)) (.int (-1)) = none := rfl
  rw [aborts] at answered
  cases answered

end NoidaDb.MySql.Types
