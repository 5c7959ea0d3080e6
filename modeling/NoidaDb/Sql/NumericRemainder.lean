/-
The remainder of numerics: through a truncated quotient, a product and a difference.

The product is rounded to 1000 places.
-/

import NoidaDb.Sql.NumericDivision

namespace NoidaDb.Sql

open Lib

namespace Numeric

/-- `div(a, b)`: the whole quotient. -/
def divTrunc (a b : Numeric) : Option Numeric := a.divScale b 0 true

/-- `a % b`. -/
def rem (a b : Numeric) : Except NumError Numeric :=
  match a, b with
  | fin x, fin y =>
    if y.isZero then .error .divByZero
    else .ok ((fin x).sub ((fin (divDec x y 0 true)).mul (fin y)))
  | nan, _ => .ok nan
  | _, nan => .ok nan
  | inf _, _ => .ok nan
  | fin x, inf _ => .ok (fin x)

end Numeric

section Remainder

variable {a b : Dec}

structure DividesWithRest (a b q r : Dec) : Prop where
  whole : ∃ i : Int, q.value = i
  sum : a.value = q.value * b.value + r.value
  less : |r.value| < |b.value|
  sign : r.value = 0 ∨ 0 < r.value * a.value

def RemainderLaw (a b : Dec) : Prop :=
  ∃ q r, (Numeric.fin a).divTrunc (.fin b) = some (.fin q) ∧
    (Numeric.fin a).rem (.fin b) = .ok (.fin r) ∧ DividesWithRest a b q r

def quotientDigits (a b : Dec) : List Nat :=
  (Nat.digits 10 (truncInt (a.value / b.value)).natAbs).reverse

def ProductKept (a b : Dec) : Prop :=
  ∃ i : Int, truncInt (a.value / b.value) * b.value = i / 10 ^ 1000

variable (normalA : a.Normal) (normalB : b.Normal) (notZero : b.isZero = false)

include normalA normalB notZero

theorem wholeQuotient :
    (divDec a b 0 true).value = truncInt (a.value / b.value) ∧ (divDec a b 0 true).scale = 0 ∧
      (divDec a b 0 true).Normal ∧ (divDec a b 0 true).digits = quotientDigits a b := by
  obtain ⟨value, scale, normal⟩ :=
    divDec_exact normalA normalB notZero (Int.le_refl 0) (by decide) true
  have scale : (divDec a b 0 true).scale = 0 := by omega
  have value : (divDec a b 0 true).value = truncInt (a.value / b.value) := by
    rw [value]
    unfold roundAt wholeInt
    rw [zpow_zero, mul_one, div_one]
    rfl
  refine ⟨value, scale, normal, ?_⟩
  have number : numberOf 10 (divDec a b 0 true).digits = (truncInt (a.value / b.value)).natAbs := by
    have magnitude := abs_value (divDec a b 0 true)
    rw [value, scale, pow_zero, div_one] at magnitude
    have magnitude : ((truncInt (a.value / b.value)).natAbs : Rat) =
        numberOf 10 (divDec a b 0 true).digits := by
      rw [← magnitude, Nat.cast_natAbs, Int.cast_abs]
    exact_mod_cast magnitude.symm
  have digits := digits_magnitude (truncInt (a.value / b.value)).natAbs
  unfold quotientDigits
  apply numberOf_inj (b := 10) (by decide) normal.magnitude.digits digits.digits
    normal.magnitude.leads digits.leads
  rw [number, numberOf_reverse, Nat.ofDigits_digits]

theorem remainderLaw_iff : RemainderLaw a b ↔
    ∃ c, (Numeric.fin (divDec a b 0 true)).mul (.fin b) = .fin c ∧
      c.value = truncInt (a.value / b.value) * b.value := by
  obtain ⟨value, _, normalQ, _⟩ := wholeQuotient normalA normalB notZero
  obtain ⟨_, _, _, _, c, isProduct, normalC, _⟩ := arithmetic_exact normalQ normalB
  obtain ⟨_, ⟨r, isRest, difference, _⟩, _⟩ := arithmetic_exact normalA normalC
  have isQuotient : (Numeric.fin a).divTrunc (.fin b) = some (.fin (divDec a b 0 true)) := by
    unfold Numeric.divTrunc Numeric.divScale
    simp only [notZero, Bool.false_eq_true, if_false]
  have isRem : (Numeric.fin a).rem (.fin b) = .ok (.fin r) := by
    unfold Numeric.rem
    simp only [notZero, Bool.false_eq_true, if_false, isProduct, isRest]
  have divisor : b.value ≠ 0 := by
    intro isZero
    rw [← Dec.digits_eq_nil_iff normalB] at isZero
    rw [Dec.isZero, isZero] at notZero
    cases notZero
  constructor
  · rintro ⟨q, r', isQ, isR, law⟩
    rw [isQuotient] at isQ
    cases isQ
    rw [isRem] at isR
    cases isR
    refine ⟨c, isProduct, ?_⟩
    have sum := law.sum
    rw [difference, value] at sum
    linarith
  · rintro ⟨c', isC, product⟩
    rw [isProduct] at isC
    cases isC
    have rest : r.value = (a.value / b.value - truncInt (a.value / b.value)) * b.value := by
      rw [difference, product, sub_mul, div_mul_cancel₀ _ divisor]
    obtain ⟨above, below⟩ := truncInt_between (a.value / b.value)
    refine ⟨_, r, isQuotient, isRem, ⟨⟨_, value⟩, ?_, ?_, ?_⟩⟩
    · rw [difference, value, product]
      ring
    · rw [rest, abs_mul]
      have less : |a.value / b.value - truncInt (a.value / b.value)| < 1 := by
        rw [abs_lt]
        rcases le_total 0 (a.value / b.value) with nonneg | nonpos
        · obtain ⟨_, low, high⟩ := above nonneg
          exact ⟨by linarith, by linarith⟩
        · obtain ⟨_, high, low⟩ := below nonpos
          exact ⟨by linarith, by linarith⟩
      exact (mul_lt_iff_lt_one_left (abs_pos.mpr divisor)).mpr less
    · -- The rest times the dividend is the square of the divisor times a product of one sign.
      have isA : a.value = a.value / b.value * b.value := (div_mul_cancel₀ _ divisor).symm
      have square : 0 < b.value * b.value := by
        rw [← pow_two]
        positivity
      have product : r.value * a.value =
          (a.value / b.value - truncInt (a.value / b.value)) * (a.value / b.value) *
            (b.value * b.value) := by
        rw [rest]
        conv_lhs => rw [isA]
        rw [div_mul_cancel₀ _ divisor]
        field_simp
      by_cases whole : a.value / b.value = truncInt (a.value / b.value)
      · left
        rw [rest, sub_eq_zero.mpr whole, zero_mul]
      · right
        rw [product]
        apply mul_pos _ square
        rcases lt_or_ge (a.value / b.value) 0 with negative | nonneg
        · obtain ⟨_, low, _⟩ := below (le_of_lt negative)
          exact mul_pos_of_neg_of_neg (sub_neg.mpr (lt_of_le_of_ne low whole)) negative
        · obtain ⟨low, high, _⟩ := above nonneg
          have more := lt_of_le_of_ne high (Ne.symm whole)
          exact mul_pos (sub_pos.mpr more) (lt_of_le_of_lt low more)

/-- The remainder law holds just if the columns of the product fit into 32 bits and the product of
quotient and divisor needs at most 1000 places, where not both go wrong. -/
theorem remainder_exact (fits : b.scale < 2 ^ 32) :
    (ColumnsFit (quotientDigits a b) b.digits → (b.scale ≤ 1000 ∨ ProductKept a b) →
      RemainderLaw a b) ∧
    (b.scale ≤ 1000 ∨ ColumnsFit (quotientDigits a b) b.digits → RemainderLaw a b →
      ColumnsFit (quotientDigits a b) b.digits ∧ (b.scale ≤ 1000 ∨ ProductKept a b)) := by
  obtain ⟨value, scale, normalQ, digits⟩ := wholeQuotient normalA normalB notZero
  obtain ⟨_, _, _, _, c, isProduct, _, small, large⟩ := arithmetic_exact normalQ normalB
  rw [scale, Nat.zero_add, digits, value] at small large
  have law : RemainderLaw a b ↔ c.value = truncInt (a.value / b.value) * b.value := by
    rw [remainderLaw_iff normalA normalB notZero]
    constructor
    · rintro ⟨c', isC, exact'⟩
      rw [isProduct] at isC
      cases isC
      exact exact'
    · intro exact'
      exact ⟨c, isProduct, exact'⟩
  rw [law]
  have kept : roundAway (truncInt (a.value / b.value) * b.value) 1000 =
      truncInt (a.value / b.value) * b.value ↔ ProductKept a b := by
    have unit : (10 : Rat) ^ 1000 ≠ 0 := pow_ne_zero _ (by norm_num)
    constructor
    · intro same
      refine ⟨nearestInt (truncInt (a.value / b.value) * b.value * 10 ^ 1000), ?_⟩
      conv_lhs => rw [← same]
      exact roundAway_scaled _ 1000
    · rintro ⟨i, isInt⟩
      rw [roundAway_eq_roundAt]
      apply roundAt_multiple false (i := i)
      rw [isInt, zpow_natCast, div_mul_cancel₀ _ unit]
  constructor
  · intro columns within
    by_cases more : 1000 < b.scale
    · rw [(large more fits columns).2, kept]
      exact within.resolve_left (by omega)
    · exact (small (by omega)).2.mpr columns
  · intro regime exact'
    by_cases more : 1000 < b.scale
    · have columns := regime.resolve_left (by omega)
      rw [(large more fits columns).2, kept] at exact'
      exact ⟨columns, .inr exact'⟩
    · exact ⟨(small (by omega)).2.mp exact', .inl (by omega)⟩

end Remainder

theorem remainder_exact_half :
    RemainderLaw { digits := [7, 5], scale := 1 } { digits := [2] } ∧
      ColumnsFit (quotientDigits { digits := [7, 5], scale := 1 } { digits := [2] }) [2] := by
  have whole : truncInt (Dec.value { digits := [7, 5], scale := 1 } / Dec.value { digits := [2] }) = 3 := by
    have ratio : Dec.value { digits := [7, 5], scale := 1 } / Dec.value { digits := [2] } = 15 / 4 := by
      norm_num [Dec.value, Dec.sign, numberOf, Nat.ofDigits_cons]
    rw [ratio]
    unfold truncInt
    rw [if_neg (by norm_num), Int.floor_eq_iff]
    norm_num
  have digits : quotientDigits { digits := [7, 5], scale := 1 } { digits := [2] } = [3] := by
    unfold quotientDigits
    rw [whole]
    rfl
  have columns : ColumnsFit (quotientDigits { digits := [7, 5], scale := 1 } { digits := [2] }) [2] := by
    rw [digits]
    exact ⟨by decide, by decide, trivial⟩
  obtain ⟨enough, needed⟩ := @remainder_exact { digits := [7, 5], scale := 1 } { digits := [2] }
    ⟨⟨by decide, by decide⟩, by decide⟩ ⟨⟨by decide, by decide⟩, by decide⟩ rfl (by decide)
  have law := enough columns (.inl (by decide))
  exact ⟨law, (needed (.inl (by decide)) law).1⟩

def belowKept : Dec := { digits := [1], scale := 1001 }

theorem remainder_ofItself :
    ¬ ∀ a b : Dec, a.Normal → b.Normal → b.isZero = false → b.scale < 2 ^ 32 → RemainderLaw a b := by
  intro claimed
  have normal : belowKept.Normal := ⟨⟨by decide, by decide⟩, by decide⟩
  obtain ⟨q, r, _, isRest, law⟩ := claimed belowKept belowKept normal normal rfl (by decide)
  have itself : (Numeric.fin belowKept).rem (.fin belowKept) = .ok (.fin belowKept) := by decide
  rw [itself] at isRest
  cases isRest
  exact lt_irrefl _ law.less

end NoidaDb.Sql
