/-
Rounding of numerics to any scale, also left of the point, and the `numeric(p, s)` types.
-/

import NoidaDb.Lib.Rounding
import NoidaDb.Sql.NumericArithmetic

namespace NoidaDb.Sql

open Lib

section Rounding

variable {d : Dec} (truncate : Bool)

def roundedScale (current : Nat) (scale : Int) : Nat :=
  if (current : Int) ≤ scale then max (min scale.toNat maxDisplayScale) current else scale.toNat

theorem wholeInt_signed (neg : Bool) (n : Nat) {p : Nat} (unit : 0 < p) :
    wholeInt truncate ((if neg then -1 else 1) * (n / p)) =
      (if neg then -1 else 1) * (wholeDiv truncate n p : Int) := by
  cases neg with
  | true =>
    rw [if_pos rfl, if_pos rfl, neg_one_mul, neg_one_mul, wholeInt_neg, wholeInt_div truncate n unit]
  | false =>
    simp only [Bool.false_eq_true, if_false, one_mul]
    exact wholeInt_div truncate n unit

theorem value_shifted (d : Dec) {scale : Int} (fewer : scale < d.scale) :
    d.value * 10 ^ scale =
      (if d.neg then -1 else 1) *
        ((numberOf 10 d.digits : Rat) / ((10 ^ (d.scale - scale).toNat : Nat) : Rat)) := by
  have places : scale = (d.scale : Int) - ((d.scale - scale).toNat : Int) := by omega
  have shift : (10 : Rat) ^ scale = 10 ^ d.scale / 10 ^ (d.scale - scale).toNat := by
    conv_lhs => rw [places]
    rw [zpow_sub₀ (by norm_num), zpow_natCast, zpow_natCast]
  unfold Dec.value Dec.sign
  rw [shift]
  push_cast
  field_simp

def keptDigits (digits : List Nat) (drop : Nat) : List Nat :=
  let kept := digits.take (digits.length - drop)
  let removed := digits.drop (digits.length - drop)
  if !truncate && decide (removed.length = drop) && removed.head?.any (fun x => decide (5 ≤ x)) then
    addMag kept [1]
  else kept

theorem numberOf_keptDigits (digits : ∀ x ∈ d.digits, x < 10) {drop : Nat} (some' : 0 < drop) :
    numberOf 10 (keptDigits truncate d.digits drop) =
        wholeDiv truncate (numberOf 10 d.digits) (10 ^ drop) ∧
      ∀ x ∈ keptDigits truncate d.digits drop, x < 10 := by
  obtain ⟨quotient, rest⟩ := cut_eq digits drop
  have digitsKept : ∀ x ∈ d.digits.take (d.digits.length - drop), x < 10 :=
    fun x member => digits x (List.mem_of_mem_take member)
  have up := @roundsUp_iff (d.digits.drop (d.digits.length - drop))
    (fun x member => digits x (List.mem_of_mem_drop member)) drop some' (by
      rw [List.length_drop]
      omega)
  rw [rest] at up
  unfold keptDigits
  simp only
  generalize d.digits.drop (d.digits.length - drop) = removed at up ⊢
  generalize d.digits.take (d.digits.length - drop) = kept at quotient digitsKept ⊢
  cases truncate with
  | true => exact ⟨quotient, digitsKept⟩
  | false =>
    have isUp : (!false && decide (removed.length = drop) &&
        removed.head?.any (fun x => decide (5 ≤ x))) = true ↔
          10 ^ drop ≤ 2 * (numberOf 10 d.digits % 10 ^ drop) := by simpa using up
    have isRounded : wholeDiv false (numberOf 10 d.digits) (10 ^ drop) =
        (2 * numberOf 10 d.digits + 10 ^ drop) / (2 * 10 ^ drop) := rfl
    rw [isRounded, half_up _ (Nat.pow_pos (by decide)), ← quotient]
    by_cases carries : (!false && decide (removed.length = drop) &&
        removed.head?.any (fun x => decide (5 ≤ x))) = true
    · rw [if_pos carries, if_pos (isUp.mp carries), numberOf_addMag digitsKept (by simp)]
      exact ⟨rfl, (magnitude_addMag kept [1]).digits⟩
    · rw [if_neg carries, if_neg (fun half => carries (isUp.mpr half))]
      exact ⟨rfl, digitsKept⟩

theorem numberOf_padded_left (digits : List Nat) (scale : Int) :
    numberOf 10 (if scale < 0 ∧ digits ≠ [] then digits ++ List.replicate (-scale).toNat 0 else digits) =
      numberOf 10 digits * 10 ^ (-scale).toNat := by
  split
  · exact numberOf_append_zeros digits _
  · rename_i notBoth
    by_cases isEmpty : digits = []
    · simp [isEmpty]
    · have isRight : (-scale).toNat = 0 := by
        by_contra isLeft
        exact notBoth ⟨by omega, isEmpty⟩
      rw [isRight, pow_zero, Nat.mul_one]

theorem roundTo_value (normal : d.Normal) (scale : Int) :
    (d.roundTo scale truncate).value = roundAt truncate d.value scale ∧
      (d.roundTo scale truncate).scale = roundedScale d.scale scale ∧
      (d.roundTo scale truncate).Normal := by
  by_cases more : (d.scale : Int) ≤ scale
  · have result : d.roundTo scale truncate =
        { neg := d.neg
          digits := d.withScale (max (min scale.toNat maxDisplayScale) d.scale)
          scale := max (min scale.toNat maxDisplayScale) d.scale } := by
      unfold Dec.roundTo
      rw [if_pos more]
    have isValue : (d.roundTo scale truncate).value = d.value := by
      rw [result, Dec.value_withScale d (Nat.le_max_right (min scale.toNat maxDisplayScale) _)]
      rfl
    refine ⟨?_, ?_, ?_⟩
    · -- There is nothing to round.
      have places : scale = (d.scale : Int) + ((scale - d.scale).toNat : Int) := by omega
      have shift : (10 : Rat) ^ scale = 10 ^ d.scale * 10 ^ (scale - d.scale).toNat := by
        conv_lhs => rw [places]
        rw [zpow_add₀ (by norm_num), zpow_natCast, zpow_natCast]
      have isInt : d.value * 10 ^ scale =
          ((if d.neg then -1 else 1) *
            (numberOf 10 d.digits * 10 ^ (scale - d.scale).toNat) : Int) := by
        unfold Dec.value Dec.sign
        rw [shift]
        push_cast
        field_simp
      rw [isValue, roundAt_multiple truncate isInt]
    · rw [result, roundedScale, if_pos more]
    · rw [result]
      constructor
      · exact Dec.magnitude_withScale normal.magnitude _
      · intro isEmpty
        apply normal.zero
        simp only [Dec.withScale] at isEmpty
        split at isEmpty
        · assumption
        · exact (List.append_eq_nil_iff.mp isEmpty).1
  · have fewer : scale < d.scale := by omega
    obtain ⟨whole, digits⟩ := numberOf_keptDigits truncate normal.magnitude.digits
      (show 0 < ((d.scale : Int) - scale).toNat by omega)
    have shifted := value_shifted d fewer
    have result : d.roundTo scale truncate =
        { neg := d.neg
          digits :=
            if scale < 0 ∧ keptDigits truncate d.digits (d.scale - scale).toNat ≠ [] then
              keptDigits truncate d.digits (d.scale - scale).toNat ++
                List.replicate (-scale).toNat 0
            else keptDigits truncate d.digits (d.scale - scale).toNat
          scale := scale.toNat : Dec }.normalize := by
      unfold Dec.roundTo
      rw [if_neg more]
      rfl
    rw [result]
    generalize keptDigits truncate d.digits (d.scale - scale).toNat = kept at whole digits ⊢
    refine ⟨?_, ?_, ?_⟩
    · rw [Dec.value_normalize]
      unfold roundAt
      rw [shifted, wholeInt_signed truncate _ _ (Nat.pow_pos (by decide)), ← whole]
      have units : (10 : Rat) ^ (-scale).toNat / 10 ^ scale.toNat = 1 / 10 ^ scale := by
        have places : scale = (scale.toNat : Int) - ((-scale).toNat : Int) := by omega
        conv_rhs => rw [places]
        rw [zpow_sub₀ (by norm_num), zpow_natCast, zpow_natCast, one_div_div]
      unfold Dec.value Dec.sign
      simp only [numberOf_padded_left]
      push_cast
      rw [mul_div_assoc, mul_div_assoc, units, mul_one_div]
    · rw [roundedScale, if_neg more]
      rfl
    · apply Dec.normal_normalize
      intro x member
      simp only at member
      split at member
      · rcases List.mem_append.mp member with inKept | isZero
        · exact digits x inKept
        · rw [(List.mem_replicate.mp isZero).2]
          decide
      · exact digits x member

theorem roundTo_hidden (d : Dec) (scale : Int) : (d.roundTo scale truncate).hidden = 0 := by
  unfold Dec.roundTo
  split
  · rfl
  · rfl

theorem roundedScale_idempotent (current : Nat) (scale : Int) :
    roundedScale (roundedScale current scale) scale = roundedScale current scale := by
  unfold roundedScale
  by_cases more : (current : Int) ≤ scale
  · have fits : ((max (min scale.toNat maxDisplayScale) current : Nat) : Int) ≤ scale := by omega
    rw [if_pos more, if_pos fits]
    omega
  · rw [if_neg more]
    split
    · omega
    · rfl

end Rounding

namespace Dec

theorem digits_eq_nil_iff {d : Dec} (normal : d.Normal) : d.digits = [] ↔ d.value = 0 := by
  constructor
  · intro isEmpty
    simp [value, isEmpty]
  · intro isZero
    by_contra some'
    have digits := numberOf_pos (b := 10) (by decide) normal.magnitude.leads some'
    have magnitude : (0 : Rat) < numberOf 10 d.digits / 10 ^ d.scale := by positivity
    have sign : d.sign ≠ 0 := by
      intro noSign
      have square := sign_mul_self d
      rw [noSign] at square
      norm_num at square
    exact mul_ne_zero sign (ne_of_gt magnitude) isZero

theorem eq_of_value {a b : Dec} (normalA : a.Normal) (normalB : b.Normal) (scale : a.scale = b.scale)
    (hidden : a.hidden = b.hidden) (value : a.value = b.value) : a = b := by
  have signs : a.neg = b.neg := by
    cases signA : a.neg with
    | true =>
      cases signB : b.neg with
      | true => rfl
      | false =>
        have less := neg_of_sign normalA signA
        have more := nonneg_of_sign signB
        linarith
    | false =>
      cases signB : b.neg with
      | true =>
        have less := neg_of_sign normalB signB
        have more := nonneg_of_sign signA
        linarith
      | false => rfl
  have digits : a.digits = b.digits := by
    apply numberOf_inj (b := 10) (by decide) normalA.magnitude.digits normalB.magnitude.digits
      normalA.magnitude.leads normalB.magnitude.leads
    have magnitudes : (numberOf 10 a.digits : Rat) / 10 ^ b.scale = numberOf 10 b.digits / 10 ^ b.scale := by
      unfold Dec.value at value
      rw [value_of_neg signs, scale] at value
      have sign : b.sign ≠ 0 := by
        intro noSign
        have square := sign_mul_self b
        rw [noSign] at square
        norm_num at square
      exact mul_left_cancel₀ sign value
    rw [div_left_inj' (by positivity)] at magnitudes
    exact_mod_cast magnitudes
  cases a
  cases b
  simp_all

end Dec

/-- `Numeric::apply_typmod`. -/
def Numeric.applyTypmod (n : Numeric) (precision scale : Int) : Except NumError Numeric :=
  match n with
  | .fin d =>
    let r := d.roundTo scale false
    let intDigits : Int := r.digits.length - r.scale
    -- The difference is one of 64-bit numbers.
    if r.isZero = false ∧ (precision - scale).bmod (2 ^ 64) < intDigits then .error .overflow
    else .ok (.fin r)
  | .nan => .ok .nan
  | .inf _ => .error .overflow

theorem numberOf_lt_power_iff {v : List Nat} (magnitude : Magnitude v) (some' : v ≠ []) (m : Int) :
    (numberOf 10 v : Rat) < 10 ^ m ↔ (v.length : Int) ≤ m := by
  have below := numberOf_lt (b := 10) (by decide) magnitude.digits
  have above : 10 ^ (v.length - 1) ≤ numberOf 10 v := by
    cases v with
    | nil => exact (some' rfl).elim
    | cons x rest => exact pow_le_numberOf magnitude.leads
  have some' : 0 < v.length := List.length_pos_of_ne_nil some'
  constructor
  · intro less
    by_contra long
    have atMost : (10 : Rat) ^ m ≤ 10 ^ (((v.length - 1 : Nat)) : Int) :=
      zpow_le_zpow_right₀ (by norm_num) (by omega)
    rw [zpow_natCast] at atMost
    have above : (10 : Rat) ^ (v.length - 1) ≤ numberOf 10 v := by exact_mod_cast above
    linarith
  · intro short
    have atLeast : (10 : Rat) ^ (v.length : Int) ≤ 10 ^ m := zpow_le_zpow_right₀ (by norm_num) short
    rw [zpow_natCast] at atLeast
    have below : (numberOf 10 v : Rat) < 10 ^ v.length := by exact_mod_cast below
    linarith

theorem abs_value (d : Dec) : |d.value| = numberOf 10 d.digits / 10 ^ d.scale := by
  have magnitude : (0 : Rat) ≤ numberOf 10 d.digits / 10 ^ d.scale := by positivity
  unfold Dec.value Dec.sign
  rw [abs_mul, abs_of_nonneg magnitude]
  cases d.neg with
  | true => simp
  | false => simp

variable {d : Dec}

theorem abs_value_lt_iff (normal : d.Normal) (m : Int) :
    |d.value| < 10 ^ m ↔ ¬ (d.isZero = false ∧ m < (d.digits.length : Int) - d.scale) := by
  unfold Dec.isZero
  by_cases isEmpty : d.digits = []
  · have isZero := (Dec.digits_eq_nil_iff normal).mp isEmpty
    rw [isZero, isEmpty, abs_zero]
    have positive : (0 : Rat) < 10 ^ m := zpow_pos (by norm_num) _
    simp [positive]
  · have unit : (0 : Rat) < 10 ^ d.scale := by positivity
    have isFalse : d.digits.isEmpty = false := by
      rw [List.isEmpty_eq_false_iff]
      exact isEmpty
    rw [abs_value, div_lt_iff₀ unit, ← zpow_natCast, ← zpow_add₀ (by norm_num),
      numberOf_lt_power_iff normal.magnitude isEmpty, isFalse]
    simp only [true_and]
    omega

theorem applyTypmod_eq (normal : d.Normal) {precision scale : Int}
    (fits : -2 ^ 63 ≤ precision - scale ∧ precision - scale < 2 ^ 63) :
    (Numeric.fin d).applyTypmod precision scale =
      if |roundAt false d.value scale| < 10 ^ (precision - scale) then
        .ok (.fin (d.roundTo scale false))
      else .error .overflow := by
  obtain ⟨value, _, rounded⟩ := roundTo_value false normal scale
  have difference : (precision - scale).bmod (2 ^ 64) = precision - scale := by
    rw [Int.bmod_def]
    split
    · omega
    · omega
  have inRange := abs_value_lt_iff rounded (precision - scale)
  rw [value] at inRange
  unfold Numeric.applyTypmod
  simp only [difference]
  by_cases within : |roundAt false d.value scale| < 10 ^ (precision - scale)
  · rw [if_pos within, if_neg (inRange.mp within)]
  · rw [if_neg within, if_pos (not_not.mp (fun inside => within (inRange.mpr inside)))]

/-- The result is in normal form, and the rounded number; a scale that is large enough changes
nothing, and rounding again does not either. -/
structure RoundsTo (truncate : Bool) (d : Dec) (scale : Int) (r : Dec) : Prop where
  normal : r.Normal
  nearest : truncate = false → Nearest d.value scale r.value
  truncated : truncate = true → Truncated d.value scale r.value
  unchanged : d.scale ≤ scale → r.value = d.value
  idempotent : r.roundTo scale truncate = r

theorem roundTo_roundsTo (truncate : Bool) (normal : d.Normal) (scale : Int) :
    RoundsTo truncate d scale (d.roundTo scale truncate) := by
  obtain ⟨value, isScale, rounded⟩ := roundTo_value truncate normal scale
  obtain ⟨valueAgain, scaleAgain, roundedAgain⟩ := roundTo_value truncate rounded scale
  refine ⟨rounded, ?_, ?_, ?_, ?_⟩
  · rintro rfl
    rw [value]
    exact roundAt_nearest d.value scale
  · rintro rfl
    rw [value]
    exact roundAt_truncated d.value scale
  · intro more
    have result : d.roundTo scale truncate =
        { neg := d.neg
          digits := d.withScale (max (min scale.toNat maxDisplayScale) d.scale)
          scale := max (min scale.toNat maxDisplayScale) d.scale } := by
      unfold Dec.roundTo
      rw [if_pos more]
    rw [result, Dec.value_withScale d (Nat.le_max_right (min scale.toNat maxDisplayScale) _)]
    rfl
  · apply Dec.eq_of_value roundedAgain rounded
    · rw [scaleAgain, isScale, roundedScale_idempotent]
    · rw [roundTo_hidden, roundTo_hidden]
    · rw [valueAgain, value, roundAt_idempotent]

theorem rounding_exact {d : Dec} (normal : d.Normal) :
    (∀ truncate scale, RoundsTo truncate d scale (d.roundTo scale truncate)) ∧
    (∀ e : Dec, e.Normal → d.value ≤ e.value → ∀ truncate scale,
      (d.roundTo scale truncate).value ≤ (e.roundTo scale truncate).value) ∧
    ∀ precision scale, -2 ^ 63 ≤ precision - scale ∧ precision - scale < 2 ^ 63 →
      (Numeric.fin d).applyTypmod precision scale =
        if |(d.roundTo scale false).value| < 10 ^ (precision - scale) then
          .ok (.fin (d.roundTo scale false))
        else .error .overflow := by
  refine ⟨fun truncate scale => roundTo_roundsTo truncate normal scale, ?_, ?_⟩
  · intro e normalE atMost truncate scale
    rw [(roundTo_value truncate normal scale).1, (roundTo_value truncate normalE scale).1]
    exact roundAt_monotone truncate scale atMost
  · intro precision scale fits
    rw [(roundTo_value false normal scale).1]
    exact applyTypmod_eq normal fits

/-- 1234.5678 to hundreds and as a `numeric(5, 2)`, and its whole part below that of 2000. -/
theorem rounding_exact_hundreds :
    RoundsTo false { digits := [1, 2, 3, 4, 5, 6, 7, 8], scale := 4 } (-2)
        (Dec.roundTo { digits := [1, 2, 3, 4, 5, 6, 7, 8], scale := 4 } (-2) false) ∧
      (Dec.roundTo { digits := [1, 2, 3, 4, 5, 6, 7, 8], scale := 4 } 0 true).value ≤
        (Dec.roundTo { digits := [2, 0, 0, 0] } 0 true).value ∧
      (Numeric.fin { digits := [1, 2, 3, 4, 5, 6, 7, 8], scale := 4 }).applyTypmod 5 2 =
        if |(Dec.roundTo { digits := [1, 2, 3, 4, 5, 6, 7, 8], scale := 4 } 2 false).value| <
            10 ^ ((5 : Int) - 2) then
          .ok (.fin (Dec.roundTo { digits := [1, 2, 3, 4, 5, 6, 7, 8], scale := 4 } 2 false))
        else .error .overflow := by
  obtain ⟨rounds, monotone, typmod⟩ := @rounding_exact
    { digits := [1, 2, 3, 4, 5, 6, 7, 8], scale := 4 } ⟨⟨by decide, by decide⟩, by decide⟩
  refine ⟨rounds false (-2), ?_, typmod 5 2 (by decide)⟩
  apply monotone { digits := [2, 0, 0, 0] } ⟨⟨by decide, by decide⟩, by decide⟩
  norm_num [Dec.value, Dec.sign, numberOf, Nat.ofDigits_cons]

end NoidaDb.Sql
