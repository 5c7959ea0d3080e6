/-
Numeric arithmetic is decimal arithmetic.
-/

import NoidaDb.Sql.Magnitudes

namespace NoidaDb.Sql

open Lib

namespace Dec

def sign (d : Dec) : Rat := if d.neg then -1 else 1

def value (d : Dec) : Rat := d.sign * (numberOf 10 d.digits / 10 ^ d.scale)

structure Normal (d : Dec) : Prop where
  magnitude : Magnitude d.digits
  zero : d.digits = [] → d.neg = false

variable {d : Dec}

theorem sign_mul_self (d : Dec) : d.sign * d.sign = 1 := by
  unfold sign
  split
  · norm_num
  · norm_num

theorem normal_normalize (digits : ∀ x ∈ d.digits, x < 10) : d.normalize.Normal where
  magnitude := magnitude_strip digits
  zero := by
    intro isEmpty
    simp only [normalize] at isEmpty ⊢
    rw [if_pos isEmpty]

theorem value_normalize (d : Dec) : d.normalize.value = d.value := by
  unfold value sign normalize
  simp only [numberOf_strip]
  by_cases isEmpty : strip d.digits = []
  · simp [strip_eq_nil_iff.mp isEmpty]
  · simp [isEmpty]

theorem numberOf_withScale (d : Dec) (scale : Nat) :
    numberOf 10 (d.withScale scale) = numberOf 10 d.digits * 10 ^ (scale - d.scale) := by
  unfold withScale
  split
  · rename_i isEmpty
    simp [isEmpty]
  · exact numberOf_append_zeros d.digits _

theorem magnitude_withScale (magnitude : Magnitude d.digits) (scale : Nat) :
    Magnitude (d.withScale scale) := by
  unfold withScale
  split
  · exact magnitude_nil
  · rename_i some
    constructor
    · intro x member
      rcases List.mem_append.mp member with inDigits | isZero
      · exact magnitude.digits x inDigits
      · rw [(List.mem_replicate.mp isZero).2]
        decide
    · rw [List.head?_append_of_ne_nil _ some]
      exact magnitude.leads

theorem value_withScale (d : Dec) {scale : Nat} (atLeast : d.scale ≤ scale) :
    d.value = d.sign * (numberOf 10 (d.withScale scale) / 10 ^ scale) := by
  rw [numberOf_withScale]
  unfold value
  have split : (10 : Rat) ^ scale = 10 ^ (scale - d.scale) * 10 ^ d.scale := by
    rw [← pow_add, Nat.sub_add_cancel atLeast]
  rw [split]
  push_cast
  field_simp

theorem value_of_neg {e : Dec} (same : d.neg = e.neg) : d.sign = e.sign := by
  unfold sign
  rw [same]

end Dec

section Sums

variable {a b : Dec}

theorem addDec_exact (normalA : a.Normal) (normalB : b.Normal) :
    (addDec a b).value = a.value + b.value ∧ (addDec a b).scale = max a.scale b.scale ∧
      (addDec a b).Normal := by
  have isA := Dec.magnitude_withScale normalA.magnitude (max a.scale b.scale)
  have isB := Dec.magnitude_withScale normalB.magnitude (max a.scale b.scale)
  rw [Dec.value_withScale a (Nat.le_max_left a.scale b.scale),
    Dec.value_withScale b (Nat.le_max_right a.scale b.scale)]
  unfold addDec
  simp only
  generalize a.withScale (max a.scale b.scale) = da at isA ⊢
  generalize b.withScale (max a.scale b.scale) = db at isB ⊢
  generalize max a.scale b.scale = scale
  split
  · rename_i sameSign
    refine ⟨?_, rfl, Dec.normal_normalize (magnitude_addMag da db).digits⟩
    rw [Dec.value_normalize, Dec.value_of_neg sameSign]
    unfold Dec.value
    rw [numberOf_addMag isA.digits isB.digits]
    simp only [Dec.sign, sameSign]
    push_cast
    ring
  · rename_i otherSign
    have opposite : b.sign = -a.sign := by
      unfold Dec.sign
      cases signA : a.neg with
      | true =>
        cases signB : b.neg with
        | true => simp [signA, signB] at otherSign
        | false => simp
      | false =>
        cases signB : b.neg with
        | true => simp
        | false => simp [signA, signB] at otherSign
    rw [opposite]
    have order := cmpMag_eq isA isB
    cases comparison : cmpMag da db with
    | eq =>
      rw [comparison] at order
      have same := compare_eq_iff_eq.mp order.symm
      refine ⟨?_, rfl, ⟨magnitude_nil, fun _ => rfl⟩⟩
      rw [same]
      simp [Dec.value, Dec.zero]
    | gt =>
      rw [comparison] at order
      have less := compare_gt_iff_gt.mp order.symm
      have whole := numberOf_subMag isA.digits isB.digits (Nat.le_of_lt less)
      refine ⟨?_, rfl, Dec.normal_normalize (magnitude_subMag isA.digits db).digits⟩
      rw [Dec.value_normalize, ← whole]
      unfold Dec.value Dec.sign
      push_cast
      ring
    | lt =>
      rw [comparison] at order
      have less := compare_lt_iff_lt.mp order.symm
      have whole := numberOf_subMag isB.digits isA.digits (Nat.le_of_lt less)
      refine ⟨?_, rfl, Dec.normal_normalize (magnitude_subMag isB.digits da).digits⟩
      rw [Dec.value_normalize, ← whole]
      unfold Dec.value
      have signB : Dec.sign { neg := b.neg, digits := subMag db da, scale := scale } = -a.sign :=
        opposite
      rw [signB]
      push_cast
      ring

theorem neg_exact (normal : a.Normal) (flipped : Dec)
    (isFlipped : flipped = { a with neg := !a.neg : Dec }.normalize) :
    flipped.value = -a.value ∧ flipped.scale = a.scale ∧ flipped.Normal := by
  rw [isFlipped]
  refine ⟨?_, rfl, Dec.normal_normalize normal.magnitude.digits⟩
  rw [Dec.value_normalize]
  unfold Dec.value Dec.sign
  cases a.neg with
  | true => simp
  | false => simp

end Sums

section Order

variable {a b : Dec}

theorem cmp_of_nat (m n : Nat) {scale : Nat} :
    cmp (m / 10 ^ scale : Rat) (n / 10 ^ scale) = compare m n := by
  have unit : (0 : Rat) < 10 ^ scale := by positivity
  rcases Nat.lt_trichotomy m n with less | same | more
  · rw [compare_lt_iff_lt.mpr less, cmp_eq_lt_iff]
    exact div_lt_div_of_pos_right (Nat.cast_lt.mpr less) unit
  · rw [same, compare_eq_iff_eq.mpr rfl, cmp_self_eq_eq]
  · rw [compare_gt_iff_gt.mpr more, cmp_eq_gt_iff]
    exact div_lt_div_of_pos_right (Nat.cast_lt.mpr more) unit

theorem cmp_neg (x y : Rat) : cmp (-x) (-y) = cmp y x := by
  rcases lt_trichotomy x y with less | same | more
  · rw [(cmp_eq_gt_iff _ _).mpr (neg_lt_neg less), (cmp_eq_gt_iff _ _).mpr less]
  · rw [same, cmp_self_eq_eq, cmp_self_eq_eq]
  · rw [(cmp_eq_lt_iff _ _).mpr (neg_lt_neg more), (cmp_eq_lt_iff _ _).mpr more]

theorem nonneg_of_sign (isPlus : a.neg = false) : 0 ≤ a.value := by
  simp only [Dec.value, Dec.sign, isPlus, Bool.false_eq_true, if_false, one_mul]
  positivity

theorem neg_of_sign (normal : a.Normal) (isMinus : a.neg = true) : a.value < 0 := by
  have some : a.digits ≠ [] := by
    intro isEmpty
    have isPlus := normal.zero isEmpty
    rw [isMinus] at isPlus
    cases isPlus
  have digits := numberOf_pos (b := 10) (by decide) normal.magnitude.leads some
  have magnitude : (0 : Rat) < numberOf 10 a.digits / 10 ^ a.scale := by
    apply div_pos
    · exact Nat.cast_pos.mpr digits
    · positivity
  simp only [Dec.value, Dec.sign, isMinus, if_true]
  linarith

theorem cmpNum_exact (normalA : a.Normal) (normalB : b.Normal) :
    cmpNum (.fin a) (.fin b) = cmp a.value b.value := by
  rw [cmpNum]
  by_cases sameSign : a.neg = b.neg
  · have isA := Dec.magnitude_withScale normalA.magnitude (max a.scale b.scale)
    have isB := Dec.magnitude_withScale normalB.magnitude (max a.scale b.scale)
    rw [if_neg (not_not.mpr sameSign),
      Dec.value_withScale a (Nat.le_max_left a.scale b.scale),
      Dec.value_withScale b (Nat.le_max_right a.scale b.scale)]
    cases signA : a.neg with
    | true =>
      have signB : b.neg = true := sameSign ▸ signA
      have minusA : a.sign = -1 := by simp [Dec.sign, signA]
      have minusB : b.sign = -1 := by simp [Dec.sign, signB]
      rw [if_pos rfl, minusA, minusB, neg_one_mul, neg_one_mul, cmp_neg, cmpMag_eq isA isB,
        ← @cmp_of_nat _ _ (max a.scale b.scale), cmp_swap]
    | false =>
      have signB : b.neg = false := sameSign ▸ signA
      have plusA : a.sign = 1 := by simp [Dec.sign, signA]
      have plusB : b.sign = 1 := by simp [Dec.sign, signB]
      rw [if_neg (by decide), plusA, plusB, one_mul, one_mul, cmpMag_eq isA isB,
        ← @cmp_of_nat _ _ (max a.scale b.scale)]
  · rw [if_pos sameSign]
    cases signA : a.neg with
    | true =>
      have signB : b.neg = false := by
        cases signB : b.neg with
        | true => simp [signA, signB] at sameSign
        | false => rfl
      symm
      rw [if_pos rfl, cmp_eq_lt_iff]
      exact lt_of_lt_of_le (neg_of_sign normalA signA) (nonneg_of_sign signB)
    | false =>
      have signB : b.neg = true := by
        cases signB : b.neg with
        | true => rfl
        | false => simp [signA, signB] at sameSign
      symm
      rw [if_neg (by decide), cmp_eq_gt_iff]
      exact lt_of_lt_of_le (neg_of_sign normalB signB) (nonneg_of_sign signA)

end Order

theorem half_up (n : Nat) {p : Nat} (unit : 0 < p) :
    (2 * n + p) / (2 * p) = n / p + if p ≤ 2 * (n % p) then 1 else 0 := by
  have split := Nat.div_add_mod n p
  have rest := Nat.mod_lt n unit
  have whole : 2 * n + p = n / p * (2 * p) + (2 * (n % p) + p) := by
    calc 2 * n + p = 2 * (p * (n / p) + n % p) + p := by rw [split]
      _ = n / p * (2 * p) + (2 * (n % p) + p) := by ring
  rw [whole, Nat.add_comm, Nat.add_mul_div_right _ _ (Nat.mul_pos (by decide) unit), Nat.add_comm]
  congr 1
  split
  · rename_i carries
    apply Nat.div_eq_of_lt_le
    · omega
    · omega
  · rename_i stays
    apply Nat.div_eq_of_lt
    omega

theorem numberOf_split (v : List Nat) (drop : Nat) :
    numberOf 10 v = numberOf 10 (v.take (v.length - drop)) * 10 ^ (v.drop (v.length - drop)).length +
      numberOf 10 (v.drop (v.length - drop)) := by
  rw [← numberOf_append, List.take_append_drop]

theorem roundsUp_iff {removed : List Nat} (digits : ∀ x ∈ removed, x < 10) {drop : Nat}
    (some : 0 < drop) (short : removed.length ≤ drop) :
    (removed.length = drop ∧ removed.head?.any (fun x => decide (5 ≤ x)) = true) ↔
      10 ^ drop ≤ 2 * numberOf 10 removed := by
  have unit : 10 ^ drop = 10 * 10 ^ (drop - 1) := by
    rw [← pow_succ', Nat.sub_add_cancel some]
  cases removed with
  | nil =>
    have isPositive : 0 < 10 ^ drop := Nat.pow_pos (by decide)
    simp only [List.length_nil, List.head?_nil, Option.any_none, Bool.false_eq_true, and_false,
      numberOf_nil, Nat.mul_zero, false_iff]
    omega
  | cons x rest =>
    obtain ⟨isDigit, digitsRest⟩ := List.forall_mem_cons.mp digits
    simp only [List.length_cons] at short
    have below := numberOf_lt (b := 10) (by decide) digitsRest
    rw [numberOf_cons]
    simp only [List.head?_cons, Option.any_some, decide_eq_true_eq, List.length_cons]
    by_cases long : rest.length + 1 = drop
    · have places : drop - 1 = rest.length := by omega
      rw [unit, places]
      constructor
      · intro both
        have half : 5 * 10 ^ rest.length ≤ x * 10 ^ rest.length := Nat.mul_le_mul_right _ both.2
        linarith
      · intro enough
        refine ⟨long, ?_⟩
        by_contra small
        have half : (x + 1) * 10 ^ rest.length ≤ 5 * 10 ^ rest.length :=
          Nat.mul_le_mul_right _ (by omega)
        linarith
    · have shorter : rest.length + 1 ≤ drop - 1 := by omega
      have power : 10 ^ (rest.length + 1) ≤ 10 ^ (drop - 1) := Nat.pow_le_pow_right (by decide) shorter
      have less : x * 10 ^ rest.length + numberOf 10 rest < 10 ^ (rest.length + 1) := by
        have top : (x + 1) * 10 ^ rest.length ≤ 10 * 10 ^ rest.length :=
          Nat.mul_le_mul_right _ isDigit
        rw [pow_succ]
        linarith
      constructor
      · intro both
        exact (long both.1).elim
      · intro enough
        have isPositive : 0 < 10 ^ (drop - 1) := Nat.pow_pos (by decide)
        rw [unit] at enough
        exfalso
        linarith

theorem cut_eq {v : List Nat} (digits : ∀ x ∈ v, x < 10) (drop : Nat) :
    numberOf 10 (v.take (v.length - drop)) = numberOf 10 v / 10 ^ drop ∧
      numberOf 10 (v.drop (v.length - drop)) = numberOf 10 v % 10 ^ drop := by
  have split := numberOf_split v drop
  have below := @numberOf_lt 10 (v.drop (v.length - drop)) (by decide)
    (fun x member => digits x (List.mem_of_mem_drop member))
  by_cases long : drop ≤ v.length
  · have length : (v.drop (v.length - drop)).length = drop := by
      rw [List.length_drop]
      omega
    rw [length] at split below
    rw [split, Nat.add_comm, Nat.add_mul_div_right _ _ (Nat.pow_pos (by decide)),
      Nat.add_mul_mod_self_right, Nat.div_eq_of_lt below, Nat.mod_eq_of_lt below, Nat.zero_add]
    exact ⟨rfl, rfl⟩
  · have nothing : v.length - drop = 0 := by omega
    have small : numberOf 10 v < 10 ^ drop :=
      Nat.lt_of_lt_of_le (numberOf_lt (by decide) digits)
        (Nat.pow_le_pow_right (by decide) (by omega))
    rw [nothing, Nat.div_eq_of_lt small, Nat.mod_eq_of_lt small]
    exact ⟨rfl, rfl⟩

theorem roundTo_exact {d : Dec} (normal : d.Normal) {places : Nat} (fewer : places < d.scale) :
    (d.roundTo places false).value = roundAway d.value places ∧
      (d.roundTo places false).scale = places ∧ (d.roundTo places false).Normal := by
  have isLess : ¬ (d.scale : Int) ≤ (places : Int) := by omega
  have dropped : ((d.scale : Int) - (places : Int)).toNat = d.scale - places := by omega
  have notLeft : ¬ (places : Int) < 0 := by omega
  unfold Dec.roundTo
  simp only [if_neg isLess, dropped, notLeft, false_and, if_false, Int.toNat_natCast]
  obtain ⟨quotient, rest⟩ := cut_eq normal.magnitude.digits (d.scale - places)
  have digitsKept : ∀ x ∈ d.digits.take (d.digits.length - (d.scale - places)), x < 10 :=
    fun x member => normal.magnitude.digits x (List.mem_of_mem_take member)
  have up := @roundsUp_iff (d.digits.drop (d.digits.length - (d.scale - places)))
    (fun x member => normal.magnitude.digits x (List.mem_of_mem_drop member)) (d.scale - places)
    (by omega) (by
      rw [List.length_drop]
      omega)
  rw [rest] at up
  generalize d.digits.drop (d.digits.length - (d.scale - places)) = removed at up ⊢
  generalize d.digits.take (d.digits.length - (d.scale - places)) = kept at quotient digitsKept ⊢
  -- What is kept, and one more where the rest rounds up.
  have rounded : ∀ roundsUp : Bool,
      (roundsUp = true ↔ 10 ^ (d.scale - places) ≤
        2 * (numberOf 10 d.digits % 10 ^ (d.scale - places))) →
      numberOf 10 (if roundsUp = true then addMag kept [1] else kept) =
          (2 * numberOf 10 d.digits + 10 ^ (d.scale - places)) / (2 * 10 ^ (d.scale - places)) ∧
        ∀ x ∈ (if roundsUp = true then addMag kept [1] else kept), x < 10 := by
    intro roundsUp isUp
    rw [half_up _ (Nat.pow_pos (by decide)), ← quotient]
    by_cases carries : roundsUp = true
    · rw [if_pos carries, if_pos (isUp.mp carries), numberOf_addMag digitsKept (by simp)]
      exact ⟨rfl, (magnitude_addMag kept [1]).digits⟩
    · rw [if_neg carries, if_neg (fun half => carries (isUp.mpr half))]
      exact ⟨rfl, digitsKept⟩
  obtain ⟨whole, digits⟩ := rounded (!false && decide (removed.length = d.scale - places) &&
    removed.head?.any (fun x => decide (5 ≤ x))) (by simpa using up)
  refine ⟨?_, rfl, Dec.normal_normalize digits⟩
  rw [Dec.value_normalize]
  have scaled := roundAway_of_nat (numberOf 10 d.digits) (d.scale - places) places
  rw [Nat.add_sub_cancel' (Nat.le_of_lt fewer)] at scaled
  unfold Dec.value Dec.sign
  simp only [whole]
  cases d.neg with
  | true =>
    simp only [if_true, neg_mul, one_mul]
    rw [roundAway_neg, scaled]
  | false =>
    simp only [Bool.false_eq_true, if_false, one_mul]
    rw [scaled]

section Products

variable {a b : Dec}

theorem sign_product (a b : Dec) {digits : List Nat} {scale : Nat} :
    Dec.sign { neg := a.neg != b.neg, digits := digits, scale := scale } = a.sign * b.sign := by
  unfold Dec.sign
  cases a.neg with
  | true =>
    cases b.neg with
    | true => norm_num
    | false => norm_num
  | false =>
    cases b.neg with
    | true => norm_num
    | false => norm_num

def product (a b : Dec) : Dec :=
  { neg := a.neg != b.neg
    digits := mulMag a.digits b.digits
    scale := (a.scale + b.scale) % 2 ^ 32 : Dec }.normalize

theorem value_product_iff (normalA : a.Normal) (normalB : b.Normal)
    (fits : a.scale + b.scale < 2 ^ 32) :
    (product a b).value = a.value * b.value ↔ ColumnsFit a.digits b.digits := by
  rw [← numberOf_mulMag_iff normalA.magnitude.digits normalB.magnitude.digits]
  unfold product
  rw [Dec.value_normalize]
  unfold Dec.value
  simp only [sign_product, Nat.mod_eq_of_lt fits]
  have signs : a.sign * b.sign ≠ 0 := by
    intro isZero
    have square : (a.sign * b.sign) * (a.sign * b.sign) = 1 := by
      calc (a.sign * b.sign) * (a.sign * b.sign) = (a.sign * a.sign) * (b.sign * b.sign) := by ring
        _ = 1 := by rw [Dec.sign_mul_self, Dec.sign_mul_self, one_mul]
    rw [isZero] at square
    norm_num at square
  have regroup : a.sign * (numberOf 10 a.digits / 10 ^ a.scale) *
      (b.sign * (numberOf 10 b.digits / 10 ^ b.scale)) =
        a.sign * b.sign * ((numberOf 10 a.digits * numberOf 10 b.digits : Nat) /
          10 ^ (a.scale + b.scale)) := by
    push_cast
    rw [pow_add]
    field_simp
  rw [regroup, mul_right_inj' signs, div_left_inj' (by positivity), Nat.cast_inj]

theorem normal_product (normalA : a.Normal) (normalB : b.Normal) : (product a b).Normal :=
  Dec.normal_normalize (magnitude_mulMag normalA.magnitude.digits normalB.magnitude.digits).digits

end Products

/-- Sums, differences and negations are exact, comparison is that of the values, and products are exact
up to a scale of 1000, and rounded from there on, where their columns fit into 32 bits. -/
theorem arithmetic_exact {a b : Dec} (normalA : a.Normal) (normalB : b.Normal) :
    (∃ c, (Numeric.fin a).add (.fin b) = .fin c ∧ c.value = a.value + b.value ∧
      c.scale = max a.scale b.scale ∧ c.Normal) ∧
    (∃ c, (Numeric.fin a).sub (.fin b) = .fin c ∧ c.value = a.value - b.value ∧
      c.scale = max a.scale b.scale ∧ c.Normal) ∧
    (∃ c, (Numeric.fin a).neg = .fin c ∧ c.value = -a.value ∧ c.scale = a.scale ∧ c.Normal) ∧
    cmpNum (.fin a) (.fin b) = cmp a.value b.value ∧
    ∃ c, (Numeric.fin a).mul (.fin b) = .fin c ∧ c.Normal ∧
      (a.scale + b.scale ≤ 1000 → c.scale = a.scale + b.scale ∧
        (c.value = a.value * b.value ↔ ColumnsFit a.digits b.digits)) ∧
      (1000 < a.scale + b.scale → a.scale + b.scale < 2 ^ 32 → ColumnsFit a.digits b.digits →
        c.scale = 1000 ∧ c.value = roundAway (a.value * b.value) 1000) := by
  obtain ⟨flipped, flippedScale, flippedNormal⟩ := neg_exact normalB _ rfl
  refine ⟨⟨_, rfl, addDec_exact normalA normalB⟩, ⟨_, rfl, ?_⟩,
    ⟨_, rfl, neg_exact normalA _ rfl⟩, cmpNum_exact normalA normalB, ⟨_, rfl, ?_⟩⟩
  · obtain ⟨value, scale, normal⟩ := addDec_exact normalA flippedNormal
    rw [flipped] at value
    rw [flippedScale] at scale
    exact ⟨by rw [value, sub_eq_add_neg], scale, normal⟩
  · have isNormal := normal_product normalA normalB
    have scale : (product a b).scale = (a.scale + b.scale) % 2 ^ 32 := rfl
    have result : Numeric.mulDec a b = if 1000 < (product a b).scale then
        (product a b).roundTo (1000 : Nat) false else product a b := rfl
    rw [result]
    split
    · rename_i large
      obtain ⟨value, rounded, normal⟩ := roundTo_exact isNormal large
      refine ⟨normal, ?_, ?_⟩
      · intro small
        omega
      · intro _ fits columns
        rw [value, (value_product_iff normalA normalB fits).mpr columns]
        exact ⟨rounded, rfl⟩
    · rename_i small
      refine ⟨isNormal, ?_, ?_⟩
      · intro within
        have fits : a.scale + b.scale < 2 ^ 32 := by omega
        exact ⟨by rw [scale, Nat.mod_eq_of_lt fits], value_product_iff normalA normalB fits⟩
      · intro large fits
        rw [scale, Nat.mod_eq_of_lt fits] at small
        exact (small large).elim

def tiny : Dec := { digits := [1], scale := 2 ^ 31 }

theorem square_roundsAway {scale : Nat} (small : 501 ≤ scale) :
    roundAway (Dec.value { digits := [1], scale := scale } *
      Dec.value { digits := [1], scale := scale }) 1000 = 0 := by
  have value : Dec.value { digits := [1], scale := scale } = 1 / 10 ^ scale := by
    simp [Dec.value, Dec.sign, numberOf]
  rw [value]
  obtain ⟨more, isMore⟩ := Nat.exists_eq_add_of_le small
  have unit : (1 : Rat) ≤ 10 ^ more := one_le_pow₀ (by norm_num)
  have below : (1 / 10 ^ scale * (1 / 10 ^ scale) * 10 ^ 1000 + 1 / 2 : Rat) < 1 := by
    have same : (1 / 10 ^ scale * (1 / 10 ^ scale) * 10 ^ 1000 : Rat) =
        1 / 100 * (1 / 10 ^ more) * (1 / 10 ^ more) := by
      rw [isMore, pow_add]
      field_simp
      norm_num
    have atMost : (1 / 10 ^ more : Rat) ≤ 1 := by
      rw [div_le_one (by positivity)]
      exact unit
    have nonneg : (0 : Rat) ≤ 1 / 10 ^ more := by positivity
    rw [same]
    nlinarith
  have nonneg : (0 : Rat) ≤ 1 / 10 ^ scale * (1 / 10 ^ scale) := by positivity
  unfold roundAway
  rw [if_neg (not_lt.mpr nonneg), Int.floor_eq_zero_iff.mpr ⟨by positivity, below⟩]
  simp

theorem arithmetic_scaleWraps :
    ¬ ∀ a b : Dec, a.Normal → b.Normal → a.scale < 2 ^ 32 → b.scale < 2 ^ 32 →
      1000 < a.scale + b.scale → ∃ c, (Numeric.fin a).mul (.fin b) = .fin c ∧
        c.value = roundAway (a.value * b.value) 1000 := by
  intro claimed
  have normal : tiny.Normal := ⟨⟨by decide, by decide⟩, by decide⟩
  obtain ⟨c, result, value⟩ := claimed tiny tiny normal normal (by decide) (by decide) (by decide)
  have isOne : (Numeric.fin tiny).mul (.fin tiny) = .fin { digits := [1] } := by decide
  rw [isOne] at result
  rw [← Numeric.fin.inj result] at value
  have isZero : Dec.value { digits := [1] } = 0 :=
    value.trans (@square_roundsAway (2 ^ 31) (by decide))
  norm_num [Dec.value, Dec.sign, numberOf] at isZero

theorem arithmetic_exact_quarters :
    ∃ c, (Numeric.fin { digits := [1, 5], scale := 1 }).mul
        (.fin { neg := true, digits := [2, 5], scale := 2 }) = .fin c ∧ c.Normal ∧
      c.value = Dec.value { digits := [1, 5], scale := 1 } *
        Dec.value { neg := true, digits := [2, 5], scale := 2 } := by
  obtain ⟨_, _, _, _, c, result, normal, exactly, _⟩ := @arithmetic_exact
    { digits := [1, 5], scale := 1 } { neg := true, digits := [2, 5], scale := 2 }
    ⟨⟨by decide, by decide⟩, by decide⟩ ⟨⟨by decide, by decide⟩, by decide⟩
  have columns : ColumnsFit [1, 5] [2, 5] := by
    simp [ColumnsFit, columnSums, positions, ColumnsBelow]
  exact ⟨c, result, normal, (exactly (by decide)).2.mpr columns⟩

end NoidaDb.Sql
