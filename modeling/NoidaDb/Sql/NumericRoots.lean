/-
The square root of numerics: two digits at a time, with one digit more than is shown.
-/

import NoidaDb.Sql.NumericDivision

namespace NoidaDb.Sql

open Lib

def rootDigit (base rem : List Nat) : Nat → Nat × List Nat
  | 0 =>
    let t := mulMag (addMag base [0]) [0]
    if cmpMag t rem ≠ .gt then (0, subMag rem t) else (0, rem)
  | cand + 1 =>
    let t := mulMag (addMag base [cand + 1]) [cand + 1]
    if cmpMag t rem ≠ .gt then (cand + 1, subMag rem t) else rootDigit base rem cand

def rootStep (state : List Nat × List Nat) (pair : Nat × Nat) : List Nat × List Nat :=
  let rem := strip (state.1 ++ [pair.1, pair.2])
  let picked := rootDigit (mulMag state.2 [2, 0]) rem 9
  (picked.2, strip (state.2 ++ [picked.1]))

/-- `chunks(2)` of an even number of digits. -/
def pairs : List Nat → List (Nat × Nat)
  | x :: y :: rest => (x, y) :: pairs rest
  | _ => []

def isqrt (n : List Nat) : List Nat :=
  if n = [] then []
  else
    let digits := if n.length % 2 = 1 then 0 :: n else n
    ((pairs digits).foldl rootStep ([], [])).2

namespace Numeric

def sqrt : Numeric → Option Numeric
  | nan => some nan
  | inf neg => if neg then none else some (inf false)
  | fin d =>
    if d.neg then none
    else
      let sweight := ((d.nbaseWeight.1 + 1) * 4).tdiv 2 - 1
      let rscale : Int := max 0 (min maxDisplayScale (max (minSigDigits - sweight) d.scale))
      let work := rscale + 1
      let shift := 2 * work - d.scale
      let n :=
        if 0 ≤ shift then d.digits ++ List.replicate shift.toNat 0
        else d.digits.take (d.digits.length - (-shift).toNat)
      let r := { digits := isqrt (strip n), scale := work.toNat % 2 ^ 32 : Dec }.normalize
      some (fin (r.roundTo rscale false))

end Numeric

section Digit

variable {base rem : List Nat} (isBase : Magnitude base)

include isBase

theorem candidate_exact {cand : Nat} (isDigit : cand < 10) :
    numberOf 10 (mulMag (addMag base [cand]) [cand]) = (numberOf 10 base + cand) * cand ∧
      Magnitude (mulMag (addMag base [cand]) [cand]) := by
  have single : ∀ x ∈ [cand], x < 10 := by simpa using isDigit
  have isSum := magnitude_addMag base [cand]
  have number : numberOf 10 [cand] = cand := by simp [numberOf]
  refine ⟨?_, magnitude_mulMag isSum.digits single⟩
  rw [(numberOf_mulMag_iff isSum.digits single).mpr
    (columnsFit_of_length isSum.digits single (show 81 * 1 < 2 ^ 31 by decide)),
    numberOf_addMag isBase.digits single, number]

theorem rootDigit_exact (isRem : Magnitude rem) {most : Nat} (isDigit : most < 10) :
    (rootDigit base rem most).1 ≤ most ∧
      (numberOf 10 base + (rootDigit base rem most).1) * (rootDigit base rem most).1 +
        numberOf 10 (rootDigit base rem most).2 = numberOf 10 rem ∧
      Magnitude (rootDigit base rem most).2 ∧
      ∀ x ≤ most, (numberOf 10 base + x) * x ≤ numberOf 10 rem → x ≤ (rootDigit base rem most).1 := by
  induction most with
  | zero =>
    obtain ⟨value, magnitude⟩ := candidate_exact isBase isDigit
    rw [Nat.mul_zero] at value
    have fits : cmpMag (mulMag (addMag base [0]) [0]) rem ≠ .gt := by
      rw [cmpMag_eq magnitude isRem, value]
      intro greater
      exact Nat.not_lt_zero _ (compare_gt_iff_gt.mp greater)
    have left := numberOf_subMag isRem.digits magnitude.digits (by omega)
    rw [rootDigit, if_pos fits]
    refine ⟨Nat.le_refl 0, ?_, magnitude_subMag isRem.digits _, fun x atMost _ => atMost⟩
    rw [Nat.mul_zero]
    show 0 + numberOf 10 (subMag rem _) = _
    omega
  | succ most ih =>
    obtain ⟨value, magnitude⟩ := candidate_exact isBase isDigit
    rw [rootDigit]
    by_cases fits : (numberOf 10 base + (most + 1)) * (most + 1) ≤ numberOf 10 rem
    · have notGreater : cmpMag (mulMag (addMag base [most + 1]) [most + 1]) rem ≠ .gt := by
        rw [cmpMag_eq magnitude isRem, value]
        intro greater
        exact Nat.not_lt.mpr fits (compare_gt_iff_gt.mp greater)
      have left := numberOf_subMag isRem.digits magnitude.digits (by omega)
      rw [if_pos notGreater]
      refine ⟨Nat.le_refl _, ?_, magnitude_subMag isRem.digits _, fun x atMost _ => atMost⟩
      rw [← value]
      show _ + numberOf 10 (subMag rem _) = _
      omega
    · have greater : cmpMag (mulMag (addMag base [most + 1]) [most + 1]) rem = .gt := by
        rw [cmpMag_eq magnitude isRem, value]
        exact compare_gt_iff_gt.mpr (Nat.lt_of_not_le fits)
      rw [if_neg (not_not.mpr greater)]
      obtain ⟨atMost, sum, isLeft, largest⟩ := ih (by omega)
      refine ⟨by omega, sum, isLeft, ?_⟩
      intro x below inside
      apply largest x _ inside
      rcases Nat.lt_or_eq_of_le below with less | equal
      · omega
      · subst equal
        exact (fits inside).elim

end Digit

structure RootOf (prefix' : Nat) (state : List Nat × List Nat) : Prop where
  rem : Magnitude state.1
  root : Magnitude state.2
  sum : numberOf 10 state.2 * numberOf 10 state.2 + numberOf 10 state.1 = prefix'
  less : prefix' < (numberOf 10 state.2 + 1) * (numberOf 10 state.2 + 1)

theorem rootStep_exact {prefix' : Nat} {state : List Nat × List Nat} (rootOf : RootOf prefix' state)
    {pair : Nat × Nat} (isFirst : pair.1 < 10) (isSecond : pair.2 < 10) :
    RootOf (prefix' * 100 + (pair.1 * 10 + pair.2)) (rootStep state pair) := by
  have twenty : ∀ x ∈ [2, 0], x < 10 := by decide
  have isBase := magnitude_mulMag rootOf.root.digits twenty
  have base : numberOf 10 (mulMag state.2 [2, 0]) = numberOf 10 state.2 * 20 :=
    (numberOf_mulMag_iff rootOf.root.digits twenty).mpr
      (columnsFit_of_length rootOf.root.digits twenty (by decide))
  have isRem : Magnitude (strip (state.1 ++ [pair.1, pair.2])) := by
    apply magnitude_strip
    intro x member
    rcases List.mem_append.mp member with inRem | inPair
    · exact rootOf.rem.digits x inRem
    · simp only [List.mem_cons, List.not_mem_nil, or_false] at inPair
      rcases inPair with rfl | rfl
      · exact isFirst
      · exact isSecond
  have rem : numberOf 10 (strip (state.1 ++ [pair.1, pair.2])) =
      numberOf 10 state.1 * 100 + (pair.1 * 10 + pair.2) := by
    rw [numberOf_strip, numberOf_append]
    simp [numberOf, Nat.ofDigits_cons]
    ring
  obtain ⟨atMost, left, isLeft, largest⟩ := rootDigit_exact isBase isRem (show 9 < 10 by decide)
  rw [rem, base] at left largest
  have sum := rootOf.sum
  have less := rootOf.less
  unfold rootStep
  simp only
  generalize rootDigit (mulMag state.2 [2, 0]) (strip (state.1 ++ [pair.1, pair.2])) 9 = picked
    at atMost left isLeft largest ⊢
  have root : numberOf 10 (strip (state.2 ++ [picked.1])) = numberOf 10 state.2 * 10 + picked.1 := by
    rw [numberOf_strip, numberOf_append]
    simp [numberOf]
  refine ⟨isLeft, ?_, ?_, ?_⟩
  · apply magnitude_strip
    intro x member
    rcases List.mem_append.mp member with inRoot | isDigit
    · exact rootOf.root.digits x inRoot
    · rw [List.mem_singleton.mp isDigit]
      omega
  · have expand : (numberOf 10 state.2 * 10 + picked.1) * (numberOf 10 state.2 * 10 + picked.1) =
        numberOf 10 state.2 * numberOf 10 state.2 * 100 +
          (numberOf 10 state.2 * 20 + picked.1) * picked.1 := by ring
    rw [root]
    show _ + numberOf 10 picked.2 = _
    linarith
  · -- One more does not fit, or the next root is ten times the one after the last.
    have expand : (numberOf 10 state.2 * 10 + picked.1 + 1) * (numberOf 10 state.2 * 10 + picked.1 + 1) =
        numberOf 10 state.2 * numberOf 10 state.2 * 100 +
          (numberOf 10 state.2 * 20 + (picked.1 + 1)) * (picked.1 + 1) := by ring
    rw [root, expand]
    by_cases isNine : picked.1 = 9
    · rw [isNine]
      have hundred : numberOf 10 state.2 * numberOf 10 state.2 * 100 +
          (numberOf 10 state.2 * 20 + (9 + 1)) * (9 + 1) =
            (numberOf 10 state.2 + 1) * (numberOf 10 state.2 + 1) * 100 := by ring
      rw [hundred]
      omega
    · have tooLarge : ¬ (numberOf 10 state.2 * 20 + (picked.1 + 1)) * (picked.1 + 1) ≤
          numberOf 10 state.1 * 100 + (pair.1 * 10 + pair.2) := by
        intro inside
        have below := largest (picked.1 + 1) (by omega) inside
        omega
      have tooLarge := Nat.lt_of_not_le tooLarge
      linarith

theorem rootSteps_exact {digits : List Nat} (even : digits.length % 2 = 0)
    (isDigits : ∀ x ∈ digits, x < 10) {prefix' : Nat} {state : List Nat × List Nat}
    (rootOf : RootOf prefix' state) :
    RootOf (prefix' * 10 ^ digits.length + numberOf 10 digits) ((pairs digits).foldl rootStep state) := by
  induction digits using pairs.induct generalizing prefix' state with
  | case1 x y rest ih =>
    obtain ⟨isFirst, isDigits⟩ := List.forall_mem_cons.mp isDigits
    obtain ⟨isSecond, isDigits⟩ := List.forall_mem_cons.mp isDigits
    simp only [List.length_cons] at even
    have later := ih (by omega) isDigits (@rootStep_exact _ _ rootOf (x, y) isFirst isSecond)
    have number : (prefix' * 100 + (x * 10 + y)) * 10 ^ rest.length + numberOf 10 rest =
        prefix' * 10 ^ (x :: y :: rest).length + numberOf 10 (x :: y :: rest) := by
      rw [numberOf_cons, numberOf_cons, List.length_cons, List.length_cons]
      ring
    rw [← number]
    exact later
  | case2 digits noPair =>
    have isNil : digits = [] := by
      cases digits with
      | nil => rfl
      | cons x rest =>
        cases rest with
        | nil => simp at even
        | cons y rest => exact (noPair x y rest rfl).elim
    subst isNil
    simpa [pairs] using rootOf

theorem isqrt_exact {n : List Nat} (isDigits : ∀ x ∈ n, x < 10) :
    numberOf 10 (isqrt n) = Nat.sqrt (numberOf 10 n) ∧ Magnitude (isqrt n) := by
  unfold isqrt
  by_cases isEmpty : n = []
  · rw [if_pos isEmpty, isEmpty]
    exact ⟨rfl, magnitude_nil⟩
  · rw [if_neg isEmpty]
    have initially : RootOf 0 ([], []) := ⟨magnitude_nil, magnitude_nil, rfl, by decide⟩
    have evenly : ∀ digits : List Nat, digits = (if n.length % 2 = 1 then 0 :: n else n) →
        digits.length % 2 = 0 ∧ (∀ x ∈ digits, x < 10) ∧ numberOf 10 digits = numberOf 10 n := by
      rintro digits rfl
      split
      · refine ⟨by rw [List.length_cons]; omega, ?_, ?_⟩
        · exact List.forall_mem_cons.mpr ⟨by decide, isDigits⟩
        · rw [numberOf_cons, Nat.zero_mul, Nat.zero_add]
      · exact ⟨by omega, isDigits, rfl⟩
    simp only
    generalize isPadded : (if n.length % 2 = 1 then 0 :: n else n) = digits
    obtain ⟨even, isDigits, number⟩ := evenly digits isPadded.symm
    have rootOf := rootSteps_exact even isDigits initially
    rw [Nat.zero_mul, Nat.zero_add, number] at rootOf
    refine ⟨?_, rootOf.root⟩
    exact Nat.eq_sqrt.mpr ⟨Nat.le.intro rootOf.sum, rootOf.less⟩

/-- `r` is the square root of `x`, rounded half away from zero to `places`; where that is zero
there is no lower bound. -/
structure IsRounded (x r : Rat) (places : Nat) : Prop where
  multiple : ∃ i : Nat, r = i / 10 ^ places
  low : r ≠ 0 → (2 * r - 1 / 10 ^ places) ^ 2 ≤ 4 * x
  high : 4 * x < (2 * r + 1 / 10 ^ places) ^ 2

theorem isRounded_of_sqrt {x : Rat} {places m : Nat} (low : (m : Rat) ≤ x * 10 ^ (2 * (places + 1)))
    (high : x * 10 ^ (2 * (places + 1)) < m + 1) :
    IsRounded x (wholeDiv false (Nat.sqrt m) 10 / 10 ^ places) places := by
  have isHalf : wholeDiv false (Nat.sqrt m) 10 = (2 * Nat.sqrt m + 10) / 20 := rfl
  have atMost : 10 * wholeDiv false (Nat.sqrt m) 10 ≤ Nat.sqrt m + 5 := by
    rw [isHalf]
    omega
  have above : Nat.sqrt m + 1 ≤ 10 * wholeDiv false (Nat.sqrt m) 10 + 5 := by
    rw [isHalf]
    omega
  generalize wholeDiv false (Nat.sqrt m) 10 = k at atMost above
  have unit : (0 : Rat) < 10 ^ places := by positivity
  have power : (10 : Rat) ^ (2 * (places + 1)) = 100 * (10 ^ places) ^ 2 := by
    rw [mul_comm 2, pow_mul, pow_succ]
    ring
  rw [power] at low high
  have square : (0 : Rat) < (10 ^ places) ^ 2 := by positivity
  refine ⟨⟨k, rfl⟩, ?_, ?_⟩
  · intro notZero
    have positive : 1 ≤ k := by
      by_contra isZero
      have isZero : k = 0 := by omega
      apply notZero
      rw [isZero]
      simp
    have root : (10 * k - 5) * (10 * k - 5) ≤ m :=
      Nat.le_trans (Nat.mul_le_mul (by omega) (by omega)) (Nat.sqrt_le m)
    have root : ((10 * k - 5 : Rat)) * (10 * k - 5) ≤ m := by
      have cast : ((10 * k - 5 : Nat) : Rat) = 10 * k - 5 := by
        rw [Nat.cast_sub (by omega)]
        push_cast
        ring
      rw [← cast]
      exact_mod_cast root
    have same : (2 * (k / 10 ^ places) - 1 / 10 ^ places : Rat) ^ 2 =
        (2 * k - 1) ^ 2 / (10 ^ places) ^ 2 := by
      field_simp
    rw [same, div_le_iff₀ square]
    linarith
  · have root : m < (10 * k + 5) * (10 * k + 5) :=
      Nat.lt_of_lt_of_le (Nat.lt_succ_sqrt m) (Nat.mul_le_mul above above)
    have root : (m : Rat) + 1 ≤ (10 * k + 5) * (10 * k + 5) := by exact_mod_cast root
    have same : (2 * (k / 10 ^ places) + 1 / 10 ^ places : Rat) ^ 2 =
        (2 * k + 1) ^ 2 / (10 ^ places) ^ 2 := by
      field_simp
    rw [same, lt_div_iff₀ square]
    linarith

theorem underRoot_exact {d : Dec} (normal : d.Normal) (nonneg : d.neg = false) (twice : Nat) {n : List Nat}
    (isN : n = if 0 ≤ (twice : Int) - d.scale then
        d.digits ++ List.replicate ((twice : Int) - d.scale).toNat 0
      else d.digits.take (d.digits.length - (-((twice : Int) - d.scale)).toNat)) :
    (numberOf 10 n : Rat) ≤ d.value * 10 ^ twice ∧ d.value * 10 ^ twice < numberOf 10 n + 1 ∧
      ∀ x ∈ n, x < 10 := by
  have value : d.value = numberOf 10 d.digits / 10 ^ d.scale := by
    unfold Dec.value Dec.sign
    rw [nonneg]
    simp
  rw [value, isN]
  by_cases more : 0 ≤ (twice : Int) - d.scale
  · rw [if_pos more]
    have shifted : (numberOf 10 d.digits / 10 ^ d.scale * 10 ^ twice : Rat) =
        numberOf 10 (d.digits ++ List.replicate ((twice : Int) - d.scale).toNat 0) := by
      have places : twice = d.scale + ((twice : Int) - d.scale).toNat := by omega
      rw [numberOf_append_zeros]
      conv_lhs => rw [places, pow_add]
      push_cast
      field_simp
    rw [shifted]
    refine ⟨le_rfl, lt_add_one _, ?_⟩
    intro x member
    rcases List.mem_append.mp member with inDigits | isZero
    · exact normal.magnitude.digits x inDigits
    · rw [(List.mem_replicate.mp isZero).2]
      decide
  · rw [if_neg more]
    obtain ⟨quotient, _⟩ := cut_eq normal.magnitude.digits (-((twice : Int) - d.scale)).toNat
    have positive : (0 : Rat) < 10 ^ (-((twice : Int) - d.scale)).toNat := by positivity
    have shifted : (numberOf 10 d.digits / 10 ^ d.scale * 10 ^ twice : Rat) =
        numberOf 10 d.digits / 10 ^ (-((twice : Int) - d.scale)).toNat := by
      have places : d.scale = twice + (-((twice : Int) - d.scale)).toNat := by omega
      have power : (10 : Rat) ^ d.scale = 10 ^ twice * 10 ^ (-((twice : Int) - d.scale)).toNat := by
        rw [← pow_add, ← places]
      rw [power]
      field_simp
    rw [shifted, quotient]
    refine ⟨?_, ?_, fun x member => normal.magnitude.digits x (List.mem_of_mem_take member)⟩
    · rw [le_div_iff₀ positive]
      exact_mod_cast Nat.div_mul_le_self _ _
    · rw [div_lt_iff₀ positive]
      exact_mod_cast Nat.lt_mul_of_div_lt (Nat.lt_succ_self _) (Nat.pow_pos (by decide))

theorem sqrt_exact {d : Dec} (normal : d.Normal) (nonneg : 0 ≤ d.value) :
    (∃ r, (Numeric.fin d).sqrt = some (.fin r) ∧ r.Normal ∧ IsRounded d.value r.value r.scale) ∧
    ∀ n : List Nat, (∀ x ∈ n, x < 10) → numberOf 10 (isqrt n) = Nat.sqrt (numberOf 10 n) := by
  refine ⟨?_, fun n isDigits => (isqrt_exact isDigits).1⟩
  have noSign : d.neg = false := by
    cases isNeg : d.neg with
    | false => rfl
    | true => exact absurd (neg_of_sign normal isNeg) (not_lt.mpr nonneg)
  unfold Numeric.sqrt
  simp only [noSign, Bool.false_eq_true, if_false]
  generalize isPlaces : max 0 (min (maxDisplayScale : Int)
    (max (minSigDigits - (((d.nbaseWeight.1 + 1) * 4).tdiv 2 - 1)) d.scale)) = rscale
  obtain ⟨places, rfl⟩ : ∃ places : Nat, rscale = places :=
    ⟨rscale.toNat, by omega⟩
  have small : places ≤ 1000 := by
    have isLimit : (maxDisplayScale : Int) = 1000 := rfl
    omega
  have twice : 2 * ((places : Int) + 1) = ((2 * (places + 1) : Nat) : Int) := by
    push_cast
    ring
  have work : ((places : Int) + 1).toNat % 2 ^ 32 = places + 1 := by omega
  rw [twice, work]
  obtain ⟨low, high, digits⟩ := underRoot_exact normal noSign (2 * (places + 1)) rfl
  generalize (if 0 ≤ ((2 * (places + 1) : Nat) : Int) - d.scale then
      d.digits ++ List.replicate (((2 * (places + 1) : Nat) : Int) - d.scale).toNat 0
    else d.digits.take (d.digits.length - (-(((2 * (places + 1) : Nat) : Int) - d.scale)).toNat)) = n
    at low high digits
  obtain ⟨root, isRoot⟩ := isqrt_exact (magnitude_strip digits).digits
  rw [numberOf_strip] at root
  obtain ⟨value, scale, rounded⟩ := roundTo_value (d := { digits := isqrt (strip n)
                                                          scale := places + 1 : Dec }.normalize)
    false (Dec.normal_normalize isRoot.digits) (places : Int)
  refine ⟨_, rfl, rounded, ?_⟩
  have isScale : (({ digits := isqrt (strip n)
                     scale := places + 1 : Dec }.normalize).roundTo (places : Int) false).scale = places := by
    have current : ({ digits := isqrt (strip n)
                      scale := places + 1 : Dec }.normalize).scale = places + 1 := rfl
    rw [scale, current, roundedScale, if_neg (by omega)]
    omega
  have isValue : (({ digits := isqrt (strip n)
                     scale := places + 1 : Dec }.normalize).roundTo (places : Int) false).value =
      wholeDiv false (Nat.sqrt (numberOf 10 n)) 10 / 10 ^ places := by
    have tenth : Dec.value { digits := isqrt (strip n), scale := places + 1 } * 10 ^ (places : Int) =
        (Nat.sqrt (numberOf 10 n) : Rat) / ((10 : Nat) : Rat) := by
      unfold Dec.value Dec.sign
      simp only [root, Bool.false_eq_true, if_false, one_mul]
      rw [zpow_natCast, pow_succ]
      push_cast
      field_simp
    rw [value, Dec.value_normalize]
    unfold roundAt
    rw [tenth, wholeInt_div false _ (by decide), zpow_natCast, Int.cast_natCast]
  rw [isScale, isValue]
  exact isRounded_of_sqrt low high

theorem sqrt_exact_two :
    (∃ r, (Numeric.fin { digits := [2] }).sqrt = some (.fin r) ∧ r.Normal ∧
      IsRounded (Dec.value { digits := [2] }) r.value r.scale) ∧
    numberOf 10 (isqrt [2, 0, 0]) = Nat.sqrt (numberOf 10 [2, 0, 0]) := by
  obtain ⟨root, whole⟩ := @sqrt_exact { digits := [2] } ⟨⟨by decide, by decide⟩, by decide⟩
    (nonneg_of_sign rfl)
  exact ⟨root, whole [2, 0, 0] (by decide)⟩

end NoidaDb.Sql
