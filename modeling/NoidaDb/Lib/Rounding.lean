/-
Rounding to whole numbers and to decimal places: half away from zero, and towards zero.
-/

import NoidaDb.Lib.Digits
import Mathlib.Algebra.Order.Field.Power

namespace NoidaDb.Lib

def nearestInt (x : Rat) : Int := if x < 0 then -⌊-x + 1 / 2⌋ else ⌊x + 1 / 2⌋

def truncInt (x : Rat) : Int := if x < 0 then -⌊-x⌋ else ⌊x⌋

def wholeInt (truncate : Bool) (x : Rat) : Int := if truncate then truncInt x else nearestInt x

def roundAt (truncate : Bool) (x : Rat) (scale : Int) : Rat :=
  wholeInt truncate (x * 10 ^ scale) / 10 ^ scale

/-- The multiple of 10^-scale that is nearest to `x`; halves go away from zero. -/
structure Nearest (x : Rat) (scale : Int) (r : Rat) : Prop where
  multiple : ∃ i : Int, r = i * 10 ^ (-scale)
  near : |x - r| ≤ 10 ^ (-scale) / 2
  away : |x - r| = 10 ^ (-scale) / 2 → |x| < |r|

/-- The multiple of 10^-scale that `x` comes to towards zero. -/
structure Truncated (x : Rat) (scale : Int) (r : Rat) : Prop where
  multiple : ∃ i : Int, r = i * 10 ^ (-scale)
  near : |x - r| < 10 ^ (-scale)
  inside : 0 ≤ x ∧ 0 ≤ r ∧ r ≤ x ∨ x ≤ 0 ∧ x ≤ r ∧ r ≤ 0

theorem nearestInt_int (i : Int) : nearestInt i = i := by
  have half : ∀ j : Int, ⌊(j : Rat) + 1 / 2⌋ = j := by
    intro j
    rw [Int.floor_eq_iff]
    constructor
    · linarith
    · linarith
  unfold nearestInt
  split
  · rw [← Int.cast_neg, half, neg_neg]
  · exact half i

variable {x : Rat}

theorem nearestInt_mono {k : Int} (atMost : x ≤ k) : nearestInt x ≤ k := by
  unfold nearestInt
  split
  · have low : -(k : Rat) < ⌊-x + 1 / 2⌋ + 1 := by
      have isFloor := Int.lt_floor_add_one (-x + 1 / 2)
      linarith
    have low : -k < ⌊-x + 1 / 2⌋ + 1 := by exact_mod_cast low
    omega
  · have isFloor := Int.floor_le (x + 1 / 2)
    have high : (⌊x + 1 / 2⌋ : Rat) < k + 1 := by linarith
    have high : ⌊x + 1 / 2⌋ < k + 1 := by exact_mod_cast high
    omega

theorem nearestInt_atLeast {k : Int} (atLeast : (k : Rat) ≤ x) : k ≤ nearestInt x := by
  unfold nearestInt
  split
  · have isFloor := Int.floor_le (-x + 1 / 2)
    have low : (k : Rat) < -⌊-x + 1 / 2⌋ + 1 := by linarith
    have low : k < -⌊-x + 1 / 2⌋ + 1 := by exact_mod_cast low
    omega
  · have isFloor := Int.lt_floor_add_one (x + 1 / 2)
    have high : (k : Rat) < ⌊x + 1 / 2⌋ + 1 := by linarith
    have high : k < ⌊x + 1 / 2⌋ + 1 := by exact_mod_cast high
    omega

theorem nearestInt_neg (x : Rat) : nearestInt (-x) = -nearestInt x := by
  unfold nearestInt
  rcases lt_trichotomy x 0 with less | isZero | more
  · rw [if_neg (by linarith), if_pos less, neg_neg]
  · have half : ⌊(2⁻¹ : Rat)⌋ = 0 := by norm_num [Int.floor_eq_iff]
    simp [isZero, half]
  · rw [if_pos (by linarith), if_neg (by linarith), neg_neg]

theorem nearestInt_monotone {y : Rat} (atMost : x ≤ y) : nearestInt x ≤ nearestInt y := by
  unfold nearestInt
  by_cases negX : x < 0
  · rw [if_pos negX]
    by_cases negY : y < 0
    · rw [if_pos negY]
      exact neg_le_neg (Int.floor_mono (by linarith))
    · rw [if_neg negY]
      have low : 0 ≤ ⌊-x + 1 / 2⌋ := Int.floor_nonneg.mpr (by linarith)
      have high : 0 ≤ ⌊y + 1 / 2⌋ := Int.floor_nonneg.mpr (by linarith)
      omega
  · rw [if_neg negX, if_neg (by linarith)]
    exact Int.floor_mono (by linarith)

theorem abs_sub_nearestInt (x : Rat) : |x - nearestInt x| ≤ 1 / 2 := by
  unfold nearestInt
  rw [abs_le]
  split
  · have low := Int.floor_le (-x + 1 / 2)
    have high := Int.lt_floor_add_one (-x + 1 / 2)
    push_cast
    constructor
    · linarith
    · linarith
  · have low := Int.floor_le (x + 1 / 2)
    have high := Int.lt_floor_add_one (x + 1 / 2)
    constructor
    · linarith
    · linarith

theorem abs_lt_nearestInt (isHalf : |x - nearestInt x| = 1 / 2) : |x| < |(nearestInt x : Rat)| := by
  unfold nearestInt at isHalf ⊢
  by_cases isNeg : x < 0
  · rw [if_pos isNeg] at isHalf ⊢
    have low := Int.floor_le (-x + 1 / 2)
    have high := Int.lt_floor_add_one (-x + 1 / 2)
    push_cast at isHalf ⊢
    rw [abs_of_neg isNeg, abs_neg]
    have above : -x < ⌊-x + 1 / 2⌋ := by
      rcases abs_eq (by norm_num : (0 : Rat) ≤ 1 / 2) |>.mp isHalf with more | less
      · linarith
      · linarith
    exact lt_of_lt_of_le above (le_abs_self _)
  · rw [if_neg isNeg] at isHalf ⊢
    have low := Int.floor_le (x + 1 / 2)
    have high := Int.lt_floor_add_one (x + 1 / 2)
    rw [abs_of_nonneg (not_lt.mp isNeg)]
    have above : x < ⌊x + 1 / 2⌋ := by
      rcases abs_eq (by norm_num : (0 : Rat) ≤ 1 / 2) |>.mp isHalf with more | less
      · linarith
      · linarith
    exact lt_of_lt_of_le above (le_abs_self _)

theorem truncInt_int (i : Int) : truncInt i = i := by
  unfold truncInt
  split
  · rw [← Int.cast_neg, Int.floor_intCast, neg_neg]
  · exact Int.floor_intCast i

theorem truncInt_neg (x : Rat) : truncInt (-x) = -truncInt x := by
  unfold truncInt
  rcases lt_trichotomy x 0 with less | isZero | more
  · rw [if_neg (by linarith), if_pos less, neg_neg]
  · simp [isZero]
  · rw [if_pos (by linarith), if_neg (by linarith), neg_neg]

theorem truncInt_monotone {y : Rat} (atMost : x ≤ y) : truncInt x ≤ truncInt y := by
  unfold truncInt
  by_cases negX : x < 0
  · rw [if_pos negX]
    by_cases negY : y < 0
    · rw [if_pos negY]
      exact neg_le_neg (Int.floor_mono (by linarith))
    · rw [if_neg negY]
      have low : 0 ≤ ⌊-x⌋ := Int.floor_nonneg.mpr (by linarith)
      have high : 0 ≤ ⌊y⌋ := Int.floor_nonneg.mpr (by linarith)
      omega
  · rw [if_neg negX, if_neg (by linarith)]
    exact Int.floor_mono (by linarith)

theorem truncInt_between (x : Rat) :
    (0 ≤ x → 0 ≤ (truncInt x : Rat) ∧ (truncInt x : Rat) ≤ x ∧ x < truncInt x + 1) ∧
      (x ≤ 0 → (truncInt x : Rat) ≤ 0 ∧ x ≤ truncInt x ∧ (truncInt x : Rat) - 1 < x) := by
  have nonneg : ∀ y : Rat, 0 ≤ y →
      0 ≤ (truncInt y : Rat) ∧ (truncInt y : Rat) ≤ y ∧ y < truncInt y + 1 := by
    intro y isNonneg
    unfold truncInt
    rw [if_neg (not_lt.mpr isNonneg)]
    exact ⟨by exact_mod_cast Int.floor_nonneg.mpr isNonneg, Int.floor_le y, Int.lt_floor_add_one y⟩
  refine ⟨nonneg x, ?_⟩
  intro isNeg
  obtain ⟨low, high, near⟩ := nonneg (-x) (by linarith)
  rw [truncInt_neg] at low high near
  push_cast at low high near
  refine ⟨by linarith, by linarith, by linarith⟩

section Both

variable (truncate : Bool)

theorem wholeInt_int (i : Int) : wholeInt truncate i = i := by
  cases truncate with
  | true => exact truncInt_int i
  | false => exact nearestInt_int i

theorem wholeInt_neg (x : Rat) : wholeInt truncate (-x) = -wholeInt truncate x := by
  cases truncate with
  | true => exact truncInt_neg x
  | false => exact nearestInt_neg x

theorem wholeInt_monotone {x y : Rat} (atMost : x ≤ y) :
    wholeInt truncate x ≤ wholeInt truncate y := by
  cases truncate with
  | true => exact truncInt_monotone atMost
  | false => exact nearestInt_monotone atMost

def wholeDiv (n p : Nat) : Nat := if truncate then n / p else (2 * n + p) / (2 * p)

theorem wholeInt_div (n : Nat) {p : Nat} (unit : 0 < p) :
    wholeInt truncate (n / p) = wholeDiv truncate n p := by
  have nonneg : ¬ (n / p : Rat) < 0 := not_lt.mpr (by positivity)
  have positive : (0 : Rat) < p := by exact_mod_cast unit
  cases truncate with
  | true =>
    show truncInt _ = ((n / p : Nat) : Int)
    unfold truncInt
    rw [if_neg nonneg, Rat.floor_natCast_div_natCast, Int.natCast_div]
  | false =>
    show nearestInt _ = (((2 * n + p) / (2 * p) : Nat) : Int)
    have same : (n / p + 1 / 2 : Rat) = ((2 * n + p : Nat) : Rat) / ((2 * p : Nat) : Rat) := by
      push_cast
      field_simp
    unfold nearestInt
    rw [if_neg nonneg, same, Rat.floor_natCast_div_natCast, ← Int.natCast_div]

theorem wholeDiv_div_ten (n p : Nat) (unit : 0 < p) :
    wholeDiv truncate (n / p) 10 = wholeDiv truncate n (p * 10) := by
  cases truncate with
  | true => exact Nat.div_div_eq_div_mul n p 10
  | false =>
    show (2 * (n / p) + 10) / (2 * 10) = (2 * n + p * 10) / (2 * (p * 10))
    have halves : (2 * n + p * 10) / (2 * (p * 10)) = (n + p * 5) / p / 10 := by
      rw [Nat.div_div_eq_div_mul]
      have twice : 2 * n + p * 10 = 2 * (n + p * 5) := by ring
      rw [twice, Nat.mul_div_mul_left _ _ (by decide)]
    rw [halves, Nat.add_mul_div_left _ _ unit]
    omega

theorem roundAt_monotone (scale : Int) : Monotone (fun x => roundAt truncate x scale) := by
  intro x y atMost
  have unit : (0 : Rat) < 10 ^ scale := zpow_pos (by norm_num) _
  have scaled : x * 10 ^ scale ≤ y * 10 ^ scale := mul_le_mul_of_nonneg_right atMost (le_of_lt unit)
  show (_ : Rat) / _ ≤ _ / _
  rw [div_le_div_iff_of_pos_right unit]
  exact_mod_cast wholeInt_monotone truncate scaled

theorem roundAt_multiple {x : Rat} {scale : Int} {i : Int} (isInt : x * 10 ^ scale = i) :
    roundAt truncate x scale = x := by
  have unit : (10 : Rat) ^ scale ≠ 0 := zpow_ne_zero _ (by norm_num)
  unfold roundAt
  rw [isInt, wholeInt_int, ← isInt, mul_div_cancel_right₀ _ unit]

theorem roundAt_eq (x : Rat) (scale : Int) :
    roundAt truncate x scale = wholeInt truncate (x * 10 ^ scale) * 10 ^ (-scale) := by
  unfold roundAt
  rw [zpow_neg, div_eq_mul_inv]

end Both

theorem sub_roundAt (truncate : Bool) (x : Rat) (scale : Int) :
    x - roundAt truncate x scale =
      (x * 10 ^ scale - wholeInt truncate (x * 10 ^ scale)) * 10 ^ (-scale) := by
  have unit : (10 : Rat) ^ scale * 10 ^ (-scale) = 1 := by
    rw [← zpow_add₀ (by norm_num), add_neg_cancel, zpow_zero]
  rw [roundAt_eq, sub_mul, mul_assoc, unit, mul_one]

theorem roundAt_nearest (x : Rat) (scale : Int) : Nearest x scale (roundAt false x scale) := by
  have unit : (0 : Rat) < 10 ^ (-scale) := zpow_pos (by norm_num) _
  have distance := sub_roundAt false x scale
  have near := abs_sub_nearestInt (x * 10 ^ scale)
  refine ⟨⟨_, roundAt_eq false x scale⟩, ?_, ?_⟩
  · rw [distance, abs_mul, abs_of_pos unit]
    have scaled := mul_le_mul_of_nonneg_right near (le_of_lt unit)
    show |x * 10 ^ scale - nearestInt (x * 10 ^ scale)| * 10 ^ (-scale) ≤ _
    linarith
  · intro isHalf
    rw [distance, abs_mul, abs_of_pos unit] at isHalf
    have isHalf : |x * 10 ^ scale - nearestInt (x * 10 ^ scale)| = 1 / 2 := by
      apply mul_right_cancel₀ (ne_of_gt unit)
      rw [one_div, inv_mul_eq_div]
      exact isHalf
    have away := mul_lt_mul_of_pos_right (abs_lt_nearestInt isHalf) unit
    have back : x * 10 ^ scale * 10 ^ (-scale) = x := by
      rw [mul_assoc, ← zpow_add₀ (by norm_num), add_neg_cancel, zpow_zero, mul_one]
    calc |x| = |x * 10 ^ scale| * 10 ^ (-scale) := by
          conv_lhs => rw [← back]
          rw [abs_mul, abs_of_pos unit]
      _ < |(nearestInt (x * 10 ^ scale) : Rat)| * 10 ^ (-scale) := away
      _ = |roundAt false x scale| := by
          rw [roundAt_eq, abs_mul, abs_of_pos unit]
          rfl

theorem roundAt_truncated (x : Rat) (scale : Int) : Truncated x scale (roundAt true x scale) := by
  have unit : (0 : Rat) < 10 ^ (-scale) := zpow_pos (by norm_num) _
  have power : (0 : Rat) < 10 ^ scale := zpow_pos (by norm_num) _
  have distance := sub_roundAt true x scale
  have isWhole : wholeInt true (x * 10 ^ scale) = truncInt (x * 10 ^ scale) := rfl
  have result := roundAt_eq true x scale
  rw [isWhole] at distance result
  obtain ⟨above, below⟩ := truncInt_between (x * 10 ^ scale)
  generalize (truncInt (x * 10 ^ scale) : Rat) = whole at distance result above below
  refine ⟨⟨_, roundAt_eq true x scale⟩, ?_, ?_⟩
  · rw [distance, abs_mul, abs_of_pos unit]
    have less : |x * 10 ^ scale - whole| < 1 := by
      rw [abs_lt]
      rcases le_total 0 (x * 10 ^ scale) with nonneg | nonpos
      · obtain ⟨_, low, high⟩ := above nonneg
        exact ⟨by linarith, by linarith⟩
      · obtain ⟨_, high, low⟩ := below nonpos
        exact ⟨by linarith, by linarith⟩
    have scaled := mul_lt_mul_of_pos_right less unit
    rwa [one_mul] at scaled
  · rcases le_total 0 x with nonneg | nonpos
    · obtain ⟨low, high, _⟩ := above (mul_nonneg nonneg (le_of_lt power))
      refine .inl ⟨nonneg, ?_, ?_⟩
      · rw [result]
        exact mul_nonneg low (le_of_lt unit)
      · have rest : 0 ≤ (x * 10 ^ scale - whole) * 10 ^ (-scale) :=
          mul_nonneg (by linarith) (le_of_lt unit)
        linarith
    · obtain ⟨high, low, _⟩ := below (mul_nonpos_of_nonpos_of_nonneg nonpos (le_of_lt power))
      refine .inr ⟨nonpos, ?_, ?_⟩
      · have rest : (x * 10 ^ scale - whole) * 10 ^ (-scale) ≤ 0 :=
          mul_nonpos_of_nonpos_of_nonneg (by linarith) (le_of_lt unit)
        linarith
      · rw [result]
        exact mul_nonpos_of_nonpos_of_nonneg high (le_of_lt unit)

theorem roundAt_idempotent (truncate : Bool) (x : Rat) (scale : Int) :
    roundAt truncate (roundAt truncate x scale) scale = roundAt truncate x scale := by
  apply roundAt_multiple truncate (i := wholeInt truncate (x * 10 ^ scale))
  have unit : (10 : Rat) ^ scale ≠ 0 := zpow_ne_zero _ (by norm_num)
  unfold roundAt
  rw [div_mul_cancel₀ _ unit]

theorem roundAway_scaled (x : Rat) (places : Nat) :
    roundAway x places = nearestInt (x * 10 ^ places) / 10 ^ places := by
  have unit : (0 : Rat) < 10 ^ places := by positivity
  unfold roundAway nearestInt
  by_cases isNeg : x < 0
  · rw [if_pos isNeg, if_pos (mul_neg_of_neg_of_pos isNeg unit), Int.cast_neg, neg_div, neg_mul]
  · rw [if_neg isNeg, if_neg (not_lt.mpr (mul_nonneg (not_lt.mp isNeg) (le_of_lt unit)))]

theorem roundAway_eq_roundAt (x : Rat) (places : Nat) : roundAway x places = roundAt false x places := by
  rw [roundAway_scaled]
  unfold roundAt wholeInt
  rw [zpow_natCast]
  rfl

end NoidaDb.Lib
