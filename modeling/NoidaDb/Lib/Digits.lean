/-
Numbers written as digits, most significant digit first.

Digit vectors without leading zeros compare by length first, and then digit by digit.
-/

import Mathlib.Data.Nat.Digits.Lemmas
import Mathlib.Data.Rat.Floor
import Mathlib.Tactic.Positivity

namespace NoidaDb.Lib

/-- The number that digits in base `b` stand for. -/
def numberOf (b : Nat) (digits : List Nat) : Nat := Nat.ofDigits b digits.reverse

section Digits

variable {b : Nat}

@[simp] theorem numberOf_nil : numberOf b [] = 0 := rfl

theorem numberOf_append (xs ys : List Nat) :
    numberOf b (xs ++ ys) = numberOf b xs * b ^ ys.length + numberOf b ys := by
  unfold numberOf
  rw [List.reverse_append, Nat.ofDigits_append, List.length_reverse]
  ring

theorem numberOf_cons (x : Nat) (xs : List Nat) :
    numberOf b (x :: xs) = x * b ^ xs.length + numberOf b xs := by
  have single : numberOf b [x] = x := by simp [numberOf]
  rw [← List.singleton_append, numberOf_append, single]

@[simp] theorem numberOf_zeros (n : Nat) : numberOf b (List.replicate n 0) = 0 := by
  simp [numberOf]

theorem numberOf_append_zeros (xs : List Nat) (n : Nat) :
    numberOf b (xs ++ List.replicate n 0) = numberOf b xs * b ^ n := by
  rw [numberOf_append, numberOf_zeros, List.length_replicate, Nat.add_zero]

theorem numberOf_lt {xs : List Nat} (base : 1 < b) (below : ∀ x ∈ xs, x < b) :
    numberOf b xs < b ^ xs.length := by
  rw [← List.length_reverse]
  apply Nat.ofDigits_lt_base_pow_length base
  intro x member
  exact below x (List.mem_reverse.mp member)

theorem numberOf_dropZeros (xs : List Nat) :
    numberOf b (xs.dropWhile (fun d => d == 0)) = numberOf b xs := by
  induction xs with
  | nil => rfl
  | cons x rest ih =>
    by_cases isZero : x = 0
    · subst isZero
      rw [List.dropWhile_cons_of_pos (by simp), ih, numberOf_cons, Nat.zero_mul, Nat.zero_add]
    · rw [List.dropWhile_cons_of_neg (by simpa using isZero)]

theorem head_dropZeros (xs : List Nat) : (xs.dropWhile (fun d => d == 0)).head? ≠ some 0 := by
  induction xs with
  | nil => simp
  | cons x rest ih =>
    by_cases isZero : x = 0
    · rw [List.dropWhile_cons_of_pos (by simpa using isZero)]
      exact ih
    · rw [List.dropWhile_cons_of_neg (by simpa using isZero)]
      simpa using isZero

variable {xs ys : List Nat}

theorem pow_le_numberOf {x : Nat} (leads : (x :: xs).head? ≠ some 0) :
    b ^ xs.length ≤ numberOf b (x :: xs) := by
  have isPositive : 0 < x := by
    apply Nat.pos_of_ne_zero
    intro isZero
    simp [isZero] at leads
  rw [numberOf_cons]
  calc b ^ xs.length ≤ x * b ^ xs.length := Nat.le_mul_of_pos_left _ isPositive
    _ ≤ x * b ^ xs.length + numberOf b xs := Nat.le_add_right _ _

theorem numberOf_pos (base : 0 < b) (leads : xs.head? ≠ some 0) (some : xs ≠ []) :
    0 < numberOf b xs := by
  cases xs with
  | nil => exact (some rfl).elim
  | cons x rest => exact Nat.lt_of_lt_of_le (Nat.pow_pos base) (pow_le_numberOf leads)

theorem numberOf_lt_of_length (base : 1 < b) (below : ∀ x ∈ xs, x < b) (leads : ys.head? ≠ some 0)
    (shorter : xs.length < ys.length) : numberOf b xs < numberOf b ys := by
  cases ys with
  | nil => simp at shorter
  | cons y rest =>
    calc numberOf b xs < b ^ xs.length := numberOf_lt base below
      _ ≤ b ^ rest.length := Nat.pow_le_pow_right (Nat.lt_trans Nat.zero_lt_one base)
          (by simpa [Nat.lt_succ_iff] using shorter)
      _ ≤ numberOf b (y :: rest) := pow_le_numberOf leads

theorem compare_of_length (base : 1 < b) (belowX : ∀ x ∈ xs, x < b) (belowY : ∀ y ∈ ys, y < b)
    (same : xs.length = ys.length) : compare xs ys = compare (numberOf b xs) (numberOf b ys) := by
  induction xs generalizing ys with
  | nil =>
    rw [List.length_eq_zero_iff.mp same.symm]
    rfl
  | cons x xs ih =>
    cases ys with
    | nil => simp at same
    | cons y ys =>
      obtain ⟨belowX, belowXs⟩ := List.forall_mem_cons.mp belowX
      obtain ⟨belowY, belowYs⟩ := List.forall_mem_cons.mp belowY
      simp only [List.length_cons, Nat.add_right_cancel_iff] at same
      have lowX := numberOf_lt base belowXs
      have lowY := numberOf_lt base belowYs
      rw [same] at lowX
      have step : compare (x :: xs) (y :: ys) = (compare x y).then (compare xs ys) :=
        List.compareLex_cons_cons
      rw [step, ih belowXs belowYs same, numberOf_cons, numberOf_cons, same]
      rcases Nat.lt_trichotomy x y with less | isSame | more
      · have above : (x + 1) * b ^ ys.length ≤ y * b ^ ys.length := Nat.mul_le_mul_right _ less
        have whole : x * b ^ ys.length + numberOf b xs < y * b ^ ys.length + numberOf b ys := by
          linarith
        rw [compare_lt_iff_lt.mpr less, compare_lt_iff_lt.mpr whole]
        rfl
      · rw [isSame, compare_eq_iff_eq.mpr (rfl : y = y), Ordering.then]
        rcases Nat.lt_trichotomy (numberOf b xs) (numberOf b ys) with less | isSame | more
        · rw [compare_lt_iff_lt.mpr less, eq_comm, compare_lt_iff_lt]
          linarith
        · simp [isSame]
        · rw [compare_gt_iff_gt.mpr more, eq_comm, compare_gt_iff_gt]
          linarith
      · have above : (y + 1) * b ^ ys.length ≤ x * b ^ ys.length := Nat.mul_le_mul_right _ more
        have whole : y * b ^ ys.length + numberOf b ys < x * b ^ ys.length + numberOf b xs := by
          linarith
        rw [compare_gt_iff_gt.mpr more, compare_gt_iff_gt.mpr whole]
        rfl

theorem compare_numberOf (base : 1 < b) (belowX : ∀ x ∈ xs, x < b) (belowY : ∀ y ∈ ys, y < b)
    (leadsX : xs.head? ≠ some 0) (leadsY : ys.head? ≠ some 0) :
    (compare xs.length ys.length).then (compare xs ys) =
      compare (numberOf b xs) (numberOf b ys) := by
  rcases Nat.lt_trichotomy xs.length ys.length with shorter | same | longer
  · rw [compare_lt_iff_lt.mpr shorter,
      compare_lt_iff_lt.mpr (numberOf_lt_of_length base belowX leadsY shorter)]
    rfl
  · rw [compare_eq_iff_eq.mpr same, ← compare_of_length base belowX belowY same]
    rfl
  · rw [compare_gt_iff_gt.mpr longer,
      compare_gt_iff_gt.mpr (numberOf_lt_of_length base belowY leadsX longer)]
    rfl

theorem digits_below (n : Nat) : ∀ d ∈ (Nat.digits 10 n).reverse, d < 10 := by
  intro d member
  exact Nat.digits_lt_base (by decide) (List.mem_reverse.mp member)

theorem numberOf_inj (base : 1 < b) (belowX : ∀ x ∈ xs, x < b) (belowY : ∀ y ∈ ys, y < b)
    (leadsX : xs.head? ≠ some 0) (leadsY : ys.head? ≠ some 0)
    (same : numberOf b xs = numberOf b ys) : xs = ys := by
  have lengths : xs.length = ys.length := by
    rcases Nat.lt_trichotomy xs.length ys.length with shorter | equal | longer
    · exact absurd same (Nat.ne_of_lt (numberOf_lt_of_length base belowX leadsY shorter))
    · exact equal
    · exact absurd same (Nat.ne_of_gt (numberOf_lt_of_length base belowY leadsX longer))
  apply List.reverse_injective
  apply Nat.ofDigits_inj_of_len_eq base
  · rw [List.length_reverse, List.length_reverse, lengths]
  · exact fun x member => belowX x (List.mem_reverse.mp member)
  · exact fun y member => belowY y (List.mem_reverse.mp member)
  · exact same

end Digits

/-- `x` to some decimal places, half away from zero. -/
def roundAway (x : Rat) (places : Nat) : Rat :=
  if x < 0 then -(⌊-x * 10 ^ places + 1 / 2⌋ / 10 ^ places) else ⌊x * 10 ^ places + 1 / 2⌋ / 10 ^ places

theorem roundAway_neg (x : Rat) (places : Nat) : roundAway (-x) places = -roundAway x places := by
  unfold roundAway
  rcases lt_trichotomy x 0 with less | isZero | more
  · rw [if_neg (by linarith), if_pos less, neg_neg]
  · have half : ⌊(2⁻¹ : Rat)⌋ = 0 := by norm_num [Int.floor_eq_iff]
    simp [isZero, half]
  · rw [if_pos (by linarith), if_neg (by linarith), neg_neg]

theorem roundAway_of_nat (n drop places : Nat) :
    roundAway (n / 10 ^ (places + drop)) places =
      ((2 * n + 10 ^ drop) / (2 * 10 ^ drop) : Nat) / 10 ^ places := by
  have nonneg : ¬ (n / 10 ^ (places + drop) : Rat) < 0 := not_lt.mpr (by positivity)
  unfold roundAway
  rw [if_neg nonneg]
  have same : (n / 10 ^ (places + drop) * 10 ^ places + 1 / 2 : Rat) =
      ((2 * n + 10 ^ drop : Nat) : Rat) / ((2 * 10 ^ drop : Nat) : Rat) := by
    push_cast
    rw [pow_add]
    field_simp
  rw [same, Rat.floor_natCast_div_natCast, ← Int.natCast_div, Int.cast_natCast]

end NoidaDb.Lib
