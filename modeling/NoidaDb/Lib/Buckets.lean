/-
Dividing a sequence into buckets of nearly equal size.

The larger buckets come first.  Rounding the position's share down gives buckets of the right
sizes in the right order only for some remainders.
-/

import Mathlib.Data.List.Count
import Mathlib.Tactic.Linarith

namespace NoidaDb.Lib

theorem countP_range_lt {n c : Nat} (upTo : c ≤ n) {passes : Nat → Bool}
    (first : ∀ p, p < n → (passes p = true ↔ p < c)) : (List.range n).countP passes = c := by
  induction n generalizing c with
  | zero =>
    obtain rfl := Nat.le_zero.mp upTo
    rfl
  | succ n ih =>
    rw [List.range_succ, List.countP_append, List.countP_singleton]
    have last := first n (Nat.lt_succ_self n)
    rcases Nat.lt_or_eq_of_le upTo with below | rfl
    · rw [ih (Nat.le_of_lt_succ below) (fun p within => first p (Nat.lt_succ_of_lt within)),
        if_neg (fun passed => Nat.not_lt_of_le (Nat.le_of_lt_succ below) (last.mp passed))]
      rfl
    · rw [ih (Nat.le_refl n) (fun p within => by
          rw [first p (Nat.lt_succ_of_lt within)]
          omega),
        if_pos (last.mpr (Nat.lt_succ_self n))]

theorem first_of_countP_range (passes : Nat → Bool) {n : Nat}
    (antitone : ∀ p, p + 1 < n → passes (p + 1) = true → passes p = true) :
    ∀ p, p < n → (passes p = true ↔ p < (List.range n).countP passes) := by
  induction n with
  | zero =>
    intro p within
    cases within
  | succ n ih =>
    have before := ih (fun p within => antitone p (Nat.lt_succ_of_lt within))
    have bound : (List.range n).countP passes ≤ n := by
      have le := List.countP_le_length (p := passes) (l := List.range n)
      rwa [List.length_range] at le
    rw [List.range_succ, List.countP_append, List.countP_singleton]
    intro p within
    by_cases last : passes n = true
    · -- All of them pass.
      have all : ∀ d, d ≤ n → passes (n - d) = true := by
        intro d le
        induction d with
        | zero => exact last
        | succ d ihd =>
          apply antitone (n - (d + 1)) (by omega)
          rw [show n - (d + 1) + 1 = n - d by omega]
          exact ihd (by omega)
      have whole : (List.range n).countP passes = n := by
        apply countP_range_lt (Nat.le_refl n)
        intro q inside
        have passed := all (n - q) (by omega)
        rw [show n - (n - q) = q by omega] at passed
        exact iff_of_true passed inside
      have passed := all (n - p) (by omega)
      rw [show n - (n - p) = p by omega] at passed
      rw [if_pos last, whole]
      exact iff_of_true passed (by omega)
    · rw [if_neg last, Nat.add_zero]
      rcases Nat.lt_succ_iff_lt_or_eq.mp within with earlier | rfl
      · exact before p earlier
      · exact iff_of_false last (by omega)

/-- The number of positions in bucket `k`. -/
def bucketSize (t : Nat → Int) (n k : Nat) : Nat := (List.range n).countP (fun p => t p == k)

/-- The positions in the buckets up to `k`. -/
def bucketsUpTo (t : Nat → Int) (n k : Nat) : Nat :=
  (List.range n).countP (fun p => decide (t p ≤ k))

/-- The buckets from 1 to `b` in order, none larger than one before, as even as can be. -/
structure EvenBuckets (t : Nat → Int) (n b : Nat) : Prop where
  within : ∀ p, p < n → 1 ≤ t p ∧ t p ≤ b
  mono : ∀ p q, p ≤ q → q < n → t p ≤ t q
  starts : 0 < n → t 0 = 1
  sizes : ∀ k, 1 ≤ k → k ≤ b → bucketSize t n k = n / b ∨ bucketSize t n k = n / b + 1
  ordered : ∀ k, 1 ≤ k → k < b → bucketSize t n (k + 1) ≤ bucketSize t n k
  larger : (List.range b).countP (fun k => bucketSize t n (k + 1) == n / b + 1) = n % b

section Buckets

variable {t : Nat → Int} {n b : Nat}

theorem bucketsUpTo_succ (t : Nat → Int) (n k : Nat) :
    bucketsUpTo t n (k + 1) = bucketsUpTo t n k + bucketSize t n (k + 1) := by
  unfold bucketsUpTo bucketSize
  simp only [Nat.cast_add, Nat.cast_one]
  induction n with
  | zero => rfl
  | succ n ih =>
    simp only [List.range_succ, List.countP_append, List.countP_singleton, ih, decide_eq_true_eq,
      beq_iff_eq]
    by_cases low : t n ≤ k
    · rw [if_pos low, if_pos (by omega), if_neg (by omega)]
      omega
    · by_cases here : t n = k + 1
      · rw [if_neg low, if_pos (by omega), if_pos here]
        omega
      · rw [if_neg low, if_neg (by omega), if_neg here]
        omega

theorem bucketsUpTo_zero (within : ∀ p, p < n → 1 ≤ t p) : bucketsUpTo t n 0 = 0 := by
  apply List.countP_eq_zero.mpr
  intro p member
  have low := within p (List.mem_range.mp member)
  simp only [decide_eq_true_eq]
  omega

theorem EvenBuckets.congr_iff {t' : Nat → Int} (same : ∀ p, p < n → t p = t' p) :
    EvenBuckets t n b ↔ EvenBuckets t' n b := by
  have onward {t t' : Nat → Int} (same : ∀ p, p < n → t p = t' p) (even : EvenBuckets t n b) :
      EvenBuckets t' n b := by
    have sizes : bucketSize t' n = bucketSize t n := by
      funext k
      apply List.countP_congr
      intro p member
      rw [same p (List.mem_range.mp member)]
    constructor
    · intro p within
      rw [← same p within]
      exact even.within p within
    · intro p q le within
      rw [← same p (Nat.lt_of_le_of_lt le within), ← same q within]
      exact even.mono p q le within
    · intro positive
      rw [← same 0 positive]
      exact even.starts positive
    · rw [sizes]
      exact even.sizes
    · rw [sizes]
      exact even.ordered
    · rw [sizes]
      exact even.larger
  exact ⟨onward same, onward (fun p within => (same p within).symm)⟩

theorem EvenBuckets.upTo (even : EvenBuckets t n b) {k : Nat} (upTo : k ≤ b) :
    bucketsUpTo t n k = k * (n / b) + min k (n % b) := by
  have isLarger : ∀ k, k < b → (bucketSize t n (k + 1) = n / b + 1 ↔ k < n % b) := by
    intro k below
    have first := first_of_countP_range
      (fun k => bucketSize t n (k + 1) == n / b + 1) (n := b) (by
        intro k within larger
        rw [beq_iff_eq] at larger ⊢
        have le := even.ordered (k + 1) (by omega) (by omega)
        have size := even.sizes (k + 1) (by omega) (by omega)
        omega) k below
    rwa [beq_iff_eq, even.larger] at first
  induction k with
  | zero =>
    rw [bucketsUpTo_zero (fun p within => (even.within p within).1)]
    omega
  | succ k ih =>
    rw [bucketsUpTo_succ, ih (by omega), Nat.add_mul, Nat.one_mul]
    have here := isLarger k (by omega)
    have size := even.sizes (k + 1) (by omega) upTo
    by_cases larger : k < n % b
    · rw [here.mpr larger]
      omega
    · have smaller := here.not.mpr larger
      omega

theorem evenBuckets_of_upTo (positive : 0 < n) (within : ∀ p, p < n → 1 ≤ t p ∧ t p ≤ b)
    (mono : ∀ p q, p ≤ q → q < n → t p ≤ t q) (starts : t 0 = 1)
    (upTo : ∀ k, k ≤ b → bucketsUpTo t n k = k * (n / b) + min k (n % b)) : EvenBuckets t n b := by
  have bPos : 0 < b := by
    have first := within 0 positive
    omega
  have remainder : n % b < b := Nat.mod_lt n bPos
  have size : ∀ k, k < b → bucketSize t n (k + 1) = n / b + if k < n % b then 1 else 0 := by
    intro k below
    have step := bucketsUpTo_succ t n k
    rw [upTo k (by omega), upTo (k + 1) below, Nat.add_mul, Nat.one_mul] at step
    split <;> omega
  constructor
  · exact within
  · exact mono
  · exact fun _ => starts
  · intro k low high
    obtain ⟨j, rfl⟩ : ∃ j, k = j + 1 := ⟨k - 1, by omega⟩
    rw [size j (by omega)]
    split <;> omega
  · intro k low high
    obtain ⟨j, rfl⟩ : ∃ j, k = j + 1 := ⟨k - 1, by omega⟩
    rw [size j (by omega), size (j + 1) high]
    split <;> split <;> omega
  · apply countP_range_lt (Nat.le_of_lt remainder)
    intro k below
    rw [beq_iff_eq, size k below]
    split <;> omega

theorem share_le {k r b : Nat} (upTo : k ≤ b) (below : r < b) : k * r ≤ b * min k r := by
  rcases Nat.le_total k r with low | high
  · rw [Nat.min_eq_left low, Nat.mul_comm b k]
    exact Nat.mul_le_mul_left k (Nat.le_of_lt below)
  · rw [Nat.min_eq_right high]
    exact Nat.mul_le_mul_right r upTo

theorem lt_share {k r b : Nat} (upTo : k ≤ b) (bPos : 0 < b) (fits : r ≤ 1 ∨ r + 1 = b) :
    b * min k r < k * r + b := by
  rcases fits with small | rfl
  · rcases Nat.le_one_iff_eq_zero_or_eq_one.mp small with rfl | rfl
    · simpa using bPos
    · rcases Nat.eq_zero_or_pos k with rfl | some'
      · simpa using bPos
      · rw [Nat.min_eq_right some', Nat.mul_one, Nat.mul_one]
        omega
  · rcases Nat.lt_or_eq_of_le upTo with low | rfl
    · rw [Nat.min_eq_left (Nat.le_of_lt_succ low), Nat.add_mul, Nat.mul_comm r k, Nat.one_mul]
      omega
    · rw [Nat.min_eq_right (Nat.le_succ r)]
      omega

/-- The buckets that rounding down makes are even where the remainder is 0, 1 or `b - 1`. -/
theorem evenBuckets_div_iff (positive : 0 < n) (bPos : 0 < b) :
    EvenBuckets (fun p => ((p * b / n + 1 : Nat) : Int)) n b ↔ n % b ≤ 1 ∨ n % b + 1 = b := by
  have upTo_iff : ∀ p k : Nat, ((p * b / n + 1 : Nat) : Int) ≤ k ↔ p * b < k * n := by
    intro p k
    rw [Int.ofNat_le, Nat.succ_le_iff, Nat.div_lt_iff_lt_mul positive]
  have parts : ∀ k, k * n = k * (n / b) * b + k * (n % b) := by
    intro k
    calc k * n = k * (b * (n / b) + n % b) := by rw [Nat.div_add_mod]
      _ = k * (n / b) * b + k * (n % b) := by
        rw [Nat.mul_add, Nat.mul_comm b, Nat.mul_assoc]
  have remainder : n % b < b := Nat.mod_lt n bPos
  constructor
  · intro even
    by_contra apart
    -- The last of the larger buckets would begin too late.
    have first := first_of_countP_range (n := n)
      (fun p => decide (((p * b / n + 1 : Nat) : Int) ≤ (n % b : Nat))) (by
        intro p _ passed
        rw [decide_eq_true_eq, upTo_iff] at passed ⊢
        exact Nat.lt_of_le_of_lt (Nat.mul_le_mul_right b (Nat.le_succ p)) passed)
    have upTo := even.upTo (Nat.le_of_lt remainder)
    have bound : bucketsUpTo (fun p => ((p * b / n + 1 : Nat) : Int)) n (n % b) ≤ n := by
      have le := List.countP_le_length
        (p := fun p => decide (((p * b / n + 1 : Nat) : Int) ≤ (n % b : Nat))) (l := List.range n)
      rwa [List.length_range] at le
    rw [Nat.min_self] at upTo
    rw [upTo] at bound
    have last := (first (n % b * (n / b) + n % b - 1) (by omega)).mpr (by
      show _ < bucketsUpTo (fun p => ((p * b / n + 1 : Nat) : Int)) n (n % b)
      rw [upTo]
      omega)
    rw [decide_eq_true_eq, upTo_iff, parts, Nat.sub_mul, Nat.add_mul, Nat.one_mul] at last
    obtain ⟨s, isR⟩ : ∃ s, n % b = s + 2 := ⟨n % b - 2, by omega⟩
    obtain ⟨d, isB⟩ : ∃ d, b = s + 4 + d := ⟨b - (s + 4), by omega⟩
    rw [isR] at last
    generalize (s + 2) * (n / b) * b = whole at last
    have large : (s + 2) * (s + 2) + b ≤ (s + 2) * b := by
      rw [isB]
      nlinarith [Nat.zero_le (s * d)]
    omega
  · intro fits
    apply evenBuckets_of_upTo positive
    · intro p within
      refine ⟨Int.ofNat_le.mpr (Nat.succ_pos _), ?_⟩
      rw [upTo_iff, Nat.mul_comm b n]
      exact Nat.mul_lt_mul_of_pos_right within bPos
    · intro p q le _
      have share : p * b / n ≤ q * b / n := Nat.div_le_div_right (Nat.mul_le_mul_right b le)
      omega
    · simp
    · intro k upTo
      have low := share_le upTo remainder
      have high := lt_share upTo bPos fits
      have whole := parts k
      apply countP_range_lt
      · have most : k * (n / b) ≤ b * (n / b) := Nat.mul_le_mul_right _ upTo
        have all := Nat.div_add_mod n b
        omega
      · intro p _
        rw [decide_eq_true_eq, upTo_iff]
        have counted : (k * (n / b) + min k (n % b)) * b = k * (n / b) * b + b * min k (n % b) := by
          rw [Nat.add_mul, Nat.mul_comm (min _ _) b]
        constructor
        · intro inside
          apply Nat.lt_of_mul_lt_mul_right (a := b)
          omega
        · intro inside
          have most : (p + 1) * b ≤ (k * (n / b) + min k (n % b)) * b := Nat.mul_le_mul_right b inside
          rw [Nat.add_mul, Nat.one_mul] at most
          omega

end Buckets

end NoidaDb.Lib
