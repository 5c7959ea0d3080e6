/-
The order of TIME values as text.

Hours are printed with two digits or, from 100 on, with three, and a negative time begins
with a minus sign.
-/

import NoidaDb.MySql.Types

namespace NoidaDb.MySql.Types

open Lib NoidaDb.Sql

theorem compare_divMod {k : Nat} (pos : 0 < k) (x y : Nat) :
    compare x y = (compare (x / k) (y / k)).then (compare (x % k) (y % k)) := by
  have splitX := Nat.div_add_mod x k
  have splitY := Nat.div_add_mod y k
  have belowX := Nat.mod_lt x pos
  have belowY := Nat.mod_lt y pos
  rcases Nat.lt_trichotomy (x / k) (y / k) with less | same | more
  · rw [Nat.compare_eq_lt.mpr less]
    apply Nat.compare_eq_lt.mpr
    have step := Nat.mul_le_mul_left k (Nat.succ_le_of_lt less)
    rw [Nat.mul_succ] at step
    omega
  · rw [same] at splitX
    rw [same, Nat.compare_eq_eq.mpr rfl]
    show compare x y = compare (x % k) (y % k)
    rcases Nat.lt_trichotomy (x % k) (y % k) with less | equal | greater
    · rw [Nat.compare_eq_lt.mpr less]
      exact Nat.compare_eq_lt.mpr (by omega)
    · rw [equal, Nat.compare_eq_eq.mpr rfl]
      exact Nat.compare_eq_eq.mpr (by omega)
    · rw [Nat.compare_eq_gt.mpr greater]
      exact Nat.compare_eq_gt.mpr (by omega)
  · rw [Nat.compare_eq_gt.mpr more]
    apply Nat.compare_eq_gt.mpr
    have step := Nat.mul_le_mul_left k (Nat.succ_le_of_lt more)
    rw [Nat.mul_succ] at step
    omega

def hoursOf (us : Nat) : Nat := us / 1000000 / 3600

def clockFraction (us : Nat) : List Char := if us = 0 then [] else '.' :: padded 6 us

variable {a b : Int} {x y : Nat}

theorem cmpChars_fraction (belowX : x < 10 ^ 6) (belowY : y < 10 ^ 6) :
    cmpChars (clockFraction x) (clockFraction y) = compare x y := by
  unfold clockFraction
  by_cases zeroX : x = 0
  · by_cases zeroY : y = 0
    · rw [zeroX, zeroY]
      rfl
    · rw [if_pos zeroX, if_neg zeroY, zeroX, Nat.compare_eq_lt.mpr (Nat.pos_of_ne_zero zeroY)]
      rfl
  · by_cases zeroY : y = 0
    · rw [if_neg zeroX, if_pos zeroY, zeroY, Nat.compare_eq_gt.mpr (Nat.pos_of_ne_zero zeroX)]
      rfl
    · rw [if_neg zeroX, if_neg zeroY, cmpChars_cons, cmpChars_padded belowX belowY]
      rfl

theorem clock_eq (us : Nat) :
    clock us = padded 2 (hoursOf us) ++ (':' :: (padded 2 (us / 1000000 / 60 % 60) ++
      (':' :: (padded 2 (us / 1000000 % 60) ++ clockFraction (us % 1000000))))) := by
  simp [clock, clockFraction, hoursOf, List.append_assoc]

theorem cmpChars_minutes (x y : Nat) :
    cmpChars (padded 2 (x / 1000000 / 60 % 60) ++
        (':' :: (padded 2 (x / 1000000 % 60) ++ clockFraction (x % 1000000))))
      (padded 2 (y / 1000000 / 60 % 60) ++
        (':' :: (padded 2 (y / 1000000 % 60) ++ clockFraction (y % 1000000)))) =
      compare (x % 3600000000) (y % 3600000000) := by
  have small : ∀ n, n % 60 < 10 ^ 2 := fun n => Nat.lt_trans (Nat.mod_lt n (by decide)) (by decide)
  have length : ∀ m n, (padded 2 (m % 60)).length = (padded 2 (n % 60)).length :=
    fun m n => (length_padded (small m)).trans (length_padded (small n)).symm
  have fraction : ∀ n, n % 1000000 < 10 ^ 6 := fun n => Nat.mod_lt n (by decide)
  rw [cmpChars_append (length _ _), cmpChars_padded (small _) (small _), cmpChars_cons,
    cmpChars_append (length _ _), cmpChars_padded (small _) (small _),
    cmpChars_fraction (fraction x) (fraction y), Nat.compare_eq_eq.mpr rfl,
    compare_divMod (k := 60000000) (by decide) (x % 3600000000) (y % 3600000000),
    compare_divMod (k := 1000000) (by decide) (x % 3600000000 % 60000000) (y % 3600000000 % 60000000)]
  have minutes : ∀ n, n % 3600000000 / 60000000 = n / 1000000 / 60 % 60 := by
    intro n
    omega
  have seconds : ∀ n, n % 3600000000 % 60000000 / 1000000 = n / 1000000 % 60 := by
    intro n
    omega
  have micros : ∀ n, n % 3600000000 % 60000000 % 1000000 = n % 1000000 := by
    intro n
    omega
  rw [minutes, minutes, seconds, seconds, micros, micros]
  rfl

theorem compare_hours (x y : Nat) :
    compare x y = (compare (hoursOf x) (hoursOf y)).then
      (compare (x % 3600000000) (y % 3600000000)) := by
  have hours : ∀ n, n / 3600000000 = hoursOf n := by
    intro n
    unfold hoursOf
    omega
  rw [compare_divMod (k := 3600000000) (by decide) x y, hours, hours]

theorem cmpChars_clock_sameWidth {w : Nat} (widthX : (padded 2 (hoursOf x)).length = w)
    (widthY : (padded 2 (hoursOf y)).length = w)
    (hours : cmpChars (padded 2 (hoursOf x)) (padded 2 (hoursOf y)) =
      compare (hoursOf x) (hoursOf y)) : cmpChars (clock x) (clock y) = compare x y := by
  rw [clock_eq, clock_eq, cmpChars_append (widthX.trans widthY.symm), hours, cmpChars_cons,
    cmpChars_minutes, compare_hours x y, Nat.compare_eq_eq.mpr rfl]
  rfl

theorem padded_three {n : Nat} (low : 100 ≤ n) (high : n < 1000) :
    padded 2 n = padded 2 (n / 10) ++ [digitChar (n % 10)] ∧ padded 2 n = padded 3 n := by
  have step : Nat.digits 10 n = n % 10 :: Nat.digits 10 (n / 10) :=
    Nat.digits_def' (by decide) (by omega)
  have nextStep : Nat.digits 10 (n / 10) = n / 10 % 10 :: Nat.digits 10 (n / 10 / 10) :=
    Nat.digits_def' (by decide) (by omega)
  have last : Nat.digits 10 (n / 10 / 10) = [n / 10 / 10] :=
    Nat.digits_of_lt 10 _ (by omega) (by omega)
  simp [padded, step, nextStep, last]

theorem padded_colon {n : Nat} (low : 100 ≤ n) (high : n < 1000) {m : Nat} (two : m < 100)
    (rest other : List Char) :
    cmpChars (padded 2 m ++ ':' :: rest) (padded 2 n ++ other) =
      if m < n / 10 then .lt else .gt := by
  have fitsM : m < 10 ^ 2 := two
  have fitsN : n / 10 < 10 ^ 2 := by omega
  rw [(padded_three low high).1, List.append_assoc,
    cmpChars_append ((length_padded fitsM).trans (length_padded fitsN).symm),
    cmpChars_padded fitsM fitsN, List.singleton_append, cmpChars_cons,
    digitChar_toNat (Nat.mod_lt n (by decide))]
  have colon : compare ':'.toNat (48 + n % 10) = .gt := by
    apply Nat.compare_eq_gt.mpr
    show 48 + n % 10 < 58
    omega
  rw [colon]
  by_cases less : m < n / 10
  · rw [if_pos less, Nat.compare_eq_lt.mpr less]
    rfl
  · rw [if_neg less]
    rcases Nat.lt_or_eq_of_le (Nat.le_of_not_lt less) with more | same
    · rw [Nat.compare_eq_gt.mpr more]
      rfl
    · rw [same, Nat.compare_eq_eq.mpr rfl]
      rfl

def Overtakes (x y : Nat) : Prop := hoursOf x < 100 ∧ 100 ≤ hoursOf y ∧ hoursOf y / 10 ≤ hoursOf x

instance (x y : Nat) : Decidable (Overtakes x y) :=
  inferInstanceAs (Decidable (hoursOf x < 100 ∧ 100 ≤ hoursOf y ∧ hoursOf y / 10 ≤ hoursOf x))

def Crossed (x y : Nat) : Prop := Overtakes x y ∨ Overtakes y x

instance (x y : Nat) : Decidable (Crossed x y) :=
  inferInstanceAs (Decidable (Overtakes x y ∨ Overtakes y x))

theorem cmpChars_swap (a b : List Char) : cmpChars a b = (cmpChars b a).swap :=
  Std.OrientedOrd.eq_swap

theorem compare_of_hours (fewer : hoursOf x < hoursOf y) : compare x y = .lt := by
  rw [compare_hours, Nat.compare_eq_lt.mpr fewer]
  rfl

theorem cmpChars_clock_widths (short : hoursOf x < 100) (long : 100 ≤ hoursOf y)
    (fits : hoursOf y < 1000) :
    cmpChars (clock x) (clock y) = if Overtakes x y then (compare x y).swap else compare x y := by
  rw [clock_eq x, clock_eq y, padded_colon long fits short, compare_of_hours (by omega)]
  by_cases less : hoursOf x < hoursOf y / 10
  · rw [if_pos less, if_neg (fun overtakes => Nat.not_lt.mpr overtakes.2.2 less)]
  · rw [if_neg less, if_pos ⟨short, long, Nat.le_of_not_lt less⟩]
    rfl

theorem cmpChars_clock (fitsX : hoursOf x < 1000) (fitsY : hoursOf y < 1000) :
    cmpChars (clock x) (clock y) = if Crossed x y then (compare x y).swap else compare x y := by
  by_cases shortX : hoursOf x < 100
  · by_cases shortY : hoursOf y < 100
    · have apart : ¬ Crossed x y := by
        unfold Crossed Overtakes
        omega
      rw [if_neg apart]
      exact cmpChars_clock_sameWidth (length_padded (w := 2) shortX) (length_padded (w := 2) shortY)
        (cmpChars_padded (w := 2) shortX shortY)
    · have other : ¬ Overtakes y x := fun overtakes => shortY overtakes.1
      simp only [Crossed, other, or_false]
      exact cmpChars_clock_widths shortX (Nat.le_of_not_lt shortY) fitsY
  · have longX := Nat.le_of_not_lt shortX
    by_cases shortY : hoursOf y < 100
    · have other : ¬ Overtakes x y := fun overtakes => shortX overtakes.1
      simp only [Crossed, other, false_or]
      rw [cmpChars_swap, cmpChars_clock_widths shortY longX fitsX]
      have swapped : compare x y = (compare y x).swap := Std.OrientedOrd.eq_swap
      rw [swapped]
      split
      · rfl
      · rfl
    · have longY := Nat.le_of_not_lt shortY
      have apart : ¬ Crossed x y := by
        unfold Crossed Overtakes
        omega
      rw [if_neg apart]
      have threeX := (padded_three longX fitsX).2
      have threeY := (padded_three longY fitsY).2
      apply cmpChars_clock_sameWidth (w := 3)
      · rw [threeX]
        exact length_padded fitsX
      · rw [threeY]
        exact length_padded fitsY
      · rw [threeX, threeY]
        exact cmpChars_padded fitsX fitsY

theorem minus_before_clock (x : List Char) (us : Nat) : cmpChars ('-' :: x) (clock us) = .lt := by
  rw [clock_eq]
  cases text : padded 2 (hoursOf us) with
  | nil =>
    have short : (padded 2 (hoursOf us)).length = 0 := by
      rw [text]
      rfl
    unfold padded at short
    rw [List.length_map, List.length_append, List.length_replicate] at short
    omega
  | cons c rest =>
    have digit : ∃ d < 10, c = digitChar d := by
      have member : c ∈ padded 2 (hoursOf us) := by
        rw [text]
        exact List.mem_cons_self
      obtain ⟨d, isDigit, same⟩ := List.mem_map.mp member
      apply Exists.intro d
      apply And.intro _ same.symm
      rcases List.mem_append.mp isDigit with zero | digit
      · rw [List.eq_of_mem_replicate zero]
        decide
      · exact digits_below _ d digit
    obtain ⟨d, below, isDigit⟩ := digit
    rw [List.cons_append, cmpChars_cons, isDigit, digitChar_toNat below]
    have less : compare '-'.toNat (48 + d) = .lt := by
      apply Nat.compare_eq_lt.mpr
      show 45 < 48 + d
      omega
    rw [less]
    rfl

/-- Two times whose texts are in their order: times of different signs, times that are not
negative and not crossed, and crossed times that are negative. -/
def ReadInOrder (a b : Int) : Prop :=
  a = b ∨ (a < 0 ∧ 0 ≤ b) ∨ (b < 0 ∧ 0 ≤ a) ∨
    (0 ≤ a ∧ 0 ≤ b ∧ ¬ Crossed a.natAbs b.natAbs) ∨ (a < 0 ∧ b < 0 ∧ Crossed a.natAbs b.natAbs)

instance (a b : Int) : Decidable (ReadInOrder a b) := by
  unfold ReadInOrder
  infer_instance

theorem hoursOf_fits {us : Int} (fits : us.natAbs ≤ maxMysqlTime.natAbs) :
    hoursOf us.natAbs < 1000 := by
  have limit : maxMysqlTime.natAbs = 3020399000000 := by decide
  unfold hoursOf
  omega

theorem swap_eq_self_iff (x y : Nat) : (compare x y).swap = compare x y ↔ x = y := by
  rw [← Nat.compare_eq_eq (a := x) (b := y)]
  cases compare x y <;> simp

theorem compare_negative (negA : a < 0) (negB : b < 0) :
    compare a b = (compare a.natAbs b.natAbs).swap := by
  rw [← Nat.compare_swap, Ordering.swap_swap]
  rcases lt_trichotomy a b with less | same | more
  · rw [compare_lt_iff_lt.mpr less]
    exact (Nat.compare_eq_lt.mpr (by omega)).symm
  · rw [same, compare_eq_iff_eq.mpr rfl]
    exact (Nat.compare_eq_eq.mpr rfl).symm
  · rw [compare_gt_iff_gt.mpr more]
    exact (Nat.compare_eq_gt.mpr (by omega)).symm

theorem compare_natAbs (nonnegA : 0 ≤ a) (nonnegB : 0 ≤ b) :
    compare a b = compare a.natAbs b.natAbs := by
  rcases lt_trichotomy a b with less | same | more
  · rw [compare_lt_iff_lt.mpr less]
    exact (Nat.compare_eq_lt.mpr (by omega)).symm
  · rw [same, compare_eq_iff_eq.mpr rfl]
    exact (Nat.compare_eq_eq.mpr rfl).symm
  · rw [compare_gt_iff_gt.mpr more]
    exact (Nat.compare_eq_gt.mpr (by omega)).symm

theorem readInOrder_negative (negA : a < 0) (negB : b < 0) :
    ReadInOrder a b ↔ a = b ∨ Crossed a.natAbs b.natAbs := by
  simp [ReadInOrder, negA, negB, not_le.mpr negA, not_le.mpr negB]

theorem readInOrder_nonneg (nonnegA : 0 ≤ a) (nonnegB : 0 ≤ b) :
    ReadInOrder a b ↔ a = b ∨ ¬ Crossed a.natAbs b.natAbs := by
  simp [ReadInOrder, nonnegA, nonnegB, not_lt.mpr nonnegA, not_lt.mpr nonnegB]

theorem natAbs_negative (negA : a < 0) (negB : b < 0) : a.natAbs = b.natAbs ↔ a = b := by
  omega

theorem natAbs_nonneg (nonnegA : 0 ≤ a) (nonnegB : 0 ≤ b) : a.natAbs = b.natAbs ↔ a = b := by
  omega

theorem cmpChars_time_iff (fitsA : a.natAbs ≤ maxMysqlTime.natAbs)
    (fitsB : b.natAbs ≤ maxMysqlTime.natAbs) :
    cmpChars (formatMysqlTime a) (formatMysqlTime b) = compare a b ↔ ReadInOrder a b := by
  have clocks := cmpChars_clock (hoursOf_fits fitsA) (hoursOf_fits fitsB)
  unfold formatMysqlTime
  by_cases negA : a < 0
  · rw [if_pos negA]
    by_cases negB : b < 0
    · rw [if_pos negB, List.singleton_append, List.singleton_append, cmpChars_cons, clocks,
        compare_negative negA negB, Nat.compare_eq_eq.mpr rfl, readInOrder_negative negA negB,
        ← natAbs_negative negA negB, ← swap_eq_self_iff]
      by_cases crossed : Crossed a.natAbs b.natAbs
      · rw [if_pos crossed]
        exact ⟨fun _ => Or.inr crossed, fun _ => rfl⟩
      · rw [if_neg crossed]
        simp only [crossed, or_false]
        exact eq_comm
    · rw [if_neg negB, List.nil_append, List.singleton_append, minus_before_clock,
        compare_lt_iff_lt.mpr (by omega)]
      exact ⟨fun _ => Or.inr (Or.inl ⟨negA, not_lt.mp negB⟩), fun _ => rfl⟩
  · rw [if_neg negA, List.nil_append]
    by_cases negB : b < 0
    · rw [if_pos negB, List.singleton_append, cmpChars_swap, minus_before_clock,
        compare_gt_iff_gt.mpr (by omega)]
      exact ⟨fun _ => Or.inr (Or.inr (Or.inl ⟨negB, not_lt.mp negA⟩)), fun _ => rfl⟩
    · have nonnegA := not_lt.mp negA
      have nonnegB := not_lt.mp negB
      rw [if_neg negB, List.nil_append, clocks, compare_natAbs nonnegA nonnegB,
        readInOrder_nonneg nonnegA nonnegB, ← natAbs_nonneg nonnegA nonnegB, ← swap_eq_self_iff]
      by_cases crossed : Crossed a.natAbs b.natAbs
      · rw [if_pos crossed]
        simp only [crossed, not_true, or_false]
      · rw [if_neg crossed]
        exact ⟨fun _ => Or.inr crossed, fun _ => rfl⟩

end NoidaDb.MySql.Types
