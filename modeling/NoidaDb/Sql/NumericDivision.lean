/-
Division of numerics to a given scale, and the digits that are kept but not shown.
-/

import NoidaDb.Sql.NumericRounding

namespace NoidaDb.Sql

open Lib

def takeAway (b : List Nat) : Nat → List Nat → Nat × List Nat
  | 0, r => (0, r)
  | tries + 1, r =>
    if cmpMag r b = .lt then (0, r)
    else ((takeAway b tries (subMag r b)).1 + 1, (takeAway b tries (subMag r b)).2)

/-- One more digit of the dividend, with at most `tries` subtractions. -/
def divideDigit (tries : Nat) (b : List Nat) (state : List Nat × List Nat) (d : Nat) :
    List Nat × List Nat :=
  let step := takeAway b tries (strip (state.2 ++ [d]))
  (state.1 ++ [step.1], step.2)

def divmodWith (tries : Nat) (a b : List Nat) : List Nat × List Nat :=
  let divided := a.foldl (divideDigit tries b) ([], [])
  (strip divided.1, divided.2)

def divmodMag (a b : List Nat) : List Nat × List Nat := divmodWith 10 a b

/-- `a / b` to `rscale` digits, rounded half away from zero or truncated. -/
def divDec (a b : Dec) (rscale : Int) (truncate : Bool) : Dec :=
  let work := rscale + 1
  let shift := work + b.scale - a.scale
  let num := if 0 ≤ shift ∧ a.digits ≠ [] then a.digits ++ List.replicate shift.toNat 0 else a.digits
  let den := if shift < 0 then b.digits ++ List.replicate (-shift).toNat 0 else b.digits
  let d := { neg := a.neg != b.neg
             digits := (divmodMag num den).1
             scale := work.toNat % 2 ^ 32 : Dec }.normalize
  d.roundTo rscale truncate

def Dec.nbaseWeight (d : Dec) : Int × Nat :=
  if d.isZero then (0, 0)
  else
    let intDigits : Int := d.digits.length - d.scale
    if 0 < intDigits then
      ((intDigits - 1) / 4, numberOf 10 (d.digits.take ((intDigits - 1) % 4 + 1).toNat))
    else
      let zeros := (-intDigits).toNat
      let group := zeros / 4
      let frac := List.replicate zeros 0 ++ d.digits
      (-(group : Int) - 1, numberOf 10 ((List.range 4).map (fun i => frac.getD (group * 4 + i) 0)))

def minSigDigits : Int := 16

def selectDivScale (a b : Dec) : Int :=
  let qweight := a.nbaseWeight.1 - b.nbaseWeight.1
  let qweight := if a.nbaseWeight.2 ≤ b.nbaseWeight.2 then qweight - 1 else qweight
  let rscale := minSigDigits - qweight * 4
  max 0 (min maxDisplayScale (max (max rscale a.scale) b.scale))

namespace Numeric

protected def div (a b : Numeric) : Except NumError Numeric :=
  match a, b with
  | nan, _ => .ok nan
  | _, nan => .ok nan
  | a, b =>
    if b.isZero then .error .divByZero
    else
      match a, b with
      | fin x, fin y => .ok (fin (divDec x y (selectDivScale x y) false))
      | fin _, _ => .ok (fin (Dec.zero 0))
      | inf neg, fin y => .ok (inf (neg != y.neg))
      | _, _ => .ok nan

/-- Division to an explicit scale; `none` is a division by zero. -/
def divScale (a b : Numeric) (rscale : Int) (truncate : Bool) : Option Numeric :=
  match a, b with
  | fin x, fin y => if y.isZero then none else some (fin (divDec x y rscale truncate))
  | nan, _ => some nan
  | _, nan => some nan
  | inf _, inf _ => some nan
  | inf neg, fin y => if y.isZero then none else some (inf (neg != y.neg))
  | fin _, inf _ => some (fin (Dec.zero 0))

def scale : Numeric → Nat
  | fin d => d.scale
  | _ => 0

def displayScale : Numeric → Nat
  | fin d => d.scale - min d.hidden d.scale
  | _ => 0

/-- The same value, displayed with `display` fraction digits. -/
def withDisplayScale (n : Numeric) (display : Nat) : Numeric :=
  match n with
  | fin d =>
    let d := if d.scale < display then { d with digits := d.withScale display, scale := display } else d
    fin { d with hidden := d.scale - display }
  | other => other

end Numeric

theorem withDisplayScale_exact {d : Dec} (normal : d.Normal) (display : Nat) :
    ∃ e, (Numeric.fin d).withDisplayScale display = .fin e ∧ e.Normal ∧ e.value = d.value := by
  refine ⟨_, rfl, ?_⟩
  by_cases fewer : d.scale < display
  · rw [if_pos fewer]
    constructor
    · constructor
      · exact Dec.magnitude_withScale normal.magnitude display
      · intro isEmpty
        have isEmpty : d.withScale display = [] := isEmpty
        apply normal.zero
        unfold Dec.withScale at isEmpty
        split at isEmpty
        · assumption
        · exact (List.append_eq_nil_iff.mp isEmpty).1
    · exact (Dec.value_withScale d (Nat.le_of_lt fewer)).symm
  · rw [if_neg fewer]
    exact ⟨⟨normal.magnitude, normal.zero⟩, rfl⟩

theorem magnitude_append_zeros {v : List Nat} (magnitude : Magnitude v) (some' : v ≠ []) (n : Nat) :
    Magnitude (v ++ List.replicate n 0) where
  digits := by
    intro x member
    rcases List.mem_append.mp member with inDigits | isZero
    · exact magnitude.digits x inDigits
    · rw [(List.mem_replicate.mp isZero).2]
      decide
  leads := by
    rw [List.head?_append_of_ne_nil _ some']
    exact magnitude.leads

section LongDivision

variable {b : List Nat} (isB : Magnitude b)

include isB

theorem takeAway_exact {tries : Nat} {r : List Nat} (isR : Magnitude r)
    (enough : numberOf 10 r < tries * numberOf 10 b) :
    (takeAway b tries r).1 = numberOf 10 r / numberOf 10 b ∧
      numberOf 10 (takeAway b tries r).2 = numberOf 10 r % numberOf 10 b ∧
      Magnitude (takeAway b tries r).2 := by
  induction tries generalizing r with
  | zero => omega
  | succ tries ih =>
    rw [takeAway, cmpMag_eq isR isB]
    by_cases less : numberOf 10 r < numberOf 10 b
    · rw [if_pos (compare_lt_iff_lt.mpr less), Nat.div_eq_of_lt less, Nat.mod_eq_of_lt less]
      exact ⟨rfl, rfl, isR⟩
    · have atLeast : numberOf 10 b ≤ numberOf 10 r := Nat.le_of_not_lt less
      have left := numberOf_subMag isR.digits isB.digits atLeast
      have isLeft : numberOf 10 (subMag r b) = numberOf 10 r - numberOf 10 b := by omega
      have positive : 0 < numberOf 10 b := by
        rw [Nat.succ_mul] at enough
        by_contra zero
        have isZero : numberOf 10 b = 0 := by omega
        rw [isZero] at enough
        omega
      rw [if_neg (fun isLess => less (compare_lt_iff_lt.mp isLess))]
      obtain ⟨quotient, rest, magnitude⟩ := ih (magnitude_subMag isR.digits b) (by
        rw [isLeft]
        rw [Nat.succ_mul] at enough
        omega)
      rw [isLeft] at quotient rest
      refine ⟨?_, ?_, magnitude⟩
      · rw [quotient, ← Nat.sub_add_cancel atLeast, Nat.add_sub_cancel_right,
          Nat.add_div_right _ positive]
      · rw [rest, ← Nat.mod_eq_sub_mod atLeast]

variable (some' : b ≠ [])

variable {tries : Nat} {a : List Nat}

include some'

theorem divideDigits_exact (enough : 10 ≤ tries) (digits : ∀ x ∈ a, x < 10) :
    numberOf 10 (a.foldl (divideDigit tries b) ([], [])).1 = numberOf 10 a / numberOf 10 b ∧
      numberOf 10 (a.foldl (divideDigit tries b) ([], [])).2 = numberOf 10 a % numberOf 10 b ∧
      (∀ x ∈ (a.foldl (divideDigit tries b) ([], [])).1, x < 10) ∧
      Magnitude (a.foldl (divideDigit tries b) ([], [])).2 := by
  have positive : 0 < numberOf 10 b := numberOf_pos (by decide) isB.leads some'
  induction a using List.reverseRecOn with
  | nil => simp [magnitude_nil]
  | append_singleton a d ih =>
    have digitsA : ∀ x ∈ a, x < 10 := fun x member => digits x (List.mem_append_left _ member)
    have isDigit : d < 10 := digits d (by simp)
    obtain ⟨quotient, rest, digitsQ, magnitude⟩ := ih digitsA
    rw [List.foldl_append, List.foldl_cons, List.foldl_nil]
    generalize a.foldl (divideDigit tries b) ([], []) = state at quotient rest digitsQ magnitude ⊢
    unfold divideDigit
    simp only
    have isR : Magnitude (strip (state.2 ++ [d])) := by
      apply magnitude_strip
      intro x member
      rcases List.mem_append.mp member with inRest | isD
      · exact magnitude.digits x inRest
      · rw [List.mem_singleton.mp isD]
        exact isDigit
    have value : numberOf 10 (strip (state.2 ++ [d])) =
        numberOf 10 a % numberOf 10 b * 10 + d := by
      rw [numberOf_strip, numberOf_append, rest]
      simp [numberOf]
    have below := Nat.mod_lt (numberOf 10 a) positive
    have fits : numberOf 10 a % numberOf 10 b * 10 + d < 10 * numberOf 10 b := by omega
    obtain ⟨next, left, magnitude⟩ := @takeAway_exact b isB tries _ isR (by
      rw [value]
      exact Nat.lt_of_lt_of_le fits (Nat.mul_le_mul_right _ enough))
    rw [value] at next left
    have number : numberOf 10 (a ++ [d]) = numberOf 10 a * 10 + d := by
      rw [numberOf_append]
      simp [numberOf]
    have divided := Nat.div_add_mod (numberOf 10 a) (numberOf 10 b)
    have whole : numberOf 10 a * 10 + d =
        numberOf 10 a % numberOf 10 b * 10 + d + numberOf 10 b * (numberOf 10 a / numberOf 10 b * 10) := by
      calc numberOf 10 a * 10 + d
          = (numberOf 10 b * (numberOf 10 a / numberOf 10 b) + numberOf 10 a % numberOf 10 b) * 10 + d := by
            rw [divided]
        _ = _ := by ring
    refine ⟨?_, ?_, ?_, magnitude⟩
    · rw [numberOf_append, quotient, next, number, whole, Nat.add_mul_div_left _ _ positive]
      simp [numberOf, Nat.add_comm]
    · rw [left, number, whole, Nat.add_mul_mod_self_left]
    · intro x member
      rcases List.mem_append.mp member with inQuotient | isNext
      · exact digitsQ x inQuotient
      · rw [List.mem_singleton.mp isNext, next]
        exact Nat.div_lt_of_lt_mul (by linarith)

theorem divmodWith_exact (enough : 10 ≤ tries) (digits : ∀ x ∈ a, x < 10) :
    numberOf 10 (divmodWith tries a b).1 = numberOf 10 a / numberOf 10 b ∧
      numberOf 10 (divmodWith tries a b).2 = numberOf 10 a % numberOf 10 b ∧
      Magnitude (divmodWith tries a b).1 ∧ Magnitude (divmodWith tries a b).2 := by
  obtain ⟨quotient, rest, digitsQ, magnitude⟩ := divideDigits_exact isB some' enough digits
  unfold divmodWith
  exact ⟨(numberOf_strip _).trans quotient, rest, magnitude_strip digitsQ, magnitude⟩

theorem divmodWith_enough (enough : 10 ≤ tries) (digits : ∀ x ∈ a, x < 10) :
    divmodWith tries a b = divmodMag a b := by
  obtain ⟨quotient, rest, isQuotient, isRest⟩ := divmodWith_exact isB some' enough digits
  obtain ⟨quotient', rest', isQuotient', isRest'⟩ :=
    divmodWith_exact isB some' (Nat.le_refl 10) digits
  have same : ∀ {x y : List Nat}, Magnitude x → Magnitude y → numberOf 10 x = numberOf 10 y → x = y :=
    fun isX isY number => numberOf_inj (by decide) isX.digits isY.digits isX.leads isY.leads number
  apply Prod.ext
  · exact same isQuotient isQuotient' (quotient.trans quotient'.symm)
  · exact same isRest isRest' (rest.trans rest'.symm)

end LongDivision

section Quotients

variable {a b : Dec}

theorem sign_quotient (a b : Dec) : a.sign / b.sign = if a.neg != b.neg then -1 else 1 := by
  unfold Dec.sign
  cases a.neg with
  | true =>
    cases b.neg with
    | true => norm_num
    | false => norm_num
  | false =>
    cases b.neg with
    | true => norm_num
    | false => norm_num

theorem value_quotient (a b : Dec) (scale : Int) {up down : Nat}
    (shift : (up : Int) - down = scale + b.scale - a.scale) :
    a.value / b.value * 10 ^ scale =
      (if a.neg != b.neg then -1 else 1) *
        ((numberOf 10 a.digits * 10 ^ up : Nat) / (numberOf 10 b.digits * 10 ^ down : Nat)) := by
  have power : (10 : Rat) ^ scale = 10 ^ up / 10 ^ down * (10 ^ a.scale / 10 ^ b.scale) := by
    have places : scale = ((up : Int) - down) + ((a.scale : Int) - b.scale) := by omega
    rw [places, zpow_add₀ (by norm_num), zpow_sub₀ (by norm_num), zpow_sub₀ (by norm_num)]
    simp only [zpow_natCast]
  rw [← sign_quotient, power]
  unfold Dec.value
  push_cast
  field_simp

theorem divDec_exact (normalA : a.Normal) (normalB : b.Normal) (notZero : b.isZero = false)
    {rscale : Int} (nonneg : 0 ≤ rscale) (fits : rscale + 1 < 2 ^ 32) (truncate : Bool) :
    (divDec a b rscale truncate).value = roundAt truncate (a.value / b.value) rscale ∧
      ((divDec a b rscale truncate).scale : Int) = rscale ∧ (divDec a b rscale truncate).Normal := by
  have some' : b.digits ≠ [] := by
    intro isEmpty
    rw [Dec.isZero, isEmpty] at notZero
    cases notZero
  obtain ⟨up, isUp⟩ : ∃ up, up = (rscale + 1 + b.scale - a.scale).toNat := ⟨_, rfl⟩
  obtain ⟨down, isDown⟩ : ∃ down, down = (-(rscale + 1 + b.scale - a.scale)).toNat := ⟨_, rfl⟩
  have isNum : ∀ num : List Nat, num = (if 0 ≤ rscale + 1 + b.scale - a.scale ∧ a.digits ≠ [] then
      a.digits ++ List.replicate up 0 else a.digits) →
        numberOf 10 num = numberOf 10 a.digits * 10 ^ up ∧ ∀ x ∈ num, x < 10 := by
    rintro num rfl
    split
    · rename_i both
      exact ⟨numberOf_append_zeros _ _, (magnitude_append_zeros normalA.magnitude both.2 up).digits⟩
    · rename_i notBoth
      refine ⟨?_, normalA.magnitude.digits⟩
      by_cases isEmpty : a.digits = []
      · simp [isEmpty]
      · have noShift : up = 0 := by
          by_contra shifts
          exact notBoth ⟨by omega, isEmpty⟩
        rw [noShift, pow_zero, Nat.mul_one]
  have isDen : ∀ den : List Nat, den = (if rscale + 1 + b.scale - a.scale < 0 then
      b.digits ++ List.replicate down 0 else b.digits) →
        numberOf 10 den = numberOf 10 b.digits * 10 ^ down ∧ Magnitude den ∧ den ≠ [] := by
    rintro den rfl
    split
    · exact ⟨numberOf_append_zeros _ _, magnitude_append_zeros normalB.magnitude some' down,
        fun isEmpty => some' (List.append_eq_nil_iff.mp isEmpty).1⟩
    · have noShift : down = 0 := by omega
      rw [noShift, pow_zero, Nat.mul_one]
      exact ⟨rfl, normalB.magnitude, some'⟩
  unfold divDec
  simp only [← isUp, ← isDown]
  generalize isNumerator : (if 0 ≤ rscale + 1 + b.scale - a.scale ∧ a.digits ≠ [] then
      a.digits ++ List.replicate up 0 else a.digits) = num
  generalize isDenominator : (if rscale + 1 + b.scale - a.scale < 0 then
      b.digits ++ List.replicate down 0 else b.digits) = den
  obtain ⟨numValue, numDigits⟩ := isNum num isNumerator.symm
  obtain ⟨denValue, denMagnitude, denSome⟩ := isDen den isDenominator.symm
  obtain ⟨quotient, _, isQuotient, _⟩ :=
    divmodWith_exact denMagnitude denSome (Nat.le_refl 10) numDigits
  have work : (rscale + 1).toNat % 2 ^ 32 = (rscale + 1).toNat := Nat.mod_eq_of_lt (by omega)
  have positive : 0 < numberOf 10 den := numberOf_pos (by decide) denMagnitude.leads denSome
  obtain ⟨value, scale, normal⟩ := roundTo_value (d := { neg := a.neg != b.neg
                                                         digits := (divmodMag num den).1
                                                         scale := (rscale + 1).toNat % 2 ^ 32 : Dec }.normalize)
    truncate (Dec.normal_normalize isQuotient.digits) rscale
  refine ⟨?_, ?_, normal⟩
  · have unit : (10 : Rat) ^ rscale ≠ 0 := zpow_ne_zero _ (by norm_num)
    -- The one digit more is what is left of the scale.
    have shifted : (((if a.neg != b.neg then -1 else 1) : Rat) *
        ((numberOf 10 (divmodMag num den).1 : Rat) / 10 ^ (rscale + 1).toNat)) * 10 ^ rscale =
          (if a.neg != b.neg then -1 else 1) *
            ((numberOf 10 (divmodMag num den).1 : Rat) / ((10 : Nat) : Rat)) := by
      have places : (10 : Rat) ^ (rscale + 1).toNat = 10 ^ rscale * 10 := by
        rw [← zpow_natCast, Int.toNat_of_nonneg (by omega), zpow_add₀ (by norm_num), zpow_one]
      rw [places]
      push_cast
      field_simp
    have exact' := @value_quotient a b (rscale + 1) up down (by omega)
    have tenth : a.value / b.value * 10 ^ rscale =
        (if a.neg != b.neg then -1 else 1) *
          ((numberOf 10 num : Rat) / ((numberOf 10 den * 10 : Nat) : Rat)) := by
      rw [zpow_add₀ (by norm_num), zpow_one, ← mul_assoc, ← numValue, ← denValue] at exact'
      push_cast
      rw [← div_div, ← mul_div_assoc, ← exact', mul_div_cancel_right₀ _ (by norm_num)]
    rw [value, Dec.value_normalize]
    unfold roundAt
    rw [Dec.value]
    simp only [work]
    unfold Dec.sign
    rw [shifted, tenth, wholeInt_signed truncate _ _ (by decide), wholeInt_signed truncate _ _ (by omega),
      show (divmodMag num den).1 = (divmodWith 10 num den).1 from rfl, quotient,
      wholeDiv_div_ten truncate _ _ positive]
  · have current : ({ neg := a.neg != b.neg
                      digits := (divmodMag num den).1
                      scale := (rscale + 1).toNat % 2 ^ 32 : Dec }.normalize).scale = (rscale + 1).toNat :=
      work
    rw [scale, current, roundedScale, if_neg (by omega)]
    omega

theorem selectDivScale_bounds (a b : Dec) :
    0 ≤ selectDivScale a b ∧ selectDivScale a b ≤ 1000 ∧
      min 1000 (max (a.scale : Int) b.scale) ≤ selectDivScale a b := by
  unfold selectDivScale
  simp only [show (maxDisplayScale : Int) = 1000 from rfl]
  omega

theorem div_fin (notZero : b.isZero = false) :
    (Numeric.fin a).div (.fin b) = .ok (.fin (divDec a b (selectDivScale a b) false)) := by
  have notZero : (Numeric.fin b).isZero = false := notZero
  unfold Numeric.div
  simp [notZero]

theorem div_succeeds (m : Numeric) {n : Numeric} (notZero : n.isZero = false) :
    ∃ c, m.div n = .ok c := by
  cases m with
  | nan => exact ⟨_, rfl⟩
  | inf neg =>
    cases n with
    | nan => exact ⟨_, rfl⟩
    | inf neg' => exact ⟨_, rfl⟩
    | fin y =>
      unfold Numeric.div
      simp [notZero]
  | fin x =>
    cases n with
    | nan => exact ⟨_, rfl⟩
    | inf neg' => exact ⟨_, rfl⟩
    | fin y => exact ⟨_, div_fin notZero⟩

end Quotients

/-- Division is correctly rounded, to a scale that covers those of both operands, and fails for zero
only; long division takes at most nine subtractions for each digit. -/
theorem division_exact {a b : Dec} (normalA : a.Normal) (normalB : b.Normal)
    (notZero : b.isZero = false) :
    (∀ rscale : Int, 0 ≤ rscale → rscale + 1 < 2 ^ 32 →
      Nearest (a.value / b.value) rscale (divDec a b rscale false).value ∧
      Truncated (a.value / b.value) rscale (divDec a b rscale true).value ∧
      ∀ truncate, ((divDec a b rscale truncate).scale : Int) = rscale ∧
        (divDec a b rscale truncate).Normal) ∧
    (∃ c, (Numeric.fin a).div (.fin b) = .ok (.fin c) ∧ min 1000 (max a.scale b.scale) ≤ c.scale ∧
      Nearest (a.value / b.value) c.scale c.value ∧ c.Normal) ∧
    (∀ m n : Numeric, n.isZero = false → ∃ c, m.div n = .ok c) ∧
    ∀ digits : List Nat, (∀ x ∈ digits, x < 10) → ∀ tries, 10 ≤ tries →
      let divided := divmodWith tries digits b.digits
      numberOf 10 digits = numberOf 10 divided.1 * numberOf 10 b.digits + numberOf 10 divided.2 ∧
        numberOf 10 divided.2 < numberOf 10 b.digits ∧ divided = divmodMag digits b.digits := by
  have some' : b.digits ≠ [] := by
    intro isEmpty
    rw [Dec.isZero, isEmpty] at notZero
    cases notZero
  refine ⟨?_, ?_, fun m n isSome => div_succeeds m isSome, ?_⟩
  · intro rscale nonneg fits
    refine ⟨?_, ?_, fun truncate => (divDec_exact normalA normalB notZero nonneg fits truncate).2⟩
    · rw [(divDec_exact normalA normalB notZero nonneg fits false).1]
      exact roundAt_nearest _ _
    · rw [(divDec_exact normalA normalB notZero nonneg fits true).1]
      exact roundAt_truncated _ _
  · obtain ⟨nonneg, small, covers⟩ := selectDivScale_bounds a b
    obtain ⟨value, scale, normal⟩ :=
      divDec_exact normalA normalB notZero nonneg (by omega) false
    refine ⟨_, div_fin notZero, by omega, ?_, normal⟩
    rw [value, scale]
    exact roundAt_nearest _ _
  · intro digits isDigits tries enough
    obtain ⟨quotient, rest, _, _⟩ := divmodWith_exact normalB.magnitude some' enough isDigits
    refine ⟨?_, ?_, divmodWith_enough normalB.magnitude some' enough isDigits⟩
    · rw [quotient, rest, Nat.mul_comm]
      exact (Nat.div_add_mod _ _).symm
    · rw [rest]
      exact Nat.mod_lt _ (numberOf_pos (by decide) normalB.magnitude.leads some')

theorem division_exact_thirds :
    Nearest (Dec.value { digits := [2] } / Dec.value { digits := [3] }) 2
        (divDec { digits := [2] } { digits := [3] } 2 false).value ∧
      (∃ c, (Numeric.fin { digits := [2] }).div (.fin { digits := [3] }) = .ok c) ∧
      numberOf 10 [2, 0, 0] = numberOf 10 (divmodWith 12 [2, 0, 0] [3]).1 * numberOf 10 [3] +
        numberOf 10 (divmodWith 12 [2, 0, 0] [3]).2 := by
  obtain ⟨rounded, _, succeeds, divided⟩ := @division_exact { digits := [2] } { digits := [3] }
    ⟨⟨by decide, by decide⟩, by decide⟩ ⟨⟨by decide, by decide⟩, by decide⟩ rfl
  exact ⟨(rounded 2 (by decide) (by decide)).1, succeeds _ _ rfl,
    (divided [2, 0, 0] (by decide) 12 (by decide)).1⟩

end NoidaDb.Sql
