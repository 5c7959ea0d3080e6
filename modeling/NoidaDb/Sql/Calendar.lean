/-
The proleptic Gregorian calendar and its day numbers.

Years begin in March, so that a leap day is the last day of its year; 400 years are an era of
146097 days.
-/

import NoidaDb.Sql.Datetime

namespace NoidaDb.Sql

namespace Calendar

def isLeap (y : Int) : Bool := (y % 4 = 0 ∧ y % 100 ≠ 0) ∨ y % 400 = 0

def daysInMonth (y : Int) (m : Nat) : Nat :=
  if m = 1 ∨ m = 3 ∨ m = 5 ∨ m = 7 ∨ m = 8 ∨ m = 10 ∨ m = 12 then 31
  else if m = 4 ∨ m = 6 ∨ m = 9 ∨ m = 11 then 30
  else if isLeap y then 29 else 28

theorem daysInMonth_le (y : Int) (m : Nat) : daysInMonth y m ≤ 31 := by
  unfold daysInMonth
  split
  · omega
  · split
    · omega
    · split
      · omega
      · omega

theorem le_daysInMonth (y : Int) (m : Nat) : 28 ≤ daysInMonth y m := by
  unfold daysInMonth
  split
  · omega
  · split
    · omega
    · split
      · omega
      · omega

structure Valid (date : Int × Nat × Nat) : Prop where
  month : 1 ≤ date.2.1 ∧ date.2.1 ≤ 12
  day : 1 ≤ date.2.2 ∧ date.2.2 ≤ daysInMonth date.1 date.2.1

def Before (a b : Int × Nat × Nat) : Prop :=
  a.1 < b.1 ∨ (a.1 = b.1 ∧ (a.2.1 < b.2.1 ∨ (a.2.1 = b.2.1 ∧ a.2.2 < b.2.2)))

def daysFromCivil (date : Int × Nat × Nat) : Int :=
  let y := if date.2.1 ≤ 2 then date.1 - 1 else date.1
  let era := y / 400
  let yoe := y - era * 400
  let mp := ((date.2.1 : Int) + 9) % 12
  let doy := (153 * mp + 2) / 5 + date.2.2 - 1
  let doe := yoe * 365 + yoe / 4 - yoe / 100 + doy
  era * 146097 + doe - 719468

def yearStart (yoe : Nat) : Nat := 365 * yoe + yoe / 4 - yoe / 100 + yoe / 400

/-- The year that the corrections of `civil_from_days` find. -/
def yearOfDay (doe : Nat) : Nat := (doe - doe / 1460 + doe / 36524 - doe / 146096) / 365

variable {m doe : Nat} {date : Int × Nat × Nat}

theorem yearOfDay_succ (inEra : doe + 1 < 146097) : yearOfDay doe ≤ yearOfDay (doe + 1) := by
  unfold yearOfDay
  apply Nat.div_le_div_right
  omega

theorem yearOfDay_mono {a b : Nat} (le : a ≤ b) (inEra : b < 146097) :
    yearOfDay a ≤ yearOfDay b := by
  induction le with
  | refl => exact Nat.le_refl _
  | step _ ih => exact Nat.le_trans (ih (by omega)) (yearOfDay_succ inEra)

theorem yearOfDay_ends : ∀ y < 400,
    yearOfDay (yearStart y) = y ∧ yearOfDay (yearStart (y + 1) - 1) = y := by
  decide +kernel

theorem exists_year (inEra : doe < 146097) :
    ∃ y < 400, yearStart y ≤ doe ∧ doe < yearStart (y + 1) := by
  have upTo : ∀ n, doe < yearStart n → ∃ y < n, yearStart y ≤ doe ∧ doe < yearStart (y + 1) := by
    intro n
    induction n with
    | zero => exact fun impossible => (Nat.not_lt_zero _ impossible).elim
    | succ n ih =>
      intro before
      by_cases isEarlier : doe < yearStart n
      · obtain ⟨y, below, found⟩ := ih isEarlier
        exact ⟨y, by omega, found⟩
      · exact ⟨n, by omega, by omega, before⟩
  exact upTo 400 inEra

theorem yearOfDay_spec (inEra : doe < 146097) :
    yearOfDay doe < 400 ∧ yearStart (yearOfDay doe) ≤ doe ∧
      doe < yearStart (yearOfDay doe + 1) := by
  obtain ⟨y, below, first, last⟩ := exists_year inEra
  obtain ⟨atFirst, atLast⟩ := yearOfDay_ends y below
  have end_le : yearStart (y + 1) ≤ 146097 := by
    unfold yearStart
    omega
  have low := yearOfDay_mono first inEra
  have high := yearOfDay_mono (Nat.le_sub_one_of_lt last) (by omega)
  have isYear : yearOfDay doe = y := by omega
  rw [isYear]
  exact ⟨below, first, last⟩

def monthStart (y : Int) (m : Nat) : Int := daysFromCivil (y, m, 1) + 719468

theorem daysFromCivil_eq (y : Int) (m d : Nat) :
    daysFromCivil (y, m, d) = monthStart y m - 719468 + (d - 1) := by
  unfold monthStart daysFromCivil
  simp only [Nat.cast_one]
  omega

def marchStart (y : Int) : Int := 365 * y + y / 4 - y / 100 + y / 400

theorem monthStart_early (y : Int) (early : m ≤ 2) (low : 1 ≤ m) :
    monthStart y m = marchStart (y - 1) + (153 * ((m : Int) + 9) + 2) / 5 := by
  unfold monthStart daysFromCivil marchStart
  simp only [Nat.cast_one, if_pos early]
  omega

theorem monthStart_late (y : Int) (late : 2 < m) (high : m ≤ 12) :
    monthStart y m = marchStart y + (153 * ((m : Int) - 3) + 2) / 5 := by
  unfold monthStart daysFromCivil marchStart
  simp only [Nat.cast_one, if_neg (Nat.not_le_of_lt late)]
  omega

theorem marchStart_succ (y : Int) :
    marchStart y = marchStart (y - 1) + if isLeap y then 366 else 365 := by
  unfold marchStart isLeap
  simp only [decide_eq_true_eq]
  split
  · omega
  · omega

theorem monthStart_succ (y : Int) (low : 1 ≤ m) (high : m < 12) :
    monthStart y (m + 1) = monthStart y m + daysInMonth y m := by
  by_cases early : m ≤ 2
  · have year := marchStart_succ y
    by_cases isFirst : m = 1
    · subst isFirst
      have length : daysInMonth y 1 = 31 := rfl
      rw [monthStart_early y (by omega) (by omega), monthStart_early y (by omega) (by omega), length]
      omega
    · obtain rfl : m = 2 := by omega
      have length : daysInMonth y 2 = if isLeap y then 29 else 28 := rfl
      rw [monthStart_late y (by omega) (by omega), monthStart_early y (by omega) (by omega), year,
        length]
      split
      · omega
      · omega
  · rw [monthStart_late y (by omega) (by omega), monthStart_late y (by omega) (by omega)]
    unfold daysInMonth
    split
    · omega
    · split
      · omega
      · omega

theorem monthStart_january (y : Int) : monthStart (y + 1) 1 = monthStart y 12 + 31 := by
  rw [monthStart_early (y + 1) (by omega) (by omega), monthStart_late y (by omega) (by omega)]
  have same : y + 1 - 1 = y := by omega
  rw [same]
  omega

theorem monthStart_later (y : Int) (validM : 1 ≤ m ∧ m ≤ 12) (y' : Int) {m' : Nat}
    (validM' : 1 ≤ m' ∧ m' ≤ 12) (later : 12 * y + m < 12 * y' + m') :
    monthStart y m + daysInMonth y m ≤ monthStart y' m' := by
  -- The months between, one by one.
  obtain ⟨n, isN⟩ : ∃ n : Nat, 12 * y' + m' = 12 * y + m + n + 1 :=
    ⟨(12 * y' + m' - (12 * y + m) - 1).toNat, by omega⟩
  induction n generalizing y' m' with
  | zero =>
    by_cases isLast : m = 12
    · subst isLast
      have isFirst : m' = 1 := by omega
      have isNext : y' = y + 1 := by omega
      rw [isFirst, isNext, monthStart_january]
      exact Int.le_refl _
    · have isNext : m' = m + 1 := by omega
      have sameYear : y' = y := by omega
      rw [isNext, sameYear, monthStart_succ y validM.1 (by omega)]
  | succ n ih =>
    by_cases isFirst : m' = 1
    · have before := @ih (y' - 1) 12 (by omega) (by omega) (by omega)
      have next := monthStart_january (y' - 1)
      have sameYear : y' - 1 + 1 = y' := by omega
      rw [isFirst, ← sameYear, next]
      omega
    · obtain ⟨k, rfl⟩ : ∃ k, m' = k + 1 := ⟨m' - 1, by omega⟩
      have before := @ih y' k (by omega) (by omega) (by omega)
      rw [monthStart_succ y' (by omega) (by omega)]
      omega

theorem daysFromCivil_strictMono {a b : Int × Nat × Nat} (validA : Valid a) (validB : Valid b)
    (before : Before a b) : daysFromCivil a < daysFromCivil b := by
  obtain ⟨y, m, d⟩ := a
  obtain ⟨y', m', d'⟩ := b
  obtain ⟨month, day⟩ := validA
  obtain ⟨month', day'⟩ := validB
  simp only [Before] at before month day month' day'
  rw [daysFromCivil_eq, daysFromCivil_eq]
  by_cases sameMonth : y = y' ∧ m = m'
  · rw [sameMonth.1, sameMonth.2]
    omega
  · have later : 12 * y + m < 12 * y' + m' := by omega
    have apart := monthStart_later y month y' month' later
    omega

theorem before_total (a b : Int × Nat × Nat) (different : a ≠ b) : Before a b ∨ Before b a := by
  obtain ⟨y, m, d⟩ := a
  obtain ⟨y', m', d'⟩ := b
  simp only [ne_eq, Prod.mk.injEq] at different
  simp only [Before]
  omega

theorem daysFromCivil_inj {a b : Int × Nat × Nat} (validA : Valid a) (validB : Valid b)
    (same : daysFromCivil a = daysFromCivil b) : a = b := by
  by_contra different
  rcases before_total a b different with before | after
  · have less := daysFromCivil_strictMono validA validB before
    omega
  · have less := daysFromCivil_strictMono validB validA after
    omega

theorem marchStart_era (era : Int) (yoe : Nat) :
    marchStart (yoe + era * 400) = era * 146097 + yearStart yoe := by
  unfold marchStart yearStart
  omega

/-- The date of the day `doy` of a year that begins in March. -/
def dateOf (y doy : Int) : Int × Nat × Nat :=
  let mp := (5 * doy + 2) / 153
  let d := doy - (153 * mp + 2) / 5 + 1
  let m := if mp < 10 then mp + 3 else mp - 9
  (if m ≤ 2 then y + 1 else y, m.toNat, d.toNat)

theorem dateOf_spec (y doy : Int) (low : 0 ≤ doy)
    (high : marchStart y + doy < marchStart (y + 1)) :
    Valid (dateOf y doy) ∧ daysFromCivil (dateOf y doy) = marchStart y + doy - 719468 := by
  have year := marchStart_succ (y + 1)
  have same : y + 1 - 1 = y := by omega
  rw [same] at year
  have inYear : doy ≤ 365 := by
    split at year
    · omega
    · omega
  obtain ⟨mp, isMp⟩ : ∃ mp : Nat, (5 * doy + 2) / 153 = mp := ⟨((5 * doy + 2) / 153).toNat, by omega⟩
  have first : (153 * (mp : Int) + 2) / 5 ≤ doy := by omega
  have last : doy < (153 * ((mp : Int) + 1) + 2) / 5 := by omega
  obtain ⟨d, isDay⟩ : ∃ d : Nat, doy - (153 * (mp : Int) + 2) / 5 = d :=
    ⟨(doy - (153 * (mp : Int) + 2) / 5).toNat, by omega⟩
  by_cases early : mp < 10
  · have date : dateOf y doy = (y, mp + 3, d + 1) := by
      have isMonth : (if (mp : Int) < 10 then (mp : Int) + 3 else mp - 9) = mp + 3 :=
        if_pos (by omega)
      have notEarly : ¬ (mp : Int) + 3 ≤ 2 := by omega
      have month : ((mp : Int) + 3).toNat = mp + 3 := by omega
      have day : ((d : Int) + 1).toNat = d + 1 := by omega
      unfold dateOf
      simp only [isMp, isDay, isMonth, if_neg notEarly, month, day]
    have inMonth : d + 1 ≤ daysInMonth y (mp + 3) := by
      by_cases isDecember : mp = 9
      · have length : daysInMonth y 12 = 31 := rfl
        subst isDecember
        rw [length]
        omega
      · have next := monthStart_succ y (m := mp + 3) (by omega) (by omega)
        have here : ((mp + 3 : Nat) : Int) - 3 = mp := by omega
        have after : ((mp + 3 + 1 : Nat) : Int) - 3 = mp + 1 := by omega
        rw [monthStart_late y (by omega) (by omega), monthStart_late y (by omega) (by omega), here,
          after] at next
        omega
    rw [date, daysFromCivil_eq, monthStart_late y (by omega) (by omega)]
    refine ⟨⟨⟨?_, ?_⟩, ⟨?_, inMonth⟩⟩, ?_⟩
    · show 1 ≤ mp + 3
      omega
    · show mp + 3 ≤ 12
      omega
    · show 1 ≤ d + 1
      omega
    · omega
  · have date : dateOf y doy = (y + 1, mp - 9, d + 1) := by
      have isMonth : (if (mp : Int) < 10 then (mp : Int) + 3 else mp - 9) = mp - 9 :=
        if_neg (by omega)
      have isEarly : (mp : Int) - 9 ≤ 2 := by omega
      have month : ((mp : Int) - 9).toNat = mp - 9 := by omega
      have day : ((d : Int) + 1).toNat = d + 1 := by omega
      unfold dateOf
      simp only [isMp, isDay, isMonth, if_pos isEarly, month, day]
    have inMonth : d + 1 ≤ daysInMonth (y + 1) (mp - 9) := by
      by_cases isJanuary : mp = 10
      · have length : daysInMonth (y + 1) 1 = 31 := rfl
        subst isJanuary
        rw [length]
        omega
      · have isFebruary : mp = 11 := by omega
        have length : daysInMonth (y + 1) 2 = if isLeap (y + 1) then 29 else 28 := rfl
        subst isFebruary
        rw [length]
        by_cases leap : isLeap (y + 1)
        · rw [if_pos leap] at year ⊢
          omega
        · rw [if_neg leap] at year ⊢
          omega
    rw [date, daysFromCivil_eq, monthStart_early (y + 1) (by omega) (by omega), same]
    refine ⟨⟨⟨?_, ?_⟩, ⟨?_, inMonth⟩⟩, ?_⟩
    · show 1 ≤ mp - 9
      omega
    · show mp - 9 ≤ 12
      omega
    · show 1 ≤ d + 1
      omega
    · omega

theorem civilFromDays_spec (z : Int) :
    Valid (civilFromDays z) ∧ daysFromCivil (civilFromDays z) = z := by
  obtain ⟨doe, isDoe, inEra⟩ :
      ∃ doe : Nat, z + 719468 - (z + 719468) / 146097 * 146097 = doe ∧ doe < 146097 :=
    ⟨(z + 719468 - (z + 719468) / 146097 * 146097).toNat, by omega, by omega⟩
  obtain ⟨below, first, last⟩ := yearOfDay_spec inEra
  have isYear : ((doe : Int) - doe / 1460 + doe / 36524 - doe / 146096) / 365 = yearOfDay doe := by
    unfold yearOfDay
    omega
  have isDoy : (doe : Int) - (365 * (yearOfDay doe : Int) + (yearOfDay doe : Int) / 4 -
      (yearOfDay doe : Int) / 100) = doe - yearStart (yearOfDay doe) := by
    unfold yearStart
    omega
  have date : civilFromDays z = dateOf (yearOfDay doe + (z + 719468) / 146097 * 400)
      (doe - yearStart (yearOfDay doe)) := by
    unfold civilFromDays dateOf
    simp only [isDoe, isYear, isDoy]
  have start := marchStart_era ((z + 719468) / 146097) (yearOfDay doe)
  have next := marchStart_era ((z + 719468) / 146097) (yearOfDay doe + 1)
  have isNext : ((yearOfDay doe + 1 : Nat) : Int) + (z + 719468) / 146097 * 400 =
      yearOfDay doe + (z + 719468) / 146097 * 400 + 1 := by omega
  rw [isNext] at next
  obtain ⟨valid, days⟩ := dateOf_spec (yearOfDay doe + (z + 719468) / 146097 * 400)
    (doe - yearStart (yearOfDay doe)) (by omega) (by omega)
  rw [date]
  exact ⟨valid, by omega⟩

theorem civilFromDays_daysFromCivil (valid : Valid date) :
    civilFromDays (daysFromCivil date) = date := by
  obtain ⟨validBack, days⟩ := civilFromDays_spec (daysFromCivil date)
  exact daysFromCivil_inj validBack valid days

def InI64 (x : Int) : Prop := -2 ^ 63 ≤ x ∧ x < 2 ^ 63

def asI64 (x : Int) : Int := x.bmod (2 ^ 64)

theorem asI64_inI64 (x : Int) : InI64 (asI64 x) := by
  have low := @Int.le_bmod x (2 ^ 64) (by decide)
  have high := @Int.bmod_lt x (2 ^ 64) (by decide)
  unfold InI64 asI64
  omega

theorem asI64_eq {x : Int} (fits : InI64 x) : asI64 x = x := by
  unfold InI64 at fits
  unfold asI64
  rw [Int.bmod_eq_of_le] <;> omega

/-- `days_from_civil` as it is computed.  Years of an era and their days are small, so only the
places that a wide year reaches wrap. -/
def daysFromCivilI64 (date : Int × Nat × Nat) : Int :=
  let y := if date.2.1 ≤ 2 then asI64 (date.1 - 1) else date.1
  let era := y / 400
  let yoe := asI64 (y - asI64 (era * 400))
  let mp := ((date.2.1 : Int) + 9) % 12
  let doy := (153 * mp + 2) / 5 + date.2.2 - 1
  let doe := yoe * 365 + yoe / 4 - yoe / 100 + doy
  asI64 (asI64 (asI64 (era * 146097) + doe) - 719468)

/-- `civil_from_days` as it is computed. -/
def civilFromDaysI64 (z : Int) : Int × Nat × Nat :=
  let z := asI64 (z + 719468)
  let era := z / 146097
  let doe := asI64 (z - asI64 (era * 146097))
  let yoe := (doe - doe / 1460 + doe / 36524 - doe / 146096) / 365
  let y := yoe + era * 400
  let doy := doe - (365 * yoe + yoe / 4 - yoe / 100)
  let mp := (5 * doy + 2) / 153
  let d := doy - (153 * mp + 2) / 5 + 1
  let m := if mp < 10 then mp + 3 else mp - 9
  (if m ≤ 2 then y + 1 else y, m.toNat, d.toNat)

theorem asI64_sub (x y : Int) : asI64 (x - asI64 y) = asI64 (x - y) := Int.sub_bmod_bmod

theorem asI64_add (x y : Int) : asI64 (asI64 x + y) = asI64 (x + y) := Int.bmod_add_bmod

theorem asI64_sub_left (x y : Int) : asI64 (asI64 x - y) = asI64 (x - y) := Int.bmod_sub_bmod

theorem civilFromDaysI64_eq (z : Int) :
    civilFromDaysI64 z = civilFromDays (asI64 (z + 719468) - 719468) := by
  have back : asI64 (z + 719468) - 719468 + 719468 = asI64 (z + 719468) := by omega
  have doe (n : Int) : asI64 (n - asI64 (n / 146097 * 146097)) = n - n / 146097 * 146097 := by
    rw [asI64_sub]
    apply asI64_eq
    unfold InI64
    omega
  unfold civilFromDaysI64 civilFromDays
  simp only [doe, back]

theorem daysFromCivilI64_eq (noWrap : date.2.1 ≤ 2 → InI64 (date.1 - 1)) :
    daysFromCivilI64 date = asI64 (daysFromCivil date) := by
  have yoe (n : Int) : asI64 (n - asI64 (n / 400 * 400)) = n - n / 400 * 400 := by
    rw [asI64_sub]
    apply asI64_eq
    unfold InI64
    omega
  have year : (if date.2.1 ≤ 2 then asI64 (date.1 - 1) else date.1) =
      if date.2.1 ≤ 2 then date.1 - 1 else date.1 := by
    by_cases early : date.2.1 ≤ 2
    · rw [if_pos early, if_pos early, asI64_eq (noWrap early)]
    · rw [if_neg early, if_neg early]
  unfold daysFromCivilI64 daysFromCivil
  simp only [year, yoe, asI64_add, asI64_sub_left]

theorem year_of_inI64 (valid : Valid date) (shift : Int) (small : 0 ≤ shift ∧ shift ≤ 719468)
    (fits : InI64 (daysFromCivil date + shift)) : InI64 date.1 ∧ InI64 (date.1 - 1) := by
  obtain ⟨y, m, d⟩ := date
  obtain ⟨month, day⟩ := valid
  unfold daysFromCivil InI64 at fits
  unfold InI64
  simp only at month day fits ⊢
  have length := daysInMonth_le y m
  split at fits
  · omega
  · omega

theorem calendar_exact :
    (∀ z : Int, Valid (civilFromDays z) ∧ daysFromCivil (civilFromDays z) = z) ∧
    (∀ date, Valid date → civilFromDays (daysFromCivil date) = date) ∧
    (∀ a b, Valid a → Valid b → Before a b → daysFromCivil a < daysFromCivil b) ∧
    (∀ z, InI64 z → Valid (civilFromDaysI64 z) ∧ InI64 (civilFromDaysI64 z).1 ∧
      daysFromCivilI64 (civilFromDaysI64 z) = z) ∧
    (∀ date, Valid date → InI64 date.1 →
      (civilFromDaysI64 (daysFromCivilI64 date) = date ↔ InI64 (daysFromCivil date + 719468))) ∧
    (∀ a b, Valid a → Valid b → InI64 (daysFromCivil a) → InI64 (daysFromCivil b) → Before a b →
      daysFromCivilI64 a < daysFromCivilI64 b) := by
  have fromDays (z : Int) : ∃ w, InI64 (w + 719468) ∧ asI64 w = asI64 z ∧
      civilFromDaysI64 z = civilFromDays w := by
    refine ⟨asI64 (z + 719468) - 719468, ?_, ?_, civilFromDaysI64_eq z⟩
    · rw [Int.sub_add_cancel]
      exact asI64_inI64 _
    · rw [asI64_sub_left, Int.add_sub_cancel]
  have toDays {date : Int × Nat × Nat} (valid : Valid date)
      (fits : InI64 (daysFromCivil date + 719468)) :
      daysFromCivilI64 date = asI64 (daysFromCivil date) :=
    daysFromCivilI64_eq (fun _ => (year_of_inI64 valid 719468 (by omega) fits).2)
  have within {date : Int × Nat × Nat} (valid : Valid date) (fits : InI64 (daysFromCivil date)) :
      daysFromCivilI64 date = daysFromCivil date := by
    have years := year_of_inI64 valid 0 (by omega) (by rw [Int.add_zero]; exact fits)
    rw [daysFromCivilI64_eq (fun _ => years.2), asI64_eq fits]
  refine ⟨civilFromDays_spec, fun date => civilFromDays_daysFromCivil,
    fun a b => daysFromCivil_strictMono, ?_, ?_, ?_⟩
  · intro z fits
    obtain ⟨w, shifted, same, date⟩ := fromDays z
    obtain ⟨valid, days⟩ := civilFromDays_spec w
    rw [date]
    have years := year_of_inI64 valid 719468 (by omega) (by rw [days]; exact shifted)
    refine ⟨valid, years.1, ?_⟩
    rw [toDays valid (by rw [days]; exact shifted), days, same, asI64_eq fits]
  · intro date valid inI64
    constructor
    · intro same
      obtain ⟨w, shifted, _, isDate⟩ := fromDays (daysFromCivilI64 date)
      rw [isDate] at same
      rw [← same, (civilFromDays_spec w).2]
      exact shifted
    · intro fits
      rw [civilFromDaysI64_eq, toDays valid fits, asI64_add, asI64_eq fits, Int.add_sub_cancel]
      exact civilFromDays_daysFromCivil valid
  · intro a b validA validB fitsA fitsB before
    rw [within validA fitsA, within validB fitsB]
    exact daysFromCivil_strictMono validA validB before

theorem calendar_exact_leapDay :
    civilFromDaysI64 (daysFromCivilI64 (2000, 2, 29)) = (2000, 2, 29) ∧
      daysFromCivilI64 (-1, 12, 31) < daysFromCivilI64 (0, 1, 1) := by
  obtain ⟨_, _, _, _, roundTrip, mono⟩ := calendar_exact
  constructor
  · exact (roundTrip (2000, 2, 29) ⟨by decide, by decide⟩ (by unfold InI64; decide)).mpr
      (by unfold InI64; decide)
  · exact mono (-1, 12, 31) (0, 1, 1) ⟨by decide, by decide⟩ ⟨by decide, by decide⟩
      (by unfold InI64; decide) (by unfold InI64; decide) (by unfold Before; decide)

theorem daysFromCivil_wraps :
    ¬ ∀ date, Valid date → InI64 date.1 → civilFromDaysI64 (daysFromCivilI64 date) = date := by
  intro all
  have same := all (9223372036854775807, 1, 1) ⟨by decide, by decide⟩ (by unfold InI64; decide)
  have other : civilFromDaysI64 (daysFromCivilI64 (9223372036854775807, 1, 1)) ≠
      (9223372036854775807, 1, 1) := by decide
  exact other same

end Calendar

end NoidaDb.Sql
