/-
Intervals added to timestamps, and the interval between two timestamps.

The products with the length of a day are not checked, and how often they wrap around decides
whether the sum is exact.
-/

import NoidaDb.Postgres.ValueOrder
import NoidaDb.Sql.DatetimeText

namespace NoidaDb.Sql.TimestampArithmetic

open Calendar DatetimeText Postgres.Types

instance (x : Int) : Decidable (InI64 x) := by unfold InI64; infer_instance

structure Fits (iv : Interval) : Prop where
  months : -2 ^ 31 ≤ iv.months ∧ iv.months < 2 ^ 31
  days : -2 ^ 31 ≤ iv.days ∧ iv.days < 2 ^ 31
  micros : InI64 iv.micros

def InRange (ts : Int) : Prop := minTs ≤ ts ∧ ts < maxTs

instance (ts : Int) : Decidable (InRange ts) := by unfold InRange; infer_instance

def checkedAdd (a b : Int) : Except DtErr Int :=
  if InI64 (a + b) then .ok (a + b) else .error .range

def asI32 (x : Int) : Int := x.bmod (2 ^ 32)

def laterDate (date : Int × Nat × Nat) (months : Int) : Int × Nat × Nat :=
  let total := date.1 * 12 + ((date.2.1 : Int) - 1) + months
  let m := (total % 12).toNat + 1
  (total / 12, m, min date.2.2 (daysInMonth (total / 12) m))

def addMonthsLocal (wall months : Int) : Except DtErr Int :=
  if months = 0 then .ok wall
  else do
    let date := laterDate (civilFromDays (wall / usecsPerDay + pgEpochDays)) months
    checkYear date.1
    return asI64 (asI64 ((daysFromCivil date - pgEpochDays) * usecsPerDay) + wall % usecsPerDay)

def timestampAdd (ts : Int) (iv : Interval) : Except DtErr Int :=
  if ts = tsInf ∨ ts = tsNegInf then .ok ts
  else do
    let t ← addMonthsLocal ts iv.months
    let t ← checkedAdd t (asI64 (iv.days * usecsPerDay))
    let t ← checkedAdd t iv.micros
    if minTs ≤ t ∧ t < maxTs then .ok t else .error .range

def justifyHours (iv : Interval) : Interval :=
  let extra := iv.micros.tdiv usecsPerDay
  let days := asI32 (iv.days + asI32 extra)
  let micros := iv.micros - extra * usecsPerDay
  if 0 < days ∧ micros < 0 then ⟨iv.months, days - 1, micros + usecsPerDay⟩
  else if days < 0 ∧ 0 < micros then ⟨iv.months, days + 1, micros - usecsPerDay⟩
  else ⟨iv.months, days, micros⟩

/-- `timestamp - timestamp`, in days and time. -/
def timestampDiff (a b : Int) : Except DtErr Interval :=
  if a = tsInf ∨ a = tsNegInf ∨ b = tsInf ∨ b = tsNegInf then .error .range
  else if InI64 (a - b) then .ok (justifyHours ⟨0, 0, a - b⟩)
  else .error .range

def plusMonths (ts months : Int) : Int :=
  (daysFromCivil (laterDate (civilFromDays (ts / usecsPerDay + pgEpochDays)) months) -
    pgEpochDays) * usecsPerDay + ts % usecsPerDay

def plusDays (ts : Int) (iv : Interval) : Int :=
  plusMonths ts iv.months + iv.days * usecsPerDay

def exactSum (ts : Int) (iv : Interval) : Int := plusDays ts iv + iv.micros

theorem laterDate_zero {date : Int × Nat × Nat} (valid : Valid date) : laterDate date 0 = date := by
  obtain ⟨y, m, d⟩ := date
  obtain ⟨month, day⟩ := valid
  simp only at month day
  have year : (y * 12 + ((m : Int) - 1) + 0) / 12 = y := by omega
  have index : ((y * 12 + ((m : Int) - 1) + 0) % 12).toNat + 1 = m := by omega
  unfold laterDate
  simp only [year, index, Nat.min_eq_left day.2]

theorem plusMonths_zero (ts : Int) : plusMonths ts 0 = ts := by
  obtain ⟨valid, days⟩ := civilFromDays_spec (ts / usecsPerDay + pgEpochDays)
  have split := Int.mul_ediv_add_emod ts usecsPerDay
  unfold plusMonths
  rw [laterDate_zero valid, days, Int.add_sub_cancel, Int.mul_comm]
  exact split

def wraps (x : Int) : Int := (x + 2 ^ 63) / 2 ^ 64

theorem asI64_wraps (x : Int) : asI64 x = x - 2 ^ 64 * wraps x := by
  have fits := asI64_inI64 x
  have same := Int.dvd_self_sub_bmod (x := x) (m := 2 ^ 64)
  unfold InI64 asI64 at *
  unfold wraps
  omega

def sumWraps (ts : Int) (iv : Interval) : Int :=
  wraps (plusMonths ts iv.months) + wraps (iv.days * usecsPerDay)

/-- `check_year` accepts the year after the months. -/
def YearAccepted (ts months : Int) : Prop :=
  months = 0 ∨
    (-4713 ≤ (laterDate (civilFromDays (ts / usecsPerDay + pgEpochDays)) months).1 ∧
      (laterDate (civilFromDays (ts / usecsPerDay + pgEpochDays)) months).1 ≤ 5874897)

instance (ts months : Int) : Decidable (YearAccepted ts months) := by
  unfold YearAccepted; infer_instance

theorem wraps_eq_zero {x : Int} (fits : InI64 x) : wraps x = 0 := by
  unfold InI64 at fits
  unfold wraps
  omega

variable {ts : Int}

theorem addMonthsLocal_eq (range : InRange ts) (months : Int) :
    addMonthsLocal ts months =
      if YearAccepted ts months then
        .ok (plusMonths ts months - 2 ^ 64 * wraps (plusMonths ts months))
      else .error .range := by
  by_cases none : months = 0
  · subst none
    have fits : InI64 ts := by
      unfold InRange minTs maxTs at range
      unfold InI64
      omega
    have accepted : YearAccepted ts 0 := Or.inl rfl
    rw [if_pos accepted, plusMonths_zero, wraps_eq_zero fits]
    unfold addMonthsLocal
    rw [if_pos rfl, Int.mul_zero, Int.sub_zero]
  · have accepted : YearAccepted ts months ↔
        -4713 ≤ (laterDate (civilFromDays (ts / usecsPerDay + pgEpochDays)) months).1 ∧
          (laterDate (civilFromDays (ts / usecsPerDay + pgEpochDays)) months).1 ≤ 5874897 := by
      unfold YearAccepted
      exact or_iff_right none
    unfold addMonthsLocal checkYear
    rw [if_neg none]
    by_cases year : YearAccepted ts months
    · simp only [if_pos (accepted.mp year), if_pos year, ← asI64_wraps, bind, Except.bind, pure,
        Except.pure, asI64_add]
      rfl
    · simp only [if_neg (fun all => year (accepted.mpr all)), if_neg year, bind, Except.bind]

theorem timestampAdd_eq (range : InRange ts) (iv : Interval) :
    timestampAdd ts iv =
      if YearAccepted ts iv.months ∧ InI64 (plusDays ts iv - 2 ^ 64 * sumWraps ts iv) ∧
          InRange (exactSum ts iv - 2 ^ 64 * sumWraps ts iv) then
        .ok (exactSum ts iv - 2 ^ 64 * sumWraps ts iv)
      else .error .range := by
  have finite : ¬(ts = tsInf ∨ ts = tsNegInf) := by
    unfold InRange minTs maxTs at range
    unfold tsInf tsNegInf
    omega
  have days : plusMonths ts iv.months - 2 ^ 64 * wraps (plusMonths ts iv.months) +
      asI64 (iv.days * usecsPerDay) = plusDays ts iv - 2 ^ 64 * sumWraps ts iv := by
    rw [asI64_wraps]
    unfold plusDays sumWraps
    omega
  have micros : plusDays ts iv - 2 ^ 64 * sumWraps ts iv + iv.micros =
      exactSum ts iv - 2 ^ 64 * sumWraps ts iv := by
    unfold exactSum
    omega
  unfold timestampAdd
  rw [if_neg finite, addMonthsLocal_eq range]
  by_cases year : YearAccepted ts iv.months
  · rw [if_pos year]
    simp only [bind, Except.bind, checkedAdd, days]
    by_cases inDays : InI64 (plusDays ts iv - 2 ^ 64 * sumWraps ts iv)
    · simp only [if_pos inDays, micros]
      by_cases inRange : InRange (exactSum ts iv - 2 ^ 64 * sumWraps ts iv)
      · have inMicros : InI64 (exactSum ts iv - 2 ^ 64 * sumWraps ts iv) := by
          unfold InRange minTs maxTs at inRange
          unfold InI64
          omega
        rw [if_pos inMicros, if_pos ⟨year, inDays, inRange⟩]
        exact if_pos inRange
      · have refused : ¬(YearAccepted ts iv.months ∧
            InI64 (plusDays ts iv - 2 ^ 64 * sumWraps ts iv) ∧
            InRange (exactSum ts iv - 2 ^ 64 * sumWraps ts iv)) := fun all => inRange all.2.2
        rw [if_neg refused]
        by_cases inMicros : InI64 (exactSum ts iv - 2 ^ 64 * sumWraps ts iv)
        · rw [if_pos inMicros]
          exact if_neg inRange
        · rw [if_neg inMicros]
    · rw [if_neg inDays, if_neg (fun all => inDays all.2.1)]
  · rw [if_neg year, if_neg (fun all => year all.1)]
    rfl

def AddsExactly (ts : Int) (iv : Interval) : Prop :=
  timestampAdd ts iv =
    if InRange (exactSum ts iv) then .ok (exactSum ts iv) else .error .range

instance (ts : Int) (iv : Interval) : Decidable (AddsExactly ts iv) := by
  unfold AddsExactly; infer_instance

/-- Where nothing wraps around, a sum in range must pass the checks on its way.  Where something does,
neither sum may be taken for a timestamp. -/
def Tame (ts : Int) (iv : Interval) : Prop :=
  if sumWraps ts iv = 0 then
    InRange (exactSum ts iv) → YearAccepted ts iv.months ∧ InI64 (plusDays ts iv)
  else
    ¬InRange (exactSum ts iv) ∧
      ¬(YearAccepted ts iv.months ∧ InI64 (plusDays ts iv - 2 ^ 64 * sumWraps ts iv) ∧
        InRange (exactSum ts iv - 2 ^ 64 * sumWraps ts iv))

instance (ts : Int) (iv : Interval) : Decidable (Tame ts iv) := by unfold Tame; infer_instance

theorem addsExactly_iff (range : InRange ts) (iv : Interval) : AddsExactly ts iv ↔ Tame ts iv := by
  unfold AddsExactly Tame
  rw [timestampAdd_eq range]
  by_cases wrapped : sumWraps ts iv = 0
  · simp only [wrapped, Int.mul_zero, Int.sub_zero]
    by_cases inRange : InRange (exactSum ts iv)
    · by_cases checks : YearAccepted ts iv.months ∧ InI64 (plusDays ts iv)
      · simp [inRange, checks]
      · have refused : ¬(YearAccepted ts iv.months ∧ InI64 (plusDays ts iv) ∧
            InRange (exactSum ts iv)) := fun all => checks ⟨all.1, all.2.1⟩
        rw [if_neg refused, if_pos inRange, if_pos trivial]
        constructor
        · intro isOk
          cases isOk
        · intro need
          exact absurd (need inRange) checks
    · simp [inRange]
  · rw [if_neg wrapped]
    by_cases inRange : InRange (exactSum ts iv)
    · rw [if_pos inRange]
      constructor
      · intro same
        split at same
        · have := Except.ok.inj same
          omega
        · cases same
      · intro outside
        exact absurd inRange outside.1
    · rw [if_neg inRange]
      constructor
      · intro same
        refine ⟨inRange, ?_⟩
        intro passes
        rw [if_pos passes] at same
        cases same
      · intro outside
        exact if_neg outside.2

theorem days_of_span (us : Int) :
    (0 ≤ us → 0 ≤ us.tdiv usecsPerDay ∧ 0 ≤ us - us.tdiv usecsPerDay * usecsPerDay ∧
      us - us.tdiv usecsPerDay * usecsPerDay < usecsPerDay) ∧
    (us ≤ 0 → us.tdiv usecsPerDay ≤ 0 ∧ us - us.tdiv usecsPerDay * usecsPerDay ≤ 0 ∧
      -usecsPerDay < us - us.tdiv usecsPerDay * usecsPerDay) := by
  have isDay : usecsPerDay = 86400000000 := rfl
  constructor
  · intro positive
    rw [Int.tdiv_eq_ediv_of_nonneg positive, isDay]
    omega
  · intro negative
    have opposite : us.tdiv usecsPerDay = -(-us / usecsPerDay) := by
      rw [← Int.tdiv_eq_ediv_of_nonneg (by omega), Int.neg_tdiv, Int.neg_neg]
    rw [opposite, isDay]
    omega

theorem justifyHours_micros {us : Int} (fits : InI64 us) :
    justifyHours ⟨0, 0, us⟩ =
      ⟨0, us.tdiv usecsPerDay, us - us.tdiv usecsPerDay * usecsPerDay⟩ := by
  obtain ⟨later, earlier⟩ := days_of_span us
  have isDay : usecsPerDay = 86400000000 := rfl
  unfold justifyHours
  generalize us.tdiv usecsPerDay = extra at *
  rw [isDay] at *
  have small : asI32 extra = extra := by
    unfold InI64 at fits
    unfold asI32
    apply Int.bmod_eq_of_le <;> omega
  simp only [Int.zero_add, small]
  rw [if_neg (by omega), if_neg (by omega)]

theorem timestampAdd_diff {a b : Int} (rangeA : InRange a) (rangeB : InRange b) {iv : Interval}
    (isDiff : timestampDiff a b = .ok iv) : timestampAdd b iv = .ok a := by
  have finite : ¬(a = tsInf ∨ a = tsNegInf ∨ b = tsInf ∨ b = tsNegInf) := by
    unfold InRange minTs maxTs at rangeA rangeB
    unfold tsInf tsNegInf
    omega
  unfold timestampDiff at isDiff
  rw [if_neg finite] at isDiff
  by_cases fits : InI64 (a - b)
  · rw [if_pos fits, justifyHours_micros fits] at isDiff
    obtain rfl := Except.ok.inj isDiff
    obtain ⟨later, earlier⟩ := days_of_span (a - b)
    generalize (a - b).tdiv usecsPerDay = extra at *
    have isDay : usecsPerDay = 86400000000 := rfl
    have inDays : InI64 (extra * usecsPerDay) := by
      rw [isDay] at later earlier ⊢
      unfold InI64 at *
      omega
    have isI64 : InI64 b := by
      unfold InRange minTs maxTs at rangeB
      unfold InI64
      omega
    have noWraps : sumWraps b ⟨0, extra, a - b - extra * usecsPerDay⟩ = 0 := by
      unfold sumWraps
      rw [plusMonths_zero, wraps_eq_zero isI64, wraps_eq_zero inDays]
      rfl
    have isDays : plusDays b ⟨0, extra, a - b - extra * usecsPerDay⟩ = b + extra * usecsPerDay := by
      unfold plusDays
      rw [plusMonths_zero]
    have isSum : exactSum b ⟨0, extra, a - b - extra * usecsPerDay⟩ = a := by
      unfold exactSum
      rw [isDays]
      show b + extra * usecsPerDay + (a - b - extra * usecsPerDay) = a
      omega
    have between : InI64 (b + extra * usecsPerDay) := by
      rw [isDay] at later earlier ⊢
      unfold InRange minTs maxTs at rangeA rangeB
      unfold InI64
      omega
    rw [timestampAdd_eq rangeB, noWraps, isDays, isSum, Int.mul_zero, Int.sub_zero, Int.sub_zero]
    exact if_pos ⟨Or.inl rfl, between, rangeA⟩
  · rw [if_neg fits] at isDiff
    cases isDiff

/-- The sum of a timestamp and an interval is exact, or out of range, for the tame ones and no
others, and a difference always leads back. -/
theorem timestampAdd_exact (ts : Int) (range : InRange ts) (iv : Interval) :
    (AddsExactly ts iv ↔ Tame ts iv) ∧
      ∀ other, InRange other → ∀ diff, timestampDiff ts other = .ok diff →
        timestampAdd other diff = .ok ts :=
  ⟨addsExactly_iff range iv, fun _ rangeOther _ isDiff => timestampAdd_diff range rangeOther isDiff⟩

theorem timestampAdd_exact_january :
    AddsExactly 2592000000000 ⟨1, 0, 0⟩ ∧
      timestampAdd 2592000000000 ⟨1, 0, 0⟩ = .ok 5097600000000 ∧
      timestampAdd 2592000000000 ⟨0, 29, 0⟩ = .ok 5097600000000 := by
  have january : InRange 2592000000000 := by decide
  have february : InRange 5097600000000 := by decide
  refine ⟨(timestampAdd_exact 2592000000000 january ⟨1, 0, 0⟩).1.mpr (by decide +kernel),
    by decide +kernel, ?_⟩
  exact (timestampAdd_exact 5097600000000 february ⟨0, 0, 0⟩).2 2592000000000 january
    ⟨0, 29, 0⟩ (by rfl)

theorem timestampAdd_wraps :
    timestampAdd 0 ⟨0, 213503982, 0⟩ = .ok (-28909551616) ∧
      ¬∀ ts iv, InRange ts → Fits iv → AddsExactly ts iv := by
  have result : timestampAdd 0 ⟨0, 213503982, 0⟩ = .ok (-28909551616) := by decide +kernel
  refine ⟨result, ?_⟩
  intro exact
  have sum := exact 0 ⟨0, 213503982, 0⟩ (by decide) ⟨by decide, by decide, by decide⟩
  revert sum
  decide +kernel

end NoidaDb.Sql.TimestampArithmetic
