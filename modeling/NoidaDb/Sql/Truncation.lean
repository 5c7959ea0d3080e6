/-
`date_trunc` and `extract` on local timestamps.

A field that `date_trunc` knows cuts the timeline into periods.  What is proved about the
truncations is proved of periods, and the arithmetic of the source only has to find them.
-/

import NoidaDb.Lib.Periods
import NoidaDb.Sql.NumericDivision
import NoidaDb.Sql.TimeZones

namespace NoidaDb.Sql.Truncation

open Lib Calendar DatetimeText TimeZones

structure Fields where
  year : Int
  month : Nat
  day : Nat
  hour : Int
  minute : Int
  micros : Int
  /-- Days since 2000-01-01. -/
  days : Int

def fields (wall : Int) : Fields :=
  let days := wall / usecsPerDay
  let tod := wall % usecsPerDay
  let date := civilFromDays (days + pgEpochDays)
  { year := date.1
    month := date.2.1
    day := date.2.2
    hour := tod / (3600 * usecsPerSec)
    minute := tod / (60 * usecsPerSec) % 60
    micros := tod % (60 * usecsPerSec)
    days := days }

def week1Start (y : Int) : Int :=
  let jan4 := daysFromCivil (y, 1, 4) - pgEpochDays
  jan4 - (jan4 + pgEpochDays + 3) % 7

def isoWeek (days : Int) : Int × Int :=
  let y := (civilFromDays (days + pgEpochDays)).1
  let isoYear :=
    if days < week1Start y then y - 1 else if week1Start (y + 1) ≤ days then y + 1 else y
  ((days - week1Start isoYear).tdiv 7 + 1, isoYear)

/-- `Numeric::from_i64` and `from_i128`. -/
def ofInt (v : Int) : Numeric :=
  .fin { neg := v < 0, digits := strip (Nat.digits 10 v.natAbs).reverse : Dec }.normalize

def secScaled (micros : Int) (scale : Nat) : Option Numeric :=
  (ofInt micros).divScale (ofInt (10 ^ scale)) scale false

/-- EXTRACT on a local timestamp; `none` for fields that do not apply. -/
def extract (field : String) (wall : Int) (utc tzOff : Option Int) (isDate : Bool) :
    Option Numeric :=
  let f := fields wall
  match field with
  | "year" => some (ofInt (if f.year ≤ 0 then f.year - 1 else f.year))
  | "month" => some (ofInt f.month)
  | "day" => some (ofInt f.day)
  | "hour" => if isDate then none else some (ofInt f.hour)
  | "minute" => if isDate then none else some (ofInt f.minute)
  | "second" => if isDate then none else secScaled f.micros 6
  | "milliseconds" => if isDate then none else secScaled f.micros 3
  | "microseconds" => if isDate then none else some (ofInt f.micros)
  | "quarter" => some (ofInt (((f.month : Int) - 1).tdiv 3 + 1))
  | "dow" => some (ofInt ((f.days + pgEpochDays + 4) % 7))
  | "isodow" => some (ofInt ((f.days + pgEpochDays + 3) % 7 + 1))
  | "doy" => some (ofInt (f.days - (daysFromCivil (f.year, 1, 1) - pgEpochDays) + 1))
  | "week" => some (ofInt (isoWeek f.days).1)
  | "isoyear" =>
    let y := (isoWeek f.days).2
    some (ofInt (if y ≤ 0 then y - 1 else y))
  | "decade" =>
    some (ofInt (if 0 ≤ f.year then f.year.tdiv 10 else -(8 - (f.year - 1)).tdiv 10))
  | "century" =>
    some (ofInt (if 0 < f.year then (f.year + 99).tdiv 100 else -(99 - (f.year - 1)).tdiv 100))
  | "millennium" =>
    some (ofInt
      (if 0 < f.year then (f.year + 999).tdiv 1000 else -(999 - (f.year - 1)).tdiv 1000))
  | "julian" =>
    let jd := f.days + 2451545
    if isDate then some (ofInt jd)
    else
      ((ofInt (wall % usecsPerDay)).divScale (ofInt usecsPerDay) 18 false).map (ofInt jd).add
  | "epoch" =>
    let us := utc.getD wall + pgEpochDays * usecsPerDay
    if isDate then some (ofInt (us.tdiv usecsPerSec))
    else (ofInt us).divScale (ofInt usecsPerSec) 6 false
  | "timezone" => tzOff.map ofInt
  | "timezone_hour" => tzOff.map (fun off => ofInt (off.tdiv 3600))
  | "timezone_minute" => tzOff.map (fun off => ofInt ((off.tdiv 60).tmod 60))
  | _ => none

/-- The fields of `date_trunc`. -/
inductive Field where
  | microseconds | milliseconds | second | minute | hour | day | week | month | quarter | year
  | decade | century | millennium
deriving Repr, DecidableEq

def Field.ofName : String → Option Field
  | "microseconds" => some .microseconds
  | "milliseconds" => some .milliseconds
  | "second" => some .second
  | "minute" => some .minute
  | "hour" => some .hour
  | "day" => some .day
  | "week" => some .week
  | "month" => some .month
  | "quarter" => some .quarter
  | "year" => some .year
  | "decade" => some .decade
  | "century" => some .century
  | "millennium" => some .millennium
  | _ => none

def ymd (date : Int × Nat × Nat) : Int := asI64 ((daysFromCivil date - pgEpochDays) * usecsPerDay)

def truncField (field : Field) (wall : Int) : Int :=
  let f := fields wall
  match field with
  | .microseconds => wall
  | .milliseconds => asI64 (wall - wall % 1000)
  | .second => asI64 (wall - wall % usecsPerSec)
  | .minute => asI64 (wall - wall % (60 * usecsPerSec))
  | .hour => asI64 (wall - wall % (3600 * usecsPerSec))
  | .day => asI64 (f.days * usecsPerDay)
  | .week => asI64 ((f.days - (f.days + pgEpochDays + 3) % 7) * usecsPerDay)
  | .month => ymd (f.year, f.month, 1)
  | .quarter => ymd (f.year, (f.month - 1) / 3 * 3 + 1, 1)
  | .year => ymd (f.year, 1, 1)
  | .decade => ymd (f.year / 10 * 10, 1, 1)
  | .century =>
    ymd (if 0 < f.year then (f.year - 1).tdiv 100 * 100 + 1
      else -((99 - f.year).tdiv 100 * 100) + 1, 1, 1)
  | .millennium =>
    ymd (if 0 < f.year then (f.year - 1).tdiv 1000 * 1000 + 1
      else -((999 - f.year).tdiv 1000 * 1000) + 1, 1, 1)

/-- `date_trunc` on a local timestamp. -/
def truncLocal (name : String) (wall : Int) : Option Int :=
  (Field.ofName name).map (fun field => truncField field wall)

theorem ofInt_inj {v w : Int} (same : ofInt v = ofInt w) : v = w := by
  have value (u : Int) :
      ({ neg := u < 0, digits := strip (Nat.digits 10 u.natAbs).reverse : Dec }.normalize).value =
        u := by
    have amount : numberOf 10 (strip (Nat.digits 10 u.natAbs).reverse) = u.natAbs := by
      unfold strip
      rw [numberOf_dropZeros]
      unfold numberOf
      rw [List.reverse_reverse, Nat.ofDigits_digits]
    rw [Dec.value_normalize]
    unfold Dec.value Dec.sign
    simp only [amount, decide_eq_true_eq, pow_zero, div_one]
    by_cases negative : u < 0
    · have whole : (u.natAbs : Int) = -u := by omega
      rw [if_pos negative, ← Int.cast_natCast, whole, Int.cast_neg, neg_mul_neg, one_mul]
    · have whole : (u.natAbs : Int) = u := by omega
      rw [if_neg negative, ← Int.cast_natCast, whole, one_mul]
  have dec := Numeric.fin.inj same
  have values := congrArg Dec.value dec
  rw [value, value] at values
  exact_mod_cast values

def monthOf (days : Int) : Int :=
  let date := civilFromDays (days + pgEpochDays)
  date.1 * 12 + (date.2.1 - 1)

def firstOfMonth (k : Int) : Int := daysFromCivil (k / 12, (k % 12).toNat + 1, 1) - pgEpochDays

theorem valid_first (k : Int) : Valid (k / 12, (k % 12).toNat + 1, 1) := by
  refine ⟨?_, ?_⟩
  · show 1 ≤ (k % 12).toNat + 1 ∧ (k % 12).toNat + 1 ≤ 12
    omega
  · exact ⟨Nat.le_refl 1, Nat.le_trans (show 1 ≤ 28 by decide) (le_daysInMonth _ _)⟩

theorem firstOfMonth_step (k : Int) : firstOfMonth k < firstOfMonth (k + 1) := by
  have later : Before (k / 12, (k % 12).toNat + 1, 1) ((k + 1) / 12, ((k + 1) % 12).toNat + 1, 1) := by
    unfold Before
    simp only
    omega
  have less := daysFromCivil_strictMono (valid_first k) (valid_first (k + 1)) later
  unfold firstOfMonth
  omega

theorem firstOfMonth_around (days : Int) :
    firstOfMonth (monthOf days) ≤ days ∧ days < firstOfMonth (monthOf days + 1) := by
  obtain ⟨valid, isDays⟩ := civilFromDays_spec (days + pgEpochDays)
  unfold monthOf firstOfMonth
  generalize civilFromDays (days + pgEpochDays) = date at valid isDays
  obtain ⟨y, m, d⟩ := date
  have month := valid.month
  have day := valid.day
  simp only at month day ⊢
  constructor
  · have isYear : (y * 12 + ((m : Int) - 1)) / 12 = y := by omega
    have isMonth : ((y * 12 + ((m : Int) - 1)) % 12).toNat + 1 = m := by omega
    rw [isYear, isMonth]
    rw [daysFromCivil_eq] at isDays ⊢
    omega
  · have before : Before (y, m, d) ((y * 12 + ((m : Int) - 1) + 1) / 12,
        ((y * 12 + ((m : Int) - 1) + 1) % 12).toNat + 1, 1) := by
      unfold Before
      simp only
      omega
    have less := daysFromCivil_strictMono valid (valid_first _) before
    omega

def monthPeriods : Periods Int :=
  .ofSteps firstOfMonth monthOf firstOfMonth_step firstOfMonth_around

def dayPeriods : Periods Int := .every usecsPerDay 0 (by decide)

def monthTimes : Periods Int := dayPeriods.comp monthPeriods

def yearTimes : Periods Int := monthTimes.comp (.every 12 0 (by decide))

def Field.periods : Field → Periods Int
  | .microseconds => .every 1 0 (by decide)
  | .milliseconds => .every 1000 0 (by decide)
  | .second => .every usecsPerSec 0 (by decide)
  | .minute => .every (60 * usecsPerSec) 0 (by decide)
  | .hour => .every (3600 * usecsPerSec) 0 (by decide)
  | .day => dayPeriods
  | .week => dayPeriods.comp (.every 7 (-(pgEpochDays + 3)) (by decide))
  | .month => monthTimes
  | .quarter => monthTimes.comp (.every 3 0 (by decide))
  | .year => yearTimes
  | .decade => yearTimes.comp (.every 10 0 (by decide))
  | .century => yearTimes.comp (.every 100 1 (by decide))
  | .millennium => yearTimes.comp (.every 1000 1 (by decide))

/-- Left out are years that end a century or a millennium before the year 1. -/
def Straight (field : Field) (wall : Int) : Prop :=
  match field with
  | .century => 0 < (fields wall).year ∨ (fields wall).year % 100 ≠ 0
  | .millennium => 0 < (fields wall).year ∨ (fields wall).year % 1000 ≠ 0
  | _ => True

theorem floor_every (n : Int) (pos : 0 < n) (wall : Int) :
    (Periods.every n 0 pos).floor wall = wall - wall % n := by
  have split := Int.mul_ediv_add_emod wall n
  show (wall - 0) / n * n + 0 = _
  rw [Int.sub_zero, Int.mul_comm]
  omega

theorem floor_months (coarse : Periods Int) (wall : Int) :
    (monthTimes.comp coarse).floor wall =
      firstOfMonth (coarse.floor (monthOf (fields wall).days)) * usecsPerDay := by
  show firstOfMonth (coarse.start (coarse.index (monthOf ((wall - 0) / usecsPerDay)))) *
    usecsPerDay + 0 = _
  rw [Int.sub_zero, Int.add_zero]
  rfl

theorem ymd_eq (y : Int) (m : Nat) (range : 1 ≤ m ∧ m ≤ 12) :
    ymd (y, m, 1) = asI64 (firstOfMonth (y * 12 + (m - 1)) * usecsPerDay) := by
  have isYear : (y * 12 + ((m : Int) - 1)) / 12 = y := by omega
  have isMonth : ((y * 12 + ((m : Int) - 1)) % 12).toNat + 1 = m := by omega
  unfold ymd firstOfMonth
  rw [isYear, isMonth]

theorem fields_date (wall : Int) :
    (1 ≤ (fields wall).month ∧ (fields wall).month ≤ 12) ∧
      monthOf (fields wall).days = (fields wall).year * 12 + ((fields wall).month - 1) :=
  ⟨(civilFromDays_spec _).1.month, rfl⟩

theorem ymd_floor (coarse : Periods Int) (wall y : Int) (m : Nat) (range : 1 ≤ m ∧ m ≤ 12)
    (isStart : y * 12 + ((m : Int) - 1) = coarse.floor (monthOf (fields wall).days)) :
    ymd (y, m, 1) = asI64 ((monthTimes.comp coarse).floor wall) := by
  rw [ymd_eq y m range, isStart, floor_months]

theorem index_year (wall : Int) : yearTimes.index wall = (fields wall).year := by
  obtain ⟨range, isMonth⟩ := fields_date wall
  have isIndex : yearTimes.index wall = (monthOf ((wall - 0) / usecsPerDay) - 0) / 12 := rfl
  have isDays : (wall - 0) / usecsPerDay = (fields wall).days := by
    rw [Int.sub_zero]
    rfl
  rw [isIndex, isDays]
  omega

theorem index_years (coarse : Periods Int) (wall : Int) :
    (yearTimes.comp coarse).index wall = coarse.index (fields wall).year := by
  rw [← index_year]
  rfl

theorem ymd_years (coarse : Periods Int) (wall y : Int)
    (isStart : y = coarse.floor (fields wall).year) :
    ymd (y, 1, 1) = asI64 ((yearTimes.comp coarse).floor wall) := by
  have isFloor : (yearTimes.comp coarse).floor wall =
      yearTimes.start (coarse.start ((yearTimes.comp coarse).index wall)) := rfl
  have january : yearTimes.start y = firstOfMonth (y * 12 + 0) * usecsPerDay + 0 := rfl
  rw [isFloor, index_years, ymd_eq y 1 (by decide)]
  show _ = asI64 (yearTimes.start (coarse.floor (fields wall).year))
  rw [← isStart, january, Int.add_zero]
  rfl

variable {wall y n : Int}

/-- Years in runs of `n`, of which one starts with the year 1. -/
theorem run_of_years (pos : 1 < n) (straight : 0 < y ∨ y % n ≠ 0) :
    (if 0 < y then (y - 1).tdiv n * n + 1 else -((n - 1 - y).tdiv n * n) + 1) =
      (y - 1) / n * n + 1 := by
  by_cases after : 0 < y
  · rw [if_pos after, Int.tdiv_eq_ediv_of_nonneg (by omega)]
  · have notEnd : y % n ≠ 0 := straight.resolve_left after
    have split := Int.mul_ediv_add_emod y n
    have low := Int.emod_nonneg y (show n ≠ 0 by omega)
    have high := Int.emod_lt_of_pos y (show 0 < n by omega)
    have up : (n - 1 - y) / n = -(y / n) :=
      ((Int.ediv_emod_unique (show 0 < n by omega)).mpr
        ⟨show n - 1 - y % n + n * -(y / n) = n - 1 - y by rw [Int.mul_neg]; omega,
          by omega, by omega⟩).1
    have down : (y - 1) / n = y / n :=
      ((Int.ediv_emod_unique (show 0 < n by omega)).mpr
        ⟨show y % n - 1 + n * (y / n) = y - 1 by omega, by omega, by omega⟩).1
    rw [if_neg after, Int.tdiv_eq_ediv_of_nonneg (by omega), up, down, Int.neg_mul, Int.neg_neg]

theorem truncField_eq (field : Field) (fits : InI64 wall) (straight : Straight field wall) :
    truncField field wall = asI64 (field.periods.floor wall) := by
  obtain ⟨range, isMonth⟩ := fields_date wall
  cases field with
  | microseconds =>
    rw [Field.periods, floor_every, Int.emod_one, Int.sub_zero, asI64_eq fits]
    rfl
  | milliseconds => rw [Field.periods, floor_every]; rfl
  | second => rw [Field.periods, floor_every]; rfl
  | minute => rw [Field.periods, floor_every]; rfl
  | hour => rw [Field.periods, floor_every]; rfl
  | day =>
    show asI64 (wall / usecsPerDay * usecsPerDay) = asI64 ((wall - 0) / usecsPerDay * usecsPerDay + 0)
    rw [Int.sub_zero, Int.add_zero]
  | week =>
    show asI64 ((wall / usecsPerDay - (wall / usecsPerDay + pgEpochDays + 3) % 7) * usecsPerDay) =
      asI64 ((((wall - 0) / usecsPerDay - -(pgEpochDays + 3)) / 7 * 7 + -(pgEpochDays + 3)) *
        usecsPerDay + 0)
    rw [Int.sub_zero, Int.add_zero]
    congr 2
    omega
  | month =>
    show ymd ((fields wall).year, (fields wall).month, 1) =
      asI64 (firstOfMonth (monthOf ((wall - 0) / usecsPerDay)) * usecsPerDay + 0)
    rw [ymd_eq _ _ range, ← isMonth, Int.sub_zero, Int.add_zero]
    rfl
  | quarter =>
    apply ymd_floor _ wall _ _ (by omega)
    show _ = (monthOf (fields wall).days - 0) / 3 * 3 + 0
    omega
  | year =>
    apply ymd_floor _ wall _ _ (by omega)
    show _ = (monthOf (fields wall).days - 0) / 12 * 12 + 0
    omega
  | decade =>
    apply ymd_years _ wall
    show _ = ((fields wall).year - 0) / 10 * 10 + 0
    rw [Int.sub_zero, Int.add_zero]
  | century =>
    apply ymd_years _ wall
    exact run_of_years (show (1 : Int) < 100 by decide) straight
  | millennium =>
    apply ymd_years _ wall
    exact run_of_years (show (1 : Int) < 1000 by decide) straight

def january1 (y : Int) : Int := daysFromCivil (y, 1, 1) - pgEpochDays

theorem january1_step (y : Int) :
    january1 (y + 1) = january1 y + 365 ∨ january1 (y + 1) = january1 y + 366 := by
  have next := marchStart_succ y
  unfold january1
  rw [daysFromCivil_eq, daysFromCivil_eq, monthStart_early _ (by decide) (by decide),
    monthStart_early _ (by decide) (by decide), Int.add_sub_cancel]
  split at next
  · omega
  · omega

theorem january1_around (days : Int) :
    january1 (civilFromDays (days + pgEpochDays)).1 ≤ days ∧
      days < january1 ((civilFromDays (days + pgEpochDays)).1 + 1) := by
  obtain ⟨valid, isDays⟩ := civilFromDays_spec (days + pgEpochDays)
  generalize civilFromDays (days + pgEpochDays) = date at valid isDays
  obtain ⟨y, m, d⟩ := date
  have month := valid.month
  have day := valid.day
  have first (y : Int) : Valid (y, 1, 1) :=
    ⟨⟨Nat.le_refl 1, show 1 ≤ 12 by decide⟩,
      Nat.le_refl 1, Nat.le_trans (show 1 ≤ 28 by decide) (le_daysInMonth _ _)⟩
  simp only at month day ⊢
  unfold january1
  constructor
  · by_cases isFirst : (y, m, d) = (y, 1, 1)
    · rw [isFirst] at isDays
      omega
    · have before : Before (y, 1, 1) (y, m, d) := by
        simp only [Prod.mk.injEq, true_and] at isFirst
        exact Or.inr ⟨rfl, show 1 < m ∨ 1 = m ∧ 1 < d by omega⟩
      have less := daysFromCivil_strictMono (first y) valid before
      omega
  · have before : Before (y, m, d) (y + 1, 1, 1) := Or.inl (by simp)
    have less := daysFromCivil_strictMono valid (first (y + 1)) before
    omega

theorem week1Start_near (y : Int) :
    january1 y - 3 ≤ week1Start y ∧ week1Start y ≤ january1 y + 3 ∧
      (week1Start y + pgEpochDays + 3) % 7 = 0 := by
  have isJan4 : daysFromCivil (y, 1, 4) = daysFromCivil (y, 1, 1) + 3 := by
    rw [daysFromCivil_eq, daysFromCivil_eq]
    omega
  unfold week1Start january1
  simp only [isJan4]
  omega

theorem week1Start_step (y : Int) : week1Start y < week1Start (y + 1) := by
  have near := week1Start_near y
  have near' := week1Start_near (y + 1)
  have step := january1_step y
  omega

theorem isoWeek_around (days : Int) :
    week1Start (isoWeek days).2 ≤ days ∧ days < week1Start ((isoWeek days).2 + 1) := by
  obtain ⟨low, high⟩ := january1_around days
  unfold isoWeek
  simp only
  generalize (civilFromDays (days + pgEpochDays)).1 = y at low high
  by_cases early : days < week1Start y
  · rw [if_pos early]
    have near := week1Start_near (y - 1)
    have step := january1_step (y - 1)
    have same : y - 1 + 1 = y := by omega
    rw [same] at step ⊢
    omega
  · rw [if_neg early]
    by_cases late : week1Start (y + 1) ≤ days
    · rw [if_pos late]
      have near := week1Start_near (y + 1 + 1)
      have step := january1_step (y + 1)
      omega
    · rw [if_neg late]
      omega

def isoYears : Periods Int :=
  .ofSteps week1Start (fun days => (isoWeek days).2) week1Start_step isoWeek_around

theorem isoWeek_eq_iff (a b : Int) :
    isoWeek a = isoWeek b ↔ (a + pgEpochDays + 3) / 7 = (b + pgEpochDays + 3) / 7 := by
  have number (days : Int) :
      (isoWeek days).1 = (days - week1Start (isoWeek days).2) / 7 + 1 := by
    have around := (isoWeek_around days).1
    show (days - week1Start (isoWeek days).2).tdiv 7 + 1 = _
    rw [Int.tdiv_eq_ediv_of_nonneg (by omega)]
  rw [Prod.ext_iff, number a, number b]
  constructor
  · rintro ⟨week, year⟩
    rw [year] at week
    have monday := (week1Start_near (isoWeek b).2).2.2
    omega
  · intro same
    have starts (y : Int) : week1Start y ≤ a ↔ week1Start y ≤ b := by
      have monday := (week1Start_near y).2.2
      omega
    have year : (isoWeek a).2 = (isoWeek b).2 := by
      apply Int.le_antisymm
      · exact (isoYears.gc _ _).mp ((starts _).mp (isoWeek_around a).1)
      · exact (isoYears.gc _ _).mp ((starts _).mpr (isoWeek_around b).1)
    have monday := (week1Start_near (isoWeek b).2).2.2
    rw [year]
    omega

def toldBy : Field → Option (List String)
  | .week => some ["week", "isoyear"]
  | .quarter => some ["quarter", "year"]
  | .year => some ["year"]
  | .decade => some ["decade"]
  | .century => some ["century"]
  | .millennium => some ["millennium"]
  | _ => none

theorem unsigned_inj {x : Int} (same : (if x ≤ 0 then x - 1 else x) = if y ≤ 0 then y - 1 else y) :
    x = y := by
  split at same
  · split at same <;> omega
  · split at same <;> omega

theorem decade_eq (y : Int) :
    (if 0 ≤ y then y.tdiv 10 else -(8 - (y - 1)).tdiv 10) = y / 10 := by
  split
  · rename_i after
    exact Int.tdiv_eq_ediv_of_nonneg after
  · rw [Int.tdiv_eq_ediv_of_nonneg (by omega)]
    omega

theorem run_number (y : Int) (isRun : n = 100 ∨ n = 1000) :
    (if 0 < y then (y + (n - 1)).tdiv n else -(n - 1 - (y - 1)).tdiv n) =
      if 0 ≤ (y - 1) / n then (y - 1) / n + 1 else (y - 1) / n := by
  have sum : 0 < y → (y + (n - 1)).tdiv n = (y + (n - 1)) / n :=
    fun after => Int.tdiv_eq_ediv_of_nonneg (by omega)
  have difference : ¬0 < y → (n - 1 - (y - 1)).tdiv n = (n - 1 - (y - 1)) / n :=
    fun before => Int.tdiv_eq_ediv_of_nonneg (by omega)
  by_cases after : 0 < y
  · rw [if_pos after, sum after]
    rcases isRun with rfl | rfl <;> omega
  · rw [if_neg after, difference after]
    rcases isRun with rfl | rfl <;> omega

theorem run_number_inj {x : Int}
    (same : (if 0 ≤ (x - 1) / n then (x - 1) / n + 1 else (x - 1) / n) =
      if 0 ≤ (y - 1) / n then (y - 1) / n + 1 else (y - 1) / n) : (x - 1) / n = (y - 1) / n := by
  split at same
  · split at same <;> omega
  · split at same <;> omega

theorem some_ofInt_iff (v w : Int) : some (ofInt v) = some (ofInt w) ↔ v = w :=
  ⟨fun same => ofInt_inj (Option.some.inj same), fun same => by rw [same]⟩

theorem told_iff {field : Field} {told : List String} (isTold : toldBy field = some told)
    (a b : Int) (utcA tzA utcB tzB : Option Int) (dateA dateB : Bool) :
    (∀ name ∈ told, extract name a utcA tzA dateA = extract name b utcB tzB dateB) ↔
      field.periods.index a = field.periods.index b := by
  obtain ⟨rangeA, monthA⟩ := fields_date a
  obtain ⟨rangeB, monthB⟩ := fields_date b
  cases field with
  | week =>
    obtain rfl := Option.some.inj isTold
    have isIndex (wall : Int) : (Field.week.periods).index wall =
        ((fields wall).days + pgEpochDays + 3) / 7 := by
      show ((wall - 0) / usecsPerDay - -(pgEpochDays + 3)) / 7 = _
      rw [Int.sub_zero, Int.sub_neg, ← Int.add_assoc]
      rfl
    rw [List.forall_mem_cons, List.forall_mem_singleton, isIndex, isIndex, ← isoWeek_eq_iff,
      Prod.ext_iff]
    simp only [extract]
    rw [some_ofInt_iff, some_ofInt_iff]
    exact and_congr_right (fun _ => ⟨unsigned_inj, fun same => by rw [same]⟩)
  | quarter =>
    obtain rfl := Option.some.inj isTold
    have isIndex (wall : Int) : (Field.quarter.periods).index wall =
        monthOf (fields wall).days / 3 := by
      show (monthOf ((wall - 0) / usecsPerDay) - 0) / 3 = _
      rw [Int.sub_zero, Int.sub_zero]
      rfl
    rw [List.forall_mem_cons, List.forall_mem_singleton, isIndex, isIndex, monthA, monthB]
    simp only [extract]
    rw [some_ofInt_iff, some_ofInt_iff, Int.tdiv_eq_ediv_of_nonneg (by omega),
      Int.tdiv_eq_ediv_of_nonneg (by omega)]
    constructor
    · rintro ⟨quarter, same⟩
      have isYear := unsigned_inj same
      omega
    · intro same
      have isYear : (fields a).year = (fields b).year := by omega
      rw [isYear]
      exact ⟨by omega, rfl⟩
  | year =>
    obtain rfl := Option.some.inj isTold
    rw [List.forall_mem_singleton, Field.periods, index_year, index_year]
    constructor
    · intro same
      exact unsigned_inj ((some_ofInt_iff _ _).mp same)
    · intro same
      simp only [extract, same]
  | decade =>
    obtain rfl := Option.some.inj isTold
    rw [List.forall_mem_singleton, Field.periods, index_years, index_years]
    simp only [extract]
    rw [some_ofInt_iff, decade_eq, decade_eq]
    show _ ↔ ((fields a).year - 0) / 10 = ((fields b).year - 0) / 10
    rw [Int.sub_zero, Int.sub_zero]
  | century =>
    obtain rfl := Option.some.inj isTold
    have number (y : Int) := run_number y (show (100 : Int) = 100 ∨ (100 : Int) = 1000 by decide)
    simp only [show (100 : Int) - 1 = 99 from rfl] at number
    rw [List.forall_mem_singleton, Field.periods, index_years, index_years]
    simp only [extract]
    rw [some_ofInt_iff, number, number]
    show _ ↔ ((fields a).year - 1) / 100 = ((fields b).year - 1) / 100
    exact ⟨run_number_inj, fun same => by rw [same]⟩
  | millennium =>
    obtain rfl := Option.some.inj isTold
    have number (y : Int) := run_number y (show (1000 : Int) = 100 ∨ (1000 : Int) = 1000 by decide)
    simp only [show (1000 : Int) - 1 = 999 from rfl] at number
    rw [List.forall_mem_singleton, Field.periods, index_years, index_years]
    simp only [extract]
    rw [some_ofInt_iff, number, number]
    show _ ↔ ((fields a).year - 1) / 1000 = ((fields b).year - 1) / 1000
    exact ⟨run_number_inj, fun same => by rw [same]⟩
  | _ => cases isTold

def Roomy (wall : Int) : Prop := -9000000000000000000 ≤ wall ∧ wall < 2 ^ 63

theorem inI64_floor (field : Field) (roomy : Roomy wall) : InI64 (field.periods.floor wall) := by
  have lowest : -2 ^ 63 ≤ field.periods.floor (-9000000000000000000) := by
    cases field <;> decide +kernel
  have mono := field.periods.floor_mono roomy.1
  have le := field.periods.floor_le wall
  have high := roomy.2
  unfold InI64
  omega

theorem truncField_floor (field : Field) (roomy : Roomy wall) (straight : Straight field wall) :
    truncField field wall = field.periods.floor wall := by
  have fits : InI64 wall := by
    obtain ⟨low, high⟩ := roomy
    unfold InI64
    omega
  rw [truncField_eq field fits straight, asI64_eq (inI64_floor field roomy)]

theorem roomy_of_between (field : Field) {t : Int} (isLocal : IsLocal wall)
    (low : field.periods.floor wall ≤ t) (high : t ≤ wall) : Roomy t := by
  have lowest : -9000000000000000000 ≤ field.periods.floor (minTs - usecsPerDay) := by
    cases field <;> decide +kernel
  have mono := field.periods.floor_mono isLocal.1
  have highest := isLocal.2
  unfold maxTs usecsPerDay usecsPerSec at highest
  unfold Roomy
  omega

theorem roomy_of_isLocal (field : Field) (isLocal : IsLocal wall) : Roomy wall :=
  roomy_of_between field isLocal (field.periods.floor_le wall) (le_refl _)

theorem straight_of_between (field : Field) {t : Int} (straight : Straight field wall)
    (high : t ≤ wall) (same : field.periods.index t = field.periods.index wall) :
    Straight field t := by
  have le : (fields t).year ≤ (fields wall).year := by
    rw [← index_year, ← index_year]
    exact yearTimes.index_mono high
  cases field with
  | century =>
    rw [Field.periods, index_years, index_years] at same
    have run : ((fields t).year - 1) / 100 = ((fields wall).year - 1) / 100 := same
    unfold Straight at straight ⊢
    simp only at straight ⊢
    omega
  | millennium =>
    rw [Field.periods, index_years, index_years] at same
    have run : ((fields t).year - 1) / 1000 = ((fields wall).year - 1) / 1000 := same
    unfold Straight at straight ⊢
    simp only at straight ⊢
    omega
  | _ => trivial

theorem truncLocal_floor {name : String} {field : Field} (named : Field.ofName name = some field)
    (roomy : Roomy wall) (straight : Straight field wall) :
    truncLocal name wall = some (field.periods.floor wall) := by
  unfold truncLocal
  rw [named, Option.map_some, truncField_floor field roomy straight]

/-- The truncation is the greatest boundary that is not after the timestamp, and EXTRACT tells
timestamps apart exactly when their truncations differ. -/
theorem truncLocal_exact (name : String) (field : Field) (named : Field.ofName name = some field) :
    (∀ wall, IsLocal wall → Straight field wall →
      ∃ r, truncLocal name wall = some r ∧ r ≤ wall ∧ truncLocal name r = some r ∧
        ∀ t, r ≤ t → t ≤ wall → truncLocal name t = some r) ∧
    (∀ a b ra rb, IsLocal a → IsLocal b → Straight field a → Straight field b →
      truncLocal name a = some ra → truncLocal name b = some rb → a ≤ b → ra ≤ rb) ∧
    (∀ told, toldBy field = some told →
      ∀ a b, IsLocal a → IsLocal b → Straight field a → Straight field b →
        ∀ utcA tzA dateA utcB tzB dateB,
          (∀ other ∈ told, extract other a utcA tzA dateA = extract other b utcB tzB dateB) ↔
            truncLocal name a = truncLocal name b) := by
  have isFloor : ∀ wall, IsLocal wall → Straight field wall →
      truncLocal name wall = some (field.periods.floor wall) :=
    fun wall isLocal straight => truncLocal_floor named (roomy_of_isLocal field isLocal) straight
  refine ⟨?_, ?_, ?_⟩
  · intro wall isLocal straight
    have between : ∀ t, field.periods.floor wall ≤ t → t ≤ wall →
        truncLocal name t = some (field.periods.floor wall) := by
      intro t low high
      have same := field.periods.index_between low high
      rw [truncLocal_floor named (roomy_of_between field isLocal low high)
        (straight_of_between field straight high same), field.periods.floor_eq_iff.mpr same]
    have le := field.periods.floor_le wall
    exact ⟨field.periods.floor wall, isFloor wall isLocal straight, le,
      between _ (le_refl _) le, between⟩
  · intro a b ra rb localA localB straightA straightB isRa isRb le
    rw [isFloor a localA straightA] at isRa
    rw [isFloor b localB straightB] at isRb
    rw [← Option.some.inj isRa, ← Option.some.inj isRb]
    exact field.periods.floor_mono le
  · intro told isTold a b localA localB straightA straightB utcA tzA dateA utcB tzB dateB
    rw [told_iff isTold, isFloor a localA straightA, isFloor b localB straightB, Option.some_inj,
      field.periods.floor_eq_iff]

theorem truncLocal_exact_ides :
    ∃ r, truncLocal "century" (-64463212800000000) = some r ∧ r ≤ -64463212800000000 ∧
      truncLocal "century" r = some r ∧
      ∀ t, r ≤ t → t ≤ -64463212800000000 → truncLocal "century" t = some r := by
  obtain ⟨greatest, _⟩ := truncLocal_exact "century" .century rfl
  have isLocal : IsLocal (-64463212800000000) := ⟨by decide, by decide⟩
  have straight : Straight .century (-64463212800000000) := Or.inr (by decide +kernel)
  exact greatest (-64463212800000000) isLocal straight

theorem quarter_of_two_years :
    ¬∀ a b, IsLocal a → IsLocal b →
      (extract "quarter" a none none false = extract "quarter" b none none false ↔
        truncLocal "quarter" a = truncLocal "quarter" b) := by
  intro told
  have same : extract "quarter" 0 none none false =
      extract "quarter" (366 * usecsPerDay) none none false := by
    show some (ofInt _) = some (ofInt _)
    rw [some_ofInt_iff]
    decide +kernel
  have isLocal : IsLocal 0 := ⟨by decide, by decide⟩
  have isLocal' : IsLocal (366 * usecsPerDay) := ⟨by decide, by decide⟩
  have equal := (told 0 (366 * usecsPerDay) isLocal isLocal').mp same
  revert equal
  decide +kernel

end NoidaDb.Sql.Truncation
