/-
Time zones: the transitions of a zone file with a rule for what comes after them, and the
resolution of local times.

Around a local time at most one change of the offset matters.
-/

import NoidaDb.Lib.BinarySearch
import NoidaDb.Lib.StepFunctions
import NoidaDb.Sql.DatetimeText

namespace NoidaDb.Sql.TimeZones

open Lib DatetimeText Calendar

inductive Rule where
  /-- Month, week (1-5), weekday (0 = Sunday). -/
  | m (month week weekday : Nat)
  /-- Julian day 1..365, ignoring Feb 29. -/
  | j (n : Nat)
  /-- Zero-based day of year. -/
  | d (n : Nat)
deriving Repr, DecidableEq

/-- A POSIX TZ rule such as `EST5EDT,M3.2.0,M11.1.0`. -/
structure PosixTz where
  stdName : String
  stdOff : Int
  /-- Name and offset, then the days and times of day when it starts and ends. -/
  dst : Option (String × Int × Rule × Int × Rule × Int)

def lastWeek : Nat → Int → Int → Int
  | 0, d, _ => d
  | turns + 1, d, nextMonth => if nextMonth ≤ d then lastWeek turns (d - 7) nextMonth else d

/-- Unix day of a rule's date in `year`. -/
def ruleDay (r : Rule) (year : Int) : Int :=
  match r with
  | .j n => daysFromCivil (year, 1, 1) + (n - 1 + if isLeap year ∧ 60 ≤ n then 1 else 0)
  | .d n => daysFromCivil (year, 1, 1) + n
  | .m month week weekday =>
    let first := daysFromCivil (year, month, 1)
    -- 1970-01-01 was a Thursday (4).
    let firstWd := (first + 4) % 7
    let d := first + (weekday - firstWd) % 7 + (week - 1) * 7
    let nextMonth := if month = 12 then daysFromCivil (year + 1, 1, 1)
      else daysFromCivil (year, month + 1, 1)
    lastWeek (d - nextMonth + 7).toNat d nextMonth

abbrev ZoneType := Int × Bool × String

def PosixTz.atUtc (p : PosixTz) (t : Int) : ZoneType :=
  match p.dst with
  | none => (p.stdOff, false, p.stdName)
  | some (dstName, dstOff, r1, t1, r2, t2) =>
    let year := (civilFromDays ((t + p.stdOff) / 86400)).1
    -- It starts at local standard time t1 and ends at local daylight saving time t2.
    let start := ruleDay r1 year * 86400 + t1 - p.stdOff
    let stop := ruleDay r2 year * 86400 + t2 - dstOff
    let inDst := if start < stop then start ≤ t ∧ t < stop else start ≤ t ∨ t < stop
    if inDst then (dstOff, true, dstName) else (p.stdOff, false, p.stdName)

structure TzInfo where
  /-- Transition instants (unix seconds), each with the type in force after it. -/
  transitions : List (Int × Nat)
  types : List ZoneType
  /-- POSIX rule for instants after the last transition. -/
  footer : Option PosixTz

/-- `partition_point`, which is a binary search. -/
def partitionPoint {α : Type} (p : α → Bool) (xs : List α) : Nat :=
  match binarySearchBy (fun x => if p x then .lt else .gt) xs with
  | .ok i => i
  | .error i => i

namespace TzInfo

def atUtc (info : TzInfo) (t : Int) : ZoneType :=
  let idx := partitionPoint (fun transition => transition.1 ≤ t) info.transitions
  let ofType :=
    let ty :=
      -- Before the first transition: the first type that is not a daylight saving one.
      if idx = 0 then (info.types.findIdx? (fun type => !type.2.1)).getD 0
      else ((info.transitions[idx - 1]?).map Prod.snd).getD 0
    (info.types[ty]?).getD (0, false, "UTC")
  match info.footer with
  | some f => if idx = info.transitions.length then f.atUtc t else ofType
  | none => ofType

def offsetAt (info : TzInfo) (t : Int) : Int := (info.atUtc t).1

def zone (info : TzInfo) : Zone := .tzif info.offsetAt

end TzInfo

structure Steady (offset : Int → Int) : Prop where
  within : ∀ t, -86400 < offset t ∧ offset t < 86400
  apart : Apart 172800 offset

/-- A local time that no instant has: the clocks are put forward over it at `c`. -/
structure Skipped (offset : Int → Int) (wall c : Int) : Prop where
  changes : Changes offset c
  late : c + offset (c - 1) ≤ wall
  early : wall < c + offset c

variable {offset : Int → Int}

theorem offsetForLocal_spec (steady : Steady offset) (wall : Int) :
    let o := (Zone.tzif offset).offsetForLocal wall
    (offset (wall - o) = o ∧ ∀ other, offset (wall - other) = other → other ≤ o) ∨
      ((∀ other, offset (wall - other) ≠ other) ∧ ∃ c, Skipped offset wall c ∧ o = offset (c - 1)) := by
  intro o
  have inWindow : ∀ other, offset (wall - other) = other →
      wall - 86400 < wall - other ∧ wall - other < wall + 86400 := by
    intro other isOffset
    have bounds := steady.within (wall - other)
    rw [isOffset] at bounds
    omega
  have first := steady.within (wall - 86400)
  have isO : o = (if offset (wall - offset (wall - 86400)) =
        offset (wall - offset (wall - offset (wall - 86400))) then
      offset (wall - offset (wall - 86400))
    else if offset (wall - offset (wall - 86400)) = offset (wall - 86400) then
      offset (wall - 86400)
    else offset (wall - offset (wall - offset (wall - 86400)))) := rfl
  generalize isA : offset (wall - 86400) = a at isO first
  rcases @Apart.window _ offset _ steady.apart (wall - 86400) (wall + 86399) (by omega) with
    constant | ⟨c, after, upTo, changes, before, since⟩
  · have isFirst : ∀ other, wall - 86400 < wall - other → wall - other < wall + 86400 →
        offset (wall - other) = a := by
      intro other later earlier
      rw [constant _ (by omega) (by omega), isA]
    have probe := isFirst a (by omega) (by omega)
    rw [probe, probe, if_pos rfl] at isO
    left
    rw [isO]
    refine ⟨probe, ?_⟩
    intro other isOther
    obtain ⟨later, earlier⟩ := inWindow other isOther
    rw [isFirst other later earlier] at isOther
    exact Int.le_of_eq isOther.symm
  · generalize isB : offset c = b at *
    have second := steady.within c
    rw [isB] at second
    have atA : ∀ other, wall - 86400 < wall - other → wall - other < c → offset (wall - other) = a := by
      intro other later earlier
      rw [before _ (by omega) earlier, isA]
    have atB : ∀ other, c ≤ wall - other → wall - other < wall + 86400 →
        offset (wall - other) = b := by
      intro other later earlier
      exact since _ later (by omega)
    have different : a ≠ b := by
      intro same
      apply changes
      rw [before (c - 1) (by omega) (by omega), isA, isB, same]
    have isOneOf : ∀ other, offset (wall - other) = other →
        (other = a ∧ wall - a < c) ∨ (other = b ∧ c ≤ wall - b) := by
      intro other isOther
      obtain ⟨later, earlier⟩ := inWindow other isOther
      by_cases early : wall - other < c
      · rw [atA other later early] at isOther
        exact Or.inl ⟨isOther.symm, isOther ▸ early⟩
      · rw [atB other (by omega) earlier] at isOther
        exact Or.inr ⟨isOther.symm, by omega⟩
    by_cases early : wall - a < c
    · -- The offset before the change is valid, and the one after it if that is smaller.
      have probe := atA a (by omega) early
      rw [probe, probe, if_pos rfl] at isO
      left
      rw [isO]
      refine ⟨probe, ?_⟩
      intro other isOther
      rcases isOneOf other isOther with ⟨same, _⟩ | ⟨same, late⟩
      · omega
      · omega
    · have probe := atB a (by omega) (by omega)
      rw [probe] at isO
      by_cases late : c ≤ wall - b
      · have again := atB b late (by omega)
        rw [again, if_pos rfl] at isO
        left
        rw [isO]
        refine ⟨again, ?_⟩
        intro other isOther
        rcases isOneOf other isOther with ⟨same, isEarly⟩ | ⟨same, _⟩
        · omega
        · omega
      · have again := atA b (by omega) (by omega)
        rw [again, if_neg (Ne.symm different), if_neg (Ne.symm different)] at isO
        right
        refine ⟨?_, c, ⟨changes, ?_, ?_⟩, ?_⟩
        · intro other isOther
          rcases isOneOf other isOther with ⟨_, isEarly⟩ | ⟨_, isLate⟩
          · exact early isEarly
          · exact late isLate
        · rw [before (c - 1) (by omega) (by omega), isA]
          omega
        · rw [isB]
          omega
        · rw [before (c - 1) (by omega) (by omega), isA, isO]

def IsLocal (wall : Int) : Prop := minTs - usecsPerDay ≤ wall ∧ wall < maxTs + usecsPerDay

def HasLocal (zone : Zone) (wall t : Int) : Prop := InI64 t ∧ utcToLocal t zone = wall

theorem utcSeconds_sub (wall o : Int) :
    utcSeconds (wall - o * usecsPerSec) = utcSeconds wall - o := by
  unfold utcSeconds usecsPerSec
  omega

variable {wall : Int}

theorem hasLocal_iff (steady : Steady offset) (isLocal : IsLocal wall) (t : Int) :
    HasLocal (.tzif offset) wall t ↔
      ∃ o, t = wall - o * usecsPerSec ∧ offset (utcSeconds wall - o) = o := by
  unfold IsLocal minTs maxTs usecsPerDay usecsPerSec at isLocal
  constructor
  · intro ⟨fits, local'⟩
    unfold utcToLocal at local'
    have finite : ¬ (t = tsInf ∨ t = tsNegInf) := by
      intro infinite
      rw [if_pos infinite] at local'
      unfold tsInf tsNegInf at infinite
      omega
    rw [if_neg finite] at local'
    have bounds := steady.within (utcSeconds t)
    have shown : (Zone.tzif offset).offsetAtUtc (utcSeconds t) = offset (utcSeconds t) := rfl
    rw [shown] at local'
    have isT : t = wall - offset (utcSeconds t) * usecsPerSec := by
      unfold asI64 usecsPerSec at local'
      unfold usecsPerSec
      unfold InI64 at fits
      rw [Int.bmod_def] at local'
      split at local' <;> omega
    refine ⟨offset (utcSeconds t), isT, ?_⟩
    rw [← utcSeconds_sub, ← isT]
  · rintro ⟨o, rfl, isOffset⟩
    have bounds := steady.within (utcSeconds wall - o)
    rw [isOffset] at bounds
    refine ⟨?_, ?_⟩
    · unfold InI64 usecsPerSec
      omega
    · unfold utcToLocal
      rw [if_neg (by unfold tsInf tsNegInf usecsPerSec; omega), utcSeconds_sub]
      have shown : (Zone.tzif offset).offsetAtUtc (utcSeconds wall - o) = o := isOffset
      rw [shown, Int.sub_add_cancel]
      apply asI64_eq
      unfold InI64
      omega

theorem localToUtc_eq (isLocal : IsLocal wall) {o : Int}
    (isOffset : o = (Zone.tzif offset).offsetForLocal (utcSeconds wall))
    (bounds : -86400 < o ∧ o < 86400) :
    localToUtc wall (.tzif offset) = wall - o * usecsPerSec := by
  unfold IsLocal minTs maxTs usecsPerDay usecsPerSec at isLocal
  unfold localToUtc
  rw [if_neg (by unfold tsInf tsNegInf; omega), ← isOffset]
  apply asI64_eq
  unfold InI64 usecsPerSec
  omega

theorem localToUtc_spec (steady : Steady offset) (isLocal : IsLocal wall) :
    (HasLocal (.tzif offset) wall (localToUtc wall (.tzif offset)) ∧
        ∀ t, HasLocal (.tzif offset) wall t → localToUtc wall (.tzif offset) ≤ t) ∨
      ((∀ t, ¬ HasLocal (.tzif offset) wall t) ∧ ∃ c, Skipped offset (utcSeconds wall) c ∧
        localToUtc wall (.tzif offset) = wall - offset (c - 1) * usecsPerSec) := by
  rcases offsetForLocal_spec steady (utcSeconds wall) with ⟨valid, greatest⟩ | ⟨none, c, gap, isBefore⟩
  · have bounds := steady.within (utcSeconds wall - (Zone.tzif offset).offsetForLocal (utcSeconds wall))
    rw [valid] at bounds
    rw [localToUtc_eq isLocal rfl bounds]
    left
    refine ⟨(hasLocal_iff steady isLocal _).mpr ⟨_, rfl, valid⟩, ?_⟩
    intro t has
    obtain ⟨o, rfl, isOffset⟩ := (hasLocal_iff steady isLocal t).mp has
    have smaller := greatest o isOffset
    unfold usecsPerSec
    omega
  · right
    refine ⟨?_, c, gap, ?_⟩
    · intro t has
      obtain ⟨o, _, isOffset⟩ := (hasLocal_iff steady isLocal t).mp has
      exact none o isOffset
    · rw [localToUtc_eq isLocal isBefore.symm (steady.within (c - 1))]

theorem isLocal_utcToLocal (steady : Steady offset) {t : Int} (low : minTs ≤ t) (high : t < maxTs) :
    IsLocal (utcToLocal t (.tzif offset)) := by
  have bounds := steady.within (utcSeconds t)
  have shown : (Zone.tzif offset).offsetAtUtc (utcSeconds t) = offset (utcSeconds t) := rfl
  unfold minTs at low
  unfold maxTs at high
  unfold utcToLocal
  rw [if_neg (by unfold tsInf tsNegInf; omega), shown,
    asI64_eq (by unfold InI64 usecsPerSec; omega)]
  unfold IsLocal minTs maxTs usecsPerDay usecsPerSec
  omega

/-- A local time of one instant is resolved to that, one of two to the earlier, and one that is
skipped with the offset before the gap. -/
theorem wallClock_exact (info : TzInfo) (steady : Steady info.offsetAt) :
    (∀ wall, IsLocal wall →
      (∀ t, (∀ s, HasLocal info.zone wall s ↔ s = t) → localToUtc wall info.zone = t) ∧
      (∀ t u, t < u → (∀ s, HasLocal info.zone wall s ↔ s = t ∨ s = u) →
        localToUtc wall info.zone = t) ∧
      ((∀ s, ¬ HasLocal info.zone wall s) → ∃ c, Skipped info.offsetAt (utcSeconds wall) c ∧
        localToUtc wall info.zone = wall - info.offsetAt (c - 1) * usecsPerSec)) ∧
    ∀ t, minTs ≤ t → t < maxTs →
      (∀ s, HasLocal info.zone (utcToLocal t info.zone) s → s = t) →
        localToUtc (utcToLocal t info.zone) info.zone = t := by
  refine ⟨?_, ?_⟩
  · intro wall isLocal
    refine ⟨?_, ?_, ?_⟩
    · intro t one
      rcases localToUtc_spec steady isLocal with ⟨has, _⟩ | ⟨none, _⟩
      · exact (one _).mp has
      · exact (none t ((one t).mpr rfl)).elim
    · intro t u earlier two
      rcases localToUtc_spec steady isLocal with ⟨has, least⟩ | ⟨none, _⟩
      · have notLater := least t ((two t).mpr (Or.inl rfl))
        rcases (two _).mp has with isT | isU
        · exact isT
        · exact absurd (isU ▸ notLater) (Int.not_le.mpr earlier)
      · exact (none t ((two t).mpr (Or.inl rfl))).elim
    · intro nobody
      rcases localToUtc_spec steady isLocal with ⟨has, _⟩ | ⟨_, gap⟩
      · exact (nobody _ has).elim
      · exact gap
  · intro t low high once
    have isLocal := isLocal_utcToLocal steady low high
    have fits : InI64 t := by
      unfold minTs at low
      unfold maxTs at high
      unfold InI64
      omega
    rcases localToUtc_spec steady isLocal with ⟨has, _⟩ | ⟨none, _⟩
    · exact once _ has
    · exact (none t ⟨fits, rfl⟩).elim

def forward : TzInfo where
  transitions := [(0, 1)]
  types := [(3600, false, "A"), (7200, false, "B")]
  footer := none

theorem forward_offset (t : Int) : forward.offsetAt t = if 0 ≤ t then 7200 else 3600 := by
  unfold TzInfo.offsetAt TzInfo.atUtc partitionPoint binarySearchBy
  by_cases later : 0 ≤ t
  · simp [forward, BinarySearch.narrow, BinarySearch.compareAt, later]
  · simp [forward, BinarySearch.narrow, BinarySearch.compareAt, later]
    rfl

theorem forward_steady : Steady forward.offsetAt where
  within := by
    intro t
    rw [forward_offset]
    split <;> omega
  apart := by
    intro s t changesS changesT earlier
    unfold Changes at changesS changesT
    rw [forward_offset, forward_offset] at changesS changesT
    split at changesS <;> split at changesS <;> split at changesT <;> split at changesT <;> omega

theorem wallClock_exact_forward :
    (∀ wall, IsLocal wall →
      (∀ t, (∀ s, HasLocal forward.zone wall s ↔ s = t) → localToUtc wall forward.zone = t) ∧
      (∀ t u, t < u → (∀ s, HasLocal forward.zone wall s ↔ s = t ∨ s = u) →
        localToUtc wall forward.zone = t) ∧
      ((∀ s, ¬ HasLocal forward.zone wall s) → ∃ c, Skipped forward.offsetAt (utcSeconds wall) c ∧
        localToUtc wall forward.zone = wall - forward.offsetAt (c - 1) * usecsPerSec)) ∧
    ∀ t, minTs ≤ t → t < maxTs →
      (∀ s, HasLocal forward.zone (utcToLocal t forward.zone) s → s = t) →
        localToUtc (utcToLocal t forward.zone) forward.zone = t :=
  wallClock_exact forward forward_steady

end NoidaDb.Sql.TimeZones
