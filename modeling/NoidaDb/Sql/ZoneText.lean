/-
Texts that reach the reader's slices and its narrow integers.

An offset without colons is sliced by its length, and a name that no other table knows is read as
a rule whose numbers are not tested.  Nothing else can go wrong.
-/

import NoidaDb.Sql.CheckedText
import NoidaDb.Sql.PosixRules

namespace NoidaDb.Sql.ZoneText

open Lib DatetimeText TimeZones
open CheckedText
open CheckedText.Behaves (ok)

/-- What a lookup knows besides the text: the answers it has kept, by the name in lower case, and
the files of the system. -/
structure ZoneTable where
  cached : List Char → Option (Option Zone)
  loadTzif : List Char → Option TzInfo

def utcNames : List String :=
  ["utc", "gmt", "z", "zulu", "etc/utc", "etc/gmt", "universal", "uct"]

def abbreviations : List (String × Int) :=
  [("utc", 0), ("gmt", 0), ("z", 0), ("ut", 0), ("est", -5 * 3600), ("edt", -4 * 3600),
    ("cst", -6 * 3600), ("cdt", -5 * 3600), ("mst", -7 * 3600), ("mdt", -6 * 3600),
    ("pst", -8 * 3600), ("pdt", -7 * 3600), ("cet", 3600), ("cest", 7200), ("eet", 7200),
    ("eest", 3 * 3600), ("bst", 3600), ("ist", 7200), ("jst", 9 * 3600), ("msk", 3 * 3600)]

def abbrevOffset (a : List Char) : Option Int := abbreviations.lookup (String.ofList a)

def zoneOfRule (p : PosixTz) : Zone :=
  match p.dst with
  | none => .fixed p.stdOff
  | some _ => TzInfo.zone { transitions := [], types := [], footer := some p }

def posixZone (s : List Char) : Checked (Option Zone) :=
  match PosixRules.parse s with
  | .ok p => .ok (some (zoneOfRule p))
  | .error .nothing => .ok none
  | .error .leavesType => .error .aborts

section Names

variable (table : ZoneTable)

def loadZone (trimmed : List Char) : Checked (Option Zone) :=
  match table.loadTzif trimmed with
  | some info => .ok (some info.zone)
  | none =>
    match abbrevOffset (lowercase trimmed) with
    | some o => .ok (some (.fixed o))
    | none => posixZone trimmed

/-- Resolves a zone name the way `SET TIME ZONE` accepts it. -/
def lookup (zoneName : List Char) : Checked (Option Zone) :=
  let trimmed := trim zoneName
  let lower := lowercase trimmed
  if String.ofList lower ∈ utcNames then .ok (some (.fixed 0))
  else do
    let iso ← CheckedText.parseIsoOffset trimmed
    match iso with
    | some o => return some (.fixed o)
    | none =>
      match table.cached lower with
      | some z => return z
      | none => loadZone table trimmed

/-- `lookup` for `AT TIME ZONE`, where a bare offset counts west of Greenwich. -/
def lookupPosix (zoneName : List Char) : Checked (Option Zone) := do
  let iso ← CheckedText.parseIsoOffset (trim zoneName)
  match iso with
  | some o => do
      let west ← fit i32 (-o)
      return some (.fixed west)
  | none => lookup table zoneName

def Known (trimmed : List Char) : Prop :=
  String.ofList (lowercase trimmed) ∈ utcNames ∨ (table.cached (lowercase trimmed)).isSome = true ∨
    (table.loadTzif trimmed).isSome = true ∨ (abbrevOffset (lowercase trimmed)).isSome = true

/-- A name that is no offset with a character across a cut, and no rule with too large a number. -/
def NameFits (trimmed : List Char) : Prop :=
  ¬ SplitsCharacter trimmed ∧ (Known table trimmed ∨ PosixRules.Fits trimmed)

end Names

variable {s : List Char}

theorem parseIsoOffset_unsigned (noSign : ¬ s.head?.any isSign = true) :
    CheckedText.parseIsoOffset s = .ok none := by
  cases s with
  | nil => rfl
  | cons c rest =>
    rw [CheckedText.parseIsoOffset, if_pos]
    right
    simpa [isSign] using noSign

theorem fits_of_sign (sign : s.head?.any isSign = true) : PosixRules.Fits s := by
  cases s with
  | nil => cases sign
  | cons c rest =>
    have isSign : c = '+' ∨ c = '-' := by simpa [isSign] using sign
    intro std named
    rcases isSign with rfl | rfl
    · cases named
    · cases named

theorem sign_of_splits (splits : SplitsCharacter s) : s.head?.any isSign = true := by
  obtain ⟨c, rest, rfl, rfl | rfl, _⟩ := splits
  · rfl
  · rfl

theorem not_utc_of_sign (sign : s.head?.any isSign = true) :
    String.ofList (lowercase s) ∉ utcNames := by
  have noSign : ∀ w ∈ utcNames, w.toList.head?.any isSign = false := by decide
  intro isUtc
  have name := noSign _ isUtc
  rw [String.toList_ofList] at name
  cases s with
  | nil => cases sign
  | cons c rest =>
    have isSign : c = '+' ∨ c = '-' := by simpa [isSign] using sign
    rcases isSign with rfl | rfl
    · cases name
    · cases name

section Names

variable (table : ZoneTable)

theorem posixZone_behaves (s : List Char) :
    Behaves (posixZone s) (posixZone s) (PosixRules.Fits s) (fun _ => True) := by
  have safe : PosixRules.parse s ≠ .error .leavesType ↔ PosixRules.Fits s := PosixRules.parse_safe s
  unfold posixZone
  cases parsed : PosixRules.parse s with
  | ok p => exact (ok trivial).congr (iff_true_intro (safe.mp (by rw [parsed]; nofun)))
  | error stop =>
    cases stop with
    | nothing => exact (ok trivial).congr (iff_true_intro (safe.mp (by rw [parsed]; nofun)))
    | leavesType =>
      exact ⟨rfl, ⟨fun _ fits => safe.mpr fits parsed, fun _ => rfl⟩, fun _ _ => trivial⟩

theorem loadZone_behaves (trimmed : List Char) :
    Behaves (loadZone table trimmed) (loadZone table trimmed)
      ((table.loadTzif trimmed).isSome = true ∨ (abbrevOffset (lowercase trimmed)).isSome = true ∨
        PosixRules.Fits trimmed) (fun _ => True) := by
  unfold loadZone
  cases table.loadTzif trimmed with
  | some info => exact (ok trivial).congr (iff_true_intro (Or.inl rfl))
  | none =>
    cases abbrevOffset (lowercase trimmed) with
    | some o => exact (ok trivial).congr (iff_true_intro (Or.inr (Or.inl rfl)))
    | none => exact (posixZone_behaves trimmed).congr (by simp)

theorem lookup_behaves (zoneName : List Char) :
    Behaves (lookup table zoneName) (lookup table zoneName) (NameFits table (trim zoneName))
      (fun _ => True) := by
  unfold lookup NameFits Known
  generalize trim zoneName = trimmed
  dsimp only
  suffices inTurn : Behaves _ _ ((String.ofList (lowercase trimmed) ∈ utcNames → True) ∧
      (String.ofList (lowercase trimmed) ∉ utcNames → ¬ SplitsCharacter trimmed ∧
        ∀ iso, CheckedText.parseIsoOffset trimmed = .ok iso → iso = none →
          (table.cached (lowercase trimmed)).isSome = true ∨
            (table.loadTzif trimmed).isSome = true ∨
              (abbrevOffset (lowercase trimmed)).isSome = true ∨ PosixRules.Fits trimmed)) _ by
    refine inTurn.congr ⟨fun both => ⟨fun _ => trivial, fun notUtc => ⟨both.1, ?_⟩⟩, ?_⟩
    · rintro iso _ rfl
      rcases both.2 with (isUtc | rest) | fits
      · exact absurd isUtc notUtc
      · tauto
      · exact Or.inr (Or.inr (Or.inr fits))
    · rintro ⟨_, notUtc⟩
      by_cases utc : String.ofList (lowercase trimmed) ∈ utcNames
      · exact ⟨fun splits => not_utc_of_sign (sign_of_splits splits) utc, Or.inl (Or.inl utc)⟩
      refine ⟨(notUtc utc).1, ?_⟩
      by_cases sign : trimmed.head?.any isSign = true
      · exact Or.inr (fits_of_sign sign)
      · have := (notUtc utc).2 none (parseIsoOffset_unsigned sign) rfl
        tauto
  refine Behaves.ite (fun _ => ok trivial) (fun _ => (parseIsoOffset_behaves trimmed).self.bind
    (fun iso _ _ => ?_))
  cases iso with
  | some o => exact (ok trivial).congr ⟨fun _ => trivial, fun _ => nofun⟩
  | none =>
    cases table.cached (lowercase trimmed) with
    | some z => exact (ok trivial).congr ⟨fun _ => trivial, fun _ _ => Or.inl rfl⟩
    | none => exact (loadZone_behaves table trimmed).congr (by simp)

theorem lookupPosix_behaves (zoneName : List Char) :
    Behaves (lookupPosix table zoneName) (lookupPosix table zoneName)
      (NameFits table (trim zoneName)) (fun _ => True) := by
  unfold lookupPosix
  suffices inTurn : Behaves _ _ (¬ SplitsCharacter (trim zoneName) ∧
      ∀ iso, CheckedText.parseIsoOffset (trim zoneName) = .ok iso →
        iso = none → NameFits table (trim zoneName)) _ by
    refine inTurn.congr ⟨fun fits => ⟨fits.1, fun _ _ _ => fits⟩, fun both => ?_⟩
    by_cases sign : (trim zoneName).head?.any isSign = true
    · exact ⟨both.1, Or.inr (fits_of_sign sign)⟩
    · exact both.2 none (parseIsoOffset_unsigned sign) rfl
  refine (parseIsoOffset_behaves (trim zoneName)).self.bind (fun iso _ bounds => ?_)
  cases iso with
  | none => exact (lookup_behaves table zoneName).congr ⟨fun all => all rfl, fun fits _ => fits⟩
  | some o =>
    have small := bounds o rfl
    have holds : i32.Holds (-o) := i32_holds.mpr (by omega)
    dsimp only
    rw [fit, IntType.check_ok holds]
    exact (ok trivial).congr ⟨fun _ => trivial, fun _ same => absurd same (Option.some_ne_none _)⟩

end Names

theorem not_aborts {α : Type} {checked plain : Checked α} {fits : Prop} {post : α → Prop}
    (behaves : Behaves checked plain fits post) : checked ≠ .error .aborts ↔ fits := by
  rw [behaves.same]
  exact (not_congr behaves.aborts).trans not_not

/-- The readers of dates, times and zones stay within the text and within their integer types
just where no offset has a character across a cut and no rule has too large a number. -/
theorem zoneText_exact (table : ZoneTable) (s : List Char) :
    (CheckedText.parseIsoOffset s ≠ .error .aborts ↔ ¬ SplitsCharacter s) ∧
      (PosixRules.parse s ≠ .error .leavesType ↔ PosixRules.Fits s) ∧
      (lookupPosix table s ≠ .error .aborts ↔ NameFits table (trim s)) ∧
      (CheckedText.parseDatetime (lookup table) s ≠ .error .aborts ↔
        TextFits (lookup table) (fun t => NameFits table (trim t)) s) :=
  ⟨not_aborts (parseIsoOffset_behaves s), PosixRules.parse_safe s,
    not_aborts (lookupPosix_behaves table s),
    not_aborts (parseDatetime_behaves _ _ (lookup_behaves table) s)⟩

/-- A letter of two bytes across the cut of an offset, and hours that are more than an `i64`. -/
theorem zoneText_aborts :
    CheckedText.parseIsoOffset "+1é1".toList = .error .aborts ∧
      PosixRules.parse "A9999999999999999".toList = .error .leavesType ∧
      (∀ table, lookupPosix table " +1é1".toList = .error .aborts) ∧
      ∀ table, CheckedText.parseDatetime (lookup table) "10:00 +1é1".toList = .error .aborts :=
  ⟨rfl, rfl, fun _ => rfl, fun _ => rfl⟩

end NoidaDb.Sql.ZoneText
