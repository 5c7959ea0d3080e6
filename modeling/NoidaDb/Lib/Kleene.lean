/-
Three truth values: true, false and unknown.
-/

import Mathlib.Data.List.Basic

namespace NoidaDb.Lib.Kleene

/-- `none` is unknown. -/
abbrev Truth := Option Bool

def negation : Truth → Truth := Option.map not

def both : Truth → Truth → Truth
  | some false, _ => some false
  | _, some false => some false
  | some true, some true => some true
  | _, _ => none

def either (a b : Truth) : Truth := negation (both (negation a) (negation b))

def all (ts : List Truth) : Truth := ts.foldr both (some true)

def any (ts : List Truth) : Truth := ts.foldr either (some false)

theorem all_eq (ts : List Truth) :
    all ts = if some false ∈ ts then some false else if none ∈ ts then none else some true := by
  induction ts with
  | nil => rfl
  | cons t ts ih =>
    have unfolded : all (t :: ts) = both t (all ts) := rfl
    rw [unfolded, ih]
    by_cases isFalse : some false ∈ ts
    · rw [if_pos isFalse, if_pos (List.mem_cons_of_mem t isFalse)]
      cases t with
      | none => rfl
      | some b => cases b <;> rfl
    · rw [if_neg isFalse]
      cases t with
      | none => by_cases isUnknown : none ∈ ts <;> simp [isFalse, isUnknown, both]
      | some b =>
        cases b with
        | false => simp [both]
        | true => by_cases isUnknown : none ∈ ts <;> simp [isFalse, isUnknown, both]

theorem any_eq_negation (ts : List Truth) : any ts = negation (all (ts.map negation)) := by
  induction ts with
  | nil => rfl
  | cons t ts ih =>
    have unfolded : any (t :: ts) = negation (both (negation t) (negation (any ts))) := rfl
    have twice : ∀ u : Truth, negation (negation u) = u := by
      intro u
      cases u with
      | none => rfl
      | some b => exact congrArg some (Bool.not_not b)
    rw [unfolded, ih, twice]
    rfl

theorem any_eq (ts : List Truth) :
    any ts = if some true ∈ ts then some true else if none ∈ ts then none else some false := by
  have isTrue : some false ∈ ts.map negation ↔ some true ∈ ts := by
    rw [List.mem_map]
    constructor
    · rintro ⟨t, isIn, isFalse⟩
      cases t with
      | none => cases isFalse
      | some b =>
        cases b with
        | true => exact isIn
        | false => cases isFalse
    · intro isIn
      exact ⟨some true, isIn, rfl⟩
  have isUnknown : none ∈ ts.map negation ↔ none ∈ ts := by
    rw [List.mem_map]
    constructor
    · rintro ⟨t, isIn, isNone⟩
      cases t with
      | none => exact isIn
      | some b => cases isNone
    · intro isIn
      exact ⟨none, isIn, rfl⟩
  rw [any_eq_negation, all_eq]
  by_cases someTrue : some true ∈ ts
  · rw [if_pos (isTrue.mpr someTrue), if_pos someTrue]
    rfl
  · rw [if_neg (fun h => someTrue (isTrue.mp h)), if_neg someTrue]
    by_cases someUnknown : none ∈ ts
    · rw [if_pos (isUnknown.mpr someUnknown), if_pos someUnknown]
      rfl
    · rw [if_neg (fun h => someUnknown (isUnknown.mp h)), if_neg someUnknown]
      rfl

end NoidaDb.Lib.Kleene
