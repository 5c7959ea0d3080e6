/-
Patterns of literals, single wildcards and wildcards for any run.
-/

import Mathlib.Data.List.Infix

namespace NoidaDb.Lib

inductive Tok (α : Type) where
  | lit (a : α)
  | one
  | any
deriving Repr, DecidableEq

section Language

variable {α : Type}

def InLanguage : List (Tok α) → List α → Prop
  | [], s => s = []
  | .lit a :: rest, s => ∃ tail, s = a :: tail ∧ InLanguage rest tail
  | .one :: rest, s => ∃ a tail, s = a :: tail ∧ InLanguage rest tail
  | .any :: rest, s => ∃ run tail, s = run ++ tail ∧ InLanguage rest tail

variable {rest : List (Tok α)} {s : List α}

variable {c : α}

theorem inLanguage_lit_cons {a : α} :
    InLanguage (.lit a :: rest) (c :: s) ↔ a = c ∧ InLanguage rest s := by
  constructor
  · rintro ⟨tail, isCons, inRest⟩
    obtain ⟨rfl, rfl⟩ := List.cons.inj isCons
    exact ⟨rfl, inRest⟩
  · rintro ⟨rfl, inRest⟩
    exact ⟨s, rfl, inRest⟩

theorem inLanguage_one_cons : InLanguage (.one :: rest) (c :: s) ↔ InLanguage rest s := by
  constructor
  · rintro ⟨a, tail, isCons, inRest⟩
    obtain ⟨rfl, rfl⟩ := List.cons.inj isCons
    exact inRest
  · intro inRest
    exact ⟨c, s, rfl, inRest⟩

theorem inLanguage_any_of_suffix {t : List α} (inAny : InLanguage (.any :: rest) t)
    (suffix : t <:+ s) : InLanguage (.any :: rest) s := by
  obtain ⟨run, tail, rfl, inRest⟩ := inAny
  obtain ⟨before, rfl⟩ := suffix
  exact ⟨before ++ run, tail, (List.append_assoc _ _ _).symm, inRest⟩

theorem inLanguage_any_cons :
    InLanguage (.any :: rest) (c :: s) ↔ InLanguage rest (c :: s) ∨ InLanguage (.any :: rest) s := by
  constructor
  · rintro ⟨run, tail, isAppend, inRest⟩
    cases run with
    | nil =>
      left
      rw [isAppend]
      exact inRest
    | cons a run =>
      right
      obtain ⟨_, rfl⟩ := List.cons.inj isAppend
      exact ⟨run, tail, rfl, inRest⟩
  · rintro (inRest | inAny)
    · exact ⟨[], c :: s, rfl, inRest⟩
    · exact inLanguage_any_of_suffix inAny (List.suffix_cons c s)

theorem inLanguage_nil_iff (toks : List (Tok α)) : InLanguage toks [] ↔ ∀ tok ∈ toks, tok = .any := by
  induction toks with
  | nil => simp [InLanguage]
  | cons tok rest ih =>
    cases tok with
    | lit a =>
      constructor
      · rintro ⟨tail, isCons, _⟩
        cases isCons
      · intro allAny
        cases allAny _ List.mem_cons_self
    | one =>
      constructor
      · rintro ⟨a, tail, isCons, _⟩
        cases isCons
      · intro allAny
        cases allAny _ List.mem_cons_self
    | any =>
      rw [List.forall_mem_cons, ← ih]
      constructor
      · rintro ⟨run, tail, isAppend, inRest⟩
        obtain ⟨rfl, rfl⟩ := List.append_eq_nil_iff.mp isAppend.symm
        exact ⟨rfl, inRest⟩
      · rintro ⟨_, inRest⟩
        exact ⟨[], [], rfl, inRest⟩

theorem InLanguage.split {front : List (Tok α)} (noRun : .any ∉ front) {s : List α}
    (inLanguage : InLanguage (front ++ rest) s) :
    ∃ taken left, s = taken ++ left ∧ taken.length = front.length ∧ InLanguage rest left := by
  induction front generalizing s with
  | nil => exact ⟨[], s, rfl, rfl, inLanguage⟩
  | cons tok front ih =>
    have noneLeft : .any ∉ front := fun member => noRun (List.mem_cons_of_mem _ member)
    have one : ∀ c tail, s = c :: tail → InLanguage (front ++ rest) tail →
        ∃ taken left, s = taken ++ left ∧ taken.length = (tok :: front).length ∧
          InLanguage rest left := by
      rintro c tail rfl inTail
      obtain ⟨taken, left, rfl, length, inRest⟩ := ih noneLeft inTail
      exact ⟨c :: taken, left, rfl, congrArg (· + 1) length, inRest⟩
    cases tok with
    | lit a =>
      obtain ⟨tail, isCons, inTail⟩ := inLanguage
      exact one a tail isCons inTail
    | one =>
      obtain ⟨c, tail, isCons, inTail⟩ := inLanguage
      exact one c tail isCons inTail
    | any => exact (noRun List.mem_cons_self).elim

end Language

end NoidaDb.Lib
