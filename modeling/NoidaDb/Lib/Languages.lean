/-
Languages of lists, and searches in them that tell when the ends of a list need not be tried.
-/

import Mathlib.Data.List.Infix

namespace NoidaDb.Lib

variable {α : Type} {L rest : List α → Prop} {s : List α} {a : α}

def Barren (L : List α → Prop) (s : List α) : Prop := ∀ t, t <:+ s → ¬L t

def AfterRun (L : List α → Prop) (s : List α) : Prop := ∃ t, t <:+ s ∧ L t

theorem not_afterRun_iff : ¬AfterRun L s ↔ Barren L s := by
  constructor
  · intro none t suffix inL
    exact none ⟨t, suffix, inL⟩
  · rintro barren ⟨t, suffix, inL⟩
    exact barren t suffix inL

theorem Barren.afterRun (barren : Barren L s) : Barren (AfterRun L) s := by
  rintro t suffix ⟨u, inner, inL⟩
  exact barren u (inner.trans suffix) inL

theorem barren_cons_iff : Barren L (a :: s) ↔ ¬L (a :: s) ∧ Barren L s := by
  constructor
  · intro barren
    exact ⟨barren _ List.suffix_rfl, fun t suffix => barren t (suffix.trans (List.suffix_cons a s))⟩
  · rintro ⟨notWhole, barren⟩ t suffix
    rcases List.suffix_cons_iff.mp suffix with rfl | suffix
    · exact notWhole
    · exact barren t suffix

theorem afterRun_cons_iff : AfterRun L (a :: s) ↔ L (a :: s) ∨ AfterRun L s := by
  rw [← not_iff_not, not_afterRun_iff, barren_cons_iff, not_or, not_afterRun_iff]

structure TakesOne (L : List α → Prop) (accepts : α → Prop) (rest : List α → Prop) : Prop where
  nil : ¬L []
  cons : ∀ a s, L (a :: s) ↔ accepts a ∧ rest s

theorem TakesOne.barren {accepts : α → Prop} (one : TakesOne L accepts rest)
    (barren : Barren rest s) : Barren L (a :: s) := by
  intro t suffix inL
  cases t with
  | nil => exact one.nil inL
  | cons b t =>
    have inner : t <:+ s := by
      rcases List.suffix_cons_iff.mp suffix with whole | inside
      · rw [(List.cons.inj whole).2]
      · exact (List.suffix_cons b t).trans inside
    exact barren t inner ((one.cons b t).mp inL).2

/-- What a search tells: whether the list is in the language, and where it is not, whether the
ends of the list need not be tried. -/
structure Tells (L : List α → Prop) (s : List α) (result : Bool × Bool) : Prop where
  answer : result.1 = true ↔ L s
  barren : result.1 = false → result.2 = true → Barren L s

theorem TakesOne.tells {accepts : α → Prop} (one : TakesOne L accepts rest)
    (accepted : accepts a) {result : Bool × Bool} (tells : Tells rest s result) :
    Tells L (a :: s) result where
  answer := by rw [tells.answer, one.cons, and_iff_right accepted]
  barren := fun notIn gaveUp => one.barren (tells.barren notIn gaveUp)

theorem TakesOne.refuses {accepts : α → Prop} (one : TakesOne L accepts rest)
    (refused : ¬accepts a) : Tells L (a :: s) (false, false) where
  answer := by simp [one.cons, refused]
  barren := by simp

end NoidaDb.Lib
