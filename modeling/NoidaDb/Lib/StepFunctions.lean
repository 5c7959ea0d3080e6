/-
Functions of an integer time that change rarely.
-/

import Mathlib.Data.Int.Order.Basic

namespace NoidaDb.Lib

variable {α : Type}

/-- The value at `t` is not the value just before. -/
def Changes (f : Int → α) (t : Int) : Prop := f (t - 1) ≠ f t

def Apart (distance : Int) (f : Int → α) : Prop :=
  ∀ s t, Changes f s → Changes f t → s < t → s + distance ≤ t

theorem eq_of_unchanged {f : Int → α} {lo hi : Int}
    (unchanged : ∀ t, lo < t → t ≤ hi → ¬ Changes f t) {t : Int} (from' : lo ≤ t)
    (upTo : t ≤ hi) : f t = f lo := by
  obtain ⟨n, rfl⟩ := Int.le.dest from'
  induction n with
  | zero => simp
  | succ n ih =>
    have same : f (lo + (n + 1 : Nat) - 1) = f (lo + (n + 1 : Nat)) :=
      not_not.mp (unchanged _ (by omega) upTo)
    rw [← same, ← ih (by omega) (by omega)]
    congr 1
    omega

theorem Apart.window {f : Int → α} {distance : Int} (apart : Apart distance f) {lo hi : Int}
    (short : hi - lo ≤ distance) :
    (∀ t, lo ≤ t → t ≤ hi → f t = f lo) ∨
      ∃ c, lo < c ∧ c ≤ hi ∧ Changes f c ∧ (∀ t, lo ≤ t → t < c → f t = f lo) ∧
        ∀ t, c ≤ t → t ≤ hi → f t = f c := by
  by_cases changed : ∃ c, lo < c ∧ c ≤ hi ∧ Changes f c
  · obtain ⟨c, after, upTo, changes⟩ := changed
    refine Or.inr ⟨c, after, upTo, changes, ?_, ?_⟩
    · intro t isLater isEarlier
      apply @eq_of_unchanged _ f lo (c - 1) _ _ isLater (by omega)
      intro s isLater isEarlier other
      have distant := apart s c other changes (by omega)
      omega
    · intro t isLater upTo'
      apply @eq_of_unchanged _ f c hi _ _ isLater upTo'
      intro s isLater upTo other
      have distant := apart c s changes other isLater
      omega
  · left
    intro t isLater upTo
    apply @eq_of_unchanged _ f lo hi _ _ isLater upTo
    intro s isLater upTo changes
    exact changed ⟨s, isLater, upTo, changes⟩

end NoidaDb.Lib
