/-
Chains of labelled steps, and the invariants that the labels of a chain update.
-/

import Mathlib.Data.List.Basic

namespace NoidaDb.Lib

inductive Chain {S L : Type} (step : S → L → S → Prop) : S → List L → S → Prop where
  | nil (s : S) : Chain step s [] s
  | cons {s t u : S} {label : L} {labels : List L} (first : step s label t)
      (rest : Chain step t labels u) : Chain step s (label :: labels) u

namespace Chain

variable {S L H : Type} {step : S → L → S → Prop} {s t u : S} {labels more : List L}

theorem single {label : L} (only : step s label t) : Chain step s [label] t :=
  .cons only (.nil t)

theorem append (first : Chain step s labels t) (second : Chain step t more u) :
    Chain step s (labels ++ more) u := by
  induction first with
  | nil => exact second
  | cons head _ ih => exact .cons head (ih second)

theorem invariant {inv : H → S → Prop} (record : H → L → H) {allowed : L → Prop}
    (kept : ∀ h s label t, allowed label → step s label t → inv h s → inv (record h label) t)
    (chain : Chain step s labels t) (permitted : ∀ label ∈ labels, allowed label) (h : H)
    (start : inv h s) : inv (labels.foldl record h) t := by
  induction chain generalizing h with
  | nil => exact start
  | cons head _ ih =>
    obtain ⟨first, later⟩ := List.forall_mem_cons.mp permitted
    exact ih later _ (kept _ _ _ _ first head start)

end Chain

end NoidaDb.Lib
