/-
Searching lists that are in order.

In a sorted list a predicate that only fails further on selects a prefix, and the first
element that qualifies is the least one.
-/

import Mathlib.Data.List.Basic
import Mathlib.Data.List.TakeWhile

namespace NoidaDb.Lib

variable {α : Type} {items : List α}

section Prefixes

variable {holds : α → Bool}

theorem takeWhile_eq_filter
    (downward : items.Pairwise (fun a b => holds b = true → holds a = true)) :
    items.takeWhile holds = items.filter holds := by
  induction items with
  | nil => rfl
  | cons head rest ih =>
    obtain ⟨fromHead, fromRest⟩ := List.pairwise_cons.mp downward
    cases atHead : holds head with
    | true =>
      rw [List.takeWhile_cons_of_pos atHead, List.filter_cons_of_pos atHead, ih fromRest]
    | false =>
      rw [List.takeWhile_cons_of_neg (by simp [atHead])]
      symm
      apply List.filter_eq_nil_iff.mpr
      intro item member
      rcases List.mem_cons.mp member with same | inRest
      · simp [same, atHead]
      · intro holdsThere
        rw [fromHead item inRest holdsThere] at atHead
        cases atHead

theorem dropWhile_eq_filter
    (downward : items.Pairwise (fun a b => holds b = true → holds a = true)) :
    items.dropWhile holds = items.filter (fun a => !holds a) := by
  induction items with
  | nil => rfl
  | cons head rest ih =>
    obtain ⟨fromHead, fromRest⟩ := List.pairwise_cons.mp downward
    cases atHead : holds head with
    | true =>
      rw [List.dropWhile_cons_of_pos atHead, List.filter_cons_of_neg (by simp [atHead]),
        ih fromRest]
    | false =>
      rw [List.dropWhile_cons_of_neg (by simp [atHead])]
      symm
      apply List.filter_eq_self.mpr
      intro item member
      rcases List.mem_cons.mp member with same | inRest
      · simp [same, atHead]
      · cases there : holds item with
        | false => rfl
        | true =>
          rw [fromHead item inRest there] at atHead
          cases atHead

end Prefixes

theorem exists_find?_le {β : Type} [Preorder β] {key : α → β}
    (ordered : items.Pairwise (fun a b => key a < key b)) (qualifies : α → Bool) {item : α}
    (member : item ∈ items) (holds : qualifies item = true) :
    ∃ first, items.find? qualifies = some first ∧ key first ≤ key item := by
  induction items with
  | nil => cases member
  | cons head rest ih =>
    obtain ⟨fromHead, fromRest⟩ := List.pairwise_cons.mp ordered
    rw [List.find?_cons]
    cases found : qualifies head with
    | true =>
      refine ⟨head, rfl, ?_⟩
      rcases List.mem_cons.mp member with same | inRest
      · rw [same]
      · exact le_of_lt (fromHead item inRest)
    | false =>
      rcases List.mem_cons.mp member with same | inRest
      · rw [same, found] at holds
        cases holds
      · exact ih fromRest inRest

end NoidaDb.Lib
