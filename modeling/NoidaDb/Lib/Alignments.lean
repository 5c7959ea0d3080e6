/-
Edits of lists, and alignments of two lists with what they cost.

The least cost of an alignment is the least number of edits that turn one list into the other.
-/

import Mathlib.Data.List.Induction

namespace NoidaDb.Lib

variable {α : Type} {swaps : Bool} {a b e : List α} {c d : α} {m n : Nat}

inductive Edit : List α → List α → Prop
  | insert (front back : List α) (c : α) : Edit (front ++ back) (front ++ c :: back)
  | delete (front back : List α) (c : α) : Edit (front ++ c :: back) (front ++ back)
  | replace (front back : List α) (c d : α) : Edit (front ++ c :: back) (front ++ d :: back)

inductive Edits : Nat → List α → List α → Prop
  | none (a : List α) : Edits 0 a a
  | more {n : Nat} {a b e : List α} : Edits n a b → Edit b e → Edits (n + 1) a e

/-- The elements of two lists are assigned to each other in order. Each edit costs one, and so does
a swap of neighbours, which are not edited again. -/
inductive Align (swaps : Bool) : List α → List α → Nat → Prop
  | nil : Align swaps [] [] 0
  | keep {a b : List α} {n : Nat} (c : α) : Align swaps a b n → Align swaps (a ++ [c]) (b ++ [c]) n
  | insert {a b : List α} {n : Nat} (c : α) : Align swaps a b n → Align swaps a (b ++ [c]) (n + 1)
  | delete {a b : List α} {n : Nat} (c : α) : Align swaps a b n → Align swaps (a ++ [c]) b (n + 1)
  | replace {a b : List α} {n : Nat} (c d : α) :
    Align swaps a b n → Align swaps (a ++ [c]) (b ++ [d]) (n + 1)
  | swap {a b : List α} {n : Nat} (c d : α) (allowed : swaps = true) :
    Align swaps a b n → Align swaps (a ++ [c] ++ [d]) (b ++ [d] ++ [c]) (n + 1)

theorem Edit.append (edit : Edit a b) (c : α) : Edit (a ++ [c]) (b ++ [c]) := by
  cases edit with
  | insert front back e =>
    rw [List.append_assoc, List.append_assoc]
    exact .insert front (back ++ [c]) e
  | delete front back e =>
    rw [List.append_assoc, List.append_assoc]
    exact .delete front (back ++ [c]) e
  | replace front back e e' =>
    rw [List.append_assoc, List.append_assoc]
    exact .replace front (back ++ [c]) e e'

theorem Edits.append (edits : Edits n a b) (c : α) : Edits n (a ++ [c]) (b ++ [c]) := by
  induction edits with
  | none a => exact .none _
  | more _ edit ih => exact .more ih (edit.append c)

theorem Edits.trans {m : Nat} (first : Edits m a b) (second : Edits n b e) : Edits (m + n) a e := by
  induction second with
  | none => exact first
  | more _ edit ih => exact .more (ih first) edit

theorem Align.edits (align : Align false a b n) : Edits n a b := by
  induction align with
  | nil => exact .none []
  | keep c _ ih => exact ih.append c
  | @insert a b n c _ ih =>
    have last := Edit.insert b [] c
    rw [List.append_nil] at last
    exact .more ih last
  | @delete a b n c _ ih =>
    have last := Edit.delete b [] c
    rw [List.append_nil] at last
    exact .more (ih.append c) last
  | replace c d _ ih => exact .more (ih.append c) (.replace _ [] c d)
  | swap _ _ never => exact absurd never Bool.false_ne_true

theorem Edit.of_append (edit : Edit (a ++ [c]) e) :
    (∃ b, Edit a b ∧ e = b ++ [c]) ∨ e = a ∨ (∃ d, e = a ++ [d]) ∨ ∃ d, e = a ++ [c] ++ [d] := by
  generalize whole : a ++ [c] = l at edit
  cases edit with
  | insert front back d =>
    rcases List.eq_nil_or_concat back with rfl | ⟨back, last, rfl⟩
    · exact .inr (.inr (.inr ⟨d, by rw [List.append_nil]⟩))
    · rw [List.concat_eq_append, ← List.append_assoc] at whole
      obtain ⟨rfl, same⟩ := List.append_inj' whole rfl
      refine .inl ⟨_, .insert front back d, ?_⟩
      rw [same, List.concat_eq_append, List.append_assoc]
      rfl
  | delete front back d =>
    rcases List.eq_nil_or_concat back with rfl | ⟨back, last, rfl⟩
    · obtain ⟨rfl, -⟩ := List.append_inj' whole rfl
      exact .inr (.inl (List.append_nil _))
    · rw [List.concat_eq_append, ← List.cons_append, ← List.append_assoc] at whole
      obtain ⟨rfl, same⟩ := List.append_inj' whole rfl
      refine .inl ⟨_, .delete front back d, ?_⟩
      rw [same, List.concat_eq_append, List.append_assoc]
  | replace front back d d' =>
    rcases List.eq_nil_or_concat back with rfl | ⟨back, last, rfl⟩
    · obtain ⟨rfl, -⟩ := List.append_inj' whole rfl
      exact .inr (.inr (.inl ⟨d', rfl⟩))
    · rw [List.concat_eq_append, ← List.cons_append, ← List.append_assoc] at whole
      obtain ⟨rfl, same⟩ := List.append_inj' whole rfl
      refine .inl ⟨_, .replace front back d d', ?_⟩
      rw [same, List.concat_eq_append, List.append_assoc]
      rfl

theorem Edit.of_nil (edit : Edit [] e) : ∃ d : α, e = [] ++ [d] := by
  generalize whole : [] = l at edit
  cases edit with
  | insert front back d =>
    obtain ⟨rfl, rfl⟩ := List.append_eq_nil_iff.mp whole.symm
    exact ⟨d, rfl⟩
  | delete front back d => exact absurd whole (by simp)
  | replace front back d d' => exact absurd whole (by simp)

theorem Align.edit (align : Align false a b n) (edit : Edit b e) :
    ∃ m, m ≤ n + 1 ∧ Align false a e m := by
  induction align generalizing e with
  | nil =>
    obtain ⟨d, rfl⟩ := edit.of_nil
    exact ⟨1, Nat.le_refl _, .insert d .nil⟩
  | @keep a b n c align ih =>
    rcases edit.of_append with ⟨b', edit', rfl⟩ | rfl | ⟨d, rfl⟩ | ⟨d, rfl⟩
    · obtain ⟨m, le, align'⟩ := ih edit'
      exact ⟨m, le, .keep c align'⟩
    · exact ⟨n + 1, Nat.le_refl _, .delete c align⟩
    · exact ⟨n + 1, Nat.le_refl _, .replace c d align⟩
    · exact ⟨n + 1, Nat.le_refl _, .insert d (.keep c align)⟩
  | @insert a b n c align ih =>
    rcases edit.of_append with ⟨b', edit', rfl⟩ | rfl | ⟨d, rfl⟩ | ⟨d, rfl⟩
    · obtain ⟨m, le, align'⟩ := ih edit'
      exact ⟨m + 1, by omega, .insert c align'⟩
    · exact ⟨n, by omega, align⟩
    · exact ⟨n + 1, by omega, .insert d align⟩
    · exact ⟨n + 1 + 1, Nat.le_refl _, .insert d (.insert c align)⟩
  | @delete a b n c align ih =>
    obtain ⟨m, le, align'⟩ := ih edit
    exact ⟨m + 1, by omega, .delete c align'⟩
  | @replace a b n c c' align ih =>
    rcases edit.of_append with ⟨b', edit', rfl⟩ | rfl | ⟨d, rfl⟩ | ⟨d, rfl⟩
    · obtain ⟨m, le, align'⟩ := ih edit'
      exact ⟨m + 1, by omega, .replace c c' align'⟩
    · exact ⟨n + 1, by omega, .delete c align⟩
    · exact ⟨n + 1, by omega, .replace c d align⟩
    · exact ⟨n + 1 + 1, Nat.le_refl _, .insert d (.replace c c' align)⟩
  | swap _ _ never => exact absurd never Bool.false_ne_true

theorem Align.refl (a : List α) : Align swaps a a 0 := by
  induction a using List.reverseRecOn with
  | nil => exact .nil
  | append_singleton a c ih => exact .keep c ih

theorem Edits.align (edits : Edits n a b) : ∃ m, m ≤ n ∧ Align false a b m := by
  induction edits with
  | none a => exact ⟨0, Nat.le_refl 0, .refl a⟩
  | more _ edit ih =>
    obtain ⟨m, le, align⟩ := ih
    obtain ⟨m', le', align'⟩ := align.edit edit
    exact ⟨m', by omega, align'⟩

namespace Align

theorem symm (align : Align swaps a b n) : Align swaps b a n := by
  induction align with
  | nil => exact .nil
  | keep c _ ih => exact .keep c ih
  | insert c _ ih => exact .delete c ih
  | delete c _ ih => exact .insert c ih
  | replace c d _ ih => exact .replace d c ih
  | swap c d allowed _ ih => exact .swap d c allowed ih

theorem eq_of_zero (align : Align swaps a b n) (free : n = 0) : a = b := by
  induction align with
  | nil => rfl
  | keep c _ ih => rw [ih free]
  | insert | delete | replace | swap => exact absurd free (Nat.succ_ne_zero _)

theorem length_le (align : Align swaps a b n) : a.length ≤ b.length + n := by
  induction align with
  | nil => exact Nat.le_refl 0
  | keep | insert | delete | replace | swap => simp only [List.length_append, List.length_singleton]; omega

end Align

end NoidaDb.Lib
