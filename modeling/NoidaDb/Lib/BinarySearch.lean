/-
Binary search by a comparison.
-/

import Mathlib.Data.List.Basic

namespace NoidaDb.Lib

variable {α : Type}

namespace BinarySearch

def compareAt (cmp : α → Ordering) (xs : List α) (i : Nat) : Ordering :=
  match xs[i]? with
  | some x => cmp x
  | none => .gt

/-- The window starts at `base` and has `size` items; each turn drops half of them. -/
def narrow (cmp : α → Ordering) (xs : List α) (base size : Nat) : Nat :=
  if 1 < size then
    narrow cmp xs (if compareAt cmp xs (base + size / 2) = .gt then base else base + size / 2)
      (size - size / 2)
  else base
termination_by size

structure Split (cmp : α → Ordering) (xs below : List α) (found : Option α) (above : List α) :
    Prop where
  whole : xs = below ++ (found.toList ++ above)
  less : ∀ x ∈ below, cmp x = .lt
  equal : ∀ x ∈ found, cmp x = .eq
  greater : ∀ x ∈ above, cmp x = .gt

variable {cmp : α → Ordering} {xs below above : List α} {found : Option α}

theorem Split.at_below (split : Split cmp xs below found above) {i : Nat}
    (isBelow : i < below.length) : compareAt cmp xs i = .lt := by
  unfold compareAt
  rw [split.whole, List.getElem?_append_left isBelow, List.getElem?_eq_getElem isBelow]
  exact split.less _ (List.getElem_mem isBelow)

theorem Split.at_found {x : α} (split : Split cmp xs below (some x) above) :
    compareAt cmp xs below.length = .eq := by
  unfold compareAt
  rw [split.whole, List.getElem?_append_right (Nat.le_refl _), Nat.sub_self]
  exact split.equal x rfl

theorem Split.at_above (split : Split cmp xs below found above) {i : Nat}
    (isAbove : below.length + found.toList.length ≤ i) : compareAt cmp xs i = .gt := by
  unfold compareAt
  rw [split.whole, List.getElem?_append_right (by omega),
    List.getElem?_append_right (by omega)]
  cases item : above[i - below.length - found.toList.length]? with
  | none => rfl
  | some x => exact split.greater x (List.mem_of_getElem? item)

/-- Nothing before the window's start is past the split, nothing from its end on is before it. -/
structure Window (cmp : α → Ordering) (xs : List α) (base size : Nat) : Prop where
  nonempty : 0 < size
  start : base = 0 ∨ compareAt cmp xs base ≠ .gt
  rest : ∀ i, base + size ≤ i → compareAt cmp xs i = .gt

theorem narrow_window (split : Split cmp xs below found above) {base size : Nat}
    (window : Window cmp xs base size) : Window cmp xs (narrow cmp xs base size) 1 := by
  induction size using Nat.strongRecOn generalizing base with
  | ind size ih =>
    rw [narrow]
    by_cases isWide : 1 < size
    · rw [if_pos isWide]
      apply ih _ (by omega)
      by_cases isPast : compareAt cmp xs (base + size / 2) = .gt
      · rw [if_pos isPast]
        refine ⟨by omega, window.start, ?_⟩
        intro i isLater
        -- One item is past the split, so all items after it are.
        have notBelow : ¬ base + size / 2 < below.length := by
          intro isBelow
          rw [split.at_below isBelow] at isPast
          cases isPast
        apply split.at_above
        cases found with
        | none =>
          simp only [Option.toList_none, List.length_nil]
          omega
        | some x =>
          have notFound : base + size / 2 ≠ below.length := by
            intro isFound
            rw [isFound, split.at_found] at isPast
            cases isPast
          simp only [Option.toList_some, List.length_singleton]
          omega
      · rw [if_neg isPast]
        refine ⟨by omega, Or.inr isPast, ?_⟩
        intro i isLater
        exact window.rest i (by omega)
    · rw [if_neg isWide]
      have isOne : size = 1 := by
        have nonempty := window.nonempty
        omega
      rw [← isOne]
      exact window

end BinarySearch

open BinarySearch

def binarySearchBy (cmp : α → Ordering) (xs : List α) : Except Nat Nat :=
  if xs.isEmpty then .error 0
  else
    match compareAt cmp xs (narrow cmp xs 0 xs.length) with
    | .eq => .ok (narrow cmp xs 0 xs.length)
    | .lt => .error (narrow cmp xs 0 xs.length + 1)
    | .gt => .error (narrow cmp xs 0 xs.length)

variable {cmp : α → Ordering} {xs below above : List α} {found : Option α}

theorem binarySearchBy_split (split : Split cmp xs below found above) :
    binarySearchBy cmp xs = if found.isSome then .ok below.length else .error below.length := by
  unfold binarySearchBy
  by_cases isEmpty : xs.isEmpty
  · rw [if_pos isEmpty]
    have whole := split.whole
    rw [List.isEmpty_iff.mp isEmpty] at whole
    obtain ⟨noneBelow, rest⟩ := List.append_eq_nil_iff.mp whole.symm
    obtain ⟨noneFound, _⟩ := List.append_eq_nil_iff.mp rest
    cases found with
    | none => simp [noneBelow]
    | some x => cases noneFound
  · rw [if_neg isEmpty]
    have outside : ∀ i, xs.length ≤ i → compareAt cmp xs i = .gt := by
      intro i isOut
      unfold compareAt
      rw [List.getElem?_eq_none isOut]
    have isOut : 0 < xs.length := List.length_pos_iff.mpr (fun none => isEmpty (by simp [none]))
    have start : Window cmp xs 0 xs.length := by
      refine ⟨isOut, Or.inl rfl, ?_⟩
      intro i isLater
      exact outside i (by omega)
    have final := narrow_window split start
    generalize narrow cmp xs 0 xs.length = p at final ⊢
    have next : ∀ x, found = some x → p + 1 ≤ below.length → False := by
      intro x isFound before
      subst isFound
      have same := final.rest below.length before
      rw [split.at_found] at same
      cases same
    have notBefore : ¬ p + 1 < below.length := by
      intro before
      have same := final.rest (p + 1) (Nat.le_refl _)
      rw [split.at_below before] at same
      cases same
    rcases Nat.lt_trichotomy p below.length with before | isSplit | after
    · have isNone : found = none := by
        cases found with
        | none => rfl
        | some x => exact (next x rfl before).elim
      subst isNone
      rw [split.at_below before]
      have isLast : p + 1 = below.length := by omega
      simp [isLast]
    · subst isSplit
      cases found with
      | none =>
        rw [split.at_above (by simp)]
        rfl
      | some x =>
        rw [split.at_found]
        rfl
    · have isPast : compareAt cmp xs p = .gt := by
        apply split.at_above
        cases found with
        | none => exact Nat.le_of_lt after
        | some x => exact after
      rcases final.start with isZero | notPast
      · omega
      · exact (notPast isPast).elim

end NoidaDb.Lib
