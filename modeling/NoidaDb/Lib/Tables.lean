/-
Tables with two indices that are filled row by row.

Where a cell looks only at cells before it, the finished table satisfies the equation of its
cells.
-/

import Mathlib.Data.Nat.Notation

namespace NoidaDb.Lib

structure Table (α : Type) where
  get : Nat → Nat → α

instance {α : Type} : CoeFun (Table α) (fun _ => Nat → Nat → α) := ⟨Table.get⟩

namespace Table

variable {α : Type} (cell : Table α → Nat → Nat → α)

def set (t : Table α) (i k : Nat) (value : α) : Table α :=
  ⟨fun row column => if row = i ∧ column = k then value else t row column⟩

def fillRow (i : Nat) : Nat → Table α → Table α
  | 0, t => t
  | k + 1, t =>
    let filled := fillRow i k t
    filled.set i (k + 1) (cell filled i (k + 1))

def fill (columns : Nat) : Nat → Table α → Table α
  | 0, t => t
  | i + 1, t => fillRow cell (i + 1) columns (fill columns i t)

def Before (row column i k : Nat) : Prop := row < i ∨ row = i ∧ column < k

def LooksBack : Prop :=
  ∀ (t t' : Table α) i k,
    1 ≤ i → 1 ≤ k → (∀ row column, Before row column i k → t row column = t' row column) →
      cell t i k = cell t' i k

variable {cell} {t : Table α} {i k row column rows columns : Nat}

theorem set_self (value : α) : t.set i k value i k = value := if_pos ⟨rfl, rfl⟩

theorem set_other {value : α} (other : ¬ (row = i ∧ column = k)) :
    t.set i k value row column = t row column := if_neg other

theorem fillRow_otherRow (other : row ≠ i) :
    fillRow cell i columns t row column = t row column := by
  induction columns with
  | zero => rfl
  | succ k ih =>
    unfold fillRow
    rw [set_other (fun same => other same.1), ih]

theorem fillRow_outside (outside : column = 0 ∨ columns < column) :
    fillRow cell i columns t row column = t row column := by
  induction columns with
  | zero => rfl
  | succ k ih =>
    unfold fillRow
    rw [set_other (by omega), ih (by omega)]

theorem fillRow_cell (back : LooksBack cell) (row : 1 ≤ i) (first : 1 ≤ k) (last : k ≤ columns) :
    fillRow cell i columns t i k = cell (fillRow cell i columns t) i k := by
  induction columns with
  | zero => omega
  | succ n ih =>
    have before : cell (fillRow cell i n t) i k = cell (fillRow cell i (n + 1) t) i k := by
      refine back _ _ i k (by omega) (by omega) (fun row column isBefore => ?_)
      unfold Before at isBefore
      exact (set_other (by omega)).symm
    have filled : fillRow cell i (n + 1) t i k = cell (fillRow cell i n t) i k := by
      by_cases isLast : k = n + 1
      · rw [isLast]
        exact set_self _
      · exact (set_other (fun same => isLast same.2)).trans (ih (by omega))
    exact filled.trans before

theorem fill_border (border : row = 0 ∨ column = 0) :
    fill cell columns rows t row column = t row column := by
  induction rows with
  | zero => rfl
  | succ i ih =>
    unfold fill
    rcases border with rfl | rfl
    · rw [fillRow_otherRow (by omega), ih]
    · rw [fillRow_outside (.inl rfl), ih]

theorem fill_cell (back : LooksBack cell) (firstRow : 1 ≤ i) (lastRow : i ≤ rows) (first : 1 ≤ k)
    (last : k ≤ columns) :
    fill cell columns rows t i k = cell (fill cell columns rows t) i k := by
  induction rows with
  | zero => omega
  | succ n ih =>
    by_cases isLast : i = n + 1
    · unfold fill
      rw [isLast]
      exact fillRow_cell back (by omega) first last
    · have before :
          cell (fill cell columns n t) i k = cell (fill cell columns (n + 1) t) i k := by
        refine back _ _ i k (by omega) (by omega) (fun row column isBefore => ?_)
        unfold Before at isBefore
        exact (fillRow_otherRow (by omega)).symm
      have filled : fill cell columns (n + 1) t i k = fill cell columns n t i k :=
        fillRow_otherRow isLast
      exact filled.trans ((ih (by omega)).trans before)

end Table

end NoidaDb.Lib
