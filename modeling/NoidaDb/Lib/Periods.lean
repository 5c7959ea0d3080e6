/-
A line cut into periods, and the beginning of the period that a point is in.
-/

import Mathlib.Algebra.Order.Group.Int

namespace NoidaDb.Lib

/-- Periods numbered in their order: where one starts, and in which one a point is. -/
structure Periods (τ : Type) [LE τ] where
  start : Int → τ
  index : τ → Int
  gc : ∀ k t, start k ≤ t ↔ k ≤ index t
  own : ∀ k, index (start k) = k

namespace Periods

section Steps

variable {start index : Int → Int} (step : ∀ k, start k < start (k + 1))
  (around : ∀ t, start (index t) ≤ t ∧ t < start (index t + 1))

include step

theorem steps_mono {j k : Int} (le : j ≤ k) : start j ≤ start k := by
  have later (n : Nat) : start j ≤ start (j + n) := by
    induction n with
    | zero => simp
    | succ n ih =>
      have next := step (j + n)
      have same : j + ((n + 1 : Nat) : Int) = j + n + 1 := by omega
      rw [same]
      omega
  have reached := later (k - j).toNat
  have same : j + ((k - j).toNat : Int) = k := by omega
  rw [same] at reached
  exact reached

include around

theorem steps_gc (k t : Int) : start k ≤ t ↔ k ≤ index t := by
  obtain ⟨before, after⟩ := around t
  constructor
  · intro starts
    by_contra beyond
    have reached := steps_mono step (show index t + 1 ≤ k by omega)
    omega
  · intro le
    exact (steps_mono step le).trans before

theorem steps_own (k : Int) : index (start k) = k := by
  have low := (steps_gc step around k (start k)).mp (le_refl _)
  have high := (around (start k)).1
  by_contra different
  have reached := steps_mono step (show k + 1 ≤ index (start k) by omega)
  have next := step k
  omega

end Steps

def ofSteps (start index : Int → Int) (step : ∀ k, start k < start (k + 1))
    (around : ∀ t, start (index t) ≤ t ∧ t < start (index t + 1)) : Periods Int where
  start := start
  index := index
  gc := steps_gc step around
  own := steps_own step around

/-- Periods of one length, one of which starts at `c`. -/
def every (n c : Int) (pos : 0 < n) : Periods Int :=
  ofSteps (fun k => k * n + c) (fun t => (t - c) / n)
    (by
      intro k
      rw [Int.add_mul, Int.one_mul]
      omega)
    (by
      intro t
      have split := Int.mul_ediv_add_emod (t - c) n
      have low := Int.emod_nonneg (t - c) (Int.ne_of_gt pos)
      have high := Int.emod_lt_of_pos (t - c) pos
      rw [Int.mul_comm] at split
      rw [Int.add_mul, Int.one_mul]
      omega)

def comp {τ : Type} [LE τ] (fine : Periods τ) (coarse : Periods Int) : Periods τ where
  start := fine.start ∘ coarse.start
  index := coarse.index ∘ fine.index
  gc := fun k t => (fine.gc _ t).trans (coarse.gc k _)
  own := by
    intro k
    show coarse.index (fine.index (fine.start (coarse.start k))) = k
    rw [fine.own, coarse.own]

def floor {τ : Type} [LE τ] (p : Periods τ) (t : τ) : τ := p.start (p.index t)

variable {τ : Type} [Preorder τ] (p : Periods τ)

theorem floor_le (t : τ) : p.floor t ≤ t := (p.gc _ t).mpr (Int.le_refl _)

theorem index_mono {s t : τ} (le : s ≤ t) : p.index s ≤ p.index t :=
  (p.gc _ t).mp ((p.floor_le s).trans le)

@[simp] theorem index_floor (t : τ) : p.index (p.floor t) = p.index t := p.own _

variable {s t : τ}

theorem floor_mono (le : s ≤ t) : p.floor s ≤ p.floor t :=
  (p.gc _ _).mpr (by
    show p.index s ≤ p.index (p.start (p.index t))
    rw [p.own]
    exact p.index_mono le)

theorem index_between (low : p.floor t ≤ s) (high : s ≤ t) : p.index s = p.index t := by
  have up := p.index_mono high
  have down := p.index_mono low
  rw [index_floor] at down
  exact Int.le_antisymm up down

theorem floor_eq_iff : p.floor s = p.floor t ↔ p.index s = p.index t := by
  constructor
  · intro same
    rw [← index_floor, same, index_floor]
  · intro same
    unfold floor
    rw [same]

end Periods

end NoidaDb.Lib
