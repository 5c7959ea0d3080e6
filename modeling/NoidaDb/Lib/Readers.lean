/-
Readers of a list of symbols, and what it means that one reads back what was written.
-/

import Mathlib.Data.List.Basic

namespace NoidaDb.Lib

abbrev Reader (σ α : Type) := StateT (List σ) Option α

namespace Reader

variable {σ α β : Type}

def next : Reader σ σ := fun input =>
  match input with
  | [] => none
  | x :: rest => some (x, rest)

def take (n : Nat) : Reader σ (List σ) := fun input =>
  if n ≤ input.length then some (input.take n, input.drop n) else none

def many (r : Reader σ α) : Nat → Reader σ (List α)
  | 0 => pure []
  | n + 1 => do
      let x ← r
      let xs ← many r n
      pure (x :: xs)

def ofOption (x : Option α) : Reader σ α := fun input => x.map (fun x => (x, input))

/-- From what was written, followed by anything, the value is read and the rest is left. -/
def Reads (r : Reader σ α) (written : List σ) (x : α) : Prop :=
  ∀ rest, r (written ++ rest) = some (x, rest)

namespace Reads

theorem pure (x : α) : Reads (pure x : Reader σ α) [] x := fun _ => rfl

variable {r : Reader σ α} {x : α}

theorem bind {next : α → Reader σ β} {first second : List σ} {y : β} (reads : Reads r first x)
    (continues : Reads (next x) second y) : Reads (r >>= next) (first ++ second) y := by
  intro rest
  have isFirst := reads (second ++ rest)
  rw [← List.append_assoc] at isFirst
  show (r (first ++ second ++ rest)).bind (fun p => next p.1 p.2) = some (y, rest)
  rw [isFirst]
  exact continues rest

theorem map {written : List σ} (f : α → β) (reads : Reads r written x) :
    Reads (f <$> r) written (f x) := by
  intro rest
  show (r (written ++ rest)).bind (fun p => some (f p.1, p.2)) = some (f x, rest)
  rw [reads rest]
  rfl

theorem next (x : σ) : Reads next [x] x := fun _ => rfl

theorem next_bind {x : σ} {after : σ → Reader σ β} {later : List σ} {y : β}
    (continues : Reads (after x) later y) : Reads (Reader.next >>= after) (x :: later) y :=
  bind (next x) continues

theorem take (xs : List σ) : Reads (take xs.length) xs xs := by
  intro rest
  unfold Reader.take
  rw [if_pos (by rw [List.length_append]; omega), List.take_left, List.drop_left]

theorem ofOption {o : Option α} (isSome : o = some x) : Reads (ofOption o : Reader σ α) [] x := by
  intro rest
  rw [isSome]
  rfl

theorem many {write : α → List σ} (xs : List α) (reads : ∀ x ∈ xs, Reads r (write x) x) :
    Reads (many r xs.length) (xs.flatMap write) xs := by
  induction xs with
  | nil => exact pure []
  | cons x xs ih =>
    obtain ⟨first, later⟩ := List.forall_mem_cons.mp reads
    rw [List.flatMap_cons]
    apply bind first
    rw [← List.append_nil (xs.flatMap write)]
    exact bind (ih later) (pure (x :: xs))

theorem run_all {written : List σ} (reads : Reads r written x) : r written = some (x, []) := by
  have whole := reads []
  rw [List.append_nil] at whole
  exact whole

end Reads

end Reader

end NoidaDb.Lib
