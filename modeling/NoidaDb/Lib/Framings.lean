/-
Readers of a stream that may refuse it: what they read back, and that it does not depend on what
follows.
-/

import NoidaDb.Lib.ExceptState

namespace NoidaDb.Lib

variable {σ ε α β : Type}

abbrev Framer (σ ε α : Type) := StateT (List σ) (Except ε) α

/-- From what was written, followed by anything, the value is read and the rest is left. -/
def Frames (r : Framer σ ε α) (written : List σ) (x : α) : Prop :=
  ∀ rest, r (written ++ rest) = .ok (x, rest)

/-- Whatever is read is a frame at the start of the input. -/
def Steady (r : Framer σ ε α) : Prop :=
  ∀ input x rest, r input = .ok (x, rest) → ∃ used, input = used ++ rest ∧ Frames r used x

def readTimes (r : Framer σ ε α) : Nat → Framer σ ε (List α)
  | 0 => pure []
  | n + 1 => do
      let x ← r
      let xs ← readTimes r n
      pure (x :: xs)

theorem bind_ok {r : Framer σ ε α} {next : α → Framer σ ε β} {input rest : List σ} {y : β}
    (isOk : (r >>= next) input = .ok (y, rest)) :
    ∃ x middle, r input = .ok (x, middle) ∧ next x middle = .ok (y, rest) := by
  change (r input >>= fun pair => next pair.1 pair.2) = .ok (y, rest) at isOk
  cases ran : r input with
  | error failure =>
    rw [ran] at isOk
    cases isOk
  | ok pair =>
    rw [ran] at isOk
    exact ⟨pair.1, pair.2, rfl, isOk⟩

theorem map_ok {f : α → β} {r : Framer σ ε α} {input rest : List σ} {y : β}
    (isOk : (f <$> r) input = .ok (y, rest)) : ∃ x, r input = .ok (x, rest) ∧ f x = y := by
  rw [map_eq_pure_bind] at isOk
  obtain ⟨x, middle, isFirst, isValue⟩ := bind_ok isOk
  cases isValue
  exact ⟨x, isFirst, rfl⟩

theorem readTimes_ok {r : Framer σ ε α} {n : Nat} {input rest : List σ} {xs : List α}
    (isOk : readTimes r n input = .ok (xs, rest)) :
    xs.length = n ∧ ∀ x ∈ xs, ∃ before after, r before = .ok (x, after) := by
  induction n generalizing input xs with
  | zero =>
    cases isOk
    exact ⟨rfl, fun x member => by cases member⟩
  | succ n ih =>
    obtain ⟨x, middle, isFirst, isLater⟩ := bind_ok isOk
    obtain ⟨others, after, areOthers, isAll⟩ := bind_ok isLater
    cases isAll
    obtain ⟨isLength, each⟩ := ih areOthers
    refine ⟨congrArg (· + 1) isLength, fun y member => ?_⟩
    rcases List.mem_cons.mp member with isFirst' | isOther
    · exact ⟨input, middle, isFirst' ▸ isFirst⟩
    · exact each y isOther

namespace Frames

variable {r : Framer σ ε α} {x : α}

theorem pure (x : α) : Frames (pure x : Framer σ ε α) [] x := fun _ => rfl

theorem bind {next : α → Framer σ ε β} {first second : List σ} {y : β}
    (frames : Frames r first x) (continues : Frames (next x) second y) :
    Frames (r >>= next) (first ++ second) y := by
  intro rest
  have isFirst := frames (second ++ rest)
  rw [← List.append_assoc] at isFirst
  show (r (first ++ second ++ rest) >>= fun pair => next pair.1 pair.2) = .ok (y, rest)
  rw [isFirst]
  exact continues rest

theorem bind_last {next : α → Framer σ ε β} {written : List σ} {y : β}
    (frames : Frames r written x) (ends : Frames (next x) [] y) :
    Frames (r >>= next) written y := by
  rw [← List.append_nil written]
  exact frames.bind ends

theorem map {written : List σ} (f : α → β) (frames : Frames r written x) :
    Frames (f <$> r) written (f x) := by
  rw [map_eq_pure_bind]
  exact frames.bind_last (pure (f x))

theorem times {write : α → List σ} (xs : List α) (frames : ∀ x ∈ xs, Frames r (write x) x) :
    Frames (readTimes r xs.length) (xs.flatMap write) xs := by
  induction xs with
  | nil => exact pure []
  | cons x xs ih =>
    obtain ⟨first, later⟩ := List.forall_mem_cons.mp frames
    rw [List.flatMap_cons]
    exact bind first (bind_last (ih later) (pure (x :: xs)))

end Frames

namespace Steady

variable {r : Framer σ ε α}

theorem pure (x : α) : Steady (pure x : Framer σ ε α) := by
  intro input y rest isOk
  obtain ⟨isValue, isRest⟩ := Prod.mk.inj (Except.ok.inj isOk)
  rw [← isValue, ← isRest]
  exact ⟨[], rfl, Frames.pure x⟩

theorem refuse (failure : ε) : Steady (fun _ => .error failure : Framer σ ε α) := by
  intro input x rest isOk
  cases isOk

theorem bind {next : α → Framer σ ε β} (first : Steady r) (later : ∀ x, Steady (next x)) :
    Steady (r >>= next) := by
  intro input y rest isOk
  obtain ⟨x, middle, isFirst, isLater⟩ := bind_ok isOk
  obtain ⟨used, split, frames⟩ := first input x middle isFirst
  obtain ⟨used', split', continues⟩ := later x middle y rest isLater
  exact ⟨used ++ used', by rw [split, split', List.append_assoc], frames.bind continues⟩

theorem map (f : α → β) (steady : Steady r) : Steady (f <$> r) := by
  rw [map_eq_pure_bind]
  exact steady.bind (fun x => pure (f x))

theorem times (steady : Steady r) (n : Nat) : Steady (readTimes r n) := by
  induction n with
  | zero => exact pure []
  | succ n ih => exact steady.bind (fun x => ih.bind (fun xs => pure (x :: xs)))

end Steady

end NoidaDb.Lib
