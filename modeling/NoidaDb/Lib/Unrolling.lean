/-
Recursive computations that thread a state and may fail, unrolled.
-/

import Mathlib.Data.List.Basic

namespace NoidaDb.Lib

variable {σ ε A α β : Type}

/-- `step` applied to itself so many times, with `deeper` in place of the calls below. -/
def unrolled (step : (A → StateT σ (Except ε) PUnit) → A → StateT σ (Except ε) PUnit)
    (deeper : A → StateT σ (Except ε) PUnit) : Nat → A → StateT σ (Except ε) PUnit
  | 0 => deeper
  | depth + 1 => step (unrolled step deeper depth)

section

variable {step : (A → StateT σ (Except ε) PUnit) → A → StateT σ (Except ε) PUnit}

theorem unrolled_add (deeper : A → StateT σ (Except ε) PUnit) (more depth : Nat) :
    unrolled step deeper (more + depth) = unrolled step (unrolled step deeper more) depth := by
  induction depth with
  | zero => rfl
  | succ depth ih =>
    show step (unrolled step deeper (more + depth)) = _
    rw [ih]
    rfl

/-- The run of `body` from `s` ends in `result` within so many nested calls. -/
def ConcludesTo (step : (A → StateT σ (Except ε) PUnit) → A → StateT σ (Except ε) PUnit)
    (body : (A → StateT σ (Except ε) PUnit) → StateT σ (Except ε) α) (s : σ) (depth : Nat)
    (result : Except ε (α × σ)) : Prop :=
  ∀ deeper, body (unrolled step deeper depth) s = result

def Concludes (step : (A → StateT σ (Except ε) PUnit) → A → StateT σ (Except ε) PUnit)
    (body : (A → StateT σ (Except ε) PUnit) → StateT σ (Except ε) α) (s : σ) : Prop :=
  ∃ depth result, ConcludesTo step body s depth result

/-- The call returns after finitely many calls, with a result or an error. -/
def Returns (step : (A → StateT σ (Except ε) PUnit) → A → StateT σ (Except ε) PUnit) (a : A)
    (s : σ) : Prop :=
  Concludes step (fun call => call a) s

theorem ConcludesTo.more {body : (A → StateT σ (Except ε) PUnit) → StateT σ (Except ε) α} {s : σ}
    {depth : Nat} {result : Except ε (α × σ)} (settles : ConcludesTo step body s depth result)
    {deep : Nat} (enough : depth ≤ deep) : ConcludesTo step body s deep result := by
  intro deeper
  have same : deep = (deep - depth) + depth := by omega
  rw [same, unrolled_add]
  exact settles _

theorem Concludes.const (computation : StateT σ (Except ε) α) (s : σ) :
    Concludes step (fun _ => computation) s :=
  ⟨0, computation s, fun _ => rfl⟩

theorem Concludes.bind {first : (A → StateT σ (Except ε) PUnit) → StateT σ (Except ε) α}
    {next : α → (A → StateT σ (Except ε) PUnit) → StateT σ (Except ε) β} {s : σ}
    (settles : Concludes step first s)
    (onward : ∀ value middle depth, ConcludesTo step first s depth (.ok (value, middle)) →
      Concludes step (next value) middle) :
    Concludes step (fun call => first call >>= fun value => next value call) s := by
  obtain ⟨depth, result, settles⟩ := settles
  cases result with
  | error e =>
    refine ⟨depth, .error e, ?_⟩
    intro deeper
    show (first (unrolled step deeper depth) s >>= _) = _
    rw [settles deeper]
    rfl
  | ok pair =>
    obtain ⟨depth', result', settles'⟩ := onward pair.1 pair.2 depth settles
    refine ⟨max depth depth', result', ?_⟩
    intro deeper
    have here := settles.more (Nat.le_max_left depth depth') deeper
    have there := settles'.more (Nat.le_max_right depth depth') deeper
    show (first (unrolled step deeper (max depth depth')) s >>= _) = _
    rw [here]
    exact there

theorem Concludes.forM (invariant : σ → Prop) {items : List α}
    {body : α → (A → StateT σ (Except ε) PUnit) → StateT σ (Except ε) PUnit} {s : σ}
    (initially : invariant s)
    (each : ∀ item, item ∈ items → ∀ current, invariant current →
      Concludes step (body item) current)
    (kept : ∀ item, item ∈ items → ∀ current, invariant current → ∀ depth final,
      ConcludesTo step (body item) current depth (.ok (PUnit.unit, final)) → invariant final) :
    Concludes step (fun call => items.forM (fun item => body item call)) s := by
  induction items generalizing s with
  | nil => exact Concludes.const _ s
  | cons item rest ih =>
    have first := each item List.mem_cons_self s initially
    apply first.bind
    · intro value middle depth settles
      apply ih
      · exact kept item List.mem_cons_self s initially depth middle settles
      · exact fun other member => each other (List.mem_cons_of_mem item member)
      · exact fun other member => kept other (List.mem_cons_of_mem item member)

end

end NoidaDb.Lib
