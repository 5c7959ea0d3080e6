/-
Programs that read positions of a list and count with machine integers.
-/

import NoidaDb.Lib.MachineIntegers

namespace NoidaDb.Lib

inductive Build where
  | checked
  | release
deriving DecidableEq, Repr

inductive Stop (ε : Type) where
  | refused (e : ε)
  | panicked

abbrev Run (ε α : Type) := Except (Stop ε) α

abbrev usize : IntType := .unsigned 64

theorem usize_holds {n : Int} : usize.Holds n ↔ 0 ≤ n ∧ n < 18446744073709551616 := Iff.rfl

namespace IntType

def wrap (type : IntType) (n : Int) : Int :=
  (n - type.least) % (type.bound - type.least) + type.least

theorem wrap_eq {type : IntType} {n : Int} (holds : type.Holds n) : type.wrap n = n := by
  unfold Holds at holds
  unfold wrap
  rw [Int.emod_eq_of_lt (by omega) (by omega)]
  omega

theorem usize_wrap (n : Int) : usize.wrap n = n % 18446744073709551616 := by
  show (n - 0) % 18446744073709551616 + 0 = _
  rw [Int.sub_zero, Int.add_zero]

theorem i64_wrap (n : Int) :
    i64.wrap n = (n + 9223372036854775808) % 18446744073709551616 - 9223372036854775808 := rfl

end IntType

namespace Run

variable {ε α β σ : Type}

def refuse (e : ε) : Run ε α := .error (.refused e)

def panic : Run ε α := .error .panicked

/-- `?`. -/
def answered : Except ε α → Run ε α
  | .ok x => .ok x
  | .error e => refuse e

def result (build : Build) (type : IntType) (n : Int) : Run ε Int :=
  if type.Holds n then .ok n
  else
    match build with
    | .checked => panic
    | .release => .ok (type.wrap n)

def position (build : Build) (n : Int) : Run ε Nat := Int.toNat <$> result build usize n

def item (xs : List α) (i : Nat) : Run ε α :=
  match xs[i]? with
  | none => panic
  | some x => .ok x

/-- `xs[i..j]`. -/
def slice (xs : List α) (i j : Nat) : Run ε (List α) :=
  if i ≤ j ∧ j ≤ xs.length then .ok ((xs.take j).drop i) else panic

/-- `&&`. -/
def both (x y : Run ε Bool) : Run ε Bool := do if ← x then y else .ok false

/-- `while j < length`; the fuel bounds the rounds. -/
def loop (length : Nat) (step : σ → Nat → Run ε (σ × Nat)) : Nat → σ → Nat → Run ε σ
  | 0, s, j => if j < length then panic else .ok s
  | fuel + 1, s, j =>
    if j < length then do
      let (s, j) ← step s j
      loop length step fuel s j
    else .ok s

structure Ends (P : α → Prop) (x : Run ε α) : Prop where
  not_panic : x ≠ panic
  holds : ∀ a, x = .ok a → P a

variable {P Q : α → Prop} {R : β → Prop} {x : Run ε α}

theorem Ends.ok {a : α} (holds : P a) : Ends P (.ok a : Run ε α) where
  not_panic := nofun
  holds := fun _ same => Except.ok.inj same ▸ holds

theorem ends_refuse (e : ε) : Ends P (refuse e : Run ε α) where
  not_panic := nofun
  holds := nofun

theorem Ends.weaken (ends : Ends P x) (weaker : ∀ a, P a → Q a) : Ends Q x where
  not_panic := ends.not_panic
  holds := fun a same => weaker a (ends.holds a same)

theorem Ends.bind {next : α → Run ε β} (ends : Ends P x) (later : ∀ a, P a → Ends R (next a)) :
    Ends R (x >>= next) :=
  match x, ends with
  | .ok a, ends => later a (ends.holds a rfl)
  | .error (.refused e), _ => ends_refuse e
  | .error .panicked, ends => absurd rfl ends.not_panic

theorem Ends.ite {y : Run ε α} {c : Prop} [Decidable c] (yes : c → Ends P x)
    (no : ¬ c → Ends P y) : Ends P (if c then x else y) := by
  split
  next holds => exact yes holds
  next fails => exact no fails

theorem answered_ok (a : α) : (answered (.ok a) : Run ε α) = .ok a := rfl

theorem ends_answered (r : Except ε α) : Ends (fun a => r = .ok a) (answered r) := by
  cases r with
  | ok a => exact .ok rfl
  | error e => exact ends_refuse e

variable {xs : List α} {i : Nat}

theorem item_eq (within : i < xs.length) : (item xs i : Run ε α) = .ok xs[i] := by
  unfold item
  rw [List.getElem?_eq_getElem within]

theorem item_panics (outside : xs.length ≤ i) : (item xs i : Run ε α) = panic := by
  unfold item
  rw [List.getElem?_eq_none outside]

theorem slice_eq {j : Nat} (ordered : i ≤ j) (within : j ≤ xs.length) :
    (slice xs i j : Run ε (List α)) = .ok ((xs.take j).drop i) := if_pos ⟨ordered, within⟩

theorem result_eq {build : Build} {type : IntType} {n : Int} (holds : type.Holds n) :
    (result build type n : Run ε Int) = .ok n := if_pos holds

theorem result_panics {type : IntType} {n : Int} (outside : ¬ type.Holds n) :
    (result .checked type n : Run ε Int) = panic := if_neg outside

theorem result_release (type : IntType) (n : Int) :
    (result .release type n : Run ε Int) = .ok (type.wrap n) := by
  unfold result
  split
  next holds => rw [IntType.wrap_eq holds]
  next outside => rfl

theorem position_eq {build : Build} (n : Nat) (small : n < 2 ^ 64) :
    (position build n : Run ε Nat) = .ok n := by
  have holds : usize.Holds n := usize_holds.mpr (by omega)
  unfold position
  rw [result_eq holds]
  rfl

theorem position_sub {build : Build} {m n : Nat} (ordered : n ≤ m) (small : m < 2 ^ 64) :
    (position build ((m : Int) - n) : Run ε Nat) = .ok (m - n) := by
  rw [← Int.ofNat_sub ordered]
  exact position_eq (m - n) (by omega)

theorem ends_item (within : i < xs.length) : Ends (fun _ => True) (item xs i : Run ε α) := by
  rw [item_eq within]
  exact .ok trivial

theorem Ends.both {c d : Run ε Bool} {S T : Prop} (first : Ends (fun b => b = true → S) c)
    (second : S → Ends (fun b => b = true → T) d) :
    Ends (fun b => b = true → S ∧ T) (both c d) := by
  apply first.bind
  intro b told
  apply Ends.ite
  · intro holds
    exact (second (told holds)).weaken (fun _ toT yes => ⟨told holds, toT yes⟩)
  · exact fun _ => .ok nofun

theorem ends_loop {length : Nat} {step : σ → Nat → Run ε (σ × Nat)} (Inv : σ → Nat → Prop)
    (round : ∀ s j, j < length → Inv s j → Ends (fun r => j < r.2 ∧ Inv r.1 r.2) (step s j)) :
    ∀ (fuel : Nat) (s : σ) (j : Nat), Inv s j → length ≤ j + fuel →
      Ends (fun s => ∃ j, length ≤ j ∧ Inv s j) (loop length step fuel s j) := by
  intro fuel
  induction fuel with
  | zero =>
    intro s j holds enough
    unfold loop
    rw [if_neg (by omega)]
    exact .ok ⟨j, enough, holds⟩
  | succ fuel ih =>
    intro s j holds enough
    unfold loop
    apply Ends.ite
    · intro more
      apply (round s j more holds).bind
      intro next ⟨forward, kept⟩
      exact ih next.1 next.2 kept (by omega)
    · intro done
      exact .ok ⟨j, Nat.le_of_not_lt done, holds⟩

end Run

end NoidaDb.Lib
