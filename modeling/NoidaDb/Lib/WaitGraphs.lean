/-
Who waits for whom.
-/

import Mathlib.Data.Finset.Card
import Mathlib.Data.Nat.Find
import NoidaDb.Lib.FiniteMaps

namespace NoidaDb.Lib

variable {α : Type}

/-- `a` waits for `b`. -/
def WaitsFor (waits : FiniteMap α α) (a b : α) : Prop := waits a = some b

/-- Where the walk from `a` is after so many steps. -/
def follow (waits : FiniteMap α α) : Nat → α → Option α
  | 0, a => some a
  | n + 1, a => (waits a).bind (follow waits n)

theorem follow_add (waits : FiniteMap α α) (m n : Nat) (a : α) :
    follow waits (m + n) a = (follow waits m a).bind (follow waits n) := by
  induction m generalizing a with
  | zero => simp [follow]
  | succ m ih =>
    rw [Nat.succ_add, follow, follow]
    cases waits a with
    | none => rfl
    | some b => exact ih b

variable {waits : FiniteMap α α} {me a : α}

theorem waitsFor_iff_follow {b : α} :
    Relation.TransGen (WaitsFor waits) a b ↔ ∃ n, follow waits (n + 1) a = some b := by
  constructor
  · intro reaches
    induction reaches with
    | single waiting => exact ⟨0, by simp [follow, show waits a = some _ from waiting]⟩
    | tail _ waiting ih =>
      obtain ⟨n, isAt⟩ := ih
      refine ⟨n + 1, ?_⟩
      rw [follow_add, isAt]
      simp [follow, show waits _ = some _ from waiting]
  · intro walk
    obtain ⟨n, isAt⟩ := walk
    induction n generalizing a with
    | zero =>
      apply Relation.TransGen.single
      simpa [follow, WaitsFor] using isAt
    | succ n ih =>
      rw [follow] at isAt
      obtain ⟨next, waiting, later⟩ := Option.bind_eq_some_iff.mp isAt
      exact Relation.TransGen.head waiting (ih later)

/-- The shortest way to `me` goes through each waiter once. -/
theorem shortest_le {n : Nat} (isAt : follow waits (n + 1) a = some me)
    (shortest : ∀ m, follow waits (m + 1) a = some me → n ≤ m) : n + 1 ≤ waits.keys.card := by
  have defined : ∀ i, i ≤ n → ∃ b, follow waits i a = some b ∧ (waits b).isSome = true ∧
      follow waits (n + 1 - i) b = some me := by
    intro i within
    have split : i + (n + 1 - i) = n + 1 := by omega
    rw [← split, follow_add] at isAt
    obtain ⟨b, isAt', later⟩ := Option.bind_eq_some_iff.mp isAt
    refine ⟨b, isAt', ?_, later⟩
    have more : n + 1 - i = (n - i) + 1 := by omega
    rw [more, follow] at later
    obtain ⟨next, waiting, _⟩ := Option.bind_eq_some_iff.mp later
    simp [waiting]
  have visits : Set.MapsTo (fun i => (follow waits i a).getD a) (Finset.range (n + 1))
      waits.keys := by
    intro i member
    obtain ⟨b, isAt', waiting, _⟩ := defined i (by simpa [Nat.lt_succ_iff] using member)
    simpa [isAt', waits.mem_keys] using waiting
  have apart : Set.InjOn (fun i => (follow waits i a).getD a) (Finset.range (n + 1)) := by
    -- Between two visits of the same waiter nothing is gained.
    have earlier : ∀ i j, i < j → j ≤ n → follow waits i a = follow waits j a → False := by
      intro i j less within same
      obtain ⟨b, isAt', _, later⟩ := defined j within
      have shortcut : follow waits (i + (n - j) + 1) a = some me := by
        have split : i + (n - j) + 1 = i + (n + 1 - j) := by omega
        rw [split, follow_add, same, isAt']
        exact later
      have least := shortest _ shortcut
      omega
    intro i memberI j memberJ same
    have withinI : i ≤ n := by simpa [Nat.lt_succ_iff] using memberI
    have withinJ : j ≤ n := by simpa [Nat.lt_succ_iff] using memberJ
    obtain ⟨b, isB, _⟩ := defined i withinI
    obtain ⟨c, isC, _⟩ := defined j withinJ
    have sameNode : follow waits i a = follow waits j a := by
      simp only [isB, isC, Option.getD_some] at same
      rw [isB, isC, same]
    rcases Nat.lt_trichotomy i j with less | equal | more
    · exact (earlier i j less withinJ sameNode).elim
    · exact equal
    · exact (earlier j i more withinI sameNode.symm).elim
  simpa using Finset.card_le_card_of_injOn _ visits apart

variable [DecidableEq α]

/-- Follows the waits from `a`, so many steps at most, and tells whether it comes to `me`. -/
def comesTo (waits : FiniteMap α α) (me : α) : Nat → α → Bool
  | 0, _ => false
  | fuel + 1, a =>
    match waits a with
    | none => false
    | some next => if next = me then true else comesTo waits me fuel next

theorem comesTo_iff (fuel : Nat) (a : α) :
    comesTo waits me fuel a = true ↔ ∃ n, n < fuel ∧ follow waits (n + 1) a = some me := by
  induction fuel generalizing a with
  | zero => simp [comesTo]
  | succ fuel ih =>
    rw [comesTo]
    cases waiting : waits a with
    | none => simp [follow, waiting]
    | some next =>
      simp only
      split
      · rename_i isMe
        simp only [true_iff]
        exact ⟨0, Nat.succ_pos fuel, by simp [follow, waiting, isMe]⟩
      · rename_i isOther
        rw [ih next]
        constructor
        · intro walk
          obtain ⟨n, within, isAt⟩ := walk
          exact ⟨n + 1, by omega, by rw [follow, waiting]; exact isAt⟩
        · intro walk
          obtain ⟨n, within, isAt⟩ := walk
          rw [follow, waiting, Option.bind_some] at isAt
          cases n with
          | zero => exact (isOther (Option.some.inj isAt)).elim
          | succ n => exact ⟨n, by omega, isAt⟩

theorem comesTo_exact {fuel : Nat} (enough : waits.keys.card ≤ fuel) (a : α) :
    comesTo waits me fuel a = true ↔ Relation.TransGen (WaitsFor waits) a me := by
  rw [comesTo_iff, waitsFor_iff_follow]
  constructor
  · intro walk
    obtain ⟨n, _, isAt⟩ := walk
    exact ⟨n, isAt⟩
  · intro walk
    have least := Nat.find_spec walk
    have bound := shortest_le least (fun m isAt => Nat.find_min' walk isAt)
    exact ⟨Nat.find walk, by omega, least⟩

theorem reaches_avoiding {holder : α}
    (reaches : Relation.TransGen (WaitsFor (waits.insert me holder)) a me) (other : a ≠ me) :
    Relation.TransGen (fun x y => x ≠ me ∧ WaitsFor waits x y) a me := by
  induction reaches using Relation.TransGen.head_induction_on with
  | single waiting =>
    apply Relation.TransGen.single
    exact ⟨other, by simpa [WaitsFor, other] using waiting⟩
  | head waiting later ih =>
    rename_i x y
    have here : x ≠ me ∧ WaitsFor waits x y := ⟨other, by simpa [WaitsFor, other] using waiting⟩
    by_cases isMe : y = me
    · rw [isMe] at here
      exact Relation.TransGen.single here
    · exact Relation.TransGen.head here (ih isMe)

end NoidaDb.Lib
