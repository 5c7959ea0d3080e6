/-
Runs of equal neighbours in a sequence.

`peer` tests two positions below `n`; it is an equivalence whose classes have no gaps, as the
equal keys of a sorted sequence.
-/

import Mathlib.Data.List.Range

namespace NoidaDb.Lib

theorem filter_range_eq {n s e : Nat} {inside : Nat → Bool}
    (exact' : ∀ q, (s ≤ q ∧ q < e) ↔ q < n ∧ inside q = true) :
    (List.range n).filter inside = List.range' s (e - s) := by
  have sorted := (List.pairwise_lt_range (n := n)).filter inside
  have sorted' := List.pairwise_lt_range' (s := s) (n := e - s)
  refine List.Perm.eq_of_pairwise (fun a b _ _ (low : a < b) (high : b < a) => ?_) sorted sorted' ?_
  · omega
  · rw [List.perm_ext_iff_of_nodup (sorted.imp Nat.ne_of_lt) (sorted'.imp Nat.ne_of_lt)]
    intro q
    rw [List.mem_filter, List.mem_range, ← exact', List.mem_range'_1]
    omega

/-- Positions below `n` that are peers follow one another. -/
structure Peers (peer : Nat → Nat → Bool) (n : Nat) : Prop where
  refl : ∀ {a}, a < n → peer a a = true
  symm : ∀ {a b}, a < n → b < n → peer a b = true → peer b a = true
  trans : ∀ {a b c}, a < n → b < n → c < n → peer a b = true → peer b c = true → peer a c = true
  between : ∀ {a b c}, a ≤ b → b ≤ c → c < n → peer a c = true → peer a b = true

/-- The first position from `e` on that is no peer of `p`, at most `n`. -/
def scanPeers (peer : Nat → Nat → Bool) (n p : Nat) : Nat → Nat → Nat
  | 0, e => e
  | fuel + 1, e => if e < n && peer p e then scanPeers peer n p fuel (e + 1) else e

def peerEnd (peer : Nat → Nat → Bool) (n p : Nat) : Nat := scanPeers peer n p n (p + 1)

/-- The ends of the classes from `i` on, each with its start. -/
def groupsFrom (peer : Nat → Nat → Bool) (n : Nat) : Nat → Nat → List (Nat × Nat)
  | 0, _ => []
  | fuel + 1, i =>
    if i < n then (i, peerEnd peer n i) :: groupsFrom peer n fuel (peerEnd peer n i) else []

/-- The classes that end before the one of `p` begins: changes between neighbours up to `p`. -/
def groupNumber (peer : Nat → Nat → Bool) : Nat → Nat
  | 0 => 0
  | p + 1 => groupNumber peer p + if peer p (p + 1) then 0 else 1

def leads (peer : Nat → Nat → Bool) (q : Nat) : Bool := (List.range q).all (fun r => !peer r q)

/-- The classes up to the one of `p`, counted by their first members. -/
def groupsUpTo (peer : Nat → Nat → Bool) (p : Nat) : Nat := (List.range (p + 1)).countP (leads peer)

namespace Peers

variable {peer : Nat → Nat → Bool} {n : Nat}

theorem groupNumber_mono (peer : Nat → Nat → Bool) {a b : Nat} (le : a ≤ b) :
    groupNumber peer a ≤ groupNumber peer b := by
  induction le with
  | refl => exact Nat.le_refl _
  | step _ ih => exact Nat.le_trans ih (Nat.le_add_right _ _)

variable {p : Nat}

theorem leads_succ_iff (peers : Peers peer n) (within : p + 1 < n) :
    leads peer (p + 1) = true ↔ peer p (p + 1) = false := by
  unfold leads
  rw [List.all_eq_true]
  constructor
  · intro none'
    simpa using none' p (List.mem_range.mpr (Nat.lt_succ_self p))
  · intro apart r inRange
    have below : r ≤ p := Nat.le_of_lt_succ (List.mem_range.mp inRange)
    rw [Bool.not_eq_true']
    apply Bool.eq_false_iff.mpr
    intro isPeer
    have first := peers.between below (Nat.le_succ p) within isPeer
    have again := peers.trans (by omega) (by omega) within
      (peers.symm (by omega) (by omega) first) isPeer
    rw [apart] at again
    cases again

theorem groupsUpTo_eq (peers : Peers peer n) (within : p < n) :
    groupsUpTo peer p = groupNumber peer p + 1 := by
  induction p with
  | zero => rfl
  | succ p ih =>
    unfold groupsUpTo at ih ⊢
    rw [List.range_succ, List.countP_append, ih (by omega), List.countP_singleton, groupNumber]
    cases isPeer : peer p (p + 1) with
    | false =>
      rw [(peers.leads_succ_iff within).mpr isPeer]
      simp
    | true =>
      have follows : leads peer (p + 1) ≠ true := by
        intro isLeader
        rw [(peers.leads_succ_iff within).mp isLeader] at isPeer
        cases isPeer
      rw [if_neg follows]
      simp

theorem peer_iff (peers : Peers peer n) {a b : Nat} (le : a ≤ b) (within : b < n) :
    peer a b = true ↔ groupNumber peer a = groupNumber peer b := by
  induction le with
  | refl => exact iff_of_true (peers.refl within) rfl
  | @step b le ih =>
    have inside : a < n ∧ b < n := ⟨Nat.lt_of_le_of_lt le (by omega), by omega⟩
    have before := ih inside.2
    have mono := groupNumber_mono peer le
    rw [groupNumber]
    constructor
    · intro isPeer
      have first : peer a b = true := peers.between le (Nat.le_succ b) within isPeer
      have next := peers.trans inside.2 inside.1 within (peers.symm inside.1 inside.2 first) isPeer
      rw [next, if_pos rfl]
      exact before.mp first
    · intro same
      cases next : peer b (b + 1) with
      | false =>
        rw [next, if_neg Bool.false_ne_true] at same
        omega
      | true =>
        rw [next, if_pos rfl] at same
        exact peers.trans inside.1 inside.2 within (before.mpr same) next

theorem scanPeers_spec (peers : Peers peer n) (fuel : Nat) {e : Nat} (after : p < e)
    (upTo : e ≤ n) (enough : n ≤ e + fuel) (before : ∀ q, p ≤ q → q < e → peer p q = true) :
    p < scanPeers peer n p fuel e ∧ scanPeers peer n p fuel e ≤ n ∧
      ∀ q, p ≤ q → q < n → (q < scanPeers peer n p fuel e ↔ peer p q = true) := by
  induction fuel generalizing e with
  | zero =>
    obtain rfl : e = n := by omega
    exact ⟨after, Nat.le_refl _, fun q low high => iff_of_true high (before q low high)⟩
  | succ fuel ih =>
    unfold scanPeers
    split
    next goesOn =>
      simp only [Bool.and_eq_true, decide_eq_true_eq] at goesOn
      apply ih (by omega) (by omega) (by omega)
      intro q low high
      rcases Nat.lt_succ_iff_lt_or_eq.mp high with earlier | rfl
      · exact before q low earlier
      · exact goesOn.2
    next stops =>
      refine ⟨after, upTo, ?_⟩
      intro q low high
      constructor
      · exact before q low
      · intro isPeer
        apply Nat.lt_of_not_le
        intro beyond
        have atEnd := peers.between (by omega) beyond high isPeer
        apply stops
        simp only [Bool.and_eq_true, decide_eq_true_eq]
        exact ⟨by omega, atEnd⟩

theorem peerEnd_spec (peers : Peers peer n) (within : p < n) :
    p < peerEnd peer n p ∧ peerEnd peer n p ≤ n ∧
      ∀ q, p ≤ q → q < n → (q < peerEnd peer n p ↔ peer p q = true) := by
  apply peers.scanPeers_spec n (Nat.lt_succ_self p) within (by omega)
  intro q low high
  obtain rfl : q = p := by omega
  exact peers.refl within

/-- The class at index `k`, from a first one with number `first`. -/
structure Numbered (peer : Nat → Nat → Bool) (n first : Nat) (groups : List (Nat × Nat)) : Prop where
  member : ∀ (k : Nat) bounds, groups[k]? = some bounds → bounds.1 < bounds.2 ∧ bounds.2 ≤ n ∧
    ∀ q, q < n → (bounds.1 ≤ q ↔ first + k ≤ groupNumber peer q) ∧
      (q < bounds.2 ↔ groupNumber peer q ≤ first + k)
  length : ∀ q, q < n → groupNumber peer q < first + groups.length
  reached : 0 < groups.length → ∃ q, q < n ∧ groupNumber peer q + 1 = first + groups.length

theorem groupsFrom_numbered (peers : Peers peer n) (fuel : Nat) {i : Nat} (upTo : i ≤ n)
    (enough : n ≤ i + fuel) {first : Nat}
    (starts : ∀ q, q < n → (i ≤ q ↔ first ≤ groupNumber peer q)) (begins : i < n →
      groupNumber peer i = first) : Numbered peer n first (groupsFrom peer n fuel i) := by
  induction fuel generalizing i first with
  | zero =>
    obtain rfl : i = n := by omega
    constructor
    · intro k bounds found
      cases found
    · intro q within
      have below := (starts q within).not.mp (by omega)
      simpa [groupsFrom] using Nat.lt_of_not_le below
    · intro some'
      cases some'
  | succ fuel ih =>
    unfold groupsFrom
    split
    next within =>
      obtain ⟨after, high, ends⟩ := peers.peerEnd_spec within
      have isFirst := begins within
      -- The class ends where the next number begins.
      have isNext : ∀ q, q < n → (q < peerEnd peer n i ↔ groupNumber peer q ≤ first) := by
        intro q inside
        by_cases low : i ≤ q
        · have mono := groupNumber_mono peer low
          rw [ends q low inside, peers.peer_iff low inside]
          omega
        · have mono := groupNumber_mono peer (Nat.le_of_not_le low)
          apply iff_of_true
          · omega
          · omega
      have later : Numbered peer n (first + 1) (groupsFrom peer n fuel (peerEnd peer n i)) := by
        apply ih high (by omega)
        · intro q inside
          have split' := (isNext q inside).not
          omega
        · intro inside
          have above := (isNext _ inside).not.mp (Nat.lt_irrefl _)
          obtain ⟨e, isEnd⟩ : ∃ e, peerEnd peer n i = e + 1 := ⟨peerEnd peer n i - 1, by omega⟩
          have last := (isNext e (by omega)).mp (by omega)
          rw [isEnd, groupNumber] at above ⊢
          by_cases isPeer : peer e (e + 1) = true
          · rw [if_pos isPeer] at above
            omega
          · rw [if_neg isPeer] at above ⊢
            omega
      constructor
      · intro k bounds found
        cases k with
        | zero =>
          cases found
          refine ⟨after, high, ?_⟩
          intro q inside
          exact ⟨starts q inside, isNext q inside⟩
        | succ k =>
          have tail := later.member k bounds found
          refine ⟨tail.1, tail.2.1, ?_⟩
          intro q inside
          have here := tail.2.2 q inside
          rw [Nat.add_right_comm] at here
          exact here
      · intro q inside
        have bound := later.length q inside
        rw [List.length_cons]
        omega
      · intro _
        rw [List.length_cons]
        cases none' : groupsFrom peer n fuel (peerEnd peer n i) with
        | nil => exact ⟨i, within, by rw [isFirst]; rfl⟩
        | cons bounds rest =>
          obtain ⟨q, inside, last⟩ := later.reached (by rw [none']; exact Nat.succ_pos _)
          rw [none'] at last
          exact ⟨q, inside, by rw [last]; omega⟩
    next outside =>
      obtain rfl : i = n := by omega
      constructor
      · intro k bounds found
        cases found
      · intro q inside
        have below := (starts q inside).not.mp (by omega)
        simpa using Nat.lt_of_not_le below
      · intro some'
        cases some'

theorem groups_numbered (peers : Peers peer n) : Numbered peer n 0 (groupsFrom peer n n 0) := by
  apply peers.groupsFrom_numbered n (Nat.zero_le n) (by omega)
  · intro q _
    omega
  · intro _
    rfl

end Peers

end NoidaDb.Lib
