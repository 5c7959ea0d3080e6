/-
Ranks, peer groups and buckets of a sorted partition.
-/

import NoidaDb.Lib.Buckets
import NoidaDb.Postgres.Windows

namespace NoidaDb.Postgres.Windows

open PgValue
open NoidaDb.Lib

/-- The rows strictly before the peer group of `p`. -/
def rowsBefore (peer : Nat → Nat → Bool) (p : Nat) : Nat :=
  (List.range p).countP (fun q => !peer q p)

/-- The rows up to the end of the peer group of `p`. -/
def rowsUpTo (peer : Nat → Nat → Bool) (n p : Nat) : Nat :=
  (List.range n).countP (fun q => decide (q ≤ p) || peer p q)

section Ranks

variable {peer : Nat → Nat → Bool} {n : Nat}

variable {p : Nat}

theorem rowsBefore_succ (peers : Peers peer n) (within : p + 1 < n) :
    rowsBefore peer (p + 1) = if peer p (p + 1) then rowsBefore peer p else p + 1 := by
  unfold rowsBefore
  split
  next isPeer =>
    rw [List.range_succ, List.countP_append, List.countP_singleton, isPeer]
    have same : (List.range p).countP (fun q => !peer q (p + 1)) =
        (List.range p).countP (fun q => !peer q p) := by
      apply List.countP_congr
      intro q member
      have below : q < p := List.mem_range.mp member
      have alike : peer q (p + 1) = peer q p := by
        rw [Bool.eq_iff_iff]
        constructor
        · exact fun far => peers.between (Nat.le_of_lt below) (Nat.le_succ p) within far
        · exact fun near => peers.trans (by omega) (by omega) within near isPeer
      rw [alike]
    rw [same]
    rfl
  next apart =>
    -- A peer before `p` would make `p` a peer as well.
    have none' : ∀ q, q ∈ List.range (p + 1) → (!peer q (p + 1)) = true := by
      intro q member
      have below : q ≤ p := Nat.le_of_lt_succ (List.mem_range.mp member)
      rw [Bool.not_eq_true']
      apply Bool.eq_false_iff.mpr
      intro isPeer
      have near := peers.between below (Nat.le_succ p) within isPeer
      exact apart (peers.trans (by omega) (by omega) within
        (peers.symm (by omega) (by omega) near) isPeer)
    rw [List.countP_eq_length.mpr none', List.length_range]

theorem ranksAt_eq (peers : Peers peer n) (within : p < n) :
    ranksAt peer p = (((rowsBefore peer p + 1 : Nat) : Int), ((groupsUpTo peer p : Nat) : Int)) := by
  rw [peers.groupsUpTo_eq within]
  induction p with
  | zero => rfl
  | succ p ih =>
    have before := ih (by omega)
    simp only [ranksAt, before, groupNumber, rowsBefore_succ peers within]
    split
    · rw [Nat.add_zero]
    · simp only [Prod.mk.injEq]
      omega

theorem rowsUpTo_eq (peers : Peers peer n) (within : p < n) :
    rowsUpTo peer n p = peerEnd peer n p := by
  obtain ⟨after, upTo, ends⟩ := peers.peerEnd_spec within
  apply countP_range_lt upTo
  intro q inside
  rw [Bool.or_eq_true, decide_eq_true_eq]
  by_cases low : p ≤ q
  · rw [ends q low inside]
    constructor
    · rintro (le | isPeer)
      · obtain rfl : q = p := by omega
        exact peers.refl within
      · exact isPeer
    · exact Or.inr
  · apply iff_of_true
    · exact Or.inl (by omega)
    · omega

end Ranks

section Buckets

theorem wrap64_of_lt {x : Int} (low : 0 ≤ x) (high : x < 2 ^ 63) : wrap64 x = x := by
  unfold wrap64
  rw [Int.bmod_def]
  split <;> omega

theorem wrap64_of_ge {x : Int} (low : 2 ^ 63 ≤ x) (high : x < 2 ^ 64) : wrap64 x = x - 2 ^ 64 := by
  unfold wrap64
  rw [Int.bmod_def]
  split <;> omega

variable {n b : Nat}

theorem ntileAt_of_lt {p : Nat} (fits : p * b < 2 ^ 63) :
    ntileAt n b p = ((p * b / n + 1 : Nat) : Int) := by
  unfold ntileAt
  rw [wrap64_of_lt (by positivity) (by exact_mod_cast fits)]
  have cast : (p : Int) * b = ((p * b : Nat) : Int) := by push_cast; rfl
  rw [cast, ← Int.ofNat_tdiv]
  rfl

theorem ntileAt_of_ge {p : Nat} (small : n < 2 ^ 60) (positive : 0 < n) (low : 2 ^ 63 ≤ p * b)
    (high : p * b + 2 ^ 62 ≤ 2 ^ 64) : ntileAt n b p < 1 := by
  obtain ⟨y, isY⟩ : ∃ y : Nat, wrap64 ((p : Int) * b) = -(y : Int) ∧ 2 ^ 62 ≤ y := by
    refine ⟨2 ^ 64 - p * b, ?_, by omega⟩
    have cast : (p : Int) * b = ((p * b : Nat) : Int) := by push_cast; rfl
    rw [cast, wrap64_of_ge (by omega) (by omega)]
    omega
  unfold ntileAt
  rw [isY.1, Int.neg_tdiv, ← Int.ofNat_tdiv]
  have quotient : 1 ≤ y / n := (Nat.one_le_div_iff positive).mpr (by omega)
  omega

theorem ntileAt_even_iff (small : n < 2 ^ 60) (positive : 0 < n) (bPos : 0 < b) (bMax : b < 2 ^ 63) :
    EvenBuckets (ntileAt n b) n b ↔
      (n % b ≤ 1 ∨ n % b + 1 = b) ∧ (n - 1) * b < 2 ^ 63 := by
  by_cases fits : (n - 1) * b < 2 ^ 63
  · have same : ∀ p, p < n → ntileAt n b p = ((p * b / n + 1 : Nat) : Int) := by
      intro p within
      apply ntileAt_of_lt
      have le : p * b ≤ (n - 1) * b := Nat.mul_le_mul_right b (by omega)
      omega
    rw [EvenBuckets.congr_iff same, evenBuckets_div_iff positive bPos]
    exact (and_iff_left fits).symm
  · apply iff_of_false _ (fun both => fits both.2)
    intro even
    rcases Nat.lt_or_ge (2 ^ 62) b with large | moderate
    · -- Already the second row is too far on.
      have second : ntileAt n b 1 = ((1 * b / n + 1 : Nat) : Int) := ntileAt_of_lt (by omega)
      have two : 1 < n := by
        by_contra one
        obtain rfl : n = 1 := by omega
        simp at fits
      have upTo := even.upTo (k := 2) (by omega)
      rw [Nat.div_eq_of_lt (by omega), Nat.mod_eq_of_lt (by omega)] at upTo
      have first := (first_of_countP_range (n := n)
        (fun p => decide (ntileAt n b p ≤ (2 : Nat))) (by
          intro p within passed
          rw [decide_eq_true_eq] at passed ⊢
          exact Int.le_trans (even.mono p (p + 1) (Nat.le_succ p) within) passed) 1 two).mpr (by
        show 1 < bucketsUpTo (ntileAt n b) n 2
        rw [upTo]
        omega)
      rw [decide_eq_true_eq, second, Nat.one_mul] at first
      have far : 4 ≤ b / n := (Nat.le_div_iff_mul_le positive).mpr (by omega)
      omega
    · obtain ⟨p, within, low, high⟩ : ∃ p, p < n ∧ 2 ^ 63 ≤ p * b ∧ p * b < 2 ^ 63 + b := by
        have whole := Nat.div_add_mod (2 ^ 63 + b - 1) b
        have rest := Nat.mod_lt (2 ^ 63 + b - 1) bPos
        rw [Nat.mul_comm] at whole
        refine ⟨(2 ^ 63 + b - 1) / b, ?_, by omega, by omega⟩
        by_contra beyond
        have le : n * b ≤ (2 ^ 63 + b - 1) / b * b := Nat.mul_le_mul_right b (by omega)
        have less : (n - 1) * b + b = n * b := by
          rw [← Nat.succ_mul]
          congr 1
          omega
        omega
      have below := ntileAt_of_ge small positive low (by omega)
      have above := (even.within p within).1
      omega

end Buckets

section Ranking

variable {V : Type} [PgValue V]

/-- The ranking functions are what they should be, and `ntile`'s buckets are just where the remainder
is 0, 1 or one less than their number, and no product overflows. -/
theorem computeWindow_ranking (part : Partition V) (fractions : Fractions V)
    (frame : Option (Frame V)) :
    computeWindow fractions { func := .rowNumber, order := part.order, frame := frame } part.rows =
      .ok ((List.range part.rows.length).map (fun p => ofInt (p + 1 : Nat))) ∧
    computeWindow fractions { func := .rank, order := part.order, frame := frame } part.rows =
      .ok ((List.range part.rows.length).map (fun p => ofInt (rowsBefore part.peer p + 1 : Nat))) ∧
    computeWindow fractions { func := .denseRank, order := part.order, frame := frame } part.rows =
      .ok ((List.range part.rows.length).map (fun p => ofInt (groupsUpTo part.peer p : Nat))) ∧
    computeWindow fractions { func := .cumeDist, order := part.order, frame := frame } part.rows =
      .ok ((List.range part.rows.length).map (fun p =>
        fractions.ratio (rowsUpTo part.peer part.rows.length p) part.rows.length)) ∧
    ∀ (buckets : RowExpr V Offset) (b : Nat), 0 < part.rows.length →
      buckets (rowAt part.rows 0) = .ok (.int b) → 1 ≤ b → b < 2 ^ 63 →
      computeWindow fractions { func := .ntile buckets, order := part.order, frame := frame }
        part.rows = .ok ((List.range part.rows.length).map (fun p =>
          ofInt (ntileAt part.rows.length b p))) ∧
      (EvenBuckets (ntileAt part.rows.length b) part.rows.length b ↔
        (part.rows.length % b ≤ 1 ∨ part.rows.length % b + 1 = b) ∧
          (part.rows.length - 1) * b < 2 ^ 63) := by
  have peers := part.peers
  refine ⟨?_, ?_, ?_, ?_, ?_⟩
  · apply part.computeWindow_ok fractions _ rfl
    intro p _
    rfl
  · apply part.computeWindow_ok fractions _ rfl
    intro p within
    show Except.ok (ofInt (ranksAt part.peer p).1) = _
    rw [ranksAt_eq peers within]
  · apply part.computeWindow_ok fractions _ rfl
    intro p within
    show Except.ok (ofInt (ranksAt part.peer p).2) = _
    rw [ranksAt_eq peers within]
  · apply part.computeWindow_ok fractions _ rfl
    intro p within
    rw [rowsUpTo_eq peers within]
    rfl
  · intro buckets b positive isInt low high
    constructor
    · apply part.computeWindow_ok fractions _ rfl
      intro p _
      have isB : bucketsOf (.int b) = b := max_eq_left (by omega)
      show (do
        let v ← buckets (rowAt part.rows 0)
        pure (ofInt (ntileAt part.rows.length (bucketsOf v) p)) : PgResult V) = _
      rw [isInt]
      show Except.ok (ofInt (ntileAt part.rows.length (bucketsOf (.int b)) p)) = _
      rw [isB]
    · apply ntileAt_even_iff _ positive low high
      rw [part.rows_length]
      exact part.small

end Ranking

/-- `ORDER BY` the first column. -/
def byFirst : List (OrderKey Scalar) := [{ expr := fun row => .ok (row.headD .null) }]

def isInt : Scalar → Prop := fun v => ∃ i, v = .int i

theorem byFirst_orderable : Orderable byFirst [isInt] := by
  constructor
  · rfl
  · intro S member
    obtain rfl := List.mem_singleton.mp member
    apply PreorderOn.of_key compare
      (fun v => @Scalar.casesOn (fun _ => Int) v 0 (fun _ => 0) id (fun _ => 0))
    rintro a b ⟨i, rfl⟩ ⟨j, rfl⟩
    rfl
  · intro a b isA isB
    rw [show a = .null from eq_of_beq isA, show b = .null from eq_of_beq isB]
    rfl

def intPartition (ints : List Int) (small : ints.length < 2 ^ 60) : Partition Scalar where
  order := byFirst
  types := [isInt]
  orderable := byFirst_orderable
  keyed := ints.map (fun i => ([.int i], [.int i]))
  evaluated := by
    intro entry member
    obtain ⟨i, _, rfl⟩ := List.mem_map.mp member
    rfl
  typed := by
    intro entry member
    obtain ⟨i, _, rfl⟩ := List.mem_map.mp member
    exact .cons ⟨i, rfl⟩ .nil
  small := by rwa [List.length_map]

def intRatios : Fractions Scalar := { ratio := fun a b => .int (1000 * a / b) }

theorem computeWindow_ranking_three :
    EvenBuckets (ntileAt 3 2) 3 2 ∧
      computeWindow intRatios { func := .rank, order := byFirst }
        (intPartition [20, 10, 10] (by decide)).rows =
          .ok ((List.range 3).map (fun p => .int
            (rowsBefore (intPartition [20, 10, 10] (by decide)).peer p + 1 : Nat))) := by
  have ranking := computeWindow_ranking (intPartition [20, 10, 10] (by decide)) intRatios none
  have length : (intPartition [20, 10, 10] (by decide)).rows.length = 3 := Partition.rows_length _
  rw [length] at ranking
  refine ⟨?_, ranking.2.1⟩
  have buckets := ranking.2.2.2.2 (fun _ => .ok (.int 2)) 2 (by decide) rfl (by decide) (by decide)
  exact buckets.2.mpr ⟨Or.inl (by decide), by decide⟩

/-- `ntile(5)` of eight rows: the third bucket has one row, and the fourth has two. -/
theorem ntile_uneven :
    ∃ out : List Int,
      computeWindow intRatios { func := .ntile (fun _ => .ok (.int 5)), order := byFirst }
        ((List.range 8).map (fun i => [Scalar.int i])) = .ok (out.map Scalar.int) ∧
      out.length = 8 ∧ ¬ EvenBuckets (fun p => out.getD p 0) 8 5 := by
  refine ⟨[1, 1, 2, 2, 3, 4, 4, 5], rfl, rfl, ?_⟩
  intro even
  have third := even.ordered 3 (by decide) (by decide)
  revert third
  decide

end NoidaDb.Postgres.Windows
