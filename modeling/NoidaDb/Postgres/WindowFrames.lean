/-
ROWS and GROUPS frames against the rows that SQL puts in them, and what is read there.
-/

import NoidaDb.Postgres.Ranking

namespace NoidaDb.Postgres.Windows

open PgValue
open NoidaDb.Lib

inductive Bound where
  | unboundedPreceding
  | preceding (k : Nat)
  | currentRow
  | following (k : Nat)
  | unboundedFollowing
deriving Repr, DecidableEq

namespace Bound

/-- `j` is not before the bound, for the row with number `i`. -/
def AfterStart : Bound → Int → Int → Prop
  | .unboundedPreceding, _, _ => True
  | .preceding k, i, j => i - k ≤ j
  | .currentRow, i, j => i ≤ j
  | .following k, i, j => i + k ≤ j
  | .unboundedFollowing, _, _ => False

/-- `j` is not after the bound. -/
def BeforeEnd : Bound → Int → Int → Prop
  | .unboundedFollowing, _, _ => True
  | .following k, i, j => j ≤ i + k
  | .currentRow, i, j => j ≤ i
  | .preceding k, i, j => j ≤ i - k
  | .unboundedPreceding, _, _ => False

instance (b : Bound) (i j : Int) : Decidable (b.AfterStart i j) := by
  cases b <;> unfold AfterStart <;> infer_instance

instance (b : Bound) (i j : Int) : Decidable (b.BeforeEnd i j) := by
  cases b <;> unfold BeforeEnd <;> infer_instance

def Small : Bound → Prop
  | .preceding k => k < 2 ^ 63
  | .following k => k < 2 ^ 63
  | _ => True

/-- The sum of the number `g` and the offset of FOLLOWING is none. -/
def Overflows (g : Nat) : Bound → Prop
  | .following k => 2 ^ 63 ≤ g + k
  | _ => False

end Bound

section Frames

variable {V : Type} [PgValue V]

def FrameBound.resolve (row : Row V) : FrameBound V → PgResult Bound
  | .unboundedPreceding => .ok .unboundedPreceding
  | .preceding e => do
      let k ← countAt e row
      pure (.preceding k)
  | .currentRow => .ok .currentRow
  | .following e => do
      let k ← countAt e row
      pure (.following k)
  | .unboundedFollowing => .ok .unboundedFollowing

def numberOf (groups : Bool) (peer : Nat → Nat → Bool) (q : Nat) : Int :=
  if groups then groupsUpTo peer q else q

/-- The frame of the row at `p`, in order. -/
def framePositions (groups : Bool) (peer : Nat → Nat → Bool) (n : Nat) (start stop : Bound) (p : Nat) :
    List Nat :=
  (List.range n).filter (fun q =>
    decide (start.AfterStart (numberOf groups peer p) (numberOf groups peer q)) &&
      decide (stop.BeforeEnd (numberOf groups peer p) (numberOf groups peer q)))

/-- The frame of a row is exactly what SQL says, and so is what is read in it. -/
structure FrameExact (part : Partition V) (fractions : Fractions V) (f : Frame V) (start stop : Bound)
    (p : Nat) : Prop where
  positions : ∃ bounds,
    frameBounds { func := .rowNumber, order := part.order, frame := some f } p part.rows.length
      (rowAt part.rows p) part.keys = .ok bounds ∧
    ∀ q, (bounds.1 ≤ q ∧ q < bounds.2) ↔
      q ∈ framePositions f.groups part.peer part.rows.length start stop p
  aggregate : ∀ agg : List (Row V) → PgResult V,
    windowAt fractions { func := .aggregate agg, order := part.order, frame := some f }
      part.rows part.keys p =
      agg ((framePositions f.groups part.peer part.rows.length start stop p).map (rowAt part.rows))
  firstValue : ∀ arg : RowExpr V V,
    windowAt fractions { func := .firstValue arg, order := part.order, frame := some f }
      part.rows part.keys p =
      readPick arg part.rows (framePositions f.groups part.peer part.rows.length start stop p).head?
  lastValue : ∀ arg : RowExpr V V,
    windowAt fractions { func := .lastValue arg, order := part.order, frame := some f }
      part.rows part.keys p =
      readPick arg part.rows
        (framePositions f.groups part.peer part.rows.length start stop p).getLast?
  nthValue : ∀ (arg : RowExpr V V) (nth : RowExpr V Offset) (k : Nat), 1 ≤ k →
    nth (rowAt part.rows p) = .ok (.int k) →
    windowAt fractions { func := .nthValue arg nth, order := part.order, frame := some f }
      part.rows part.keys p =
      readPick arg part.rows
        (framePositions f.groups part.peer part.rows.length start stop p)[k - 1]?

/-- The sums of GROUPS offsets are 64-bit integers, or the other bound leaves no row anyway. -/
def OffsetsFit (groups : Bool) (peer : Nat → Nat → Bool) (n : Nat) (start stop : Bound) (p : Nat) :
    Prop :=
  groups = true →
    (start.Overflows (groupNumber peer p) →
      ∀ q, q < n → ¬ stop.BeforeEnd (numberOf groups peer p) (numberOf groups peer q)) ∧
    (stop.Overflows (groupNumber peer p) →
      ∀ q, q < n → ¬ start.AfterStart (numberOf groups peer p) (numberOf groups peer q))

def LastFits (groups : Bool) (peer : Nat → Nat → Bool) (n : Nat) (start stop : Bound) (p : Nat) : Prop :=
  framePositions groups peer n start stop p ≠ [] ∨
    ∀ q, q < n → ¬ stop.BeforeEnd (numberOf groups peer p) (numberOf groups peer q)

end Frames

section Bounds

/-- The positions from `bounds.1` up to `bounds.2` are the frame, and there is none before its end
just where the second is 0. -/
structure RightBounds (n : Nat) (after before : Nat → Prop) (bounds : Nat × Nat) : Prop where
  upTo : bounds.2 ≤ n
  positions : ∀ q, (bounds.1 ≤ q ∧ q < bounds.2) ↔ q < n ∧ after q ∧ before q
  none_iff : bounds.2 = 0 ↔ ∀ q, q < n → ¬ before q

theorem rightBounds_of_each {n : Nat} {after before : Nat → Prop} {bounds : Nat × Nat}
    (upTo : bounds.2 ≤ n) (starts : ∀ q, q < n → (bounds.1 ≤ q ↔ after q))
    (stops : ∀ q, q < n → (q < bounds.2 ↔ before q)) : RightBounds n after before bounds := by
  constructor
  · exact upTo
  · intro q
    constructor
    · intro inside
      have within : q < n := by omega
      exact ⟨within, (starts q within).mp inside.1, (stops q within).mp inside.2⟩
    · intro inside
      exact ⟨(starts q inside.1).mpr inside.2.1, (stops q inside.1).mpr inside.2.2⟩
  · constructor
    · intro zero q within isBefore
      have below := (stops q within).mpr isBefore
      omega
    · intro none'
      by_contra some'
      exact none' 0 (by omega) ((stops 0 (by omega)).mp (by omega))

end Bounds

section Rows

variable {V : Type} {row : Row V} {n p : Nat}

theorem rowsStart_eq {b : FrameBound V} {start : Bound} (resolved : b.resolve row = .ok start) :
    ∃ s, rowsStart n p row b = .ok s ∧ ∀ q : Nat, q < n → (min s n ≤ q ↔ start.AfterStart p q) := by
  cases b with
  | unboundedPreceding =>
    cases resolved
    exact ⟨0, rfl, fun q _ => iff_of_true (by omega) trivial⟩
  | preceding e =>
    obtain ⟨k, counted, isStart⟩ := bind_eq_ok resolved
    cases isStart
    refine ⟨p - k, by rw [rowsStart, counted]; rfl, ?_⟩
    intro q _
    show _ ↔ (p : Int) - k ≤ q
    omega
  | currentRow =>
    cases resolved
    refine ⟨p, rfl, ?_⟩
    intro q _
    show _ ↔ (p : Int) ≤ q
    omega
  | following e =>
    obtain ⟨k, counted, isStart⟩ := bind_eq_ok resolved
    cases isStart
    refine ⟨p + k, by rw [rowsStart, counted]; rfl, ?_⟩
    intro q _
    show _ ↔ (p : Int) + k ≤ q
    omega
  | unboundedFollowing =>
    cases resolved
    refine ⟨n, rfl, ?_⟩
    intro q _
    exact iff_of_false (by omega) id

theorem rowsStop_eq {b : FrameBound V} {stop : Bound} (resolved : b.resolve row = .ok stop) :
    ∃ s, rowsStop n p row b = .ok s ∧ ∀ q : Nat, q < n → (q < min s n ↔ stop.BeforeEnd p q) := by
  cases b with
  | unboundedPreceding =>
    cases resolved
    exact ⟨0, rfl, fun q _ => iff_of_false (by omega) id⟩
  | preceding e =>
    obtain ⟨k, counted, isStop⟩ := bind_eq_ok resolved
    cases isStop
    refine ⟨p + 1 - k, by rw [rowsStop, counted]; rfl, ?_⟩
    intro q _
    show _ ↔ (q : Int) ≤ p - k
    omega
  | currentRow =>
    cases resolved
    refine ⟨p + 1, rfl, ?_⟩
    intro q _
    show _ ↔ (q : Int) ≤ p
    omega
  | following e =>
    obtain ⟨k, counted, isStop⟩ := bind_eq_ok resolved
    cases isStop
    refine ⟨min (p + k + 1) n, by rw [rowsStop, counted]; rfl, ?_⟩
    intro q _
    show _ ↔ (q : Int) ≤ p + k
    omega
  | unboundedFollowing =>
    cases resolved
    refine ⟨n, rfl, ?_⟩
    intro q _
    exact iff_of_true (by omega) trivial

theorem rowsBounds_right {f : Frame V} {start stop : Bound}
    (isStart : f.start.resolve row = .ok start) (isStop : f.stop.resolve row = .ok stop) :
    ∃ bounds, rowsBounds f n p row = .ok bounds ∧
      RightBounds n (fun q => start.AfterStart p q) (fun q => stop.BeforeEnd p q) bounds := by
  obtain ⟨s, ranStart, starts⟩ := rowsStart_eq (n := n) (p := p) isStart
  obtain ⟨e, ranStop, stops⟩ := rowsStop_eq (n := n) (p := p) isStop
  refine ⟨(min s n, min e n), ?_, rightBounds_of_each (Nat.min_le_right e n) starts stops⟩
  unfold rowsBounds
  rw [ranStart, ranStop]
  rfl

end Rows

section Groups

variable {V : Type} {row : Row V} {n p : Nat} {peer : Nat → Nat → Bool}
  {bounds : List (Nat × Nat)}

theorem groupOf_eq (numbered : Peers.Numbered peer n 0 bounds) (within : p < n) :
    groupOf bounds p = groupNumber peer p := by
  have below : groupNumber peer p < bounds.length := by
    have bound := numbered.length p within
    omega
  unfold groupOf
  rw [List.findIdx_eq below]
  have inside {k : Nat} (lt : k < bounds.length) :
      (bounds[k].1 ≤ p ∧ p < bounds[k].2) ↔ groupNumber peer p = k := by
    have member := (numbered.member k bounds[k] (List.getElem?_eq_getElem lt)).2.2 p within
    rw [member.1, member.2]
    omega
  constructor
  · rw [Bool.and_eq_true, decide_eq_true_eq, decide_eq_true_eq]
    exact (inside below).mpr rfl
  · intro k lt
    apply Bool.eq_false_iff.mpr
    rw [ne_eq, Bool.and_eq_true, decide_eq_true_eq, decide_eq_true_eq]
    intro both
    have same := (inside (Nat.lt_trans lt below)).mp both
    omega

theorem groupAt_spec (numbered : Peers.Numbered peer n 0 bounds) {k : Int} (low : 0 ≤ k)
    (high : k < bounds.length) : (groupAt bounds k).1 < (groupAt bounds k).2 ∧
      (groupAt bounds k).2 ≤ n ∧ ∀ q, q < n →
        ((groupAt bounds k).1 ≤ q ↔ k ≤ groupNumber peer q) ∧
          (q < (groupAt bounds k).2 ↔ groupNumber peer q ≤ k) := by
  obtain ⟨j, rfl⟩ := Int.eq_ofNat_of_zero_le low
  have below : j < bounds.length := by omega
  have index : (max 0 (min (j : Int) (bounds.length - 1))).toNat = j := by omega
  have isAt : groupAt bounds j = bounds[j] := by
    unfold groupAt
    rw [index, List.getD_eq_getElem?_getD, List.getElem?_eq_getElem below, Option.getD_some]
  rw [isAt]
  have member := numbered.member j bounds[j] (List.getElem?_eq_getElem below)
  refine ⟨member.1, member.2.1, ?_⟩
  intro q within
  have here := member.2.2 q within
  rw [here.1, here.2]
  omega

theorem groupAt_neg {k : Int} (negative : k ≤ 0) : groupAt bounds k = groupAt bounds 0 := by
  unfold groupAt
  congr 1
  omega

theorem groupNumber_le (peer : Nat → Nat → Bool) (q : Nat) : groupNumber peer q ≤ q := by
  induction q with
  | zero => exact Nat.le_refl 0
  | succ q ih =>
    rw [groupNumber]
    split <;> omega

variable (numbered : Peers.Numbered peer n 0 bounds) (peers : Peers peer n) (within : p < n)
  (small : n < 2 ^ 60)
include numbered peers within small

theorem groupsStart_eq {b : FrameBound V} {start : Bound} (resolved : b.resolve row = .ok start)
    (isSmall : start.Small) :
    ∃ s, groupsStart bounds n (groupOf bounds p) row b = .ok s ∧
      (¬ start.Overflows (groupNumber peer p) → ∀ q, q < n →
        (s ≤ q ↔ start.AfterStart (numberOf true peer p) (numberOf true peer q))) ∧
      (start.Overflows (groupNumber peer p) → s = 0 ∧ ∀ q, q < n →
        ¬ start.AfterStart (numberOf true peer p) (numberOf true peer q)) := by
  have isNumber : ∀ q, q < n → numberOf true peer q = groupNumber peer q + 1 := by
    intro q inside
    show ((groupsUpTo peer q : Nat) : Int) = _
    rw [peers.groupsUpTo_eq inside]
    rfl
  have isLast : ∀ q, q < n → groupNumber peer q < bounds.length := by
    intro q inside
    have below := numbered.length q inside
    omega
  have least := groupNumber_le peer p
  have own := isLast p within
  rw [isNumber p within, groupOf_eq numbered within]
  cases b with
  | unboundedPreceding =>
    cases resolved
    exact ⟨0, rfl, fun _ q _ => iff_of_true (Nat.zero_le q) trivial, False.elim⟩
  | preceding e =>
    obtain ⟨k, counted, isStart⟩ := bind_eq_ok resolved
    cases isStart
    refine ⟨_, by rw [groupsStart, counted]; rfl, fun _ q inside => ?_, False.elim⟩
    have spec := groupAt_spec numbered (k := max ((groupNumber peer p : Int) - k) 0) (by omega)
      (by omega)
    rw [(spec.2.2 q inside).1, isNumber q inside]
    show _ ↔ (groupNumber peer p : Int) + 1 - k ≤ groupNumber peer q + 1
    omega
  | currentRow =>
    cases resolved
    refine ⟨_, rfl, fun _ q inside => ?_, False.elim⟩
    have spec := groupAt_spec numbered (k := groupNumber peer p) (by omega) (by omega)
    rw [(spec.2.2 q inside).1, isNumber q inside]
    show _ ↔ (groupNumber peer p : Int) + 1 ≤ groupNumber peer q + 1
    omega
  | following e =>
    obtain ⟨k, counted, isStart⟩ := bind_eq_ok resolved
    cases isStart
    have bound : k < 2 ^ 63 := isSmall
    refine ⟨_, by rw [groupsStart, counted]; rfl, ?_, ?_⟩
    · intro fits q inside
      have sum : groupNumber peer p + k < 2 ^ 63 := Nat.lt_of_not_le fits
      have below := isLast q inside
      rw [wrap64_of_lt (by omega) (by omega), isNumber q inside]
      show _ ↔ (groupNumber peer p : Int) + 1 + k ≤ groupNumber peer q + 1
      split
      · omega
      next upTo =>
        have spec := groupAt_spec numbered (k := (groupNumber peer p : Int) + k) (by omega)
          (by omega)
        rw [(spec.2.2 q inside).1]
        omega
    · intro overflows
      have sum : 2 ^ 63 ≤ groupNumber peer p + k := overflows
      rw [wrap64_of_ge (by omega) (by omega), if_neg (by omega), groupAt_neg (by omega)]
      have spec := groupAt_spec numbered (k := 0) (by omega) (by omega)
      constructor
      · have first := (spec.2.2 0 (by omega)).1.mpr (by omega)
        omega
      · intro q inside after
        rw [isNumber q inside] at after
        have after : (groupNumber peer p : Int) + 1 + k ≤ groupNumber peer q + 1 := after
        have most := groupNumber_le peer q
        omega
  | unboundedFollowing =>
    cases resolved
    exact ⟨n, rfl, fun _ q inside => iff_of_false (by omega) id, False.elim⟩

theorem groupsStop_eq {b : FrameBound V} {stop : Bound} (resolved : b.resolve row = .ok stop)
    (isSmall : stop.Small) :
    ∃ s, groupsStop bounds n (groupOf bounds p) row b = .ok s ∧ s ≤ n ∧
      (¬ stop.Overflows (groupNumber peer p) → ∀ q, q < n →
        (q < s ↔ stop.BeforeEnd (numberOf true peer p) (numberOf true peer q))) ∧
      (stop.Overflows (groupNumber peer p) → 0 < s ∧ s ≤ p ∧ ∀ q, q < n →
        stop.BeforeEnd (numberOf true peer p) (numberOf true peer q)) := by
  have isNumber : ∀ q, q < n → numberOf true peer q = groupNumber peer q + 1 := by
    intro q inside
    show ((groupsUpTo peer q : Nat) : Int) = _
    rw [peers.groupsUpTo_eq inside]
    rfl
  have isLast : ∀ q, q < n → groupNumber peer q < bounds.length := by
    intro q inside
    have below := numbered.length q inside
    omega
  have least := groupNumber_le peer p
  have own := isLast p within
  rw [isNumber p within, groupOf_eq numbered within]
  cases b with
  | unboundedPreceding =>
    cases resolved
    exact ⟨0, rfl, Nat.zero_le n, fun _ q _ => iff_of_false (by omega) id, False.elim⟩
  | preceding e =>
    obtain ⟨k, counted, isStop⟩ := bind_eq_ok resolved
    cases isStop
    refine ⟨_, by rw [groupsStop, counted]; rfl, ?_⟩
    split
    next before =>
      refine ⟨Nat.zero_le n, fun _ q inside => iff_of_false (by omega) ?_, False.elim⟩
      rw [isNumber q inside]
      show ¬ (groupNumber peer q : Int) + 1 ≤ groupNumber peer p + 1 - k
      omega
    next reached =>
      have spec := groupAt_spec numbered (k := (groupNumber peer p : Int) - k) (by omega) (by omega)
      refine ⟨spec.2.1, fun _ q inside => ?_, False.elim⟩
      rw [(spec.2.2 q inside).2, isNumber q inside]
      show _ ↔ (groupNumber peer q : Int) + 1 ≤ groupNumber peer p + 1 - k
      omega
  | currentRow =>
    cases resolved
    have spec := groupAt_spec numbered (k := groupNumber peer p) (by omega) (by omega)
    refine ⟨_, rfl, spec.2.1, fun _ q inside => ?_, False.elim⟩
    rw [(spec.2.2 q inside).2, isNumber q inside]
    show _ ↔ (groupNumber peer q : Int) + 1 ≤ groupNumber peer p + 1
    omega
  | following e =>
    obtain ⟨k, counted, isStop⟩ := bind_eq_ok resolved
    cases isStop
    have bound : k < 2 ^ 63 := isSmall
    refine ⟨_, by rw [groupsStop, counted]; rfl, ?_⟩
    by_cases overflows : 2 ^ 63 ≤ groupNumber peer p + k
    · -- The number wraps to one before all groups.
      rw [wrap64_of_ge (by omega) (by omega), groupAt_neg (by omega)]
      have spec := groupAt_spec numbered (k := 0) (by omega) (by omega)
      refine ⟨spec.2.1, fun fits => (fits overflows).elim, fun _ => ⟨by omega, ?_, ?_⟩⟩
      · apply Nat.le_of_not_lt
        rw [(spec.2.2 p within).2]
        omega
      · intro q inside
        rw [isNumber q inside]
        show (groupNumber peer q : Int) + 1 ≤ groupNumber peer p + 1 + k
        have most := groupNumber_le peer q
        omega
    · rw [wrap64_of_lt (by omega) (by omega)]
      have spec := groupAt_spec numbered
        (k := min ((groupNumber peer p : Int) + k) (bounds.length - 1)) (by omega) (by omega)
      refine ⟨spec.2.1, fun _ q inside => ?_, fun impossible => (overflows impossible).elim⟩
      have below := isLast q inside
      rw [(spec.2.2 q inside).2, isNumber q inside]
      show _ ↔ (groupNumber peer q : Int) + 1 ≤ groupNumber peer p + 1 + k
      omega
  | unboundedFollowing =>
    cases resolved
    exact ⟨n, rfl, Nat.le_refl n, fun _ q inside => iff_of_true inside trivial, False.elim⟩

end Groups

theorem Bound.AfterStart.mono {b : Bound} {i j j' : Int} (after : b.AfterStart i j) (le : j ≤ j') :
    b.AfterStart i j' := by
  cases b with
  | unboundedPreceding => trivial
  | preceding k => exact Int.le_trans after le
  | currentRow => exact Int.le_trans after le
  | following k => exact Int.le_trans after le
  | unboundedFollowing => exact after

section Exact

variable {V : Type} [PgValue V]

omit [PgValue V] in
theorem groupsBounds_spec {peer : Nat → Nat → Bool} {n p : Nat} (peers : Peers peer n) (within : p < n)
    (small : n < 2 ^ 60) {f : Frame V} {row : Row V} {start stop : Bound}
    (isStart : f.start.resolve row = .ok start) (isStop : f.stop.resolve row = .ok stop)
    (smallStart : start.Small) (smallStop : stop.Small) :
    ∃ bounds, groupsBounds peer f n p row = .ok bounds ∧
      (OffsetsFit true peer n start stop p → RightBounds n
        (fun q => start.AfterStart (numberOf true peer p) (numberOf true peer q))
        (fun q => stop.BeforeEnd (numberOf true peer p) (numberOf true peer q)) bounds) ∧
      ((∀ q, (bounds.1 ≤ q ∧ q < bounds.2) ↔ q < n ∧
        start.AfterStart (numberOf true peer p) (numberOf true peer q) ∧
        stop.BeforeEnd (numberOf true peer p) (numberOf true peer q)) →
          OffsetsFit true peer n start stop p) := by
  have numbered := peers.groups_numbered
  obtain ⟨s, ranStart, starts, early⟩ := groupsStart_eq numbered peers within small isStart smallStart
  obtain ⟨e, ranStop, upTo, stops, late⟩ := groupsStop_eq numbered peers within small isStop smallStop
  refine ⟨(s, e), ?_, ?_, ?_⟩
  · show (do
      let start ← groupsStart _ n _ row f.start
      let stop ← groupsStop _ n _ row f.stop
      pure (start, stop) : PgResult (Nat × Nat)) = _
    rw [ranStart, ranStop]
    rfl
  · intro fits
    have fits := fits rfl
    by_cases startOver : start.Overflows (groupNumber peer p)
    · have noneBefore := fits.1 startOver
      have stopFits : ¬ stop.Overflows (groupNumber peer p) :=
        fun tooLate => noneBefore p within ((late tooLate).2.2 p within)
      have noneAfter := (early startOver).2
      have isZero : e = 0 := by
        by_contra some'
        exact noneBefore 0 (by omega) ((stops stopFits 0 (by omega)).mp (by omega))
      constructor
      · exact upTo
      · intro q
        show s ≤ q ∧ q < e ↔ _
        apply iff_of_false
        · omega
        · exact fun inside => noneBefore q inside.1 inside.2.2
      · exact iff_of_true isZero noneBefore
    · by_cases stopOver : stop.Overflows (groupNumber peer p)
      · have noneAfter := fits.2 stopOver
        constructor
        · exact upTo
        · intro q
          show s ≤ q ∧ q < e ↔ _
          apply iff_of_false
          · intro inside
            have within' : q < n := by omega
            exact noneAfter q within' ((starts startOver q within').mp inside.1)
          · exact fun inside => noneAfter q inside.1 inside.2.1
        · apply iff_of_false
          · have positive := (late stopOver).1
            show e ≠ 0
            omega
          · exact fun none' => none' p within ((late stopOver).2.2 p within)
      · exact rightBounds_of_each upTo (starts startOver) (stops stopOver)
  · intro exact' _
    have first (some' : 0 < e) (zero : s = 0) :
        start.AfterStart (numberOf true peer p) (numberOf true peer 0) :=
      ((exact' 0).mp ⟨by omega, some'⟩).2.1
    constructor
    · intro startOver q inside isBefore
      obtain ⟨zero, noneAfter⟩ := early startOver
      have some' : 0 < e := by
        by_cases stopOver : stop.Overflows (groupNumber peer p)
        · exact (late stopOver).1
        · have below := (stops stopOver q inside).mpr isBefore
          omega
      exact noneAfter 0 (by omega) (first some' zero)
    · intro stopOver q inside isAfter
      obtain ⟨positive, low, all⟩ := late stopOver
      -- The first group is in the frame, and then so is the row itself, which is not before `e`.
      have own : start.AfterStart (numberOf true peer p) (numberOf true peer p) := by
        have shown := (exact' q).mpr ⟨inside, isAfter, all q inside⟩
        apply isAfter.mono
        show ((groupsUpTo peer q : Nat) : Int) ≤ (groupsUpTo peer p : Nat)
        rw [peers.groupsUpTo_eq inside, peers.groupsUpTo_eq within]
        have mono := Peers.groupNumber_mono peer (a := q) (b := p) (by
          have : q < e := shown.2
          omega)
        omega
      have shown := (exact' p).mpr ⟨within, own, all p within⟩
      have : p < e := shown.2
      omega

theorem frameBounds_spec (part : Partition V) {f : Frame V}
    (hasOrder : f.groups = true → part.order ≠ []) {p : Nat} (within : p < part.rows.length)
    {start stop : Bound} (isStart : f.start.resolve (rowAt part.rows p) = .ok start)
    (isStop : f.stop.resolve (rowAt part.rows p) = .ok stop) (smallStart : start.Small)
    (smallStop : stop.Small) :
    ∃ bounds, (∀ func, frameBounds { func := func, order := part.order, frame := some f } p
        part.rows.length (rowAt part.rows p) part.keys = .ok bounds) ∧
      (OffsetsFit f.groups part.peer part.rows.length start stop p → RightBounds part.rows.length
        (fun q => start.AfterStart (numberOf f.groups part.peer p) (numberOf f.groups part.peer q))
        (fun q => stop.BeforeEnd (numberOf f.groups part.peer p) (numberOf f.groups part.peer q))
        bounds) ∧
      ((∀ q, (bounds.1 ≤ q ∧ q < bounds.2) ↔ q < part.rows.length ∧
        start.AfterStart (numberOf f.groups part.peer p) (numberOf f.groups part.peer q) ∧
        stop.BeforeEnd (numberOf f.groups part.peer p) (numberOf f.groups part.peer q)) →
          OffsetsFit f.groups part.peer part.rows.length start stop p) := by
  cases isGroups : f.groups with
  | false =>
    obtain ⟨bounds, ran, right⟩ := rowsBounds_right (n := part.rows.length) (p := p) isStart isStop
    refine ⟨bounds, ?_, fun _ => right, fun _ impossible => by cases impossible⟩
    intro func
    unfold frameBounds
    simp only [isGroups, Bool.false_eq_true, if_false]
    exact ran
  | true =>
    have small : part.rows.length < 2 ^ 60 := by
      rw [part.rows_length]
      exact part.small
    obtain ⟨bounds, ran, right, fits⟩ := groupsBounds_spec part.peers within small isStart isStop
      smallStart smallStop
    refine ⟨bounds, ?_, right, fits⟩
    intro func
    have ordered : part.order.isEmpty = false := by
      simpa using hasOrder isGroups
    unfold frameBounds
    simp only [isGroups, if_true, ordered, Bool.not_false, Bool.true_and]
    exact ran

section Read

variable (part : Partition V) (fractions : Fractions V) {f : Frame V} {p : Nat} {bounds : Nat × Nat}
  (ran : ∀ func, frameBounds { func := func, order := part.order, frame := some f } p
    part.rows.length (rowAt part.rows p) part.keys = .ok bounds)
include ran

theorem windowAt_aggregate (agg : List (Row V) → PgResult V) :
    windowAt fractions { func := .aggregate agg, order := part.order, frame := some f }
      part.rows part.keys p = agg ((frameList bounds part.rows.length).map (rowAt part.rows)) := by
  show (do
    let bounds ← frameBounds _ p part.rows.length (rowAt part.rows p) part.keys
    agg ((frameList bounds part.rows.length).map (rowAt part.rows)) : PgResult V) = _
  rw [ran]
  rfl

theorem windowAt_firstValue (arg : RowExpr V V) :
    windowAt fractions { func := .firstValue arg, order := part.order, frame := some f }
      part.rows part.keys p =
      readPick arg part.rows (pickIn bounds part.rows.length bounds.1) := by
  show (do
    let bounds ← frameBounds _ p part.rows.length (rowAt part.rows p) part.keys
    readPick arg part.rows (pickIn bounds part.rows.length bounds.1) : PgResult V) = _
  rw [ran]
  rfl

theorem windowAt_lastValue (arg : RowExpr V V) :
    windowAt fractions { func := .lastValue arg, order := part.order, frame := some f }
      part.rows part.keys p =
      readPick arg part.rows (pickIn bounds part.rows.length (bounds.2 - 1)) := by
  show (do
    let bounds ← frameBounds _ p part.rows.length (rowAt part.rows p) part.keys
    readPick arg part.rows (pickIn bounds part.rows.length (bounds.2 - 1)) : PgResult V) = _
  rw [ran]
  rfl

theorem windowAt_nthValue (arg : RowExpr V V) {nth : RowExpr V Offset} {k : Nat} (low : 1 ≤ k)
    (isInt : nth (rowAt part.rows p) = .ok (.int k)) :
    windowAt fractions { func := .nthValue arg nth, order := part.order, frame := some f }
      part.rows part.keys p =
      readPick arg part.rows (pickIn bounds part.rows.length (bounds.1 + (k - 1))) := by
  have offset : nthOffset (.int k) = k - 1 := by
    show (max (k : Int) 1).toNat - 1 = k - 1
    omega
  show (do
    let bounds ← frameBounds _ p part.rows.length (rowAt part.rows p) part.keys
    let v ← nth (rowAt part.rows p)
    readPick arg part.rows (pickIn bounds part.rows.length (bounds.1 + nthOffset v)) :
      PgResult V) = _
  rw [ran, isInt]
  show readPick arg part.rows
    (pickIn bounds part.rows.length (bounds.1 + nthOffset (.int k))) = _
  rw [offset]

end Read

/-- The frame of a row and what is read in it are what SQL says just where the offsets of a GROUPS frame
fit, and `last_value` has a frame that is not empty or begins early. -/
theorem frameExact_iff (part : Partition V) (fractions : Fractions V) {f : Frame V}
    (hasOrder : f.groups = true → part.order ≠ []) {p : Nat} (within : p < part.rows.length)
    {start stop : Bound} (isStart : f.start.resolve (rowAt part.rows p) = .ok start)
    (isStop : f.stop.resolve (rowAt part.rows p) = .ok stop) (smallStart : start.Small)
    (smallStop : stop.Small) :
    FrameExact part fractions f start stop p ↔
      OffsetsFit f.groups part.peer part.rows.length start stop p ∧
        LastFits f.groups part.peer part.rows.length start stop p := by
  obtain ⟨bounds, ran, right, fits⟩ := frameBounds_spec part hasOrder within isStart isStop
    smallStart smallStop
  have member (q : Nat) : q ∈ framePositions f.groups part.peer part.rows.length start stop p ↔
      q < part.rows.length ∧
        start.AfterStart (numberOf f.groups part.peer p) (numberOf f.groups part.peer q) ∧
        stop.BeforeEnd (numberOf f.groups part.peer p) (numberOf f.groups part.peer q) := by
    simp [framePositions]
  have picks (within : bounds.2 ≤ part.rows.length) (pick : Nat) :
      pickIn bounds part.rows.length pick = if pick < bounds.2 then some pick else none := by
    unfold pickIn
    by_cases inside : pick < bounds.2
    · have below : pick < part.rows.length := by omega
      simp [inside, below]
    · simp [inside]
  have listed (fit : OffsetsFit f.groups part.peer part.rows.length start stop p) :
      framePositions f.groups part.peer part.rows.length start stop p =
        List.range' bounds.1 (bounds.2 - bounds.1) := by
    apply filter_range_eq
    intro q
    rw [(right fit).positions]
    simp
  constructor
  · intro exact'
    have fit : OffsetsFit f.groups part.peer part.rows.length start stop p := by
      obtain ⟨bounds', ran', positions⟩ := exact'.positions
      rw [ran] at ran'
      cases ran'
      apply fits
      intro q
      rw [positions, member]
    refine ⟨fit, ?_⟩
    by_contra misses
    unfold LastFits at misses
    rw [not_or, not_not, ← (right fit).none_iff] at misses
    -- An argument that fails tells a row that is read from none.
    have last := exact'.lastValue (fun _ => .error { code := "", message := "" })
    have some' : bounds.2 - 1 < bounds.2 := by omega
    rw [windowAt_lastValue part fractions ran, picks (right fit).upTo, if_pos some', misses.1] at last
    cases last
  · intro both
    obtain ⟨fit, last⟩ := both
    have isRight := right fit
    have isList := listed fit
    constructor
    · refine ⟨bounds, ran _, ?_⟩
      intro q
      rw [isRight.positions, member]
    · intro agg
      rw [windowAt_aggregate part fractions ran, isList]
      unfold frameList
      rw [Nat.min_eq_left isRight.upTo]
    · intro arg
      rw [windowAt_firstValue part fractions ran, picks isRight.upTo, isList, List.head?_range']
      congr 1
      split
      · rw [if_neg (by omega)]
      · rw [if_pos (by omega)]
    · intro arg
      rw [windowAt_lastValue part fractions ran, picks isRight.upTo, isList, List.getLast?_range']
      congr 1
      have isEmpty : framePositions f.groups part.peer part.rows.length start stop p = [] ↔
          ¬ bounds.1 < bounds.2 := by
        rw [isList, List.range'_eq_nil_iff]
        omega
      unfold LastFits at last
      rw [ne_eq, isEmpty, not_not, ← isRight.none_iff] at last
      by_cases some' : bounds.1 < bounds.2
      · rw [if_pos (by omega), if_neg (by omega)]
        congr 1
        omega
      · have zero : bounds.2 = 0 := last.resolve_left some'
        rw [if_neg (by omega), if_pos (by omega)]
    · intro arg nth k low isInt
      rw [windowAt_nthValue part fractions ran arg low isInt, picks isRight.upTo, isList]
      congr 1
      split
      · rw [List.getElem?_range' (by omega)]
        congr 1
        omega
      · rw [List.getElem?_eq_none]
        rw [List.length_range']
        omega

end Exact

def loneRow : Partition Scalar where
  order := []
  types := []
  orderable := by
    constructor
    · rfl
    · intro S member
      cases member
    · intro a b isA isB
      rw [show a = .null from eq_of_beq isA, show b = .null from eq_of_beq isB]
      rfl
  keyed := [([], [.int 10])]
  evaluated := by
    intro entry member
    obtain rfl := List.mem_singleton.mp member
    rfl
  typed := by
    intro entry member
    obtain rfl := List.mem_singleton.mp member
    exact .nil
  small := by decide

/-- `GROUPS BETWEEN CURRENT ROW AND 1 FOLLOWING`. -/
def nextGroup : Frame Scalar :=
  { groups := true, start := .currentRow, stop := .following (fun _ => .ok (.int 1)) }

theorem frameExact_three :
    FrameExact (intPartition [10, 10, 20] (by decide)) intRatios nextGroup .currentRow
      (.following 1) 0 := by
  have within : 0 < (intPartition [10, 10, 20] (by decide)).rows.length := by
    rw [Partition.rows_length]
    decide
  have isStart (row : Row Scalar) : nextGroup.start.resolve row = .ok .currentRow := rfl
  have isStop (row : Row Scalar) : nextGroup.stop.resolve row = .ok (.following 1) := rfl
  have isSmall : (Bound.following 1).Small := by
    show 1 < 2 ^ 63
    decide
  have hasOrder : nextGroup.groups = true → (intPartition [10, 10, 20] (by decide)).order ≠ [] :=
    fun _ => List.cons_ne_nil _ _
  apply (frameExact_iff _ intRatios hasOrder within (isStart _) (isStop _) trivial isSmall).mpr
  constructor
  · intro _
    refine ⟨False.elim, fun beyond => ?_⟩
    have beyond : 2 ^ 63 ≤ 0 + 1 := beyond
    omega
  · apply Or.inl
    apply List.ne_nil_of_mem (a := 0)
    apply List.mem_filter.mpr
    refine ⟨List.mem_range.mpr within, Bool.and_eq_true_iff.mpr ⟨?_, ?_⟩⟩
    · exact decide_eq_true (Int.le_refl _)
    · exact decide_eq_true (Int.le_add_of_nonneg_right (by decide))

/-- `last_value` over `ROWS BETWEEN 1 FOLLOWING AND 2 FOLLOWING` at the last row. -/
theorem lastValue_beyond :
    ¬ ∀ (part : Partition Scalar) (fractions : Fractions Scalar) (f : Frame Scalar) (p : Nat)
      (start stop : Bound), (f.groups = true → part.order ≠ []) → p < part.rows.length →
      f.start.resolve (rowAt part.rows p) = .ok start →
      f.stop.resolve (rowAt part.rows p) = .ok stop → start.Small → stop.Small →
        FrameExact part fractions f start stop p := by
  intro claimed
  have exact' := claimed loneRow intRatios
    { groups := false, start := .following (fun _ => .ok (.int 1))
      stop := .following (fun _ => .ok (.int 2)) } 0 (.following 1) (.following 2)
    (fun impossible => by cases impossible) (by decide) rfl rfl (by show 1 < 2 ^ 63; decide)
    (by show 2 < 2 ^ 63; decide)
  have last : (.ok (.int 10) : PgResult Scalar) = .ok .null :=
    exact'.lastValue (fun row => .ok (row.headD .null))
  cases last

end NoidaDb.Postgres.Windows
