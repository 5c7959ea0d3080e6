/-
Digit vectors compute with the numbers that they stand for.

The loops run over the digits last one first, so each of them adds up `Nat.ofDigits`.
-/

import NoidaDb.Sql.Numeric

namespace NoidaDb.Sql

open Lib

structure Magnitude (v : List Nat) : Prop where
  digits : ∀ x ∈ v, x < 10
  leads : v.head? ≠ some 0

theorem magnitude_nil : Magnitude [] := ⟨by simp, by simp⟩

theorem numberOf_strip (v : List Nat) : numberOf 10 (strip v) = numberOf 10 v :=
  numberOf_dropZeros v

theorem magnitude_strip {v : List Nat} (digits : ∀ x ∈ v, x < 10) : Magnitude (strip v) where
  digits := fun x member => digits x ((List.dropWhile_sublist _).subset member)
  leads := head_dropZeros v

theorem strip_eq_nil_iff {v : List Nat} : strip v = [] ↔ numberOf 10 v = 0 := by
  constructor
  · intro isEmpty
    rw [← numberOf_strip, isEmpty]
    rfl
  · intro isZero
    by_contra some
    have isPositive := numberOf_pos (b := 10) (by decide) (head_dropZeros v) some
    rw [numberOf_dropZeros, isZero] at isPositive
    exact Nat.lt_irrefl 0 isPositive

theorem cmpMag_eq {a b : List Nat} (isA : Magnitude a) (isB : Magnitude b) :
    cmpMag a b = compare (numberOf 10 a) (numberOf 10 b) :=
  compare_numberOf (by decide) isA.digits isB.digits isA.leads isB.leads

theorem digitOf_digitChar {d : Nat} (digit : d < 10) :
    digitOf (digitChar d) = d ∧ isDigit (digitChar d) = true := by
  have all : ∀ d < 10, digitOf (digitChar d) = d ∧ isDigit (digitChar d) = true := by decide
  exact all d digit

theorem digitChars {ks : List Nat} (small : ∀ k ∈ ks, k < 10) :
    (∀ c ∈ ks.map digitChar, isDigit c = true) ∧ (ks.map digitChar).map digitOf = ks := by
  constructor
  · intro c member
    obtain ⟨k, isK, rfl⟩ := List.mem_map.mp member
    exact (digitOf_digitChar (small k isK)).2
  · rw [List.map_map]
    apply Eq.trans (List.map_congr_left (fun k isK => (digitOf_digitChar (small k isK)).1))
    exact List.map_id' ks

theorem show_fin {d : Dec} (shown : d.hidden = 0) : (Numeric.fin d).show = d.show := by
  have isFin : (Numeric.fin d).show = if 0 < d.hidden then
      (d.roundTo (d.scale - min d.hidden d.scale : Nat) false).show else d.show := rfl
  rw [isFin, if_neg (by omega)]

theorem digits_magnitude (n : Nat) : Magnitude (Nat.digits 10 n).reverse := by
  constructor
  · exact digits_below n
  · intro isHead
    rw [List.head?_reverse] at isHead
    have some : Nat.digits 10 n ≠ [] := by
      intro isEmpty
      rw [isEmpty] at isHead
      cases isHead
    have positive := Nat.digits_ne_nil_iff_ne_zero.mp some
    rw [List.getLast?_eq_some_getLast some] at isHead
    exact Nat.getLast_digit_ne_zero 10 positive (Option.some.inj isHead)

theorem numberOf_reverse (v : List Nat) : numberOf 10 v.reverse = Nat.ofDigits 10 v := by
  simp [numberOf]

theorem ofDigits_addCarry {xs : List Nat} (digits : ∀ x ∈ xs, x < 10) {carry : Nat}
    (small : carry ≤ 1) : Nat.ofDigits 10 (addCarry xs carry) = Nat.ofDigits 10 xs + carry := by
  induction xs generalizing carry with
  | nil =>
    unfold addCarry
    split
    · rename_i none
      simp [none]
    · rw [Nat.ofDigits_singleton, Nat.mod_eq_of_lt (by omega)]
      simp
  | cons x rest ih =>
    obtain ⟨isDigit, digits⟩ := List.forall_mem_cons.mp digits
    rw [addCarry, Nat.ofDigits_cons, Nat.ofDigits_cons, ih digits (by omega)]
    omega

theorem ofDigits_addLoop {xs ys : List Nat} (digitsX : ∀ x ∈ xs, x < 10)
    (digitsY : ∀ y ∈ ys, y < 10) {carry : Nat} (small : carry ≤ 1) :
    Nat.ofDigits 10 (addLoop xs ys carry) = Nat.ofDigits 10 xs + Nat.ofDigits 10 ys + carry := by
  induction xs generalizing ys carry with
  | nil =>
    rw [addLoop, ofDigits_addCarry digitsY small]
    simp
  | cons x xs ih =>
    cases ys with
    | nil =>
      rw [addLoop, ofDigits_addCarry digitsX small]
      simp
    | cons y ys =>
      obtain ⟨isX, digitsX⟩ := List.forall_mem_cons.mp digitsX
      obtain ⟨isY, digitsY⟩ := List.forall_mem_cons.mp digitsY
      rw [addLoop, Nat.ofDigits_cons, Nat.ofDigits_cons, Nat.ofDigits_cons,
        ih digitsX digitsY (by omega)]
      omega

theorem digits_addCarry (xs : List Nat) (carry : Nat) : ∀ d ∈ addCarry xs carry, d < 10 := by
  induction xs generalizing carry with
  | nil =>
    intro d member
    unfold addCarry at member
    split at member
    · cases member
    · rw [List.mem_singleton.mp member]
      exact Nat.mod_lt _ (by decide)
  | cons x rest ih =>
    rw [addCarry]
    exact List.forall_mem_cons.mpr ⟨Nat.mod_lt _ (by decide), ih _⟩

theorem digits_addLoop (xs ys : List Nat) (carry : Nat) : ∀ d ∈ addLoop xs ys carry, d < 10 := by
  induction xs generalizing ys carry with
  | nil => exact digits_addCarry ys carry
  | cons x xs ih =>
    cases ys with
    | nil => exact digits_addCarry (x :: xs) carry
    | cons y ys =>
      rw [addLoop]
      exact List.forall_mem_cons.mpr ⟨Nat.mod_lt _ (by decide), ih ys _⟩

theorem numberOf_addMag {a b : List Nat} (isA : ∀ x ∈ a, x < 10) (isB : ∀ x ∈ b, x < 10) :
    numberOf 10 (addMag a b) = numberOf 10 a + numberOf 10 b := by
  unfold addMag
  rw [numberOf_strip, numberOf_reverse, ofDigits_addLoop _ _ (Nat.zero_le 1)]
  · rfl
  · exact fun x member => isA x (List.mem_reverse.mp member)
  · exact fun x member => isB x (List.mem_reverse.mp member)

theorem magnitude_addMag (a b : List Nat) : Magnitude (addMag a b) :=
  magnitude_strip (fun d member => digits_addLoop _ _ _ d (List.mem_reverse.mp member))

theorem ofDigits_subLoop {xs ys : List Nat} (digitsX : ∀ x ∈ xs, x < 10)
    (digitsY : ∀ y ∈ ys, y < 10) {borrow : Nat} (small : borrow ≤ 1)
    (enough : Nat.ofDigits 10 ys + borrow ≤ Nat.ofDigits 10 xs) :
    Nat.ofDigits 10 (subLoop xs ys borrow) + Nat.ofDigits 10 ys + borrow = Nat.ofDigits 10 xs := by
  induction xs generalizing ys borrow with
  | nil =>
    simp only [Nat.ofDigits_nil, subLoop] at enough ⊢
    omega
  | cons x xs ih =>
    obtain ⟨isX, digitsX⟩ := List.forall_mem_cons.mp digitsX
    have isY : ys.headD 0 < 10 := by
      cases ys with
      | nil => simp
      | cons y ys => exact digitsY y List.mem_cons_self
    have digitsTail : ∀ y ∈ ys.tail, y < 10 := fun y member => digitsY y (List.mem_of_mem_tail member)
    have split : Nat.ofDigits 10 ys = ys.headD 0 + 10 * Nat.ofDigits 10 ys.tail := by
      cases ys with
      | nil => simp
      | cons y ys => simp [Nat.ofDigits_cons]
    rw [Nat.ofDigits_cons, split] at enough ⊢
    rw [subLoop]
    by_cases borrows : (x : Int) - borrow - ys.headD 0 < 0
    · have rest := ih digitsX digitsTail (Nat.le_refl 1) (by omega)
      simp only [Nat.cast_one] at rest
      rw [if_pos borrows, Nat.ofDigits_cons]
      omega
    · have rest := ih digitsX digitsTail (Nat.zero_le 1) (by omega)
      simp only [Nat.cast_zero] at rest
      rw [if_neg borrows, Nat.ofDigits_cons]
      omega

theorem digits_subLoop {xs : List Nat} (digits : ∀ x ∈ xs, x < 10) (ys : List Nat) {borrow : Int}
    (small : 0 ≤ borrow) : ∀ d ∈ subLoop xs ys borrow, d < 10 := by
  induction xs generalizing ys borrow with
  | nil => simp [subLoop]
  | cons x xs ih =>
    obtain ⟨isDigit, digits⟩ := List.forall_mem_cons.mp digits
    rw [subLoop]
    split
    · exact List.forall_mem_cons.mpr ⟨by omega, ih digits _ (by decide)⟩
    · exact List.forall_mem_cons.mpr ⟨by omega, ih digits _ (by decide)⟩

theorem numberOf_subMag {a b : List Nat} (isA : ∀ x ∈ a, x < 10) (isB : ∀ x ∈ b, x < 10)
    (enough : numberOf 10 b ≤ numberOf 10 a) :
    numberOf 10 (subMag a b) + numberOf 10 b = numberOf 10 a := by
  unfold subMag
  rw [numberOf_strip, numberOf_reverse]
  have whole := @ofDigits_subLoop a.reverse b.reverse
    (fun x member => isA x (List.mem_reverse.mp member))
    (fun x member => isB x (List.mem_reverse.mp member)) 0 (Nat.zero_le 1) enough
  exact whole

theorem magnitude_subMag {a : List Nat} (isA : ∀ x ∈ a, x < 10) (b : List Nat) :
    Magnitude (subMag a b) := by
  apply magnitude_strip
  intro d member
  exact digits_subLoop (fun x member => isA x (List.mem_reverse.mp member)) _ (Int.le_refl 0) d
    (List.mem_reverse.mp member)

def columnSums (a b : List Nat) : List Nat :=
  (positions a).foldl (fun acc x =>
    (positions b).foldl (fun acc y => acc.modify (x.2 + y.2 + 1) (fun c => c + x.1 * y.1)) acc)
    (List.replicate (a.length + b.length) 0)

def ColumnsBelow : List Nat → Nat → Prop
  | [], _ => True
  | c :: rest, carry => c + carry < 2 ^ 32 ∧ ColumnsBelow rest ((c + carry) / 10)

def ColumnsFit (a b : List Nat) : Prop := ColumnsBelow (columnSums a b).reverse 0

theorem addColumn_map (acc : List Nat) (k v : Nat) :
    addColumn (acc.map (fun c => c % 2 ^ 32)) k v =
      (acc.modify k (fun c => c + v)).map (fun c => c % 2 ^ 32) := by
  apply List.ext_getElem?
  intro i
  simp only [addColumn, List.getElem?_modify, List.getElem?_map]
  by_cases here : k = i
  · cases acc[i]? with
    | none => simp
    | some c => simp [here]
  · simp [here]

theorem mulColumns_eq (a b : List Nat) :
    mulColumns a b = (columnSums a b).map (fun c => c % 2 ^ 32) := by
  unfold mulColumns columnSums
  have initially : List.replicate (a.length + b.length) 0 =
      (List.replicate (a.length + b.length) 0).map (fun c => c % 2 ^ 32) := by simp
  rw [initially]
  apply Eq.trans (List.foldl_hom (List.map (fun c => c % 2 ^ 32)) _)
  · rw [← initially]
  · intro acc x
    apply List.foldl_hom (List.map (fun c => c % 2 ^ 32))
    intro acc y
    exact addColumn_map acc _ _

theorem numberOf_modify {acc : List Nat} {k : Nat} (inside : k < acc.length) (v : Nat) :
    numberOf 10 (acc.modify k (fun c => c + v)) =
      numberOf 10 acc + v * 10 ^ (acc.length - 1 - k) := by
  induction acc generalizing k with
  | nil => simp at inside
  | cons c rest ih =>
    cases k with
    | zero =>
      simp only [List.modify_zero_cons, numberOf_cons, List.length_cons, Nat.add_sub_cancel,
        Nat.sub_zero]
      ring
    | succ k =>
      have inRest : k < rest.length := by simpa using inside
      simp only [List.modify_succ_cons, numberOf_cons, List.length_modify, ih inRest,
        List.length_cons, Nat.add_sub_cancel]
      rw [show rest.length - (k + 1) = rest.length - 1 - k by omega]
      ring

theorem mem_positions {a : List Nat} {x : Nat × Nat} (member : x ∈ positions a) :
    x.2 < a.length := by
  have inIdx := List.mem_reverse.mp member
  have bound := List.snd_lt_of_mem_zipIdx inIdx
  omega

theorem sum_positions (a : List Nat) :
    ((positions a).map (fun x => x.1 * 10 ^ (a.length - 1 - x.2))).sum = numberOf 10 a := by
  have shifted : ∀ (a : List Nat) (n : Nat),
      ((a.zipIdx n).map (fun x => x.1 * 10 ^ (n + a.length - 1 - x.2))).sum = numberOf 10 a := by
    intro a
    induction a with
    | nil => simp
    | cons d rest ih =>
      intro n
      have tail := ih (n + 1)
      rw [show n + 1 + rest.length - 1 = n + (d :: rest).length - 1 by simp] at tail
      rw [List.zipIdx_cons, List.map_cons, List.sum_cons, tail, numberOf_cons]
      simp
  have whole := shifted a 0
  simp only [Nat.zero_add] at whole
  rw [positions, List.map_reverse, List.sum_reverse, whole]

theorem length_foldl_modify (ys : List (Nat × Nat)) (at' : Nat × Nat → Nat)
    (v : Nat × Nat → Nat) (acc : List Nat) :
    (ys.foldl (fun acc y => acc.modify (at' y) (fun c => c + v y)) acc).length = acc.length := by
  induction ys generalizing acc with
  | nil => rfl
  | cons y rest ih => rw [List.foldl_cons, ih, List.length_modify]

theorem numberOf_foldl_modify {ys : List (Nat × Nat)} {at' : Nat × Nat → Nat}
    (v : Nat × Nat → Nat) {acc : List Nat} (inside : ∀ y ∈ ys, at' y < acc.length) :
    numberOf 10 (ys.foldl (fun acc y => acc.modify (at' y) (fun c => c + v y)) acc) =
      numberOf 10 acc + (ys.map (fun y => v y * 10 ^ (acc.length - 1 - at' y))).sum := by
  induction ys generalizing acc with
  | nil => simp
  | cons y rest ih =>
    obtain ⟨here, later⟩ := List.forall_mem_cons.mp inside
    rw [List.foldl_cons, ih (by simpa using later), numberOf_modify here, List.length_modify,
      List.map_cons, List.sum_cons, Nat.add_assoc]

theorem numberOf_columnSums (a b : List Nat) :
    (columnSums a b).length = a.length + b.length ∧
      numberOf 10 (columnSums a b) = numberOf 10 a * numberOf 10 b := by
  -- One row: the digit of `a` times `b`.
  have row : ∀ x ∈ positions a, ((positions b).map (fun y =>
      x.1 * y.1 * 10 ^ (a.length + b.length - 1 - (x.2 + y.2 + 1)))).sum =
        x.1 * 10 ^ (a.length - 1 - x.2) * numberOf 10 b := by
    intro x isX
    have inA := mem_positions isX
    rw [← sum_positions b, ← List.sum_map_mul_left]
    apply congrArg List.sum
    apply List.map_congr_left
    intro y isY
    have inB := mem_positions isY
    rw [show a.length + b.length - 1 - (x.2 + y.2 + 1) =
      (a.length - 1 - x.2) + (b.length - 1 - y.2) by omega, pow_add]
    ring
  have rows : ∀ (xs : List (Nat × Nat)), (∀ x ∈ xs, x ∈ positions a) → ∀ acc : List Nat,
      acc.length = a.length + b.length →
        (xs.foldl (fun acc x => (positions b).foldl (fun acc y =>
          acc.modify (x.2 + y.2 + 1) (fun c => c + x.1 * y.1)) acc) acc).length =
            a.length + b.length ∧
        numberOf 10 (xs.foldl (fun acc x => (positions b).foldl (fun acc y =>
          acc.modify (x.2 + y.2 + 1) (fun c => c + x.1 * y.1)) acc) acc) =
            numberOf 10 acc + (xs.map (fun x => x.1 * 10 ^ (a.length - 1 - x.2))).sum *
              numberOf 10 b := by
    intro xs
    induction xs with
    | nil =>
      intro _ acc same
      simp [same]
    | cons x rest ih =>
      intro inA acc same
      obtain ⟨isX, later⟩ := List.forall_mem_cons.mp inA
      have length := length_foldl_modify (positions b) (fun y => x.2 + y.2 + 1)
        (fun y => x.1 * y.1) acc
      have value := @numberOf_foldl_modify (positions b) (fun y => x.2 + y.2 + 1)
        (fun y => x.1 * y.1) acc (by
          intro y isY
          have before := mem_positions isX
          have there := mem_positions isY
          omega)
      rw [List.foldl_cons]
      obtain ⟨lengthRest, valueRest⟩ := ih later _ (length.trans same)
      refine ⟨lengthRest, ?_⟩
      rw [valueRest, value, same, row x isX, List.map_cons, List.sum_cons]
      ring
  obtain ⟨length, value⟩ := rows (positions a) (fun x isX => isX)
    (List.replicate (a.length + b.length) 0) (by simp)
  refine ⟨length, ?_⟩
  unfold columnSums
  rw [value, numberOf_zeros, Nat.zero_add, sum_positions]

theorem carryLoop_cons (c d : Nat) (rest : List Nat) (carry : Nat) :
    carryLoop ((c :: d :: rest).map (fun c => c % 2 ^ 32)) carry = (c + carry) % 2 ^ 32 % 10 ::
      carryLoop ((d :: rest).map (fun c => c % 2 ^ 32)) ((c + carry) % 2 ^ 32 / 10) := by
  rw [List.map_cons, List.map_cons, carryLoop, Nat.mod_add_mod]

theorem ofDigits_carryLoop_le (cs : List Nat) (carry : Nat) :
    Nat.ofDigits 10 (carryLoop (cs.map (fun c => c % 2 ^ 32)) carry) ≤ Nat.ofDigits 10 cs + carry := by
  induction cs generalizing carry with
  | nil => simp [carryLoop]
  | cons c rest ih =>
    cases rest with
    | nil =>
      simp only [List.map_cons, List.map_nil, carryLoop, Nat.ofDigits_singleton]
      omega
    | cons d rest =>
      have later := ih ((c + carry) % 2 ^ 32 / 10)
      have kept : (c + carry) % 2 ^ 32 ≤ c + carry := Nat.mod_le _ _
      rw [carryLoop_cons, Nat.ofDigits_cons, @Nat.ofDigits_cons 10 c (d :: rest)]
      generalize (c + carry) % 2 ^ 32 = s at *
      omega

theorem carried_iff {t v w : Nat} (lost : w ≤ v + t % 2 ^ 32 / 10) :
    t % 2 ^ 32 % 10 + 10 * w = t + 10 * v ↔ t < 2 ^ 32 ∧ w = v + t / 10 := by
  constructor
  · intro equal
    have kept : t % 2 ^ 32 ≤ t := Nat.mod_le t _
    have same : t % 2 ^ 32 = t := by
      generalize t % 2 ^ 32 = s at *
      omega
    rw [same] at equal
    constructor
    · rw [← same]
      exact Nat.mod_lt _ (by decide)
    · omega
  · intro both
    obtain ⟨fits, carried⟩ := both
    rw [Nat.mod_eq_of_lt fits]
    omega

theorem ofDigits_carryLoop_iff {cs : List Nat} (some : cs ≠ []) {carry : Nat}
    (below : Nat.ofDigits 10 cs + carry < 10 ^ cs.length) :
    Nat.ofDigits 10 (carryLoop (cs.map (fun c => c % 2 ^ 32)) carry) = Nat.ofDigits 10 cs + carry ↔
      ColumnsBelow cs carry := by
  induction cs generalizing carry with
  | nil => exact (some rfl).elim
  | cons c rest ih =>
    cases rest with
    | nil =>
      simp only [List.map_cons, List.map_nil, carryLoop, Nat.ofDigits_singleton,
        List.length_singleton, ColumnsBelow, and_true] at below ⊢
      omega
    | cons d rest =>
      have below' : c + carry + 10 * Nat.ofDigits 10 (d :: rest) <
          10 * 10 ^ (d :: rest).length := by
        rw [Nat.ofDigits_cons, List.length_cons, pow_succ] at below
        omega
      have later := @ih (by simp) ((c + carry) / 10) (by omega)
      have lost := ofDigits_carryLoop_le (d :: rest) ((c + carry) % 2 ^ 32 / 10)
      have split : Nat.ofDigits 10 (c :: d :: rest) + carry =
          c + carry + 10 * Nat.ofDigits 10 (d :: rest) := by
        rw [Nat.ofDigits_cons]
        omega
      rw [split, carryLoop_cons, Nat.ofDigits_cons, carried_iff lost, ColumnsBelow]
      apply and_congr_right
      intro fits
      rw [Nat.mod_eq_of_lt fits]
      exact later

theorem digits_carryLoop {cs : List Nat} {carry : Nat}
    (below : Nat.ofDigits 10 cs + carry < 10 ^ cs.length) :
    ∀ d ∈ carryLoop (cs.map (fun c => c % 2 ^ 32)) carry, d < 10 := by
  induction cs generalizing carry with
  | nil => simp [carryLoop]
  | cons c rest ih =>
    cases rest with
    | nil =>
      simp only [List.map_cons, List.map_nil, carryLoop, Nat.ofDigits_singleton,
        List.length_singleton, List.mem_singleton, forall_eq] at below ⊢
      omega
    | cons d rest =>
      have below' : c + carry + 10 * Nat.ofDigits 10 (d :: rest) <
          10 * 10 ^ (d :: rest).length := by
        rw [Nat.ofDigits_cons, List.length_cons, pow_succ] at below
        omega
      have kept : (c + carry) % 2 ^ 32 ≤ c + carry := Nat.mod_le _ _
      have later := @ih ((c + carry) % 2 ^ 32 / 10) (by
        generalize (c + carry) % 2 ^ 32 = s at *
        omega)
      rw [carryLoop_cons]
      exact List.forall_mem_cons.mpr ⟨Nat.mod_lt _ (by decide), later⟩

variable {a b : List Nat}

theorem product_below (isA : ∀ x ∈ a, x < 10) (isB : ∀ x ∈ b, x < 10) :
    Nat.ofDigits 10 (columnSums a b).reverse + 0 < 10 ^ (columnSums a b).reverse.length := by
  obtain ⟨length, value⟩ := numberOf_columnSums a b
  rw [Nat.add_zero, List.length_reverse, length, pow_add]
  change numberOf 10 (columnSums a b) < _
  rw [value]
  exact Nat.mul_lt_mul'' (numberOf_lt (by decide) isA) (numberOf_lt (by decide) isB)

theorem columnsBelow_zeros (n : Nat) : ColumnsBelow (List.replicate n 0) 0 := by
  induction n with
  | zero => trivial
  | succ n ih => exact ⟨by decide, ih⟩

theorem columnSums_of_empty (isEmpty : a = [] ∨ b = []) :
    columnSums a b = List.replicate (a.length + b.length) 0 := by
  unfold columnSums
  rcases isEmpty with isEmpty | isEmpty
  · simp [isEmpty, positions]
  · simp [isEmpty, positions]

theorem magnitude_mulMag (isA : ∀ x ∈ a, x < 10) (isB : ∀ x ∈ b, x < 10) :
    Magnitude (mulMag a b) := by
  unfold mulMag
  split
  · exact magnitude_nil
  · apply magnitude_strip
    intro d member
    rw [List.mem_reverse, mulColumns_eq, ← List.map_reverse] at member
    exact digits_carryLoop (product_below isA isB) d member

theorem numberOf_mulMag_iff (isA : ∀ x ∈ a, x < 10) (isB : ∀ x ∈ b, x < 10) :
    numberOf 10 (mulMag a b) = numberOf 10 a * numberOf 10 b ↔ ColumnsFit a b := by
  obtain ⟨length, value⟩ := numberOf_columnSums a b
  by_cases isEmpty : a = [] ∨ b = []
  · have fits : ColumnsFit a b := by
      unfold ColumnsFit
      rw [columnSums_of_empty isEmpty, List.reverse_replicate]
      exact columnsBelow_zeros _
    have isZero : numberOf 10 a * numberOf 10 b = 0 := by
      rcases isEmpty with isEmpty | isEmpty
      · simp [isEmpty]
      · simp [isEmpty]
    simp [mulMag, isEmpty, fits, isZero]
  · have some : (columnSums a b).reverse ≠ [] := by
      intro none
      have noColumn := congrArg List.length none
      rw [List.length_reverse, length] at noColumn
      apply isEmpty
      apply Or.inl
      exact List.length_eq_zero_iff.mp (Nat.eq_zero_of_add_eq_zero_right noColumn)
    have carried := ofDigits_carryLoop_iff some (product_below isA isB)
    unfold mulMag
    rw [if_neg isEmpty, numberOf_strip, numberOf_reverse, mulColumns_eq, ← List.map_reverse, ← value]
    exact carried

theorem getD_modify_le (acc : List Nat) (at' k v : Nat) :
    (acc.modify at' (fun c => c + v)).getD k 0 ≤ acc.getD k 0 + if k = at' then v else 0 := by
  simp only [List.getD_eq_getElem?_getD, List.getElem?_modify]
  cases acc[k]? with
  | none => exact Nat.zero_le _
  | some c =>
    show (if at' = k then c + v else c) ≤ c + if k = at' then v else 0
    by_cases here : at' = k
    · rw [if_pos here, if_pos here.symm]
    · rw [if_neg here]
      exact Nat.le_add_right _ _

theorem getD_row_le {ys : List (Nat × Nat)} {at' v : Nat × Nat → Nat} {most : Nat}
    (distinct : (ys.map at').Nodup) (small : ∀ y ∈ ys, v y ≤ most) (acc : List Nat) (k : Nat) :
    (ys.foldl (fun acc y => acc.modify (at' y) (fun c => c + v y)) acc).getD k 0 ≤
      acc.getD k 0 + if k ∈ ys.map at' then most else 0 := by
  induction ys generalizing acc with
  | nil => simp
  | cons y rest ih =>
    rw [List.map_cons, List.nodup_cons] at distinct
    obtain ⟨isSmall, small⟩ := List.forall_mem_cons.mp small
    have later := ih distinct.2 small (acc.modify (at' y) (fun c => c + v y))
    have here := getD_modify_le acc (at' y) k (v y)
    rw [List.foldl_cons, List.map_cons]
    by_cases same : k = at' y
    · rw [if_neg (same ▸ distinct.1)] at later
      rw [if_pos same] at here
      rw [if_pos (same ▸ List.mem_cons_self)]
      omega
    · rw [if_neg same] at here
      simp only [List.mem_cons, same, false_or]
      omega

theorem positions_snd (a : List Nat) : (positions a).map Prod.snd = (List.range a.length).reverse := by
  unfold positions
  rw [List.map_reverse, List.zipIdx_map_snd, List.range_eq_range']

theorem columnSums_le (isA : ∀ x ∈ a, x < 10) (isB : ∀ x ∈ b, x < 10) (k : Nat) :
    (columnSums a b).getD k 0 ≤ 81 * b.length := by
  have digitsOf : ∀ {v : List Nat}, (∀ x ∈ v, x < 10) → ∀ y ∈ positions v, y.1 ≤ 9 := by
    intro v isV y member
    have inV : y.1 ∈ v := by
      have inIdx := List.mem_reverse.mp member
      exact List.fst_mem_of_mem_zipIdx inIdx
    exact Nat.le_of_lt_succ (isV y.1 inV)
  have row : ∀ x ∈ positions a, ∀ acc : List Nat,
      ((positions b).foldl (fun acc y => acc.modify (x.2 + y.2 + 1) (fun c => c + x.1 * y.1)) acc).getD k 0 ≤
        acc.getD k 0 + if x.2 < k ∧ k ≤ x.2 + b.length then 81 else 0 := by
    intro x isX acc
    have columns : (positions b).map (fun y => x.2 + y.2 + 1) =
        ((positions b).map Prod.snd).map (fun j => x.2 + j + 1) := by
      rw [List.map_map]
      rfl
    have distinct : ((positions b).map (fun y => x.2 + y.2 + 1)).Nodup := by
      rw [columns, positions_snd]
      apply List.Nodup.map
      · intro i j same
        simpa using same
      · exact List.nodup_reverse.mpr List.nodup_range
    have added := @getD_row_le (positions b) (fun y => x.2 + y.2 + 1) (fun y => x.1 * y.1) 81
      distinct (fun y isY => Nat.mul_le_mul (digitsOf isA x isX) (digitsOf isB y isY)) acc k
    have inRow : k ∈ (positions b).map (fun y => x.2 + y.2 + 1) → x.2 < k ∧ k ≤ x.2 + b.length := by
      rw [columns, positions_snd]
      simp only [List.mem_map, List.mem_reverse, List.mem_range]
      rintro ⟨j, below, rfl⟩
      omega
    apply Nat.le_trans added
    by_cases meets : k ∈ (positions b).map (fun y => x.2 + y.2 + 1)
    · rw [if_pos meets, if_pos (inRow meets)]
    · rw [if_neg meets]
      exact Nat.le_add_right _ _
  have rows : ∀ xs : List (Nat × Nat), (∀ x ∈ xs, x ∈ positions a) → ∀ acc : List Nat,
      (xs.foldl (fun acc x => (positions b).foldl (fun acc y =>
        acc.modify (x.2 + y.2 + 1) (fun c => c + x.1 * y.1)) acc) acc).getD k 0 ≤
          acc.getD k 0 + 81 * (xs.map Prod.snd).countP (fun i => i < k ∧ k ≤ i + b.length) := by
    intro xs
    induction xs with
    | nil => simp
    | cons x rest ih =>
      intro isA acc
      obtain ⟨isX, later⟩ := List.forall_mem_cons.mp isA
      rw [List.foldl_cons, List.map_cons, List.countP_cons]
      apply Nat.le_trans (ih later _)
      have here := row x isX acc
      by_cases meets : x.2 < k ∧ k ≤ x.2 + b.length
      · rw [if_pos meets] at here
        rw [if_pos (decide_eq_true meets)]
        omega
      · rw [if_neg meets] at here
        rw [if_neg (by simpa using meets)]
        omega
  have whole := rows (positions a) (fun x isX => isX) (List.replicate (a.length + b.length) 0)
  have few : ((positions a).map Prod.snd).countP (fun i => i < k ∧ k ≤ i + b.length) ≤ b.length := by
    rw [positions_snd, List.countP_eq_length_filter, ← List.toFinset_card_of_nodup
      (List.Nodup.filter _ (List.nodup_reverse.mpr List.nodup_range))]
    calc _ ≤ (Finset.Ico (k - b.length) k).card := by
            apply Finset.card_le_card
            intro i member
            simp only [List.mem_toFinset, List.mem_filter, decide_eq_true_eq] at member
            rw [Finset.mem_Ico]
            omega
      _ ≤ b.length := by
            rw [Nat.card_Ico]
            omega
  have initially : (List.replicate (a.length + b.length) 0).getD k 0 = 0 := by
    simp [List.getD_eq_getElem?_getD, List.getElem?_replicate]
    split <;> rfl
  rw [initially] at whole
  exact Nat.le_trans whole (by omega)

theorem columnsBelow_of_le {cs : List Nat} {most carry : Nat} (small : most < 2 ^ 31)
    (atMost : ∀ c ∈ cs, c ≤ most) (isCarry : carry ≤ most) : ColumnsBelow cs carry := by
  induction cs generalizing carry with
  | nil => trivial
  | cons c rest ih =>
    obtain ⟨here, later⟩ := List.forall_mem_cons.mp atMost
    exact ⟨by omega, ih later (by omega)⟩

theorem columnsFit_of_length (isA : ∀ x ∈ a, x < 10) (isB : ∀ x ∈ b, x < 10)
    (short : 81 * b.length < 2 ^ 31) : ColumnsFit a b := by
  apply columnsBelow_of_le short _ (Nat.zero_le _)
  intro c member
  obtain ⟨k, inside, rfl⟩ := List.getElem_of_mem (List.mem_reverse.mp member)
  have atMost := columnSums_le isA isB k
  rwa [List.getD_eq_getElem?_getD, List.getElem?_eq_getElem inside] at atMost

end NoidaDb.Sql
