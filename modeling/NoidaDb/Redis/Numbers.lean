/-
Numbers are read back as they are shown.
-/

import NoidaDb.Redis.Bytes
import Mathlib.Data.Nat.Digits.Lemmas

namespace NoidaDb.Redis

theorem valueOf_append (xs ys : Bytes) :
    valueOf (xs ++ ys) = ys.foldl (fun n b => 10 * n + digitValue b) (valueOf xs) := by
  unfold valueOf
  rw [List.foldl_append]

def digitByte (d : Nat) : UInt8 := (48 + d).toUInt8

variable {b : UInt8} {d : Nat}

theorem digitByte_toNat (small : d < 10) : (digitByte d).toNat = 48 + d := by
  unfold digitByte
  simp
  omega

theorem digitValue_digitByte (small : d < 10) : digitValue (digitByte d) = d := by
  unfold digitValue
  rw [digitByte_toNat small]
  omega

theorem isAsciiDigit_digitByte (small : d < 10) : isAsciiDigit (digitByte d) = true := by
  unfold isAsciiDigit
  rw [digitByte_toNat small]
  simp
  omega

theorem valueOf_digits {digits : List Nat} (small : ∀ d ∈ digits, d < 10) :
    valueOf (digits.reverse.map digitByte) = Nat.ofDigits 10 digits := by
  induction digits with
  | nil => rfl
  | cons d digits ih =>
    obtain ⟨first, later⟩ := List.forall_mem_cons.mp small
    rw [List.reverse_cons, List.map_append, valueOf_append, ih later]
    show 10 * Nat.ofDigits 10 digits + digitValue (digitByte d) = _
    rw [digitValue_digitByte first, Nat.ofDigits_cons]
    omega

theorem showNat_eq {n : Nat} (positive : n ≠ 0) :
    showNat n = (Nat.digits 10 n).reverse.map digitByte := by
  unfold showNat
  rw [if_neg positive]
  rfl

theorem digits_small (n : Nat) : ∀ d ∈ Nat.digits 10 n, d < 10 :=
  fun _ member => Nat.digits_lt_base (by decide) member

@[simp] theorem valueOf_showNat (n : Nat) : valueOf (showNat n) = n := by
  by_cases isZero : n = 0
  · rw [isZero]
    rfl
  · rw [showNat_eq isZero, valueOf_digits (digits_small n), Nat.ofDigits_digits]

theorem showNat_digits (n : Nat) : ∀ b ∈ showNat n, isAsciiDigit b = true := by
  intro b member
  by_cases isZero : n = 0
  · rw [isZero] at member
    rw [List.mem_singleton.mp member]
    rfl
  · rw [showNat_eq isZero] at member
    obtain ⟨d, isDigit, same⟩ := List.mem_map.mp member
    rw [← same]
    exact isAsciiDigit_digitByte (digits_small n d (List.mem_reverse.mp isDigit))

theorem showNat_ne_nil (n : Nat) : showNat n ≠ [] := by
  by_cases isZero : n = 0
  · rw [isZero]
    decide
  · rw [showNat_eq isZero]
    intro isNil
    have noDigits := List.reverse_eq_nil_iff.mp (List.map_eq_nil_iff.mp isNil)
    exact isZero (Nat.digits_eq_nil_iff_eq_zero.mp noDigits)

theorem digit_ne_plus (isDigit : isAsciiDigit b = true) : b ≠ 43 := by
  intro same
  rw [same] at isDigit
  revert isDigit
  decide

theorem digit_ne_minus (isDigit : isAsciiDigit b = true) : b ≠ 45 := by
  intro same
  rw [same] at isDigit
  revert isDigit
  decide

theorem parseU64_showNat (n : U64) : parseU64 (showNat n.val) = some n := by
  have noPlus : (showNat n.val).head? ≠ some 43 := by
    intro isHead
    exact digit_ne_plus (showNat_digits n.val 43 (List.mem_of_head? isHead)) rfl
  unfold parseU64
  simp only [beq_eq_false_iff_ne.mpr noPlus, Bool.false_eq_true, if_false]
  rw [if_pos, dif_pos]
  · congr 1
    apply Fin.ext
    exact valueOf_showNat n.val
  · rw [valueOf_showNat]
    exact n.isLt
  · exact ⟨showNat_ne_nil n.val, List.all_eq_true.mpr (showNat_digits n.val)⟩

theorem digitByte_digitValue (isDigit : isAsciiDigit b = true) : digitByte (digitValue b) = b := by
  unfold isAsciiDigit at isDigit
  simp only [Bool.and_eq_true, decide_eq_true_eq] at isDigit
  apply UInt8.toNat_inj.mp
  rw [digitByte_toNat (by unfold digitValue; omega)]
  unfold digitValue
  omega

theorem digitValue_lt {digits : Bytes} (areDigits : ∀ b ∈ digits, isAsciiDigit b = true) :
    ∀ d ∈ digits.reverse.map digitValue, d < 10 := by
  intro d member
  obtain ⟨b, isByte, same⟩ := List.mem_map.mp member
  have isDigit := areDigits b (List.mem_reverse.mp isByte)
  unfold isAsciiDigit at isDigit
  simp only [Bool.and_eq_true, decide_eq_true_eq] at isDigit
  unfold digitValue at same
  omega

theorem map_digitByte {digits : Bytes} (areDigits : ∀ b ∈ digits, isAsciiDigit b = true) :
    (digits.reverse.map digitValue).reverse.map digitByte = digits := by
  rw [← List.map_reverse, List.reverse_reverse, List.map_map]
  calc digits.map (digitByte ∘ digitValue) = digits.map id :=
        List.map_congr_left (fun b member => digitByte_digitValue (areDigits b member))
    _ = digits := List.map_id digits

theorem valueOf_eq {digits : Bytes} (areDigits : ∀ b ∈ digits, isAsciiDigit b = true) :
    valueOf digits = Nat.ofDigits 10 (digits.reverse.map digitValue) := by
  rw [← valueOf_digits (digitValue_lt areDigits), map_digitByte areDigits]

theorem showNat_valueOf {bs : Bytes} (notZero : b ≠ 48)
    (areDigits : ∀ c ∈ b :: bs, isAsciiDigit c = true) : showNat (valueOf (b :: bs)) = b :: bs := by
  have lastNotZero : ∀ notNil : (b :: bs).reverse.map digitValue ≠ [],
      ((b :: bs).reverse.map digitValue).getLast notNil ≠ 0 := by
    intro notNil isZero
    rw [List.getLast_map, List.getLast_reverse, List.head_cons] at isZero
    have same := digitByte_digitValue (areDigits b List.mem_cons_self)
    rw [isZero] at same
    exact notZero same.symm
  have isDigits : Nat.digits 10 (valueOf (b :: bs)) = (b :: bs).reverse.map digitValue := by
    rw [valueOf_eq areDigits]
    exact Nat.digits_ofDigits 10 (by decide) _ (digitValue_lt areDigits) lastNotZero
  have positive : valueOf (b :: bs) ≠ 0 := by
    intro isZero
    rw [isZero, Nat.digits_zero] at isDigits
    simp at isDigits
  rw [showNat_eq positive, isDigits, map_digitByte areDigits]

theorem valueOf_pos {bs : Bytes} (notZero : b ≠ 48)
    (areDigits : ∀ c ∈ b :: bs, isAsciiDigit c = true) : 0 < valueOf (b :: bs) := by
  apply Nat.pos_of_ne_zero
  intro isZero
  have shown := showNat_valueOf notZero areDigits
  rw [isZero] at shown
  cases shown
  exact notZero rfl

theorem first_ne_zero {d : UInt8} {ds : Bytes}
    (headDigit : (d :: ds).head?.any (fun d => isAsciiDigit d && d != 48) = true) : d ≠ 48 := by
  intro same
  rw [same] at headDigit
  cases headDigit

theorem showInt_parseInt {b : Bytes} {n : Int} (isNumber : parseInt b = some n) :
    showInt n = b := by
  unfold parseInt at isNumber
  split at isNumber
  next empty => cases isNumber
  next notEmpty =>
  split at isNumber
  next isZero =>
    cases isNumber
    rw [isZero]
    rfl
  next notZero =>
  by_cases minus : b.head? = some 45
  · obtain ⟨ds, rfl⟩ := List.head?_eq_some_iff.mp minus
    simp only [List.head?_cons, BEq.rfl, if_true, List.tail_cons] at isNumber
    split at isNumber
    next isSpelled =>
      obtain ⟨headDigit, allDigits⟩ := Bool.and_eq_true_iff.mp isSpelled
      have number := (Option.ite_none_right_eq_some.mp isNumber).2
      cases ds with
      | nil => cases headDigit
      | cons d ds =>
        have firstNotZero := first_ne_zero headDigit
        have areDigits := List.all_eq_true.mp allDigits
        have positive := valueOf_pos firstNotZero areDigits
        cases number
        unfold showInt
        rw [if_pos (by omega), Int.natAbs_neg, Int.natAbs_natCast,
          showNat_valueOf firstNotZero areDigits]
    next notSpelled => cases isNumber
  · have noMinus : (b.head? == some 45) = false := beq_eq_false_iff_ne.mpr minus
    simp only [noMinus, Bool.false_eq_true, if_false] at isNumber
    split at isNumber
    next isSpelled =>
      obtain ⟨headDigit, allDigits⟩ := Bool.and_eq_true_iff.mp isSpelled
      have number := (Option.ite_none_right_eq_some.mp isNumber).2
      cases b with
      | nil => cases headDigit
      | cons d ds =>
        have firstNotZero := first_ne_zero headDigit
        have areDigits := List.all_eq_true.mp allDigits
        cases number
        unfold showInt
        rw [if_neg (by omega), Int.natAbs_natCast, showNat_valueOf firstNotZero areDigits]
    next notSpelled => cases isNumber

theorem showNat_inj {m n : Nat} (same : showNat m = showNat n) : m = n := by
  rw [← valueOf_showNat m, same, valueOf_showNat]

theorem showInt_inj {i j : Int} (same : showInt i = showInt j) : i = j := by
  have noMinus (n : Nat) (bs : Bytes) : showNat n ≠ 45 :: bs := by
    intro isMinus
    have isDigit := showNat_digits n 45 (by rw [isMinus]; exact List.mem_cons_self)
    revert isDigit
    decide
  unfold showInt at same
  split at same
  next negative =>
    split at same
    next negative' =>
      have sameNat := showNat_inj (List.cons.inj same).2
      omega
    next notNegative => exact absurd same.symm (noMinus _ _)
  next notNegative =>
    split at same
    next negative => exact absurd same (noMinus _ _)
    next notNegative' =>
      have sameNat := showNat_inj same
      omega

end NoidaDb.Redis
