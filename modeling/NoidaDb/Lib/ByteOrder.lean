/-
Numbers as bytes, the low or the high byte first, and two's complement.
-/

import Mathlib.Tactic.Positivity
import Mathlib.Tactic.Zify
import Mathlib.Tactic.Ring

namespace NoidaDb.Lib

def leBytes : Nat → Nat → List UInt8
  | 0, _ => []
  | width + 1, n => (n % 256).toUInt8 :: leBytes width (n / 256)

def ofLe : List UInt8 → Nat
  | [] => 0
  | b :: bs => b.toNat + 256 * ofLe bs

def beBytes (width n : Nat) : List UInt8 := (leBytes width n).reverse

def ofBe (bs : List UInt8) : Nat := ofLe bs.reverse

@[simp] theorem length_leBytes (width n : Nat) : (leBytes width n).length = width := by
  induction width generalizing n with
  | zero => rfl
  | succ width ih =>
    unfold leBytes
    rw [List.length_cons, ih]

@[simp] theorem length_beBytes (width n : Nat) : (beBytes width n).length = width := by
  unfold beBytes
  rw [List.length_reverse, length_leBytes]

theorem toNat_byte {n : Nat} (small : n < 256) : n.toUInt8.toNat = n := by
  show n % 2 ^ 8 = n
  exact Nat.mod_eq_of_lt small

theorem ofLe_leBytes {width n : Nat} (fits : n < 256 ^ width) : ofLe (leBytes width n) = n := by
  induction width generalizing n with
  | zero =>
    have isZero : n = 0 := Nat.lt_one_iff.mp fits
    rw [isZero]
    rfl
  | succ width ih =>
    unfold leBytes ofLe
    have rest : n / 256 < 256 ^ width := by
      rw [Nat.pow_succ] at fits
      exact Nat.div_lt_of_lt_mul (by rw [Nat.mul_comm]; exact fits)
    rw [ih rest, toNat_byte (Nat.mod_lt _ (by omega))]
    exact Nat.mod_add_div n 256

theorem ofBe_beBytes {width n : Nat} (fits : n < 256 ^ width) : ofBe (beBytes width n) = n := by
  unfold ofBe beBytes
  rw [List.reverse_reverse]
  exact ofLe_leBytes fits

def ofTwos (bits n : Nat) : Int := if n < 2 ^ (bits - 1) then n else (n : Int) - 2 ^ bits

def twos (bits : Nat) (i : Int) : Nat := (i % 2 ^ bits).toNat

theorem twos_lt (bits : Nat) (i : Int) : twos bits i < 2 ^ bits := by
  have positive : (0 : Int) < 2 ^ bits := by positivity
  have below := Int.emod_lt_of_pos i positive
  have notNegative := Int.emod_nonneg i (ne_of_gt positive)
  unfold twos
  zify
  rw [Int.toNat_of_nonneg notNegative]
  exact below

theorem ofTwos_twos {bits : Nat} {i : Int} (some' : 0 < bits) (low : -2 ^ (bits - 1) ≤ i)
    (high : i < 2 ^ (bits - 1)) : ofTwos bits (twos bits i) = i := by
  have double : (2 : Int) ^ bits = 2 * 2 ^ (bits - 1) := by
    rw [← pow_succ', Nat.sub_add_cancel some']
  have doubleNat : 2 ^ bits = 2 * 2 ^ (bits - 1) := by
    rw [← pow_succ', Nat.sub_add_cancel some']
  have positive : (0 : Int) < 2 ^ (bits - 1) := by positivity
  have isCast : ((2 ^ (bits - 1) : Nat) : Int) = 2 ^ (bits - 1) := by push_cast; rfl
  have isNat : ((twos bits i : Nat) : Int) = i % 2 ^ bits := by
    unfold twos
    exact Int.toNat_of_nonneg (Int.emod_nonneg i (by rw [double]; omega))
  by_cases negative : i < 0
  · have isMod : i % 2 ^ bits = i + 2 ^ bits := by
      rw [← Int.add_emod_right]
      exact Int.emod_eq_of_lt (by rw [double]; omega) (by omega)
    rw [isMod, double] at isNat
    unfold ofTwos
    rw [if_neg (by zify; rw [isNat]; omega), isNat, double]
    omega
  · have isMod : i % 2 ^ bits = i := Int.emod_eq_of_lt (by omega) (by rw [double]; omega)
    rw [isMod] at isNat
    unfold ofTwos
    rw [if_pos (by zify; rw [isNat]; exact high), isNat]

end NoidaDb.Lib
