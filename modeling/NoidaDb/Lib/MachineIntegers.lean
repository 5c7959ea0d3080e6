/-
Machine integers as ranges, and computations that stop where a result leaves its range.

Where all results are in range, the checks can be dropped.
-/

import Mathlib.Algebra.Ring.Int.Defs
import Mathlib.Algebra.Ring.Nat
import Mathlib.Data.List.Basic

namespace NoidaDb.Lib

/-- The integers from `least` on that are less than `bound`. -/
structure IntType where
  least : Int
  bound : Int

namespace IntType

def signed (bits : Nat) : IntType := ⟨-2 ^ (bits - 1), 2 ^ (bits - 1)⟩

def unsigned (bits : Nat) : IntType := ⟨0, 2 ^ bits⟩

def Holds (type : IntType) (n : Int) : Prop := type.least ≤ n ∧ n < type.bound

instance (type : IntType) (n : Int) : Decidable (type.Holds n) :=
  inferInstanceAs (Decidable (_ ∧ _))

variable {ε : Type}

def check (type : IntType) (failure : ε) (n : Int) : Except ε Int :=
  if type.Holds n then .ok n else .error failure

theorem check_ok {type : IntType} {failure : ε} {n : Int} (holds : type.Holds n) :
    type.check failure n = .ok n := if_pos holds

theorem check_error {type : IntType} {failure : ε} {n : Int} (outside : ¬ type.Holds n) :
    type.check failure n = .error failure := if_neg outside

end IntType

theorem ok_bind {ε α β : Type} (a : α) (next : α → Except ε β) :
    (Except.ok a >>= next) = next a := rfl

theorem error_bind {ε α β : Type} (e : ε) (next : α → Except ε β) :
    ((Except.error e : Except ε α) >>= next) = .error e := rfl

abbrev i32 : IntType := .signed 32

abbrev i64 : IntType := .signed 64

abbrev u32 : IntType := .unsigned 32

variable {n : Int}

theorem i32_holds : i32.Holds n ↔ -2147483648 ≤ n ∧ n < 2147483648 := Iff.rfl

theorem i64_holds : i64.Holds n ↔ -9223372036854775808 ≤ n ∧ n < 9223372036854775808 := Iff.rfl

theorem u32_holds : u32.Holds n ↔ 0 ≤ n ∧ n < 4294967296 := Iff.rfl

end NoidaDb.Lib
