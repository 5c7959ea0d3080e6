/-
The order of jsonb values, and of the numbers in them.
-/

import NoidaDb.Lib.Orders
import NoidaDb.Sql.Json
import NoidaDb.Sql.NumericArithmetic

namespace NoidaDb.Sql

open Lib

inductive Amount where
  | nan
  | inf (neg : Bool)
  | real (q : Rat)
deriving DecidableEq

namespace Numeric

def amount : Numeric → Amount
  | .nan => .nan
  | .inf neg => .inf neg
  | .fin d => .real d.value

def Normal : Numeric → Prop
  | .fin d => d.Normal
  | _ => True

end Numeric

namespace Amount

def place : Amount → Nat
  | inf true => 0
  | real _ => 1
  | inf false => 2
  | nan => 3

def rational : Amount → Rat
  | real q => q
  | _ => 0

def cmp : Amount → Amount → Ordering :=
  compareLex (compareOn place) (compareOn rational)

instance : Std.TransCmp cmp := by
  unfold cmp
  infer_instance

theorem cmp_eq_iff (a b : Amount) : a.cmp b = .eq ↔ a = b := by
  unfold cmp
  rw [compareLex_eq_eq]
  simp only [compareOn, Std.LawfulEqOrd.compare_eq_iff_eq]
  constructor
  · intro both
    obtain ⟨samePlace, sameRational⟩ := both
    cases a with
    | nan =>
      cases b with
      | nan => rfl
      | inf y => cases y <;> cases samePlace
      | real y => cases samePlace
    | inf x =>
      cases b with
      | nan => cases x <;> cases samePlace
      | inf y => cases x <;> cases y <;> first | rfl | cases samePlace
      | real y => cases x <;> cases samePlace
    | real x =>
      cases b with
      | nan => cases samePlace
      | inf y => cases y <;> cases samePlace
      | real y => rw [show x = y from sameRational]
  · intro same
    rw [same]
    exact ⟨rfl, rfl⟩

end Amount

theorem cmpNum_amount {a b : Numeric} (normalA : a.Normal) (normalB : b.Normal) :
    cmpNum a b = a.amount.cmp b.amount := by
  cases a with
  | nan =>
    cases b with
    | nan => rfl
    | inf y => cases y <;> rfl
    | fin y => rfl
  | inf x =>
    cases b with
    | nan => cases x <;> rfl
    | inf y => cases x <;> cases y <;> rfl
    | fin y => cases x <;> rfl
  | fin x =>
    cases b with
    | nan => rfl
    | inf y => cases y <;> rfl
    | fin y =>
      rw [cmpNum_exact normalA normalB, cmp_eq_compare]
      rfl

theorem cmpNum_preorder : PreorderOn cmpNum Numeric.Normal :=
  PreorderOn.of_key Amount.cmp Numeric.amount
    (fun _ _ normalA normalB => cmpNum_amount normalA normalB)

def cmpText (a b : String) : Ordering := compare (a.toList.map Char.toNat) (b.toList.map Char.toNat)

theorem cmpText_eq_iff (a b : String) : cmpText a b = .eq ↔ a = b := by
  unfold cmpText
  rw [Std.LawfulEqOrd.compare_eq_iff_eq]
  constructor
  · intro same
    have injective : Function.Injective Char.toNat := fun _ _ sameCode => Char.toNat_inj.mp sameCode
    exact String.toList_inj.mp (List.map_injective_iff.mpr injective same)
  · intro same
    rw [same]

theorem cmpText_preorder : PreorderOn cmpText (fun _ => True) :=
  PreorderOn.of_key compare (fun s : String => s.toList.map Char.toNat)
    (fun _ _ _ _ => rfl)

theorem keyCmp_preorder : PreorderOn Json.keyCmp (fun _ => True) :=
  PreorderOn.andThen
    (PreorderOn.of_key compare String.utf8ByteSize (fun _ _ _ _ => rfl)) cmpText_preorder

theorem keyCmp_eq_iff (a b : String) : Json.keyCmp a b = .eq ↔ a = b := by
  unfold Json.keyCmp
  rw [Ordering.then_eq_eq]
  constructor
  · intro both
    exact (cmpText_eq_iff a b).mp both.2
  · intro same
    rw [same]
    exact ⟨Std.ReflOrd.compare_self, (cmpText_eq_iff b b).mpr rfl⟩

namespace Json

def rank : Json → Nat
  | null => 1
  | str _ => 2
  | num _ => 3
  | bool _ => 4
  | array _ => 5
  | object _ => 6

mutual

def cmpJsonb : Json → Json → Ordering
  | null, null => .eq
  | bool x, bool y => compare x y
  | num x, num y => cmpNum x y
  | str x, str y => cmpText x y
  | array x, array y => (compare x.length y.length).then (cmpItems x y)
  | object x, object y => (compare x.length y.length).then (cmpMembers x y)
  | a, b => compare a.rank b.rank

def cmpItems : List Json → List Json → Ordering
  | [], _ => .eq
  | _ :: _, [] => .eq
  | p :: xs, q :: ys =>
    match cmpJsonb p q with
    | .eq => cmpItems xs ys
    | o => o

def cmpMembers : List (String × Json) → List (String × Json) → Ordering
  | [], _ => .eq
  | _ :: _, [] => .eq
  | (ka, va) :: xs, (kb, vb) :: ys =>
    match (keyCmp ka kb).then (cmpJsonb va vb) with
    | .eq => cmpMembers xs ys
    | o => o

end

def cmpMember (a b : String × Json) : Ordering := (keyCmp a.1 b.1).then (cmpJsonb a.2 b.2)

theorem cmpItems_eq (xs ys : List Json) : cmpItems xs ys = firstDifference cmpJsonb xs ys := by
  induction xs generalizing ys with
  | nil => rfl
  | cons x xs ih =>
    cases ys with
    | nil => rfl
    | cons y ys =>
      have first : cmpItems (x :: xs) (y :: ys) = (cmpJsonb x y).then (cmpItems xs ys) := by
        rw [cmpItems]
        cases cmpJsonb x y <;> rfl
      rw [first, firstDifference_cons, ih]

theorem cmpMembers_eq (xs ys : List (String × Json)) :
    cmpMembers xs ys = firstDifference cmpMember xs ys := by
  induction xs generalizing ys with
  | nil => rfl
  | cons x xs ih =>
    cases ys with
    | nil => rfl
    | cons y ys =>
      have first : cmpMembers (x :: xs) (y :: ys) =
          (cmpMember x y).then (cmpMembers xs ys) := by
        rw [cmpMembers, cmpMember]
        cases (keyCmp x.1 y.1).then (cmpJsonb x.2 y.2) <;> rfl
      rw [first, firstDifference_cons, ih]

/-- A value with at most `n` levels whose numbers are normal. -/
inductive Normal : Nat → Json → Prop
  | null (n : Nat) : Normal n .null
  | bool (n : Nat) (b : Bool) : Normal n (.bool b)
  | num {n : Nat} {v : Numeric} (normal : v.Normal) : Normal n (.num v)
  | str (n : Nat) (s : String) : Normal n (.str s)
  | array {n : Nat} {vs : List Json} (items : ∀ v ∈ vs, Normal n v) : Normal (n + 1) (.array vs)
  | object {n : Nat} {vs : List (String × Json)} (members : ∀ v ∈ vs, Normal n v.2) :
      Normal (n + 1) (.object vs)

/-- PostgreSQL's `=`: the same value up to the scales of its numbers. -/
inductive Same : Json → Json → Prop
  | null : Same .null .null
  | bool (b : Bool) : Same (.bool b) (.bool b)
  | num {x y : Numeric} (amount : x.amount = y.amount) : Same (.num x) (.num y)
  | str (s : String) : Same (.str s) (.str s)
  | array {xs ys : List Json} (length : xs.length = ys.length)
      (items : ∀ p ∈ xs.zip ys, Same p.1 p.2) : Same (.array xs) (.array ys)
  | object {xs ys : List (String × Json)} (length : xs.length = ys.length)
      (keys : ∀ p ∈ xs.zip ys, p.1.1 = p.2.1) (members : ∀ p ∈ xs.zip ys, Same p.1.2 p.2.2) :
      Same (.object xs) (.object ys)

theorem cmpJsonb_cross (a b : Json) (different : a.rank ≠ b.rank) :
    cmpJsonb a b = compare a.rank b.rank := by
  cases a <;> cases b <;> first | rfl | exact (different rfl).elim

def Below (n : Nat) (v : Json) : Prop := ∃ m, n = m + 1 ∧ Normal m v

variable {n : Nat}

theorem items_below {vs : List Json} (normal : Normal n (.array vs)) : ∀ v ∈ vs, Below n v := by
  cases normal with
  | array items => exact fun v isV => ⟨_, rfl, items v isV⟩

theorem members_below {vs : List (String × Json)} (normal : Normal n (.object vs)) :
    ∀ v ∈ vs, Below n v.2 := by
  cases normal with
  | object members => exact fun v isV => ⟨_, rfl, members v isV⟩

theorem cmpMember_preorder {S : Json → Prop} (order : PreorderOn cmpJsonb S) :
    PreorderOn cmpMember (fun m => S m.2) := by
  have keys : PreorderOn (fun a b : String × Json => keyCmp a.1 b.1) (fun m => S m.2) :=
    keyCmp_preorder.comap Prod.fst (fun _ _ => trivial) (fun _ _ _ _ => rfl)
  have values : PreorderOn (fun a b : String × Json => cmpJsonb a.2 b.2) (fun m => S m.2) :=
    order.comap Prod.snd (fun _ isS => isS) (fun _ _ _ _ => rfl)
  exact keys.andThen values

def boolOf : Json → Bool
  | bool b => b
  | _ => false

def numberOf : Json → Numeric
  | num v => v
  | _ => .nan

def textOf : Json → String
  | str s => s
  | _ => ""

def itemsOf : Json → List Json
  | array vs => vs
  | _ => []

def membersOf : Json → List (String × Json)
  | object vs => vs
  | _ => []

theorem preorder_of_below (below : PreorderOn cmpJsonb (Below n)) :
    PreorderOn cmpJsonb (Normal n) := by
  apply PreorderOn.of_ranks rank (fun a b _ _ => cmpJsonb_cross a b)
  intro r
  have numbers : ∀ a, Normal n a ∧ rank a = r → (numberOf a).Normal := by
    intro a isA
    cases isA.1 with
    | num normal => exact normal
    | _ => trivial
  have items : ∀ a, Normal n a ∧ rank a = r → ∀ v ∈ itemsOf a, Below n v := by
    intro a isA
    cases a with
    | array vs => exact items_below isA.1
    | _ => simp [itemsOf]
  have members : ∀ a, Normal n a ∧ rank a = r → ∀ v ∈ membersOf a, Below n v.2 := by
    intro a isA
    cases a with
    | object vs => exact members_below isA.1
    | _ => simp [membersOf]
  by_cases isNull : r = 1
  · apply PreorderOn.of_key compare rank
    intro a b isA isB
    cases a <;> cases b <;> simp [rank, isNull] at isA isB
    rfl
  · by_cases isStr : r = 2
    · apply cmpText_preorder.comap textOf (fun _ _ => trivial)
      intro a b isA isB
      cases a <;> cases b <;> simp [rank, isStr] at isA isB
      rfl
    · by_cases isNum : r = 3
      · apply cmpNum_preorder.comap numberOf numbers
        intro a b isA isB
        cases a <;> cases b <;> simp [rank, isNum] at isA isB
        rfl
      · by_cases isBool : r = 4
        · apply PreorderOn.of_key compare boolOf
          intro a b isA isB
          cases a <;> cases b <;> simp [rank, isBool] at isA isB
          rfl
        · by_cases isArray : r = 5
          · apply below.listsByLength.comap itemsOf items
            intro a b isA isB
            cases a <;> cases b <;> simp [rank, isArray] at isA isB
            rw [cmpJsonb, cmpItems_eq]
            rfl
          · apply (cmpMember_preorder below).listsByLength.comap membersOf members
            intro a b isA isB
            cases a <;> cases b <;> simp [rank] at isA isB <;> try omega
            rw [cmpJsonb, cmpMembers_eq]
            rfl

theorem cmpJsonb_preorder (n : Nat) : PreorderOn cmpJsonb (Normal n) := by
  induction n with
  | zero =>
    apply preorder_of_below
    apply PreorderOn.of_key compare rank
    intro a b isA isB
    obtain ⟨m, impossible, _⟩ := isA
    cases impossible
  | succ n ih =>
    apply preorder_of_below
    apply ih.mono
    intro v isV
    obtain ⟨m, same, normal⟩ := isV
    rw [Nat.succ.inj same]
    exact normal

theorem Normal.mono {v : Json} (normal : Normal n v) {m : Nat} (more : n ≤ m) : Normal m v := by
  induction normal generalizing m with
  | null n => exact Normal.null m
  | bool n b => exact Normal.bool m b
  | num normal => exact Normal.num normal
  | str n s => exact Normal.str m s
  | array items ih =>
    obtain ⟨k, rfl⟩ := Nat.exists_eq_add_of_lt more
    exact Normal.array (fun v isV => ih v isV (by omega))
  | object members ih =>
    obtain ⟨k, rfl⟩ := Nat.exists_eq_add_of_lt more
    exact Normal.object (fun v isV => ih v isV (by omega))

theorem cmpJsonb_order : PreorderOn cmpJsonb (fun j => ∃ n, Normal n j) := by
  apply PreorderOn.intro
  · intro a b isA isB
    obtain ⟨n, normalA⟩ := isA
    obtain ⟨m, normalB⟩ := isB
    exact (cmpJsonb_preorder (max n m)).swap (normalA.mono (by omega)) (normalB.mono (by omega))
  · intro a b c isA isB isC first second
    obtain ⟨n, normalA⟩ := isA
    obtain ⟨m, normalB⟩ := isB
    obtain ⟨k, normalC⟩ := isC
    exact (cmpJsonb_preorder (max n (max m k))).trans (normalA.mono (by omega))
      (normalB.mono (by omega)) (normalC.mono (by omega)) first second

theorem sized_eq_iff {α : Type} (cmp : α → α → Ordering) (xs ys : List α) :
    (compare xs.length ys.length).then (firstDifference cmp xs ys) = .eq ↔
      xs.length = ys.length ∧ ∀ p ∈ xs.zip ys, cmp p.1 p.2 = .eq := by
  rw [Ordering.then_eq_eq, Nat.compare_eq_eq]
  apply and_congr_right
  intro sameLength
  rw [firstDifference_eq_iff cmp xs ys sameLength, List.forall₂_iff_zip]
  constructor
  · intro each p isPair
    exact each.2 isPair
  · intro each
    exact ⟨sameLength, fun isPair => each _ isPair⟩

theorem cross_iff {a b : Json} (different : a.rank ≠ b.rank) : cmpJsonb a b = .eq ↔ Same a b := by
  rw [cmpJsonb_cross a b different, Nat.compare_eq_eq]
  constructor
  · intro same
    exact (different same).elim
  · intro same
    cases same <;> exact (different rfl).elim

theorem cmpJsonb_eq_iff {a : Json} (normalA : Normal n a) {m : Nat} {b : Json}
    (normalB : Normal m b) : cmpJsonb a b = .eq ↔ Same a b := by
  induction normalA generalizing m b with
  | null n =>
    cases b with
    | null => exact ⟨fun _ => Same.null, fun _ => rfl⟩
    | _ => exact cross_iff (by simp [rank])
  | bool n x =>
    cases b with
    | bool y =>
      rw [cmpJsonb, Std.LawfulEqOrd.compare_eq_iff_eq]
      constructor
      · intro same
        rw [same]
        exact Same.bool y
      · intro same
        cases same
        rfl
    | _ => exact cross_iff (by simp [rank])
  | @num n x normal =>
    cases b with
    | num y =>
      cases normalB with
      | num normal' =>
        rw [cmpJsonb, cmpNum_amount normal normal', Amount.cmp_eq_iff]
        constructor
        · intro same
          exact Same.num same
        · intro same
          cases same with
          | num amount => exact amount
    | _ => exact cross_iff (by simp [rank])
  | str n x =>
    cases b with
    | str y =>
      rw [cmpJsonb, cmpText_eq_iff]
      constructor
      · intro same
        rw [same]
        exact Same.str y
      · intro same
        cases same
        rfl
    | _ => exact cross_iff (by simp [rank])
  | @array n xs items ih =>
    cases b with
    | array ys =>
      have each : ∀ p ∈ xs.zip ys, (cmpJsonb p.1 p.2 = .eq ↔ Same p.1 p.2) := by
        intro p isPair
        obtain ⟨k, _, normal⟩ := items_below normalB p.2 (List.of_mem_zip isPair).2
        exact ih p.1 (List.of_mem_zip isPair).1 normal
      rw [cmpJsonb, cmpItems_eq, sized_eq_iff]
      constructor
      · intro same
        exact Same.array same.1 (fun p isPair => (each p isPair).mp (same.2 p isPair))
      · intro same
        cases same with
        | array length same => exact ⟨length, fun p isPair => (each p isPair).mpr (same p isPair)⟩
    | _ => exact cross_iff (by simp [rank])
  | @object n xs members ih =>
    cases b with
    | object ys =>
      have each : ∀ p ∈ xs.zip ys, (cmpMember p.1 p.2 = .eq ↔
          p.1.1 = p.2.1 ∧ Same p.1.2 p.2.2) := by
        intro p isPair
        obtain ⟨k, _, normal⟩ := members_below normalB p.2 (List.of_mem_zip isPair).2
        rw [cmpMember, Ordering.then_eq_eq, keyCmp_eq_iff,
          ih p.1 (List.of_mem_zip isPair).1 normal]
      rw [cmpJsonb, cmpMembers_eq, sized_eq_iff]
      constructor
      · intro same
        exact Same.object same.1 (fun p isPair => ((each p isPair).mp (same.2 p isPair)).1)
          (fun p isPair => ((each p isPair).mp (same.2 p isPair)).2)
      · intro same
        cases same with
        | object length keys same =>
          exact ⟨length, fun p isPair => (each p isPair).mpr ⟨keys p isPair, same p isPair⟩⟩
    | _ => exact cross_iff (by simp [rank])

end Json

end NoidaDb.Sql
