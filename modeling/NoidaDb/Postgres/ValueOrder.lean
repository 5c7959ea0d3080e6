/-
The order of PostgreSQL values, against the equality of PostgreSQL.

A column has one type, and a value of it is one of the variants below.  Conversions of numbers
to floating point only matter where two variants meet, which no column does.
-/

import NoidaDb.Sql.JsonOrder

namespace NoidaDb.Postgres.Types

open Lib NoidaDb.Sql

/-- A floating-point number; a finite one is `(-1)^neg * m * 2^e`. -/
inductive F64 where
  | nan
  | inf (neg : Bool)
  | finite (neg : Bool) (m : Nat) (e : Int)

namespace F64

def isNan : F64 → Bool
  | nan => true
  | _ => false

def amount : F64 → Amount
  | nan => .nan
  | inf neg => .inf neg
  | finite neg m e => .real ((if neg then -1 else 1) * m * (2 : Rat) ^ e)

end F64

/-- `f64::partial_cmp`, where neither is NaN. -/
def partialCmp (a b : F64) : Ordering := a.amount.cmp b.amount

def cmpF64 (a b : F64) : Ordering :=
  match a.isNan, b.isNan with
  | true, true => .eq
  | true, false => .gt
  | false, true => .lt
  | false, false => partialCmp a b

structure Interval where
  months : Int
  days : Int
  micros : Int

def Interval.span (i : Interval) : Int := (i.months * 30 + i.days) * 86400000000 + i.micros

structure Inet where
  v6 : Bool
  addr : List Nat
  bits : Nat

namespace Inet

def maxBits (i : Inet) : Nat := if i.v6 then 128 else 32

def len (i : Inet) : Nat := if i.v6 then 16 else 4

def bit (i : Inet) (n : Nat) : Bool := i.addr.getD (n / 8) 0 &&& (0x80 >>> (n % 8)) != 0

def cmp (a b : Inet) : Ordering :=
  if a.v6 ≠ b.v6 then compare a.v6 b.v6
  else
    let common := min a.bits b.bits
    ((firstDifference compare ((List.range common).map a.bit) ((List.range common).map b.bit)).then
      (compare a.bits b.bits)).then (compare (a.addr.take a.len) (b.addr.take b.len))

end Inet

inductive Value where
  | null
  | bool (b : Bool)
  | int (i : Int)
  | float (x : F64)
  | num (n : Numeric)
  | text (s : String)
  | bytes (b : List Nat)
  | date (d : Int)
  | time (t : Int)
  /-- Microseconds, and the offset in seconds east of UTC. -/
  | timeTz (t offset : Int)
  | ts (t : Int)
  | interval (i : Interval)
  | uuid (u : List Nat)
  | inet (i : Inet)
  | jsonb (j : Json)
  /-- Length and lower bound of each dimension, and the items in row-major order. -/
  | array (dims : List (Int × Int)) (items : List Value)
  | record (fields : List Value)

def Value.rank : Value → Nat
  | bool _ => 1
  | int _ => 2
  | float _ => 3
  | num _ => 4
  | text _ => 5
  | bytes _ => 6
  | date _ => 7
  | time _ => 8
  | timeTz .. => 9
  | ts _ => 10
  | interval _ => 11
  | uuid _ => 12
  | inet _ => 16
  | jsonb _ => 13
  | array .. => 14
  | record _ => 15
  | null => 255

structure Conversions where
  ofInt : Int → F64
  ofNum : Numeric → F64

/-- `Numeric::from_i64`. -/
def numOfInt (i : Int) : Numeric :=
  .fin { neg := i < 0, digits := (Nat.digits 10 i.natAbs).reverse, scale := 0 }

mutual

def cmpValues (conv : Conversions) : Value → Value → Ordering
  | .null, .null => .eq
  | .null, _ => .gt
  | _, .null => .lt
  | .bool x, .bool y => compare x y
  | .int x, .int y => compare x y
  | .float x, .float y => cmpF64 x y
  | .num x, .num y => cmpNum x y
  | .int x, .num y => cmpNum (numOfInt x) y
  | .num x, .int y => cmpNum x (numOfInt y)
  | .int x, .float y => cmpF64 (conv.ofInt x) y
  | .float x, .int y => cmpF64 x (conv.ofInt y)
  | .num x, .float y => cmpF64 (conv.ofNum x) y
  | .float x, .num y => cmpF64 x (conv.ofNum y)
  | .text x, .text y => cmpText x y
  | .bytes x, .bytes y => compare x y
  | .date x, .date y => compare x y
  | .time x, .time y => compare x y
  | .timeTz x ox, .timeTz y oy =>
    (compare (x - ox * 1000000) (y - oy * 1000000)).then (compare oy ox)
  | .ts x, .ts y => compare x y
  | .interval x, .interval y => compare x.span y.span
  | .uuid x, .uuid y => compare x y
  | .inet x, .inet y => x.cmp y
  | .jsonb x, .jsonb y => x.cmpJsonb y
  | .array dx x, .array dy y =>
    (cmpItems conv x y).then ((compare x.length y.length).then (compare dx.length dy.length))
  | .record x, .record y => (cmpItems conv x y).then (compare x.length y.length)
  | a, b => compare a.rank b.rank

def cmpItems (conv : Conversions) : List Value → List Value → Ordering
  | [], _ => .eq
  | _ :: _, [] => .eq
  | p :: x, q :: y =>
    match cmpValues conv p q with
    | .eq => cmpItems conv x y
    | o => o

end

/-- The types of columns.  Values of a type `textual k` are kept as text and read by PostgreSQL
as something else: `bpchar` without its trailing spaces, a range as its two bounds. -/
inductive ScalarType (κ : Type) where
  | bool
  | int
  | float
  | numeric
  | text
  | textual (k : κ)
  | bytea
  | date
  | time
  | timetz
  | timestamp
  | interval
  | uuid
  | inet
  | jsonb

inductive ColType (κ : Type) where
  | scalar (t : ScalarType κ)
  | array (t : ScalarType κ)

variable {κ M : Type}

inductive HasScalar : ScalarType κ → Value → Prop
  | bool (b : Bool) : HasScalar .bool (.bool b)
  | int (i : Int) : HasScalar .int (.int i)
  | float (x : F64) : HasScalar .float (.float x)
  | numeric {n : Numeric} (normal : n.Normal) : HasScalar .numeric (.num n)
  | text (s : String) : HasScalar .text (.text s)
  | textual (k : κ) (s : String) : HasScalar (.textual k) (.text s)
  | bytea (b : List Nat) : HasScalar .bytea (.bytes b)
  | date (d : Int) : HasScalar .date (.date d)
  | time (t : Int) : HasScalar .time (.time t)
  | timetz (t offset : Int) : HasScalar .timetz (.timeTz t offset)
  | timestamp (t : Int) : HasScalar .timestamp (.ts t)
  | interval (i : Interval) : HasScalar .interval (.interval i)
  | uuid (u : List Nat) : HasScalar .uuid (.uuid u)
  | inet {i : Inet} (size : i.addr.length = 16) (bits : i.bits ≤ i.maxBits) :
      HasScalar .inet (.inet i)
  | jsonb {n : Nat} {j : Json} (normal : j.Normal n) : HasScalar .jsonb (.jsonb j)

def HasItem (t : ScalarType κ) (v : Value) : Prop := v = .null ∨ HasScalar t v

inductive HasType : ColType κ → Value → Prop
  | scalar {t : ScalarType κ} {v : Value} (has : HasScalar t v) : HasType (.scalar t) v
  | array {t : ScalarType κ} (dims : List (Int × Int)) {items : List Value}
      (has : ∀ v ∈ items, HasItem t v) : HasType (.array t) (.array dims items)

/-- The types where only a value itself is equal to it; for `timetz`, only the same time of day
in the same zone. -/
def ScalarType.plain : ScalarType κ → Bool
  | .bool | .int | .text | .bytea | .date | .time | .timetz | .timestamp | .uuid => true
  | _ => false

/-- `=` on the values of one type; `reads` is what a text stands for. -/
inductive SameScalar (reads : κ → String → M) : ScalarType κ → Value → Value → Prop
  | plain {t : ScalarType κ} (isPlain : t.plain = true) (v : Value) : SameScalar reads t v v
  | float {x y : F64} (amount : x.amount = y.amount) : SameScalar reads .float (.float x) (.float y)
  | numeric {x y : Numeric} (amount : x.amount = y.amount) :
      SameScalar reads .numeric (.num x) (.num y)
  | textual {k : κ} {x y : String} (meaning : reads k x = reads k y) :
      SameScalar reads (.textual k) (.text x) (.text y)
  | interval {x y : Interval} (span : x.span = y.span) :
      SameScalar reads .interval (.interval x) (.interval y)
  | inet {x y : Inet} (family : x.v6 = y.v6) (bits : x.bits = y.bits)
      (addr : x.addr.take x.len = y.addr.take y.len) : SameScalar reads .inet (.inet x) (.inet y)
  | jsonb {x y : Json} (same : Json.Same x y) : SameScalar reads .jsonb (.jsonb x) (.jsonb y)

def ItemsRelated (related : Value → Value → Prop) (xs ys : List Value) : Prop :=
  xs.length = ys.length ∧ ∀ p ∈ xs.zip ys, (p.1 = .null ∧ p.2 = .null) ∨ related p.1 p.2

/-- `=` on the values of a column: arrays have the same dimensions and lower bounds. -/
inductive Same (reads : κ → String → M) : ColType κ → Value → Value → Prop
  | scalar {t : ScalarType κ} {a b : Value} (same : SameScalar reads t a b) :
      Same reads (.scalar t) a b
  | array {t : ScalarType κ} (dims : List (Int × Int)) {xs ys : List Value}
      (items : ItemsRelated (SameScalar reads t) xs ys) :
      Same reads (.array t) (.array dims xs) (.array dims ys)

def AlikeScalar (reads : κ → String → M) (t : ScalarType κ) (a b : Value) : Prop :=
  SameScalar reads t a b ∧ ∀ k, t = .textual k → a = b

inductive Alike (reads : κ → String → M) : ColType κ → Value → Value → Prop
  | scalar {t : ScalarType κ} {a b : Value} (alike : AlikeScalar reads t a b) :
      Alike reads (.scalar t) a b
  | array {t : ScalarType κ} (dx dy : List (Int × Int)) {xs ys : List Value}
      (items : ItemsRelated (AlikeScalar reads t) xs ys) :
      Alike reads (.array t) (.array dx xs) (.array dy ys)

/-- No two values whose text tells apart what is equal, and no two arrays that only differ in
the lengths or lower bounds of equally many dimensions. -/
structure Told (reads : κ → String → M) (t : ColType κ) (a b : Value) : Prop where
  text : Same reads t a b → Alike reads t a b
  dims : Alike reads t a b → ∀ dx xs dy ys, a = .array dx xs → b = .array dy ys →
    dx.length = dy.length → dx = dy

theorem cmpF64_amount (a b : F64) : cmpF64 a b = a.amount.cmp b.amount := by
  cases a with
  | nan =>
    cases b with
    | nan => rfl
    | inf y => cases y <;> rfl
    | finite y m e => rfl
  | inf x =>
    cases b with
    | nan => cases x <;> rfl
    | inf y => rfl
    | finite y m e => rfl
  | finite x m e =>
    cases b with
    | nan => rfl
    | inf y => rfl
    | finite y n f => rfl

theorem inet_common (a b : Inet) :
    (firstDifference compare ((List.range (min a.bits b.bits)).map a.bit)
      ((List.range (min a.bits b.bits)).map b.bit)).then (compare a.bits b.bits) =
    List.compareLex compare ((List.range a.bits).map a.bit) ((List.range b.bits).map b.bit) := by
  have shortened : ∀ xs ys : List Bool, firstDifference compare xs ys =
      firstDifference compare (xs.take (min xs.length ys.length))
        (ys.take (min xs.length ys.length)) := by
    intro xs
    induction xs with
    | nil => simp [firstDifference]
    | cons x xs ih =>
      intro ys
      cases ys with
      | nil => simp [firstDifference]
      | cons y ys =>
        rw [List.length_cons, List.length_cons, Nat.succ_min_succ, List.take_succ_cons,
          List.take_succ_cons, firstDifference_cons, firstDifference_cons, ih]
  rw [← firstDifference_length, shortened ((List.range a.bits).map a.bit)]
  simp [List.take_range, ← List.map_take]

theorem sameBit {a b : Inet} (bound : a.bits ≤ a.maxBits)
    (addr : a.addr.take a.len = b.addr.take b.len) (sameLen : b.len = a.len) {n : Nat}
    (isBit : n < a.bits) : a.bit n = b.bit n := by
  have inside : n / 8 < a.len := by
    unfold Inet.maxBits at bound
    unfold Inet.len
    cases family : a.v6 <;> simp only [family] at bound ⊢ <;> simp at bound ⊢ <;> omega
  have sameByte : a.addr.getD (n / 8) 0 = b.addr.getD (n / 8) 0 := by
    have found := congrArg (fun bytes => bytes[n / 8]?) addr
    simp only [sameLen, List.getElem?_take_of_lt inside] at found
    rw [List.getD_eq_getElem?_getD, List.getD_eq_getElem?_getD, found]
  unfold Inet.bit
  rw [sameByte]

theorem inet_eq_iff {a b : Inet} (bound : a.bits ≤ a.maxBits) : a.cmp b = .eq ↔
    a.v6 = b.v6 ∧ a.bits = b.bits ∧ a.addr.take a.len = b.addr.take b.len := by
  unfold Inet.cmp
  by_cases family : a.v6 = b.v6
  · rw [if_neg (not_not.mpr family), Ordering.then_eq_eq, Std.LawfulEqOrd.compare_eq_iff_eq]
    constructor
    · intro both
      rw [inet_common a b] at both
      have prefixes := Std.LawfulEqCmp.eq_of_compare both.1
      have bits := congrArg List.length prefixes
      rw [List.length_map, List.length_map, List.length_range, List.length_range] at bits
      exact ⟨family, bits, both.2⟩
    · intro all
      obtain ⟨_, bits, addr⟩ := all
      have sameLen : b.len = a.len := by
        unfold Inet.len
        rw [family]
      have sameBits : (List.range a.bits).map a.bit = (List.range b.bits).map b.bit := by
        rw [← bits]
        apply List.map_congr_left
        intro n member
        exact sameBit bound addr sameLen (List.mem_range.mp member)
      rw [inet_common, sameBits]
      exact ⟨Std.ReflCmp.compare_self, addr⟩
  · rw [if_pos family]
    constructor
    · intro same
      exact (family (Std.LawfulEqOrd.eq_of_compare same)).elim
    · intro all
      exact (family all.1).elim

theorem inet_preorder : PreorderOn Inet.cmp (fun _ => True) := by
  apply PreorderOn.of_ranks (fun i => if i.v6 then 1 else 0)
  · intro a b _ _ different
    unfold Inet.cmp
    cases familyA : a.v6 <;> cases familyB : b.v6 <;> simp_all <;> rfl
  · intro r
    have prefixes : PreorderOn (fun a b : Inet => List.compareLex compare
        ((List.range a.bits).map a.bit) ((List.range b.bits).map b.bit))
        (fun a => True ∧ (if a.v6 then 1 else 0) = r) :=
      PreorderOn.of_key (List.compareLex compare) (fun a => (List.range a.bits).map a.bit)
        (fun _ _ _ _ => rfl)
    have addresses : PreorderOn (fun a b : Inet => compare (a.addr.take a.len) (b.addr.take b.len))
        (fun a => True ∧ (if a.v6 then 1 else 0) = r) :=
      PreorderOn.of_key compare (fun a : Inet => a.addr.take a.len) (fun _ _ _ _ => rfl)
    apply (prefixes.andThen addresses).comap id (fun _ isS => isS)
    intro a b isA isB
    have family : a.v6 = b.v6 := by
      have both := isA.2.trans isB.2.symm
      cases familyA : a.v6 <;> cases familyB : b.v6 <;> simp [familyA, familyB] at both <;> rfl
    unfold Inet.cmp
    rw [if_neg (not_not.mpr family)]
    exact congrArg (fun o => o.then (compare (a.addr.take a.len) (b.addr.take b.len)))
      (inet_common a b)

section Order

variable (conv : Conversions)

theorem cmpItems_eq (xs ys : List Value) :
    cmpItems conv xs ys = firstDifference (cmpValues conv) xs ys := by
  induction xs generalizing ys with
  | nil => rfl
  | cons x xs ih =>
    cases ys with
    | nil => rfl
    | cons y ys =>
      have first : cmpItems conv (x :: xs) (y :: ys) =
          (cmpValues conv x y).then (cmpItems conv xs ys) := by
        rw [cmpItems]
        cases cmpValues conv x y <;> rfl
      rw [first, firstDifference_cons, ih]

def intOf : Value → Int
  | .int i => i
  | .date i => i
  | .time i => i
  | .ts i => i
  | .interval i => i.span
  | _ => 0

def bytesOf : Value → List Nat
  | .bytes b => b
  | .uuid b => b
  | _ => []

def timeTzOf : Value → Int × Int
  | .timeTz t offset => (t, offset)
  | _ => (0, 0)

def cmpTimeTz (x y : Int × Int) : Ordering :=
  (compare (x.1 - x.2 * 1000000) (y.1 - y.2 * 1000000)).then (compare y.2 x.2)

theorem timetz_preorder : PreorderOn cmpTimeTz (fun _ => True) := by
  have zones : PreorderOn (fun x y : Int × Int => compare y.2 x.2) (fun _ => True) := by
    apply PreorderOn.of_key (fun a b : Int => compare b a) Prod.snd
    intro a b _ _
    rfl
  exact (PreorderOn.of_key compare (fun x : Int × Int => x.1 - x.2 * 1000000)
    (fun _ _ _ _ => rfl)).andThen zones

theorem scalar_preorder (t : ScalarType κ) : PreorderOn (cmpValues conv) (HasScalar t) := by
  cases t with
  | bool =>
    apply PreorderOn.of_key compare
      (fun v => match v with | .bool b => b | _ => false)
    intro a b isA isB
    cases isA
    cases isB
    rfl
  | int =>
    apply PreorderOn.of_key compare intOf
    intro a b isA isB
    cases isA
    cases isB
    rfl
  | float =>
    apply PreorderOn.of_key Amount.cmp
      (fun v => match v with | .float x => x.amount | _ => .nan)
    intro a b isA isB
    cases isA
    cases isB
    exact cmpF64_amount _ _
  | numeric =>
    apply cmpNum_preorder.comap (fun v => match v with | .num n => n | _ => .nan)
    · intro a isA
      cases isA with
      | numeric normal => exact normal
    · intro a b isA isB
      cases isA
      cases isB
      rfl
  | text =>
    apply cmpText_preorder.comap (fun v => match v with | .text s => s | _ => "")
      (fun _ _ => trivial)
    intro a b isA isB
    cases isA
    cases isB
    rfl
  | textual k =>
    apply cmpText_preorder.comap (fun v => match v with | .text s => s | _ => "")
      (fun _ _ => trivial)
    intro a b isA isB
    cases isA
    cases isB
    rfl
  | bytea =>
    apply PreorderOn.of_key compare bytesOf
    intro a b isA isB
    cases isA
    cases isB
    rfl
  | date =>
    apply PreorderOn.of_key compare intOf
    intro a b isA isB
    cases isA
    cases isB
    rfl
  | time =>
    apply PreorderOn.of_key compare intOf
    intro a b isA isB
    cases isA
    cases isB
    rfl
  | timetz =>
    apply timetz_preorder.comap timeTzOf (fun _ _ => trivial)
    intro a b isA isB
    cases isA
    cases isB
    rfl
  | timestamp =>
    apply PreorderOn.of_key compare intOf
    intro a b isA isB
    cases isA
    cases isB
    rfl
  | interval =>
    apply PreorderOn.of_key compare intOf
    intro a b isA isB
    cases isA
    cases isB
    rfl
  | uuid =>
    apply PreorderOn.of_key compare bytesOf
    intro a b isA isB
    cases isA
    cases isB
    rfl
  | inet =>
    apply inet_preorder.comap
      (fun v => match v with | .inet i => i | _ => { v6 := false, addr := [], bits := 0 })
      (fun _ _ => trivial)
    intro a b isA isB
    cases isA
    cases isB
    rfl
  | jsonb =>
    apply Json.cmpJsonb_order.comap (fun v => match v with | .jsonb j => j | _ => .null)
    · intro a isA
      cases isA with
      | jsonb normal => exact ⟨_, normal⟩
    · intro a b isA isB
      cases isA
      cases isB
      rfl

variable {v : Value}

theorem not_null {t : ScalarType κ} (has : HasScalar t v) : v ≠ .null := by
  intro isNull
  rw [isNull] at has
  cases has

theorem cmpValues_null_right (present : v ≠ .null) : cmpValues conv v .null = .lt := by
  cases v with
  | null => exact (present rfl).elim
  | _ => rfl

theorem cmpValues_null_left (present : v ≠ .null) : cmpValues conv .null v = .gt := by
  cases v with
  | null => exact (present rfl).elim
  | _ => rfl

theorem item_preorder (t : ScalarType κ) : PreorderOn (cmpValues conv) (HasItem t) := by
  apply PreorderOn.of_ranks (fun v => match v with | .null => 1 | _ => 0)
  · intro a b isA isB different
    rcases isA with nullA | hasA
    · rcases isB with nullB | hasB
      · rw [nullA, nullB] at different
        exact (different rfl).elim
      · rw [nullA, cmpValues_null_left conv (not_null hasB)]
        cases hasB <;> rfl
    · rcases isB with nullB | hasB
      · rw [nullB, cmpValues_null_right conv (not_null hasA)]
        cases hasA <;> rfl
      · exact (different (by cases hasA <;> cases hasB <;> rfl)).elim
  · intro r
    by_cases isNull : r = 1
    · apply PreorderOn.of_key compare intOf
      intro a b isA isB
      have nullOnly : ∀ v, HasItem t v ∧ (match v with | .null => 1 | _ => 0) = r → v = .null := by
        intro v isV
        cases v with
        | null => rfl
        | _ =>
          have impossible := isV.2
          rw [isNull] at impossible
          cases impossible
      rw [nullOnly a isA, nullOnly b isB]
      rfl
    · apply (scalar_preorder conv t).mono
      intro v isV
      rcases isV.1 with null | has
      · rw [null] at isV
        exact (isNull isV.2.symm).elim
      · exact has

theorem column_preorder (t : ColType κ) : PreorderOn (cmpValues conv) (HasType t) := by
  cases t with
  | scalar t =>
    apply (scalar_preorder conv t).mono
    intro v isV
    cases isV with
    | scalar has => exact has
  | array t =>
    have items : PreorderOn (fun a b : List (Int × Int) × List Value =>
        List.compareLex (cmpValues conv) a.2 b.2) (fun a => ∀ v ∈ a.2, HasItem t v) :=
      (item_preorder conv t).lists.comap Prod.snd (fun _ all => all) (fun _ _ _ _ => rfl)
    have dims : PreorderOn (fun a b : List (Int × Int) × List Value =>
        compare a.1.length b.1.length) (fun a => ∀ v ∈ a.2, HasItem t v) :=
      PreorderOn.of_key compare (fun a => a.1.length) (fun _ _ _ _ => rfl)
    apply (items.andThen dims).comap (fun v => match v with | .array d xs => (d, xs) | _ => ([], []))
    · intro v isV
      cases isV with
      | array d has => exact has
    · intro a b isA isB
      cases isA
      cases isB
      rw [cmpValues, cmpItems_eq, ← Ordering.then_assoc, firstDifference_length]

end Order

section Equality

variable (conv : Conversions) (reads : κ → String → M)

variable {t : ScalarType κ} {a b : Value}

theorem alike_iff_same (plain : ∀ k, t ≠ .textual k) (a b : Value) :
    AlikeScalar reads t a b ↔ SameScalar reads t a b := by
  constructor
  · intro alike
    exact alike.1
  · intro same
    exact ⟨same, fun k isTextual => (plain k isTextual).elim⟩

theorem plain_eq_iff (isPlain : t.plain = true) (isA : HasScalar t a) (isB : HasScalar t b) :
    cmpValues conv a b = .eq ↔ a = b := by
  cases isA with
  | bool x =>
    cases isB
    exact Std.LawfulEqOrd.compare_eq_iff_eq.trans (by simp)
  | int x =>
    cases isB
    exact Std.LawfulEqOrd.compare_eq_iff_eq.trans (by simp)
  | text x =>
    cases isB
    exact (cmpText_eq_iff _ _).trans (by simp)
  | bytea x =>
    cases isB
    exact Std.LawfulEqOrd.compare_eq_iff_eq.trans (by simp)
  | date x =>
    cases isB
    exact Std.LawfulEqOrd.compare_eq_iff_eq.trans (by simp)
  | time x =>
    cases isB
    exact Std.LawfulEqOrd.compare_eq_iff_eq.trans (by simp)
  | timetz x ox =>
    cases isB with
    | timetz y oy =>
      rw [cmpValues, Ordering.then_eq_eq, Std.LawfulEqOrd.compare_eq_iff_eq,
        Std.LawfulEqOrd.compare_eq_iff_eq, Value.timeTz.injEq]
      omega
  | timestamp x =>
    cases isB
    exact Std.LawfulEqOrd.compare_eq_iff_eq.trans (by simp)
  | uuid x =>
    cases isB
    exact Std.LawfulEqOrd.compare_eq_iff_eq.trans (by simp)
  | _ => cases isPlain

theorem plain_same_iff (isPlain : t.plain = true) (a b : Value) :
    SameScalar reads t a b ↔ a = b := by
  constructor
  · intro same
    cases same with
    | plain => rfl
    | _ => cases isPlain
  · intro same
    rw [same]
    exact SameScalar.plain isPlain b

theorem scalar_eq_iff (isA : HasScalar t a) (isB : HasScalar t b) :
    cmpValues conv a b = .eq ↔ AlikeScalar reads t a b := by
  by_cases isPlain : t.plain = true
  · have notTextual : ∀ k, t ≠ .textual k := by
      intro k isTextual
      rw [isTextual] at isPlain
      cases isPlain
    rw [plain_eq_iff conv isPlain isA isB, alike_iff_same reads notTextual,
      plain_same_iff reads isPlain]
  · cases isA with
    | float x =>
      cases isB with
      | float y =>
        rw [alike_iff_same reads (by simp), cmpValues, cmpF64_amount, Amount.cmp_eq_iff]
        constructor
        · intro same
          exact SameScalar.float same
        · intro same
          cases same with
          | plain => rfl
          | float amount => exact amount
    | numeric normal =>
      cases isB with
      | numeric normal' =>
        rw [alike_iff_same reads (by simp), cmpValues, cmpNum_amount normal normal',
          Amount.cmp_eq_iff]
        constructor
        · intro same
          exact SameScalar.numeric same
        · intro same
          cases same with
          | plain => rfl
          | numeric amount => exact amount
    | textual k x =>
      cases isB with
      | textual k y =>
        rw [cmpValues, cmpText_eq_iff]
        constructor
        · intro same
          rw [same]
          exact ⟨SameScalar.textual rfl, fun _ _ => rfl⟩
        · intro alike
          exact Value.text.inj (alike.2 k rfl)
    | interval x =>
      cases isB with
      | interval y =>
        rw [alike_iff_same reads (by simp), cmpValues, Std.LawfulEqOrd.compare_eq_iff_eq]
        constructor
        · intro same
          exact SameScalar.interval same
        · intro same
          cases same with
          | plain => rfl
          | interval span => exact span
    | @inet x size bits =>
      cases isB with
      | @inet y size' bits' =>
        rw [alike_iff_same reads (by simp), cmpValues, inet_eq_iff bits]
        constructor
        · intro same
          exact SameScalar.inet same.1 same.2.1 same.2.2
        · intro same
          cases same with
          | plain => exact ⟨rfl, rfl, rfl⟩
          | inet family bits addr => exact ⟨family, bits, addr⟩
    | @jsonb _ x normal =>
      cases isB with
      | jsonb normal' =>
        rw [alike_iff_same reads (by simp), cmpValues, Json.cmpJsonb_eq_iff normal normal']
        constructor
        · intro same
          exact SameScalar.jsonb same
        · intro same
          cases same with
          | plain => exact (isPlain (by assumption)).elim
          | jsonb same => exact same
    | _ => exact (isPlain rfl).elim

theorem item_eq_iff (isA : HasItem t a) (isB : HasItem t b) :
    cmpValues conv a b = .eq ↔ (a = .null ∧ b = .null) ∨ AlikeScalar reads t a b := by
  rcases isA with nullA | hasA
  · rcases isB with nullB | hasB
    · rw [nullA, nullB]
      exact ⟨fun _ => Or.inl ⟨rfl, rfl⟩, fun _ => rfl⟩
    · rw [nullA, cmpValues_null_left conv (not_null hasB)]
      constructor
      · intro impossible
        cases impossible
      · intro related
        rcases related with nulls | alike
        · exact (not_null hasB nulls.2).elim
        · cases alike.1
          exact (not_null hasB rfl).elim
  · rcases isB with nullB | hasB
    · rw [nullB, cmpValues_null_right conv (not_null hasA)]
      constructor
      · intro impossible
        cases impossible
      · intro related
        rcases related with nulls | alike
        · exact (not_null hasA nulls.1).elim
        · cases alike.1
          exact (not_null hasA rfl).elim
    · rw [scalar_eq_iff conv reads hasA hasB]
      constructor
      · intro alike
        exact Or.inr alike
      · intro related
        rcases related with nulls | alike
        · exact (not_null hasA nulls.1).elim
        · exact alike

theorem items_eq_iff {xs ys : List Value} (isXs : ∀ v ∈ xs, HasItem t v)
    (isYs : ∀ v ∈ ys, HasItem t v) :
    (firstDifference (cmpValues conv) xs ys).then (compare xs.length ys.length) = .eq ↔
      ItemsRelated (AlikeScalar reads t) xs ys := by
  rw [Ordering.then_eq_eq, Nat.compare_eq_eq, and_comm]
  apply and_congr_right
  intro sameLength
  rw [firstDifference_eq_iff _ xs ys sameLength, List.forall₂_iff_zip]
  constructor
  · intro each p isPair
    exact (item_eq_iff conv reads (isXs _ (List.of_mem_zip isPair).1)
      (isYs _ (List.of_mem_zip isPair).2)).mp (each.2 isPair)
  · intro each
    refine ⟨sameLength, fun isPair => ?_⟩
    exact (item_eq_iff conv reads (isXs _ (List.of_mem_zip isPair).1)
      (isYs _ (List.of_mem_zip isPair).2)).mpr (each _ isPair)

theorem ItemsRelated.imp {related weaker : Value → Value → Prop} {xs ys : List Value}
    (implies : ∀ x y, related x y → weaker x y) (items : ItemsRelated related xs ys) :
    ItemsRelated weaker xs ys := by
  refine ⟨items.1, fun p isPair => ?_⟩
  rcases items.2 p isPair with nulls | isRelated
  · exact Or.inl nulls
  · exact Or.inr (implies _ _ isRelated)

/-- On each type of column the values are in order, and compare as equal just when they are equal, if
and only if neither their texts nor their dimensions mislead. -/
theorem cmpValues_exact (t : ColType κ) :
    PreorderOn (cmpValues conv) (HasType t) ∧
    ∀ a b, HasType t a → HasType t b →
      ((cmpValues conv a b = .eq ↔ Same reads t a b) ↔ Told reads t a b) := by
  constructor
  · exact column_preorder conv t
  · intro a b isA isB
    cases isA with
    | @scalar t a hasA =>
      cases isB with
      | scalar hasB =>
        rw [scalar_eq_iff conv reads hasA hasB]
        constructor
        · intro exact
          constructor
          · intro same
            exact Alike.scalar (exact.mpr same)
          · intro _ dx xs dy ys isArray
            rw [isArray] at hasA
            cases hasA
        · intro told
          constructor
          · intro alike
            exact Same.scalar alike.1
          · intro same
            cases told.text same with
            | scalar alike => exact alike
    | @array t dx xs hasA =>
      cases isB with
      | @array _ dy ys hasB =>
        have compared : cmpValues conv (.array dx xs) (.array dy ys) = .eq ↔
            ItemsRelated (AlikeScalar reads t) xs ys ∧ dx.length = dy.length := by
          rw [cmpValues, cmpItems_eq, ← Ordering.then_assoc, Ordering.then_eq_eq,
            items_eq_iff conv reads hasA hasB, Nat.compare_eq_eq]
        rw [compared]
        constructor
        · intro exact
          constructor
          · intro same
            exact Alike.array dx dy (exact.mpr same).1
          · intro alike dx' xs' dy' ys' isX isY sameLength
            obtain ⟨rfl, rfl⟩ := Value.array.inj isX
            obtain ⟨rfl, rfl⟩ := Value.array.inj isY
            cases alike with
            | array _ _ items =>
              cases exact.mp ⟨items, sameLength⟩ with
              | array dims items => rfl
        · intro told
          constructor
          · intro both
            obtain rfl := told.dims (Alike.array dx dy both.1) dx xs dy ys rfl rfl both.2
            exact Same.array dx (both.1.imp (fun _ _ alike => alike.1))
          · intro same
            have alike := told.text same
            cases same with
            | array dims items =>
              cases alike with
              | array _ _ items => exact ⟨items, rfl⟩

end Equality

def noConversions : Conversions where
  ofInt := fun _ => .nan
  ofNum := fun _ => .nan

def sevens (last : Value) : Value := .array [(2, 1)] [.int 7, last]

theorem cmpValues_exact_arrays :
    cmpValues noConversions (sevens .null) (sevens (.int 8)) = .eq ↔
      Same (fun (_ : Unit) (s : String) => s) (.array .int) (sevens .null) (sevens (.int 8)) := by
  have items : ∀ last, last = .null ∨ last = .int 8 → ∀ v ∈ [.int 7, last],
      HasItem (.int : ScalarType Unit) v := by
    intro last isLast v isV
    rcases List.mem_pair.mp isV with rfl | rfl
    · exact Or.inr (HasScalar.int 7)
    · rcases isLast with rfl | rfl
      · exact Or.inl rfl
      · exact Or.inr (HasScalar.int 8)
  apply ((cmpValues_exact noConversions (fun (_ : Unit) (s : String) => s) (.array .int)).2
    (sevens .null) (sevens (.int 8)) (HasType.array _ (items .null (Or.inl rfl)))
    (HasType.array _ (items (.int 8) (Or.inr rfl)))).mpr
  constructor
  · intro same
    cases same with
    | array dims related =>
      exact Alike.array _ _ ⟨related.1, fun p member => (related.2 p member).imp id
        (fun same => ⟨same, fun k impossible => by cases impossible⟩)⟩
  · intro _ dx xs dy ys isLeft isRight _
    cases isLeft
    cases isRight
    rfl

def oneToSix : List Value := [.int 1, .int 2, .int 3, .int 4, .int 5, .int 6]

/-- `{{1,2,3},{4,5,6}}` and `{{1,2},{3,4},{5,6}}` compare as equal. -/
theorem cmpValues_shapes :
    ¬ ∀ (conv : Conversions) (reads : Unit → String → String) (t : ColType Unit) (a b : Value),
      HasType t a → HasType t b → (cmpValues conv a b = .eq ↔ Same reads t a b) := by
  intro claimed
  have items : ∀ v ∈ oneToSix, HasItem (.int : ScalarType Unit) v := by
    intro v isV
    simp only [oneToSix, List.mem_cons, List.not_mem_nil, or_false] at isV
    apply Or.inr
    rcases isV with rfl | rfl | rfl | rfl | rfl | rfl <;> exact HasScalar.int _
  have same := (claimed noConversions (fun _ s => s) (.array .int)
    (.array [(2, 1), (3, 1)] oneToSix) (.array [(3, 1), (2, 1)] oneToSix)
    (HasType.array _ items) (HasType.array _ items)).mp rfl
  cases same

end NoidaDb.Postgres.Types
