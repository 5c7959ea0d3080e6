/-
Reading a POSIX time zone rule such as `EST5EDT,M3.2.0,M11.1.0`.

An offset is computed in `i64` and then cut down to `i32`, the numbers of a date to `u32`, with no
test of their sizes.
-/

import NoidaDb.Lib.ExceptState
import NoidaDb.Lib.MachineIntegers
import NoidaDb.Sql.TimeZones

namespace NoidaDb.Sql.PosixRules

open Lib DatetimeText TimeZones

inductive Stop where
  | nothing
  /-- The result of an integer operation is none of its type. -/
  | leavesType
deriving DecidableEq

abbrev Reading := Except Stop

def fit (type : IntType) (n : Int) : Reading Int := type.check .leavesType n

/-! ### The cursor

The text of a cursor is what stands from it on. -/

def expect (c : Char) (s : List Char) : Option (List Char) :=
  if s.head? = some c then some s.tail else none

/-- Letters, or anything between `<` and `>`. -/
def name (s : List Char) : Option (String × List Char) :=
  if s.head? = some '<' then
    match s.tail.dropWhile (fun c => c != '>') with
    | [] => none
    | _ :: rest => some (String.ofList (s.tail.takeWhile (fun c => c != '>')), rest)
  else
    let letters := s.takeWhile Char.isAlpha
    if letters = [] then none else some (String.ofList letters, s.dropWhile Char.isAlpha)

/-- Digits that an `i64` holds. -/
def num (s : List Char) : Option (Nat × List Char) :=
  let digits := s.takeWhile isDigit
  if digits = [] ∨ ¬ i64.Holds (numeral digits) then none
  else some (numeral digits, s.dropWhile isDigit)

def orNothing {α : Type} : Option α → Reading α
  | none => .error .nothing
  | some a => .ok a

def signOf (s : List Char) : Int := if s.head? = some '-' then -1 else 1

def unsigned (s : List Char) : List Char :=
  if s.head? = some '-' ∨ s.head? = some '+' then s.tail else s

/-- `[:ss]` of an offset, after `v` seconds. -/
def seconds (v : Int) (s : List Char) : Reading (Int × List Char) :=
  if s.head? = some ':' then do
    let sec ← orNothing (num s.tail)
    let v ← fit i64 (v + sec.1)
    return (v, sec.2)
  else .ok (v, s)

/-- `[:mm[:ss]]` of an offset, after `v` seconds. -/
def minutes (v : Int) (s : List Char) : Reading (Int × List Char) :=
  if s.head? = some ':' then do
    let m ← orNothing (num s.tail)
    let ms ← fit i64 (m.1 * 60)
    let v ← fit i64 (v + ms)
    seconds v m.2
  else .ok (v, s)

/-- `[+-]hh[:mm[:ss]]` in seconds. -/
def offset (s : List Char) : Reading (Int × List Char) := do
  let h ← orNothing (num (unsigned s))
  let v ← fit i64 (h.1 * 3600)
  let v ← minutes v h.2
  let w ← fit i32 v.1
  let signed ← fit i32 (signOf s * w)
  return (signed, v.2)

/-- `num()? as u32`. -/
def ruleNum (s : List Char) : Reading (Nat × List Char) := do
  let n ← orNothing (num s)
  let _ ← fit u32 n.1
  return n

def rule (s : List Char) : Reading (Rule × List Char) :=
  match s with
  | [] => .error .nothing
  | 'M' :: s => do
      let m ← ruleNum s
      let s ← orNothing (expect '.' m.2)
      let w ← ruleNum s
      let s ← orNothing (expect '.' w.2)
      let d ← ruleNum s
      return (.m m.1 w.1 d.1, d.2)
  | 'J' :: s => do
      let n ← ruleNum s
      return (.j n.1, n.2)
  | s => do
      let n ← ruleNum s
      return (.d n.1, n.2)

def timedRule (s : List Char) : Reading ((Rule × Int) × List Char) := do
  let r ← rule s
  if r.2.head? = some '/' then do
    let t ← offset r.2.tail
    return ((r.1, t.1), t.2)
  else return ((r.1, 7200), r.2)

def dstOffset (stdOff : Int) (s : List Char) : Reading (Int × List Char) :=
  if s.head? ≠ some ',' then do
    let o ← offset s
    let off ← fit i32 (-o.1)
    return (off, o.2)
  else do
    let off ← fit i32 (stdOff + 3600)
    return (off, s)

/-- `PosixTz::parse`. -/
def parse (s : List Char) : Reading PosixTz := do
  let std ← orNothing (name s)
  let o ← offset std.2
  let stdOff ← fit i32 (-o.1)
  if o.2 = [] then return { stdName := std.1, stdOff := stdOff, dst := none }
  else do
    let dst ← orNothing (name o.2)
    let dstOff ← dstOffset stdOff dst.2
    let s ← orNothing (expect ',' dstOff.2)
    let r1 ← timedRule s
    let s ← orNothing (expect ',' r1.2)
    let r2 ← timedRule s
    return {
      stdName := std.1
      stdOff := stdOff
      dst := some (dst.1, dstOff.1, r1.1.1, r1.1.2, r2.1.1, r2.1.2) }

example : parse "EST5EDT,M3.2.0,M11.1.0".toList = .ok {
    stdName := "EST"
    stdOff := -18000
    dst := some ("EDT", -14400, .m 3 2 0, 7200, .m 11 1 0, 7200) } := rfl

/-! ### What a rule spells

The same text read with numbers of any size: what its offsets come to and which numbers its dates
have, as far as it can be read. -/

abbrev Spelled (α : Type) := α × Option (List Char)

def spelledSeconds (v : Nat) (s : List Char) : Spelled Nat :=
  if s.head? = some ':' then
    match num s.tail with
    | none => (v, none)
    | some sec => (v + sec.1, some sec.2)
  else (v, some s)

def spelledMinutes (v : Nat) (s : List Char) : Spelled Nat :=
  if s.head? = some ':' then
    match num s.tail with
    | none => (v, none)
    | some m => spelledSeconds (v + m.1 * 60) m.2
  else (v, some s)

def spelledOffset (s : List Char) : Spelled Nat :=
  match num (unsigned s) with
  | none => (0, none)
  | some h => spelledMinutes (h.1 * 3600) h.2

/-- What is read of an offset is less than 2^63 seconds, and a whole offset less than 2^31. -/
def OffsetFits (s : List Char) : Prop :=
  (spelledOffset s).1 < 2 ^ 63 ∧ ((spelledOffset s).2.isSome = true → (spelledOffset s).1 < 2 ^ 31)

def spelledNum (s : List Char) : Spelled (List Nat) :=
  match num s with
  | none => ([], none)
  | some n => ([n.1], some n.2)

def spelledPoint (before : Spelled (List Nat)) : Spelled (List Nat) :=
  match before.2.bind (expect '.') with
  | none => (before.1, none)
  | some s => (before.1 ++ (spelledNum s).1, (spelledNum s).2)

def spelledRule (s : List Char) : Spelled (List Nat) :=
  match s with
  | [] => ([], none)
  | 'M' :: s => spelledPoint (spelledPoint (spelledNum s))
  | 'J' :: s => spelledNum s
  | s => spelledNum s

def afterTimedRule (s : List Char) : Option (List Char) :=
  (spelledRule s).2.bind (fun rest =>
    if rest.head? = some '/' then (spelledOffset rest.tail).2 else some rest)

def TimedRuleFits (s : List Char) : Prop :=
  (∀ n ∈ (spelledRule s).1, n < 2 ^ 32) ∧
    ∀ rest, (spelledRule s).2 = some rest → rest.head? = some '/' → OffsetFits rest.tail

def DstOffsetFits (std s : List Char) : Prop :=
  if s.head? ≠ some ',' then OffsetFits s
  else -(signOf std * (spelledOffset std).1) + 3600 < 2 ^ 31

def afterDstOffset (s : List Char) : Option (List Char) :=
  if s.head? ≠ some ',' then (spelledOffset s).2 else some s

def DstFits (std s : List Char) : Prop :=
  DstOffsetFits std s ∧
    ∀ first, (afterDstOffset s).bind (expect ',') = some first →
      TimedRuleFits first ∧
        ∀ second, (afterTimedRule first).bind (expect ',') = some second → TimedRuleFits second

def Fits (s : List Char) : Prop :=
  ∀ std, name s = some std →
    OffsetFits std.2 ∧
      ∀ rest, (spelledOffset std.2).2 = some rest → rest ≠ [] →
        ∀ dst, name rest = some dst → DstFits std.2 dst.2

variable {v : Nat} {n : Int}

theorem fit_ok {type : IntType} (holds : type.Holds n) : fit type n = .ok n :=
  IntType.check_ok holds

theorem fit_error {type : IntType} (outside : ¬ type.Holds n) : fit type n = .error .leavesType :=
  IntType.check_error outside

/-- An offset in `i64`: it leaves the type, breaks off, or comes to the seconds it spells. -/
def settled (o : Spelled Nat) : Reading (Int × List Char) :=
  if 2 ^ 63 ≤ o.1 then .error .leavesType
  else
    match o.2 with
    | none => .error .nothing
    | some rest => .ok ((o.1 : Int), rest)

theorem settled_large {o : Spelled Nat} (large : 2 ^ 63 ≤ o.1) : settled o = .error .leavesType :=
  if_pos large

theorem settled_broken (small : v < 2 ^ 63) : settled (v, none) = .error .nothing :=
  if_neg (Nat.not_le.mpr small)

theorem settled_whole (small : v < 2 ^ 63) (rest : List Char) :
    settled (v, some rest) = .ok ((v : Int), rest) :=
  if_neg (Nat.not_le.mpr small)

theorem fit_i64_large (large : 2 ^ 63 ≤ n) : fit i64 n = .error .leavesType := by
  apply fit_error
  rw [i64_holds]
  omega

theorem fit_i64_nat {n : Nat} (small : n < 2 ^ 63) : fit i64 n = .ok (n : Int) := by
  apply fit_ok
  rw [i64_holds]
  omega

theorem seconds_eq (small : v < 2 ^ 63) (s : List Char) :
    seconds v s = settled (spelledSeconds v s) := by
  unfold seconds spelledSeconds
  by_cases colon : s.head? = some ':'
  swap
  · rw [if_neg colon, if_neg colon, settled_whole small]
  rw [if_pos colon, if_pos colon]
  cases num s.tail with
  | none => exact (settled_broken small).symm
  | some sec =>
    rw [orNothing, ok_bind]
    dsimp only
    by_cases large : 2 ^ 63 ≤ v + sec.1
    · rw [settled_large large, fit_i64_large (by omega)]
      rfl
    · have fits := Nat.not_le.mp large
      rw [settled_whole fits, ← Int.natCast_add, fit_i64_nat fits]
      rfl

theorem le_spelledSeconds (v : Nat) (s : List Char) : v ≤ (spelledSeconds v s).1 := by
  unfold spelledSeconds
  split
  · split
    · exact Nat.le_refl v
    · exact Nat.le_add_right v _
  · exact Nat.le_refl v

theorem minutes_eq (small : v < 2 ^ 63) (s : List Char) :
    minutes v s = settled (spelledMinutes v s) := by
  unfold minutes spelledMinutes
  by_cases colon : s.head? = some ':'
  swap
  · rw [if_neg colon, if_neg colon, settled_whole small]
  rw [if_pos colon, if_pos colon]
  cases num s.tail with
  | none => exact (settled_broken small).symm
  | some m =>
    rw [orNothing, ok_bind]
    dsimp only
    by_cases large : 2 ^ 63 ≤ v + m.1 * 60
    · -- The product or the sum is outside, and the seconds would only add to it.
      rw [settled_large (Nat.le_trans large (le_spelledSeconds _ _))]
      by_cases largeProduct : 2 ^ 63 ≤ m.1 * 60
      · rw [fit_i64_large (by omega)]
        rfl
      · rw [show ((m.1 : Int) * 60) = ((m.1 * 60 : Nat) : Int) by omega,
          fit_i64_nat (Nat.not_le.mp largeProduct), ok_bind, fit_i64_large (by omega)]
        rfl
    · have fits := Nat.not_le.mp large
      rw [show ((m.1 : Int) * 60) = ((m.1 * 60 : Nat) : Int) by omega,
        fit_i64_nat (by omega), ok_bind, ← Int.natCast_add, fit_i64_nat fits, ok_bind,
        seconds_eq fits]

theorem le_spelledMinutes (v : Nat) (s : List Char) : v ≤ (spelledMinutes v s).1 := by
  unfold spelledMinutes
  split
  · split
    · exact Nat.le_refl v
    · exact Nat.le_trans (Nat.le_add_right v _) (le_spelledSeconds _ _)
  · exact Nat.le_refl v

theorem signOf_cases (s : List Char) : signOf s = 1 ∨ signOf s = -1 := by
  unfold signOf
  split
  · exact Or.inr rfl
  · exact Or.inl rfl

/-- The narrowing of an offset to `i32`, and its sign. -/
def narrowed (sign : Int) (v : Int × List Char) : Reading (Int × List Char) := do
  let w ← fit i32 v.1
  let signed ← fit i32 (sign * w)
  return (signed, v.2)

theorem narrowed_large {sign : Int} (large : 2 ^ 31 ≤ v) (rest : List Char) :
    narrowed sign ((v : Int), rest) = .error .leavesType := by
  unfold narrowed
  rw [fit_error (by rw [i32_holds]; omega)]
  rfl

theorem narrowed_small {sign : Int} (isSign : sign = 1 ∨ sign = -1) (small : v < 2 ^ 31)
    (rest : List Char) : narrowed sign ((v : Int), rest) = .ok (sign * v, rest) := by
  unfold narrowed
  dsimp only
  have fits : i32.Holds (sign * v) := by
    rw [i32_holds]
    rcases isSign with rfl | rfl <;> omega
  rw [fit_ok (by rw [i32_holds]; omega), ok_bind, fit_ok fits]
  rfl

theorem offset_eq (s : List Char) :
    offset s = settled (spelledOffset s) >>= narrowed (signOf s) := by
  unfold offset spelledOffset
  cases num (unsigned s) with
  | none => rfl
  | some h =>
    rw [orNothing, ok_bind]
    dsimp only
    by_cases large : 2 ^ 63 ≤ h.1 * 3600
    · rw [settled_large (Nat.le_trans large (le_spelledMinutes _ _)), fit_i64_large (by omega)]
      rfl
    · have fits := Nat.not_le.mp large
      rw [show ((h.1 : Int) * 3600) = ((h.1 * 3600 : Nat) : Int) by omega, fit_i64_nat fits, ok_bind,
        minutes_eq fits]
      rfl

/-- A reading leaves its types unless everything fits, and then it ends where the text does. -/
structure Reads {α : Type} (result : Reading (α × List Char)) (fits : Prop)
    (rest : Option (List Char)) : Prop where
  outside : ¬ fits → result = .error .leavesType
  broken : fits → rest = none → result = .error .nothing
  whole : fits → ∀ r, rest = some r → ∃ a, result = .ok (a, r)

theorem offset_whole {s : List Char} (fits : OffsetFits s) {rest : List Char}
    (isWhole : (spelledOffset s).2 = some rest) :
    offset s = .ok (signOf s * (spelledOffset s).1, rest) := by
  have small := fits.2 (by rw [isWhole]; rfl)
  rw [offset_eq]
  generalize spelledOffset s = o at *
  obtain ⟨v, r⟩ := o
  dsimp only at isWhole small ⊢
  rw [isWhole, settled_whole (by omega), ok_bind, narrowed_small (signOf_cases s) small]

theorem offset_reads (s : List Char) : Reads (offset s) (OffsetFits s) (spelledOffset s).2 where
  outside := by
    intro unfit
    rw [offset_eq]
    unfold OffsetFits at unfit
    generalize spelledOffset s = o at *
    obtain ⟨v, r⟩ := o
    dsimp only at unfit
    by_cases large : 2 ^ 63 ≤ v
    · rw [settled_large large]
      rfl
    · have small := Nat.not_le.mp large
      cases r with
      | none => exact absurd ⟨small, fun impossible => nomatch impossible⟩ unfit
      | some rest =>
        rw [settled_whole small, ok_bind]
        apply narrowed_large
        by_contra within
        exact unfit ⟨small, fun _ => Nat.not_le.mp within⟩
  broken := by
    intro fits isBroken
    rw [offset_eq]
    have small := fits.1
    generalize spelledOffset s = o at *
    obtain ⟨v, r⟩ := o
    dsimp only at isBroken small
    rw [isBroken, settled_broken small]
    rfl
  whole := fun fits r isWhole => ⟨_, offset_whole fits isWhole⟩

namespace Reads

variable {α β : Type} {result : Reading (α × List Char)} {fits : Prop} {rest : Option (List Char)}

theorem congr (reads : Reads result fits rest) {fits' : Prop} {rest' : Option (List Char)}
    (same : fits' ↔ fits) (sameRest : rest' = rest) : Reads result fits' rest' where
  outside := fun unfit => reads.outside (fun all => unfit (same.mpr all))
  broken := fun all isBroken => reads.broken (same.mp all) (sameRest.symm.trans isBroken)
  whole := fun all r isWhole => reads.whole (same.mp all) r (sameRest.symm.trans isWhole)

theorem bind (first : Reads result fits rest) {next : α × List Char → Reading (β × List Char)}
    {fitsNext : List Char → Prop} {restNext : List Char → Option (List Char)}
    (later : ∀ a r, rest = some r → result = .ok (a, r) →
      Reads (next (a, r)) (fitsNext r) (restNext r)) :
    Reads (result >>= next) (fits ∧ ∀ r, rest = some r → fitsNext r) (rest.bind restNext) where
  outside := by
    intro unfit
    by_cases fitsFirst : fits
    · cases isRest : rest with
      | none =>
        refine absurd ⟨fitsFirst, ?_⟩ unfit
        intro r impossible
        rw [isRest] at impossible
        cases impossible
      | some r =>
        obtain ⟨a, ran⟩ := first.whole fitsFirst r isRest
        rw [ran, ok_bind]
        apply (later a r isRest ran).outside
        intro fitsSecond
        apply unfit
        refine ⟨fitsFirst, ?_⟩
        intro r' same
        rw [isRest] at same
        cases same
        exact fitsSecond
    · rw [first.outside fitsFirst]
      rfl
  broken := by
    rintro ⟨fitsFirst, fitsSecond⟩ isBroken
    cases isRest : rest with
    | none =>
      rw [first.broken fitsFirst isRest]
      rfl
    | some r =>
      obtain ⟨a, ran⟩ := first.whole fitsFirst r isRest
      rw [ran, ok_bind]
      rw [isRest] at isBroken
      exact (later a r isRest ran).broken (fitsSecond r isRest) isBroken
  whole := by
    rintro ⟨fitsFirst, fitsSecond⟩ r' isWhole
    cases isRest : rest with
    | none =>
      rw [isRest] at isWhole
      cases isWhole
    | some r =>
      obtain ⟨a, ran⟩ := first.whole fitsFirst r isRest
      rw [ran, ok_bind]
      rw [isRest] at isWhole
      exact (later a r isRest ran).whole (fitsSecond r isRest) r' isWhole

theorem map (reads : Reads result fits rest) (f : α → β) :
    Reads (result >>= fun p => pure (f p.1, p.2)) fits rest where
  outside := by
    intro unfit
    rw [reads.outside unfit]
    rfl
  broken := by
    intro all isBroken
    rw [reads.broken all isBroken]
    rfl
  whole := by
    intro all r isWhole
    obtain ⟨a, ran⟩ := reads.whole all r isWhole
    exact ⟨f a, by rw [ran]; rfl⟩

theorem done (a : α) (r : List Char) : Reads (.ok (a, r)) True (some r) where
  outside := fun impossible => absurd trivial impossible
  broken := fun _ impossible => nomatch impossible
  whole := by
    intro _ r' same
    cases same
    exact ⟨a, rfl⟩

theorem nothing : Reads (.error .nothing : Reading (α × List Char)) True none where
  outside := fun impossible => absurd trivial impossible
  broken := fun _ _ => rfl
  whole := fun _ _ impossible => nomatch impossible

theorem optional {γ : Type} (found : Option γ) {next : γ → Reading (β × List Char)}
    {fitsNext : γ → Prop} {restNext : γ → Option (List Char)}
    (later : ∀ c, found = some c → Reads (next c) (fitsNext c) (restNext c)) :
    Reads (orNothing found >>= next) (∀ c, found = some c → fitsNext c) (found.bind restNext) := by
  cases found with
  | none =>
    refine nothing.congr ⟨fun _ => trivial, ?_⟩ rfl
    intro _ c impossible
    cases impossible
  | some c =>
    refine (later c rfl).congr ⟨fun all => all c rfl, ?_⟩ rfl
    intro fitsOne c' same
    cases same
    exact fitsOne

end Reads

theorem ruleNum_reads (s : List Char) :
    Reads (ruleNum s) (∀ n ∈ (spelledNum s).1, n < 2 ^ 32) (spelledNum s).2 := by
  unfold ruleNum spelledNum
  cases num s with
  | none =>
    refine Reads.nothing.congr ⟨fun _ => trivial, ?_⟩ rfl
    intro _ n impossible
    cases impossible
  | some n =>
    rw [orNothing, ok_bind]
    dsimp only
    by_cases small : n.1 < 2 ^ 32
    · rw [fit_ok (by rw [u32_holds]; omega), ok_bind]
      refine (Reads.done n.1 n.2).congr ⟨fun _ => trivial, ?_⟩ rfl
      intro _ m isNumber
      rw [List.mem_singleton.mp isNumber]
      exact small
    · have large : ¬ ∀ m ∈ [n.1], m < 2 ^ 32 := fun all => small (all n.1 List.mem_cons_self)
      rw [fit_error (by rw [u32_holds]; omega)]
      exact {
        outside := fun _ => rfl
        broken := fun all => absurd all large
        whole := fun all => absurd all large }

theorem spelledPoint_all (p : Nat → Prop) (before : Spelled (List Nat)) :
    (∀ n ∈ (spelledPoint before).1, p n) ↔ (∀ n ∈ before.1, p n) ∧
      ∀ r, before.2.bind (expect '.') = some r → ∀ n ∈ (spelledNum r).1, p n := by
  unfold spelledPoint
  cases before.2.bind (expect '.') with
  | none => simp
  | some r => simp [or_imp, forall_and]

theorem spelledPoint_rest (before : Spelled (List Nat)) :
    (spelledPoint before).2 = (before.2.bind (expect '.')).bind (fun r => (spelledNum r).2) := by
  unfold spelledPoint
  cases before.2.bind (expect '.') with
  | none => rfl
  | some r => rfl

theorem rule_reads (s : List Char) :
    Reads (rule s) (∀ n ∈ (spelledRule s).1, n < 2 ^ 32) (spelledRule s).2 := by
  unfold rule spelledRule
  split
  · refine Reads.nothing.congr ⟨fun _ => trivial, ?_⟩ rfl
    intro _ n impossible
    cases impossible
  · next s =>
    refine Reads.congr ((ruleNum_reads s).bind (fun m r _ _ =>
      Reads.optional (expect '.' r) (fun r _ =>
        (ruleNum_reads r).bind (fun w r _ _ =>
          Reads.optional (expect '.' r) (fun r _ =>
            (ruleNum_reads r).map (fun d => Rule.m m w d)))))) ?_ ?_
    · rw [spelledPoint_all, spelledPoint_all, spelledPoint_rest]
      simp only [Option.bind_eq_some_iff, forall_exists_index, and_imp]
      constructor
      · rintro ⟨⟨month, week⟩, day⟩
        refine ⟨month, fun r isRest c point => ⟨week c r isRest point, ?_⟩⟩
        exact fun r' isRest' c' point' => day c' r' c r isRest point isRest' point'
      · rintro ⟨month, later⟩
        refine ⟨⟨month, fun c r isRest point => (later r isRest c point).1⟩, ?_⟩
        exact fun c' r' c r isRest point isRest' point' =>
          (later r isRest c point).2 r' isRest' c' point'
    · rw [spelledPoint_rest, spelledPoint_rest]
      simp only [Option.bind_assoc]
  · next s => exact (ruleNum_reads s).map Rule.j
  · exact (ruleNum_reads _).map Rule.d

theorem timedRule_reads (s : List Char) :
    Reads (timedRule s) (TimedRuleFits s) (afterTimedRule s) := by
  unfold timedRule TimedRuleFits afterTimedRule
  apply (rule_reads s).bind
  intro date r _ _
  by_cases slash : r.head? = some '/'
  · simp only [if_pos slash]
    exact ((offset_reads r.tail).map (fun t => (date, t))).congr
      ⟨fun all => all slash, fun fits _ => fits⟩ rfl
  · simp only [if_neg slash]
    exact (Reads.done (date, (7200 : Int)) r).congr
      ⟨fun _ => trivial, fun _ isSlash => absurd isSlash slash⟩ rfl

theorem offset_value {s : List Char} {o : Int} {rest : List Char} (read : offset s = .ok (o, rest)) :
    o = signOf s * (spelledOffset s).1 ∧ (spelledOffset s).1 < 2 ^ 31 := by
  have reads := offset_reads s
  have fits : OffsetFits s := by
    by_contra unfit
    rw [reads.outside unfit] at read
    cases read
  cases isRest : (spelledOffset s).2 with
  | none =>
    rw [reads.broken fits isRest] at read
    cases read
  | some r =>
    rw [offset_whole fits isRest] at read
    cases read
    exact ⟨rfl, fits.2 (by rw [isRest]; rfl)⟩

theorem fits_negated {sign : Int} (isSign : sign = 1 ∨ sign = -1) (small : v < 2 ^ 31) :
    i32.Holds (-(sign * v)) := by
  rw [i32_holds]
  rcases isSign with rfl | rfl <;> omega

theorem dstOffset_reads {std : List Char} (small : (spelledOffset std).1 < 2 ^ 31) (s : List Char) :
    Reads (dstOffset (-(signOf std * (spelledOffset std).1)) s) (DstOffsetFits std s)
      (afterDstOffset s) := by
  unfold dstOffset DstOffsetFits afterDstOffset
  by_cases given : s.head? ≠ some ','
  · rw [if_pos given, if_pos given, if_pos given]
    have whole : Reads (offset s >>= fun o => fit i32 (-o.1) >>= fun off => pure (off, o.2))
        (OffsetFits s ∧ ∀ r, (spelledOffset s).2 = some r → True)
        ((spelledOffset s).2.bind some) := by
      apply (offset_reads s).bind
      intro o r _ read
      obtain ⟨value, bound⟩ := offset_value read
      dsimp only
      rw [value, fit_ok (fits_negated (signOf_cases s) bound)]
      exact Reads.done _ r
    refine whole.congr ⟨fun fits => ⟨fits, fun _ _ => trivial⟩, fun both => both.1⟩ ?_
    exact (Option.bind_fun_some _).symm
  · rw [if_neg given, if_neg given, if_neg given]
    have sign := signOf_cases std
    by_cases early : -(signOf std * (spelledOffset std).1 : Int) + 3600 < 2 ^ 31
    · have fits : i32.Holds (-(signOf std * (spelledOffset std).1) + 3600) := by
        rw [i32_holds]
        rcases sign with same | same <;> rw [same] at early ⊢ <;> omega
      rw [fit_ok fits, ok_bind]
      exact (Reads.done _ s).congr ⟨fun _ => trivial, fun _ => early⟩ rfl
    · have outside : ¬ i32.Holds (-(signOf std * (spelledOffset std).1) + 3600) := by
        rw [i32_holds]
        omega
      rw [fit_error outside]
      exact {
        outside := fun _ => rfl
        broken := fun fits => absurd fits early
        whole := fun fits => absurd fits early }

def Safe {α : Type} (result : Reading α) (fits : Prop) : Prop :=
  result ≠ .error .leavesType ↔ fits

namespace Safe

variable {α β : Type}

theorem congr {result : Reading α} {fits fits' : Prop} (safe : Safe result fits)
    (same : fits' ↔ fits) : Safe result fits' :=
  Iff.trans safe same.symm

theorem done (a : α) : Safe (.ok a) True :=
  ⟨fun _ => trivial, fun _ impossible => nomatch impossible⟩

theorem bind {result : Reading (α × List Char)} {fits : Prop} {rest : Option (List Char)}
    (first : Reads result fits rest) {next : α × List Char → Reading β}
    {fitsNext : List Char → Prop}
    (later : ∀ a r, rest = some r → result = .ok (a, r) → Safe (next (a, r)) (fitsNext r)) :
    Safe (result >>= next) (fits ∧ ∀ r, rest = some r → fitsNext r) := by
  by_cases fitsFirst : fits
  · cases isRest : rest with
    | none =>
      rw [first.broken fitsFirst isRest]
      refine ⟨fun _ => ⟨fitsFirst, ?_⟩, fun _ impossible => nomatch impossible⟩
      intro r impossible
      cases impossible
    | some r =>
      obtain ⟨a, ran⟩ := first.whole fitsFirst r isRest
      rw [ran, ok_bind]
      refine (later a r isRest ran).congr ⟨fun all => all.2 r rfl, ?_⟩
      intro fitsSecond
      refine ⟨fitsFirst, ?_⟩
      intro r' same
      cases same
      exact fitsSecond
  · rw [first.outside fitsFirst]
    exact ⟨fun absent => absurd rfl absent, fun both => absurd both.1 fitsFirst⟩

theorem optional {γ : Type} (found : Option γ) {next : γ → Reading β} {fitsNext : γ → Prop}
    (later : ∀ c, found = some c → Safe (next c) (fitsNext c)) :
    Safe (orNothing found >>= next) (∀ c, found = some c → fitsNext c) := by
  cases found with
  | none =>
    refine ⟨?_, fun _ impossible => nomatch impossible⟩
    intro _ c impossible
    cases impossible
  | some c =>
    refine (later c rfl).congr ⟨fun all => all c rfl, ?_⟩
    intro fitsOne c' same
    cases same
    exact fitsOne

end Safe

theorem daylight_safe (stdName : String) {std : List Char} (small : (spelledOffset std).1 < 2 ^ 31)
    (dst : String × List Char) :
    Safe (do
      let dstOff ← dstOffset (-(signOf std * (spelledOffset std).1)) dst.2
      let s ← orNothing (expect ',' dstOff.2)
      let r1 ← timedRule s
      let s ← orNothing (expect ',' r1.2)
      let r2 ← timedRule s
      return {
        stdName := stdName
        stdOff := -(signOf std * (spelledOffset std).1)
        dst := some (dst.1, dstOff.1, r1.1.1, r1.1.2, r2.1.1, r2.1.2) : PosixTz })
      (DstFits std dst.2) := by
  suffices inTurn : Safe _ (DstOffsetFits std dst.2 ∧ ∀ r, afterDstOffset dst.2 = some r →
      ∀ first, expect ',' r = some first → TimedRuleFits first ∧
        ∀ r', afterTimedRule first = some r' → ∀ second, expect ',' r' = some second →
          TimedRuleFits second ∧ ∀ r'', afterTimedRule second = some r'' → True) by
    refine inTurn.congr ?_
    unfold DstFits
    simp only [Option.bind_eq_some_iff, forall_exists_index, and_imp, implies_true, and_true]
    constructor
    · rintro ⟨offset, rules⟩
      refine ⟨offset, fun r isRest first comma => ⟨(rules first r isRest comma).1, ?_⟩⟩
      exact fun r' isRest' second comma' => (rules first r isRest comma).2 second r' isRest' comma'
    · rintro ⟨offset, rules⟩
      refine ⟨offset, fun first r isRest comma => ⟨(rules r isRest first comma).1, ?_⟩⟩
      exact fun second r' isRest' comma' =>
        (rules r isRest first comma).2 r' isRest' second comma'
  apply Safe.bind (dstOffset_reads small dst.2)
  intro off r _ _
  apply Safe.optional
  intro first _
  apply Safe.bind (timedRule_reads first)
  intro r1 r' _ _
  apply Safe.optional
  intro second _
  apply Safe.bind (timedRule_reads second)
  intro r2 r'' _ _
  exact Safe.done _

theorem parse_safe (s : List Char) : Safe (parse s) (Fits s) := by
  unfold parse Fits
  refine Safe.optional (name s) (fun std _ => ?_)
  refine Safe.bind (offset_reads std.2) (fun o rest _ read => ?_)
  obtain ⟨value, small⟩ := offset_value read
  dsimp only
  rw [value, fit_ok (fits_negated (signOf_cases std.2) small), ok_bind]
  by_cases standardOnly : rest = []
  · rw [if_pos standardOnly]
    exact (Safe.done _).congr ⟨fun _ => trivial, fun _ more => absurd standardOnly more⟩
  rw [if_neg standardOnly]
  suffices daylight : Safe _ (∀ dst, name rest = some dst → DstFits std.2 dst.2) from
    daylight.congr ⟨fun all => all standardOnly, fun fits _ => fits⟩
  refine Safe.optional (name rest) (fun dst _ => ?_)
  exact daylight_safe std.1 small dst

end NoidaDb.Sql.PosixRules
