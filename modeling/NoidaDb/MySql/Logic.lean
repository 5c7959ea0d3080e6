/-
Three-valued logic.

A value is true if it is numerically not zero, as `truthy` and CHECK have it; the connectives
and the clauses compare with the integers 0 and 1 instead.
-/

import NoidaDb.Lib.Kleene
import NoidaDb.Lib.ExceptState
import NoidaDb.MySql.Comparisons
import NoidaDb.MySql.Plans

namespace NoidaDb.MySql.Plans

open NoidaDb.Lib
open Lib.Kleene (Truth)
open NoidaDb.MySql.Types (Value Readers valueToF64)

/-- `funcs::truthy`. -/
def truthy (r : Readers) : Value → Bool
  | .null => false
  | .int i => i != 0
  | .bool b => b
  | .num n => decide (r.f64OfNumeric n ≠ .real 0)
  | .text s => decide (r.leadingF64 s ≠ .real 0)
  | v => decide (valueToF64 r v ≠ .real 0)

def truth (r : Readers) (v : Value) : Truth := if v.isNull then none else some (truthy r v)

def ofTruth : Truth → Value
  | none => .null
  | some b => .int (if b then 1 else 0)

theorem absent_iff (v : Value) : ExprValue.absent v = true ↔ v = .null := by
  cases v <;> simp [ExprValue.absent, Value.isNull]

theorem isZero_iff (v : Value) : isZero v = true ↔ v = .int 0 := by
  cases v <;> simp [isZero, ExprValue.same, ExprValue.ofInt, Value.eq]

theorem isOne_iff (v : Value) : isOne v = true ↔ v = .int 1 := by
  cases v <;> simp [isOne, ExprValue.same, ExprValue.ofInt, Value.eq]

theorem ofTruth_injective : Function.Injective ofTruth := by
  intro a b same
  cases a with
  | none =>
    cases b with
    | none => rfl
    | some b => cases same
  | some a =>
    cases b with
    | none => cases same
    | some b =>
      have sameInt : (if a then 1 else 0 : Int) = if b then 1 else 0 := Value.int.inj same
      cases a <;> cases b <;> simp_all

section Truths

variable (r : Readers)

theorem truth_eq_none (v : Value) : truth r v = none ↔ v = .null := by
  cases v <;> simp [truth, Value.isNull]

theorem truth_zero : truth r (.int 0) = some false := rfl

theorem truth_one : truth r (.int 1) = some true := rfl

end Truths

section Connectives

variable (r : Readers) (outer : List (Table Value × Row Value)) {row : Row Value}
  {table : Option (Table Value)}

def Evaluates (row : Row Value) (table : Option (Table Value)) (es : List (Expr Value))
    (vs : List Value) : Prop :=
  List.Forall₂ (fun e v => evalExpr outer row table e = .ok v) es vs

variable {outer} {es : List (Expr Value)} {vs : List Value}

open Classical in
theorem evalAnd_eq (evaluates : Evaluates outer row table es vs) (res : Value) :
    evalAnd outer row table res es =
      .ok (if .int 0 ∈ vs then .int 0 else if .null ∈ vs then .null else res) := by
  induction evaluates generalizing res with
  | nil => rfl
  | @cons e v es vs isValue _ ih =>
    have unfolded : evalAnd outer row table res (e :: es) =
        (if ExprValue.absent v then evalAnd outer row table .null es
        else if isZero v then .ok (.int 0) else evalAnd outer row table res es) := by
      show evalExpr outer row table e >>= _ = _
      rw [isValue]
      rfl
    rw [unfolded]
    by_cases isNull : v = .null
    · rw [if_pos ((absent_iff v).mpr isNull), ih, isNull]
      simp
    · rw [if_neg (fun h => isNull ((absent_iff v).mp h))]
      by_cases zero : v = .int 0
      · rw [if_pos ((isZero_iff v).mpr zero), zero]
        simp
      · rw [if_neg (fun h => zero ((isZero_iff v).mp h)), ih]
        simp [Ne.symm isNull, Ne.symm zero]

open Classical in
theorem evalOr_eq (evaluates : Evaluates outer row table es vs) (res : Value) :
    evalOr outer row table res es =
      .ok (if .int 1 ∈ vs then .int 1 else if .null ∈ vs then .null else res) := by
  induction evaluates generalizing res with
  | nil => rfl
  | @cons e v es vs isValue _ ih =>
    have unfolded : evalOr outer row table res (e :: es) =
        (if isOne v then .ok (.int 1)
        else if ExprValue.absent v then evalOr outer row table .null es
        else evalOr outer row table res es) := by
      show evalExpr outer row table e >>= _ = _
      rw [isValue]
      rfl
    rw [unfolded]
    by_cases one : v = .int 1
    · rw [if_pos ((isOne_iff v).mpr one), one]
      simp
    · rw [if_neg (fun h => one ((isOne_iff v).mp h))]
      by_cases isNull : v = .null
      · rw [if_pos ((absent_iff v).mpr isNull), ih, isNull]
        simp
      · rw [if_neg (fun h => isNull ((absent_iff v).mp h)), ih]
        simp [Ne.symm isNull, Ne.symm one]

theorem none_mem_truths (vs : List Value) : none ∈ vs.map (truth r) ↔ .null ∈ vs := by
  simp only [List.mem_map, truth_eq_none]
  constructor
  · rintro ⟨v, isIn, isNull⟩
    exact isNull ▸ isIn
  · intro isIn
    exact ⟨_, isIn, rfl⟩

open Classical in
theorem and_iff (evaluates : Evaluates outer row table es vs) :
    evalExpr outer row table (.and es) = .ok (ofTruth (Kleene.all (vs.map (truth r)))) ↔
      (some false ∈ vs.map (truth r) → .int 0 ∈ vs) := by
  have unfolded : evalExpr outer row table (.and es) = evalAnd outer row table (.int 1) es := rfl
  rw [unfolded, evalAnd_eq evaluates, Kleene.all_eq, Except.ok.injEq]
  by_cases zero : Value.int 0 ∈ vs
  · have isFalse : some false ∈ vs.map (truth r) := List.mem_map.mpr ⟨_, zero, truth_zero r⟩
    rw [if_pos zero, if_pos isFalse]
    exact ⟨fun _ _ => zero, fun _ => rfl⟩
  · rw [if_neg zero]
    have same : (if .null ∈ vs then .null else .int 1 : Value) =
        ofTruth (if none ∈ vs.map (truth r) then none else some true) := by
      by_cases isNull : Value.null ∈ vs
      · rw [if_pos isNull, if_pos ((none_mem_truths r vs).mpr isNull)]
        rfl
      · rw [if_neg isNull, if_neg (fun h => isNull ((none_mem_truths r vs).mp h))]
        rfl
    rw [same, ofTruth_injective.eq_iff]
    constructor
    · intro agree isFalse
      rw [if_pos isFalse] at agree
      split at agree <;> cases agree
    · intro tested
      rw [if_neg (fun isFalse => zero (tested isFalse))]

open Classical in
theorem or_iff (evaluates : Evaluates outer row table es vs) :
    evalExpr outer row table (.or es) = .ok (ofTruth (Kleene.any (vs.map (truth r)))) ↔
      (some true ∈ vs.map (truth r) → .int 1 ∈ vs) := by
  have unfolded : evalExpr outer row table (.or es) = evalOr outer row table (.int 0) es := rfl
  rw [unfolded, evalOr_eq evaluates, Kleene.any_eq, Except.ok.injEq]
  by_cases one : Value.int 1 ∈ vs
  · have isTrue : some true ∈ vs.map (truth r) := List.mem_map.mpr ⟨_, one, truth_one r⟩
    rw [if_pos one, if_pos isTrue]
    exact ⟨fun _ _ => one, fun _ => rfl⟩
  · rw [if_neg one]
    have same : (if .null ∈ vs then .null else .int 0 : Value) =
        ofTruth (if none ∈ vs.map (truth r) then none else some false) := by
      by_cases isNull : Value.null ∈ vs
      · rw [if_pos isNull, if_pos ((none_mem_truths r vs).mpr isNull)]
        rfl
      · rw [if_neg isNull, if_neg (fun h => isNull ((none_mem_truths r vs).mp h))]
        rfl
    rw [same, ofTruth_injective.eq_iff]
    constructor
    · intro agree isTrue
      rw [if_pos isTrue] at agree
      split at agree <;> cases agree
    · intro tested
      rw [if_neg (fun isTrue => one (tested isTrue))]

end Connectives

def Tested (r : Readers) (v : Value) : Prop := truth r v = some false → v = .int 0

def isTrue (r : Readers) (v : Value) : Bool := decide (truth r v = some true)

section Conditions

variable (r : Readers)

theorem passes_iff (v : Value) : passes v = true ↔ v ≠ .null ∧ v ≠ .int 0 := by
  unfold passes
  rw [Bool.and_eq_true, Bool.not_eq_true', Bool.not_eq_true', ← Bool.not_eq_true,
    ← Bool.not_eq_true, absent_iff, isZero_iff]

theorem passes_eq_iff (v : Value) : passes v = isTrue r v ↔ Tested r v := by
  rw [Bool.eq_iff_iff, passes_iff]
  unfold isTrue Tested
  rw [decide_eq_true_iff]
  constructor
  · intro agree isFalse
    by_contra notZero
    have notNull : v ≠ .null := by
      intro isNull
      rw [(truth_eq_none r v).mpr isNull] at isFalse
      cases isFalse
    have isTrue := agree.mp ⟨notNull, notZero⟩
    rw [isFalse] at isTrue
    cases isTrue
  · intro tested
    constructor
    · rintro ⟨notNull, notZero⟩
      cases isTruth : truth r v with
      | none => exact (notNull ((truth_eq_none r v).mp isTruth)).elim
      | some b =>
        cases b with
        | true => rfl
        | false => exact (notZero (tested isTruth)).elim
    · intro isTrue
      constructor
      · intro isNull
        rw [(truth_eq_none r v).mpr isNull] at isTrue
        cases isTrue
      · intro isZero
        rw [isZero, truth_zero] at isTrue
        cases isTrue

variable (outer : List (Table Value × Row Value))

theorem not_iff {row : Row Value} {table : Option (Table Value)} {e : Expr Value} {v : Value}
    (isValue : evalExpr outer row table e = .ok v) :
    evalExpr outer row table (.not e) = .ok (ofTruth (Kleene.negation (truth r v))) ↔
      Tested r v := by
  have unfolded : evalExpr outer row table (.not e) =
      .ok (if ExprValue.absent v then .null else if isZero v then .int 1 else .int 0) := by
    show evalExpr outer row table e >>= _ = _
    rw [isValue]
    rfl
  rw [unfolded, Except.ok.injEq]
  by_cases isNull : v = .null
  · rw [isNull]
    exact ⟨fun _ isFalse => (nomatch isFalse), fun _ => rfl⟩
  · rw [if_neg (fun h => isNull ((absent_iff v).mp h))]
    by_cases zero : v = .int 0
    · rw [zero]
      exact ⟨fun _ _ => rfl, fun _ => rfl⟩
    · rw [if_neg (fun h => zero ((isZero_iff v).mp h))]
      constructor
      · intro agree isFalse
        rw [isFalse] at agree
        exact absurd (Value.int.inj agree) (by decide)
      · intro tested
        cases isTruth : truth r v with
        | none => exact (isNull ((truth_eq_none r v).mp isTruth)).elim
        | some b =>
          cases b with
          | true => rfl
          | false => exact (zero (tested isTruth)).elim

theorem case_iff {row : Row Value} {table : Option (Table Value)} {cond : Expr Value} {v : Value}
    (isValue : evalExpr outer row table cond = .ok v) :
    (∀ result rest, evalConditions outer row table ((cond, result) :: rest) =
      if isTrue r v then (evalExpr outer row table result).map some
      else evalConditions outer row table rest) ↔ Tested r v := by
  have unfolded : ∀ result rest, evalConditions outer row table ((cond, result) :: rest) =
      if passes v then (evalExpr outer row table result).map some
      else evalConditions outer row table rest := by
    intro result rest
    show evalExpr outer row table cond >>= _ = _
    rw [isValue]
    show (if passes v then _ else _) = _
    cases passes v with
    | true =>
      cases evalExpr outer row table result with
      | error e => rfl
      | ok w => rfl
    | false => rfl
  rw [← passes_eq_iff]
  constructor
  · intro agree
    have onConst := agree (.const .null) []
    rw [unfolded] at onConst
    cases tested : passes v with
    | true =>
      cases known : isTrue r v with
      | true => rfl
      | false =>
        rw [tested, known] at onConst
        cases onConst
    | false =>
      cases known : isTrue r v with
      | false => rfl
      | true =>
        rw [tested, known] at onConst
        cases onConst
  · intro same result rest
    rw [unfolded, same]

theorem filter_eq_filter_iff {α : Type} (p q : α → Bool) (xs : List α) :
    xs.filter p = xs.filter q ↔ ∀ x ∈ xs, p x = q x := by
  constructor
  · intro same x isIn
    have members := @List.mem_filter _ p xs x
    rw [same, List.mem_filter] at members
    rw [Bool.eq_iff_iff]
    exact ⟨fun holds => (members.mpr ⟨isIn, holds⟩).2, fun holds => (members.mp ⟨isIn, holds⟩).2⟩
  · exact List.filter_congr

theorem filterM_iff {α : Type} {items : List α} {test : α → MyResult Bool} {value : α → Value}
    (tests : ∀ x ∈ items, test x = .ok (passes (value x))) :
    items.filterM test = .ok (items.filter (fun x => isTrue r (value x))) ↔
      ∀ x ∈ items, Tested r (value x) := by
  rw [filterM_ok tests, Except.ok.injEq, filter_eq_filter_iff]
  exact forall₂_congr (fun x _ => passes_eq_iff r (value x))

/-- AND and OR are Kleene's exactly if a false AND has the integer 0 and a true OR the integer 1; NOT
is, and a condition selects what it is true of, exactly if no value but the integer 0 is false. -/
theorem threeValued_exact :
    (∀ row table es vs, Evaluates outer row table es vs →
      (evalExpr outer row table (.and es) = .ok (ofTruth (Kleene.all (vs.map (truth r)))) ↔
        (some false ∈ vs.map (truth r) → .int 0 ∈ vs)) ∧
      (evalExpr outer row table (.or es) = .ok (ofTruth (Kleene.any (vs.map (truth r)))) ↔
        (some true ∈ vs.map (truth r) → .int 1 ∈ vs))) ∧
    (∀ row table e v, evalExpr outer row table e = .ok v →
      (evalExpr outer row table (.not e) = .ok (ofTruth (Kleene.negation (truth r v))) ↔
        Tested r v) ∧
      ((∀ result rest, evalConditions outer row table ((e, result) :: rest) =
        if isTrue r v then (evalExpr outer row table result).map some
        else evalConditions outer row table rest) ↔ Tested r v)) ∧
    (∀ cond table rows (value : Row Value → Value),
      (∀ row ∈ rows, evalExpr outer row table cond = .ok (value row)) →
      (passing outer cond table rows = .ok (rows.filter (fun row => isTrue r (value row))) ↔
        ∀ row ∈ rows, Tested r (value row))) ∧
    (∀ having table groups (value : List (Row Value) → Value),
      (∀ rows ∈ groups, evalGroupExpr outer having rows table = .ok (value rows)) →
      (keptGroups outer (some having) table groups =
          .ok (groups.filter (fun rows => isTrue r (value rows))) ↔
        ∀ rows ∈ groups, Tested r (value rows))) ∧
    ∀ t selection (value : Row Value × Nat → Value),
      (∀ x ∈ t.rows.zipIdx, evalExpr outer x.1 (some t) selection = .ok (value x)) →
      (dmlMatches outer t (some selection) =
          .ok (t.rows.zipIdx.filter (fun x => isTrue r (value x))) ↔
        ∀ x ∈ t.rows.zipIdx, Tested r (value x)) := by
  refine ⟨?_, ?_, ?_, ?_, ?_⟩
  · intro row table es vs evaluates
    exact ⟨and_iff r evaluates, or_iff r evaluates⟩
  · intro row table e v isValue
    exact ⟨not_iff r outer isValue, case_iff r outer isValue⟩
  · intro cond table rows value evaluated
    apply filterM_iff
    intro row isIn
    rw [evaluated row isIn]
    rfl
  · intro having table groups value evaluated
    apply filterM_iff
    intro rows isIn
    show evalGroupExpr outer having rows table >>= _ = _
    rw [evaluated rows isIn]
    rfl
  · intro t selection value evaluated
    apply filterM_iff
    intro x isIn
    show evalExpr outer x.1 (some t) selection >>= _ = _
    rw [evaluated x isIn]
    rfl

end Conditions

theorem threeValued_exact_one :
    evalExpr [] [] none (.or [.const (.int 2), .const (.int 1)]) = .ok (Value.int 1) := by
  have evaluates : Evaluates [] [] none [.const (.int 2), .const (.int 1)] [.int 2, .int 1] :=
    .cons rfl (.cons rfl .nil)
  exact ((threeValued_exact Types.upperAndLower []).1 [] none _ _ evaluates).2.mpr
    (fun _ => List.mem_cons_of_mem _ List.mem_cons_self)

/-- `2 OR 0` is 0. -/
theorem or_ofTwo :
    ¬ ∀ (r : Readers) (es : List (Expr Value)) (vs : List Value), Evaluates [] [] none es vs →
      evalExpr [] [] none (.or es) = .ok (ofTruth (Kleene.any (vs.map (truth r)))) := by
  intro claimed
  have evaluates : Evaluates [] [] none [.const (.int 2), .const (.int 0)] [.int 2, .int 0] :=
    .cons rfl (.cons rfl .nil)
  have isOne := claimed Types.upperAndLower _ _ evaluates
  have isZero : evalExpr [] [] none (.or [.const (.int 2), .const (.int 0)]) =
      .ok (Value.int 0) := rfl
  rw [isZero] at isOne
  exact absurd (Value.int.inj (Except.ok.inj isOne)) (by decide)

end NoidaDb.MySql.Plans
