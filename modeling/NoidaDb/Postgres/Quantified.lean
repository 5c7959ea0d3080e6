/-
IN, ANY and ALL over a list, an array or a subquery, against three-valued logic.

A result is a truth value, or none where the code answers NULL.
-/

import NoidaDb.Lib.Kleene
import NoidaDb.Postgres.JoinKeys

namespace NoidaDb.Postgres

open Lib NoidaDb.Postgres.Types
open Lib.Kleene (Truth)
open Joins (compareValues isNull)

inductive CmpOp where
  | eq
  | ne
  | lt
  | le
  | gt
  | ge
deriving Repr, DecidableEq

def CmpOp.test : CmpOp → Ordering → Bool
  | .eq, o => o == .eq
  | .ne, o => o != .eq
  | .lt, o => o == .lt
  | .le, o => o != .gt
  | .gt, o => o == .gt
  | .ge, o => o != .lt

variable (conv : Conversions)

def inListLoop (v : Value) (negated : Bool) : List Value → Bool → Truth
  | [], sawNull => if sawNull then none else some negated
  | x :: rest, sawNull =>
    if isNull x then inListLoop v negated rest true
    else if cmpValues conv v x == .eq then some (!negated)
    else inListLoop v negated rest sawNull

/-- `Expr::InList`. -/
def inList (v : Value) (list : List Value) (negated : Bool) : Truth :=
  if isNull v then none else inListLoop conv v negated list false

def anyAllLoop (op : CmpOp) (all : Bool) (l : Value) : List Value → Bool → Truth
  | [], sawNull => if sawNull then none else some all
  | x :: rest, sawNull =>
    if isNull x then anyAllLoop op all l rest true
    else
      let hit := op.test (compareValues conv false l x)
      if all && !hit then some false
      else if !all && hit then some true
      else anyAllLoop op all l rest sawNull

def items : Value → List Value
  | .array _ items => items
  | other => [other]

/-- `Expr::AnyAll`. -/
def anyAll (op : CmpOp) (all : Bool) (l r : Value) : Truth :=
  if isNull l || isNull r then none else anyAllLoop conv op all l (items r) false

/-- Do all columns pass, as far as they are known, and is one of them null? A column that the row
lacks is null. -/
def testRow (op : CmpOp) : List Value → List Value → Bool → Bool → Bool × Bool
  | [], _, allEq, nullHere => (allEq, nullHere)
  | lv :: lvals, r, allEq, nullHere =>
    let rv := r.headD .null
    if isNull lv || isNull rv then testRow op lvals r.tail allEq true
    else testRow op lvals r.tail (allEq && op.test (compareValues conv false lv rv)) nullHere

/-- What `Expr::InSub` answers after its loop. -/
def inSubResult (all negated sawNull found : Bool) : Truth :=
  if negated then
    if found then some false else if sawNull then none else some true
  else if found then some true
  else if sawNull then none
  else some all

def inSubLoop (op : CmpOp) (all negated : Bool) (lvals : List Value) :
    List (List Value) → Bool → Bool → Truth
  | [], sawNull, found => inSubResult all negated sawNull found
  | r :: rest, sawNull, found =>
    let (allEq, nullHere) := testRow conv op lvals r true false
    if nullHere && allEq then inSubLoop op all negated lvals rest true found
    else if allEq then
      if !all then inSubResult all negated sawNull true
      else inSubLoop op all negated lvals rest sawNull true
    else if all then some negated
    else inSubLoop op all negated lvals rest sawNull found

/-- `Expr::InSub`. -/
def inSub (left : List Value) (op : CmpOp) (rows : List (List Value)) (all negated : Bool) : Truth :=
  inSubLoop conv op all negated left rows false false

/-- What the binder puts around an operand, where it succeeds.  It gives null for null and for nothing
else. -/
structure Cast where
  apply : Value → Value
  keepsNull : ∀ v, isNull (apply v) = isNull v

def Cast.uncast : Cast := ⟨id, fun _ => rfl⟩

/-- `x op y` as the binder's `compare` has it: the casts to a common type, with the letters folded where
the collation ignores case and an enum replaced by its position, and whether that type is
char(n).  The fields of two rows are compared as they are. -/
structure Comparison where
  left : Cast
  right : Cast
  bpchar : Bool

def Comparison.holds (c : Comparison) (op : CmpOp) (x y : Value) : Truth :=
  if isNull x || isNull y then none
  else some (op.test (compareValues conv c.bpchar (c.left.apply x) (c.right.apply y)))

/-- A left value, with the cast that the form puts around it and the operator's own comparison. -/
structure Operand where
  cast : Cast
  operator : Comparison
  value : Value

/-- The subquery forms leave the right values as they are. -/
def Operand.compared (x : Operand) : Comparison := ⟨x.cast, .uncast, false⟩

def columns3 (how : Operand → Comparison) (op : CmpOp) : List Operand → List Value → List Truth
  | [], _ => []
  | x :: xs, r => (how x).holds conv op x.value (r.headD .null) :: columns3 how op xs r.tail

def compareRow (how : Operand → Comparison) (op : CmpOp) (xs : List Operand) (r : List Value) : Truth :=
  Kleene.all (columns3 conv how op xs r)

inductive Membership where
  /-- `x [NOT] IN (ys)`, where all are cast to one type and each `x = y` alone has its own. -/
  | list (left right : Cast) (x : Value) (ys : List (Comparison × Value)) (negated : Bool)
  /-- `x op ANY/ALL (array)`. -/
  | array (x : Operand) (right : Cast) (op : CmpOp) (all : Bool) (dims : List (Int × Int))
      (ys : List Value)
  /-- `x op ANY/ALL (SELECT ..)`. -/
  | quantified (x : Operand) (op : CmpOp) (all : Bool) (rows : List (List Value))
  /-- `(xs) [NOT] IN (SELECT ..)`. -/
  | tuple (xs : List Operand) (rows : List (List Value)) (negated : Bool)

namespace Membership

def eval : Membership → Truth
  | list left right x ys negated =>
    inList conv (left.apply x) (ys.map (fun y => right.apply y.2)) negated
  | array x right op all dims ys =>
    anyAll conv op all (x.cast.apply x.value) (.array dims (ys.map right.apply))
  | quantified x op all rows => inSub conv [x.cast.apply x.value] op rows all false
  | tuple xs rows negated =>
    inSub conv (xs.map (fun x => x.cast.apply x.value)) .eq rows negated negated

/-- The operator's answers, one for each right value or row. -/
def comparisons : Membership → List Truth
  | list _ _ x ys negated => ys.map (fun y => y.1.holds conv (if negated then .ne else .eq) x y.2)
  | array x _ op _ _ ys => ys.map (x.operator.holds conv op x.value)
  | quantified x op _ rows => rows.map (fun r => x.operator.holds conv op x.value (r.headD .null))
  | tuple xs rows negated =>
    (rows.map (compareRow conv Operand.operator .eq xs)).map
      (if negated then Kleene.negation else id)

/-- What the same comparisons come to between the values that the form has cast. -/
def seen : Membership → List Truth
  | list left right x ys negated =>
    ys.map (fun y => Comparison.holds conv ⟨left, right, false⟩ (if negated then .ne else .eq) x y.2)
  | array x right op _ _ ys => ys.map (Comparison.holds conv ⟨x.cast, right, false⟩ op x.value)
  | quantified x op _ rows => rows.map (fun r => x.compared.holds conv op x.value (r.headD .null))
  | tuple xs rows negated =>
    (rows.map (compareRow conv Operand.compared .eq xs)).map
      (if negated then Kleene.negation else id)

def forAll : Membership → Bool
  | list _ _ _ _ negated => negated
  | array _ _ _ all _ _ => all
  | quantified _ _ all _ => all
  | tuple _ _ negated => negated

def quantify (forAll : Bool) (bs : List Truth) : Truth := if forAll then Kleene.all bs else Kleene.any bs

def truth (m : Membership) : Truth := quantify m.forAll (m.comparisons conv)

/-- Both have a deciding comparison, or neither has, and then both an unknown one or neither. -/
def DecideAlike (forAll : Bool) (seen comparisons : List Truth) : Prop :=
  (some (!forAll) ∈ seen ↔ some (!forAll) ∈ comparisons) ∧
    (some (!forAll) ∈ seen ∨ (none ∈ seen ↔ none ∈ comparisons))

/-- A null is not held against nothing; a subquery under ALL has a false comparison, or no true one, or
no unknown one; under NOT IN all rows differ from the left one, or none does; and the casts of the
form decide as the operator does. -/
def Followed (m : Membership) : Prop :=
  match m with
  | list _ _ x ys _ => (isNull x = true → ys ≠ []) ∧
      DecideAlike m.forAll (m.seen conv) (m.comparisons conv)
  | array x _ _ _ _ ys => (isNull x.value = true → ys ≠ []) ∧
      DecideAlike m.forAll (m.seen conv) (m.comparisons conv)
  | quantified _ _ all _ =>
    (all = true → some true ∈ m.seen conv → none ∈ m.seen conv → some false ∈ m.seen conv) ∧
      DecideAlike all (m.seen conv) (m.comparisons conv)
  | tuple _ _ negated =>
    if negated = true ∧ some true ∈ m.seen conv then ∀ b ∈ m.comparisons conv, b = some true
    else DecideAlike negated (m.seen conv) (m.comparisons conv)

theorem quantify_eq (all : Bool) (bs : List Truth) :
    quantify all bs =
      if some (!all) ∈ bs then some (!all) else if none ∈ bs then none else some all := by
  cases all with
  | false => exact Kleene.any_eq bs
  | true => exact Kleene.all_eq bs

theorem quantify_eq_iff (all : Bool) (ds cs : List Truth) :
    quantify all ds = quantify all cs ↔ DecideAlike all ds cs := by
  rw [quantify_eq, quantify_eq]
  unfold DecideAlike
  by_cases inDs : some (!all) ∈ ds <;> by_cases inCs : some (!all) ∈ cs <;>
    by_cases unknownD : none ∈ ds <;> by_cases unknownC : none ∈ cs <;>
      simp [inDs, inCs, unknownD, unknownC]

theorem quantify_unknown (all : Bool) {ds : List Truth} (unknown : ∀ d ∈ ds, d = none) :
    none = quantify all ds ↔ ds ≠ [] := by
  rw [quantify_eq]
  cases ds with
  | nil => simp
  | cons d ds =>
    have undecided : some (!all) ∉ d :: ds := fun member => by cases unknown _ member
    rw [if_neg undecided, unknown d List.mem_cons_self]
    simp

end Membership

open NoidaDb.Postgres.Membership

variable {conv}

theorem Comparison.holds_eq_none (c : Comparison) (op : CmpOp) (x y : Value) :
    c.holds conv op x y = none ↔ isNull x = true ∨ isNull y = true := by
  unfold Comparison.holds
  by_cases unknown : (isNull x || isNull y) = true
  · rw [if_pos unknown]
    simpa using unknown
  · rw [if_neg unknown]
    simpa using unknown

theorem Comparison.holds_of_isNull {x : Value} (isNull' : isNull x = true) (c : Comparison)
    (op : CmpOp) (y : Value) : c.holds conv op x y = none :=
  (c.holds_eq_none op x y).mpr (Or.inl isNull')

theorem anyAllLoop_eq (left right : Cast) (op : CmpOp) (all : Bool) {x : Value}
    (known : isNull x = false) (ys : List Value) (sawNull : Bool) :
    anyAllLoop conv op all (left.apply x) (ys.map right.apply) sawNull =
      if some (!all) ∈ ys.map (Comparison.holds conv ⟨left, right, false⟩ op x) then some (!all)
      else if sawNull = true ∨ none ∈ ys.map (Comparison.holds conv ⟨left, right, false⟩ op x) then none
      else some all := by
  induction ys generalizing sawNull with
  | nil => simp [anyAllLoop]
  | cons y ys ih =>
    rw [List.map_cons]
    unfold anyAllLoop
    rw [right.keepsNull]
    by_cases isNullY : isNull y = true
    · have unknown : Comparison.holds conv ⟨left, right, false⟩ op x y = none := by
        simp [Comparison.holds, isNullY]
      rw [if_pos isNullY, ih]
      simp [unknown]
    · have isKnown : Comparison.holds conv ⟨left, right, false⟩ op x y
          = some (op.test (compareValues conv false (left.apply x) (right.apply y))) := by
        simp [Comparison.holds, isNullY, known]
      rw [if_neg isNullY]
      simp only [ih, List.map_cons, List.mem_cons, isKnown]
      cases op.test (compareValues conv false (left.apply x) (right.apply y)) <;> cases all <;> simp

/-- A null against nothing is the only slip of the list and of the array. -/
theorem anyAll_eq (left right : Cast) (op : CmpOp) (all : Bool) (x : Value) (dims : List (Int × Int))
    (ys : List Value) (cs : List Truth) (sameLength : cs.length = ys.length)
    (unknown : isNull x = true → ∀ c ∈ cs, c = none) :
    anyAll conv op all (left.apply x) (.array dims (ys.map right.apply)) = quantify all cs ↔
      (isNull x = true → ys ≠ []) ∧
        DecideAlike all (ys.map (Comparison.holds conv ⟨left, right, false⟩ op x)) cs := by
  have notNull : isNull (.array dims (ys.map right.apply)) = false := rfl
  unfold anyAll
  rw [left.keepsNull, notNull, Bool.or_false]
  by_cases isNull' : isNull x = true
  · have undecided := quantify_unknown all (unknown isNull')
    have seenUnknown : ∀ d ∈ ys.map (Comparison.holds conv ⟨left, right, false⟩ op x), d = none := by
      intro d member
      obtain ⟨y, _, same⟩ := List.mem_map.mp member
      rw [← same, Comparison.holds_of_isNull isNull']
    have alike : cs ≠ [] ↔ ys ≠ [] := by
      rw [← List.length_pos_iff, ← List.length_pos_iff, sameLength]
    have seenUndecided := quantify_unknown all seenUnknown
    rw [if_pos isNull', undecided, alike]
    constructor
    · intro nonempty
      refine ⟨fun _ => nonempty, (quantify_eq_iff all _ _).mp ?_⟩
      rw [← undecided.mpr (alike.mpr nonempty), ← seenUndecided.mpr (by simpa using nonempty)]
    · intro both
      exact both.1 isNull'
  · have known : isNull x = false := Bool.eq_false_iff.mpr isNull'
    rw [if_neg isNull', items, anyAllLoop_eq left right op all known ys false]
    simp only [Bool.false_eq_true, false_or]
    rw [← quantify_eq, quantify_eq_iff]
    simp [isNull']

theorem inListLoop_eq (v : Value) (negated : Bool) (list : List Value) (sawNull : Bool) :
    inListLoop conv v negated list sawNull =
      anyAllLoop conv (if negated then .ne else .eq) negated v list sawNull := by
  induction list generalizing sawNull with
  | nil => rfl
  | cons x list ih =>
    unfold inListLoop anyAllLoop
    simp only [ih, Joins.compareValues_false]
    cases negated <;> cases same : cmpValues conv v x <;> simp [CmpOp.test]

theorem inList_eq (v : Value) (list : List Value) (negated : Bool) (dims : List (Int × Int)) :
    inList conv v list negated =
      anyAll conv (if negated then .ne else .eq) negated v (.array dims list) := by
  have notNull : isNull (.array dims list) = false := rfl
  unfold inList anyAll
  rw [inListLoop_eq, notNull, Bool.or_false, items]

theorem testRow_eq (op : CmpOp) (xs : List Operand) (r : List Value) (allEq nullHere : Bool) :
    testRow conv op (xs.map (fun x => x.cast.apply x.value)) r allEq nullHere =
      (allEq && !decide (some false ∈ columns3 conv Operand.compared op xs r),
        nullHere || decide (none ∈ columns3 conv Operand.compared op xs r)) := by
  induction xs generalizing r allEq nullHere with
  | nil => simp [testRow, columns3]
  | cons x xs ih =>
    rw [List.map_cons]
    unfold testRow columns3
    rw [x.cast.keepsNull]
    by_cases unknown : (isNull x.value || isNull (r.headD .null)) = true
    · have isUnknown : x.compared.holds conv op x.value (r.headD .null) = none := by
        unfold Comparison.holds
        rw [if_pos unknown]
      simp only [unknown, if_true, ih, isUnknown]
      simp
    · have isKnown : x.compared.holds conv op x.value (r.headD .null) = some
          (op.test (compareValues conv false (x.cast.apply x.value) (r.headD .null))) := by
        unfold Comparison.holds
        rw [if_neg unknown]
        rfl
      simp only [unknown, ih, isKnown]
      cases op.test (compareValues conv false (x.cast.apply x.value) (r.headD .null)) <;> simp

section Subqueries

variable (op : CmpOp) (xs : List Operand) (rows : List (List Value))

theorem inSubLoop_cons (all negated : Bool) (r : List Value) (rest : List (List Value))
    (sawNull found : Bool) :
    inSubLoop conv op all negated (xs.map (fun x => x.cast.apply x.value)) (r :: rest) sawNull found =
      match compareRow conv Operand.compared op xs r with
      | none =>
        inSubLoop conv op all negated (xs.map (fun x => x.cast.apply x.value)) rest true found
      | some true =>
        if !all then inSubResult all negated sawNull true
        else inSubLoop conv op all negated (xs.map (fun x => x.cast.apply x.value)) rest sawNull true
      | some false =>
        if all then some negated
        else inSubLoop conv op all negated (xs.map (fun x => x.cast.apply x.value)) rest sawNull found := by
  rw [inSubLoop, testRow_eq]
  unfold compareRow
  rw [Kleene.all_eq]
  by_cases isFalse : some false ∈ columns3 conv Operand.compared op xs r
  · simp [isFalse]
  · by_cases isUnknown : none ∈ columns3 conv Operand.compared op xs r
    · simp [isFalse, isUnknown]
    · simp [isFalse, isUnknown]

theorem inSub_any :
    inSub conv (xs.map (fun x => x.cast.apply x.value)) op rows false false =
      Kleene.any (rows.map (compareRow conv Operand.compared op xs)) := by
  have general : ∀ sawNull,
      inSubLoop conv op false false (xs.map (fun x => x.cast.apply x.value)) rows sawNull false =
        if some true ∈ rows.map (compareRow conv Operand.compared op xs) then some true
        else if sawNull = true ∨ none ∈ rows.map (compareRow conv Operand.compared op xs) then none
        else some false := by
    induction rows with
    | nil => simp [inSubLoop, inSubResult]
    | cons r rows ih =>
      intro sawNull
      rw [inSubLoop_cons]
      cases isRow : compareRow conv Operand.compared op xs r with
      | none => simp [ih, isRow]
      | some b => cases b <;> simp [ih, isRow, inSubResult]
  rw [inSub, general, Kleene.any_eq]
  simp

theorem inSub_all (negated : Bool) :
    inSub conv (xs.map (fun x => x.cast.apply x.value)) op rows true negated =
      if some false ∈ rows.map (compareRow conv Operand.compared op xs) then some negated
      else inSubResult true negated
        (decide (none ∈ rows.map (compareRow conv Operand.compared op xs)))
        (decide (some true ∈ rows.map (compareRow conv Operand.compared op xs))) := by
  have general : ∀ sawNull found,
      inSubLoop conv op true negated (xs.map (fun x => x.cast.apply x.value)) rows sawNull found =
        if some false ∈ rows.map (compareRow conv Operand.compared op xs) then some negated
        else inSubResult true negated
          (sawNull || decide (none ∈ rows.map (compareRow conv Operand.compared op xs)))
          (found || decide (some true ∈ rows.map (compareRow conv Operand.compared op xs))) := by
    induction rows with
    | nil => simp [inSubLoop]
    | cons r rows ih =>
      intro sawNull found
      rw [inSubLoop_cons]
      cases isRow : compareRow conv Operand.compared op xs r with
      | none => simp [ih, isRow]
      | some b => cases b <;> simp [ih, isRow]
  rw [inSub, general, Bool.false_or, Bool.false_or]

end Subqueries

theorem compareRow_singleton (how : Operand → Comparison) (op : CmpOp) (x : Operand) (r : List Value) :
    compareRow conv how op [x] r = (how x).holds conv op x.value (r.headD .null) := by
  have unfolded : compareRow conv how op [x] r =
      Kleene.all [(how x).holds conv op x.value (r.headD .null)] := rfl
  rw [unfolded, Kleene.all_eq]
  cases (how x).holds conv op x.value (r.headD .null) with
  | none => rfl
  | some b => cases b <;> rfl

theorem mem_map_negation (bs : List Truth) (b : Truth) :
    b ∈ bs.map Kleene.negation ↔ Kleene.negation b ∈ bs := by
  have twice : ∀ u : Truth, Kleene.negation (Kleene.negation u) = u := by
    intro u
    cases u with
    | none => rfl
    | some b => exact congrArg some (Bool.not_not b)
  rw [List.mem_map]
  constructor
  · rintro ⟨c, isIn, same⟩
    rw [← same, twice]
    exact isIn
  · intro isIn
    exact ⟨Kleene.negation b, isIn, twice b⟩

/-- ALL over a subquery answers true as soon as one row passes and none fails. -/
theorem inSubResult_all {ds cs : List Truth} (nulls : none ∈ ds ↔ none ∈ cs) :
    (if some false ∈ ds then some false
      else inSubResult true false (decide (none ∈ ds)) (decide (some true ∈ ds))) = quantify true cs ↔
      (some true ∈ ds → none ∈ ds → some false ∈ ds) ∧ DecideAlike true ds cs := by
  rw [quantify_eq]
  unfold inSubResult DecideAlike
  simp only [nulls]
  by_cases isFalse : some false ∈ ds <;> by_cases isTrue : some true ∈ ds <;>
    by_cases decided : some false ∈ cs <;> by_cases unknown : none ∈ cs <;>
      simp [isFalse, isTrue, decided, unknown]

theorem all_eq_true (cs : List Truth) : some true = quantify true cs ↔ ∀ b ∈ cs, b = some true := by
  rw [quantify_eq]
  constructor
  · intro isTrue b member
    cases b with
    | none =>
      rw [if_pos member] at isTrue
      split at isTrue
      · cases isTrue
      · cases isTrue
    | some b =>
      cases b with
      | false =>
        have decided : some (!true) ∈ cs := member
        rw [if_pos decided] at isTrue
        cases isTrue
      | true => rfl
  · intro only
    rw [if_neg (fun member => by cases only _ member), if_neg (fun member => by cases only _ member)]

/-- NOT IN over a subquery answers true as soon as one row differs. -/
theorem inSubResult_notIn (ds cs : List Truth) :
    (if some true ∈ ds then some true
      else inSubResult true true (decide (none ∈ ds)) (decide (some false ∈ ds))) = quantify true cs ↔
      if some true ∈ ds then ∀ b ∈ cs, b = some true else DecideAlike true ds cs := by
  by_cases isTrue : some true ∈ ds
  · rw [if_pos isTrue, if_pos isTrue]
    exact all_eq_true cs
  · rw [if_neg isTrue, if_neg isTrue, ← quantify_eq_iff, quantify_eq true ds]
    unfold inSubResult
    simp

variable (conv)

end NoidaDb.Postgres
