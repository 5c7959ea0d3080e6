/-
One equality and one order.

Most operators compare by `mysql_cmp`; GROUP BY compares by the derived equality.  The order
that a column's type means is `meaning`, and the operators are held against it.
-/

import NoidaDb.MySql.Columns
import NoidaDb.MySql.Times

namespace NoidaDb.MySql.Types

open Lib NoidaDb.Sql

/-! ### Operators -/

inductive CmpOp where
  | eq
  | ne
  | lt
  | le
  | gt
  | ge
deriving Repr, DecidableEq

def CmpOp.holds : CmpOp → Ordering → Bool
  | .eq, o => o == .eq
  | .ne, o => o != .eq
  | .lt, o => o == .lt
  | .le, o => o != .gt
  | .gt, o => o == .gt
  | .ge, o => o != .lt

section Operators

variable (r : Readers)

def evalCompare (op : CmpOp) (a b : Value) : Value :=
  if a.isNull || b.isNull then .null
  else
    match mysqlCmp r a b with
    | none => .null
    | some o => .int (if op.holds o then 1 else 0)

def sameCell (x y : Value) : Bool :=
  match x.isNull, y.isNull with
  | true, true => true
  | false, false => cmpEqual r x y
  | _, _ => false

def keysEqual (a b : List Value) : Bool := (a.zip b).all (fun cells => sameCell r cells.1 cells.2)

def rowsDistinctEqual (a b : List Value) : Bool :=
  a.length == b.length && (a.zip b).all (fun cells => sameCell r cells.1 cells.2)

def keepFirst {α : Type} (same : α → α → Bool) (rows : List α) : List α :=
  rows.foldl (fun kept row => if kept.any (fun k => same k row) then kept else kept ++ [row]) []

/-- `DISTINCT`, on the visible columns. -/
def distinctRows (hidden : Nat) (rows : List (List Value)) : List (List Value) :=
  keepFirst (fun k row =>
    rowsDistinctEqual r (k.take (row.length - hidden)) (row.take (row.length - hidden))) rows

def unionRows (all : Bool) (left right : List (List Value)) : List (List Value) :=
  if all then left ++ right else keepFirst (rowsDistinctEqual r) (left ++ right)

/-- The values under a `DISTINCT` in an aggregate. -/
def distinctValues (vals : List Value) : List Value :=
  keepFirst (cmpEqual r) (vals.filter (fun v => !v.isNull))

def addToGroup {κ α : Type} (same : κ → κ → Bool) (key : κ) (row : α) :
    List (κ × List α) → List (κ × List α)
  | [] => [(key, [row])]
  | g :: rest =>
    if same g.1 key then (g.1, g.2 ++ [row]) :: rest else g :: addToGroup same key row rest

def grouped {κ α : Type} (same : κ → κ → Bool) (rows : List (κ × α)) : List (κ × List α) :=
  rows.foldl (fun groups row => addToGroup same row.1 row.2 groups) []

def partitions (keys : List (List Value)) : List (List Nat) :=
  (grouped (keysEqual r) keys.zipIdx).map Prod.snd

/-- The derived `==` of two keys. -/
def keyEq (a b : List Value) : Bool :=
  a.length == b.length && (a.zip b).all (fun cells => cells.1.eq cells.2)

/-- `GROUP BY`, from the key of each row. -/
def groupRows (rows : List (List Value × List Value)) : List (List Value × List (List Value)) :=
  grouped keyEq rows

def keyConflicts (cols : List Nat) (row other : List Value) : Bool :=
  cols.all (fun c => cmpEqual r (row.getD c .null) (other.getD c .null))

/-- The first row (other than `skip`) that `row` collides with on a key without nulls. -/
def findKeyConflict (rows : List (List Value)) (keys : List (String × List Nat))
    (row : List Value) (skip : Option Nat) : Option (Nat × Nat) :=
  keys.zipIdx.findSome? (fun k =>
    if k.1.2.any (fun c => (row.getD c .null).isNull) then none
    else (rows.zipIdx.find? (fun other =>
      decide (some other.2 ≠ skip) && keyConflicts r k.1.2 row other.1)).map
        (fun other => (other.2, k.2)))

/-! ### What a type means -/

def intOf : Value → Int
  | .int i => i
  | _ => 0

def floatOf : Value → Amount
  | .float x => x
  | _ => .nan

def amountOf : Value → Amount
  | .num n => n.amount
  | _ => .nan

def durationOf : Value → Int
  | .time us => us
  | _ => 0

def dayOf : Value → Int
  | .date d => 2 * d
  | _ => 2 * dateNegInf + 1

def instantOf : Value → Int
  | .ts us => 2 * us
  | _ => 2 * tsNegInf + 1

def textOf : Value → String
  | .text s => s
  | _ => ""

def placeOf (members : List String) (v : Value) : Nat :=
  if textOf v = "" then 0 else members.idxOf (textOf v) + 1

def jsonOf : Value → Json
  | .json j => j
  | .text s => .str s
  | _ => .null

def bytesOf : Value → List Nat
  | .bytes b => b.map UInt8.toNat
  | .text s => s.toUTF8.data.toList.map UInt8.toNat
  | _ => []

def meaning : ColumnType → Value → Value → Ordering
  | .float, a, b => (floatOf a).cmp (floatOf b)
  | .double, a, b => (floatOf a).cmp (floatOf b)
  | .decimal .., a, b => (amountOf a).cmp (amountOf b)
  | .time _, a, b => compare (durationOf a) (durationOf b)
  | .date, a, b => compare (dayOf a) (dayOf b)
  | .datetime, a, b => compare (instantOf a) (instantOf b)
  | .varchar _, a, b => cmpText (r.lower (textOf a)) (r.lower (textOf b))
  | .text, a, b => cmpText (r.lower (textOf a)) (r.lower (textOf b))
  | .enum members, a, b => compare (placeOf members a) (placeOf members b)
  | .json, a, b => Json.cmpJsonb (jsonOf a) (jsonOf b)
  | .blob, a, b => compare (bytesOf a) (bytesOf b)
  | _, a, b => compare (intOf a) (intOf b)

/-- The operators on rows.  Two rows have the same key in a unique index if `unique`, and are
one row to all else if `same`. -/
structure RowsIdentified (a b : List Value) (unique same : Prop) : Prop where
  uniqueKey : (findKeyConflict r [b] [("key", List.range a.length)] a none).isSome ↔ unique
  distinct : (distinctRows r 0 [a, b]).length = 1 ↔ same
  union : (unionRows r false [a] [b]).length = 1 ↔ same
  partition : (partitions r [a, b]).length = 1 ↔ same
  groupBy : (groupRows [(a, a), (b, b)]).length = 1 ↔ same

/-- The comparison of two values is what their type means, and every operator takes them for
one value exactly if the comparison is `Equal`. -/
structure OneOrder (t : ColumnType) (a b : Value) : Prop where
  order : mysqlCmp r a b = some (meaning r t a b)
  equals : evalCompare r .eq a b = .int 1 ↔ mysqlCmp r a b = some .eq
  countDistinct : (distinctValues r [a, b]).length = 1 ↔ mysqlCmp r a b = some .eq
  rows : RowsIdentified r [a] [b] (mysqlCmp r a b = some .eq) (mysqlCmp r a b = some .eq)

end Operators

/-! ### Operators on two rows -/

section TwoRows

variable {α κ : Type}

theorem length_keepFirst_pair (same : α → α → Bool) (a b : α) :
    (keepFirst same [a, b]).length = 1 ↔ same a b = true := by
  cases isSame : same a b with
  | true => simp [keepFirst, isSame]
  | false => simp [keepFirst, isSame]

theorem length_grouped_pair (same : κ → κ → Bool) (a b : κ × α) :
    (grouped same [a, b]).length = 1 ↔ same a.1 b.1 = true := by
  cases isSame : same a.1 b.1 with
  | true => simp [grouped, addToGroup, isSame]
  | false => simp [grouped, addToGroup, isSame]

theorem all_range_zip {p : Value → Value → Bool} {a b : List Value}
    (sameLength : a.length = b.length) :
    (List.range a.length).all (fun c => p (a.getD c .null) (b.getD c .null)) =
      (a.zip b).all (fun cells => p cells.1 cells.2) := by
  induction a generalizing b with
  | nil => rfl
  | cons x a ih =>
    cases b with
    | nil => cases sameLength
    | cons y b =>
      rw [List.length_cons, List.range_succ_eq_map, List.all_cons, List.all_map,
        List.zip_cons_cons, List.all_cons, ← ih (Nat.succ.inj sameLength)]
      rfl

theorem any_range {p : Value → Bool} (a : List Value) :
    (List.range a.length).any (fun c => p (a.getD c .null)) = a.any p := by
  induction a with
  | nil => rfl
  | cons x a ih =>
    rw [List.length_cons, List.range_succ_eq_map, List.any_cons, List.any_map, List.any_cons, ← ih]
    rfl

end TwoRows

section Rows

variable {r : Readers}

variable {a b : List Value}

theorem isSome_findKeyConflict (sameLength : a.length = b.length) :
    (findKeyConflict r [b] [("key", List.range a.length)] a none).isSome =
      (!a.any Value.isNull && (a.zip b).all (fun cells => cmpEqual r cells.1 cells.2)) := by
  have key : findKeyConflict r [b] [("key", List.range a.length)] a none =
      if a.any Value.isNull then none
      else if (a.zip b).all (fun cells => cmpEqual r cells.1 cells.2) then some (0, 0) else none := by
    have keys := @all_range_zip (cmpEqual r) a b sameLength
    have nulls := @any_range Value.isNull a
    simp only [findKeyConflict, List.zipIdx_cons, List.zipIdx_nil, List.findSome?_cons,
      List.findSome?_nil, List.find?_cons, List.find?_nil, keyConflicts, keys, nulls]
    cases a.any Value.isNull with
    | true => rfl
    | false =>
      cases (a.zip b).all (fun cells => cmpEqual r cells.1 cells.2) with
      | true => rfl
      | false => rfl
  rw [key]
  cases a.any Value.isNull with
  | true => rfl
  | false =>
    cases (a.zip b).all (fun cells => cmpEqual r cells.1 cells.2) with
    | true => rfl
    | false => rfl

theorem rowsDistinctEqual_eq (sameLength : a.length = b.length) :
    rowsDistinctEqual r a b = keysEqual r a b := by
  simp [rowsDistinctEqual, keysEqual, sameLength]

theorem rowsIdentified_iff (sameLength : a.length = b.length) (unique same : Prop) :
    RowsIdentified r a b unique same ↔
      (((!a.any Value.isNull && (a.zip b).all (fun cells => cmpEqual r cells.1 cells.2)) = true ↔
          unique) ∧
        (keysEqual r a b = true ↔ same) ∧ (keyEq a b = true ↔ same)) := by
  have distinct : (distinctRows r 0 [a, b]).length = 1 ↔ keysEqual r a b = true := by
    unfold distinctRows
    rw [length_keepFirst_pair]
    simp only [Nat.sub_zero, List.take_length]
    rw [← sameLength, List.take_length, rowsDistinctEqual_eq sameLength]
  have union : (unionRows r false [a] [b]).length = 1 ↔ keysEqual r a b = true := by
    rw [← rowsDistinctEqual_eq sameLength]
    exact length_keepFirst_pair (rowsDistinctEqual r) a b
  have partition : (partitions r [a, b]).length = 1 ↔ keysEqual r a b = true := by
    unfold partitions
    rw [List.length_map]
    exact length_grouped_pair (keysEqual r) (a, 0) (b, 1)
  have groupBy : (groupRows [(a, a), (b, b)]).length = 1 ↔ keyEq a b = true :=
    length_grouped_pair keyEq (a, a) (b, b)
  rw [← isSome_findKeyConflict sameLength]
  constructor
  · intro identified
    exact ⟨identified.uniqueKey, partition.symm.trans identified.partition,
      groupBy.symm.trans identified.groupBy⟩
  · intro tests
    exact ⟨tests.1, distinct.trans tests.2.1, union.trans tests.2.1, partition.trans tests.2.1,
      groupBy.trans tests.2.2⟩

theorem cmpEqual_iff (a b : Value) : cmpEqual r a b = true ↔ mysqlCmp r a b = some .eq := by
  simp [cmpEqual]

/-- What makes the operators one: the comparison is what the type means, and the derived
equality is the same as `Equal`. -/
theorem oneOrder_of_tests {t : ColumnType} {a b : Value} (someA : a.isNull = false)
    (someB : b.isNull = false) :
    OneOrder r t a b ↔ mysqlCmp r a b = some (meaning r t a b) ∧
      (a.eq b = true ↔ mysqlCmp r a b = some .eq) := by
  have equals : evalCompare r .eq a b = .int 1 ↔ mysqlCmp r a b = some .eq := by
    unfold evalCompare
    rw [someA, someB]
    cases mysqlCmp r a b with
    | none => simp
    | some o =>
      cases o with
      | lt => simp [CmpOp.holds]
      | eq => simp [CmpOp.holds]
      | gt => simp [CmpOp.holds]
  have countDistinct : (distinctValues r [a, b]).length = 1 ↔ mysqlCmp r a b = some .eq := by
    unfold distinctValues
    have both : [a, b].filter (fun v => !v.isNull) = [a, b] := by simp [someA, someB]
    rw [both, length_keepFirst_pair, cmpEqual_iff]
  have rows : RowsIdentified r [a] [b] (mysqlCmp r a b = some .eq) (mysqlCmp r a b = some .eq) ↔
      (a.eq b = true ↔ mysqlCmp r a b = some .eq) := by
    have length : [a].length = [b].length := rfl
    rw [rowsIdentified_iff length]
    simp [keysEqual, sameCell, keyEq, someA, someB, cmpEqual]
  constructor
  · intro one
    exact ⟨one.order, rows.mp one.rows⟩
  · intro tests
    exact ⟨tests.1, equals, countDistinct, rows.mpr tests.2⟩

end Rows

/-! ### Dates against the zero date -/

theorem rsplitOnce_eq {sep : Char} {s : List Char} {parts : List Char × List Char}
    (split : rsplitOnce sep s = some parts) : s = parts.1 ++ sep :: parts.2 := by
  unfold rsplitOnce at split
  dsimp only at split
  cases rest : s.reverse.dropWhile (fun c => decide (c ≠ sep)) with
  | nil =>
    rw [rest] at split
    cases split
  | cons c head =>
    rw [rest] at split
    rw [← Option.some.inj split]
    have isSep : c = sep := by
      have stops := List.head?_dropWhile_not (fun c => decide (c ≠ sep)) s.reverse
      rw [rest] at stops
      simpa using stops
    have whole := List.takeWhile_append_dropWhile (p := fun c => decide (c ≠ sep)) (l := s.reverse)
    rw [rest, isSep] at whole
    have back := congrArg List.reverse whole
    rw [List.reverse_reverse, List.reverse_append, List.reverse_cons, List.append_assoc] at back
    exact back.symm

theorem mysqlFraction_appends (text : List Char) (us : Int) :
    ∃ zeros, mysqlFraction text us = text ++ zeros := by
  unfold mysqlFraction
  split
  · exact ⟨[], (List.append_nil text).symm⟩
  · split
    · exact ⟨[], (List.append_nil text).symm⟩
    · rename_i parts split
      by_cases fills : (decide (parts.2.length < 6) && parts.2.all isDigit) = true
      · rw [if_pos fills, rsplitOnce_eq split]
        exact ⟨List.replicate (6 - parts.2.length) '0', by simp⟩
      · rw [if_neg fills]
        exact ⟨[], (List.append_nil text).symm⟩

theorem zeroDate_text : "0000-00-00" = String.ofList (List.replicate 4 '0' ++ "-00-00".toList) := by
  decide

theorem zeroDatetime_text :
    "0000-00-00 00:00:00" = String.ofList (List.replicate 4 '0' ++ "-00-00 00:00:00".toList) := by
  decide

section Types

variable {r : Readers}

theorem mysqlCmp_date_zero (d : Int) :
    mysqlCmp r (.date d) (.text "0000-00-00") = some (if d = dateNegInf then .lt else .gt) := by
  have order := formatDate_after_zeros d [] "-00-00".toList
  rw [List.append_nil] at order
  have compared : cmpTemporal r (.date d) (midnight d) "0000-00-00" =
      if d = dateNegInf then .lt else .gt := by
    unfold cmpTemporal
    rw [r.zeroDate, ← order, zeroDate_text]
    exact cmpText_ofList _ _
  exact congrArg some compared

theorem mysqlCmp_ts_zero (us : Int) :
    mysqlCmp r (.ts us) (.text "0000-00-00 00:00:00") =
      some (if us = tsNegInf then .lt else .gt) := by
  obtain ⟨zeros, appended⟩ := mysqlFraction_appends (formatTimestamp us) us
  have order := formatTimestamp_after_zeros us zeros "-00-00 00:00:00".toList
  have compared : cmpTemporal r (.ts us) us "0000-00-00 00:00:00" =
      if us = tsNegInf then .lt else .gt := by
    unfold cmpTemporal
    rw [r.zeroDatetime, ← order, zeroDatetime_text, ← appended]
    exact cmpText_ofList _ _
  exact congrArg some compared

theorem compare_after_least {low d : Int} (least : low ≤ d) :
    compare (2 * d) (2 * low + 1) = if d = low then .lt else .gt := by
  by_cases same : d = low
  · have next : 2 * low < 2 * low + 1 := by omega
    rw [if_pos same, same]
    exact compare_lt_iff_lt.mpr next
  · rw [if_neg same]
    have later : 2 * low + 1 < 2 * d := by omega
    exact compare_gt_iff_gt.mpr later

theorem compare_double (a b : Int) : compare (2 * a) (2 * b) = compare a b := by
  rcases lt_trichotomy a b with less | same | more
  · rw [compare_lt_iff_lt.mpr less]
    exact compare_lt_iff_lt.mpr (by omega)
  · rw [same, Std.ReflOrd.compare_self, Std.ReflOrd.compare_self]
  · rw [compare_gt_iff_gt.mpr more]
    exact compare_gt_iff_gt.mpr (by omega)

/-! ### Each type -/

theorem some_eq_iff (o : Ordering) (same : Prop) (equal : o = .eq ↔ same) (isEq : Bool)
    (derived : isEq = true ↔ same) : isEq = true ↔ some o = some Ordering.eq := by
  rw [derived, ← equal]
  simp

variable {a b : Value} {t : ColumnType} {x : String}

theorem int_oneOrder {bits : Nat} (isInt : ColumnType.bits t = some bits) (a b : Int) :
    OneOrder r t (.int a) (.int b) := by
  have order : meaning r t (.int a) (.int b) = compare a b := by
    cases t with
    | int => rfl
    | bigInt => rfl
    | boolean => rfl
    | tinyInt => rfl
    | smallInt => rfl
    | mediumInt => rfl
    | _ => cases isInt
  rw [oneOrder_of_tests rfl rfl, order]
  exact ⟨rfl, some_eq_iff (compare a b) (a = b) compare_eq_iff_eq (a == b) beq_iff_eq⟩

theorem double_oneOrder_iff (isDouble : t = .float ∨ t = .double) (x y : Amount) :
    OneOrder r t (.float x) (.float y) ↔ x ≠ .nan ∧ y ≠ .nan := by
  have order : meaning r t (.float x) (.float y) = x.cmp y := by
    rcases isDouble with rfl | rfl
    · rfl
    · rfl
  have compared : mysqlCmp r (.float x) (.float y) = partialCmp x y := rfl
  rw [oneOrder_of_tests rfl rfl, order, compared]
  unfold partialCmp
  by_cases isNan : x = .nan ∨ y = .nan
  · rw [if_pos isNan]
    constructor
    · intro tests
      cases tests.1
    · intro noNan
      rcases isNan with isX | isY
      · exact (noNan.1 isX).elim
      · exact (noNan.2 isY).elim
  · rw [if_neg isNan]
    have noNan := not_or.mp isNan
    apply iff_of_true _ noNan
    apply And.intro rfl
    apply some_eq_iff (x.cmp y) (x = y) (Amount.cmp_eq_iff x y)
    show Value.floatEq x y = true ↔ x = y
    simp [Value.floatEq, noNan.1]

theorem decimal_oneOrder {precision scale : Nat} {m n : Numeric} (normalM : m.Normal)
    (normalN : n.Normal) : OneOrder r (.decimal precision scale) (.num m) (.num n) := by
  rw [oneOrder_of_tests rfl rfl]
  have compared : mysqlCmp r (.num m) (.num n) = some (cmpNum m n) := rfl
  have order : meaning r (.decimal precision scale) (.num m) (.num n) = m.amount.cmp n.amount := rfl
  rw [compared, order, cmpNum_amount normalM normalN]
  apply And.intro rfl
  show (cmpNum m n == .eq) = true ↔ _
  rw [cmpNum_amount normalM normalN]
  simp

theorem time_oneOrder_iff {fsp : Nat} {a b : Int} (fitsA : a.natAbs ≤ maxMysqlTime.natAbs)
    (fitsB : b.natAbs ≤ maxMysqlTime.natAbs) :
    OneOrder r (.time fsp) (.time a) (.time b) ↔ ReadInOrder a b := by
  have compared : mysqlCmp r (.time a) (.time b) =
      some (cmpChars (formatMysqlTime a) (formatMysqlTime b)) :=
    congrArg some (cmpText_ofList _ _)
  have order : meaning r (.time fsp) (.time a) (.time b) = compare a b := rfl
  rw [oneOrder_of_tests rfl rfl, compared, order, ← cmpChars_time_iff fitsA fitsB, Option.some.injEq]
  constructor
  · intro tests
    exact tests.1
  · intro inOrder
    apply And.intro inOrder
    rw [inOrder]
    exact some_eq_iff (compare a b) (a = b) compare_eq_iff_eq (a == b) beq_iff_eq

inductive PointOrZero (point : Int → Value) (zero : String) (low : Int) : Value → Prop
  | point {d : Int} (range : low ≤ d) : PointOrZero point zero low (point d)
  | zero : PointOrZero point zero low (.text zero)

theorem points_oneOrder {point : Int → Value} {zero : String} {low : Int} (place : Value → Int)
    (order : ∀ a b, meaning r t a b = compare (place a) (place b))
    (places : ∀ d, place (point d) = 2 * d) (zeroPlace : place (.text zero) = 2 * low + 1)
    (isSome : ∀ d, (point d).isNull = false)
    (compared : ∀ d e, mysqlCmp r (point d) (point e) = some (compare d e))
    (equal : ∀ d e, (point d).eq (point e) = (d == e))
    (apart : ∀ d, (point d).eq (.text zero) = false ∧ (Value.text zero).eq (point d) = false)
    (toZero : ∀ d, mysqlCmp r (point d) (.text zero) = some (if d = low then .lt else .gt))
    (fromZero : ∀ d, mysqlCmp r (.text zero) (point d) =
      (mysqlCmp r (point d) (.text zero)).map Ordering.swap) (isA : PointOrZero point zero low a)
    (isB : PointOrZero point zero low b) : OneOrder r t a b := by
  cases isA with
  | @point d rangeA =>
    cases isB with
    | @point e rangeB =>
      rw [oneOrder_of_tests (isSome d) (isSome e), order, places, places, compare_double,
        compared, equal]
      exact ⟨rfl, some_eq_iff (compare d e) (d = e) compare_eq_iff_eq (d == e) beq_iff_eq⟩
    | zero =>
      rw [oneOrder_of_tests (isSome d) rfl, order, places, zeroPlace, toZero,
        compare_after_least rangeA, (apart d).1]
      apply And.intro rfl
      split
      · simp
      · simp
  | zero =>
    cases isB with
    | @point e rangeB =>
      have flipped : compare (2 * low + 1) (2 * e) = (compare (2 * e) (2 * low + 1)).swap :=
        Std.OrientedOrd.eq_swap
      rw [oneOrder_of_tests rfl (isSome e), order, places, zeroPlace, fromZero, toZero, flipped,
        compare_after_least rangeB, (apart e).2]
      apply And.intro rfl
      split
      · simp
      · simp
    | zero =>
      have same : mysqlCmp r (.text zero) (.text zero) = some .eq :=
        congrArg some ((cmpText_eq_iff (r.lower zero) (r.lower zero)).mpr rfl)
      rw [oneOrder_of_tests rfl rfl, order, same, compare_eq_iff_eq.mpr rfl]
      simp [Value.eq]

theorem date_oneOrder (isA : Stored .date a) (isB : Stored .date b) : OneOrder r .date a b := by
  have points : ∀ v, Stored .date v → PointOrZero .date "0000-00-00" dateNegInf v := by
    intro v stored
    cases stored with
    | int isInt i => cases isInt
    | date range => exact PointOrZero.point range
    | zeroDate => exact PointOrZero.zero
  exact points_oneOrder dayOf (fun _ _ => rfl) (fun _ => rfl) rfl (fun _ => rfl)
    (fun _ _ => rfl) (fun _ _ => rfl) (fun _ => ⟨rfl, rfl⟩) mysqlCmp_date_zero (fun _ => rfl)
    (points a isA) (points b isB)

theorem datetime_oneOrder (isA : Stored .datetime a) (isB : Stored .datetime b) :
    OneOrder r .datetime a b := by
  have points : ∀ v, Stored .datetime v → PointOrZero .ts "0000-00-00 00:00:00" tsNegInf v := by
    intro v stored
    cases stored with
    | int isInt i => cases isInt
    | datetime range => exact PointOrZero.point range
    | zeroDatetime => exact PointOrZero.zero
  exact points_oneOrder instantOf (fun _ _ => rfl) (fun _ => rfl) rfl (fun _ => rfl)
    (fun _ _ => rfl) (fun _ _ => rfl) (fun _ => ⟨rfl, rfl⟩) mysqlCmp_ts_zero (fun _ => rfl)
    (points a isA) (points b isB)

theorem text_oneOrder_iff {y : String}
    (order : meaning r t (.text x) (.text y) = cmpText (r.lower x) (r.lower y)) :
    OneOrder r t (.text x) (.text y) ↔ x = y ∨ r.lower x ≠ r.lower y := by
  have compared : mysqlCmp r (.text x) (.text y) = some (cmpText (r.lower x) (r.lower y)) := rfl
  rw [oneOrder_of_tests rfl rfl, order, compared]
  show _ ∧ ((x == y) = true ↔ _) ↔ _
  rw [beq_iff_eq, Option.some.injEq (cmpText _ _) .eq, cmpText_eq_iff]
  constructor
  · intro tests
    by_cases folded : r.lower x = r.lower y
    · exact Or.inl (tests.2.mpr folded)
    · exact Or.inr folded
  · intro cases
    apply And.intro rfl
    rcases cases with same | different
    · exact iff_of_true same (congrArg r.lower same)
    · exact iff_of_false (fun same => different (congrArg r.lower same)) different

theorem placeOf_inj {members : List String} (isX : x = "" ∨ x ∈ members) (y : String) :
    placeOf members (.text x) = placeOf members (.text y) ↔ x = y := by
  constructor
  · intro same
    by_cases emptyX : x = ""
    · by_cases emptyY : y = ""
      · rw [emptyX, emptyY]
      · simp [placeOf, textOf, emptyX, emptyY] at same
    · by_cases emptyY : y = ""
      · simp [placeOf, textOf, emptyX, emptyY] at same
      · simp only [placeOf, textOf, emptyX, emptyY, if_false, Nat.succ.injEq] at same
        exact (List.idxOf_inj (isX.resolve_left emptyX)).mp same
  · intro same
    rw [same]

theorem enum_oneOrder_iff {members : List String} (isX : x = "" ∨ x ∈ members) (y : String) :
    OneOrder r (.enum members) (.text x) (.text y) ↔
      compare (placeOf members (.text x)) (placeOf members (.text y)) =
        cmpText (r.lower x) (r.lower y) := by
  have compared : mysqlCmp r (.text x) (.text y) = some (cmpText (r.lower x) (r.lower y)) := rfl
  have order : meaning r (.enum members) (.text x) (.text y) =
      compare (placeOf members (.text x)) (placeOf members (.text y)) := rfl
  rw [oneOrder_of_tests rfl rfl, order, compared, Option.some.injEq]
  constructor
  · intro tests
    exact tests.1.symm
  · intro alphabetical
    apply And.intro alphabetical.symm
    rw [← alphabetical]
    exact some_eq_iff _ (x = y) (Nat.compare_eq_eq.trans (placeOf_inj isX y)) (x == y) beq_iff_eq

/-- Neither is a NaN; the two times read in their order; the two texts are the same or differ by more
than case; the members are listed in alphabetical order. -/
def InOrder (r : Readers) : ColumnType → Value → Value → Prop
  | .float, a, b => floatOf a ≠ .nan ∧ floatOf b ≠ .nan
  | .double, a, b => floatOf a ≠ .nan ∧ floatOf b ≠ .nan
  | .time _, a, b => ReadInOrder (durationOf a) (durationOf b)
  | .varchar _, a, b => textOf a = textOf b ∨ r.lower (textOf a) ≠ r.lower (textOf b)
  | .text, a, b => textOf a = textOf b ∨ r.lower (textOf a) ≠ r.lower (textOf b)
  | .enum members, a, b =>
    compare (placeOf members a) (placeOf members b) =
      cmpText (r.lower (textOf a)) (r.lower (textOf b))
  | .json, _, _ => False
  | .blob, _, _ => False
  | _, _, _ => True

theorem oneOrder_iff_inOrder (notJson : t ≠ .json) (notBlob : t ≠ .blob) (isA : Stored t a)
    (isB : Stored t b) : OneOrder r t a b ↔ InOrder r t a b := by
  cases isA with
  | int isInt i =>
    have always : InOrder r t (.int i) b := by
      cases t with
      | int => trivial
      | bigInt => trivial
      | boolean => trivial
      | tinyInt => trivial
      | smallInt => trivial
      | mediumInt => trivial
      | _ => cases isInt
    have isInteger : ∃ j, b = .int j := by
      cases isB with
      | int _ j => exact ⟨j, rfl⟩
      | _ => cases isInt
    obtain ⟨j, isB⟩ := isInteger
    rw [isB] at always ⊢
    exact iff_of_true (int_oneOrder isInt i j) always
  | float x =>
    cases isB with
    | int isInt j => cases isInt
    | float y => exact double_oneOrder_iff (Or.inl rfl) x y
  | double x =>
    cases isB with
    | int isInt j => cases isInt
    | double y => exact double_oneOrder_iff (Or.inr rfl) x y
  | decimal normalA =>
    cases isB with
    | int isInt j => cases isInt
    | decimal normalB => exact iff_of_true (decimal_oneOrder normalA normalB) trivial
  | time fitsA =>
    cases isB with
    | int isInt j => cases isInt
    | time fitsB => exact time_oneOrder_iff fitsA fitsB
  | date rangeA => exact iff_of_true (date_oneOrder (Stored.date rangeA) isB) trivial
  | zeroDate => exact iff_of_true (date_oneOrder Stored.zeroDate isB) trivial
  | datetime rangeA => exact iff_of_true (datetime_oneOrder (Stored.datetime rangeA) isB) trivial
  | zeroDatetime => exact iff_of_true (datetime_oneOrder Stored.zeroDatetime isB) trivial
  | varchar fitsA =>
    cases isB with
    | int isInt j => cases isInt
    | varchar fitsB => exact text_oneOrder_iff rfl
  | text s =>
    cases isB with
    | int isInt j => cases isInt
    | text s' => exact text_oneOrder_iff rfl
  | bytes b => exact (notBlob rfl).elim
  | blobText s => exact (notBlob rfl).elim
  | member isMember =>
    cases isB with
    | int isInt j => cases isInt
    | member => exact enum_oneOrder_iff (Or.inr isMember) _
    | noMember => exact enum_oneOrder_iff (Or.inr isMember) _
  | noMember =>
    cases isB with
    | int isInt j => cases isInt
    | member => exact enum_oneOrder_iff (Or.inl rfl) _
    | noMember => exact enum_oneOrder_iff (Or.inl rfl) _
  | json normal => exact (notJson rfl).elim
  | jsonText s => exact (notJson rfl).elim

theorem meaning_preorder (t : ColumnType) : PreorderOn (meaning r t) (Stored t) := by
  cases t with
  | float => exact PreorderOn.of_key Amount.cmp floatOf (fun _ _ _ _ => rfl)
  | double => exact PreorderOn.of_key Amount.cmp floatOf (fun _ _ _ _ => rfl)
  | decimal precision scale => exact PreorderOn.of_key Amount.cmp amountOf (fun _ _ _ _ => rfl)
  | time fsp => exact PreorderOn.of_key compare durationOf (fun _ _ _ _ => rfl)
  | date => exact PreorderOn.of_key compare dayOf (fun _ _ _ _ => rfl)
  | datetime => exact PreorderOn.of_key compare instantOf (fun _ _ _ _ => rfl)
  | varchar n =>
    exact cmpText_preorder.comap (fun v => r.lower (textOf v)) (fun _ _ => trivial)
      (fun _ _ _ _ => rfl)
  | text =>
    exact cmpText_preorder.comap (fun v => r.lower (textOf v)) (fun _ _ => trivial)
      (fun _ _ _ _ => rfl)
  | enum members => exact PreorderOn.of_key compare (placeOf members) (fun _ _ _ _ => rfl)
  | json =>
    apply Json.cmpJsonb_order.comap jsonOf _ (fun _ _ _ _ => rfl)
    intro v stored
    cases stored with
    | int isInt i => cases isInt
    | json normal => exact normal
    | jsonText s => exact ⟨0, Json.Normal.str 0 s⟩
  | blob => exact PreorderOn.of_key compare bytesOf (fun _ _ _ _ => rfl)
  | int => exact PreorderOn.of_key compare intOf (fun _ _ _ _ => rfl)
  | bigInt => exact PreorderOn.of_key compare intOf (fun _ _ _ _ => rfl)
  | boolean => exact PreorderOn.of_key compare intOf (fun _ _ _ _ => rfl)
  | tinyInt => exact PreorderOn.of_key compare intOf (fun _ _ _ _ => rfl)
  | smallInt => exact PreorderOn.of_key compare intOf (fun _ _ _ _ => rfl)
  | mediumInt => exact PreorderOn.of_key compare intOf (fun _ _ _ _ => rfl)

/-! ### Documents and bytes -/

theorem stores_of_coerced (given : Value) {v : Value} (notNull : v.isNull = false)
    (wellFormed : WellFormed given)
    (coerced : coerceToColumn r ⟨[]⟩ { name := "c", ty := t } given = .ok v) : Stores r t v :=
  ⟨notNull, ⟨[]⟩, { name := "c", ty := t }, given, rfl, wellFormed, coerced⟩

def digitJson (d : Nat) : Value := .json (.num (.fin { digits := [d] }))

theorem stores_digitJson {d : Nat} (below : d < 10) (pos : 0 < d) : Stores r .json (digitJson d) := by
  apply stores_of_coerced (digitJson d) rfl _ rfl
  apply Exists.intro 0
  apply Json.Normal.num
  constructor
  · constructor
    · simp [below]
    · simp
      omega
  · intro isEmpty
    cases isEmpty

theorem json_disagrees :
    ∃ a b, Stores r .json a ∧ Stores r .json b ∧ ¬ OneOrder r .json a b := by
  -- `9` and `10`.
  apply Exists.intro (digitJson 9)
  apply Exists.intro (.json (.num (.fin { digits := [1, 0] })))
  apply And.intro (stores_digitJson (by decide) (by decide))
  constructor
  · apply stores_of_coerced (.json (.num (.fin { digits := [1, 0] }))) rfl _ rfl
    exact ⟨0, Json.Normal.num ⟨⟨by decide, by decide⟩, by decide⟩⟩
  · intro one
    have order : some (cmpText (Json.toJsonbString (.num (.fin { digits := [9] })))
        (Json.toJsonbString (.num (.fin { digits := [1, 0] })))) =
        some (Json.cmpJsonb (.num (.fin { digits := [9] })) (.num (.fin { digits := [1, 0] }))) :=
      one.order
    revert order
    decide

theorem blob_disagrees :
    ∃ a b, Stores r .blob a ∧ Stores r .blob b ∧ ¬ OneOrder r .blob a b := by
  -- A text and its own bytes.
  apply Exists.intro (.bytes "a".toUTF8.data.toList)
  apply Exists.intro (.text "a")
  apply And.intro (stores_of_coerced (.bytes "a".toUTF8.data.toList) rfl trivial rfl)
  apply And.intro (stores_of_coerced (.text "a") rfl trivial rfl)
  intro one
  have equal : mysqlCmp r (.bytes "a".toUTF8.data.toList) (.text "a") = some .eq := by
    show some (cmpText (r.lossy "a".toUTF8.data.toList) "a") = some .eq
    rw [r.lossy_utf8, (cmpText_eq_iff _ _).mpr rfl]
  have derived := ((oneOrder_of_tests rfl rfl).mp one).2.mpr equal
  cases derived

/-! ### Nulls -/

theorem mysqlCmp_null (someA : a.isNull = false) :
    mysqlCmp r a .null = some (cmpText (renderText r a) "") := by
  cases a with
  | null => cases someA
  | _ => rfl

theorem null_last (r : Readers) (someA : a.isNull = false) :
    RowsIdentified r [a] [.null] False False ↔ renderText r a ≠ "" := by
  have length : [a].length = [Value.null].length := rfl
  have derived : a.eq .null = false := by
    cases a with
    | null => cases someA
    | _ => rfl
  rw [rowsIdentified_iff length]
  have isNull : Value.null.isNull = true := rfl
  simp [keysEqual, sameCell, keyEq, someA, isNull, cmpEqual, derived, mysqlCmp_null someA,
    cmpText_eq_iff]

theorem null_first (r : Readers) (someA : a.isNull = false) :
    RowsIdentified r [.null] [a] False False := by
  have length : [Value.null].length = [a].length := rfl
  have derived : Value.null.eq a = false := by
    cases a with
    | null => cases someA
    | _ => rfl
  rw [rowsIdentified_iff length]
  have isNull : Value.null.isNull = true := rfl
  simp [keysEqual, sameCell, keyEq, someA, isNull, derived]

/-! ### Rows -/

/-- Cells of one column that every operator on rows takes for the same, or for different. -/
def CellsAgree (r : Readers) (x y : Value) : Prop :=
  x.isNull = true ∨ (y.isNull = true ∧ renderText r x ≠ "") ∨
    (x.isNull = false ∧ y.isNull = false ∧ ∃ t, OneOrder r t x y)

/-- No nulls, and the comparison is `Equal` in every column. -/
def SameKey (r : Readers) (a b : List Value) : Prop :=
  ∀ cells ∈ a.zip b, cells.1.isNull = false ∧ cells.2.isNull = false ∧
    mysqlCmp r cells.1 cells.2 = some .eq

/-- In every column two nulls, or values for which the comparison is `Equal`. -/
def SameRow (r : Readers) (a b : List Value) : Prop :=
  ∀ cells ∈ a.zip b, (cells.1.isNull = true ∧ cells.2.isNull = true) ∨
    (cells.1.isNull = false ∧ cells.2.isNull = false ∧ mysqlCmp r cells.1 cells.2 = some .eq)

theorem eq_null {x : Value} (isNull : x.isNull = true) : x = .null := by
  cases x with
  | null => rfl
  | _ => cases isNull

theorem sameCell_iff (x y : Value) :
    sameCell r x y = true ↔ (x.isNull = true ∧ y.isNull = true) ∨
      (x.isNull = false ∧ y.isNull = false ∧ mysqlCmp r x y = some .eq) := by
  unfold sameCell
  cases x.isNull with
  | true =>
    cases y.isNull with
    | true => simp
    | false => simp
  | false =>
    cases y.isNull with
    | true => simp
    | false => simp [cmpEqual]

theorem eq_of_agree {x y : Value} (agree : CellsAgree r x y) : x.eq y = sameCell r x y := by
  rcases agree with nullX | nullY | ⟨someX, someY, t, one⟩
  · rw [eq_null nullX]
    cases y with
    | null => rfl
    | _ => rfl
  · rw [eq_null nullY.1]
    cases x with
    | null => rfl
    | _ => rfl
  · have tests := ((oneOrder_of_tests someX someY).mp one).2
    rw [Bool.eq_iff_iff, tests, sameCell_iff]
    simp [someX, someY]

theorem sameKey_of_agree {x y : Value} (agree : CellsAgree r x y) :
    (!x.isNull && cmpEqual r x y) = true ↔
      x.isNull = false ∧ y.isNull = false ∧ mysqlCmp r x y = some .eq := by
  rcases agree with nullX | nullY | ⟨someX, someY, _⟩
  · simp [nullX]
  · cases someX : x.isNull with
    | true => simp
    | false =>
      have isNull : Value.null.isNull = true := rfl
      rw [eq_null nullY.1]
      simp [cmpEqual, mysqlCmp_null someX, cmpText_eq_iff, nullY.2, isNull]
  · simp [someX, someY, cmpEqual]

theorem rows_agree {a b : List Value} (sameLength : a.length = b.length)
    (agree : ∀ cells ∈ a.zip b, CellsAgree r cells.1 cells.2) :
    RowsIdentified r a b (SameKey r a b) (SameRow r a b) := by
  have firsts : a.any Value.isNull = (a.zip b).any (fun cells => cells.1.isNull) := by
    have zipped : (a.zip b).map Prod.fst = a := List.map_fst_zip (Nat.le_of_eq sameLength)
    calc a.any Value.isNull = ((a.zip b).map Prod.fst).any Value.isNull := by rw [zipped]
      _ = (a.zip b).any (fun cells => cells.1.isNull) := List.any_map
  rw [rowsIdentified_iff sameLength, firsts]
  have keys : keysEqual r a b = true ↔ SameRow r a b := by
    unfold keysEqual SameRow
    simp only [List.all_eq_true, sameCell_iff]
  have derived : keyEq a b = true ↔ SameRow r a b := by
    rw [← keys]
    unfold keyEq keysEqual
    simp only [sameLength, beq_self_eq_true, Bool.true_and, List.all_eq_true]
    constructor
    · intro all cells member
      rw [← eq_of_agree (agree cells member)]
      exact all cells member
    · intro all cells member
      rw [eq_of_agree (agree cells member)]
      exact all cells member
  refine ⟨?_, keys, derived⟩
  unfold SameKey
  constructor
  · intro unique cells member
    simp only [Bool.and_eq_true, Bool.not_eq_true', List.any_eq_false, List.all_eq_true] at unique
    apply (sameKey_of_agree (agree cells member)).mp
    simp [unique.1 cells member, unique.2 cells member]
  · intro same
    simp only [Bool.and_eq_true, Bool.not_eq_true', List.any_eq_false, List.all_eq_true]
    constructor
    · intro cells member
      simp [(same cells member).1]
    · intro cells member
      exact (cmpEqual_iff _ _).mpr (same cells member).2.2

end Types

/-! ### The whole -/

/-- The meaning of every type is a total preorder, and on two values the operators are one as far as
they are in order. -/
theorem oneEquality (r : Readers) :
    (∀ t, PreorderOn (meaning r t) (Stores r t)) ∧
      (∀ t a b, t ≠ .json → t ≠ .blob → Stores r t a → Stores r t b →
        (OneOrder r t a b ↔ InOrder r t a b)) ∧
      (∀ t, t = .json ∨ t = .blob →
        ∃ a b, Stores r t a ∧ Stores r t b ∧ ¬ OneOrder r t a b) ∧
      (∀ t a, Stores r t a →
        (RowsIdentified r [a] [.null] False False ↔ renderText r a ≠ "") ∧
          RowsIdentified r [.null] [a] False False) ∧
      (∀ a b : List Value, a.length = b.length →
        (∀ cells ∈ a.zip b, CellsAgree r cells.1 cells.2) →
          RowsIdentified r a b (SameKey r a b) (SameRow r a b)) := by
  refine ⟨?_, ?_, ?_, ?_, ?_⟩
  · intro t
    exact (meaning_preorder t).mono (fun _ stores => stored_of_stores stores)
  · intro t a b notJson notBlob isA isB
    exact oneOrder_iff_inOrder notJson notBlob (stored_of_stores isA) (stored_of_stores isB)
  · intro t isDocument
    rcases isDocument with rfl | rfl
    · exact json_disagrees
    · exact blob_disagrees
  · intro t a isA
    exact ⟨null_last r isA.1, null_first r isA.1⟩
  · intro a b sameLength agree
    exact rows_agree sameLength agree

/-! ### A text in two cases -/

def upperAndLower : Readers where
  lower s := String.ofList (s.toList.map Char.toLower)
  lossy b := (String.fromUTF8? ⟨b.toArray⟩).getD "\uFFFD"
  showF64 _ := "NaN"
  f64OfInt i := .real i
  f64OfNumeric := Numeric.amount
  numericOfF64 _ := .nan
  parseF64 _ := none
  parseI128 _ := none
  textToF64 _ := .real 0
  leadingF64 _ := .real 0
  parseTime _ := none
  parseDate _ := none
  parseDatetime _ := none
  lossy_utf8 s := by
    have back : (⟨s.toUTF8.data.toList.toArray⟩ : ByteArray) = s.toUTF8 := by
      rw [Array.toArray_toList]
    rw [back]
    unfold String.fromUTF8?
    have valid : s.toUTF8.IsValidUTF8 := s.isValidUTF8
    rw [dif_pos valid]
    rfl
  numericOfF64_normal _ := trivial
  parseDate_range _ _ parsed := by cases parsed
  parseDatetime_range _ _ parsed := by cases parsed
  zeroDate := rfl
  zeroDatetime := rfl

/-- `a` and `A` are one value to all operators but GROUP BY. -/
theorem oneEquality_cases :
    ¬ ∀ r t a b, Stores r t a → Stores r t b → OneOrder r t a b := by
  intro claimed
  have stores : ∀ s : String, s.toList.length ≤ 1 → Stores upperAndLower (.varchar 1) (.text s) := by
    intro s fits
    apply stores_of_coerced (.text s) rfl trivial
    show coerceVarchar _ _ _ 1 (.text s) = _
    unfold coerceVarchar
    exact if_neg (Nat.not_lt.mpr fits)
  have one := claimed upperAndLower (.varchar 1) (.text "a") (.text "A") (stores "a" (by decide))
    (stores "A" (by decide))
  have equal : mysqlCmp upperAndLower (.text "a") (.text "A") = some .eq := by decide
  have grouped := one.rows.groupBy.mpr equal
  revert grouped
  decide

end NoidaDb.MySql.Types
