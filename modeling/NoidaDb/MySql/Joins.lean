/-
Joins keep rows aligned with their columns.

`specPlan` is what the joins are for: the padding of a LEFT JOIN has one NULL for each column
of the right side.  The executor takes the width of the padding from the first right row.
-/

import NoidaDb.Lib.ExceptState
import NoidaDb.Lib.ListUpdates
import NoidaDb.MySql.Plans

namespace NoidaDb.MySql.Plans

open ExprValue
open NoidaDb.Lib

section Specification

variable {V : Type} [ExprValue V] (reading : Reading V)

def contextWidth (plan : Plan V) : Nat :=
  match resolveTableContext reading plan with
  | .ok (some t) => t.columns.length
  | _ => 0

def leftRows (width : Nat) (l : Row V) (matched : List (Row V)) : List (Row V) :=
  if matched.isEmpty then [l ++ List.replicate width null] else matched

def specJoin (op : JoinOp V) (context : Option (Table V)) (rWidth : Nat)
    (lRows rRows : List (Row V)) : MyResult (List (Row V)) :=
  match op with
  | .left cond => do
      let blocks ← lRows.mapM (fun l => do
        let matched ← passing reading.outer cond context (rRows.map (fun r => l ++ r))
        pure (leftRows rWidth l matched))
      pure blocks.flatten
  | op => executeJoin reading op context lRows rRows

def specPlan : Plan V → MyResult (List (Row V))
  | .scan key aliasName => executePlan reading (.scan key aliasName)
  | .derived aliasName names rows => executePlan reading (.derived aliasName names rows)
  | .filter source predicate => do
      let context ← resolveTableContext reading source
      let rows ← specPlan source
      executeFilter reading predicate context rows
  | .join left right op => do
      let lTable ← resolveTableContext reading left
      let rTable ← resolveTableContext reading right
      let lRows ← specPlan left
      let rRows ← specPlan right
      specJoin reading op (mergeTableContexts lTable rTable) (contextWidth reading right) lRows rRows

/-- A row is made of a row of each table of the joins, in their order, or of as many NULLs as
the table has columns. -/
inductive RowOf : Plan V → Row V → Prop
  | scan {key : Key} {aliasName : Option String} {rows : List (Row V)} {row : Row V}
      (read : executePlan reading (.scan key aliasName) = .ok rows) (isIn : row ∈ rows) :
      RowOf (.scan key aliasName) row
  | derived {aliasName : String} {names : List String} {rows : Rows V names.length} {row : Row V}
      (isIn : row ∈ rows.val) : RowOf (.derived aliasName names (.ok rows)) row
  | filter {source : Plan V} {predicate : Expr V} {row : Row V} (isRow : RowOf source row) :
      RowOf (.filter source predicate) row
  | joined {left right : Plan V} {op : JoinOp V} {a b : Row V} (isLeft : RowOf left a)
      (isRight : RowOf right b) : RowOf (.join left right op) (a ++ b)
  | padded {left right : Plan V} {cond : Expr V} {a : Row V} (isLeft : RowOf left a) :
      RowOf (.join left right (.left cond))
        (a ++ List.replicate (contextWidth reading right) null)

def EveryNode (P : Plan V → Prop) : Plan V → Prop
  | .scan key aliasName => P (.scan key aliasName)
  | .derived aliasName names rows => P (.derived aliasName names rows)
  | .filter source predicate => EveryNode P source ∧ P (.filter source predicate)
  | .join left right op => EveryNode P left ∧ EveryNode P right ∧ P (.join left right op)

structure Aligned (plan : Plan V) : Prop where
  rows : ∀ rows t, executePlan reading plan = .ok rows →
    resolveTableContext reading plan = .ok (some t) →
    ∀ row ∈ rows, row.length = t.columns.length ∧ RowOf reading plan row
  /-- ON is evaluated on such rows too. -/
  on : ∀ left right op lRows rRows t, plan = .join left right op →
    executePlan reading left = .ok lRows → executePlan reading right = .ok rRows →
    resolveTableContext reading plan = .ok (some t) →
    ∀ l ∈ lRows, ∀ r ∈ rRows, (l ++ r).length = t.columns.length ∧ RowOf reading plan (l ++ r)
  left : ∀ left right cond lRows rRows rows context, plan = .join left right (.left cond) →
    executePlan reading left = .ok lRows → executePlan reading right = .ok rRows →
    resolveTableContext reading plan = .ok context → executePlan reading plan = .ok rows →
    ∃ matched, List.Forall₂ (fun l ms =>
        passing reading.outer cond context (rRows.map (fun r => l ++ r)) = .ok ms) lRows matched ∧
      rows = (List.zipWith (leftRows (contextWidth reading right)) lRows matched).flatten

def PaddingKnown : Plan V → Prop
  | .join left right (.left _) => ∀ lRows, specPlan reading left = .ok lRows →
      specPlan reading right = .ok [] → lRows = [] ∨ contextWidth reading right = 0
  | _ => True

end Specification

section Contexts

variable {V : Type} {reading : Reading V}

variable {plan : Plan V}

theorem EveryNode.mono {P Q : Plan V → Prop} (implies : ∀ plan, EveryNode P plan → Q plan)
    (every : EveryNode P plan) : EveryNode Q plan := by
  induction plan with
  | scan key aliasName => exact implies _ every
  | derived aliasName names rows => exact implies _ every
  | filter source predicate ih => exact ⟨ih every.1, implies _ every⟩
  | join left right op ihLeft ihRight =>
    exact ⟨ihLeft every.1, ihRight every.2.1, implies _ every⟩

theorem context_isSome {context : Option (Table V)}
    (resolved : resolveTableContext reading plan = .ok context) : ∃ t, context = some t := by
  induction plan generalizing context with
  | scan key aliasName =>
    obtain ⟨t, _, isContext⟩ := bind_eq_ok resolved
    cases isContext
    exact ⟨_, rfl⟩
  | derived aliasName names rows =>
    cases resolved
    exact ⟨_, rfl⟩
  | filter source predicate ih => exact ih resolved
  | join left right op ihLeft ihRight =>
    obtain ⟨l, isL, resolved⟩ := bind_eq_ok resolved
    obtain ⟨r, isR, isContext⟩ := bind_eq_ok resolved
    obtain ⟨lTable, rfl⟩ := ihLeft isL
    obtain ⟨rTable, rfl⟩ := ihRight isR
    cases isContext
    exact ⟨_, rfl⟩

theorem contextWidth_eq {t : Table V} (resolved : resolveTableContext reading plan = .ok (some t)) :
    contextWidth reading plan = t.columns.length := by
  unfold contextWidth
  rw [resolved]

theorem contextWidth_merged {left right : Plan V} {op : JoinOp V} {l r : Table V}
    (isL : resolveTableContext reading left = .ok (some l))
    (isR : resolveTableContext reading right = .ok (some r)) :
    contextWidth reading (.join left right op) =
      contextWidth reading left + contextWidth reading right := by
  have merged : resolveTableContext reading (.join left right op) =
      .ok (mergeTableContexts (some l) (some r)) := by
    show resolveTableContext reading left >>= _ = _
    rw [isL]
    show resolveTableContext reading right >>= _ = _
    rw [isR]
    rfl
  rw [contextWidth_eq merged, contextWidth_eq isL, contextWidth_eq isR]
  simp [qualify]

theorem context_of_rows [ExprValue V] {rows : List (Row V)}
    (ran : specPlan reading plan = .ok rows) :
    ∃ t, resolveTableContext reading plan = .ok (some t) := by
  have resolves : ∃ context, resolveTableContext reading plan = .ok context := by
    cases plan with
    | scan key aliasName =>
      obtain ⟨t, isTable, _⟩ := bind_eq_ok ran
      cases resolved : resolveTableContext reading (.scan key aliasName) with
      | ok context => exact ⟨context, rfl⟩
      | error e =>
        unfold resolveTableContext at resolved
        rw [isTable] at resolved
        cases resolved
    | derived aliasName names rows => exact ⟨_, rfl⟩
    | filter source predicate =>
      obtain ⟨context, resolved, _⟩ := bind_eq_ok ran
      exact ⟨context, resolved⟩
    | join left right op =>
      obtain ⟨l, isL, ran⟩ := bind_eq_ok ran
      obtain ⟨r, isR, _⟩ := bind_eq_ok ran
      refine ⟨mergeTableContexts l r, ?_⟩
      show resolveTableContext reading left >>= _ = _
      rw [isL]
      show resolveTableContext reading right >>= _ = _
      rw [isR]
      rfl
  obtain ⟨context, resolved⟩ := resolves
  obtain ⟨t, rfl⟩ := context_isSome resolved
  exact ⟨t, resolved⟩

end Contexts

section SpecRows

variable {V : Type} [ExprValue V] {reading : Reading V}

theorem executeFilter_mem {predicate : Expr V} {context : Option (Table V)}
    {rows kept : List (Row V)} (ran : executeFilter reading predicate context rows = .ok kept) :
    ∀ row ∈ kept, row ∈ rows := by
  unfold executeFilter at ran
  cases isEmpty : rows.isEmpty with
  | true =>
    rw [isEmpty] at ran
    obtain ⟨_, _, ran⟩ := bind_eq_ok ran
    exact filterM_mem ran
  | false =>
    rw [isEmpty] at ran
    exact filterM_mem ran

theorem executePlan_scan {key : Key} {aliasName : Option String} {rows : List (Row V)}
    (ran : executePlan reading (.scan key aliasName) = .ok rows) :
    ∀ row ∈ rows, row.length = contextWidth reading (.scan key aliasName) := by
  obtain ⟨t, isTable, isRows⟩ := bind_eq_ok ran
  have width : contextWidth reading (.scan key aliasName) =
      t.columns.length + if reading.rowidScans then 1 else 0 := by
    unfold contextWidth resolveTableContext
    rw [isTable]
    show (if reading.rowidScans then t.columns ++ [rowidColumn] else t.columns).length = _
    cases reading.rowidScans with
    | true => simp
    | false => rfl
  rw [width]
  cases isRows
  intro row isIn
  cases rowids : reading.rowidScans with
  | true =>
    rw [rowids] at isIn
    obtain ⟨⟨stored, i⟩, isStored, rfl⟩ := List.mem_map.mp isIn
    have aligned := reading.aligned key t isTable stored (List.fst_mem_of_mem_zipIdx isStored)
    simp [aligned]
  | false =>
    rw [rowids] at isIn
    exact reading.aligned key t isTable row isIn

theorem specJoin_mem {op : JoinOp V} {context : Option (Table V)} {width : Nat}
    {lRows rRows rows : List (Row V)}
    (ran : specJoin reading op context width lRows rRows = .ok rows) :
    ∀ row ∈ rows, (∃ l ∈ lRows, ∃ r ∈ rRows, row = l ++ r) ∨
      ∃ cond, op = .left cond ∧ ∃ l ∈ lRows, row = l ++ List.replicate width null := by
  have matchedPair : ∀ {cond : Expr V} {l : Row V} {ms : List (Row V)} {row : Row V},
      passing reading.outer cond context (rRows.map (fun r => l ++ r)) = .ok ms → row ∈ ms →
        ∃ r ∈ rRows, row = l ++ r := by
    intro cond l ms row passed isIn
    obtain ⟨r, isR, rfl⟩ := List.mem_map.mp (filterM_mem passed row isIn)
    exact ⟨r, isR, rfl⟩
  cases op with
  | cross =>
    cases ran
    intro row isIn
    obtain ⟨l, isL, isIn⟩ := List.mem_flatMap.mp isIn
    obtain ⟨r, isR, rfl⟩ := List.mem_map.mp isIn
    exact .inl ⟨l, isL, r, isR, rfl⟩
  | inner cond =>
    obtain ⟨blocks, collected, isRows⟩ := bind_eq_ok ran
    cases isRows
    intro row isIn
    obtain ⟨block, isBlock, isIn⟩ := List.mem_flatten.mp isIn
    obtain ⟨l, isL, passed⟩ := forall₂_mem_right (mapM_eq_ok_iff.mp collected) isBlock
    obtain ⟨r, isR, rfl⟩ := matchedPair passed isIn
    exact .inl ⟨l, isL, r, isR, rfl⟩
  | left cond =>
    obtain ⟨blocks, collected, isRows⟩ := bind_eq_ok ran
    cases isRows
    intro row isIn
    obtain ⟨block, isBlock, isIn⟩ := List.mem_flatten.mp isIn
    obtain ⟨l, isL, result⟩ := forall₂_mem_right (mapM_eq_ok_iff.mp collected) isBlock
    obtain ⟨ms, passed, isResult⟩ := bind_eq_ok result
    cases isResult
    unfold leftRows at isIn
    split at isIn
    · exact .inr ⟨cond, rfl, l, isL, List.mem_singleton.mp isIn⟩
    · obtain ⟨r, isR, rfl⟩ := matchedPair passed isIn
      exact .inl ⟨l, isL, r, isR, rfl⟩

theorem specJoin_left {cond : Expr V} {context : Option (Table V)} {width : Nat}
    {lRows rRows rows : List (Row V)}
    (ran : specJoin reading (.left cond) context width lRows rRows = .ok rows) :
    ∃ matched, List.Forall₂ (fun l ms =>
        passing reading.outer cond context (rRows.map (fun r => l ++ r)) = .ok ms) lRows matched ∧
      rows = (List.zipWith (leftRows width) lRows matched).flatten := by
  obtain ⟨blocks, collected, isRows⟩ := bind_eq_ok ran
  cases isRows
  have each := mapM_eq_ok_iff.mp collected
  clear collected ran
  induction each with
  | nil => exact ⟨[], .nil, rfl⟩
  | cons result _ ih =>
    obtain ⟨ms, passed, isBlock⟩ := bind_eq_ok result
    cases isBlock
    obtain ⟨matched, all, same⟩ := ih
    refine ⟨ms :: matched, .cons passed all, ?_⟩
    rw [List.flatten_cons, same]
    rfl

theorem specPlan_rows {plan : Plan V} {rows : List (Row V)}
    (ran : specPlan reading plan = .ok rows) :
    ∀ row ∈ rows, row.length = contextWidth reading plan ∧ RowOf reading plan row := by
  induction plan generalizing rows with
  | scan key aliasName =>
    intro row isIn
    exact ⟨executePlan_scan ran row isIn, .scan ran isIn⟩
  | derived aliasName names result =>
    cases result with
    | error e => cases ran
    | ok kept =>
      cases ran
      intro row isIn
      refine ⟨?_, .derived isIn⟩
      rw [kept.property row isIn]
      simp [contextWidth, resolveTableContext, derivedTable]
  | filter source predicate ih =>
    obtain ⟨context, _, ran⟩ := bind_eq_ok ran
    obtain ⟨sourceRows, isSource, ran⟩ := bind_eq_ok ran
    intro row isIn
    obtain ⟨width, isRow⟩ := ih isSource row (executeFilter_mem ran row isIn)
    exact ⟨width, .filter isRow⟩
  | join left right op ihLeft ihRight =>
    obtain ⟨lTable, isL, ran⟩ := bind_eq_ok ran
    obtain ⟨rTable, isR, ran⟩ := bind_eq_ok ran
    obtain ⟨lRows, isLeft, ran⟩ := bind_eq_ok ran
    obtain ⟨rRows, isRight, ran⟩ := bind_eq_ok ran
    obtain ⟨l, rfl⟩ := context_isSome isL
    obtain ⟨r, rfl⟩ := context_isSome isR
    rw [contextWidth_merged isL isR]
    intro row isIn
    rcases specJoin_mem ran row isIn with ⟨a, isA, b, isB, rfl⟩ | ⟨cond, rfl, a, isA, rfl⟩
    · obtain ⟨widthA, rowA⟩ := ihLeft isLeft a isA
      obtain ⟨widthB, rowB⟩ := ihRight isRight b isB
      exact ⟨by rw [List.length_append, widthA, widthB], .joined rowA rowB⟩
    · obtain ⟨widthA, rowA⟩ := ihLeft isLeft a isA
      exact ⟨by rw [List.length_append, List.length_replicate, widthA], .padded rowA⟩

end SpecRows

section Exactness

variable {V : Type} [ExprValue V] {reading : Reading V}

theorem executeJoin_eq {op : JoinOp V} {context : Option (Table V)} {width : Nat}
    {lRows rRows : List (Row V)} (widths : ∀ r ∈ rRows, r.length = width)
    (known : ∀ cond, op = .left cond → rRows = [] → lRows = [] ∨ width = 0) :
    executeJoin reading op context lRows rRows =
      specJoin reading op context width lRows rRows := by
  cases op with
  | cross => rfl
  | inner cond => rfl
  | left cond =>
    cases rRows with
    | nil =>
      rcases known cond rfl rfl with isNil | isZero
      · rw [isNil]
        rfl
      · rw [isZero]
        rfl
    | cons r rest =>
      have isWidth : r.length = width := widths r List.mem_cons_self
      rw [← isWidth]
      rfl

variable {plan : Plan V}

theorem executePlan_eq_spec (known : EveryNode (PaddingKnown reading) plan) :
    executePlan reading plan = specPlan reading plan := by
  induction plan with
  | scan key aliasName => rfl
  | derived aliasName names rows => rfl
  | filter source predicate ih =>
    unfold executePlan specPlan
    rw [ih known.1]
  | join left right op ihLeft ihRight =>
    obtain ⟨knownLeft, knownRight, knownHere⟩ := known
    unfold executePlan specPlan
    rw [ihLeft knownLeft, ihRight knownRight]
    cases resolveTableContext reading left with
    | error e => rfl
    | ok lTable =>
      cases resolveTableContext reading right with
      | error e => rfl
      | ok rTable =>
        cases isLeft : specPlan reading left with
        | error e => rfl
        | ok lRows =>
          cases isRight : specPlan reading right with
          | error e => rfl
          | ok rRows =>
            apply executeJoin_eq
            · intro r isIn
              exact (specPlan_rows isRight r isIn).1
            · intro cond isOp noRows
              subst isOp
              subst noRows
              exact knownHere lRows isLeft isRight

theorem aligned_of_known (known : EveryNode (PaddingKnown reading) plan) :
    Aligned reading plan where
  rows := by
    intro rows t ran resolved row isIn
    rw [executePlan_eq_spec known] at ran
    rw [← contextWidth_eq resolved]
    exact specPlan_rows ran row isIn
  on := by
    rintro left right op lRows rRows t rfl ranLeft ranRight resolved l isL r isR
    rw [executePlan_eq_spec known.1] at ranLeft
    rw [executePlan_eq_spec known.2.1] at ranRight
    obtain ⟨lTable, isLTable⟩ := context_of_rows ranLeft
    obtain ⟨rTable, isRTable⟩ := context_of_rows ranRight
    obtain ⟨widthL, rowL⟩ := specPlan_rows ranLeft l isL
    obtain ⟨widthR, rowR⟩ := specPlan_rows ranRight r isR
    rw [← contextWidth_eq resolved, contextWidth_merged isLTable isRTable, List.length_append,
      widthL, widthR]
    exact ⟨rfl, .joined rowL rowR⟩
  left := by
    rintro left right cond lRows rRows rows context rfl ranLeft ranRight resolved ran
    rw [executePlan_eq_spec known] at ran
    rw [executePlan_eq_spec known.1] at ranLeft
    rw [executePlan_eq_spec known.2.1] at ranRight
    obtain ⟨lTable, isL, ran⟩ := bind_eq_ok ran
    obtain ⟨rTable, isR, ran⟩ := bind_eq_ok ran
    obtain ⟨lRows', isLeft, ran⟩ := bind_eq_ok ran
    obtain ⟨rRows', isRight, ran⟩ := bind_eq_ok ran
    rw [ranLeft] at isLeft
    rw [ranRight] at isRight
    cases isLeft
    cases isRight
    have isContext : mergeTableContexts lTable rTable = context := by
      unfold resolveTableContext at resolved
      rw [isL, isR] at resolved
      exact Except.ok.inj resolved
    rw [isContext] at ran
    exact specJoin_left ran

theorem executeJoin_left_nil (cond : Expr V) (context : Option (Table V)) (lRows : List (Row V)) :
    executeJoin reading (.left cond) context lRows [] = .ok lRows := by
  have collected : lRows.mapM (fun l => do
      let matched ← passing reading.outer cond context (([] : List (Row V)).map (fun r => l ++ r))
      pure (if matched.isEmpty then
        [l ++ List.replicate (([] : List (Row V)).headD []).length null] else matched)) =
      (.ok (lRows.map (fun l => [l])) : MyResult (List (List (Row V)))) := by
    apply mapM_eq_ok_iff.mpr
    apply List.forall₂_map_right_iff.mpr
    apply List.forall₂_same.mpr
    intro l _
    show Except.ok [l ++ []] = _
    rw [List.append_nil]
  show lRows.mapM _ >>= _ = _
  rw [collected]
  show Except.ok (lRows.map (fun l => [l])).flatten = _
  rw [← List.flatMap_def, List.flatMap_singleton']

theorem known_of_aligned (aligned : EveryNode (Aligned reading) plan) :
    EveryNode (PaddingKnown reading) plan := by
  induction plan with
  | scan key aliasName => trivial
  | derived aliasName names rows => trivial
  | filter source predicate ih => exact ⟨ih aligned.1, trivial⟩
  | join left right op ihLeft ihRight =>
    obtain ⟨alignedLeft, alignedRight, alignedHere⟩ := aligned
    refine ⟨ihLeft alignedLeft, ihRight alignedRight, ?_⟩
    cases op with
    | cross => trivial
    | inner cond => trivial
    | left cond =>
      intro lRows isLeft isRight
      by_contra padded
      obtain ⟨some', hasColumns⟩ := not_or.mp padded
      obtain ⟨l, isL⟩ := context_of_rows isLeft
      obtain ⟨r, isR⟩ := context_of_rows isRight
      obtain ⟨first, isFirst⟩ := List.exists_mem_of_ne_nil lRows some'
      have ranLeft := (executePlan_eq_spec (ihLeft alignedLeft)).trans isLeft
      have ranRight := (executePlan_eq_spec (ihRight alignedRight)).trans isRight
      have resolved : resolveTableContext reading (.join left right (.left cond)) =
          .ok (mergeTableContexts (some l) (some r)) := by
        unfold resolveTableContext
        rw [isL, isR]
        rfl
      have ran : executePlan reading (.join left right (.left cond)) = .ok lRows := by
        unfold executePlan
        rw [isL, isR, ranLeft, ranRight]
        exact executeJoin_left_nil cond _ lRows
      have tooWide := (alignedHere.rows lRows _ ran resolved first isFirst).1
      have width := (specPlan_rows isLeft first isFirst).1
      rw [← contextWidth_eq resolved, contextWidth_merged isL isR] at tooWide
      omega

end Exactness

def oneColumn (rows : List Types.Value) : Table Types.Value where
  name := "t"
  columns := [{ name := "c" }]
  rows := rows.map (fun v => [v])

/-- The table `b` is empty, every other table has one row. -/
def emptyB : Reading Types.Value where
  table key := .ok (oneColumn (if key.2 = "b" then [] else [.int 7]))
  aligned := by
    intro key t isTable row isIn
    cases isTable
    obtain ⟨v, _, rfl⟩ := List.mem_map.mp isIn
    rfl

end NoidaDb.MySql.Plans
