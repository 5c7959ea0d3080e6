/-
Runs of data statements, and the foreign-key actions a statement can fire.

An invariant of the rows is kept by the checks a statement makes and may be lost by a foreign-key
action, which checks nothing; `Spares` bounds what the actions of one statement do.
-/

import NoidaDb.Postgres.Statements

namespace NoidaDb.Postgres

open PgValue
open NoidaDb.Lib

variable {V : Type}

theorem DbState.WellFormed.congr {db other : DbState V} (same : other.tables = db.tables)
    (formed : db.WellFormed) : other.WellFormed := by
  refine ⟨by rw [same]; exact formed.oidsNodup, by rw [same]; exact formed.primaryKeyNotNull, ?_⟩
  intro t member cons present refTable refCols onDelete onUpdate kind
  rw [same] at member
  rw [table_congr same]
  exact formed.referencedExists t member cons present refTable refCols onDelete onUpdate kind

theorem anyRelation_preorder : RowRelation.Preorder (V := V) (fun _ _ _ => True) :=
  ⟨fun _ _ => trivial, fun _ _ _ _ _ _ => trivial⟩

/-- `R`, with the rows of the tables in `idle` kept as they are. -/
def RowRelation.holding (R : RowRelation V) (idle : Nat → Prop) : RowRelation V :=
  fun table new old => R table new old ∧ (idle table → new = old)

variable {R : RowRelation V}

theorem RowRelation.holding_preorder (order : R.Preorder) (idle : Nat → Prop) :
    (R.holding idle).Preorder := by
  refine ⟨fun table row => ⟨order.refl table row, fun _ => rfl⟩, ?_⟩
  rintro table first second third ⟨left, leftSame⟩ ⟨right, rightSame⟩
  exact ⟨order.trans table first second third left right,
    fun isIdle => (leftSame isIdle).trans (rightSame isIdle)⟩

theorem InPlace.of_holding {idle : Nat → Prop} {ctx final : Ctx V}
    (inPlace : InPlace (R.holding idle) ctx final) : InPlace R ctx final :=
  fun table => (inPlace table).imp (fun _ _ related => related.1)

theorem Shrunk.of_holding {idle : Nat → Prop} {ctx final : Ctx V}
    (shrunk : Shrunk (R.holding idle) ctx final) : Shrunk R ctx final := by
  intro table
  obtain ⟨kept, related, sublist⟩ := List.sublistForall₂_iff.mp (shrunk table)
  exact List.sublistForall₂_iff.mpr ⟨kept, related.imp (fun _ _ both => both.1), sublist⟩

variable [PgValue V]

/-- The states that statements admitted by `allowed` reach from empty tables.
Between statements the constraint modes and the evaluation count are arbitrary. -/
inductive Reachable (allowed : Ctx V → Dml V → Prop) : Ctx V → Prop where
  | start {ctx : Ctx V} (formed : ctx.db.WellFormed) (empty : ∀ oid, ctx.db.rows oid = []) :
      Reachable allowed ctx
  | session {ctx final : Ctx V} (before : Reachable allowed ctx) (same : final.db = ctx.db) :
      Reachable allowed final
  | statement {ctx final : Ctx V} {stmt : Dml V} {depth : Nat} {out : List (Row V)}
      (before : Reachable allowed ctx) (admitted : allowed ctx stmt)
      (ran : runDml depth stmt ctx = .ok (out, final)) : Reachable allowed final

theorem runDml_framed (depth : Nat) (stmt : Dml V) (ctx : Ctx V) :
    Ensures (runDml depth stmt) ctx (fun _ final => Framed ctx final) := by
  cases stmt with
  | insert plan =>
    refine (runInsert_keeps plan (fun _ current => Framed ctx current) ctx (Framed.refl ctx)
      ?_).weaken (fun _ _ ⟨_, framed⟩ => framed)
    intro _ current _ final framed step
    exact framed.trans step.framed
  | update plan =>
    refine runUpdate_spec plan ctx (fun final => Framed ctx final) ?_
    intro updates started planned same
    refine (checkLoop_inPlace anyRelation_preorder plan.table _ updates started
      (fun _ => True) ?_ (fun _ _ _ _ _ _ => trivial)).weaken ?_
    · intro update member entry refers refTable refCols onDelete onUpdate kind moved row
        descends refersNow row' rewritten
      trivial
    · rintro _ middle ⟨⟨framed, _⟩, _⟩ final framedLast _
      exact same.framed.trans (framed.trans framedLast)
  | delete plan =>
    refine (runDelete_shrunk anyRelation_preorder depth plan ctx ?_).weaken
      (fun _ _ kept => kept.1)
    intro reached reach entry refers refTable refCols onDelete onUpdate kind gone row descends
      refersNow row' rewritten
    trivial

theorem Reachable.keeps {allowed : Ctx V → Dml V → Prop} (invariant : DbState V → Prop)
    (initially : ∀ db : DbState V, (∀ oid, db.rows oid = []) → invariant db)
    (step : ∀ ctx stmt depth, ctx.db.WellFormed → invariant ctx.db → allowed ctx stmt →
      Ensures (runDml depth stmt) ctx (fun _ final => invariant final.db))
    {ctx : Ctx V} (reached : Reachable allowed ctx) : ctx.db.WellFormed ∧ invariant ctx.db := by
  induction reached with
  | start formed empty => exact ⟨formed, initially _ empty⟩
  | session _ same ih =>
    rw [same]
    exact ih
  | @statement ctx final stmt depth out _ admitted ran ih =>
    have framed := runDml_framed depth stmt ctx out final ran
    exact ⟨ih.1.congr framed.tables, step ctx stmt depth ih.1 ih.2 admitted out final ran⟩

/-- `Reachable`, where the functions a statement calls may write the tables while it
runs. -/
inductive ReachableCalling (allowed : Functions V → Ctx V → Dml V → Prop) : Ctx V → Prop where
  | start {ctx : Ctx V} (formed : ctx.db.WellFormed) (empty : ∀ oid, ctx.db.rows oid = []) :
      ReachableCalling allowed ctx
  | session {ctx final : Ctx V} (before : ReachableCalling allowed ctx)
      (same : final.db = ctx.db) : ReachableCalling allowed final
  | statement {functions : Functions V} {ctx final : Ctx V} {stmt : Dml V} {depth : Nat}
      {out : List (Row V)} (before : ReachableCalling allowed ctx)
      (admitted : allowed functions ctx stmt) (ran : runDml depth stmt ctx = .ok (out, final)) :
      ReachableCalling allowed final

theorem reachableCalling_quiet {allowed : Ctx V → Dml V → Prop} {ctx : Ctx V} :
    ReachableCalling (fun functions ctx stmt => functions.Quiet ∧ allowed ctx stmt) ctx ↔
      Reachable allowed ctx := by
  constructor
  · intro reached
    induction reached with
    | start formed empty => exact .start formed empty
    | session _ same ih => exact .session ih same
    | statement _ admitted ran ih =>
      obtain ⟨quiet, allows⟩ := admitted
      obtain rfl := quiet.eq_reading
      exact .statement ih allows ran
  · intro reached
    induction reached with
    | start formed empty => exact .start formed empty
    | session _ same ih => exact .session ih same
    | statement _ allows ran ih => exact .statement ih ⟨Functions.reading_quiet, allows⟩ ran

def runAll (depth : Nat) : List (Dml V) → Exec V Unit
  | [] => pure ()
  | stmt :: rest => do
      let _ ← runDml depth stmt
      runAll depth rest

/-- The context `stmts` lead to, when they all succeed. -/
def Ctx.after (ctx : Ctx V) (depth : Nat) (stmts : List (Dml V)) : Ctx V :=
  ((runAll depth stmts ctx).toOption.map Prod.snd).getD ctx

theorem reachable_after {allowed : Ctx V → Dml V → Prop} {ctx : Ctx V} (depth : Nat)
    (stmts : List (Dml V)) (before : Reachable allowed ctx)
    (admitted : ∀ stmt, stmt ∈ stmts → ∀ current, allowed current stmt) :
    Reachable allowed (ctx.after depth stmts) := by
  have all : Ensures (runAll depth stmts) ctx (fun _ last => Reachable allowed last) := by
    induction stmts generalizing ctx with
    | nil => exact Ensures.pure before
    | cons stmt rest ih =>
      refine Ensures.bind ?_
      intro out middle ran
      exact ih (Reachable.statement before (admitted stmt List.mem_cons_self ctx) ran)
        (fun other member => admitted other (List.mem_cons_of_mem stmt member))
  unfold Ctx.after
  cases ran : runAll depth stmts ctx with
  | error failure => exact before
  | ok pair => exact all pair.1 pair.2 ran

/-- `INSERT INTO table VALUES …`, a value for each of the first `width` columns. -/
def insertValues (table width : Nat) (rows : List (Row V)) : Dml V :=
  .insert { table := table, cols := List.range width, source := fun _ _ => .ok rows }

/-- `UPDATE table SET col = value`, on every row. -/
def updateAll (table col : Nat) (value : Row V → V) : Dml V :=
  .update { table := table, sets := [(col, .value (fun row _ _ => .ok (value row)))] }

/-- `DELETE FROM table WHERE condition`. -/
def deleteWhere (table : Nat) (condition : Row V → V) : Dml V :=
  .delete { table := table, filter := some (fun row _ _ => .ok (condition row)) }

def Ctx.ofTables (tables : List (Table V)) : Ctx V :=
  { db := { schemas := [(2200, "public")], tables := tables, rows := fun _ => [] } }

def keyedPkey : Constraint Scalar :=
  { name := "t_pkey", kind := .primaryKey, cols := [0], indexOid := some 2 }

/-- `t (k int PRIMARY KEY)`. -/
def keyed : Table Scalar :=
  { oid := 1
    name := "t"
    columns := [{ name := "k", notNull := true }]
    constraints := [keyedPkey]
    indexes := [{ oid := 2, name := "t_pkey", cols := [some 0] }] }

def FkAction.rewrites (new : Option (Row V)) : FkAction → Bool
  | .cascade => new.isSome
  | .setNull | .setDefault => true
  | .noAction | .restrict => false

/-- The statement can apply `action` of the foreign key `entry` to rows that refer
to `parent`; for an UPDATE, `new` is the image that replaces the parent. -/
inductive Fires (ctx : Ctx V) :
    Dml V → Nat × Constraint V → List Nat → Option (Row V) → FkAction → Row V → Prop where
  | update {plan : UpdatePlan V} {updates : List (Nat × Row V)} {update : Nat × Row V}
      {entry : Nat × Constraint V} {refTable : Nat} {refCols : List Nat}
      {onDelete onUpdate : FkAction}
      (planned : Planned plan ctx updates) (member : update ∈ updates)
      (refers : entry ∈ referencing ctx.db plan.table)
      (kind : entry.2.kind = .foreignKey refTable refCols onDelete onUpdate)
      (moved : keyUnchanged refCols ((ctx.db.rows plan.table).getD update.1 []) update.2 = false) :
      Fires ctx (.update plan) entry refCols (some update.2) onUpdate
        ((ctx.db.rows plan.table).getD update.1 [])
  | delete {plan : DeletePlan V} {reached : Nat} {entry : Nat × Constraint V} {refTable : Nat}
      {refCols : List Nat} {onDelete onUpdate : FkAction}
      (reach : CascadeReach ctx.db plan.table reached)
      (refers : entry ∈ referencing ctx.db reached)
      (kind : entry.2.kind = .foreignKey refTable refCols onDelete onUpdate) (gone : Row V) :
      Fires ctx (.delete plan) entry refCols none onDelete gone

/-- No row of `table` refers to a row whose key an action of the statement follows. -/
def Idle (ctx : Ctx V) (stmt : Dml V) (table : Nat) : Prop :=
  ∀ entry refCols new action parent, Fires ctx stmt entry refCols new action parent →
    entry.1 = table → action.rewrites new = true →
      ∀ row, row ∈ ctx.db.rows table → refersTo entry.2.cols refCols parent row = false

/-- In each table, the actions that write rows are all `harmless`, or find no row. -/
def Spares (harmless : Nat × Constraint V → List Nat → Option (Row V) → FkAction → Prop)
    (ctx : Ctx V) (stmt : Dml V) : Prop :=
  ∀ table, Idle ctx stmt table ∨
    ∀ entry refCols new action parent, Fires ctx stmt entry refCols new action parent →
      entry.1 = table → action.rewrites new = true → harmless entry refCols new action

theorem Spares.insert (harmless : Nat × Constraint V → List Nat → Option (Row V) → FkAction → Prop)
    (ctx : Ctx V) (plan : InsertPlan V) : Spares harmless ctx (.insert plan) := by
  intro table
  refine Or.inl ?_
  intro entry refCols new action parent fires
  cases fires

theorem Rewrites.rewrites {db : DbState V} {entry : Nat × Constraint V} {refCols : List Nat}
    {new : Option (Row V)} {action : FkAction} {row' row : Row V}
    (rewritten : Rewrites db entry refCols new action row' row) :
    action.rewrites new = true := by
  cases rewritten with
  | follow given => rw [given]; rfl
  | clear _ => rfl
  | reset _ => rfl

section Spared

variable {R : RowRelation V}
  {harmless : Nat × Constraint V → List Nat → Option (Row V) → FkAction → Prop} {ctx : Ctx V}

/-- A spared row keeps its place: the action either writes what `R` allows or finds
no such row. -/
theorem Spares.fits {stmt : Dml V} (spared : Spares harmless ctx stmt)
    (allows : ∀ entry refCols new action, harmless entry refCols new action →
      ∀ row' row, Rewrites ctx.db entry refCols new action row' row → R entry.1 row' row)
    {entry : Nat × Constraint V} {refCols : List Nat} {new : Option (Row V)}
    {action : FkAction} {parent row row' : Row V}
    (fires : Fires ctx stmt entry refCols new action parent)
    (descends : Descends (R.holding (Idle ctx stmt)) ctx.db entry.1 row)
    (refers : refersTo entry.2.cols refCols parent row = true)
    (rewritten : Rewrites ctx.db entry refCols new action row' row) :
    R.holding (Idle ctx stmt) entry.1 row' row := by
  have notIdle : ¬ Idle ctx stmt entry.1 := by
    intro idle
    obtain ⟨origin, stored, _, unmoved⟩ := descends
    have missed := idle entry refCols new action parent fires rfl rewritten.rewrites origin stored
    rw [← unmoved idle, refers] at missed
    cases missed
  have harmlessHere := (spared entry.1).resolve_left notIdle entry refCols new action parent
    fires rfl rewritten.rewrites
  exact ⟨allows entry refCols new action harmlessHere row' row rewritten,
    fun idle => (notIdle idle).elim⟩

theorem Spares.checkLoop {plan : UpdatePlan V} (spared : Spares harmless ctx (.update plan))
    (order : R.Preorder)
    (allows : ∀ entry refCols new action, harmless entry refCols new action →
      ∀ row' row, Rewrites ctx.db entry refCols new action row' row → R entry.1 row' row)
    {updates : List (Nat × Row V)} {started : Ctx V} (planned : Planned plan ctx updates)
    (same : SameData ctx started) (fact : Nat × Row V → Prop)
    (learned : ∀ update, update ∈ updates → ∀ current, Framed ctx current →
      InPlace R ctx current → checkRow current plan.table update.2 (some update.1) = .ok () →
        fact update) :
    Ensures (updates.forM (checkAndCascade plan.table (ctx.db.rows plan.table))) started
      (fun _ middle => (Framed ctx middle ∧ InPlace R ctx middle) ∧
        ∀ update, update ∈ updates → fact update) := by
  have asStarted : ∀ current, InPlace (R.holding (Idle ctx (.update plan))) started current →
      InPlace R ctx current := by
    intro current inPlace table
    have related := inPlace.of_holding table
    rw [same.db] at related
    exact related
  refine (checkLoop_inPlace (RowRelation.holding_preorder order (Idle ctx (.update plan)))
    plan.table _ updates started fact ?_ ?_).weaken ?_
  · intro update member entry refers
    rw [same.db] at refers ⊢
    intro refTable refCols onDelete onUpdate kind moved row descends refersNow row' rewritten
    exact spared.fits allows (Fires.update planned member refers kind moved) descends refersNow
      rewritten
  · intro update member current framed inPlace checked
    exact learned update member current (same.framed.trans framed) (asStarted current inPlace)
      checked
  · rintro _ middle ⟨⟨framed, inPlace⟩, facts⟩
    exact ⟨⟨same.framed.trans framed, asStarted middle inPlace⟩, facts⟩

theorem Spares.runDelete {plan : DeletePlan V} (spared : Spares harmless ctx (.delete plan))
    (order : R.Preorder)
    (allows : ∀ entry refCols new action, harmless entry refCols new action →
      ∀ row' row, Rewrites ctx.db entry refCols new action row' row → R entry.1 row' row)
    (depth : Nat) :
    Ensures (NoidaDb.Postgres.runDelete depth plan) ctx
      (fun _ final => Framed ctx final ∧ Shrunk R ctx final) := by
  refine (runDelete_shrunk (RowRelation.holding_preorder order (Idle ctx (.delete plan))) depth
    plan ctx ?_).weaken ?_
  · intro reached reach entry refers refTable refCols onDelete onUpdate kind gone row descends
      refersNow row' rewritten
    exact spared.fits allows (Fires.delete reach refers kind gone) descends refersNow rewritten
  · rintro _ final ⟨framed, shrunk⟩
    exact ⟨framed, shrunk.of_holding⟩

end Spared

end NoidaDb.Postgres
