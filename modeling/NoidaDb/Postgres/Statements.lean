/-
What one data statement does to the tables, and runs of statements.
-/

import NoidaDb.Postgres.ForeignKeyActions

namespace NoidaDb.Postgres

open PgValue
open NoidaDb.Lib

variable {V : Type}

theorem DbState.setRows_self (db : DbState V) (oid : Nat) : db.setRows oid (db.rows oid) = db := by
  unfold DbState.setRows
  rw [Function.update_eq_self]

theorem DbState.setRows_setRows (db : DbState V) (oid : Nat) (first second : List (Row V)) :
    (db.setRows oid first).setRows oid second = db.setRows oid second := by
  unfold DbState.setRows
  rw [Function.update_idem]

theorem pushRow_spec (table : Nat) (row : Row V) (ctx : Ctx V) :
    Ensures (pushRow table row) ctx (fun _ final => Framed ctx final ∧
      final.db = ctx.db.setRows table (ctx.db.rows table ++ [row])) :=
  Ensures.update ⟨⟨rfl, rfl, rfl, rfl⟩, rfl⟩

theorem sublistForall₂_removePositions {replaces : Row V → Row V → Prop}
    (refl : ∀ row, replaces row row) (rows : List (Row V)) (doomed : List Nat) :
    List.SublistForall₂ replaces (removePositions rows doomed) rows := by
  have kept : List.Sublist (removePositions rows doomed) rows := by
    have sublist := (List.filter_sublist
      (p := fun entry => !doomed.contains entry.2) (l := rows.zipIdx)).map Prod.fst
    rwa [List.zipIdx_map_fst] at sublist
  exact List.sublistForall₂_iff.mpr
    ⟨removePositions rows doomed, List.forall₂_same.mpr (fun row _ => refl row), kept⟩

variable [PgValue V]

theorem checkRow_congr {ctx other : Ctx V} (same : SameData ctx other) (table : Nat)
    (row : Row V) (skip : Option Nat) :
    checkRow other table row skip = checkRow ctx table row skip := by
  have modes : ∀ cons : Constraint V, isDeferred cons other = isDeferred cons ctx :=
    isDeferred_congr same.framed
  have lookup : ∀ oid, tableOf other oid = tableOf ctx oid := by
    intro oid
    unfold tableOf
    rw [same.db]
  have constraints : ∀ schema t,
      checkConstraint other schema t row skip = checkConstraint ctx schema t row skip := by
    intro schema t
    funext cons
    unfold checkConstraint
    rw [modes, same.db]
    simp only [lookup]
  unfold checkRow
  rw [lookup, same.db]
  simp only [constraints]

theorem check_spec (table : Nat) (row : Row V) (skip : Option Nat) (ctx : Ctx V) :
    Ensures (check table row skip) ctx (fun _ final =>
      final = ctx ∧ checkRow ctx table row skip = .ok ()) := by
  refine Ensures.bind (Ensures.get ?_)
  exact Ensures.lift (fun _ passed => ⟨rfl, passed⟩)

structure RowChecked (ctx : Ctx V) (table : Nat) (t : Table V) (row : Row V)
    (skip : Option Nat) : Prop where
  notNull : ∀ entry, entry ∈ t.liveColumns → entry.2.notNull = true →
    isNull (Row.col row entry.1) = false
  indexes : ∀ idx, idx ∈ t.indexes → idx.unique = true → t.backsConstraint idx = false →
    uniqueIndexConflict (ctx.db.rows table) idx row skip = .ok none
  constraints : ∀ cons, cons ∈ t.constraints →
    checkConstraint ctx (ctx.db.schemaName t.schema) t row skip cons = .ok ()

variable {row : Row V}

theorem checkNotNull_ok {schema : String} {t : Table V} {entry : Nat × Column V}
    (passed : checkNotNull schema t row entry = .ok ()) (required : entry.2.notNull = true) :
    isNull (Row.col row entry.1) = false := by
  unfold checkNotNull at passed
  rw [required, Bool.true_and] at passed
  cases value : isNull (Row.col row entry.1) with
  | false => rfl
  | true =>
    rw [value, if_pos rfl] at passed
    cases passed

theorem checkUniqueIndex_ok {schema : String} {rows : List (Row V)} {t : Table V}
    {skip : Option Nat} {idx : Index V}
    (passed : checkUniqueIndex schema rows t row skip idx = .ok ()) :
    uniqueIndexConflict rows idx row skip = .ok none := by
  unfold checkUniqueIndex at passed
  cases searched : uniqueIndexConflict rows idx row skip with
  | error failure => rw [searched] at passed; cases passed
  | ok conflict =>
    cases conflict with
    | none => rfl
    | some key => rw [searched] at passed; cases passed

theorem checkRow_ok {ctx : Ctx V} {table : Nat} {skip : Option Nat}
    (passed : checkRow ctx table row skip = .ok ()) :
    ∃ t, ctx.db.table table = some t ∧ RowChecked ctx table t row skip := by
  unfold checkRow at passed
  obtain ⟨t, found, passed⟩ := Lib.bind_eq_ok passed
  obtain ⟨_, columns, passed⟩ := Lib.bind_eq_ok passed
  obtain ⟨_, indexes, constraints⟩ := Lib.bind_eq_ok passed
  refine ⟨t, tableOf_eq_ok found, ?_, ?_, forM_ok constraints⟩
  · intro entry member required
    exact checkNotNull_ok (forM_ok columns entry member) required
  · intro idx member unique separate
    refine checkUniqueIndex_ok (forM_ok indexes idx ?_)
    simp [List.mem_filter, member, unique, separate]

/-- What handling one proposed row can do, given the positions the statement has
inserted or updated before. -/
inductive InsertStep (plan : InsertPlan V) (touched : List Nat) (ctx : Ctx V)
    (touched' : List Nat) (final : Ctx V) : Prop where
  | skip (same : SameData ctx final) (untouched : touched' = touched)
  | push (row : Row V)
      (sized : ∀ t, ctx.db.table plan.table = some t → row.length = t.columns.length)
      (checked : checkRow ctx plan.table row none = .ok ())
      (framed : Framed ctx final)
      (written : final.db =
        ctx.db.setRows plan.table (ctx.db.rows plan.table ++ [row]))
      (noted : touched' = (ctx.db.rows plan.table).length :: touched)
  | replace (pos : Nat) (row : Row V) (target : Option (List Nat))
      (sets : List (Nat × Assign V)) (filter : Option (Expr V)) (proposed : Row V)
      (before after : Ctx V)
      (upsert : plan.onConflict = some ⟨target, .update sets filter⟩)
      (same : SameData ctx before)
      (image : conflictImage plan.table sets ((ctx.db.rows plan.table).getD pos [])
        ((ctx.db.rows plan.table).getD pos [] ++ proposed) before = .ok (row, after))
      (fresh : pos ∉ touched)
      (checked : checkRow ctx plan.table row (some pos) = .ok ())
      (framed : Framed ctx final)
      (written : final.db =
        ctx.db.setRows plan.table ((ctx.db.rows plan.table).set pos row))
      (noted : touched' = pos :: touched)

section InsertSteps

variable {plan : InsertPlan V} {touched touched' : List Nat} {ctx middle final last : Ctx V}

theorem InsertStep.framed (step : InsertStep plan touched ctx touched' final) :
    Framed ctx final := by
  cases step with
  | skip same => exact same.framed
  | push row sized checked framed => exact framed
  | replace pos row target sets filter proposed before after upsert same image fresh checked
      framed => exact framed

theorem InsertStep.of_same (before : SameData ctx middle)
    (step : InsertStep plan touched middle touched' final) (after : SameData final last) :
    InsertStep plan touched ctx touched' last := by
  cases step with
  | skip same untouched => exact .skip ((before.trans same).trans after) untouched
  | push row sized checked framed written noted =>
    rw [before.db] at sized noted
    refine .push row sized ?_ (before.framed.trans (framed.trans after.framed)) ?_ noted
    · rw [← checkRow_congr before]
      exact checked
    · rw [after.db, written, before.db]
  | replace pos row target sets filter proposed start stop upsert same image fresh checked
      framed written noted =>
      refine .replace pos row target sets filter proposed start stop upsert
        (before.trans same) ?_ fresh ?_ (before.framed.trans (framed.trans after.framed)) ?_ noted
      · rw [← before.db]
        exact image
      · rw [← checkRow_congr before]
        exact checked
      · rw [after.db, written, before.db]

end InsertSteps

theorem insertNew_step (plan : InsertPlan V) (snap : Option (Rows V)) (state : InsertState V)
    (row : Row V) (ctx : Ctx V)
    (sized : ∀ t, ctx.db.table plan.table = some t → row.length = t.columns.length) :
    Ensures (insertNew plan snap state row) ctx (fun next final =>
      InsertStep plan state.touched ctx next.touched final) := by
  unfold insertNew
  refine Ensures.bind ((check_spec plan.table row none ctx).weaken ?_)
  rintro _ middle ⟨rfl, checked⟩
  refine Ensures.bind (Ensures.get ?_)
  refine Ensures.bind ((pushRow_spec plan.table row middle).weaken ?_)
  rintro _ wrote ⟨framed, written⟩
  refine Ensures.bind ((output_readOnly _ _ _ _ _ _ _ _).weaken ?_)
  intro out last same
  exact Ensures.pure (.of_same (SameData.refl _) (.push row sized checked framed written rfl) same)

theorem updateConflicting_step (plan : InsertPlan V) (snap : Option (Rows V))
    (state : InsertState V) (row : Row V) (target : Option (List Nat))
    (sets : List (Nat × Assign V)) (filter : Option (Expr V)) (pos : Nat) (ctx : Ctx V)
    (upsert : plan.onConflict = some ⟨target, .update sets filter⟩) :
    Ensures (updateConflicting plan snap state row sets filter pos) ctx
      (fun next final => InsertStep plan state.touched ctx next.touched final) := by
  unfold updateConflicting
  refine Ensures.ite (fun _ => Ensures.throw) (fun fresh => ?_)
  refine Ensures.bind (Ensures.get ?_)
  refine Ensures.bind ((passes_readOnly filter _ ctx).weaken ?_)
  intro wanted before sameBefore
  refine Ensures.ite (fun _ => ?_) (fun _ => Ensures.pure (.skip sameBefore rfl))
  refine Ensures.bind ?_
  intro image after ran
  have sameAfter := conflictImage_readOnly plan.table sets _ _ before image after ran
  refine Ensures.bind ((check_spec plan.table image (some pos) after).weaken ?_)
  rintro _ checkedAt ⟨rfl, checked⟩
  refine Ensures.bind ((setRow_spec plan.table pos image checkedAt).weaken ?_)
  rintro _ wrote ⟨framed, written⟩
  refine Ensures.bind ((output_readOnly _ _ _ _ _ _ _ _).weaken ?_)
  intro out last sameLast
  have same := sameBefore.trans sameAfter
  refine Ensures.pure (.of_same (SameData.refl _) ?_ sameLast)
  refine .replace pos image target sets filter row before checkedAt upsert sameBefore ran fresh ?_
    (same.framed.trans framed) ?_ rfl
  · rw [← checkRow_congr same]
    exact checked
  · rw [written, same.db]

theorem insertOne_step (plan : InsertPlan V) (snap : Option (Rows V)) (state : InsertState V)
    (src : Row V) (ctx : Ctx V) :
    Ensures (insertOne plan snap state src) ctx (fun next final =>
      InsertStep plan state.touched ctx next.touched final) := by
  unfold insertOne
  refine Ensures.bind (((proposedRow_readOnly plan src ctx).and
    (proposedRow_length plan src ctx)).weaken ?_)
  rintro row middle ⟨before, sized⟩
  rw [← before.db] at sized
  have onward : ∀ (next : InsertState V) (final : Ctx V),
      InsertStep plan state.touched middle next.touched final →
        InsertStep plan state.touched ctx next.touched final :=
    fun _ final step => .of_same before step (SameData.refl final)
  split
  · exact (insertNew_step plan snap state row middle sized).weaken onward
  · rename_i oc upsert
    refine Ensures.bind (Ensures.get ?_)
    refine Ensures.bind (Ensures.lift (fun t _ => ?_))
    split
    · exact (insertNew_step plan snap state row middle sized).weaken onward
    · rename_i pos _
      obtain ⟨target, action⟩ := oc
      cases action with
      | nothing => exact Ensures.pure (.skip before rfl)
      | update sets filter =>
        exact (updateConflicting_step plan snap state row target sets filter pos middle
          upsert).weaken onward

/-- What every `InsertStep` keeps, an INSERT keeps; the invariant may mention the
positions the statement has touched. -/
theorem runInsert_keeps (plan : InsertPlan V) (invariant : List Nat → Ctx V → Prop) (ctx : Ctx V)
    (initially : invariant [] ctx)
    (step : ∀ touched current touched' final, invariant touched current →
      InsertStep plan touched current touched' final → invariant touched' final) :
    Ensures (runInsert plan) ctx (fun _ final => ∃ touched, invariant touched final) := by
  unfold runInsert
  refine Ensures.bind (Ensures.get ?_)
  refine Ensures.bind ((runQuery_readOnly plan.source ctx).weaken ?_)
  intro rows started same
  refine Ensures.bind ((Ensures.foldlM
    (fun (state : InsertState V) current => invariant state.touched current)
    (step [] ctx [] started initially (.skip same rfl)) ?_).weaken ?_)
  · intro src _ state current kept
    exact (insertOne_step plan _ state src current).weaken
      (fun next final stepped => step state.touched current next.touched final kept stepped)
  · intro state middle kept
    refine Ensures.bind (Ensures.update ?_)
    exact Ensures.pure ⟨state.touched,
      step state.touched middle state.touched _ kept (.skip ⟨rfl, rfl, rfl⟩ rfl)⟩

theorem writeBack_spec (plan : UpdatePlan V) (snap : Option (Rows V))
    (updates : List (Nat × Row V)) (out : List (Row V)) (ctx : Ctx V) :
    Ensures (updates.foldlM (writeBack plan snap) out) ctx (fun _ final =>
      Framed ctx final ∧
        final.db = ctx.db.setRows plan.table (setAll (ctx.db.rows plan.table) updates)) := by
  induction updates generalizing out ctx with
  | nil =>
    refine Ensures.pure ⟨Framed.refl ctx, ?_⟩
    rw [setAll_nil, DbState.setRows_self]
  | cons update rest ih =>
    rw [List.foldlM_cons]
    refine Ensures.bind ?_
    refine Ensures.bind ((setRow_spec plan.table update.1 update.2 ctx).weaken ?_)
    rintro _ wrote ⟨framed, written⟩
    refine (output_readOnly _ _ _ _ _ _ _ wrote).weaken ?_
    intro next middle same
    refine (ih next middle).weaken ?_
    rintro _ final ⟨framedAgain, writtenAgain⟩
    refine ⟨framed.trans (same.framed.trans framedAgain), ?_⟩
    rw [writtenAgain, same.db, written, DbState.setRows_rows_self, DbState.setRows_setRows,
      setAll_cons]

structure Planned (plan : UpdatePlan V) (ctx : Ctx V) (updates : List (Nat × Row V)) : Prop where
  plannedAs : ∃ after, plannedUpdates plan ctx = .ok (updates, after)
  distinct : (updates.map Prod.fst).Nodup
  within : ∀ update, update ∈ updates → update.1 < (ctx.db.rows plan.table).length

theorem runUpdate_spec (plan : UpdatePlan V) (ctx : Ctx V) (post : Ctx V → Prop)
    (loop : ∀ updates started, Planned plan ctx updates → SameData ctx started →
      Ensures (updates.forM (checkAndCascade plan.table (ctx.db.rows plan.table))) started
        (fun _ middle => ∀ final, Framed middle final →
          final.db = middle.db.setRows plan.table (setAll (middle.db.rows plan.table) updates) →
            post final)) :
    Ensures (runUpdate plan) ctx (fun _ final => post final) := by
  unfold runUpdate
  refine Ensures.bind (Ensures.get ?_)
  refine Ensures.bind ?_
  intro updates started ran
  have same := plannedUpdates_readOnly plan ctx updates started ran
  obtain ⟨distinct, within⟩ := plannedUpdates_positions plan ctx updates started ran
  refine Ensures.bind ((loop updates started ⟨⟨started, ran⟩, distinct, within⟩ same).weaken ?_)
  intro _ middle conclude
  refine Ensures.bind ((writeBack_spec plan _ updates [] middle).weaken ?_)
  rintro out wrote ⟨framed, written⟩
  refine Ensures.bind (Ensures.update ?_)
  exact Ensures.pure (conclude _ ⟨framed.tables, framed.schemas, framed.deferredAll,
    framed.deferred⟩ written)

theorem checkLoop_inPlace {R : RowRelation V} (order : R.Preorder) (table : Nat)
    (base : List (Row V)) (updates : List (Nat × Row V)) (start : Ctx V)
    (fact : Nat × Row V → Prop)
    (fits : ∀ update, update ∈ updates → ∀ entry, entry ∈ referencing start.db table →
      UpdateFits R start.db (base.getD update.1 []) update.2 entry)
    (learned : ∀ update, update ∈ updates → ∀ current, Framed start current →
      InPlace R start current → checkRow current table update.2 (some update.1) = .ok () →
        fact update) :
    Ensures (updates.forM (checkAndCascade table base)) start (fun _ middle =>
      (Framed start middle ∧ InPlace R start middle) ∧
        ∀ update, update ∈ updates → fact update) := by
  refine Ensures.forM_each (fun current => Framed start current ∧ InPlace R start current) fact
    ⟨Framed.refl start, InPlace.of_eq order rfl⟩ ?_
  rintro update member current ⟨framed, inPlace⟩
  unfold checkAndCascade
  refine Ensures.bind ((check_spec table update.2 (some update.1) current).weaken ?_)
  rintro _ _ ⟨rfl, checked⟩
  refine (cascadeUpdate_inPlace order framed inPlace table _ update.2
    (fits update member)).weaken ?_
  intro _ final kept
  exact ⟨kept, learned update member _ framed inPlace checked⟩

theorem runDelete_shrunk {R : RowRelation V} (order : R.Preorder) (depth : Nat)
    (plan : DeletePlan V) (ctx : Ctx V)
    (fits : ∀ reached, CascadeReach ctx.db plan.table reached →
      ∀ entry, entry ∈ referencing ctx.db reached → DeleteFits R ctx.db entry) :
    Ensures (runDelete depth plan) ctx (fun _ final =>
      Framed ctx final ∧ Shrunk R ctx final) := by
  unfold runDelete
  refine Ensures.bind (Ensures.get ?_)
  refine Ensures.bind ((plannedDeletes_readOnly plan ctx).weaken ?_)
  intro doomed planned samePlanned
  refine Ensures.bind ((ReadOnly.foldlM (fun out i => output_readOnly _ _ _ _ _ _ out)
    planned).weaken ?_)
  intro out shown sameShown
  have same := samePlanned.trans sameShown
  refine Ensures.bind ((Ensures.forM (fun current => Framed ctx current ∧ Shrunk R ctx current)
    ⟨same.framed, (InPlace.of_eq order same.db).shrunk⟩ ?_).weaken ?_)
  · rintro i _ current ⟨framed, shrunk⟩
    exact cascadeDelete_shrunk order depth plan.table _ fits framed shrunk
  · rintro _ middle ⟨framed, shrunk⟩
    refine Ensures.bind (Ensures.update (Ensures.pure ?_))
    refine ⟨framed.trans ⟨rfl, rfl, rfl, rfl⟩, shrunk.trans order ?_⟩
    intro other
    by_cases same : other = plan.table
    · subst same
      rw [DbState.setRows_rows_self]
      exact sublistForall₂_removePositions (order.refl plan.table) _ _
    · rw [DbState.setRows_rows_of_ne _ _ same]
      exact (InPlace.of_eq order rfl).shrunk other

end NoidaDb.Postgres
