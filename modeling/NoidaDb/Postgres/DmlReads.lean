/-
The steps of a data statement that only read, and the rows a statement plans.
-/

import NoidaDb.Lib.ListUpdates
import NoidaDb.Postgres.Dml

namespace NoidaDb.Postgres

open PgValue
open NoidaDb.Lib

variable {V : Type}

variable {t : Table V}

theorem tableOf_eq_ok {ctx : Ctx V} {oid : Nat} (found : tableOf ctx oid = .ok t) :
    ctx.db.table oid = some t := by
  unfold tableOf at found
  cases looked : ctx.db.table oid with
  | none => rw [looked] at found; cases found
  | some t' => rw [looked] at found; cases found; rfl

structure SameData (ctx final : Ctx V) : Prop where
  db : final.db = ctx.db
  deferredAll : final.deferredAll = ctx.deferredAll
  deferred : final.deferred = ctx.deferred

theorem SameData.refl (ctx : Ctx V) : SameData ctx ctx := ⟨rfl, rfl, rfl⟩

theorem SameData.trans {first second third : Ctx V} (left : SameData first second)
    (right : SameData second third) : SameData first third :=
  ⟨right.db.trans left.db, right.deferredAll.trans left.deferredAll,
    right.deferred.trans left.deferred⟩

def ReadOnly {α : Type} (step : Exec V α) : Prop :=
  ∀ ctx, Ensures step ctx (fun _ final => SameData ctx final)

namespace ReadOnly

variable {α β : Type}

theorem pure (value : α) : ReadOnly (Pure.pure value : Exec V α) :=
  fun ctx => Ensures.pure (SameData.refl ctx)

theorem lift (computation : PgResult α) :
    ReadOnly (StateT.lift computation : Exec V α) :=
  fun ctx => Ensures.lift (fun _ _ => SameData.refl ctx)

theorem get : ReadOnly (MonadState.get : Exec V (Ctx V)) :=
  fun ctx => Ensures.get (SameData.refl ctx)

theorem bind {first : Exec V α} {next : α → Exec V β} (left : ReadOnly first)
    (right : ∀ value, ReadOnly (next value)) : ReadOnly (first >>= next) := by
  intro ctx
  refine Ensures.bind ((left ctx).weaken ?_)
  intro value middle same
  refine (right value middle).weaken ?_
  intro _ final sameAgain
  exact same.trans sameAgain

theorem foldlM {items : List α} {body : β → α → Exec V β} {accumulator : β}
    (step : ∀ current item, ReadOnly (body current item)) :
    ReadOnly (items.foldlM body accumulator) := by
  intro ctx
  refine Ensures.foldlM (fun _ final => SameData ctx final) (SameData.refl ctx) ?_
  intro item _ partialResult current same
  refine (step partialResult item current).weaken ?_
  intro _ final sameAgain
  exact same.trans sameAgain

end ReadOnly

theorem evaluated_readOnly : ReadOnly (evaluated : Exec V Unit) :=
  fun _ => Ensures.update ⟨rfl, rfl, rfl⟩

theorem evalIn_readOnly (rows : Rows V) (e : Expr V) (row : Row V) :
    ReadOnly (evalIn rows e row) := by
  unfold evalIn
  refine ReadOnly.get.bind (fun ctx => (ReadOnly.lift _).bind (fun v => ?_))
  exact evaluated_readOnly.bind (fun _ => ReadOnly.pure v)

theorem eval_readOnly (e : Expr V) (row : Row V) : ReadOnly (eval e row) := by
  unfold eval
  exact ReadOnly.get.bind (fun ctx => evalIn_readOnly _ e row)

theorem runQuery_readOnly (q : Query V) : ReadOnly (runQuery q) := by
  unfold runQuery
  refine ReadOnly.get.bind (fun ctx => (ReadOnly.lift _).bind (fun rows => ?_))
  exact evaluated_readOnly.bind (fun _ => ReadOnly.pure rows)

theorem projectSnap_readOnly (returning : Returning V) (row : Row V)
    (snap : Option (Rows V)) : ReadOnly (projectSnap returning row snap) := by
  unfold projectSnap
  refine ReadOnly.foldlM (fun out e => ?_)
  exact ReadOnly.get.bind (fun _ => (evalIn_readOnly _ e row).bind (fun v => ReadOnly.pure _))

theorem fromRows_readOnly (q : Option (Query V)) : ReadOnly (fromRows q) := by
  cases q with
  | none => exact ReadOnly.pure [[]]
  | some f => exact runQuery_readOnly f

variable [PgValue V]

theorem passes_readOnly (filter : Option (Expr V)) (row : Row V) :
    ReadOnly (passes filter row) := by
  cases filter with
  | none => exact ReadOnly.pure true
  | some f => exact (eval_readOnly f row).bind (fun v => ReadOnly.pure _)

theorem finishRow_readOnly (table : Nat) (row : Row V) : ReadOnly (finishRow table row) :=
  ReadOnly.get.bind (fun _ => (ReadOnly.lift _).bind (fun _ =>
    (ReadOnly.lift _).bind (fun _ => ReadOnly.lift _)))

theorem defaultValue_readOnly (table col : Nat) :
    ReadOnly (defaultValue table col : Exec V V) := by
  unfold defaultValue
  refine ReadOnly.get.bind (fun ctx => (ReadOnly.lift _).bind (fun t => ?_))
  split
  · exact ReadOnly.pure null
  · exact eval_readOnly _ []

theorem output_readOnly (returning : Returning V) (snap : Option (Rows V)) (table : Nat)
    (row : Row V) (pos : Nat) (xmax : Option Int) (out : List (Row V)) :
    ReadOnly (output returning snap table row pos xmax out) := by
  unfold output
  split
  · exact ReadOnly.pure out
  · refine ReadOnly.get.bind (fun _ => (ReadOnly.lift _).bind (fun t => ?_))
    exact (projectSnap_readOnly returning _ snap).bind (fun _ => ReadOnly.pure _)

theorem proposedRow_readOnly (plan : InsertPlan V) (src : Row V) :
    ReadOnly (proposedRow plan src) := by
  unfold proposedRow fillDefaults
  refine ReadOnly.get.bind (fun _ => (ReadOnly.lift _).bind (fun t => ?_))
  refine (ReadOnly.lift _).bind (fun given => ReadOnly.bind ?_ (fun _ => finishRow_readOnly _ _))
  refine ReadOnly.foldlM (fun row c => ?_)
  split
  · exact ReadOnly.pure row
  · split
    · exact ReadOnly.pure row
    · exact (eval_readOnly _ []).bind (fun v => ReadOnly.pure _)

theorem conflictImage_readOnly (table : Nat) (sets : List (Nat × Assign V))
    (existing combined : Row V) : ReadOnly (conflictImage table sets existing combined) := by
  unfold conflictImage
  refine ReadOnly.bind ?_ (fun assigned => finishRow_readOnly table assigned)
  refine ReadOnly.foldlM (fun updated item => ReadOnly.bind ?_ (fun v => ReadOnly.pure _))
  cases item.2 with
  | default col => exact defaultValue_readOnly table col
  | value e => exact eval_readOnly e combined

theorem updateImage_readOnly (plan : UpdatePlan V) (old row : Row V) :
    ReadOnly (updateImage plan old row) := by
  unfold updateImage
  refine ReadOnly.bind ?_ (fun assigned => finishRow_readOnly plan.table assigned)
  refine ReadOnly.foldlM (fun updated item => ReadOnly.bind ?_ (fun v => ReadOnly.pure _))
  cases item.2 with
  | default col =>
    simp only [updateValue]
    split
    · exact ReadOnly.pure null
    · exact eval_readOnly _ []
  | value e => exact eval_readOnly e row

theorem firstImage_readOnly (plan : UpdatePlan V) (old system : Row V)
    (extra : List (Row V)) : ReadOnly (firstImage plan old system extra) := by
  induction extra with
  | nil => exact ReadOnly.pure none
  | cons e rest ih =>
    refine (passes_readOnly plan.filter _).bind (fun wanted => ?_)
    cases wanted with
    | true => exact (updateImage_readOnly plan old _).bind (fun image => ReadOnly.pure _)
    | false => exact ih

theorem imagesFrom_readOnly (plan : UpdatePlan V) (t : Table V) (extra : List (Row V))
    (rows : List (Row V)) (i : Nat) : ReadOnly (imagesFrom plan t extra i rows) := by
  induction rows generalizing i with
  | nil => exact ReadOnly.pure []
  | cons old rest ih =>
    refine (firstImage_readOnly plan old _ extra).bind (fun image => ?_)
    refine (ih (i + 1)).bind (fun later => ?_)
    cases image with
    | none => exact ReadOnly.pure later
    | some new => exact ReadOnly.pure _

theorem plannedUpdates_readOnly (plan : UpdatePlan V) : ReadOnly (plannedUpdates plan) :=
  ReadOnly.get.bind (fun _ => (ReadOnly.lift _).bind (fun t =>
    (fromRows_readOnly plan.fromQuery).bind (fun extra =>
      imagesFrom_readOnly plan t extra _ 0)))

theorem anyPasses_readOnly (filter : Option (Expr V)) (row : Row V) (extra : List (Row V)) :
    ReadOnly (anyPasses filter row extra) := by
  induction extra with
  | nil => exact ReadOnly.pure false
  | cons e rest ih =>
    refine (passes_readOnly filter _).bind (fun wanted => ?_)
    cases wanted with
    | true => exact ReadOnly.pure true
    | false => exact ih

theorem doomedFrom_readOnly (plan : DeletePlan V) (t : Table V) (extra : List (Row V))
    (rows : List (Row V)) (i : Nat) : ReadOnly (doomedFrom plan t extra i rows) := by
  induction rows generalizing i with
  | nil => exact ReadOnly.pure []
  | cons old rest ih =>
    refine (anyPasses_readOnly plan.filter _ extra).bind (fun wanted => ?_)
    exact (ih (i + 1)).bind (fun later => ReadOnly.pure _)

theorem plannedDeletes_readOnly (plan : DeletePlan V) : ReadOnly (plannedDeletes plan) :=
  ReadOnly.get.bind (fun _ => (ReadOnly.lift _).bind (fun t =>
    (fromRows_readOnly plan.usingQuery).bind (fun extra =>
      doomedFrom_readOnly plan t extra _ 0)))

theorem imagesFrom_positions (plan : UpdatePlan V) (t : Table V) (extra : List (Row V))
    (rows : List (Row V)) (i : Nat) (ctx : Ctx V) :
    Ensures (imagesFrom plan t extra i rows) ctx (fun updates _ =>
      (updates.map Prod.fst).Pairwise (· < ·) ∧
        ∀ update, update ∈ updates → i ≤ update.1 ∧ update.1 < i + rows.length) := by
  induction rows generalizing i ctx with
  | nil =>
    refine Ensures.pure ⟨List.Pairwise.nil, ?_⟩
    intro update member
    cases member
  | cons old rest ih =>
    refine Ensures.bind (fun image middle _ => ?_)
    refine Ensures.bind ((ih (i + 1) middle).weaken ?_)
    rintro later final ⟨ordered, bounded⟩
    have laterBounded : ∀ update, update ∈ later →
        i ≤ update.1 ∧ update.1 < i + (old :: rest).length := by
      intro update member
      obtain ⟨low, high⟩ := bounded update member
      rw [List.length_cons]
      omega
    cases image with
    | none => exact Ensures.pure ⟨ordered, laterBounded⟩
    | some new =>
      refine Ensures.pure ⟨?_, ?_⟩
      · rw [List.map_cons, List.pairwise_cons]
        refine ⟨?_, ordered⟩
        intro position member
        obtain ⟨update, found, same⟩ := List.mem_map.mp member
        obtain ⟨low, _⟩ := bounded update found
        omega
      · intro update member
        rcases List.mem_cons.mp member with same | found
        · subst same
          rw [List.length_cons]
          exact ⟨Nat.le_refl i, by omega⟩
        · exact laterBounded update found

theorem plannedUpdates_positions (plan : UpdatePlan V) (ctx : Ctx V) :
    Ensures (plannedUpdates plan) ctx (fun updates _ =>
      (updates.map Prod.fst).Nodup ∧
        ∀ update, update ∈ updates → update.1 < (ctx.db.rows plan.table).length) := by
  refine Ensures.bind (Ensures.get ?_)
  refine Ensures.bind (Ensures.lift (fun t _ => ?_))
  refine Ensures.bind (fun extra middle _ => ?_)
  refine (imagesFrom_positions plan t extra _ 0 middle).weaken ?_
  rintro updates final ⟨ordered, bounded⟩
  refine ⟨ordered.imp (fun before => Nat.ne_of_lt before), ?_⟩
  intro update member
  have upper := (bounded update member).2
  omega

theorem doomedFrom_positions (plan : DeletePlan V) (t : Table V) (extra : List (Row V))
    (rows : List (Row V)) (i : Nat) (ctx : Ctx V) :
    Ensures (doomedFrom plan t extra i rows) ctx (fun doomed _ =>
      ∀ position, position ∈ doomed → i ≤ position ∧ position < i + rows.length) := by
  induction rows generalizing i ctx with
  | nil =>
    refine Ensures.pure ?_
    intro position member
    cases member
  | cons old rest ih =>
    refine Ensures.bind (fun wanted middle _ => ?_)
    refine Ensures.bind ((ih (i + 1) middle).weaken ?_)
    intro later final bounded
    refine Ensures.pure ?_
    intro position member
    have within : position = i ∨ position ∈ later := by
      cases wanted with
      | true => exact List.mem_cons.mp member
      | false => exact Or.inr member
    rw [List.length_cons]
    rcases within with same | found
    · omega
    · have := bounded position found
      omega

theorem plannedDeletes_positions (plan : DeletePlan V) (ctx : Ctx V) :
    Ensures (plannedDeletes plan) ctx (fun doomed _ =>
      ∀ position, position ∈ doomed → position < (ctx.db.rows plan.table).length) := by
  refine Ensures.bind (Ensures.get ?_)
  refine Ensures.bind (Ensures.lift (fun t _ => ?_))
  refine Ensures.bind (fun extra middle _ => ?_)
  refine (doomedFrom_positions plan t extra _ 0 middle).weaken ?_
  intro doomed final bounded position member
  have upper := (bounded position member).2
  omega

omit [PgValue V] in
theorem foldlM_length {α β : Type} (row : β → Row V) {items : List α} {body : β → α → PgResult β}
    (kept : ∀ state item next, body state item = .ok next → (row next).length = (row state).length)
    {state final : β} (ran : items.foldlM body state = .ok final) :
    (row final).length = (row state).length := by
  induction items generalizing state with
  | nil =>
    cases ran
    rfl
  | cons item rest ih =>
    rw [List.foldlM_cons] at ran
    obtain ⟨next, first, later⟩ := bind_eq_ok ran
    rw [ih later, kept state item next first]

omit [PgValue V] in
theorem applyGenerated_length {row out : Row V} (ran : applyGenerated t row = .ok out) :
    out.length = row.length := by
  refine foldlM_length id ?_ ran
  intro state entry next first
  split at first
  · cases first
    rfl
  · obtain ⟨v, _, set'⟩ := bind_eq_ok first
    cases set'
    exact List.length_set

theorem coerceRow_length {row out : Row V} (ran : coerceRow t row = .ok out) :
    out.length = row.length := by
  refine foldlM_length id ?_ ran
  intro state entry next first
  obtain ⟨v, _, set'⟩ := bind_eq_ok first
  cases set'
  exact List.length_set

theorem finishRow_length (table : Nat) (row : Row V) (ctx : Ctx V) :
    Ensures (finishRow table row) ctx (fun out _ => out.length = row.length) := by
  unfold finishRow
  refine Ensures.bind (Ensures.get ?_)
  refine Ensures.bind (Ensures.lift (fun t _ => ?_))
  refine Ensures.bind (Ensures.lift (fun generated built => ?_))
  refine Ensures.lift (fun out coerced => ?_)
  rw [coerceRow_length coerced, applyGenerated_length built]

theorem givenValues_length {plan : InsertPlan V} {src : Row V} {given : Row V × List Nat}
    (ran : givenValues plan t src = .ok given) : given.1.length = t.columns.length := by
  have length := foldlM_length Prod.fst ?_ ran
  · simpa using length
  · intro state entry next first
    simp only at first
    split at first
    · cases first
      rfl
    · split at first
      · cases first
      · cases first
        exact List.length_set

omit [PgValue V] in
theorem fillDefaults_length (plan : InsertPlan V) (t : Table V) (given : Row V × List Nat)
    (ctx : Ctx V) :
    Ensures (fillDefaults plan t given) ctx (fun out _ => out.length = given.1.length) := by
  unfold fillDefaults
  refine Ensures.foldlM (fun (row : Row V) _ => row.length = given.1.length) rfl ?_
  intro c _ row current length
  split
  · exact Ensures.pure length
  · split
    · exact Ensures.pure length
    · refine Ensures.bind (fun v middle _ => Ensures.pure ?_)
      rw [List.length_set, length]

theorem proposedRow_length (plan : InsertPlan V) (src : Row V) (ctx : Ctx V) :
    Ensures (proposedRow plan src) ctx (fun out _ =>
      ∀ t, ctx.db.table plan.table = some t → out.length = t.columns.length) := by
  unfold proposedRow
  refine Ensures.bind (Ensures.get ?_)
  refine Ensures.bind (Ensures.lift (fun t found => ?_))
  refine Ensures.bind (Ensures.lift (fun given built => ?_))
  refine Ensures.bind ((fillDefaults_length plan t given ctx).weaken ?_)
  intro filled middle filledLength
  refine (finishRow_length plan.table filled middle).weaken ?_
  intro out _ length t' looked
  have same := tableOf_eq_ok found
  rw [looked] at same
  cases same
  rw [length, filledLength, givenValues_length built]

theorem conflictImage_length (table : Nat) (sets : List (Nat × Assign V))
    (existing combined : Row V) (ctx : Ctx V) :
    Ensures (conflictImage table sets existing combined) ctx
      (fun out _ => out.length = existing.length) := by
  unfold conflictImage
  refine Ensures.bind ((Ensures.foldlM (fun (row : Row V) _ => row.length = existing.length)
    rfl ?_).weaken ?_)
  · intro item _ row current length
    refine Ensures.bind (fun v middle _ => Ensures.pure ?_)
    rw [List.length_set, length]
  · intro assigned middle length
    refine (finishRow_length table assigned middle).weaken ?_
    intro out _ finished
    rw [finished, length]

theorem updateImage_length (plan : UpdatePlan V) (old row : Row V) (ctx : Ctx V) :
    Ensures (updateImage plan old row) ctx (fun out _ => out.length = old.length) := by
  unfold updateImage
  refine Ensures.bind ((Ensures.foldlM (fun (row : Row V) _ => row.length = old.length)
    rfl ?_).weaken ?_)
  · intro item _ row current length
    refine Ensures.bind (fun v middle _ => Ensures.pure ?_)
    rw [List.length_set, length]
  · intro assigned middle length
    refine (finishRow_length plan.table assigned middle).weaken ?_
    intro out _ finished
    rw [finished, length]

theorem firstImage_length (plan : UpdatePlan V) (old system : Row V) (extra : List (Row V))
    (ctx : Ctx V) :
    Ensures (firstImage plan old system extra) ctx
      (fun image _ => ∀ new, image = some new → new.length = old.length) := by
  induction extra generalizing ctx with
  | nil =>
    refine Ensures.pure ?_
    intro new absent
    cases absent
  | cons e rest ih =>
    refine Ensures.bind (fun wanted middle _ => ?_)
    refine Ensures.ite (fun _ => ?_) (fun _ => ih middle)
    refine Ensures.bind ((updateImage_length plan old _ middle).weaken ?_)
    intro image final length
    refine Ensures.pure ?_
    intro new same
    cases same
    exact length

theorem imagesFrom_length (plan : UpdatePlan V) (t : Table V) (extra : List (Row V))
    (rows : List (Row V)) (i : Nat) (ctx : Ctx V) :
    Ensures (imagesFrom plan t extra i rows) ctx (fun updates _ =>
      ∀ update, update ∈ updates → ∃ k old, update.1 = i + k ∧ rows[k]? = some old ∧
        update.2.length = old.length) := by
  induction rows generalizing i ctx with
  | nil =>
    refine Ensures.pure ?_
    intro update member
    cases member
  | cons old rest ih =>
    refine Ensures.bind ((firstImage_length plan old _ extra ctx).weaken ?_)
    intro image middle length
    refine Ensures.bind ((ih (i + 1) middle).weaken ?_)
    intro later final shifted
    have laterLength : ∀ update, update ∈ later → ∃ k row, update.1 = i + k ∧
        (old :: rest)[k]? = some row ∧ update.2.length = row.length := by
      intro update member
      obtain ⟨k, row, position, found, same⟩ := shifted update member
      exact ⟨k + 1, row, by omega, found, same⟩
    cases image with
    | none => exact Ensures.pure laterLength
    | some new =>
      refine Ensures.pure ?_
      intro update member
      rcases List.mem_cons.mp member with same | found
      · subst same
        exact ⟨0, old, rfl, rfl, length new rfl⟩
      · exact laterLength update found

theorem plannedUpdates_length (plan : UpdatePlan V) (ctx : Ctx V) :
    Ensures (plannedUpdates plan) ctx (fun updates _ =>
      ∀ update, update ∈ updates →
        update.2.length = ((ctx.db.rows plan.table).getD update.1 []).length) := by
  refine Ensures.bind (Ensures.get ?_)
  refine Ensures.bind (Ensures.lift (fun t _ => ?_))
  refine Ensures.bind (fun extra middle _ => ?_)
  refine (imagesFrom_length plan t extra _ 0 middle).weaken ?_
  intro updates final lengths update member
  obtain ⟨k, old, position, found, same⟩ := lengths update member
  rw [Nat.zero_add] at position
  rw [position, List.getD_eq_getElem?_getD, found, Option.getD_some, same]

end NoidaDb.Postgres
