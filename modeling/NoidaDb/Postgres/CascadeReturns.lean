/-
When `cascade_delete` returns.

It goes down into the referring rows before it removes them, so it returns if no chain
of rows, each of which refers to the one before through an ON DELETE CASCADE key, is
endless.
-/

import NoidaDb.Lib.Unrolling
import NoidaDb.Postgres.DeleteReferences

namespace NoidaDb.Postgres

open PgValue
open NoidaDb.Lib

variable {V : Type} [PgValue V]

/-- One call of `cascade_delete`, given what its recursive calls do. -/
def cascadeStep (call : Nat × Row V → Exec V PUnit) (at' : Nat × Row V) : Exec V PUnit := do
  let ctx ← get
  (referencing ctx.db at'.1).forM (cascadeDeleteKey (fun table row => call (table, row)) at'.1 at'.2)

def stackExceeded (_ : Nat × Row V) : Exec V PUnit :=
  throw { code := Code.statementTooComplex, message := "stack depth exceeded" }

theorem cascadeDelete_eq (depth table : Nat) (row : Row V) :
    cascadeDelete depth table row = unrolled cascadeStep stackExceeded depth (table, row) := by
  induction depth generalizing table row with
  | zero => rfl
  | succ depth ih =>
    have same : cascadeDelete (V := V) depth =
        fun table row => unrolled cascadeStep stackExceeded depth (table, row) := by
      funext table row
      exact ih table row
    unfold cascadeDelete
    rw [same]
    rfl

/-- `cascade_delete` of this row returns, given enough stack. -/
def CascadeReturns (ctx : Ctx V) (table : Nat) (row : Row V) : Prop :=
  Returns cascadeStep (table, row) ctx

/-- What the ON DELETE actions of a statement that starts at `db` may make of a row. -/
inductive Worn (db : DbState V) : RowRelation V where
  | kept {table : Nat} {row : Row V} : Worn db table row row
  | rewritten {parent : Nat} {entry : Nat × Constraint V} {refCols : List Nat}
      {onDelete onUpdate : FkAction} {new old row : Row V} (before : Worn db entry.1 old row)
      (listed : entry ∈ referencing db parent)
      (kind : entry.2.kind = .foreignKey parent refCols onDelete onUpdate)
      (rewrites : Rewrites db entry refCols none onDelete new old) : Worn db entry.1 new row

theorem worn_preorder (db : DbState V) : (Worn db).Preorder := by
  constructor
  · intro table row
    exact .kept
  · intro table first second third left right
    induction left with
    | kept => exact right
    | rewritten before listed kind rewrites ih => exact .rewritten (ih right) listed kind rewrites

/-- The second row refers to the first one through an ON DELETE CASCADE key. -/
inductive FollowsRow (db : DbState V) : Nat × Row V → Nat × Row V → Prop where
  | key {parent : Nat} {row child : Row V} {entry : Nat × Constraint V} {refCols : List Nat}
      {onUpdate : FkAction} (stored : Descends (Worn db) db entry.1 child)
      (listed : entry ∈ referencing db parent)
      (kind : entry.2.kind = .foreignKey parent refCols .cascade onUpdate)
      (refers : refersTo entry.2.cols refCols row child = true) :
      FollowsRow db (entry.1, child) (parent, row)

def ChainsEnd (db : DbState V) (table : Nat) (row : Row V) : Prop := Acc (FollowsRow db) (table, row)

section ChainsEnd

variable {start : Ctx V}

structure Underway (start ctx : Ctx V) : Prop where
  framed : Framed start ctx
  shrunk : Shrunk (Worn start.db) start ctx

theorem Underway.refl (start : Ctx V) : Underway start start :=
  ⟨Framed.refl start, (InPlace.of_eq (worn_preorder start.db) rfl).shrunk⟩

theorem deleteFits_worn {parent : Nat} {entry : Nat × Constraint V}
    (listed : entry ∈ referencing start.db parent) :
    DeleteFits (Worn start.db) start.db entry := by
  intro refTable refCols onDelete onUpdate kind gone row _ _ row' rewrites
  obtain ⟨_, _, _, _, refCols', onDelete', onUpdate', kind'⟩ := mem_referencing.mp listed
  rw [kind'] at kind
  cases kind
  exact .rewritten .kept listed kind' rewrites

theorem cascadeDelete_underway (depth table : Nat) (row : Row V) {ctx : Ctx V}
    (underway : Underway start ctx) :
    Ensures (cascadeDelete depth table row) ctx (fun _ final => Underway start final) := by
  have shrunk := cascadeDelete_shrunk (worn_preorder start.db) depth table row
    (fun reached _ entry listed => deleteFits_worn listed) underway.framed underway.shrunk
  exact shrunk.weaken (fun _ final now => ⟨now.1, now.2⟩)

theorem cascadeDeleteKey_underway (depth table : Nat) (row : Row V) {ctx : Ctx V}
    {entry : Nat × Constraint V} (listed : entry ∈ referencing start.db table)
    (underway : Underway start ctx) :
    Ensures (cascadeDeleteKey (cascadeDelete depth) table row entry) ctx
      (fun _ final => Underway start final) := by
  have shrunk := cascadeDeleteKey_shrunk (worn_preorder start.db) underway.framed underway.shrunk
    (cascadeDelete depth) table row entry (deleteFits_worn listed) (by
      intro refTable refCols onUpdate kind current doomed framed shrunk
      have onward := cascadeDelete_underway depth entry.1 doomed ⟨framed, shrunk⟩
      exact onward.weaken (fun _ final now => ⟨now.framed, now.shrunk⟩))
  exact shrunk.weaken (fun _ final now => ⟨now.1, now.2⟩)

theorem cascadeDelete_call (depth : Nat) :
    (fun table row => unrolled cascadeStep stackExceeded depth (table, row)) =
      cascadeDelete (V := V) depth := by
  funext table row
  exact (cascadeDelete_eq depth table row).symm

theorem cascadeDeleteKey_settles {ctx : Ctx V} {table : Nat} {row : Row V}
    {entry : Nat × Constraint V} (listed : entry ∈ referencing start.db table)
    (underway : Underway start ctx)
    (returns : ∀ child, FollowsRow start.db (entry.1, child) (table, row) → ∀ current,
      Underway start current → CascadeReturns current entry.1 child) :
    Concludes cascadeStep (fun call =>
      cascadeDeleteKey (fun table row => call (table, row)) table row entry) ctx := by
  obtain ⟨_, _, _, _, refCols, onDelete, onUpdate, kind⟩ := mem_referencing.mp listed
  simp only [cascadeDeleteKey, kind]
  apply Concludes.bind (Concludes.const _ ctx)
  intro ctx' middle depth settles
  obtain ⟨rfl, rfl⟩ : ctx = ctx' ∧ ctx = middle := by
    cases settles (fun _ => pure ())
    exact ⟨rfl, rfl⟩
  apply Concludes.bind (Concludes.const _ ctx)
  intro child middle depth settles
  obtain rfl : ctx = middle := by
    have ran := settles (fun _ => pure ())
    cases found : tableOf ctx entry.1 with
    | error e =>
      rw [found] at ran
      cases ran
    | ok t =>
      rw [found] at ran
      cases ran
      rfl
  split
  · exact Concludes.const _ ctx
  · split
    · exact Concludes.const _ ctx
    · cases onDelete with
      | noAction => exact Concludes.const _ ctx
      | restrict => exact Concludes.const _ ctx
      | setNull => exact Concludes.const _ ctx
      | setDefault => exact Concludes.const _ ctx
      | cascade =>
        apply Concludes.bind
        · apply Concludes.forM (Underway start) underway
          · intro doomed member current now
            obtain ⟨stored, refers⟩ := mem_matching.mp member
            apply returns doomed _ current now
            exact .key (underway.shrunk.descends stored) listed kind refers
          · intro doomed _ current now depth final settles
            have ran := settles stackExceeded
            rw [← cascadeDelete_eq] at ran
            exact cascadeDelete_underway depth entry.1 doomed now _ final ran
        · intro _ middle depth settles
          exact Concludes.const _ middle

theorem cascadeReturns_of_chainsEnd {table : Nat} {row : Row V}
    (ends : ChainsEnd start.db table row) {ctx : Ctx V} (underway : Underway start ctx) :
    CascadeReturns ctx table row := by
  suffices general : ∀ at', Acc (FollowsRow start.db) at' → ∀ ctx, Underway start ctx →
      Returns cascadeStep at' ctx from general (table, row) ends ctx underway
  intro at' ends
  induction ends with
  | intro at' _ ih =>
    intro ctx underway
    have loop : Concludes cascadeStep (fun call => (referencing ctx.db at'.1).forM
        (fun entry => cascadeDeleteKey (fun table row => call (table, row)) at'.1 at'.2 entry))
        ctx := by
      rw [referencing_congr underway.framed.tables]
      apply Concludes.forM (Underway start) underway
      · intro entry listed current now
        apply cascadeDeleteKey_settles listed now
        intro child follows current' now'
        exact ih (entry.1, child) follows current' now'
      · intro entry listed current now depth final settles
        have ran := settles stackExceeded
        rw [cascadeDelete_call] at ran
        exact cascadeDeleteKey_underway depth at'.1 at'.2 listed now _ final ran
    obtain ⟨depth, result, settles⟩ := loop
    refine ⟨depth + 1, result, ?_⟩
    intro deeper
    exact settles deeper

end ChainsEnd

def OnlyRemoves (db : DbState V) : Prop :=
  ∀ parent entry, entry ∈ referencing db parent → ∀ refCols onDelete onUpdate,
    entry.2.kind = .foreignKey parent refCols onDelete onUpdate →
      onDelete.rewrites (none : Option (Row V)) = false

def OnlyCascades (db : DbState V) : Prop :=
  ∀ parent entry, entry ∈ referencing db parent → ∀ refCols onDelete onUpdate,
    entry.2.kind = .foreignKey parent refCols onDelete onUpdate → onDelete = .cascade

variable {db : DbState V}

omit [PgValue V] in
theorem OnlyCascades.onlyRemoves (cascades : OnlyCascades db) : OnlyRemoves db := by
  intro parent entry listed refCols onDelete onUpdate kind
  rw [cascades parent entry listed refCols onDelete onUpdate kind]
  rfl

theorem OnlyRemoves.worn (removes : OnlyRemoves db) {table : Nat} {new old : Row V}
    (worn : Worn db table new old) : new = old := by
  induction worn with
  | kept => rfl
  | rewritten before listed kind rewrites ih =>
    have never := removes _ _ listed _ _ _ kind
    cases rewrites with
    | follow given => cases given
    | clear cleared => cases never
    | reset cleared => cases never

structure Removes (ctx final : Ctx V) : Prop where
  framed : Framed ctx final
  subset : ∀ table row, row ∈ final.db.rows table → row ∈ ctx.db.rows table
  gone : ∀ table row, row ∈ ctx.db.rows table → row ∉ final.db.rows table →
    ChainsEnd ctx.db table row

theorem Removes.refl (ctx : Ctx V) : Removes ctx ctx :=
  ⟨Framed.refl ctx, fun _ _ stored => stored, fun _ _ stored missing => absurd stored missing⟩

section OnlyRemoves

variable {ctx middle final : Ctx V}

omit [PgValue V] in
theorem OnlyRemoves.congr (removes : OnlyRemoves ctx.db) (framed : Framed ctx final) :
    OnlyRemoves final.db := by
  intro parent entry listed
  rw [referencing_congr framed.tables] at listed
  exact removes parent entry listed

theorem FollowsRow.before {at' next : Nat × Row V}
    (framed : Framed ctx final)
    (follows : FollowsRow ctx.db next at') (left : next.2 ∈ final.db.rows next.1) :
    FollowsRow final.db next at' := by
  cases follows with
  | key stored listed kind refers =>
    rw [← referencing_congr framed.tables] at listed
    exact .key ⟨_, left, .kept⟩ listed kind refers

theorem FollowsRow.stored (removes : OnlyRemoves ctx.db) {at' next : Nat × Row V}
    (follows : FollowsRow ctx.db next at') : next.2 ∈ ctx.db.rows next.1 := by
  cases follows with
  | key stored listed kind refers =>
    obtain ⟨origin, found, worn⟩ := stored
    rw [removes.worn worn]
    exact found

variable {row : Row V}

theorem Removes.chainsEnd (removed : Removes ctx final) (removes : OnlyRemoves ctx.db)
    {table : Nat} (ends : ChainsEnd final.db table row) : ChainsEnd ctx.db table row := by
  suffices general : ∀ at', Acc (FollowsRow final.db) at' → Acc (FollowsRow ctx.db) at' from
    general (table, row) ends
  intro at' ends
  induction ends with
  | intro at' _ ih =>
    constructor
    intro next follows
    by_cases left : next.2 ∈ final.db.rows next.1
    · exact ih next (follows.before removed.framed left)
    · exact removed.gone next.1 next.2 (follows.stored removes) left

theorem Removes.trans (first : Removes ctx middle) (second : Removes middle final)
    (removes : OnlyRemoves ctx.db) : Removes ctx final := by
  constructor
  · exact first.framed.trans second.framed
  · intro table row stored
    exact first.subset table row (second.subset table row stored)
  · intro table row stored missing
    by_cases left : row ∈ middle.db.rows table
    · exact first.chainsEnd removes (second.gone table row left missing)
    · exact first.gone table row stored left

theorem Removes.sized (removed : Removes ctx final) (sized : Sized ctx.db) : Sized final.db := by
  intro t member row stored
  rw [removed.framed.tables] at member
  exact sized t member row (removed.subset t.oid row stored)

theorem ChainsEnd.of_equal [TransitiveCmp V]
    {child : Nat} {d : Row V} (ends : ChainsEnd ctx.db child d)
    (sameLength : row.length = d.length) (equal : rowsEqual row d = true) :
    ChainsEnd ctx.db child row := by
  constructor
  intro next follows
  apply ends.inv
  cases follows with
  | key stored listed kind refers =>
    exact .key stored listed kind (refersTo_parent (rowsEqual_keyUnchanged sameLength equal _) refers)

theorem Removes.cascade [TransitiveCmp V]
    (removes : OnlyRemoves ctx.db) (sized : Sized ctx.db) {table : Nat}
    {entry : Nat × Constraint V} (listed : entry ∈ referencing ctx.db table)
    {deleteRow : Nat → Row V → Exec V Unit}
    (deletes : ∀ d current, Removes ctx current → Ensures (deleteRow entry.1 d) current
      (fun _ final => Removes current final ∧ ChainsEnd current.db entry.1 d))
    {rows : List (Row V)} (were : ∀ d, d ∈ rows → d ∈ ctx.db.rows entry.1) :
    Ensures (do
        rows.forM (deleteRow entry.1)
        removeEqual entry.1 rows) ctx
      (fun _ final => Removes ctx final ∧ ∀ d, d ∈ rows → ChainsEnd ctx.db entry.1 d) := by
  refine Ensures.bind ?_
  have loop : Ensures (rows.forM (deleteRow entry.1)) ctx (fun _ final => Removes ctx final ∧
      ∀ d, d ∈ rows → ChainsEnd ctx.db entry.1 d) := by
    apply Ensures.forM_each (Removes ctx) _ (Removes.refl ctx)
    intro d _ current now
    refine (deletes d current now).weaken ?_
    intro _ final done
    exact ⟨now.trans done.1 removes, now.chainsEnd removes done.2⟩
  refine loop.weaken ?_
  intro _ middle done
  obtain ⟨now, each⟩ := done
  refine Ensures.update ?_
  refine ⟨⟨now.framed.trans ⟨rfl, rfl, rfl, rfl⟩, ?_, ?_⟩, each⟩
  · intro other row stored
    apply now.subset
    by_cases here : other = entry.1
    · subst here
      rw [DbState.setRows_rows_self] at stored
      exact (List.mem_filter.mp stored).1
    · rwa [DbState.setRows_rows_of_ne _ _ here] at stored
  · intro other row stored missing
    by_cases left : row ∈ middle.db.rows other
    · by_cases here : other = entry.1
      · subst here
        rw [DbState.setRows_rows_self] at missing
        obtain ⟨d, member, equal⟩ : ∃ d, d ∈ rows ∧ rowsEqual row d = true := by
          by_contra none'
          apply missing
          apply List.mem_filter.mpr
          refine ⟨left, ?_⟩
          simp only [Bool.not_eq_true', List.any_eq_false]
          intro d member equal
          exact none' ⟨d, member, equal⟩
        obtain ⟨t, isTable, owner, _⟩ := mem_referencing.mp listed
        rw [owner] at stored were
        have lengths : row.length = d.length := by
          rw [sized t isTable row stored, sized t isTable d (were d member)]
        exact (each d member).of_equal lengths equal
      · rw [DbState.setRows_rows_of_ne _ _ here] at missing
        exact absurd left missing
    · exact now.gone other row stored left

theorem cascadeDeleteKey_removes [TransitiveCmp V]
    (removes : OnlyRemoves ctx.db) (sized : Sized ctx.db)
    {table : Nat} {entry : Nat × Constraint V} (listed : entry ∈ referencing ctx.db table)
    {deleteRow : Nat → Row V → Exec V Unit}
    (deletes : ∀ d current, Removes ctx current → Ensures (deleteRow entry.1 d) current
      (fun _ final => Removes current final ∧ ChainsEnd current.db entry.1 d)) :
    Ensures (cascadeDeleteKey deleteRow table row entry) ctx (fun _ final => Removes ctx final ∧
      ∀ refCols onUpdate, entry.2.kind = .foreignKey table refCols .cascade onUpdate →
        ∀ d, d ∈ ctx.db.rows entry.1 → refersTo entry.2.cols refCols row d = true →
          ChainsEnd ctx.db entry.1 d) := by
  obtain ⟨_, _, _, _, refCols, onDelete, onUpdate, kind⟩ := mem_referencing.mp listed
  have removesOnly := removes table entry listed refCols onDelete onUpdate kind
  simp only [cascadeDeleteKey, kind]
  refine Ensures.bind (Ensures.get ?_)
  refine Ensures.bind (Ensures.lift (fun child _ => ?_))
  refine Ensures.ite ?_ ?_
  · intro empty
    refine Ensures.pure ?_
    refine ⟨Removes.refl ctx, ?_⟩
    intro refCols' onUpdate' same d stored refers
    cases same
    exact absurd refers (matchingRows_isEmpty empty d stored)
  · intro _
    refine Ensures.ite ?_ ?_
    · intro deferred
      refine Ensures.pure ?_
      refine ⟨Removes.refl ctx, ?_⟩
      intro refCols' onUpdate' same
      cases same
      simp at deferred
    · intro _
      cases onDelete with
      | noAction => exact Ensures.bind (Ensures.lift (fun _ _ => Ensures.throw))
      | restrict => exact Ensures.bind (Ensures.lift (fun _ _ => Ensures.throw))
      | setNull => cases removesOnly
      | setDefault => cases removesOnly
      | cascade =>
        have were : ∀ d, d ∈ (matchingRows (ctx.db.rows entry.1) entry.2.cols refCols row).map
            (fun i => (ctx.db.rows entry.1).getD i []) → d ∈ ctx.db.rows entry.1 :=
          fun d member => (mem_matching.mp member).1
        refine (Removes.cascade removes sized listed deletes were).weaken ?_
        intro _ final done
        refine ⟨done.1, ?_⟩
        intro refCols' onUpdate' same d stored refers
        cases same
        exact done.2 d (mem_matching.mpr ⟨stored, refers⟩)

theorem cascadeDelete_removes [TransitiveCmp V]
    (depth table : Nat) (row : Row V) (removes : OnlyRemoves ctx.db)
    (sized : Sized ctx.db) :
    Ensures (cascadeDelete depth table row) ctx
      (fun _ final => Removes ctx final ∧ ChainsEnd ctx.db table row) := by
  induction depth generalizing table row ctx with
  | zero => exact Ensures.throw
  | succ depth ih =>
    unfold cascadeDelete
    refine Ensures.bind (Ensures.get ?_)
    have loop : Ensures ((referencing ctx.db table).forM
        (cascadeDeleteKey (cascadeDelete depth) table row)) ctx (fun _ final => Removes ctx final ∧
          ∀ entry, entry ∈ referencing ctx.db table → ∀ refCols onUpdate,
            entry.2.kind = .foreignKey table refCols .cascade onUpdate →
              ∀ d, d ∈ ctx.db.rows entry.1 → refersTo entry.2.cols refCols row d = true →
                ChainsEnd ctx.db entry.1 d) := by
      apply Ensures.forM_each (Removes ctx) _ (Removes.refl ctx)
      intro entry listed current now
      have listedNow : entry ∈ referencing current.db table := by
        rw [referencing_congr now.framed.tables]
        exact listed
      have removesNow := removes.congr now.framed
      have sizedNow := now.sized sized
      refine (cascadeDeleteKey_removes removesNow sizedNow listedNow (by
        intro d later reached
        exact ih entry.1 d (removesNow.congr reached.framed) (reached.sized sizedNow))).weaken ?_
      intro _ final done
      refine ⟨now.trans done.1 removes, ?_⟩
      intro refCols onUpdate kind d stored refers
      by_cases left : d ∈ current.db.rows entry.1
      · exact now.chainsEnd removes (done.2 refCols onUpdate kind d left refers)
      · exact now.gone entry.1 d stored left
    refine loop.weaken ?_
    intro _ final done
    refine ⟨done.1, ?_⟩
    constructor
    intro next follows
    have stored := follows.stored removes
    cases follows with
    | key _ listed kind refers => exact done.2 _ listed _ _ kind _ stored refers

end OnlyRemoves

omit [PgValue V] in
theorem referencing_exists {parent : Nat} {entry : Nat × Constraint V}
    (listed : entry ∈ referencing db parent) : (db.table entry.1).isSome = true := by
  obtain ⟨t, member, owner, _⟩ := mem_referencing.mp listed
  apply List.find?_isSome.mpr
  exact ⟨t, member, by simp [owner]⟩

omit [PgValue V] in
theorem tableOf_total {start ctx : Ctx V} (framed : Framed start ctx) {oid : Nat}
    (isTable : (start.db.table oid).isSome = true) : ∀ failure, tableOf ctx oid ≠ .error failure := by
  intro failure
  unfold tableOf
  rw [table_congr framed.tables]
  cases found : start.db.table oid with
  | none =>
    rw [found] at isTable
    cases isTable
  | some t =>
    intro impossible
    cases impossible

theorem cascadeDelete_succeeds {start : Ctx V} (cascades : OnlyCascades start.db) (depth : Nat)
    (at' : Nat × Row V) {ctx : Ctx V} (framed : Framed start ctx) :
    Yields (unrolled cascadeStep (fun _ => pure ()) depth at') ctx
      (fun _ final => Framed start final) (fun _ => False) := by
  induction depth generalizing at' ctx with
  | zero => exact Yields.pure framed
  | succ depth ih =>
    show Yields (cascadeStep _ at') ctx _ _
    unfold cascadeStep
    refine Yields.bind (Yields.get ?_)
    refine Yields.forM (fun _ => Framed start) framed ?_
    intro entry listed _ current now
    rw [referencing_congr framed.tables] at listed
    obtain ⟨_, _, _, _, refCols, onDelete, onUpdate, kind⟩ := mem_referencing.mp listed
    obtain rfl := cascades at'.1 entry listed refCols onDelete onUpdate kind
    have isFound := tableOf_total now (referencing_exists listed)
    simp only [cascadeDeleteKey, kind]
    refine Yields.bind (Yields.get ?_)
    refine Yields.bind (Yields.lift (fun child _ => ?_) isFound)
    refine Yields.ite (fun _ => Yields.pure now) (fun _ => ?_)
    refine Yields.ite (fun _ => Yields.pure now) (fun _ => ?_)
    refine Yields.bind ?_
    refine (Yields.forM (fun _ => Framed start) now
      (fun d _ _ later reached => ih (entry.1, d) reached)).weaken ?_
    intro _ middle reached
    exact Yields.update (reached.trans ⟨rfl, rfl, rfl, rfl⟩)

/-- `parent int REFERENCES node ON DELETE CASCADE`. -/
def parentFkey : Constraint Scalar :=
  { name := "node_parent_fkey", kind := .foreignKey 1 [0] .cascade .noAction, cols := [1] }

/-- `CREATE TABLE node (id int PRIMARY KEY, parent int ...)`. -/
def node : Table Scalar :=
  { oid := 1, name := "node", columns := [{ name := "id", notNull := true }, { name := "parent" }]
    constraints := [{ name := "node_pkey", kind := .primaryKey, cols := [0] }, parentFkey] }

def nodes (rows : List (Row Scalar)) : Ctx Scalar :=
  { db := { schemas := [(2200, "public")], tables := [node]
            rows := fun oid => if oid = 1 then rows else [] } }

theorem parentKey_iff {rows : List (Row Scalar)} {entry : Nat × Constraint Scalar} {parent : Nat}
    (listed : entry ∈ referencing (nodes rows).db parent) : entry = (1, parentFkey) ∧ parent = 1 := by
  obtain ⟨t, member, owner, present, refCols, onDelete, onUpdate, kind⟩ := mem_referencing.mp listed
  obtain ⟨oid, cons⟩ := entry
  simp only at owner present kind
  obtain rfl := List.mem_singleton.mp member
  rcases List.mem_pair.mp present with rfl | rfl
  · cases kind
  · cases kind
    exact ⟨by rw [owner]; rfl, rfl⟩

theorem followsNode {rows : List (Row Scalar)} {next : Nat × Row Scalar} {row : Row Scalar}
    (follows : FollowsRow (nodes rows).db next (1, row)) :
    next.1 = 1 ∧ next.2 ∈ rows ∧ refersTo [1] [0] row next.2 = true := by
  have removes : OnlyRemoves (nodes rows).db := by
    intro parent entry listed refCols onDelete onUpdate kind
    obtain ⟨rfl, rfl⟩ := parentKey_iff listed
    cases kind
    rfl
  have storedWhere := fun (ctx : Ctx Scalar) (onlyRemoves : OnlyRemoves ctx.db)
    (follows : FollowsRow ctx.db next (1, row)) => follows.stored onlyRemoves
  have stored : next.2 ∈ (nodes rows).db.rows next.1 := storedWhere (nodes rows) removes follows
  cases follows with
  | @key _ _ child entry refCols onUpdate _ listed kind refers =>
    obtain ⟨rfl, _⟩ := parentKey_iff listed
    cases kind
    exact ⟨rfl, stored, refers⟩

theorem chainsEnd_child :
    ChainsEnd (nodes [[.int 1, .null], [.int 2, .int 1]]).db 1 [.int 1, .null] := by
  constructor
  intro next follows
  obtain ⟨here, stored, refers⟩ := followsNode follows
  obtain ⟨oid, child⟩ := next
  obtain rfl : oid = 1 := here
  rcases List.mem_pair.mp stored with rfl | rfl
  · cases refers
  · constructor
    intro next follows
    obtain ⟨_, stored, refers⟩ := followsNode follows
    rcases List.mem_pair.mp stored with same | same
    · rw [same] at refers
      cases refers
    · rw [same] at refers
      cases refers

end NoidaDb.Postgres
