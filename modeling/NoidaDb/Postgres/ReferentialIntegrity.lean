/-
Referential integrity of the committed database, in any interleaving of sessions.

ON COMMIT DELETE ROWS and ON COMMIT DROP empty temporary tables without looking at the keys.
-/

import NoidaDb.Postgres.Copies
import NoidaDb.Postgres.DeleteReferences

namespace NoidaDb.Postgres

open PgValue
open NoidaDb.Lib

variable {V : Type}

/-- A table that a commit empties is referenced only by tables that it empties too. -/
def CommitSafe (db : DbState V) : Prop :=
  ∀ t, t ∈ db.tables → ∀ cons, cons ∈ t.constraints → ∀ parent refCols onDelete onUpdate,
    cons.kind = .foreignKey parent refCols onDelete onUpdate →
      ∀ p, p ∈ db.tables → p.oid = parent →
        p.onCommit = .preserveRows ∨
          (t.schema = p.schema ∧ t.onCommit ≠ .preserveRows ∧
            (p.onCommit = .drop → t.onCommit = .drop))

/-- What `CREATE TABLE` leaves, and no data statement changes. -/
structure SchemaFits (db : DbState V) : Prop where
  formed : db.WellFormed
  keys : KeysFormed db
  commits : CommitSafe db

variable {db : DbState V} {refCols : List Nat}

theorem SchemaFits.congr {other : DbState V} (same : other.tables = db.tables)
    (fits : SchemaFits db) : SchemaFits other where
  formed := fits.formed.congr same
  keys := fun entry parent refCols key => fits.keys entry parent refCols (key.congr same.symm)
  commits := by
    unfold CommitSafe
    rw [same]
    exact fits.commits

theorem IsKey.owner {entry : Nat × Constraint V} {parent : Nat}
    (key : IsKey db entry parent refCols) :
    ∃ t, t ∈ db.tables ∧ t.oid = entry.1 ∧ entry.2 ∈ t.constraints := by
  obtain ⟨t, member, owner, present, _⟩ := mem_referencing.mp key.listed
  exact ⟨t, member, owner.symm, present⟩

theorem IsKey.of_owner {t : Table V} {cons : Constraint V} {parent : Nat}
    {onDelete onUpdate : FkAction} (member : t ∈ db.tables) (present : cons ∈ t.constraints)
    (kind : cons.kind = .foreignKey parent refCols onDelete onUpdate) :
    IsKey db (t.oid, cons) parent refCols :=
  ⟨mem_referencing.mpr ⟨t, member, rfl, present, refCols, onDelete, onUpdate, kind⟩,
    onDelete, onUpdate, kind⟩

/-- The tables and rows that remain after the actions for namespace `ns`. -/
structure CommittedFrom (ns : Nat) (db db' : DbState V) : Prop where
  tables : db'.tables = db.tables.filter (fun t => !(t.schema == ns && t.onCommit == .drop))
  rows : ∀ oid row, row ∈ db'.rows oid ↔ row ∈ db.rows oid ∧
    ∀ t, t ∈ db.tables → t.oid = oid → t.schema = ns → t.onCommit = .preserveRows

theorem onCommitActions_cases (tempSchema : String) (db : DbState V) :
    onCommitActions tempSchema db = db ∨
      ∃ ns, CommittedFrom ns db (onCommitActions tempSchema db) := by
  unfold onCommitActions
  split
  · exact Or.inl rfl
  · rename_i ns name found
    refine Or.inr ⟨ns, rfl, ?_⟩
    intro oid row
    by_cases emptied : db.tables.any (fun t =>
        t.oid == oid && t.schema == ns && t.onCommit != .preserveRows) = true
    · have gone : row ∉ (if db.tables.any (fun t =>
          t.oid == oid && t.schema == ns && t.onCommit != .preserveRows) = true then []
          else db.rows oid) := by
        rw [if_pos emptied]
        exact List.not_mem_nil
      constructor
      · intro stored
        exact (gone stored).elim
      · rintro ⟨_, preserved⟩
        obtain ⟨t, member, is⟩ := List.any_eq_true.mp emptied
        simp only [Bool.and_eq_true, beq_iff_eq, bne_iff_ne, ne_eq] at is
        exact (is.2 (preserved t member is.1.1 is.1.2)).elim
    · rw [Bool.not_eq_true] at emptied
      simp only [emptied, Bool.false_eq_true, if_false]
      refine ⟨fun stored => ⟨stored, ?_⟩, fun stored => stored.1⟩
      intro t member owner inSchema
      have not' := List.any_eq_false.mp emptied t member
      simpa [owner, inSchema] using not'

section Committed

variable {ns : Nat} {db db' : DbState V} (fits : SchemaFits db) (from' : CommittedFrom ns db db')
include from'

theorem CommittedFrom.table {t : Table V} :
    t ∈ db'.tables ↔ t ∈ db.tables ∧ ¬ (t.schema = ns ∧ t.onCommit = .drop) := by
  rw [from'.tables, List.mem_filter]
  simp [imp_iff_not_or]

theorem CommittedFrom.isKey {entry : Nat × Constraint V} {parent : Nat} {refCols : List Nat}
    (key : IsKey db' entry parent refCols) : IsKey db entry parent refCols := by
  obtain ⟨t, member, owner, present⟩ := key.owner
  obtain ⟨onDelete, onUpdate, kind⟩ := key.kind
  have isKey := IsKey.of_owner (from'.table.mp member).1 present kind
  rwa [owner] at isKey

include fits

theorem CommittedFrom.schemaFits : SchemaFits db' := by
  have older : ∀ t, t ∈ db'.tables → t ∈ db.tables := fun t member => (from'.table.mp member).1
  refine ⟨⟨?_, ?_, ?_⟩, ?_, ?_⟩
  · rw [from'.tables]
    exact fits.formed.oidsNodup.sublist (List.Sublist.map _ List.filter_sublist)
  · intro t member
    exact fits.formed.primaryKeyNotNull t (older t member)
  · intro t member cons present refTable refCols onDelete onUpdate kind
    have stays := from'.table.mp member
    have exists' := fits.formed.referencedExists t stays.1 cons present refTable refCols onDelete
      onUpdate kind
    obtain ⟨p, found⟩ := Option.isSome_iff_exists.mp exists'
    obtain ⟨listed, isParent⟩ := DbState.table_mem found
    -- A dropped parent takes the referencing table with it.
    have kept : p ∈ db'.tables := by
      rw [from'.table]
      refine ⟨listed, ?_⟩
      rintro ⟨inSchema, dropped⟩
      rcases fits.commits t stays.1 cons present refTable refCols onDelete onUpdate kind p listed
        isParent with preserved | ⟨sameSchema, _, drops⟩
      · rw [preserved] at dropped
        cases dropped
      · exact stays.2 ⟨sameSchema.trans inSchema, drops dropped⟩
    unfold DbState.table
    rw [List.find?_isSome]
    exact ⟨p, kept, by simpa using isParent⟩
  · intro entry parent refCols key
    exact fits.keys entry parent refCols (from'.isKey key)
  · intro t member cons present parent refCols onDelete onUpdate kind p listed
    exact fits.commits t (older t member) cons present parent refCols onDelete onUpdate kind p
      (older p listed)

omit fits in
theorem CommittedFrom.sized (sized : Sized db) : Sized db' := by
  intro t member row stored
  exact sized t (from'.table.mp member).1 row ((from'.rows t.oid row).mp stored).1

theorem CommittedFrom.referential [PgValue V] (referential : Referential db) :
    Referential db' := by
  intro entry parent refCols keyNow row stored isSet
  have key := from'.isKey keyNow
  obtain ⟨was, preserved⟩ := (from'.rows entry.1 row).mp stored
  obtain ⟨p, found, refers⟩ := referential entry parent refCols key row was isSet
  refine ⟨p, (from'.rows parent p).mpr ⟨found, ?_⟩, refers⟩
  intro parentTable listed isParent inSchema
  obtain ⟨t, member, owner, present⟩ := key.owner
  obtain ⟨onDelete, onUpdate, kind⟩ := key.kind
  rcases fits.commits t member entry.2 present parent refCols onDelete onUpdate kind parentTable
    listed isParent with kept | ⟨sameSchema, emptied, _⟩
  · exact kept
  · exact (emptied (preserved t member owner (sameSchema.trans inSchema))).elim

end Committed

variable [PgValue V]

theorem checkDeferred_holds (formed : db.WellFormed)
    (passed : checkDeferredNamed db none = .ok ()) {entry : Nat × Constraint V} {parent : Nat}
    (key : IsKey db entry parent refCols) (deferrable : entry.2.mayDefer = true) :
    KeyHolds db entry parent refCols := by
  obtain ⟨t, member, owner, present⟩ := key.owner
  obtain ⟨onDelete, onUpdate, kind⟩ := key.kind
  have tablePassed := forM_ok passed t member
  have keyPassed := forM_ok tablePassed entry.2 present
  have exists' := formed.referencedExists t member entry.2 present parent refCols onDelete
    onUpdate kind
  obtain ⟨p, found⟩ := Option.isSome_iff_exists.mp exists'
  obtain ⟨_, isParent⟩ := DbState.table_mem found
  simp only [checkDeferredConstraint, kind, deferrable, Option.map_none, Option.getD_none,
    Bool.and_self, if_true, found] at keyPassed
  intro row stored isSet
  rw [← owner] at stored
  have rowPassed := forM_ok keyPassed row stored
  have notNull : entry.2.cols.any (fun c => isNull (Row.col row c)) = false := by
    rw [List.any_eq_false]
    intro c inKey
    simp [isSet c inKey]
  rw [notNull, if_neg (by simp)] at rowPassed
  split at rowPassed
  · rename_i matched
    obtain ⟨q, inParent, matches'⟩ := List.any_eq_true.mp matched
    rw [isParent] at inParent
    exact ⟨q, inParent, refersTo_of_fkMatches isSet matches'⟩
  · cases rowPassed

theorem Intact.referential (formed : db.WellFormed) (intact : Intact db)
    (passed : checkDeferredNamed db none = .ok ()) : Referential db := by
  intro entry parent refCols key
  cases deferrable : entry.2.mayDefer with
  | true => exact checkDeferred_holds formed passed key deferrable
  | false => exact intact entry parent refCols key deferrable

/-- The condition under which a statement keeps the foreign keys that cannot be
deferred. -/
def KeepsReferences (ctx : Ctx V) : Dml V → Prop
  | .insert plan => UpsertKeepsReferences ctx plan
  | .update plan => ∀ updates, Planned plan ctx updates → UpdateKeepsReferences ctx plan updates
  | .delete plan => ∀ doomed after, plannedDeletes plan ctx = .ok (doomed, after) →
      DeleteKeepsReferences ctx.db plan.table (plannedRows ctx plan doomed)

theorem runDml_intact [TransitiveCmp V]
    (depth : Nat) {stmt : Dml V} {start : Ctx V} (fits : SchemaFits start.db)
    (sized : Sized start.db) (intact : Intact start.db) (keeps : KeepsReferences start stmt) :
    Ensures (runDml depth stmt) start (fun _ final => Sized final.db ∧ Intact final.db) := by
  cases stmt with
  | insert plan => exact runInsert_intact fits.formed sized intact keeps
  | update plan => exact runUpdate_intact fits.formed fits.keys sized intact keeps
  | delete plan => exact runDelete_intact depth fits.keys sized intact keeps

structure Sturdy (db : DbState V) : Prop where
  fits : SchemaFits db
  sized : Sized db
  intact : Intact db

/-- The session's context for a statement on the copy `db`. -/
def Modes.ctx (modes : Modes) (ticks : Nat) (db : DbState V) : Ctx V :=
  { db := db, deferredAll := modes.deferredAll, deferred := modes.deferred, ticks := ticks }

def IsKeeping (modes : Modes) (db : DbState V) (stmt : DataStmt (DbState V)) : Prop :=
  ∃ (functions : Functions V) (depth ticks : Nat) (leftover : DbState V → DbState V)
    (dml : Dml V), functions.Quiet ∧ stmt = .ofDml depth ticks leftover dml ∧
      KeepsReferences (modes.ctx ticks db) dml

theorem sturdy_rules [TransitiveCmp V]
    : CopyRules (D := DbState V) Sturdy Referential IsKeeping where
  statement := by
    rintro modes db stmt db' r sturdy ⟨functions, depth, ticks, leftover, dml, quiet, rfl, keeps⟩ ran
    obtain rfl := quiet.eq_reading
    simp only [DataStmt.ofDml] at ran
    split at ran
    · rename_i out final done
      cases ran
      have framed := runDml_framed depth dml _ out final done
      obtain ⟨sized, intact⟩ := @runDml_intact _ _ _ depth dml (modes.ctx ticks db) sturdy.fits
        sturdy.sized sturdy.intact keeps out final done
      exact ⟨sturdy.fits.congr framed.tables, sized, intact⟩
    · cases ran
  commit := by
    intro db tempSchema sturdy passed
    have referential : Referential db := sturdy.intact.referential sturdy.fits.formed passed
    rcases onCommitActions_cases tempSchema db with same | ⟨ns, from'⟩
    · have unchanged : Database.onCommitActions tempSchema db = db := same
      rw [unchanged]
      exact ⟨sturdy, referential⟩
    · have still := from'.referential sturdy.fits referential
      exact ⟨⟨from'.schemaFits sturdy.fits, from'.sized sturdy.sized, still.intact⟩, still⟩

/-- In every interleaving whose statements keep the references, every foreign key holds
of the committed database. -/
theorem run_referential [TransitiveCmp V] (rules : SettingRules) (w : World (DbState V))
    (calls : List (Nat × Request (DbState V))) (atRest : w.AtRest)
    (fits : SchemaFits w.global.db) (empty : ∀ oid, w.global.db.rows oid = [])
    (keeps : w.Admits IsKeeping rules calls) : Referential (w.run rules calls).global.db := by
  have nothing : ∀ {oid : Nat} {row : Row V}, row ∉ w.global.db.rows oid := by
    intro oid row
    rw [empty oid]
    exact List.not_mem_nil
  have referential : Referential w.global.db :=
    fun entry parent refCols key row stored => (nothing stored).elim
  have holds : w.CopiesHold Sturdy Referential :=
    ⟨⟨⟨fits, fun t member row stored => (nothing stored).elim, referential.intact⟩, referential⟩,
      fun i => .closed (atRest.idle i) (atRest.closed i)⟩
  exact (holds.run sturdy_rules rules calls keeps).committed.2

def ownedFkey : Constraint Scalar :=
  { name := "c_k_fkey", kind := .foreignKey 1 [0] .cascade .noAction, cols := [0] }

/-- `c (k int REFERENCES t (k) ON DELETE CASCADE)`. -/
def owned : Table Scalar :=
  { oid := 3
    name := "c"
    columns := [{ name := "k" }]
    constraints := [ownedFkey] }

/-- Sessions on an empty `t` and `c`. -/
def ownedWorld : World (DbState Scalar) where
  global := { db := (Ctx.ofTables [keyed, owned]).db }
  sessions := keyedWorld.sessions

def ownedCall (stmt : Dml Scalar) : Nat × Request (DbState Scalar) :=
  (1, .statement (.data (.ofDml 2 0 (fun db => db) stmt)))

/-- `INSERT INTO t VALUES (1) ON CONFLICT (k) DO UPDATE SET k = 2`. -/
def moveKey : Dml Scalar :=
  .insert
    { table := 1
      cols := [0]
      source := fun _ _ => .ok [[.int 1]]
      onConflict := some ⟨some [0], .update [(0, .value (fun _ _ _ => .ok (.int 2)))] none⟩ }

theorem ownedKey_iff {db : DbState Scalar} (tables : db.tables = [keyed, owned])
    {entry : Nat × Constraint Scalar} {parent : Nat} (listed : entry ∈ referencing db parent) :
    entry = (3, ownedFkey) ∧ parent = 1 := by
  obtain ⟨t, member, owner, present, refCols, onDelete, onUpdate, kind⟩ := mem_referencing.mp listed
  rw [tables] at member
  obtain ⟨oid, cons⟩ := entry
  simp only at owner present kind
  rcases List.mem_pair.mp member with rfl | rfl
  · obtain rfl := List.mem_singleton.mp present
    cases kind
  · obtain rfl := List.mem_singleton.mp present
    cases kind
    exact ⟨by rw [owner]; rfl, rfl⟩

theorem ownedWorld_fits : SchemaFits ownedWorld.global.db := by
  refine ⟨.of_check (by decide) rfl, ?_, ?_⟩
  · intro entry parent refCols key
    obtain ⟨rfl, _⟩ := ownedKey_iff rfl key.listed
    obtain ⟨onDelete, onUpdate, kind⟩ := key.kind
    cases kind
    exact ⟨by decide, rfl⟩
  · intro t member cons present parent refCols onDelete onUpdate kind p listed isParent
    refine Or.inl ?_
    rcases List.mem_pair.mp listed with rfl | rfl <;> rfl

theorem ownedWorld_atRest : ownedWorld.AtRest := ⟨fun _ => rfl, fun _ => rfl, fun _ => rfl⟩

/-- The key moves from 1 to 2 and `c` still says 1. -/
theorem run_dangling_upsert :
    ¬ ∀ (rules : SettingRules) (w : World (DbState Scalar))
      (stmts : List (Dml Scalar)), w.AtRest → SchemaFits w.global.db →
        (∀ oid, w.global.db.rows oid = []) →
          Referential (w.run rules (stmts.map ownedCall)).global.db := by
  intro claimed
  have referential := claimed textRules ownedWorld
    [insertValues 1 1 [[.int 1]], insertValues 3 1 [[.int 1]], moveKey] ownedWorld_atRest
    ownedWorld_fits (fun _ => rfl)
  have key : IsKey (ownedWorld.run textRules ([insertValues 1 1 [[.int 1]],
      insertValues 3 1 [[.int 1]], moveKey].map ownedCall)).global.db (3, ownedFkey) 1 [0] :=
    .of_owner (t := owned) (List.mem_cons_of_mem _ List.mem_cons_self) List.mem_cons_self rfl
  have isSet : IsSet ownedFkey.cols [Scalar.int 1] := by
    intro c member
    obtain rfl := List.mem_singleton.mp member
    rfl
  obtain ⟨p, found, refers⟩ := referential (3, ownedFkey) 1 [0] key [.int 1] List.mem_cons_self isSet
  obtain rfl : p = [.int 2] := List.mem_singleton.mp found
  cases refers

theorem run_referential_cascaded :
    (ownedWorld.run textRules ([insertValues 1 1 [[.int 1], [.int 2]],
        insertValues 3 1 [[.int 1], [.int 2]],
        deleteWhere 1 (fun row => .bool (Row.col row 0 == .int 1))].map ownedCall)).global.db.rows 3 =
        [[.int 2]] ∧
      Referential (ownedWorld.run textRules ([insertValues 1 1 [[.int 1], [.int 2]],
        insertValues 3 1 [[.int 1], [.int 2]],
        deleteWhere 1 (fun row => .bool (Row.col row 0 == .int 1))].map ownedCall)).global.db := by
  refine ⟨rfl, run_referential textRules ownedWorld _ ownedWorld_atRest ownedWorld_fits
    (fun _ => rfl) ?_⟩
  have inserts : ∀ (c : Conn (DbState Scalar)) (table width : Nat) (rows : List (Row Scalar)),
      Admitted IsKeeping c (ownedCall (insertValues table width rows)).2 := by
    intro c table width rows _
    refine ⟨_, 2, 0, _, _, Functions.reading_quiet, rfl, ?_⟩
    intro target sets filter upsert
    cases upsert
  refine ⟨inserts _ 1 1 _, inserts _ 3 1 _, ?_, trivial⟩
  intro _
  refine ⟨_, 2, 0, _, _, Functions.reading_quiet, rfl, ?_⟩
  intro doomed after _
  constructor
  · rintro row ⟨entry, here, trails⟩
    obtain ⟨parent, p, refCols, onUpdate, _, listed, _⟩ := trails.found
    obtain ⟨rfl, _⟩ := ownedKey_iff rfl listed
    cases here
  · intro entry action row rewriting trails
    obtain ⟨parent, p, refCols, onUpdate, _, listed, kind, _⟩ := trails.found
    obtain ⟨rfl, _⟩ := ownedKey_iff rfl listed
    cases kind
    cases rewriting

end NoidaDb.Postgres
