/-
NOT NULL and CHECK over runs of data statements.

The rows that foreign-key actions rewrite are written as they are, so the columns an action writes
must be ones that these do not constrain.
-/

import NoidaDb.Postgres.Runs

namespace NoidaDb.Postgres

open PgValue
open NoidaDb.Lib

variable {V : Type} [PgValue V]

def RequiresValue (t : Table V) (entry : Nat × Column V) : Prop :=
  entry.2.notNull = true ∨
    ∃ cons, cons ∈ t.constraints ∧ cons.kind = .primaryKey ∧ entry.1 ∈ cons.cols

structure RowValid (t : Table V) (row : Row V) : Prop where
  notNull : ∀ entry, entry ∈ t.liveColumns → RequiresValue t entry →
    isNull (Row.col row entry.1) = false
  check : ∀ cons, cons ∈ t.constraints → ∀ e, cons.kind = .check e →
    ∃ v, e.eval row = .ok v ∧ asBool v ≠ some false

def RowsValid (db : DbState V) : Prop :=
  ∀ t, t ∈ db.tables → ∀ row, row ∈ db.rows t.oid → RowValid t row

variable {t : Table V} {db : DbState V}

omit [PgValue V] in
theorem Table.mem_liveColumns {entry : Nat × Column V} (live : entry ∈ t.liveColumns) :
    t.columns[entry.1]? = some entry.2 := by
  obtain ⟨pair, listed, rfl⟩ := List.mem_map.mp (List.mem_filter.mp live).1
  exact List.mem_zipIdx_iff_getElem?.mp listed

theorem checkRow_valid {ctx : Ctx V} (formed : ctx.db.WellFormed) (member : t ∈ ctx.db.tables)
    {row : Row V} {skip : Option Nat} (checked : checkRow ctx t.oid row skip = .ok ()) :
    RowValid t row := by
  obtain ⟨t', looked, passed⟩ := checkRow_ok checked
  rw [formed.table_eq member] at looked
  obtain rfl := Option.some.inj looked
  refine ⟨?_, ?_⟩
  · intro entry live required
    refine passed.notNull entry live ?_
    rcases required with declared | ⟨cons, present, kind, inKey⟩
    · exact declared
    · exact formed.primaryKeyNotNull t member cons present kind entry.1 inKey entry.2
        (Table.mem_liveColumns live)
  · intro cons present e kind
    have checkPassed := passed.constraints cons present
    unfold checkConstraint at checkPassed
    rw [kind] at checkPassed
    obtain ⟨v, evaluated, accepted⟩ := bind_eq_ok checkPassed
    refine ⟨v, evaluated, ?_⟩
    intro isFalse
    rw [if_pos isFalse] at accepted
    cases accepted

def WritesValue (column : Nat × Column V) (cols refCols : List Nat) (new : Option (Row V)) :
    FkAction → Prop
  | .setNull => False
  | .setDefault =>
    ∃ d, column.2.default = some d ∧
      ∀ row rows ticks v, d row rows ticks = .ok v → isNull v = false
  | .cascade =>
    ∀ image, new = some image → ∀ p, (column.1, p) ∈ cols.zip refCols →
      isNull (Row.col image p) = false
  | .noAction | .restrict => True

/-- No CHECK of the table depends on the columns the action writes, and it writes no
null where a value is required. -/
structure LeavesRowsValid (db : DbState V) (entry : Nat × Constraint V) (refCols : List Nat)
    (new : Option (Row V)) (action : FkAction) : Prop where
  checks : ∀ t, db.table entry.1 = some t → ∀ cons, cons ∈ t.constraints → ∀ e,
    cons.kind = .check e → ∀ row' row, AgreesOff entry.2.cols row' row → e.eval row' = e.eval row
  values : ∀ t, db.table entry.1 = some t → ∀ column, column ∈ t.liveColumns →
    column.1 ∈ entry.2.cols → RequiresValue t column →
      WritesValue column entry.2.cols refCols new action

def KeepsRowsValid (ctx : Ctx V) (stmt : Dml V) : Prop :=
  Spares (LeavesRowsValid ctx.db) ctx stmt

def ValidIfValid (db : DbState V) : RowRelation V :=
  fun table new old => ∀ t, db.table table = some t → RowValid t old → RowValid t new

theorem validIfValid_preorder (db : DbState V) : (ValidIfValid db).Preorder := by
  refine ⟨fun table row t found valid => valid, ?_⟩
  intro table first second third left right t found valid
  exact left t found (right t found valid)

theorem LeavesRowsValid.notNull {entry : Nat × Constraint V} {refCols : List Nat}
    {new : Option (Row V)} {action : FkAction}
    (leaves : LeavesRowsValid db entry refCols new action) (found : db.table entry.1 = some t)
    {row' row : Row V} (rewritten : Rewrites db entry refCols new action row' row)
    {column : Nat × Column V} (live : column ∈ t.liveColumns) (required : RequiresValue t column)
    (present : isNull (Row.col row column.1) = false) : isNull (Row.col row' column.1) = false := by
  by_cases written : column.1 ∈ entry.2.cols
  · have writes := leaves.values t found column live written required
    have within : column.1 < row.length := Row.lt_length_of_isNull present
    cases rewritten with
    | @follow image row given =>
      rcases followedRow_values entry.2.cols refCols image row column.1 with kept | ⟨p, pair, taken⟩
      · rw [kept]
        exact present
      · rw [taken]
        exact writes image given p pair
    | clear cleared => exact writes.elim
    | reset cleared =>
      obtain ⟨d, hasDefault, neverNull⟩ := writes
      have columnDefault : (t.columns[column.1]?).bind Column.default = some d := by
        rw [Table.mem_liveColumns live, Option.bind_some, hasDefault]
      have clears := cleared.values column.1 written within
      generalize Row.col row' column.1 = v at clears ⊢
      cases clears with
      | null absent =>
        have lacks := absent.resolve_left (by simp) t found
        rw [columnDefault] at lacks
        cases lacks
      | default isDefault looked hasExpr value =>
        rw [found] at looked
        obtain rfl := Option.some.inj looked
        rw [columnDefault] at hasExpr
        obtain rfl := Option.some.inj hasExpr
        exact neverNull _ _ _ _ value
  · rw [rewritten.agrees.off column.1 written]
    exact present

theorem LeavesRowsValid.valid {entry : Nat × Constraint V} {refCols : List Nat}
    {new : Option (Row V)} {action : FkAction}
    (leaves : LeavesRowsValid db entry refCols new action) (row' row : Row V)
    (rewritten : Rewrites db entry refCols new action row' row) :
    ValidIfValid db entry.1 row' row := by
  intro t found valid
  refine ⟨?_, ?_⟩
  · intro column live required
    exact leaves.notNull found rewritten live required (valid.notNull column live required)
  · intro cons present e kind
    rw [leaves.checks t found cons present e kind row' row rewritten.agrees]
    exact valid.check cons present e kind

theorem RowsValid.shrunk {ctx final : Ctx V} (formed : ctx.db.WellFormed)
    (valid : RowsValid ctx.db) (framed : Framed ctx final)
    (shrunk : Shrunk (ValidIfValid ctx.db) ctx final) : RowsValid final.db := by
  intro t member row stored
  rw [framed.tables] at member
  obtain ⟨origin, was, replaced⟩ := shrunk.descends stored
  exact replaced t (formed.table_eq member) (valid t member origin was)

theorem RowsValid.setRows (valid : RowsValid db) {table : Nat} {rows : List (Row V)}
    (fits : ∀ t, t ∈ db.tables → t.oid = table → ∀ row, row ∈ rows → RowValid t row) :
    RowsValid (db.setRows table rows) := by
  intro t member row stored
  by_cases same : t.oid = table
  · rw [same, DbState.setRows_rows_self] at stored
    exact fits t member same row stored
  · rw [DbState.setRows_rows_of_ne _ _ same] at stored
    exact valid t member row stored

theorem RowsValid.insertStep {plan : InsertPlan V} {ctx final : Ctx V}
    (formed : ctx.db.WellFormed) (valid : RowsValid ctx.db)
    {touched touched' : List Nat}
    (step : InsertStep plan touched ctx touched' final) : RowsValid final.db := by
  cases step with
  | skip same =>
    rw [same.db]
    exact valid
  | push row sized checked framed written =>
    rw [written]
    refine valid.setRows ?_
    intro t member same other stored
    rw [← same] at checked stored
    rcases List.mem_append.mp stored with old | isRow
    · exact valid t member other old
    · obtain rfl := List.mem_singleton.mp isRow
      exact checkRow_valid formed member checked
  | replace pos row target sets filter proposed before after upsert same image fresh checked
      framed written =>
      rw [written]
      refine valid.setRows ?_
      intro t member sameTable other stored
      rw [← sameTable] at checked stored
      rcases List.mem_or_eq_of_mem_set stored with old | isRow
      · exact valid t member other old
      · rw [isRow]
        exact checkRow_valid formed member checked

theorem runUpdate_rowsValid {plan : UpdatePlan V} {ctx : Ctx V} (formed : ctx.db.WellFormed)
    (valid : RowsValid ctx.db) (safe : KeepsRowsValid ctx (.update plan)) :
    Ensures (runUpdate plan) ctx (fun _ final => RowsValid final.db) := by
  refine runUpdate_spec plan ctx (fun final => RowsValid final.db) ?_
  intro updates started planned same
  refine (Spares.checkLoop safe (validIfValid_preorder ctx.db)
    (fun entry refCols new action leaves row' row rewritten => leaves.valid row' row rewritten)
    planned same
    (fun update => ∀ t, t ∈ ctx.db.tables → t.oid = plan.table → RowValid t update.2)
    ?_).weaken ?_
  · intro update _ current framed inPlace checked t member sameTable
    rw [← sameTable] at checked
    exact checkRow_valid (formed.congr framed.tables) (by rw [framed.tables]; exact member) checked
  · rintro _ middle ⟨⟨framed, inPlace⟩, imagesValid⟩ final _ written
    rw [written]
    have validNow := valid.shrunk formed framed inPlace.shrunk
    refine validNow.setRows ?_
    intro t memberNow sameTable row stored
    rcases mem_setAll stored with old | ⟨position, isImage⟩
    · exact validNow t memberNow row (sameTable ▸ old)
    · exact imagesValid (position, row) isImage t (by rw [← framed.tables]; exact memberNow) sameTable

theorem runDml_rowsValid {depth : Nat} {stmt : Dml V} {ctx : Ctx V}
    (formed : ctx.db.WellFormed) (valid : RowsValid ctx.db) (safe : KeepsRowsValid ctx stmt) :
    Ensures (runDml depth stmt) ctx (fun _ final => RowsValid final.db) := by
  cases stmt with
  | insert plan =>
    refine (runInsert_keeps plan
      (fun _ current => current.db.WellFormed ∧ RowsValid current.db) ctx ⟨formed, valid⟩
      ?_).weaken (fun _ _ ⟨_, kept⟩ => kept.2)
    rintro _ current _ final ⟨formedNow, validNow⟩ step
    exact ⟨formedNow.congr step.framed.tables, validNow.insertStep formedNow step⟩
  | update plan => exact runUpdate_rowsValid formed valid safe
  | delete plan =>
    refine (Spares.runDelete safe (validIfValid_preorder ctx.db)
      (fun entry refCols new action leaves row' row rewritten =>
        leaves.valid row' row rewritten) depth).weaken ?_
    rintro _ final ⟨framed, shrunk⟩
    exact valid.shrunk formed framed shrunk

def clearedFkey : Constraint Scalar :=
  { name := "c_k_fkey", kind := .foreignKey 1 [0] .setNull .noAction, cols := [1] }

/-- `id > 0`. -/
def positiveId : RowExpr Scalar where
  sql := "id > 0"
  eval row :=
    match Row.col row 0 with
    | .int i => .ok (.bool (decide (0 < i)))
    | _ => .ok .null

def positiveCheck : Constraint Scalar :=
  { name := "c_id_check", kind := .check positiveId, cols := [] }

/-- `c (id int CHECK (id > 0), k int REFERENCES t ON DELETE SET NULL)`, with `k`
declared NOT NULL or not. -/
def clearedChild (keyNotNull : Bool) : Table Scalar :=
  { oid := 3
    name := "c"
    columns := [{ name := "id" }, { name := "k", notNull := keyNotNull }]
    constraints := [positiveCheck, clearedFkey] }

def clearedStart (keyNotNull : Bool) : Ctx Scalar :=
  Ctx.ofTables [keyed, clearedChild keyNotNull]

def oneChild : List (Dml Scalar) :=
  [insertValues 1 1 [[.int 1]], insertValues 3 2 [[.int 7, .int 1]]]

def deleteParents : Dml Scalar := deleteWhere 1 (fun _ => .bool true)

def clearedLoaded : Ctx Scalar := (clearedStart false).after 2 oneChild

theorem clearedLoaded_reachable : Reachable KeepsRowsValid clearedLoaded := by
  refine reachable_after 2 _
    (Reachable.start (.of_check (by decide) rfl) (fun _ => rfl)) ?_
  intro stmt member current
  obtain ⟨plan, rfl⟩ : ∃ plan, stmt = .insert plan := by
    rcases List.mem_cons.mp member with same | later
    · exact ⟨_, same⟩
    · exact ⟨_, List.mem_singleton.mp later⟩
  exact Spares.insert _ current plan

theorem clearedFkey_leavesRowsValid (refCols : List Nat) (new : Option (Row Scalar))
    (action : FkAction) :
    LeavesRowsValid clearedLoaded.db (3, clearedFkey) refCols new action := by
  refine ⟨?_, ?_⟩
  · intro t found cons present e kind row' row agrees
    obtain rfl : clearedChild false = t := Option.some.inj found
    have constraints : cons = positiveCheck ∨ cons = clearedFkey := by
      simpa [clearedChild] using present
    rcases constraints with rfl | rfl
    · cases kind
      have sameId : Row.col row' 0 = Row.col row 0 := agrees.off 0 (by decide)
      simp only [positiveId, sameId]
    · cases kind
  · intro t found column live written required
    obtain rfl : clearedChild false = t := Option.some.inj found
    have columns : column = (0, { name := "id" }) ∨ column = (1, { name := "k" }) := by
      simpa [clearedChild, Table.liveColumns] using live
    rcases columns with rfl | rfl
    · cases written with | tail _ absent => cases absent
    · rcases required with declared | ⟨cons, present, kind, inKey⟩
      · cases declared
      · have constraints : cons = positiveCheck ∨ cons = clearedFkey := by
          simpa [clearedChild] using present
        rcases constraints with rfl | rfl <;> cases kind

theorem clearedFkey_only {table : Nat} {entry : Nat × Constraint Scalar}
    (refers : entry ∈ referencing clearedLoaded.db table) : entry = (3, clearedFkey) := by
  obtain ⟨t, member, owner, present, refCols, onDelete, onUpdate, kind⟩ :=
    mem_referencing.mp refers
  have tables : t = keyed ∨ t = clearedChild false := by
    simpa using (show t ∈ [keyed, clearedChild false] from member)
  rcases tables with rfl | rfl
  · rw [List.mem_singleton.mp present] at kind
    cases kind
  · have constraints : entry.2 = positiveCheck ∨ entry.2 = clearedFkey := by
      simpa [clearedChild] using present
    rcases constraints with isCheck | isFkey
    · rw [isCheck] at kind
      cases kind
    · exact Prod.ext owner isFkey

end NoidaDb.Postgres
