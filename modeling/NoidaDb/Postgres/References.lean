/-
Referential integrity: what a foreign key demands, and what an INSERT keeps of it.

An INSERT checks the rows it writes as referencing rows.  Its ON CONFLICT DO UPDATE changes rows
that may be referenced, and follows no key.
-/

import NoidaDb.Postgres.Runs

namespace NoidaDb.Postgres

open PgValue
open NoidaDb.Lib

variable {V : Type}

/-- `entry` is a foreign key that references `refCols` of `parent`. -/
structure IsKey (db : DbState V) (entry : Nat × Constraint V) (parent : Nat)
    (refCols : List Nat) : Prop where
  listed : entry ∈ referencing db parent
  kind : ∃ onDelete onUpdate, entry.2.kind = .foreignKey parent refCols onDelete onUpdate

variable {db : DbState V} {refCols : List Nat} {row : Row V}

theorem IsKey.congr {other : DbState V} (same : other.tables = db.tables)
    {entry : Nat × Constraint V} {parent : Nat} (key : IsKey db entry parent refCols) :
    IsKey other entry parent refCols :=
  ⟨by rw [referencing_congr same]; exact key.listed, key.kind⟩

theorem IsKey.of_listed {entry : Nat × Constraint V} {parent refTable : Nat}
    {onDelete onUpdate : FkAction} (listed : entry ∈ referencing db parent)
    (kind : entry.2.kind = .foreignKey refTable refCols onDelete onUpdate) :
    IsKey db entry parent refCols := by
  obtain ⟨t, _, _, _, refCols', onDelete', onUpdate', kind'⟩ := mem_referencing.mp listed
  rw [kind] at kind'
  cases kind'
  exact ⟨listed, onDelete, onUpdate, kind⟩

/-- What `CREATE TABLE` checks of a foreign key. -/
def KeysFormed (db : DbState V) : Prop :=
  ∀ entry parent refCols, IsKey db entry parent refCols →
    entry.2.cols ≠ [] ∧ entry.2.cols.length = refCols.length

def Sized (db : DbState V) : Prop :=
  ∀ t, t ∈ db.tables → ∀ row, row ∈ db.rows t.oid → row.length = t.columns.length

variable [PgValue V]

def IsSet (cols : List Nat) (row : Row V) : Prop := ∀ c, c ∈ cols → isNull (Row.col row c) = false

def HasParent (db : DbState V) (entry : Nat × Constraint V) (parent : Nat) (refCols : List Nat)
    (row : Row V) : Prop :=
  ∃ p, p ∈ db.rows parent ∧ refersTo entry.2.cols refCols p row = true

def KeyHolds (db : DbState V) (entry : Nat × Constraint V) (parent : Nat)
    (refCols : List Nat) : Prop :=
  ∀ row, row ∈ db.rows entry.1 → IsSet entry.2.cols row → HasParent db entry parent refCols row

def Referential (db : DbState V) : Prop :=
  ∀ entry parent refCols, IsKey db entry parent refCols → KeyHolds db entry parent refCols

def Intact (db : DbState V) : Prop :=
  ∀ entry parent refCols, IsKey db entry parent refCols → entry.2.mayDefer = false →
    KeyHolds db entry parent refCols

theorem Referential.intact (referential : Referential db) : Intact db :=
  fun entry parent refCols key _ => referential entry parent refCols key

section Refers

variable {cols refCols : List Nat} {p p' r r' : Row V}

theorem refersTo_iff :
    refersTo cols refCols p r = true ↔ ∀ pair, pair ∈ cols.zip refCols →
      isNull (Row.col r pair.1) = false ∧ cmpValues (Row.col r pair.1) (Row.col p pair.2) = .eq := by
  simp [refersTo, List.all_eq_true]

theorem keyUnchanged_iff :
    keyUnchanged refCols p p' = true ↔
      ∀ c, c ∈ refCols → cmpValues (Row.col p c) (Row.col p' c) = .eq := by
  simp [keyUnchanged, List.all_eq_true]

theorem refersTo_of_fkMatches (isSet : IsSet cols r) (found : fkMatches cols refCols r p = true) :
    refersTo cols refCols p r = true := by
  rw [refersTo_iff]
  intro pair member
  have equal := List.all_eq_true.mp found pair member
  exact ⟨isSet pair.1 (List.of_mem_zip member).1, by simpa using equal⟩

theorem refersTo_parent [TransitiveCmp V] (same : keyUnchanged refCols p p' = true)
    (refers : refersTo cols refCols p r = true) : refersTo cols refCols p' r = true := by
  rw [keyUnchanged_iff] at same
  rw [refersTo_iff] at refers ⊢
  intro pair member
  obtain ⟨present, equal⟩ := refers pair member
  exact ⟨present, TransitiveCmp.cmp_trans _ _ _ equal (same pair.2 (List.of_mem_zip member).2)⟩

theorem refersTo_child
    (kept : ∀ c, c ∈ cols → isNull (Row.col r' c) = false → Row.col r' c = Row.col r c)
    (refers : refersTo cols refCols p r' = true) : refersTo cols refCols p r = true := by
  rw [refersTo_iff] at refers ⊢
  intro pair member
  obtain ⟨present, equal⟩ := refers pair member
  have same := kept pair.1 (List.of_mem_zip member).1 present
  rw [← same]
  exact ⟨present, equal⟩

theorem keyUnchanged_symm (same : keyUnchanged refCols p p' = true) :
    keyUnchanged refCols p' p = true := by
  rw [keyUnchanged_iff] at same ⊢
  intro c member
  exact cmp_symm _ _ (same c member)

theorem keyUnchanged_of_eq (same : ∀ c, c ∈ refCols → Row.col p c = Row.col p' c) :
    keyUnchanged refCols p p' = true := by
  rw [keyUnchanged_iff]
  intro c member
  rw [same c member]
  exact cmp_refl _

end Refers

omit [PgValue V] in
theorem isDeferred_false {cons : Constraint V} (immediate : cons.mayDefer = false) (ctx : Ctx V) :
    isDeferred cons ctx = false := by
  have both : cons.deferrable = false ∧ cons.initiallyDeferred = false := by
    simpa [Constraint.mayDefer] using immediate
  simp [isDeferred, both.1, both.2]

theorem checkRow_hasParent {ctx : Ctx V} (formed : ctx.db.WellFormed) {skip : Option Nat}
    {entry : Nat × Constraint V} {parent : Nat} (checked : checkRow ctx entry.1 row skip = .ok ())
    (key : IsKey ctx.db entry parent refCols) (immediate : entry.2.mayDefer = false)
    (isSet : IsSet entry.2.cols row) : HasParent ctx.db entry parent refCols row := by
  obtain ⟨t, looked, passed⟩ := checkRow_ok checked
  obtain ⟨onDelete, onUpdate, kind⟩ := key.kind
  obtain ⟨owner, member, sameOid, present, _⟩ := mem_referencing.mp key.listed
  rw [sameOid, formed.table_eq member] at looked
  cases looked
  have keyPassed := passed.constraints entry.2 present
  have notNull : entry.2.cols.any (fun c => isNull (Row.col row c)) = false := by
    rw [List.any_eq_false]
    intro c inKey
    simp [isSet c inKey]
  simp only [checkConstraint, kind, notNull, isDeferred_false immediate, Bool.or_self,
    Bool.false_eq_true, if_false] at keyPassed
  obtain ⟨parentTable, _, searched⟩ := bind_eq_ok keyPassed
  split at searched
  · rename_i found
    obtain ⟨p, stored, matches'⟩ := List.any_eq_true.mp found
    exact ⟨p, stored, refersTo_of_fkMatches isSet matches'⟩
  · cases searched

/-- ON CONFLICT DO UPDATE keeps the keys through which its rows are referenced. -/
def UpsertKeepsReferences (ctx : Ctx V) (plan : InsertPlan V) : Prop :=
  ∀ target sets filter, plan.onConflict = some ⟨target, .update sets filter⟩ →
    ∀ entry refCols, IsKey ctx.db entry plan.table refCols → entry.2.mayDefer = false →
      ∀ existing, existing ∈ ctx.db.rows plan.table →
        (entry.1 = plan.table ∨
          ∃ r, r ∈ ctx.db.rows entry.1 ∧ refersTo entry.2.cols refCols existing r = true) →
        ∀ before proposed image after, Framed ctx before →
          conflictImage plan.table sets existing (existing ++ proposed) before = .ok (image, after) →
            keyUnchanged refCols existing image = true

structure Inserting (start : Ctx V) (plan : InsertPlan V) (touched : List Nat)
    (ctx : Ctx V) : Prop where
  framed : Framed start ctx
  others : ∀ table, table ≠ plan.table → ctx.db.rows table = start.db.rows table
  untouched : ∀ pos, pos ∉ touched → ∀ row, (ctx.db.rows plan.table)[pos]? = some row →
    row ∈ start.db.rows plan.table
  sized : Sized ctx.db
  intact : Intact ctx.db

omit [PgValue V] in
theorem Sized.setRows (sized : Sized db) {table : Nat} {rows : List (Row V)}
    (fits : ∀ t, t ∈ db.tables → t.oid = table → ∀ row, row ∈ rows →
      row.length = t.columns.length) : Sized (db.setRows table rows) := by
  intro t member row stored
  by_cases same : t.oid = table
  · rw [same, DbState.setRows_rows_self] at stored
    exact fits t member same row stored
  · rw [DbState.setRows_rows_of_ne _ _ same] at stored
    exact sized t member row stored

variable {start : Ctx V} {plan : InsertPlan V} {touched touched' : List Nat} {ctx final : Ctx V}

theorem Inserting.push (formed : start.db.WellFormed)
    (inserting : Inserting start plan touched ctx)
    (sized : ∀ t, ctx.db.table plan.table = some t → row.length = t.columns.length)
    (checked : checkRow ctx plan.table row none = .ok ()) (framed : Framed ctx final)
    (written : final.db = ctx.db.setRows plan.table (ctx.db.rows plan.table ++ [row])) :
    Inserting start plan ((ctx.db.rows plan.table).length :: touched) final := by
  have formedNow : ctx.db.WellFormed := formed.congr inserting.framed.tables
  have grows : ∀ table p, p ∈ ctx.db.rows table → p ∈ final.db.rows table := by
    intro table p stored
    rw [written]
    by_cases same : table = plan.table
    · subst same
      rw [DbState.setRows_rows_self]
      exact List.mem_append_left _ stored
    · rw [DbState.setRows_rows_of_ne _ _ same]
      exact stored
  refine ⟨inserting.framed.trans framed, ?_, ?_, ?_, ?_⟩
  · intro table other
    rw [written, DbState.setRows_rows_of_ne _ _ other]
    exact inserting.others table other
  · intro pos fresh r found
    rw [List.mem_cons, not_or] at fresh
    rw [written, DbState.setRows_rows_self] at found
    have within : pos < (ctx.db.rows plan.table).length := by
      have bound := List.getElem?_eq_some_iff.mp found
      obtain ⟨bound, _⟩ := bound
      rw [List.length_append, List.length_singleton] at bound
      have notLast := fresh.1
      omega
    rw [List.getElem?_append_left within] at found
    exact inserting.untouched pos fresh.2 r found
  · rw [written]
    refine inserting.sized.setRows ?_
    intro t member same r stored
    rcases List.mem_append.mp stored with old | isRow
    · rw [← same] at old
      exact inserting.sized t member r old
    · obtain rfl := List.mem_singleton.mp isRow
      exact sized t (by rw [← same]; exact formedNow.table_eq member)
  · intro entry parent refCols key immediate r stored isSet
    have keyNow := key.congr framed.tables.symm
    have parentNow : HasParent ctx.db entry parent refCols r := by
      rw [written] at stored
      by_cases same : entry.1 = plan.table
      · rw [same, DbState.setRows_rows_self] at stored
        rcases List.mem_append.mp stored with old | isRow
        · rw [← same] at old
          exact inserting.intact entry parent refCols keyNow immediate r old isSet
        · obtain rfl := List.mem_singleton.mp isRow
          rw [← same] at checked
          exact checkRow_hasParent formedNow checked keyNow immediate isSet
      · rw [DbState.setRows_rows_of_ne _ _ same] at stored
        exact inserting.intact entry parent refCols keyNow immediate r stored isSet
    obtain ⟨p, found, refers⟩ := parentNow
    exact ⟨p, grows parent p found, refers⟩

theorem Inserting.replace [TransitiveCmp V] (formed : start.db.WellFormed)
    (keeps : UpsertKeepsReferences start plan) (inserting : Inserting start plan touched ctx)
    {pos : Nat} {proposed : Row V} {target : Option (List Nat)} {sets : List (Nat × Assign V)}
    {filter : Option (Expr V)} {before after : Ctx V}
    (upsert : plan.onConflict = some ⟨target, .update sets filter⟩) (same : SameData ctx before)
    (image : conflictImage plan.table sets ((ctx.db.rows plan.table).getD pos [])
      ((ctx.db.rows plan.table).getD pos [] ++ proposed) before = .ok (row, after))
    (fresh : pos ∉ touched) (checked : checkRow ctx plan.table row (some pos) = .ok ())
    (framed : Framed ctx final)
    (written : final.db = ctx.db.setRows plan.table ((ctx.db.rows plan.table).set pos row)) :
    Inserting start plan (pos :: touched) final := by
  have formedNow : ctx.db.WellFormed := formed.congr inserting.framed.tables
  have existing : ∀ old, (ctx.db.rows plan.table)[pos]? = some old →
      (ctx.db.rows plan.table).getD pos [] = old := by
    intro old found
    rw [List.getD_eq_getElem?_getD, found, Option.getD_some]
  have imageLength := conflictImage_length plan.table sets _ _ before row after image
  -- A parent stays, or its image has the same key.
  have stays : ∀ entry parent refCols, IsKey start.db entry parent refCols →
      entry.2.mayDefer = false → ∀ r, (entry.1 ≠ plan.table → r ∈ start.db.rows entry.1) →
        HasParent ctx.db entry parent refCols r → HasParent final.db entry parent refCols r := by
    rintro entry parent refCols key immediate r child ⟨p, found, refers⟩
    by_cases here : parent = plan.table
    · subst here
      obtain ⟨j, atJ⟩ := List.getElem?_of_mem found
      by_cases replaced : j = pos
      · subst replaced
        have old := existing p atJ
        rw [old] at image
        have unchanged := keeps target sets filter upsert entry refCols key immediate p
          (inserting.untouched j fresh p atJ)
          (by
            by_cases self : entry.1 = plan.table
            · exact Or.inl self
            · exact Or.inr ⟨r, child self, refers⟩)
          before proposed row after (inserting.framed.trans same.framed) image
        refine ⟨row, ?_, refersTo_parent unchanged refers⟩
        rw [written, DbState.setRows_rows_self]
        exact List.mem_of_getElem? (List.getElem?_set_self (List.getElem?_eq_some_iff.mp atJ).1)
      · refine ⟨p, ?_, refers⟩
        rw [written, DbState.setRows_rows_self]
        rw [← List.getElem?_set_ne (Ne.symm replaced)] at atJ
        exact List.mem_of_getElem? atJ
    · refine ⟨p, ?_, refers⟩
      rw [written, DbState.setRows_rows_of_ne _ _ here]
      exact found
  refine ⟨inserting.framed.trans framed, ?_, ?_, ?_, ?_⟩
  · intro table other
    rw [written, DbState.setRows_rows_of_ne _ _ other]
    exact inserting.others table other
  · intro j untouched r found
    rw [List.mem_cons, not_or] at untouched
    rw [written, DbState.setRows_rows_self, List.getElem?_set_ne (Ne.symm untouched.1)] at found
    exact inserting.untouched j untouched.2 r found
  · rw [written]
    refine inserting.sized.setRows ?_
    intro t member sameTable r stored
    obtain ⟨j, atJ⟩ := List.getElem?_of_mem stored
    by_cases replaced : j = pos
    · subst replaced
      rw [List.getElem?_set_self'] at atJ
      obtain ⟨old, found, isRow⟩ := Option.map_eq_some_iff.mp atJ
      obtain rfl : row = r := isRow
      rw [existing old found] at imageLength
      rw [imageLength]
      exact inserting.sized t member old (by rw [sameTable]; exact List.mem_of_getElem? found)
    · rw [List.getElem?_set_ne (Ne.symm replaced)] at atJ
      exact inserting.sized t member r (by rw [sameTable]; exact List.mem_of_getElem? atJ)
  · intro entry parent refCols key immediate r stored isSet
    have keyNow := key.congr framed.tables.symm
    have keyThen := keyNow.congr inserting.framed.tables.symm
    rw [written] at stored
    by_cases self : entry.1 = plan.table
    · rw [self, DbState.setRows_rows_self] at stored
      refine stays entry parent refCols keyThen immediate r (fun other => (other self).elim) ?_
      rcases List.mem_or_eq_of_mem_set stored with old | isRow
      · rw [← self] at old
        exact inserting.intact entry parent refCols keyNow immediate r old isSet
      · subst isRow
        rw [← self] at checked
        exact checkRow_hasParent formedNow checked keyNow immediate isSet
    · rw [DbState.setRows_rows_of_ne _ _ self] at stored
      have atStart : r ∈ start.db.rows entry.1 := by
        rw [← inserting.others entry.1 self]
        exact stored
      exact stays entry parent refCols keyThen immediate r (fun _ => atStart)
        (inserting.intact entry parent refCols keyNow immediate r stored isSet)

theorem runInsert_intact [TransitiveCmp V] (formed : start.db.WellFormed) (sized : Sized start.db)
    (intact : Intact start.db) (keeps : UpsertKeepsReferences start plan) :
    Ensures (runInsert plan) start (fun _ final => Sized final.db ∧ Intact final.db) := by
  refine (runInsert_keeps plan (Inserting start plan) start ?_ ?_).weaken
    (fun _ _ ⟨_, inserting⟩ => ⟨inserting.sized, inserting.intact⟩)
  · exact ⟨Framed.refl start, fun _ _ => rfl, fun _ _ row found => List.mem_of_getElem? found,
      sized, intact⟩
  · intro touched current touched' final inserting step
    cases step with
    | skip same untouched =>
      subst untouched
      refine ⟨inserting.framed.trans same.framed, ?_, ?_, ?_, ?_⟩
      · rw [same.db]
        exact inserting.others
      · rw [same.db]
        exact inserting.untouched
      · rw [same.db]
        exact inserting.sized
      · rw [same.db]
        exact inserting.intact
    | push row sized checked framed written noted =>
      subst noted
      exact inserting.push formed sized checked framed written
    | replace pos row target sets filter proposed before after upsert same image fresh checked
        framed written noted =>
        subst noted
        exact inserting.replace formed keeps upsert same image fresh checked framed written

end NoidaDb.Postgres
