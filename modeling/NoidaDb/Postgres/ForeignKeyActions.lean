/-
What a foreign-key action can do to the tables, stated once for an arbitrary relation
between a row and the row that replaces it.
-/

import NoidaDb.Postgres.DmlReads

namespace NoidaDb.Postgres

open PgValue
open NoidaDb.Lib

variable {V : Type}

structure Framed (ctx final : Ctx V) : Prop where
  tables : final.db.tables = ctx.db.tables
  schemas : final.db.schemas = ctx.db.schemas
  deferredAll : final.deferredAll = ctx.deferredAll
  deferred : final.deferred = ctx.deferred

theorem SameData.framed {ctx final : Ctx V} (same : SameData ctx final) : Framed ctx final :=
  ⟨by rw [same.db], by rw [same.db], same.deferredAll, same.deferred⟩

theorem Framed.refl (ctx : Ctx V) : Framed ctx ctx := ⟨rfl, rfl, rfl, rfl⟩

theorem Framed.trans {first second third : Ctx V} (left : Framed first second)
    (right : Framed second third) : Framed first third :=
  ⟨right.tables.trans left.tables, right.schemas.trans left.schemas,
    right.deferredAll.trans left.deferredAll, right.deferred.trans left.deferred⟩

theorem table_congr {left right : DbState V} (same : left.tables = right.tables) (oid : Nat) :
    left.table oid = right.table oid := by
  unfold DbState.table
  rw [same]

theorem referencing_congr {left right : DbState V} (same : left.tables = right.tables)
    (table : Nat) : referencing left table = referencing right table := by
  unfold referencing
  rw [same]

theorem isDeferred_congr {ctx final : Ctx V} (framed : Framed ctx final)
    (cons : Constraint V) : isDeferred cons final = isDeferred cons ctx := by
  unfold isDeferred
  rw [framed.deferredAll, framed.deferred]

theorem mem_referencing {db : DbState V} {table : Nat} {entry : Nat × Constraint V} :
    entry ∈ referencing db table ↔
      ∃ t, t ∈ db.tables ∧ entry.1 = t.oid ∧ entry.2 ∈ t.constraints ∧
        ∃ refCols onDelete onUpdate,
          entry.2.kind = .foreignKey table refCols onDelete onUpdate := by
  unfold referencing
  rw [List.mem_flatMap]
  constructor
  · rintro ⟨t, member, listed⟩
    obtain ⟨cons, kept, rfl⟩ := List.mem_map.mp listed
    obtain ⟨present, points⟩ := List.mem_filter.mp kept
    refine ⟨t, member, rfl, present, ?_⟩
    split at points
    · rename_i refTable refCols onDelete onUpdate kind
      obtain rfl : refTable = table := by simpa using points
      exact ⟨refCols, onDelete, onUpdate, kind⟩
    · cases points
  · rintro ⟨t, member, owner, present, refCols, onDelete, onUpdate, kind⟩
    refine ⟨t, member, List.mem_map.mpr ⟨entry.2, List.mem_filter.mpr ⟨present, ?_⟩, ?_⟩⟩
    · simp [kind]
    · rw [← owner]

abbrev RowRelation (V : Type) := Nat → Row V → Row V → Prop

structure RowRelation.Preorder (R : RowRelation V) : Prop where
  refl : ∀ table row, R table row row
  trans : ∀ table first second third, R table first second → R table second third →
    R table first third

def InPlace (R : RowRelation V) (ctx final : Ctx V) : Prop :=
  ∀ table, List.Forall₂ (R table) (final.db.rows table) (ctx.db.rows table)

def Shrunk (R : RowRelation V) (ctx final : Ctx V) : Prop :=
  ∀ table, List.SublistForall₂ (R table) (final.db.rows table) (ctx.db.rows table)

section Relations

variable {R : RowRelation V} (order : R.Preorder)
include order

theorem InPlace.of_eq {ctx final : Ctx V} (same : final.db = ctx.db) : InPlace R ctx final := by
  intro table
  rw [same]
  exact List.forall₂_same.mpr (fun row _ => order.refl table row)

theorem InPlace.trans {first second third : Ctx V} (left : InPlace R first second)
    (right : InPlace R second third) : InPlace R first third :=
  fun table => forall₂_trans (order.trans table) (right table) (left table)

theorem Shrunk.trans {first second third : Ctx V} (left : Shrunk R first second)
    (right : Shrunk R second third) : Shrunk R first third :=
  fun table => sublistForall₂_trans (order.trans table) (right table) (left table)

omit order in
theorem InPlace.shrunk {ctx final : Ctx V} (inPlace : InPlace R ctx final) :
    Shrunk R ctx final :=
  fun table => sublistForall₂_of_forall₂ (inPlace table)

/-- `row` replaces a row that the table had at `start`. -/
def Descends (R : RowRelation V) (start : DbState V) (table : Nat) (row : Row V) : Prop :=
  ∃ origin, origin ∈ start.rows table ∧ R table row origin

omit order in
theorem Shrunk.descends {start ctx : Ctx V} (shrunk : Shrunk R start ctx) {table : Nat}
    {row : Row V} (member : row ∈ ctx.db.rows table) : Descends R start.db table row :=
  mem_of_sublistForall₂ (shrunk table) row member

end Relations

theorem setRow_spec (table pos : Nat) (row : Row V) (ctx : Ctx V) :
    Ensures (setRow table pos row) ctx (fun _ final => Framed ctx final ∧
      final.db = ctx.db.setRows table ((ctx.db.rows table).set pos row)) :=
  Ensures.update ⟨⟨rfl, rfl, rfl, rfl⟩, rfl⟩

theorem InPlace.setRow {R : RowRelation V} {ctx current final : Ctx V} {table pos : Nat}
    {row : Row V} (inPlace : InPlace R ctx current)
    (written : final.db = current.db.setRows table ((current.db.rows table).set pos row))
    (fits : ∀ old, (ctx.db.rows table)[pos]? = some old → R table row old) :
    InPlace R ctx final := by
  intro other
  rw [written]
  by_cases same : other = table
  · subst same
    rw [DbState.setRows_rows_self]
    exact forall₂_set_left (inPlace other) pos row fits
  · rw [DbState.setRows_rows_of_ne _ _ same]
    exact inPlace other

variable [PgValue V]

/-- `new` is `old` with other values in some of `cols`. -/
structure AgreesOff (cols : List Nat) (new old : Row V) : Prop where
  length : new.length = old.length
  off : ∀ c, c ∉ cols → Row.col new c = Row.col old c

/-- The values SET NULL (or, with `setDefault`, SET DEFAULT) gives column `c`. -/
inductive ClearsTo (db : DbState V) (table : Nat) (setDefault : Bool) (c : Nat) : V → Prop where
  | null (absent : setDefault = false ∨
      ∀ t, db.table table = some t → (t.columns[c]?).bind Column.default = none) :
      ClearsTo db table setDefault c null
  | default {t : Table V} {d : Expr V} {rows : Rows V} {ticks : Nat} {v : V}
      (isDefault : setDefault = true) (found : db.table table = some t)
      (present : (t.columns[c]?).bind Column.default = some d) (value : d [] rows ticks = .ok v) :
      ClearsTo db table setDefault c v

structure ClearedFrom (db : DbState V) (table : Nat) (cons : Constraint V)
    (setDefault : Bool) (new old : Row V) : Prop where
  agrees : AgreesOff cons.cols new old
  values : ∀ c, c ∈ cons.cols → c < old.length → ClearsTo db table setDefault c (Row.col new c)

theorem ClearsTo.congr {db other : DbState V} {table : Nat} {setDefault : Bool} {c : Nat} {v : V}
    (same : db.tables = other.tables) (cleared : ClearsTo db table setDefault c v) :
    ClearsTo other table setDefault c v := by
  cases cleared with
  | null absent =>
    refine ClearsTo.null (absent.imp_right ?_)
    intro lacks t found
    exact lacks t ((table_congr same table).trans found)
  | default isDefault found present value =>
    exact ClearsTo.default isDefault ((table_congr same table).symm.trans found) present value

theorem ClearedFrom.congr {db other : DbState V} {table : Nat} {cons : Constraint V}
    {setDefault : Bool} {new old : Row V} (same : db.tables = other.tables)
    (cleared : ClearedFrom db table cons setDefault new old) :
    ClearedFrom other table cons setDefault new old :=
  ⟨cleared.agrees, fun c member within => (cleared.values c member within).congr same⟩

theorem defaultValue_spec (table c : Nat) (ctx : Ctx V) :
    Ensures (defaultValue table c) ctx (fun v _ => ClearsTo ctx.db table true c v) := by
  unfold defaultValue
  refine Ensures.bind (Ensures.get ?_)
  refine Ensures.bind (Ensures.lift (fun t found => ?_))
  have looked := tableOf_eq_ok found
  split
  · rename_i absent
    refine Ensures.pure (ClearsTo.null (Or.inr ?_))
    intro t' looked'
    rw [looked] at looked'
    obtain rfl := Option.some.inj looked'
    exact absent
  · rename_i d present
    unfold eval evalIn
    refine Ensures.bind (Ensures.get (Ensures.bind (Ensures.get ?_)))
    refine Ensures.bind (Ensures.lift (fun v value => ?_))
    exact Ensures.bind (Ensures.update (Ensures.pure
      (ClearsTo.default rfl looked present value)))

theorem clearedValue_spec (table : Nat) (setDefault : Bool) (c : Nat) (ctx : Ctx V) :
    Ensures (clearedValue table setDefault c) ctx (fun v final =>
      SameData ctx final ∧ ClearsTo ctx.db table setDefault c v) := by
  unfold clearedValue
  cases setDefault with
  | true => exact (defaultValue_readOnly table c ctx).and (defaultValue_spec table c ctx)
  | false => exact Ensures.pure ⟨SameData.refl ctx, ClearsTo.null (Or.inl rfl)⟩

theorem clearedRow_spec (table : Nat) (cons : Constraint V) (setDefault : Bool) (row : Row V)
    (ctx : Ctx V) :
    Ensures (clearedRow table cons setDefault row) ctx (fun new final =>
      SameData ctx final ∧ ClearedFrom ctx.db table cons setDefault new row) := by
  unfold clearedRow
  suffices general : ∀ (cols : List Nat) (row : Row V) (ctx : Ctx V),
      Ensures (cols.foldlM (fun current c => do
        let v ← clearedValue table setDefault c
        pure (current.set c v)) row) ctx (fun new final =>
          SameData ctx final ∧ AgreesOff cols new row ∧
            ∀ c, c ∈ cols → c < row.length →
              ClearsTo ctx.db table setDefault c (Row.col new c)) by
    refine (general cons.cols row ctx).weaken ?_
    rintro new final ⟨same, agrees, values⟩
    exact ⟨same, agrees, values⟩
  intro cols
  induction cols with
  | nil =>
    intro row ctx
    refine Ensures.pure ⟨SameData.refl ctx, ⟨rfl, fun _ _ => rfl⟩, ?_⟩
    intro c member
    cases member
  | cons c rest ih =>
    intro row ctx
    rw [List.foldlM_cons]
    refine Ensures.bind (Ensures.bind ((clearedValue_spec table setDefault c ctx).weaken ?_))
    rintro v middle ⟨same, cleared⟩
    refine Ensures.pure ((ih (row.set c v) middle).weaken ?_)
    rintro new final ⟨sameAgain, agrees, values⟩
    refine ⟨same.trans sameAgain, ⟨?_, ?_⟩, ?_⟩
    · rw [agrees.length, List.length_set]
    · intro other absent
      rw [List.mem_cons, not_or] at absent
      rw [agrees.off other absent.2, Row.col_set_ne row v absent.1]
    · intro other member within
      by_cases inRest : other ∈ rest
      · have later := values other inRest (by rwa [List.length_set])
        rwa [same.db] at later
      · obtain rfl : other = c := (List.mem_cons.mp member).resolve_right inRest
        rw [agrees.off other inRest, Row.col_set_eq row other v within]
        exact cleared

theorem clearRows_inPlace {R : RowRelation V} (order : R.Preorder) (table : Nat)
    (cons : Constraint V) (setDefault : Bool) (matching : List Nat) (ctx : Ctx V)
    (fits : ∀ pos, pos ∈ matching → ∀ old, (ctx.db.rows table)[pos]? = some old →
      ∀ new, ClearedFrom ctx.db table cons setDefault new old → R table new old) :
    Ensures (clearRows table cons setDefault (ctx.db.rows table) matching) ctx
      (fun _ final => Framed ctx final ∧ InPlace R ctx final) := by
  unfold clearRows
  refine Ensures.forM (fun current => Framed ctx current ∧ InPlace R ctx current)
    ⟨Framed.refl ctx, InPlace.of_eq order rfl⟩ ?_
  rintro pos member current ⟨framed, inPlace⟩
  refine Ensures.bind ((clearedRow_spec table cons setDefault _ current).weaken ?_)
  rintro new middle ⟨same, cleared⟩
  refine (setRow_spec table pos new middle).weaken ?_
  rintro _ final ⟨framedAgain, written⟩
  refine ⟨framed.trans (same.framed.trans framedAgain), ?_⟩
  rw [same.db] at written
  refine inPlace.setRow written ?_
  intro old found
  have oldEq : (ctx.db.rows table).getD pos [] = old := by
    rw [List.getD_eq_getElem?_getD, found, Option.getD_some]
  rw [oldEq] at cleared
  exact fits pos member old found new (cleared.congr framed.tables)

theorem followRows_inPlace {R : RowRelation V} (order : R.Preorder) (table : Nat)
    (cols refCols : List Nat) (new : Row V) (matching : List Nat) (ctx : Ctx V)
    (fits : ∀ pos, pos ∈ matching → ∀ old, (ctx.db.rows table)[pos]? = some old →
      R table (followedRow cols refCols new old) old) :
    Ensures (followRows table cols refCols new (ctx.db.rows table) matching) ctx
      (fun _ final => Framed ctx final ∧ InPlace R ctx final) := by
  unfold followRows
  refine Ensures.forM (fun current => Framed ctx current ∧ InPlace R ctx current)
    ⟨Framed.refl ctx, InPlace.of_eq order rfl⟩ ?_
  rintro pos member current ⟨framed, inPlace⟩
  refine (setRow_spec table pos _ current).weaken ?_
  rintro _ final ⟨framedAgain, written⟩
  refine ⟨framed.trans framedAgain, inPlace.setRow written ?_⟩
  intro old found
  have oldEq : (ctx.db.rows table).getD pos [] = old := by
    rw [List.getD_eq_getElem?_getD, found, Option.getD_some]
  rw [oldEq]
  exact fits pos member old found

/-- The row a foreign-key action makes of a referencing row.  `new` is the parent's
new image; a DELETE has none and never follows. -/
inductive Rewrites (db : DbState V) (entry : Nat × Constraint V) (refCols : List Nat)
    (new : Option (Row V)) : FkAction → Row V → Row V → Prop where
  | follow {image row : Row V} (given : new = some image) :
      Rewrites db entry refCols new .cascade (followedRow entry.2.cols refCols image row) row
  | clear {row' row : Row V} (cleared : ClearedFrom db entry.1 entry.2 false row' row) :
      Rewrites db entry refCols new .setNull row' row
  | reset {row' row : Row V} (cleared : ClearedFrom db entry.1 entry.2 true row' row) :
      Rewrites db entry refCols new .setDefault row' row

theorem followedRow_agrees (cols refCols : List Nat) (new row : Row V) :
    AgreesOff cols (followedRow cols refCols new row) row := by
  unfold followedRow
  have columns : ∀ pair, pair ∈ cols.zip refCols → pair.1 ∈ cols :=
    fun pair member => (List.of_mem_zip member).1
  generalize cols.zip refCols = pairs at columns
  induction pairs generalizing row with
  | nil => exact ⟨rfl, fun _ _ => rfl⟩
  | cons pair rest ih =>
    obtain ⟨length, off⟩ := ih (row.set pair.1 (Row.col new pair.2))
      (fun other member => columns other (List.mem_cons_of_mem pair member))
    rw [List.foldl_cons]
    refine ⟨by rw [length, List.length_set], ?_⟩
    intro c absent
    have different : c ≠ pair.1 := by
      intro same
      exact absent (same ▸ columns pair List.mem_cons_self)
    rw [off c absent, Row.col_set_ne row _ different]

theorem followedRow_values (cols refCols : List Nat) (new row : Row V) (c : Nat) :
    Row.col (followedRow cols refCols new row) c = Row.col row c ∨
      ∃ p, (c, p) ∈ cols.zip refCols ∧
        Row.col (followedRow cols refCols new row) c = Row.col new p := by
  unfold followedRow
  generalize cols.zip refCols = pairs
  induction pairs generalizing row with
  | nil => exact Or.inl rfl
  | cons pair rest ih =>
    rw [List.foldl_cons]
    rcases ih (row.set pair.1 (Row.col new pair.2)) with kept | ⟨p, member, taken⟩
    · rw [kept]
      by_cases same : c = pair.1
      · subst same
        by_cases within : pair.1 < row.length
        · exact Or.inr ⟨pair.2, List.mem_cons_self, Row.col_set_eq row pair.1 _ within⟩
        · rw [List.set_eq_of_length_le (Nat.le_of_not_lt within)]
          exact Or.inl rfl
      · exact Or.inl (Row.col_set_ne row _ same)
    · exact Or.inr ⟨p, List.mem_cons_of_mem pair member, taken⟩

theorem Rewrites.agrees {db : DbState V} {entry : Nat × Constraint V} {refCols : List Nat}
    {new : Option (Row V)} {action : FkAction} {row' row : Row V}
    (rewritten : Rewrites db entry refCols new action row' row) :
    AgreesOff entry.2.cols row' row := by
  cases rewritten with
  | follow given => exact followedRow_agrees _ _ _ _
  | clear cleared => exact cleared.agrees
  | reset cleared => exact cleared.agrees

theorem mem_matchingRows {rows : List (Row V)} {cols refCols : List Nat} {row : Row V}
    {pos : Nat} (member : pos ∈ matchingRows rows cols refCols row) {old : Row V}
    (found : rows[pos]? = some old) : old ∈ rows ∧ refersTo cols refCols row old = true := by
  obtain ⟨pair, kept, same⟩ := List.mem_map.mp member
  obtain ⟨listed, refers⟩ := List.mem_filter.mp kept
  have atPair : rows[pair.2]? = some pair.1 := List.mem_zipIdx_iff_getElem?.mp listed
  rw [same, found] at atPair
  obtain rfl := Option.some.inj atPair
  exact ⟨List.mem_of_getElem? found, refers⟩

/-- The rows of `table` that are `touched` were replaced as `rewrites` says, and no other
row of any table. -/
structure RewritesRows (table : Nat) (touched : Row V → Prop) (rewrites : Row V → Row V → Prop)
    (ctx final : Ctx V) : Prop where
  framed : Framed ctx final
  others : ∀ other, other ≠ table → final.db.rows other = ctx.db.rows other
  rows : ∀ row', row' ∈ final.db.rows table →
    (row' ∈ ctx.db.rows table ∧ ¬ touched row') ∨
      ∃ row, row ∈ ctx.db.rows table ∧ touched row ∧ rewrites row' row
  kept : ∀ row, row ∈ ctx.db.rows table → row ∈ final.db.rows table ∨
    ∃ row', row' ∈ final.db.rows table ∧ rewrites row' row

omit [PgValue V] in
theorem rewriteRows_spec (table : Nat) (rewrites : Row V → Row V → Prop) (rows : List (Row V))
    (body : Row V → Exec V (Row V)) (positions : List Nat) {start ctx : Ctx V}
    (framed : Framed start ctx)
    (step : ∀ pos, pos ∈ positions → ∀ current, Framed start current →
      Ensures (body (rows.getD pos [])) current (fun new final =>
        SameData current final ∧ rewrites new (rows.getD pos []))) :
    Ensures (positions.forM (fun i => do
        let new ← body (rows.getD i [])
        setRow table i new)) ctx (fun _ final =>
      Framed ctx final ∧ (∀ other, other ≠ table → final.db.rows other = ctx.db.rows other) ∧
        (∀ pos, pos ∉ positions → (final.db.rows table)[pos]? = (ctx.db.rows table)[pos]?) ∧
        (∀ pos, pos ∈ positions → ∀ row', (final.db.rows table)[pos]? = some row' →
          rewrites row' (rows.getD pos [])) ∧
        (final.db.rows table).length = (ctx.db.rows table).length) := by
  induction positions generalizing ctx with
  | nil =>
    refine Ensures.pure ⟨Framed.refl ctx, fun _ _ => rfl, fun _ _ => rfl, ?_, rfl⟩
    intro pos member
    cases member
  | cons pos rest ih =>
    refine Ensures.bind (Ensures.bind ((step pos List.mem_cons_self ctx framed).weaken ?_))
    rintro new middle ⟨same, rewritten⟩
    refine (setRow_spec table pos new middle).weaken ?_
    rintro _ wrote ⟨framedWrite, written⟩
    have framedNow : Framed ctx wrote := same.framed.trans framedWrite
    rw [same.db] at written
    refine (ih (framed.trans framedNow)
      (fun other member => step other (List.mem_cons_of_mem pos member))).weaken ?_
    rintro _ final ⟨framedRest, others, kept, replaced, length⟩
    refine ⟨framedNow.trans framedRest, ?_, ?_, ?_, ?_⟩
    · intro other different
      rw [others other different, written, DbState.setRows_rows_of_ne _ _ different]
    · intro other absent
      rw [List.mem_cons, not_or] at absent
      rw [kept other absent.2, written, DbState.setRows_rows_self,
        List.getElem?_set_ne (Ne.symm absent.1)]
    · intro other member row' found
      by_cases later : other ∈ rest
      · exact replaced other later row' found
      · obtain rfl : other = pos := (List.mem_cons.mp member).resolve_right later
        rw [kept other later, written, DbState.setRows_rows_self, List.getElem?_set_self'] at found
        obtain ⟨old, _, isNew⟩ := Option.map_eq_some_iff.mp found
        obtain rfl : new = row' := isNew
        exact rewritten
    · rw [length, written, DbState.setRows_rows_self, List.length_set]

theorem mem_matchingRows_iff {rows : List (Row V)} {cols refCols : List Nat} {row : Row V}
    {pos : Nat} {old : Row V} (found : rows[pos]? = some old) :
    pos ∈ matchingRows rows cols refCols row ↔ refersTo cols refCols row old = true := by
  constructor
  · intro member
    exact (mem_matchingRows member found).2
  · intro refers
    refine List.mem_map.mpr ⟨(old, pos), List.mem_filter.mpr ⟨?_, refers⟩, rfl⟩
    exact List.mem_zipIdx_iff_getElem?.mpr found

theorem mem_matching {rows : List (Row V)} {cols refCols : List Nat} {row d : Row V} :
    d ∈ (matchingRows rows cols refCols row).map (fun i => rows.getD i []) ↔
      d ∈ rows ∧ refersTo cols refCols row d = true := by
  constructor
  · intro member
    obtain ⟨pos, matched, rfl⟩ := List.mem_map.mp member
    obtain ⟨pair, kept, rfl⟩ := List.mem_map.mp matched
    obtain ⟨inRows, refers⟩ := List.mem_filter.mp kept
    have atPos := List.mem_zipIdx_iff_getElem?.mp inRows
    have isRow : rows.getD pair.2 [] = pair.1 := by
      rw [List.getD_eq_getElem?_getD, atPos, Option.getD_some]
    rw [isRow]
    exact ⟨List.mem_of_getElem? atPos, refers⟩
  · intro found
    obtain ⟨pos, atPos⟩ := List.getElem?_of_mem found.1
    refine List.mem_map.mpr ⟨pos, (mem_matchingRows_iff atPos).mpr found.2, ?_⟩
    rw [List.getD_eq_getElem?_getD, atPos, Option.getD_some]

theorem rewriteMatching_spec (table : Nat) (cols refCols : List Nat) (parent : Row V)
    (rewrites : Row V → Row V → Prop) (body : Row V → Exec V (Row V)) (ctx : Ctx V)
    (step : ∀ row current, Framed ctx current →
      Ensures (body row) current (fun new final => SameData current final ∧ rewrites new row)) :
    Ensures ((matchingRows (ctx.db.rows table) cols refCols parent).forM (fun i => do
        let new ← body ((ctx.db.rows table).getD i [])
        setRow table i new)) ctx
      (fun _ final => RewritesRows table (fun row => refersTo cols refCols parent row = true)
        rewrites ctx final) := by
  refine (rewriteRows_spec table rewrites (ctx.db.rows table) body _ (Framed.refl ctx)
    (fun pos _ current framed => step _ current framed)).weaken ?_
  rintro _ final ⟨framed, others, kept, replaced, length⟩
  have changed : ∀ pos row row', pos ∈ matchingRows (ctx.db.rows table) cols refCols parent →
      (ctx.db.rows table)[pos]? = some row → (final.db.rows table)[pos]? = some row' →
        rewrites row' row := by
    intro pos row row' matched found found'
    have rewritten := replaced pos matched row' found'
    rwa [List.getD_eq_getElem?_getD, found, Option.getD_some] at rewritten
  refine ⟨framed, others, ?_, ?_⟩
  · intro row' stored
    obtain ⟨pos, found'⟩ := List.getElem?_of_mem stored
    have within : pos < (ctx.db.rows table).length := by
      rw [← length]
      exact (List.getElem?_eq_some_iff.mp found').1
    have found : (ctx.db.rows table)[pos]? = some ((ctx.db.rows table)[pos]) :=
      List.getElem?_eq_getElem within
    by_cases matched : pos ∈ matchingRows (ctx.db.rows table) cols refCols parent
    · exact Or.inr ⟨_, List.getElem_mem within, (mem_matchingRows_iff found).mp matched,
        changed pos _ row' matched found found'⟩
    · rw [kept pos matched] at found'
      exact Or.inl ⟨List.mem_of_getElem? found',
        fun refers => matched ((mem_matchingRows_iff found').mpr refers)⟩
  · intro row stored
    obtain ⟨pos, found⟩ := List.getElem?_of_mem stored
    have within : pos < (final.db.rows table).length := by
      rw [length]
      exact (List.getElem?_eq_some_iff.mp found).1
    have found' : (final.db.rows table)[pos]? = some ((final.db.rows table)[pos]) :=
      List.getElem?_eq_getElem within
    by_cases matched : pos ∈ matchingRows (ctx.db.rows table) cols refCols parent
    · exact Or.inr ⟨_, List.getElem_mem within, changed pos row _ matched found found'⟩
    · rw [← kept pos matched] at found
      exact Or.inl (List.mem_of_getElem? found)

theorem clearRows_spec (table : Nat) (cons : Constraint V) (setDefault : Bool)
    (refCols : List Nat) (parent : Row V) (ctx : Ctx V) :
    Ensures (clearRows table cons setDefault (ctx.db.rows table)
        (matchingRows (ctx.db.rows table) cons.cols refCols parent)) ctx
      (fun _ final => RewritesRows table (fun row => refersTo cons.cols refCols parent row = true)
        (ClearedFrom ctx.db table cons setDefault) ctx final) := by
  refine rewriteMatching_spec table cons.cols refCols parent _
    (clearedRow table cons setDefault) ctx ?_
  intro row current framed
  refine (clearedRow_spec table cons setDefault row current).weaken ?_
  rintro new final ⟨same, cleared⟩
  exact ⟨same, cleared.congr framed.tables⟩

theorem followRows_spec (table : Nat) (cols refCols : List Nat) (old new : Row V) (ctx : Ctx V) :
    Ensures (followRows table cols refCols new (ctx.db.rows table)
        (matchingRows (ctx.db.rows table) cols refCols old)) ctx
      (fun _ final => RewritesRows table (fun row => refersTo cols refCols old row = true)
        (fun row' row => row' = followedRow cols refCols new row) ctx final) :=
  rewriteMatching_spec table cols refCols old _
    (fun row => pure (followedRow cols refCols new row)) ctx
    (fun _ current _ => Ensures.pure ⟨SameData.refl current, rfl⟩)

omit [PgValue V] in
theorem RewritesRows.of_none {table : Nat} {touched : Row V → Prop}
    {rewrites : Row V → Row V → Prop} (ctx : Ctx V)
    (none' : ∀ row, row ∈ ctx.db.rows table → ¬ touched row) :
    RewritesRows table touched rewrites ctx ctx :=
  ⟨Framed.refl ctx, fun _ _ => rfl, fun row stored => Or.inl ⟨stored, none' row stored⟩,
    fun _ stored => Or.inl stored⟩

omit [PgValue V] in
theorem RewritesRows.imp {table : Nat} {touched : Row V → Prop}
    {rewrites weaker : Row V → Row V → Prop} {ctx final : Ctx V}
    (rewritten : RewritesRows table touched rewrites ctx final)
    (weakens : ∀ row' row, rewrites row' row → weaker row' row) :
    RewritesRows table touched weaker ctx final := by
  refine ⟨rewritten.framed, rewritten.others, ?_, ?_⟩
  · intro row' stored
    rcases rewritten.rows row' stored with kept | ⟨row, was, touched, changed⟩
    · exact Or.inl kept
    · exact Or.inr ⟨row, was, touched, weakens row' row changed⟩
  · intro row stored
    rcases rewritten.kept row stored with kept | ⟨row', now, changed⟩
    · exact Or.inl kept
    · exact Or.inr ⟨row', now, weakens row' row changed⟩

theorem matchingRows_isEmpty {rows : List (Row V)} {cols refCols : List Nat} {parent : Row V}
    (empty : (matchingRows rows cols refCols parent).isEmpty = true) :
    ∀ row, row ∈ rows → ¬ refersTo cols refCols parent row = true := by
  intro row stored refers
  obtain ⟨pos, found⟩ := List.getElem?_of_mem stored
  have member := (mem_matchingRows_iff found).mpr refers
  rw [List.isEmpty_iff.mp empty] at member
  cases member

theorem cascadeUpdateKey_spec (table : Nat) (old new : Row V) {entry : Nat × Constraint V}
    {refTable : Nat} {refCols : List Nat} {onDelete onUpdate : FkAction}
    (kind : entry.2.kind = .foreignKey refTable refCols onDelete onUpdate) (ctx : Ctx V) :
    Ensures (cascadeUpdateKey table old new entry) ctx (fun _ final =>
      (keyUnchanged refCols old new = true ∧ final = ctx) ∨
        (keyUnchanged refCols old new = false ∧
          RewritesRows entry.1 (fun row => refersTo entry.2.cols refCols old row = true)
            (Rewrites ctx.db entry refCols (some new) onUpdate) ctx final)) := by
  simp only [cascadeUpdateKey, kind]
  refine Ensures.ite (fun unchanged => Ensures.pure (Or.inl ⟨unchanged, rfl⟩)) (fun moved => ?_)
  have moved : keyUnchanged refCols old new = false := by simpa using moved
  refine Ensures.bind (Ensures.get ?_)
  refine Ensures.bind (Ensures.lift (fun child _ => ?_))
  refine Ensures.ite (fun empty => ?_) (fun _ => ?_)
  · exact Ensures.pure (Or.inr ⟨moved, .of_none ctx (matchingRows_isEmpty empty)⟩)
  · cases onUpdate with
    | cascade =>
      refine (followRows_spec entry.1 entry.2.cols refCols old new ctx).weaken ?_
      intro _ final rewritten
      refine Or.inr ⟨moved, rewritten.imp ?_⟩
      rintro row' row rfl
      exact Rewrites.follow rfl
    | setNull =>
      refine (clearRows_spec entry.1 entry.2 false refCols old ctx).weaken ?_
      intro _ final rewritten
      exact Or.inr ⟨moved, rewritten.imp (fun _ _ cleared => Rewrites.clear cleared)⟩
    | setDefault =>
      refine (clearRows_spec entry.1 entry.2 true refCols old ctx).weaken ?_
      intro _ final rewritten
      exact Or.inr ⟨moved, rewritten.imp (fun _ _ cleared => Rewrites.reset cleared)⟩
    | noAction => exact Ensures.bind (Ensures.lift (fun parent _ => Ensures.throw))
    | restrict => exact Ensures.bind (Ensures.lift (fun parent _ => Ensures.throw))

/-- What the ON UPDATE action of `entry` does to a row that refers to `old` fits `R`. -/
def UpdateFits (R : RowRelation V) (start : DbState V) (old new : Row V)
    (entry : Nat × Constraint V) : Prop :=
  ∀ refTable refCols onDelete onUpdate,
    entry.2.kind = .foreignKey refTable refCols onDelete onUpdate →
      keyUnchanged refCols old new = false →
        ∀ row, Descends R start entry.1 row → refersTo entry.2.cols refCols old row = true →
          ∀ row', Rewrites start entry refCols (some new) onUpdate row' row → R entry.1 row' row

/-- What the ON DELETE action of `entry` does to a row with its key set fits `R`. -/
def DeleteFits (R : RowRelation V) (start : DbState V) (entry : Nat × Constraint V) : Prop :=
  ∀ refTable refCols onDelete onUpdate,
    entry.2.kind = .foreignKey refTable refCols onDelete onUpdate →
      ∀ gone row, Descends R start entry.1 row →
        refersTo entry.2.cols refCols gone row = true →
          ∀ row', Rewrites start entry refCols none onDelete row' row → R entry.1 row' row

section Actions

variable {R : RowRelation V} (order : R.Preorder) {start : Ctx V}
include order

theorem clearRows_fits {ctx : Ctx V} (framed : Framed start ctx) (shrunk : Shrunk R start ctx)
    (table : Nat) (cons : Constraint V) (setDefault : Bool) (refCols : List Nat)
    (parent : Row V)
    (fits : ∀ row, Descends R start.db table row → refersTo cons.cols refCols parent row = true →
      ∀ row', ClearedFrom start.db table cons setDefault row' row → R table row' row) :
    Ensures (clearRows table cons setDefault (ctx.db.rows table)
        (matchingRows (ctx.db.rows table) cons.cols refCols parent)) ctx
      (fun _ final => Framed ctx final ∧ InPlace R ctx final) := by
  refine clearRows_inPlace order table cons setDefault _ ctx ?_
  intro pos member old found new cleared
  obtain ⟨stored, refers⟩ := mem_matchingRows member found
  exact fits old (shrunk.descends stored) refers new (cleared.congr framed.tables)

theorem cascadeUpdateKey_inPlace {ctx : Ctx V} (framed : Framed start ctx)
    (inPlace : InPlace R start ctx) (table : Nat) (old new : Row V)
    (entry : Nat × Constraint V) (fits : UpdateFits R start.db old new entry) :
    Ensures (cascadeUpdateKey table old new entry) ctx
      (fun _ final => Framed start final ∧ InPlace R start final) := by
  unfold cascadeUpdateKey
  have unchanged : Framed start ctx ∧ InPlace R start ctx := ⟨framed, inPlace⟩
  have onward : ∀ (result : PUnit) (final : Ctx V), Framed ctx final ∧ InPlace R ctx final →
      Framed start final ∧ InPlace R start final :=
    fun _ _ later => ⟨framed.trans later.1, inPlace.trans order later.2⟩
  split
  · rename_i refTable refCols onDelete onUpdate kind
    refine Ensures.ite (fun _ => Ensures.pure unchanged) (fun moved => ?_)
    have applies := fits refTable refCols onDelete onUpdate kind (Bool.not_eq_true _ ▸ moved)
    refine Ensures.bind (Ensures.get ?_)
    refine Ensures.bind (Ensures.lift (fun child _ => ?_))
    refine Ensures.ite (fun _ => Ensures.pure unchanged) (fun _ => ?_)
    cases onUpdate with
    | cascade =>
      refine (followRows_inPlace order entry.1 entry.2.cols refCols new _ ctx ?_).weaken onward
      intro pos member row found
      obtain ⟨stored, refers⟩ := mem_matchingRows member found
      exact applies row (inPlace.shrunk.descends stored) refers _ (Rewrites.follow rfl)
    | setNull =>
      exact (clearRows_fits order framed inPlace.shrunk entry.1 entry.2 false refCols old
        (fun row descends refers row' cleared =>
          applies row descends refers row' (Rewrites.clear cleared))).weaken onward
    | setDefault =>
      exact (clearRows_fits order framed inPlace.shrunk entry.1 entry.2 true refCols old
        (fun row descends refers row' cleared =>
          applies row descends refers row' (Rewrites.reset cleared))).weaken onward
    | noAction => exact Ensures.bind (Ensures.lift (fun parent _ => Ensures.throw))
    | restrict => exact Ensures.bind (Ensures.lift (fun parent _ => Ensures.throw))
  · exact Ensures.pure unchanged

theorem cascadeUpdate_inPlace {ctx : Ctx V} (framed : Framed start ctx)
    (inPlace : InPlace R start ctx) (table : Nat) (old new : Row V)
    (fits : ∀ entry, entry ∈ referencing start.db table → UpdateFits R start.db old new entry) :
    Ensures (cascadeUpdate table old new) ctx
      (fun _ final => Framed start final ∧ InPlace R start final) := by
  unfold cascadeUpdate
  refine Ensures.bind (Ensures.get ?_)
  refine Ensures.forM (fun current => Framed start current ∧ InPlace R start current)
    ⟨framed, inPlace⟩ ?_
  rintro entry member current ⟨framedNow, inPlaceNow⟩
  rw [referencing_congr framed.tables] at member
  exact cascadeUpdateKey_inPlace order framedNow inPlaceNow table old new entry
    (fits entry member)

/-- The tables an ON DELETE CASCADE starting at `table` may delete from. -/
inductive CascadeReach (db : DbState V) (table : Nat) : Nat → Prop where
  | self : CascadeReach db table table
  | step {reached : Nat} {entry : Nat × Constraint V} {refTable : Nat} {refCols : List Nat}
      {onUpdate : FkAction} (before : CascadeReach db table reached)
      (refers : entry ∈ referencing db reached)
      (kind : entry.2.kind = .foreignKey refTable refCols .cascade onUpdate) :
      CascadeReach db table entry.1

omit order [PgValue V] in
theorem CascadeReach.trans {db : DbState V} {first second third : Nat}
    (left : CascadeReach db first second) (right : CascadeReach db second third) :
    CascadeReach db first third := by
  induction right with
  | self => exact left
  | step _ refers kind ih => exact CascadeReach.step ih refers kind

theorem removeEqual_shrunk (table : Nat) (doomed : List (Row V)) (ctx : Ctx V) :
    Ensures (removeEqual table doomed) ctx
      (fun _ final => Framed ctx final ∧ Shrunk R ctx final) := by
  refine Ensures.update ⟨⟨rfl, rfl, rfl, rfl⟩, ?_⟩
  intro other
  by_cases same : other = table
  · subst same
    rw [DbState.setRows_rows_self]
    exact sublistForall₂_filter (order.refl other) _ _
  · rw [DbState.setRows_rows_of_ne _ _ same]
    exact (InPlace.of_eq order rfl).shrunk other

theorem cascadeDeleteKey_shrunk {ctx : Ctx V} (framed : Framed start ctx)
    (shrunk : Shrunk R start ctx) (deleteRow : Nat → Row V → Exec V Unit) (table : Nat)
    (row : Row V) (entry : Nat × Constraint V) (fits : DeleteFits R start.db entry)
    (deletes : ∀ refTable refCols onUpdate,
      entry.2.kind = .foreignKey refTable refCols .cascade onUpdate →
        ∀ current doomed, Framed start current → Shrunk R start current →
          Ensures (deleteRow entry.1 doomed) current
            (fun _ final => Framed start final ∧ Shrunk R start final)) :
    Ensures (cascadeDeleteKey deleteRow table row entry) ctx
      (fun _ final => Framed start final ∧ Shrunk R start final) := by
  unfold cascadeDeleteKey
  have unchanged : Framed start ctx ∧ Shrunk R start ctx := ⟨framed, shrunk⟩
  have onward : ∀ (result : PUnit) (final : Ctx V), Framed ctx final ∧ InPlace R ctx final →
      Framed start final ∧ Shrunk R start final :=
    fun _ _ later => ⟨framed.trans later.1, shrunk.trans order later.2.shrunk⟩
  split
  · rename_i refTable refCols onDelete onUpdate kind
    have applies := fits refTable refCols onDelete onUpdate kind row
    refine Ensures.bind (Ensures.get ?_)
    refine Ensures.bind (Ensures.lift (fun child _ => ?_))
    refine Ensures.ite (fun _ => Ensures.pure unchanged) (fun _ => ?_)
    refine Ensures.ite (fun _ => Ensures.pure unchanged) (fun _ => ?_)
    cases onDelete with
    | cascade =>
      refine Ensures.bind ((Ensures.forM
        (fun current => Framed start current ∧ Shrunk R start current) unchanged ?_).weaken ?_)
      · rintro doomed _ current ⟨framedNow, shrunkNow⟩
        exact deletes refTable refCols onUpdate kind current doomed framedNow shrunkNow
      · rintro _ middle ⟨framedNow, shrunkNow⟩
        refine (removeEqual_shrunk order entry.1 _ middle).weaken ?_
        rintro _ final ⟨framedAgain, shrunkAgain⟩
        exact ⟨framedNow.trans framedAgain, shrunkNow.trans order shrunkAgain⟩
    | setNull =>
      exact (clearRows_fits order framed shrunk entry.1 entry.2 false refCols row
        (fun old descends refers new cleared =>
          applies old descends refers new (Rewrites.clear cleared))).weaken onward
    | setDefault =>
      exact (clearRows_fits order framed shrunk entry.1 entry.2 true refCols row
        (fun old descends refers new cleared =>
          applies old descends refers new (Rewrites.reset cleared))).weaken onward
    | noAction => exact Ensures.bind (Ensures.lift (fun parent _ => Ensures.throw))
    | restrict => exact Ensures.bind (Ensures.lift (fun parent _ => Ensures.throw))
  · exact Ensures.pure unchanged

theorem cascadeDelete_shrunk (depth table : Nat) (row : Row V)
    (fits : ∀ reached, CascadeReach start.db table reached →
      ∀ entry, entry ∈ referencing start.db reached → DeleteFits R start.db entry)
    {ctx : Ctx V} (framed : Framed start ctx) (shrunk : Shrunk R start ctx) :
    Ensures (cascadeDelete depth table row) ctx
      (fun _ final => Framed start final ∧ Shrunk R start final) := by
  induction depth generalizing table row ctx with
  | zero => exact Ensures.throw
  | succ depth ih =>
    unfold cascadeDelete
    refine Ensures.bind (Ensures.get ?_)
    refine Ensures.forM (fun current => Framed start current ∧ Shrunk R start current)
      ⟨framed, shrunk⟩ ?_
    rintro entry member current ⟨framedNow, shrunkNow⟩
    rw [referencing_congr framed.tables] at member
    refine cascadeDeleteKey_shrunk order framedNow shrunkNow (cascadeDelete depth) table row
      entry (fits table CascadeReach.self entry member) ?_
    intro refTable refCols onUpdate kind current' doomed framed' shrunk'
    refine ih entry.1 doomed ?_ framed' shrunk'
    intro reached onward
    exact fits reached
      ((CascadeReach.step CascadeReach.self member kind).trans onward)

end Actions

end NoidaDb.Postgres
