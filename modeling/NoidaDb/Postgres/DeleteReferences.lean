/-
What a DELETE keeps of referential integrity.

Cascaded rows are found by their value and the rows of the statement itself by their position, so
no cascade may come back to the table, and no row may be both deleted by a cascade and rewritten.
-/

import NoidaDb.Postgres.UpdateReferences

namespace NoidaDb.Postgres

open PgValue
open NoidaDb.Lib

variable {V : Type} [PgValue V]

section Doomed

variable (db : DbState V) (table : Nat) (seeds : Row V → Prop)

/-- The rows that a DELETE of the rows `seeds` of `table` removes. -/
inductive Doomed : Nat → Row V → Prop where
  | seed {row : Row V} (planned : seeds row) : Doomed table row
  | cascade {parent : Nat} {p row : Row V} {entry : Nat × Constraint V} {refCols : List Nat}
      {onUpdate : FkAction} (doomed : Doomed parent p) (listed : entry ∈ referencing db parent)
      (kind : entry.2.kind = .foreignKey parent refCols .cascade onUpdate)
      (stored : row ∈ db.rows entry.1) (refers : refersTo entry.2.cols refCols p row = true) :
      Doomed entry.1 row

structure Trails (entry : Nat × Constraint V) (action : FkAction) (row : Row V) : Prop where
  stored : row ∈ db.rows entry.1
  found : ∃ parent p refCols onUpdate, Doomed db table seeds parent p ∧
    entry ∈ referencing db parent ∧
    entry.2.kind = .foreignKey parent refCols action onUpdate ∧
      refersTo entry.2.cols refCols p row = true

def Cascaded (child : Nat) (row : Row V) : Prop :=
  ∃ entry, entry.1 = child ∧ Trails db table seeds entry .cascade row

/-- No cascade reaches the table itself, and a row that an action rewrites is not
deleted by another one and is rewritten as `RewriteFits` says. -/
structure DeleteKeepsReferences : Prop where
  away : ∀ row, ¬ Cascaded db table seeds table row
  rewrites : ∀ entry action row, action.rewrites (none : Option (Row V)) = true →
    Trails db table seeds entry action row →
      ¬ Cascaded db table seeds entry.1 row ∧ RewriteFits db entry action

end Doomed

variable {db : DbState V} {seeds : Row V → Prop} {row : Row V}

theorem Cascaded.doomed {table : Nat} {child : Nat} (cascaded : Cascaded db table seeds child row) :
    Doomed db table seeds child row := by
  obtain ⟨entry, rfl, stored, parent, p, refCols, onUpdate, doomed, listed, kind, refers⟩ := cascaded
  exact .cascade doomed listed kind stored refers

section Trim

variable (db : DbState V) (table : Nat) (seeds : Row V → Prop)

/-- Columns are cleared by keys that found a row to clear; rows to be deleted stay as
they are. -/
def Cleared : RowRelation V := fun child new old =>
  new.length = old.length ∧
    (∀ c, Row.col new c = Row.col old c ∨ (isNull (Row.col new c) = true ∧
      ∃ entry action row, action.rewrites (none : Option (Row V)) = true ∧
        Trails db table seeds entry action row ∧ entry.1 = child ∧ c ∈ entry.2.cols)) ∧
    (Cascaded db table seeds child old → new = old)

theorem cleared_preorder : (Cleared db table seeds).Preorder := by
  constructor
  · intro child row
    exact ⟨rfl, fun _ => Or.inl rfl, fun _ => rfl⟩
  · rintro child first second third ⟨leftLength, left, leftKept⟩ ⟨rightLength, right, rightKept⟩
    refine ⟨leftLength.trans rightLength, ?_, ?_⟩
    · intro c
      rcases left c with same | changed
      · rcases right c with sameAgain | ⟨isNull', entry⟩
        · exact Or.inl (same.trans sameAgain)
        · rw [same]
          exact Or.inr ⟨isNull', entry⟩
      · exact Or.inr changed
    · intro cascaded
      have second := rightKept cascaded
      rw [second] at leftKept
      rw [leftKept cascaded]

structure Trim (ctx final : Ctx V) : Prop where
  framed : Framed ctx final
  rows : ∀ child row', row' ∈ final.db.rows child →
    ∃ row, row ∈ ctx.db.rows child ∧ Cleared db table seeds child row' row
  own : List.Forall₂ (Cleared db table seeds table) (final.db.rows table) (ctx.db.rows table)

variable {db table seeds}

theorem Trim.of_inPlace {ctx final : Ctx V} (framed : Framed ctx final)
    (inPlace : InPlace (Cleared db table seeds) ctx final) : Trim db table seeds ctx final :=
  ⟨framed, fun _ _ stored => inPlace.shrunk.descends stored, inPlace table⟩

theorem Trim.refl (ctx : Ctx V) : Trim db table seeds ctx ctx :=
  .of_inPlace (Framed.refl ctx) (InPlace.of_eq (cleared_preorder db table seeds) rfl)

theorem Trim.trans {first second third : Ctx V} (left : Trim db table seeds first second)
    (right : Trim db table seeds second third) : Trim db table seeds first third := by
  have order := cleared_preorder db table seeds
  refine ⟨left.framed.trans right.framed, ?_, forall₂_trans (order.trans table) right.own left.own⟩
  intro child row'' stored
  obtain ⟨row', was, cleared⟩ := right.rows child row'' stored
  obtain ⟨row, before, clearedBefore⟩ := left.rows child row' was
  exact ⟨row, before, order.trans child row'' row' row cleared clearedBefore⟩

theorem Cleared.refers {child : Nat} {row' row p : Row V} {cols refCols : List Nat}
    (cleared : Cleared db table seeds child row' row)
    (refers : refersTo cols refCols p row' = true) : refersTo cols refCols p row = true := by
  refine refersTo_child ?_ refers
  intro c _ present
  rcases cleared.2.1 c with same | ⟨isNull', _⟩
  · exact same
  · rw [present] at isNull'
    cases isNull'

end Trim

/-- No row refers to `p` through `entry`. -/
def Unreferred (db : DbState V) (entry : Nat × Constraint V) (refCols : List Nat) (p : Row V) :
    Prop :=
  ∀ row, row ∈ db.rows entry.1 → ¬ refersTo entry.2.cols refCols p row = true

theorem Unreferred.trim {table : Nat} {ctx final : Ctx V} {entry : Nat × Constraint V}
    {refCols : List Nat} {p : Row V} (unreferred : Unreferred ctx.db entry refCols p)
    (trim : Trim db table seeds ctx final) : Unreferred final.db entry refCols p := by
  intro row' stored refers
  obtain ⟨row, was, cleared⟩ := trim.rows entry.1 row' stored
  exact unreferred row was (cleared.refers refers)

/-- The outcome of the ON DELETE action of `entry` for the deleted row `p`. -/
structure Acted (start : DbState V) (table : Nat) (seeds : Row V → Prop)
    (entry : Nat × Constraint V) (refCols : List Nat) (p : Row V) (ctx final : Ctx V) : Prop where
  trim : Trim start table seeds ctx final
  intact : Intact final.db
  unreferred : entry.2.mayDefer = false → Unreferred final.db entry refCols p

section Actions

variable {start : Ctx V} {table : Nat} {seeds : Row V → Prop} {ctx : Ctx V} {parent : Nat}
  {p : Row V} {entry : Nat × Constraint V} {refCols : List Nat} {onUpdate : FkAction}

theorem Trim.trails {action : FkAction} (trim : Trim start.db table seeds start ctx)
    (doomed : Doomed start.db table seeds parent p)
    (listed : entry ∈ referencing start.db parent)
    (kind : entry.2.kind = .foreignKey parent refCols action onUpdate) {row : Row V}
    (stored : row ∈ ctx.db.rows entry.1) (refers : refersTo entry.2.cols refCols p row = true) :
    ∃ origin, Cleared start.db table seeds entry.1 row origin ∧
      Trails start.db table seeds entry action origin := by
  obtain ⟨origin, was, cleared⟩ := trim.rows entry.1 row stored
  exact ⟨origin, cleared, was, parent, p, refCols, onUpdate, doomed, listed, kind,
    cleared.refers refers⟩

theorem Trim.cascaded (trim : Trim start.db table seeds start ctx)
    (doomed : Doomed start.db table seeds parent p)
    (listed : entry ∈ referencing start.db parent)
    (kind : entry.2.kind = .foreignKey parent refCols .cascade onUpdate) {row : Row V}
    (stored : row ∈ ctx.db.rows entry.1) (refers : refersTo entry.2.cols refCols p row = true) :
    Cascaded start.db table seeds entry.1 row := by
  obtain ⟨origin, cleared, trails⟩ := trim.trails doomed listed kind stored refers
  have cascaded : Cascaded start.db table seeds entry.1 origin := ⟨entry, rfl, trails⟩
  rw [cleared.2.2 cascaded]
  exact cascaded

theorem Intact.cleared [TransitiveCmp V]
    {final : Ctx V} {touched : Row V → Prop} {rewrites : Row V → Row V → Prop}
    (intact : Intact ctx.db)
    (unreferenced : ∀ key refCols, IsKey ctx.db key entry.1 refCols → key.2.mayDefer = false →
      ∀ c, c ∈ entry.2.cols → c ∉ refCols)
    (rewritten : RewritesRows entry.1 touched rewrites ctx final)
    (nulls : ∀ row' row, rewrites row' row → AgreesOff entry.2.cols row' row ∧
      ∀ c, c ∈ entry.2.cols → isNull (Row.col row' c) = true) : Intact final.db := by
  intro key parent' refCols' isKeyLast immediate row' stored isSet
  have isKey := isKeyLast.congr rewritten.framed.tables.symm
  -- A set key was set before, with the same values.
  have before : ∃ row, row ∈ ctx.db.rows key.1 ∧
      ∀ c, c ∈ key.2.cols → Row.col row' c = Row.col row c := by
    by_cases here : key.1 = entry.1
    · rw [here] at stored ⊢
      rcases rewritten.rows row' stored with ⟨kept, _⟩ | ⟨row, was, _, changed⟩
      · exact ⟨row', kept, fun _ _ => rfl⟩
      · obtain ⟨agrees, cleared⟩ := nulls row' row changed
        refine ⟨row, was, ?_⟩
        intro c inKey
        apply agrees.off
        intro inEntry
        have present := isSet c inKey
        rw [cleared c inEntry] at present
        cases present
    · rw [rewritten.others key.1 here] at stored
      exact ⟨row', stored, fun _ _ => rfl⟩
  obtain ⟨row, was, same⟩ := before
  have wasSet : IsSet key.2.cols row := by
    intro c inKey
    rw [← same c inKey]
    exact isSet c inKey
  obtain ⟨q, found, refers⟩ := intact key parent' refCols' isKey immediate row was wasSet
  have refersNow : refersTo key.2.cols refCols' q row' = true :=
    refersTo_child (fun c inKey _ => (same c inKey).symm) refers
  by_cases here : parent' = entry.1
  · subst here
    rcases rewritten.kept q found with kept | ⟨q', now, changed⟩
    · exact ⟨q, kept, refersNow⟩
    · refine ⟨q', now, refersTo_parent (keyUnchanged_of_eq ?_) refersNow⟩
      intro c referenced
      have untouched : c ∉ entry.2.cols := fun inEntry =>
        unreferenced key refCols' isKey immediate c inEntry referenced
      exact ((nulls q' q changed).1.off c untouched).symm
  · rw [← rewritten.others parent' here] at found
    exact ⟨q, found, refersNow⟩

theorem Acted.clear [TransitiveCmp V] (keeps : DeleteKeepsReferences start.db table seeds)
    (formedKeys : KeysFormed start.db) (trim : Trim start.db table seeds start ctx)
    (intact : Intact ctx.db) (doomed : Doomed start.db table seeds parent p)
    (listed : entry ∈ referencing start.db parent) {action : FkAction} {setDefault : Bool}
    (rewriting : action.rewrites (none : Option (Row V)) = true)
    (kind : entry.2.kind = .foreignKey parent refCols action onUpdate)
    (asRewrite : ∀ row' row, ClearedFrom ctx.db entry.1 entry.2 setDefault row' row →
      Rewrites start.db entry refCols none action row' row)
    (found : ∃ row, row ∈ ctx.db.rows entry.1 ∧ refersTo entry.2.cols refCols p row = true) :
    Ensures (clearRows entry.1 entry.2 setDefault (ctx.db.rows entry.1)
        (matchingRows (ctx.db.rows entry.1) entry.2.cols refCols p)) ctx
      (fun _ final => Acted start.db table seeds entry refCols p ctx final) := by
  have fits : RewriteFits start.db entry action := by
    obtain ⟨row, stored, refers⟩ := found
    obtain ⟨origin, _, trails⟩ := trim.trails doomed listed kind stored refers
    exact (keeps.rewrites entry action origin rewriting trails).2
  have nulls : ∀ row' row, ClearedFrom ctx.db entry.1 entry.2 setDefault row' row →
      AgreesOff entry.2.cols row' row ∧
        ∀ c, c ∈ entry.2.cols → isNull (Row.col row' c) = true := by
    intro row' row cleared
    refine ⟨cleared.agrees, ?_⟩
    rcases fits.cases (asRewrite row' row cleared) with allNull | ⟨_, image, given, _⟩
    · exact allNull
    · cases given
  have inPlace := clearRows_inPlace (cleared_preorder start.db table seeds) entry.1 entry.2
    setDefault (matchingRows (ctx.db.rows entry.1) entry.2.cols refCols p) ctx ?_
  · refine (inPlace.and (clearRows_spec entry.1 entry.2 setDefault refCols p ctx)).weaken ?_
    rintro _ final ⟨⟨framed, related⟩, rewritten⟩
    refine ⟨.of_inPlace framed related, ?_, ?_⟩
    · refine intact.cleared ?_ rewritten nulls
      intro key refCols' isKey
      exact fits.unreferenced key refCols' (isKey.congr trim.framed.tables.symm)
    · intro _ row' stored refers
      rcases rewritten.rows row' stored with ⟨_, missed⟩ | ⟨row, _, _, cleared⟩
      · exact missed refers
      · obtain ⟨someCol, sameLength⟩ := formedKeys entry parent refCols (.of_listed listed kind)
        obtain ⟨c, rest, colsEq⟩ := List.exists_cons_of_ne_nil someCol
        obtain ⟨q, later, refEq⟩ : ∃ q later, refCols = q :: later := by
          cases refCols with
          | nil => simp [colsEq] at sameLength
          | cons q later => exact ⟨q, later, rfl⟩
        have first := (refersTo_iff.mp refers) (c, q) (by simp [colsEq, refEq])
        have cleared := (nulls row' row cleared).2 c (by simp [colsEq])
        rw [first.1] at cleared
        cases cleared
  · intro pos member old atPos new cleared
    obtain ⟨stored, refers⟩ := mem_matchingRows member atPos
    obtain ⟨origin, clearedBefore, trails⟩ := trim.trails doomed listed kind stored refers
    obtain ⟨agrees, allNull⟩ := nulls new old cleared
    refine ⟨agrees.length, ?_, ?_⟩
    · intro c
      by_cases inKey : c ∈ entry.2.cols
      · exact Or.inr ⟨allNull c inKey, entry, action, origin, rewriting, trails, rfl, inKey⟩
      · exact Or.inl (agrees.off c inKey)
    · intro cascaded
      obtain ⟨other, owner, wasStored, _⟩ := id cascaded
      rw [owner] at wasStored
      have followsOld : Trails start.db table seeds entry action old :=
        ⟨wasStored, parent, p, refCols, onUpdate, doomed, listed, kind, refers⟩
      exact ((keeps.rewrites entry action old rewriting followsOld).1 cascaded).elim

theorem rowsEqual_keyUnchanged {q d : Row V} (sameLength : q.length = d.length)
    (equal : rowsEqual q d = true) (cols : List Nat) : keyUnchanged cols q d = true := by
  rw [keyUnchanged_iff]
  intro c _
  by_cases within : c < q.length
  · have withinD : c < d.length := by omega
    have pair : (q[c], d[c]) ∈ q.zip d := by
      have zipped : c < (q.zip d).length := by
        rw [List.length_zip]
        omega
      have member := List.getElem_mem zipped
      rwa [List.getElem_zip] at member
    have compared := List.all_eq_true.mp equal _ pair
    simpa [Row.col, within, withinD] using compared
  · have outside : q.length ≤ c := Nat.le_of_not_lt within
    have outsideD : d.length ≤ c := by omega
    simp [Row.col, outside, outsideD, cmp_refl]

theorem rowsEqual_self (row : Row V) : rowsEqual row row = true := by
  unfold rowsEqual
  rw [List.all_eq_true]
  intro pair member
  have same : pair.1 = pair.2 := by
    rw [List.zip_eq_zipWith, List.zipWith_self] at member
    obtain ⟨v, _, rfl⟩ := List.mem_map.mp member
    rfl
  simp [same, cmp_refl]

theorem Intact.removed [TransitiveCmp V] {final : Ctx V} {child : Nat} {doomed : List (Row V)}
    (intact : Intact ctx.db)
    (lengths : ∀ q, q ∈ ctx.db.rows child → ∀ d, d ∈ doomed → q.length = d.length)
    (unreferred : ∀ d, d ∈ doomed → ∀ key refCols, IsKey ctx.db key child refCols →
      key.2.mayDefer = false → Unreferred ctx.db key refCols d)
    (framed : Framed ctx final)
    (removed : final.db = ctx.db.setRows child (withoutEqual (ctx.db.rows child) doomed)) :
    Intact final.db := by
  have subset : ∀ other row, row ∈ final.db.rows other → row ∈ ctx.db.rows other := by
    intro other row stored
    rw [removed] at stored
    by_cases here : other = child
    · subst here
      rw [DbState.setRows_rows_self] at stored
      exact (List.mem_filter.mp stored).1
    · rwa [DbState.setRows_rows_of_ne _ _ here] at stored
  intro key parent' refCols' isKeyLast immediate row stored isSet
  have isKey := isKeyLast.congr framed.tables.symm
  have was := subset key.1 row stored
  obtain ⟨q, found, refers⟩ := intact key parent' refCols' isKey immediate row was isSet
  refine ⟨q, ?_, refers⟩
  rw [removed]
  by_cases here : parent' = child
  · subst here
    rw [DbState.setRows_rows_self]
    refine List.mem_filter.mpr ⟨found, ?_⟩
    simp only [Bool.not_eq_true', List.any_eq_false]
    intro d listed equal
    have same := rowsEqual_keyUnchanged (lengths q found d listed) equal refCols'
    exact unreferred d listed key refCols' isKey immediate row was (refersTo_parent same refers)
  · rw [DbState.setRows_rows_of_ne _ _ here]
    exact found

/-- The tables and rows of a DELETE that has come as far as `ctx`. -/
structure Sweeping (start : Ctx V) (table : Nat) (seeds : Row V → Prop) (ctx : Ctx V) : Prop where
  trim : Trim start.db table seeds start ctx
  intact : Intact ctx.db

/-- What the deletion of `p` from `parent` leaves. -/
structure Swept (start : Ctx V) (table : Nat) (seeds : Row V → Prop) (parent : Nat) (p : Row V)
    (ctx final : Ctx V) : Prop where
  trim : Trim start.db table seeds ctx final
  intact : Intact final.db
  unreferred : ∀ entry refCols, IsKey start.db entry parent refCols → entry.2.mayDefer = false →
    Unreferred final.db entry refCols p

theorem Sized.referencing (sized : Sized start.db) (listed : entry ∈ referencing start.db parent) :
    ∃ n, ∀ current, Trim start.db table seeds start current →
      ∀ row, row ∈ current.db.rows entry.1 → row.length = n := by
  obtain ⟨t, member, owner, _⟩ := mem_referencing.mp listed
  refine ⟨t.columns.length, ?_⟩
  intro current trim row stored
  obtain ⟨origin, was, cleared⟩ := trim.rows entry.1 row stored
  rw [cleared.1]
  rw [owner] at was
  exact sized t member origin was

theorem Acted.cascade [TransitiveCmp V] (keeps : DeleteKeepsReferences start.db table seeds)
    (sized : Sized start.db)
    (sweeping : Sweeping start table seeds ctx) (doomed : Doomed start.db table seeds parent p)
    (listed : entry ∈ referencing start.db parent)
    (kind : entry.2.kind = .foreignKey parent refCols .cascade onUpdate)
    (deleteRow : Nat → Row V → Exec V Unit)
    (deletes : ∀ d, Doomed start.db table seeds entry.1 d → ∀ current,
      Sweeping start table seeds current →
        Ensures (deleteRow entry.1 d) current (fun _ final =>
          Swept start table seeds entry.1 d current final))
    {rows : List (Row V)}
    (rowsAre : ∀ d, d ∈ rows ↔ d ∈ ctx.db.rows entry.1 ∧
      refersTo entry.2.cols refCols p d = true)
    (some' : ∃ d, d ∈ rows) :
    Ensures (do
        rows.forM (deleteRow entry.1)
        removeEqual entry.1 rows) ctx
      (fun _ final => Acted start.db table seeds entry refCols p ctx final) := by
  have cascaded : ∀ d, d ∈ rows → Cascaded start.db table seeds entry.1 d := by
    intro d member
    obtain ⟨stored, refers⟩ := (rowsAre d).mp member
    exact sweeping.trim.cascaded doomed listed kind stored refers
  have elsewhere : entry.1 ≠ table := by
    intro here
    obtain ⟨d, member⟩ := some'
    have reached := cascaded d member
    rw [here] at reached
    exact keeps.away d reached
  have onward : ∀ {current final : Ctx V} {d : Row V}, Trim start.db table seeds ctx current →
      Swept start table seeds entry.1 d current final →
        Trim start.db table seeds ctx final ∧ Intact final.db :=
    fun so swept => ⟨so.trans swept.trim, swept.intact⟩
  have deleted : ∀ d, d ∈ rows → ∀ current,
      Trim start.db table seeds ctx current ∧ Intact current.db →
        Ensures (deleteRow entry.1 d) current (fun _ final =>
          Swept start table seeds entry.1 d current final) :=
    fun d member current now => deletes d (cascaded d member).doomed current
      ⟨sweeping.trim.trans now.1, now.2⟩
  refine Ensures.bind ?_
  intro _ middle ran
  -- After the loop every key is clear of every row that goes.
  obtain ⟨trim, intact⟩ := Ensures.forM
    (fun current => Trim start.db table seeds ctx current ∧ Intact current.db)
    ⟨Trim.refl ctx, sweeping.intact⟩
    (fun d member current now =>
      (deleted d member current now).weaken (fun _ _ swept => onward now.1 swept)) _ middle ran
  have unreferred : ∀ d, d ∈ rows → ∀ key refCols', IsKey start.db key entry.1 refCols' →
      key.2.mayDefer = false → Unreferred middle.db key refCols' d := by
    intro d member key refCols' isKey immediate
    exact (Ensures.forM_attains
      (fun current => Trim start.db table seeds ctx current ∧ Intact current.db)
      (fun current => (Trim start.db table seeds ctx current ∧ Intact current.db) ∧
        Unreferred current.db key refCols' d) member
      ⟨Trim.refl ctx, sweeping.intact⟩
      (fun other listedOther _ current now => (deleted other listedOther current now).weaken
        (fun _ _ swept => onward now.1 swept))
      (fun current now => (deleted d member current now).weaken (fun _ _ swept =>
        ⟨onward now.1 swept, swept.unreferred key refCols' isKey immediate⟩))
      (fun other listedOther current now => (deleted other listedOther current now.1).weaken
        (fun _ _ swept => ⟨onward now.1.1 swept, now.2.trim swept.trim⟩)) _ middle ran).2
  refine Ensures.update ?_
  have framed : Framed middle { middle with
      db := middle.db.setRows entry.1 (withoutEqual (middle.db.rows entry.1) rows) } :=
    ⟨rfl, rfl, rfl, rfl⟩
  have tables : middle.db.tables = start.db.tables :=
    (sweeping.trim.framed.trans trim.framed).tables
  refine ⟨trim.trans ⟨framed, ?_, ?_⟩, ?_, ?_⟩
  · intro child row stored
    refine ⟨row, ?_, (cleared_preorder start.db table seeds).refl child row⟩
    by_cases here : child = entry.1
    · subst here
      rw [DbState.setRows_rows_self] at stored
      exact (List.mem_filter.mp stored).1
    · rwa [DbState.setRows_rows_of_ne _ _ here] at stored
  · rw [DbState.setRows_rows_of_ne _ _ (Ne.symm elsewhere)]
    exact List.forall₂_same.mpr (fun row _ => (cleared_preorder start.db table seeds).refl table row)
  · obtain ⟨n, lengths⟩ := sized.referencing listed
    refine @Intact.removed _ _ middle _ _ entry.1 rows intact ?_ ?_ framed rfl
    · intro q found d member
      rw [lengths middle (sweeping.trim.trans trim) q found,
        lengths ctx sweeping.trim d ((rowsAre d).mp member).1]
    · intro d member key refCols' isKey
      exact unreferred d member key refCols' (isKey.congr tables.symm)
  · intro _ row stored refers
    rw [DbState.setRows_rows_self] at stored
    obtain ⟨kept, survives⟩ := List.mem_filter.mp stored
    obtain ⟨before, was, cleared⟩ := trim.rows entry.1 row kept
    have refersBefore := cleared.refers refers
    have member : before ∈ rows := (rowsAre before).mpr ⟨was, refersBefore⟩
    have same : row = before := cleared.2.2 (cascaded before member)
    subst same
    have equal : rows.any (fun d => rowsEqual row d) = true :=
      List.any_eq_true.mpr ⟨row, member, rowsEqual_self row⟩
    rw [equal] at survives
    cases survives

end Actions

section Cascade

variable {start : Ctx V} {table : Nat} {seeds : Row V → Prop}
  (keeps : DeleteKeepsReferences start.db table seeds) (formedKeys : KeysFormed start.db)
  (sized : Sized start.db)
include keeps formedKeys sized

theorem cascadeDeleteKey_acted [TransitiveCmp V] {ctx : Ctx V} {parent : Nat} {p : Row V}
    {entry : Nat × Constraint V} (sweeping : Sweeping start table seeds ctx)
    (doomed : Doomed start.db table seeds parent p)
    (listed : entry ∈ referencing start.db parent) {refCols : List Nat}
    {onDelete onUpdate : FkAction}
    (kind : entry.2.kind = .foreignKey parent refCols onDelete onUpdate)
    (deleteRow : Nat → Row V → Exec V Unit)
    (deletes : ∀ d, Doomed start.db table seeds entry.1 d → ∀ current,
      Sweeping start table seeds current →
        Ensures (deleteRow entry.1 d) current (fun _ final =>
          Swept start table seeds entry.1 d current final)) :
    Ensures (cascadeDeleteKey deleteRow parent p entry) ctx
      (fun _ final => Acted start.db table seeds entry refCols p ctx final) := by
  simp only [cascadeDeleteKey, kind]
  refine Ensures.bind (Ensures.get ?_)
  refine Ensures.bind (Ensures.lift (fun child _ => ?_))
  refine Ensures.ite (fun empty => ?_) (fun notEmpty => ?_)
  · exact Ensures.pure ⟨Trim.refl ctx, sweeping.intact, fun _ => matchingRows_isEmpty empty⟩
  have found : ∃ row, row ∈ ctx.db.rows entry.1 ∧ refersTo entry.2.cols refCols p row = true := by
    obtain ⟨pos, member⟩ := List.exists_mem_of_ne_nil _ (by simpa using notEmpty)
    obtain ⟨pair, kept, rfl⟩ := List.mem_map.mp member
    obtain ⟨inRows, refers⟩ := List.mem_filter.mp kept
    exact ⟨pair.1, List.mem_of_getElem? (List.mem_zipIdx_iff_getElem?.mp inRows), refers⟩
  refine Ensures.ite (fun deferred => ?_) (fun _ => ?_)
  · refine Ensures.pure ⟨Trim.refl ctx, sweeping.intact, ?_⟩
    intro immediate
    rw [isDeferred_false immediate] at deferred
    cases deferred
  · cases onDelete with
    | cascade =>
      refine Acted.cascade keeps sized sweeping doomed listed kind deleteRow deletes ?_ ?_
      · intro d
        exact mem_matching
      · obtain ⟨pos, member⟩ := List.exists_mem_of_ne_nil _ (by simpa using notEmpty)
        exact ⟨_, List.mem_map_of_mem member⟩
    | setNull =>
      exact Acted.clear keeps formedKeys sweeping.trim sweeping.intact doomed listed rfl kind
        (fun _ _ cleared => .clear (cleared.congr sweeping.trim.framed.tables)) found
    | setDefault =>
      exact Acted.clear keeps formedKeys sweeping.trim sweeping.intact doomed listed rfl kind
        (fun _ _ cleared => .reset (cleared.congr sweeping.trim.framed.tables)) found
    | noAction => exact Ensures.bind (Ensures.lift (fun parent _ => Ensures.throw))
    | restrict => exact Ensures.bind (Ensures.lift (fun parent _ => Ensures.throw))

theorem cascadeDelete_swept [TransitiveCmp V] (depth : Nat) {ctx : Ctx V} {parent : Nat} {p : Row V}
    (sweeping : Sweeping start table seeds ctx) (doomed : Doomed start.db table seeds parent p) :
    Ensures (cascadeDelete depth parent p) ctx
      (fun _ final => Swept start table seeds parent p ctx final) := by
  induction depth generalizing parent p ctx with
  | zero => exact Ensures.throw
  | succ depth ih =>
    unfold cascadeDelete
    refine Ensures.bind (Ensures.get ?_)
    rw [referencing_congr sweeping.trim.framed.tables]
    have acted : ∀ entry, entry ∈ referencing start.db parent → ∀ refCols,
        IsKey start.db entry parent refCols → ∀ current,
          Trim start.db table seeds ctx current ∧ Intact current.db →
            Ensures (cascadeDeleteKey (cascadeDelete depth) parent p entry) current
              (fun _ final => Acted start.db table seeds entry refCols p current final) := by
      intro entry listed refCols isKey current now
      obtain ⟨onDelete, onUpdate, kind⟩ := isKey.kind
      exact cascadeDeleteKey_acted keeps formedKeys sized ⟨sweeping.trim.trans now.1, now.2⟩
        doomed listed kind (cascadeDelete depth) (fun d reached _ so => ih so reached)
    have kept : ∀ entry, entry ∈ referencing start.db parent → ∀ current,
        Trim start.db table seeds ctx current ∧ Intact current.db →
          Ensures (cascadeDeleteKey (cascadeDelete depth) parent p entry) current
            (fun _ final => Trim start.db table seeds current final ∧ Intact final.db) := by
      intro entry listed current now
      obtain ⟨t, _, _, _, refCols, onDelete, onUpdate, kind⟩ := mem_referencing.mp listed
      exact (acted entry listed refCols (.of_listed listed kind) current now).weaken
        (fun _ _ done => ⟨done.trim, done.intact⟩)
    have startsWith : Trim start.db table seeds ctx ctx ∧ Intact ctx.db :=
      ⟨Trim.refl ctx, sweeping.intact⟩
    intro _ final ran
    obtain ⟨trim, intact⟩ := Ensures.forM
      (fun current => Trim start.db table seeds ctx current ∧ Intact current.db) startsWith
      (fun entry listed current now => (kept entry listed current now).weaken
        (fun _ _ done => ⟨now.1.trans done.1, done.2⟩)) _ final ran
    refine ⟨trim, intact, ?_⟩
    intro entry refCols isKey immediate
    exact (Ensures.forM_attains
      (fun current => Trim start.db table seeds ctx current ∧ Intact current.db)
      (fun current => (Trim start.db table seeds ctx current ∧ Intact current.db) ∧
        Unreferred current.db entry refCols p) isKey.listed startsWith
      (fun other listed _ current now => (kept other listed current now).weaken
        (fun _ _ done => ⟨now.1.trans done.1, done.2⟩))
      (fun current now => (acted entry isKey.listed refCols isKey current now).weaken
        (fun _ _ done => ⟨⟨now.1.trans done.trim, done.intact⟩, done.unreferred immediate⟩))
      (fun other listed current now => (kept other listed current now.1).weaken
        (fun _ _ done => ⟨⟨now.1.1.trans done.1, done.2⟩, now.2.trim done.1⟩)) _ final ran).2

end Cascade

def plannedRows (ctx : Ctx V) (plan : DeletePlan V) (doomed : List Nat) (row : Row V) : Prop :=
  ∃ i, i ∈ doomed ∧ (ctx.db.rows plan.table)[i]? = some row

omit [PgValue V] in
theorem mem_removePositions {rows : List (Row V)} {doomed : List Nat} :
    row ∈ removePositions rows doomed ↔ ∃ i, rows[i]? = some row ∧ i ∉ doomed := by
  constructor
  · intro member
    obtain ⟨pair, kept, rfl⟩ := List.mem_map.mp member
    obtain ⟨inRows, notDoomed⟩ := List.mem_filter.mp kept
    refine ⟨pair.2, List.mem_zipIdx_iff_getElem?.mp inRows, ?_⟩
    simpa using notDoomed
  · rintro ⟨i, found, notDoomed⟩
    refine List.mem_map.mpr ⟨(row, i), List.mem_filter.mpr ⟨?_, ?_⟩, rfl⟩
    · exact List.mem_zipIdx_iff_getElem?.mpr found
    · simpa using notDoomed

theorem Cleared.parent [TransitiveCmp V]
    {table : Nat} (keeps : DeleteKeepsReferences db table seeds)
    {key : Nat × Constraint V} {parent : Nat} {refCols : List Nat}
    (isKey : IsKey db key parent refCols) (immediate : key.2.mayDefer = false) {q' q : Row V}
    (cleared : Cleared db table seeds parent q' q)
    (refers : refersTo key.2.cols refCols q' row = true) :
    refersTo key.2.cols refCols q row = true := by
  apply refersTo_parent (keyUnchanged_of_eq ?_) refers
  intro c referenced
  rcases cleared.2.1 c with same | ⟨_, entry, action, origin, rewriting, trails, rfl, inKey⟩
  · exact same
  · have fits := (keeps.rewrites entry action origin rewriting trails).2
    exact (fits.unreferenced key refCols isKey immediate c inKey referenced).elim

theorem runDelete_intact [TransitiveCmp V] {start : Ctx V} {plan : DeletePlan V} (depth : Nat)
    (formedKeys : KeysFormed start.db) (sized : Sized start.db) (intact : Intact start.db)
    (keeps : ∀ doomed after, plannedDeletes plan start = .ok (doomed, after) →
      DeleteKeepsReferences start.db plan.table (plannedRows start plan doomed)) :
    Ensures (runDelete depth plan) start (fun _ final => Sized final.db ∧ Intact final.db) := by
  unfold runDelete
  refine Ensures.bind (Ensures.get ?_)
  refine Ensures.bind ?_
  intro doomed planned ranPlan
  have samePlanned := plannedDeletes_readOnly plan start doomed planned ranPlan
  have within := plannedDeletes_positions plan start doomed planned ranPlan
  have keeps := keeps doomed planned ranPlan
  refine Ensures.bind ((ReadOnly.foldlM (fun out i => output_readOnly _ _ _ _ _ _ out)
    planned).weaken ?_)
  intro out shown sameShown
  have same := samePlanned.trans sameShown
  have startsWith : Sweeping start plan.table (plannedRows start plan doomed) shown := by
    constructor
    · exact .of_inPlace same.framed (InPlace.of_eq (cleared_preorder _ _ _) same.db)
    · rw [same.db]
      exact intact
  have atPos : ∀ i, i ∈ doomed → (start.db.rows plan.table)[i]? =
      some ((start.db.rows plan.table).getD i []) := by
    intro i member
    rw [List.getD_eq_getElem?_getD, List.getElem?_eq_getElem (within i member), Option.getD_some]
  have deleted : ∀ i, i ∈ doomed → ∀ current,
      Sweeping start plan.table (plannedRows start plan doomed) current →
        Ensures (cascadeDelete depth plan.table ((start.db.rows plan.table).getD i [])) current
          (fun _ final => Swept start plan.table (plannedRows start plan doomed) plan.table
            ((start.db.rows plan.table).getD i []) current final) := by
    intro i member current sweeping
    exact cascadeDelete_swept keeps formedKeys sized depth sweeping (.seed ⟨i, member, atPos i member⟩)
  have onward : ∀ {current final : Ctx V} {p : Row V},
      Sweeping start plan.table (plannedRows start plan doomed) current →
        Swept start plan.table (plannedRows start plan doomed) plan.table p current final →
          Sweeping start plan.table (plannedRows start plan doomed) final :=
    fun sweeping swept => ⟨sweeping.trim.trans swept.trim, swept.intact⟩
  refine Ensures.bind ?_
  intro _ middle ran
  have sweeping := Ensures.forM (Sweeping start plan.table (plannedRows start plan doomed))
    startsWith (fun i member current now => (deleted i member current now).weaken
      (fun _ _ swept => onward now swept)) _ middle ran
  have unreferred : ∀ i, i ∈ doomed → ∀ key refCols, IsKey start.db key plan.table refCols →
      key.2.mayDefer = false →
        Unreferred middle.db key refCols ((start.db.rows plan.table).getD i []) := by
    intro i member key refCols isKey immediate
    exact (Ensures.forM_attains (Sweeping start plan.table (plannedRows start plan doomed))
      (fun current => Sweeping start plan.table (plannedRows start plan doomed) current ∧
        Unreferred current.db key refCols ((start.db.rows plan.table).getD i [])) member startsWith
      (fun j listed _ current now => (deleted j listed current now).weaken
        (fun _ _ swept => onward now swept))
      (fun current now => (deleted i member current now).weaken
        (fun _ _ swept => ⟨onward now swept, swept.unreferred key refCols isKey immediate⟩))
      (fun j listed current now => (deleted j listed current now.1).weaken
        (fun _ _ swept => ⟨onward now.1 swept, now.2.trim swept.trim⟩)) _ middle ran).2
  refine Ensures.bind (Ensures.update (Ensures.pure ?_))
  have tables : middle.db.tables = start.db.tables := sweeping.trim.framed.tables
  have subset : ∀ other row, row ∈ (middle.db.setRows plan.table
      (removePositions (middle.db.rows plan.table) doomed)).rows other →
        row ∈ middle.db.rows other := by
    intro other row stored
    by_cases here : other = plan.table
    · subst here
      rw [DbState.setRows_rows_self] at stored
      obtain ⟨i, found, _⟩ := mem_removePositions.mp stored
      exact List.mem_of_getElem? found
    · rwa [DbState.setRows_rows_of_ne _ _ here] at stored
  constructor
  · intro t member row stored
    obtain ⟨origin, was, cleared⟩ := sweeping.trim.rows t.oid row (subset t.oid row stored)
    rw [cleared.1]
    have listed : t ∈ start.db.tables := by
      rw [← tables]
      exact member
    exact sized t listed origin was
  · intro key parent refCols isKeyLast immediate row stored isSet
    have isKeyMiddle : IsKey middle.db key parent refCols := ⟨isKeyLast.listed, isKeyLast.kind⟩
    have isKey : IsKey start.db key parent refCols := isKeyMiddle.congr tables.symm
    have was := subset key.1 row stored
    obtain ⟨q, found, refers⟩ := sweeping.intact key parent refCols isKeyMiddle immediate row was
      isSet
    refine ⟨q, ?_, refers⟩
    show q ∈ (middle.db.setRows plan.table _).rows parent
    by_cases here : parent = plan.table
    · subst here
      rw [DbState.setRows_rows_self]
      obtain ⟨i, atI⟩ := List.getElem?_of_mem found
      refine mem_removePositions.mpr ⟨i, atI, ?_⟩
      -- A parent at a deleted position is a row that nothing refers to any more.
      intro gone
      rcases forall₂_getElem? sweeping.trim.own i with
        ⟨absent, _⟩ | ⟨q', origin, atI', originAt, cleared⟩
      · rw [absent] at atI
        cases atI
      rw [atI'] at atI
      obtain rfl := Option.some.inj atI
      have isOrigin : (start.db.rows plan.table).getD i [] = origin := by
        rw [List.getD_eq_getElem?_getD, originAt, Option.getD_some]
      have stale := unreferred i gone key refCols isKey immediate row was
      rw [isOrigin] at stale
      exact stale (cleared.parent keeps isKey immediate refers)
    · rw [DbState.setRows_rows_of_ne _ _ here]
      exact found

end NoidaDb.Postgres
