/-
What an UPDATE keeps of referential integrity.

The rows that it rewrites because they refer to an old key are not checked, and what refers to
them is not followed.
-/

import NoidaDb.Postgres.References

namespace NoidaDb.Postgres

open PgValue
open NoidaDb.Lib

variable {V : Type} [PgValue V]

/-- No key refers to the columns written; values taken from the parent are in no other key; nothing but
nulls is written otherwise. -/
structure RewriteFits (db : DbState V) (entry : Nat × Constraint V) (action : FkAction) :
    Prop where
  unreferenced : ∀ key refCols, IsKey db key entry.1 refCols → key.2.mayDefer = false →
    ∀ c, c ∈ entry.2.cols → c ∉ refCols
  apart : action = .cascade → entry.2.cols.Nodup ∧ ∀ other parent refCols,
    IsKey db (entry.1, other) parent refCols → other ≠ entry.2 →
      ∀ c, c ∈ entry.2.cols → c ∉ other.cols
  cleared : action = .setDefault → ∀ t, db.table entry.1 = some t →
    ∀ c, c ∈ entry.2.cols → (t.columns[c]?).bind Column.default = none

/-- The row an update of `plan` replaces. -/
def replacedRow (ctx : Ctx V) (plan : UpdatePlan V) (update : Nat × Row V) : Row V :=
  (ctx.db.rows plan.table).getD update.1 []

/-- Some row refers, through `entry`, to a key that the statement changes. -/
structure Live (ctx : Ctx V) (plan : UpdatePlan V) (updates : List (Nat × Row V))
    (entry : Nat × Constraint V) (refCols : List Nat) (action : FkAction) : Prop where
  listed : entry ∈ referencing ctx.db plan.table
  kind : ∃ onDelete, entry.2.kind = .foreignKey plan.table refCols onDelete action
  found : ∃ update, update ∈ updates ∧
    keyUnchanged refCols (replacedRow ctx plan update) update.2 = false ∧
      ∃ r, r ∈ ctx.db.rows entry.1 ∧
        refersTo entry.2.cols refCols (replacedRow ctx plan update) r = true

/-- Where a foreign-key action finds a row to rewrite, the rewrite fits; and no new row
refers to a key of its own table that the statement changes. -/
structure UpdateKeepsReferences (ctx : Ctx V) (plan : UpdatePlan V)
    (updates : List (Nat × Row V)) : Prop where
  rewrites : ∀ entry refCols action new, Live ctx plan updates entry refCols action →
    action.rewrites (some (new : Row V)) = true → RewriteFits ctx.db entry action
  images : ∀ entry refCols, IsKey ctx.db entry plan.table refCols → entry.2.mayDefer = false →
    entry.1 = plan.table → ∀ image, image ∈ updates → ∀ update, update ∈ updates →
      keyUnchanged refCols (replacedRow ctx plan update) update.2 = false →
        refersTo entry.2.cols refCols (replacedRow ctx plan update) image.2 = false

section Rewritten

variable {db : DbState V} {entry : Nat × Constraint V} {refCols : List Nat}
  {new : Option (Row V)} {action : FkAction} {row' row : Row V}

theorem RewriteFits.cases (fits : RewriteFits db entry action)
    (rewritten : Rewrites db entry refCols new action row' row) :
    (∀ c, c ∈ entry.2.cols → isNull (Row.col row' c) = true) ∨
      (action = .cascade ∧ ∃ image, new = some image ∧
        row' = followedRow entry.2.cols refCols image row) := by
  have clears : ∀ {setDefault : Bool}, ClearedFrom db entry.1 entry.2 setDefault row' row →
      (setDefault = true → action = .setDefault) →
        ∀ c, c ∈ entry.2.cols → isNull (Row.col row' c) = true := by
    intro setDefault cleared isDefault c member
    by_cases within : c < row.length
    · have value := cleared.values c member within
      generalize Row.col row' c = v at value
      cases value with
      | null absent => exact isNull_null
      | default chosen looked present evaluated =>
        have lacks := fits.cleared (isDefault chosen) _ looked c member
        rw [lacks] at present
        cases present
    · by_contra present
      have present : isNull (Row.col row' c) = false := by simpa using present
      have inside := Row.lt_length_of_isNull present
      rw [cleared.agrees.length] at inside
      exact within inside
  cases rewritten with
  | follow given => exact Or.inr ⟨rfl, _, given, rfl⟩
  | clear cleared => exact Or.inl (clears cleared (by simp))
  | reset cleared => exact Or.inl (clears cleared (fun _ => rfl))

theorem followedRow_col (cols refCols : List Nat) (new row : Row V) (distinct : cols.Nodup)
    (pair : Nat × Nat) (member : pair ∈ cols.zip refCols) (within : pair.1 < row.length) :
    Row.col (followedRow cols refCols new row) pair.1 = Row.col new pair.2 := by
  induction cols generalizing refCols row with
  | nil => cases member
  | cons c rest ih =>
    cases refCols with
    | nil => cases member
    | cons p later =>
      rw [List.nodup_cons] at distinct
      rcases List.mem_cons.mp member with same | inRest
      · subst same
        have off := (followedRow_agrees rest later new (row.set c (Row.col new p))).off c
          distinct.1
        exact off.trans (Row.col_set_eq row c _ within)
      · exact ih later (row.set c (Row.col new p)) distinct.2 inRest
          (by rw [List.length_set]; exact within)

theorem refersTo_followed {cols : List Nat} {old image : Row V} (distinct : cols.Nodup)
    (refers : refersTo cols refCols old row = true)
    (isSet : IsSet cols (followedRow cols refCols image row)) :
    refersTo cols refCols image (followedRow cols refCols image row) = true := by
  rw [refersTo_iff] at refers ⊢
  intro pair member
  have within := Row.lt_length_of_isNull (refers pair member).1
  refine ⟨isSet pair.1 (List.of_mem_zip member).1, ?_⟩
  rw [followedRow_col cols refCols image row distinct pair member within]
  exact cmp_refl _

end Rewritten

def LiveRewrites (ctx : Ctx V) (plan : UpdatePlan V) (updates : List (Nat × Row V)) :
    RowRelation V :=
  fun table new old => new.length = old.length ∧ ∀ c, Row.col new c = Row.col old c ∨
    ∃ entry refCols action, Live ctx plan updates entry refCols action ∧ entry.1 = table ∧
      action.rewrites (some new) = true ∧ c ∈ entry.2.cols ∧
        (isNull (Row.col new c) = true ∨ action = .cascade)

theorem liveRewrites_preorder (ctx : Ctx V) (plan : UpdatePlan V)
    (updates : List (Nat × Row V)) : (LiveRewrites ctx plan updates).Preorder := by
  constructor
  · intro table row
    exact ⟨rfl, fun c => Or.inl rfl⟩
  · rintro table first second third ⟨leftLength, left⟩ ⟨rightLength, right⟩
    refine ⟨leftLength.trans rightLength, ?_⟩
    intro c
    rcases left c with same | changed
    · rcases right c with sameAgain | ⟨entry, refCols, action, live, owner, rewrites, member, how⟩
      · exact Or.inl (same.trans sameAgain)
      · refine Or.inr ⟨entry, refCols, action, live, owner, ?_, member, ?_⟩
        · cases action <;> first | rfl | cases rewrites
        · rw [same]
          exact how
    · exact Or.inr changed

section Update

variable {start : Ctx V} {plan : UpdatePlan V} {updates : List (Nat × Row V)}
  (keeps : UpdateKeepsReferences start plan updates)

omit [PgValue V] in
theorem rewrites_any (new other : Row V) {action : FkAction}
    (rewrites : action.rewrites (some new) = true) : action.rewrites (some other) = true := by
  cases action <;> first | rfl | cases rewrites

variable {refCols : List Nat} {row : Row V}

include keeps

theorem live_of_refers {entry : Nat × Constraint V} {onDelete onUpdate : FkAction}
    (listed : entry ∈ referencing start.db plan.table)
    (kind : entry.2.kind = .foreignKey plan.table refCols onDelete onUpdate)
    {update : Nat × Row V} (member : update ∈ updates)
    (moved : keyUnchanged refCols (replacedRow start plan update) update.2 = false)
    (descends : Descends (LiveRewrites start plan updates) start.db entry.1 row)
    (refers : refersTo entry.2.cols refCols (replacedRow start plan update) row = true) :
    Live start plan updates entry refCols onUpdate := by
  by_contra notLive
  obtain ⟨origin, stored, _, columns⟩ := descends
  refine notLive ⟨listed, ⟨onDelete, kind⟩, update, member, moved, origin, stored, ?_⟩
  refine refersTo_child ?_ refers
  intro c inKey present
  rcases columns c with same | ⟨other, refCols', action, live, owner, rewrites, inOther, how⟩
  · exact same
  · exfalso
    rcases how with isNull' | follows
    · rw [present] at isNull'
      cases isNull'
    · subst follows
      have fits := keeps.rewrites other refCols' .cascade row live rewrites
      by_cases same : entry.2 = other.2
      · -- The same key: it was live.
        obtain ⟨_, kind'⟩ := live.kind
        rw [← same, kind] at kind'
        cases kind'
        obtain rfl : other = entry := Prod.ext owner same.symm
        exact notLive live
      · have key : IsKey start.db (other.1, entry.2) plan.table refCols := by
          rw [owner]
          exact .of_listed listed kind
        exact (fits.apart rfl).2 entry.2 plan.table refCols key same c inOther inKey

theorem updateFits_live {update : Nat × Row V} (member : update ∈ updates)
    {entry : Nat × Constraint V} (listed : entry ∈ referencing start.db plan.table) :
    UpdateFits (LiveRewrites start plan updates) start.db (replacedRow start plan update) update.2
      entry := by
  intro refTable refCols onDelete onUpdate kind moved row descends refers row' rewritten
  obtain rfl : refTable = plan.table := by
    obtain ⟨_, _, kind'⟩ := (IsKey.of_listed listed kind).kind
    rw [kind] at kind'
    cases kind'
    rfl
  have live := live_of_refers keeps listed kind member moved descends refers
  have fits := keeps.rewrites entry refCols onUpdate update.2 live rewritten.rewrites
  refine ⟨rewritten.agrees.length, ?_⟩
  intro c
  by_cases inKey : c ∈ entry.2.cols
  · refine Or.inr ⟨entry, refCols, onUpdate, live, rfl, rewrites_any update.2 row' rewritten.rewrites,
      inKey, ?_⟩
    rcases fits.cases rewritten with cleared | ⟨follows, _⟩
    · exact Or.inl (cleared c inKey)
    · exact Or.inr follows
  · exact Or.inl (rewritten.agrees.off c inKey)

theorem LiveRewrites.referenced {entry : Nat × Constraint V} {parent : Nat}
    (key : IsKey start.db entry parent refCols) (immediate : entry.2.mayDefer = false)
    {p' p : Row V} (rewritten : LiveRewrites start plan updates parent p' p) :
    keyUnchanged refCols p' p = true := by
  apply keyUnchanged_of_eq
  intro c member
  rcases rewritten.2 c with same | ⟨other, refCols', action, live, owner, rewrites, inOther, _⟩
  · exact same
  · have fits := keeps.rewrites other refCols' action p' live rewrites
    rw [← owner] at key
    exact (fits.unreferenced entry refCols key immediate c inOther member).elim

omit keeps

/-- A referencing row in the middle of the loop: it refers to a row of the start whose
key the updates `done` so far keep, or to one of their images. -/
def Anchored (start : Ctx V) (plan : UpdatePlan V) (done : List (Nat × Row V))
    (entry : Nat × Constraint V) (parent : Nat) (refCols : List Nat) (row : Row V) : Prop :=
  (∃ j p, (start.db.rows parent)[j]? = some p ∧ refersTo entry.2.cols refCols p row = true ∧
      (parent = plan.table → ∀ update, update ∈ done → update.1 = j →
        keyUnchanged refCols p update.2 = true)) ∨
    (parent = plan.table ∧ ∃ update, update ∈ done ∧
      refersTo entry.2.cols refCols update.2 row = true)

def AllAnchored (start : Ctx V) (plan : UpdatePlan V) (done : List (Nat × Row V))
    (entry : Nat × Constraint V) (parent : Nat) (refCols : List Nat) (ctx : Ctx V) : Prop :=
  ∀ row, row ∈ ctx.db.rows entry.1 → IsSet entry.2.cols row →
    Anchored start plan done entry parent refCols row

theorem Anchored.same {done : List (Nat × Row V)} {entry : Nat × Constraint V} {parent : Nat}
    {row' : Row V} (anchored : Anchored start plan done entry parent refCols row)
    (same : ∀ c, c ∈ entry.2.cols → Row.col row' c = Row.col row c) :
    Anchored start plan done entry parent refCols row' := by
  have refers : ∀ p, refersTo entry.2.cols refCols p row = true →
      refersTo entry.2.cols refCols p row' = true :=
    fun p => refersTo_child (fun c member _ => (same c member).symm)
  rcases anchored with ⟨j, p, found, refersNow, unmoved⟩ | ⟨here, update, member, refersNow⟩
  · exact Or.inl ⟨j, p, found, refers p refersNow, unmoved⟩
  · exact Or.inr ⟨here, update, member, refers update.2 refersNow⟩

structure Checking (start : Ctx V) (plan : UpdatePlan V) (updates done : List (Nat × Row V))
    (entry : Nat × Constraint V) (parent : Nat) (refCols : List Nat) (ctx : Ctx V) : Prop where
  framed : Framed start ctx
  inPlace : InPlace (LiveRewrites start plan updates) start ctx
  anchored : AllAnchored start plan done entry parent refCols ctx

section Loop

variable {done : List (Nat × Row V)} {entry : Nat × Constraint V} {parent : Nat}
  {refCols : List Nat} {ctx : Ctx V} (keeps : UpdateKeepsReferences start plan updates)
include keeps

theorem Checking.rewritten (checking : Checking start plan updates done entry parent refCols ctx)
    {update : Nat × Row V} (member : update ∈ updates) {other : Nat × Constraint V}
    {refCols' : List Nat} {onDelete onUpdate : FkAction}
    (listed : other ∈ referencing start.db plan.table)
    (kind : other.2.kind = .foreignKey plan.table refCols' onDelete onUpdate)
    (moved : keyUnchanged refCols' (replacedRow start plan update) update.2 = false)
    {row row' : Row V} (stored : row ∈ ctx.db.rows other.1)
    (refers : refersTo other.2.cols refCols' (replacedRow start plan update) row = true)
    (rewritten : Rewrites ctx.db other refCols' (some update.2) onUpdate row' row) :
    RewriteFits start.db other onUpdate ∧ AgreesOff other.2.cols row' row ∧
      ((∀ c, c ∈ other.2.cols → isNull (Row.col row' c) = true) ∨
        (onUpdate = .cascade ∧ row' = followedRow other.2.cols refCols' update.2 row)) := by
  have descends := checking.inPlace.shrunk.descends stored
  have live := live_of_refers keeps listed kind member moved descends refers
  have fits := keeps.rewrites other refCols' onUpdate update.2 live rewritten.rewrites
  refine ⟨fits, rewritten.agrees, ?_⟩
  have here : Rewrites start.db other refCols' (some update.2) onUpdate row' row := by
    cases rewritten with
    | follow given => exact .follow given
    | clear cleared => exact .clear (cleared.congr checking.framed.tables)
    | reset cleared => exact .reset (cleared.congr checking.framed.tables)
  rcases fits.cases here with cleared | ⟨follows, image, given, followed⟩
  · exact Or.inl cleared
  · cases given
    exact Or.inr ⟨follows, followed⟩

theorem Checking.otherKey (key : IsKey start.db entry parent refCols)
    (checking : Checking start plan updates done entry parent refCols ctx)
    {update : Nat × Row V} (member : update ∈ updates) {other : Nat × Constraint V}
    (listed : other ∈ referencing start.db plan.table) (different : other ≠ entry) :
    Ensures (cascadeUpdateKey plan.table (replacedRow start plan update) update.2 other) ctx
      (fun _ final => Checking start plan updates done entry parent refCols final) := by
  obtain ⟨t, _, _, _, refCols', onDelete, onUpdate, kind⟩ := mem_referencing.mp listed
  refine ((cascadeUpdateKey_inPlace (liveRewrites_preorder start plan updates) checking.framed
    checking.inPlace plan.table _ update.2 other (updateFits_live keeps member listed)).and
      (cascadeUpdateKey_spec plan.table _ update.2 kind ctx)).weaken ?_
  rintro _ final ⟨⟨framed, inPlace⟩, unchanged | ⟨moved, rewrites⟩⟩
  · rw [unchanged.2]
    exact checking
  · refine ⟨framed, inPlace, ?_⟩
    intro row' stored isSet
    by_cases here : entry.1 = other.1
    · rw [here] at stored
      rcases rewrites.rows row' stored with ⟨kept, _⟩ | ⟨row, was, refers, rewritten⟩
      · rw [← here] at kept
        exact checking.anchored row' kept isSet
      · obtain ⟨fits, agrees, how⟩ :=
          checking.rewritten keeps member listed kind moved was refers rewritten
        have untouched : ∀ c, c ∈ entry.2.cols → c ∉ other.2.cols := by
          intro c inKey inOther
          rcases how with cleared | ⟨follows, _⟩
          · have present := isSet c inKey
            rw [cleared c inOther] at present
            cases present
          · have distinct : entry.2 ≠ other.2 := fun same => different (Prod.ext here.symm same.symm)
            have keyHere : IsKey start.db (other.1, entry.2) parent refCols := by
              rw [← here]
              exact key
            exact (fits.apart follows).2 entry.2 parent refCols keyHere distinct c inOther inKey
        have same : ∀ c, c ∈ entry.2.cols → Row.col row' c = Row.col row c :=
          fun c inKey => agrees.off c (untouched c inKey)
        have wasSet : IsSet entry.2.cols row := by
          intro c inKey
          rw [← same c inKey]
          exact isSet c inKey
        rw [← here] at was
        exact (checking.anchored row was wasSet).same same
    · rw [rewrites.others entry.1 here] at stored
      exact checking.anchored row' stored isSet

theorem Checking.ownKey (formedKeys : KeysFormed start.db)
    (key : IsKey start.db entry plan.table refCols)
    (checking : Checking start plan updates done entry plan.table refCols ctx)
    {update : Nat × Row V} (member : update ∈ updates)
    (within : update.1 < (start.db.rows plan.table).length) :
    Ensures (cascadeUpdateKey plan.table (replacedRow start plan update) update.2 entry) ctx
      (fun _ final =>
        Checking start plan updates (update :: done) entry plan.table refCols final) := by
  obtain ⟨onDelete, onUpdate, kind⟩ := key.kind
  have replaced : ∀ p, (start.db.rows plan.table)[update.1]? = some p →
      replacedRow start plan update = p := by
    intro p found
    rw [replacedRow, List.getD_eq_getElem?_getD, found, Option.getD_some]
  refine ((cascadeUpdateKey_inPlace (liveRewrites_preorder start plan updates) checking.framed
    checking.inPlace plan.table _ update.2 entry (updateFits_live keeps member key.listed)).and
      (cascadeUpdateKey_spec plan.table _ update.2 kind ctx)).weaken ?_
  rintro _ final ⟨⟨framed, inPlace⟩, ⟨unchanged, rfl⟩ | ⟨moved, rewrites⟩⟩
  · refine ⟨framed, inPlace, ?_⟩
    intro row stored isSet
    rcases checking.anchored row stored isSet with ⟨j, p, found, refers, unmoved⟩ |
      ⟨here, earlier, known, refers⟩
    · refine Or.inl ⟨j, p, found, refers, ?_⟩
      intro here other listed position
      rcases List.mem_cons.mp listed with isUpdate | known
      · subst isUpdate
        rw [← replaced p (by rw [position]; exact found)]
        exact unchanged
      · exact unmoved here other known position
    · exact Or.inr ⟨here, earlier, List.mem_cons_of_mem update known, refers⟩
  · refine ⟨framed, inPlace, ?_⟩
    intro row' stored isSet
    rcases rewrites.rows row' stored with ⟨kept, missed⟩ | ⟨row, was, refers, rewritten⟩
    · rcases checking.anchored row' kept isSet with ⟨j, p, found, refers, unmoved⟩ |
        ⟨here, earlier, known, refers⟩
      · refine Or.inl ⟨j, p, found, refers, ?_⟩
        intro here other listed position
        rcases List.mem_cons.mp listed with isUpdate | known
        · subst isUpdate
          rw [replaced p (by rw [position]; exact found)] at missed
          exact (missed refers).elim
        · exact unmoved here other known position
      · exact Or.inr ⟨here, earlier, List.mem_cons_of_mem update known, refers⟩
    · obtain ⟨fits, agrees, how⟩ :=
        checking.rewritten keeps member key.listed kind moved was refers rewritten
      rcases how with cleared | ⟨follows, followed⟩
      · obtain ⟨c, inKey⟩ := List.exists_mem_of_ne_nil _ (formedKeys entry _ _ key).1
        have present := isSet c inKey
        rw [cleared c inKey] at present
        cases present
      · subst followed
        refine Or.inr ⟨rfl, update, List.mem_cons_self, ?_⟩
        exact refersTo_followed (fits.apart follows).1 refers isSet

omit keeps in
theorem Checking.again {update : Nat × Row V}
    (checking : Checking start plan updates (update :: update :: done) entry parent refCols ctx) :
    Checking start plan updates (update :: done) entry parent refCols ctx := by
  refine ⟨checking.framed, checking.inPlace, ?_⟩
  intro row stored isSet
  rcases checking.anchored row stored isSet with ⟨j, p, found, refers, unmoved⟩ |
    ⟨here, earlier, known, refers⟩
  · exact Or.inl ⟨j, p, found, refers, fun here other listed =>
      unmoved here other (List.mem_cons_of_mem update listed)⟩
  · refine Or.inr ⟨here, earlier, ?_, refers⟩
    rcases List.mem_cons.mp known with same | later
    · subst same
      exact List.mem_cons_self
    · exact later

theorem Checking.cascadeUpdate (formedKeys : KeysFormed start.db)
    (key : IsKey start.db entry parent refCols)
    (checking : Checking start plan updates done entry parent refCols ctx)
    {update : Nat × Row V} (member : update ∈ updates)
    (within : update.1 < (start.db.rows plan.table).length) :
    Ensures (cascadeUpdate plan.table (replacedRow start plan update) update.2) ctx
      (fun _ final => Checking start plan updates (update :: done) entry parent refCols final) := by
  unfold NoidaDb.Postgres.cascadeUpdate
  refine Ensures.bind (Ensures.get ?_)
  rw [referencing_congr checking.framed.tables]
  by_cases here : parent = plan.table
  · subst here
    refine Ensures.forM_attains (Checking start plan updates done entry plan.table refCols) _
      key.listed checking ?_ ?_ ?_
    · intro other listed different current now
      exact now.otherKey keeps key member listed different
    · intro current now
      exact now.ownKey keeps formedKeys key member within
    · intro other listed current now
      by_cases same : other = entry
      · subst same
        exact (now.ownKey keeps formedKeys key member within).weaken (fun _ _ twice => twice.again)
      · exact now.otherKey keeps key member listed same
  · have elsewhere : ∀ other, other ∈ referencing start.db plan.table → other ≠ entry := by
      intro other listed same
      subst same
      obtain ⟨_, _, kind⟩ := key.kind
      obtain ⟨_, _, kind'⟩ := (IsKey.of_listed listed kind).kind
      rw [kind] at kind'
      cases kind'
      exact here rfl
    refine (Ensures.forM (Checking start plan updates done entry parent refCols) checking
      (fun other listed current now =>
        now.otherKey keeps key member listed (elsewhere other listed))).weaken ?_
    intro _ final now
    refine ⟨now.framed, now.inPlace, ?_⟩
    intro row stored isSet
    rcases now.anchored row stored isSet with ⟨j, p, found, refers, _⟩ | ⟨isHere, _⟩
    · exact Or.inl ⟨j, p, found, refers, fun isHere => (here isHere).elim⟩
    · exact (here isHere).elim

theorem checkLoop_anchored (formedKeys : KeysFormed start.db)
    (planned : Planned plan start updates) (intact : Intact start.db)
    (key : IsKey start.db entry parent refCols) (immediate : entry.2.mayDefer = false)
    {started : Ctx V} (same : SameData start started) :
    Ensures (updates.forM (checkAndCascade plan.table (start.db.rows plan.table))) started
      (fun _ middle => Checking start plan updates updates.reverse entry parent refCols middle) := by
  have initially : Checking start plan updates [] entry parent refCols started := by
    refine ⟨same.framed, InPlace.of_eq (liveRewrites_preorder start plan updates) same.db, ?_⟩
    intro row stored isSet
    rw [same.db] at stored
    obtain ⟨p, found, refers⟩ := intact entry parent refCols key immediate row stored isSet
    obtain ⟨j, atJ⟩ := List.getElem?_of_mem found
    refine Or.inl ⟨j, p, atJ, refers, ?_⟩
    intro _ update absent
    cases absent
  have step : ∀ update, update ∈ updates → ∀ done current,
      Checking start plan updates done entry parent refCols current →
        Ensures (checkAndCascade plan.table (start.db.rows plan.table) update) current
          (fun _ final =>
            Checking start plan updates (update :: done) entry parent refCols final) := by
    intro update member done current checking
    refine Ensures.bind ((check_spec plan.table update.2 (some update.1) current).weaken ?_)
    rintro _ checkedAt ⟨rfl, _⟩
    exact checking.cascadeUpdate keeps formedKeys key member (planned.within update member)
  have looped := Ensures.forM_history
    (fun done current => Checking start plan updates done entry parent refCols current)
    initially step
  simpa using looped

end Loop

/-- A new image refers to rows that the table it references had at the start. -/
def ImageAnchored (start : Ctx V) (plan : UpdatePlan V) (update : Nat × Row V) : Prop :=
  ∀ entry parent refCols, IsKey start.db entry parent refCols → entry.2.mayDefer = false →
    entry.1 = plan.table → IsSet entry.2.cols update.2 →
      ∃ (j : Nat) (p : Row V), (start.db.rows parent)[j]? = some p ∧
        refersTo entry.2.cols refCols p update.2 = true

theorem imageAnchored_of_check [TransitiveCmp V] (formed : start.db.WellFormed)
    (keeps : UpdateKeepsReferences start plan updates) {current : Ctx V} {update : Nat × Row V}
    (framed : Framed start current)
    (inPlace : InPlace (LiveRewrites start plan updates) start current)
    (checked : checkRow current plan.table update.2 (some update.1) = .ok ()) :
    ImageAnchored start plan update := by
  intro entry parent refCols key immediate owner isSet
  rw [← owner] at checked
  obtain ⟨p', stored, refers⟩ := checkRow_hasParent (formed.congr framed.tables) checked
    (key.congr framed.tables) immediate isSet
  obtain ⟨j, atJ⟩ := List.getElem?_of_mem stored
  rcases forall₂_getElem? (inPlace parent) j with ⟨absent, _⟩ | ⟨a', a, found', found, rewritten⟩
  · rw [absent] at atJ
    cases atJ
  · rw [found'] at atJ
    cases atJ
    exact ⟨j, a, found, refersTo_parent (rewritten.referenced keeps key immediate) refers⟩

theorem Anchored.hasParent [TransitiveCmp V] (keeps : UpdateKeepsReferences start plan updates)
    (planned : Planned plan start updates) {middle final : Ctx V}
    (inPlace : InPlace (LiveRewrites start plan updates) start middle)
    (written : final.db = middle.db.setRows plan.table
      (setAll (middle.db.rows plan.table) updates)) {entry : Nat × Constraint V} {parent : Nat}
    (key : IsKey start.db entry parent refCols) (immediate : entry.2.mayDefer = false)
    (anchored : Anchored start plan updates entry parent refCols row) :
    HasParent final.db entry parent refCols row := by
  have sameLength : (middle.db.rows plan.table).length = (start.db.rows plan.table).length :=
    (inPlace plan.table).length_eq
  have image : ∀ update, update ∈ updates → parent = plan.table →
      (final.db.rows parent)[update.1]? = some update.2 := by
    intro update member here
    rw [here, written, DbState.setRows_rows_self]
    exact setAll_getElem?_of_mem _ updates update.1 update.2 planned.distinct member
      (by rw [sameLength]; exact planned.within update member)
  rcases anchored with ⟨j, p, found, refers, unmoved⟩ | ⟨here, update, member, refers⟩
  · rcases forall₂_getElem? (inPlace parent) j with ⟨_, absent⟩ | ⟨p', p₀, found', found₀, rewritten⟩
    · rw [absent] at found
      cases found
    · rw [found₀] at found
      cases found
      have stays : refersTo entry.2.cols refCols p' row = true :=
        refersTo_parent (keyUnchanged_symm (rewritten.referenced keeps key immediate)) refers
      by_cases here : parent = plan.table
      · by_cases changed : j ∈ updates.map Prod.fst
        · obtain ⟨update, member, position⟩ := List.mem_map.mp changed
          refine ⟨update.2, List.mem_of_getElem? (image update member here), ?_⟩
          exact refersTo_parent (unmoved here update member position) refers
        · refine ⟨p', ?_, stays⟩
          rw [← setAll_getElem?_of_notMem _ updates j changed, here] at found'
          rw [here, written, DbState.setRows_rows_self]
          exact List.mem_of_getElem? found'
      · refine ⟨p', ?_, stays⟩
        rw [written, DbState.setRows_rows_of_ne _ _ here]
        exact List.mem_of_getElem? found'
  · exact ⟨update.2, List.mem_of_getElem? (image update member here), refers⟩

omit [PgValue V] in
theorem mem_written {middle final : Ctx V} (written : final.db = middle.db.setRows plan.table
      (setAll (middle.db.rows plan.table) updates)) {table : Nat}
    (stored : row ∈ final.db.rows table) :
    (table = plan.table ∧ ∃ update, update ∈ updates ∧ update.2 = row) ∨
      row ∈ middle.db.rows table := by
  rw [written] at stored
  by_cases here : table = plan.table
  · subst here
    rw [DbState.setRows_rows_self] at stored
    rcases mem_setAll stored with kept | ⟨position, member⟩
    · exact Or.inr kept
    · exact Or.inl ⟨rfl, (position, row), member, rfl⟩
  · rw [DbState.setRows_rows_of_ne _ _ here] at stored
    exact Or.inr stored

theorem runUpdate_intact [TransitiveCmp V]
    (formed : start.db.WellFormed) (formedKeys : KeysFormed start.db)
    (sized : Sized start.db) (intact : Intact start.db)
    (keeps : ∀ updates, Planned plan start updates → UpdateKeepsReferences start plan updates) :
    Ensures (runUpdate plan) start (fun _ final => Sized final.db ∧ Intact final.db) := by
  refine runUpdate_spec plan start (fun final => Sized final.db ∧ Intact final.db) ?_
  intro updates started planned same
  have keeps := keeps updates planned
  intro _ middle ran
  have fits : ∀ update, update ∈ updates → ∀ entry, entry ∈ referencing start.db plan.table →
      UpdateFits (LiveRewrites start plan updates) start.db
        ((start.db.rows plan.table).getD update.1 []) update.2 entry :=
    fun update member entry listed => updateFits_live keeps member listed
  have asStarted : ∀ current, InPlace (LiveRewrites start plan updates) started current →
      InPlace (LiveRewrites start plan updates) start current := by
    intro current inPlace table
    have related := inPlace table
    rwa [same.db] at related
  obtain ⟨⟨framed, inPlace⟩, images⟩ := checkLoop_inPlace (liveRewrites_preorder start plan updates)
    plan.table (start.db.rows plan.table) updates started (ImageAnchored start plan)
    (by rw [same.db]; exact fits)
    (fun update _ current framed inPlace checked =>
      imageAnchored_of_check formed keeps (same.framed.trans framed) (asStarted current inPlace)
        checked) _ middle ran
  have framed := same.framed.trans framed
  have inPlace := asStarted middle inPlace
  intro final framedLast written
  have tables := framedLast.tables.trans framed.tables
  constructor
  · intro t member row stored
    rw [tables] at member
    rcases mem_written written stored with ⟨here, update, listed, rfl⟩ | kept
    · obtain ⟨after, plannedAs⟩ := planned.plannedAs
      have length := plannedUpdates_length plan start updates after plannedAs update listed
      have within := planned.within update listed
      rw [length, List.getD_eq_getElem?_getD, List.getElem?_eq_getElem within, Option.getD_some]
      exact sized t member _ (by rw [here]; exact List.getElem_mem within)
    · obtain ⟨origin, was, rewritten⟩ := inPlace.shrunk.descends kept
      rw [rewritten.1]
      exact sized t member origin was
  · intro entry parent refCols keyLast immediate row stored isSet
    have key := keyLast.congr tables.symm
    have checking := checkLoop_anchored keeps formedKeys planned intact key immediate same _ middle ran
    apply Anchored.hasParent keeps planned inPlace written key immediate
    rcases mem_written written stored with ⟨here, update, listed, rfl⟩ | kept
    · obtain ⟨j, p, found, refers⟩ := images update listed entry parent refCols key immediate here isSet
      refine Or.inl ⟨j, p, found, refers, ?_⟩
      intro self other member position
      subst self
      by_contra moved
      have replaced : replacedRow start plan other = p := by
        rw [replacedRow, List.getD_eq_getElem?_getD, position, found, Option.getD_some]
      have missed := keeps.images entry refCols key immediate here update listed other member
        (by rw [replaced]; simpa using moved)
      rw [replaced, refers] at missed
      cases missed
    · rcases checking.anchored row kept isSet with ⟨j, p, found, refers, unmoved⟩ |
        ⟨here, update, member, refers⟩
      · exact Or.inl ⟨j, p, found, refers, fun here other listed =>
          unmoved here other (List.mem_reverse.mpr listed)⟩
      · exact Or.inr ⟨here, update, List.mem_reverse.mp member, refers⟩

end Update

end NoidaDb.Postgres
