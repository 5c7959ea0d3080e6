/-
Unique keys over runs of data statements.

Two things escape the comparison with the stored rows: the other images of the same UPDATE, and
the rows a foreign-key action rewrites.
-/

import NoidaDb.Postgres.Runs

namespace NoidaDb.Postgres

open PgValue
open NoidaDb.Lib

variable {V : Type} [PgValue V]

/-- Two rows agree on all of `cols`; a null agrees with nothing unless nulls are
not distinct. -/
def KeyCollision (cols : List Nat) (nullsNotDistinct : Bool) (a b : Row V) : Prop :=
  (nullsNotDistinct = true ∨ ∀ c, c ∈ cols → isNull (Row.col a c) = false) ∧
    ∀ c, c ∈ cols → valuesEqual (Row.col a c) (Row.col b c) = true

def IndexCollision (idx : Index V) (a b : Row V) : Prop :=
  ∃ left right, indexKey idx a = .ok (some left) ∧ indexKey idx b = .ok (some right) ∧
    (idx.nullsNotDistinct = true ∨ left.any isNull = false) ∧ keysAgree left right = true

/-- The keys of a table that hold after every statement, each as the collision it
forbids. -/
inductive UniqueKey (t : Table V) : (Row V → Row V → Prop) → Prop where
  | constraint {cons : Constraint V} (member : cons ∈ t.constraints)
      (kind : cons.kind = .primaryKey ∨ cons.kind = .unique)
      (notDeferrable : cons.deferrable = false) (immediate : cons.initiallyDeferred = false) :
      UniqueKey t (KeyCollision cons.cols (t.nullsNotDistinct cons))
  | index {idx : Index V} (member : idx ∈ t.indexes) (unique : idx.unique = true)
      (separate : t.backsConstraint idx = false) : UniqueKey t (IndexCollision idx)

def DistinctKeys (db : DbState V) : Prop :=
  ∀ t, t ∈ db.tables → ∀ collide, UniqueKey t collide →
    (db.rows t.oid).Pairwise (fun a b => ¬ collide a b)

theorem valuesEqual_isNull {a b : V} (equal : valuesEqual a b = true) : isNull a = isNull b :=
  cmp_isNull a b ((valuesEqual_iff a b).mp equal)

variable {row a b : Row V} {skip : Option Nat} {j : Nat} {idx : Index V} {t : Table V}
  {collide : Row V → Row V → Prop} {key : List V}

theorem KeyCollision.symm {cols : List Nat} {nullsNotDistinct : Bool}
    (collision : KeyCollision cols nullsNotDistinct a b) :
    KeyCollision cols nullsNotDistinct b a := by
  obtain ⟨nulls, equal⟩ := collision
  refine ⟨nulls.imp_right ?_, fun c member => valuesEqual_symm (equal c member)⟩
  intro present c member
  rw [← valuesEqual_isNull (equal c member)]
  exact present c member

theorem indexKeyValues_length {cols : List (Option Nat)} {exprs : List (RowExpr V)}
    (computed : indexKeyValues cols exprs row = .ok key) : key.length = cols.length := by
  induction cols generalizing exprs key with
  | nil =>
    cases computed
    rfl
  | cons column rest ih =>
    cases column with
    | some c =>
      obtain ⟨tail, ranTail, done⟩ := bind_eq_ok computed
      cases done
      rw [List.length_cons, List.length_cons, ih ranTail]
    | none =>
      cases exprs with
      | nil => cases computed
      | cons e exprs =>
        obtain ⟨v, _, computed⟩ := bind_eq_ok computed
        obtain ⟨tail, ranTail, done⟩ := bind_eq_ok computed
        cases done
        rw [List.length_cons, List.length_cons, ih ranTail]

theorem indexKey_length (computed : indexKey idx row = .ok (some key)) :
    key.length = idx.cols.length := by
  unfold indexKey at computed
  split at computed
  · obtain ⟨values, ran, done⟩ := bind_eq_ok computed
    cases done
    exact indexKeyValues_length ran
  · obtain ⟨v, _, computed⟩ := bind_eq_ok computed
    split at computed
    · obtain ⟨values, ran, done⟩ := bind_eq_ok computed
      cases done
      exact indexKeyValues_length ran
    · cases computed

theorem keysAgree_symm {a b : List V} (agree : keysAgree a b = true) : keysAgree b a = true := by
  induction a generalizing b with
  | nil => cases b <;> rfl
  | cons x rest ih =>
    cases b with
    | nil => rfl
    | cons y others =>
      simp only [keysAgree, List.zip_cons_cons, List.all_cons, Bool.and_eq_true] at agree ⊢
      exact ⟨valuesEqual_symm agree.1, ih agree.2⟩

theorem keysAgree_any_isNull {a b : List V} (lengths : a.length = b.length)
    (agree : keysAgree a b = true) : a.any isNull = b.any isNull := by
  induction a generalizing b with
  | nil =>
    rw [List.length_eq_zero_iff.mp lengths.symm]
  | cons x rest ih =>
    cases b with
    | nil => cases lengths
    | cons y others =>
      simp only [keysAgree, List.zip_cons_cons, List.all_cons, Bool.and_eq_true] at agree
      rw [List.any_cons, List.any_cons, valuesEqual_isNull agree.1,
        ih (Nat.succ.inj lengths) agree.2]

theorem IndexCollision.symm (collision : IndexCollision idx a b) : IndexCollision idx b a := by
  obtain ⟨left, right, leftKey, rightKey, nulls, agree⟩ := collision
  refine ⟨right, left, rightKey, leftKey, nulls.imp_right ?_, keysAgree_symm agree⟩
  intro present
  rw [← keysAgree_any_isNull ((indexKey_length leftKey).trans (indexKey_length rightKey).symm)
    agree]
  exact present

theorem UniqueKey.symm (key : UniqueKey t collide) (collision : collide a b) : collide b a := by
  cases key with
  | constraint member kind notDeferrable immediate => exact KeyCollision.symm collision
  | index member unique separate => exact IndexCollision.symm collision

theorem checkUniqueViolation_none {rows : List (Row V)} {cols : List Nat}
    {nullsNotDistinct : Bool}
    (free : checkUniqueViolation rows cols row skip nullsNotDistinct = none) {other : Row V}
    (found : rows[j]? = some other) (considered : some j ≠ skip) :
    ¬ KeyCollision cols nullsNotDistinct row other := by
  rintro ⟨nulls, equal⟩
  unfold checkUniqueViolation at free
  have applies : ¬ (!nullsNotDistinct && cols.any (fun c => isNull (Row.col row c))) = true := by
    rcases nulls with notDistinct | present
    · simp [notDistinct]
    · have noneNull : cols.any (fun c => isNull (Row.col row c)) = false := by
        rw [List.any_eq_false]
        intro c member
        simp [present c member]
      simp [noneNull]
  rw [if_neg applies, Option.map_eq_none_iff, List.find?_eq_none] at free
  have listed : (other, j) ∈ rows.zipIdx := List.mem_zipIdx_iff_getElem?.mpr found
  refine free (other, j) listed ?_
  simp only [Bool.and_eq_true, decide_eq_true_eq, List.all_eq_true]
  exact ⟨considered, fun c member => valuesEqual_symm (equal c member)⟩

theorem conflictFrom_none {rows : List (Row V)} {i : Nat}
    (free : conflictFrom idx key skip i rows = .ok none) {other : Row V}
    (found : rows[j]? = some other) (considered : some (i + j) ≠ skip) :
    ∀ stored, indexKey idx other = .ok (some stored) → keysAgree stored key = false := by
  induction rows generalizing i j with
  | nil => cases found
  | cons head rest ih =>
    have tail : ∀ position, (conflictFrom idx key skip (i + 1) rest = .ok none) →
        j = position + 1 →
          ∀ stored, indexKey idx other = .ok (some stored) → keysAgree stored key = false := by
      intro position freeRest shifted
      subst shifted
      exact ih freeRest found (by rw [Nat.add_right_comm, Nat.add_assoc]; exact considered)
    unfold conflictFrom at free
    split at free
    · rename_i skipped
      cases j with
      | zero => exact (considered skipped).elim
      | succ position => exact tail position free rfl
    · obtain ⟨candidate, ranKey, free⟩ := bind_eq_ok free
      cases candidate with
      | none =>
        cases j with
        | zero =>
          obtain rfl := Option.some.inj found
          intro stored storedKey
          rw [ranKey] at storedKey
          cases storedKey
        | succ position => exact tail position free rfl
      | some k =>
        change (if keysAgree k key then (Pure.pure (some key) : PgResult (Option (List V)))
          else conflictFrom idx key skip (i + 1) rest) = .ok none at free
        split at free
        · cases free
        · rename_i disagree
          cases j with
          | zero =>
            obtain rfl := Option.some.inj found
            intro stored storedKey
            rw [ranKey] at storedKey
            cases storedKey
            exact Bool.not_eq_true _ ▸ disagree
          | succ position => exact tail position free rfl

theorem uniqueIndexConflict_none {rows : List (Row V)}
    (free : uniqueIndexConflict rows idx row skip = .ok none) {other : Row V}
    (found : rows[j]? = some other) (considered : some j ≠ skip) :
    ¬ IndexCollision idx row other := by
  rintro ⟨left, right, leftKey, rightKey, nulls, agree⟩
  have present : uniqueKey idx row = .ok (some left) := by
    unfold uniqueKey
    rw [leftKey]
    have holds : (idx.nullsNotDistinct || !left.any isNull) = true := by
      rcases nulls with notDistinct | noneNull
      · rw [notDistinct, Bool.true_or]
      · rw [noneNull, Bool.not_false, Bool.or_true]
    change Except.ok (Option.filter _ (some left)) = _
    rw [Option.filter_some, if_pos holds]
  unfold uniqueIndexConflict at free
  rw [present] at free
  have disagree := conflictFrom_none free found (by rwa [Nat.zero_add]) right rightKey
  rw [keysAgree_symm agree] at disagree
  cases disagree

theorem RowChecked.key_free {ctx : Ctx V} (checked : RowChecked ctx t.oid t row skip)
    (key : UniqueKey t collide) {other : Row V} (found : (ctx.db.rows t.oid)[j]? = some other)
    (considered : some j ≠ skip) : ¬ collide row other := by
  cases key with
  | @constraint cons member kind notDeferrable immediate =>
    have passed := checked.constraints cons member
    have now : isDeferred cons ctx = false := by
      simp [isDeferred, notDeferrable, immediate]
    have free : checkUniqueViolation (ctx.db.rows t.oid) cons.cols row skip
        (t.nullsNotDistinct cons) = none := by
      unfold checkConstraint at passed
      rcases kind with kind | kind
      all_goals
        rw [kind] at passed
        simp only [now, Bool.false_eq_true, if_false] at passed
        split at passed
        · assumption
        · cases passed
    exact checkUniqueViolation_none free found considered
  | index member unique separate =>
    exact uniqueIndexConflict_none (checked.indexes _ member unique separate) found considered

/-- The keys of `table` cannot tell the two rows apart. -/
def KeyEquivalent (db : DbState V) : RowRelation V :=
  fun table new old => ∀ t, db.table table = some t → ∀ collide, UniqueKey t collide →
    ∀ other, collide new other ↔ collide old other

/-- No unique key of `table` depends on `cols`. -/
def KeysIgnore (db : DbState V) (table : Nat) (cols : List Nat) : Prop :=
  ∀ new old, AgreesOff cols new old → KeyEquivalent db table new old

def ImagesDistinct (ctx : Ctx V) (plan : UpdatePlan V) : Prop :=
  ∀ t, ctx.db.table plan.table = some t → ∀ updates, Planned plan ctx updates →
    ∀ collide, UniqueKey t collide →
      ∀ a, a ∈ updates → ∀ b, b ∈ updates → a.1 ≠ b.1 → ¬ collide a.2 b.2

/-- The statement gives no two rows one key at once, and its foreign-key actions
rewrite no row in columns a unique key of its table depends on. -/
def KeepsKeys (ctx : Ctx V) (stmt : Dml V) : Prop :=
  Spares (fun entry _ _ _ => KeysIgnore ctx.db entry.1 entry.2.cols) ctx stmt ∧
    ∀ plan, stmt = .update plan → ImagesDistinct ctx plan

theorem keyEquivalent_preorder (db : DbState V) : (KeyEquivalent db).Preorder := by
  refine ⟨fun table row t found collide key other => Iff.rfl, ?_⟩
  intro table first second third left right t found collide key other
  exact (left t found collide key other).trans (right t found collide key other)

theorem KeyEquivalent.collide_right {db : DbState V} {table : Nat} {new old : Row V}
    (equivalent : KeyEquivalent db table new old) (found : db.table table = some t)
    (key : UniqueKey t collide) (other : Row V) : collide other new ↔ collide other old := by
  constructor
  · intro collision
    exact key.symm ((equivalent t found collide key other).mp (key.symm collision))
  · intro collision
    exact key.symm ((equivalent t found collide key other).mpr (key.symm collision))

theorem DistinctKeys.shrunk {ctx final : Ctx V} (formed : ctx.db.WellFormed)
    (distinct : DistinctKeys ctx.db) (framed : Framed ctx final)
    (shrunk : Shrunk (KeyEquivalent ctx.db) ctx final) : DistinctKeys final.db := by
  intro t member collide key
  rw [framed.tables] at member
  have found := formed.table_eq member
  refine pairwise_of_sublistForall₂ ?_ (shrunk t.oid) (distinct t member collide key)
  intro a a' b b' aSame bSame apart collision
  have withA := (aSame t found collide key b').mp collision
  exact apart ((bSame.collide_right found key a).mp withA)

theorem DistinctKeys.setRows {db : DbState V} (distinct : DistinctKeys db) {table : Nat}
    {rows : List (Row V)}
    (fits : ∀ t, t ∈ db.tables → t.oid = table → ∀ collide, UniqueKey t collide →
      rows.Pairwise (fun a b => ¬ collide a b)) :
    DistinctKeys (db.setRows table rows) := by
  intro t member collide key
  by_cases same : t.oid = table
  · rw [same, DbState.setRows_rows_self]
    exact fits t member same collide key
  · rw [DbState.setRows_rows_of_ne _ _ same]
    exact distinct t member collide key

theorem checkRow_key_free {ctx : Ctx V} (formed : ctx.db.WellFormed) (member : t ∈ ctx.db.tables)
    (checked : checkRow ctx t.oid row skip = .ok ()) (key : UniqueKey t collide) {other : Row V}
    (found : (ctx.db.rows t.oid)[j]? = some other) (considered : some j ≠ skip) :
    ¬ collide row other := by
  obtain ⟨t', looked, passed⟩ := checkRow_ok checked
  rw [formed.table_eq member] at looked
  obtain rfl := Option.some.inj looked
  exact passed.key_free key found considered

theorem DistinctKeys.insertStep {plan : InsertPlan V} {ctx final : Ctx V}
    (formed : ctx.db.WellFormed) (distinct : DistinctKeys ctx.db)
    {touched touched' : List Nat}
    (step : InsertStep plan touched ctx touched' final) : DistinctKeys final.db := by
  cases step with
  | skip same =>
    rw [same.db]
    exact distinct
  | push row sized checked framed written =>
    rw [written]
    refine distinct.setRows ?_
    intro t member same collide key
    rw [← same] at checked ⊢
    rw [List.pairwise_append]
    refine ⟨distinct t member collide key, List.pairwise_singleton _ _, ?_⟩
    intro a stored b isRow collision
    obtain rfl := List.mem_singleton.mp isRow
    obtain ⟨j, found⟩ := List.getElem?_of_mem stored
    exact checkRow_key_free formed member checked key found (by simp) (key.symm collision)
  | replace pos row target sets filter proposed before after upsert same image fresh checked
      framed written =>
      rw [written]
      refine distinct.setRows ?_
      intro t member sameTable collide key
      rw [← sameTable] at checked ⊢
      refine pairwise_set (fun a b apart collision => apart (key.symm collision))
        (distinct t member collide key) pos row ?_
      intro j b different found
      exact checkRow_key_free formed member checked key found
        (fun isPos => different (Option.some.inj isPos))

theorem runUpdate_distinctKeys {plan : UpdatePlan V} {ctx : Ctx V} (formed : ctx.db.WellFormed)
    (distinct : DistinctKeys ctx.db) (safe : KeepsKeys ctx (.update plan)) :
    Ensures (runUpdate plan) ctx (fun _ final => DistinctKeys final.db) := by
  refine runUpdate_spec plan ctx (fun final => DistinctKeys final.db) ?_
  intro updates started planned same
  refine (safe.1.checkLoop (keyEquivalent_preorder ctx.db)
    (fun entry refCols new action ignores row' row rewritten =>
      ignores row' row rewritten.agrees) planned same
    (fun update => ∀ t, t ∈ ctx.db.tables → t.oid = plan.table → ∀ collide, UniqueKey t collide →
      ∀ j b, j ≠ update.1 → (ctx.db.rows plan.table)[j]? = some b → ¬ collide update.2 b)
    ?_).weaken ?_
  · intro update _ current framed inPlace checked t member sameTable collide key j b different
      found collision
    rcases forall₂_getElem? (inPlace plan.table) j with ⟨_, absent⟩ | ⟨b', b'', now, before, related⟩
    · rw [found] at absent
      cases absent
    · rw [found] at before
      obtain rfl := Option.some.inj before
      rw [← sameTable] at related checked now
      have memberNow : t ∈ current.db.tables := by rw [framed.tables]; exact member
      refine checkRow_key_free (formed.congr framed.tables) memberNow checked key now
        (fun isPos => different (Option.some.inj isPos)) ?_
      exact (related.collide_right (formed.table_eq member) key update.2).mpr collision
  · rintro _ middle ⟨⟨framed, inPlace⟩, free⟩ final _ written
    rw [written]
    have distinctNow := distinct.shrunk formed framed inPlace.shrunk
    refine distinctNow.setRows ?_
    intro t memberNow sameTable collide key
    have member : t ∈ ctx.db.tables := by rw [← framed.tables]; exact memberNow
    have found : ctx.db.table plan.table = some t := sameTable ▸ formed.table_eq member
    refine pairwise_setAll (fun a b apart collision => apart (key.symm collision))
      planned.distinct ?_ (sameTable ▸ distinctNow t memberNow collide key) ?_ ?_
    · intro update isUpdate
      rw [(inPlace plan.table).length_eq]
      exact planned.within update isUpdate
    · intro update isUpdate j b' different now collision
      rcases forall₂_getElem? (inPlace plan.table) j with ⟨absent, _⟩ | ⟨b, b₀, atJ, before, related⟩
      · rw [now] at absent
        cases absent
      · rw [now] at atJ
        obtain rfl := Option.some.inj atJ
        exact free update isUpdate t member sameTable collide key j b₀ different before
          ((related.collide_right found key update.2).mp collision)
    · exact safe.2 plan rfl t found updates planned collide key

theorem runDml_distinctKeys {depth : Nat} {stmt : Dml V} {ctx : Ctx V}
    (formed : ctx.db.WellFormed) (distinct : DistinctKeys ctx.db) (safe : KeepsKeys ctx stmt) :
    Ensures (runDml depth stmt) ctx (fun _ final => DistinctKeys final.db) := by
  cases stmt with
  | insert plan =>
    refine (runInsert_keeps plan
      (fun _ current => current.db.WellFormed ∧ DistinctKeys current.db) ctx ⟨formed, distinct⟩
      ?_).weaken (fun _ _ ⟨_, kept⟩ => kept.2)
    rintro _ current _ final ⟨formedNow, distinctNow⟩ step
    exact ⟨formedNow.congr step.framed.tables, distinctNow.insertStep formedNow step⟩
  | update plan => exact runUpdate_distinctKeys formed distinct safe
  | delete plan =>
    refine (safe.1.runDelete (keyEquivalent_preorder ctx.db)
      (fun entry refCols new action ignores row' row rewritten =>
        ignores row' row rewritten.agrees) depth).weaken ?_
    rintro _ final ⟨framed, shrunk⟩
    exact distinct.shrunk formed framed shrunk

/-- In every run whose statements keep keys apart and call no function that writes, no two
rows of a table share a unique key. -/
theorem reachable_distinctKeys {ctx : Ctx V}
    (reached : ReachableCalling (fun functions ctx stmt => functions.Quiet ∧ KeepsKeys ctx stmt)
      ctx) : DistinctKeys ctx.db := by
  refine ((reachableCalling_quiet.mp reached).keeps DistinctKeys ?_ ?_).2
  · intro db empty t member collide key
    rw [empty]
    exact List.Pairwise.nil
  · intro ctx stmt depth formed distinct safe
    exact runDml_distinctKeys formed distinct safe

/-- Rows 1 and 2, then `UPDATE t SET k = 5`: each image is compared with 1 and 2
only, and both are written. -/
theorem reachable_duplicateKey :
    ¬ ∀ ctx : Ctx Scalar, Reachable (fun _ _ => True) ctx → DistinctKeys ctx.db := by
  intro claimed
  have reached : Reachable (fun _ _ => True) ((Ctx.ofTables [keyed]).after 1
      [insertValues 1 1 [[.int 1], [.int 2]], updateAll 1 0 (fun _ => .int 5)]) :=
    reachable_after 1 _ (Reachable.start (.of_check (by decide) rfl) (fun _ => rfl)) (fun _ _ _ => trivial)
  have pkey : keyedPkey ∈ keyed.constraints := List.mem_cons_self
  have apart : ([[.int 5], [.int 5]] : List (Row Scalar)).Pairwise
      (fun a b => ¬ KeyCollision [0] false a b) :=
    claimed _ reached keyed List.mem_cons_self _
      (UniqueKey.constraint pkey (Or.inl rfl) rfl rfl)
  rw [List.pairwise_pair] at apart
  refine apart ⟨Or.inr ?_, ?_⟩ <;>
  · intro c member
    obtain rfl := List.mem_singleton.mp member
    rfl

def addTen : Row Scalar → Scalar
  | .int k :: _ => .int (k + 10)
  | _ => .null

/-- A function that inserts 12 into `t` at the third call. -/
abbrev insertsTwelve : Functions Scalar where
  writes n rows := if n = 3 then Function.update rows 1 (rows 1 ++ [[.int 12]]) else rows

/-- `UPDATE t SET k = k + 10 RETURNING f(k)`, on the rows 1 and 2: `f` is called between the
two writes. -/
example :
    (@runDml Scalar _ insertsTwelve 1
      (.update
        { table := 1
          sets := [(0, .value (fun row _ _ => .ok (addTen row)))]
          returning := { exprs := [fun row _ _ => .ok (Row.col row 0)] } })
      ((Ctx.ofTables [keyed]).after 1 [insertValues 1 1 [[.int 1], [.int 2]]])).toOption.map
        (fun done => done.2.db.rows 1) = some [[.int 11], [.int 12], [.int 12]] := rfl

def keyedChildPkey : Constraint Scalar :=
  { name := "c_pkey", kind := .primaryKey, cols := [0], indexOid := some 4 }

def keyedChildFkey : Constraint Scalar :=
  { name := "c_k_fkey", kind := .foreignKey 1 [0] .noAction .cascade, cols := [1] }

/-- `c (id int PRIMARY KEY, k int REFERENCES t (k) ON UPDATE CASCADE)`. -/
def keyedChild : Table Scalar :=
  { oid := 3
    name := "c"
    columns := [{ name := "id", notNull := true }, { name := "k" }]
    constraints := [keyedChildPkey, keyedChildFkey]
    indexes := [{ oid := 4, name := "c_pkey", cols := [some 0] }] }

def keyedStart : Ctx Scalar := Ctx.ofTables [keyed, keyedChild]

/-- The child's only key is its `id`; the foreign key's column is not part of it. -/
theorem keyedChild_keysIgnore {db : DbState Scalar} (found : db.table 3 = some keyedChild) :
    KeysIgnore db 3 [1] := by
  intro new old agrees t looked collide key other
  rw [found] at looked
  obtain rfl := Option.some.inj looked
  have sameId : Row.col new 0 = Row.col old 0 := agrees.off 0 (by decide)
  cases key with
  | @constraint cons member kind notDeferrable immediate =>
    have constraints : cons = keyedChildPkey ∨ cons = keyedChildFkey := by
      simpa [keyedChild] using member
    rcases constraints with rfl | rfl
    · simp [KeyCollision, keyedChildPkey, sameId]
    · rcases kind with kind | kind <;> cases kind
  | @index idx member unique separate =>
    obtain rfl := List.mem_singleton.mp member
    cases separate

def keyedLoaded : Ctx Scalar :=
  keyedStart.after 1
    [insertValues 1 1 [[.int 1], [.int 2]], insertValues 3 2 [[.int 7, .int 1]]]

theorem keyedLoaded_reachable : Reachable KeepsKeys keyedLoaded := by
  refine reachable_after 1 _ (Reachable.start (.of_check (by decide) rfl) (fun _ => rfl)) ?_
  intro stmt member current
  obtain ⟨plan, rfl⟩ : ∃ plan, stmt = .insert plan := by
    rcases List.mem_cons.mp member with same | later
    · exact ⟨_, same⟩
    · exact ⟨_, List.mem_singleton.mp later⟩
  refine ⟨Spares.insert _ current plan, ?_⟩
  intro other isUpdate
  cases isUpdate

theorem keyedLoaded_keepsKeys : KeepsKeys keyedLoaded (updateAll 1 0 addTen) := by
  refine ⟨?_, ?_⟩
  · intro table
    refine Or.inr ?_
    intro entry refCols new action parent fires _ _
    cases fires with
    | update planned member refers kind moved =>
      have isFkey : entry = (3, keyedChildFkey) := List.mem_singleton.mp refers
      rw [isFkey]
      exact keyedChild_keysIgnore rfl
  · intro plan isPlan t found updates planned collide key a aMember b bMember different
    cases isPlan
    obtain rfl : keyed = t := Option.some.inj found
    obtain ⟨after, ran⟩ := planned.plannedAs
    obtain rfl : [(0, [.int 11]), (1, [.int 12])] = updates :=
      congrArg Prod.fst (Except.ok.inj ran)
    have apart : ∀ x y : Row Scalar, collide x y → Row.col x 0 = Row.col y 0 := by
      intro x y collision
      cases key with
      | @constraint cons member kind notDeferrable immediate =>
        obtain rfl := List.mem_singleton.mp member
        have equal := collision.2 0 List.mem_cons_self
        exact (Scalar.cmpValues_eq_iff _ _).mp ((valuesEqual_iff _ _).mp equal)
      | @index idx member unique separate =>
        obtain rfl := List.mem_singleton.mp member
        cases separate
    intro collision
    have same := apart a.2 b.2 collision
    simp only [List.mem_cons, List.not_mem_nil, or_false] at aMember bMember
    rcases aMember with rfl | rfl <;> rcases bMember with rfl | rfl
    · exact different rfl
    · cases same
    · cases same
    · exact different rfl

theorem reachable_distinctKeys_followed :
    ∃ ctx : Ctx Scalar,
      ReachableCalling (fun functions ctx stmt => functions.Quiet ∧ KeepsKeys ctx stmt) ctx ∧
        ctx.db.rows 1 = [[.int 11], [.int 12]] ∧ ctx.db.rows 3 = [[.int 7, .int 11]] ∧
        DistinctKeys ctx.db := by
  have ran : ∃ out final, runDml 1 (updateAll 1 0 addTen) keyedLoaded = .ok (out, final) ∧
      final.db.rows 1 = [[.int 11], [.int 12]] ∧ final.db.rows 3 = [[.int 7, .int 11]] :=
    ⟨_, _, rfl, rfl, rfl⟩
  obtain ⟨out, final, ran, parents, children⟩ := ran
  have reached := reachableCalling_quiet.mpr
    (Reachable.statement keyedLoaded_reachable keyedLoaded_keepsKeys ran)
  exact ⟨final, reached, parents, children, reachable_distinctKeys reached⟩

end NoidaDb.Postgres
