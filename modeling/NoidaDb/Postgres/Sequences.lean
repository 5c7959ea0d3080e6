/-
Sequences: their definitions, which belong to the database, and their counters, which
are changed at once, whatever becomes of the transaction.
-/

import Mathlib.Tactic.Linarith
import Mathlib.Tactic.Ring
import NoidaDb.Postgres.Sessions

namespace NoidaDb.Postgres.Sequences

namespace Code

def sequenceGeneratorLimitExceeded : String := "2200H"
def numericValueOutOfRange : String := "22003"
def invalidParameterValue : String := "22023"
def objectNotInPrerequisiteState : String := "55000"

end Code

/-! ### 64-bit integers -/

def InI64 (n : Int) : Prop := -2 ^ 63 ≤ n ∧ n < 2 ^ 63

instance (n : Int) : Decidable (InI64 n) := by unfold InI64; infer_instance

abbrev I64 : Type := { n : Int // InI64 n }

def I64.least : I64 := ⟨-2 ^ 63, by decide⟩

def I64.greatest : I64 := ⟨2 ^ 63 - 1, by decide⟩

def I64.one : I64 := ⟨1, by decide⟩

def I64.minusOne : I64 := ⟨-1, by decide⟩

/-- `i64::checked_add`. -/
def checkedAdd (a b : I64) : Option I64 :=
  if inRange : InI64 (a.val + b.val) then some ⟨a.val + b.val, inRange⟩ else none

/-! ### Definitions -/

inductive SeqType where
  | int2
  | int4
  | int8
deriving Repr, DecidableEq

namespace SeqType

def name : SeqType → String
  | int2 => "smallint"
  | int4 => "integer"
  | int8 => "bigint"

def least : SeqType → I64
  | int2 => ⟨-2 ^ 15, by decide⟩
  | int4 => ⟨-2 ^ 31, by decide⟩
  | int8 => I64.least

def greatest : SeqType → I64
  | int2 => ⟨2 ^ 15 - 1, by decide⟩
  | int4 => ⟨2 ^ 31 - 1, by decide⟩
  | int8 => I64.greatest

/-- The type after `AS`. -/
def ofName (t : String) : Option SeqType :=
  if t = "bigint" ∨ t = "int8" then some int8
  else if t = "integer" ∨ t = "int" ∨ t = "int4" then some int4
  else if t = "smallint" ∨ t = "int2" then some int2
  else none

end SeqType

structure Sequence where
  name : String
  ty : SeqType
  start : I64
  increment : I64
  min : I64
  max : I64
  cache : I64
  cycle : Bool
deriving DecidableEq

/-- The options of `CREATE SEQUENCE` and `ALTER SEQUENCE`; `some none` is the NO form, or
a bare `RESTART`. -/
structure SeqDdl where
  asType : Option String := none
  increment : Option I64 := none
  min : Option (Option I64) := none
  max : Option (Option I64) := none
  start : Option I64 := none
  restart : Option (Option I64) := none
  cache : Option I64 := none
  cycle : Option Bool := none

def badOption {α : Type} (message : String) : PgResult α :=
  .error { code := Code.invalidParameterValue, message := message }

def Sequence.ascending (seq : Sequence) : Bool := 0 < seq.increment.val

def setIncrement (d : SeqDdl) (seq : Sequence) : PgResult Sequence :=
  match d.increment with
  | none => .ok seq
  | some i =>
    if i.val = 0 then badOption "INCREMENT must not be zero" else .ok { seq with increment := i }

def defaultMin (seq : Sequence) : I64 := if seq.ascending then I64.one else seq.ty.least

def defaultMax (seq : Sequence) : I64 := if seq.ascending then seq.ty.greatest else I64.minusOne

def setMin (d : SeqDdl) (create : Bool) (seq : Sequence) : Sequence :=
  match d.min with
  | some (some v) => { seq with min := v }
  | some none => { seq with min := defaultMin seq }
  | none =>
    if create = true ∨ (d.increment.isSome = true ∧
        seq.min = if seq.ascending then seq.ty.least else I64.one) then
      { seq with min := defaultMin seq }
    else seq

def setMax (d : SeqDdl) (create : Bool) (seq : Sequence) : Sequence :=
  match d.max with
  | some (some v) => { seq with max := v }
  | some none => { seq with max := defaultMax seq }
  | none =>
    if create = true ∨ (d.increment.isSome = true ∧
        seq.max = if seq.ascending then I64.minusOne else seq.ty.greatest) then
      { seq with max := defaultMax seq }
    else seq

def checkBounds (seq : Sequence) : PgResult Sequence :=
  if seq.ty.greatest.val < seq.max.val then
    badOption ("MAXVALUE (" ++ toString seq.max.val ++ ") is out of range for sequence data type " ++
      seq.ty.name)
  else if seq.min.val < seq.ty.least.val then
    badOption ("MINVALUE (" ++ toString seq.min.val ++ ") is out of range for sequence data type " ++
      seq.ty.name)
  else if seq.max.val ≤ seq.min.val then
    badOption ("MINVALUE (" ++ toString seq.min.val ++ ") must be less than MAXVALUE (" ++
      toString seq.max.val ++ ")")
  else .ok seq

def setStart (d : SeqDdl) (create : Bool) (seq : Sequence) : Sequence :=
  match d.start with
  | some v => { seq with start := v }
  | none =>
    if create then { seq with start := if seq.ascending then seq.min else seq.max } else seq

def checkStart (seq : Sequence) : PgResult Sequence :=
  if seq.start.val < seq.min.val then
    badOption ("START value (" ++ toString seq.start.val ++ ") cannot be less than MINVALUE (" ++
      toString seq.min.val ++ ")")
  else if seq.max.val < seq.start.val then
    badOption ("START value (" ++ toString seq.start.val ++ ") cannot be greater than MAXVALUE (" ++
      toString seq.max.val ++ ")")
  else .ok seq

def setCache (d : SeqDdl) (seq : Sequence) : PgResult Sequence :=
  match d.cache with
  | none => .ok seq
  | some c =>
    if c.val < 1 then badOption ("CACHE (" ++ toString c.val ++ ") must be greater than zero")
    else .ok { seq with cache := c }

def setCycle (d : SeqDdl) (seq : Sequence) : Sequence :=
  match d.cycle with
  | none => seq
  | some c => { seq with cycle := c }

def applySeqOptions (d : SeqDdl) (create : Bool) (seq : Sequence) : PgResult Sequence := do
  let directed ← setIncrement d seq
  let bounded ← checkBounds (setMax d create (setMin d create directed))
  let started ← checkStart (setStart d create bounded)
  let cached ← setCache d started
  return setCycle d cached

def createSequenceObject (name : String) (ty : SeqType) : Sequence :=
  { name := name, ty := ty, start := I64.one, increment := I64.one, min := I64.one
    max := ty.greatest, cache := I64.one, cycle := false }

def badType {α : Type} : PgResult α :=
  badOption "sequence type must be smallint, integer, or bigint"

def createSequence (name : String) (d : SeqDdl) : PgResult Sequence :=
  match d.asType with
  | none => applySeqOptions d true (createSequenceObject name .int8)
  | some t =>
    match SeqType.ofName t with
    | none => badType
    | some ty => applySeqOptions d true (createSequenceObject name ty)

def Sequence.withType (seq : Sequence) (ty : SeqType) : Sequence :=
  { seq with
    ty := ty
    max := if seq.max = seq.ty.greatest then ty.greatest else seq.max
    min :=
      if seq.min = seq.ty.least then ty.least
      else if seq.min.val = seq.ty.least.val + 1 then
        match ty with
        | .int2 => ⟨-2 ^ 15 + 1, by decide⟩
        | .int4 => ⟨-2 ^ 31 + 1, by decide⟩
        | .int8 => ⟨-2 ^ 63 + 1, by decide⟩
      else seq.min }

def alterSequence (d : SeqDdl) (seq : Sequence) : PgResult Sequence :=
  match d.asType with
  | none => applySeqOptions d false seq
  | some t =>
    match SeqType.ofName t with
    | none => badType
    | some ty => applySeqOptions d false (seq.withType ty)

/-! ### Counters -/

structure SeqValue where
  last : I64
  isCalled : Bool
deriving DecidableEq

/-- What the functions on sequences read and change: the counters, and the session's memory
of its last calls. -/
structure SeqCtx where
  seqs : Nat → Option SeqValue
  currval : Nat → Option I64 := fun _ => none
  lastval : Option Nat := none

def limitReached (seq : Sequence) (which : String) (limit : I64) : PgError :=
  { code := Code.sequenceGeneratorLimitExceeded
    message := "nextval: reached " ++ which ++ " value of sequence \"" ++ seq.name ++ "\" (" ++
      toString limit.val ++ ")" }

/-- The value after `last`; at the 64-bit limits the sum is taken to be the bound. -/
def afterLast (seq : Sequence) (last : I64) : PgResult I64 :=
  let n := (checkedAdd last seq.increment).getD (if seq.ascending then seq.max else seq.min)
  if 0 < seq.increment.val ∧ seq.max.val < n.val then
    if seq.cycle = false then .error (limitReached seq "maximum" seq.max) else .ok seq.min
  else if seq.increment.val < 0 ∧ n.val < seq.min.val then
    if seq.cycle = false then .error (limitReached seq "minimum" seq.min) else .ok seq.max
  else .ok n

def counterNext (seq : Sequence) (cur : SeqValue) : PgResult I64 :=
  if cur.isCalled = false then .ok cur.last else afterLast seq cur.last

def counterOf (seq : Sequence) (found : Option SeqValue) : SeqValue :=
  found.getD { last := seq.start, isCalled := false }

def noSuchSequence (oid : Nat) : PgError :=
  { code := Code.undefinedTable, message := "relation with OID " ++ toString oid ++ " does not exist" }

def nextval (sequences : Nat → Option Sequence) (oid : Nat) (ctx : SeqCtx) :
    SeqCtx × PgResult I64 :=
  match sequences oid with
  | none => (ctx, .error (noSuchSequence oid))
  | some seq =>
    let cur := counterOf seq (ctx.seqs oid)
    match counterNext seq cur with
    | .error e => ({ ctx with seqs := Function.update ctx.seqs oid (some cur) }, .error e)
    | .ok n =>
      ({ seqs := Function.update ctx.seqs oid (some { last := n, isCalled := true })
         currval := Function.update ctx.currval oid (some n)
         lastval := some oid }, .ok n)

def currval (sequences : Nat → Option Sequence) (oid : Nat) (ctx : SeqCtx) : PgResult I64 :=
  match ctx.currval oid with
  | some v => .ok v
  | none =>
    .error { code := Code.objectNotInPrerequisiteState
             message := "currval of sequence \"" ++ ((sequences oid).map Sequence.name).getD "" ++
               "\" is not yet defined in this session" }

def lastval (ctx : SeqCtx) : PgResult I64 :=
  match ctx.lastval.bind ctx.currval with
  | some v => .ok v
  | none =>
    .error { code := Code.objectNotInPrerequisiteState
             message := "lastval is not yet defined in this session" }

def outOfBounds (seq : Sequence) (v : I64) : PgError :=
  { code := Code.numericValueOutOfRange
    message := "setval: value " ++ toString v.val ++ " is out of bounds for sequence \"" ++ seq.name ++
      "\" (" ++ toString seq.min.val ++ ".." ++ toString seq.max.val ++ ")" }

def setval (sequences : Nat → Option Sequence) (oid : Nat) (v : I64) (called : Bool) (ctx : SeqCtx) :
    SeqCtx × PgResult I64 :=
  let set : SeqCtx :=
    { seqs := Function.update ctx.seqs oid (some { last := v, isCalled := called })
      currval := Function.update ctx.currval oid (some v)
      lastval := some oid }
  match sequences oid with
  | none => (set, .ok v)
  | some seq =>
    if v.val < seq.min.val ∨ seq.max.val < v.val then (ctx, .error (outOfBounds seq v))
    else (set, .ok v)

def badRestart (v limit : I64) (word bound : String) : PgError :=
  { code := Code.invalidParameterValue
    message := "RESTART value (" ++ toString v.val ++ ") cannot be " ++ word ++ " than " ++ bound ++
      "VALUE (" ++ toString limit.val ++ ")" }

def restartAt (seq : Sequence) (oid : Nat) (d : SeqDdl) (ctx : SeqCtx) : SeqCtx × PgResult Unit :=
  match d.restart with
  | none => (ctx, .ok ())
  | some restart =>
    let v := restart.getD seq.start
    if v.val < seq.min.val then (ctx, .error (badRestart v seq.min "less" "MIN"))
    else if seq.max.val < v.val then (ctx, .error (badRestart v seq.max "greater" "MAX"))
    else ({ ctx with seqs := Function.update ctx.seqs oid (some { last := v, isCalled := false }) },
      .ok ())

/-! ### Sessions -/

structure SeqDb (V : Type) where
  tables : DbState V
  sequences : Nat → Option Sequence

variable {V : Type} [PgValue V]

instance : Database (SeqDb V) where
  checkDeferredNamed := fun db names => Database.checkDeferredNamed db.tables names
  findConstraint := fun db path name => Database.findConstraint db.tables path name
  onCommitActions := fun temp db => { db with tables := Database.onCommitActions temp db.tables }

structure SeqWorld (V : Type) where
  world : World (SeqDb V)
  seqs : Nat → Option SeqValue
  currval : Nat → Nat → Option I64 := fun _ _ => none
  lastval : Nat → Option Nat := fun _ => none

/-- What a session does.  A statement that calls a function on sequences is taken apart
into its steps: between its calls it may change the copy in any way. -/
inductive SeqAction (V : Type) where
  | statement (stmt : Stmt (SeqDb V))
  | begin
  | acquireWriter
  | change (f : SeqDb V → SeqDb V)
  | commit
  | rollback
  | nextval (oid : Nat)
  | setval (oid : Nat) (v : I64) (called : Bool)
  | alter (oid : Nat) (d : SeqDdl)
  /-- DROP SEQUENCE, or TRUNCATE with RESTART IDENTITY. -/
  | forget (oid : Nat)

namespace SeqWorld

def withConn (w : SeqWorld V) (i : Nat) (c : Conn (SeqDb V)) : SeqWorld V :=
  { w with world :=
    { global := c.global, sessions := Function.update w.world.sessions i c.session } }

def copy (w : SeqWorld V) (i : Nat) : Option (SeqDb V) := (w.world.sessions i).txn.map Txn.state

def changeCopy (w : SeqWorld V) (i : Nat) (f : SeqDb V → SeqDb V) : SeqWorld V :=
  let c := w.world.conn i
  w.withConn i { c with session := { c.session with
    txn := c.session.txn.map (fun tx => { tx with state := f tx.state }) } }

def ctx (w : SeqWorld V) (i : Nat) : SeqCtx :=
  { seqs := w.seqs, currval := w.currval i, lastval := w.lastval i }

def withCtx (w : SeqWorld V) (i : Nat) (ctx : SeqCtx) : SeqWorld V :=
  { w with
    seqs := ctx.seqs
    currval := Function.update w.currval i ctx.currval
    lastval := Function.update w.lastval i ctx.lastval }

def alter (w : SeqWorld V) (i oid : Nat) (d : SeqDdl) (db : SeqDb V) : SeqWorld V :=
  match db.sequences oid with
  | none => w
  | some seq =>
    match alterSequence d seq with
    | .error _ => w
    | .ok altered =>
      let changed := w.changeCopy i (fun db =>
        { db with sequences := Function.update db.sequences oid (some altered) })
      changed.withCtx i (restartAt altered oid d (changed.ctx i)).1

def next (rules : SettingRules) (w : SeqWorld V) (i : Nat) : SeqAction V → SeqWorld V
  | .statement stmt => w.withConn i (execute rules stmt (w.world.conn i)).1
  | .begin => w.withConn i (Postgres.begin (w.world.conn i))
  | .acquireWriter => w.withConn i (Postgres.acquireWriter (w.world.conn i)).1
  | .change f => w.changeCopy i f
  | .commit => w.withConn i (Postgres.commit (w.world.conn i)).1
  | .rollback => w.withConn i (Postgres.rollback (w.world.conn i))
  | .nextval oid =>
    match w.copy i with
    | none => w
    | some db => w.withCtx i (Sequences.nextval db.sequences oid (w.ctx i)).1
  | .setval oid v called =>
    match w.copy i with
    | none => w
    | some db => w.withCtx i (Sequences.setval db.sequences oid v called (w.ctx i)).1
  | .alter oid d =>
    match w.copy i with
    | none => w
    | some db => w.alter i oid d db
  | .forget oid => { w with seqs := Function.update w.seqs oid none }

def answer (w : SeqWorld V) (oid i : Nat) : SeqAction V → List (PgResult I64)
  | .nextval called =>
    match w.copy i with
    | some db => if called = oid then [(Sequences.nextval db.sequences oid (w.ctx i)).2] else []
    | none => []
  | _ => []

def answers (rules : SettingRules) (oid : Nat) :
    SeqWorld V → List (Nat × SeqAction V) → List (PgResult I64)
  | _, [] => []
  | w, e :: rest => w.answer oid e.1 e.2 ++ answers rules oid (w.next rules e.1 e.2) rest

/-- Each call on the sequence meets a condition on the definition that it reads and the
counter that it finds. -/
def EachCall (rules : SettingRules) (oid : Nat)
    (condition : Option Sequence → Option SeqValue → Prop) :
    SeqWorld V → List (Nat × SeqAction V) → Prop
  | _, [] => True
  | w, e :: rest =>
    (e.2 = .nextval oid → ∀ db, w.copy e.1 = some db → condition (db.sequences oid) (w.seqs oid)) ∧
      EachCall rules oid condition (w.next rules e.1 e.2) rest

end SeqWorld

def SeqAction.Keeps (oid : Nat) : SeqAction V → Prop
  | .setval other _ _ => other ≠ oid
  | .alter other _ => other ≠ oid
  | .forget other => other ≠ oid
  | _ => True

/-! ### Definitions that the server accepts -/

structure Sequence.Accepted (seq : Sequence) : Prop where
  increment : seq.increment.val ≠ 0
  bounds : seq.min.val < seq.max.val
  start : seq.min.val ≤ seq.start.val ∧ seq.start.val ≤ seq.max.val

variable {seq' : Sequence} {d : SeqDdl}

theorem checkBounds_ok {seq : Sequence} (accepted : checkBounds seq = .ok seq') :
    seq' = seq ∧ seq.min.val < seq.max.val := by
  unfold checkBounds badOption at accepted
  split at accepted
  · cases accepted
  · split at accepted
    · cases accepted
    · split at accepted
      · cases accepted
      · exact ⟨(Except.ok.inj accepted).symm, by omega⟩

theorem checkStart_ok {seq : Sequence} (accepted : checkStart seq = .ok seq') :
    seq' = seq ∧ seq.min.val ≤ seq.start.val ∧ seq.start.val ≤ seq.max.val := by
  unfold checkStart badOption at accepted
  split at accepted
  · cases accepted
  · split at accepted
    · cases accepted
    · exact ⟨(Except.ok.inj accepted).symm, by omega, by omega⟩

theorem setIncrement_ok {seq : Sequence} (nonzero : seq.increment.val ≠ 0)
    (accepted : setIncrement d seq = .ok seq') : seq'.increment.val ≠ 0 := by
  unfold setIncrement badOption at accepted
  split at accepted
  · rw [← Except.ok.inj accepted]
    exact nonzero
  · split at accepted
    · cases accepted
    · rename_i other
      rw [← Except.ok.inj accepted]
      exact other

theorem setCache_ok {seq : Sequence} (accepted : setCache d seq = .ok seq') :
    ∃ cache, seq' = { seq with cache := cache } := by
  unfold setCache badOption at accepted
  split at accepted
  · exact ⟨seq.cache, (Except.ok.inj accepted).symm⟩
  · split at accepted
    · cases accepted
    · exact ⟨_, (Except.ok.inj accepted).symm⟩

theorem setMin_increment (d : SeqDdl) (create : Bool) (seq : Sequence) :
    (setMin d create seq).increment = seq.increment := by
  unfold setMin
  repeat' split
  all_goals rfl

theorem setMax_increment (d : SeqDdl) (create : Bool) (seq : Sequence) :
    (setMax d create seq).increment = seq.increment := by
  unfold setMax
  repeat' split
  all_goals rfl

theorem setStart_other (d : SeqDdl) (create : Bool) (seq : Sequence) :
    (setStart d create seq).increment = seq.increment ∧ (setStart d create seq).min = seq.min ∧
      (setStart d create seq).max = seq.max := by
  unfold setStart
  repeat' split
  all_goals exact ⟨rfl, rfl, rfl⟩

theorem setCycle_other (d : SeqDdl) (seq : Sequence) :
    (setCycle d seq).increment = seq.increment ∧ (setCycle d seq).min = seq.min ∧
      (setCycle d seq).max = seq.max ∧ (setCycle d seq).start = seq.start := by
  unfold setCycle
  split <;> exact ⟨rfl, rfl, rfl, rfl⟩

theorem applySeqOptions_accepted {create : Bool} {seq : Sequence}
    (nonzero : seq.increment.val ≠ 0) (accepted : applySeqOptions d create seq = .ok seq') :
    seq'.Accepted := by
  unfold applySeqOptions at accepted
  simp only [bind, Except.bind, pure, Except.pure] at accepted
  cases isDirected : setIncrement d seq with
  | error e =>
    rw [isDirected] at accepted
    cases accepted
  | ok directed =>
    rw [isDirected] at accepted
    simp only at accepted
    cases isBounded : checkBounds (setMax d create (setMin d create directed)) with
    | error e =>
      rw [isBounded] at accepted
      cases accepted
    | ok bounded =>
      rw [isBounded] at accepted
      simp only at accepted
      cases isStarted : checkStart (setStart d create bounded) with
      | error e =>
        rw [isStarted] at accepted
        cases accepted
      | ok started =>
        rw [isStarted] at accepted
        simp only at accepted
        cases isCached : setCache d started with
        | error e =>
          rw [isCached] at accepted
          cases accepted
        | ok cached =>
          rw [isCached] at accepted
          obtain ⟨sameBounded, bounds⟩ := checkBounds_ok isBounded
          obtain ⟨sameStarted, start⟩ := checkStart_ok isStarted
          obtain ⟨cache, sameCached⟩ := setCache_ok isCached
          obtain ⟨sameIncrement, sameMin, sameMax⟩ := setStart_other d create bounded
          have directedNonzero := setIncrement_ok nonzero isDirected
          rw [← Except.ok.inj accepted, sameCached, sameStarted]
          rw [sameMin, sameMax] at start
          obtain ⟨kept, keptMin, keptMax, keptStart⟩ :=
            setCycle_other d { setStart d create bounded with cache := cache }
          constructor
          · rw [kept, sameIncrement, sameBounded, setMax_increment, setMin_increment]
            exact directedNonzero
          · rw [keptMin, keptMax, sameMin, sameMax, sameBounded]
            exact bounds
          · rw [keptMin, keptMax, keptStart, sameMin, sameMax]
            exact start

theorem createSequence_accepted {name : String} {seq : Sequence}
    (accepted : createSequence name d = .ok seq) : seq.Accepted := by
  have nonzero : I64.one.val ≠ 0 := by decide
  unfold createSequence badType badOption at accepted
  split at accepted
  · exact applySeqOptions_accepted nonzero accepted
  · split at accepted
    · cases accepted
    · exact applySeqOptions_accepted nonzero accepted

theorem createSequenceObject_accepted (name : String) (ty : SeqType) :
    (createSequenceObject name ty).Accepted := by
  have nonzero : I64.one.val ≠ 0 := by decide
  have large : I64.one.val < ty.greatest.val := by cases ty <;> decide
  exact ⟨nonzero, large, Int.le_refl _, large.le⟩

/-! ### Counting -/

def Sequence.Inside (seq : Sequence) (n : Int) : Prop := seq.min.val ≤ n ∧ n ≤ seq.max.val

instance (seq : Sequence) (n : Int) : Decidable (seq.Inside n) := by
  unfold Sequence.Inside
  infer_instance

def upcoming (seq : Sequence) (found : Option SeqValue) : Int :=
  let cur := counterOf seq found
  if cur.isCalled then cur.last.val + seq.increment.val else cur.last.val

/-- The answers are `first`, `first + increment` and so on, each once and within the bounds,
and from the first value outside them on every call fails. -/
def Counts (seq : Sequence) (first : Int) (answers : List (PgResult I64)) : Prop :=
  ∃ (values : List I64) (refused : List PgError),
    answers = values.map Except.ok ++ refused.map Except.error ∧
    values.map Subtype.val =
      (List.range values.length).map (fun i : Nat => first + (i : Int) * seq.increment.val) ∧
    values.Nodup ∧ (∀ v ∈ values, seq.Inside v.val) ∧
    (refused ≠ [] → ¬ seq.Inside (first + (values.length : Int) * seq.increment.val))

/-- A counter that was not called is within the bounds.  After one that was, the next value
is a 64-bit integer, and not before the bound on the near side. -/
def Fits (seq : Sequence) (found : Option SeqValue) : Prop :=
  let cur := counterOf seq found
  if cur.isCalled = false then seq.Inside cur.last.val
  else InI64 (cur.last.val + seq.increment.val) ∧
    if seq.ascending then seq.min.val ≤ cur.last.val + seq.increment.val
    else cur.last.val + seq.increment.val ≤ seq.max.val

instance (seq : Sequence) (found : Option SeqValue) : Decidable (Fits seq found) := by
  unfold Fits
  infer_instance

theorem inI64_inside {seq : Sequence} {n : Int} (inside : seq.Inside n) : InI64 n := by
  have low := seq.min.property.1
  have high := seq.max.property.2
  unfold Sequence.Inside at inside
  constructor <;> omega

section Progressions

variable {seq : Sequence} {first : Int}

theorem progression_cons (v : I64) (values : List I64) :
    (v :: values).map Subtype.val = (List.range (v :: values).length).map
      (fun i : Nat => first + (i : Int) * seq.increment.val) ↔
    v.val = first ∧ values.map Subtype.val = (List.range values.length).map
      (fun i : Nat => first + seq.increment.val + (i : Int) * seq.increment.val) := by
  have shifted : (List.range values.length).map
      (fun i : Nat => first + ((i + 1 : Nat) : Int) * seq.increment.val) =
      (List.range values.length).map
        (fun i : Nat => first + seq.increment.val + (i : Int) * seq.increment.val) := by
    apply List.map_congr_left
    intro i _
    push_cast
    ring
  rw [List.length_cons, List.range_succ_eq_map, List.map_cons, List.map_cons, List.map_map,
    List.cons.injEq]
  simp only [Function.comp_def, Nat.succ_eq_add_one, shifted]
  simp

theorem progression_fresh (nonzero : seq.increment.val ≠ 0) {values : List I64}
    (progression : values.map Subtype.val = (List.range values.length).map
      (fun i : Nat => first + seq.increment.val + (i : Int) * seq.increment.val)) {v : I64}
    (isFirst : v.val = first) : v ∉ values := by
  intro member
  have among := List.mem_map_of_mem (f := Subtype.val) member
  rw [progression] at among
  obtain ⟨i, _, same⟩ := List.mem_map.mp among
  have product : ((i : Int) + 1) * seq.increment.val = 0 := by
    rw [isFirst] at same
    linarith
  rcases mul_eq_zero.mp product with isZero | isZero
  · omega
  · exact nonzero isZero

theorem counts_ok (accepted : seq.Accepted) {v : I64} (isFirst : v.val = first)
    (inside : seq.Inside first) (later : List (PgResult I64)) :
    Counts seq first (.ok v :: later) ↔ Counts seq (first + seq.increment.val) later := by
  constructor
  · intro counts
    obtain ⟨values, refused, split, progression, once, within, stops⟩ := counts
    cases values with
    | nil =>
      cases refused with
      | nil => cases split
      | cons e refused => cases split
    | cons u values =>
      obtain ⟨_, tail⟩ := List.cons.inj split
      refine ⟨values, refused, tail, ((progression_cons u values).mp progression).2,
        (List.nodup_cons.mp once).2, fun w isW => within w (List.mem_cons_of_mem _ isW), ?_⟩
      intro present
      have outside := stops present
      rw [List.length_cons] at outside
      push_cast at outside
      have same : first + ((values.length : Int) + 1) * seq.increment.val =
          first + seq.increment.val + (values.length : Int) * seq.increment.val := by ring
      rw [← same]
      exact outside
  · intro counts
    obtain ⟨values, refused, split, progression, once, within, stops⟩ := counts
    refine ⟨v :: values, refused, by rw [split]; rfl,
      (progression_cons v values).mpr ⟨isFirst, progression⟩,
      List.nodup_cons.mpr ⟨progression_fresh accepted.increment progression isFirst, once⟩,
      List.forall_mem_cons.mpr ⟨isFirst ▸ inside, within⟩, ?_⟩
    intro present
    have outside := stops present
    rw [List.length_cons]
    push_cast
    have same : first + ((values.length : Int) + 1) * seq.increment.val =
        first + seq.increment.val + (values.length : Int) * seq.increment.val := by ring
    rw [same]
    exact outside

theorem counts_outside (outside : ¬ seq.Inside first) (answers : List (PgResult I64)) :
    Counts seq first answers ↔ ∃ refused : List PgError, answers = refused.map Except.error := by
  constructor
  · intro counts
    obtain ⟨values, refused, split, progression, _, within, _⟩ := counts
    cases values with
    | nil => exact ⟨refused, split⟩
    | cons v values =>
      have isFirst := ((progression_cons v values).mp progression).1
      exact (outside (isFirst ▸ within v List.mem_cons_self)).elim
  · intro refusals
    obtain ⟨refused, split⟩ := refusals
    refine ⟨[], refused, split, rfl, List.nodup_nil, by simp, ?_⟩
    intro _
    simpa using outside

end Progressions

/-! ### One call -/

section Call

variable {seq : Sequence} {found : Option SeqValue}

theorem fits_inside (inside : seq.Inside (upcoming seq found)) : Fits seq found := by
  have inI64 := inI64_inside inside
  unfold Sequence.Inside upcoming at inside
  unfold upcoming at inI64
  unfold Fits Sequence.Inside
  cases called : (counterOf seq found).isCalled with
  | false => simpa [called] using inside
  | true =>
    simp only [called, if_true] at inside inI64
    simp only [called, Bool.true_eq_false, if_false]
    constructor
    · exact inI64
    · split
      · exact inside.1
      · exact inside.2

theorem counterNext_inside (inside : seq.Inside (upcoming seq found)) :
    ∃ v, counterNext seq (counterOf seq found) = .ok v ∧ v.val = upcoming seq found := by
  have inI64 := inI64_inside inside
  unfold Sequence.Inside upcoming at inside
  unfold upcoming at inI64
  unfold counterNext upcoming
  cases called : (counterOf seq found).isCalled with
  | false => exact ⟨(counterOf seq found).last, rfl, by simp [called]⟩
  | true =>
    simp only [called, if_true] at inside inI64
    simp only [called, Bool.true_eq_false, if_false, if_true, afterLast, checkedAdd, dif_pos inI64,
      Option.getD_some]
    rw [if_neg (by omega), if_neg (by omega)]
    exact ⟨_, rfl, rfl⟩

theorem counterNext_beyond (noCycle : seq.cycle = false) (nonzero : seq.increment.val ≠ 0)
    (fits : Fits seq found) (outside : ¬ seq.Inside (upcoming seq found)) :
    ∃ e, counterNext seq (counterOf seq found) = .error e := by
  unfold Fits at fits
  unfold Sequence.Inside upcoming at outside
  unfold counterNext
  cases called : (counterOf seq found).isCalled with
  | false =>
    simp only [called, if_true] at fits
    simp only [called, Bool.false_eq_true, if_false] at outside
    exact (outside fits).elim
  | true =>
    simp only [called, Bool.true_eq_false, if_false] at fits
    simp only [called, if_true] at outside
    simp only [Bool.true_eq_false, if_false, afterLast, checkedAdd, dif_pos fits.1,
      Option.getD_some]
    have near := fits.2
    unfold Sequence.ascending at near
    by_cases up : 0 < seq.increment.val
    · simp only [up, decide_true, if_true] at near
      rw [if_pos ⟨up, by omega⟩, if_pos noCycle]
      exact ⟨_, rfl⟩
    · simp only [up, decide_false, Bool.false_eq_true, if_false] at near
      rw [if_neg (fun both => up both.1), if_pos ⟨by omega, by omega⟩, if_pos noCycle]
      exact ⟨_, rfl⟩

theorem counterNext_unfit (bounds : seq.min.val < seq.max.val) (unfit : ¬ Fits seq found) :
    ∃ v, counterNext seq (counterOf seq found) = .ok v := by
  unfold Fits at unfit
  unfold counterNext
  cases called : (counterOf seq found).isCalled with
  | false => exact ⟨_, rfl⟩
  | true =>
    simp only [called, Bool.true_eq_false, if_false] at unfit
    simp only [Bool.true_eq_false, if_false, afterLast, checkedAdd]
    unfold Sequence.ascending at unfit ⊢
    by_cases inRange : InI64 ((counterOf seq found).last.val + seq.increment.val)
    · simp only [inRange, true_and] at unfit
      simp only [dif_pos inRange, Option.getD_some]
      by_cases up : 0 < seq.increment.val
      · simp only [up, decide_true, if_true] at unfit
        rw [if_neg (by omega), if_neg (by omega)]
        exact ⟨_, rfl⟩
      · simp only [up, decide_false, Bool.false_eq_true, if_false] at unfit
        rw [if_neg (by omega), if_neg (by omega)]
        exact ⟨_, rfl⟩
    · simp only [dif_neg inRange, Option.getD_none]
      by_cases up : 0 < seq.increment.val
      · simp only [up, decide_true, if_true]
        rw [if_neg (by omega), if_neg (by omega)]
        exact ⟨_, rfl⟩
      · simp only [up, decide_false, Bool.false_eq_true, if_false]
        rw [if_neg (by omega), if_neg (by omega)]
        exact ⟨_, rfl⟩

end Call

/-! ### Runs -/

section Runs

variable {rules : SettingRules} {oid : Nat}

omit [PgValue V] in
theorem seqs_alter (w : SeqWorld V) (i : Nat) {other : Nat} (different : other ≠ oid) (d : SeqDdl)
    (db : SeqDb V) : (w.alter i other d db).seqs oid = w.seqs oid := by
  unfold SeqWorld.alter
  split
  · rfl
  · split
    · rfl
    · simp only [SeqWorld.withCtx, restartAt]
      repeat' split
      · rfl
      · rfl
      · rfl
      · exact Function.update_of_ne different.symm _ _

variable {sequences : Nat → Option Sequence}

theorem seqs_setval {other : Nat} (different : other ≠ oid) (v : I64) (called : Bool)
    (ctx : SeqCtx) : (setval sequences other v called ctx).1.seqs oid = ctx.seqs oid := by
  unfold setval
  repeat' split
  · exact Function.update_of_ne different.symm _ _
  · rfl
  · exact Function.update_of_ne different.symm _ _

theorem seqs_nextval {other : Nat} (different : other ≠ oid) (ctx : SeqCtx) :
    (nextval sequences other ctx).1.seqs oid = ctx.seqs oid := by
  unfold nextval
  split
  · rfl
  · simp only
    split
    · exact Function.update_of_ne different.symm _ _
    · exact Function.update_of_ne different.symm _ _

/-- Nothing but a call of `nextval` moves a counter that is kept: no commit, no rollback and
no other statement. -/
theorem seqs_next (w : SeqWorld V) (i : Nat) {action : SeqAction V} (keeps : action.Keeps oid)
    (noCall : action = .nextval oid → w.copy i = none) :
    (w.next rules i action).seqs oid = w.seqs oid := by
  cases action with
  | statement stmt => rfl
  | begin => rfl
  | acquireWriter => rfl
  | change f => rfl
  | commit => rfl
  | rollback => rfl
  | nextval other =>
    by_cases same : other = oid
    · simp only [SeqWorld.next, noCall (by rw [same])]
    · simp only [SeqWorld.next]
      split
      · rfl
      · exact seqs_nextval same _
  | setval other v called =>
    simp only [SeqWorld.next]
    split
    · rfl
    · exact seqs_setval keeps v called _
  | alter other d =>
    simp only [SeqWorld.next]
    split
    · rfl
    · exact seqs_alter w i keeps d _
  | forget other => exact Function.update_of_ne (Ne.symm keeps) _ _

omit [PgValue V] in
theorem answer_quiet (w : SeqWorld V) (i : Nat) {action : SeqAction V}
    (noCall : action = .nextval oid → w.copy i = none) : w.answer oid i action = [] := by
  cases action with
  | nextval other =>
    simp only [SeqWorld.answer]
    split
    · rename_i db isCopy
      split
      · rename_i same
        rw [noCall (by rw [same])] at isCopy
        cases isCopy
      · rfl
    · rfl
  | _ => rfl

omit [PgValue V] in
theorem answer_nextval (w : SeqWorld V) (i : Nat) {db : SeqDb V} (isCopy : w.copy i = some db) :
    w.answer oid i (.nextval oid) = [(nextval db.sequences oid (w.ctx i)).2] := by
  simp [SeqWorld.answer, isCopy]

theorem nextval_ok {seq : Sequence} (reads : sequences oid = some seq) {ctx : SeqCtx} {v : I64}
    (answers : counterNext seq (counterOf seq (ctx.seqs oid)) = .ok v) :
    (nextval sequences oid ctx).2 = .ok v ∧
      (nextval sequences oid ctx).1.seqs oid = some { last := v, isCalled := true } := by
  simp [nextval, reads, answers]

theorem nextval_error {seq : Sequence} (reads : sequences oid = some seq) {ctx : SeqCtx}
    {e : PgError} (refuses : counterNext seq (counterOf seq (ctx.seqs oid)) = .error e) :
    (nextval sequences oid ctx).2 = .error e ∧
      (nextval sequences oid ctx).1.seqs oid = some (counterOf seq (ctx.seqs oid)) := by
  simp [nextval, reads, refuses]

variable {seq : Sequence}

def Reads (seq : Sequence) (definition : Option Sequence) (_ : Option SeqValue) : Prop :=
  definition = some seq

theorem counts_iff_fits (accepted : seq.Accepted) (noCycle : seq.cycle = false)
    (es : List (Nat × SeqAction V)) (w : SeqWorld V) (keeps : ∀ e ∈ es, e.2.Keeps oid)
    (reads : w.EachCall rules oid (Reads seq) es) :
    Counts seq (upcoming seq (w.seqs oid)) (w.answers rules oid es) ↔
      w.EachCall rules oid (fun _ found => Fits seq found) es := by
  induction es generalizing w with
  | nil =>
    constructor
    · intro _
      trivial
    · intro _
      exact ⟨[], [], rfl, rfl, List.nodup_nil, by simp, by simp⟩
  | cons e rest ih =>
    obtain ⟨i, action⟩ := e
    obtain ⟨here, later⟩ := List.forall_mem_cons.mp keeps
    obtain ⟨readsHere, readsLater⟩ := reads
    have tail := ih (w.next rules i action) later readsLater
    by_cases call : action = .nextval oid ∧ w.copy i ≠ none
    · obtain ⟨isCall, present⟩ := call
      subst isCall
      obtain ⟨db, isCopy⟩ := Option.ne_none_iff_exists'.mp present
      have isSeq : db.sequences oid = some seq := readsHere rfl db isCopy
      have moved : (w.next rules i (.nextval oid)).seqs oid =
          (nextval db.sequences oid (w.ctx i)).1.seqs oid := by
        simp only [SeqWorld.next, isCopy]
        rfl
      have condition : w.EachCall rules oid (fun _ found => Fits seq found)
          ((i, .nextval oid) :: rest) ↔ Fits seq (w.seqs oid) ∧
            (w.next rules i (.nextval oid)).EachCall rules oid (fun _ found => Fits seq found) rest :=
        ⟨fun each => ⟨each.1 rfl db isCopy, each.2⟩, fun both => ⟨fun _ _ _ => both.1, both.2⟩⟩
      rw [condition, SeqWorld.answers, answer_nextval w i isCopy, List.singleton_append]
      by_cases inside : seq.Inside (upcoming seq (w.seqs oid))
      · obtain ⟨v, answers, isFirst⟩ := counterNext_inside inside
        have answers' : counterNext seq (counterOf seq ((w.ctx i).seqs oid)) = .ok v := answers
        obtain ⟨isOk, counter⟩ := nextval_ok isSeq answers'
        have next : upcoming seq ((w.next rules i (.nextval oid)).seqs oid) =
            upcoming seq (w.seqs oid) + seq.increment.val := by
          rw [moved, counter, ← isFirst]
          rfl
        rw [isOk, counts_ok accepted isFirst inside, ← next, tail]
        exact (and_iff_right (fits_inside inside)).symm
      · by_cases fits : Fits seq (w.seqs oid)
        · obtain ⟨e, refuses⟩ := counterNext_beyond noCycle accepted.increment fits inside
          have refuses' : counterNext seq (counterOf seq ((w.ctx i).seqs oid)) = .error e :=
            refuses
          obtain ⟨isError, counter⟩ := nextval_error isSeq refuses'
          have same : upcoming seq ((w.next rules i (.nextval oid)).seqs oid) =
              upcoming seq (w.seqs oid) := by
            rw [moved, counter]
            rfl
          rw [isError, counts_outside inside, and_iff_right fits, ← tail, same,
            counts_outside inside]
          constructor
          · intro refusals
            obtain ⟨refused, split⟩ := refusals
            cases refused with
            | nil => cases split
            | cons e' refused => exact ⟨refused, (List.cons.inj split).2⟩
          · intro refusals
            obtain ⟨refused, split⟩ := refusals
            exact ⟨e :: refused, by rw [split]; rfl⟩
        · obtain ⟨v, answers⟩ := counterNext_unfit accepted.bounds fits
          have answers' : counterNext seq (counterOf seq ((w.ctx i).seqs oid)) = .ok v := answers
          obtain ⟨isOk, _⟩ := nextval_ok isSeq answers'
          rw [isOk, counts_outside inside]
          constructor
          · intro refusals
            obtain ⟨refused, split⟩ := refusals
            cases refused with
            | nil => cases split
            | cons e refused => cases (List.cons.inj split).1
          · intro both
            exact (fits both.1).elim
    · have noCall : action = .nextval oid → w.copy i = none := by
        intro isCall
        by_contra present
        exact call ⟨isCall, present⟩
      have condition : w.EachCall rules oid (fun _ found => Fits seq found) ((i, action) :: rest) ↔
          (w.next rules i action).EachCall rules oid (fun _ found => Fits seq found) rest := by
        apply and_iff_right
        intro isCall db isCopy
        rw [noCall isCall] at isCopy
        cases isCopy
      rw [condition, SeqWorld.answers, answer_quiet w i noCall, List.nil_append, ← tail,
        seqs_next w i here noCall]

theorem SeqWorld.EachCall.imp {p q : Option Sequence → Option SeqValue → Prop}
    (implies : ∀ definition found, p definition found → q definition found)
    (es : List (Nat × SeqAction V)) {w : SeqWorld V} (each : w.EachCall rules oid p es) :
    w.EachCall rules oid q es := by
  induction es generalizing w with
  | nil => trivial
  | cons e rest ih =>
    exact ⟨fun isCall db isCopy => implies _ _ (each.1 isCall db isCopy), ih each.2⟩

theorem SeqWorld.EachCall.quiet {p : Option Sequence → Option SeqValue → Prop} {w : SeqWorld V}
    {e : Nat × SeqAction V} {rest : List (Nat × SeqAction V)} (noCall : e.2 ≠ .nextval oid)
    (later : (w.next rules e.1 e.2).EachCall rules oid p rest) :
    w.EachCall rules oid p (e :: rest) :=
  ⟨fun isCall => (noCall isCall).elim, later⟩

theorem SeqWorld.EachCall.call {p : Option Sequence → Option SeqValue → Prop} {w : SeqWorld V}
    {i : Nat} {db : SeqDb V} {rest : List (Nat × SeqAction V)} (isCopy : w.copy i = some db)
    (holds : p (db.sequences oid) (w.seqs oid))
    (later : (w.next rules i (.nextval oid)).EachCall rules oid p rest) :
    w.EachCall rules oid p ((i, .nextval oid) :: rest) := by
  constructor
  · intro _ db' isCopy'
    obtain rfl := Option.some.inj (isCopy.symm.trans isCopy')
    exact holds
  · exact later

end Runs

/-! ### Two runs -/

def countingWorld (seq : Sequence) : SeqWorld Scalar where
  world :=
    { global :=
        { db := { tables := keyedWorld.global.db
                  sequences := fun oid => if oid = 7 then some seq else none } }
      sessions := fun i => { id := i, rt := { settings := { values := fun _ => none } } } }
  seqs := fun _ => none

def smallSequence : Sequence := createSequenceObject "s" .int2

def rolledBack : List (Nat × SeqAction Scalar) :=
  [(1, .begin), (1, .acquireWriter), (1, .nextval 7), (1, .rollback), (2, .begin),
    (2, .acquireWriter), (2, .nextval 7), (2, .commit)]

/-- `CREATE SEQUENCE s START 9223372036854775807`. -/
def lastSequence : Sequence := { createSequenceObject "s" .int8 with start := I64.greatest }

def calledTwice : List (Nat × SeqAction Scalar) :=
  [(1, .begin), (1, .acquireWriter), (1, .nextval 7), (1, .nextval 7), (1, .commit)]

structure Remembers (oid : Nat) (ctx ctx' : SeqCtx) (value : Option I64) : Prop where
  currval : ctx'.currval =
    value.elim ctx.currval (fun v => Function.update ctx.currval oid (some v))
  lastval : ctx'.lastval = value.elim ctx.lastval (fun _ => some oid)

variable {ctx : SeqCtx} {sequences : Nat → Option Sequence} {oid : Nat}

theorem nextval_remembers :
    Remembers oid ctx (nextval sequences oid ctx).1 (nextval sequences oid ctx).2.toOption := by
  unfold nextval
  split
  · exact ⟨rfl, rfl⟩
  · dsimp only
    split
    · exact ⟨rfl, rfl⟩
    · exact ⟨rfl, rfl⟩

theorem setval_remembers (v : I64) (called : Bool) :
    Remembers oid ctx (setval sequences oid v called ctx).1
      (setval sequences oid v called ctx).2.toOption := by
  unfold setval
  split
  · exact ⟨rfl, rfl⟩
  · split
    · exact ⟨rfl, rfl⟩
    · exact ⟨rfl, rfl⟩

theorem restartAt_remembers (seq : Sequence) (d : SeqDdl) :
    Remembers oid ctx (restartAt seq oid d ctx).1 none := by
  unfold restartAt
  split
  · exact ⟨rfl, rfl⟩
  · dsimp only
    split
    · exact ⟨rfl, rfl⟩
    · split
      · exact ⟨rfl, rfl⟩
      · exact ⟨rfl, rfl⟩

namespace SeqWorld

/-- The value that a call answers the session with, and its sequence. -/
def told (w : SeqWorld V) (i : Nat) : SeqAction V → Option (Nat × I64)
  | .nextval oid => (w.copy i).bind (fun db =>
      (Sequences.nextval db.sequences oid (w.ctx i)).2.toOption.map (fun v => (oid, v)))
  | .setval oid v called => (w.copy i).bind (fun db =>
      (Sequences.setval db.sequences oid v called (w.ctx i)).2.toOption.map (fun v => (oid, v)))
  | _ => none

/-- What a session has been told, the last first, after what it was told before. -/
def heard (rules : SettingRules) (j : Nat) :
    SeqWorld V → List (Nat × SeqAction V) → List (Nat × I64) → List (Nat × I64)
  | _, [], before => before
  | w, e :: rest, before => heard rules j (w.next rules e.1 e.2) rest
      (if e.1 = j then (w.told e.1 e.2).toList ++ before else before)

structure Recalls (w : SeqWorld V) (j : Nat) (values : List (Nat × I64)) : Prop where
  currval : ∀ oid, w.currval j oid = values.lookup oid
  lastval : w.lastval j = values.head?.map Prod.fst

variable {w : SeqWorld V} {i j : Nat} {values : List (Nat × I64)}

omit [PgValue V] in
theorem Recalls.withCtx {ctx' : SeqCtx} {value : Option I64} (recalls : Recalls w j values)
    (remembers : Remembers oid (w.ctx i) ctx' value) :
    Recalls (w.withCtx i ctx') j
      (if i = j then (value.map (fun v => (oid, v))).toList ++ values else values) := by
  obtain ⟨currval, lastval⟩ := recalls
  by_cases own : i = j
  · subst own
    rw [if_pos rfl]
    constructor
    · intro o
      simp only [SeqWorld.withCtx, Function.update_self, remembers.currval]
      cases value with
      | none => exact currval o
      | some v =>
        by_cases same : o = oid
        · simp [same]
        · simpa [List.lookup_cons, same, beq_eq_false_iff_ne.mpr same, SeqWorld.ctx] using currval o
    · simp only [SeqWorld.withCtx, Function.update_self, remembers.lastval]
      cases value with
      | none => exact lastval
      | some v => rfl
  · rw [if_neg own]
    have other := Ne.symm own
    exact ⟨fun o => by simpa [SeqWorld.withCtx, other] using currval o,
      by simpa [SeqWorld.withCtx, other] using lastval⟩

theorem Recalls.next (recalls : Recalls w j values) (rules : SettingRules) (action : SeqAction V) :
    Recalls (w.next rules i action) j
      (if i = j then (w.told i action).toList ++ values else values) := by
  have same : (if i = j then [] ++ values else values) = values := ite_self values
  cases action with
  | nextval oid =>
    unfold SeqWorld.next told
    cases w.copy i with
    | none => exact same.symm ▸ recalls
    | some db => exact recalls.withCtx nextval_remembers
  | setval oid v called =>
    unfold SeqWorld.next told
    cases w.copy i with
    | none => exact same.symm ▸ recalls
    | some db => exact recalls.withCtx (setval_remembers v called)
  | alter oid d =>
    unfold SeqWorld.next
    cases w.copy i with
    | none => exact same.symm ▸ recalls
    | some db =>
      dsimp only
      unfold SeqWorld.alter
      split
      · exact same.symm ▸ recalls
      · split
        · exact same.symm ▸ recalls
        next altered _ =>
          have changed : Recalls (w.changeCopy i (fun db =>
              { db with sequences := Function.update db.sequences oid (some altered) })) j values :=
            ⟨recalls.currval, recalls.lastval⟩
          exact changed.withCtx (restartAt_remembers altered d)
  | _ => exact same.symm ▸ ⟨recalls.currval, recalls.lastval⟩

theorem Recalls.run (recalls : Recalls w j values) (rules : SettingRules)
    (es : List (Nat × SeqAction V)) :
    Recalls (es.foldl (fun w e => w.next rules e.1 e.2) w) j (w.heard rules j es values) := by
  induction es generalizing w values with
  | nil => exact recalls
  | cons e es ih => exact ih (recalls.next rules e.2)

end SeqWorld

end NoidaDb.Postgres.Sequences
