/-
What a statement waits for.

A statement that must wait says so by an error that names a connection.  Whatever it does
before, the connection it names has an open transaction that holds a row of some table.
-/

import NoidaDb.MySql.Statements

namespace NoidaDb.MySql

open MyValue Lib

def Quiet {α : Type} (result : MyResult α) : Prop := ∀ holder, result ≠ .error (.lockWait holder)

namespace Quiet

variable {α β : Type}

theorem ok (value : α) : Quiet (.ok value) := by
  intro holder impossible
  cases impossible

theorem error (code : Nat) (sqlState message : String) :
    Quiet (.error (.error code sqlState message) : MyResult α) := by
  intro holder impossible
  cases impossible

theorem bind {first : MyResult α} {next : α → MyResult β} (quiet : Quiet first)
    (later : ∀ value, Quiet (next value)) : Quiet (first >>= next) := by
  cases isFirst : first with
  | error e =>
    rw [isFirst] at quiet
    intro holder isWait
    have isError : (.error e : MyResult β) = .error (.lockWait holder) := isWait
    cases isError
    exact quiet holder rfl
  | ok value => exact later value

theorem forM {items : List α} {body : α → MyResult PUnit} (each : ∀ x ∈ items, Quiet (body x)) :
    Quiet (items.forM body) := by
  induction items with
  | nil => exact Quiet.ok _
  | cons x rest ih =>
    show Quiet (body x >>= fun _ => rest.forM body)
    obtain ⟨here, later⟩ := List.forall_mem_cons.mp each
    exact here.bind (fun _ => ih later)

theorem foldlM {items : List α} {body : β → α → MyResult β} (init : β)
    (each : ∀ value, ∀ x ∈ items, Quiet (body value x)) : Quiet (items.foldlM body init) := by
  induction items generalizing init with
  | nil => exact Quiet.ok init
  | cons x rest ih =>
    rw [List.foldlM_cons]
    apply (each init x List.mem_cons_self).bind
    intro value
    exact ih value (fun value x member => each value x (List.mem_cons_of_mem _ member))

theorem mapM {items : List α} {body : α → MyResult β} (each : ∀ x ∈ items, Quiet (body x)) :
    Quiet (items.mapM body) := by
  induction items with
  | nil => exact Quiet.ok []
  | cons x rest ih =>
    rw [List.mapM_cons]
    obtain ⟨here, later⟩ := List.forall_mem_cons.mp each
    apply here.bind
    intro value
    apply (ih later).bind
    intro values
    exact Quiet.ok _

theorem filterM {items : List α} {body : α → MyResult Bool} (each : ∀ x ∈ items, Quiet (body x)) :
    Quiet (items.filterM body) := by
  have taken : ∀ kept, Quiet (items.filterAuxM body kept) := by
    induction items with
    | nil => exact Quiet.ok
    | cons x rest ih =>
      intro kept
      obtain ⟨here, later⟩ := List.forall_mem_cons.mp each
      exact here.bind (fun _ => ih later _)
  exact (taken []).bind (fun _ => Quiet.ok _)

theorem ite {condition : Prop} [Decidable condition] {yes no : MyResult α} (whenTrue : Quiet yes)
    (whenFalse : Quiet no) : Quiet (if condition then yes else no) := by
  split
  · exact whenTrue
  · exact whenFalse

end Quiet

section Expressions

variable {V : Type}

structure Session.Quiet (s : Session V) : Prop where
  coerce : ∀ v c, MySql.Quiet (s.coerceToColumn v c)
  bind : ∀ c, MySql.Quiet (s.bindCheck c)
  eval : ∀ c t row, MySql.Quiet (s.evalCheck c t row)

structure Choice.Quiet (choice : Choice V) : Prop where
  selection : ∀ sel ∈ choice.selection, ∀ t row, MySql.Quiet (sel t row)
  order : ∀ e ∈ choice.order, ∀ t row, MySql.Quiet (e.1 t row)
  limit : ∀ l ∈ choice.limit, MySql.Quiet l

def AssignmentsQuiet (assignments : List (Assignment V)) : Prop :=
  ∀ a ∈ assignments, ∀ value ∈ a.2, ∀ t row, Quiet (value t row)

def ValuesQuiet (values : Values V) : Prop := ∀ v ∈ values, ∀ r ∈ v, Quiet r

def InsertMode.Quiet : InsertMode V → Prop
  | .upsert assignments => ∀ row, AssignmentsQuiet (assignments row)
  | _ => True

variable {s : Session V}

theorem quiet_bindChecks (quiet : s.Quiet) (t : Table V) : Quiet (bindChecks s t) :=
  Quiet.forM (fun c _ => quiet.bind c)

theorem quiet_insertColumns (t : Table V) (columns : List String) :
    Quiet (insertColumns t columns) := by
  unfold insertColumns
  apply Quiet.ite (Quiet.ok _)
  apply Quiet.mapM
  intro c _
  split
  · exact Quiet.ok _
  · exact Quiet.error _ _ _

variable [MyValue V]

theorem quiet_givenRow (width : Nat) (colIndices : List Nat) {values : Values V}
    (quiet : ValuesQuiet values) : Quiet (givenRow width colIndices values) := by
  apply Quiet.foldlM
  intro state x member
  split
  · exact Quiet.ok _
  · rename_i value isValue
    have given : x.1 ∈ values := (List.of_mem_zip member).1
    exact (quiet _ given value isValue).bind (fun _ => Quiet.ok _)

variable [DecidableEq V]

theorem quiet_enforceChecks (quiet : s.Quiet) (t : Table V) (row : Row V) :
    Quiet (enforceChecks s t row) := by
  apply Quiet.forM
  intro c _
  apply (quiet.eval c t row).bind
  intro v
  exact Quiet.ite (Quiet.error _ _ _) (Quiet.ok _)

theorem quiet_selects {choice : Choice V} (quiet : choice.Quiet) (t : Table V) (row : Row V) :
    Quiet (selects choice t row) := by
  unfold selects
  split
  · exact Quiet.ok _
  · rename_i sel isSelection
    exact (quiet.selection sel isSelection t row).bind (fun _ => Quiet.ok _)

theorem quiet_dmlTargets {choice : Choice V} (quiet : choice.Quiet) (t : Table V) :
    Quiet (dmlTargets choice t) := by
  unfold dmlTargets
  extract_lets limited
  have rest : ∀ limit, Quiet (limited limit) := by
    intro limit
    apply (Quiet.filterM (fun x _ => quiet_selects quiet t x.1)).bind
    intro rows
    cases limit with
    | none =>
      apply Quiet.ite
      · exact Quiet.ok _
      · apply Quiet.bind _ (fun _ => Quiet.ok _)
        apply Quiet.mapM
        intro x _
        apply (Quiet.mapM (fun e member => quiet.order e member t x.1)).bind
        intro k
        exact Quiet.ok _
    | some n =>
      apply Quiet.ite
      · exact Quiet.ok _
      · apply Quiet.bind _ (fun _ => Quiet.ok _)
        apply Quiet.mapM
        intro x _
        apply (Quiet.mapM (fun e member => quiet.order e member t x.1)).bind
        intro k
        exact Quiet.ok _
  split
  · exact (Quiet.ok _).bind rest
  · rename_i l isLimit
    apply (quiet.limit l isLimit).bind
    intro n
    exact (Quiet.ok _).bind rest

theorem quiet_assign (quiet : s.Quiet) (t : Table V) (state : Row V × List Nat) {a : Assignment V}
    (values : ∀ value ∈ a.2, ∀ t row, Quiet (value t row)) : Quiet (assign s t state a) := by
  unfold assign
  split
  · exact Quiet.error _ _ _
  · rename_i idx col _
    extract_lets stored
    have rest : ∀ v, Quiet (stored v) := by
      intro v
      apply Quiet.ite
      · exact Quiet.error _ _ _
      · exact (quiet.coerce v col).bind (fun _ => Quiet.ok _)
    split
    · exact rest _
    · rename_i value isValue
      exact (values value isValue t state.1).bind rest

theorem quiet_applyAssignments (quiet : s.Quiet) (t : Table V) (i : Nat)
    {assignments : List (Assignment V)} (values : AssignmentsQuiet assignments) :
    Quiet (applyAssignments s t i assignments) := by
  unfold applyAssignments
  apply Quiet.bind
  · exact Quiet.foldlM _ (fun state a member => quiet_assign quiet _ state (values a member))
  intro assigned
  apply Quiet.ite (Quiet.ok _)
  apply (quiet_bindChecks quiet _).bind
  intro _
  exact (quiet_enforceChecks quiet _ _).bind (fun _ => Quiet.ok _)

theorem quiet_updateRow (quiet : s.Quiet) (keys : List (String × List Nat)) (fk : Bool)
    (recheck : Table V → Row V → Row V → Bool) (state : Updating V)
    {x : Nat × List (Assignment V)} (values : AssignmentsQuiet x.2) :
    Quiet (updateRow s keys fk recheck state x) := by
  unfold updateRow
  apply (quiet_applyAssignments quiet state.work x.1 values).bind
  intro work
  simp only
  split
  · exact Quiet.error _ _ _
  · exact Quiet.ite (Quiet.ok _) (Quiet.ite (Quiet.ok _) (Quiet.ok _))

theorem quiet_resolveConflict (quiet : s.Quiet) (keys : List (String × List Nat))
    {mode : InsertMode V} (values : mode.Quiet) (newRow : Row V) (i k : Nat) (state : Inserting V) :
    Quiet (resolveConflict s keys mode newRow i k state) := by
  cases mode with
  | error => exact Quiet.error _ _ _
  | ignore => exact Quiet.ok _
  | replace => exact Quiet.ok _
  | upsert assignments =>
    apply (quiet_applyAssignments quiet state.work i (values newRow)).bind
    intro updated
    simp only
    split
    · exact Quiet.error _ _ _
    · exact Quiet.ok _

theorem quiet_childChange (parent : Table V) (childKey : Key) (fk : ForeignKey)
    (state : Table V × List (Change V)) (change : Change V) :
    Quiet (childChange parent childKey fk state change) := by
  unfold childChange
  split
  · exact Quiet.ok _
  · simp only
    apply Quiet.ite (Quiet.ok _)
    apply Quiet.ite (Quiet.ok _)
    split
    · exact Quiet.error _ _ _
    · exact Quiet.error _ _ _
    · exact Quiet.ok _
    · exact Quiet.ok _
    · exact Quiet.ok _

end Expressions

section Waits

variable {V : Type} [DecidableEq V] [MyValue V] (walk : Walk (Nat × TxUndo V))
  (virtual : VirtualTables V)

/-- The connection `holder` has an open transaction that holds a row, as `me` sees it. -/
def HoldsRow (state : DbState V) (me holder : Nat) : Prop :=
  ∃ key row exclusive, (holder, row, exclusive) ∈ state.lockedRows walk me key

variable {walk}

variable {s : Session V} {α : Type} {me holder : Nat} {mode : InsertMode V}

theorem HoldsRow.congr {state state' : DbState V} (same : state'.openTxns = state.openTxns)
    (holds : HoldsRow walk state' me holder) : HoldsRow walk state me holder := by
  unfold HoldsRow DbState.lockedRows at holds ⊢
  rw [same] at holds
  exact holds

theorem HoldsRow.isOpen {state : DbState V} (holds : HoldsRow walk state me holder) :
    holder ≠ me ∧ ∃ undo, (holder, undo) ∈ state.openTxns := by
  obtain ⟨key, row, exclusive, member⟩ := holds
  unfold DbState.lockedRows at member
  obtain ⟨x, isOther, held⟩ := List.mem_flatMap.mp member
  obtain ⟨inWalk, different⟩ := List.mem_filter.mp isOther
  have isOpen := (walk.perm state.openTxns).mem_iff.mp inWalk
  have isHolder : holder = x.1 := by
    rcases List.mem_append.mp held with written | locked
    · split at written
      · cases written
      · obtain ⟨r, _, isRow⟩ := List.mem_map.mp written
        exact (congrArg Prod.fst isRow).symm
    · obtain ⟨l, _, isLock⟩ := List.mem_map.mp locked
      exact (congrArg Prod.fst isLock).symm
  subst isHolder
  exact ⟨by simpa using different, x.2, isOpen⟩

theorem serve_openTxns (c : DbCall V) (state : DbState V) :
    (DbState.serve walk virtual c state).2.openTxns = state.openTxns := by
  cases c with
  | load key => rfl
  | referencing key => rfl
  | locked me key => rfl
  | store key copy work =>
    show (if key.1 ∈ state.databases then ((.ok () : MyResult Unit), state.insert key work)
      else (.error (.unknownDatabase key.1), state)).2.openTxns = state.openTxns
    split
    · rfl
    · rfl
  | counter key copy next =>
    show (state.setCounter key next).openTxns = state.openTxns
    unfold DbState.setCounter
    split
    · rfl
    · rfl
  | countPast id => rfl

theorem run_openTxns (program : Section V α) (state : DbState V) :
    (program.run (DbState.serve walk virtual) state).2.openTxns = state.openTxns := by
  induction program generalizing state with
  | done result => rfl
  | call c next ih => exact (ih _ _).trans (serve_openTxns virtual c state)

variable (walk)

/-- The database where, of all rows that others hold, only those of `holder` are held. -/
def DbState.serveAlone (holder : Nat) : Program.Server (dbInterface V) (DbState V)
  | .locked me key, state =>
    (((state.lockedRows walk me key).filter (fun l => l.1 == holder),
      (state.get key).map Shared.table), state)
  | c, state => DbState.serve walk virtual c state

/-- On its own, the program waits only for connections that hold a row, and what others hold
than the one it waits for is nothing to it. -/
structure Honest {α : Type} (me : Nat) (program : Exec V α) : Prop where
  holds : ∀ state holder, (program.run.run (DbState.serve walk virtual) state).1 =
    .error (.lockWait holder) → HoldsRow walk state me holder
  alone : ∀ state holder, (∀ other, (program.run.run (DbState.serve walk virtual) state).1 =
      .error (.lockWait other) → other = holder) →
    program.run.run (DbState.serveAlone walk virtual holder) state =
      program.run.run (DbState.serve walk virtual) state

namespace Honest

variable {walk virtual} {α β : Type} {me : Nat}

theorem ofResult {result : MyResult α} (quiet : Quiet result) :
    Honest walk virtual me (liftResult result) where
  holds := fun _ holder isWait => (quiet holder isWait).elim
  alone := fun _ _ _ => rfl

theorem pure (value : α) : Honest walk virtual me (Pure.pure value : Exec V α) :=
  Honest.ofResult (Quiet.ok value)

theorem throw (code : Nat) (sqlState message : String) :
    Honest walk virtual me (MonadExcept.throw (.error code sqlState message) : Exec V α) :=
  Honest.ofResult (Quiet.error code sqlState message)

theorem bind {first : Exec V α} {next : α → Exec V β} (honest : Honest walk virtual me first)
    (later : ∀ value, Honest walk virtual me (next value)) :
    Honest walk virtual me (first >>= next) := by
  constructor
  · intro state holder isWait
    have before : (first.run.run (DbState.serve walk virtual) state).2.openTxns =
        state.openTxns := run_openTxns virtual first.run state
    rw [ExceptT.run_bind, Program.run_bind] at isWait
    cases isFirst : (first.run.run (DbState.serve walk virtual) state).1 with
    | error e =>
      rw [isFirst] at isWait
      have isError : (.error e : MyResult β) = .error (.lockWait holder) := isWait
      cases isError
      exact honest.holds state holder isFirst
    | ok value =>
      rw [isFirst] at isWait
      exact ((later value).holds _ holder isWait).congr before
  · intro state holder isHolder
    rw [ExceptT.run_bind, Program.run_bind] at isHolder
    rw [ExceptT.run_bind, Program.run_bind, Program.run_bind]
    cases isFirst : (first.run.run (DbState.serve walk virtual) state).1 with
    | error e =>
      rw [isFirst] at isHolder
      have same := honest.alone state holder (by
        intro other isWait
        rw [isFirst] at isWait
        cases isWait
        exact isHolder other rfl)
      rw [same, isFirst]
      rfl
    | ok value =>
      rw [isFirst] at isHolder
      have same := honest.alone state holder (by
        intro other isWait
        rw [isFirst] at isWait
        cases isWait)
      rw [same, isFirst]
      exact (later value).alone _ holder isHolder

theorem afterResult {result : MyResult α} {next : α → Exec V β} (quiet : Quiet result)
    (later : ∀ value, result = .ok value → Honest walk virtual me (next value)) :
    Honest walk virtual me (liftResult result >>= next) := by
  cases isResult : result with
  | error e =>
    constructor
    · intro state holder isWait
      have isError : (.error e : MyResult β) = .error (.lockWait holder) := isWait
      cases isError
      exact (quiet holder isResult).elim
    · intro state holder _
      rfl
  | ok value => exact later value isResult

theorem ite {condition : Prop} [Decidable condition] {yes no : Exec V α}
    (whenTrue : Honest walk virtual me yes) (whenFalse : Honest walk virtual me no) :
    Honest walk virtual me (if condition then yes else no) := by
  split
  · exact whenTrue
  · exact whenFalse

theorem forM {items : List β} {body : β → Exec V PUnit}
    (each : ∀ x ∈ items, Honest walk virtual me (body x)) :
    Honest walk virtual me (items.forM body) := by
  induction items with
  | nil => exact Honest.pure _
  | cons x rest ih =>
    obtain ⟨here, later⟩ := List.forall_mem_cons.mp each
    show Honest walk virtual me (body x >>= fun _ => rest.forM body)
    exact here.bind (fun _ => ih later)

theorem foldlM {items : List β} {body : α → β → Exec V α} (init : α)
    (each : ∀ value, ∀ x ∈ items, Honest walk virtual me (body value x)) :
    Honest walk virtual me (items.foldlM body init) := by
  induction items generalizing init with
  | nil => exact Honest.pure init
  | cons x rest ih =>
    rw [List.foldlM_cons]
    apply (each init x List.mem_cons_self).bind
    intro value
    exact ih value (fun value x member => each value x (List.mem_cons_of_mem _ member))

end Honest

variable {walk} {virtual}

omit [DecidableEq V] [MyValue V] in
theorem quiet_loadTable (state : DbState V) (key : Key) : Quiet (state.loadTable virtual key) := by
  unfold DbState.loadTable
  split
  · exact Quiet.ok _
  · exact Quiet.ite (Quiet.error _ _ _) (Quiet.error _ _ _)

theorem honest_loadTable (me : Nat) (key : Key) : Honest walk virtual me (loadTable key) where
  holds := fun state holder isWait => (quiet_loadTable state key holder isWait).elim
  alone := fun _ _ _ => rfl

theorem honest_referencing (me : Nat) (key : Key) :
    Honest walk virtual me (referencing key) where
  holds := by
    intro state holder isWait
    cases isWait
  alone := fun _ _ _ => rfl

theorem honest_insertTable (me : Nat) (key : Key) (copy work : Table V) :
    Honest walk virtual me (insertTable key copy work) where
  holds := by
    intro state holder isWait
    have answered : (DbState.serve walk virtual (.store key copy work) state).1 =
        (.error (.lockWait holder) : MyResult Unit) := isWait
    have isStore : DbState.serve walk virtual (.store key copy work) state =
        if key.1 ∈ state.databases then ((.ok () : MyResult Unit), state.insert key work)
        else (.error (.unknownDatabase key.1), state) := rfl
    rw [isStore] at answered
    split at answered
    · cases answered
    · cases answered
  alone := fun _ _ _ => rfl

theorem mem_of_holderOf {t : Table V} {locked : List (Nat × List V × Bool)} {rows : List (Row V)}
    (found : holderOf t locked rows = some holder) :
    ∃ row exclusive, (holder, row, exclusive) ∈ locked := by
  obtain ⟨r, _, isHolder⟩ := List.exists_of_findSome?_eq_some found
  obtain ⟨l, isLock, isHolder⟩ := Option.map_eq_some_iff.mp isHolder
  subst isHolder
  exact ⟨l.2.1, l.2.2, List.mem_of_find?_eq_some isLock⟩

theorem holderOf_alone {t : Table V} {locked : List (Nat × List V × Bool)} {rows : List (Row V)}
    (isHolder : ∀ other, holderOf t locked rows = some other → other = holder) :
    holderOf t (locked.filter (fun l => l.1 == holder)) rows = holderOf t locked rows := by
  induction rows with
  | nil => rfl
  | cons r rest ih =>
    unfold holderOf at isHolder ih ⊢
    simp only [List.findSome?_cons] at isHolder ⊢
    cases first : locked.find? (fun l => decide (l.2.1 = rowKey t r)) with
    | none =>
      rw [first] at isHolder
      have missing : (locked.filter (fun l => l.1 == holder)).find?
          (fun l => decide (l.2.1 = rowKey t r)) = none := by
        rw [List.find?_eq_none] at first ⊢
        intro l member
        exact first l (List.mem_of_mem_filter member)
      rw [missing]
      exact ih isHolder
    | some l =>
      rw [first] at isHolder
      have isOwn : l.1 = holder := isHolder l.1 rfl
      have found : (locked.filter (fun l => l.1 == holder)).find?
          (fun l => decide (l.2.1 = rowKey t r)) = some l := by
        rw [List.find?_filter]
        obtain ⟨isRow, before, after, split, others⟩ := List.find?_eq_some_iff_append.mp first
        rw [List.find?_eq_some_iff_append]
        refine ⟨by simp [isOwn, of_decide_eq_true isRow], before, after, split, ?_⟩
        intro x member
        have other := others x member
        simp only [Bool.not_eq_eq_eq_not, Bool.not_true] at other ⊢
        simp [other]
      rw [found]
      rfl

theorem run_lockedRows (me : Nat) (key : Key)
    (next : List (Nat × List V × Bool) × Option (Table V) → Exec V α) (state : DbState V) :
    (lockedRows me key >>= next).run.run (DbState.serve walk virtual) state =
      (next (state.lockedRows walk me key, (state.get key).map Shared.table)).run.run
        (DbState.serve walk virtual) state :=
  rfl

theorem runAlone_lockedRows (me : Nat) (key : Key)
    (next : List (Nat × List V × Bool) × Option (Table V) → Exec V α) (state : DbState V) :
    (lockedRows me key >>= next).run.run (DbState.serveAlone walk virtual holder) state =
      (next ((state.lockedRows walk me key).filter (fun l => l.1 == holder),
        (state.get key).map Shared.table)).run.run
          (DbState.serveAlone walk virtual holder) state :=
  rfl

/-- Waiting for the first of some rows that is held. -/
theorem honest_waitFirst (me : Nat) (key : Key) (t : Table V)
    (rows : Option (Table V) → List (Row V)) :
    Honest walk virtual me (do
      let (locked, current) ← lockedRows me key
      match holderOf t locked (rows current) with
      | some holder => MonadExcept.throw (.lockWait holder)
      | none => Pure.pure ()) := by
  constructor
  · intro state holder isWait
    rw [run_lockedRows] at isWait
    simp only at isWait
    split at isWait
    · rename_i other found
      cases isWait
      obtain ⟨row, exclusive, member⟩ := mem_of_holderOf found
      exact ⟨_, row, exclusive, member⟩
    · cases isWait
  · intro state holder isHolder
    rw [run_lockedRows] at isHolder ⊢
    rw [runAlone_lockedRows]
    simp only at isHolder ⊢
    rw [holderOf_alone]
    · split
      · rfl
      · rfl
    · intro other found
      rw [found] at isHolder
      exact isHolder other rfl

theorem honest_checkWriteLocks (s : Session V) (db : String) (t : Table V) :
    Honest walk virtual s.connId (checkWriteLocks s db t) := by
  have isWait : checkWriteLocks s db t = (do
      let (locked, current) ← lockedRows s.connId (db, t.name)
      let rows := current.elim []
        (fun current => (rowDiff current.rows t.rows).1 ++ (rowDiff current.rows t.rows).2)
      match holderOf t locked rows with
      | some holder => MonadExcept.throw (.lockWait holder)
      | none => Pure.pure ()) := by
    unfold checkWriteLocks
    congr 1
    funext answer
    obtain ⟨locked, current⟩ := answer
    cases current with
    | none => rfl
    | some current => rfl
  rw [isWait]
  exact honest_waitFirst _ _ t (fun current => current.elim []
    (fun current => (rowDiff current.rows t.rows).1 ++ (rowDiff current.rows t.rows).2))

theorem honest_waitIfLocked (s : Session V) (db : String) (t : Table V) (rows : List (Row V)) :
    Honest walk virtual s.connId (waitIfLocked s db t rows) :=
  honest_waitFirst _ _ t (fun _ => rows)

theorem honest_storeTable (s : Session V) (db : String) (copy work : Table V) :
    Honest walk virtual s.connId (storeTable s db copy work) := by
  unfold storeTable
  apply Honest.ite (Honest.throw _ _ _)
  apply (honest_checkWriteLocks s db work).bind
  intro _
  exact honest_insertTable _ _ _ _

theorem honest_fkRelevant (s : Session V) (me : Nat) (db : String) (t : Table V) :
    Honest walk virtual me (fkRelevant s db t) := by
  unfold fkRelevant
  apply Honest.ite (Honest.pure _)
  apply Honest.ite (Honest.pure _)
  exact (honest_referencing me _).bind (fun _ => Honest.pure _)

theorem honest_parentTable (me : Nat) (db : String) (t : Table V) (fk : ForeignKey) :
    Honest walk virtual me (parentTable db t fk) := by
  unfold parentTable
  apply Honest.ite (Honest.pure _)
  constructor
  · intro state holder isWait
    unfold ExceptT.tryCatch at isWait
    rw [ExceptT.run_mk, Program.run_bind] at isWait
    cases loaded : (Program.run (DbState.serve walk virtual)
        (loadTable (fk.refDb, fk.refTable)) state).1 with
    | error e =>
      rw [loaded] at isWait
      cases isWait
    | ok parent =>
      rw [loaded] at isWait
      cases isWait
  · intro state holder _
    unfold ExceptT.tryCatch
    rw [ExceptT.run_mk, Program.run_bind, Program.run_bind]
    cases loaded : (Program.run (DbState.serve walk virtual)
        (loadTable (fk.refDb, fk.refTable)) state).1 with
    | error e =>
      have same : (Program.run (DbState.serveAlone walk virtual holder)
        (loadTable (fk.refDb, fk.refTable)) state).1 = .error e := loaded
      rw [same]
      rfl
    | ok parent =>
      have same : (Program.run (DbState.serveAlone walk virtual holder)
        (loadTable (fk.refDb, fk.refTable)) state).1 = .ok parent := loaded
      rw [same]
      rfl

theorem honest_checkParents (s : Session V) (me : Nat) (db : String) (t : Table V)
    (rows : List (Row V)) : Honest walk virtual me (checkParents s db t rows) := by
  unfold checkParents
  apply Honest.ite (Honest.pure _)
  apply Honest.forM
  intro fk _
  apply (honest_parentTable me db t fk).bind
  intro parent
  exact Honest.ite (Honest.pure _) (Honest.throw _ _ _)

theorem honest_loadPending (me : Nat) (pending : Pending V) (key : Key) :
    Honest walk virtual me (loadPending pending key) := by
  unfold loadPending
  split
  · exact Honest.pure _
  · exact (honest_loadTable me key).bind (fun _ => Honest.pure _)

theorem honest_onParentChange (me levels : Nat) (pending : Pending V) (key : Key)
    (changes : List (Change V)) :
    Honest walk virtual me (onParentChange levels pending key changes) := by
  induction levels generalizing pending key changes with
  | zero =>
    unfold onParentChange
    exact Honest.ite (Honest.pure _) (Honest.throw _ _ _)
  | succ levels ih =>
    unfold onParentChange
    apply Honest.ite (Honest.pure _)
    apply (honest_referencing me key).bind
    intro refs
    split
    · exact Honest.pure _
    · apply Honest.foldlM
      intro pending x _
      apply (honest_loadPending me pending x.1).bind
      intro loaded
      apply Honest.bind
      · exact Honest.ofResult (Quiet.foldlM _ (fun state change _ =>
          quiet_childChange _ x.1 x.2 state change))
      intro child
      exact ih _ _ _

theorem honest_finishWrite (s : Session V) (db : String) (copy work : Table V)
    (changes : List (Change V)) (check : List (Row V)) :
    Honest walk virtual s.connId (finishWrite s db copy work changes check) := by
  unfold finishWrite
  apply (honest_checkParents s _ db work check).bind
  intro _
  apply (honest_onParentChange _ _ _ _ _).bind
  intro pending
  apply (Honest.forM (fun x _ => honest_checkWriteLocks s x.1.1 x.2.2)).bind
  intro _
  apply (Honest.forM (fun x _ => honest_storeTable s x.1.1 x.2.1 x.2.2)).bind
  intro _
  exact Honest.pure _

theorem honest_storeUpdate (s : Session V) (db : String) (copy : Table V) (fk : Bool)
    (state : Updating V) : Honest walk virtual s.connId (storeUpdate s db copy fk state) := by
  unfold storeUpdate
  apply Honest.ite (honest_finishWrite s db copy _ _ _)
  exact (honest_storeTable s db copy _).bind (fun _ => Honest.pure _)

theorem honest_update (quiet : s.Quiet) (key : Key) {assignments : List (Assignment V)}
    (values : AssignmentsQuiet assignments) {choice : Choice V} (chosen : choice.Quiet) :
    Honest walk virtual s.connId (update s key assignments choice) := by
  unfold update
  apply (honest_loadTable _ key).bind
  intro copy
  apply (Honest.ofResult (quiet_dmlTargets chosen copy)).bind
  intro targets
  apply (honest_fkRelevant s _ key.1 copy).bind
  intro fk
  apply Honest.bind
  · exact Honest.ofResult (Quiet.foldlM _ (fun state i _ =>
      quiet_updateRow quiet copy.keys fk keysChanged state values))
  intro state
  apply (honest_storeUpdate s key.1 copy fk state).bind
  intro _
  exact Honest.pure _

theorem honest_storeDelete (s : Session V) (db : String) (copy : Table V) (targets : List Nat) :
    Honest walk virtual s.connId (storeDelete s db copy targets) := by
  unfold storeDelete
  apply (honest_fkRelevant s _ db copy).bind
  intro fk
  apply Honest.ite
  · exact (honest_storeTable s db copy _).bind (fun _ => Honest.pure _)
  · exact honest_finishWrite s db copy _ _ _

theorem honest_delete (s : Session V) (key : Key) {choice : Choice V} (chosen : choice.Quiet) :
    Honest walk virtual s.connId (delete s key choice) := by
  unfold delete
  apply (honest_loadTable _ key).bind
  intro copy
  apply (Honest.ofResult (quiet_dmlTargets chosen copy)).bind
  intro targets
  exact (honest_storeDelete s key.1 copy targets).bind (fun _ => Honest.pure _)

theorem honest_thenTarget {target : α → Exec V (Nat × Pending V)} (done : Outcome V) {x : α}
    (honest : Honest walk virtual me (target x)) :
    Honest walk virtual me (thenTarget target done x) :=
  honest.bind (fun _ => Honest.pure _)

theorem honest_multiUpdate (quiet : s.Quiet)
    {updates : MyResult (List (Key × List (Nat × List (Assignment V))))} (joined : Quiet updates)
    (values : ∀ targets, updates = .ok targets → ∀ x ∈ targets, ∀ u ∈ x.2, AssignmentsQuiet u.2) :
    Honest walk virtual s.connId (multiUpdate s updates) := by
  unfold multiUpdate
  apply Honest.afterResult joined
  intro targets isJoin
  apply Honest.foldlM
  intro done x member
  apply honest_thenTarget
  unfold updateTarget
  apply Honest.ite (Honest.pure _)
  apply (honest_loadTable _ x.1).bind
  intro copy
  apply (honest_fkRelevant s _ x.1.1 copy).bind
  intro fk
  apply Honest.afterResult
  · apply Quiet.foldlM
    intro state u chosen
    exact quiet_updateRow quiet copy.keys fk _ state
      (values targets isJoin x member u (List.mem_of_mem_filter chosen))
  intro state _
  exact (honest_storeUpdate s x.1.1 copy fk state).bind (fun _ => Honest.pure _)

theorem honest_multiDelete (s : Session V) {ids : MyResult (List (Key × List Nat))}
    (joined : Quiet ids) : Honest walk virtual s.connId (multiDelete s ids) := by
  unfold multiDelete
  apply Honest.afterResult joined
  intro targets _
  apply Honest.foldlM
  intro done x _
  apply honest_thenTarget
  unfold deleteTarget
  apply Honest.ite (Honest.pure _)
  apply (honest_loadTable _ x.1).bind
  intro copy
  apply (honest_fkRelevant s _ x.1.1 _).bind
  intro fk
  apply Honest.ite
  · exact (honest_finishWrite s x.1.1 copy _ _ _).bind (fun _ => Honest.pure _)
  · exact (honest_storeTable s x.1.1 copy _).bind (fun _ => Honest.pure _)

variable (walk virtual)

structure InsertHonest {α : Type} (me : Nat) (program : Insert V α) : Prop where
  holds : ∀ inserting state holder,
    ((program.run.run inserting).run (DbState.serve walk virtual) state).1.1 =
      .error (.lockWait holder) → HoldsRow walk state me holder
  alone : ∀ inserting state holder,
    (∀ other, ((program.run.run inserting).run (DbState.serve walk virtual) state).1.1 =
      .error (.lockWait other) → other = holder) →
    (program.run.run inserting).run (DbState.serveAlone walk virtual holder) state =
      (program.run.run inserting).run (DbState.serve walk virtual) state

namespace InsertHonest

variable {walk virtual} {α β : Type} {me : Nat}

theorem ofResult {result : MyResult α} (quiet : Quiet result) :
    InsertHonest walk virtual me (Insert.ofResult result) where
  holds := fun _ _ holder isWait => (quiet holder isWait).elim
  alone := fun _ _ _ _ => rfl

theorem pure (value : α) : InsertHonest walk virtual me (Pure.pure value : Insert V α) :=
  InsertHonest.ofResult (Quiet.ok value)

theorem throw (code : Nat) (sqlState message : String) :
    InsertHonest walk virtual me (MonadExcept.throw (.error code sqlState message) : Insert V α) :=
  InsertHonest.ofResult (Quiet.error code sqlState message)

theorem bind {first : Insert V α} {next : α → Insert V β}
    (honest : InsertHonest walk virtual me first)
    (later : ∀ value, InsertHonest walk virtual me (next value)) :
    InsertHonest walk virtual me (first >>= next) := by
  constructor
  · intro inserting state holder isWait
    have before : ((first.run.run inserting).run (DbState.serve walk virtual) state).2.openTxns
        = state.openTxns := run_openTxns virtual (first.run.run inserting) state
    rw [ExceptT.run_bind, StateT.run_bind, Program.run_bind] at isWait
    cases isFirst : ((first.run.run inserting).run (DbState.serve walk virtual) state).1 with
    | mk result inserting' =>
      rw [isFirst] at isWait
      cases result with
      | error e =>
        have isError : (.error e : MyResult β) = .error (.lockWait holder) := isWait
        cases isError
        exact honest.holds inserting state holder (congrArg Prod.fst isFirst)
      | ok value => exact ((later value).holds inserting' _ holder isWait).congr before
  · intro inserting state holder isHolder
    rw [ExceptT.run_bind, StateT.run_bind, Program.run_bind] at isHolder
    rw [ExceptT.run_bind, StateT.run_bind, Program.run_bind, Program.run_bind]
    cases isFirst : ((first.run.run inserting).run (DbState.serve walk virtual) state).1 with
    | mk result inserting' =>
      rw [isFirst] at isHolder
      cases result with
      | error e =>
        have same := honest.alone inserting state holder (by
          intro other isWait
          rw [isFirst] at isWait
          cases isWait
          exact isHolder other rfl)
        rw [same, isFirst]
        rfl
      | ok value =>
        have same := honest.alone inserting state holder (by
          intro other isWait
          rw [isFirst] at isWait
          cases isWait)
        rw [same, isFirst]
        exact (later value).alone inserting' _ holder isHolder

theorem ofExec {program : Exec V α} (honest : Honest walk virtual me program) :
    InsertHonest walk virtual me (Insert.ofExec program) := by
  have isRun : ∀ (server : Program.Server (dbInterface V) (DbState V)) inserting state,
      ((Insert.ofExec program).run.run inserting).run server state =
        (((program.run.run server state).1, inserting), (program.run.run server state).2) :=
    fun server inserting state =>
      Program.run_bind server program.run (fun result => Pure.pure (result, inserting)) state
  constructor
  · intro inserting state holder isWait
    rw [isRun] at isWait
    exact honest.holds state holder isWait
  · intro inserting state holder isHolder
    rw [isRun] at isHolder
    rw [isRun, isRun, honest.alone state holder isHolder]

theorem get_bind {next : Inserting V → Insert V β}
    (later : ∀ inserting, InsertHonest walk virtual me (next inserting)) :
    InsertHonest walk virtual me (get >>= next) where
  holds := fun inserting state holder isWait =>
    (later inserting).holds inserting state holder isWait
  alone := fun inserting state holder isHolder =>
    (later inserting).alone inserting state holder isHolder

theorem set (inserting : Inserting V) :
    InsertHonest walk virtual me (MonadStateOf.set inserting : Insert V PUnit) where
  holds := by
    intro _ state holder isWait
    cases isWait
  alone := fun _ _ _ _ => rfl

theorem modify (change : Inserting V → Inserting V) :
    InsertHonest walk virtual me (modify change : Insert V PUnit) where
  holds := by
    intro _ state holder isWait
    cases isWait
  alone := fun _ _ _ _ => rfl

theorem countPast (id : Int) :
    InsertHonest walk virtual me (MySql.countPast id : Insert V Unit) where
  holds := by
    intro _ state holder isWait
    cases isWait
  alone := fun _ _ _ _ => rfl

theorem ite {condition : Prop} [Decidable condition] {yes no : Insert V α}
    (whenTrue : InsertHonest walk virtual me yes) (whenFalse : InsertHonest walk virtual me no) :
    InsertHonest walk virtual me (if condition then yes else no) := by
  split
  · exact whenTrue
  · exact whenFalse

theorem forM {items : List β} {body : β → Insert V PUnit}
    (each : ∀ x ∈ items, InsertHonest walk virtual me (body x)) :
    InsertHonest walk virtual me (items.forM body) := by
  induction items with
  | nil => exact InsertHonest.pure _
  | cons x rest ih =>
    obtain ⟨here, later⟩ := List.forall_mem_cons.mp each
    show InsertHonest walk virtual me (body x >>= fun _ => rest.forM body)
    exact here.bind (fun _ => ih later)

theorem foldlM {items : List β} {body : α → β → Insert V α} (init : α)
    (each : ∀ value, ∀ x ∈ items, InsertHonest walk virtual me (body value x)) :
    InsertHonest walk virtual me (items.foldlM body init) := by
  induction items generalizing init with
  | nil => exact InsertHonest.pure init
  | cons x rest ih =>
    rw [List.foldlM_cons]
    apply (each init x List.mem_cons_self).bind
    intro value
    exact ih value (fun value x member => each value x (List.mem_cons_of_mem _ member))

end InsertHonest

variable {walk virtual}

theorem insertHonest_fillColumn (s : Session V) (me : Nat) (provided : List Bool) (row : Row V)
    (x : Column V × Nat) : InsertHonest walk virtual me (fillColumn s provided row x) := by
  unfold fillColumn
  apply InsertHonest.ite
  · apply InsertHonest.get_bind
    intro inserting
    apply (InsertHonest.countPast _).bind
    intro _
    exact (InsertHonest.modify _).bind (fun _ => InsertHonest.pure _)
  · apply InsertHonest.ite
    · exact InsertHonest.ite (InsertHonest.throw _ _ _) (InsertHonest.pure _)
    · apply InsertHonest.ite _ (InsertHonest.pure _)
      apply InsertHonest.ite (InsertHonest.pure _)
      split
      · exact InsertHonest.pure _
      · apply InsertHonest.ite _ (InsertHonest.pure _)
        exact InsertHonest.ite (InsertHonest.throw _ _ _) (InsertHonest.pure _)

theorem insertHonest_coerceColumn (quiet : s.Quiet) (me : Nat) (row : Row V) (x : Column V × Nat) :
    InsertHonest walk virtual me (coerceColumn s row x) := by
  unfold coerceColumn
  apply (InsertHonest.ofResult (quiet.coerce _ _)).bind
  intro v
  split
  · exact InsertHonest.pure _
  · apply InsertHonest.get_bind
    intro inserting
    apply InsertHonest.ite
    · exact (InsertHonest.countPast _).bind (fun _ => InsertHonest.pure _)
    · exact InsertHonest.pure _

theorem insertHonest_placeRow (quiet : s.Quiet) (db : String) (keys : List (String × List Nat))
    (values : mode.Quiet) (newRow : Row V) :
    InsertHonest walk virtual s.connId (placeRow s db keys mode newRow) := by
  unfold placeRow
  apply InsertHonest.get_bind
  intro inserting
  split
  · exact InsertHonest.set _
  · rename_i i k _
    apply (InsertHonest.ofExec (honest_waitIfLocked s db inserting.work _)).bind
    intro _
    apply (InsertHonest.ofResult (quiet_resolveConflict quiet keys values newRow i k inserting)).bind
    intro placed
    exact InsertHonest.set placed

theorem insertHonest_insertRow (quiet : s.Quiet) (db : String) (keys : List (String × List Nat))
    (values : mode.Quiet) (columns : List String) (colIndices : List Nat) {x : Values V × Nat}
    (given : ValuesQuiet x.1) :
    InsertHonest walk virtual s.connId (insertRow s db keys mode columns colIndices x) := by
  unfold insertRow
  apply InsertHonest.get_bind
  intro inserting
  apply InsertHonest.ite (InsertHonest.throw _ _ _)
  apply (InsertHonest.ofResult (quiet_givenRow _ colIndices given)).bind
  intro row
  apply (InsertHonest.foldlM _ (fun row x _ => insertHonest_fillColumn s _ _ row x)).bind
  intro filled
  apply (InsertHonest.foldlM _ (fun row x _ => insertHonest_coerceColumn quiet _ row x)).bind
  intro coerced
  apply InsertHonest.get_bind
  intro inserting
  have checked := quiet_enforceChecks quiet inserting.work coerced
  split
  · exact insertHonest_placeRow quiet db keys values coerced
  · rename_i e failed
    split
    · exact InsertHonest.pure _
    · constructor
      · intro _ state holder isWait
        cases isWait
        exact (checked holder failed).elim
      · intro _ _ _ _
        rfl

theorem honest_storeInsert (s : Session V) (db : String) (copy : Table V) (relevant : Bool)
    (inserting : Inserting V) :
    Honest walk virtual s.connId (storeInsert s db copy relevant inserting) := by
  unfold storeInsert
  apply Honest.ite
  · exact honest_finishWrite s db copy _ _ _
  · exact (honest_storeTable s db copy _).bind (fun _ => Honest.pure _)

theorem insertHonest_insertBody {s : Session V} (quiet : s.Quiet) (db : String)
    (columns : List String) {rows : List (Values V)} (given : ∀ row ∈ rows, ValuesQuiet row)
    {mode : InsertMode V} (values : mode.Quiet) (copy : Table V) (relevant : Bool) :
    InsertHonest walk virtual s.connId (insertBody s db columns rows mode copy relevant) := by
  unfold insertBody
  apply (InsertHonest.ofResult (quiet_bindChecks quiet copy)).bind
  intro _
  apply (InsertHonest.ofResult (quiet_insertColumns copy columns)).bind
  intro colIndices
  apply InsertHonest.bind
  · apply InsertHonest.forM
    intro x member
    exact insertHonest_insertRow quiet db copy.keys values columns colIndices
      (given x.1 (List.fst_mem_of_mem_zipIdx member))
  intro _
  apply InsertHonest.get_bind
  intro inserting
  apply (InsertHonest.ofExec (honest_storeInsert s db copy relevant inserting)).bind
  intro written
  exact InsertHonest.pure _

omit [DecidableEq V] [MyValue V] in
theorem run_lift_bind {β : Type} (server : Program.Server (dbInterface V) (DbState V))
    (program : Section V α) (next : α → Exec V β) (state : DbState V) :
    (ExceptT.lift program >>= next).run.run server state =
      (next (program.run server state).1).run.run server (program.run server state).2 := by
  have lifted : (ExceptT.lift program : Exec V α).run.run server state =
      (.ok (program.run server state).1, (program.run server state).2) :=
    Program.run_bind server program _ state
  rw [ExceptT.run_bind, Program.run_bind, lifted]

theorem honest_insert (quiet : s.Quiet) (key : Key) (columns : List String)
    {rows : List (Values V)} (given : ∀ row ∈ rows, ValuesQuiet row) (values : mode.Quiet) :
    Honest walk virtual s.connId (insert s key columns rows mode) := by
  unfold insert
  apply (honest_loadTable _ key).bind
  intro copy
  apply (honest_fkRelevant s _ key.1 copy).bind
  intro relevant
  have body := @insertHonest_insertBody V _ _ walk virtual s quiet key.1 columns rows given mode
    values copy relevant
  constructor
  · intro state holder isWait
    rw [run_lift_bind] at isWait
    cases isBody : (((insertBody s key.1 columns rows mode copy relevant).run.run
        { work := copy }).run (DbState.serve walk virtual) state).1 with
    | mk result inserting =>
      rw [isBody] at isWait
      cases result with
      | ok outcome => cases isWait
      | error e =>
        cases e with
        | lockWait other =>
          cases isWait
          exact body.holds _ state _ (congrArg Prod.fst isBody)
        | error code sqlState message =>
          simp only at isWait
          split at isWait
          · cases isWait
          · cases isWait
  · intro state holder isHolder
    rw [run_lift_bind] at isHolder
    rw [run_lift_bind, run_lift_bind]
    have same := body.alone { work := copy } state holder (by
      intro other isWait
      apply isHolder other
      cases isBody : (((insertBody s key.1 columns rows mode copy relevant).run.run
          { work := copy }).run (DbState.serve walk virtual) state).1 with
      | mk result inserting =>
        rw [isBody] at isWait
        cases isWait
        rfl)
    rw [same]
    cases isBody : (((insertBody s key.1 columns rows mode copy relevant).run.run
        { work := copy }).run (DbState.serve walk virtual) state).1 with
    | mk result inserting =>
      cases result with
      | ok outcome => rfl
      | error e =>
        cases e with
        | lockWait other => rfl
        | error code sqlState message =>
          simp only
          split
          · rfl
          · rfl

end Waits

end NoidaDb.MySql
