/-
Statements of different connections at the same time.
-/

import Mathlib.Data.List.Pairwise
import NoidaDb.MySql.Statements

namespace NoidaDb.MySql

open MyValue Lib

section Promises

variable {V : Type}

abbrev DbEvent (V : Type) := (dbInterface V).Event

def stored (key : Key) (copy work : Table V) : DbEvent V :=
  ⟨DbCall.store key copy work, (.ok () : MyResult Unit)⟩

/-- The id is not the last one, after which the counter wraps around. -/
def NotLast : (dbInterface V).Call → Prop
  | DbCall.countPast id => id ≠ 9223372036854775807
  | _ => True

def CountsUp : Program.Contract (dbInterface V) where
  meets
    | DbCall.store _ copy work => copy.nextAutoIncrement ≤ work.nextAutoIncrement
    | DbCall.counter _ copy next => copy.nextAutoIncrement ≤ next
    | _ => True
  relies := NotLast

theorem promises_loadTable (key : Key) {post : Table V → List (DbEvent V) → Prop}
    (holds : ∀ t events, post t events) : Program.Promises CountsUp (loadTable key) post := by
  refine ⟨trivial, ?_⟩
  intro _ answer t _
  exact holds t _

theorem promises_referencing (key : Key)
    {post : List (Key × ForeignKey) → List (DbEvent V) → Prop}
    (holds : ∀ refs events, post refs events) :
    Program.Promises CountsUp (referencing key) post :=
  Program.Promises.ask trivial (fun _ refs => holds refs _)

variable {work : Table V} {state : Inserting V} {key : Key} {pending : Pending V} {α : Type}
  {s : Session V}

theorem promises_insertTable {copy : Table V}
    (up : copy.nextAutoIncrement ≤ work.nextAutoIncrement) :
    Program.Promises CountsUp (insertTable key copy work)
      (fun _ events => stored key copy work ∈ events) := by
  refine ⟨up, ?_⟩
  intro _ answer value isValue
  cases value
  have isOk : answer = (.ok () : MyResult Unit) := isValue
  rw [isOk]
  exact List.mem_singleton_self _

variable [DecidableEq V] [MyValue V]

theorem promises_checkWriteLocks (s : Session V) (db : String) (t : Table V) :
    Program.Promises CountsUp (checkWriteLocks s db t) (fun _ _ => True) := by
  unfold checkWriteLocks
  apply Program.Promises.bind
  apply Program.Promises.ask trivial
  rintro _ ⟨locked, current⟩
  cases current with
  | none => exact Program.Promises.pure trivial
  | some current =>
    simp only
    split
    · exact Program.Promises.throw
    · exact Program.Promises.pure trivial

theorem promises_waitIfLocked (s : Session V) (db : String) (t : Table V) (rows : List (Row V)) :
    Program.Promises CountsUp (waitIfLocked s db t rows) (fun _ _ => True) := by
  unfold waitIfLocked
  apply Program.Promises.bind
  apply Program.Promises.ask trivial
  rintro _ ⟨locked, current⟩
  simp only
  split
  · exact Program.Promises.throw
  · exact Program.Promises.pure trivial

theorem promises_storeTable (s : Session V) (db : String) {copy : Table V}
    (up : copy.nextAutoIncrement ≤ work.nextAutoIncrement) :
    Program.Promises CountsUp (storeTable s db copy work)
      (fun _ events => stored (db, work.name) copy work ∈ events) := by
  unfold storeTable
  split
  · exact Program.Promises.throw
  · apply Program.Promises.bind
    apply (promises_checkWriteLocks s db work).weaken
    intro _ events _
    apply (promises_insertTable up).weaken
    intro _ later made
    exact List.mem_append_right events made

omit [DecidableEq V] [MyValue V] in
theorem promises_fkRelevant (s : Session V) (db : String) (t : Table V) :
    Program.Promises CountsUp (fkRelevant s db t) (fun _ _ => True) := by
  unfold fkRelevant
  split
  · exact Program.Promises.pure trivial
  · split
    · exact Program.Promises.pure trivial
    · apply Program.Promises.bind
      apply promises_referencing
      intro refs events
      exact Program.Promises.pure trivial

omit [DecidableEq V] [MyValue V] in
theorem promises_parentTable (db : String) (t : Table V) (fk : ForeignKey) :
    Program.Promises CountsUp (parentTable db t fk) (fun _ _ => True) := by
  unfold parentTable
  split
  · exact Program.Promises.pure trivial
  · refine ⟨trivial, ?_⟩
    intro _ answer
    cases answer with
    | ok t => exact fun _ _ => trivial
    | error e => exact fun _ _ => trivial

theorem promises_checkParents (s : Session V) (db : String) (t : Table V) (rows : List (Row V)) :
    Program.Promises CountsUp (checkParents s db t rows) (fun _ _ => True) := by
  unfold checkParents
  split
  · exact Program.Promises.pure trivial
  · apply Program.Promises.forM
    intro fk _
    apply Program.Promises.bind
    apply (promises_parentTable db t fk).weaken
    intro parent _ _
    split
    · exact Program.Promises.pure trivial
    · exact Program.Promises.throw

def Pending.CountsUp (pending : Pending V) : Prop :=
  ∀ x, x ∈ pending → x.2.1.nextAutoIncrement ≤ x.2.2.nextAutoIncrement

omit [DecidableEq V] [MyValue V] in
theorem mem_put {k : Key} {a : α} {map : List (Key × α)} {x : Key × α} (member : x ∈ put k a map) :
    x = (k, a) ∨ x ∈ map := by
  induction map with
  | nil => exact Or.inl (List.mem_singleton.mp member)
  | cons y rest ih =>
    unfold put at member
    split at member
    · rcases List.mem_cons.mp member with new | old
      · exact Or.inl new
      · exact Or.inr (List.mem_cons_of_mem y old)
    · split at member
      · rcases List.mem_cons.mp member with new | old
        · exact Or.inl new
        · exact Or.inr old
      · rcases List.mem_cons.mp member with same | later
        · exact Or.inr (by rw [same]; exact List.mem_cons_self)
        · rcases ih later with new | old
          · exact Or.inl new
          · exact Or.inr (List.mem_cons_of_mem y old)

omit [DecidableEq V] [MyValue V] in
theorem Pending.CountsUp.put (up : pending.CountsUp) {copy : Table V}
    (new : copy.nextAutoIncrement ≤ work.nextAutoIncrement) :
    Pending.CountsUp (put key (copy, work) pending) := by
  intro x member
  rcases mem_put member with same | old
  · rw [same]
    exact new
  · exact up x old

omit [DecidableEq V] [MyValue V] in
theorem mem_of_lookup {κ : Type} [BEq κ] [LawfulBEq κ] {map : List (κ × α)} {k : κ} {a : α}
    (found : map.lookup k = some a) : (k, a) ∈ map := by
  induction map with
  | nil => cases found
  | cons x rest ih =>
    by_cases same : k = x.1
    · subst same
      rw [List.lookup_cons, beq_self_eq_true] at found
      obtain rfl := Option.some.inj found
      exact List.mem_cons_self
    · rw [lookup_cons_ne same] at found
      exact List.mem_cons_of_mem x (ih found)

theorem childChange_eq {parent : Table V} {childKey : Key} {fk : ForeignKey}
    {state state' : Table V × List (Change V)} {change : Change V}
    (done : childChange parent childKey fk state change = .ok state') :
    ∃ rows, state'.1 = { state.1 with rows := rows } := by
  unfold childChange at done
  split at done
  · cases done
    exact ⟨_, rfl⟩
  · simp only at done
    split at done
    · cases done
      exact ⟨_, rfl⟩
    · split at done
      · cases done
        exact ⟨_, rfl⟩
      · split at done
        · cases done
        · cases done
        · cases done
          exact ⟨_, rfl⟩
        · cases done
          exact ⟨_, rfl⟩
        · cases done
          exact ⟨_, rfl⟩

theorem foldlM_childChange_eq {parent : Table V} {childKey : Key} {fk : ForeignKey}
    (changes : List (Change V)) {state state' : Table V × List (Change V)}
    (done : changes.foldlM (childChange parent childKey fk) state = .ok state') :
    ∃ rows, state'.1 = { state.1 with rows := rows } := by
  induction changes generalizing state with
  | nil =>
    cases done
    exact ⟨_, rfl⟩
  | cons change rest ih =>
    rw [List.foldlM_cons] at done
    obtain ⟨middle, first, done⟩ := bind_eq_ok done
    obtain ⟨rows, isMiddle⟩ := childChange_eq first
    obtain ⟨rows', isLast⟩ := ih done
    rw [isMiddle] at isLast
    exact ⟨rows', isLast⟩

/-- The tables that were pending are pending still, made from the same copies; only rows of
theirs differ. -/
def Pending.Extends (pending pending' : Pending V) : Prop :=
  ∀ key copy work, pending.lookup key = some (copy, work) →
    ∃ rows, pending'.lookup key = some (copy, { work with rows := rows })

omit [DecidableEq V] [MyValue V] in
theorem Pending.Extends.refl (pending : Pending V) : pending.Extends pending :=
  fun _ _ work found => ⟨work.rows, found⟩

omit [DecidableEq V] [MyValue V] in
theorem Pending.Extends.trans {first second third : Pending V} (one : first.Extends second)
    (two : second.Extends third) : first.Extends third := by
  intro key copy work found
  obtain ⟨rows, found'⟩ := one key copy work found
  obtain ⟨rows', found''⟩ := two key copy _ found'
  exact ⟨rows', found''⟩

omit [DecidableEq V] [MyValue V] in
theorem Pending.Extends.put {copy : Table V}
    (new : ∀ copy' work', pending.lookup key = some (copy', work') →
      copy = copy' ∧ ∃ rows, work = { work' with rows := rows }) :
    pending.Extends (put key (copy, work) pending) := by
  intro other copy' work' found
  rw [lookup_put]
  split
  · rename_i same
    subst same
    obtain ⟨rfl, rows, rfl⟩ := new copy' work' found
    exact ⟨rows, rfl⟩
  · exact ⟨work'.rows, found⟩

/-- What is known of the tables as the cascades go on from `pending`. -/
structure Pending.Follows (pending pending' : Pending V) : Prop where
  up : pending'.CountsUp
  extended : pending.Extends pending'

omit [DecidableEq V] [MyValue V] in
theorem promises_loadPending (up : pending.CountsUp) (key : Key) :
    Program.Promises CountsUp (loadPending pending key) (fun r _ =>
      pending.Follows r.1 ∧ r.1.lookup key = some r.2) := by
  unfold loadPending
  split
  · rename_i copies found
    exact Program.Promises.pure ⟨⟨up, .refl pending⟩, found⟩
  · rename_i missing
    apply Program.Promises.bind
    apply promises_loadTable
    intro t events
    refine Program.Promises.pure ⟨⟨up.put (Int.le_refl _), Pending.Extends.put ?_⟩, ?_⟩
    · intro copy work found
      rw [missing] at found
      cases found
    · rw [lookup_put, if_pos rfl]

theorem promises_onParentChange (levels : Nat) (up : pending.CountsUp) (key : Key)
    (changes : List (Change V)) :
    Program.Promises CountsUp (onParentChange levels pending key changes)
      (fun pending' _ => pending.Follows pending') := by
  induction levels generalizing pending key changes with
  | zero =>
    unfold onParentChange
    split
    · exact Program.Promises.pure ⟨up, .refl pending⟩
    · exact Program.Promises.throw
  | succ levels ih =>
    unfold onParentChange
    split
    · exact Program.Promises.pure ⟨up, .refl pending⟩
    · apply Program.Promises.bind
      apply promises_referencing
      intro refs events
      split
      · exact Program.Promises.pure ⟨up, .refl pending⟩
      · apply Program.Promises.foldlM (fun pending' => pending.Follows pending')
          ⟨up, .refl pending⟩
        intro pending₁ x follows _
        apply Program.Promises.bind
        apply (promises_loadPending follows.up x.1).weaken
        rintro ⟨pending₂, copy, child⟩ events ⟨follows₂, found⟩
        apply Program.Promises.bind
        apply Program.Promises.ofResult
        rintro ⟨child', childChanges⟩ done
        obtain ⟨rows, isChild⟩ := foldlM_childChange_eq changes done
        have countsUp := follows₂.up _ (mem_of_lookup found)
        simp only at isChild countsUp
        subst isChild
        have up₃ : Pending.CountsUp (put x.1 (copy, { child with rows := rows }) pending₂) :=
          follows₂.up.put countsUp
        have extends₃ : pending₂.Extends (put x.1 (copy, { child with rows := rows }) pending₂) := by
          apply Pending.Extends.put
          intro copy' work' found'
          obtain ⟨rfl, rfl⟩ := Prod.mk.inj (Option.some.inj (found.symm.trans found'))
          exact ⟨rfl, rows, rfl⟩
        apply (ih up₃ x.1 childChanges).weaken
        intro pending₄ _ follows₄
        exact ⟨follows₄.up,
          ((follows.extended.trans follows₂.extended).trans extends₃).trans follows₄.extended⟩

theorem promises_finishWrite (s : Session V) (db : String) {copy : Table V}
    (up : copy.nextAutoIncrement ≤ work.nextAutoIncrement) (changes : List (Change V))
    (check : List (Row V)) :
    Program.Promises CountsUp (finishWrite s db copy work changes check)
      (fun written events => (∀ w, w ∈ written → stored w.1 w.2.1 w.2.2 ∈ events) ∧
        ∃ rows, stored (db, work.name) copy { work with rows := rows } ∈ events) := by
  unfold finishWrite
  apply Program.Promises.bind
  apply (promises_checkParents s db work check).weaken
  intro _ events₁ _
  apply Program.Promises.bind
  have initially : Pending.CountsUp [((db, work.name), copy, work)] := by
    intro x member
    rw [List.mem_singleton.mp member]
    exact up
  apply (promises_onParentChange 16 initially (db, work.name) changes).weaken
  intro pending events₂ follows
  apply Program.Promises.bind
  apply (Program.Promises.forM (fun x _ => promises_checkWriteLocks s x.1.1 x.2.2)).weaken
  intro _ events₃ _
  apply Program.Promises.bind
  apply (Program.Promises.forM_made (fun x => stored (x.1.1, x.2.2.name) x.2.1 x.2.2)
    (fun x member => promises_storeTable s x.1.1 (follows.up x member))).weaken
  intro _ events₄ made
  obtain ⟨rows, found⟩ := follows.extended (db, work.name) copy work (lookup_cons_self _ _ [])
  apply Program.Promises.pure
  constructor
  · intro w member
    obtain ⟨x, inPending, rfl⟩ := List.mem_map.mp member
    simp [made x inPending]
  · refine ⟨rows, ?_⟩
    have own := made _ (mem_of_lookup found)
    simp [own]

/-- The ids that an INSERT has generated lie between its copy's counter and its own. -/
structure Inserting.Counts (copy : Table V) (state : Inserting V) : Prop where
  up : copy.nextAutoIncrement ≤ state.work.nextAutoIncrement
  within : ∀ id, id ∈ state.generated →
    copy.nextAutoIncrement ≤ id ∧ id < state.work.nextAutoIncrement
  increasing : state.generated.Pairwise (fun a b => a < b)

def KeepsCount {α : Type} (copy : Table V) (program : Insert V α)
    (post : α → Inserting V → List (DbEvent V) → Prop) : Prop :=
  ∀ state, Inserting.Counts copy state →
    (program.run.run state).Always CountsUp (fun events result =>
      Inserting.Counts copy result.2 ∧
        ∀ value, result.1 = .ok value → post value result.2 events)

namespace KeepsCount

variable {α β : Type} {copy : Table V}

variable {post : α → Inserting V → List (DbEvent V) → Prop}

omit [DecidableEq V] [MyValue V] in
theorem weaken {program : Insert V α} {weaker : α → Inserting V → List (DbEvent V) → Prop}
    (keeps : KeepsCount copy program post)
    (implied : ∀ value state events, post value state events → weaker value state events) :
    KeepsCount copy program weaker := by
  intro state counts
  apply (keeps state counts).weaken
  intro events result ⟨counts', holds⟩
  exact ⟨counts', fun value isValue => implied value result.2 events (holds value isValue)⟩

omit [DecidableEq V] [MyValue V] in
theorem pure {value : α} (holds : ∀ state, Inserting.Counts copy state → post value state []) :
    KeepsCount copy (Pure.pure value : Insert V α) post := by
  intro state counts
  refine ⟨counts, ?_⟩
  intro result isResult
  cases isResult
  exact holds state counts

omit [DecidableEq V] [MyValue V] in
theorem throw {failure : MySqlError} :
    KeepsCount copy (MonadExcept.throw failure : Insert V α) post := by
  intro state counts
  refine ⟨counts, ?_⟩
  intro result isResult
  cases isResult

omit [DecidableEq V] [MyValue V] in
theorem ofResult {result : MyResult α}
    (holds : ∀ value, result = .ok value → ∀ state, post value state []) :
    KeepsCount copy (Insert.ofResult result) post := by
  intro state counts
  exact ⟨counts, fun value isValue => holds value isValue state⟩

omit [DecidableEq V] [MyValue V] in
theorem bind {program : Insert V α} {next : α → Insert V β}
    {post : β → Inserting V → List (DbEvent V) → Prop}
    (keeps : KeepsCount copy program (fun value state events =>
      Inserting.Counts copy state → ((next value).run.run state).Always CountsUp
        (fun later result => Inserting.Counts copy result.2 ∧
          ∀ value, result.1 = .ok value → post value result.2 (events ++ later)))) :
    KeepsCount copy (program >>= next) post := by
  intro state counts
  apply Program.Always.bind
  apply (keeps state counts).weaken
  rintro events ⟨result, state'⟩ ⟨counts', holds⟩
  cases result with
  | error failure =>
    refine ⟨counts', ?_⟩
    intro value isValue
    cases isValue
  | ok value => exact holds value rfl counts'

omit [DecidableEq V] [MyValue V] in
theorem seqGrowing {program : Insert V α} {next : α → Insert V β} {middle : α → Prop}
    {post : β → Inserting V → List (DbEvent V) → Prop}
    (grows : ∀ value state events before, post value state events →
      post value state (before ++ events))
    (first : KeepsCount copy program (fun value _ _ => middle value))
    (then' : ∀ value, middle value → KeepsCount copy (next value) post) :
    KeepsCount copy (program >>= next) post := by
  apply KeepsCount.bind
  apply first.weaken
  intro value state events holds counts
  apply (then' value holds state counts).weaken
  intro later result ⟨counts', promised⟩
  exact ⟨counts', fun value isValue => grows value result.2 later events (promised value isValue)⟩

omit [DecidableEq V] [MyValue V] in
theorem seq {program : Insert V α} {next : α → Insert V β} {middle : α → Prop}
    (first : KeepsCount copy program (fun value _ _ => middle value))
    (then' : ∀ value, middle value → KeepsCount copy (next value) (fun _ _ _ => True)) :
    KeepsCount copy (program >>= next) (fun _ _ _ => True) :=
  seqGrowing (fun _ _ _ _ _ => trivial) first then'

omit [DecidableEq V] [MyValue V] in
theorem get_bind {next : Inserting V → Insert V β}
    {post : β → Inserting V → List (DbEvent V) → Prop}
    (keeps : ∀ state, Inserting.Counts copy state → ((next state).run.run state).Always CountsUp
      (fun events result => Inserting.Counts copy result.2 ∧
        ∀ value, result.1 = .ok value → post value result.2 events)) :
    KeepsCount copy (get >>= next) post :=
  fun state counts => keeps state counts

omit [DecidableEq V] [MyValue V] in
theorem foldlM {items : List β} {step : α → β → Insert V α} {init : α}
    (each : ∀ value item, item ∈ items → KeepsCount copy (step value item) (fun _ _ _ => True)) :
    KeepsCount copy (items.foldlM step init) (fun _ _ _ => True) := by
  induction items generalizing init with
  | nil => exact KeepsCount.pure (fun _ _ => trivial)
  | cons item rest ih =>
    rw [List.foldlM_cons]
    refine KeepsCount.seq (each init item List.mem_cons_self) ?_
    intro value _
    exact ih (fun value item member => each value item (List.mem_cons_of_mem _ member))

omit [DecidableEq V] [MyValue V] in
theorem forM {items : List β} {body : β → Insert V PUnit}
    (each : ∀ item, item ∈ items → KeepsCount copy (body item) (fun _ _ _ => True)) :
    KeepsCount copy (items.forM body) (fun _ _ _ => True) := by
  induction items with
  | nil => exact KeepsCount.pure (fun _ _ => trivial)
  | cons item rest ih =>
    show KeepsCount copy (body item >>= fun _ => rest.forM body) _
    refine KeepsCount.seq (each item List.mem_cons_self) ?_
    intro _ _
    exact ih (fun item member => each item (List.mem_cons_of_mem _ member))

omit [DecidableEq V] [MyValue V] in
theorem ofExec {program : Exec V α} {post : α → List (DbEvent V) → Prop}
    (promises : Program.Promises CountsUp program post) :
    KeepsCount copy (Insert.ofExec program) (fun value _ events => post value events) := by
  intro state counts
  show (program.run >>= fun result => (Pure.pure (result, state) :
    Section V (MyResult α × Inserting V))).Always CountsUp _
  apply Program.Always.bind
  apply Program.Always.weaken promises
  intro events result holds
  refine ⟨counts, ?_⟩
  intro value isValue
  rw [List.append_nil]
  exact holds value isValue

end KeepsCount

omit [DecidableEq V] [MyValue V] in
theorem Inserting.Counts.generate {copy : Table V} (counts : Inserting.Counts copy state)
    (notLast : state.work.nextAutoIncrement ≠ 9223372036854775807) :
    Inserting.Counts copy { state with
      work := { state.work with nextAutoIncrement := nextId state.work.nextAutoIncrement }
      generated := state.generated ++ [state.work.nextAutoIncrement] } := by
  have up := counts.up
  have isNext : nextId state.work.nextAutoIncrement = state.work.nextAutoIncrement + 1 :=
    if_neg notLast
  rw [isNext]
  constructor
  · simp only
    omega
  · intro id member
    simp only
    rcases List.mem_append.mp member with old | new
    · have within := counts.within id old
      omega
    · rw [List.mem_singleton.mp new]
      omega
  · apply List.pairwise_append.mpr
    refine ⟨counts.increasing, List.pairwise_singleton _ _, ?_⟩
    intro a old b new
    rw [List.mem_singleton.mp new]
    exact (counts.within a old).2

omit [DecidableEq V] [MyValue V] in
theorem Inserting.Counts.of_work {copy : Table V} {state' : Inserting V}
    (counts : Inserting.Counts copy state)
    (up : state.work.nextAutoIncrement ≤ state'.work.nextAutoIncrement)
    (same : state'.generated = state.generated) : Inserting.Counts copy state' := by
  have up₀ := counts.up
  constructor
  · omega
  · intro id member
    rw [same] at member
    have within := counts.within id member
    omega
  · rw [same]
    exact counts.increasing

theorem keepsCount_fillColumn (copy : Table V) (s : Session V) (provided : List Bool)
    (row : Row V) (x : Column V × Nat) :
    KeepsCount copy (fillColumn s provided row x) (fun _ _ _ => True) := by
  unfold fillColumn
  simp only
  split
  · apply KeepsCount.get_bind
    intro state counts
    -- The counter moves, and the id is noted.
    refine ⟨trivial, fun notLast _ => ?_⟩
    exact ⟨counts.generate notLast, fun _ _ => trivial⟩
  · split
    · split
      · exact KeepsCount.throw
      · exact KeepsCount.pure (fun _ _ => trivial)
    · split
      · split
        · exact KeepsCount.pure (fun _ _ => trivial)
        · split
          · exact KeepsCount.pure (fun _ _ => trivial)
          · split
            · split
              · exact KeepsCount.throw
              · exact KeepsCount.pure (fun _ _ => trivial)
            · exact KeepsCount.pure (fun _ _ => trivial)
      · exact KeepsCount.pure (fun _ _ => trivial)

omit [DecidableEq V] in
theorem keepsCount_coerceColumn (copy : Table V) (s : Session V) (row : Row V)
    (x : Column V × Nat) : KeepsCount copy (coerceColumn s row x) (fun _ _ _ => True) := by
  unfold coerceColumn
  refine KeepsCount.seq (KeepsCount.ofResult (fun _ _ _ => trivial)) ?_
  intro v _
  simp only
  split
  · exact KeepsCount.pure (fun _ _ => trivial)
  · rename_i n _
    apply KeepsCount.get_bind
    intro state counts
    split
    · refine ⟨trivial, fun notLast _ => ?_⟩
      refine ⟨counts.of_work ?_ rfl, fun _ _ => trivial⟩
      show state.work.nextAutoIncrement ≤ nextId n
      rw [nextId, if_neg notLast]
      omega
    · exact ⟨counts, fun _ _ => trivial⟩

theorem replaceRows_work (keys : List (String × List Nat)) (newRow : Row V) (n : Nat)
    (state : Inserting V) :
    (replaceRows keys newRow n state).work.nextAutoIncrement = state.work.nextAutoIncrement ∧
      (replaceRows keys newRow n state).generated = state.generated := by
  induction n generalizing state with
  | zero => exact ⟨rfl, rfl⟩
  | succ n ih =>
    unfold replaceRows
    split
    · exact ⟨rfl, rfl⟩
    · obtain ⟨counter, generated⟩ := ih { state with
        work := { state.work with rows := state.work.rows.eraseIdx _ }
        replaced := state.replaced ++ [state.work.rows.getD _ []]
        affected := state.affected + 1 }
      exact ⟨counter, generated⟩

theorem Inserting.Counts.resolve {copy : Table V} {keys : List (String × List Nat)}
    {mode : InsertMode V} {newRow : Row V} {i k : Nat} {state' : Inserting V}
    (counts : Inserting.Counts copy state)
    (done : resolveConflict s keys mode newRow i k state = .ok state') :
    Inserting.Counts copy state' := by
  cases mode with
  | error => cases done
  | ignore =>
    cases done
    exact counts
  | replace =>
    cases done
    obtain ⟨counter, generated⟩ := replaceRows_work keys newRow state.work.rows.length state
    exact counts.of_work (Int.le_of_eq counter.symm) generated
  | upsert assignments =>
    obtain ⟨updated, applied, done⟩ := bind_eq_ok done
    obtain ⟨row, rfl⟩ := applyAssignments_eq applied
    simp only at done
    split at done
    · cases done
    · cases done
      exact counts.of_work (Int.le_refl _) rfl

theorem keepsCount_placeRow (copy : Table V) (s : Session V) (db : String)
    (keys : List (String × List Nat)) (mode : InsertMode V) (newRow : Row V) :
    KeepsCount copy (placeRow s db keys mode newRow) (fun _ _ _ => True) := by
  unfold placeRow
  apply KeepsCount.get_bind
  intro state counts
  split
  · refine ⟨?_, fun _ _ => trivial⟩
    exact counts.of_work (Int.le_refl _) rfl
  · rename_i i k _
    refine KeepsCount.seq
      ((KeepsCount.ofExec (promises_waitIfLocked s db state.work _)).weaken (fun _ _ _ _ => trivial))
      ?_ state counts
    intro _ _
    refine KeepsCount.seq (KeepsCount.ofResult (fun placed isPlaced _ => isPlaced)) ?_
    intro placed isPlaced state' _
    exact ⟨counts.resolve isPlaced, fun _ _ => trivial⟩

theorem keepsCount_insertRow (copy : Table V) (s : Session V) (db : String)
    (keys : List (String × List Nat)) (mode : InsertMode V) (columns : List String)
    (colIndices : List Nat) (x : Values V × Nat) :
    KeepsCount copy (insertRow s db keys mode columns colIndices x) (fun _ _ _ => True) := by
  unfold insertRow
  apply KeepsCount.get_bind
  intro state counts
  simp only
  split
  · exact ⟨counts, fun _ _ => trivial⟩
  · refine KeepsCount.seq (KeepsCount.ofResult (fun _ _ _ => trivial)) ?_ state counts
    rintro ⟨row, provided⟩ _
    refine KeepsCount.seq
      (KeepsCount.foldlM (fun row x _ => keepsCount_fillColumn copy s provided row x)) ?_
    intro row _
    refine KeepsCount.seq (KeepsCount.foldlM (fun row x _ => keepsCount_coerceColumn copy s row x))
      ?_
    intro row _
    apply KeepsCount.get_bind
    intro state counts
    split
    · exact keepsCount_placeRow copy s db keys mode row state counts
    · split
      · exact ⟨counts, fun _ _ => trivial⟩
      · exact ⟨counts, fun _ _ => trivial⟩

/-- What a statement promises once it is acknowledged: the tables it reports are stored, and
its ids are all different and between the counters of a table it stored. -/
structure Acknowledged (outcome : Outcome V) (events : List (DbEvent V)) : Prop where
  made : ∀ w, w ∈ outcome.written → stored w.1 w.2.1 w.2.2 ∈ events
  distinct : outcome.generated.Nodup
  counted : ∀ g, g ∈ outcome.generated → ∃ copy work, stored g.1 copy work ∈ events ∧
    copy.nextAutoIncrement ≤ g.2 ∧ g.2 < work.nextAutoIncrement

omit [DecidableEq V] [MyValue V] in
theorem Acknowledged.append {outcome : Outcome V} {events : List (DbEvent V)}
    (acknowledged : Acknowledged outcome events) (before : List (DbEvent V)) :
    Acknowledged outcome (before ++ events) := by
  refine ⟨?_, acknowledged.distinct, ?_⟩
  · intro w member
    exact List.mem_append_right before (acknowledged.made w member)
  · intro g member
    obtain ⟨copy, work, made, bounds⟩ := acknowledged.counted g member
    exact ⟨copy, work, List.mem_append_right before made, bounds⟩

omit [DecidableEq V] [MyValue V] in
theorem Inserting.Counts.acknowledged {copy : Table V} (counts : Inserting.Counts copy state)
    {affectedRows : Nat} {insertId : Int} {written : List (Key × Table V × Table V)}
    {events : List (DbEvent V)} (made : ∀ w, w ∈ written → stored w.1 w.2.1 w.2.2 ∈ events)
    (own : stored key copy work ∈ events)
    (same : work.nextAutoIncrement = state.work.nextAutoIncrement) :
    Acknowledged { affectedRows := affectedRows
                   insertId := insertId
                   generated := state.generated.map (fun id => (key, id))
                   written := written } events := by
  refine ⟨made, ?_, ?_⟩
  · apply List.Nodup.map
    · intro a b same
      exact (Prod.mk.inj same).2
    · exact counts.increasing.imp (fun less => Int.ne_of_lt less)
  · intro g member
    obtain ⟨id, generated, rfl⟩ := List.mem_map.mp member
    refine ⟨copy, work, own, ?_⟩
    rw [same]
    exact counts.within id generated

theorem promises_storeInsert (s : Session V) (db : String) {copy : Table V} (relevant : Bool)
    (up : copy.nextAutoIncrement ≤ state.work.nextAutoIncrement) :
    Program.Promises CountsUp (storeInsert s db copy relevant state)
      (fun written events => (∀ w, w ∈ written → stored w.1 w.2.1 w.2.2 ∈ events) ∧
        ∃ rows, stored (db, state.work.name) copy { state.work with rows := rows } ∈ events) := by
  unfold storeInsert
  split
  · exact promises_finishWrite s db up _ _
  · apply Program.Promises.bind
    apply (promises_storeTable s db up).weaken
    intro _ events made
    apply Program.Promises.pure
    rw [List.append_nil]
    refine ⟨?_, state.work.rows, made⟩
    intro w member
    rw [List.mem_singleton.mp member]
    exact made

theorem keepsCount_insertBody (s : Session V) (db : String) (columns : List String)
    (rows : List (Values V)) (mode : InsertMode V) (copy : Table V) (relevant : Bool) :
    KeepsCount copy (insertBody s db columns rows mode copy relevant)
      (fun outcome _ events => Acknowledged outcome events) := by
  have grows : ∀ (outcome : Outcome V) (_ : Inserting V) (events before : List (DbEvent V)),
      Acknowledged outcome events → Acknowledged outcome (before ++ events) :=
    fun _ _ _ before acknowledged => acknowledged.append before
  unfold insertBody
  refine KeepsCount.seqGrowing grows (KeepsCount.ofResult (fun _ _ _ => trivial)) ?_
  intro _ _
  refine KeepsCount.seqGrowing grows (KeepsCount.ofResult (fun _ _ _ => trivial)) ?_
  intro colIndices _
  refine KeepsCount.seqGrowing grows (KeepsCount.forM (fun x _ =>
    keepsCount_insertRow copy s db copy.keys mode columns colIndices x)) ?_
  intro _ _
  apply KeepsCount.get_bind
  intro state counts
  have ends : KeepsCount copy
      (Insert.ofExec (storeInsert s db copy relevant state) >>= fun written => pure
        { affectedRows := state.affected
          insertId := state.generated.headD 0
          generated := state.generated.map (fun id => ((db, state.work.name), id))
          written := written })
      (fun outcome _ events => Acknowledged outcome events) := by
    apply KeepsCount.bind
    apply (KeepsCount.ofExec (promises_storeInsert s db relevant counts.up)).weaken
    intro written state' events ⟨made, rows', own⟩ counts'
    refine ⟨counts', ?_⟩
    intro outcome isOutcome
    cases isOutcome
    rw [List.append_nil]
    exact counts.acknowledged made own rfl
  exact ends state counts

theorem promises_insert (s : Session V) (key : Key) (columns : List String)
    (rows : List (Values V)) (mode : InsertMode V) :
    Program.Promises CountsUp (insert s key columns rows mode) Acknowledged := by
  unfold insert
  apply Program.Promises.bind
  apply promises_loadTable
  intro copy events₁
  apply Program.Promises.bind
  apply (promises_fkRelevant s key.1 copy).weaken
  intro relevant events₂ _
  have counts : Inserting.Counts copy { work := copy } :=
    ⟨Int.le_refl _, fun id member => (List.not_mem_nil member).elim, List.Pairwise.nil⟩
  have body := keepsCount_insertBody s key.1 columns rows mode copy relevant { work := copy } counts
  apply Program.Promises.bind
  have lifted : Program.Promises CountsUp (ExceptT.lift
      ((insertBody s key.1 columns rows mode copy relevant).run.run { work := copy }) :
        Exec V (MyResult (Outcome V) × Inserting V))
      (fun r events => Inserting.Counts copy r.2 ∧
        ∀ outcome, r.1 = .ok outcome → Acknowledged outcome events) := by
    apply Program.Always.bind
    apply body.weaken
    intro events result holds r isR
    cases isR
    rw [List.append_nil]
    exact holds
  apply lifted.weaken
  rintro ⟨result, state⟩ events₃ ⟨counts', acknowledged⟩
  cases result with
  | ok outcome =>
    apply Program.Promises.pure
    rw [List.append_nil]
    exact ((acknowledged outcome rfl).append events₂).append events₁
  | error e =>
    cases e with
    | lockWait holder => exact Program.Promises.throw
    | error code sqlState message =>
      simp only
      split
      · apply Program.Promises.bind
        apply Program.Promises.ask counts'.up
        intro _ _
        exact Program.Promises.throw
      · exact Program.Promises.throw

theorem updateRow_work {keys : List (String × List Nat)} {fk : Bool}
    {recheck : Table V → Row V → Row V → Bool} {state state' : Updating V}
    {x : Nat × List (Assignment V)} (done : updateRow s keys fk recheck state x = .ok state') :
    ∃ row, state'.work = { state.work with rows := state.work.rows.set x.1 row } := by
  obtain ⟨work, applied, done⟩ := bind_eq_ok done
  obtain ⟨row, rfl⟩ := applyAssignments_eq applied
  simp only at done
  split at done
  · cases done
  · refine ⟨row, ?_⟩
    split at done
    · cases done
      rfl
    · split at done
      · cases done
        rfl
      · cases done
        rfl

theorem foldlM_updateRow_work {keys : List (String × List Nat)} {fk : Bool}
    {recheck : Table V → Row V → Row V → Bool} (at' : α → Nat × List (Assignment V))
    (items : List α) {state state' : Updating V}
    (done : items.foldlM (fun state x => updateRow s keys fk recheck state (at' x)) state =
      .ok state') : ∃ rows, state'.work = { state.work with rows := rows } := by
  induction items generalizing state with
  | nil =>
    cases done
    exact ⟨_, rfl⟩
  | cons x rest ih =>
    rw [List.foldlM_cons] at done
    obtain ⟨middle, first, done⟩ := bind_eq_ok done
    obtain ⟨row, isMiddle⟩ := updateRow_work first
    obtain ⟨rows, isLast⟩ := ih done
    rw [isMiddle] at isLast
    exact ⟨rows, isLast⟩

theorem promises_storeUpdate (s : Session V) (db : String) {copy : Table V} (fk : Bool)
    {state : Updating V} (up : copy.nextAutoIncrement ≤ state.work.nextAutoIncrement) :
    Program.Promises CountsUp (storeUpdate s db copy fk state)
      (fun written events => ∀ w, w ∈ written → stored w.1 w.2.1 w.2.2 ∈ events) := by
  unfold storeUpdate
  split
  · exact (promises_finishWrite s db up _ _).weaken (fun _ _ holds => holds.1)
  · apply Program.Promises.bind
    apply (promises_storeTable s db up).weaken
    intro _ events made
    apply Program.Promises.pure
    intro w member
    rw [List.mem_singleton.mp member, List.append_nil]
    exact made

theorem promises_update (s : Session V) (key : Key) (assignments : List (Assignment V))
    (choice : Choice V) :
    Program.Promises CountsUp (update s key assignments choice) Acknowledged := by
  unfold update
  apply Program.Promises.bind
  apply promises_loadTable
  intro copy events₁
  apply Program.Promises.bind
  apply Program.Promises.ofResult
  intro targets _
  apply Program.Promises.bind
  apply (promises_fkRelevant s key.1 copy).weaken
  intro fk events₂ _
  apply Program.Promises.bind
  apply Program.Promises.ofResult
  intro state done
  obtain ⟨rows, isWork⟩ := foldlM_updateRow_work (fun i => (i, assignments)) targets done
  have up : copy.nextAutoIncrement ≤ state.work.nextAutoIncrement := by
    simp [isWork]
  apply Program.Promises.bind
  apply (promises_storeUpdate s key.1 fk up).weaken
  intro written events₃ made
  apply Program.Promises.pure
  refine ⟨?_, List.nodup_nil, fun g member => (List.not_mem_nil member).elim⟩
  intro w member
  simp [made w member]

theorem promises_storeDelete (s : Session V) (db : String) (copy : Table V) (targets : List Nat) :
    Program.Promises CountsUp (storeDelete s db copy targets)
      (fun written events => ∀ w, w ∈ written → stored w.1 w.2.1 w.2.2 ∈ events) := by
  unfold storeDelete
  apply Program.Promises.bind
  apply (promises_fkRelevant s db copy).weaken
  intro fk events₁ _
  have up : copy.nextAutoIncrement ≤
    { copy with rows := withoutTargets copy.rows targets }.nextAutoIncrement := Int.le_refl _
  generalize (if fk = true then targets.map (fun i => copy.rows.getD i []) else []) = removed
  simp only
  split
  · apply Program.Promises.bind
    apply (promises_storeTable s db up).weaken
    intro _ events made
    apply Program.Promises.pure
    intro w member
    rw [List.mem_singleton.mp member, List.append_nil]
    exact List.mem_append_right _ made
  · apply (promises_finishWrite s db up _ _).weaken
    intro written events ⟨made, _⟩ w member
    exact List.mem_append_right _ (made w member)

theorem promises_delete (s : Session V) (key : Key) (choice : Choice V) :
    Program.Promises CountsUp (delete s key choice) Acknowledged := by
  unfold delete
  apply Program.Promises.bind
  apply promises_loadTable
  intro copy events₁
  apply Program.Promises.bind
  apply Program.Promises.ofResult
  intro targets _
  apply Program.Promises.bind
  apply (promises_storeDelete s key.1 copy targets).weaken
  intro written events₂ made
  apply Program.Promises.pure
  refine ⟨?_, List.nodup_nil, fun g member => (List.not_mem_nil member).elim⟩
  intro w member
  simp [made w member]

end Promises

section Runs

variable {V : Type} [DecidableEq V] [MyValue V]

inductive Dml (V : Type) where
  | insert (s : Session V) (key : Key) (columns : List String) (rows : List (Values V))
      (mode : InsertMode V)
  | update (s : Session V) (key : Key) (assignments : List (Assignment V)) (choice : Choice V)
  | delete (s : Session V) (key : Key) (choice : Choice V)

def Dml.program : Dml V → Section V (MyResult (Outcome V))
  | .insert s key columns rows mode => (MySql.insert s key columns rows mode).run
  | .update s key assignments choice => (MySql.update s key assignments choice).run
  | .delete s key choice => (MySql.delete s key choice).run

theorem Dml.acknowledged (dml : Dml V) :
    dml.program.Always CountsUp (fun events result =>
      ∀ outcome, result = .ok outcome → Acknowledged outcome events) := by
  cases dml with
  | insert s key columns rows mode => exact promises_insert s key columns rows mode
  | update s key assignments choice => exact promises_update s key assignments choice
  | delete s key choice => exact promises_delete s key choice

abbrev InFlight (V : Type) := Pool (dbInterface V) (DbState V) (MyResult (Outcome V)) Nat

/-- What happens besides leaves the tables alone: other connections open and end transactions
or take locks. -/
def KeepsTables (change : DbState V → DbState V) : Prop :=
  ∀ state key, (change state).get key = state.get key

/-- A table that is stored has the rows and the counter that it had when it was copied, and no id
is the last one. -/
def Undisturbed (state : DbState V) : (dbInterface V).Call → Prop
  | DbCall.store key copy _ => ∃ current, state.get key = some current ∧
      current.table.rows.Perm copy.rows ∧
      current.table.nextAutoIncrement = copy.nextAutoIncrement
  | DbCall.counter key copy _ => ∀ current, state.get key = some current →
      current.table.nextAutoIncrement = copy.nextAutoIncrement
  | DbCall.countPast id => id ≠ 9223372036854775807
  | _ => True

def ChangesRow (key : Key) (row : Row V) (m : Nat × DbEvent V) : Prop :=
  ∃ copy work, m.2 = stored key copy work ∧ copy.rows.count row ≠ work.rows.count row

def CountsBefore (a b : Nat × DbEvent V) : Prop :=
  ∀ key copy work copy' work', a.2 = stored key copy work → b.2 = stored key copy' work' →
    work.nextAutoIncrement ≤ copy'.nextAutoIncrement

structure Kept (state : DbState V) (made : List (Nat × DbEvent V)) : Prop where
  rows : ∀ before number key copy work after,
    made = before ++ (number, stored key copy work) :: after →
    ∀ row, (∀ m, m ∈ after → ¬ ChangesRow key row m) →
    ∃ current, state.get key = some current ∧
      current.table.rows.count row = work.rows.count row
  counter : ∀ m, m ∈ made → ∀ key copy work, m.2 = stored key copy work →
    ∃ current, state.get key = some current ∧
      work.nextAutoIncrement ≤ current.table.nextAutoIncrement
  apart : made.Pairwise CountsBefore

omit [MyValue V] in
theorem kept_new (state : DbState V) : Kept state [] where
  rows := by
    intro before number key copy work after impossible
    have lengths := congrArg List.length impossible
    simp at lengths
  counter := fun m member => (List.not_mem_nil member).elim
  apart := List.Pairwise.nil

omit [DecidableEq V] [MyValue V] in
theorem get_insert (state : DbState V) (key other : Key) (t : Table V) :
    (state.insert key t).get other =
      if other = key then some ⟨state.nextId, t⟩ else state.get other :=
  lookup_put key other _ state.tables

omit [DecidableEq V] [MyValue V] in
theorem split_append_singleton {α : Type} {items before after : List α} {last x : α}
    (split : items ++ [last] = before ++ x :: after) :
    (items = before ∧ last = x ∧ after = []) ∨
      ∃ after', after = after' ++ [last] ∧ items = before ++ x :: after' := by
  rcases List.eq_nil_or_concat after with rfl | ⟨after', last', rfl⟩
  · obtain ⟨same, sameLast⟩ := List.append_inj' split rfl
    exact Or.inl ⟨same, by simpa using sameLast, rfl⟩
  · have assoc : before ++ x :: after'.concat last' = (before ++ x :: after') ++ [last'] := by
      simp
    rw [assoc] at split
    obtain ⟨same, sameLast⟩ := List.append_inj' split rfl
    have isLast : last = last' := by simpa using sameLast
    rw [isLast]
    exact Or.inr ⟨after', by simp, same⟩

variable {state : DbState V} {made : List (Nat × DbEvent V)}

omit [MyValue V] in
theorem Kept.quiet {state' : DbState V} (kept : Kept state made) {m : Nat × DbEvent V}
    (noStore : ∀ key copy work, m.2 ≠ stored key copy work)
    (same : ∀ key current, state.get key = some current → ∃ current',
      state'.get key = some current' ∧ current'.table.rows = current.table.rows ∧
        current.table.nextAutoIncrement ≤ current'.table.nextAutoIncrement) :
    Kept state' (made ++ [m]) := by
  constructor
  · intro before number key copy work after split row unchanged
    rcases split_append_singleton split with ⟨_, isLast, _⟩ | ⟨after', rfl, split'⟩
    · exact (noStore key copy work (by rw [isLast])).elim
    · obtain ⟨current, found, counts⟩ := kept.rows before number key copy work after' split' row
        (fun m member => unchanged m (List.mem_append_left _ member))
      obtain ⟨current', found', sameRows, _⟩ := same key current found
      exact ⟨current', found', by rw [sameRows, counts]⟩
  · intro m' member key copy work isStore
    rcases List.mem_append.mp member with old | new
    · obtain ⟨current, found, up⟩ := kept.counter m' old key copy work isStore
      obtain ⟨current', found', _, up'⟩ := same key current found
      exact ⟨current', found', by omega⟩
    · rw [List.mem_singleton.mp new] at isStore
      exact (noStore key copy work isStore).elim
  · apply List.pairwise_append.mpr
    refine ⟨kept.apart, List.pairwise_singleton _ _, ?_⟩
    intro a _ b new key copy work copy' work' _ isStore
    rw [List.mem_singleton.mp new] at isStore
    exact (noStore key copy' work' isStore).elim

omit [MyValue V] in
theorem Kept.store (kept : Kept state made) (number : Nat) {key : Key} {copy work : Table V}
    (up : copy.nextAutoIncrement ≤ work.nextAutoIncrement)
    (undisturbed : Undisturbed state (DbCall.store key copy work)) :
    Kept (state.insert key work) (made ++ [(number, stored key copy work)]) := by
  obtain ⟨current, found, sameRows, sameCounter⟩ := undisturbed
  have isStored : ∀ {key' : Key} {copy' work' : Table V},
      stored key copy work = stored key' copy' work' → key = key' ∧ copy = copy' ∧ work = work' := by
    intro key' copy' work' same
    have sameCall := congrArg Sigma.fst same
    exact DbCall.store.inj sameCall
  constructor
  · intro before number' key' copy' work' after split row unchanged
    rw [get_insert]
    rcases split_append_singleton split with ⟨_, isLast, _⟩ | ⟨after', rfl, split'⟩
    · obtain ⟨rfl, rfl, rfl⟩ := isStored (Prod.mk.inj isLast).2
      exact ⟨_, if_pos rfl, rfl⟩
    · obtain ⟨current', found', counts⟩ := kept.rows before number' key' copy' work' after' split' row
        (fun m member => unchanged m (List.mem_append_left _ member))
      by_cases sameKey : key' = key
      · subst sameKey
        obtain rfl := Option.some.inj (found.symm.trans found')
        refine ⟨_, if_pos rfl, ?_⟩
        -- The new store did not touch the row.
        have untouched : copy.rows.count row = work.rows.count row := by
          by_contra changed
          exact unchanged _ (List.mem_append_right _ (List.mem_singleton_self _))
            ⟨copy, work, rfl, changed⟩
        rw [← counts, sameRows.count_eq]
        exact untouched.symm
      · exact ⟨current', by rw [if_neg sameKey, found'], counts⟩
  · intro m member key' copy' work' isStore
    rw [get_insert]
    rcases List.mem_append.mp member with old | new
    · obtain ⟨current', found', up'⟩ := kept.counter m old key' copy' work' isStore
      by_cases sameKey : key' = key
      · subst sameKey
        obtain rfl := Option.some.inj (found.symm.trans found')
        exact ⟨_, if_pos rfl, by simp only; omega⟩
      · exact ⟨current', by rw [if_neg sameKey, found'], up'⟩
    · rw [List.mem_singleton.mp new] at isStore
      obtain ⟨rfl, rfl, rfl⟩ := isStored isStore
      exact ⟨_, if_pos rfl, Int.le_refl _⟩
  · apply List.pairwise_append.mpr
    refine ⟨kept.apart, List.pairwise_singleton _ _, ?_⟩
    intro a old b new key' copy₁ work₁ copy₂ work₂ isFirst isSecond
    rw [List.mem_singleton.mp new] at isSecond
    obtain ⟨rfl, rfl, rfl⟩ := isStored isSecond
    obtain ⟨current', found', up'⟩ := kept.counter a old key copy₁ work₁ isFirst
    obtain rfl := Option.some.inj (found.symm.trans found')
    omega

theorem Kept.called (walk : Walk (Nat × TxUndo V)) (virtual : VirtualTables V)
    (kept : Kept state made) (number : Nat) (c : (dbInterface V).Call) (up : CountsUp.meets c)
    (undisturbed : Undisturbed state c) :
    Kept (DbState.serve walk virtual c state).2
      (made ++ [(number, ⟨c, (DbState.serve walk virtual c state).1⟩)]) := by
  have noChange : ∀ key current, state.get key = some current → ∃ current',
      state.get key = some current' ∧ current'.table.rows = current.table.rows ∧
        current.table.nextAutoIncrement ≤ current'.table.nextAutoIncrement :=
    fun _ current found => ⟨current, found, rfl, Int.le_refl _⟩
  have otherCall : ∀ (answer : (dbInterface V).Answer c), (∀ key copy work,
      c ≠ DbCall.store key copy work) → ∀ key copy work,
      ((number, ⟨c, answer⟩) : Nat × DbEvent V).2 ≠ stored key copy work := by
    intro answer different key copy work same
    exact different key copy work (congrArg Sigma.fst same)
  match c with
  | DbCall.load key =>
    exact kept.quiet (otherCall _ (fun _ _ _ same => by cases same)) noChange
  | DbCall.referencing key =>
    exact kept.quiet (otherCall _ (fun _ _ _ same => by cases same)) noChange
  | DbCall.locked me key =>
    exact kept.quiet (otherCall _ (fun _ _ _ same => by cases same)) noChange
  | DbCall.countPast id =>
    exact kept.quiet (otherCall _ (fun _ _ _ same => by cases same)) noChange
  | DbCall.store key copy work =>
    by_cases known : key.1 ∈ state.databases
    · have served : DbState.serve walk virtual (DbCall.store key copy work) state =
          ((.ok () : MyResult Unit), state.insert key work) := if_pos known
      rw [served]
      exact kept.store number up undisturbed
    · have served : DbState.serve walk virtual (DbCall.store key copy work) state =
          ((.error (.unknownDatabase key.1) : MyResult Unit), state) := if_neg known
      rw [served]
      apply kept.quiet _ noChange
      intro key' copy' work' same
      cases same
  | DbCall.counter key copy next =>
    apply kept.quiet (otherCall _ (fun _ _ _ same => by cases same))
    intro key' current found
    show ∃ current', (state.setCounter key next).get key' = some current' ∧ _
    unfold DbState.setCounter
    split
    · exact ⟨current, found, rfl, Int.le_refl _⟩
    · rename_i current₀ found₀
      rw [get_insert]
      by_cases sameKey : key' = key
      · subst sameKey
        obtain rfl := Option.some.inj (found.symm.trans found₀)
        have sameCounter := undisturbed current found
        have countsUp : copy.nextAutoIncrement ≤ next := up
        exact ⟨_, if_pos rfl, rfl, by simp only; omega⟩
      · exact ⟨current, by rw [if_neg sameKey, found], rfl, Int.le_refl _⟩

structure NoLostUpdates (pool : InFlight V) : Prop where
  kept : ∀ number outcome, (number, .ok outcome) ∈ pool.answered →
    ∀ w, w ∈ outcome.written → ∃ before after,
      pool.made = before ++ (number, stored w.1 w.2.1 w.2.2) :: after ∧
      ∀ row, (∀ m, m ∈ after → ¬ ChangesRow w.1 row m) →
        ∃ current, pool.shared.get w.1 = some current ∧
          current.table.rows.count row = w.2.2.rows.count row
  once : ∀ number outcome, (number, .ok outcome) ∈ pool.answered → outcome.generated.Nodup
  distinct : ∀ number outcome number' outcome', (number, .ok outcome) ∈ pool.answered →
    (number', .ok outcome') ∈ pool.answered → number ≠ number' →
    ∀ g, g ∈ outcome.generated → g ∉ outcome'.generated

omit [DecidableEq V] [MyValue V] in
theorem mem_made_of_madeBy {pool : InFlight V} {number : Nat} {event : DbEvent V}
    (made : event ∈ pool.madeBy number) : (number, event) ∈ pool.made := by
  obtain ⟨m, member, rfl⟩ := List.mem_map.mp made
  obtain ⟨inMade, isNumber⟩ := List.mem_filter.mp member
  rw [← of_decide_eq_true isNumber]
  exact inMade

end Runs

def plainSession (connId : Nat) : Session Scalar where
  connId := connId
  now := .int 0
  coerceToColumn := fun v _ => .ok v
  addedColumnValue := fun _ => .null
  bindCheck := fun _ => .ok ()
  evalCheck := fun _ _ _ => .ok (.int 1)

def counted : Table Scalar where
  name := "t"
  columns := [{ name := "id", autoIncrement := true, primaryKey := true }, { name := "v" }]

def countedDb : DbState Scalar := DbState.insert { databases := ["test"] } ("test", "t") counted

def insertCounted (connId : Nat) (v : Int) : Dml Scalar :=
  .insert (plainSession connId) ("test", "t") ["v"] [[some (.ok (.int v))]] .error

def wholeInsert (connId : Nat) (v : Int) :
    List (Move (dbInterface Scalar) (DbState Scalar) (MyResult (Outcome Scalar)) Nat) :=
  .start connId (insertCounted connId v).program :: List.replicate 6 (.step connId)

abbrev serveInTurn : Program.Server (dbInterface Scalar) (DbState Scalar) :=
  DbState.serve Walk.inTurn (fun _ _ => none)

def overlapping : List (Move (dbInterface Scalar) (DbState Scalar) (MyResult (Outcome Scalar)) Nat) :=
  [.start 1 (insertCounted 1 10).program, .start 2 (insertCounted 2 20).program, .step 1, .step 2] ++
    List.replicate 5 (.step 1) ++ List.replicate 5 (.step 2)

end NoidaDb.MySql
