/-
Any number of sessions on one database.
-/

import NoidaDb.Postgres.Deferred
import NoidaDb.Postgres.Ledger
import NoidaDb.Postgres.Runs

namespace NoidaDb.Postgres

variable {D : Type}

structure World (D : Type) where
  global : Global D
  sessions : Nat → Session D

def World.conn (w : World D) (i : Nat) : Conn D := { global := w.global, session := w.sessions i }

structure History (D : Type) where
  world : World D
  ledgers : Nat → Ledger D := fun _ => {}
  log : List (D → D) := []

def History.committed (h : History D) : D := h.world.global.db

structure World.AtRest (w : World D) : Prop where
  id : ∀ i, (w.sessions i).id = i
  idle : ∀ i, (w.sessions i).status = .idle
  closed : ∀ i, (w.sessions i).txn = none

variable [Database D]

/-- Session `call.1` sends the request `call.2`. -/
def History.next (rules : SettingRules) (h : History D) (call : Nat × Request D) : History D :=
  let c := h.world.conn call.1
  let served := serve rules c call.2
  let ledger := h.ledgers call.1
  { world :=
      { global := served.1.global
        sessions := Function.update h.world.sessions call.1 served.1.session }
    ledgers := Function.update h.ledgers call.1 (ledger.note c served.1 call.2 served.2)
    log := h.log ++ ledger.acknowledged c served.1 call.2 served.2 }

def History.run (rules : SettingRules) (h : History D) (calls : List (Nat × Request D)) :
    History D :=
  calls.foldl (History.next rules) h

def Orderly (rules : SettingRules) : History D → List (Nat × Request D) → Prop
  | _, [] => True
  | h, call :: rest =>
    Undisturbed (h.world.conn call.1) (h.ledgers call.1) call.2 ∧
      Orderly rules (h.next rules call) rest

structure History.Sound (h : History D) : Prop where
  id : ∀ i, (h.world.sessions i).id = i
  accounts : ∀ i, Accounts (h.world.conn i) (h.ledgers i)

omit [Database D] in
theorem World.AtRest.sound {w : World D} (atRest : w.AtRest) :
    History.Sound { world := w } where
  id := atRest.id
  accounts := fun i => .atRest (atRest.idle i) (atRest.closed i)

theorem History.Sound.next {rules : SettingRules} {h : History D} (sound : h.Sound)
    {call : Nat × Request D}
    (undisturbed : Undisturbed (h.world.conn call.1) (h.ledgers call.1) call.2) :
    (h.next rules call).Sound ∧ ∃ writes, (h.next rules call).log = h.log ++ writes ∧
      (h.next rules call).committed = replay writes h.committed := by
  obtain ⟨i, request⟩ := call
  have posted := (sound.accounts i).serve undisturbed
    (Prod.eta (serve rules (h.world.conn i) request)).symm
  refine ⟨⟨?_, ?_⟩, _, rfl, posted.db⟩
  · intro j
    by_cases same : j = i
    · subst same
      simpa [History.next] using posted.id.trans (sound.id j)
    · simpa [History.next, same] using sound.id j
  · intro j
    by_cases same : j = i
    · subst same
      simpa [History.next, World.conn] using posted.accounts
    · have excluded : (h.world.conn j).global.writer = some (h.world.conn j).session.id →
          (serve rules (h.world.conn i) request).1.global = h.world.global := by
        have posted := posted.excluded j
        simp only [World.conn, sound.id] at posted ⊢
        exact posted same
      simpa [History.next, World.conn, same] using (sound.accounts j).others excluded

theorem Orderly.run {rules : SettingRules} (calls : List (Nat × Request D)) {h : History D}
    (sound : h.Sound) (orderly : Orderly rules h calls) :
    (h.run rules calls).Sound ∧ ∃ writes, (h.run rules calls).log = h.log ++ writes ∧
      (h.run rules calls).committed = replay writes h.committed := by
  induction calls generalizing h with
  | nil => exact ⟨sound, [], by simp [History.run], rfl⟩
  | cons call rest ih =>
    obtain ⟨soundNext, first, logged, changed⟩ := @History.Sound.next _ _ rules _ sound call orderly.1
    obtain ⟨soundLater, later, loggedLater, changedLater⟩ := ih soundNext orderly.2
    refine ⟨soundLater, first ++ later, ?_, ?_⟩
    · rw [← List.append_assoc, ← logged]
      exact loggedLater
    · rw [replay_append, ← changed]
      exact changedLater

theorem Orderly.append {rules : SettingRules} (calls : List (Nat × Request D))
    {later : List (Nat × Request D)} {h : History D}
    (orderly : Orderly rules h (calls ++ later)) :
    Orderly rules h calls ∧ Orderly rules (h.run rules calls) later := by
  induction calls generalizing h with
  | nil => exact ⟨trivial, orderly⟩
  | cons call rest ih =>
    obtain ⟨front, back⟩ := ih orderly.2
    exact ⟨⟨orderly.1, front⟩, back⟩

/-- In every interleaving that meets the condition, the committed database changes only by the
acknowledged writes, in the order of their commits. -/
theorem run_keepsCommitted (rules : SettingRules) (w : World D)
    (calls later : List (Nat × Request D)) (atRest : w.AtRest)
    (orderly : Orderly rules { world := w } (calls ++ later)) :
    ∃ writes,
      (History.run rules { world := w } (calls ++ later)).log =
        (History.run rules { world := w } calls).log ++ writes ∧
      (History.run rules { world := w } (calls ++ later)).committed =
        replay writes (History.run rules { world := w } calls).committed ∧
      ∀ holds : D → Prop, (∀ write, write ∈ writes → ∀ db, holds db → holds (write db)) →
        holds (History.run rules { world := w } calls).committed →
          holds (History.run rules { world := w } (calls ++ later)).committed := by
  obtain ⟨front, back⟩ := Orderly.append calls orderly
  obtain ⟨sound, _⟩ := front.run calls atRest.sound
  obtain ⟨_, writes, logged, changed⟩ := back.run later sound
  have joined : History.run rules { world := w } (calls ++ later) =
      (History.run rules { world := w } calls).run rules later := List.foldl_append
  rw [joined]
  refine ⟨writes, logged, changed, ?_⟩
  intro holds kept now
  rw [changed]
  exact replay_holds writes kept now

/-- Sessions on an empty `t (k int PRIMARY KEY)`. -/
def keyedWorld : World (DbState Scalar) where
  global := { db := (Ctx.ofTables [keyed]).db }
  sessions := fun i =>
    { id := i, rt := { settings := { values := fun _ => none } } }

theorem keyedWorld_atRest : keyedWorld.AtRest := ⟨fun _ => rfl, fun _ => rfl, fun _ => rfl⟩

/-- `INSERT INTO t VALUES (k)`. -/
def addKey (k : Int) : Stmt (DbState Scalar) :=
  .data (.ofDml 1 0 (fun db => db) (insertValues 1 1 [[.int k]]))

def savedThenOvertaken : List (Nat × Request (DbState Scalar)) :=
  [(1, .statement .startTransaction), (1, .statement (.savepoint "s")), (2, .statement (addKey 2))]

def goBackAndCommit : List (Nat × Request (DbState Scalar)) :=
  [(1, .statement (addKey 1)), (1, .statement (.rollbackTo "s")), (1, .statement .commit)]

theorem run_losesCommitted_goBack :
    ¬ ∀ (rules : SettingRules) (w : World (DbState Scalar))
      (calls later : List (Nat × Request (DbState Scalar))), w.AtRest →
      ∃ writes,
        (History.run rules { world := w } (calls ++ later)).log =
          (History.run rules { world := w } calls).log ++ writes ∧
        (History.run rules { world := w } (calls ++ later)).committed =
          replay writes (History.run rules { world := w } calls).committed := by
  intro claimed
  obtain ⟨writes, logged, changed⟩ :=
    claimed textRules keyedWorld savedThenOvertaken goBackAndCommit keyedWorld_atRest
  have only : (History.run textRules { world := keyedWorld }
        (savedThenOvertaken ++ goBackAndCommit)).log =
      (History.run textRules { world := keyedWorld } savedThenOvertaken).log ++
        [Database.onCommitActions ""] := rfl
  obtain rfl : [Database.onCommitActions ""] = writes := List.append_cancel_left (only.symm.trans logged)
  have lost := congrArg (fun db => db.rows 1) changed
  have after : (History.run textRules { world := keyedWorld }
      (savedThenOvertaken ++ goBackAndCommit)).committed.rows 1 = [] := rfl
  have kept : (replay [Database.onCommitActions ""]
      (History.run textRules { world := keyedWorld } savedThenOvertaken).committed).rows 1 =
        [[.int 2]] := rfl
  rw [after, kept] at lost
  cases lost

def savedAndWaited : List (Nat × Request (DbState Scalar)) :=
  [(1, .statement .startTransaction), (1, .statement (.savepoint "s")),
    (1, .statement (addKey 1)), (2, .statement (addKey 2)), (1, .statement (.rollbackTo "s")),
    (1, .statement (addKey 3)), (1, .statement .commit)]

theorem savedAndWaited_orderly :
    Orderly textRules { world := keyedWorld }
      (savedAndWaited ++ [(2, .statement (addKey 2))]) := by
  have writes : ∀ (c : Conn (DbState Scalar)) (ledger : Ledger (DbState Scalar)) (k : Int),
      Undisturbed c ledger (.statement (addKey k)) := by
    intro c ledger k reads
    cases reads
  refine ⟨fun _ => rfl, trivial, writes _ _ 1, writes _ _ 2, ?_, writes _ _ 3, trivial,
    writes _ _ 2, trivial⟩
  intro tx sp outer m rest open' _ found _ _
  cases open'
  cases found
  rfl

theorem run_keepsCommitted_waited :
    (History.run textRules { world := keyedWorld } savedAndWaited).committed.rows 1 =
        [[.int 3]] ∧
      (History.run textRules { world := keyedWorld }
        (savedAndWaited ++ [(2, .statement (addKey 2))])).committed.rows 1 =
        [[.int 3], [.int 2]] ∧
      ∃ writes, (History.run textRules { world := keyedWorld }
          (savedAndWaited ++ [(2, .statement (addKey 2))])).committed =
        replay writes (History.run textRules { world := keyedWorld } savedAndWaited).committed := by
  refine ⟨rfl, rfl, ?_⟩
  obtain ⟨writes, _, changed, _⟩ := run_keepsCommitted textRules keyedWorld savedAndWaited
    [(2, .statement (addKey 2))] keyedWorld_atRest savedAndWaited_orderly
  exact ⟨writes, changed⟩

end NoidaDb.Postgres
