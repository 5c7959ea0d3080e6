/-
Deadlocks.

An entry among the waits is as old as the last attempt of its connection: the holder it names may
have ended its transaction since.  It names one holder, though others may hold rows too that the
connection needs.
-/

import NoidaDb.MySql.Engine
import NoidaDb.MySql.LostUpdates

namespace NoidaDb.MySql

open MyValue Lib

section Deadlocks

variable {V : Type} [DecidableEq V] [MyValue V] (walk : Walk (Nat × TxUndo V))
  (virtual : VirtualTables V)

namespace Engines

/-- `a` runs a plan that needs a row held by the open transaction of `b`: it would wait for `b`
if nobody else held any. -/
def BlockedOn (s : Engines V) (a b : Nat) : Prop :=
  ∃ plan written, (s.engine a).running = some (plan, written) ∧
    (plan.attemptAlone walk virtual b a s.db).1 = .error (.lockWait b) ∧
    HoldsRow walk s.db a b ∧ ∃ undo, (b, undo) ∈ s.db.openTxns

/-- `b` is the one that `a` is told to wait for. -/
def Reports (s : Engines V) (a b : Nat) : Prop :=
  ∃ plan written, (s.engine a).running = some (plan, written) ∧
    (plan.attempt walk virtual a s.db).1 = .error (.lockWait b)

/-- On the way of the waits from `holder` on, everyone but `me` is still blocked on the
connection that its entry names. -/
def Current (s : Engines V) (me holder : Nat) : Prop :=
  ∀ a b, a ≠ me → Relation.ReflTransGen (WaitsFor s.waits) holder a → WaitsFor s.waits a b →
    s.BlockedOn walk virtual a b

/-- A connection that a cycle goes through is told to wait for the next one on it. -/
def ToldOnCycles (s : Engines V) (me : Nat) : Prop :=
  ∀ holder, s.BlockedOn walk virtual me holder →
    Relation.TransGen (s.BlockedOn walk virtual) holder me → s.Reports walk virtual me holder

def CurrentAlong : Engines V → List (Event V) → Prop
  | _, [] => True
  | s, e :: rest =>
    (∀ conn timeIsUp, e = .attempt conn timeIsUp →
      (∀ holder, s.Reports walk virtual conn holder → s.Current walk virtual conn holder) ∧
        s.ToldOnCycles walk virtual conn) ∧
    CurrentAlong (s.next walk virtual e) rest

/-- Each of `members` is blocked on the next one; after `n` of them it is the first again. -/
structure Cycle (s : Engines V) (n : Nat) (members : Nat → Nat) : Prop where
  nonempty : 0 < n
  again : ∀ i, members (i + n) = members i
  blocked : ∀ i, s.BlockedOn walk virtual (members i) (members (i + 1))

variable {walk virtual}

variable {s : Engines V} {a n : Nat} {timeIsUp : Bool}

theorem Reports.holder_eq {b c : Nat} (one : s.Reports walk virtual a b)
    (two : s.Reports walk virtual a c) : b = c := by
  obtain ⟨plan, written, running, isWait⟩ := one
  obtain ⟨plan', written', running', isWait'⟩ := two
  rw [running] at running'
  cases running'
  rw [isWait] at isWait'
  cases isWait'
  rfl

theorem Reports.blockedOn {b : Nat} (reports : s.Reports walk virtual a b) :
    s.BlockedOn walk virtual a b := by
  obtain ⟨plan, written, running, isWait⟩ := reports
  have holds := Plan.attempt_honest isWait
  exact ⟨plan, written, running, Plan.attemptAlone_of_waits isWait, holds, holds.isOpen.2⟩

theorem BlockedOn.reports {b : Nat} (blocked : s.BlockedOn walk virtual a b) :
    ∃ holder, s.Reports walk virtual a holder := by
  obtain ⟨plan, written, running, isAlone, _⟩ := blocked
  obtain ⟨holder, isWait⟩ := Plan.waits_of_alone isAlone
  exact ⟨holder, plan, written, running, isWait⟩

theorem BlockedOn.isOther {b : Nat} (blocked : s.BlockedOn walk virtual a b) :
    b ≠ a ∧ ∃ undo, (b, undo) ∈ s.db.openTxns := by
  obtain ⟨_, _, _, _, holds, _⟩ := blocked
  exact holds.isOpen

theorem attempt_reports {conn holder : Nat} (reports : s.Reports walk virtual conn holder)
    (timeIsUp : Bool) :
    (s.attempt walk virtual conn timeIsUp).1 =
      (if comesTo (s.waits.insert conn holder) conn
          ((s.waits.insert conn holder).keys.card + 1) holder then .deadlock
        else if timeIsUp then .timeout else .nothing) ∧
    (¬ comesTo (s.waits.insert conn holder) conn
        ((s.waits.insert conn holder).keys.card + 1) holder = true →
      if timeIsUp then ((s.attempt walk virtual conn timeIsUp).2.engine conn).running = none
      else (s.attempt walk virtual conn timeIsUp).2.waits = s.waits.insert conn holder) := by
  obtain ⟨plan, written, running, isWait⟩ := reports
  unfold attempt
  simp only [running, isWait]
  split
  · rename_i closes
    exact ⟨rfl, fun open' => (open' closes).elim⟩
  · split
    · refine ⟨rfl, ?_⟩
      intro _
      simp [finish, update]
    · exact ⟨rfl, fun _ => rfl⟩

theorem not_blockedOn_of_done {reply : Reply V}
    (isDone : (s.attempt walk virtual a false).1 = .done reply) (b : Nat) :
    ¬ s.BlockedOn walk virtual a b := by
  intro blocked
  obtain ⟨holder, reports⟩ := blocked.reports
  rw [(attempt_reports reports false).1] at isDone
  split at isDone
  · cases isDone
  · cases isDone

theorem reports_of_deadlock {conn : Nat}
    (isDeadlock : (s.attempt walk virtual conn timeIsUp).1 = .deadlock) :
    ∃ holder, s.Reports walk virtual conn holder := by
  unfold attempt at isDeadlock
  cases running : (s.engine conn).running with
  | none =>
    rw [running] at isDeadlock
    cases isDeadlock
  | some under =>
    obtain ⟨plan, written⟩ := under
    simp only [running] at isDeadlock
    cases isWait : (plan.attempt walk virtual conn s.db).1 with
    | ok reply =>
      simp only [isWait] at isDeadlock
      cases isDeadlock
    | error e =>
      cases e with
      | error code sqlState message =>
        simp only [isWait] at isDeadlock
        cases isDeadlock
      | lockWait holder => exact ⟨holder, plan, written, running, isWait⟩

theorem Current.reaches {me holder : Nat} (current : s.Current walk virtual me holder)
    (way : Relation.TransGen (fun x y => x ≠ me ∧ WaitsFor s.waits x y) holder me) :
    Relation.TransGen (s.BlockedOn walk virtual) holder me := by
  have along : ∀ x, Relation.TransGen (fun x y => x ≠ me ∧ WaitsFor s.waits x y) holder x →
      Relation.TransGen (WaitsFor s.waits) holder x ∧
        Relation.TransGen (s.BlockedOn walk virtual) holder x := by
    intro x way
    induction way with
    | single waiting =>
      exact ⟨.single waiting.2, .single (current _ _ waiting.1 .refl waiting.2)⟩
    | tail _ waiting ih =>
      obtain ⟨reached, blocked⟩ := ih
      exact ⟨reached.tail waiting.2,
        blocked.tail (current _ _ waiting.1 reached.to_reflTransGen waiting.2)⟩
  exact (along me way).2

theorem cycle_of_deadlock {conn : Nat} (current : ∀ holder, s.Reports walk virtual conn holder →
      s.Current walk virtual conn holder)
    (isDeadlock : (s.attempt walk virtual conn timeIsUp).1 = .deadlock) :
    Relation.TransGen (s.BlockedOn walk virtual) conn conn := by
  obtain ⟨holder, reports⟩ := reports_of_deadlock isDeadlock
  rw [(attempt_reports reports timeIsUp).1] at isDeadlock
  split at isDeadlock
  · rename_i closes
    have reaches := (comesTo_exact (Nat.le_succ _) holder).mp closes
    have blocked := reports.blockedOn
    have back := (current holder reports).reaches (reaches_avoiding reaches blocked.isOther.1)
    exact Relation.TransGen.head blocked back
  · split at isDeadlock
    · cases isDeadlock
    · cases isDeadlock

theorem Cycle.reaches {next : Nat → Nat → Prop} {members : Nat → Nat} (nonempty : 0 < n)
    (again : ∀ i, members (i + n) = members i)
    (linked : ∀ i, next (members i) (members (i + 1))) (i : Nat) :
    Relation.TransGen next (members (i + 1)) (members i) := by
  have ahead : ∀ k, Relation.TransGen next (members (i + 1)) (members (i + 1 + (k + 1))) := by
    intro k
    induction k with
    | zero => exact .single (linked _)
    | succ k ih => exact ih.tail (linked _)
  have far := ahead (2 * n - 2)
  have twice : i + 1 + (2 * n - 2 + 1) = i + n + n := by omega
  rwa [twice, again, again] at far

theorem Cycle.told {members : Nat → Nat} (cycle : s.Cycle walk virtual n members) (i : Nat)
    (told : s.ToldOnCycles walk virtual (members i)) :
    s.Reports walk virtual (members i) (members (i + 1)) :=
  told _ (cycle.blocked i) (Cycle.reaches cycle.nonempty cycle.again cycle.blocked i)

theorem Cycle.deadlock {members : Nat → Nat} (cycle : s.Cycle walk virtual n members) {j : Nat}
    (told : s.ToldOnCycles walk virtual (members j))
    (others : ∀ i, members i ≠ members j → WaitsFor s.waits (members i) (members (i + 1)))
    (timeIsUp : Bool) : (s.attempt walk virtual (members j) timeIsUp).1 = .deadlock := by
  have entries : ∀ i, WaitsFor (s.waits.insert (members j) (members (j + 1))) (members i)
      (members (i + 1)) := by
    intro i
    by_cases same : members i = members j
    · have reports := cycle.told i (same ▸ told)
      rw [same] at reports
      simp [WaitsFor, same, reports.holder_eq (cycle.told j told)]
    · simpa [WaitsFor, same] using others i same
  have reaches := Cycle.reaches cycle.nonempty cycle.again entries j
  have closes := (comesTo_exact (Nat.le_succ _) (members (j + 1))).mpr reaches
  rw [(attempt_reports (cycle.told j told) timeIsUp).1, if_pos closes]

theorem rollback_waits (s : Engines V) (conn : Nat) : (s.rollback conn).waits = s.waits := by
  unfold rollback
  split
  · rfl
  · rfl

theorem commit_waits (s : Engines V) (conn : Nat) : (s.commit conn).waits = s.waits := by
  unfold commit
  split
  · rfl
  · rfl

theorem next_waits (s : Engines V) {e : Event V} {x : Nat}
    (others : ∀ timeIsUp, e ≠ .attempt x timeIsUp) :
    (s.next walk virtual e).waits x = s.waits x := by
  cases e with
  | attempt conn timeIsUp =>
    have different : x ≠ conn := by
      intro same
      rw [same] at others
      exact others timeIsUp rfl
    have finished : ∀ s' : Engines V, (s'.finish conn).waits x = s'.waits x := by
      intro s'
      simp [finish, FiniteMap.get_erase, different]
    show (s.attempt walk virtual conn timeIsUp).2.waits x = s.waits x
    unfold attempt
    split
    · rfl
    · simp only
      split
      · exact finished _
      · exact finished _
      · split
        · show (((Engines.finish _ conn).rollback conn).waits) x = _
          rw [rollback_waits, finished]
          simp [different]
        · split
          · rw [finished]
            simp [different]
          · simp [different]
  | start conn =>
    simp only [next, step]
    split
    · rfl
    · exact congrArg (fun w => w.get x) (commit_waits s conn)
  | commit conn =>
    simp only [next, step]
    split
    · rfl
    · exact congrArg (fun w => w.get x) (commit_waits s conn)
  | rollback conn =>
    simp only [next, step]
    split
    · rfl
    · rw [rollback_waits]
      rfl
  | savepoint conn name =>
    simp only [next, step, savepoint]
    split
    · rfl
    · split
      · rfl
      · rfl
  | rollbackTo conn name =>
    simp only [next, step, rollbackTo]
    split
    · rfl
    · split
      · rfl
      · split
        · rfl
        · rfl
  | release conn name =>
    simp only [next, step, release]
    split
    · rfl
    · split
      · rfl
      · rfl
  | setAutocommit conn on =>
    simp only [next, step]
    split
    · rfl
    · show (if on && !(s.engine conn).autocommit then s.commit conn else s).waits x = s.waits x
      split
      · rw [commit_waits]
      · rfl
  | disconnect conn =>
    simp only [next, step]
    split
    · rfl
    · exact congrArg (fun w => w.get x) (rollback_waits s conn)
  | run conn plan =>
    simp only [next, step]
    split
    · rfl
    · show (s.beforePlan conn plan).1.waits x = s.waits x
      unfold beforePlan
      split
      · simp only
        split
        · rfl
        · rfl
      · split
        · rfl
        · rw [commit_waits]
        · simp only
          split
          · rfl
          · rfl

theorem run_append (s : Engines V) (before after : List (Event V)) :
    s.run walk virtual (before ++ after) = (s.run walk virtual before).run walk virtual after :=
  List.foldl_append

theorem Cycle.entered {members : Nat → Nat} (events : List (Event V))
    (stays : ∀ first rest, events = first ++ rest →
      (s.run walk virtual first).Cycle walk virtual n members)
    (untold : ∀ first i timeIsUp rest, events = first ++ .attempt (members i) timeIsUp :: rest →
      ((s.run walk virtual first).attempt walk virtual (members i) timeIsUp).1 ≠ .deadlock)
    (told : ∀ first i timeIsUp rest, events = first ++ .attempt (members i) timeIsUp :: rest →
      (s.run walk virtual first).ToldOnCycles walk virtual (members i))
    (i : Nat) (attempted : ∃ timeIsUp, .attempt (members i) timeIsUp ∈ events) :
    WaitsFor (s.run walk virtual events).waits (members i) (members (i + 1)) := by
  induction events using List.reverseRecOn with
  | nil =>
    obtain ⟨timeIsUp, member⟩ := attempted
    cases member
  | append_singleton events e ih =>
    have before := stays events [e] rfl
    have after := stays (events ++ [e]) [] (List.append_nil _).symm
    rw [run_append] at after ⊢
    by_cases own : ∃ timeIsUp, e = .attempt (members i) timeIsUp
    · obtain ⟨timeIsUp, isAttempt⟩ := own
      subst isAttempt
      have notTold := untold events i timeIsUp [] rfl
      have reports := before.told i (told events i timeIsUp [] rfl)
      obtain ⟨answered, later⟩ := attempt_reports reports timeIsUp
      rw [answered] at notTold
      split at notTold
      · exact (notTold rfl).elim
      · rename_i open'
        have later := later open'
        cases timeIsUp with
        | true =>
          obtain ⟨plan, written, running, _⟩ := after.blocked i
          have idle : (((s.run walk virtual events).next walk virtual
              (.attempt (members i) true)).engine (members i)).running = none := later
          have isRunning : (((s.run walk virtual events).next walk virtual
              (.attempt (members i) true)).engine (members i)).running =
                some (plan, written) := running
          rw [idle] at isRunning
          cases isRunning
        | false =>
          have entries : ((s.run walk virtual events).next walk virtual
              (.attempt (members i) false)).waits = _ := later
          show WaitsFor ((s.run walk virtual events).next walk virtual
              (.attempt (members i) false)).waits _ _
          rw [entries]
          simp [WaitsFor]
    · have earlier : ∃ timeIsUp, .attempt (members i) timeIsUp ∈ events := by
        obtain ⟨timeIsUp, member⟩ := attempted
        rcases List.mem_append.mp member with inEvents | last
        · exact ⟨timeIsUp, inEvents⟩
        · exact (own ⟨timeIsUp, (List.mem_singleton.mp last).symm⟩).elim
      have entry := ih
        (fun first rest split => stays first (rest ++ [e]) (by rw [split, List.append_assoc]))
        (fun first k timeIsUp rest split => untold first k timeIsUp (rest ++ [e]) (by
          rw [split, List.append_assoc, List.cons_append]))
        (fun first k timeIsUp rest split => told first k timeIsUp (rest ++ [e]) (by
          rw [split, List.append_assoc, List.cons_append])) earlier
      have same : ((s.run walk virtual events).next walk virtual e).waits (members i)
          = (s.run walk virtual events).waits (members i) :=
        next_waits (s.run walk virtual events) (fun timeIsUp isAttempt => own ⟨timeIsUp, isAttempt⟩)
      exact same.trans entry

theorem exists_last_attempt {members : Nat → Nat} (events : List (Event V))
    (attempted : ∀ i, ∃ timeIsUp, .attempt (members i) timeIsUp ∈ events) :
    ∃ first j timeIsUp rest, events = first ++ .attempt (members j) timeIsUp :: rest ∧
      ∀ i, members i ≠ members j → ∃ timeIsUp, .attempt (members i) timeIsUp ∈ first := by
  induction events using List.reverseRecOn with
  | nil =>
    obtain ⟨timeIsUp, member⟩ := attempted 0
    cases member
  | append_singleton events e ih =>
    by_cases before : ∀ i, ∃ timeIsUp, .attempt (members i) timeIsUp ∈ events
    · obtain ⟨first, j, timeIsUp, rest, split, others⟩ := ih before
      exact ⟨first, j, timeIsUp, rest ++ [e], by rw [split]; simp, others⟩
    · obtain ⟨j, missing⟩ := not_forall.mp before
      have isLast : ∀ i, ¬ (∃ timeIsUp, .attempt (members i) timeIsUp ∈ events) →
          ∃ timeIsUp, e = .attempt (members i) timeIsUp := by
        intro i missing
        obtain ⟨timeIsUp, member⟩ := attempted i
        rcases List.mem_append.mp member with inEvents | last
        · exact (missing ⟨timeIsUp, inEvents⟩).elim
        · exact ⟨timeIsUp, (List.mem_singleton.mp last).symm⟩
      obtain ⟨timeIsUp, isAttempt⟩ := isLast j missing
      refine ⟨events, j, timeIsUp, [], by rw [isAttempt], ?_⟩
      intro i different
      by_contra missingToo
      obtain ⟨timeIsUp', isAttempt'⟩ := isLast i missingToo
      rw [isAttempt] at isAttempt'
      exact different (Event.attempt.inj isAttempt').1.symm

variable (walk virtual)

structure DeadlocksExact (start : Engines V) (events : List (Event V)) : Prop where
  /-- It means a cycle of open transactions that begins with the connection. -/
  cycles : ∀ before conn timeIsUp after, events = before ++ .attempt conn timeIsUp :: after →
    ((start.run walk virtual before).attempt walk virtual conn timeIsUp).1 = .deadlock →
      Relation.TransGen ((start.run walk virtual before).BlockedOn walk virtual) conn conn
  /-- Of a cycle that stays until each member has attempted its plan once more, a member is
  told. -/
  found : ∀ before during after, events = before ++ during ++ after → ∀ n members,
    (∀ first e rest, during = first ++ e :: rest →
      (start.run walk virtual (before ++ first)).Cycle walk virtual n members) →
    (∀ i, ∃ timeIsUp, .attempt (members i) timeIsUp ∈ during) →
      ∃ first i timeIsUp rest, during = first ++ .attempt (members i) timeIsUp :: rest ∧
        ((start.run walk virtual (before ++ first)).attempt walk virtual (members i) timeIsUp).1 =
          .deadlock
  /-- The walk ends, and where it ends it has seen all there is to see. -/
  ends : ∀ before after, events = before ++ after → ∀ conn holder,
    let waits := (start.run walk virtual before).waits.insert conn holder
    comesTo waits conn (waits.keys.card + 1) holder = true ↔
      Relation.TransGen (WaitsFor waits) holder conn

variable {walk virtual}

theorem CurrentAlong.at {before after : List (Event V)} {conn : Nat}
    (current : s.CurrentAlong walk virtual (before ++ .attempt conn timeIsUp :: after)) :
    (∀ holder, (s.run walk virtual before).Reports walk virtual conn holder →
      (s.run walk virtual before).Current walk virtual conn holder) ∧
        (s.run walk virtual before).ToldOnCycles walk virtual conn := by
  induction before generalizing s with
  | nil => exact current.1 conn timeIsUp rfl
  | cons e before ih => exact ih current.2

theorem cycle_found (s : Engines V) (during : List (Event V)) (n : Nat) (members : Nat → Nat)
    (stays : ∀ first e rest, during = first ++ e :: rest →
      (s.run walk virtual first).Cycle walk virtual n members)
    (attempted : ∀ i, ∃ timeIsUp, .attempt (members i) timeIsUp ∈ during)
    (told : ∀ first i timeIsUp rest, during = first ++ .attempt (members i) timeIsUp :: rest →
      (s.run walk virtual first).ToldOnCycles walk virtual (members i)) :
    ∃ first i timeIsUp rest, during = first ++ .attempt (members i) timeIsUp :: rest ∧
      ((s.run walk virtual first).attempt walk virtual (members i) timeIsUp).1 = .deadlock := by
  by_contra untold
  obtain ⟨first, j, timeIsUp, rest, split, others⟩ :=
    exists_last_attempt during attempted
  have there := stays first _ rest split
  apply untold
  refine ⟨first, j, timeIsUp, rest, split, ?_⟩
  apply there.deadlock (told first j timeIsUp rest split)
  intro i different
  apply Cycle.entered first
  · intro first' rest' isPrefix
    cases rest' with
    | nil =>
      rw [List.append_nil] at isPrefix
      rw [← isPrefix]
      exact there
    | cons e rest' =>
      apply stays first' e (rest' ++ .attempt (members j) timeIsUp :: rest)
      rw [split, isPrefix, List.append_assoc, List.cons_append]
  · intro first' k timeIsUp' rest' isPrefix isDeadlock
    apply untold
    refine ⟨first', k, timeIsUp', rest' ++ .attempt (members j) timeIsUp :: rest, ?_, isDeadlock⟩
    rw [split, isPrefix, List.append_assoc, List.cons_append]
  · intro first' k timeIsUp' rest' isPrefix
    apply told first' k timeIsUp' (rest' ++ .attempt (members j) timeIsUp :: rest)
    rw [split, isPrefix, List.append_assoc, List.cons_append]
  · exact others i different

/-- In every run in which the waits that a blocked attempt follows are current, and a connection
on a cycle is told to wait for the next one on it, error 1213 is exact. -/
theorem run_deadlocksExact (start : Engines V) (events : List (Event V))
    (current : start.CurrentAlong walk virtual events) :
    DeadlocksExact walk virtual start events := by
  constructor
  · intro before conn timeIsUp after split isDeadlock
    rw [split] at current
    exact cycle_of_deadlock current.at.1 isDeadlock
  · intro before during after isRun n members stays attempted
    simp only [run_append] at stays ⊢
    apply cycle_found _ during n members stays attempted
    intro first i timeIsUp rest split
    rw [isRun, split, List.append_assoc before, List.append_assoc, List.cons_append,
      ← List.append_assoc] at current
    rw [← run_append]
    exact current.at.2
  · intro before after _ conn holder
    exact comesTo_exact (Nat.le_succ _) holder

end Engines

end Deadlocks

def pairTable : Table Scalar where
  name := "t"
  columns := [{ name := "id", primaryKey := true }, { name := "v" }]
  rows := [[.int 1, .int 10], [.int 2, .int 20]]

def pairEngines : Engines Scalar where
  db := DbState.insert { databases := ["test"] } ("test", "t") pairTable

theorem plainSession_quiet (conn : Nat) : (plainSession conn).Quiet where
  coerce := fun v _ => Quiet.ok v
  bind := fun _ => Quiet.ok ()
  eval := fun _ _ _ => Quiet.ok _

def setPair (k n : Int) : Plan Scalar :=
  .statement (.write [("test", "t")]
    (fun me _ => .update (plainSession me) ("test", "t") [("v", some (fun _ _ => .ok (.int n)))]
      { selection := some (fun _ row => .ok (.int (if row.col 0 = .int k then 1 else 0))) })
    (fun _ _ => rfl)
    (by
      intro me state
      refine ⟨plainSession_quiet me, ?_, ?_⟩
      · intro a member value isValue t row
        rw [List.mem_singleton.mp member] at isValue
        cases isValue
        exact Quiet.ok _
      · constructor
        · intro sel isSelection t row
          cases isSelection
          exact Quiet.ok _
        · intro e member
          cases member
        · intro l isLimit
          cases isLimit))

def oneWaits : List (Event Scalar) :=
  [.start 1, .run 1 (setPair 1 11), .attempt 1 false,
    .start 2, .run 2 (setPair 2 22), .attempt 2 false,
    .run 1 (setPair 2 12), .attempt 1 false]

abbrev noVirtual : VirtualTables Scalar := fun _ _ => none

namespace Engines

theorem pair_waits (a b : Nat) (isEntry : WaitsFor
    (pairEngines.run Walk.inTurn noVirtual oneWaits).waits a b) : a = 1 ∧ b = 2 := by
  have entry : (if a = 1 then some 2 else if decide (a ≠ 2) then
      (if decide (a ≠ 1) then none else none) else none) = some b := isEntry
  by_cases isOne : a = 1
  · rw [if_pos isOne] at entry
    exact ⟨isOne, (Option.some.inj entry).symm⟩
  · simp [isOne] at entry

theorem run_deadlocksExact_pair :
    DeadlocksExact Walk.inTurn noVirtual pairEngines
      (oneWaits ++ [.run 2 (setPair 1 21), .attempt 2 false]) := by
  apply run_deadlocksExact
  have quiet : ∀ {e : Event Scalar} {s : Engines Scalar}, (∀ conn timeIsUp, e ≠ .attempt conn timeIsUp) →
      ∀ conn timeIsUp, e = .attempt conn timeIsUp →
        (∀ holder, s.Reports Walk.inTurn noVirtual conn holder →
          s.Current Walk.inTurn noVirtual conn holder) ∧
        s.ToldOnCycles Walk.inTurn noVirtual conn :=
    fun other conn timeIsUp isAttempt => (other conn timeIsUp isAttempt).elim
  -- Of two open transactions, a connection can only be blocked on the other one.
  have told : ∀ {s : Engines Scalar} {a b : Nat}, s.db.openTxns.map Prod.fst = [a, b] →
      s.Reports Walk.inTurn noVirtual a b → s.ToldOnCycles Walk.inTurn noVirtual a := by
    intro s a b areOpen reports holder blocked _
    obtain ⟨other, undo, isOpen⟩ := blocked.isOther
    have isHolder : holder ∈ s.db.openTxns.map Prod.fst := List.mem_map_of_mem isOpen
    rw [areOpen] at isHolder
    simp only [List.mem_cons, List.not_mem_nil, or_false] at isHolder
    rcases isHolder with isMe | isOther
    · exact (other isMe).elim
    · rwa [isOther]
  refine ⟨quiet (by simp), quiet (by simp), ?_, quiet (by simp), quiet (by simp), ?_,
    quiet (by simp), ?_, quiet (by simp), ?_, trivial⟩
  · intro conn timeIsUp isAttempt
    cases isAttempt
    exact ⟨fun holder reports => (not_blockedOn_of_done rfl holder reports.blockedOn).elim,
      fun holder blocked => (not_blockedOn_of_done rfl holder blocked).elim⟩
  · intro conn timeIsUp isAttempt
    cases isAttempt
    exact ⟨fun holder reports => (not_blockedOn_of_done rfl holder reports.blockedOn).elim,
      fun holder blocked => (not_blockedOn_of_done rfl holder blocked).elim⟩
  · intro conn timeIsUp isAttempt
    cases isAttempt
    refine ⟨?_, told (b := 2) rfl ⟨_, _, rfl, rfl⟩⟩
    intro holder _ a b _ _ isEntry
    have entry : (if decide (a ≠ 2) then (if decide (a ≠ 1) then none else none) else none) =
        some b := isEntry
    simp at entry
  · intro conn timeIsUp isAttempt
    cases isAttempt
    refine ⟨?_, told (b := 1) rfl ⟨_, _, rfl, rfl⟩⟩
    intro holder _ a b different _ isEntry
    obtain ⟨isOne, isTwo⟩ := pair_waits a b isEntry
    subst isOne
    subst isTwo
    exact Reports.blockedOn ⟨_, _, rfl, rfl⟩

/-- Connection 2 commits, and changes the row of connection 1 outside of any transaction.
Connection 1 waits for nobody any more, and yet connection 2 is told of a deadlock. -/
theorem run_falseDeadlock :
    ¬ ∀ (walk : Walk (Nat × TxUndo Scalar)) (virtual : VirtualTables Scalar)
        (start : Engines Scalar) (events : List (Event Scalar)),
      DeadlocksExact walk virtual start events := by
  intro claimed
  have exact' := claimed Walk.inTurn noVirtual pairEngines
    ((oneWaits ++ [.commit 2, .run 2 (setPair 1 21)]) ++ .attempt 2 false :: [])
  have cycle := exact'.cycles _ 2 false [] rfl rfl
  obtain ⟨first, blocked, back⟩ := Relation.TransGen.head'_iff.mp cycle
  obtain ⟨other, undo, isOpen⟩ := blocked.isOther
  have isHolder : first ∈ [1] := List.mem_map_of_mem (f := Prod.fst) isOpen
  rw [List.mem_singleton.mp isHolder] at back
  rcases Relation.ReflTransGen.cases_head back with same | further
  · cases same
  · obtain ⟨second, blocked', _⟩ := further
    exact not_blockedOn_of_done rfl second blocked'

end Engines

end NoidaDb.MySql
