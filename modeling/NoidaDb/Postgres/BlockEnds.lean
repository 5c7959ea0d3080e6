/-
What an abandoned block leaves where no transaction has a copy: the sequences, the roles and what
else the sessions share, and the session's own role.
-/

import NoidaDb.Postgres.Blocks

namespace NoidaDb.Postgres

variable {D : Type}

/-- The statement changes nothing that no transaction has a copy of. -/
def Stmt.Inside : Stmt D → Prop
  | .data stmt => ∀ modes d outside, stmt.outside modes d outside = outside
  | .setRole _ _ _ => False
  | _ => True

def Request.Inside (request : Request D) : Prop := ∀ stmt, request = .statement stmt → stmt.Inside

structure Call.Stays (call : Call D) : Prop where
  outside : call.outsideAfter = call.outside
  role : call.after.session.rt.role = call.before.session.rt.role

/-- Does the answer end the block without committing it? -/
def Answered.abandons (expected : TxStatus) (event : Answered D) : Bool :=
  match event.command, event.result with
  | some (.plain .commit), .ok _ => expected == .failed
  | some (.plain .commit), .error _ => true
  | some (.plain .rollback), _ => true
  | _, _ => false

/-- The calls of the blocks that were abandoned; `block` are those of the one that is open. -/
def abandoned (expected : TxStatus) (block : List (Call D)) : List (Answered D) → List (Call D)
  | [] => []
  | event :: rest =>
    let after := expected.after event.command event.result
    if after = .idle then
      (if event.abandons expected then block ++ event.calls else []) ++ abandoned after [] rest
    else abandoned after (block ++ event.calls) rest

theorem mem_abandoned {events : List (Answered D)} {expected : TxStatus} {block : List (Call D)}
    {call : Call D} (member : call ∈ abandoned expected block events) :
    call ∈ block ∨ ∃ event, event ∈ events ∧ call ∈ event.calls := by
  induction events generalizing expected block with
  | nil => cases member
  | cons event rest ih =>
    have later : ∀ {expected' block'}, call ∈ abandoned expected' block' rest →
        call ∈ block' ∨ ∃ event', event' ∈ event :: rest ∧ call ∈ event'.calls := by
      intro expected' block' member
      rcases ih member with early | ⟨event', among, called⟩
      · exact Or.inl early
      · exact Or.inr ⟨event', List.mem_cons_of_mem event among, called⟩
    have here : call ∈ block ++ event.calls →
        call ∈ block ∨ ∃ event', event' ∈ event :: rest ∧ call ∈ event'.calls := by
      intro member
      rcases List.mem_append.mp member with early | called
      · exact Or.inl early
      · exact Or.inr ⟨event, List.mem_cons_self, called⟩
    simp only [abandoned] at member
    split at member
    · rcases List.mem_append.mp member with ends | after
      · split at ends
        · exact here ends
        · cases ends
      · rcases later after with none' | found
        · cases none'
        · exact Or.inr found
    · rcases later member with started | found
      · exact here started
      · exact Or.inr found

section Role

variable {c : Conn D}

theorem afterError_role : (afterError c).session.rt.role = c.session.rt.role := by
  unfold afterError
  split
  · rfl
  · split <;> rfl
  · rfl

theorem settle_role (ran : Conn D × PgResult StmtResult) :
    (settle ran).1.session.rt.role = ran.1.session.rt.role := by
  unfold settle
  split
  · exact afterError_role
  · rfl

theorem acquireWriter_role : (acquireWriter c).1.session.rt.role = c.session.rt.role := by
  unfold acquireWriter
  split <;> rfl

theorem runInTxn_role (stmt : DataStmt D) :
    (runInTxn stmt c).1.session.rt.role = c.session.rt.role := by
  unfold runInTxn
  split <;> rfl

variable [Database D] {rules : SettingRules}

theorem commit_role : (commit c).1.session.rt.role = c.session.rt.role := by
  unfold commit
  split
  · rfl
  · split <;> rfl

theorem setConstraints_role (names : Option (List (Option String × String))) (mode : Bool) :
    (setConstraints rules names mode c).1.session.rt.role = c.session.rt.role := by
  unfold setConstraints
  split
  · split
    · simp only
      split <;> rfl
    · split
      · rfl
      · simp only
        split <;> rfl
  · rfl

theorem runDataStatement_role (stmt : DataStmt D) :
    (runDataStatement stmt c).1.session.rt.role = c.session.rt.role := by
  have locked : ∀ (started : Conn D) (writes : Bool),
      (if writes then acquireWriter started else (started, .ok ())).1.session.rt.role =
        started.session.rt.role := by
    intro started writes
    cases writes with
    | true => exact acquireWriter_role
    | false => rfl
  have begun : (if c.session.txn.isNone then begin c else c).session.rt.role =
      c.session.rt.role := by
    split <;> rfl
  have ran : ∀ (started : Conn D) (writes : Bool), started.session.rt.role = c.session.rt.role →
      (runInTxn stmt (if writes then acquireWriter started else (started, .ok ())).1).1.session.rt.role =
        c.session.rt.role :=
    fun started writes same => (runInTxn_role stmt).trans ((locked started writes).trans same)
  unfold runDataStatement
  simp only
  split
  · exact (locked _ _).trans begun
  · split
    · split
      · exact ran (begin c) _ rfl
      · exact commit_role.trans (ran (begin c) _ rfl)
    · exact ran c _ rfl

theorem runStatement_role {stmt : Stmt D} (inside : stmt.Inside) :
    (runStatement rules stmt c).1.session.rt.role = c.session.rt.role := by
  cases stmt with
  | startTransaction =>
    simp only [runStatement]
    split <;> rfl
  | commit =>
    simp only [runStatement]
    split
    · rfl
    · split
      · rfl
      · split <;> exact commit_role
  | rollback =>
    simp only [runStatement]
    split <;> rfl
  | rollbackTo name =>
    simp only [runStatement, rollbackTo]
    split
    · rfl
    · split <;> rfl
  | savepoint name =>
    simp only [runStatement, savepoint]
    split <;> rfl
  | releaseSavepoint name =>
    simp only [runStatement, releaseSavepoint]
    split
    · rfl
    · split <;> rfl
  | set isLocal name value =>
    simp only [runStatement, runSet]
    split
    · rfl
    · split <;> rfl
  | setTimeZone isLocal value =>
    simp only [runStatement, runSetTimeZone]
    split <;> rfl
  | setRole isLocal name roles => exact inside.elim
  | setConstraints names mode => exact setConstraints_role names mode
  | data stmt => exact runDataStatement_role stmt

theorem serve_role {request : Request D} (inside : request.Inside) :
    (serve rules c request).1.session.rt.role = c.session.rt.role := by
  cases request with
  | statement stmt =>
    simp only [serve, execute]
    split
    · rfl
    · exact (settle_role _).trans (runStatement_role (inside stmt rfl))
  | beginImplicit =>
    simp only [serve, beginImplicit]
    split <;> rfl
  | commitImplicit =>
    simp only [serve, commitImplicit]
    split
    · split
      · exact commit_role
      · rfl
    · rfl
  | rollbackImplicit =>
    simp only [serve, rollbackImplicit]
    split
    · split <;> rfl
    · rfl

end Role

theorem Request.Inside.outside {request : Request D} (inside : request.Inside) (c : Conn D)
    (outside : Outside) : request.outside c outside = outside := by
  cases request with
  | statement stmt =>
    cases stmt with
    | data stmt =>
      have nothing : ∀ modes d outside, stmt.outside modes d outside = outside := inside _ rfl
      simp only [Request.outside, DataStmt.leaves]
      split
      · rfl
      · split
        · rfl
        · split
          · rfl
          · exact nothing _ _ _
    | _ => rfl
  | _ => rfl

variable [Database D] {rules : SettingRules}

theorem made_stays {link : Link D} {request : Request D} (inside : request.Inside) :
    (link.made rules request).Stays :=
  ⟨inside.outside _ _, serve_role inside⟩

-- What holds of every call that a link makes holds of all the calls of a run.
section EachCall

variable {holds : Call D → Prop} {link : Link D} {copy : CopyFrom D}
  (each : ∀ (link : Link D) (request : Request D), holds (link.made rules request))

include each

theorem Link.call_each (request : Request D) :
    Link.Grows holds link (link.call rules request).1 :=
  Link.call_grows (each link request)

theorem Copying.flushBatch_each (copying : Copying D) :
    Link.Grows holds copying.link (copying.flushBatch rules copy).link := by
  unfold Copying.flushBatch
  split
  · exact .of_calls rfl
  · cases copy.insert copying.batch with
    | error e => exact .of_calls rfl
    | ok stmt =>
      have one := @Link.call_each D _ rules holds copying.link each (.statement (.data stmt))
      simp only
      split
      · exact one
      · exact one

theorem Copying.line_each (copying : Copying D) (decoded : PgResult CopyRow) :
    Link.Grows holds copying.link (copying.line rules copy decoded).link := by
  unfold Copying.line
  split
  · exact .of_calls rfl
  · cases decoded with
    | error e => exact .of_calls rfl
    | ok row =>
      simp only
      split
      · exact Copying.flushBatch_each each { copying with batch := copying.batch ++ [row] }
      · exact .of_calls rfl

theorem Copying.lines_each (copying : Copying D) (lines : List (PgResult CopyRow)) :
    Link.Grows holds copying.link (lines.foldl (Copying.line rules copy) copying).link := by
  induction lines generalizing copying with
  | nil => exact .of_calls rfl
  | cons decoded rest ih => exact (Copying.line_each each copying decoded).trans (ih _)

theorem copyIn_each : Link.Grows holds link (copyIn rules copy link).1 := by
  unfold copyIn
  split
  · exact .of_calls rfl
  · have started := @Link.call_each D _ rules holds link each .beginImplicit
    have copied := @Copying.lines_each D _ rules holds copy each
      { link := (link.call rules .beginImplicit).1 } copy.lines
    apply (started.trans copied).trans
    have ended : ∀ copying : Copying D,
        Link.Grows holds copying.link (copying.finished rules).1 := by
      intro copying
      unfold Copying.finished
      split
      · exact Link.call_each each _
      · exact Link.call_each each _
    unfold Copying.finish
    split
    · exact (Copying.flushBatch_each each _).trans (ended _)
    · exact ended _
    · exact ended _

theorem runCommand_each (command : Command D) :
    Link.Grows holds link (runCommand rules command link).1 := by
  cases command with
  | plain stmt => exact Link.call_each each _
  | copyIn copy => exact copyIn_each each
  | copyOut select =>
    cases select with
    | error e => exact .of_calls rfl
    | ok stmt => exact Link.call_each each _

theorem runCommands_each (commands : List (Command D)) :
    ∀ event, event ∈ (runCommands rules link commands).2 → ∀ call, call ∈ event.calls → holds call := by
  induction commands generalizing link with
  | nil =>
    simp only [runCommands]
    split
    · intro event member
      rw [endImplicit, List.mem_singleton] at member
      rw [member]
      exact (Link.call_each each _).since
    · intro event member
      cases member
  | cons command rest ih =>
    have one := @runCommand_each D _ rules holds link each command
    simp only [runCommands]
    split
    · intro event member
      rcases List.mem_cons.mp member with first | later
      · rw [first]
        exact one.since
      · exact ih event later
    · intro event member
      rw [List.mem_singleton.mp member]
      exact one.since

theorem simpleQueries_each (messages : List (PgResult (List (Command D)))) :
    ∀ event, event ∈ (simpleQueries rules link messages).2 →
      ∀ call, call ∈ event.calls → holds call := by
  induction messages generalizing link with
  | nil =>
    intro event member
    cases member
  | cons sql later ih =>
    intro event member
    rcases List.mem_append.mp member with first | rest
    · cases sql with
      | error e =>
        rw [simpleQuery, List.mem_singleton] at first
        rw [first]
        intro call none'
        cases none'
      | ok commands =>
        cases commands with
        | nil => cases first
        | cons command rest => exact runCommands_each each _ event first
    · exact ih event rest

end EachCall

/-- However a session's statements are split over Query messages, when each command meets the condition
the block does what it owes; and one that is abandoned leaves nothing outside its transaction if none of
its statements does. -/
theorem simpleQueries_obey (rules : SettingRules) (messages : List (PgResult (List (Command D))))
    (link : Link D) (coherent : link.conn.session.Coherent)
    (explicit : link.conn.session.inImplicitTx = false)
    (contained : ContainedQueries rules link messages)
    (inside : ∀ call, call ∈ abandoned link.conn.session.status []
      (simpleQueries rules link messages).2 → call.request.Inside) :
    ObeysAll link.conn.session.status (simpleQueries rules link messages).2 ∧
      ∀ call, call ∈ abandoned link.conn.session.status [] (simpleQueries rules link messages).2 →
        call.Stays := by
  refine ⟨simpleQueries_obeyAll rules messages link coherent explicit contained, ?_⟩
  intro call member
  rcases mem_abandoned member with none' | ⟨event, among, called⟩
  · cases none'
  · have stays := @simpleQueries_each D _ rules (fun call => call.request.Inside → call.Stays) link
      (fun _ _ => made_stays) messages
    exact stays event among call called (inside call member)

/-- Session 1 on an empty `t (k int PRIMARY KEY)`. -/
def keyedLink : Link (DbState Scalar) := { conn := keyedWorld.conn 1 }

/-- `BEGIN; INSERT INTO t VALUES (1); INSERT INTO t VALUES (1)` in one message, and then
`INSERT INTO t VALUES (2)`. -/
def failsWhereOpened : List (PgResult (List (Command (DbState Scalar)))) :=
  [.ok [.plain .startTransaction, .plain (addKey 1), .plain (addKey 1)], .ok [.plain (addKey 2)]]

theorem simpleQueries_accept_failsWhereOpened :
    ¬ ∀ (rules : SettingRules) (messages : List (PgResult (List (Command (DbState Scalar)))))
      (link : Link (DbState Scalar)), link.conn.session.Coherent →
        link.conn.session.inImplicitTx = false →
          ObeysAll link.conn.session.status (simpleQueries rules link messages).2 ∧
            ∀ call, call ∈ abandoned link.conn.session.status []
              (simpleQueries rules link messages).2 → call.Stays := by
  intro claimed
  have obeys := (claimed textRules failsWhereOpened keyedLink (.of_idle rfl) rfl).1
  have refused : (.ok { tag := "" } : PgResult StmtResult) = .error inFailedTransaction :=
    obeys.2.2.2.1.refuses rfl _ rfl rfl
  cases refused

/-- `BEGIN; INSERT INTO t VALUES (1)`, and in messages of their own the same INSERT again,
`INSERT INTO t VALUES (2)` and COMMIT. -/
def failsLater : List (PgResult (List (Command (DbState Scalar)))) :=
  [.ok [.plain .startTransaction, .plain (addKey 1)], .ok [.plain (addKey 1)],
    .ok [.plain (addKey 2)], .ok [.plain .commit]]

theorem failsLater_contained : ContainedQueries textRules keyedLink failsLater := by
  have single : ∀ (link : Link (DbState Scalar)) (stmt : Stmt (DbState Scalar)),
      stmt ≠ .startTransaction → link.conn.session.inImplicitTx = false →
        ContainedCommands textRules link [.plain stmt] := by
    intro link stmt other explicit
    refine ⟨⟨?_, ?_, fun _ => ⟨stmt, rfl⟩⟩, fun _ _ => trivial⟩
    · intro isBegin
      exact (other (Command.plain.inj isBegin)).elim
    · intro _ mixed
      rw [explicit] at mixed
      cases mixed
  refine ⟨?_, ?_, ?_, ?_, trivial⟩
  · intro command rest isFirst
    cases isFirst
    refine ⟨⟨fun _ _ => rfl, ?_, fun _ => ⟨_, rfl⟩⟩, fun _ _ => ⟨⟨?_, ?_, fun _ => ⟨_, rfl⟩⟩,
      fun _ _ => trivial⟩⟩
    · intro open'
      cases open'
    · intro isBegin
      cases isBegin
    · intro _ _ _
      exact ⟨_, rfl⟩
  · intro command rest isNext
    cases isNext
    exact single _ _ (by simp [addKey]) rfl
  · intro command rest isNext
    cases isNext
    exact single _ _ (by simp [addKey]) rfl
  · intro command rest isNext
    cases isNext
    exact single _ _ (by simp) rfl

theorem failsLater_inside :
    ∀ call, call ∈ abandoned .idle [] (simpleQueries textRules keyedLink failsLater).2 →
      call.request.Inside := by
  have requests : (abandoned .idle [] (simpleQueries textRules keyedLink failsLater).2).map
      Call.request = [.statement .startTransaction, .statement (addKey 1), .commitImplicit,
        .statement (addKey 1), .statement (addKey 2), .statement .commit] := rfl
  have added : ∀ k, (addKey k).Inside := fun _ _ _ _ => rfl
  intro call member stmt isStmt
  have among : call.request ∈ List.map Call.request _ := List.mem_map_of_mem member
  rw [requests, isStmt] at among
  simp only [List.mem_cons, List.not_mem_nil, or_false, Request.statement.injEq, reduceCtorEq,
    false_or] at among
  rcases among with rfl | rfl | rfl | rfl | rfl
  · trivial
  · exact added 1
  · exact added 1
  · exact added 2
  · trivial

theorem simpleQueries_obey_failsLater :
    (ObeysAll .idle (simpleQueries textRules keyedLink failsLater).2 ∧
      ∀ call, call ∈ abandoned .idle [] (simpleQueries textRules keyedLink failsLater).2 →
        call.Stays) ∧
      (abandoned .idle [] (simpleQueries textRules keyedLink failsLater).2).length = 6 ∧
      ((simpleQueries textRules keyedLink failsLater).2.drop 4).map Answered.result =
        [.error inFailedTransaction, .ok { tag := "ROLLBACK" }] ∧
      (simpleQueries textRules keyedLink failsLater).1.conn.global.db.rows 1 = [] := by
  refine ⟨?_, rfl, rfl, rfl⟩
  exact simpleQueries_obey textRules failsLater keyedLink (.of_idle rfl) rfl failsLater_contained
    failsLater_inside

end NoidaDb.Postgres
