/-
The connection loop: simple queries and COPY.

A `Link` is the engine as one connection reaches it.  Before each call the others may have changed
the committed database or taken the lock, unless this session holds it, and in any case what no
transaction has a copy of.
-/

import NoidaDb.Postgres.Ledger

namespace NoidaDb.Postgres

variable {D : Type}

structure Call (D : Type) where
  before : Conn D
  ledger : Ledger D
  request : Request D
  after : Conn D
  result : PgResult StmtResult
  /-- As the call finds it. -/
  outside : Outside

structure Link (D : Type) where
  conn : Conn D
  ledger : Ledger D := {}
  /-- What the other sessions leave, for each coming call. -/
  others : List (Global D) := []
  outside : Outside := {}
  /-- What the others leave of it, for each coming call. -/
  othersOutside : List Outside := []
  calls : List (Call D) := []

def Conn.meet (c : Conn D) (global : Global D) : Conn D :=
  if c.global.writer = some c.session.id ∨ global.writer = some c.session.id then c
  else { c with global := global }

def Link.now (link : Link D) : Conn D := link.conn.meet (link.others.headD link.conn.global)

abbrev CopyRow := String

inductive CopyEnd where
  | done
  | failed (e : PgError)
  | hangup
deriving Repr, DecidableEq

/-- `COPY table FROM STDIN`.  An INSERT always takes the write lock. -/
structure CopyFrom (D : Type) where
  /-- The target, the options and the source. -/
  spec : PgResult Unit
  /-- The decoded lines, in order. -/
  lines : List (PgResult CopyRow)
  ending : CopyEnd
  /-- `INSERT INTO table VALUES batch`, parsed. -/
  insert : List CopyRow → PgResult (DataStmt D)
  writes : ∀ batch stmt, insert batch = .ok stmt → ∀ d, stmt.writes d = true

inductive Command (D : Type) where
  | plain (stmt : Stmt D)
  | copyIn (copy : CopyFrom D)
  /-- The SELECT a `COPY … TO STDOUT` runs, if it is one. -/
  | copyOut (select : PgResult (DataStmt D))

/-- Only a statement that `run_in_txn` gets to run changes anything outside its transaction. -/
def Request.outside (c : Conn D) (outside : Outside) : Request D → Outside
  | .statement (.data stmt) =>
    if c.session.status = .failed then outside
    else
      let started := if c.session.txn.isNone then begin c else c
      let locked := if stmt.writes c.visible then acquireWriter started else (started, .ok ())
      match locked.2 with
      | .error _ => outside
      | .ok () => stmt.leaves locked.1 outside
  | _ => outside

def Call.outsideAfter (call : Call D) : Outside := call.request.outside call.before call.outside

variable [Database D] (rules : SettingRules)

/-- The call that a request comes to. -/
def Link.made (link : Link D) (request : Request D) : Call D :=
  let served := serve rules link.now request
  ⟨link.now, link.ledger, request, served.1, served.2, link.othersOutside.headD link.outside⟩

def Link.call (link : Link D) (request : Request D) : Link D × PgResult StmtResult :=
  let served := serve rules link.now request
  ({ conn := served.1
     ledger := link.ledger.note link.now served.1 request served.2
     others := link.others.tail
     outside := (link.made rules request).outsideAfter
     othersOutside := link.othersOutside.tail
     calls := link.calls ++ [link.made rules request] }, served.2)

def error (link : Link D) : Link D :=
  if link.conn.session.status = .inTransaction then
    { link with conn := link.conn.withStatus .failed }
  else link

structure Copying (D : Type) where
  link : Link D
  total : Nat := 0
  batch : List CopyRow := []
  failed : Option PgError := none

def Copying.flushBatch (copy : CopyFrom D) (copying : Copying D) : Copying D :=
  if copying.batch = [] ∨ copying.failed.isSome = true then copying
  else
    match copy.insert copying.batch with
    | .error e => { copying with batch := [], failed := some e }
    | .ok stmt =>
      let ran := copying.link.call rules (.statement (.data stmt))
      match ran.2 with
      | .ok _ =>
        { link := ran.1, total := copying.total + copying.batch.length, batch := []
          failed := none }
      | .error e =>
        { link := ran.1, total := copying.total, batch := [], failed := some e }

def batchSize : Nat := 500

def Copying.line (copy : CopyFrom D) (copying : Copying D) (decoded : PgResult CopyRow) :
    Copying D :=
  if copying.failed.isSome then copying
  else
    match decoded with
    | .error e => { copying with failed := some e }
    | .ok row =>
      let grown := { copying with batch := copying.batch ++ [row] }
      if grown.batch.length ≥ batchSize then grown.flushBatch rules copy else grown

def Copying.finish (copy : CopyFrom D) (copying : Copying D) : Copying D :=
  match copy.ending with
  | .done => copying.flushBatch rules copy
  | .failed e => { copying with failed := some e }
  | .hangup => copying

def Copying.finished (copied : Copying D) : Link D × PgResult StmtResult :=
  match copied.failed with
  | some e => ((copied.link.call rules .rollbackImplicit).1, .error e)
  | none =>
    let ended := copied.link.call rules .commitImplicit
    (ended.1, ended.2.map (fun _ => { tag := "COPY " ++ toString copied.total }))

/-- The whole COPY is one transaction: an error partway through rolls back everything
read so far. -/
def copyIn (copy : CopyFrom D) (link : Link D) : Link D × PgResult StmtResult :=
  match copy.spec with
  | .error e => (link, .error e)
  | .ok () =>
    let started : Copying D := { link := (link.call rules .beginImplicit).1 }
    ((copy.lines.foldl (Copying.line rules copy) started).finish rules copy).finished rules

def copyOut (select : PgResult (DataStmt D)) (link : Link D) : Link D × PgResult StmtResult :=
  match select with
  | .error e => (link, .error e)
  | .ok stmt => link.call rules (.statement (.data stmt))

def runCommand (command : Command D) (link : Link D) : Link D × PgResult StmtResult :=
  match command with
  | .plain stmt => link.call rules (.statement stmt)
  | .copyIn copy => copyIn rules copy link
  | .copyOut select => copyOut rules select link

/-- A command and the answer to it, with the calls it took.  Where no command is given,
the message as a whole: a parse error, or the commit at the end of the group. -/
structure Answered (D : Type) where
  command : Option (Command D)
  calls : List (Call D)
  result : PgResult StmtResult

/-- The calls `later` has made beyond those of `earlier`. -/
def Link.since (later earlier : Link D) : List (Call D) := later.calls.drop earlier.calls.length

def endImplicit (link : Link D) : Link D × List (Answered D) :=
  let ended := link.call rules .commitImplicit
  (match ended.2 with
    | .ok _ => ended.1
    | .error _ => error ended.1, [⟨none, ended.1.since link, ended.2⟩])

def runCommands (link : Link D) : List (Command D) → Link D × List (Answered D)
  | [] => if link.conn.session.inImplicitTx then endImplicit rules link else (link, [])
  | command :: rest =>
    let ran := runCommand rules command link
    let answered : Answered D := ⟨some command, ran.1.since link, ran.2⟩
    match ran.2 with
    | .ok _ =>
      let later := runCommands ran.1 rest
      (later.1, answered :: later.2)
    | .error _ =>
      let failed := error ran.1
      (if failed.conn.session.inImplicitTx then (failed.call rules .rollbackImplicit).1
        else failed, [answered])

/-- The connection as the commands of a message find it: several of them share an
implicit transaction. -/
def opened (link : Link D) (rest : List (Command D)) : Link D :=
  if rest = [] then link else (link.call rules .beginImplicit).1

def simpleQuery (link : Link D) (sql : PgResult (List (Command D))) :
    Link D × List (Answered D) :=
  match sql with
  | .error e => (error link, [⟨none, [], .error e⟩])
  | .ok [] => (link, [])
  | .ok (command :: rest) =>
    runCommands rules (opened rules link rest) (command :: rest)

def simpleQueries (link : Link D) : List (PgResult (List (Command D))) → Link D × List (Answered D)
  | [] => (link, [])
  | sql :: rest =>
    let first := simpleQuery rules link sql
    let later := simpleQueries first.1 rest
    (later.1, first.2 ++ later.2)

/-- `later` comes from `earlier` by calls that all satisfy `holds`. -/
def Link.Grows (holds : Call D → Prop) (earlier later : Link D) : Prop :=
  ∃ more, later.calls = earlier.calls ++ more ∧ ∀ call, call ∈ more → holds call

section Grows

omit [Database D]

variable {holds : Call D → Prop} {a b c : Link D}

theorem Link.Grows.of_calls (same : b.calls = a.calls) : Link.Grows holds a b :=
  ⟨[], by simp [same], by simp⟩

theorem Link.Grows.trans (first : Link.Grows holds a b) (second : Link.Grows holds b c) :
    Link.Grows holds a c := by
  obtain ⟨early, earlyCalls, earlyHold⟩ := first
  obtain ⟨late, lateCalls, lateHold⟩ := second
  refine ⟨early ++ late, by rw [lateCalls, earlyCalls, List.append_assoc], ?_⟩
  intro call member
  rcases List.mem_append.mp member with inEarly | inLate
  · exact earlyHold call inEarly
  · exact lateHold call inLate

theorem Link.Grows.since (grows : Link.Grows holds a b) :
    ∀ call, call ∈ b.since a → holds call := by
  obtain ⟨more, calls, hold⟩ := grows
  have same : b.since a = more := by simp [Link.since, calls]
  rw [same]
  exact hold

end Grows

variable {rules} {link : Link D} {request : Request D}

theorem Link.call_grows {holds : Call D → Prop} (one : holds (link.made rules request)) :
    Link.Grows holds link (link.call rules request).1 :=
  ⟨_, rfl, by
    intro call member
    rw [List.mem_singleton.mp member]
    exact one⟩

theorem Link.call_since :
    (link.call rules request).1.since link = [link.made rules request] := by
  simp [Link.since, Link.call]

omit [Database D] in
@[simp] theorem now_session (link : Link D) : link.now.session = link.conn.session := by
  unfold Link.now Conn.meet
  split <;> rfl

def Call.Untouched (call : Call D) : Prop := call.after.global.db = call.before.global.db

end NoidaDb.Postgres
