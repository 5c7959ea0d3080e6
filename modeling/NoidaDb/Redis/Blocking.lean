/-
Clients, and those among them that wait for a key.

After every command the engine looks at the keys that were added and runs the commands of their
waiters again, in the order in which they blocked.
-/

import Mathlib.Data.List.FinRange
import NoidaDb.Redis.StreamInfo

namespace NoidaDb.Redis

open Lib

abbrev numDbs : Nat := 16

abbrev DbIndex := Fin numDbs

instance numDbsNeZero : NeZero numDbs := ⟨by decide⟩

abbrev Dbs := DbIndex → Db

structure BlockState where
  kind : BlockKind
  keys : List Bytes
  db : DbIndex
  /-- Unix milliseconds; zero waits for ever. -/
  deadline : Nat
  /-- The command to run again. -/
  args : List Bytes

structure Client where
  db : DbIndex := 0
  resp : Nat := 2
  noTouch : Bool := false
  blocked : Option BlockState := none

/-- A command that was run: by whom, where, and on which databases. -/
structure Ran where
  client : Nat
  db : DbIndex
  ctx : Ctx
  args : List Bytes
  before : Dbs

structure Engine where
  dbs : Dbs := fun _ => {}
  clients : OrderedMap Nat Client := .empty
  nextClientId : Nat := 1
  /-- In each database, the clients blocked on a key in the order in which they blocked. -/
  waiting : DbIndex → OrderedMap Bytes (List Nat) := fun _ => .empty
  /-- Replies to clients that other clients' commands have unblocked. -/
  replies : OrderedMap Nat Value := .empty
  /-- How often the clock was read. -/
  readings : Nat := 0
  /-- A handler has failed, and nothing runs any more. -/
  stopped : Bool := false
  /-- For the statements only: the commands that were run. -/
  ran : List Ran := []

structure Host where
  run : Ctx → DbIndex → List Bytes → Dbs → Answer × Dbs
  clock : Nat → U64

/-- The queue of a key without a client, and no queue when it becomes empty. -/
def leaveQueue (id : Nat) (queues : OrderedMap Bytes (List Nat)) (key : Bytes) :
    OrderedMap Bytes (List Nat) :=
  match queues.get key with
  | none => queues
  | some queue =>
    let left := queue.filter (fun c => c != id)
    if left.isEmpty then queues.erase key else queues.insert key left

def joinQueue (id : Nat) (queues : OrderedMap Bytes (List Nat)) (key : Bytes) :
    OrderedMap Bytes (List Nat) :=
  queues.insert key ((queues.get key).getD [] ++ [id])

namespace Engine

def blockedState (e : Engine) (id : Nat) : Option BlockState :=
  (e.clients.get id).bind Client.blocked

/-- `block_client`. -/
def blockClient (e : Engine) (id : Nat) (request : BlockRequest) (a : List Bytes) : Engine :=
  match e.clients.get id with
  | none => e
  | some client =>
    let keys := request.keys.eraseDups
    let state : BlockState :=
      { kind := request.kind, keys := keys, db := client.db, deadline := request.deadline,
        args := request.args.getD a }
    { e with
      waiting := Function.update e.waiting client.db
        (keys.foldl (joinQueue id) (e.waiting client.db))
      clients := e.clients.insert id { client with blocked := some state } }

/-- `unblock`. -/
def unblock (e : Engine) (id : Nat) : Engine :=
  match e.blockedState id with
  | none => e
  | some state =>
    { e with
      clients := e.clients.update id (fun c => { c with blocked := none })
      waiting := Function.update e.waiting state.db
        (state.keys.foldl (leaveQueue id) (e.waiting state.db)) }

/-- `unblock_with`. -/
def unblockWith (e : Engine) (id : Nat) (reply : Value) : Engine :=
  match e.blockedState id with
  | none => e
  | some _ =>
    let e := e.unblock id
    { e with replies := e.replies.insert id reply }

def client (e : Engine) (id : Nat) : Client := (e.clients.get id).getD {}

def context (host : Host) (e : Engine) (id : Nat) (denyBlocking : Bool) (deadline : Option Nat) :
    Ctx where
  now := host.clock e.readings
  wall := host.clock (e.readings + 1)
  noTouch := (e.client id).noTouch
  resp := (e.client id).resp
  denyBlocking := denyBlocking
  reprocessDeadline := deadline

def call (host : Host) (e : Engine) (id : Nat) (a : List Bytes) (denyBlocking : Bool)
    (deadline : Option Nat) : Option Value × Engine :=
  let ctx := e.context host id denyBlocking deadline
  let result := host.run ctx (e.client id).db a e.dbs
  let e :=
    { e with
      dbs := result.2
      readings := e.readings + 2
      ran := e.ran ++ [⟨id, (e.client id).db, ctx, a, e.dbs⟩] }
  match result.1 with
  | .value v => (some v, e)
  | .error v => (some v, e)
  | .block request => (none, e.blockClient id request a)
  | .panic => (none, { e with stopped := true })

/-- One turn of the loop of `serve_key`. -/
def serveNext (host : Host) (d : DbIndex) (key : Bytes) (e : Engine) : Engine :=
  if e.stopped then e
  else
    match ((e.waiting d).get key).getD [] with
    | [] => e
    | id :: queue =>
      -- The queue turns first: a client that blocks again waits behind the others.
      let e :=
        { e with waiting := Function.update e.waiting d ((e.waiting d).insert key (queue ++ [id])) }
      match e.blockedState id with
      | none => e
      | some state =>
        let now := (host.clock e.readings).val
        let e :=
          { e with
            readings := e.readings + 1
            dbs := Function.update e.dbs d ((e.dbs d).touch key now) }
        if ((e.dbs d).map.get key).any (fun entry => state.kind.satisfiedBy entry.data) then
          let result := (e.unblock id).call host id state.args false (some state.deadline)
          match result.1 with
          | none => result.2
          | some reply => { result.2 with replies := result.2.replies.insert id reply }
        else e

/-- `serve_key`: each waiter has one turn. -/
def serveKey (host : Host) (e : Engine) (ready : DbIndex × Bytes) : Engine :=
  (serveNext host ready.1 ready.2)^[(((e.waiting ready.1).get ready.2).getD []).length] e

def readyKeys (e : Engine) : List (DbIndex × Bytes) :=
  (List.finRange numDbs).flatMap (fun d =>
    (((e.dbs d).added.filter (fun key => (e.waiting d).contains key)).eraseDups).map
      (fun key => (d, key)))

def drain (e : Engine) : Engine :=
  { e with dbs := fun d => { e.dbs d with added := [] } }

/-- `serve_blocked`; the fuel is a bound on the rounds. -/
def serveBlocked (host : Host) : Nat → Engine → Engine
  | 0, e => e
  | fuel + 1, e =>
    if e.stopped then e
    else
      match e.readyKeys with
      | [] => e.drain
      | ready => serveBlocked host fuel (ready.foldl (serveKey host) e.drain)

def blockedCount (e : Engine) : Nat :=
  (e.clients.entries.filter (fun c => c.2.blocked.isSome)).length

def serve (host : Host) (e : Engine) : Engine := serveBlocked host (e.blockedCount + 2) e

end Engine

inductive Event where
  | connect
  | disconnect (id : Nat)
  /-- SELECT, CLIENT NO-TOUCH and HELLO. -/
  | set (id : Nat) (db : DbIndex) (noTouch : Bool) (resp : Nat)
  | execute (id : Nat) (a : List Bytes)
  /-- The queue of EXEC, or the calls of a script. -/
  | batch (id : Nat) (commands : List (List Bytes))
  | expireBlocked
  | unblock (id : Nat) (reply : Value)

namespace Engine

def expireBlocked (host : Host) (e : Engine) : Engine :=
  let now := (host.clock e.readings).val
  let expired := (e.clients.entries.filter (fun c =>
    c.2.blocked.any (fun b => b.deadline != 0 && decide (b.deadline < now)))).map Prod.fst
  expired.foldl (fun e id => e.unblockWith id .nullArray) { e with readings := e.readings + 1 }

def active (e : Engine) (id : Nat) : Bool :=
  !e.stopped && (e.clients.get id).any (fun c => c.blocked.isNone)

def runBatch (host : Host) (id : Nat) (e : Engine) (a : List Bytes) : Engine :=
  if e.stopped then e else (e.call host id a true none).2

def step (host : Host) (e : Engine) : Event → Engine
  | .connect =>
    { e with
      clients := e.clients.insert e.nextClientId {}
      nextClientId := e.nextClientId + 1 }
  | .disconnect id =>
    let e := e.unblock id
    { e with replies := e.replies.erase id, clients := e.clients.erase id }
  | .set id db noTouch resp =>
    if e.active id then
      { e with
        clients := e.clients.update id (fun c =>
          { c with db := db, noTouch := noTouch, resp := resp }) }
    else e
  | .execute id a =>
    if e.active id then (e.call host id a false none).2.serve host else e
  | .batch id commands =>
    if e.active id then (commands.foldl (runBatch host id) e).serve host else e
  | .expireBlocked => if e.stopped then e else e.expireBlocked host
  | .unblock id reply => if e.stopped then e else e.unblockWith id reply

def runEvents (host : Host) (events : List Event) (e : Engine) : Engine :=
  events.foldl (step host) e

end Engine

def streamHost (clock : Nat → U64) : Host where
  run := fun ctx d a dbs =>
    let result := Redis.call ctx a (dbs d)
    (result.1, Function.update dbs d result.2)
  clock := clock

end NoidaDb.Redis
