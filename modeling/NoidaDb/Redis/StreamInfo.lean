/-
The stream commands that only read, and the table of all stream commands.
-/

import NoidaDb.Redis.GroupCommands

namespace NoidaDb.Redis

open Lib

def xlen (ctx : Ctx) (a : List Bytes) (db : Db) : Answer × Db :=
  (ctx.getStream (arg a 1) db).andThen fun found db =>
    (.value (.integer ((found.map Stream.len).getD 0)), db)

def rangeCount (a : List Bytes) : Except Value Nat :=
  if a.length ≤ 4 then .ok usizeMax
  else if a.length ≠ 6 ∨ eqIc (arg a 4) "count" = false then syntaxError
  else do
    let n ← intArg (arg a 5)
    .ok n.toNat

def rangeArgs (a : List Bytes) (rev : Bool) :
    Except Value ((Id × Bool) × (Id × Bool) × Nat) := do
  let start ← parseRangeId (if rev then arg a 3 else arg a 2) 0
  let stop ← parseRangeId (if rev then arg a 2 else arg a 3) Id.maxU64
  let count ← rangeCount a
  .ok (start, stop, count)

def closedRange (start stop : Id × Bool) : Except Value (Id × Id) := do
  let first ←
    if start.2 then
      match nextId start.1 with
      | some next => .ok next
      | none => fail "ERR invalid start ID for the interval"
    else .ok start.1
  let last ←
    if stop.2 then
      match prevId stop.1 with
      | some prev => .ok prev
      | none => fail "ERR invalid end ID for the interval"
    else .ok stop.1
  .ok (first, last)

def rangeGeneric (ctx : Ctx) (a : List Bytes) (rev : Bool) (db : Db) : Answer × Db :=
  parsed (rangeArgs a rev) db fun (start, stop, count) =>
    if 4 < a.length ∧ count = 0 then (.value .nullArray, db)
    else
      parsed (closedRange start stop) db fun (first, last) =>
        (ctx.getStream (arg a 1) db).andThen fun found db =>
          match found with
          | none => (.value (.array []), db)
          | some s =>
            let inside := s.entries.entries.filter
              (fun e => decide (first ≤ e.1) && decide (e.1 ≤ last))
            let picked := (if rev then inside.reverse else inside).take count
            (.value (.array (picked.map (fun e => entryReply e.1 e.2))), db)

def xrange (ctx : Ctx) (a : List Bytes) (db : Db) : Answer × Db := rangeGeneric ctx a false db

def xrevrange (ctx : Ctx) (a : List Bytes) (db : Db) : Answer × Db := rangeGeneric ctx a true db

def field (name : String) (v : Value) : Value × Value := (.bulk (ascii name), v)

def intOrNull (n : Option Int) : Value :=
  match n with
  | some n => .integer n
  | none => .null

/-- `streamReplyWithCGLag`. -/
def lagReply (s : Stream) (g : Group) : Value := intOrNull (s.lag g)

def infoGroup (s : Stream) (name : Bytes) (g : Group) : Value :=
  .map
    [field "name" (.bulk name),
      field "consumers" (.integer g.consumers.size),
      field "pending" (.integer g.pending.size),
      field "last-delivered-id" (.bulk (fmtId g.lastId)),
      field "entries-read" (intOrNull g.entriesRead),
      field "lag" (lagReply s g)]

def infoConsumer (now : Nat) (name : Bytes) (c : Consumer) : Value :=
  .map
    [field "name" (.bulk name),
      field "pending" (.integer c.pending.size),
      field "idle" (.integer ((now - c.seenTime : Nat) : Int)),
      field "inactive" (.integer ((now - c.activeTime : Nat) : Int))]

def infoStart (s : Stream) : List (Value × Value) :=
  [field "length" (.integer s.len),
    field "radix-tree-keys" (.integer (min s.len 1 : Nat)),
    field "radix-tree-nodes" (.integer ((min s.len 1 : Nat) + 1)),
    field "last-generated-id" (.bulk (fmtId s.lastId)),
    field "max-deleted-entry-id" (.bulk (fmtId s.maxDeletedId)),
    field "entries-added" (.integer s.entriesAdded),
    field "recorded-first-entry-id" (.bulk (fmtId s.firstId))]

def entryOrNull (e : Option (Id × Fields)) : Value :=
  match e with
  | some e => entryReply e.1 e.2
  | none => .null

/-- A consumer's own list in XINFO STREAM FULL; none when `g.pending[id]` fails. -/
def heldRows (g : Group) (ids : List Id) : Option (List Value) :=
  ids.mapM (fun id =>
    (g.pending.get id).map (fun nack =>
      .array [.bulk (fmtId id), .integer nack.deliveryTime, .integer nack.deliveryCount]))

def fullConsumer (g : Group) (limit : Nat) (name : Bytes) (c : Consumer) : Option Value :=
  (heldRows g (c.pending.keys.take limit)).map (fun rows =>
    .map
      [field "name" (.bulk name),
        field "seen-time" (.integer c.seenTime),
        field "active-time" (.integer c.activeTime),
        field "pel-count" (.integer c.pending.size),
        field "pending" (.array rows)])

def fullPending (g : Group) (limit : Nat) : Value :=
  .array ((g.pending.entries.take limit).map (fun e =>
    .array [.bulk (fmtId e.1), .bulk e.2.consumer, .integer e.2.deliveryTime,
      .integer e.2.deliveryCount]))

def fullGroup (s : Stream) (limit : Nat) (name : Bytes) (g : Group) : Option Value :=
  (g.consumers.entries.mapM (fun e => fullConsumer g limit e.1 e.2)).map (fun consumers =>
    .map
      [field "name" (.bulk name),
        field "last-delivered-id" (.bulk (fmtId g.lastId)),
        field "entries-read" (intOrNull g.entriesRead),
        field "lag" (lagReply s g),
        field "pel-count" (.integer g.pending.size),
        field "pending" (fullPending g limit),
        field "consumers" (.array consumers)])

def fullCount (a : List Bytes) : Except Value Nat :=
  if a.length ≠ 6 then .ok 10
  else if eqIc (arg a 4) "count" then do
    let n ← intArg (arg a 5)
    .ok (if n < 0 then 10 else n.toNat)
  else syntaxError

def infoStream (s : Stream) (a : List Bytes) : Answer :=
  if a.length = 3 then
    .value (.map (infoStart s ++
      [field "groups" (.integer s.groups.size),
        field "first-entry" (entryOrNull s.entries.entries.head?),
        field "last-entry" (entryOrNull s.entries.entries.getLast?)]))
  else if eqIc (arg a 3) "full" = false ∨ (a.length ≠ 4 ∧ a.length ≠ 6) then
    .error (.error "ERR syntax error")
  else
    match fullCount a with
    | .error e => .error e
    | .ok count =>
      -- COUNT 0 means everything.
      let limit := if count = 0 then usizeMax else count
      let entries := (s.entries.entries.take limit).map (fun e => entryReply e.1 e.2)
      match s.groups.entries.mapM (fun e => fullGroup s limit e.1 e.2) with
      | none => .panic
      | some groups =>
        .value (.map (infoStart s ++ [field "entries" (.array entries),
          field "groups" (.array groups)]))

def xinfo (ctx : Ctx) (a : List Bytes) (db : Db) : Answer × Db :=
  (ctx.getStream (arg a 2) db).andThen fun found db =>
    match found with
    | none => refuse "ERR no such key" db
    | some s =>
      if eqIc (arg a 1) "groups" then
        (.value (.array (s.groups.entries.map (fun e => infoGroup s e.1 e.2))), db)
      else if eqIc (arg a 1) "consumers" then
        match s.groups.get (arg a 3) with
        | none =>
          refuse ("NOGROUP No such consumer group '" ++ lossy (arg a 3) ++ "' for key name '" ++
            lossy (arg a 2) ++ "'") db
        | some g =>
          (.value (.array (g.consumers.entries.map
            (fun e => infoConsumer ctx.now.val e.1 e.2))), db)
      else if eqIc (arg a 1) "stream" then (infoStream s a, db)
      else refuse "ERR syntax error" db

inductive StreamCommand where
  | xadd
  | xlen
  | xrange
  | xrevrange
  | xdel
  | xtrim
  | xsetid
  | xread
  | xreadgroup
  | xack
  | xpending
  | xclaim
  | xautoclaim
  | xgroup (sub : Subcommand)
  | xinfo (sub : String)
deriving DecidableEq

namespace StreamCommand

/-- The number of arguments, the name included; negative for a least number. -/
def arity : StreamCommand → Int
  | xadd => -5
  | xlen => 2
  | xrange | xrevrange => -4
  | xdel => -3
  | xtrim => -4
  | xsetid => -3
  | xread => -4
  | xreadgroup => -7
  | xack => -4
  | xpending => -3
  | xclaim | xautoclaim => -6
  | xgroup .create | xgroup .setid => -5
  | xgroup .createconsumer | xgroup .delconsumer => 5
  | xgroup .destroy => 4
  | xinfo sub => if sub = "consumers" then 4 else if sub = "groups" then 3 else -3

def handler : StreamCommand → Ctx → List Bytes → Db → Answer × Db
  | xadd => Redis.xadd
  | xlen => Redis.xlen
  | xrange => Redis.xrange
  | xrevrange => Redis.xrevrange
  | xdel => Redis.xdel
  | xtrim => Redis.xtrim
  | xsetid => Redis.xsetid
  | xread => Redis.xread
  | xreadgroup => Redis.xreadgroup
  | xack => Redis.xack
  | xpending => Redis.xpending
  | xclaim => Redis.xclaim
  | xautoclaim => Redis.xautoclaim
  | xgroup _ => Redis.xgroup
  | xinfo _ => Redis.xinfo

/-- `check_arity`. -/
def arityHolds (c : StreamCommand) (argc : Nat) : Bool :=
  !((decide (0 < c.arity) && decide ((argc : Int) ≠ c.arity)) || decide ((argc : Int) < -c.arity))

end StreamCommand

def plainCommands : List (String × StreamCommand) :=
  [("xadd", .xadd), ("xlen", .xlen), ("xrange", .xrange), ("xrevrange", .xrevrange),
    ("xdel", .xdel), ("xtrim", .xtrim), ("xsetid", .xsetid), ("xread", .xread),
    ("xreadgroup", .xreadgroup), ("xack", .xack), ("xpending", .xpending), ("xclaim", .xclaim),
    ("xautoclaim", .xautoclaim)]

def streamCommand (a : List Bytes) : Option StreamCommand :=
  let name := arg a 0
  if eqIc name "xgroup" then (subcommand (arg a 1)).map .xgroup
  else if eqIc name "xinfo" then
    (["consumers", "groups", "stream"].find? (fun sub => eqIc (arg a 1) sub)).map .xinfo
  else (plainCommands.find? (fun c => eqIc name c.1)).map Prod.snd

def StreamCommand.fullname : StreamCommand → String
  | xgroup .create => "xgroup|create"
  | xgroup .setid => "xgroup|setid"
  | xgroup .destroy => "xgroup|destroy"
  | xgroup .createconsumer => "xgroup|createconsumer"
  | xgroup .delconsumer => "xgroup|delconsumer"
  | xinfo sub => "xinfo|" ++ sub
  | c => ((plainCommands.find? (fun e => e.2 == c)).map Prod.fst).getD ""

/-- A stream command as the engine calls it, after its name and its arity are checked; no other
command is run here. -/
def call (ctx : Ctx) (a : List Bytes) (db : Db) : Answer × Db :=
  match streamCommand a with
  | none => (.value .noReply, db)
  | some c =>
    if c.arityHolds a.length then c.handler ctx a db
    else refuse ("ERR wrong number of arguments for '" ++ c.fullname ++ "' command") db

end NoidaDb.Redis
