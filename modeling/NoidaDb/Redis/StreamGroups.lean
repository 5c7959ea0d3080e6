/-
Reading streams, alone and in groups, and the commands on groups.
-/

import NoidaDb.Redis.StreamCommands

namespace NoidaDb.Redis

open Lib

abbrev Shown := List (Id × Option Fields)

/-- One entry as `[id, [field, value, ...]]`. -/
def entryReply (id : Id) (fields : Fields) : Value :=
  .array [.bulk (fmtId id), .array (fields.map Value.bulk)]

def shownReply (e : Id × Option Fields) : Value :=
  match e with
  | (id, some fields) => entryReply id fields
  | (id, none) => .array [.bulk (fmtId id), .nullArray]

structure ReadArgs where
  count : Nat := usizeMax
  block : Option Int := none
  streamsArg : Nat := 0
  group : Option (Bytes × Bytes) := none
  noack : Bool := false
deriving DecidableEq, Repr

/-- The options of XREAD and XREADGROUP, up to STREAMS; the fuel is the number of arguments left. -/
def readOptions (isGroup : Bool) : Nat → List Bytes → Nat → ReadArgs → Except Value ReadArgs
  | 0, _, _, args => .ok args
  | _, [], _, args => .ok args
  | fuel + 1, x :: rest, i, args =>
    if eqIc x "block" && !rest.isEmpty then
      match parseInt (rest.headD []) with
      | none => fail "ERR timeout is not an integer or out of range"
      | some ms => readOptions isGroup fuel rest.tail (i + 2) { args with block := some ms }
    else if eqIc x "count" && !rest.isEmpty then do
      let n ← intArg (rest.headD [])
      readOptions isGroup fuel rest.tail (i + 2) { args with count := n.toNat }
    else if eqIc x "streams" && !rest.isEmpty then
      if rest.length % 2 ≠ 0 then
        fail ("ERR Unbalanced '" ++ (if isGroup then "xreadgroup" else "xread") ++
          "' list of streams: for each stream key an ID or '" ++ (if isGroup then ">" else "$") ++
          "' must be specified.")
      else .ok { args with streamsArg := i + 1 }
    else if eqIc x "group" && decide (2 ≤ rest.length) then
      if !isGroup then
        fail "ERR The GROUP option is only supported by XREADGROUP. You called XREAD instead."
      else
        readOptions isGroup fuel (rest.drop 2) (i + 3)
          { args with group := some (rest.headD [], rest.tail.headD []) }
    else if eqIc x "noack" then
      if !isGroup then
        fail "ERR The NOACK option is only supported by XREADGROUP. You called XREAD instead."
      else readOptions isGroup fuel rest (i + 1) { args with noack := true }
    else syntaxError

def parseRead (a : List Bytes) (isGroup : Bool) : Except Value ReadArgs := do
  let args ← readOptions isGroup (a.length - 1) (a.drop 1) 1 {}
  if args.streamsArg = 0 then syntaxError
  else if isGroup && args.group.isNone then fail "ERR Missing GROUP option for XREADGROUP"
  else .ok args

/-- What a client asks for with `>`. -/
def newMessages : Id := .max

def readId (ctx : Ctx) (isGroup : Bool) (key raw : Bytes) (db : Db) : Outcome Id :=
  if raw = ascii "$" then
    if isGroup then
      (.error (.error (.error ("ERR The $ ID is meaningless in the context of XREADGROUP: you " ++
        "want to read the history of this consumer by specifying a proper ID, or use the > ID " ++
        "to get new messages. The $ ID would just return an empty result set."))), db)
    else
      match ctx.getStream key db with
      | (.error e, db) => (.error e, db)
      | (.ok found, db) => (.ok ((found.map Stream.lastId).getD .zero), db)
  else if raw = ascii ">" then
    if isGroup then (.ok newMessages, db)
    else
      (.error (.error (.error ("ERR The > ID can be specified only when calling XREADGROUP " ++
        "using the GROUP <group> <consumer> option."))), db)
  else
    match parseId raw 0 true with
    | .error e => (.error (.error e), db)
    | .ok id => (.ok id, db)

def knownGroup (ctx : Ctx) (group : Option (Bytes × Bytes)) (key : Bytes) (db : Db) :
    Outcome Unit :=
  match group with
  | none => (.ok (), db)
  | some (name, _) =>
    match ctx.getStream key db with
    | (.error e, db) => (.error e, db)
    | (.ok found, db) =>
      if found.any (fun s => s.groups.contains name) then (.ok (), db)
      else
        (.error (.error (.error ("NOGROUP No such key '" ++ lossy key ++
          "' or consumer group '" ++ lossy name ++ "' in XREADGROUP with GROUP option"))), db)

def readIds (ctx : Ctx) (isGroup : Bool) (group : Option (Bytes × Bytes)) :
    List (Bytes × Bytes) → Db → Outcome (List Id)
  | [], db => (.ok [], db)
  | (key, raw) :: rest, db =>
    match knownGroup ctx group key db with
    | (.error e, db) => (.error e, db)
    | (.ok _, db) =>
      match readId ctx isGroup key raw db with
      | (.error e, db) => (.error e, db)
      | (.ok id, db) =>
        match readIds ctx isGroup group rest db with
        | (.error e, db) => (.error e, db)
        | (.ok ids, db) => (.ok (id :: ids), db)

/-- One step of `read_history`: an id that the consumer holds, and its entry. -/
def historyStep (entries : OrderedMap Id Fields) (now : Nat) (g : Group) (id : Id) : Group :=
  if entries.contains id then
    g.setNack id (fun nack =>
      { nack with deliveryTime := now, deliveryCount := nack.deliveryCount + 1 })
  else g

/-- `streamReplyWithRangeFromConsumerPEL`. -/
def readHistory (s : Stream) (g : Group) (consumer : Bytes) (start : Id) (count now : Nat) :
    Group × Shown :=
  let ids :=
    match g.consumers.get consumer with
    | some c => ((c.pending.entriesFrom start).take count).map Prod.fst
    | none => []
  (ids.foldl (historyStep s.entries now) g, ids.map (fun id => (id, s.entries.get id)))

def entriesReadAt (s : Stream) (g : Group) (id : Id) : Option Int :=
  let tombstones := s.maxDeletedId != .zero && decide (g.lastId ≤ s.maxDeletedId)
  if g.entriesRead.isSome && decide (s.firstId ≤ g.lastId) && !tombstones then
    g.entriesRead.map (fun n => n + 1)
  else if 0 < s.entriesAdded then s.estimateEntriesRead id
  else g.entriesRead

def advance (s : Stream) (g : Group) (id : Id) : Group :=
  if g.lastId < id then { g with entriesRead := entriesReadAt s g id, lastId := id } else g

/-- One step of `deliver_new`. -/
def deliverStep (s : Stream) (consumer : Bytes) (noack : Bool) (now : Nat) (g : Group) (id : Id) :
    Group :=
  let g := advance s g id
  if noack then g
  else
    (g.deliver id consumer now).consumer consumer now (fun c => { c with activeTime := now })

/-- `streamReplyWithRange` with a group: hands new entries to the consumer. -/
def deliverNew (s : Stream) (g : Group) (consumer : Bytes) (start : Id) (count : Nat) (noack : Bool)
    (now : Nat) : Group × List (Id × Fields) :=
  let picked := (s.entries.entriesFrom start).take count
  ((picked.map Prod.fst).foldl (deliverStep s consumer noack now) g, picked)

structure Part where
  key : Bytes
  /-- Read with `>`. -/
  fresh : Bool
  entries : Shown

def asShown (entries : List (Id × Fields)) : Shown := entries.map (fun e => (e.1, some e.2))

def readGroupPart (s : Stream) (g : Group) (key consumer : Bytes) (after : Id) (count : Nat)
    (noack : Bool) (now : Nat) : Except Answer (Group × Option Part) :=
  let g := g.consumer consumer now (fun c => { c with seenTime := now })
  if after ≠ newMessages then
    let (g, entries) := readHistory s g consumer ((nextId after).getD newMessages) count now
    .ok (g, some ⟨key, false, entries⟩)
  else if 0 < s.len ∧ g.lastId < s.lastValidId then
    match nextId g.lastId with
    | none => .error .panic
    | some start =>
      let (g, entries) := deliverNew s g consumer start count noack now
      .ok (g, some ⟨key, true, asShown entries⟩)
  else .ok (g, none)

def readPart (s : Stream) (key : Bytes) (after : Id) (count : Nat) : Option Part :=
  match nextId after with
  | none => none
  | some start =>
    let entries := (s.entries.entriesFrom start).take count
    if entries.isEmpty then none else some ⟨key, false, asShown entries⟩

def readOne (ctx : Ctx) (args : ReadArgs) (key : Bytes) (after : Id) (db : Db) :
    Outcome (Option Part) :=
  match ctx.getStream key db with
  | (.error e, db) => (.error e, db)
  | (.ok none, db) => (.ok none, db)
  | (.ok (some _), db) =>
    match ctx.getStream key db with
    | (.ok (some s), db) =>
      match args.group with
      | none => (.ok (readPart s key after args.count), db)
      | some (name, consumer) =>
        match s.groups.get name with
        | none => (.error .panic, db)
        | some g =>
          match readGroupPart s g key consumer after args.count args.noack ctx.now.val with
          | .error e => (.error e, db)
          | .ok (g, part) => (.ok part, db.setData key (.stream (s.setGroup name g)))
    | (_, db) => (.error .panic, db)

def readParts (ctx : Ctx) (args : ReadArgs) : List (Bytes × Id) → Db → Outcome (List Part)
  | [], db => (.ok [], db)
  | (key, after) :: rest, db =>
    match readOne ctx args key after db with
    | (.error e, db) => (.error e, db)
    | (.ok part, db) =>
      match readParts ctx args rest db with
      | (.error e, db) => (.error e, db)
      | (.ok parts, db) => (.ok (part.toList ++ parts), db)

def partsReply (resp : Nat) (parts : List Part) : Value :=
  let pairs := parts.map (fun part => (Value.bulk part.key, Value.array (part.entries.map shownReply)))
  if 3 ≤ resp then .map pairs else .array (pairs.map (fun pair => .array [pair.1, pair.2]))

/-- Replaces `$` with the id it stands for, so that the command finds only newer entries when it
runs again. -/
def rewriteIds (a : List Bytes) (start : Nat) : List Id → List Bytes
  | [] => a
  | id :: ids =>
    let a := if arg a start = ascii "$" then a.set start (fmtId id) else a
    rewriteIds a (start + 1) ids

def timeoutMsArg (ms : Int) (now : U64) : Except Value Nat :=
  if ms < 0 then fail "ERR timeout is negative"
  else if ms = 0 then .ok 0
  else if ms + asI64 now.val ≤ i64Max then .ok (ms + asI64 now.val).toNat
  else fail "ERR timeout is out of range"

def readNothing (ctx : Ctx) (a : List Bytes) (args : ReadArgs) (keys : List Bytes) (ids : List Id) :
    Answer :=
  match args.block with
  | none => .value .nullArray
  | some ms =>
    if ctx.denyBlocking then .value .nullArray
    else
      match timeoutMsArg ms ctx.now with
      | .error e => .error e
      | .ok deadline =>
        ctx.blockWithArgs .stream keys deadline
          (rewriteIds a (args.streamsArg + keys.length) ids)

def readAnswer (ctx : Ctx) (a : List Bytes) (args : ReadArgs) (keys : List Bytes) (ids : List Id)
    (parts : List Part) : Answer :=
  if parts.isEmpty then readNothing ctx a args keys ids else .value (partsReply ctx.resp parts)

def readKeys (a : List Bytes) (args : ReadArgs) : List Bytes :=
  (a.drop args.streamsArg).take ((a.length - args.streamsArg) / 2)

def readAll (ctx : Ctx) (a : List Bytes) (isGroup : Bool) (args : ReadArgs) (db : Db) :
    Outcome (List Id × List Part) :=
  let keys := readKeys a args
  match readIds ctx isGroup args.group (keys.zip (a.drop (args.streamsArg + keys.length))) db with
  | (.error e, db) => (.error e, db)
  | (.ok ids, db) =>
    match readParts ctx args (keys.zip ids) db with
    | (.error e, db) => (.error e, db)
    | (.ok parts, db) => (.ok (ids, parts), db)

/-- `xreadCommand`. -/
def readGeneric (ctx : Ctx) (a : List Bytes) (isGroup : Bool) (db : Db) : Answer × Db :=
  parsed (parseRead a isGroup) db fun args =>
    (readAll ctx a isGroup args db).andThen fun found db =>
      (readAnswer ctx a args (readKeys a args) found.1 found.2, db)

def xread (ctx : Ctx) (a : List Bytes) (db : Db) : Answer × Db := readGeneric ctx a false db

def xreadgroup (ctx : Ctx) (a : List Bytes) (db : Db) : Answer × Db := readGeneric ctx a true db

end NoidaDb.Redis
