/-
The commands that manage consumer groups and their pending entries.
-/

import NoidaDb.Redis.StreamGroups

namespace NoidaDb.Redis

open Lib

structure GroupOptions where
  mkstream : Bool := false
  entriesRead : Option Int := none

def groupOptions (create setid : Bool) : Nat → List Bytes → GroupOptions → Except Value GroupOptions
  | 0, _, options => .ok options
  | _, [], options => .ok options
  | fuel + 1, x :: rest, options =>
    if create && eqIc x "mkstream" then
      groupOptions create setid fuel rest { options with mkstream := true }
    else if (create || setid) && eqIc x "entriesread" && !rest.isEmpty then do
      let n ← intArg (rest.headD [])
      if n < 0 ∧ n ≠ -1 then fail "ERR value for ENTRIESREAD must be positive or -1"
      else groupOptions create setid fuel rest.tail { options with entriesRead := some n }
    else syntaxError

namespace GroupOptions

def counter (options : GroupOptions) : Option Int := options.entriesRead.filter (fun n => n != -1)

end GroupOptions

inductive Subcommand where
  | create
  | setid
  | destroy
  | createconsumer
  | delconsumer
deriving DecidableEq, Repr

def subcommand (raw : Bytes) : Option Subcommand :=
  if eqIc raw "create" then some .create
  else if eqIc raw "setid" then some .setid
  else if eqIc raw "destroy" then some .destroy
  else if eqIc raw "createconsumer" then some .createconsumer
  else if eqIc raw "delconsumer" then some .delconsumer
  else none

def createGroup (ctx : Ctx) (key name : Bytes) (id : Id) (counter : Option Int) (db : Db) :
    Answer × Db :=
  (ctx.getStream key db).andThen fun found db =>
    match found with
    | none => (.panic, db)
    | some s =>
      if s.groups.contains name then refuse "BUSYGROUP Consumer Group name already exists" db
      else
        let g := { lastId := id, entriesRead := counter : Group }
        (.value .ok, db.setData key (.stream (s.setGroup name g)))

def startId (ctx : Ctx) (key raw : Bytes) (strict : Bool) (db : Db) : Outcome Id :=
  if raw = ascii "$" then
    match ctx.getStream key db with
    | (.error e, db) => (.error e, db)
    | (.ok found, db) => (.ok ((found.map Stream.lastId).getD .zero), db)
  else
    match parseId raw 0 strict with
    | .error e => (.error (.error e), db)
    | .ok id => (.ok id, db)

def nogroup (key name : Bytes) : String :=
  "NOGROUP No such key '" ++ lossy key ++ "' or consumer group '" ++ lossy name ++ "'"

def groupOf (ctx : Ctx) (key name : Bytes) (db : Db) : Outcome (Stream × Group) :=
  match ctx.getStream key db with
  | (.error e, db) => (.error e, db)
  | (.ok none, db) => (.error (.error (.error (nogroup key name))), db)
  | (.ok (some s), db) =>
    match s.groups.get name with
    | none => (.error (.error (.error (nogroup key name))), db)
    | some g => (.ok (s, g), db)

def runSubcommand (ctx : Ctx) (sub : Subcommand) (options : GroupOptions) (key name raw : Bytes)
    (db : Db) : Answer × Db :=
  match sub with
  | .create =>
    (startId ctx key raw true db).andThen fun id db =>
      (ctx.getStream key db).andThen fun found db =>
        createGroup ctx key name id options.counter
          (if found.isNone then ctx.insertStream key db else db)
  | .setid =>
    (startId ctx key raw false db).andThen fun id db =>
      (groupOf ctx key name db).andThen fun (s, g) db =>
        let g := { g with lastId := id, entriesRead := options.counter }
        (.value .ok, db.setData key (.stream (s.setGroup name g)))
  | .destroy =>
    (ctx.getStream key db).andThen fun found db =>
      match found with
      | none => (.panic, db)
      | some s =>
        (.value (.integer (if s.groups.contains name then 1 else 0)),
          db.setData key (.stream { s with groups := s.groups.erase name }))
  | .createconsumer =>
    (groupOf ctx key name db).andThen fun (s, g) db =>
      (.value (.integer (if g.consumers.contains raw then 0 else 1)),
        db.setData key (.stream (s.setGroup name (g.consumer raw ctx.now.val id))))
  | .delconsumer =>
    (groupOf ctx key name db).andThen fun (s, g) db =>
      match g.consumers.get raw with
      | none => (.value (.integer 0), db)
      | some c =>
        (.value (.integer c.pending.size),
          db.setData key (.stream (s.setGroup name (g.removeConsumer raw c))))

def requiresKey : String :=
  "ERR The XGROUP subcommand requires the key to exist. Note that for CREATE you may " ++
    "want to use the MKSTREAM option to create an empty stream automatically."

def Subcommand.needsGroup : Subcommand → Bool
  | .setid | .createconsumer | .delconsumer => true
  | .create | .destroy => false

def xgroup (ctx : Ctx) (a : List Bytes) (db : Db) : Answer × Db :=
  match subcommand (arg a 1) with
  | none => refuse "ERR syntax error" db
  | some sub =>
    let key := arg a 2
    let name := arg a 3
    parsed (groupOptions (sub == .create) (sub == .setid) a.length (a.drop 5) {}) db fun options =>
      (ctx.getStream key db).andThen fun found db =>
        match found with
        | none =>
          if !options.mkstream then refuse requiresKey db
          else runSubcommand ctx sub options key name (arg a 4) db
        | some s =>
          let db := if sub.needsGroup then ctx.lookup key db else db
          if sub.needsGroup && !s.groups.contains name then
            refuse ("NOGROUP No such consumer group '" ++ lossy name ++ "' for key name '" ++
              lossy key ++ "'") db
          else runSubcommand ctx sub options key name (arg a 4) db

def xack (ctx : Ctx) (a : List Bytes) (db : Db) : Answer × Db :=
  parsed (parseIds (a.drop 3)) db fun ids =>
    (ctx.getStream (arg a 1) db).andThen fun found db =>
      match found with
      | none => (.value (.integer 0), db)
      | some s =>
        match s.groups.get (arg a 2) with
        | none => (.value (.integer 0), db)
        | some g =>
          let (g, n) := g.ack ids
          (.value (.integer n), db.setData (arg a 1) (.stream (s.setGroup (arg a 2) g)))

structure PendingArgs where
  minIdle : Nat := 0
  start : Id := .zero
  stop : Id := .max
  count : Nat := usizeMax
  consumer : Option Bytes := none

def lowerEnd (raw : Bytes) : Except Value Id := do
  let (id, exclusive) ← parseRangeId raw 0
  if exclusive then
    match nextId id with
    | some next => .ok next
    | none => fail "ERR invalid start ID for the interval"
  else .ok id

def upperEnd (raw : Bytes) : Except Value Id := do
  let (id, exclusive) ← parseRangeId raw Id.maxU64
  if exclusive then
    match prevId id with
    | some prev => .ok prev
    | none => fail "ERR invalid end ID for the interval"
  else .ok id

def pendingRange (a : List Bytes) (minIdle idx : Nat) : Except Value PendingArgs := do
  let count ← intArg (arg a (idx + 2))
  let start ← lowerEnd (arg a idx)
  let stop ← upperEnd (arg a (idx + 1))
  .ok
    { minIdle := minIdle, start := start, stop := stop, count := count.toNat,
      consumer := a[idx + 3]? }

def parsePending (a : List Bytes) : Except Value PendingArgs :=
  if a.length ≠ 3 ∧ ¬(6 ≤ a.length ∧ a.length ≤ 9) then syntaxError
  else if a.length < 6 then .ok {}
  else if eqIc (arg a 3) "idle" then do
    let idle ← intArg (arg a 4)
    if a.length < 8 then syntaxError else pendingRange a idle.toNat 5
  else pendingRange a 0 3

def pendingSummary (g : Group) : Value :=
  match g.pending.firstKey?, g.pending.lastKey? with
  | some first, some last =>
    let holders := g.consumers.entries.filter (fun e => !e.2.pending.isEmpty)
    .array
      [.integer g.pending.size, .bulk (fmtId first), .bulk (fmtId last),
        .array (holders.map (fun e => .array [.bulk e.1, .bulk (showNat e.2.pending.size)]))]
  | _, _ => .array [.integer 0, .null, .null, .nullArray]

def idsBetween {V : Type} (m : OrderedMap Id V) (start stop : Id) : List Id :=
  m.keys.filter (fun id => decide (start ≤ id) && decide (id ≤ stop))

/-- XPENDING's loop; none when `g.pending[&id]` fails. -/
def pendingDetails (g : Group) (minIdle now : Nat) : Nat → List Id → Option (List Value)
  | _, [] => some []
  | 0, _ => some []
  | room + 1, id :: ids =>
    match g.pending.get id with
    | none => none
    | some nack =>
      let idle := now - nack.deliveryTime
      if 0 < minIdle ∧ idle < minIdle then pendingDetails g minIdle now (room + 1) ids
      else
        let row := Value.array
          [.bulk (fmtId id), .bulk nack.consumer, .integer idle, .integer nack.deliveryCount]
        (pendingDetails g minIdle now room ids).map (fun rows => row :: rows)

def pendingIds (g : Group) (args : PendingArgs) : List Id :=
  match args.consumer with
  | none => idsBetween g.pending args.start args.stop
  | some name =>
    match g.consumers.get name with
    | none => []
    | some c => idsBetween c.pending args.start args.stop

def xpending (ctx : Ctx) (a : List Bytes) (db : Db) : Answer × Db :=
  parsed (parsePending a) db fun args =>
    (groupOf ctx (arg a 1) (arg a 2) db).andThen fun found db =>
      let g := found.2
      if a.length = 3 then (.value (pendingSummary g), db)
      else
        match pendingDetails g args.minIdle ctx.now.val args.count (pendingIds g args) with
        | none => (.panic, db)
        | some rows => (.value (.array rows), db)

structure ClaimArgs where
  force : Bool := false
  justid : Bool := false
  retrycount : Option Nat := none
  deliveryTime : Option Nat := none
  lastId : Option Id := none

def leadingIds : List Bytes → List Id × List Bytes
  | [] => ([], [])
  | raw :: rest =>
    match parseId raw 0 true with
    | .error _ => ([], raw :: rest)
    | .ok id => (id :: (leadingIds rest).1, (leadingIds rest).2)

def intArgOr (raw : Bytes) (message : String) : Except Value Int :=
  match parseInt raw with
  | some n => .ok n
  | none => fail message

def claimOptions (now : Nat) : Nat → List Bytes → ClaimArgs → Except Value ClaimArgs
  | 0, _, args => .ok args
  | _, [], args => .ok args
  | fuel + 1, x :: rest, args =>
    if eqIc x "force" then claimOptions now fuel rest { args with force := true }
    else if eqIc x "justid" then claimOptions now fuel rest { args with justid := true }
    else if eqIc x "idle" && !rest.isEmpty then do
      let idle ← intArgOr (rest.headD []) "ERR Invalid IDLE option argument for XCLAIM"
      claimOptions now fuel rest.tail { args with deliveryTime := some (now - idle.toNat) }
    else if eqIc x "time" && !rest.isEmpty then do
      let t ← intArgOr (rest.headD []) "ERR Invalid TIME option argument for XCLAIM"
      claimOptions now fuel rest.tail { args with deliveryTime := some t.toNat }
    else if eqIc x "retrycount" && !rest.isEmpty then do
      let n ← intArgOr (rest.headD []) "ERR Invalid RETRYCOUNT option argument for XCLAIM"
      claimOptions now fuel rest.tail { args with retrycount := some n.toNat }
    else if eqIc x "lastid" && !rest.isEmpty then do
      let id ← parseId (rest.headD []) 0 true
      claimOptions now fuel rest.tail { args with lastId := some id }
    else fail ("ERR Unrecognized XCLAIM option '" ++ lossy x ++ "'")

def parseClaim (now : Nat) (a : List Bytes) : Except Value (Nat × List Id × ClaimArgs) := do
  let minIdle ← intArgOr (arg a 4) "ERR Invalid min-idle-time argument for XCLAIM"
  let (ids, rest) := leadingIds (a.drop 5)
  let args ← claimOptions now rest.length rest {}
  .ok (minIdle.toNat, ids, args)

def forcePending (g : Group) (id : Id) (consumer : Bytes) (now : Nat) : Group :=
  if g.pending.contains id then g
  else
    let nack := { consumer := consumer, deliveryTime := now, deliveryCount := 0 : Nack }
    { g with pending := g.pending.insert id nack }.hold consumer id now

def claimNack (args : ClaimArgs) (now : Nat) (nack : Nack) : Nack :=
  { nack with
    deliveryTime := min (args.deliveryTime.getD now) now
    deliveryCount :=
      match args.retrycount with
      | some n => n
      | none => if args.justid then nack.deliveryCount else nack.deliveryCount + 1 }

def tooFresh (minIdle now : Nat) (nack : Nack) : Bool :=
  decide (0 < minIdle) && decide (now - nack.deliveryTime < minIdle)

def claimStep (s : Stream) (args : ClaimArgs) (minIdle : Nat) (consumer : Bytes) (now : Nat)
    (g : Group) (id : Id) : Group × Bool :=
  if !s.entries.contains id then (g.forget id, false)
  else
    let g := if args.force then forcePending g id consumer now else g
    match g.pending.get id with
    | none => (g, false)
    | some nack =>
      if tooFresh minIdle now nack then (g, false)
      else ((g.reassign id consumer now).setNack id (claimNack args now), true)

def claimAll (s : Stream) (args : ClaimArgs) (minIdle : Nat) (consumer : Bytes) (now : Nat) :
    List Id → Group → Group × List Id
  | [], g => (g, [])
  | id :: ids, g =>
    let (g, claimed) := claimStep s args minIdle consumer now g id
    let (g, rest) := claimAll s args minIdle consumer now ids g
    (g, if claimed then id :: rest else rest)

def claimedReply (s : Stream) (justid : Bool) (id : Id) : Value :=
  if justid then .bulk (fmtId id) else entryReply id ((s.entries.get id).getD [])

def raiseLastId (g : Group) (lastId : Option Id) : Group :=
  { g with lastId := (lastId.filter (fun id => decide (g.lastId < id))).getD g.lastId }

def claimGroup (ctx : Ctx) (key name : Bytes) (db : Db) : Outcome (Stream × Group) :=
  match groupOf ctx key name db with
  | (.error e, db) => (.error e, db)
  | (.ok found, db) => (.ok found, ctx.lookup key (ctx.lookup key db))

def xclaim (ctx : Ctx) (a : List Bytes) (db : Db) : Answer × Db :=
  parsed (parseClaim ctx.now.val a) db fun (minIdle, ids, args) =>
    (claimGroup ctx (arg a 1) (arg a 2) db).andThen fun (s, g) db =>
      let now := ctx.now.val
      let consumer := arg a 3
      let g := (raiseLastId g args.lastId).consumer consumer now (fun c => { c with seenTime := now })
      let (g, claimed) := claimAll s args minIdle consumer now ids g
      (.value (.array (claimed.map (claimedReply s args.justid))),
        db.setData (arg a 1) (.stream (s.setGroup (arg a 2) g)))

def autoclaimOptions : Nat → List Bytes → Nat × Bool → Except Value (Nat × Bool)
  | 0, _, given => .ok given
  | _, [], given => .ok given
  | fuel + 1, x :: rest, given =>
    if eqIc x "count" && !rest.isEmpty then do
      let n ← intArg (rest.headD [])
      if n < 1 then fail "ERR COUNT must be > 0"
      else autoclaimOptions fuel rest.tail (n.toNat, given.2)
    else if eqIc x "justid" then autoclaimOptions fuel rest (given.1, true)
    else syntaxError

structure AutoclaimArgs where
  minIdle : Nat
  start : Id
  count : Nat
  justid : Bool

def parseAutoclaim (a : List Bytes) : Except Value AutoclaimArgs := do
  let minIdle ← intArgOr (arg a 4) "ERR Invalid min-idle-time argument for XAUTOCLAIM"
  let start ← lowerEnd (arg a 5)
  let (count, justid) ← autoclaimOptions a.length (a.drop 6) (100, false)
  .ok ⟨minIdle.toNat, start, count, justid⟩

def autoclaimNack (justid : Bool) (now : Nat) (nack : Nack) : Nack :=
  { nack with
    deliveryTime := now
    deliveryCount := if justid then nack.deliveryCount else nack.deliveryCount + 1 }

structure Autoclaimed where
  group : Group
  claimed : List Id := []
  deleted : List Id := []
  cursor : Id := .zero

/-- XAUTOCLAIM's loop; none when `g.pending[&id]` fails. -/
def autoclaimAll (s : Stream) (args : AutoclaimArgs) (consumer : Bytes) (now : Nat) :
    Nat → List Id → Group → Option Autoclaimed
  | _, [], g => some { group := g }
  | 0, id :: _, g => some { group := g, cursor := id }
  | left + 1, id :: ids, g =>
    if !s.entries.contains id then
      (autoclaimAll s args consumer now left ids (g.forget id)).map
        (fun done => { done with deleted := id :: done.deleted })
    else
      match g.pending.get id with
      | none => none
      | some nack =>
        if tooFresh args.minIdle now nack then
          autoclaimAll s args consumer now (left + 1) ids g
        else
          let g := (g.reassign id consumer now).setNack id (autoclaimNack args.justid now)
          (autoclaimAll s args consumer now left ids g).map
            (fun done => { done with claimed := id :: done.claimed })

def xautoclaim (ctx : Ctx) (a : List Bytes) (db : Db) : Answer × Db :=
  parsed (parseAutoclaim a) db fun args =>
    (claimGroup ctx (arg a 1) (arg a 2) db).andThen fun (s, g) db =>
      let now := ctx.now.val
      let consumer := arg a 3
      let g := g.consumer consumer now (fun c => { c with seenTime := now })
      let candidates := (g.pending.entriesFrom args.start).map Prod.fst
      match autoclaimAll s args consumer now args.count candidates g with
      | none => (.panic, db)
      | some done =>
        (.value (.array
          [.bulk (fmtId done.cursor), .array (done.claimed.map (claimedReply s args.justid)),
            .array (done.deleted.map (fun id => .bulk (fmtId id)))]),
          db.setData (arg a 1) (.stream (s.setGroup (arg a 2) done.group)))

end NoidaDb.Redis
