/-
The stream commands, as functions of the client's context, the arguments and the database.

An error leaves the database as it is at that point; nothing is undone.
-/

import NoidaDb.Redis.Streams

namespace NoidaDb.Redis

open Lib

structure Ctx where
  now : U64
  /-- The clock as an insertion reads it. -/
  wall : U64
  noTouch : Bool := false
  resp : Nat := 2
  /-- Inside MULTI or a script. -/
  denyBlocking : Bool := false
  /-- The deadline of a blocked command that runs again. -/
  reprocessDeadline : Option Nat := none

inductive BlockKind where
  | list
  | zset
  | stream
deriving DecidableEq, Repr

namespace BlockKind

def satisfiedBy : BlockKind → Data → Bool
  | .list, .list _ => true
  | .zset, .zset _ => true
  | .stream, .stream _ => true
  | _, _ => false

end BlockKind

structure BlockRequest where
  kind : BlockKind
  keys : List Bytes
  deadline : Nat
  /-- The command to run again, when it is not the one that blocked. -/
  args : Option (List Bytes)

inductive Answer where
  | value (v : Value)
  | error (v : Value)
  | block (request : BlockRequest)
  /-- An index or an `expect` fails. -/
  | panic

abbrev Outcome (α : Type) := Except Answer α × Db

def arg (a : List Bytes) (i : Nat) : Bytes := a.getD i []

namespace Ctx

/-- `Ctx::lookup`. -/
def lookup (ctx : Ctx) (key : Bytes) (db : Db) : Db :=
  if ctx.noTouch then db.dropExpired key ctx.now.val else db.touch key ctx.now.val

def getStream (ctx : Ctx) (key : Bytes) (db : Db) : Outcome (Option Stream) :=
  let db := ctx.lookup key db
  match db.map.get key with
  | none => (.ok none, db)
  | some { data := .stream s, .. } => (.ok (some s), db)
  | some _ => (.error (.error wrongType), db)

/-- `ctx.db().insert` of a new empty stream. -/
def insertStream (ctx : Ctx) (key : Bytes) (db : Db) : Db :=
  db.insert key { data := .stream {} } ctx.wall.val

/-- `Ctx::block_with_args`. -/
def blockWithArgs (ctx : Ctx) (kind : BlockKind) (keys : List Bytes) (deadline : Nat)
    (args : List Bytes) : Answer :=
  .block
    { kind := kind, keys := keys, deadline := ctx.reprocessDeadline.getD deadline,
      args := some args }

end Ctx

def parsed {α : Type} (r : Except Value α) (db : Db) (next : α → Answer × Db) : Answer × Db :=
  match r with
  | .error e => (.error e, db)
  | .ok x => next x

/-- `return Err(Value::err(message))`. -/
def refuse (message : String) (db : Db) : Answer × Db := (.error (.error message), db)

def Outcome.andThen {α : Type} (r : Outcome α) (next : α → Db → Answer × Db) : Answer × Db :=
  match r with
  | (.error e, db) => (e, db)
  | (.ok x, db) => next x db

structure AddTrimArgs where
  trim : Trim := .none
  limitGiven : Bool := false
  approx : Bool := false
  noMkstream : Bool := false
  /-- The explicit id, and whether its sequence was given. -/
  id : Option (Id × Bool) := none
  next : Nat := 0
deriving DecidableEq, Repr

def incompatible {α : Type} : Except Value α :=
  fail "ERR syntax error, MAXLEN and MINID options at the same time are not compatible"

/-- Skips `~` or `=` before the bound of a trimming: is it `~`, and what is left. -/
def skipOperator : List Bytes → Bool × List Bytes
  | [] => (false, [])
  | op :: rest =>
    if rest ≠ [] ∧ (op = ascii "~" ∨ op = ascii "=") then (op == ascii "~", rest)
    else (false, op :: rest)

def maxLenArg (raw : Bytes) : Except Value Trim := do
  let n ← intArg raw
  if n < 0 then fail "ERR The MAXLEN argument must be >= 0." else .ok (.maxLen n)

def minIdArg (raw : Bytes) : Except Value Trim := do
  let id ← parseId raw 0 true
  .ok (.minId id)

def explicitId (raw : Bytes) : Except Value (Id × Bool) :=
  if (ascii "-*").isSuffixOf raw then do
    let ms ← parseU64Or (raw.take (raw.length - 2))
    .ok (⟨ms, 0⟩, false)
  else do
    let id ← parseId raw 0 true
    .ok (id, true)

/-- The loop of `parse_add_trim`; the fuel is the number of arguments left. -/
def parseAddTrimLoop (xadd : Bool) :
    Nat → List Bytes → Nat → AddTrimArgs → Except Value AddTrimArgs
  | 0, _, i, args => .ok { args with next := i }
  | _, [], i, args => .ok { args with next := i }
  | fuel + 1, x :: rest, i, args =>
    if xadd && x == ascii "*" then .ok { args with next := i }
    else if eqIc x "maxlen" && !rest.isEmpty then
      if args.trim ≠ .none then incompatible
      else do
        let (approx, rest') := skipOperator rest
        let bound ← maxLenArg (rest'.headD [])
        parseAddTrimLoop xadd fuel rest'.tail (i + 2 + (rest.length - rest'.length))
          { args with approx := approx, trim := bound }
    else if eqIc x "minid" && !rest.isEmpty then
      if args.trim ≠ .none then incompatible
      else do
        let (approx, rest') := skipOperator rest
        let bound ← minIdArg (rest'.headD [])
        parseAddTrimLoop xadd fuel rest'.tail (i + 2 + (rest.length - rest'.length))
          { args with approx := approx, trim := bound }
    else if eqIc x "limit" && !rest.isEmpty then do
      let n ← intArg (rest.headD [])
      if n < 0 then fail "ERR The LIMIT argument must be >= 0."
      else parseAddTrimLoop xadd fuel rest.tail (i + 2) { args with limitGiven := true }
    else if xadd && eqIc x "nomkstream" then
      parseAddTrimLoop xadd fuel rest (i + 1) { args with noMkstream := true }
    else if xadd then do
      let id ← explicitId x
      .ok { args with id := some id, next := i }
    else syntaxError

/-- `streamParseAddOrTrimArgsOrReply`. -/
def parseAddTrim (a : List Bytes) (xadd : Bool) : Except Value AddTrimArgs := do
  let args ← parseAddTrimLoop xadd (a.length - 2) (a.drop 2) 2 {}
  if args.limitGiven && args.trim == .none then
    fail "ERR syntax error, LIMIT cannot be used without specifying a trimming strategy"
  else if !xadd && args.trim == .none then
    fail "ERR syntax error, XTRIM must be called with a trimming strategy"
  else if args.limitGiven && !args.approx then
    fail "ERR syntax error, LIMIT cannot be used without the special ~ option"
  else .ok args

def tooSmall {α : Type} : Except Value α :=
  fail "ERR The ID specified in XADD is equal or smaller than the target stream top item"

def followingId (s : Stream) : Except Value Id :=
  match nextId s.lastId with
  | some next => .ok next
  | none => tooSmall

def candidateId (s : Stream) (now : U64) : Option (Id × Bool) → Except Value Id
  | some (id, true) => .ok id
  | some (id, false) =>
    if id.ms < s.lastId.ms then tooSmall
    else if id.ms = s.lastId.ms then followingId s
    else .ok ⟨id.ms, 0⟩
  | none => if s.lastId.ms < now then .ok ⟨now, 0⟩ else followingId s

/-- `streamAppendItem`: picks the id, then checks that it grows. -/
def pickId (s : Stream) (now : U64) (given : Option (Id × Bool)) : Except Value Id :=
  if s.lastId = .max then
    fail "ERR The stream has exhausted the last possible ID, unable to add more items"
  else
    match candidateId s now given with
    | .error e => .error e
    | .ok id =>
      if id ≤ s.lastId ∧ ¬(s.lastId = .zero ∧ s.entriesAdded = 0 ∧ .zero < id) then tooSmall
      else .ok id

namespace Stream

def append (s : Stream) (id : Id) (fields : Fields) : Stream :=
  { s with
    entries := s.entries.insert id fields
    lastId := id
    entriesAdded := s.entriesAdded + 1 }

end Stream

def addTo (ctx : Ctx) (a : List Bytes) (args : AddTrimArgs) (db : Db) : Answer × Db :=
  (ctx.getStream (arg a 1) db).andThen fun found db =>
    match found with
    | none => (.panic, db)
    | some s =>
      parsed (pickId s ctx.now args.id) db fun id =>
        let s := ((s.append id (a.drop (args.next + 1))).trim args.trim).1
        (.value (.bulk (fmtId id)),
          (db.setData (arg a 1) (.stream s)).signalReady (arg a 1))

def xadd (ctx : Ctx) (a : List Bytes) (db : Db) : Answer × Db :=
  parsed (parseAddTrim a true) db fun args =>
    let fieldPos := args.next + 1
    if a.length < fieldPos + 2 ∨ (a.length - fieldPos) % 2 ≠ 0 then
      refuse "ERR wrong number of arguments for 'xadd' command" db
    else if args.id = some (.zero, true) then
      refuse "ERR The ID specified in XADD must be greater than 0-0" db
    else
      (ctx.getStream (arg a 1) db).andThen fun found db =>
        match found with
        | some _ => addTo ctx a args db
        | none =>
          if args.noMkstream then (.value .null, db)
          else addTo ctx a args (ctx.insertStream (arg a 1) db)

def parseIds (raws : List Bytes) : Except Value (List Id) :=
  raws.mapM (fun raw => parseId raw 0 true)

def xdel (ctx : Ctx) (a : List Bytes) (db : Db) : Answer × Db :=
  parsed (parseIds (a.drop 2)) db fun ids =>
    (ctx.getStream (arg a 1) db).andThen fun found db =>
      match found with
      | none => (.value (.integer 0), db)
      | some s =>
        let (s, n) := s.del ids
        let db := db.setData (arg a 1) (.stream s)
        -- `drop_if_empty` keeps streams; it only looks the key up.
        (.value (.integer n), if 0 < n then ctx.lookup (arg a 1) db else db)

def xtrim (ctx : Ctx) (a : List Bytes) (db : Db) : Answer × Db :=
  parsed (parseAddTrim a false) db fun args =>
    if args.next ≠ a.length then refuse "ERR syntax error" db
    else
      (ctx.getStream (arg a 1) db).andThen fun found db =>
        match found with
        | none => (.value (.integer 0), db)
        | some s =>
          let (s, n) := s.trim args.trim
          let db := db.setData (arg a 1) (.stream s)
          (.value (.integer n), if 0 < n then ctx.lookup (arg a 1) db else db)

def setIdOptions : List Bytes → Option Nat × Option Id → Except Value (Option Nat × Option Id)
  | [], given => .ok given
  | [_], _ => syntaxError
  | x :: y :: rest, given =>
    if eqIc x "entriesadded" then do
      let n ← intArg y
      if n < 0 then fail "ERR entries_added must be positive"
      else setIdOptions rest (some n.toNat, given.2)
    else if eqIc x "maxdeletedid" then do
      let id ← parseId y 0 true
      setIdOptions rest (given.1, some id)
    else syntaxError

namespace Stream

def setId (s : Stream) (id : Id) (entriesAdded : Option Nat) (maxDeleted : Option Id) :
    Except Value Stream :=
  if s.entries.lastKey?.any (fun last => decide (id < last)) then
    fail "ERR The ID specified in XSETID is smaller than the target stream top item"
  else if !s.entries.isEmpty && entriesAdded.any (fun n => decide (n < s.len)) then
    fail "ERR The entries_added specified in XSETID is smaller than the target stream length"
  else if maxDeleted = none ∧ id < s.maxDeletedId then
    fail "ERR The ID specified in XSETID is smaller than current max_deleted_entry_id"
  else
    .ok
      { s with
        maxDeletedId := maxDeleted.getD s.maxDeletedId
        lastId := id
        entriesAdded := entriesAdded.getD s.entriesAdded }

end Stream

def setIdArgs (a : List Bytes) : Except Value (Id × Option Nat × Option Id) := do
  let id ← parseId (arg a 2) 0 true
  let options ← setIdOptions (a.drop 3) (none, none)
  if options.2.any (fun greatest => decide (id < greatest)) then
    fail "ERR The ID specified in XSETID is smaller than the provided max_deleted_entry_id"
  else .ok (id, options)

def xsetid (ctx : Ctx) (a : List Bytes) (db : Db) : Answer × Db :=
  parsed (setIdArgs a) db fun args =>
    (ctx.getStream (arg a 1) db).andThen fun found db =>
      match found with
      | none => refuse "ERR no such key" db
      | some s =>
        parsed (s.setId args.1 args.2.1 args.2.2) db fun s =>
          (.value .ok, db.setData (arg a 1) (.stream s))

end NoidaDb.Redis
