/-
SCAN, HSCAN, SSCAN and ZSCAN.

The cursor is a position in the list that each call makes anew.
-/

import NoidaDb.Lib.Scans
import NoidaDb.Redis.Glob
import NoidaDb.Redis.StreamCommands

namespace NoidaDb.Redis

open Lib

namespace Data

/-- `type_name`. -/
def typeName : Data → String
  | .str _ => "string"
  | .hash _ => "hash"
  | .list _ => "list"
  | .set _ => "set"
  | .zset _ => "zset"
  | .stream _ => "stream"

end Data

namespace SetData

def members : SetData → List Bytes
  | .ints v => v.map showInt
  | .pack items => items
  | .hash items => items

def isHash : SetData → Bool
  | .hash _ => true
  | _ => false

end SetData

namespace Db

def expiredAt (db : Db) (key : Bytes) (now : Nat) : Bool :=
  (db.map.get key).any (fun e => e.isExpired now)

def purgeExpired (db : Db) (now : Nat) : Db :=
  if db.lazyExpireOnly then db
  else { db with map := db.map.filter (fun key => !db.expiredAt key now) }

def expiredKeys (db : Db) (now : Nat) : List Bytes :=
  db.map.keys.filter (fun key => db.expiredAt key now)

def liveKeys (db : Db) (now : Nat) : List Bytes :=
  db.map.keys.filter (fun key => !db.expiredAt key now)

end Db

namespace Ctx

def getHash (ctx : Ctx) (key : Bytes) (db : Db) : Outcome (Option Hash) :=
  let db := ctx.lookup key db
  match db.map.get key with
  | none => (.ok none, db)
  | some { data := .hash h, .. } => (.ok (some h), db)
  | some _ => (.error (.error wrongType), db)

def getSet (ctx : Ctx) (key : Bytes) (db : Db) : Outcome (Option SetData) :=
  let db := ctx.lookup key db
  match db.map.get key with
  | none => (.ok none, db)
  | some { data := .set s, .. } => (.ok (some s), db)
  | some _ => (.error (.error wrongType), db)

def getZset (ctx : Ctx) (key : Bytes) (db : Db) : Outcome (Option Zset) :=
  let db := ctx.lookup key db
  match db.map.get key with
  | none => (.ok none, db)
  | some { data := .zset z, .. } => (.ok (some z), db)
  | some _ => (.error (.error wrongType), db)

end Ctx

structure ScanArgs where
  cursor : Nat
  count : Nat := 10
  pattern : Option Bytes := none
  typeFilter : Option Bytes := none
deriving DecidableEq, Repr

namespace ScanArgs

def matchesItem (args : ScanArgs) (item : Bytes) : Bool :=
  args.pattern.all (fun p => Glob.matchesKey p item)

end ScanArgs

def scanOptions (allowType : Bool) : List Bytes → ScanArgs → Except Value ScanArgs
  | [], args => .ok args
  | [_], _ => syntaxError
  | x :: y :: rest, args =>
    if eqIc x "count" then do
      let n ← intArg y
      if n < 1 then syntaxError else scanOptions allowType rest { args with count := n.toNat }
    else if eqIc x "match" then scanOptions allowType rest { args with pattern := some y }
    else if eqIc x "type" && allowType then
      scanOptions allowType rest { args with typeFilter := some (y.map toAsciiLower) }
    else syntaxError

/-- `parse_scan`. -/
def parseScan (a : List Bytes) (i : Nat) (allowType : Bool) : Except Value ScanArgs :=
  match parseU64 (arg a i) with
  | none => fail "ERR invalid cursor"
  | some cursor => scanOptions allowType (a.drop (i + 1)) { cursor := cursor.val }

def scanReply (next : Nat) (items : List Value) : Answer :=
  .value (.array [.bulk (showNat next), .array items])

def scanned {α : Type} (big : Bool) (xs : List α) (args : ScanArgs) : List α :=
  if big then page xs args.cursor args.count else xs

def scanNext {α : Type} (big : Bool) (xs : List α) (args : ScanArgs) : Nat :=
  if big then nextPage xs.length args.cursor args.count else 0

def typeMatches (args : ScanArgs) (db : Db) (key : Bytes) (now : Nat) : Bool :=
  args.typeFilter.all (fun t =>
    decide ((db.find key now).map (fun e => ascii e.data.typeName) = some t))

def scan (ctx : Ctx) (a : List Bytes) (db : Db) : Answer × Db :=
  parsed (parseScan a 1 true) db fun args =>
    let now := ctx.now.val
    let db := (db.expiredKeys now).foldl (fun db key => db.dropExpired key now) db
    let all := db.liveKeys now
    let db := db.purgeExpired now
    let out := (scanned true all args).filter (fun key =>
      args.matchesItem key && typeMatches args db key now)
    (scanReply (scanNext true all args) (out.map .bulk), db)

def hscan (ctx : Ctx) (a : List Bytes) (db : Db) : Answer × Db :=
  parsed (parseScan a 2 false) db fun args =>
    (ctx.getHash (arg a 1) db).andThen fun found db =>
      match found with
      | none => (scanReply 0 [], db)
      | some h =>
        let out := (scanned h.big h.map args).filter (fun e => args.matchesItem e.1)
        (scanReply (scanNext h.big h.map args) (out.flatMap (fun e => [.bulk e.1, .bulk e.2])), db)

def sscan (ctx : Ctx) (a : List Bytes) (db : Db) : Answer × Db :=
  parsed (parseScan a 2 false) db fun args =>
    (ctx.getSet (arg a 1) db).andThen fun found db =>
      match found with
      | none => (scanReply 0 [], db)
      | some s =>
        let out := (scanned s.isHash s.members args).filter args.matchesItem
        (scanReply (scanNext s.isHash s.members args) (out.map .bulk), db)

def zscan (d2string : F64 → Bytes) (ctx : Ctx) (a : List Bytes) (db : Db) : Answer × Db :=
  parsed (parseScan a 2 false) db fun args =>
    (ctx.getZset (arg a 1) db).andThen fun found db =>
      match found with
      | none => (scanReply 0 [], db)
      | some z =>
        let out := (scanned z.big z.items args).filter (fun e => args.matchesItem e.2)
        (scanReply (scanNext z.big z.items args)
          (out.flatMap (fun e => [.bulk e.2, .bulk (d2string e.1)])), db)

end NoidaDb.Redis
