/-
Commands that set and tell when a key expires.

Deadlines are unsigned and the arithmetic on them is signed, in 64 bits each.
-/

import NoidaDb.Redis.Rdb
import NoidaDb.Redis.StreamAdds

namespace NoidaDb.Redis

open Lib

def InI64 (x : Int) : Prop := i64Min ≤ x ∧ x ≤ i64Max

instance (x : Int) : Decidable (InI64 x) := by unfold InI64; infer_instance

def wrapI64 (x : Int) : Int := x.bmod (2 ^ 64)

def asU64 (x : Int) : Nat := (x % 2 ^ 64).toNat

/-- `checked_add` and `checked_mul`, with the error for their overflow. -/
def checkedI64 {α : Type} (x : Int) (overflow : α) : Except α Int :=
  if InI64 x then .ok x else .error overflow

def invalidExpire (cmd : String) : Value :=
  .error ("ERR invalid expire time in '" ++ cmd ++ "' command")

def Db.setExpiry (db : Db) (key : Bytes) (deadline : Option Nat) : Db :=
  { db with map := db.map.update key (fun e => { e with expiresAt := deadline }) }

namespace Expiry

structure ExpireOpts where
  nx : Bool := false
  xx : Bool := false
  gt : Bool := false
  lt : Bool := false

def expireOpts : List Bytes → ExpireOpts → Except Value ExpireOpts
  | [], o => .ok o
  | opt :: rest, o =>
    let name := opt.map toAsciiLower
    if name = ascii "nx" then expireOpts rest { o with nx := true }
    else if name = ascii "xx" then expireOpts rest { o with xx := true }
    else if name = ascii "gt" then expireOpts rest { o with gt := true }
    else if name = ascii "lt" then expireOpts rest { o with lt := true }
    else fail ("ERR Unsupported option " ++ lossy opt)

/-- The options hold the key's deadline back from `deadline`. -/
def ExpireOpts.refuses (o : ExpireOpts) (current : Option Int) (deadline : Int) : Bool :=
  (o.nx && current.isSome) || (o.xx && current.isNone) ||
    (o.gt && current.all (fun c => deadline ≤ c)) || (o.lt && current.any (fun c => c ≤ deadline))

/-- The argument as a deadline: in seconds or milliseconds from `base` on. -/
def expireWhen (raw : Bytes) (base : Int) (seconds : Bool) (cmd : String) : Except Value Int := do
  let when ← intArg raw
  let when ← if seconds then checkedI64 (when * 1000) (invalidExpire cmd) else .ok when
  checkedI64 (when + base) (invalidExpire cmd)

/-- `expire_generic`. -/
def expireGeneric (ctx : Ctx) (a : List Bytes) (base : Int) (seconds : Bool) (cmd : String)
    (db : Db) : Answer × Db :=
  parsed (expireOpts (a.drop 3) {}) db fun o =>
    if o.nx && (o.xx || o.gt || o.lt) then
      refuse "ERR NX and XX, GT or LT options at the same time are not compatible" db
    else if o.gt && o.lt then
      refuse "ERR GT and LT options at the same time are not compatible" db
    else
      parsed (expireWhen (arg a 2) base seconds cmd) db fun deadline =>
        let now := asI64 ctx.now.val
        let db := ctx.lookup (arg a 1) db
        match db.map.get (arg a 1) with
        | none => (.value (.integer 0), db)
        | some entry =>
          if o.refuses (entry.expiresAt.map asI64) deadline then (.value (.integer 0), db)
          else if deadline ≤ now then (.value (.integer 1), db.remove (arg a 1))
          else
            (.value (.integer 1),
              (ctx.lookup (arg a 1) db).setExpiry (arg a 1) (some (asU64 deadline)))

def expire (ctx : Ctx) (a : List Bytes) (db : Db) : Answer × Db :=
  expireGeneric ctx a (asI64 ctx.now.val) true "expire" db

def pexpire (ctx : Ctx) (a : List Bytes) (db : Db) : Answer × Db :=
  expireGeneric ctx a (asI64 ctx.now.val) false "pexpire" db

def expireat (ctx : Ctx) (a : List Bytes) (db : Db) : Answer × Db :=
  expireGeneric ctx a 0 true "expireat" db

def pexpireat (ctx : Ctx) (a : List Bytes) (db : Db) : Answer × Db :=
  expireGeneric ctx a 0 false "pexpireat" db

/-- `ttl_generic`. -/
def ttlGeneric (ctx : Ctx) (key : Bytes) (millis absolute : Bool) (db : Db) : Answer × Db :=
  let db := db.dropExpired key ctx.now.val
  match db.map.get key with
  | none => (.value (.integer (-2)), db)
  | some entry =>
    match entry.expiresAt with
    | none => (.value (.integer (-1)), db)
    | some deadline =>
      let t :=
        if absolute then asI64 deadline
        else max (wrapI64 (asI64 deadline - asI64 ctx.now.val)) 0
      (.value (.integer (if millis then t else (wrapI64 (t + 500)).tdiv 1000)), db)

def ttl (ctx : Ctx) (a : List Bytes) (db : Db) : Answer × Db :=
  ttlGeneric ctx (arg a 1) false false db

def pttl (ctx : Ctx) (a : List Bytes) (db : Db) : Answer × Db :=
  ttlGeneric ctx (arg a 1) true false db

def expiretime (ctx : Ctx) (a : List Bytes) (db : Db) : Answer × Db :=
  ttlGeneric ctx (arg a 1) false true db

def pexpiretime (ctx : Ctx) (a : List Bytes) (db : Db) : Answer × Db :=
  ttlGeneric ctx (arg a 1) true true db

structure Exp where
  seconds : Bool
  /-- Counted from the clock. -/
  relative : Bool
deriving DecidableEq

def Exp.ofName (name : Bytes) : Option Exp :=
  if name = ascii "ex" then some ⟨true, true⟩
  else if name = ascii "px" then some ⟨false, true⟩
  else if name = ascii "exat" then some ⟨true, false⟩
  else if name = ascii "pxat" then some ⟨false, false⟩
  else none

structure ExtOpts where
  nx : Bool := false
  xx : Bool := false
  get : Bool := false
  keepttl : Bool := false
  persist : Bool := false
  exp : Option (Exp × Bytes) := none

def extOpts (isSet : Bool) : List Bytes → ExtOpts → Except Value ExtOpts
  | [], o => .ok o
  | raw :: rest, o =>
    let name := raw.map toAsciiLower
    if name = ascii "nx" ∧ isSet ∧ !o.xx then extOpts isSet rest { o with nx := true }
    else if name = ascii "xx" ∧ isSet ∧ !o.nx then extOpts isSet rest { o with xx := true }
    else if name = ascii "get" ∧ isSet then extOpts isSet rest { o with get := true }
    else if name = ascii "keepttl" ∧ isSet ∧ o.exp.isNone then
      extOpts isSet rest { o with keepttl := true }
    else if name = ascii "persist" ∧ !isSet ∧ o.exp.isNone then
      extOpts isSet rest { o with persist := true }
    else
      match Exp.ofName name, rest with
      | some kind, v :: rest =>
        if !o.keepttl ∧ !o.persist ∧ o.exp.all (fun e => e.1 = kind) then
          extOpts isSet rest { o with exp := some (kind, v) }
        else syntaxError
      | _, _ => syntaxError

def expireAt (now : Int) (kind : Exp) (n : Int) (cmd : String) : Except Value Int :=
  if n ≤ 0 ∨ (kind.seconds ∧ i64Max / 1000 < n) then .error (invalidExpire cmd)
  else
    let ms := if kind.seconds then n * 1000 else n
    if kind.relative then checkedI64 (ms + now) (invalidExpire cmd) else .ok ms

structure ExtArgs where
  opts : ExtOpts
  /-- Absolute expiry in unix ms. -/
  expireAt : Option Int

/-- `parse_ext`. -/
def parseExt (ctx : Ctx) (args : List Bytes) (isSet : Bool) (cmd : String) : Except Value ExtArgs := do
  let o ← extOpts isSet args {}
  match o.exp with
  | none => .ok { opts := o, expireAt := none }
  | some (kind, raw) => do
      let n ← intArg raw
      let ms ← expireAt (asI64 ctx.now.val) kind n cmd
      .ok { opts := o, expireAt := some ms }

def getStr (ctx : Ctx) (key : Bytes) (db : Db) : Outcome (Option Bytes) :=
  let db := ctx.lookup key db
  match db.map.get key with
  | none => (.ok none, db)
  | some { data := .str s, .. } => (.ok (some s), db)
  | some _ => (.error (.error wrongType), db)

/-- `opt_bulk`. -/
def optBulk (s : Option Bytes) : Value := (s.map Value.bulk).getD .null

def set (ctx : Ctx) (a : List Bytes) (db : Db) : Answer × Db :=
  let key := arg a 1
  parsed (parseExt ctx (a.drop 3) true "set") db fun o =>
    let old : Outcome (Option Value) :=
      if o.opts.get then
        match getStr ctx key db with
        | (.ok s, db) => (.ok (some (optBulk s)), db)
        | (.error e, db) => (.error e, db)
      else (.ok none, db)
    old.andThen fun old db =>
      let db := ctx.lookup key db
      let existing := (db.map.get key).map Entry.expiresAt
      if (o.opts.nx && existing.isSome) || (o.opts.xx && existing.isNone) then
        (.value (old.getD .null), db)
      else
        let expiresAt :=
          match o.expireAt with
          | some deadline => some (asU64 deadline)
          | none => if o.opts.keepttl then existing.join else none
        (.value (old.getD .ok),
          db.insert key { data := .str (arg a 2), expiresAt := expiresAt } ctx.wall.val)

def getex (ctx : Ctx) (a : List Bytes) (db : Db) : Answer × Db :=
  let key := arg a 1
  parsed (parseExt ctx (a.drop 2) false "getex") db fun o =>
    (getStr ctx key db).andThen fun found db =>
      match found with
      | none => (.value .null, db)
      | some s =>
        match o.expireAt with
        | some deadline =>
          if deadline ≤ asI64 ctx.now.val then (.value (.bulk s), db.remove key)
          else (.value (.bulk s), (ctx.lookup key db).setExpiry key (some (asU64 deadline)))
        | none =>
          if o.opts.persist then (.value (.bulk s), (ctx.lookup key db).setExpiry key none)
          else (.value (.bulk s), db)

structure RestoreOpts where
  replace : Bool := false
  absttl : Bool := false
  idle : Bool := false
  freq : Bool := false

def restoreOpts : List Bytes → RestoreOpts → Except Value RestoreOpts
  | [], o => .ok o
  | raw :: rest, o =>
    if eqIc raw "replace" then restoreOpts rest { o with replace := true }
    else if eqIc raw "absttl" then restoreOpts rest { o with absttl := true }
    else
      match rest with
      | [] => syntaxError
      | v :: rest =>
        if eqIc raw "idletime" ∧ !o.freq then do
          let n ← intArg v
          if n < 0 then fail "ERR Invalid IDLETIME value, must be >= 0"
          else restoreOpts rest { o with idle := true }
        else if eqIc raw "freq" ∧ !o.idle then do
          let n ← intArg v
          if 0 ≤ n ∧ n ≤ 255 then restoreOpts rest { o with freq := true }
          else fail "ERR Invalid FREQ value, must be >= 0 and <= 255"
        else syntaxError

/-- What RESTORE needs of the server: its configuration, and how texts become doubles. -/
structure Loader where
  skipChecksum : Bool
  setLimits : Limits
  zsetLimits : Limits
  hashLimits : Limits
  parseF64 : Bytes → Option F64

def restoreDeadline (now ttl : Nat) (absttl : Bool) : Option Nat :=
  if ttl = 0 then none else if absttl then some ttl else some ((now + ttl) % 2 ^ 64)

def restore (loader : Loader) (ctx : Ctx) (a : List Bytes) (db : Db) : Answer × Db :=
  let key := arg a 1
  let now := ctx.now.val
  parsed (intArg (arg a 2)) db fun ttl =>
    parsed (restoreOpts (a.drop 4) {}) db fun o =>
      if ttl < 0 then refuse "ERR Invalid TTL value, must be >= 0" db
      else
        let db := db.touch key now
        let live := (db.map.get key).isSome
        if live && !o.replace then refuse "BUSYKEY Target key name already exists." db
        else
          match Rdb.unsealWith (arg a 3) (!loader.skipChecksum) with
          | none => refuse "ERR DUMP payload version or checksum are wrong" db
          | some body =>
            match Rdb.load loader.parseF64 body loader.setLimits loader.zsetLimits
                loader.hashLimits with
            | .aborted => (.panic, db)
            | .refused => refuse "ERR Bad data format" db
            | .value data =>
              let expiresAt := restoreDeadline now ttl.toNat o.absttl
              let removed := if live then db.remove key else db
              if expiresAt.any (fun deadline => decide (deadline < now)) then
                (.value .ok, removed)
              else
                (.value .ok,
                  removed.insert key { data := data, expiresAt := expiresAt } ctx.wall.val)

end Expiry

end NoidaDb.Redis
