/-
The commands that count their arguments, as they read them by position.
-/

import NoidaDb.Lib.Builds
import NoidaDb.Redis.Scans
import NoidaDb.Redis.StreamGroups

namespace NoidaDb.Redis

open Lib Lib.Run

/-- A command's arguments, its name first; a `Vec` cannot hold more of them. -/
structure Args where
  items : List Bytes
  fits : items.length < 2 ^ 63

namespace Args

def length (a : Args) : Nat := a.items.length

end Args

structure Readings where
  /-- `timeout_secs_arg`. -/
  timeoutSecs : Bytes → U64 → Except Value Nat
  parseDouble : Bytes → Option F64
  d2string : F64 → Bytes

/-- `range_long`. -/
def rangeLong (b : Bytes) (min max : Int) (message : String) : Except Value Int :=
  match parseInt b with
  | none => fail message
  | some n => if n < min ∨ max < n then fail message else .ok n

/-- `positive_long`. -/
def positiveLong (b : Bytes) (message : String) : Except Value Int := rangeLong b 0 i64Max message

namespace Positions

variable (build : Build)

/-- `j + 1 < a.len()`. -/
def followed (a : Args) (j : Nat) : Run Value Bool := do
  let next ← position build (j + 1 : Nat)
  .ok (next < a.length)

/-- `eq_ic(&a[j], word)`. -/
def isWord (a : Args) (j : Nat) (word : String) : Run Value Bool := do
  let x ← item a.items j
  .ok (eqIc x word)

/-- A round of the loop over `COUNT n`. -/
def countOption (a : Args) (count : Option Int) (j : Nat) : Run Value (Option Int × Nat) := do
  let counts ←
    both (.ok count.isNone) (both (isWord a j "count") (followed build a j))
  if counts then
    let j ← position build (j + 1 : Nat)
    let n ← answered (rangeLong (← item a.items j) 1 i64Max "ERR count should be greater than 0")
    .ok (some n, ← position build (j + 1 : Nat))
  else answered syntaxError

/-- `mpop_args`: `numkeys key... where [COUNT n]` from `a[i]`. -/
def mpopArgs {W : Type} (whereArg : Bytes → Except Value W) (a : Args) (i : Nat) :
    Run Value (List Bytes × W × Nat) := do
  let first ← item a.items i
  let numkeys ← answered (rangeLong first 1 i64Max "ERR numkeys should be greater than 0")
  let whereIdx ← result build i64 (i + numkeys)
  let whereIdx ← result build i64 (whereIdx + 1)
  if (a.length : Int) ≤ whereIdx then answered syntaxError
  else
    let w := (usize.wrap whereIdx).toNat
    let way ← answered (whereArg (← item a.items w))
    let count ← loop a.length (countOption build a) a.length none (← position build (w + 1 : Nat))
    let keys ← slice a.items (← position build (i + 1 : Nat)) w
    .ok (keys, way, (count.getD 1).toNat)

inductive ListEnd where
  | head
  | tail
deriving DecidableEq, Repr

def endArg (b : Bytes) : Except Value ListEnd :=
  if eqIc b "right" then .ok .tail
  else if eqIc b "left" then .ok .head
  else syntaxError

def maxArg (b : Bytes) : Except Value Bool :=
  if eqIc b "min" then .ok false
  else if eqIc b "max" then .ok true
  else syntaxError

def timeoutArg (r : Readings) (now : U64) (a : Args) : Run Value Nat := do
  answered (r.timeoutSecs (← item a.items 1) now)

def lmpop (a : Args) : Run Value (List Bytes × ListEnd × Nat) := mpopArgs build endArg a 1

def blmpop (r : Readings) (now : U64) (a : Args) :
    Run Value ((List Bytes × ListEnd × Nat) × Nat) := do
  let request ← mpopArgs build endArg a 2
  .ok (request, ← timeoutArg r now a)

def zmpop (a : Args) : Run Value (List Bytes × Bool × Nat) := mpopArgs build maxArg a 1

def bzmpop (r : Readings) (now : U64) (a : Args) :
    Run Value ((List Bytes × Bool × Nat) × Nat) := do
  let request ← mpopArgs build maxArg a 2
  .ok (request, ← timeoutArg r now a)

inductive SetOp where
  | union
  | inter
  | diff
deriving DecidableEq, Repr

inductive Aggregate where
  | sum
  | min
  | max
deriving DecidableEq, Repr

def one : F64 := ⟨0x3FF0000000000000⟩

structure SetOpArgs where
  weights : List F64
  aggregate : Aggregate := .sum
  withscores : Bool := false
  cardLimit : Nat := 0

def sourceOf (ctx : Ctx) (db : Db) (key : Bytes) : Except Value (Option (List (F64 × Bytes))) :=
  match db.find key ctx.now.val with
  | none => .ok none
  | some { data := .zset z, .. } => .ok (some z.items)
  | some { data := .set s, .. } => .ok (some (s.members.map (fun m => (one, m))))
  | some _ => .error wrongType

def takeWeights (r : Readings) (a : Args) : Nat → Nat → Run Value (List F64 × Nat)
  | 0, j => .ok ([], j)
  | n + 1, j => do
      match r.parseDouble (← item a.items j) with
      | none => answered (fail "ERR weight value is not a float")
      | some w =>
        let rest ← takeWeights r a n (← position build (j + 1 : Nat))
        .ok (w :: rest.1, rest.2)

def aggregateArg (b : Bytes) : Except Value Aggregate :=
  if eqIc b "sum" then .ok .sum
  else if eqIc b "min" then .ok .min
  else if eqIc b "max" then .ok .max
  else syntaxError

def setOpOption (r : Readings) (op : SetOp) (stored cardOnly : Bool) (setnum : Nat) (a : Args)
    (args : SetOpArgs) (j : Nat) : Run Value (SetOpArgs × Nat) := do
  let remaining ← position build ((a.length : Int) - j)
  let scored := op != .diff && !cardOnly
  if ← both (.ok (scored && decide (setnum < remaining))) (isWord a j "weights") then
    let taken ← takeWeights build r a setnum (← position build (j + 1 : Nat))
    .ok ({ args with weights := taken.1 }, taken.2)
  else if ← both (.ok (scored && decide (2 ≤ remaining))) (isWord a j "aggregate") then
    let aggregate ← answered (aggregateArg (← item a.items (← position build (j + 1 : Nat))))
    .ok ({ args with aggregate := aggregate }, ← position build (j + 2 : Nat))
  else if ← both (.ok (!stored && !cardOnly)) (isWord a j "withscores") then
    .ok ({ args with withscores := true }, ← position build (j + 1 : Nat))
  else if ← both (.ok (cardOnly && decide (2 ≤ remaining))) (isWord a j "limit") then
    let raw ← item a.items (← position build (j + 1 : Nat))
    let limit ← answered (positiveLong raw "ERR LIMIT can't be negative")
    let j ← position build (j + 1 : Nat)
    .ok ({ args with cardLimit := limit.toNat }, ← position build (j + 1 : Nat))
  else answered syntaxError

/-- The arguments of `zunionInterDiffGenericCommand`; the number of keys is at `idx`. -/
def zsetop (r : Readings) (ctx : Ctx) (db : Db) (idx : Nat) (op : SetOp) (stored cardOnly : Bool)
    (name : String) (a : Args) : Run Value (List (Option (List (F64 × Bytes))) × SetOpArgs) := do
  let setnum ← answered (intArg (← item a.items idx))
  if setnum < 1 then
    answered (fail ("ERR at least 1 input key is needed for '" ++ name ++ "' command"))
  else
    let room ← position build ((a.length : Int) - idx)
    let room ← position build ((room : Int) - (1 : Nat))
    if (room : Int) < setnum then answered syntaxError
    else
      let setnum := setnum.toNat
      let first ← position build (idx + 1 : Nat)
      let stop ← position build (first + setnum : Nat)
      let srcs ← answered ((← slice a.items first stop).mapM (sourceOf ctx db))
      let args ←
        loop a.length (setOpOption build r op stored cardOnly setnum a) a.length
          { weights := List.replicate setnum one } stop
      .ok (srcs, args)

/-- A round of the loop over `LIMIT n`. -/
def limitOption (a : Args) (_limit : Nat) (j : Nat) : Run Value (Nat × Nat) := do
  if ← both (isWord a j "limit") (followed build a j) then
    let j ← position build (j + 1 : Nat)
    let limit ← answered (positiveLong (← item a.items j) "ERR LIMIT can't be negative")
    .ok (limit.toNat, ← position build (j + 1 : Nat))
  else answered syntaxError

def sintercard (a : Args) : Run Value (List Bytes × Nat) := do
  let first ← item a.items 1
  let numkeys ← answered (rangeLong first 1 i64Max "ERR numkeys should be greater than 0")
  let room ← result build i64 ((a.length : Int) - 2)
  if room < numkeys then
    answered (fail "ERR Number of keys can't be greater than number of args")
  else
    let stop ← position build (2 + numkeys.toNat : Nat)
    let limit ← loop a.length (limitOption build a) a.length 0 stop
    .ok (← slice a.items 2 stop, limit)

def scanOption (allowType : Bool) (a : Args) (args : ScanArgs) (j : Nat) :
    Run Value (ScanArgs × Nat) := do
  let hasValue ← followed build a j
  let x ← item a.items j
  if eqIc x "count" && hasValue then
    let n ← answered (intArg (← item a.items (← position build (j + 1 : Nat))))
    if n < 1 then answered syntaxError
    else .ok ({ args with count := n.toNat }, ← position build (j + 2 : Nat))
  else if eqIc x "match" && hasValue then
    let p ← item a.items (← position build (j + 1 : Nat))
    .ok ({ args with pattern := some p }, ← position build (j + 2 : Nat))
  else if eqIc x "type" && hasValue && allowType then
    let t ← item a.items (← position build (j + 1 : Nat))
    .ok ({ args with typeFilter := some (t.map toAsciiLower) }, ← position build (j + 2 : Nat))
  else answered syntaxError

/-- `parse_scan`. -/
def scanArgs (a : Args) (i : Nat) (allowType : Bool) : Run Value ScanArgs := do
  match parseU64 (← item a.items i) with
  | none => answered (fail "ERR invalid cursor")
  | some cursor =>
    loop a.length (scanOption build allowType a) a.length { cursor := cursor.val }
      (← position build (i + 1 : Nat))

def pageOf {α : Type} (big : Bool) (xs : List α) (args : ScanArgs) : Run Value (List α × Nat) := do
  let stop ←
    if big then (min · xs.length) <$> position build (args.cursor + args.count : Nat)
    else .ok xs.length
  let picked ← slice xs (if big then min args.cursor stop else 0) stop
  .ok (picked, if xs.length ≤ stop then 0 else stop)

def scanFound {α : Type} (found : Option (Bool × List α)) (args : ScanArgs)
    (reply : List α → List Value) (db : Db) : Run Value (Answer × Db) :=
  match found with
  | none => .ok (scanReply 0 [], db)
  | some (big, xs) => do
      let (picked, next) ← pageOf build big xs args
      .ok (scanReply next (reply picked), db)

def scan (ctx : Ctx) (a : Args) (db : Db) : Run Value (Answer × Db) := do
  let args ← scanArgs build a 1 true
  let now := ctx.now.val
  let db := (db.expiredKeys now).foldl (fun db key => db.dropExpired key now) db
  let after := db.purgeExpired now
  scanFound build (some (true, db.liveKeys now)) args
    (fun picked => (picked.filter (fun key =>
      args.matchesItem key && typeMatches args after key now)).map .bulk) after

/-- HSCAN, SSCAN and ZSCAN; `get` finds the collection. -/
def scanKey {C α : Type} (get : Ctx → Bytes → Db → Outcome (Option C)) (view : C → Bool × List α)
    (reply : ScanArgs → List α → List Value) (ctx : Ctx) (a : Args) (db : Db) :
    Run Value (Answer × Db) := do
  let args ← scanArgs build a 2 false
  match get ctx (← item a.items 1) db with
  | (.error e, db) => .ok (e, db)
  | (.ok found, db) => scanFound build (found.map view) args (reply args) db

def hscan : Ctx → Args → Db → Run Value (Answer × Db) :=
  scanKey build Ctx.getHash (fun h => (h.big, h.map)) (fun args picked =>
    (picked.filter (fun e => args.matchesItem e.1)).flatMap (fun e => [.bulk e.1, .bulk e.2]))

def sscan : Ctx → Args → Db → Run Value (Answer × Db) :=
  scanKey build Ctx.getSet (fun s => (s.isHash, s.members)) (fun args picked =>
    (picked.filter args.matchesItem).map .bulk)

def zscan (r : Readings) : Ctx → Args → Db → Run Value (Answer × Db) :=
  scanKey build Ctx.getZset (fun z => (z.big, z.items)) (fun args picked =>
    (picked.filter (fun e => args.matchesItem e.2)).flatMap
      (fun e => [.bulk e.2, .bulk (r.d2string e.1)]))

def readOption (isGroup : Bool) (a : Args) (args : ReadArgs) (i : Nat) :
    Run Value (ReadArgs × Nat) := do
  let more ← position build ((a.length : Int) - i)
  let more ← position build ((more : Int) - (1 : Nat))
  let x ← item a.items i
  if eqIc x "block" && decide (0 < more) then
    let raw ← item a.items (← position build (i + 1 : Nat))
    match parseInt raw with
    | none => answered (fail "ERR timeout is not an integer or out of range")
    | some ms => .ok ({ args with block := some ms }, ← position build (i + 2 : Nat))
  else if eqIc x "count" && decide (0 < more) then
    let n ← answered (intArg (← item a.items (← position build (i + 1 : Nat))))
    .ok ({ args with count := n.toNat }, ← position build (i + 2 : Nat))
  else if eqIc x "streams" && decide (0 < more) then
    let start ← position build (i + 1 : Nat)
    if (← position build ((a.length : Int) - start)) % 2 ≠ 0 then
      answered (fail ("ERR Unbalanced '" ++ (if isGroup then "xreadgroup" else "xread") ++
        "' list of streams: for each stream key an ID or '" ++ (if isGroup then ">" else "$") ++
        "' must be specified."))
    else .ok ({ args with streamsArg := start }, a.length)
  else if eqIc x "group" && decide (2 ≤ more) then
    if !isGroup then
      answered
        (fail "ERR The GROUP option is only supported by XREADGROUP. You called XREAD instead.")
    else
      let name ← item a.items (← position build (i + 1 : Nat))
      let consumer ← item a.items (← position build (i + 2 : Nat))
      .ok ({ args with group := some (name, consumer) }, ← position build (i + 3 : Nat))
  else if eqIc x "noack" then
    if !isGroup then
      answered
        (fail "ERR The NOACK option is only supported by XREADGROUP. You called XREAD instead.")
    else .ok ({ args with noack := true }, ← position build (i + 1 : Nat))
  else answered syntaxError

def readArgs (isGroup : Bool) (a : Args) : Run Value ReadArgs := do
  let args ← loop a.length (readOption build isGroup a) a.length {} 1
  if args.streamsArg = 0 then answered syntaxError
  else if isGroup && args.group.isNone then
    answered (fail "ERR Missing GROUP option for XREADGROUP")
  else .ok args

/-- `rewrite_ids`, from a position on. -/
def rewriteFrom (out : List Bytes) (start : Nat) : Nat → List Id → Run Value (List Bytes)
  | _, [] => .ok out
  | j, id :: ids => do
      let pos ← position build (start + j : Nat)
      let raw ← item out pos
      rewriteFrom (if raw = ascii "$" then out.set pos (fmtId id) else out) start (j + 1) ids

def waitFor (ctx : Ctx) (a : Args) (args : ReadArgs) (keys : List Bytes) (n : Nat) (ids : List Id) :
    Run Value Answer :=
  match args.block with
  | none => .ok (.value .nullArray)
  | some ms =>
    if ctx.denyBlocking then .ok (.value .nullArray)
    else do
      let deadline ← answered (timeoutMsArg ms ctx.now)
      let start ← position build (args.streamsArg + n : Nat)
      let rewritten ← rewriteFrom build a.items start 0 ids
      .ok (ctx.blockWithArgs .stream keys deadline rewritten)

/-- `xreadCommand`. -/
def readGeneric (isGroup : Bool) (ctx : Ctx) (a : Args) (db : Db) : Run Value (Answer × Db) := do
  let args ← readArgs build isGroup a
  let n := (← position build ((a.length : Int) - args.streamsArg)) / 2
  let stop ← position build (args.streamsArg + n : Nat)
  let keys ← slice a.items args.streamsArg stop
  let raws ← slice a.items stop a.length
  match readIds ctx isGroup args.group (keys.zip raws) db with
  | (.error e, db) => .ok (e, db)
  | (.ok ids, db) =>
    match readParts ctx args (keys.zip ids) db with
    | (.error e, db) => .ok (e, db)
    | (.ok parts, db) =>
      if parts.isEmpty then do .ok (← waitFor build ctx a args keys n ids, db)
      else .ok (.value (partsReply ctx.resp parts), db)

end Positions

end NoidaDb.Redis
