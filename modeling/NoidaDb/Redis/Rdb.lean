/-
The serialization of values that DUMP writes and RESTORE reads.

How a text is read as a double is a parameter.
-/

import NoidaDb.Lib.ByteOrder
import NoidaDb.Lib.Readers
import NoidaDb.Redis.Collections

namespace NoidaDb.Redis

open Lib

namespace F64

def nan : F64 := ⟨0x7FF8000000000000⟩

def infinity : F64 := ⟨0x7FF0000000000000⟩

def negInfinity : F64 := ⟨0xFFF0000000000000⟩

def toLeBytes (x : F64) : Bytes := leBytes 8 x.bits.val

def ofLeBytes (bs : Bytes) : F64 := ⟨Fin.ofNat (2 ^ 64) (ofLe bs)⟩

end F64

/-- `parse::<i64>`, which takes signs and leading zeros. -/
def parseI64 (b : Bytes) : Option Int :=
  let neg := b.head? == some 45
  let digits := if neg || b.head? == some 43 then b.tail else b
  if digits ≠ [] ∧ digits.all isAsciiDigit then
    let n : Int := if neg then -(valueOf digits : Int) else valueOf digits
    if i64Min ≤ n ∧ n ≤ i64Max then some n else none
  else none

namespace Rdb

/-- `RDB_VERSION`. -/
def version : Nat := 11

def typeString : UInt8 := 0

def typeList : UInt8 := 1

def typeSet : UInt8 := 2

def typeZset : UInt8 := 3

def typeHash : UInt8 := 4

def typeZset2 : UInt8 := 5

def typeListZiplist : UInt8 := 10

def typeSetIntset : UInt8 := 11

def typeZsetZiplist : UInt8 := 12

def typeHashZiplist : UInt8 := 13

def typeListQuicklist : UInt8 := 14

def typeHashListpack : UInt8 := 16

def typeZsetListpack : UInt8 := 17

def typeListQuicklist2 : UInt8 := 18

def typeSetListpack : UInt8 := 20

/-- `POLY`. -/
def poly : BitVec 64 := 0x95ac9329ac4bc9b5

def crcBit (crc : BitVec 64) : BitVec 64 :=
  if crc.getLsbD 0 then (crc >>> 1) ^^^ poly else crc >>> 1

def crcByte (crc : BitVec 64) (b : UInt8) : BitVec 64 :=
  Nat.repeat crcBit 8 (crc ^^^ BitVec.ofNat 64 b.toNat)

def crc64 (data : Bytes) : Nat := (data.foldl crcByte 0).toNat

theorem crc64_lt (data : Bytes) : crc64 data < 256 ^ 8 := (data.foldl crcByte 0).isLt

example : crc64 (ascii "123456789") = 0xe9c6d914c4b8d9ca := by decide +kernel

/-- `seal`: appends the version and the checksum. -/
def sealPayload (payload : Bytes) : Bytes :=
  let payload := payload ++ leBytes 2 version
  payload ++ leBytes 8 (crc64 payload)

/-- The body of a sealed payload of a known version, whose checksum is right, 0, or not looked
at. -/
def unsealWith (payload : Bytes) (checkCrc : Bool) : Option Bytes :=
  if payload.length < 10 then none
  else
    let n := payload.length
    if version < ofLe ((payload.drop (n - 10)).take 2) then none
    else
      let crc := ofLe (payload.drop (n - 8))
      if checkCrc && crc != 0 && crc != crc64 (payload.take (n - 8)) then none
      else some (payload.take (n - 10))

/-- `unseal`. -/
def unsealPayload (payload : Bytes) : Option Bytes := unsealWith payload true

def writeLen (len : Nat) : Bytes :=
  if len < 64 then [len.toUInt8]
  else if len < 16384 then [(0x40 + len / 256).toUInt8, (len % 256).toUInt8]
  else if len ≤ 0xFFFFFFFF then 0x80 :: beBytes 4 len
  else 0x81 :: beBytes 8 len

def writeInt (v : Int) : Option Bytes :=
  if -2 ^ 7 ≤ v ∧ v < 2 ^ 7 then some (0xC0 :: leBytes 1 (twos 8 v))
  else if -2 ^ 15 ≤ v ∧ v < 2 ^ 15 then some (0xC1 :: leBytes 2 (twos 16 v))
  else if -2 ^ 31 ≤ v ∧ v < 2 ^ 31 then some (0xC2 :: leBytes 4 (twos 32 v))
  else none

def canonicalInt (s : Bytes) : Option Int :=
  if s.length ≤ 11 then (parseI64 s).filter (fun v => showInt v == s) else none

def writeString (s : Bytes) : Bytes :=
  ((canonicalInt s).bind writeInt).getD (writeLen s.length ++ s)

def dump : Data → Option Bytes
  | .str s => some (sealPayload (typeString :: writeString s))
  | .list l => some (sealPayload (typeList :: (writeLen l.length ++ l.flatMap writeString)))
  | .set s =>
    some (sealPayload (typeSet :: (writeLen s.members.length ++ s.members.flatMap writeString)))
  | .zset z =>
    some (sealPayload (typeZset2 :: (writeLen z.items.length
      ++ z.items.reverse.flatMap (fun e => writeString e.2 ++ e.1.toLeBytes))))
  | .hash h =>
    some (sealPayload (typeHash :: (writeLen h.map.length
      ++ h.map.flatMap (fun e => writeString e.1 ++ writeString e.2))))
  | .stream _ => none

open Reader

def lenOrEnc : Reader UInt8 (Except Nat Nat) := do
  let b ← next
  match b.toNat / 64 with
  | 0 => pure (.ok (b.toNat % 64))
  | 1 => do
      let low ← next
      pure (.ok (b.toNat % 64 * 256 + low.toNat))
  | 2 =>
    if b = 0x80 then do
      let bs ← take 4
      pure (.ok (ofBe bs))
    else if b = 0x81 then do
      let bs ← take 8
      pure (.ok (ofBe bs))
    else failure
  | _ => pure (.error (b.toNat % 64))

def len : Reader UInt8 Nat := do
  match ← lenOrEnc with
  | .ok n => pure n
  | .error _ => failure

def slice (b : Bytes) (start n : Nat) : Option Bytes :=
  if start + n ≤ b.length then some ((b.drop start).take n) else none

def copyBack (back : Nat) : Nat → Bytes → Bytes
  | 0, out => out
  | n + 1, out => copyBack back n (out ++ [out.getD (out.length - back) 0])

/-- The loop of `lzf_decompress`; the fuel is the length of the input, and each turn takes from
it. -/
def lzfLoop : Nat → Bytes → Bytes → Option Bytes
  | _, [], out => some out
  | 0, _, _ => none
  | fuel + 1, ctrl :: input, out =>
    let ctrl := ctrl.toNat
    if ctrl < 32 then
      (slice input 0 (ctrl + 1)).bind (fun run =>
        lzfLoop fuel (input.drop (ctrl + 1)) (out ++ run))
    else
      let extra := if ctrl / 32 = 7 then input.head?.map UInt8.toNat else some 0
      let input := if ctrl / 32 = 7 then input.tail else input
      match extra, input with
      | some extra, low :: input =>
        let back := ctrl % 32 * 256 + low.toNat + 1
        if out.length < back then none
        else lzfLoop fuel input (copyBack back (ctrl / 32 + extra + 2) out)
      | _, _ => none

def lzfDecompress (input : Bytes) (outLen : Nat) : Option Bytes :=
  (lzfLoop input.length input []).filter (fun out => out.length == outLen)

def string : Reader UInt8 Bytes := do
  match ← lenOrEnc with
  | .ok n => take n
  | .error 0 => do
      let bs ← take 1
      pure (showInt (ofTwos 8 (ofLe bs)))
  | .error 1 => do
      let bs ← take 2
      pure (showInt (ofTwos 16 (ofLe bs)))
  | .error 2 => do
      let bs ← take 4
      pure (showInt (ofTwos 32 (ofLe bs)))
  | .error 3 => do
      let clen ← len
      let n ← len
      let input ← take clen
      ofOption (lzfDecompress input n)
  | .error _ => failure

/-- `double_text`: a length byte, then a text, or one of three special scores. -/
def doubleText (parseF64 : Bytes → Option F64) : Reader UInt8 F64 := do
  let n ← next
  match n.toNat with
  | 253 => pure .nan
  | 254 => pure .infinity
  | 255 => pure .negInfinity
  | n => do
      let text ← take n
      ofOption (parseF64 text)

def intText (b : Bytes) (start width : Nat) : Option Bytes :=
  (slice b start width).map (fun raw => showInt (ofTwos (8 * width) (ofLe raw)))

def listpackEntry (blob : Bytes) : Option (Bytes × Nat) :=
  let b := (blob.headD 0).toNat
  if b < 0x80 then some (showNat b, 1)
  else if b < 0xC0 then
    let n := b % 64
    (slice blob 1 n).map (fun val => (val, 1 + n))
  else if b < 0xE0 then
    blob[1]?.map (fun low => (showInt (ofTwos 13 (b % 32 * 256 + low.toNat)), 2))
  else if b < 0xF0 then
    blob[1]?.bind (fun low =>
      let n := b % 16 * 256 + low.toNat
      (slice blob 2 n).map (fun val => (val, 2 + n)))
  else
    match b with
    | 0xF0 =>
      (slice blob 1 4).bind (fun raw =>
        let n := ofLe raw
        (slice blob 5 n).map (fun val => (val, 5 + n)))
    | 0xF1 => (intText blob 1 2).map (fun val => (val, 3))
    | 0xF2 => (intText blob 1 3).map (fun val => (val, 4))
    | 0xF3 => (intText blob 1 4).map (fun val => (val, 5))
    | 0xF4 => (intText blob 1 8).map (fun val => (val, 9))
    | _ => none

def backLen (encLen : Nat) : Nat :=
  if encLen ≤ 127 then 1
  else if encLen ≤ 16382 then 2
  else if encLen ≤ 2097150 then 3
  else if encLen ≤ 268435454 then 4
  else 5

def listpackLoop : Nat → Bytes → Option (List Bytes)
  | _, [] => some []
  | 0, _ => none
  | fuel + 1, b :: rest =>
    if b = 0xFF then some []
    else
      (listpackEntry (b :: rest)).bind (fun p =>
        (listpackLoop fuel ((b :: rest).drop (p.2 + backLen p.2))).map (fun vals => p.1 :: vals))

def listpack (blob : Bytes) : Option (List Bytes) := listpackLoop blob.length (blob.drop 6)

/-- The value of the first entry of a ziplist, after the length of the one before it, and its
size. -/
def ziplistEntry (blob : Bytes) : Option (Bytes × Nat) :=
  blob.head?.bind (fun b =>
    let b := b.toNat
    match b / 64 with
    | 0 =>
      let n := b % 64
      (slice blob 1 n).map (fun val => (val, 1 + n))
    | 1 =>
      blob[1]?.bind (fun low =>
        let n := b % 64 * 256 + low.toNat
        (slice blob 2 n).map (fun val => (val, 2 + n)))
    | 2 =>
      (slice blob 1 4).bind (fun raw =>
        let n := ofBe raw
        (slice blob 5 n).map (fun val => (val, 5 + n)))
    | _ =>
      match b with
      | 0xC0 => (intText blob 1 2).map (fun val => (val, 3))
      | 0xD0 => (intText blob 1 4).map (fun val => (val, 5))
      | 0xE0 => (intText blob 1 8).map (fun val => (val, 9))
      | 0xF0 => (intText blob 1 3).map (fun val => (val, 4))
      | 0xFE => (intText blob 1 1).map (fun val => (val, 2))
      | b => if 0xF1 ≤ b ∧ b ≤ 0xFD then some (showNat (b % 16 - 1), 1) else none)

def ziplistLoop : Nat → Bytes → Option (List Bytes)
  | _, [] => some []
  | 0, _ => none
  | fuel + 1, b :: rest =>
    if b = 0xFF then some []
    else
      let blob := (b :: rest).drop (if b = 0xFE then 5 else 1)
      (ziplistEntry blob).bind (fun p =>
        (ziplistLoop fuel (blob.drop p.2)).map (fun vals => p.1 :: vals))

def ziplist (blob : Bytes) : Option (List Bytes) := ziplistLoop blob.length (blob.drop 10)

def intset (blob : Bytes) : Option (List Bytes) :=
  (slice blob 0 4).bind (fun enc =>
    (slice blob 4 4).bind (fun n =>
      (List.range (ofLe n)).mapM (fun k =>
        if ofLe enc = 2 ∨ ofLe enc = 4 ∨ ofLe enc = 8 then
          intText blob (8 + k * ofLe enc) (ofLe enc)
        else none)))

def pairs : List Bytes → Option (List (Bytes × Bytes))
  | [] => some []
  | [_] => none
  | a :: b :: rest => (pairs rest).map (fun out => (a, b) :: out)

inductive Items where
  | str (s : Bytes)
  | list (items : List Bytes)
  | set (items : List Bytes)
  | zset (items : List (Bytes × F64))
  | hash (items : List (Bytes × Bytes))

def scored (parseF64 : Bytes → Option F64) (items : List Bytes) :
    Option (List (Bytes × F64)) :=
  (pairs items).bind (fun ps =>
    ps.mapM (fun p => (parseF64 p.2).map (fun score => (p.1, score))))

def scoredMember : Reader UInt8 (Bytes × F64) := do
  let m ← string
  let bits ← take 8
  pure (m, F64.ofLeBytes bits)

def fieldValue : Reader UInt8 (Bytes × Bytes) := do
  let k ← string
  let v ← string
  pure (k, v)

def counted {α : Type} (element : Reader UInt8 α) : Reader UInt8 (List α) := do
  let n ← len
  many element n

def blob {α : Type} (decode : Bytes → Option α) : Reader UInt8 α := do
  let b ← string
  ofOption (decode b)

def items (parseF64 : Bytes → Option F64) (ty : UInt8) : Reader UInt8 Items :=
  if ty = typeString then Items.str <$> string
  else if ty = typeList then Items.list <$> counted string
  else if ty = typeSet then Items.set <$> counted string
  else if ty = typeZset then
    Items.zset <$> counted (do
      let m ← string
      let score ← doubleText parseF64
      pure (m, score))
  else if ty = typeZset2 then Items.zset <$> counted scoredMember
  else if ty = typeHash then Items.hash <$> counted fieldValue
  else if ty = typeListZiplist then Items.list <$> blob ziplist
  else if ty = typeSetIntset then Items.set <$> blob intset
  else if ty = typeSetListpack then Items.set <$> blob listpack
  else if ty = typeZsetZiplist then
    Items.zset <$> blob (fun b => (ziplist b).bind (scored parseF64))
  else if ty = typeZsetListpack then
    Items.zset <$> blob (fun b => (listpack b).bind (scored parseF64))
  else if ty = typeHashZiplist then Items.hash <$> blob (fun b => (ziplist b).bind pairs)
  else if ty = typeHashListpack then Items.hash <$> blob (fun b => (listpack b).bind pairs)
  else if ty = typeListQuicklist then
    (fun chunks : List (List Bytes) => Items.list chunks.flatten) <$> counted (blob ziplist)
  else if ty = typeListQuicklist2 then
    (fun chunks : List (List Bytes) => Items.list chunks.flatten) <$> counted (do
      let container ← len
      if container = 1 then (fun b => [b]) <$> string else blob listpack)
  else failure

def zsetOf (lim : Limits) : List (Bytes × F64) → Zset → Option Zset
  | [], z => some z
  | (m, score) :: rest, z => (z.insert m score lim).bind (fun p => zsetOf lim rest p.1)

def setOf (lim : Limits) (items : List Bytes) : SetData :=
  items.foldl (fun s m => s.add m lim) (SetData.create (items.headD []) items.length lim)

def hashOf (lim : Limits) (items : List (Bytes × Bytes)) : Hash :=
  items.foldl (fun h p => h.insert p.1 p.2 lim) {}

def build (setLim zsetLim hashLim : Limits) : Items → Option Data
  | .str s => some (.str s)
  | .list items => some (.list items)
  | .set items => some (.set (setOf setLim items))
  | .zset items => (zsetOf zsetLim items {}).map Data.zset
  | .hash items => some (.hash (hashOf hashLim items))

inductive Loaded where
  | value (v : Data)
  | refused
  | aborted

def load (parseF64 : Bytes → Option F64) (body : Bytes) (setLim zsetLim hashLim : Limits) :
    Loaded :=
  match (do let ty ← next; items parseF64 ty : Reader UInt8 Items) body with
  | none => .refused
  | some (read, rest) =>
    match build setLim zsetLim hashLim read with
    | none => .aborted
    | some v => if rest = [] then .value v else .refused

end Rdb

end NoidaDb.Redis
