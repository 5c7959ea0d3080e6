/-
Stream ids, the operations on a stream and the operations on a consumer group.
-/

import NoidaDb.Redis.Data

namespace NoidaDb.Redis

open Lib

/-- `usize::MAX`. -/
def usizeMax : Nat := 2 ^ 64 - 1

def fmtId (id : Id) : Bytes := showNat id.ms.val ++ [45] ++ showNat id.seq.val

def invalidId {α : Type} : Except Value α :=
  fail "ERR Invalid stream ID specified as stream command argument"

def parseU64Or (raw : Bytes) : Except Value U64 :=
  match parseU64 raw with
  | some n => .ok n
  | none => invalidId

/-- `strict` refuses `-` and `+`; `missingSeq` is what an id without a sequence means. -/
def parseId (raw : Bytes) (missingSeq : U64) (strict : Bool) : Except Value Id :=
  if raw = [] then invalidId
  else if !strict && raw == ascii "-" then .ok .zero
  else if !strict && raw == ascii "+" then .ok .max
  else do
    let ms := raw.takeWhile (fun b => b != 45)
    let seq ← match raw.dropWhile (fun b => b != 45) with
      | [] => .ok missingSeq
      | _ :: seq => if seq == ascii "*" then invalidId else parseU64Or seq
    let ms ← parseU64Or ms
    .ok ⟨ms, seq⟩

def parseRangeId (raw : Bytes) (missingSeq : U64) : Except Value (Id × Bool) :=
  if decide (1 < raw.length) && raw.head? == some 40 then
    (parseId raw.tail missingSeq true).map (fun id => (id, true))
  else (parseId raw missingSeq false).map (fun id => (id, false))

def nextId (id : Id) : Option Id :=
  if id.seq = Id.maxU64 then
    if id.ms = Id.maxU64 then none else some ⟨id.ms + 1, 0⟩
  else some ⟨id.ms, id.seq + 1⟩

def prevId (id : Id) : Option Id :=
  if id.seq = 0 then
    if id.ms = 0 then none else some ⟨id.ms - 1, Id.maxU64⟩
  else some ⟨id.ms, id.seq - 1⟩

inductive Trim where
  | none
  | maxLen (n : Int)
  | minId (id : Id)
deriving DecidableEq, Repr

namespace Stream

def len (s : Stream) : Nat := s.entries.size

def isEmpty (s : Stream) : Bool := s.entries.isEmpty

def lastValidId (s : Stream) : Id := s.entries.lastKey?.getD .zero

def firstId (s : Stream) : Id := s.entries.firstKey?.getD .zero

def removeEntry (s : Stream) (id : Id) : Stream :=
  { s with
    entries := s.entries.erase id
    maxDeletedId := if s.maxDeletedId < id then id else s.maxDeletedId }

def victims (s : Stream) (how : Trim) : List Id :=
  match how with
  | .none => []
  | .maxLen n => s.entries.keys.take (s.entries.size - n.toNat)
  | .minId least => s.entries.keys.filter (fun id => decide (id < least))

/-- `streamTrim`, always exact. -/
def trim (s : Stream) (how : Trim) : Stream × Nat :=
  ((s.victims how).foldl removeEntry s, (s.victims how).length)

def del (s : Stream) : List Id → Stream × Nat
  | [] => (s, 0)
  | id :: ids =>
    if s.entries.contains id then
      let (s, n) := del (s.removeEntry id) ids
      (s, n + 1)
    else del s ids

/-- `streamRangeHasTombstones`. -/
def hasTombstones (s : Stream) (start : Id) : Bool :=
  !(s.isEmpty || s.maxDeletedId == .zero) && decide (start ≤ s.maxDeletedId)

/-- `streamEstimateDistanceFromFirstEverEntry`. -/
def estimateEntriesRead (s : Stream) (id : Id) : Option Int :=
  if s.entriesAdded = 0 then some 0
  else if s.isEmpty && decide (id ≤ s.lastId) then some s.entriesAdded
  else if id != .zero && decide (id < s.maxDeletedId) then none
  else if id = s.lastId then some s.entriesAdded
  else if s.lastId < id then none
  else
    let first := s.firstId
    if s.maxDeletedId == .zero || decide (s.maxDeletedId < first) then
      if id < first then some (s.entriesAdded - s.len)
      else if id = first then some (s.entriesAdded - s.len + 1)
      else none
    else none

def lag (s : Stream) (g : Group) : Option Int :=
  let first := s.firstId
  if s.entriesAdded = 0 || s.isEmpty then some 0
  else if g.lastId < first ∧ s.maxDeletedId < first then some s.len
  else match g.entriesRead.filter (fun _ => !s.hasTombstones g.lastId) with
    | some read => some (s.entriesAdded - read)
    | none => (s.estimateEntriesRead g.lastId).map (fun read => s.entriesAdded - read)

def setGroup (s : Stream) (name : Bytes) (g : Group) : Stream :=
  { s with groups := s.groups.insert name g }

end Stream

namespace Group

def consumer (g : Group) (name : Bytes) (now : Nat) (change : Consumer → Consumer) : Group :=
  let c := (g.consumers.get name).getD { seenTime := now, activeTime := now }
  { g with consumers := g.consumers.insert name (change c) }

def release (g : Group) (name : Bytes) (id : Id) : Group :=
  { g with
    consumers := g.consumers.update name (fun c => { c with pending := c.pending.erase id }) }

def hold (g : Group) (name : Bytes) (id : Id) (now : Nat) : Group :=
  g.consumer name now (fun c => { c with pending := c.pending.insert id () })

def takeFrom (g : Group) (id : Id) (consumer : Bytes) : Group :=
  match g.pending.get id with
  | some nack => if nack.consumer ≠ consumer then g.release nack.consumer id else g
  | none => g

def deliver (g : Group) (id : Id) (consumer : Bytes) (now : Nat) : Group :=
  let g := g.takeFrom id consumer
  let nack := { consumer := consumer, deliveryTime := now, deliveryCount := 1 : Nack }
  { g with pending := g.pending.insert id nack }.hold consumer id now

def forget (g : Group) (id : Id) : Group :=
  match g.pending.get id with
  | some nack => { g with pending := g.pending.erase id }.release nack.consumer id
  | none => g

def reassign (g : Group) (id : Id) (consumer : Bytes) (now : Nat) : Group :=
  let g := g.takeFrom id consumer
  let g := { g with pending := g.pending.update id (fun nack => { nack with consumer := consumer }) }
  (g.hold consumer id now).consumer consumer now (fun c => { c with activeTime := now })

def setNack (g : Group) (id : Id) (change : Nack → Nack) : Group :=
  { g with pending := g.pending.update id change }

def removeConsumer (g : Group) (name : Bytes) (c : Consumer) : Group :=
  { g with
    consumers := g.consumers.erase name
    pending := c.pending.keys.foldl OrderedMap.erase g.pending }

def ack (g : Group) : List Id → Group × Nat
  | [] => (g, 0)
  | id :: ids =>
    if g.pending.contains id then
      let (g, n) := ack (g.forget id) ids
      (g, n + 1)
    else ack g ids

end Group

end NoidaDb.Redis
