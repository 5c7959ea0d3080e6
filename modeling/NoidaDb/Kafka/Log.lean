/-
The partition log: segments, retention, DeleteRecords and compaction.

A batch is kept by what the code reads of its bytes: the length, the header fields and the
records.  Only the length of an encoded batch is left open.  Sequence numbers wrap at 32 bits.
-/

import Mathlib.Algebra.Order.Ring.Int

namespace NoidaDb.Kafka

abbrev Bytes := List UInt8

def wrap32 (x : Int) : Int := x.bmod (2 ^ 32)

def i64Max : Int := 2 ^ 63 - 1

structure Entry where
  offsetDelta : Int
  timestamp : Int := 0
  key : Option Bytes := none
  value : Option Bytes := none
deriving Repr, DecidableEq

structure Record where
  offset : Int
  sequence : Int
  transactional : Bool
  control : Bool
  producerId : Int
  producerEpoch : Int
  timestamp : Int
  key : Option Bytes
  value : Option Bytes
deriving Repr, DecidableEq

/-- A v2 batch; `entries` is `none` where the decoder fails. -/
structure Batch where
  len : Nat
  lastOffsetDelta : Int
  maxTimestamp : Int := 0
  transactional : Bool := false
  control : Bool := false
  logAppendTime : Bool := false
  producerId : Int := -1
  producerEpoch : Int := -1
  baseSequence : Int := -1
  entries : Option (List Entry)
  /-- The header alone takes 61 bytes. -/
  headed : 61 ≤ len
deriving Repr, DecidableEq

namespace Batch

def plain (b : Batch) : Bool := !b.transactional && !b.control

def decode (b : Batch) (base : Int) : Option (List Record) :=
  b.entries.map (fun entries => entries.map (fun e =>
    { offset := base + e.offsetDelta
      sequence := wrap32 (b.baseSequence + e.offsetDelta)
      transactional := b.transactional
      control := b.control
      producerId := b.producerId
      producerEpoch := b.producerEpoch
      timestamp := e.timestamp
      key := e.key
      value := e.value }))

def setLogAppendTimeFlag (b : Batch) : Batch := { b with logAppendTime := true }

def flagged (b : Batch) (logAppend : Bool) : Batch :=
  if logAppend then b.setLogAppendTimeFlag else b

end Batch

def batchLastOffset (base : Int) (b : Batch) : Int := base + b.lastOffsetDelta

structure Codec where
  encodedLen : List Record → Nat
  headed : ∀ records, 61 ≤ encodedLen records

/-- `RecordBatchEncoder::encode` of one batch, uncompressed. -/
def Codec.encode (codec : Codec) (first : Record) (rest : List Record) : Batch where
  len := codec.encodedLen (first :: rest)
  lastOffsetDelta := (rest.map Record.offset).foldl max first.offset - first.offset
  maxTimestamp := (rest.map Record.timestamp).foldl max first.timestamp
  transactional := first.transactional
  control := first.control
  producerId := first.producerId
  producerEpoch := first.producerEpoch
  baseSequence := first.sequence
  entries := some ((first :: rest).map (fun r =>
    { offsetDelta := r.offset - first.offset
      timestamp := r.timestamp
      key := r.key
      value := r.value }))
  headed := codec.headed (first :: rest)

structure LogConfig where
  delete : Bool := true
  compact : Bool := false
  retentionMs : Int := 604800000
  retentionBytes : Int := -1
  segmentBytes : Int := 1073741824
  segmentMs : Int := 604800000
  deleteRetentionMs : Int := 86400000
  minCompactionLagMs : Int := 0
  /-- Whether `dirty / (clean + dirty)` reaches `min.cleanable.dirty.ratio`, given the
  clean and the dirty bytes. -/
  reachesDirtyRatio : Int → Int → Bool := fun clean dirty => decide (clean ≤ dirty)
  logAppendTime : Bool := false
  maxMessageBytes : Int := 1048588

structure Segment where
  baseOffset : Int
  createdMs : Int
deriving Repr, DecidableEq

structure PartitionState where
  recordBatches : List (Int × Batch) := []
  highWatermark : Int := 0
  /-- (producer id, epoch) to (last sequence, base offset). -/
  producerSeqs : Int × Int → Option (Int × Int) := fun _ => none
  /-- Producer id to the first offset of its open transaction. -/
  activeTxns : List (Int × Int) := []
  abortedTxns : List (Int × Int) := []
  logStartOffset : Int := 0
  segments : List Segment := []
  /-- Tombstone offset to when the cleaner may drop it. -/
  tombstoneHorizons : Int → Option Int := fun _ => none
  cleanOffset : Int := 0

namespace PartitionState

def ensureSegment (p : PartitionState) (now : Int) : PartitionState :=
  if p.segments.isEmpty then
    let base := (p.recordBatches.head?.map Prod.fst).getD p.logStartOffset
    { p with segments := [{ baseOffset := min base p.logStartOffset, createdMs := now }] }
  else p

def totalLen (batches : List (Int × Batch)) : Int :=
  (batches.map (fun x => (x.2.len : Int))).sum

/-- Whether a batch of `len` bytes starts a new segment after `active`. -/
def rolls (p : PartitionState) (active : Segment) (len : Nat) (cfg : LogConfig) (now : Int) :
    Bool :=
  let activeBytes := totalLen (p.recordBatches.reverse.takeWhile (fun x =>
    decide (active.baseOffset ≤ x.1)))
  decide (0 < activeBytes) &&
    (decide (cfg.segmentBytes < activeBytes + len) || decide (cfg.segmentMs ≤ now - active.createdMs))

/-- The segments for a batch of `len` bytes: a new active one first when the size or age
limit of `cfg` says so. -/
def appendSegments (p : PartitionState) (len : Nat) (now : Int) (cfg : Option LogConfig) :
    List Segment :=
  match cfg, p.segments.getLast? with
  | some cfg, some active =>
    if p.rolls active len cfg now then
      p.segments ++ [{ baseOffset := p.highWatermark, createdMs := now }]
    else p.segments
  | _, _ => p.segments

/-- Appends one batch of `count` records at the high watermark; its base offset. -/
def appendBatch (p : PartitionState) (batch : Batch) (count now : Int) (cfg : Option LogConfig) :
    PartitionState × Int :=
  let p := p.ensureSegment now
  ({ p with
      segments := p.appendSegments batch.len now cfg
      recordBatches := p.recordBatches ++ [(p.highWatermark, batch)]
      highWatermark := p.highWatermark + count }, p.highWatermark)

def sizeBytes (p : PartitionState) : Int := totalLen p.recordBatches

/-- The segments from the last one that starts at or before `newStart` on; all of them if
none does. -/
def dropStale (newStart : Int) : List Segment → List Segment
  | s :: next :: rest =>
    if (next :: rest).any (fun t => decide (t.baseOffset ≤ newStart)) then
      dropStale newStart (next :: rest)
    else s :: next :: rest
  | short => short

/-- Moves the log start forward.  A batch straddling `newStart` stays. -/
def truncateFront (p : PartitionState) (newStart now : Int) : PartitionState :=
  if newStart ≤ p.logStartOffset then p
  else
    let p := p.ensureSegment now
    let kept := p.recordBatches.filter (fun x => decide (newStart ≤ batchLastOffset x.1 x.2))
    { p with
      logStartOffset := newStart
      recordBatches := kept
      segments :=
        if kept.isEmpty then [{ baseOffset := newStart, createdMs := now }]
        else dropStale newStart p.segments
      abortedTxns := p.abortedTxns.filter (fun x => decide (newStart ≤ x.2))
      tombstoneHorizons := fun off => if newStart ≤ off then p.tombstoneHorizons off else none
      cleanOffset := max p.cleanOffset newStart }

/-- `[lo, hi)` offsets, byte size and newest timestamp of a segment. -/
structure Span where
  lo : Int
  hi : Int
  size : Int
  maxTs : Int
deriving Repr, DecidableEq

/-- The batches of `segment`, whose successor is `next`. -/
def inSegment (p : PartitionState) (segment : Segment) (next : Option Segment) :
    List (Int × Batch) :=
  p.recordBatches.filter (fun x =>
    decide (segment.baseOffset ≤ x.1) && next.all (fun n => decide (x.1 < n.baseOffset)))

def span (p : PartitionState) (segment : Segment) (next : Option Segment) : Span where
  lo := segment.baseOffset
  hi := (next.map Segment.baseOffset).getD p.highWatermark
  size := totalLen (p.inSegment segment next)
  -- A segment with no record timestamps ages from its creation.
  maxTs :=
    ((((p.inSegment segment next).map (fun x => x.2.maxTimestamp)).max?).filter
      (fun ts => decide (0 ≤ ts))).getD segment.createdMs

def spansFrom (p : PartitionState) : List Segment → List Span
  | [] => []
  | segment :: rest => p.span segment rest.head? :: p.spansFrom rest

def segmentSpans (p : PartitionState) : List Span := p.spansFrom p.segments

/-- How far the oldest segments are past `retention.ms` or over `retention.bytes`. -/
def retentionUpto (cfg : LogConfig) (now : Int) : List Span → Int → Option Int → Option Int
  | [], _, upto => upto
  | s :: rest, excess, upto =>
    if s.size = 0 ∧ rest = [] then upto
    else
      let byTime :=
        decide (0 ≤ cfg.retentionMs) &&
          (decide (s.size = 0) || decide (cfg.retentionMs < now - s.maxTs))
      let bySize := decide (0 ≤ cfg.retentionBytes) && decide (0 ≤ excess - s.size)
      if byTime || bySize then retentionUpto cfg now rest (excess - s.size) (some s.hi) else upto

/-- `cleanup.policy=delete`: deletes the oldest segments. -/
def applyRetention (p : PartitionState) (cfg : LogConfig) (now : Int) : PartitionState × Bool :=
  if !cfg.delete || (decide (cfg.retentionMs < 0) && decide (cfg.retentionBytes < 0)) then
    (p, false)
  else
    let p := p.ensureSegment now
    match retentionUpto cfg now p.segmentSpans (p.sizeBytes - cfg.retentionBytes) none with
    | some hi => if p.logStartOffset < hi then (p.truncateFront hi now, true) else (p, false)
    | none => (p, false)

/-- Where cleaning stops: the active segment, the first open transaction, or the first
segment younger than `min.compaction.lag.ms`. -/
def uncleanable (p : PartitionState) (cfg : LogConfig) (now : Int) : Int :=
  let active := (p.segments.getLast?.map Segment.baseOffset).getD 0
  let settled :=
    match (p.activeTxns.map Prod.snd).min? with
    | some first => min active first
    | none => active
  if 0 < cfg.minCompactionLagMs then
    match p.segmentSpans.find? (fun s =>
        decide (0 < s.size) && decide (now - cfg.minCompactionLagMs < s.maxTs)) with
    | some young => min settled young.lo
    | none => settled
  else settled

def firstDirty (p : PartitionState) : Int := max p.cleanOffset p.logStartOffset

/-- The batches below `limit`. -/
def below (p : PartitionState) (limit : Int) : List (Int × Batch) :=
  p.recordBatches.takeWhile (fun x => decide (x.1 < limit))

def ratioDue (p : PartitionState) (cfg : LogConfig) (now : Int) : Bool :=
  let cleanable := p.below (p.uncleanable cfg now)
  let clean := totalLen (cleanable.filter (fun x => decide (x.1 < p.firstDirty)))
  let dirty := totalLen (cleanable.filter (fun x => decide (p.firstDirty ≤ x.1)))
  decide (0 < dirty) && cfg.reachesDirtyRatio clean dirty

abbrev Latest := Bytes → Option Int

/-- `latest.insert(k, r.offset)` for a record with a key below the limit. -/
def noteLatest (limit : Int) (latest : Latest) (r : Record) : Latest :=
  match r.key with
  | some k => if r.offset < limit then Function.update latest k (some r.offset) else latest
  | none => latest

def dirtyRecords (p : PartitionState) (limit : Int) : List Record :=
  ((p.below limit).filter (fun x => decide (p.firstDirty ≤ x.1) && x.2.plain)).flatMap
    (fun x => (x.2.decode x.1).getD [])

def latestOffsets (p : PartitionState) (limit : Int) : Latest :=
  (p.dirtyRecords limit).foldl (noteLatest limit) (fun _ => none)

abbrev Horizons := Int → Option Int

/-- Whether the record stays, and the horizons after it.  A tombstone survives the first
clean that sees it and goes with the first one after its horizon. -/
def cleanRecord (latest : Latest) (cfg : LogConfig) (now : Int) (horizons : Horizons)
    (r : Record) : Bool × Horizons :=
  match r.key with
  | none => (true, horizons)
  | some k =>
    if (latest k).any (fun newest => decide (r.offset < newest)) then
      (false, Function.update horizons r.offset none)
    else if r.value.isNone then
      match horizons r.offset with
      | some h =>
        if h ≤ now then (false, Function.update horizons r.offset none) else (true, horizons)
      | none =>
        (true, Function.update horizons r.offset
          (some (min (now + cfg.deleteRetentionMs) i64Max)))
    else (true, horizons)

def cleanRecords (latest : Latest) (cfg : LogConfig) (now : Int) :
    List Record → Horizons → List Record × Horizons
  | [], horizons => ([], horizons)
  | r :: rest, horizons =>
    let cleaned := cleanRecord latest cfg now horizons r
    let later := cleanRecords latest cfg now rest cleaned.2
    (if cleaned.1 then r :: later.1 else later.1, later.2)

def resequence (first : Record) (records : List Record) : List Record :=
  if first.producerId < 0 then
    records.map (fun r => { r with sequence := wrap32 (-1 + wrap32 (r.offset - first.offset)) })
  else records

/-- The batch that `kept` is written to, in place of `b`. -/
def reencode (codec : Codec) (b : Batch) (kept : List Record) : List (Int × Batch) :=
  match kept with
  | [] => []
  | first :: _ =>
    match resequence first kept with
    | [] => []
    | first' :: rest' => [(first.offset, (codec.encode first' rest').flagged b.logAppendTime)]

def cleanBatch (codec : Codec) (latest : Latest) (limit : Int) (cfg : LogConfig) (now : Int)
    (horizons : Horizons) (x : Int × Batch) : List (Int × Batch) × Horizons × Bool :=
  if limit ≤ x.1 ∨ x.2.plain = false then ([x], horizons, false)
  else
    match x.2.decode x.1 with
    | none => ([x], horizons, false)
    | some records =>
      let cleaned := cleanRecords latest cfg now records horizons
      if cleaned.1.length = records.length then ([x], cleaned.2, false)
      else (reencode codec x.2 cleaned.1, cleaned.2, true)

def cleanBatches (codec : Codec) (latest : Latest) (limit : Int) (cfg : LogConfig) (now : Int) :
    List (Int × Batch) → Horizons → List (Int × Batch) × Horizons × Bool
  | [], horizons => ([], horizons, false)
  | x :: rest, horizons =>
    let cleaned := cleanBatch codec latest limit cfg now horizons x
    let later := cleanBatches codec latest limit cfg now rest cleaned.2.1
    (cleaned.1 ++ later.1, later.2.1, cleaned.2.2 || later.2.2)

def keepSegments (batches : List (Int × Batch)) : List Segment → List Segment
  | s :: next :: rest =>
    let later := keepSegments batches (next :: rest)
    if batches.any (fun x => decide (s.baseOffset ≤ x.1) && decide (x.1 < next.baseOffset)) then
      s :: later
    else later
  | short => short

def clean (codec : Codec) (p : PartitionState) (cfg : LogConfig) (now : Int) :
    PartitionState × Bool :=
  let limit := p.uncleanable cfg now
  let cleaned := cleanBatches codec (p.latestOffsets limit) limit cfg now p.recordBatches
    p.tombstoneHorizons
  ({ p with
      recordBatches := cleaned.1
      tombstoneHorizons := cleaned.2.1
      segments := keepSegments cleaned.1 p.segments
      cleanOffset := max p.cleanOffset limit }, cleaned.2.2)

/-- `cleanup.policy=compact`: keeps only the newest record per key in the closed
segments. -/
def compact (codec : Codec) (p : PartitionState) (cfg : LogConfig) (now : Int) :
    PartitionState × Bool :=
  if !cfg.compact then (p, false)
  else
    let p := p.ensureSegment now
    if p.ratioDue cfg now then clean codec p cfg now else (p, false)

end PartitionState

end NoidaDb.Kafka
