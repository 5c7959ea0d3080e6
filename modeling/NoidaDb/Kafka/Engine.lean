/-
The broker: producers, transactions, Produce, Fetch, DeleteRecords and the cleaner.

A hash set is a finite set; `HashOrder` is the order in which the code happens to walk
through one.  Handlers take the time they read from the clock.
-/

import Mathlib.Data.Finset.Basic
import NoidaDb.Kafka.Groups

namespace NoidaDb.Kafka

open Lib

def markerKey (committed : Bool) : Bytes := [0, 0, 0, if committed then 1 else 0]

def controlRecord (producerId producerEpoch baseOffset : Int) (committed : Bool) (now : Int) :
    Record where
  offset := baseOffset
  sequence := -1
  transactional := true
  control := true
  producerId := producerId
  producerEpoch := producerEpoch
  timestamp := now
  key := some (markerKey committed)
  value := some [0, 0, 0, 0, 0, 0]

def encodeControlBatch (codec : Codec) (producerId producerEpoch baseOffset : Int)
    (committed : Bool) (now : Int) : Batch :=
  codec.encode (controlRecord producerId producerEpoch baseOffset committed now) []

def Batch.marker (b : Batch) : Option Bool :=
  if b.control then
    match b.entries with
    | some (e :: _) =>
      if e.key = some (markerKey true) then some true
      else if e.key = some (markerKey false) then some false
      else none
    | _ => none
  else none

inductive Payload where
  /-- Not one v2 batch with the right length and CRC. -/
  | corrupt
  | batch (b : Batch)

structure PartitionProduceResponse where
  errorCode : Int := 0
  baseOffset : Int := 0
  logAppendTimeMs : Int := -1
  logStartOffset : Int := -1
  errorMessage : Option String := none
  /-- Positions of the records at fault. -/
  recordErrors : List (Nat × String) := []
deriving Repr, DecidableEq

def keyless (cfg : LogConfig) (b : Batch) : Option Nat :=
  if cfg.compact then
    (b.decode 0).bind (fun records => records.findIdx? (fun r => r.key.isNone && !r.control))
  else none

def keylessMessage (label : String) : String :=
  "Compacted topic cannot accept message without key in topic partition " ++ label ++ "."

def stampLogAppendTime (codec : Codec) (b : Batch) (now : Int) : Batch :=
  match b.decode 0 with
  | some (first :: rest) =>
    (codec.encode { first with timestamp := now }
      (rest.map (fun r => { r with timestamp := now }))).setLogAppendTimeFlag
  | _ => b

inductive Admission where
  | fenced
  | duplicate (prevBaseOffset : Int)
  | outOfOrder
  | accepted
deriving Repr, DecidableEq

namespace PartitionState

def admission (p : PartitionState) (expectedEpoch : Option Int) (b : Batch) : Admission :=
  if b.producerId < 0 then .accepted
  else if expectedEpoch.any (fun expected => decide (b.producerEpoch < expected)) then .fenced
  else
    match p.producerSeqs (b.producerId, b.producerEpoch) with
    | some (lastSeq, prevBaseOffset) =>
      -- A duplicate batch is acknowledged without appending it again.
      if b.baseSequence ≤ lastSeq then .duplicate prevBaseOffset
      else if wrap32 (lastSeq + 1) < b.baseSequence then .outOfOrder
      else .accepted
    | none => if b.baseSequence ≠ 0 then .outOfOrder else .accepted

/-- `entry(producer_id).or_insert(first)`. -/
def openTxn (p : PartitionState) (producerId : Int) : PartitionState :=
  if (p.activeTxns.lookup producerId).isSome then p
  else { p with activeTxns := p.activeTxns ++ [(producerId, p.highWatermark)] }

/-- Remembers the producer's last sequence and, for its first transactional batch, where
its uncommitted records start. -/
def noteProducer (p : PartitionState) (b : Batch) : PartitionState :=
  if b.producerId < 0 then p
  else
    let last := (wrap32 (b.baseSequence + b.lastOffsetDelta), p.highWatermark)
    let noted := { p with
      producerSeqs := Function.update p.producerSeqs (b.producerId, b.producerEpoch) (some last) }
    if b.transactional then noted.openTxn b.producerId else noted

def storeBatch (codec : Codec) (p : PartitionState) (cfg : LogConfig) (b : Batch) (now : Int) :
    PartitionState × Int :=
  let delta := if 0 ≤ b.lastOffsetDelta then b.lastOffsetDelta + 1 else 1
  let stamped := if cfg.logAppendTime then stampLogAppendTime codec b now else b
  (p.noteProducer b).appendBatch stamped delta now (some cfg)

def produce (codec : Codec) (label : String) (expectedEpoch : Int → Option Int) (cfg : LogConfig)
    (now : Int) (records : Option Payload) (p : PartitionState) :
    PartitionState × PartitionProduceResponse :=
  let appendTime := if cfg.logAppendTime then now else -1
  match records with
  | none => (p, { baseOffset := p.highWatermark })
  | some .corrupt => (p, { errorCode := 2, baseOffset := -1 })
  | some (.batch b) =>
    if cfg.maxMessageBytes < b.len then (p, { errorCode := 10 })
    else
      match keyless cfg b with
      | some index =>
        (p, { errorCode := 87
              baseOffset := -1
              errorMessage := some (keylessMessage label)
              recordErrors := [(index, keylessMessage label)] })
      | none =>
        match p.admission (expectedEpoch b.producerId) b with
        | .fenced => (p, { errorCode := 47 })
        | .duplicate prevBaseOffset =>
          (p, { baseOffset := prevBaseOffset, logAppendTimeMs := appendTime })
        | .outOfOrder => (p, { errorCode := 45 })
        | .accepted =>
          let stored := p.storeBatch codec cfg b now
          (stored.1, { baseOffset := stored.2
                       logAppendTimeMs := appendTime
                       logStartOffset := stored.1.logStartOffset })

/-- `active_txns.remove` and the marker; `none` where a commit is refused because the
transaction was aborted before. -/
def endTxn (codec : Codec) (producerId producerEpoch : Int) (committed : Bool) (now : Int)
    (p : PartitionState) : Option PartitionState :=
  match p.activeTxns.lookup producerId with
  | some firstOffset =>
    let closed := { p with
      activeTxns := p.activeTxns.filter (fun t => t.1 != producerId)
      abortedTxns :=
        if committed then p.abortedTxns else p.abortedTxns ++ [(producerId, firstOffset)] }
    some (closed.appendBatch
      (encodeControlBatch codec producerId producerEpoch p.highWatermark committed now) 1 now
      none).1
  | none =>
    if committed && p.abortedTxns.any (fun t => t.1 == producerId) then none else some p

def lastStableOffset (p : PartitionState) : Int :=
  match (p.activeTxns.map Prod.snd).min? with
  | some minOpen => min minOpen p.highWatermark
  | none => p.highWatermark

/-- The batches from the first that has records at or past `fetchOffset` on. -/
def fromOffset (p : PartitionState) (fetchOffset : Int) : List (Int × Batch) :=
  p.recordBatches.dropWhile (fun x => decide (batchLastOffset x.1 x.2 < fetchOffset))

def startsAborted (p : PartitionState) (base : Int) : Bool :=
  p.abortedTxns.any (fun t => t.2 == base)

structure PartitionData where
  errorCode : Int := 0
  highWatermark : Int
  logStartOffset : Int
  lastStableOffset : Int
  records : List (Int × Batch) := []
  /-- (producer id, first offset). -/
  abortedTransactions : List (Int × Int) := []

def fetch (p : PartitionState) (readCommitted : Bool) (fetchOffset : Int) : PartitionData :=
  let lso := p.lastStableOffset
  let visibleUpTo := if readCommitted then lso else p.highWatermark
  let outOfRange := decide (fetchOffset < p.logStartOffset) || decide (p.highWatermark < fetchOffset)
  { errorCode := if outOfRange then 1 else 0
    highWatermark := p.highWatermark
    logStartOffset := p.logStartOffset
    lastStableOffset := lso
    records :=
      if !outOfRange && decide (fetchOffset < visibleUpTo) then
        ((p.fromOffset fetchOffset).takeWhile (fun x => decide (x.1 < visibleUpTo))).filter
          (fun x => !(readCommitted && p.startsAborted x.1))
      else []
    abortedTransactions :=
      if readCommitted then p.abortedTxns.filter (fun t => decide (t.2 < lso)) else [] }

end PartitionState

structure TopicState where
  isInternal : Bool := false
  partitions : Int → Option PartitionState
  /-- `LogConfig::of` the topic's configs. -/
  configs : LogConfig := {}

structure PendingTxnOffset where
  key : String × String × Int
  offset : Int
  metadata : Option String := none
deriving Repr, DecidableEq

inductive TxnPhase where
  | empty
  | ongoing
  | completeCommit
  | completeAbort
deriving Repr, DecidableEq

structure TxnInfo where
  state : TxnPhase
  timeoutMs : Int
  startMs : Int
deriving Repr, DecidableEq

structure EngineState where
  topics : String → Option TopicState := fun _ => none
  nextProducerId : Int := 1000
  /-- By group, topic and partition. -/
  committedOffsets : FiniteMap (String × String × Int) Int := .empty
  offsetMetadata : FiniteMap (String × String × Int) String := .empty
  groups : String → Option GroupState := fun _ => none
  brokerConfigs : String → Option String := fun _ => none
  producerEpochs : Int → Option Int := fun _ => none
  /-- Transactional id to (producer id, current epoch). -/
  txnProducers : String → Option (Int × Int) := fun _ => none
  txnPartitions : String → Option (Finset (String × Int)) := fun _ => none
  txnPendingOffsets : String → Option (List PendingTxnOffset) := fun _ => none
  txnInfo : String → Option TxnInfo := fun _ => none

namespace EngineState

def partition (e : EngineState) (at' : String × Int) : Option PartitionState :=
  (e.topics at'.1).bind (fun t => t.partitions at'.2)

def setPartition (e : EngineState) (at' : String × Int) (p : PartitionState) : EngineState :=
  { e with topics := Function.update e.topics at'.1 ((e.topics at'.1).map (fun t =>
      { t with partitions := Function.update t.partitions at'.2 (some p) })) }

def isFenced (e : EngineState) (producerId producerEpoch : Int) : Bool :=
  (e.producerEpochs producerId).any (fun expected => decide (producerEpoch < expected))

def txnIsOpen (e : EngineState) (txId : String) : Bool :=
  (e.txnPartitions txId).any (fun ps => decide ps.Nonempty) ||
    (e.txnPendingOffsets txId).any (fun offsets => !offsets.isEmpty)

def markTxnOngoing (e : EngineState) (txId : String) (now : Int) : EngineState :=
  let info := (e.txnInfo txId).getD { state := .empty, timeoutMs := 60000, startMs := -1 }
  let marked :=
    if info.state ≠ .ongoing then { info with state := .ongoing, startMs := now } else info
  { e with txnInfo := Function.update e.txnInfo txId (some marked) }

/-- `set_offset_metadata`: an empty string is not kept. -/
def setOffsetMetadata (e : EngineState) (key : String × String × Int) (metadata : Option String) :
    EngineState :=
  { e with
    offsetMetadata :=
      match metadata.filter (fun m => decide (m ≠ "")) with
      | some m => e.offsetMetadata.insert key m
      | none => e.offsetMetadata.erase key }

def commitOffset (e : EngineState) (pending : PendingTxnOffset) : EngineState :=
  let committed := e.committedOffsets.insert pending.key pending.offset
  { e with committedOffsets := committed }.setOffsetMetadata pending.key pending.metadata

/-- The markers, partition by partition; `false` where one of them is refused. -/
def endPartitions (codec : Codec) (producerId producerEpoch : Int) (committed : Bool) (now : Int) :
    List (String × Int) → EngineState → EngineState × Bool
  | [], e => (e, true)
  | at' :: rest, e =>
    match e.partition at' with
    | none => endPartitions codec producerId producerEpoch committed now rest e
    | some p =>
      match p.endTxn codec producerId producerEpoch committed now with
      | none => (e, false)
      | some p' =>
        endPartitions codec producerId producerEpoch committed now rest (e.setPartition at' p')

def endOffsets (e : EngineState) (txId : String) (committed : Bool) : EngineState :=
  let pending := (e.txnPendingOffsets txId).getD []
  let e := { e with txnPendingOffsets := Function.update e.txnPendingOffsets txId none }
  let e := if committed then pending.foldl commitOffset e else e
  let ended : TxnPhase := if committed then .completeCommit else .completeAbort
  let info := (e.txnInfo txId).map (fun info => { info with state := ended })
  { e with txnInfo := Function.update e.txnInfo txId info }

/-- Ends the open transaction of `txId`: markers on every partition it was added to, and
its pending offsets applied or dropped. -/
def completeTxn (codec : Codec) (order : HashOrder (String × Int)) (txId : String)
    (producerId producerEpoch : Int) (committed : Bool) (now : Int) (e : EngineState) :
    EngineState × Int :=
  match e.txnPartitions txId with
  | none => (e.endOffsets txId committed, 0)
  | some partitions =>
    let removed := { e with txnPartitions := Function.update e.txnPartitions txId none }
    let ended := endPartitions codec producerId producerEpoch committed now
      (order.list partitions) removed
    if ended.2 then (ended.1.endOffsets txId committed, 0)
    else
      ({ ended.1 with
          txnPendingOffsets := Function.update ended.1.txnPendingOffsets txId none }, 48)

def handleEndTxn (codec : Codec) (order : HashOrder (String × Int)) (txId : String)
    (producerId producerEpoch : Int) (committed : Bool) (now : Int) (e : EngineState) :
    EngineState × Int :=
  if e.isFenced producerId producerEpoch then (e, 47)
  else e.completeTxn codec order txId producerId producerEpoch committed now

structure InitProducerIdRequest where
  transactionalId : Option String := none
  transactionTimeoutMs : Int := 60000
  producerId : Int := -1
  producerEpoch : Int := -1

abbrev InitProducerIdResponse := Int × Int × Int

def wrap16 (x : Int) : Int := x.bmod (2 ^ 16)

def handleInitProducerId (codec : Codec) (order : HashOrder (String × Int))
    (req : InitProducerIdRequest) (now : Int) (e : EngineState) :
    EngineState × InitProducerIdResponse :=
  if req.transactionalId = some "" ∨ ¬ ((req.producerId = -1) ↔ (req.producerEpoch = -1)) then
    (e, 42, -1, -1)
  else if req.transactionalId.isSome = true ∧
      ¬ (1 ≤ req.transactionTimeoutMs ∧ req.transactionTimeoutMs ≤ 900000) then (e, 50, -1, -1)
  else
    -- A known transactional id gets its producer id back, at the next epoch.
    let known := req.transactionalId.bind e.txnProducers
    let pid := (known.map Prod.fst).getD e.nextProducerId
    let epoch := (known.map (fun k => wrap16 (k.2 + 1))).getD 0
    let e := if known.isSome then e else { e with nextProducerId := e.nextProducerId + 1 }
    let e :=
      match req.transactionalId with
      | none => e
      | some tid =>
        -- A transaction that is still open is aborted first.
        let e := if e.txnIsOpen tid then (e.completeTxn codec order tid pid epoch false now).1 else e
        { e with
          txnInfo := Function.update e.txnInfo tid
            (some { state := .empty, timeoutMs := req.transactionTimeoutMs, startMs := -1 })
          txnProducers := Function.update e.txnProducers tid (some (pid, epoch)) }
    ({ e with producerEpochs := Function.update e.producerEpochs pid (some epoch) }, 0, pid, epoch)

def addPartition (txId : String) (now : Int) (e : EngineState) (at' : String × Int) :
    EngineState :=
  let partitions := insert at' ((e.txnPartitions txId).getD ∅)
  { e with txnPartitions := Function.update e.txnPartitions txId (some partitions) }.markTxnOngoing
    txId now

def handleAddPartitionsToTxn (txId : String) (producerId producerEpoch : Int)
    (partitions : List (String × Int)) (now : Int) (e : EngineState) :
    EngineState × List Int :=
  if e.isFenced producerId producerEpoch then (e, partitions.map (fun _ => 47))
  else (partitions.foldl (addPartition txId now) e, partitions.map (fun _ => 0))

def handleAddOffsetsToTxn (txId : String) (producerId producerEpoch now : Int) (e : EngineState) :
    EngineState × Int :=
  if e.isFenced producerId producerEpoch then (e, 47) else (e.markTxnOngoing txId now, 0)

def pendOffset (txId : String) (e : EngineState) (pending : PendingTxnOffset) : EngineState :=
  let offsets := (e.txnPendingOffsets txId).getD [] ++ [pending]
  { e with txnPendingOffsets := Function.update e.txnPendingOffsets txId (some offsets) }

def handleTxnOffsetCommit (txId : String) (producerId producerEpoch : Int)
    (offsets : List PendingTxnOffset) (e : EngineState) : EngineState × List Int :=
  if e.isFenced producerId producerEpoch then (e, offsets.map (fun _ => 47))
  else (offsets.foldl (pendOffset txId) e, offsets.map (fun _ => 0))

def partitionLabel (at' : String × Int) : String := at'.1 ++ "-" ++ toString at'.2

def producePartition (codec : Codec) (now : Int) (e : EngineState)
    (data : (String × Int) × Option Payload) : EngineState × PartitionProduceResponse :=
  match e.topics data.1.1 with
  | none => (e, { errorCode := 3 })
  | some topic =>
    match topic.partitions data.1.2 with
    | none => (e, { errorCode := 3 })
    | some p =>
      let produced := p.produce codec (partitionLabel data.1) e.producerEpochs topic.configs now
        data.2
      (e.setPartition data.1 produced.1, produced.2)

def handleProduce (codec : Codec) (now : Int) :
    List ((String × Int) × Option Payload) → EngineState →
      EngineState × List PartitionProduceResponse
  | [], e => (e, [])
  | data :: rest, e =>
    let first := producePartition codec now e data
    let later := handleProduce codec now rest first.1
    (later.1, first.2 :: later.2)

/-- One partition of a Fetch request; `none` where there is no such partition. -/
def handleFetch (e : EngineState) (readCommitted : Bool) (at' : String × Int)
    (fetchOffset : Int) : Option PartitionState.PartitionData :=
  (e.partition at').map (fun p => p.fetch readCommitted fetchOffset)

def deleteRecords (now : Int) (e : EngineState) (data : (String × Int) × Int) :
    EngineState × Int × Int :=
  match e.topics data.1.1 with
  | none => (e, 3, -1)
  | some topic =>
    match topic.partitions data.1.2 with
    | none => (e, 3, -1)
    | some p =>
      -- -1 means up to the high watermark.
      let offset := if data.2 = -1 then p.highWatermark else data.2
      if !topic.configs.delete then (e, 44, -1)
      else if offset < 0 ∨ p.highWatermark < offset then (e, 1, -1)
      else
        let truncated := p.truncateFront offset now
        (e.setPartition data.1 truncated, 0, truncated.logStartOffset)

def handleDeleteRecords (now : Int) : List ((String × Int) × Int) → EngineState →
    EngineState × List (Int × Int)
  | [], e => (e, [])
  | data :: rest, e =>
    let first := deleteRecords now e data
    let later := handleDeleteRecords now rest first.1
    (later.1, first.2 :: later.2)

def cleanPartition (codec : Codec) (cfg : LogConfig) (now : Int) (p : PartitionState) :
    PartitionState :=
  ((p.compact codec cfg now).1.applyRetention cfg now).1

def runLogCleaner (codec : Codec) (now : Int) (e : EngineState) : EngineState :=
  { e with topics := fun name => (e.topics name).map (fun topic =>
      if topic.isInternal then topic
      else { topic with partitions := fun i =>
        (topic.partitions i).map (cleanPartition codec topic.configs now) }) }

end EngineState

end NoidaDb.Kafka
