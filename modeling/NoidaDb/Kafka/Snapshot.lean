/-
Snapshots: what is saved, and what a restart makes of it.

A snapshot writes every map out as a list, in whatever order the map is walked, so `SavedAs`
is a relation.  Open transactions are saved as aborted.
-/

import NoidaDb.Kafka.Engine

namespace NoidaDb.Kafka

open Lib

structure PartitionSnapshot where
  recordBatches : List (Int × Batch)
  highWatermark : Int
  producerSeqs : List ((Int × Int) × (Int × Int))
  abortedTxns : List (Int × Int)
  logStartOffset : Int
  segments : List Segment
  tombstoneHorizons : List (Int × Int)
  cleanOffset : Int

structure TopicSnapshot where
  isInternal : Bool
  partitions : List (Int × PartitionSnapshot)
  configs : LogConfig

structure Snapshot where
  topics : List (String × TopicSnapshot)
  nextProducerId : Int
  committedOffsets : List ((String × String × Int) × Int)
  offsetMetadata : List ((String × String × Int) × String)
  brokerConfigs : String → Option String

namespace PartitionState

def abortOpen (codec : Codec) (epochs : Int → Option Int) (now : Int) (p : PartitionState)
    (t : Int × Int) : PartitionState :=
  let marked := (p.appendBatch
    (encodeControlBatch codec t.1 ((epochs t.1).getD 0) p.highWatermark false now) 1 now none).1
  { marked with abortedTxns := marked.abortedTxns ++ [t] }

def resolveOpen (codec : Codec) (order : HashOrder (Int × Int)) (epochs : Int → Option Int)
    (now : Int) (p : PartitionState) : PartitionState :=
  if p.activeTxns.isEmpty then p
  else
    (order.list p.activeTxns.toFinset).foldl (abortOpen codec epochs now) { p with activeTxns := [] }

structure SavedAs (p : PartitionState) (s : PartitionSnapshot) : Prop where
  recordBatches : s.recordBatches = p.recordBatches
  highWatermark : s.highWatermark = p.highWatermark
  producerSeqs : Lists Eq s.producerSeqs p.producerSeqs
  abortedTxns : s.abortedTxns = p.abortedTxns
  logStartOffset : s.logStartOffset = p.logStartOffset
  segments : s.segments = p.segments
  tombstoneHorizons : Lists Eq s.tombstoneHorizons p.tombstoneHorizons
  cleanOffset : s.cleanOffset = p.cleanOffset

end PartitionState

structure TopicState.SavedAs (t : TopicState) (s : TopicSnapshot) : Prop where
  isInternal : s.isInternal = t.isInternal
  partitions : Lists PartitionState.SavedAs s.partitions t.partitions
  configs : s.configs = t.configs

namespace EngineState

def resolveOpenTransactionsForShutdown (codec : Codec) (order : HashOrder (Int × Int)) (now : Int)
    (e : EngineState) : EngineState :=
  { e with topics := fun name => (e.topics name).map (fun topic =>
      { topic with partitions := fun i =>
        (topic.partitions i).map (PartitionState.resolveOpen codec order e.producerEpochs now) }) }

/-- `to_snapshot`. -/
structure SavedAs (e : EngineState) (s : Snapshot) : Prop where
  topics : Lists TopicState.SavedAs s.topics e.topics
  nextProducerId : s.nextProducerId = e.nextProducerId
  committedOffsets : Lists Eq s.committedOffsets e.committedOffsets
  offsetMetadata : Lists Eq s.offsetMetadata e.offsetMetadata
  brokerConfigs : s.brokerConfigs = e.brokerConfigs

def openPartitions (e : EngineState) (at' : String × Int) : Option PartitionState :=
  (e.partition at').filter (fun p => !p.activeTxns.isEmpty)

/-- `Engine::snapshot` on the live state: the transactions are resolved, the state is saved,
and the partitions that were set aside before are put back. -/
def snapshot (codec : Codec) (order : HashOrder (Int × Int)) (now : Int)
    (aside : List ((String × Int) × PartitionState)) (e : EngineState) : EngineState :=
  aside.foldl (fun e x => e.setPartition x.1 x.2)
    (e.resolveOpenTransactionsForShutdown codec order now)

end EngineState

def PartitionSnapshot.restore (s : PartitionSnapshot) : PartitionState where
  recordBatches := s.recordBatches
  highWatermark := s.highWatermark
  producerSeqs := (FiniteMap.collect s.producerSeqs).get
  activeTxns := []
  abortedTxns := s.abortedTxns
  logStartOffset := s.logStartOffset
  segments := s.segments
  tombstoneHorizons := (FiniteMap.collect s.tombstoneHorizons).get
  cleanOffset := s.cleanOffset

def TopicSnapshot.restore (s : TopicSnapshot) : TopicState where
  isInternal := s.isInternal
  partitions := (FiniteMap.collect (s.partitions.map (fun x => (x.1, x.2.restore)))).get
  configs := s.configs

def TopicState.new (isInternal : Bool) (count : Int) (configs : LogConfig) : TopicState where
  isInternal := isInternal
  partitions := fun i => if 0 ≤ i ∧ i < count then some {} else none
  configs := configs

def internalTopic : TopicState := TopicState.new true 50 {}

namespace EngineState

/-- `from_snapshot`: groups, producers and transactions start afresh. -/
def fromSnapshot (s : Snapshot) : EngineState :=
  let topics := FiniteMap.collect (s.topics.map (fun x => (x.1, x.2.restore)))
  { topics :=
      if topics.contains "__consumer_offsets" then topics.get
      else (topics.insert "__consumer_offsets" internalTopic).get
    nextProducerId := s.nextProducerId
    committedOffsets := FiniteMap.collect s.committedOffsets
    offsetMetadata := FiniteMap.collect s.offsetMetadata
    brokerConfigs := s.brokerConfigs }

def new : EngineState where
  topics := fun name =>
    if name = "__consumer_offsets" ∨ name = "__transaction_state" then some internalTopic else none

end EngineState

namespace PartitionState

/-- The abort markers of the transactions, from offset `base` on. -/
def abortMarkers (codec : Codec) (epochs : Int → Option Int) (now : Int) :
    List (Int × Int) → Int → List (Int × Batch)
  | [], _ => []
  | t :: rest, base =>
    (base, encodeControlBatch codec t.1 ((epochs t.1).getD 0) base false now) ::
      abortMarkers codec epochs now rest (base + 1)

def withAborted (codec : Codec) (epochs : Int → Option Int) (now : Int) (opened : List (Int × Int))
    (p : PartitionState) : PartitionState :=
  { p with
    recordBatches := p.recordBatches ++ abortMarkers codec epochs now opened p.highWatermark
    highWatermark := p.highWatermark + opened.length
    abortedTxns := p.abortedTxns ++ opened
    activeTxns := [] }

/-- Each producer has one open transaction at most, and one that is open was written to. -/
structure OpenTxns (p : PartitionState) : Prop where
  unique : (p.activeTxns.map Prod.fst).Nodup
  written : p.activeTxns ≠ [] → p.segments ≠ []

variable {p : PartitionState}

theorem withAborted_nil (codec : Codec) (epochs : Int → Option Int) (now : Int)
    (closed : p.activeTxns = []) : p.withAborted codec epochs now [] = p := by
  obtain ⟨recordBatches, highWatermark, producerSeqs, activeTxns⟩ := p
  simp only at closed
  simp [withAborted, abortMarkers, closed]

theorem foldl_abortOpen (codec : Codec) (epochs : Int → Option Int) (now : Int)
    (opened : List (Int × Int)) (segments : p.segments ≠ []) (closed : p.activeTxns = []) :
    opened.foldl (abortOpen codec epochs now) p = p.withAborted codec epochs now opened := by
  induction opened generalizing p with
  | nil => exact (withAborted_nil codec epochs now closed).symm
  | cons t rest ih =>
    have kept : p.ensureSegment now = p := by simp [ensureSegment, segments]
    have appended : p.abortOpen codec epochs now t =
        { p with
          recordBatches := p.recordBatches ++ [(p.highWatermark,
            encodeControlBatch codec t.1 ((epochs t.1).getD 0) p.highWatermark false now)]
          highWatermark := p.highWatermark + 1
          abortedTxns := p.abortedTxns ++ [t] } := by
      simp [abortOpen, appendBatch, kept, appendSegments]
    have next := ih (p := p.abortOpen codec epochs now t) (by rw [appended]; exact segments)
      (by rw [appended]; exact closed)
    rw [List.foldl_cons, next, appended]
    simp only [withAborted, abortMarkers, List.append_assoc, List.singleton_append,
      List.length_cons]
    congr 1
    push_cast
    omega

theorem OpenTxns.resolveOpen (opened : OpenTxns p) (codec : Codec) (order : HashOrder (Int × Int))
    (epochs : Int → Option Int) (now : Int) :
    ∃ txns, txns.Perm p.activeTxns ∧
      p.resolveOpen codec order epochs now = p.withAborted codec epochs now txns := by
  unfold PartitionState.resolveOpen
  by_cases none' : p.activeTxns = []
  · refine ⟨[], by rw [none'], ?_⟩
    rw [if_pos (by simpa using none'), withAborted_nil codec epochs now none']
  · refine ⟨order.list p.activeTxns.toFinset, ?_, ?_⟩
    · rw [List.perm_ext_iff_of_nodup (order.nodup _) (List.Nodup.of_map Prod.fst opened.unique)]
      intro t
      rw [order.mem, List.mem_toFinset]
    · rw [if_neg (by simpa using none')]
      exact foldl_abortOpen codec epochs now _ (p := { p with activeTxns := [] })
        (opened.written none') rfl

theorem SavedAs.restore {s : PartitionSnapshot} (saved : p.SavedAs s) :
    s.restore = { p with activeTxns := [] } := by
  simp only [PartitionSnapshot.restore, saved.recordBatches, saved.highWatermark,
    saved.producerSeqs.collect_get, saved.abortedTxns, saved.logStartOffset, saved.segments,
    saved.tombstoneHorizons.collect_get, saved.cleanOffset]

end PartitionState

end NoidaDb.Kafka
