/-
Isolation over runs of requests.
-/

import NoidaDb.Kafka.ReadCommitted
import NoidaDb.Kafka.Idempotence

namespace NoidaDb.Kafka

namespace EngineState

def OnRecord (e : EngineState) : Prop :=
  ∀ at' p, e.partition at' = some p → PartitionState.Rep p ∧ p.Txns

def CutsNoAborted (e e' : EngineState) : Prop :=
  ∀ at' p p', e.partition at' = some p → e'.partition at' = some p' →
    p.logStartOffset < p'.logStartOffset → p.KeepsAborted p'.logStartOffset

def DeletesNoAborted (now : Int) : List ((String × Int) × Int) → EngineState → Prop
  | [], _ => True
  | data :: rest, e =>
    CutsNoAborted e (deleteRecords now e data).1 ∧
      DeletesNoAborted now rest (deleteRecords now e data).1

end EngineState

def Request.LeavesTxns (codec : Codec) (e : EngineState) : Request → Prop
  | .produce data _ => ∀ at' b, (at', some (.batch b)) ∈ data →
      b.Numbered ∧ PartitionState.SentInTxn b
  | .deleteRecords data now => EngineState.DeletesNoAborted now data e
  | .runLogCleaner now => EngineState.CutsNoAborted e (e.runLogCleaner codec now)
  | _ => True

namespace EngineState

def AlongRequests (codec : Codec) (condition : EngineState → Request → Prop) :
    EngineState → List Request → Prop
  | _, [] => True
  | e, request :: rest =>
    condition e request ∧ AlongRequests codec condition (e.handle codec request) rest

variable {e : EngineState}

theorem foldl_topics {α : Type} (step : EngineState → α → EngineState)
    (keeps : ∀ e a, (step e a).topics = e.topics) (items : List α) (e : EngineState) :
    (items.foldl step e).topics = e.topics := by
  induction items generalizing e with
  | nil => rfl
  | cons a rest ih =>
    rw [List.foldl_cons, ih, keeps]

def EachPartition (good : PartitionState → Prop) (e : EngineState) : Prop :=
  ∀ at' p, e.partition at' = some p → good p

section Each

variable {good : PartitionState → Prop} {codec : Codec}

theorem EachPartition.of_topics {e' : EngineState} (each : EachPartition good e)
    (same : e'.topics = e.topics) : EachPartition good e' := by
  intro at' p found
  apply each at' p
  simpa [partition, same] using found

theorem EachPartition.setPartition (each : EachPartition good e) {at' : String × Int}
    {old p : PartitionState} (found : e.partition at' = some old) (isGood : good p) :
    EachPartition good (e.setPartition at' p) := by
  intro other q isQ
  rw [partition_setPartition found] at isQ
  split at isQ
  · obtain rfl := Option.some.inj isQ
    exact isGood
  · exact each other q isQ

variable (ended : ∀ p producerId producerEpoch committed now, good p →
  good (PartitionState.call codec p (.endTxn producerId producerEpoch committed now)))

include ended

theorem EachPartition.endPartitions (each : EachPartition good e) (producerId producerEpoch : Int)
    (committed : Bool) (now : Int) (partitions : List (String × Int)) :
    EachPartition good
      (endPartitions codec producerId producerEpoch committed now partitions e).1 := by
  induction partitions generalizing e with
  | nil => exact each
  | cons at' rest ih =>
    unfold EngineState.endPartitions
    cases found : e.partition at' with
    | none => exact ih each
    | some p =>
      simp only
      cases ends : p.endTxn codec producerId producerEpoch committed now with
      | none => exact each
      | some p' =>
        apply ih
        have isCall : p' = p.call codec (.endTxn producerId producerEpoch committed now) := by
          simp [PartitionState.call, ends]
        rw [isCall]
        exact each.setPartition found (ended p _ _ _ _ (each at' p found))

theorem EachPartition.completeTxn (each : EachPartition good e) (order : HashOrder (String × Int))
    (txId : String) (producerId producerEpoch : Int) (committed : Bool) (now : Int) :
    EachPartition good
      (e.completeTxn codec order txId producerId producerEpoch committed now).1 := by
  unfold EngineState.completeTxn
  cases e.txnPartitions txId with
  | none => exact each.of_topics (e.endOffsets_spec txId committed).1
  | some partitions =>
    have removed : EachPartition good { e with
        txnPartitions := Function.update e.txnPartitions txId none } := each.of_topics rfl
    have removed := removed.endPartitions ended producerId producerEpoch committed now
      (order.list partitions)
    simp only
    split
    · exact removed.of_topics (endOffsets_spec _ txId committed).1
    · exact removed.of_topics rfl

theorem EachPartition.initProducerId (each : EachPartition good e)
    (order : HashOrder (String × Int)) (req : InitProducerIdRequest) (now : Int) :
    EachPartition good (e.handleInitProducerId codec order req now).1 := by
  unfold handleInitProducerId
  split
  · exact each
  · split
    · exact each
    · simp only
      have counted : EachPartition good
          (if (req.transactionalId.bind e.txnProducers).isSome = true then e
            else { e with nextProducerId := e.nextProducerId + 1 }) := by
        split
        · exact each
        · exact each.of_topics rfl
      generalize (if (req.transactionalId.bind e.txnProducers).isSome = true then e
        else { e with nextProducerId := e.nextProducerId + 1 }) = e₁ at counted ⊢
      cases req.transactionalId with
      | none => exact counted.of_topics rfl
      | some tid =>
        simp only
        split
        · exact (counted.completeTxn ended order tid _ _ false now).of_topics rfl
        · exact counted.of_topics rfl

theorem EachPartition.handle_of (each : EachPartition good e) {request : Request}
    (produced : ∀ data now, request = .produce data now →
      EachPartition good (handleProduce codec now data e).1)
    (deleted : ∀ data now, request = .deleteRecords data now →
      EachPartition good (handleDeleteRecords now data e).1)
    (cleaned : ∀ now, request = .runLogCleaner now → EachPartition good (e.runLogCleaner codec now)) :
    EachPartition good (e.handle codec request) := by
  cases request with
  | initProducerId order req now => exact each.initProducerId ended order req now
  | addPartitionsToTxn txId producerId producerEpoch partitions now =>
    apply each.of_topics
    simp only [EngineState.handle, handleAddPartitionsToTxn]
    split
    · rfl
    · exact foldl_topics (addPartition txId now) (fun _ _ => rfl) partitions e
  | addOffsetsToTxn txId producerId producerEpoch now =>
    apply each.of_topics
    simp only [EngineState.handle, handleAddOffsetsToTxn]
    split
    · rfl
    · rfl
  | txnOffsetCommit txId producerId producerEpoch offsets =>
    apply each.of_topics
    simp only [EngineState.handle, handleTxnOffsetCommit]
    split
    · rfl
    · exact foldl_topics (pendOffset txId) (fun _ _ => rfl) offsets e
  | produce data now => exact produced data now rfl
  | endTxn order txId producerId producerEpoch committed now =>
    simp only [EngineState.handle, handleEndTxn]
    split
    · exact each
    · exact each.completeTxn ended order txId producerId producerEpoch committed now
  | deleteRecords data now => exact deleted data now rfl
  | runLogCleaner now => exact cleaned now rfl

end Each

theorem OnRecord.call {e : EngineState} (onRecord : OnRecord e) (codec : Codec)
    {at' : String × Int} {p : PartitionState} (found : e.partition at' = some p)
    {c : PartitionState.LogCall} (wellSent : c.WellSent p) (leaves : c.LeavesTxns p) :
    OnRecord (e.setPartition at' (p.call codec c)) := by
  obtain ⟨rep, txns⟩ := onRecord at' p found
  exact EachPartition.setPartition onRecord found ⟨rep.call codec wellSent, txns.call rep codec wellSent leaves⟩

theorem OnRecord.producePartition (onRecord : OnRecord e) (codec : Codec) (now : Int)
    {data : (String × Int) × Option Payload}
    (sent : ∀ b, data.2 = some (.batch b) → b.Numbered ∧ PartitionState.SentInTxn b) :
    OnRecord (producePartition codec now e data).1 := by
  rcases producePartition_cases codec now e data with ⟨_, same⟩ | ⟨p, cfg, found, _, result⟩
  · rw [same]
    exact onRecord
  · rw [result]
    exact @OnRecord.call e onRecord codec data.1 p found
      (.produce (partitionLabel data.1) e.producerEpochs cfg data.2 now)
      (fun b isBatch => (sent b isBatch).1) (fun b isBatch => (sent b isBatch).2)

theorem OnRecord.produce (onRecord : OnRecord e) (codec : Codec) (now : Int)
    {data : List ((String × Int) × Option Payload)}
    (sent : ∀ at' b, (at', some (.batch b)) ∈ data → b.Numbered ∧ PartitionState.SentInTxn b) :
    OnRecord (handleProduce codec now data e).1 := by
  induction data generalizing e with
  | nil => exact onRecord
  | cons d rest ih =>
    unfold handleProduce
    apply ih
    · apply onRecord.producePartition codec now
      intro b isBatch
      apply sent d.1 b
      rw [← isBatch]
      exact List.mem_cons_self
    · intro at' b member
      exact sent at' b (List.mem_cons_of_mem d member)

theorem deleteRecords_cases (now : Int) (e : EngineState) (data : (String × Int) × Int) :
    (deleteRecords now e data).1 = e ∨
      ∃ p newStart, e.partition data.1 = some p ∧ newStart ≤ p.highWatermark ∧
        (deleteRecords now e data).1 = e.setPartition data.1 (p.truncateFront newStart now) := by
  unfold deleteRecords partition
  cases e.topics data.1.1 with
  | none => exact Or.inl rfl
  | some topic =>
    simp only [Option.bind_some]
    cases topic.partitions data.1.2 with
    | none => exact Or.inl rfl
    | some p =>
      simp only
      generalize (if data.2 = -1 then p.highWatermark else data.2) = newStart
      split
      · exact Or.inl rfl
      · split
        · exact Or.inl rfl
        · rename_i inRange
          exact Or.inr ⟨p, newStart, rfl, by omega, rfl⟩

theorem OnRecord.deleteRecords (onRecord : OnRecord e) (now : Int) {data : (String × Int) × Int}
    (cuts : CutsNoAborted e (deleteRecords now e data).1) :
    OnRecord (deleteRecords now e data).1 := by
  rcases deleteRecords_cases now e data with same | ⟨p, newStart, found, inRange, result⟩
  · rw [same]
    exact onRecord
  · rw [result] at cuts ⊢
    obtain ⟨rep, txns⟩ := onRecord data.1 p found
    have moved := cuts data.1 p (p.truncateFront newStart now) found
      (by rw [partition_setPartition found, if_pos rfl])
    rw [PartitionState.truncateFront_logStartOffset] at moved
    apply EachPartition.setPartition onRecord found
    refine ⟨rep.truncateFront inRange now, txns.truncateFront rep ?_ now⟩
    intro moves
    rw [max_eq_right (le_of_lt moves)] at moved
    exact moved moves

theorem OnRecord.deleteAll (onRecord : OnRecord e) (now : Int)
    {data : List ((String × Int) × Int)} (cuts : DeletesNoAborted now data e) :
    OnRecord (handleDeleteRecords now data e).1 := by
  induction data generalizing e with
  | nil => exact onRecord
  | cons d rest ih =>
    unfold handleDeleteRecords
    exact ih (onRecord.deleteRecords now cuts.1) cuts.2

theorem partition_runLogCleaner (codec : Codec) (now : Int) (e : EngineState)
    (at' : String × Int) :
    ((e.runLogCleaner codec now).partition at' = e.partition at') ∨
      ∃ cfg, (e.runLogCleaner codec now).partition at' =
        (e.partition at').map (cleanPartition codec cfg now) := by
  unfold runLogCleaner partition
  cases found : e.topics at'.1 with
  | none => simp [found]
  | some topic =>
    cases isInternal : topic.isInternal with
    | true => simp [found, isInternal]
    | false =>
      right
      exact ⟨topic.configs, by simp [found, isInternal]⟩

theorem OnRecord.runLogCleaner (onRecord : OnRecord e) (codec : Codec) {now : Int}
    (cuts : CutsNoAborted e (e.runLogCleaner codec now)) :
    OnRecord (e.runLogCleaner codec now) := by
  intro at' p' found'
  rcases partition_runLogCleaner codec now e at' with same | ⟨cfg, cleaned⟩
  · rw [same] at found'
    exact onRecord at' p' found'
  · rw [cleaned] at found'
    obtain ⟨p, found, rfl⟩ := Option.map_eq_some_iff.mp found'
    obtain ⟨rep, txns⟩ := onRecord at' p found
    have keeps := cuts at' p _ found (by rw [cleaned, found]; rfl)
    exact ⟨(rep.compact codec cfg now).applyRetention cfg now,
      txns.cleanPartition rep codec keeps⟩

theorem OnRecord.handle (onRecord : OnRecord e) (codec : Codec) {request : Request}
    (leaves : request.LeavesTxns codec e) : OnRecord (e.handle codec request) := by
  refine EachPartition.handle_of ?_ onRecord ?_ ?_ ?_
  · rintro p producerId producerEpoch committed now ⟨rep, txns⟩
    exact ⟨rep.call codec trivial, txns.call rep codec trivial trivial⟩
  · rintro data now rfl
    exact onRecord.produce codec now leaves
  · rintro data now rfl
    exact onRecord.deleteAll now leaves
  · rintro now rfl
    exact onRecord.runLogCleaner codec leaves

theorem OnRecord.run (codec : Codec) (requests : List Request) (onRecord : OnRecord e)
    (along : AlongRequests codec (fun e request => request.LeavesTxns codec e) e requests) :
    OnRecord (e.run codec requests) := by
  induction requests generalizing e with
  | nil => exact onRecord
  | cons request rest ih => exact ih (onRecord.handle codec along.1) along.2

def Fresh (topics : String → Option TopicState) : Prop :=
  ∀ at' p, (started topics).partition at' = some p → p = {}

theorem Fresh.onRecord {topics : String → Option TopicState} (fresh : Fresh topics) :
    OnRecord (started topics) := by
  intro at' p found
  rw [fresh at' p found]
  exact ⟨PartitionState.rep_new, PartitionState.txns_new⟩

/-- What the consumer makes of the answer to a fetch is what was committed in its range. -/
def Isolated (e : EngineState) (at' : String × Int) (p : PartitionState) (fetchOffset : Int) :
    Prop :=
  ∃ data, e.handleFetch true at' fetchOffset = some data ∧
    PartitionState.consumed data fetchOffset =
      p.committedBetween fetchOffset p.lastStableOffset

/-- After a run that cuts no aborted transaction, a read_committed consumer sees exactly the
committed records if and only if the fetch is safe. -/
theorem run_isolated_iff (codec : Codec) {topics : String → Option TopicState}
    (fresh : Fresh topics) (requests : List Request)
    (along : AlongRequests codec (fun e request => request.LeavesTxns codec e) (started topics)
      requests) {at' : String × Int} {p : PartitionState}
    (found : ((started topics).run codec requests).partition at' = some p) {fetchOffset : Int}
    (lower : p.logStartOffset ≤ fetchOffset) (upper : fetchOffset ≤ p.highWatermark) :
    ((started topics).run codec requests).Isolated at' p fetchOffset ↔ p.FetchSafe fetchOffset := by
  obtain ⟨rep, txns⟩ := fresh.onRecord.run codec requests along at' p found
  have answered : ((started topics).run codec requests).handleFetch true at' fetchOffset =
      some (p.fetch true fetchOffset) := by
    simp [handleFetch, found]
  rw [← PartitionState.consumed_eq_iff rep txns lower upper]
  constructor
  · intro ⟨data, isData, same⟩
    obtain rfl := Option.some.inj (answered.symm.trans isData)
    exact same
  · intro same
    exact ⟨_, answered, same⟩

def abortedThenCommitted (order : HashOrder (String × Int)) : List Request :=
  [.initProducerId order { transactionalId := some "tx" } 0,
    .addPartitionsToTxn "tx" 1000 0 [("t", 0)] 0,
    .produce [(("t", 0), some (.batch (transactionalBatch 0)))] 0,
    .endTxn order "tx" 1000 0 false 0,
    .addPartitionsToTxn "tx" 1000 0 [("t", 0)] 0,
    .produce [(("t", 0), some (.batch (transactionalBatch 1)))] 0,
    .endTxn order "tx" 1000 0 true 0]

theorem transactionalBatch_sent (sequence : Int) :
    (transactionalBatch sequence).Numbered ∧ PartitionState.SentInTxn (transactionalBatch sequence) := by
  refine ⟨⟨le_refl 0, ?_⟩, rfl, fun _ => ?_⟩
  · intro entries isEntries
    cases isEntries
    rfl
  · show (0 : Int) ≤ 1000
    decide

theorem fresh_twoPartitions : Fresh twoPartitions := by
  intro at' p found
  obtain ⟨topic, isTopic, isP⟩ := Option.bind_eq_some_iff.mp found
  simp only [started, twoPartitions] at isTopic
  split at isTopic
  · obtain rfl := Option.some.inj isTopic
    simp only at isP
    split at isP
    · exact (Option.some.inj isP).symm
    · cases isP
  · cases isTopic

theorem produce_leavesTxns (codec : Codec) (e : EngineState) (at' : String × Int)
    (sequence now : Int) :
    Request.LeavesTxns codec e (.produce [(at', some (.batch (transactionalBatch sequence)))] now) := by
  intro other b member
  simp only [List.mem_singleton, Prod.mk.injEq, Option.some.injEq, Payload.batch.injEq] at member
  rw [member.2]
  exact transactionalBatch_sent sequence

theorem abortedThenCommitted_leavesTxns (codec : Codec) (order : HashOrder (String × Int)) :
    AlongRequests codec (fun e request => request.LeavesTxns codec e) (started twoPartitions)
      (abortedThenCommitted order) :=
  ⟨trivial, trivial, produce_leavesTxns codec _ _ 0 0, trivial, trivial,
    produce_leavesTxns codec _ _ 1 0, trivial, trivial⟩

noncomputable def twoTxns : PartitionState :=
  (((started twoPartitions).run PartitionState.hundredBytes
    (abortedThenCommitted zeroFirst)).partition ("t", 0)).getD {}

theorem run_isolated_iff_committed :
    ((started twoPartitions).run PartitionState.hundredBytes
        (abortedThenCommitted zeroFirst)).partition ("t", 0) = some twoTxns ∧
      twoTxns.FetchSafe 0 := by
  have found : ((started twoPartitions).run PartitionState.hundredBytes
    (abortedThenCommitted zeroFirst)).partition ("t", 0) = some twoTxns := rfl
  have along := abortedThenCommitted_leavesTxns PartitionState.hundredBytes zeroFirst
  refine ⟨found, ?_⟩
  apply (run_isolated_iff PartitionState.hundredBytes fresh_twoPartitions
    (abortedThenCommitted zeroFirst) along found (le_refl (0 : Int)) (Int.le.intro 4 rfl)).mp
  exact ⟨_, rfl, rfl⟩

/-- A fetch at the committed record comes without the abort marker, and the consumer drops
the record. -/
theorem run_committedHidden :
    ¬ ∀ (codec : Codec) (topics : String → Option TopicState) (requests : List Request),
      Fresh topics →
      AlongRequests codec (fun e request => request.LeavesTxns codec e) (started topics) requests →
      ∀ at' p, ((started topics).run codec requests).partition at' = some p →
        ∀ fetchOffset, p.logStartOffset ≤ fetchOffset → fetchOffset ≤ p.highWatermark →
          ((started topics).run codec requests).Isolated at' p fetchOffset := by
  intro claimed
  obtain ⟨data, answered, same⟩ := claimed PartitionState.hundredBytes twoPartitions
    (abortedThenCommitted zeroFirst) fresh_twoPartitions (abortedThenCommitted_leavesTxns _ _)
    ("t", 0) twoTxns rfl 2 (Int.le.intro 2 rfl) (Int.le.intro 2 rfl)
  obtain rfl := Option.some.inj answered
  have counts := congrArg List.length same
  cases counts

end EngineState

end NoidaDb.Kafka
