/-
What the events leave alone.
-/

import NoidaDb.Kafka.Broker
import NoidaDb.Kafka.TxnEnd

namespace NoidaDb.Kafka

open Lib

namespace EngineState

def LogsOnly (e e' : EngineState) : Prop := ∃ topics, e' = { e with topics := topics }

theorem LogsOnly.refl (e : EngineState) : LogsOnly e e := ⟨e.topics, rfl⟩

variable {e e' : EngineState}

theorem LogsOnly.trans {e'' : EngineState} (first : LogsOnly e e') (second : LogsOnly e' e'') :
    LogsOnly e e'' := by
  obtain ⟨topics, same⟩ := first
  obtain ⟨later, sameLater⟩ := second
  subst same
  exact ⟨later, sameLater⟩

theorem logsOnly_setPartition (e : EngineState) (at' : String × Int) (p : PartitionState) :
    LogsOnly e (e.setPartition at' p) := ⟨_, rfl⟩

theorem logsOnly_producePartition (codec : Codec) (now : Int) (e : EngineState)
    (data : (String × Int) × Option Payload) :
    LogsOnly e (producePartition codec now e data).1 := by
  unfold producePartition
  cases e.topics data.1.1 with
  | none => exact LogsOnly.refl e
  | some topic =>
    simp only
    cases topic.partitions data.1.2 with
    | none => exact LogsOnly.refl e
    | some p => exact logsOnly_setPartition e data.1 _

theorem logsOnly_handleProduce (codec : Codec) (now : Int)
    (data : List ((String × Int) × Option Payload)) (e : EngineState) :
    LogsOnly e (handleProduce codec now data e).1 := by
  induction data generalizing e with
  | nil => exact LogsOnly.refl e
  | cons d rest ih => exact (logsOnly_producePartition codec now e d).trans (ih _)

theorem logsOnly_deleteRecords (now : Int) (e : EngineState) (data : (String × Int) × Int) :
    LogsOnly e (deleteRecords now e data).1 := by
  unfold deleteRecords
  cases e.topics data.1.1 with
  | none => exact LogsOnly.refl e
  | some topic =>
    simp only
    cases topic.partitions data.1.2 with
    | none => exact LogsOnly.refl e
    | some p =>
      simp only
      generalize (if data.2 = -1 then p.highWatermark else data.2) = offset
      split
      · exact LogsOnly.refl e
      · split
        · exact LogsOnly.refl e
        · exact logsOnly_setPartition e data.1 _

theorem logsOnly_handleDeleteRecords (now : Int) (data : List ((String × Int) × Int))
    (e : EngineState) : LogsOnly e (handleDeleteRecords now data e).1 := by
  induction data generalizing e with
  | nil => exact LogsOnly.refl e
  | cons d rest ih => exact (logsOnly_deleteRecords now e d).trans (ih _)

theorem logsOnly_snapshot (codec : Codec) (order : HashOrder (Int × Int)) (now : Int)
    (aside : List ((String × Int) × PartitionState)) (e : EngineState) :
    LogsOnly e (e.snapshot codec order now aside) := by
  unfold snapshot
  have resolved : LogsOnly e (e.resolveOpenTransactionsForShutdown codec order now) := ⟨_, rfl⟩
  apply resolved.trans
  generalize e.resolveOpenTransactionsForShutdown codec order now = resolvedState
  induction aside generalizing resolvedState with
  | nil => exact LogsOnly.refl resolvedState
  | cons x rest ih => exact (logsOnly_setPartition resolvedState x.1 x.2).trans (ih _)

def OffsetsOnly (e e' : EngineState) : Prop :=
  ∃ offsets metadata, e' = { e with committedOffsets := offsets, offsetMetadata := metadata }

theorem OffsetsOnly.refl (e : EngineState) : OffsetsOnly e e :=
  ⟨e.committedOffsets, e.offsetMetadata, rfl⟩

theorem OffsetsOnly.trans {e'' : EngineState} (first : OffsetsOnly e e')
    (second : OffsetsOnly e' e'') : OffsetsOnly e e'' := by
  obtain ⟨offsets, metadata, same⟩ := first
  obtain ⟨laterOffsets, laterMetadata, sameLater⟩ := second
  subst same
  exact ⟨laterOffsets, laterMetadata, sameLater⟩

theorem OffsetsOnly.foldl {α : Type} {step : EngineState → α → EngineState}
    (only : ∀ e a, OffsetsOnly e (step e a)) (items : List α) (e : EngineState) :
    OffsetsOnly e (items.foldl step e) := by
  induction items generalizing e with
  | nil => exact OffsetsOnly.refl e
  | cons a rest ih => exact (only e a).trans (ih (step e a))

theorem offsetsOnly_commitOffset (e : EngineState) (pending : PendingTxnOffset) :
    OffsetsOnly e (e.commitOffset pending) := ⟨_, _, rfl⟩

theorem offsetsOnly_deleteOffset (groupId : String) (e : EngineState) (at' : String × Int) :
    OffsetsOnly e (e.deleteOffset groupId at') := ⟨_, _, rfl⟩

theorem offsetsOnly_commitPartitions (error : Int) (groupId : String)
    (entries : List ((String × Int) × Int × Option String)) (e : EngineState) :
    OffsetsOnly e (commitPartitions error groupId entries e).1 := by
  induction entries generalizing e with
  | nil => exact OffsetsOnly.refl e
  | cons entry rest ih =>
    have here : OffsetsOnly e (commitPartition error groupId e entry).1 := by
      unfold commitPartition
      split
      · exact OffsetsOnly.refl e
      · split
        · exact OffsetsOnly.refl e
        · exact offsetsOnly_commitOffset e _
    exact here.trans (ih _)

theorem offsetsOnly_handleOffsetDelete (groupId : String) (partitions : List (String × Int))
    (e : EngineState) : OffsetsOnly e (e.handleOffsetDelete groupId partitions).1 := by
  unfold handleOffsetDelete
  split
  · exact OffsetsOnly.refl e
  · exact OffsetsOnly.foldl (offsetsOnly_deleteOffset groupId) partitions e

theorem LogsOnly.groups (only : LogsOnly e e') : e'.groups = e.groups := by
  obtain ⟨topics, same⟩ := only
  rw [same]

theorem OffsetsOnly.groups (only : OffsetsOnly e e') : e'.groups = e.groups := by
  obtain ⟨offsets, metadata, same⟩ := only
  rw [same]

theorem groups_endOffsets (e : EngineState) (txId : String) (committed : Bool) :
    (e.endOffsets txId committed).groups = e.groups := by
  cases committed with
  | false => rfl
  | true =>
    exact (OffsetsOnly.foldl offsetsOnly_commitOffset ((e.txnPendingOffsets txId).getD [])
      { e with txnPendingOffsets := Function.update e.txnPendingOffsets txId none }).groups

theorem groups_completeTxn (codec : Codec) (order : HashOrder (String × Int)) (txId : String)
    (producerId producerEpoch : Int) (committed : Bool) (now : Int) (e : EngineState) :
    (e.completeTxn codec order txId producerId producerEpoch committed now).1.groups = e.groups := by
  unfold completeTxn
  cases e.txnPartitions txId with
  | none => exact groups_endOffsets e txId committed
  | some partitions =>
    simp only
    obtain ⟨topics, ended⟩ := endPartitions_frame codec producerId producerEpoch committed now
      (order.list partitions)
      { e with txnPartitions := Function.update e.txnPartitions txId none }
    split
    · rw [ended, groups_endOffsets]
    · rw [ended]

theorem groups_handleInitProducerId (codec : Codec) (order : HashOrder (String × Int))
    (req : InitProducerIdRequest) (now : Int) (e : EngineState) :
    (e.handleInitProducerId codec order req now).1.groups = e.groups := by
  unfold handleInitProducerId
  split
  · rfl
  · split
    · rfl
    · simp only
      have counted : (if (req.transactionalId.bind e.txnProducers).isSome = true then e
          else { e with nextProducerId := e.nextProducerId + 1 }).groups = e.groups := by
        split
        · rfl
        · rfl
      generalize (if (req.transactionalId.bind e.txnProducers).isSome = true then e
        else { e with nextProducerId := e.nextProducerId + 1 }) = e₁ at counted ⊢
      cases req.transactionalId with
      | none => exact counted
      | some tid =>
        simp only
        split
        · rw [groups_completeTxn]
          exact counted
        · exact counted

theorem foldl_groups {α : Type} (step : EngineState → α → EngineState)
    (keeps : ∀ e a, (step e a).groups = e.groups) (items : List α) (e : EngineState) :
    (items.foldl step e).groups = e.groups := by
  induction items generalizing e with
  | nil => rfl
  | cons a rest ih => rw [List.foldl_cons, ih, keeps]

theorem groups_handle (codec : Codec) (e : EngineState) (request : Request) :
    (e.handle codec request).groups = e.groups := by
  cases request with
  | initProducerId order req now => exact groups_handleInitProducerId codec order req now e
  | addPartitionsToTxn txId producerId producerEpoch partitions now =>
    simp only [handle, handleAddPartitionsToTxn]
    split
    · rfl
    · exact foldl_groups (addPartition txId now) (fun _ _ => rfl) partitions e
  | addOffsetsToTxn txId producerId producerEpoch now =>
    simp only [handle, handleAddOffsetsToTxn]
    split
    · rfl
    · rfl
  | txnOffsetCommit txId producerId producerEpoch offsets =>
    simp only [handle, handleTxnOffsetCommit]
    split
    · rfl
    · exact foldl_groups (pendOffset txId) (fun _ _ => rfl) offsets e
  | produce data now => exact (logsOnly_handleProduce codec now data e).groups
  | endTxn order txId producerId producerEpoch committed now =>
    simp only [handle, handleEndTxn]
    split
    · rfl
    · exact groups_completeTxn codec order txId producerId producerEpoch committed now e
  | deleteRecords data now => exact (logsOnly_handleDeleteRecords now data e).groups
  | runLogCleaner now => rfl

end EngineState

end NoidaDb.Kafka
