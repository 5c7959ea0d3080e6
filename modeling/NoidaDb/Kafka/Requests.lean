/-
Runs of requests.

The broker starts with its topics, their partitions empty, and handles one request after
the other.  A pass of the cleaner comes between requests.
-/

import NoidaDb.Kafka.Engine

namespace NoidaDb.Kafka

noncomputable def HashOrder.inTurn {α : Type} [DecidableEq α] (known : List α)
    (distinct : known.Nodup) : HashOrder α where
  list := fun s => if s ⊆ known.toFinset then known.filter (fun a => decide (a ∈ s)) else s.toList
  nodup := by
    intro s
    split
    · exact distinct.filter _
    · exact s.nodup_toList
  mem := by
    intro s a
    split
    · rename_i inside
      simp only [List.mem_filter, decide_eq_true_eq, and_iff_right_iff_imp]
      intro member
      exact List.mem_toFinset.mp (inside member)
    · exact Finset.mem_toList

inductive Request where
  | initProducerId (order : HashOrder (String × Int)) (req : EngineState.InitProducerIdRequest)
      (now : Int)
  | addPartitionsToTxn (txId : String) (producerId producerEpoch : Int)
      (partitions : List (String × Int)) (now : Int)
  | addOffsetsToTxn (txId : String) (producerId producerEpoch now : Int)
  | txnOffsetCommit (txId : String) (producerId producerEpoch : Int)
      (offsets : List PendingTxnOffset)
  | produce (data : List ((String × Int) × Option Payload)) (now : Int)
  | endTxn (order : HashOrder (String × Int)) (txId : String) (producerId producerEpoch : Int)
      (committed : Bool) (now : Int)
  | deleteRecords (data : List ((String × Int) × Int)) (now : Int)
  | runLogCleaner (now : Int)

namespace EngineState

def handle (codec : Codec) (e : EngineState) : Request → EngineState
  | .initProducerId order req now => (e.handleInitProducerId codec order req now).1
  | .addPartitionsToTxn txId producerId producerEpoch partitions now =>
    (e.handleAddPartitionsToTxn txId producerId producerEpoch partitions now).1
  | .addOffsetsToTxn txId producerId producerEpoch now =>
    (e.handleAddOffsetsToTxn txId producerId producerEpoch now).1
  | .txnOffsetCommit txId producerId producerEpoch offsets =>
    (e.handleTxnOffsetCommit txId producerId producerEpoch offsets).1
  | .produce data now => (handleProduce codec now data e).1
  | .endTxn order txId producerId producerEpoch committed now =>
    (e.handleEndTxn codec order txId producerId producerEpoch committed now).1
  | .deleteRecords data now => (handleDeleteRecords now data e).1
  | .runLogCleaner now => e.runLogCleaner codec now

def run (codec : Codec) (e : EngineState) (requests : List Request) : EngineState :=
  requests.foldl (handle codec) e

def started (topics : String → Option TopicState) : EngineState := { topics := topics }

end EngineState

end NoidaDb.Kafka
