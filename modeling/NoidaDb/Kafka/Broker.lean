/-
Runs of the whole broker: every request, topic administration, autosaves and restarts.

The sections of a request that waits are events of their own, so that anything may come
between them.
-/

import NoidaDb.Kafka.Coordinator
import NoidaDb.Kafka.Requests
import NoidaDb.Kafka.Snapshot

namespace NoidaDb.Kafka

open Lib

inductive Event where
  | request (r : Request)
  | joinGroup (order : HashOrder String) (version : Int) (req : JoinGroupRequest) (newId : String)
      (now instant : Int)
  /-- A look at the group by a JoinGroup that was accepted with `response`. -/
  | pollJoin (order : HashOrder String) (req : JoinGroupRequest) (response : JoinGroupResponse)
      (now : Int)
  | forceRound (groupId : String)
  | tryCompleteJoin (order : HashOrder String) (groupId : String) (instant : Int)
  | syncGroup (order : HashOrder String) (req : SyncGroupRequest)
  | heartbeat (order : HashOrder String) (req : HeartbeatRequest) (now : Int)
  | leaveGroup (order : HashOrder String) (version : Int) (req : LeaveGroupRequest) (instant : Int)
  | offsetCommit (order : HashOrder String) (req : OffsetCommitRequest)
  | offsetDelete (groupId : String) (partitions : List (String × Int))
  | deleteGroups (groupIds : List String)
  | createTopic (name : String) (count : Int) (configs : LogConfig)
  | createPartition (at' : String × Int)
  | alterConfigs (name : String) (configs : LogConfig)
  | deleteTopics (names : List String)
  | snapshot (order : HashOrder (Int × Int)) (now : Int)
      (aside : List ((String × Int) × PartitionState))
  | restart (order : HashOrder (Int × Int)) (now : Int) (s : Snapshot)

namespace EngineState

def createTopic (name : String) (count : Int) (configs : LogConfig) (e : EngineState) :
    EngineState :=
  { e with
    topics := Function.update e.topics name
      ((e.topics name).or (some (TopicState.new false count configs))) }

def createPartition (at' : String × Int) (e : EngineState) : EngineState :=
  { e with
    topics := Function.update e.topics at'.1 ((e.topics at'.1).map (fun t =>
      { t with
        partitions := Function.update t.partitions at'.2 ((t.partitions at'.2).or (some {})) })) }

def alterConfigs (name : String) (configs : LogConfig) (e : EngineState) : EngineState :=
  { e with
    topics := Function.update e.topics name
      ((e.topics name).map (fun t => { t with configs := configs })) }

def handleDeleteTopics (names : List String) (e : EngineState) : EngineState :=
  { e with topics := fun name => if name ∈ names then none else e.topics name }

def next (codec : Codec) (e : EngineState) : Event → EngineState
  | .request r => e.handle codec r
  | .joinGroup order version req newId now instant =>
    (e.handleJoinGroup order version req newId now instant).1
  | .pollJoin _ _ _ _ => e
  | .forceRound groupId => e.forceRound groupId
  | .tryCompleteJoin order groupId instant => e.tryCompleteJoin order groupId instant
  | .syncGroup order req => (e.handleSyncGroup order req).1
  | .heartbeat order req now => (e.handleHeartbeat order req now).1
  | .leaveGroup order version req instant => (e.handleLeaveGroup order version req instant).1
  | .offsetCommit order req => (e.handleOffsetCommit order req).1
  | .offsetDelete groupId partitions => (e.handleOffsetDelete groupId partitions).1
  | .deleteGroups groupIds => (handleDeleteGroups groupIds e).1
  | .createTopic name count configs => e.createTopic name count configs
  | .createPartition at' => e.createPartition at'
  | .alterConfigs name configs => e.alterConfigs name configs
  | .deleteTopics names => e.handleDeleteTopics names
  | .snapshot order now aside => e.snapshot codec order now aside
  | .restart _ _ s => fromSnapshot s

def runEvents (codec : Codec) (e : EngineState) (events : List Event) : EngineState :=
  events.foldl (next codec) e

/-- An autosave sets aside the partitions with open transactions, and a restart reads what
was saved of the state. -/
def Legal (codec : Codec) (e : EngineState) : Event → Prop
  | .snapshot _ _ aside => Lists Eq aside e.openPartitions
  | .restart order now s => (e.resolveOpenTransactionsForShutdown codec order now).SavedAs s
  | _ => True

def AlongEvents (codec : Codec) (condition : EngineState → Event → Prop) :
    EngineState → List Event → Prop
  | _, [] => True
  | e, event :: rest => condition e event ∧ AlongEvents codec condition (e.next codec event) rest

theorem runEvents_keeps {codec : Codec} {condition : EngineState → Event → Prop}
    {invariant : EngineState → Prop}
    (step : ∀ e event, invariant e → condition e event → invariant (e.next codec event))
    (events : List Event) {e : EngineState} (initially : invariant e)
    (along : AlongEvents codec condition e events) : invariant (e.runEvents codec events) := by
  induction events generalizing e with
  | nil => exact initially
  | cons event rest ih => exact ih (step e event initially along.1) along.2

end EngineState

end NoidaDb.Kafka
