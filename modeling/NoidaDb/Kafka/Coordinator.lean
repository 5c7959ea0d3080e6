/-
The group coordinator in the engine: membership requests, and committed offsets.
-/

import Mathlib.Data.Finset.Sort
import Mathlib.Data.String.Basic
import NoidaDb.Kafka.Engine

namespace NoidaDb.Kafka

open Lib

structure OffsetCommitRequest where
  groupId : String
  generationIdOrMemberEpoch : Int := -1
  memberId : String := ""
  groupInstanceId : Option String := none
  /-- Each partition with its offset and metadata. -/
  partitions : List ((String × Int) × Int × Option String)

abbrev OffsetFetchTopics := List (String × List Int)

structure OffsetFetchRequest where
  groupId : String := ""
  /-- `none` asks for all topics. -/
  topics : Option OffsetFetchTopics := none
  /-- From version 8 on. -/
  groups : List (String × Option OffsetFetchTopics) := []

structure FetchedOffset where
  partitionIndex : Int
  committedOffset : Int
  metadata : String := ""
deriving Repr, DecidableEq

abbrev FetchedTopics := List (String × List FetchedOffset)

structure OffsetFetchResponse where
  topics : FetchedTopics := []
  groups : List (String × FetchedTopics) := []

namespace EngineState

def withGroup {α : Type} (e : EngineState) (groupId : String) (handled : Option GroupState × α) :
    EngineState × α :=
  ({ e with groups := Function.update e.groups groupId handled.1 }, handled.2)

def handleJoinGroup (order : HashOrder String) (version : Int) (req : JoinGroupRequest)
    (newId : String) (now instant : Int) (e : EngineState) : EngineState × JoinGroupResponse :=
  e.withGroup req.groupId
    (GroupState.joinGroup order version req newId now instant (e.groups req.groupId))

def handleSyncGroup (order : HashOrder String) (req : SyncGroupRequest) (e : EngineState) :
    EngineState × SyncGroupResponse :=
  e.withGroup req.groupId (GroupState.syncGroup order req (e.groups req.groupId))

def handleHeartbeat (order : HashOrder String) (req : HeartbeatRequest) (now : Int)
    (e : EngineState) : EngineState × Int :=
  e.withGroup req.groupId (GroupState.heartbeat order req now (e.groups req.groupId))

def handleLeaveGroup (order : HashOrder String) (version : Int) (req : LeaveGroupRequest)
    (instant : Int) (e : EngineState) : EngineState × LeaveGroupResponse :=
  e.withGroup req.groupId
    (GroupState.leaveGroup order version req instant (e.groups req.groupId))

def forceRound (groupId : String) (e : EngineState) : EngineState :=
  { e with groups := Function.update e.groups groupId ((e.groups groupId).map GroupState.forceRound) }

def tryCompleteJoin (order : HashOrder String) (groupId : String) (instant : Int)
    (e : EngineState) : EngineState :=
  { e with
    groups := Function.update e.groups groupId
      ((e.groups groupId).map (GroupState.tryCompleteJoin order instant)) }

def offsetMetadataOf (e : EngineState) (key : String × String × Int) : String :=
  (e.offsetMetadata key).getD ""

def groupIsLive (e : EngineState) (groupId : String) : Bool :=
  (GroupState.live (e.groups groupId)).isSome

def groupHasOffsets (e : EngineState) (groupId : String) : Bool :=
  decide (∃ key ∈ e.committedOffsets.keys, key.1 = groupId)

def dropGroupOffsets (e : EngineState) (groupId : String) : EngineState :=
  { e with
    committedOffsets := e.committedOffsets.restrict (fun key => decide (key.1 ≠ groupId))
    offsetMetadata := e.offsetMetadata.restrict (fun key => decide (key.1 ≠ groupId)) }

/-- One partition of an OffsetCommit; `error` is what the group says to all of them. -/
def commitPartition (error : Int) (groupId : String) (e : EngineState)
    (entry : (String × Int) × Int × Option String) : EngineState × Int :=
  if error ≠ 0 then (e, error)
  else if (e.partition entry.1).isNone then (e, 3)
  else
    (e.commitOffset
      { key := (groupId, entry.1.1, entry.1.2), offset := entry.2.1, metadata := entry.2.2 }, 0)

def commitPartitions (error : Int) (groupId : String) :
    List ((String × Int) × Int × Option String) → EngineState → EngineState × List Int
  | [], e => (e, [])
  | entry :: rest, e =>
    let first := commitPartition error groupId e entry
    let later := commitPartitions error groupId rest first.1
    (later.1, first.2 :: later.2)

def handleOffsetCommit (order : HashOrder String) (req : OffsetCommitRequest) (e : EngineState) :
    EngineState × List Int :=
  let error := GroupState.commitError order req.groupId req.memberId req.generationIdOrMemberEpoch
    req.groupInstanceId (e.groups req.groupId)
  commitPartitions error req.groupId req.partitions e

def fetchedOffset (e : EngineState) (groupId topic : String) (partitionIndex : Int) :
    FetchedOffset :=
  match e.committedOffsets (groupId, topic, partitionIndex) with
  | some offset =>
    { partitionIndex := partitionIndex
      committedOffset := offset
      metadata := e.offsetMetadataOf (groupId, topic, partitionIndex) }
  | none => { partitionIndex := partitionIndex, committedOffset := -1 }

def fetchTopics (e : EngineState) (groupId : String) (topics : OffsetFetchTopics) : FetchedTopics :=
  topics.map (fun topic => (topic.1, topic.2.map (e.fetchedOffset groupId topic.1)))

def fetchAllTopics (e : EngineState) (groupId : String) : FetchedTopics :=
  let keys := e.committedOffsets.keys.filter (fun key => key.1 = groupId)
  ((keys.image (fun key => key.2.1)).sort (· ≤ ·)).map (fun topic =>
    let partitions := (keys.filter (fun key => key.2.1 = topic)).image (fun key => key.2.2)
    (topic, (partitions.sort (· ≤ ·)).map (fun partitionIndex =>
      { partitionIndex := partitionIndex
        committedOffset := (e.committedOffsets (groupId, topic, partitionIndex)).getD 0
        metadata := e.offsetMetadataOf (groupId, topic, partitionIndex) })))

def fetchGroup (e : EngineState) (groupId : String) (topics : Option OffsetFetchTopics) :
    FetchedTopics :=
  match topics with
  | some topics => e.fetchTopics groupId topics
  | none => e.fetchAllTopics groupId

def handleOffsetFetch (e : EngineState) (version : Int) (req : OffsetFetchRequest) :
    OffsetFetchResponse :=
  if 8 ≤ version ∧ (req.groups ≠ [] ∨ req.groupId = "") then
    { groups := req.groups.map (fun group => (group.1, e.fetchGroup group.1 group.2)) }
  else { topics := e.fetchGroup req.groupId req.topics }

def deleteOffset (groupId : String) (e : EngineState) (at' : String × Int) : EngineState :=
  { e with
    committedOffsets := e.committedOffsets.erase (groupId, at'.1, at'.2)
    offsetMetadata := e.offsetMetadata.erase (groupId, at'.1, at'.2) }

def handleOffsetDelete (groupId : String) (partitions : List (String × Int)) (e : EngineState) :
    EngineState × Int :=
  if !e.groupIsLive groupId && !e.groupHasOffsets groupId then (e, 69)
  else (partitions.foldl (deleteOffset groupId) e, 0)

def buryGroup (e : EngineState) (groupId : String) : EngineState :=
  { e with
    groups := Function.update e.groups groupId
      ((e.groups groupId).map GroupState.bury) }.dropGroupOffsets groupId

def deleteGroup (e : EngineState) (groupId : String) : EngineState × Int :=
  if (GroupState.live (e.groups groupId)).any (fun g => decide (g.state ≠ .empty)) then (e, 68)
  else if e.groupIsLive groupId || e.groupHasOffsets groupId then (e.buryGroup groupId, 0)
  else (e, 69)

def handleDeleteGroups : List String → EngineState → EngineState × List Int
  | [], e => (e, [])
  | groupId :: rest, e =>
    let first := e.deleteGroup groupId
    let later := handleDeleteGroups rest first.1
    (later.1, first.2 :: later.2)

end EngineState

end NoidaDb.Kafka
