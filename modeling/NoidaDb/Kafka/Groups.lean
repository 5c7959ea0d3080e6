/-
Consumer groups: the state of one group and what each request does to it.

A JoinGroup first joins the round and then polls the group until the round is complete; a poll and
what follows it are sections of their own.
-/

import Mathlib.Data.Finset.Erase
import NoidaDb.Kafka.Log
import NoidaDb.Lib.FiniteMaps

namespace NoidaDb.Kafka

open Lib

structure HashOrder (α : Type) [DecidableEq α] where
  list : Finset α → List α
  nodup : ∀ s, (list s).Nodup
  mem : ∀ s a, a ∈ list s ↔ a ∈ s

inductive GroupLifecycleState where
  | empty
  | preparingRebalance
  | completingRebalance
  | stable
  | dead
deriving Repr, DecidableEq

abbrev Protocols := List (String × Bytes)

structure GroupMember where
  memberId : String
  groupInstanceId : Option String := none
  sessionTimeoutMs : Int
  rebalanceTimeoutMs : Int
  protocols : Protocols
  lastHeartbeatMs : Int
  assignment : Bytes := []
deriving Repr, DecidableEq

structure GroupState where
  state : GroupLifecycleState := .empty
  protocolType : String := ""
  protocolName : Option String := none
  generationId : Int := 0
  leaderId : Option String := none
  members : FiniteMap String GroupMember := .empty
  pendingMemberIds : Finset String := ∅
  awaitingMembers : FiniteMap String Protocols := .empty
  assignments : FiniteMap String Bytes := .empty
  rebalanceStartMs : Int := 0
  /-- Until when the first round of a new group waits for more members. -/
  initialUntil : Option Int := none

def initialRebalanceDelay : Int := 300

structure JoinGroupRequest where
  groupId : String
  memberId : String := ""
  groupInstanceId : Option String := none
  sessionTimeoutMs : Int
  rebalanceTimeoutMs : Int
  protocolType : String
  protocols : Protocols

structure JoinGroupResponseMember where
  memberId : String
  groupInstanceId : Option String
  metadata : Bytes
deriving Repr, DecidableEq

structure JoinGroupResponse where
  errorCode : Int := 0
  generationId : Int := -1
  protocolType : Option String := none
  protocolName : Option String := some ""
  leader : String := ""
  memberId : String := ""
  members : List JoinGroupResponseMember := []
deriving Repr, DecidableEq

structure SyncGroupRequest where
  groupId : String
  generationId : Int
  memberId : String
  groupInstanceId : Option String := none
  assignments : List (String × Bytes) := []

structure SyncGroupResponse where
  errorCode : Int := 0
  assignment : Bytes := []
deriving Repr, DecidableEq

structure HeartbeatRequest where
  groupId : String
  generationId : Int
  memberId : String
  groupInstanceId : Option String := none

structure LeaveGroupRequest where
  groupId : String
  /-- Before version 3. -/
  memberId : String := ""
  /-- Members by id or, with an empty id, by instance id. -/
  members : List (String × Option String) := []

structure LeaveGroupResponse where
  errorCode : Int := 0
  members : List (String × Int) := []
deriving Repr, DecidableEq

namespace GroupState

def live (group : Option GroupState) : Option GroupState :=
  group.filter (fun g => decide (g.state ≠ .dead))

def memberForInstance (order : HashOrder String) (g : GroupState) (instanceId : String) :
    Option String :=
  (((order.list g.members.keys).filterMap g.members.get).find?
    (fun m => decide (m.groupInstanceId = some instanceId))).map GroupMember.memberId

def isFencedInstance (order : HashOrder String) (g : GroupState) (instanceId : Option String)
    (memberId : String) : Bool :=
  instanceId.any (fun id => (g.memberForInstance order id).any (fun m => decide (m ≠ memberId)))

def agreedProtocol (order : HashOrder String) (awaiting : FiniteMap String Protocols)
    (leaderProtocols : Protocols) : Option String :=
  (leaderProtocols.find? (fun p =>
    ((order.list awaiting.keys).filterMap awaiting.get).all (fun protocols =>
      protocols.any (fun q => decide (q.1 = p.1))))).map Prod.fst

def tryCompleteJoin (order : HashOrder String) (instant : Int) (g : GroupState) : GroupState :=
  if g.initialUntil.any (fun t => decide (instant < t)) then g
  else
    let g := { g with initialUntil := none }
    if g.state ≠ .preparingRebalance ∨ g.members.keys = ∅ ∨
        ¬ g.members.keys ⊆ g.awaitingMembers.keys then g
    else
      let awaiting := g.awaitingMembers.restrict g.members.contains
      let leaderId :=
        if g.leaderId.all (fun l => !g.members.contains l) then (order.list awaiting.keys).head?
        else g.leaderId
      let agreed := (leaderId.bind awaiting.get).bind (agreedProtocol order awaiting)
      { g with
        awaitingMembers := awaiting
        state := .completingRebalance
        leaderId := leaderId
        protocolName := agreed.or g.protocolName }

def startRound (g : GroupState) (now : Int) : GroupState :=
  { g with
    state := .preparingRebalance
    generationId := wrap32 (g.generationId + 1)
    rebalanceStartMs := now
    assignments := .empty }

def refusal (req : JoinGroupRequest) : Option Int :=
  if req.groupId = "" then some 24
  else if ¬ (6000 ≤ req.sessionTimeoutMs ∧ req.sessionTimeoutMs ≤ 1800000) then some 26
  else if req.protocolType = "" ∨ req.protocols = [] then some 23
  else none

/-- A new instance takes the place of the member `old`, and its assignment. -/
def replaceMember (g : GroupState) (old newId : String) (m : GroupMember) (now : Int) :
    GroupState :=
  { g with
    members := (g.members.erase old).insert newId { m with memberId := newId, lastHeartbeatMs := now }
    assignments := g.assignments.rename old newId
    awaitingMembers := g.awaitingMembers.rename old newId
    leaderId := if g.leaderId = some old then some newId else g.leaderId }

def newMember (req : JoinGroupRequest) (memberId : String) (now : Int) : GroupMember where
  memberId := memberId
  groupInstanceId := req.groupInstanceId
  sessionTimeoutMs := req.sessionTimeoutMs
  rebalanceTimeoutMs := req.rebalanceTimeoutMs
  protocols := req.protocols
  lastHeartbeatMs := now

/-- A member that is new, or subscribes to something else, cannot be folded into the round
that is completing: it starts a new one. -/
def restartRound (req : JoinGroupRequest) (memberId : String) (now : Int) (g : GroupState) :
    GroupState :=
  if g.state = .completingRebalance ∧
      (g.members.get memberId).all (fun m => decide (m.protocols ≠ req.protocols)) then
    { g.startRound now with awaitingMembers := .empty }
  else g

def enterRound (req : JoinGroupRequest) (memberId : String) (now instant : Int) (g : GroupState) :
    GroupState :=
  let g := g.restartRound req memberId now
  let g := { g with
    members := g.members.insert memberId (newMember req memberId now)
    awaitingMembers := g.awaitingMembers.insert memberId req.protocols }
  let g :=
    if g.state = .empty then
      { g.startRound now with initialUntil := some (instant + initialRebalanceDelay) }
    else if g.state = .stable then g.startRound now
    else g
  if g.leaderId.all (fun l => !g.members.contains l) then { g with leaderId := some memberId } else g

def joinRound (order : HashOrder String) (req : JoinGroupRequest) (memberId : String)
    (now instant : Int) (g : GroupState) : GroupState :=
  let g := (g.enterRound req memberId now instant).tryCompleteJoin order instant
  if g.protocolName = none ∧ g.state = .completingRebalance then
    { g with protocolName := req.protocols.head?.map Prod.fst }
  else g

def memberList (order : HashOrder String) (g : GroupState) (joined : FiniteMap String Protocols) :
    List JoinGroupResponseMember :=
  (order.list joined.keys).filterMap (fun id => (joined.get id).map (fun protocols =>
    { memberId := id
      groupInstanceId := (g.members.get id).bind GroupMember.groupInstanceId
      metadata := ((protocols.find? (fun p => decide (some p.1 = g.protocolName))).map
        Prod.snd).getD [] }))

/-- Joins as `memberId`, which a member without an id has just been given. -/
def joinAs (order : HashOrder String) (req : JoinGroupRequest) (memberId : String)
    (now instant : Int) (g : GroupState) : GroupState × JoinGroupResponse :=
  let pending := decide (req.memberId ≠ "") && !g.members.contains memberId
  if pending && decide (memberId ∉ g.pendingMemberIds) then (g, { errorCode := 25 })
  else
    let g := if pending then { g with pendingMemberIds := g.pendingMemberIds.erase memberId } else g
    if g.protocolType ≠ "" ∧ g.protocolType ≠ req.protocolType then (g, { errorCode := 23 })
    else
      let g := if g.protocolType = "" then { g with protocolType := req.protocolType } else g
      let g := g.joinRound order req memberId now instant
      (g,
        { generationId := g.generationId
          protocolName := g.protocolName
          leader := g.leaderId.getD ""
          memberId := memberId
          members :=
            if some memberId = g.leaderId then g.memberList order g.awaitingMembers else [] })

/-- A static member without a member id gets a new one, and replaces the member that has
its instance id; a stable group goes on if the subscription is the same. -/
def joinStatic (order : HashOrder String) (req : JoinGroupRequest) (holder : Option String)
    (newId : String) (now instant : Int) (g : GroupState) : GroupState × JoinGroupResponse :=
  match holder.bind (fun old => (g.members.get old).map (fun m => (old, m))) with
  | none => g.joinAs order req newId now instant
  | some (old, m) =>
    let g := g.replaceMember old newId m now
    if g.state = .stable ∧ m.protocols = req.protocols then
      (g,
        { generationId := g.generationId
          protocolType := some g.protocolType
          protocolName := g.protocolName
          leader := g.leaderId.getD ""
          memberId := newId })
    else g.joinAs order req newId now instant

/-- `EngineState::handle_join_group`. -/
def joinGroup (order : HashOrder String) (version : Int) (req : JoinGroupRequest) (newId : String)
    (now instant : Int) (group : Option GroupState) : Option GroupState × JoinGroupResponse :=
  match refusal req with
  | some code => (group, { errorCode := code, memberId := req.memberId })
  | none =>
    -- A deleted group's id is free again.
    let g := (live group).getD {}
    let joined : GroupState × JoinGroupResponse :=
      match req.groupInstanceId with
      | some instanceId =>
        let holder := g.memberForInstance order instanceId
        if req.memberId = "" then g.joinStatic order req holder newId now instant
        else if holder.any (fun old => decide (old ≠ req.memberId)) then
          (g, { errorCode := 82, memberId := req.memberId })
        else g.joinAs order req req.memberId now instant
      | none =>
        if req.memberId ≠ "" then g.joinAs order req req.memberId now instant
        else if 4 ≤ version then
          ({ g with pendingMemberIds := insert newId g.pendingMemberIds },
            { errorCode := 79, memberId := newId })
        else g.joinAs order req newId now instant
    (some joined.1, joined.2)

inductive JoinPoll where
  | answered (response : JoinGroupResponse)
  | timedOut
  | waiting
deriving Repr, DecidableEq

/-- One look of a JoinGroup that was accepted with `response`. -/
def pollJoin (order : HashOrder String) (req : JoinGroupRequest) (response : JoinGroupResponse)
    (now : Int) (group : Option GroupState) : JoinPoll :=
  match group with
  | none => .answered { response with errorCode := 25 }
  | some g =>
    if ¬ g.members.contains response.memberId = true then
      .answered { response with errorCode := if req.groupInstanceId.isSome then 82 else 25 }
    else if g.state = .completingRebalance ∨ g.state = .stable ∨ g.state = .dead then
      let joined :=
        if g.awaitingMembers.keys = ∅ then g.members.map GroupMember.protocols
        else g.awaitingMembers
      .answered
        { generationId := g.generationId
          protocolType := some g.protocolType
          protocolName := some (g.protocolName.getD "")
          leader := g.leaderId.getD ""
          memberId := response.memberId
          members :=
            if g.leaderId.getD "" = response.memberId then g.memberList order joined else [] }
    else
      let timeouts := ((order.list g.members.keys).filterMap g.members.get).map
        GroupMember.rebalanceTimeoutMs
      if 0 < g.rebalanceStartMs ∧ timeouts.max?.getD 0 ≤ now - g.rebalanceStartMs then .timedOut
      else .waiting

def forceRound (g : GroupState) : GroupState :=
  if g.state = .preparingRebalance then { g with state := .completingRebalance } else g

def memberError (order : HashOrder String) (g : GroupState) (instanceId : Option String)
    (memberId : String) (generationId : Int) : Int :=
  if g.isFencedInstance order instanceId memberId then 82
  else if ¬ g.members.contains memberId = true then 25
  else if g.state = .preparingRebalance then 27
  else if generationId ≠ g.generationId then 22
  else 0

def assign (req : SyncGroupRequest) (g : GroupState) : GroupState :=
  if req.assignments ≠ [] then
    { g with
      assignments := req.assignments.foldl (fun all a => all.insert a.1 a.2) g.assignments
      state := .stable
      awaitingMembers := .empty }
  else if g.leaderId = some req.memberId then
    { g with state := .stable, awaitingMembers := .empty }
  else g

def assignmentOf (g : GroupState) (memberId : String) : Bytes :=
  match g.assignments.get memberId with
  | some assignment => assignment
  | none => ((g.members.get memberId).map GroupMember.assignment).getD []

/-- `EngineState::handle_sync_group`. -/
def syncGroup (order : HashOrder String) (req : SyncGroupRequest) (group : Option GroupState) :
    Option GroupState × SyncGroupResponse :=
  match live group with
  | none => (group, { errorCode := 25 })
  | some g =>
    let error := g.memberError order req.groupInstanceId req.memberId req.generationId
    if error ≠ 0 then (group, { errorCode := error })
    else
      let g := g.assign req
      (some g, { assignment := g.assignmentOf req.memberId })

/-- `EngineState::handle_heartbeat`. -/
def heartbeat (order : HashOrder String) (req : HeartbeatRequest) (now : Int)
    (group : Option GroupState) : Option GroupState × Int :=
  match live group with
  | none => (group, 25)
  | some g =>
    let error := g.memberError order req.groupInstanceId req.memberId req.generationId
    if error ≠ 0 then (group, error)
    else
      match g.members.get req.memberId with
      | none => (group, 25)
      | some m =>
        if m.sessionTimeoutMs < now - m.lastHeartbeatMs then
          let members := g.members.erase req.memberId
          if members.keys = ∅ then (some { g with members := members, state := .empty }, 25)
          else
            (some { g with
              members := members
              state := .preparingRebalance
              generationId := wrap32 (g.generationId + 1) }, 25)
        else
          (some { g with
            members := g.members.insert req.memberId { m with lastHeartbeatMs := now } }, 0)

def leaving (order : HashOrder String) (version : Int) (req : LeaveGroupRequest) (g : GroupState) :
    List String :=
  if 3 ≤ version ∧ req.members ≠ [] then
    req.members.map (fun m =>
      match m.2 with
      | some instanceId =>
        if m.1 = "" then (g.memberForInstance order instanceId).getD "" else m.1
      | none => m.1)
  else [req.memberId]

def removeMember (g : GroupState) (memberId : String) : GroupState :=
  { g with
    members := g.members.erase memberId
    assignments := g.assignments.erase memberId
    awaitingMembers := g.awaitingMembers.erase memberId }

def removeMembers : List String → GroupState → GroupState × List (String × Int)
  | [], g => (g, [])
  | id :: rest, g =>
    if g.members.contains id then
      let later := removeMembers rest (g.removeMember id)
      (later.1, (id, 0) :: later.2)
    else
      let later := removeMembers rest g
      (later.1, (id, 25) :: later.2)

def afterLeave (order : HashOrder String) (instant : Int) (g : GroupState) : GroupState :=
  if g.members.keys = ∅ then { g with state := .empty, leaderId := none }
  else
    let leaderId :=
      if g.leaderId.all (fun l => !g.members.contains l) then (order.list g.members.keys).head?
      else g.leaderId
    let g := { g with leaderId := leaderId }
    let g :=
      if g.state ≠ .preparingRebalance then
        { g with awaitingMembers := .empty, assignments := .empty }
      else g
    { g with
      state := .preparingRebalance
      generationId := wrap32 (g.generationId + 1) }.tryCompleteJoin order instant

/-- `EngineState::handle_leave_group`. -/
def leaveGroup (order : HashOrder String) (version : Int) (req : LeaveGroupRequest) (instant : Int)
    (group : Option GroupState) : Option GroupState × LeaveGroupResponse :=
  match live group with
  | none => (group, { errorCode := 25 })
  | some g =>
    let left := removeMembers (g.leaving order version req) g
    (some (left.1.afterLeave order instant),
      { errorCode := if left.2.any (fun m => decide (m.2 = 25)) then 25 else 0
        members := if 3 ≤ version then left.2 else [] })

def bury (g : GroupState) : GroupState := { g with state := .dead }

def commitError (order : HashOrder String) (groupId memberId : String) (generationId : Int)
    (instanceId : Option String) (group : Option GroupState) : Int :=
  if groupId = "" then 24
  else
    match live group with
    | none => if generationId < 0 then 0 else 22
    | some g =>
      if 0 ≤ generationId ∨ memberId ≠ "" ∨ instanceId.isSome = true then
        if g.isFencedInstance order instanceId memberId then 82
        else if ¬ g.members.contains memberId = true then 25
        else if generationId ≠ g.generationId then 22
        else if g.state = .completingRebalance then 27
        else 0
      else if g.members.keys ≠ ∅ then 25
      else 0

end GroupState

end NoidaDb.Kafka
