/-
Group requests that are refused.

The checks of a request sit between its changes, so a refusal can leave something behind: a
JoinGroup a static member under a new id, or a group that was not there; a LeaveGroup a new
round.
-/

import NoidaDb.Kafka.Frames

namespace NoidaDb.Kafka

open Lib

namespace GroupState

def visible (g : GroupState) : GroupLifecycleState × Int × FiniteMap String GroupMember ×
    Option String × FiniteMap String Protocols × FiniteMap String Bytes :=
  (g.state, g.generationId, g.members, g.leaderId, g.awaitingMembers, g.assignments)

theorem joinAs_refused (order : HashOrder String) (req : JoinGroupRequest) (memberId : String)
    (now instant : Int) (g : GroupState)
    (refused : (g.joinAs order req memberId now instant).2.errorCode ≠ 0) :
    (g.joinAs order req memberId now instant).1.visible = g.visible := by
  unfold joinAs at refused ⊢
  simp only at refused ⊢
  split
  · rfl
  · rename_i known
    rw [if_neg known] at refused
    have same : (if (decide (req.memberId ≠ "") && !g.members.contains memberId) = true then
        { g with pendingMemberIds := g.pendingMemberIds.erase memberId } else g).visible =
          g.visible := by
      split
      · rfl
      · rfl
    generalize (if (decide (req.memberId ≠ "") && !g.members.contains memberId) = true then
      { g with pendingMemberIds := g.pendingMemberIds.erase memberId } else g) = g' at refused same ⊢
    split
    · exact same
    · rename_i consistent
      rw [if_neg consistent] at refused
      exact (refused rfl).elim

def replaced (order : HashOrder String) (req : JoinGroupRequest) (g : GroupState) :
    Option (String × GroupMember) :=
  if req.memberId = "" then
    (req.groupInstanceId.bind (g.memberForInstance order)).bind
      (fun old => (g.members.get old).map (fun m => (old, m)))
  else none

def afterReplacement (order : HashOrder String) (req : JoinGroupRequest) (newId : String)
    (now : Int) (g : GroupState) : GroupState :=
  match g.replaced order req with
  | some x => g.replaceMember x.1 newId x.2 now
  | none => g

theorem joinGroup_refused (order : HashOrder String) (version : Int) (req : JoinGroupRequest)
    (newId : String) (now instant : Int) (group : Option GroupState)
    (checked : refusal req = none)
    (refused : (joinGroup order version req newId now instant group).2.errorCode ≠ 0) :
    (joinGroup order version req newId now instant group).1.map visible =
      some (((live group).getD {}).afterReplacement order req newId now).visible := by
  unfold joinGroup at refused ⊢
  rw [checked] at refused ⊢
  simp only [Option.map_some, Option.some.injEq] at refused ⊢
  generalize (live group).getD {} = g at refused ⊢
  unfold afterReplacement replaced
  cases isStatic : req.groupInstanceId with
  | some instanceId =>
    simp only [isStatic, Option.bind_some] at refused ⊢
    by_cases unnamed : req.memberId = ""
    · simp only [unnamed, if_true] at refused ⊢
      unfold joinStatic at refused ⊢
      cases holder : (g.memberForInstance order instanceId).bind
          (fun old => (g.members.get old).map (fun m => (old, m))) with
      | none =>
        rw [holder] at refused
        exact joinAs_refused order req newId now instant g refused
      | some x =>
        rw [holder] at refused
        simp only at refused ⊢
        split
        · rfl
        · rename_i rejoins
          rw [if_neg rejoins] at refused
          exact joinAs_refused order req newId now instant _ refused
    · simp only [if_neg unnamed] at refused ⊢
      split
      · rfl
      · rename_i holds
        rw [if_neg holds] at refused
        exact joinAs_refused order req req.memberId now instant g refused
  | none =>
    simp only [isStatic, Option.bind_none, ite_self] at refused ⊢
    by_cases unnamed : req.memberId ≠ ""
    · rw [if_pos unnamed] at refused ⊢
      exact joinAs_refused order req req.memberId now instant g refused
    · rw [if_neg unnamed] at refused ⊢
      split
      · rfl
      · rename_i old
        rw [if_neg old] at refused
        exact joinAs_refused order req newId now instant g refused

/-- A JoinGroup that fails the checks on the request itself, or finds a live group and takes
no static member's place. -/
def JoinSpares (order : HashOrder String) (req : JoinGroupRequest) (group : Option GroupState) :
    Prop :=
  refusal req = none → ∃ g, live group = some g ∧ g.replaced order req = none

theorem live_eq_some {group : Option GroupState} {g : GroupState} (isLive : live group = some g) :
    group = some g := by
  unfold live at isLive
  exact (Option.filter_eq_some_iff.mp isLive).1

theorem joinGroup_unchanged_iff (order : HashOrder String) (version : Int) (req : JoinGroupRequest)
    {newId : String} (now instant : Int) (group : Option GroupState)
    (minted : ∀ g, group = some g → g.members.get newId = none)
    (refused : (joinGroup order version req newId now instant group).2.errorCode ≠ 0) :
    (joinGroup order version req newId now instant group).1.map visible = group.map visible ↔
      JoinSpares order req group := by
  cases checked : refusal req with
  | some code =>
    have same : (joinGroup order version req newId now instant group).1 = group := by
      simp [joinGroup, checked]
    rw [same]
    simp [JoinSpares, checked]
  | none =>
    rw [joinGroup_refused order version req newId now instant group checked refused]
    simp only [JoinSpares, checked, forall_const]
    cases isLive : live group with
    | none =>
      simp only [Option.getD_none, reduceCtorEq, false_and, exists_false, iff_false]
      -- A group that was not there, or dead, is there now.
      intro same
      cases group with
      | none => cases same
      | some g =>
        have dead : g.state = .dead := by
          by_contra alive
          simp [live, Option.filter, alive] at isLive
        have states := congrArg Prod.fst (Option.some.inj same)
        have fresh : (afterReplacement order req newId now {}).state = .empty := by
          unfold afterReplacement
          split
          · rfl
          · rfl
        simp only [visible, fresh, dead] at states
        cases states
    | some g =>
      obtain rfl := live_eq_some isLive
      simp only [Option.getD_some, Option.map_some, Option.some.injEq, exists_eq_left']
      unfold afterReplacement
      cases g.replaced order req with
      | none => simp
      | some x =>
        simp only [reduceCtorEq, iff_false]
        intro same
        have members := congrArg (fun v => v.2.2.1.get newId) same
        simp [visible, replaceMember, minted g rfl] at members

theorem removeMembers_refused (ids : List String) (g : GroupState)
    (refused : ∀ m, m ∈ (removeMembers ids g).2 → m.2 ≠ 0) : (removeMembers ids g).1 = g := by
  induction ids with
  | nil => rfl
  | cons id rest ih =>
    unfold removeMembers at refused ⊢
    split
    · rename_i member
      rw [if_pos member] at refused
      exact (refused (id, 0) List.mem_cons_self rfl).elim
    · rename_i stranger
      rw [if_neg stranger] at refused
      exact ih (fun m later => refused m (List.mem_cons_of_mem _ later))

theorem tryCompleteJoin_generationId (order : HashOrder String) (instant : Int) (g : GroupState) :
    (g.tryCompleteJoin order instant).generationId = g.generationId := by
  unfold tryCompleteJoin
  split
  · rfl
  · simp only
    split
    · rfl
    · rfl

theorem wrap32_succ_ne (x : Int) : wrap32 (x + 1) ≠ x := by
  unfold wrap32
  rw [Int.bmod_def]
  split <;> omega

theorem afterLeave_generationId (order : HashOrder String) (instant : Int) {g : GroupState}
    (members : g.members.keys ≠ ∅) :
    (g.afterLeave order instant).generationId = wrap32 (g.generationId + 1) := by
  unfold afterLeave
  rw [if_neg members]
  simp only [tryCompleteJoin_generationId]
  split
  · rfl
  · rfl

def Deserted (g : GroupState) : Prop :=
  g.members.keys = ∅ ∧ g.state = .empty ∧ g.leaderId = none

theorem afterLeave_unchanged_iff (order : HashOrder String) (instant : Int) (g : GroupState) :
    (g.afterLeave order instant).visible = g.visible ↔ g.Deserted := by
  by_cases members : g.members.keys = ∅
  · unfold afterLeave Deserted
    rw [if_pos members]
    constructor
    · intro same
      have state := congrArg Prod.fst same
      have leader := congrArg (fun v => v.2.2.2.1) same
      exact ⟨members, state.symm, leader.symm⟩
    · intro deserted
      simp [visible, deserted.2.1, deserted.2.2]
  · constructor
    · intro same
      have generation := congrArg (fun v => v.2.1) same
      simp only [visible, afterLeave_generationId order instant members] at generation
      exact (wrap32_succ_ne g.generationId generation).elim
    · intro deserted
      exact (members deserted.1).elim

def LeaveGroupResponse.Refuses (res : LeaveGroupResponse) : Prop :=
  res.errorCode ≠ 0 ∧ ∀ m, m ∈ res.members → m.2 ≠ 0

theorem leaveGroup_unchanged_iff (order : HashOrder String) (version : Int)
    (req : LeaveGroupRequest) (instant : Int) (group : Option GroupState)
    (refused : LeaveGroupResponse.Refuses (leaveGroup order version req instant group).2) :
    (leaveGroup order version req instant group).1.map visible = group.map visible ↔
      ∀ g, live group = some g → g.Deserted := by
  unfold leaveGroup at refused ⊢
  cases isLive : live group with
  | none => simp
  | some g =>
    obtain rfl := live_eq_some isLive
    simp only [isLive] at refused ⊢
    have codes : ∀ m, m ∈ (removeMembers (g.leaving order version req) g).2 → m.2 ≠ 0 := by
      by_cases perMember : 3 ≤ version
      · have each := refused.2
        rw [if_pos perMember] at each
        exact each
      · -- Before version 3 the request names one member.
        have leaves : g.leaving order version req = [req.memberId] := by
          simp [leaving, perMember]
        have failed := refused.1
        rw [leaves] at failed ⊢
        simp only [removeMembers] at failed ⊢
        split
        · rename_i member
          simp [member] at failed
        · simp
    rw [removeMembers_refused _ g codes]
    simp [afterLeave_unchanged_iff]

theorem syncGroup_refused (order : HashOrder String) (req : SyncGroupRequest)
    (group : Option GroupState) (refused : (syncGroup order req group).2.errorCode ≠ 0) :
    (syncGroup order req group).1 = group := by
  unfold syncGroup at refused ⊢
  cases isLive : live group with
  | none => rfl
  | some g =>
    simp only [isLive] at refused ⊢
    split
    · rfl
    · rename_i passes
      rw [if_neg passes] at refused
      exact (refused rfl).elim

def expires (order : HashOrder String) (req : HeartbeatRequest) (now : Int) (g : GroupState) :
    Bool :=
  decide (g.memberError order req.groupInstanceId req.memberId req.generationId = 0) &&
    (g.members.get req.memberId).any (fun m =>
      decide (m.sessionTimeoutMs < now - m.lastHeartbeatMs))

theorem heartbeat_refused (order : HashOrder String) (req : HeartbeatRequest) (now : Int)
    (group : Option GroupState) (refused : (heartbeat order req now group).2 ≠ 0)
    (present : (live group).any (expires order req now) = false) :
    (heartbeat order req now group).1 = group := by
  unfold heartbeat at refused ⊢
  cases isLive : live group with
  | none => rfl
  | some g =>
    rw [isLive] at present
    simp only [isLive] at refused ⊢
    split
    · rfl
    · rename_i passes
      rw [if_neg passes] at refused
      cases isMember : g.members.get req.memberId with
      | none => rfl
      | some m =>
        have inTime : ¬ m.sessionTimeoutMs < now - m.lastHeartbeatMs := by
          have notExpired := present
          simp only [Option.any_some, expires, Decidable.not_not.mp passes, isMember] at notExpired
          simpa using notExpired
        simp only [isMember, if_neg inTime] at refused
        exact (refused rfl).elim

end GroupState

namespace EngineState

theorem commitPartitions_refused (error : Int) (groupId : String)
    (entries : List ((String × Int) × Int × Option String)) (e : EngineState)
    (refused : ∀ code, code ∈ (commitPartitions error groupId entries e).2 → code ≠ 0) :
    (commitPartitions error groupId entries e).1 = e := by
  induction entries generalizing e with
  | nil => rfl
  | cons entry rest ih =>
    simp only [commitPartitions, List.mem_cons, forall_eq_or_imp] at refused ⊢
    have unchanged : (commitPartition error groupId e entry).1 = e := by
      have first := refused.1
      unfold commitPartition at first ⊢
      split
      · rfl
      · rename_i noError
        rw [if_neg noError] at first
        split
        · rfl
        · rename_i known
          rw [if_neg known] at first
          exact (first rfl).elim
    have later := refused.2
    rw [unchanged] at later ⊢
    exact ih e later

/-- The group that a request is about, where the answer is an error for every member or partition that
it names. -/
def refusedFor (e : EngineState) : Event → Option String
  | .joinGroup order version req newId now instant =>
    let code := (e.handleJoinGroup order version req newId now instant).2.errorCode
    if code ≠ 0 ∧ code ≠ 79 then some req.groupId else none
  | .syncGroup order req =>
    if (e.handleSyncGroup order req).2.errorCode ≠ 0 then some req.groupId else none
  | .heartbeat order req now =>
    if (e.handleHeartbeat order req now).2 ≠ 0 ∧
        (GroupState.live (e.groups req.groupId)).any (GroupState.expires order req now) = false then
      some req.groupId
    else none
  | .leaveGroup order version req instant =>
    let res := (e.handleLeaveGroup order version req instant).2
    if res.errorCode ≠ 0 ∧ ∀ m, m ∈ res.members → m.2 ≠ 0 then some req.groupId else none
  | .offsetCommit order req =>
    if ∀ code, code ∈ (e.handleOffsetCommit order req).2 → code ≠ 0 then some req.groupId else none
  | _ => none

structure Unchanged (groupId : String) (e e' : EngineState) : Prop where
  group : (e'.groups groupId).map GroupState.visible = (e.groups groupId).map GroupState.visible
  offsets : e'.committedOffsets = e.committedOffsets
  metadata : e'.offsetMetadata = e.offsetMetadata

def SparesGroup (e : EngineState) : Event → Prop
  | .joinGroup order _ req _ _ _ => GroupState.JoinSpares order req (e.groups req.groupId)
  | .leaveGroup _ _ req _ => ∀ g, GroupState.live (e.groups req.groupId) = some g → g.Deserted
  | _ => True

def MintsNew (e : EngineState) : Event → Prop
  | .joinGroup _ _ req newId _ _ => ∀ g, e.groups req.groupId = some g → g.members.get newId = none
  | _ => True

theorem unchanged_withGroup {α : Type} (e : EngineState) (groupId : String)
    (handled : Option GroupState × α) :
    Unchanged groupId e (e.withGroup groupId handled).1 ↔
      handled.1.map GroupState.visible = (e.groups groupId).map GroupState.visible := by
  constructor
  · intro unchanged
    simpa [withGroup] using unchanged.group
  · intro same
    exact ⟨by simpa [withGroup] using same, rfl, rfl⟩

/-- A refused group request changes nothing if and only if it is not a JoinGroup that takes
a static member's place or finds no group, nor a LeaveGroup to a group with members. -/
theorem next_unchanged_iff (codec : Codec) (e : EngineState) {event : Event} {groupId : String}
    (minted : MintsNew e event) (refused : e.refusedFor event = some groupId) :
    Unchanged groupId e (e.next codec event) ↔ SparesGroup e event := by
  cases event with
  | joinGroup order version req newId now instant =>
    simp only [refusedFor, Option.ite_none_right_eq_some, Option.some.injEq] at refused
    obtain ⟨⟨failed, _⟩, rfl⟩ := refused
    simp only [EngineState.next, handleJoinGroup, unchanged_withGroup]
    exact GroupState.joinGroup_unchanged_iff order version req now instant _ minted failed
  | syncGroup order req =>
    simp only [refusedFor, Option.ite_none_right_eq_some, Option.some.injEq] at refused
    obtain ⟨failed, rfl⟩ := refused
    simp only [EngineState.next, handleSyncGroup, unchanged_withGroup, SparesGroup, iff_true]
    rw [GroupState.syncGroup_refused order req _ failed]
  | heartbeat order req now =>
    simp only [refusedFor, Option.ite_none_right_eq_some, Option.some.injEq] at refused
    obtain ⟨⟨failed, present⟩, rfl⟩ := refused
    simp only [EngineState.next, handleHeartbeat, unchanged_withGroup, SparesGroup, iff_true]
    rw [GroupState.heartbeat_refused order req now _ failed present]
  | leaveGroup order version req instant =>
    simp only [refusedFor, Option.ite_none_right_eq_some, Option.some.injEq] at refused
    obtain ⟨failed, rfl⟩ := refused
    simp only [EngineState.next, handleLeaveGroup, unchanged_withGroup, SparesGroup]
    exact GroupState.leaveGroup_unchanged_iff order version req instant _ failed
  | offsetCommit order req =>
    simp only [refusedFor, Option.ite_none_right_eq_some, Option.some.injEq] at refused
    obtain ⟨failed, rfl⟩ := refused
    simp only [EngineState.next, SparesGroup, iff_true]
    have same : (e.handleOffsetCommit order req).1 = e :=
      commitPartitions_refused _ _ _ e failed
    rw [same]
    exact ⟨rfl, rfl, rfl⟩
  | _ => cases refused

noncomputable def alphabetical : HashOrder String := .inTurn ["a", "b"] (by decide)

def consumerJoins (groupId : String) : JoinGroupRequest where
  groupId := groupId
  sessionTimeoutMs := 10000
  rebalanceTimeoutMs := 60000
  protocolType := "consumer"
  protocols := [("range", [1])]

noncomputable def joinedAlone : List Event :=
  [.joinGroup alphabetical 3 (consumerJoins "g") "a" 100 0]

theorem next_strangerLeaves :
    ¬ ∀ (codec : Codec) (events : List Event) (event : Event) (groupId : String),
      AlongEvents codec (fun e event => Legal codec e event ∧ MintsNew e event) new events →
        MintsNew (new.runEvents codec events) event →
          (new.runEvents codec events).refusedFor event = some groupId →
            Unchanged groupId (new.runEvents codec events)
              ((new.runEvents codec events).next codec event) := by
  intro claimed
  have unchanged := claimed PartitionState.hundredBytes joinedAlone
    (.leaveGroup alphabetical 3 { groupId := "g", members := [("b", none)] } 0) "g"
    ⟨⟨trivial, fun g isGroup => by cases isGroup⟩, trivial⟩ trivial rfl
  have generations := congrArg (Option.map (fun v => v.2.1)) unchanged.group
  have before : Option.map (fun v => v.2.1) (Option.map GroupState.visible
      ((new.runEvents PartitionState.hundredBytes joinedAlone).groups "g")) = some 1 := rfl
  have after : Option.map (fun v => v.2.1) (Option.map GroupState.visible
      (((new.runEvents PartitionState.hundredBytes joinedAlone).next PartitionState.hundredBytes
        (.leaveGroup alphabetical 3 { groupId := "g", members := [("b", none)] } 0)).groups "g")) =
      some 2 := rfl
  rw [before, after] at generations
  simp at generations

/-- Member a alone in generation 1, with its partitions assigned. -/
noncomputable def settledAlone : EngineState :=
  new.runEvents PartitionState.hundredBytes (joinedAlone ++ [.syncGroup alphabetical
    { groupId := "g", generationId := 1, memberId := "a", assignments := [("a", [1])] }])

theorem next_unchanged_iff_stranger :
    (Unchanged "g" settledAlone (settledAlone.next PartitionState.hundredBytes
        (.syncGroup alphabetical { groupId := "g", generationId := 1, memberId := "b" })) ↔
      SparesGroup settledAlone
        (.syncGroup alphabetical { groupId := "g", generationId := 1, memberId := "b" })) ∧
    (Unchanged "g" settledAlone (settledAlone.next PartitionState.hundredBytes
        (.leaveGroup alphabetical 3 { groupId := "g", members := [("b", none)] } 0)) ↔
      SparesGroup settledAlone
        (.leaveGroup alphabetical 3 { groupId := "g", members := [("b", none)] } 0)) :=
  ⟨next_unchanged_iff PartitionState.hundredBytes settledAlone trivial rfl,
    next_unchanged_iff PartitionState.hundredBytes settledAlone trivial rfl⟩

end EngineState

end NoidaDb.Kafka
