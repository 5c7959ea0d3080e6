/-
Who assigns partitions to the members of a group.
-/

import NoidaDb.Kafka.Rounds

namespace NoidaDb.Kafka

open Lib

namespace EngineState

def groupStep (groupId : String) (group : Option GroupState) : Event → Option GroupState
  | .joinGroup order version req newId now instant =>
    if req.groupId = groupId then (GroupState.joinGroup order version req newId now instant group).1
    else group
  | .forceRound id => if id = groupId then group.map GroupState.forceRound else group
  | .tryCompleteJoin order id instant =>
    if id = groupId then group.map (GroupState.tryCompleteJoin order instant) else group
  | .syncGroup order req =>
    if req.groupId = groupId then (GroupState.syncGroup order req group).1 else group
  | .heartbeat order req now =>
    if req.groupId = groupId then (GroupState.heartbeat order req now group).1 else group
  | .leaveGroup order version req instant =>
    if req.groupId = groupId then (GroupState.leaveGroup order version req instant group).1
    else group
  | .deleteGroups ids =>
    if groupId ∈ ids then group.map (fun g => if g.state = .empty then g.bury else g) else group
  | .restart _ _ _ => none
  | _ => group

theorem groups_withGroup {α : Type} (e : EngineState) (groupId id : String)
    (handled : Option GroupState × α) :
    (e.withGroup id handled).1.groups groupId =
      if id = groupId then handled.1 else e.groups groupId := by
  by_cases same : id = groupId
  · simp [withGroup, same]
  · simp [withGroup, same, Function.update_of_ne (Ne.symm same)]

theorem groups_handleDeleteGroups (groupId : String) (ids : List String) (e : EngineState) :
    (handleDeleteGroups ids e).1.groups groupId =
      if groupId ∈ ids then (e.groups groupId).map (fun g => if g.state = .empty then g.bury else g)
      else e.groups groupId := by
  have once : ∀ (id : String) (e : EngineState), (e.deleteGroup id).1.groups groupId =
      if groupId = id then (e.groups groupId).map (fun g => if g.state = .empty then g.bury else g)
      else e.groups groupId := by
    intro id e
    by_cases same : groupId = id
    · subst same
      rw [if_pos rfl]
      unfold deleteGroup groupIsLive
      cases isGroup : e.groups groupId with
      | none =>
        by_cases offsets : e.groupHasOffsets groupId = true
        · simp [GroupState.live, offsets, buryGroup, dropGroupOffsets, isGroup]
        · simp [GroupState.live, offsets, isGroup]
      | some g =>
        cases state : g.state with
        | empty => simp [GroupState.live, Option.filter, state, buryGroup, dropGroupOffsets, isGroup]
        | dead =>
          have stays : g.bury = g := by
            unfold GroupState.bury
            rw [← state]
          by_cases offsets : e.groupHasOffsets groupId = true
          · simp [GroupState.live, Option.filter, state, offsets, buryGroup, dropGroupOffsets,
              isGroup, stays]
          · simp [GroupState.live, Option.filter, state, offsets, isGroup]
        | preparingRebalance => simp [GroupState.live, Option.filter, state, isGroup]
        | completingRebalance => simp [GroupState.live, Option.filter, state, isGroup]
        | stable => simp [GroupState.live, Option.filter, state, isGroup]
    · rw [if_neg same]
      unfold deleteGroup
      split
      · rfl
      · split
        · simp [buryGroup, dropGroupOffsets, Function.update_of_ne same]
        · rfl
  have twice : ∀ group : Option GroupState,
      (group.map (fun g => if g.state = .empty then g.bury else g)).map
          (fun g => if g.state = .empty then g.bury else g) =
        group.map (fun g => if g.state = .empty then g.bury else g) := by
    intro group
    cases group with
    | none => rfl
    | some g =>
      by_cases isEmpty : g.state = .empty
      · simp [isEmpty, GroupState.bury]
      · simp [isEmpty]
  induction ids generalizing e with
  | nil => simp [handleDeleteGroups]
  | cons id rest ih =>
    simp only [handleDeleteGroups, ih, once, List.mem_cons]
    by_cases same : groupId = id
    · subst same
      rw [if_pos rfl, if_pos (Or.inl rfl)]
      split
      · exact twice _
      · rfl
    · simp only [same, if_false, false_or]

theorem groups_next (codec : Codec) (e : EngineState) (event : Event) (groupId : String) :
    (e.next codec event).groups groupId = groupStep groupId (e.groups groupId) event := by
  cases event with
  | request r => exact congrFun (groups_handle codec e r) groupId
  | joinGroup order version req newId now instant =>
    simp only [EngineState.next, handleJoinGroup, groups_withGroup, groupStep]
    split
    · rename_i same
      rw [same]
    · rfl
  | pollJoin order req response now => rfl
  | forceRound id =>
    by_cases same : id = groupId
    · simp [EngineState.next, forceRound, groupStep, same]
    · simp [EngineState.next, forceRound, groupStep, same, Function.update_of_ne (Ne.symm same)]
  | tryCompleteJoin order id instant =>
    by_cases same : id = groupId
    · simp [EngineState.next, tryCompleteJoin, groupStep, same]
    · simp [EngineState.next, tryCompleteJoin, groupStep, same,
        Function.update_of_ne (Ne.symm same)]
  | syncGroup order req =>
    simp only [EngineState.next, handleSyncGroup, groups_withGroup, groupStep]
    split
    · rename_i same
      rw [same]
    · rfl
  | heartbeat order req now =>
    simp only [EngineState.next, handleHeartbeat, groups_withGroup, groupStep]
    split
    · rename_i same
      rw [same]
    · rfl
  | leaveGroup order version req instant =>
    simp only [EngineState.next, handleLeaveGroup, groups_withGroup, groupStep]
    split
    · rename_i same
      rw [same]
    · rfl
  | offsetCommit order req =>
    exact congrFun (offsetsOnly_commitPartitions _ req.groupId req.partitions e).groups groupId
  | offsetDelete id partitions =>
    exact congrFun (offsetsOnly_handleOffsetDelete id partitions e).groups groupId
  | deleteGroups ids => exact groups_handleDeleteGroups groupId ids e
  | createTopic name count configs => rfl
  | createPartition at' => rfl
  | alterConfigs name configs => rfl
  | deleteTopics names => rfl
  | snapshot order now aside => exact congrFun (logsOnly_snapshot codec order now aside e).groups groupId
  | restart order now s => rfl

/-- The assignments stay, or they change with a SyncGroup of the generation that carries some, with a
static member that goes on under a new id, or with the last members that leave. -/
def AssignsBy (event : Event) (groupId : String) (g g' : GroupState) : Prop :=
  g'.assignments = g.assignments ∨
    (∃ order req, event = .syncGroup order req ∧ req.groupId = groupId ∧
      req.generationId = g.generationId ∧ req.assignments ≠ [] ∧
        (g.leaderId = some req.memberId → g.state = .completingRebalance → g'.assignments =
          req.assignments.foldl (fun all a => all.insert a.1 a.2) g.assignments)) ∨
    (∃ order version req newId now instant x, event = .joinGroup order version req newId now instant ∧
      req.groupId = groupId ∧ g.replaced order req = some x ∧
        g'.assignments = g.assignments.rename x.1 newId) ∨
    ∃ order version req instant, event = .leaveGroup order version req instant ∧
      req.groupId = groupId ∧ g'.members.keys = ∅

/-- While a group exists its generation stays or goes up by one, and within a generation
the assignments change as they should. -/
theorem next_assignments (codec : Codec) (e : EngineState) (event : Event) (groupId : String)
    {g g' : GroupState} (before : GroupState.live (e.groups groupId) = some g)
    (after : (e.next codec event).groups groupId = some g') :
    (g'.generationId = g.generationId ∨ g'.generationId = wrap32 (g.generationId + 1)) ∧
      (g'.generationId = g.generationId → AssignsBy event groupId g g') := by
  have isGroup := GroupState.live_eq_some before
  rw [groups_next] at after
  -- A move that starts the next generation, or goes on with this one.
  have moves : GroupState.Continues g g' ∨ GroupState.Restarts g g' →
      (g'.generationId = g.generationId ∨ g'.generationId = wrap32 (g.generationId + 1)) ∧
        (g'.generationId = g.generationId → AssignsBy event groupId g g') := by
    intro move
    rcases move with continues | restarts
    · exact ⟨Or.inl continues.generationId, fun _ => Or.inl continues.assignments⟩
    · refine ⟨Or.inr restarts.generationId, ?_⟩
      intro same
      rw [restarts.generationId] at same
      exact (GroupState.wrap32_succ_ne g.generationId same).elim
  have stays : e.groups groupId = some g' → (g'.generationId = g.generationId ∨
        g'.generationId = wrap32 (g.generationId + 1)) ∧
      (g'.generationId = g.generationId → AssignsBy event groupId g g') := by
    intro same
    obtain rfl := Option.some.inj (isGroup.symm.trans same)
    exact moves (Or.inl (GroupState.Continues.refl g))
  cases event with
  | joinGroup order version req newId now instant =>
    simp only [groupStep] at after
    split at after
    · rename_i isAbout
      cases checked : GroupState.refusal req with
      | some code =>
        rw [GroupState.joinGroup_refusal order version newId now instant _ checked] at after
        exact stays after
      | none =>
        obtain ⟨x, result, cases'⟩ := GroupState.joinGroup_cases order version req newId now
          instant checked (by rw [before]; rfl) (GroupState.live_ne_dead before)
        obtain rfl := Option.some.inj (result.symm.trans after)
        have current := g.afterReplacement_generationId order req newId now
        rcases cases' with ⟨same, _⟩ | continues | restarts
        · rw [same]
          exact ⟨Or.inl rfl, fun _ => Or.inl rfl⟩
        · refine ⟨Or.inl (continues.generationId.trans current), ?_⟩
          intro _
          have assigned := continues.assignments
          unfold GroupState.afterReplacement at assigned
          cases replaced : g.replaced order req with
          | none =>
            rw [replaced] at assigned
            exact Or.inl assigned
          | some y =>
            rw [replaced] at assigned
            exact Or.inr (Or.inr (Or.inl ⟨order, version, req, newId, now, instant, y, rfl,
              isAbout, replaced, assigned⟩))
        · have next := restarts.generationId
          rw [current] at next
          refine ⟨Or.inr next, ?_⟩
          intro same
          rw [next] at same
          exact (GroupState.wrap32_succ_ne g.generationId same).elim
    · exact stays after
  | forceRound id =>
    simp only [groupStep] at after
    split at after
    · rw [isGroup] at after
      obtain rfl := Option.some.inj after
      unfold GroupState.forceRound
      split
      · exact ⟨Or.inl rfl, fun _ => Or.inl rfl⟩
      · exact ⟨Or.inl rfl, fun _ => Or.inl rfl⟩
    · exact stays after
  | tryCompleteJoin order id instant =>
    simp only [groupStep] at after
    split at after
    · rw [isGroup] at after
      obtain rfl := Option.some.inj after
      exact moves (Or.inl (GroupState.continues_tryCompleteJoin order instant g))
    · exact stays after
  | syncGroup order req =>
    simp only [groupStep] at after
    split at after
    · rename_i isAbout
      obtain ⟨x, result, cases'⟩ := GroupState.syncGroup_cases order req before
      obtain rfl := Option.some.inj (result.symm.trans after)
      rcases cases' with same | ⟨current, generation, _, _, _, assigned⟩
      · rw [same]
        exact ⟨Or.inl rfl, fun _ => Or.inl rfl⟩
      · refine ⟨Or.inl generation, fun _ => ?_⟩
        by_cases nothing : req.assignments = []
        · rw [nothing] at assigned
          exact Or.inl assigned
        · exact Or.inr (Or.inl ⟨order, req, rfl, isAbout, current, nothing,
            fun _ _ => assigned⟩)
    · exact stays after
  | heartbeat order req now =>
    simp only [groupStep] at after
    split at after
    · obtain ⟨x, result, cases'⟩ := GroupState.heartbeat_cases order req now before
      obtain rfl := Option.some.inj (result.symm.trans after)
      exact moves cases'
    · exact stays after
  | leaveGroup order version req instant =>
    simp only [groupStep] at after
    split at after
    · rename_i isAbout
      obtain ⟨x, result, cases'⟩ := GroupState.leaveGroup_cases order version req instant before
      obtain rfl := Option.some.inj (result.symm.trans after)
      rcases cases' with ⟨deserted, _, generation⟩ | restarts
      · exact ⟨Or.inl generation, fun _ => Or.inr (Or.inr (Or.inr
          ⟨order, version, req, instant, rfl, isAbout, deserted⟩))⟩
      · exact moves (Or.inr restarts)
    · exact stays after
  | deleteGroups ids =>
    simp only [groupStep] at after
    split at after
    · rw [isGroup] at after
      have isAfter : (if g.state = .empty then g.bury else g) = g' := Option.some.inj after
      split at isAfter
      · rw [← isAfter]
        exact ⟨Or.inl rfl, fun _ => Or.inl rfl⟩
      · rw [← isAfter]
        exact ⟨Or.inl rfl, fun _ => Or.inl rfl⟩
    · exact stays after
  | restart order now s => cases after
  | _ => exact stays after

def staticJoins (memberId : String) : JoinGroupRequest :=
  { consumerJoins "g" with memberId := memberId, groupInstanceId := some "i" }

noncomputable def joinedStatic : List Event :=
  [.joinGroup alphabetical 5 (staticJoins "") "a" 100 0, .tryCompleteJoin alphabetical "g" 300]

noncomputable def leaderSyncs : Event :=
  .syncGroup alphabetical
    { groupId := "g", generationId := 1, memberId := "a", assignments := [("a", [7])] }

noncomputable def assignedOnce : List Event := joinedStatic ++ [leaderSyncs]

theorem next_assignments_leaderSyncs :
    ∃ g g', g.assignments.get "a" = none ∧ g'.assignments.get "a" = some [7] ∧
      (g'.generationId = g.generationId ∨ g'.generationId = wrap32 (g.generationId + 1)) ∧
        (g'.generationId = g.generationId → AssignsBy leaderSyncs "g" g g') := by
  obtain ⟨g, isG⟩ : ∃ g, GroupState.live ((new.runEvents PartitionState.hundredBytes
      joinedStatic).groups "g") = some g := Option.isSome_iff_exists.mp rfl
  obtain ⟨g', isG'⟩ : ∃ g', ((new.runEvents PartitionState.hundredBytes joinedStatic).next
      PartitionState.hundredBytes leaderSyncs).groups "g" = some g' :=
    Option.isSome_iff_exists.mp rfl
  have before : (some g).map (fun g => g.assignments.get "a") = some none := by
    rw [← isG]
    rfl
  have after : (some g').map (fun g' => g'.assignments.get "a") = some (some [7]) := by
    rw [← isG']
    rfl
  exact ⟨g, g', Option.some.inj before, Option.some.inj after,
    next_assignments PartitionState.hundredBytes _ _ "g" isG isG'⟩

theorem next_assignmentRenamed :
    ¬ ∀ (codec : Codec) (events : List Event) (event : Event) (groupId : String) (g g' : GroupState),
      AlongEvents codec (Legal codec) new events →
        GroupState.live ((new.runEvents codec events).groups groupId) = some g →
          ((new.runEvents codec events).next codec event).groups groupId = some g' →
            g'.generationId = g.generationId → g'.assignments ≠ g.assignments →
              ∃ order req, event = .syncGroup order req ∧ req.generationId = g.generationId ∧
                g.leaderId = some req.memberId ∧ g.state = .completingRebalance := by
  intro claimed
  obtain ⟨g, isG⟩ : ∃ g, GroupState.live ((new.runEvents PartitionState.hundredBytes
      assignedOnce).groups "g") = some g := Option.isSome_iff_exists.mp rfl
  obtain ⟨g', isG'⟩ : ∃ g', ((new.runEvents PartitionState.hundredBytes assignedOnce).next
      PartitionState.hundredBytes
        (.joinGroup alphabetical 5 (staticJoins "") "b" 200 400)).groups "g" = some g' :=
    Option.isSome_iff_exists.mp rfl
  have generation : (some g').map GroupState.generationId = (some g).map GroupState.generationId := by
    rw [← isG, ← isG']
    rfl
  have assigned : (some g).map (fun g => g.assignments.get "b") = some none := by
    rw [← isG]
    rfl
  have assigned' : (some g').map (fun g => g.assignments.get "b") = some (some [7]) := by
    rw [← isG']
    rfl
  obtain ⟨order, req, isSync, _⟩ := claimed PartitionState.hundredBytes assignedOnce
    (.joinGroup alphabetical 5 (staticJoins "") "b" 200 400) "g" g g'
    ⟨trivial, trivial, trivial, trivial⟩ isG isG' (Option.some.inj generation) (by
      intro same
      simp only [Option.map_some, Option.some.injEq] at assigned assigned'
      rw [same, assigned] at assigned'
      cases assigned')
  cases isSync

end EngineState

end NoidaDb.Kafka
