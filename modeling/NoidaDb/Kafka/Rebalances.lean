/-
Completed rebalances: whoever is in a generation gets the assignment that its leader
computed.  Beside the group we keep what was said in its current generation.
-/

import NoidaDb.Kafka.Assignments

namespace NoidaDb.Kafka

open Lib

structure RoundLedger where
  answered : List String := []
  listed : List (List String) := []
  computed : String → Option Bytes := fun _ => none

namespace RoundLedger

def join (l : RoundLedger) (res : JoinGroupResponse) : RoundLedger :=
  if res.errorCode ≠ 0 then l
  else
    { l with
      answered := l.answered ++ [res.memberId]
      listed :=
        if res.leader = res.memberId then
          l.listed ++ [res.members.map JoinGroupResponseMember.memberId]
        else l.listed }

def noteAssignment (computed : String → Option Bytes) (a : String × Bytes) : String → Option Bytes :=
  Function.update computed a.1 (some a.2)

def assign (l : RoundLedger) (assignments : List (String × Bytes)) : RoundLedger :=
  { l with computed := assignments.foldl noteAssignment l.computed }

def rename (l : RoundLedger) (old newId : String) : RoundLedger :=
  { l with
    listed := l.listed.map (fun ids => ids.map (fun id => if id = old then newId else id))
    computed := fun id =>
      if id = newId then l.computed old else if id = old then none else l.computed id }

end RoundLedger

namespace EngineState

def sameRound (group group' : Option GroupState) : Bool :=
  (GroupState.live group).any (fun g => (GroupState.live group').any (fun g' =>
    decide (g'.generationId = g.generationId)))

def noteInRound (groupId : String) (group : Option GroupState) (l : RoundLedger) :
    Event → RoundLedger
  | .pollJoin order req response now =>
    if req.groupId = groupId then
      match GroupState.pollJoin order req response now group with
      | .answered res => l.join res
      | _ => l
    else l
  | .syncGroup order req =>
    if req.groupId = groupId ∧ (GroupState.syncGroup order req group).2.errorCode = 0 ∧
        (GroupState.live group).any (fun g => decide (g.leaderId = some req.memberId)) = true then
      l.assign req.assignments
    else l
  | .joinGroup order _ req newId _ _ =>
    if req.groupId = groupId ∧ GroupState.refusal req = none then
      match (GroupState.live group).bind (GroupState.replaced order req) with
      | some x => l.rename x.1 newId
      | none => l
    else l
  | _ => l

def noteRound (groupId : String) (group : Option GroupState) (l : RoundLedger) (event : Event) :
    RoundLedger :=
  if sameRound group (groupStep groupId group event) then noteInRound groupId group l event else {}

def roundAfter (codec : Codec) (groupId : String) :
    RoundLedger → EngineState → List Event → RoundLedger
  | l, _, [] => l
  | l, e, event :: rest =>
    roundAfter codec groupId (noteRound groupId (e.groups groupId) l event) (e.next codec event) rest

/-- The request stays in the round with another subscription refused or the same kept. -/
def goesOn (req : JoinGroupRequest) (g : GroupState) (m : GroupMember) : Prop :=
  m.protocols = req.protocols ∨ (g.protocolType ≠ "" ∧ g.protocolType ≠ req.protocolType)

/-- The time is up only when everybody has joined; a static member is replaced within a
generation only once its assignment is there; and only the leader sends assignments. -/
def KeepsRound (groupId : String) (group : Option GroupState) (l : RoundLedger) : Event → Prop
  | .forceRound id => id = groupId → ∀ g, GroupState.live group = some g →
      g.state = .preparingRebalance → g.members.keys ⊆ g.awaitingMembers.keys
  | .joinGroup order _ req _ _ _ => req.groupId = groupId → GroupState.refusal req = none →
      ∀ g x, GroupState.live group = some g → g.replaced order req = some x →
        (g.state = .completingRebalance ∨ g.state = .stable) → goesOn req g x.2 →
          (l.computed x.1).isSome = true
  | .syncGroup order req => req.groupId = groupId → req.assignments ≠ [] →
      ∀ g, GroupState.live group = some g →
        g.memberError order req.groupInstanceId req.memberId req.generationId = 0 →
          g.leaderId = some req.memberId
  | _ => True

def AlongRounds (codec : Codec) (groupId : String) : RoundLedger → EngineState → List Event → Prop
  | _, _, [] => True
  | l, e, event :: rest =>
    KeepsRound groupId (e.groups groupId) l event ∧
      AlongRounds codec groupId (noteRound groupId (e.groups groupId) l event)
        (e.next codec event) rest

/-- A member whose JoinGroup was answered for the generation gets what the leader has
computed for it, once the leader has assigned to all members that it was told. -/
def SyncsAsComputed (groupId : String) (group : Option GroupState) (l : RoundLedger) : Prop :=
  ∀ order req g, req.groupId = groupId → GroupState.live group = some g →
    req.memberId ∈ g.members.keys → req.generationId = g.generationId →
      g.isFencedInstance order req.groupInstanceId req.memberId = false →
        (req.assignments ≠ [] → g.leaderId = some req.memberId) →
          let l' := noteRound groupId group l (.syncGroup order req)
          req.memberId ∈ l'.answered →
            (∃ ids, ids ∈ l'.listed ∧ ∀ id, id ∈ ids → (l'.computed id).isSome = true) →
              ∃ assignment, l'.computed req.memberId = some assignment ∧
                (GroupState.syncGroup order req group).2 = { assignment := assignment }

structure InRound (l : RoundLedger) (g : GroupState) : Prop where
  joined : g.Joined
  fresh : g.state = .preparingRebalance → l.listed = [] ∧ ∀ id, l.computed id = none
  told : ∀ ids, ids ∈ l.listed → ∀ id, id ∈ g.members.keys → id ∈ ids
  stored : ∀ id assignment, l.computed id = some assignment → id ∈ g.members.keys →
    g.assignments.get id = some assignment

variable {g : GroupState} {l : RoundLedger} {group : Option GroupState} {order : HashOrder String}
  {old newId id groupId : String} {req : JoinGroupRequest}

theorem inRound_new (joined : g.Joined) : InRound {} g where
  joined := joined
  fresh := fun _ => ⟨rfl, fun _ => rfl⟩
  told := by simp
  stored := by simp

theorem InRound.continues {g' : GroupState} (inRound : InRound l g)
    (continues : GroupState.Continues g g') : InRound l g' where
  joined := continues.joined inRound.joined
  fresh := fun preparing => inRound.fresh (continues.preparing preparing)
  told := by
    intro ids member id isMember
    by_cases preparing : g.state = .preparingRebalance
    · rw [(inRound.fresh preparing).1] at member
      cases member
    · exact inRound.told ids member id (continues.members preparing isMember)
  stored := by
    intro id assignment computed isMember
    rw [continues.assignments]
    by_cases preparing : g.state = .preparingRebalance
    · rw [(inRound.fresh preparing).2] at computed
      cases computed
    · exact inRound.stored id assignment computed (continues.members preparing isMember)

theorem mem_keys_replaceMember {m : GroupMember} {now : Int}
    (member : id ∈ (g.replaceMember old newId m now).members.keys) :
    id = newId ∨ id ≠ newId ∧ id ≠ old ∧ id ∈ g.members.keys := by
  by_cases isNew : id = newId
  · exact Or.inl isNew
  · apply Or.inr
    rw [FiniteMap.mem_keys] at member
    simp only [GroupState.replaceMember, FiniteMap.get_insert, if_neg isNew, FiniteMap.get_erase]
      at member
    by_cases isOld : id = old
    · simp [isOld] at member
    · rw [if_neg isOld] at member
      exact ⟨isNew, isOld, (g.members.mem_keys id).mpr member⟩

theorem get_rename_old {V : Type} {m : FiniteMap String V} {v : V} (found : m.get old = some v) :
    (m.rename old newId).get newId = some v := by
  simp [FiniteMap.rename, found]

theorem get_rename_other {V : Type} (m : FiniteMap String V) (notNew : id ≠ newId)
    (notOld : id ≠ old) : (m.rename old newId).get id = m.get id := by
  unfold FiniteMap.rename
  cases m.get old with
  | none => rfl
  | some v => simp [notNew, notOld]

theorem InRound.replaceMember (inRound : InRound l g) {m : GroupMember}
    (holds : g.members.get old = some m) (newId : String) (now : Int) :
    InRound (l.rename old newId) (g.replaceMember old newId m now) := by
  have isMember : old ∈ g.members.keys := by
    rw [g.members.mem_keys, holds]
    rfl
  constructor
  · constructor
    · intro completing id member
      have covers := inRound.joined.completing completing
      rw [FiniteMap.mem_keys]
      rcases mem_keys_replaceMember member with isNew | ⟨notNew, notOld, inGroup⟩
      · obtain ⟨protocols, waits⟩ := Option.isSome_iff_exists.mp
          ((g.awaitingMembers.mem_keys old).mp (covers isMember))
        rw [isNew]
        simp [GroupState.replaceMember, get_rename_old waits]
      · simp only [GroupState.replaceMember, get_rename_other g.awaitingMembers notNew notOld]
        exact (g.awaitingMembers.mem_keys id).mp (covers inGroup)
    · intro stable
      have nobody := inRound.joined.stable stable
      have absent : g.awaitingMembers.get old = none := by
        rw [(FiniteMap.eq_empty_iff _).mpr nobody]
        rfl
      simp [GroupState.replaceMember, FiniteMap.rename, absent, nobody]
  · intro preparing
    obtain ⟨nobody, nothing⟩ := inRound.fresh preparing
    refine ⟨by simp [RoundLedger.rename, nobody], ?_⟩
    intro id
    simp [RoundLedger.rename, nothing]
  · intro ids member id inGroup
    obtain ⟨ids', member', rfl⟩ := List.mem_map.mp member
    apply List.mem_map.mpr
    rcases mem_keys_replaceMember inGroup with isNew | ⟨_, notOld, before⟩
    · exact ⟨old, inRound.told ids' member' old isMember, by simp [isNew]⟩
    · exact ⟨id, inRound.told ids' member' id before, by simp [notOld]⟩
  · intro id assignment computed inGroup
    simp only [RoundLedger.rename] at computed
    rcases mem_keys_replaceMember inGroup with isNew | ⟨notNew, notOld, before⟩
    · rw [if_pos isNew] at computed
      rw [isNew]
      exact get_rename_old (inRound.stored old assignment computed isMember)
    · rw [if_neg notNew, if_neg notOld] at computed
      simp only [GroupState.replaceMember, get_rename_other g.assignments notNew notOld]
      exact inRound.stored id assignment computed before

theorem stored_assign (assignments : List (String × Bytes)) {computed : String → Option Bytes}
    {stored : FiniteMap String Bytes} {members : Finset String}
    (agrees : ∀ id assignment, computed id = some assignment → id ∈ members →
      stored.get id = some assignment) (id : String) (assignment : Bytes)
    (isComputed : assignments.foldl RoundLedger.noteAssignment computed id = some assignment)
    (member : id ∈ members) :
    (assignments.foldl (fun all a => all.insert a.1 a.2) stored).get id = some assignment := by
  induction assignments generalizing computed stored with
  | nil => exact agrees id assignment isComputed member
  | cons a rest ih =>
    apply @ih (RoundLedger.noteAssignment computed a) (stored.insert a.1 a.2) _ isComputed
    intro other value isValue inGroup
    unfold RoundLedger.noteAssignment at isValue
    rw [FiniteMap.get_insert]
    by_cases same : other = a.1
    · rw [if_pos same]
      rw [same, Function.update_self] at isValue
      exact isValue
    · rw [if_neg same]
      rw [Function.update_of_ne same] at isValue
      exact agrees other value isValue inGroup

theorem sameRound_iff {group' : Option GroupState} :
    sameRound group group' = true ↔ ∃ g g', GroupState.live group = some g ∧
      GroupState.live group' = some g' ∧ g'.generationId = g.generationId := by
  unfold sameRound
  constructor
  · intro same
    obtain ⟨g, isG, rest⟩ := (Option.any_eq_true _ _).mp same
    obtain ⟨g', isG', generation⟩ := (Option.any_eq_true _ _).mp rest
    exact ⟨g, g', isG, isG', by simpa using generation⟩
  · intro same
    obtain ⟨g, g', isG, isG', generation⟩ := same
    simp [isG, isG', generation]

theorem noteRound_other {event : Event}
    (other : sameRound group (groupStep groupId group event) = false) :
    noteRound groupId group l event = {} := by
  unfold noteRound
  rw [other]
  rfl

theorem live_some (alive : g.state ≠ .dead) : GroupState.live (some g) = some g := by
  simp [GroupState.live, Option.filter, alive]

theorem live_map_none (absent : GroupState.live group = none) {f : GroupState → GroupState}
    (staysDead : ∀ g, g.state = .dead → (f g).state = .dead) :
    GroupState.live (group.map f) = none := by
  cases group with
  | none => rfl
  | some g =>
    have isDead : g.state = .dead := by
      by_contra alive
      rw [live_some alive] at absent
      cases absent
    simp [GroupState.live, Option.filter, staysDead g isDead]

theorem holds_replaced {x : String × GroupMember} (replaced : g.replaced order req = some x) :
    g.members.get x.1 = some x.2 := by
  unfold GroupState.replaced at replaced
  split at replaced
  · obtain ⟨old, _, rest⟩ := Option.bind_eq_some_iff.mp replaced
    obtain ⟨m, found, same⟩ := Option.map_eq_some_iff.mp rest
    rw [← same]
    exact found
  · cases replaced

def GroupInRound (l : RoundLedger) (group : Option GroupState) : Prop :=
  ∀ g, GroupState.live group = some g → InRound l g

section Step

variable {groupId : String} {group : Option GroupState} {l : RoundLedger} {event : Event}

theorem GroupInRound.move {l' : RoundLedger} {g h g' : GroupState}
    (isLive : GroupState.live group = some g) (current : h.generationId = g.generationId)
    (after : groupStep groupId group event = some g')
    (noted : noteInRound groupId group l event = l') (inRound : InRound l' h)
    (move : GroupState.Continues h g' ∨ GroupState.Restarts h g') :
    GroupInRound (noteRound groupId group l event) (groupStep groupId group event) := by
  intro g'' isLive'
  rw [after] at isLive'
  obtain rfl := Option.some.inj (GroupState.live_eq_some isLive')
  rcases move with continues | restarts
  · have same : sameRound group (groupStep groupId group event) = true := by
      rw [after]
      exact sameRound_iff.mpr ⟨g, g', isLive, isLive', continues.generationId.trans current⟩
    unfold noteRound
    rw [if_pos same, noted]
    exact inRound.continues continues
  · have other : sameRound group (groupStep groupId group event) = false := by
      rw [after]
      by_contra same
      obtain ⟨x, x', isX, isX', generation⟩ := sameRound_iff.mp (Bool.not_eq_false _ ▸ same)
      obtain rfl := Option.some.inj (isLive.symm.trans isX)
      obtain rfl := Option.some.inj (isLive'.symm.trans isX')
      rw [restarts.generationId, current] at generation
      exact GroupState.wrap32_succ_ne _ generation
    rw [noteRound_other other]
    exact inRound_new restarts.joined

theorem GroupInRound.stays (inRound : GroupInRound l group)
    (after : groupStep groupId group event = group) (noted : noteInRound groupId group l event = l) :
    GroupInRound (noteRound groupId group l event) (groupStep groupId group event) := by
  intro g isLive
  rw [after] at isLive
  have same : sameRound group (groupStep groupId group event) = true := by
    rw [after]
    exact sameRound_iff.mpr ⟨g, g, isLive, isLive, rfl⟩
  unfold noteRound
  rw [if_pos same, noted]
  exact inRound g isLive

theorem GroupInRound.starts {g' : GroupState} (absent : GroupState.live group = none)
    (after : groupStep groupId group event = some g') (joined : g'.Joined) :
    GroupInRound (noteRound groupId group l event) (groupStep groupId group event) := by
  have other : sameRound group (groupStep groupId group event) = false := by
    simp [sameRound, absent]
  rw [noteRound_other other]
  intro g isLive
  rw [after] at isLive
  obtain rfl := Option.some.inj (GroupState.live_eq_some isLive)
  exact inRound_new joined

theorem GroupInRound.gone (absent : GroupState.live (groupStep groupId group event) = none) :
    GroupInRound (noteRound groupId group l event) (groupStep groupId group event) := by
  intro g isLive
  rw [absent] at isLive
  cases isLive

end Step

theorem joined_of_empty (isEmpty : g.state = .empty) : g.Joined := by
  constructor
  · intro completing
    rw [isEmpty] at completing
    cases completing
  · intro stable
    rw [isEmpty] at stable
    cases stable

theorem inRound_deserted (l : RoundLedger) (isEmpty : g.state = .empty)
    (deserted : g.members.keys = ∅) : InRound l g where
  joined := joined_of_empty isEmpty
  fresh := by
    intro preparing
    rw [isEmpty] at preparing
    cases preparing
  told := by simp [deserted]
  stored := by simp [deserted]

theorem mem_memberList {joined : FiniteMap String Protocols} (joins : id ∈ joined.keys) :
    id ∈ (g.memberList order joined).map JoinGroupResponseMember.memberId := by
  obtain ⟨protocols, found⟩ := Option.isSome_iff_exists.mp ((joined.mem_keys id).mp joins)
  unfold GroupState.memberList
  simp only [List.mem_map, List.mem_filterMap, Option.map_eq_some_iff]
  exact ⟨_, ⟨id, (order.mem joined.keys id).mpr joins, protocols, found, rfl⟩, rfl⟩

theorem pollJoin_answered (joined : g.Joined) (alive : g.state ≠ .dead)
    {response res : JoinGroupResponse} {now : Int}
    (answered : GroupState.pollJoin order req response now (some g) = .answered res)
    (accepted : res.errorCode = 0) :
    g.state ≠ .preparingRebalance ∧ (res.leader = res.memberId →
      ∀ id, id ∈ g.members.keys → id ∈ res.members.map JoinGroupResponseMember.memberId) := by
  unfold GroupState.pollJoin at answered
  simp only at answered
  split at answered
  · rw [← GroupState.JoinPoll.answered.inj answered] at accepted
    simp only at accepted
    split at accepted
    · cases accepted
    · cases accepted
  · split at answered
    · rename_i settled
      rw [← GroupState.JoinPoll.answered.inj answered]
      constructor
      · rcases settled with completing | stable | dead
        · simp [completing]
        · simp [stable]
        · simp [dead]
      · intro leads id inGroup
        rw [if_pos leads]
        apply mem_memberList
        split
        · exact inGroup
        · rename_i waiting
          rcases settled with completing | stable | dead
          · exact joined.completing completing inGroup
          · exact (waiting (joined.stable stable)).elim
          · exact (alive dead).elim
    · split at answered
      · cases answered
      · cases answered

theorem InRound.join (inRound : InRound l g) (alive : g.state ≠ .dead)
    {response res : JoinGroupResponse} {now : Int}
    (answered : GroupState.pollJoin order req response now (some g) = .answered res) :
    InRound (l.join res) g := by
  unfold RoundLedger.join
  split
  · exact inRound
  · rename_i accepted
    obtain ⟨settled, lists⟩ := pollJoin_answered inRound.joined alive answered
      (Decidable.not_not.mp accepted)
    constructor
    · exact inRound.joined
    · exact fun preparing => (settled preparing).elim
    · intro ids member id inGroup
      by_cases leads : res.leader = res.memberId
      · simp only [if_pos leads, List.mem_append, List.mem_singleton] at member
        rcases member with before | now
        · exact inRound.told ids before id inGroup
        · rw [now]
          exact lists leads id inGroup
      · simp only [if_neg leads] at member
        exact inRound.told ids member id inGroup
    · exact inRound.stored

theorem InRound.assign (inRound : InRound l g) {req : SyncGroupRequest}
    (leads : req.assignments ≠ [] → g.leaderId = some req.memberId) :
    InRound (if g.leaderId = some req.memberId then l.assign req.assignments else l)
      (g.assign req) := by
  have finished : ∀ assignments : FiniteMap String Bytes, GroupState.Joined
      { g with assignments := assignments, state := .stable, awaitingMembers := .empty } := by
    intro assignments
    constructor
    · intro completing
      cases completing
    · intro _
      rfl
  by_cases isLeader : g.leaderId = some req.memberId
  · rw [if_pos isLeader]
    unfold GroupState.assign
    split
    · constructor
      · exact finished _
      · intro preparing
        cases preparing
      · exact inRound.told
      · intro id assignment computed inGroup
        exact stored_assign req.assignments inRound.stored id assignment computed inGroup
    · rename_i nothing
      rw [Decidable.not_not.mp nothing]
      constructor
      · exact finished _
      · intro preparing
        cases preparing
      · exact inRound.told
      · exact inRound.stored
  · have nothing : req.assignments = [] := by
      by_contra some
      exact isLeader (leads some)
    rw [if_neg isLeader]
    unfold GroupState.assign
    rw [if_neg (not_not.mpr nothing), if_neg isLeader]
    exact inRound

theorem refused_memberError {req : SyncGroupRequest} (isLive : GroupState.live group = some g)
    (refused : g.memberError order req.groupInstanceId req.memberId req.generationId ≠ 0) :
    GroupState.syncGroup order req group = (group,
      { errorCode := g.memberError order req.groupInstanceId req.memberId req.generationId }) := by
  simp [GroupState.syncGroup, isLive, refused]

theorem accepted_memberError {req : SyncGroupRequest} (isLive : GroupState.live group = some g)
    (accepted : g.memberError order req.groupInstanceId req.memberId req.generationId = 0) :
    GroupState.syncGroup order req group =
      (some (g.assign req), { assignment := (g.assign req).assignmentOf req.memberId }) := by
  simp [GroupState.syncGroup, isLive, accepted]

theorem assign_generationId (req : SyncGroupRequest) (g : GroupState) :
    (g.assign req).generationId = g.generationId := by
  unfold GroupState.assign
  split
  · rfl
  · split
    · rfl
    · rfl

section Step

variable {groupId : String} {group : Option GroupState} {l : RoundLedger}

theorem noteInRound_syncGroup {order : HashOrder String} {req : SyncGroupRequest} {g : GroupState}
    (isAbout : req.groupId = groupId) (isLive : GroupState.live group = some g)
    (accepted : g.memberError order req.groupInstanceId req.memberId req.generationId = 0) :
    noteInRound groupId group l (.syncGroup order req) =
      if g.leaderId = some req.memberId then l.assign req.assignments else l := by
  simp [noteInRound, isAbout, accepted_memberError isLive accepted, isLive]

theorem GroupInRound.syncGroup (inRound : GroupInRound l group) {order : HashOrder String}
    {req : SyncGroupRequest} (keeps : KeepsRound groupId group l (.syncGroup order req)) :
    GroupInRound (noteRound groupId group l (.syncGroup order req))
      (groupStep groupId group (.syncGroup order req)) := by
  by_cases isAbout : req.groupId = groupId
  · cases isLive : GroupState.live group with
    | none =>
      have same : GroupState.syncGroup order req group = (group, { errorCode := 25 }) := by
        simp [GroupState.syncGroup, isLive]
      apply inRound.stays
      · simp [groupStep, isAbout, same]
      · simp [noteInRound, same]
    | some g =>
      by_cases accepted :
          g.memberError order req.groupInstanceId req.memberId req.generationId = 0
      · intro g' isLive'
        have after : groupStep groupId group (.syncGroup order req) = some (g.assign req) := by
          simp [groupStep, isAbout, accepted_memberError isLive accepted]
        rw [after] at isLive'
        obtain rfl := Option.some.inj (GroupState.live_eq_some isLive')
        have same : sameRound group (groupStep groupId group (.syncGroup order req)) = true := by
          rw [after]
          exact sameRound_iff.mpr ⟨g, _, isLive, isLive', assign_generationId req g⟩
        unfold noteRound
        rw [if_pos same, noteInRound_syncGroup isAbout isLive accepted]
        exact (inRound g isLive).assign (fun some => keeps isAbout some g isLive accepted)
      · have same := refused_memberError isLive accepted
        apply inRound.stays
        · simp [groupStep, isAbout, same]
        · simp [noteInRound, same, accepted]
  · apply inRound.stays
    · simp [groupStep, isAbout]
    · simp [noteInRound, isAbout]

theorem GroupInRound.joinGroup (inRound : GroupInRound l group) (order : HashOrder String)
    (version : Int) (req : JoinGroupRequest) (newId : String) (now instant : Int) :
    GroupInRound (noteRound groupId group l (.joinGroup order version req newId now instant))
      (groupStep groupId group (.joinGroup order version req newId now instant)) := by
  by_cases isAbout : req.groupId = groupId
  · cases checked : GroupState.refusal req with
    | some code =>
      apply inRound.stays
      · simp [groupStep, isAbout,
          GroupState.joinGroup_refusal order version newId now instant group checked]
      · simp [noteInRound, checked]
    | none =>
      cases isLive : GroupState.live group with
      | none =>
        obtain ⟨g', result, cases'⟩ := @GroupState.joinGroup_cases order version req newId now
          instant group {} checked (by rw [isLive]; rfl) (by decide)
        have isEmpty : (({} : GroupState).afterReplacement order req newId now).state = .empty :=
          GroupState.afterReplacement_state order req newId now {}
        have after : groupStep groupId group
            (.joinGroup order version req newId now instant) = some g' := by
          simp [groupStep, isAbout, result]
        apply GroupInRound.starts isLive after
        · rcases cases' with ⟨same, _⟩ | continues | restarts
          · rw [same]
            exact joined_of_empty rfl
          · exact continues.joined (joined_of_empty isEmpty)
          · exact restarts.joined
      | some g =>
        obtain ⟨g', result, cases'⟩ := GroupState.joinGroup_cases order version req newId now
          instant checked (by rw [isLive]; rfl) (GroupState.live_ne_dead isLive)
        have after : groupStep groupId group
            (.joinGroup order version req newId now instant) = some g' := by
          simp [groupStep, isAbout, result]
        have isIn := inRound g isLive
        -- The ledger goes along with a static member that is replaced.
        have noted : noteInRound groupId group l
            (.joinGroup order version req newId now instant) =
              match g.replaced order req with
              | some x => l.rename x.1 newId
              | none => l := by
          simp [noteInRound, isAbout, checked, isLive]
        have replaces : InRound (match g.replaced order req with
            | some x => l.rename x.1 newId
            | none => l) (g.afterReplacement order req newId now) := by
          unfold GroupState.afterReplacement
          cases replaced : g.replaced order req with
          | none => exact isIn
          | some x => exact isIn.replaceMember (holds_replaced replaced) newId now
        rcases cases' with ⟨same, nobody⟩ | move
        · rw [nobody] at noted
          exact GroupInRound.move isLive rfl after noted isIn
            (Or.inl (same ▸ GroupState.Continues.refl g))
        · exact GroupInRound.move isLive
            (g.afterReplacement_generationId order req newId now) after noted replaces move
  · apply inRound.stays
    · simp [groupStep, isAbout]
    · simp [noteInRound, isAbout]

theorem GroupInRound.pollJoin (inRound : GroupInRound l group) (order : HashOrder String)
    (req : JoinGroupRequest) (response : JoinGroupResponse) (now : Int) :
    GroupInRound (noteRound groupId group l (.pollJoin order req response now))
      (groupStep groupId group (.pollJoin order req response now)) := by
  by_cases isAbout : req.groupId = groupId
  · intro g isLive
    have isLive : GroupState.live group = some g := isLive
    have isGroup := GroupState.live_eq_some isLive
    have same : sameRound group (groupStep groupId group (.pollJoin order req response now)) =
        true := sameRound_iff.mpr ⟨g, g, isLive, isLive, rfl⟩
    unfold noteRound
    rw [if_pos same]
    simp only [noteInRound, isAbout, if_true]
    rw [isGroup]
    cases poll : GroupState.pollJoin order req response now (some g) with
    | answered res => exact (inRound g isLive).join (GroupState.live_ne_dead isLive) poll
    | timedOut => exact inRound g isLive
    | waiting => exact inRound g isLive
  · apply inRound.stays
    · rfl
    · simp [noteInRound, isAbout]

theorem GroupInRound.step (inRound : GroupInRound l group) {event : Event}
    (keeps : KeepsRound groupId group l event) :
    GroupInRound (noteRound groupId group l event) (groupStep groupId group event) := by
  cases event with
  | joinGroup order version req newId now instant =>
    exact inRound.joinGroup order version req newId now instant
  | pollJoin order req response now => exact inRound.pollJoin order req response now
  | syncGroup order req => exact inRound.syncGroup keeps
  | forceRound id =>
    by_cases isAbout : id = groupId
    · cases isLive : GroupState.live group with
      | none =>
        apply GroupInRound.gone
        simp only [groupStep, if_pos isAbout]
        apply live_map_none isLive
        intro g isDead
        simp [GroupState.forceRound, isDead]
      | some g =>
        have after : groupStep groupId group (.forceRound id) = some g.forceRound := by
          simp [groupStep, isAbout, GroupState.live_eq_some isLive]
        apply GroupInRound.move isLive rfl after rfl (inRound g isLive)
        exact Or.inl (GroupState.continues_forceRound (keeps isAbout g isLive))
    · exact inRound.stays (by simp [groupStep, isAbout]) rfl
  | tryCompleteJoin order id instant =>
    by_cases isAbout : id = groupId
    · cases isLive : GroupState.live group with
      | none =>
        apply GroupInRound.gone
        simp only [groupStep, if_pos isAbout]
        apply live_map_none isLive
        intro g isDead
        rcases GroupState.tryCompleteJoin_cases order instant g with ⟨delay, same⟩ | ⟨preparing, _⟩
        · rw [same]
          exact isDead
        · rw [isDead] at preparing
          cases preparing
      | some g =>
        have after : groupStep groupId group (.tryCompleteJoin order id instant) =
            some (g.tryCompleteJoin order instant) := by
          simp [groupStep, isAbout, GroupState.live_eq_some isLive]
        apply GroupInRound.move isLive rfl after rfl (inRound g isLive)
        exact Or.inl (GroupState.continues_tryCompleteJoin order instant g)
    · exact inRound.stays (by simp [groupStep, isAbout]) rfl
  | heartbeat order req now =>
    by_cases isAbout : req.groupId = groupId
    · cases isLive : GroupState.live group with
      | none =>
        apply inRound.stays _ rfl
        simp [groupStep, isAbout, GroupState.heartbeat, isLive]
      | some g =>
        obtain ⟨g', result, move⟩ := GroupState.heartbeat_cases order req now isLive
        have after : groupStep groupId group (.heartbeat order req now) = some g' := by
          simp [groupStep, isAbout, result]
        exact GroupInRound.move isLive rfl after rfl (inRound g isLive) move
    · exact inRound.stays (by simp [groupStep, isAbout]) rfl
  | leaveGroup order version req instant =>
    by_cases isAbout : req.groupId = groupId
    · cases isLive : GroupState.live group with
      | none =>
        apply inRound.stays _ rfl
        simp [groupStep, isAbout, GroupState.leaveGroup, isLive]
      | some g =>
        obtain ⟨g', result, cases'⟩ := GroupState.leaveGroup_cases order version req instant isLive
        have after : groupStep groupId group (.leaveGroup order version req instant) = some g' := by
          simp [groupStep, isAbout, result]
        rcases cases' with ⟨deserted, isEmpty, _⟩ | restarts
        · intro x isX
          rw [after] at isX
          obtain rfl := Option.some.inj (GroupState.live_eq_some isX)
          exact inRound_deserted _ isEmpty deserted
        · exact GroupInRound.move isLive rfl after rfl (inRound g isLive) (Or.inr restarts)
    · exact inRound.stays (by simp [groupStep, isAbout]) rfl
  | deleteGroups ids =>
    by_cases isAbout : groupId ∈ ids
    · cases isLive : GroupState.live group with
      | none =>
        apply GroupInRound.gone
        simp only [groupStep, if_pos isAbout]
        apply live_map_none isLive
        intro g isDead
        simp [isDead]
      | some g =>
        by_cases isEmpty : g.state = .empty
        · apply GroupInRound.gone
          simp [groupStep, isAbout, GroupState.live_eq_some isLive, isEmpty, GroupState.bury,
            GroupState.live, Option.filter]
        · apply inRound.stays _ rfl
          simp [groupStep, isAbout, GroupState.live_eq_some isLive, isEmpty]
    · exact inRound.stays (by simp [groupStep, isAbout]) rfl
  | restart order now s => exact GroupInRound.gone rfl
  | _ => exact inRound.stays rfl rfl

end Step

theorem groupInRound_runEvents (codec : Codec) {events : List Event} {e : EngineState}
    (inRound : GroupInRound l (e.groups groupId)) (along : AlongRounds codec groupId l e events) :
    GroupInRound (roundAfter codec groupId l e events) ((e.runEvents codec events).groups groupId) := by
  induction events generalizing l e with
  | nil => exact inRound
  | cons event rest ih =>
    obtain ⟨keeps, later⟩ := along
    apply ih _ later
    rw [groups_next]
    exact inRound.step keeps

theorem GroupInRound.syncsAsComputed (inRound : GroupInRound l group) :
    SyncsAsComputed groupId group l := by
  intro order req g isAbout isLive isMember current notFenced leads l' _ computed
  obtain ⟨ids, listed, all⟩ := computed
  have settled : g.state ≠ .preparingRebalance := by
    intro preparing
    have nobody := ((inRound g isLive).fresh preparing).1
    have unlisted : l'.listed = [] := by
      simp only [l', noteRound, noteInRound]
      split
      · split
        · exact nobody
        · exact nobody
      · rfl
    rw [unlisted] at listed
    cases listed
  have accepted : g.memberError order req.groupInstanceId req.memberId req.generationId = 0 := by
    have known := (g.members.contains_iff req.memberId).mpr isMember
    simp [GroupState.memberError, notFenced, known, settled, current]
  have answer := accepted_memberError isLive accepted
  have after : groupStep groupId group (.syncGroup order req) = some (g.assign req) := by
    simp [groupStep, isAbout, answer]
  have keeps : KeepsRound groupId group l (.syncGroup order req) := by
    intro _ some h isLive' _
    obtain rfl := Option.some.inj (isLive.symm.trans isLive')
    exact leads some
  have alive : (g.assign req).state ≠ .dead := by
    have before := GroupState.live_ne_dead isLive
    unfold GroupState.assign
    split
    · simp
    · split
      · simp
      · exact before
  have isIn : InRound l' (g.assign req) := by
    apply inRound.step keeps
    rw [after]
    exact live_some alive
  have members : (g.assign req).members = g.members := by
    unfold GroupState.assign
    split
    · rfl
    · split
      · rfl
      · rfl
  have inGroup : req.memberId ∈ (g.assign req).members.keys := by
    rw [members]
    exact isMember
  obtain ⟨assignment, isComputed⟩ := Option.isSome_iff_exists.mp
    (all req.memberId (isIn.told ids listed req.memberId inGroup))
  refine ⟨assignment, isComputed, ?_⟩
  rw [answer]
  simp [GroupState.assignmentOf, isIn.stored req.memberId assignment isComputed inGroup]

/-- Whatever the requests and timeouts, if they keep to the rounds then a member gets the assignment
that the leader has computed for it. -/
theorem runEvents_syncsAsComputed (codec : Codec) (events : List Event) (groupId : String)
    (along : AlongRounds codec groupId {} new events) :
    SyncsAsComputed groupId ((new.runEvents codec events).groups groupId)
      (roundAfter codec groupId {} new events) := by
  apply GroupInRound.syncsAsComputed
  apply groupInRound_runEvents codec _ along
  intro g isLive
  cases isLive

def rejoins (memberId : String) : JoinGroupRequest :=
  { consumerJoins "g" with memberId := memberId }

/-- Members a and b are assigned partitions, and a joins again.  It waits for b until the
time is up, and is told that it is alone; then b joins the round that is completing. -/
noncomputable def leftOut : List Event :=
  [.joinGroup alphabetical 3 (rejoins "") "a" 100 0,
    .tryCompleteJoin alphabetical "g" 300,
    .joinGroup alphabetical 3 (rejoins "") "b" 200 400,
    .joinGroup alphabetical 3 (rejoins "a") "c" 300 500,
    .syncGroup alphabetical { groupId := "g", generationId := 2, memberId := "a",
                              assignments := [("a", [1]), ("b", [2])] },
    .joinGroup alphabetical 3 (rejoins "a") "c" 400 600,
    .pollJoin alphabetical (rejoins "a") { memberId := "a" } 60400,
    .forceRound "g",
    .pollJoin alphabetical (rejoins "a") { memberId := "a" } 60400,
    .joinGroup alphabetical 3 (rejoins "b") "c" 60500 60600,
    .pollJoin alphabetical (rejoins "b") { memberId := "b" } 60500,
    .syncGroup alphabetical
      { groupId := "g", generationId := 3, memberId := "a", assignments := [("a", [9])] }]

theorem minted_of_map (minted : group.map (fun g => g.members.get newId) = some none) :
    ∀ g, group = some g → g.members.get newId = none := by
  intro g isGroup
  rw [isGroup] at minted
  exact Option.some.inj minted

/-- Both were answered for the generation and the leader has assigned to everybody that it
was told, but b gets nothing. -/
theorem runEvents_memberLeftOut :
    ¬ ∀ (codec : Codec) (events : List Event) (groupId : String),
      AlongEvents codec (fun e event => Legal codec e event ∧ MintsNew e event) new events →
        SyncsAsComputed groupId ((new.runEvents codec events).groups groupId)
          (roundAfter codec groupId {} new events) := by
  intro claimed
  have minted : AlongEvents PartitionState.hundredBytes
      (fun e event => Legal PartitionState.hundredBytes e event ∧ MintsNew e event) new leftOut :=
    ⟨⟨trivial, fun g isGroup => by cases isGroup⟩, ⟨trivial, trivial⟩,
      ⟨trivial, minted_of_map rfl⟩, ⟨trivial, minted_of_map rfl⟩, ⟨trivial, trivial⟩,
      ⟨trivial, minted_of_map rfl⟩, ⟨trivial, trivial⟩, ⟨trivial, trivial⟩, ⟨trivial, trivial⟩,
      ⟨trivial, minted_of_map rfl⟩, ⟨trivial, trivial⟩, ⟨trivial, trivial⟩, trivial⟩
  obtain ⟨g, isG⟩ : ∃ g, GroupState.live ((new.runEvents PartitionState.hundredBytes
      leftOut).groups "g") = some g := Option.isSome_iff_exists.mp rfl
  have member : (some g).map (fun g => decide ("b" ∈ g.members.keys)) = some true := by
    rw [← isG]
    rfl
  have generation : (some g).map GroupState.generationId = some 3 := by
    rw [← isG]
    rfl
  obtain ⟨assignment, isComputed, _⟩ := claimed PartitionState.hundredBytes leftOut "g" minted
    alphabetical { groupId := "g", generationId := 3, memberId := "b" } g rfl isG
    (of_decide_eq_true (Option.some.inj member)) (Option.some.inj generation).symm rfl
    (fun some => (some rfl).elim) (List.mem_of_elem_eq_true rfl)
    ⟨["a"], List.mem_of_elem_eq_true rfl, fun id isListed => by
      rw [List.mem_singleton.mp isListed]
      rfl⟩
  cases isComputed

/-- Members a and b are told of generation 2, and a assigns to both. -/
noncomputable def syncedTogether : List Event :=
  [.joinGroup alphabetical 3 (rejoins "") "a" 100 0,
    .tryCompleteJoin alphabetical "g" 300,
    .joinGroup alphabetical 3 (rejoins "") "b" 200 400,
    .joinGroup alphabetical 3 (rejoins "a") "c" 300 500,
    .pollJoin alphabetical (rejoins "a") { memberId := "a" } 500,
    .pollJoin alphabetical (rejoins "") { memberId := "b" } 500,
    .syncGroup alphabetical { groupId := "g", generationId := 2, memberId := "a",
                              assignments := [("a", [1]), ("b", [2])] }]

theorem runEvents_syncsAsComputed_follower :
    (GroupState.syncGroup alphabetical { groupId := "g", generationId := 2, memberId := "b" }
      ((new.runEvents PartitionState.hundredBytes syncedTogether).groups "g")).2 =
        { assignment := [2] } := by
  have along : AlongRounds PartitionState.hundredBytes "g" {} new syncedTogether := by
    refine ⟨?_, trivial, ?_, ?_, trivial, trivial, ?_, trivial⟩
    · intro _ _ g x isLive
      cases isLive
    · intro _ _ g x _ isReplaced
      cases isReplaced
    · intro _ _ g x _ isReplaced
      cases isReplaced
    · intro _ _ g isLive _
      have leads : (some g).map GroupState.leaderId = some (some "a") := by
        rw [← isLive]
        rfl
      exact Option.some.inj leads
  obtain ⟨g, isG⟩ : ∃ g, GroupState.live ((new.runEvents PartitionState.hundredBytes
      syncedTogether).groups "g") = some g := Option.isSome_iff_exists.mp rfl
  have member : (some g).map (fun g => decide ("b" ∈ g.members.keys)) = some true := by
    rw [← isG]
    rfl
  have generation : (some g).map GroupState.generationId = some 2 := by
    rw [← isG]
    rfl
  obtain ⟨assignment, isComputed, answer⟩ :=
    runEvents_syncsAsComputed PartitionState.hundredBytes syncedTogether "g" along
      alphabetical { groupId := "g", generationId := 2, memberId := "b" } g rfl isG
      (of_decide_eq_true (Option.some.inj member)) (Option.some.inj generation).symm rfl
      (fun some => (some rfl).elim) (List.mem_of_elem_eq_true rfl)
      ⟨["a", "b"], List.mem_of_elem_eq_true rfl, fun id isListed => by
        rcases List.mem_pair.mp isListed with rfl | rfl
        · rfl
        · rfl⟩
  have isTwo : assignment = [2] := (Option.some.inj isComputed).symm
  rw [answer, isTwo]

end EngineState

end NoidaDb.Kafka
