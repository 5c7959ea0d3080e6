/-
Rounds of a consumer group.
-/

import NoidaDb.Kafka.Refusals

namespace NoidaDb.Kafka

open Lib

namespace GroupState

/-- Every member has joined the round that is completing; none waits in a stable group. -/
structure Joined (g : GroupState) : Prop where
  completing : g.state = .completingRebalance → g.members.keys ⊆ g.awaitingMembers.keys
  stable : g.state = .stable → g.awaitingMembers.keys = ∅

structure Continues (g g' : GroupState) : Prop where
  generationId : g'.generationId = g.generationId
  assignments : g'.assignments = g.assignments
  members : g.state ≠ .preparingRebalance → g'.members.keys ⊆ g.members.keys
  preparing : g'.state = .preparingRebalance → g.state = .preparingRebalance
  joined : g.Joined → g'.Joined

structure Restarts (g g' : GroupState) : Prop where
  generationId : g'.generationId = wrap32 (g.generationId + 1)
  joined : g'.Joined

theorem Continues.refl (g : GroupState) : Continues g g :=
  ⟨rfl, rfl, fun _ _ member => member, fun same => same, fun joined => joined⟩

variable {g g' : GroupState} {group : Option GroupState}

theorem Continues.of_fields (generationId : g'.generationId = g.generationId)
    (assignments : g'.assignments = g.assignments) (members : g'.members.keys = g.members.keys)
    (state : g'.state = g.state) (awaiting : g'.awaitingMembers = g.awaitingMembers) :
    Continues g g' where
  generationId := generationId
  assignments := assignments
  members := fun _ => by rw [members]
  preparing := fun isPreparing => by rw [← state, isPreparing]
  joined := by
    intro joined
    constructor
    · rw [state, members, awaiting]
      exact joined.completing
    · rw [state, awaiting]
      exact joined.stable

theorem tryCompleteJoin_cases (order : HashOrder String) (instant : Int) (g : GroupState) :
    (∃ delay, g.tryCompleteJoin order instant = { g with initialUntil := delay }) ∨
      g.state = .preparingRebalance ∧ g.members.keys ⊆ g.awaitingMembers.keys ∧
        ∃ leaderId protocolName, g.tryCompleteJoin order instant =
          { g with
            initialUntil := none
            awaitingMembers := g.awaitingMembers.restrict g.members.contains
            state := .completingRebalance
            leaderId := leaderId
            protocolName := protocolName } := by
  unfold tryCompleteJoin
  split
  · exact Or.inl ⟨g.initialUntil, rfl⟩
  · simp only
    split
    · exact Or.inl ⟨none, rfl⟩
    · rename_i ready
      simp only [not_or, Decidable.not_not] at ready
      exact Or.inr ⟨ready.1, ready.2.2, _, _, rfl⟩

theorem restrict_covers {members : FiniteMap String GroupMember}
    {awaiting : FiniteMap String Protocols} (covers : members.keys ⊆ awaiting.keys) :
    members.keys ⊆ (awaiting.restrict members.contains).keys := by
  intro id member
  have waits := (awaiting.mem_keys id).mp (covers member)
  have known := (members.contains_iff id).mpr member
  rw [FiniteMap.mem_keys]
  simpa [known] using waits

theorem continues_tryCompleteJoin (order : HashOrder String) (instant : Int) (g : GroupState) :
    Continues g (g.tryCompleteJoin order instant) := by
  rcases tryCompleteJoin_cases order instant g with ⟨delay, same⟩ | ⟨preparing, covers, _, _, same⟩
  · rw [same]
    exact Continues.of_fields rfl rfl rfl rfl rfl
  · rw [same]
    constructor
    · rfl
    · rfl
    · intro _
      exact Finset.Subset.refl _
    · intro isPreparing
      exact preparing
    · intro _
      constructor
      · intro _
        exact restrict_covers covers
      · intro isStable
        cases isStable

theorem joined_of_preparing (preparing : g.state = .preparingRebalance) : g.Joined := by
  constructor
  · intro completing
    rw [preparing] at completing
    cases completing
  · intro stable
    rw [preparing] at stable
    cases stable

theorem Restarts.tryCompleteJoin (restarts : Restarts g g') (order : HashOrder String)
    (instant : Int) : Restarts g (g'.tryCompleteJoin order instant) where
  generationId := by
    rw [tryCompleteJoin_generationId]
    exact restarts.generationId
  joined := (continues_tryCompleteJoin order instant g').joined restarts.joined

theorem Continues.trans {g'' : GroupState} (first : Continues g g') (second : Continues g' g'')
    (settled : g.state ≠ .preparingRebalance → g'.state ≠ .preparingRebalance) :
    Continues g g'' where
  generationId := second.generationId.trans first.generationId
  assignments := second.assignments.trans first.assignments
  members := fun isSettled =>
    (second.members (settled isSettled)).trans (first.members isSettled)
  preparing := fun isPreparing => first.preparing (second.preparing isPreparing)
  joined := fun joined => second.joined (first.joined joined)

def enteredRound (req : JoinGroupRequest) (memberId : String) (now : Int) (g : GroupState) :
    GroupState :=
  { g with
    members := g.members.insert memberId (newMember req memberId now)
    awaitingMembers := g.awaitingMembers.insert memberId req.protocols }

theorem enterRound_eq (req : JoinGroupRequest) (memberId : String) (now instant : Int)
    (g : GroupState) :
    ∃ leaderId delay, g.enterRound req memberId now instant =
      { (if (g.restartRound req memberId now).state = .empty ∨
            (g.restartRound req memberId now).state = .stable then
          ((g.restartRound req memberId now).enteredRound req memberId now).startRound now
        else (g.restartRound req memberId now).enteredRound req memberId now) with
        leaderId := leaderId
        initialUntil := delay } := by
  have elected : ∀ x : GroupState, ∃ leaderId,
      (if x.leaderId.all (fun l => !x.members.contains l) = true then
        { x with leaderId := some memberId } else x) = { x with leaderId := leaderId } := by
    intro x
    split
    · exact ⟨_, rfl⟩
    · exact ⟨x.leaderId, rfl⟩
  unfold enterRound
  generalize g.restartRound req memberId now = r
  by_cases isEmpty : r.state = .empty
  · simp only [isEmpty, if_true, true_or]
    obtain ⟨leaderId, same⟩ := elected
      { (r.enteredRound req memberId now).startRound now with
        initialUntil := some (instant + initialRebalanceDelay) }
    exact ⟨leaderId, _, same⟩
  · by_cases isStable : r.state = .stable
    · simp only [isStable, reduceCtorEq, if_false, if_true, false_or]
      obtain ⟨leaderId, same⟩ := elected ((r.enteredRound req memberId now).startRound now)
      exact ⟨leaderId, r.initialUntil, same⟩
    · simp only [isEmpty, isStable, if_false, false_or]
      obtain ⟨leaderId, same⟩ := elected (r.enteredRound req memberId now)
      exact ⟨leaderId, r.initialUntil, same⟩

theorem enterRound_cases (req : JoinGroupRequest) (memberId : String) (now instant : Int)
    (alive : g.state ≠ .dead) :
    Continues g (g.enterRound req memberId now instant) ∧
        (g.state ≠ .preparingRebalance →
          (g.enterRound req memberId now instant).state ≠ .preparingRebalance) ∨
      Restarts g (g.enterRound req memberId now instant) := by
  obtain ⟨leaderId, delay, same⟩ := enterRound_eq req memberId now instant g
  rw [same]
  cases state : g.state with
  | dead => exact (alive state).elim
  | empty =>
    have stays : g.restartRound req memberId now = g := by simp [restartRound, state]
    apply Or.inr
    rw [stays, if_pos (Or.inl state)]
    exact ⟨rfl, joined_of_preparing rfl⟩
  | stable =>
    have stays : g.restartRound req memberId now = g := by simp [restartRound, state]
    apply Or.inr
    rw [stays, if_pos (Or.inr state)]
    exact ⟨rfl, joined_of_preparing rfl⟩
  | preparingRebalance =>
    have stays : g.restartRound req memberId now = g := by simp [restartRound, state]
    apply Or.inl
    rw [stays, if_neg (by simp [state])]
    refine ⟨?_, fun settled => (settled rfl).elim⟩
    constructor
    · rfl
    · rfl
    · exact fun settled => (settled state).elim
    · exact fun _ => state
    · exact fun _ => joined_of_preparing state
  | completingRebalance =>
    by_cases changed : (g.members.get memberId).all (fun m => decide (m.protocols ≠ req.protocols)) =
        true
    · have restarts : g.restartRound req memberId now =
          { g.startRound now with awaitingMembers := .empty } := by
        unfold restartRound
        rw [if_pos ⟨state, changed⟩]
      apply Or.inr
      rw [restarts, if_neg (by simp [startRound])]
      exact ⟨rfl, joined_of_preparing rfl⟩
    · have stays : g.restartRound req memberId now = g := by
        unfold restartRound
        rw [if_neg (fun both => changed both.2)]
      -- The member was in the group, with the same subscription.
      have known : memberId ∈ g.members.keys := by
        rw [g.members.mem_keys]
        cases found : g.members.get memberId with
        | none => simp [found] at changed
        | some m => rfl
      apply Or.inl
      rw [stays, if_neg (by simp [state])]
      refine ⟨?_, fun _ => by simp [enteredRound, state]⟩
      constructor
      · rfl
      · rfl
      · intro _
        exact le_of_eq (Finset.insert_eq_of_mem known)
      · intro isPreparing
        simp [enteredRound, state] at isPreparing
      · intro joined
        constructor
        · intro _
          exact Finset.insert_subset_insert memberId (joined.completing state)
        · intro isStable
          simp [enteredRound, state] at isStable

theorem joinRound_cases (order : HashOrder String) (req : JoinGroupRequest) (memberId : String)
    (now instant : Int) {g : GroupState} (alive : g.state ≠ .dead) :
    Continues g (g.joinRound order req memberId now instant) ∨
      Restarts g (g.joinRound order req memberId now instant) := by
  have named : ∀ x : GroupState, ∃ protocolName,
      (if x.protocolName = none ∧ x.state = .completingRebalance then
        { x with protocolName := req.protocols.head?.map Prod.fst } else x) =
          { x with protocolName := protocolName } := by
    intro x
    split
    · exact ⟨_, rfl⟩
    · exact ⟨x.protocolName, rfl⟩
  unfold joinRound
  obtain ⟨protocolName, same⟩ := named
    ((g.enterRound req memberId now instant).tryCompleteJoin order instant)
  simp only [same]
  have completes := continues_tryCompleteJoin order instant (g.enterRound req memberId now instant)
  rcases enterRound_cases req memberId now instant alive with ⟨enters, settled⟩ | restarts
  · have both := enters.trans completes settled
    exact Or.inl ⟨both.generationId, both.assignments, both.members, both.preparing,
      fun joined => ⟨(both.joined joined).completing, (both.joined joined).stable⟩⟩
  · have both := restarts.tryCompleteJoin order instant
    exact Or.inr ⟨both.generationId, ⟨both.joined.completing, both.joined.stable⟩⟩

theorem joinAs_cases (order : HashOrder String) (req : JoinGroupRequest) (memberId : String)
    (now instant : Int) (alive : g.state ≠ .dead) :
    Continues g (g.joinAs order req memberId now instant).1 ∨
      Restarts g (g.joinAs order req memberId now instant).1 := by
  unfold joinAs
  simp only
  split
  · exact Or.inl (Continues.refl g)
  · obtain ⟨pending, unpended⟩ : ∃ pending,
        (if (decide (req.memberId ≠ "") && !g.members.contains memberId) = true then
          { g with pendingMemberIds := g.pendingMemberIds.erase memberId } else g) =
            { g with pendingMemberIds := pending } := by
      split
      · exact ⟨_, rfl⟩
      · exact ⟨g.pendingMemberIds, rfl⟩
    rw [unpended]
    split
    · exact Or.inl (Continues.of_fields rfl rfl rfl rfl rfl)
    · obtain ⟨protocolType, typed⟩ : ∃ protocolType,
          (if ({ g with pendingMemberIds := pending } : GroupState).protocolType = "" then
            { g with pendingMemberIds := pending, protocolType := req.protocolType }
          else { g with pendingMemberIds := pending }) =
            { g with pendingMemberIds := pending, protocolType := protocolType } := by
        split
        · exact ⟨_, rfl⟩
        · exact ⟨g.protocolType, rfl⟩
      simp only [typed]
      rcases @joinRound_cases order req memberId now instant
          { g with pendingMemberIds := pending, protocolType := protocolType } alive with
        continues | restarts
      · exact Or.inl ⟨continues.generationId, continues.assignments, continues.members,
          continues.preparing, fun joined =>
            continues.joined ⟨joined.completing, joined.stable⟩⟩
      · exact Or.inr ⟨restarts.generationId, restarts.joined⟩

theorem live_ne_dead (isLive : live group = some g) : g.state ≠ .dead := by
  unfold live at isLive
  simpa using (Option.filter_eq_some_iff.mp isLive).2

theorem afterReplacement_state (order : HashOrder String) (req : JoinGroupRequest) (newId : String)
    (now : Int) (g : GroupState) : (g.afterReplacement order req newId now).state = g.state := by
  unfold afterReplacement
  split
  · rfl
  · rfl

theorem afterReplacement_generationId (order : HashOrder String) (req : JoinGroupRequest)
    (newId : String) (now : Int) (g : GroupState) :
    (g.afterReplacement order req newId now).generationId = g.generationId := by
  unfold afterReplacement
  split
  · rfl
  · rfl

theorem joinGroup_cases (order : HashOrder String) (version : Int) (req : JoinGroupRequest)
    (newId : String) (now instant : Int) {group : Option GroupState} {g : GroupState}
    (checked : refusal req = none) (isCurrent : (live group).getD {} = g) (alive : g.state ≠ .dead) :
    ∃ g', (joinGroup order version req newId now instant group).1 = some g' ∧
      (g' = g ∧ g.replaced order req = none ∨
        Continues (g.afterReplacement order req newId now) g' ∨
          Restarts (g.afterReplacement order req newId now) g') := by
  unfold joinGroup
  simp only [checked, isCurrent]
  refine ⟨_, rfl, ?_⟩
  unfold afterReplacement replaced
  cases isStatic : req.groupInstanceId with
  | some instanceId =>
    simp only [Option.bind_some]
    by_cases unnamed : req.memberId = ""
    · simp only [unnamed, if_true]
      unfold joinStatic
      cases holder : (g.memberForInstance order instanceId).bind
          (fun old => (g.members.get old).map (fun m => (old, m))) with
      | none => exact Or.inr (joinAs_cases order req newId now instant alive)
      | some x =>
        simp only
        split
        · exact Or.inr (Or.inl (Continues.refl _))
        · exact Or.inr (joinAs_cases order req newId now instant alive)
    · simp only [if_neg unnamed]
      split
      · exact Or.inl ⟨rfl, trivial⟩
      · exact Or.inr (joinAs_cases order req req.memberId now instant alive)
  | none =>
    simp only [Option.bind_none, ite_self]
    by_cases unnamed : req.memberId ≠ ""
    · rw [if_pos unnamed]
      exact Or.inr (joinAs_cases order req req.memberId now instant alive)
    · rw [if_neg unnamed]
      split
      · exact Or.inr (Or.inl (Continues.of_fields rfl rfl rfl rfl rfl))
      · exact Or.inr (joinAs_cases order req newId now instant alive)

theorem joinGroup_refusal (order : HashOrder String) (version : Int) {req : JoinGroupRequest}
    (newId : String) (now instant : Int) (group : Option GroupState) {code : Int}
    (refused : refusal req = some code) :
    (joinGroup order version req newId now instant group).1 = group := by
  simp [joinGroup, refused]

theorem continues_forceRound
    (all : g.state = .preparingRebalance → g.members.keys ⊆ g.awaitingMembers.keys) :
    Continues g g.forceRound := by
  unfold forceRound
  split
  · rename_i preparing
    constructor
    · rfl
    · rfl
    · exact fun _ => Finset.Subset.refl _
    · exact fun _ => preparing
    · exact fun _ => ⟨fun _ => all preparing, fun isStable => by cases isStable⟩
  · exact Continues.refl g

theorem heartbeat_cases (order : HashOrder String) (req : HeartbeatRequest) (now : Int)
    (isLive : live group = some g) :
    ∃ g', (heartbeat order req now group).1 = some g' ∧ (Continues g g' ∨ Restarts g g') := by
  have isGroup := live_eq_some isLive
  unfold heartbeat
  simp only [isLive]
  split
  · exact ⟨g, isGroup, Or.inl (Continues.refl g)⟩
  · cases isMember : g.members.get req.memberId with
    | none => exact ⟨g, isGroup, Or.inl (Continues.refl g)⟩
    | some m =>
      simp only
      split
      · split
        · rename_i empty
          refine ⟨_, rfl, Or.inl ?_⟩
          constructor
          · rfl
          · rfl
          · exact fun _ => Finset.filter_subset _ _
          · exact fun isPreparing => by cases isPreparing
          · intro _
            constructor
            · intro completing
              cases completing
            · intro stable
              cases stable
        · exact ⟨_, rfl, Or.inr ⟨rfl, joined_of_preparing rfl⟩⟩
      · have known : req.memberId ∈ g.members.keys := by
          rw [g.members.mem_keys, isMember]
          rfl
        exact ⟨_, rfl, Or.inl (Continues.of_fields rfl rfl (Finset.insert_eq_of_mem known) rfl rfl)⟩

theorem leaveGroup_cases (order : HashOrder String) (version : Int) (req : LeaveGroupRequest)
    (instant : Int) (isLive : live group = some g) :
    ∃ g', (leaveGroup order version req instant group).1 = some g' ∧
      (g'.members.keys = ∅ ∧ g'.state = .empty ∧ g'.generationId = g.generationId ∨
        Restarts g g') := by
  have removed : ∀ (ids : List String) (x : GroupState),
      (removeMembers ids x).1.generationId = x.generationId := by
    intro ids
    induction ids with
    | nil => exact fun x => rfl
    | cons id rest ih =>
      intro x
      unfold removeMembers
      split
      · exact ih (x.removeMember id)
      · exact ih x
  unfold leaveGroup
  simp only [isLive]
  refine ⟨_, rfl, ?_⟩
  have same := removed (g.leaving order version req) g
  generalize (removeMembers (g.leaving order version req) g).1 = x at same ⊢
  by_cases deserted : x.members.keys = ∅
  · unfold afterLeave
    rw [if_pos deserted]
    exact Or.inl ⟨deserted, rfl, same⟩
  · apply Or.inr
    constructor
    · rw [afterLeave_generationId order instant deserted, same]
    · unfold afterLeave
      rw [if_neg deserted]
      apply (continues_tryCompleteJoin order instant _).joined
      exact joined_of_preparing rfl

theorem syncGroup_cases (order : HashOrder String) (req : SyncGroupRequest)
    (isLive : live group = some g) :
    ∃ g', (syncGroup order req group).1 = some g' ∧
      (g' = g ∨ req.generationId = g.generationId ∧ g'.generationId = g.generationId ∧
        g'.members = g.members ∧ g'.state = .stable ∧ g'.awaitingMembers = .empty ∧
          g'.assignments = req.assignments.foldl (fun all a => all.insert a.1 a.2) g.assignments) := by
  unfold syncGroup
  simp only [isLive]
  split
  · exact ⟨g, live_eq_some isLive, Or.inl rfl⟩
  · rename_i passes
    have current : req.generationId = g.generationId := by
      by_contra other
      simp only [Decidable.not_not] at passes
      unfold memberError at passes
      split at passes
      · cases passes
      · split at passes
        · cases passes
        · split at passes
          · cases passes
          · cases passes
    refine ⟨_, rfl, ?_⟩
    unfold assign
    split
    · exact Or.inr ⟨current, rfl, rfl, rfl, rfl, rfl⟩
    · rename_i nothing
      simp only [ne_eq, Decidable.not_not] at nothing
      split
      · exact Or.inr ⟨current, rfl, rfl, rfl, rfl, by rw [nothing]; rfl⟩
      · exact Or.inl rfl

end GroupState

end NoidaDb.Kafka
