/-
The two pending lists of a group: the group's own, and the one of each consumer.

They agree when an id is recorded for a consumer exactly if that consumer holds it.
-/

import NoidaDb.Redis.Streams
import Mathlib.Data.List.Perm.Basic

namespace NoidaDb.Redis

open Lib

namespace Group

def Records (g : Group) (name : Bytes) (id : Id) : Prop :=
  ∃ nack, g.pending.get id = some nack ∧ nack.consumer = name

def Holds (g : Group) (name : Bytes) (id : Id) : Prop :=
  ∃ c, g.consumers.get name = some c ∧ id ∈ c.pending.keys

def Agree (g : Group) : Prop := ∀ name id, g.Records name id ↔ g.Holds name id

theorem agree_new (lastId : Id) (entriesRead : Option Int) :
    ({ lastId := lastId, entriesRead := entriesRead } : Group).Agree := by
  intro name id
  constructor
  · rintro ⟨nack, isNack, _⟩
    cases isNack
  · rintro ⟨c, isConsumer, _⟩
    cases isConsumer

theorem holds_consumer {change : Consumer → Consumer}
    (keeps : ∀ c, (change c).pending = c.pending) (g : Group) (name : Bytes) (now : Nat)
    (other : Bytes) (id : Id) :
    (g.consumer name now change).Holds other id ↔ g.Holds other id := by
  unfold Holds consumer
  simp only [OrderedMap.get_insert]
  by_cases same : other = name
  · subst same
    cases isConsumer : g.consumers.get other with
    | none => simp [keeps]
    | some c => simp [keeps]
  · simp [same]

theorem holds_hold (g : Group) (name : Bytes) (id : Id) (now : Nat) (other : Bytes) (j : Id) :
    (g.hold name id now).Holds other j ↔ g.Holds other j ∨ other = name ∧ j = id := by
  unfold Holds hold consumer
  simp only [OrderedMap.get_insert]
  by_cases same : other = name
  · subst same
    cases isConsumer : g.consumers.get other with
    | none => simp [OrderedMap.mem_keys_insert]
    | some c => simp [OrderedMap.mem_keys_insert, or_comm]
  · simp [same]

theorem holds_release (g : Group) (name : Bytes) (id : Id) (other : Bytes) (j : Id) :
    (g.release name id).Holds other j ↔ g.Holds other j ∧ ¬(other = name ∧ j = id) := by
  unfold Holds release
  simp only [OrderedMap.get_update]
  by_cases same : other = name
  · subst same
    cases isConsumer : g.consumers.get other with
    | none => simp
    | some c => simp [OrderedMap.mem_keys_erase, and_comm]
  · simp [same]

theorem records_insert (g : Group) (id : Id) (nack : Nack) (name : Bytes) (j : Id) :
    ({ g with pending := g.pending.insert id nack } : Group).Records name j ↔
      if j = id then nack.consumer = name else g.Records name j := by
  unfold Records
  simp only [OrderedMap.get_insert]
  by_cases same : j = id
  · simp [same]
  · simp [same]

theorem records_update (g : Group) (id : Id) (change : Nack → Nack)
    (keeps : ∀ nack, (change nack).consumer = nack.consumer) (name : Bytes) (j : Id) :
    (g.setNack id change).Records name j ↔ g.Records name j := by
  unfold Records setNack
  simp only [OrderedMap.get_update]
  by_cases same : j = id
  · simp [same, keeps]
  · simp [same]

variable {id : Id}

theorem Records.unique {g : Group} {name other : Bytes} (recorded : g.Records name id)
    (recordedToo : g.Records other id) : name = other := by
  obtain ⟨nack, isNack, isName⟩ := recorded
  obtain ⟨nack', isNack', isOther⟩ := recordedToo
  rw [isNack] at isNack'
  cases isNack'
  rw [← isName, isOther]

variable {g : Group}

theorem Agree.consumer (agree : g.Agree) {change : Consumer → Consumer}
    (keeps : ∀ c, (change c).pending = c.pending) (name : Bytes) (now : Nat) :
    (g.consumer name now change).Agree := by
  intro other id
  rw [holds_consumer keeps]
  exact agree other id

theorem Agree.setNack (agree : g.Agree) {change : Nack → Nack}
    (keeps : ∀ nack, (change nack).consumer = nack.consumer) (id : Id) :
    (g.setNack id change).Agree := by
  intro name j
  rw [records_update g id change keeps]
  exact agree name j

theorem holds_takeFrom (agree : g.Agree) (id : Id) (consumer other : Bytes) (j : Id) :
    (g.takeFrom id consumer).Holds other j ↔ g.Holds other j ∧ (j = id → other = consumer) := by
  have owner : g.Holds other id → ∃ nack, g.pending.get id = some nack ∧ nack.consumer = other :=
    (agree other id).mpr
  unfold takeFrom
  cases isNack : g.pending.get id with
  | none =>
    constructor
    · intro held
      apply And.intro held
      intro same
      obtain ⟨nack, found, _⟩ := owner (same ▸ held)
      rw [isNack] at found
      cases found
    · exact And.left
  | some nack =>
    have isOwner : g.Holds other id → nack.consumer = other := by
      intro held
      obtain ⟨nack', found, isConsumer⟩ := owner held
      rw [isNack] at found
      cases found
      exact isConsumer
    by_cases moved : nack.consumer = consumer
    · simp only [moved, ne_eq, not_true_eq_false, if_false]
      constructor
      · intro held
        exact ⟨held, fun same => (isOwner (same ▸ held)).symm.trans moved⟩
      · exact And.left
    · simp only [ne_eq, moved, not_false_eq_true, if_true]
      rw [holds_release]
      constructor
      · rintro ⟨held, notOwner⟩
        apply And.intro held
        intro same
        exact absurd ⟨(isOwner (same ▸ held)).symm, same⟩ notOwner
      · rintro ⟨held, only⟩
        apply And.intro held
        rintro ⟨isOther, same⟩
        exact moved (isOther ▸ only same)

theorem pending_takeFrom (id : Id) (consumer : Bytes) :
    (g.takeFrom id consumer).pending = g.pending := by
  unfold takeFrom
  split
  · split
    · rfl
    · rfl
  · rfl

theorem agree_handOver (agree : g.Agree) (id : Id) (consumer : Bytes) (now : Nat)
    (pending : OrderedMap Id Nack)
    (recorded : ∀ name j, (∃ nack, pending.get j = some nack ∧ nack.consumer = name) ↔
      if j = id then consumer = name else g.Records name j) :
    ({ g.takeFrom id consumer with pending := pending }.hold consumer id now).Agree := by
  intro name j
  rw [holds_hold]
  have isHeld : ({ g.takeFrom id consumer with pending := pending } : Group).Holds name j ↔
      g.Holds name j ∧ (j = id → name = consumer) := holds_takeFrom agree id consumer name j
  rw [isHeld]
  refine (recorded name j).trans ?_
  by_cases same : j = id
  · rw [if_pos same]
    constructor
    · intro isName
      exact Or.inr ⟨isName.symm, same⟩
    · rintro (⟨_, only⟩ | ⟨isName, _⟩)
      · exact (only same).symm
      · exact isName.symm
  · rw [if_neg same, agree name j]
    simp [same]

theorem Agree.deliver (agree : g.Agree) (id : Id) (consumer : Bytes) (now : Nat) :
    (g.deliver id consumer now).Agree := by
  apply agree_handOver agree
  intro name j
  rw [pending_takeFrom]
  exact records_insert g id _ name j

theorem Agree.reassign (agree : g.Agree) {nack : Nack} (found : g.pending.get id = some nack)
    (consumer : Bytes) (now : Nat) : (g.reassign id consumer now).Agree := by
  unfold Group.reassign
  apply Agree.consumer
  case keeps =>
    intro c
    rfl
  apply agree_handOver agree
  intro name j
  rw [pending_takeFrom, OrderedMap.get_update]
  unfold Records
  by_cases same : j = id
  · simp [same, found]
  · simp [same]

theorem Agree.forget (agree : g.Agree) (id : Id) : (g.forget id).Agree := by
  unfold Group.forget
  cases isNack : g.pending.get id with
  | none => exact agree
  | some nack =>
    intro name j
    rw [holds_release]
    have erased : ({ g with pending := g.pending.erase id } : Group).Records name j ↔
        j ≠ id ∧ g.Records name j := by
      unfold Records
      simp only [OrderedMap.get_erase]
      by_cases same : j = id
      · simp [same]
      · simp [same]
    have recorded : (({ g with pending := g.pending.erase id } : Group).release nack.consumer
        id).Records name j ↔ j ≠ id ∧ g.Records name j := erased
    rw [recorded, agree name j]
    show _ ↔ g.Holds name j ∧ _
    constructor
    · rintro ⟨different, held⟩
      exact ⟨held, fun both => different both.2⟩
    · rintro ⟨held, notOwner⟩
      apply And.intro _ held
      intro same
      have isOwner := (agree name id).mpr (same ▸ held)
      exact notOwner ⟨isOwner.unique ⟨nack, isNack, rfl⟩, same⟩

theorem get_foldl_erase {V : Type} (ids : List Id) (m : OrderedMap Id V) (j : Id) :
    (ids.foldl OrderedMap.erase m).get j = if j ∈ ids then none else m.get j := by
  induction ids generalizing m with
  | nil => simp
  | cons id ids ih =>
    rw [List.foldl_cons, ih, OrderedMap.get_erase]
    by_cases same : j = id
    · simp [same]
    · simp [same]

theorem Agree.removeConsumer (agree : g.Agree) {name : Bytes} {c : Consumer}
    (found : g.consumers.get name = some c) : (g.removeConsumer name c).Agree := by
  have held : ∀ j, j ∈ c.pending.keys ↔ g.Holds name j := by
    intro j
    unfold Holds
    simp [found]
  intro other j
  have recorded : (g.removeConsumer name c).Records other j ↔
      ¬g.Holds name j ∧ g.Records other j := by
    rw [← held]
    unfold Records Group.removeConsumer
    simp only [get_foldl_erase]
    by_cases isHeld : j ∈ c.pending.keys
    · simp [isHeld]
    · simp [isHeld]
  have isHeld : (g.removeConsumer name c).Holds other j ↔ other ≠ name ∧ g.Holds other j := by
    unfold Holds Group.removeConsumer
    simp only [OrderedMap.get_erase]
    by_cases same : other = name
    · simp [same]
    · simp [same]
  rw [recorded, isHeld]
  constructor
  · rintro ⟨notHeld, isRecorded⟩
    have holds := (agree other j).mp isRecorded
    exact ⟨fun same => notHeld (same ▸ holds), holds⟩
  · rintro ⟨different, holds⟩
    have isRecorded := (agree other j).mpr holds
    apply And.intro _ isRecorded
    intro heldHere
    exact different (isRecorded.unique ((agree name j).mpr heldHere))

theorem Agree.forcePending (agree : g.Agree) (free : g.pending.get id = none) (consumer : Bytes)
    (nack : Nack) (isConsumer : nack.consumer = consumer) (now : Nat) :
    ({ g with pending := g.pending.insert id nack }.hold consumer id now).Agree := by
  have unchanged : g.takeFrom id consumer = g := by
    unfold takeFrom
    rw [free]
  have handed := agree_handOver agree id consumer now (g.pending.insert id nack)
    (fun name j => by
      rw [← isConsumer]
      exact records_insert g id nack name j)
  rw [unchanged] at handed
  exact handed

theorem Agree.perm (agree : g.Agree) :
    (g.consumers.entries.flatMap (fun e => e.2.pending.keys)).Perm g.pending.keys := by
  have member : ∀ id, id ∈ g.consumers.entries.flatMap (fun e => e.2.pending.keys) ↔
      id ∈ g.pending.keys := by
    intro id
    rw [List.mem_flatMap, OrderedMap.mem_keys_iff]
    constructor
    · rintro ⟨e, isConsumer, held⟩
      have holds : g.Holds e.1 id := ⟨e.2, (g.consumers.mem_entries_iff e.1 e.2).mp isConsumer, held⟩
      obtain ⟨nack, isNack, _⟩ := (agree e.1 id).mpr holds
      exact ⟨nack, isNack⟩
    · rintro ⟨nack, isNack⟩
      obtain ⟨c, isConsumer, held⟩ := (agree nack.consumer id).mp ⟨nack, isNack, rfl⟩
      exact ⟨(nack.consumer, c), (g.consumers.mem_entries_iff _ c).mpr isConsumer, held⟩
  apply (List.perm_ext_iff_of_nodup _ g.pending.keys_nodup).mpr member
  rw [List.nodup_flatMap]
  constructor
  · intro e _
    exact e.2.pending.keys_nodup
  · apply List.Pairwise.imp_of_mem _ g.consumers.sorted
    intro a b isA isB less id heldA heldB
    have holdsA : g.Holds a.1 id := ⟨a.2, (g.consumers.mem_entries_iff a.1 a.2).mp isA, heldA⟩
    have holdsB : g.Holds b.1 id := ⟨b.2, (g.consumers.mem_entries_iff b.1 b.2).mp isB, heldB⟩
    have same := ((agree a.1 id).mpr holdsA).unique ((agree b.1 id).mpr holdsB)
    exact absurd same (ne_of_lt less)

theorem Agree.size_eq_sum (agree : g.Agree) :
    g.pending.size = (g.consumers.entries.map (fun e => e.2.pending.size)).sum := by
  rw [OrderedMap.size_eq, ← agree.perm.length_eq, List.length_flatMap]
  congr 1
  apply List.map_congr_left
  intro e _
  exact e.2.pending.size_eq.symm

end Group

end NoidaDb.Redis
