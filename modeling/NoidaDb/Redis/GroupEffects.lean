/-
The commands on groups are chains of stream steps; a read with `>` hands out the entries after
the group's last id, in order.
-/

import NoidaDb.Redis.StreamEffects

namespace NoidaDb.Redis

open Lib

theorem maxU64_val : Id.maxU64.val = 2 ^ 64 - 1 := rfl

theorem succ_val {n : U64} (notMax : n ≠ Id.maxU64) : (n + 1).val = n.val + 1 := by
  have below : n.val ≠ 2 ^ 64 - 1 := fun same => notMax (Fin.ext (same.trans maxU64_val.symm))
  have bound := n.isLt
  rw [Fin.val_add]
  show (n.val + 1) % 2 ^ 64 = n.val + 1
  omega

theorem le_maxU64 (n : U64) : n.val ≤ Id.maxU64.val := by
  have bound := n.isLt
  rw [maxU64_val]
  omega

variable {s : Stream} {g : Group} {id : Id}

theorem nextId_le_iff {next : Id} (isNext : nextId id = some next) (j : Id) :
    next ≤ j ↔ id < j := by
  have seqBound := le_maxU64 j.seq
  rw [← not_lt, Id.lt_iff, Id.lt_iff]
  unfold nextId at isNext
  split at isNext
  · rename_i seqMax
    split at isNext
    · cases isNext
    · rename_i msBelow
      cases isNext
      have grows := succ_val msBelow
      simp only [Fin.lt_def, Fin.ext_iff, grows, seqMax, Fin.val_zero]
      omega
  · rename_i seqBelow
    cases isNext
    have grows := succ_val seqBelow
    simp only [Fin.lt_def, Fin.ext_iff, grows]
    omega

theorem le_max (id : Id) : id ≤ .max := by
  have msBound := le_maxU64 id.ms
  have seqBound := le_maxU64 id.seq
  rw [← not_lt, Id.lt_iff]
  simp only [Id.max, Fin.lt_def, Fin.ext_iff]
  omega

theorem nextId_none_iff (id : Id) : nextId id = none ↔ id = .max := by
  unfold nextId
  constructor
  · intro isNone
    split at isNone
    · rename_i seqMax
      split at isNone
      · rename_i msMax
        cases id
        cases seqMax
        cases msMax
        rfl
      · cases isNone
    · cases isNone
  · intro isMax
    rw [isMax]
    rfl

theorem setGroup_setGroup (s : Stream) (name : Bytes) (g h : Group) :
    (s.setGroup name g).setGroup name h = s.setGroup name h := by
  have same : (s.groups.insert name g).insert name h = s.groups.insert name h := by
    apply OrderedMap.ext
    intro other
    simp only [OrderedMap.get_insert]
    split
    · rfl
    · rfl
  unfold Stream.setGroup
  simp only [same]

@[simp] theorem get_setGroup (s : Stream) (name : Bytes) (g : Group) :
    (s.setGroup name g).groups.get name = some g := by
  simp [Stream.setGroup]

theorem setGroup_same {name : Bytes} (found : s.groups.get name = some g) :
    s.setGroup name g = s := by
  have same : s.groups.insert name g = s.groups := by
    apply OrderedMap.ext
    intro other
    simp only [OrderedMap.get_insert]
    split
    · rename_i isName
      rw [isName, found]
    · rfl
  unfold Stream.setGroup
  rw [same]

namespace Rehold

theorem consumer (g : Group) (name : Bytes) (now : Nat) {change : Consumer → Consumer}
    (keeps : ∀ c, (change c).pending = c.pending) : Rehold g (g.consumer name now change) :=
  ⟨rfl, rfl, fun agree => agree.consumer keeps name now⟩

theorem setNack (g : Group) (id : Id) {change : Nack → Nack}
    (keeps : ∀ nack, (change nack).consumer = nack.consumer) : Rehold g (g.setNack id change) :=
  ⟨rfl, rfl, fun agree => agree.setNack keeps id⟩

theorem takeFrom_place (g : Group) (id : Id) (consumer : Bytes) :
    (g.takeFrom id consumer).lastId = g.lastId ∧
      (g.takeFrom id consumer).entriesRead = g.entriesRead := by
  unfold Group.takeFrom
  split
  · split
    · exact ⟨rfl, rfl⟩
    · exact ⟨rfl, rfl⟩
  · exact ⟨rfl, rfl⟩

theorem deliver (g : Group) (id : Id) (consumer : Bytes) (now : Nat) :
    Rehold g (g.deliver id consumer now) :=
  ⟨(takeFrom_place g id consumer).1, (takeFrom_place g id consumer).2,
    fun agree => agree.deliver id consumer now⟩

variable {g : Group}

theorem reassign {id : Id} {nack : Nack} (found : g.pending.get id = some nack) (consumer : Bytes)
    (now : Nat) : Rehold g (g.reassign id consumer now) :=
  ⟨(takeFrom_place g id consumer).1, (takeFrom_place g id consumer).2,
    fun agree => agree.reassign found consumer now⟩

theorem forget (g : Group) (id : Id) : Rehold g (g.forget id) := by
  constructor
  · unfold Group.forget
    split
    · rfl
    · rfl
  · unfold Group.forget
    split
    · rfl
    · rfl
  · intro agree
    exact agree.forget id

theorem ack (g : Group) (ids : List Id) : Rehold g (g.ack ids).1 := by
  induction ids generalizing g with
  | nil => exact refl g
  | cons id ids ih =>
    unfold Group.ack
    split
    · exact (forget g id).trans (ih _)
    · exact ih g

theorem removeConsumer {name : Bytes} {c : Consumer} (found : g.consumers.get name = some c) :
    Rehold g (g.removeConsumer name c) :=
  ⟨rfl, rfl, fun agree => agree.removeConsumer found⟩

theorem forcePending (g : Group) (id : Id) (consumer : Bytes) (now : Nat) :
    Rehold g (Redis.forcePending g id consumer now) := by
  unfold Redis.forcePending
  split
  · exact refl g
  · rename_i free
    have isFree : g.pending.get id = none := by
      cases isNack : g.pending.get id with
      | none => rfl
      | some nack =>
        apply absurd _ free
        unfold OrderedMap.contains
        rw [isNack]
        rfl
    exact ⟨rfl, rfl, fun agree => agree.forcePending isFree consumer _ rfl now⟩

theorem foldl {step : Group → Id → Group} (each : ∀ g id, Rehold g (step g id)) (ids : List Id)
    (g : Group) : Rehold g (ids.foldl step g) := by
  induction ids generalizing g with
  | nil => exact refl g
  | cons id ids ih => exact (each g id).trans (ih _)

theorem readHistory (s : Stream) (g : Group) (consumer : Bytes) (start : Id) (count now : Nat) :
    Rehold g (Redis.readHistory s g consumer start count now).1 := by
  apply foldl
  intro g id
  unfold historyStep
  split
  · exact setNack g id (fun _ => rfl)
  · exact refl g

theorem claimStep (s : Stream) (args : ClaimArgs) (minIdle : Nat) (consumer : Bytes) (now : Nat)
    (g : Group) (id : Id) : Rehold g (Redis.claimStep s args minIdle consumer now g id).1 := by
  unfold Redis.claimStep
  split
  · exact forget g id
  · have forced : Rehold g (if args.force then Redis.forcePending g id consumer now else g) := by
      split
      · exact forcePending g id consumer now
      · exact refl g
    simp only []
    split
    · exact forced
    · rename_i nack found
      split
      · exact forced
      · apply forced.trans
        apply (reassign found consumer now).trans
        exact setNack _ id (fun _ => rfl)

theorem claimAll (s : Stream) (args : ClaimArgs) (minIdle : Nat) (consumer : Bytes) (now : Nat)
    (ids : List Id) (g : Group) :
    Rehold g (Redis.claimAll s args minIdle consumer now ids g).1 := by
  induction ids generalizing g with
  | nil => exact refl g
  | cons id ids ih => exact (claimStep s args minIdle consumer now g id).trans (ih _)

theorem autoclaimAll {s : Stream} {args : AutoclaimArgs} {consumer : Bytes} {now left : Nat}
    {ids : List Id} {done : Autoclaimed}
    (ran : Redis.autoclaimAll s args consumer now left ids g = some done) :
    Rehold g done.group := by
  induction ids generalizing left g done with
  | nil =>
    unfold Redis.autoclaimAll at ran
    cases ran
    exact refl g
  | cons id ids ih =>
    cases left with
    | zero =>
      unfold Redis.autoclaimAll at ran
      cases ran
      exact refl g
    | succ left =>
      unfold Redis.autoclaimAll at ran
      split at ran
      · obtain ⟨done', ran', same⟩ := Option.map_eq_some_iff.mp ran
        rw [← same]
        show Rehold g done'.group
        exact (forget g id).trans (ih ran')
      · split at ran
        · cases ran
        · rename_i nack found
          split at ran
          · exact ih ran
          · obtain ⟨done', ran', same⟩ := Option.map_eq_some_iff.mp ran
            rw [← same]
            show Rehold g done'.group
            apply (reassign found consumer now).trans
            apply trans _ (ih ran')
            apply setNack
            intro nack
            rfl

end Rehold

def Delivers (name : Bytes) (ids : List Id) (labels : List Label) : Prop :=
  deliveries name labels = ids ∧ ∀ l ∈ labels, l = .silent ∨ ∃ id, l = .deliver name id

theorem Delivers.nil (name : Bytes) : Delivers name [] [] := ⟨rfl, by simp⟩

theorem Delivers.append {name : Bytes} {ids js : List Id} {ls ms : List Label}
    (first : Delivers name ids ls) (second : Delivers name js ms) :
    Delivers name (ids ++ js) (ls ++ ms) := by
  constructor
  · rw [deliveries_append, first.1, second.1]
  · intro l member
    rcases List.mem_append.mp member with isFirst | isSecond
    · exact first.2 l isFirst
    · exact second.2 l isSecond

theorem Delivers.silent (name : Bytes) : Delivers name [] [.silent] := ⟨rfl, by simp⟩

theorem Delivers.one (name : Bytes) (id : Id) : Delivers name [id] [.deliver name id] := by
  constructor
  · simp [deliveries]
  · simp

theorem advance_lastId (later : g.lastId < id) : (advance s g id).lastId = id := by
  unfold advance
  rw [if_pos later]

theorem deliverStep_rehold (s : Stream) (consumer : Bytes) (noack : Bool) (now : Nat) (g : Group)
    (id : Id) : Rehold (advance s g id) (deliverStep s consumer noack now g id) := by
  unfold deliverStep
  cases noack with
  | true => exact Rehold.refl _
  | false =>
    show Rehold _ (((advance s g id).deliver id consumer now).consumer consumer now
      (fun c => { c with activeTime := now }))
    exact (Rehold.deliver _ id consumer now).trans (Rehold.consumer _ _ _ (fun _ => rfl))

theorem deliverStep_steps (name : Bytes) (consumer : Bytes) (noack : Bool) (now : Nat)
    (stored : id ∈ s.entries.keys) (later : g.lastId < id)
    (next : ∀ j ∈ s.entries.keys, g.lastId < j → id ≤ j) :
    Stream.Steps (s.setGroup name g) [.deliver name id, .silent]
      (s.setGroup name (deliverStep s consumer noack now g id)) := by
  have first : Stream.Step (s.setGroup name g) (.deliver name id)
      ((s.setGroup name g).setGroup name (advance s g id)) :=
    .deliver (get_setGroup s name g) stored later next
  rw [setGroup_setGroup] at first
  have second : Stream.Step (s.setGroup name (advance s g id)) .silent
      ((s.setGroup name (advance s g id)).setGroup name
        (deliverStep s consumer noack now g id)) :=
    .rehold (get_setGroup s name _) (deliverStep_rehold s consumer noack now g id)
  rw [setGroup_setGroup] at second
  exact .cons first (.single second)

theorem deliverAll_steps {name : Bytes} (consumer : Bytes) (noack : Bool) (now : Nat)
    (ids : List Id) (g : Group) (increasing : ids.Pairwise (· < ·))
    (stored : ∀ id ∈ ids, id ∈ s.entries.keys) (later : ∀ id ∈ ids, g.lastId < id)
    (next : ∀ j ∈ s.entries.keys, g.lastId < j → j ∈ ids ∨ ∀ id ∈ ids, id < j) :
    ∃ labels, Delivers name ids labels ∧
      Stream.Steps (s.setGroup name g) labels
        (s.setGroup name (ids.foldl (deliverStep s consumer noack now) g)) := by
  induction ids generalizing g with
  | nil => exact ⟨[], Delivers.nil name, .nil _⟩
  | cons id ids ih =>
    obtain ⟨above, increasing'⟩ := List.pairwise_cons.mp increasing
    obtain ⟨isStored, stored'⟩ := List.forall_mem_cons.mp stored
    obtain ⟨isLater, _⟩ := List.forall_mem_cons.mp later
    have least : ∀ j ∈ s.entries.keys, g.lastId < j → id ≤ j := by
      intro j isKey isAfter
      rcases next j isKey isAfter with isListed | isAbove
      · rcases List.mem_cons.mp isListed with same | isLater'
        · exact le_of_eq same.symm
        · exact le_of_lt (above j isLater')
      · exact le_of_lt (isAbove id List.mem_cons_self)
    have cursor : (deliverStep s consumer noack now g id).lastId = id := by
      rw [(deliverStep_rehold s consumer noack now g id).lastId]
      exact advance_lastId isLater
    have first := deliverStep_steps name consumer noack now isStored isLater least
    obtain ⟨labels, delivers, steps⟩ := ih (deliverStep s consumer noack now g id) increasing'
      stored' (by rw [cursor]; exact above) (by
        intro j isKey isAfter
        rw [cursor] at isAfter
        have afterBoth := lt_trans isLater isAfter
        rcases next j isKey afterBoth with isListed | isAbove
        · rcases List.mem_cons.mp isListed with same | isLater'
          · exact absurd same (ne_of_gt isAfter)
          · exact Or.inl isLater'
        · exact Or.inr (fun i member => isAbove i (List.mem_cons_of_mem id member)))
    refine ⟨[.deliver name id, .silent] ++ labels, ?_, first.append steps⟩
    exact ((Delivers.one name id).append (Delivers.silent name)).append delivers

theorem deliverNew_steps (s : Stream) (name : Bytes) {start : Id} (consumer : Bytes) (count : Nat)
    (noack : Bool) (now : Nat) (isStart : nextId g.lastId = some start) :
    ∃ labels, Delivers name ((deliverNew s g consumer start count noack now).2.map Prod.fst)
        labels ∧
      Stream.Steps (s.setGroup name g) labels
        (s.setGroup name (deliverNew s g consumer start count noack now).1) := by
  have after : ∀ j, start ≤ j ↔ g.lastId < j := nextId_le_iff isStart
  have isTake : ((s.entries.entriesFrom start).take count).map Prod.fst =
      (s.entries.keys.filter (fun j => decide (start ≤ j))).take count := by
    rw [List.map_take]
    unfold OrderedMap.entriesFrom OrderedMap.keys
    rw [List.filter_map]
    rfl
  unfold deliverNew
  simp only []
  apply deliverAll_steps
  · rw [isTake]
    exact (s.entries.keys_sorted.filter _).sublist (List.take_sublist _ _)
  · intro id member
    rw [isTake] at member
    exact (List.mem_filter.mp ((List.take_sublist _ _).subset member)).1
  · intro id member
    rw [isTake] at member
    have kept := (List.mem_filter.mp ((List.take_sublist _ _).subset member)).2
    exact (after id).mp (of_decide_eq_true kept)
  · intro j isKey isAfter
    rw [isTake]
    have isIn : j ∈ s.entries.keys.filter (fun j => decide (start ≤ j)) :=
      List.mem_filter.mpr ⟨isKey, decide_eq_true ((after j).mpr isAfter)⟩
    have sorted := s.entries.keys_sorted.filter (fun j => decide (start ≤ j))
    rw [← List.take_append_drop count (s.entries.keys.filter _)] at isIn sorted
    rcases List.mem_append.mp isIn with isTaken | isDropped
    · exact Or.inl isTaken
    · exact Or.inr (fun i member => (List.pairwise_append.mp sorted).2.2 i member j isDropped)

def freshIds (part : Option Part) : List Id :=
  match part with
  | some part => if part.fresh then part.entries.map Prod.fst else []
  | none => []

theorem readGroupPart_steps {name : Bytes} (found : s.groups.get name = some g)
    (key consumer : Bytes) (after : Id) (count : Nat) (noack : Bool) (now : Nat) :
    ∃ g' part labels,
      readGroupPart s g key consumer after count noack now = .ok (g', part) ∧
      (∀ p ∈ part, p.key = key) ∧ Delivers name (freshIds part) labels ∧
      Stream.Steps s labels (s.setGroup name g') := by
  have seen : Rehold g (g.consumer consumer now (fun c => { c with seenTime := now })) :=
    Rehold.consumer g consumer now (fun _ => rfl)
  have first : Stream.Steps s [.silent]
      (s.setGroup name (g.consumer consumer now (fun c => { c with seenTime := now }))) :=
    .single (.rehold found seen)
  unfold readGroupPart
  simp only []
  generalize g.consumer consumer now (fun c => { c with seenTime := now }) = h at first seen ⊢
  split
  · have history := Rehold.readHistory s h consumer ((nextId after).getD newMessages) count now
    exact ⟨_, _, [.silent], rfl, by simp, Delivers.silent name,
      .single (.rehold found (seen.trans history))⟩
  · split
    · rename_i behind
      cases isStart : nextId h.lastId with
      | none =>
        have isMax := (nextId_none_iff h.lastId).mp isStart
        rw [isMax] at behind
        exact absurd behind.2 (not_lt.mpr (le_max _))
      | some start =>
        obtain ⟨labels, delivers, steps⟩ :=
          deliverNew_steps s name consumer count noack now isStart
        refine ⟨_, _, [.silent] ++ labels, rfl, by simp, ?_, first.append steps⟩
        have isFresh : freshIds (some ⟨key, true, asShown
            (deliverNew s h consumer start count noack now).2⟩) =
            (deliverNew s h consumer start count noack now).2.map Prod.fst := by
          simp [freshIds, asShown]
        rw [isFresh]
        exact (Delivers.silent name).append delivers
    · exact ⟨h, none, [.silent], rfl, by simp, Delivers.silent name, first⟩

end NoidaDb.Redis
