/-
The cursor of a group and the entries that reads with `>` hand out.
-/

import NoidaDb.Redis.StreamCounters

namespace NoidaDb.Redis

open Lib

theorem get_setGroup_of_ne (s : Stream) {name other : Bytes} (different : other ≠ name)
    (g : Group) : (s.setGroup name g).groups.get other = s.groups.get other := by
  simp [Stream.setGroup, different]

def Stream.Bounded (s : Stream) : Prop := ∀ id ∈ s.entries.keys, id ≤ s.lastId

namespace Stream.Bounded

variable {s t : Stream}

theorem append (bounded : s.Bounded) {id : Id} (fields : Fields) (grows : s.lastId < id) :
    (s.append id fields).Bounded := by
  intro j member
  rcases (OrderedMap.mem_keys_insert s.entries id j fields).mp member with isNew | isOld
  · exact le_of_eq isNew
  · exact le_of_lt (lt_of_le_of_lt (bounded j isOld) grows)

theorem setId {id : Id} {entriesAdded : Option Nat} {maxDeleted : Option Id}
    (done : s.setId id entriesAdded maxDeleted = .ok t) : t.Bounded := by
  unfold Stream.setId at done
  split at done
  · cases done
  · rename_i notBelowTop
    split at done
    · cases done
    · split at done
      · cases done
      · cases done
        intro j isStored
        show j ≤ id
        cases isLast : s.entries.lastKey? with
        | none =>
          have isNil : s.entries.keys = [] := List.getLast?_eq_none_iff.mp isLast
          rw [isNil] at isStored
          cases isStored
        | some last =>
          rw [isLast] at notBelowTop
          have atMost : last ≤ id := by simpa using notBelowTop
          exact le_trans (OrderedMap.le_lastKey? isLast isStored) atMost

theorem step {l : Label} (step : Stream.Step s l t) (bounded : s.Bounded) : t.Bounded := by
  cases step with
  | add grows => exact bounded.append _ grows
  | remove _ =>
    intro j member
    exact bounded j ((OrderedMap.mem_keys_erase _ _ _).mp member).2
  | setId _ done => exact setId done
  | create _ => exact bounded
  | drop => exact bounded
  | place _ => exact bounded
  | raise _ => exact bounded
  | deliver _ _ _ _ => exact bounded
  | rehold _ _ => exact bounded

end Stream.Bounded

def Label.LeavesCursor (group : Bytes) (l : Label) : Prop :=
  (∀ maxDeleted, l ≠ .setId maxDeleted) ∧ (∀ counter, l ≠ .place group counter) ∧
    l ≠ .raise group ∧ l ≠ .drop group

structure Cursor (start : Id) (out : List Id) (s : Stream) (g : Group) : Prop where
  bounded : s.Bounded
  within : g.lastId = start ∨ g.lastId ≤ s.lastId
  fromStart : start ≤ g.lastId
  increasing : out.Pairwise (· < ·)
  between : ∀ i ∈ out, start < i ∧ i ≤ g.lastId
  noneMissed : ∀ j ∈ s.entries.keys, start < j → j ≤ g.lastId → j ∈ out

namespace Cursor

variable {start : Id} {out : List Id} {s t : Stream} {g : Group} {group : Bytes}

theorem new (bounded : s.Bounded) (g : Group) : Cursor g.lastId [] s g where
  bounded := bounded
  within := Or.inl rfl
  fromStart := le_refl _
  increasing := List.Pairwise.nil
  between := by simp
  noneMissed := by
    intro j _ above atMost
    exact absurd above (not_lt.mpr atMost)

theorem shrink (cursor : Cursor start out s g) {h : Group} (sameCursor : h.lastId = g.lastId)
    (sameLast : t.lastId = s.lastId) (fewer : ∀ j ∈ t.entries.keys, j ∈ s.entries.keys) :
    Cursor start out t h where
  bounded := by
    intro j member
    rw [sameLast]
    exact cursor.bounded j (fewer j member)
  within := by
    rw [sameCursor, sameLast]
    exact cursor.within
  fromStart := by
    rw [sameCursor]
    exact cursor.fromStart
  increasing := cursor.increasing
  between := by
    rw [sameCursor]
    exact cursor.between
  noneMissed := by
    intro j member above atMost
    rw [sameCursor] at atMost
    exact cursor.noneMissed j (fewer j member) above atMost

theorem add (cursor : Cursor start out s g) {id : Id} (fields : Fields) (grows : s.lastId < id) :
    Cursor start out (s.append id fields) g where
  bounded := cursor.bounded.append fields grows
  within := cursor.within.imp (fun atStart => atStart)
    (fun atMost => le_of_lt (lt_of_le_of_lt atMost grows))
  fromStart := cursor.fromStart
  increasing := cursor.increasing
  between := cursor.between
  noneMissed := by
    intro j member above atMost
    rcases (OrderedMap.mem_keys_insert s.entries id j fields).mp member with isNew | isOld
    · rw [isNew] at above atMost
      rcases cursor.within with atStart | isWithin
      · rw [atStart] at atMost
        exact absurd above (not_lt.mpr atMost)
      · exact absurd grows (not_lt.mpr (le_trans atMost isWithin))
    · exact cursor.noneMissed j isOld above atMost

theorem deliver (cursor : Cursor start out s g) {id : Id} (stored : id ∈ s.entries.keys)
    (later : g.lastId < id) (next : ∀ j ∈ s.entries.keys, g.lastId < j → id ≤ j) :
    Cursor start (out ++ [id]) (s.setGroup group (advance s g id)) (advance s g id) := by
  have isCursor := advance_lastId (s := s) later
  refine ⟨cursor.bounded, ?_, ?_, ?_, ?_, ?_⟩
  · rw [isCursor]
    exact Or.inr (cursor.bounded id stored)
  · rw [isCursor]
    exact le_of_lt (lt_of_le_of_lt cursor.fromStart later)
  · rw [List.pairwise_append]
    refine ⟨cursor.increasing, List.pairwise_singleton _ _, ?_⟩
    intro i member k isNew
    rw [List.mem_singleton.mp isNew]
    exact lt_of_le_of_lt (cursor.between i member).2 later
  · intro i member
    rw [isCursor]
    rcases List.mem_append.mp member with isOld | isNew
    · obtain ⟨above, atMost⟩ := cursor.between i isOld
      exact ⟨above, le_of_lt (lt_of_le_of_lt atMost later)⟩
    · rw [List.mem_singleton.mp isNew]
      exact ⟨lt_of_le_of_lt cursor.fromStart later, le_refl id⟩
  · intro j member above atMost
    rw [isCursor] at atMost
    by_cases passed : j ≤ g.lastId
    · exact List.mem_append_left _ (cursor.noneMissed j member above passed)
    · have isNext : j = id := le_antisymm atMost (next j member (not_le.mp passed))
      exact List.mem_append_right _ (List.mem_singleton.mpr isNext)

theorem step {l : Label} (leaves : l.LeavesCursor group) (step : Stream.Step s l t)
    (found : s.groups.get group = some g) (cursor : Cursor start out s g) :
    ∃ h, t.groups.get group = some h ∧ Cursor start (out ++ deliveries group [l]) t h := by
  have silent : ∀ {h : Group}, t.groups.get group = some h → deliveries group [l] = [] →
      h.lastId = g.lastId → t.lastId = s.lastId →
      (∀ j ∈ t.entries.keys, j ∈ s.entries.keys) →
      ∃ h, t.groups.get group = some h ∧ Cursor start (out ++ deliveries group [l]) t h := by
    intro h isGroup noDelivery sameCursor sameLast fewer
    rw [noDelivery, List.append_nil]
    exact ⟨h, isGroup, cursor.shrink sameCursor sameLast fewer⟩
  have elsewhere : ∀ {name : Bytes} {k : Group}, t = s.setGroup name k → group ≠ name →
      deliveries group [l] = [] →
      ∃ h, t.groups.get group = some h ∧ Cursor start (out ++ deliveries group [l]) t h := by
    intro name k isSet different noDelivery
    apply silent (h := g) _ noDelivery rfl
    · rw [isSet]
      rfl
    · rw [isSet]
      intro j member
      exact member
    · rw [isSet, get_setGroup_of_ne s different]
      exact found
  cases step with
  | add grows =>
    refine ⟨g, found, ?_⟩
    show Cursor start (out ++ []) _ g
    rw [List.append_nil]
    exact cursor.add _ grows
  | remove _ =>
    apply silent found rfl rfl rfl
    intro j member
    exact ((OrderedMap.mem_keys_erase _ _ _).mp member).2
  | setId _ _ => exact absurd rfl (leaves.1 _)
  | @create name id counter free =>
    apply elsewhere rfl _ rfl
    intro same
    rw [same, free] at found
    cases found
  | @drop name =>
    apply silent (h := g) _ rfl rfl rfl (fun _ member => member)
    have different : group ≠ name := fun same => leaves.2.2.2 (by rw [same])
    simp [different, found]
  | place _ =>
    apply elsewhere rfl _ rfl
    intro same
    exact leaves.2.1 _ (by rw [same])
  | raise _ =>
    apply elsewhere rfl _ rfl
    intro same
    exact leaves.2.2.1 (by rw [same])
  | @deliver name k id isGroup stored later next =>
    by_cases same : group = name
    · subst same
      rw [found] at isGroup
      cases isGroup
      refine ⟨_, get_setGroup _ _ _, ?_⟩
      have one : deliveries group [.deliver group id] = [id] := by simp [deliveries]
      rw [one]
      exact cursor.deliver stored later next
    · apply elsewhere rfl same
      exact deliveries_other (Ne.symm same) (by simp)
  | @rehold name k k' isGroup change =>
    by_cases same : group = name
    · subst same
      rw [found] at isGroup
      cases isGroup
      exact silent (get_setGroup _ _ _) rfl change.lastId rfl (fun _ member => member)
    · exact elsewhere rfl same rfl

theorem steps {labels : List Label} (leaves : ∀ l ∈ labels, l.LeavesCursor group)
    (steps : Stream.Steps s labels t) (found : s.groups.get group = some g)
    (cursor : Cursor start out s g) :
    ∃ h, t.groups.get group = some h ∧ Cursor start (out ++ deliveries group labels) t h := by
  induction steps generalizing out g with
  | nil s =>
    refine ⟨g, found, ?_⟩
    show Cursor start (out ++ []) s g
    rw [List.append_nil]
    exact cursor
  | @cons s u t l labels first rest ih =>
    obtain ⟨leavesFirst, leavesRest⟩ := List.forall_mem_cons.mp leaves
    obtain ⟨h, isGroup, cursor'⟩ := step leavesFirst first found cursor
    obtain ⟨k, isGroup', cursor''⟩ := ih leavesRest isGroup cursor'
    refine ⟨k, isGroup', ?_⟩
    have split := deliveries_append group [l] labels
    rw [List.singleton_append] at split
    rw [split, ← List.append_assoc]
    exact cursor''

theorem deliveries_stored {labels : List Label} (steps : Stream.Steps s labels t) :
    (∀ j ∈ t.entries.keys, j ∈ s.entries.keys ∨ j ∈ adds labels) ∧
      ∀ i ∈ deliveries group labels, i ∈ s.entries.keys ∨ i ∈ adds labels := by
  induction steps with
  | nil s => exact ⟨fun j member => Or.inl member, fun i member => absurd member (by simp [deliveries])⟩
  | @cons s u t l labels first rest ih =>
    have fromFirst : ∀ j, j ∈ u.entries.keys ∨ j ∈ adds labels →
        j ∈ s.entries.keys ∨ j ∈ adds (l :: labels) := by
      intro j has
      have split := adds_append [l] labels
      rw [List.singleton_append] at split
      rw [split]
      rcases has with isStored | isAdded
      · cases first with
        | add _ =>
          rcases (OrderedMap.mem_keys_insert _ _ _ _).mp isStored with isNew | isOld
          · exact Or.inr (List.mem_append_left _ (List.mem_singleton.mpr isNew))
          · exact Or.inl isOld
        | remove _ => exact Or.inl ((OrderedMap.mem_keys_erase _ _ _).mp isStored).2
        | setId _ done =>
          unfold Stream.setId at done
          split at done
          · cases done
          · split at done
            · cases done
            · split at done
              · cases done
              · cases done
                exact Or.inl isStored
        | create _ => exact Or.inl isStored
        | drop => exact Or.inl isStored
        | place _ => exact Or.inl isStored
        | raise _ => exact Or.inl isStored
        | deliver _ _ _ _ => exact Or.inl isStored
        | rehold _ _ => exact Or.inl isStored
      · exact Or.inr (List.mem_append_right _ isAdded)
    obtain ⟨stored, delivered⟩ := ih
    constructor
    · intro j member
      exact fromFirst j (stored j member)
    · intro i member
      have split := deliveries_append group [l] labels
      rw [List.singleton_append] at split
      rw [split] at member
      rcases List.mem_append.mp member with isFirst | isLater
      · apply Or.inl
        cases first with
        | @deliver name g id found isStored later next =>
          by_cases same : name = group
          · simp [deliveries, same] at isFirst
            rw [isFirst]
            exact isStored
          · simp [deliveries, same] at isFirst
        | _ => simp [deliveries] at isFirst
      · exact fromFirst i (delivered i isLater)

end Cursor

structure Waits (j : Id) (s : Stream) (g : Group) : Prop where
  bounded : s.Bounded
  stored : j ∈ s.entries.keys
  ahead : g.lastId < j

structure Gone (j : Id) (s : Stream) : Prop where
  notStored : j ∉ s.entries.keys
  passed : j ≤ s.lastId

def entriesUntil (j : Id) (s : Stream) (g : Group) : Nat :=
  (s.entries.keys.filter (fun i => decide (g.lastId < i ∧ i ≤ j))).length

variable {j : Id} {s t : Stream}

theorem entriesUntil_le {g h : Group} (fewer : t.entries.keys.Sublist s.entries.keys)
    (cursor : g.lastId ≤ h.lastId) : entriesUntil j t h ≤ entriesUntil j s g := by
  unfold entriesUntil
  apply le_trans (List.Sublist.length_le (fewer.filter _))
  apply List.Sublist.length_le
  apply List.monotone_filter_right
  intro i holds
  have between := of_decide_eq_true holds
  exact decide_eq_true ⟨lt_of_le_of_lt cursor between.1, between.2⟩

namespace Waits

variable {j : Id} {s t : Stream} {g : Group} {group : Bytes}

theorem entriesUntil_append (waits : Waits j s g) {id : Id} (fields : Fields) (grows : s.lastId < id) :
    entriesUntil j (s.append id fields) g = entriesUntil j s g := by
  have above : ∀ i ∈ s.entries.keys, i < id :=
    fun i member => lt_of_le_of_lt (waits.bounded i member) grows
  have isKeys : (s.append id fields).entries.keys = s.entries.keys ++ [id] := by
    unfold Stream.append OrderedMap.keys
    rw [OrderedMap.entries_insert_last s.entries above, List.map_append]
    rfl
  have notCounted : ¬(g.lastId < id ∧ id ≤ j) := by
    intro both
    exact absurd (above j waits.stored) (not_lt.mpr both.2)
  unfold entriesUntil
  rw [isKeys, List.filter_append]
  simp [notCounted]

theorem entriesUntil_advance (waits : Waits j s g) {id : Id} (stored : id ∈ s.entries.keys)
    (later : g.lastId < id) (next : ∀ i ∈ s.entries.keys, g.lastId < i → id ≤ i) :
    entriesUntil j (s.setGroup group (advance s g id)) (advance s g id) + 1 ≤ entriesUntil j s g := by
  have isCursor := advance_lastId (s := s) later
  have sub : (s.entries.keys.filter (fun i => decide (id < i ∧ i ≤ j))).Sublist
      (s.entries.keys.filter (fun i => decide (g.lastId < i ∧ i ≤ j))) := by
    apply List.monotone_filter_right
    intro i holds
    have between := of_decide_eq_true holds
    exact decide_eq_true ⟨lt_trans later between.1, between.2⟩
  have counted : id ∈ s.entries.keys.filter (fun i => decide (g.lastId < i ∧ i ≤ j)) :=
    List.mem_filter.mpr ⟨stored, decide_eq_true ⟨later, next j waits.stored waits.ahead⟩⟩
  have notCounted : id ∉ s.entries.keys.filter (fun i => decide (id < i ∧ i ≤ j)) := by
    intro member
    exact absurd (of_decide_eq_true (List.mem_filter.mp member).2).1 (lt_irrefl id)
  unfold entriesUntil
  rw [isCursor]
  apply Nat.lt_of_le_of_ne sub.length_le
  intro sameLength
  apply notCounted
  have same := sub.eq_of_length sameLength
  show id ∈ s.entries.keys.filter _
  rw [same]
  exact counted

theorem step {l : Label} (leaves : l.LeavesCursor group) (step : Stream.Step s l t)
    (found : s.groups.get group = some g) (waits : Waits j s g) :
    j ∈ deliveries group [l] ∨ Gone j t ∨
      ∃ h, t.groups.get group = some h ∧ Waits j t h ∧
        (deliveries group [l]).length + entriesUntil j t h ≤ entriesUntil j s g := by
  have bounded := Stream.Bounded.step step waits.bounded
  have silent : ∀ {h : Group}, t.groups.get group = some h → deliveries group [l] = [] →
      h.lastId = g.lastId → t.entries = s.entries →
      ∃ h, t.groups.get group = some h ∧ Waits j t h ∧
        (deliveries group [l]).length + entriesUntil j t h ≤ entriesUntil j s g := by
    intro h isGroup noDelivery sameCursor sameEntries
    refine ⟨h, isGroup, ⟨bounded, by rw [sameEntries]; exact waits.stored, ?_⟩, ?_⟩
    · rw [sameCursor]
      exact waits.ahead
    · rw [noDelivery, List.length_nil, Nat.zero_add]
      apply entriesUntil_le
      · rw [sameEntries]
      · exact le_of_eq sameCursor.symm
  have elsewhere : ∀ {name : Bytes} {k : Group}, t = s.setGroup name k → group ≠ name →
      deliveries group [l] = [] →
      ∃ h, t.groups.get group = some h ∧ Waits j t h ∧
        (deliveries group [l]).length + entriesUntil j t h ≤ entriesUntil j s g := by
    intro name k isSet different noDelivery
    apply silent (h := g) _ noDelivery rfl
    · rw [isSet]
      rfl
    · rw [isSet, get_setGroup_of_ne s different]
      exact found
  cases step with
  | @add id fields grows =>
    apply Or.inr
    apply Or.inr
    refine ⟨g, found, ⟨bounded, ?_, waits.ahead⟩, ?_⟩
    · exact (OrderedMap.mem_keys_insert _ _ _ _).mpr (Or.inr waits.stored)
    · rw [waits.entriesUntil_append fields grows]
      exact le_of_eq (Nat.zero_add _)
  | @remove id _ =>
    apply Or.inr
    by_cases same : j = id
    · apply Or.inl
      refine ⟨?_, waits.bounded j waits.stored⟩
      intro member
      exact ((OrderedMap.mem_keys_erase _ _ _).mp member).1 same
    · apply Or.inr
      refine ⟨g, found, ⟨bounded, ?_, waits.ahead⟩, ?_⟩
      · exact (OrderedMap.mem_keys_erase _ _ _).mpr ⟨same, waits.stored⟩
      · apply le_trans (le_of_eq (Nat.zero_add _))
        apply entriesUntil_le _ (le_refl _)
        show (s.entries.filter _).keys.Sublist s.entries.keys
        rw [OrderedMap.keys_filter]
        exact List.filter_sublist
  | setId _ _ => exact absurd rfl (leaves.1 _)
  | @create name id counter free =>
    apply Or.inr
    apply Or.inr
    apply elsewhere rfl _ rfl
    intro same
    rw [same, free] at found
    cases found
  | @drop name =>
    apply Or.inr
    apply Or.inr
    apply silent (h := g) _ rfl rfl rfl
    have different : group ≠ name := fun same => leaves.2.2.2 (by rw [same])
    simp [different, found]
  | place _ =>
    apply Or.inr
    apply Or.inr
    apply elsewhere rfl _ rfl
    intro same
    exact leaves.2.1 _ (by rw [same])
  | raise _ =>
    apply Or.inr
    apply Or.inr
    apply elsewhere rfl _ rfl
    intro same
    exact leaves.2.2.1 (by rw [same])
  | @deliver name k id isGroup stored later next =>
    by_cases same : group = name
    · subst same
      rw [found] at isGroup
      cases isGroup
      have one : deliveries group [.deliver group id] = [id] := by simp [deliveries]
      rw [one]
      by_cases isNext : j = id
      · exact Or.inl (List.mem_singleton.mpr isNext)
      · apply Or.inr
        apply Or.inr
        refine ⟨_, get_setGroup _ _ _, ⟨bounded, waits.stored, ?_⟩, ?_⟩
        · rw [advance_lastId later]
          exact lt_of_le_of_ne (next j waits.stored waits.ahead) (Ne.symm isNext)
        · rw [List.length_singleton, Nat.add_comm]
          exact waits.entriesUntil_advance stored later next
    · apply Or.inr
      apply Or.inr
      apply elsewhere rfl same
      exact deliveries_other (Ne.symm same) (by simp)
  | @rehold name k k' isGroup change =>
    apply Or.inr
    apply Or.inr
    by_cases same : group = name
    · subst same
      rw [found] at isGroup
      cases isGroup
      exact silent (get_setGroup _ _ _) rfl change.lastId rfl
    · exact elsewhere rfl same rfl

end Waits

theorem Gone.step {j : Id} {s t : Stream} {l : Label} {group : Bytes}
    (leaves : l.LeavesCursor group) (step : Stream.Step s l t) (gone : Gone j s) : Gone j t := by
  cases step with
  | @add id fields grows =>
    constructor
    · intro member
      rcases (OrderedMap.mem_keys_insert _ _ _ _).mp member with isNew | isOld
      · rw [isNew] at gone
        exact absurd grows (not_lt.mpr gone.passed)
      · exact gone.notStored isOld
    · exact le_of_lt (lt_of_le_of_lt gone.passed grows)
  | remove _ =>
    constructor
    · intro member
      exact gone.notStored ((OrderedMap.mem_keys_erase _ _ _).mp member).2
    · exact gone.passed
  | setId _ _ => exact absurd rfl (leaves.1 _)
  | create _ => exact ⟨gone.notStored, gone.passed⟩
  | drop => exact ⟨gone.notStored, gone.passed⟩
  | place _ => exact ⟨gone.notStored, gone.passed⟩
  | raise _ => exact ⟨gone.notStored, gone.passed⟩
  | deliver _ _ _ _ => exact ⟨gone.notStored, gone.passed⟩
  | rehold _ _ => exact ⟨gone.notStored, gone.passed⟩

theorem Gone.steps {labels : List Label} {group : Bytes}
    (leaves : ∀ l ∈ labels, l.LeavesCursor group) (steps : Stream.Steps s labels t)
    (gone : Gone j s) : Gone j t := by
  induction steps with
  | nil s => exact gone
  | cons first rest ih =>
    obtain ⟨leavesFirst, leavesRest⟩ := List.forall_mem_cons.mp leaves
    exact ih leavesRest (Gone.step leavesFirst first gone)

theorem Waits.steps {g : Group} {labels : List Label} {group : Bytes}
    (leaves : ∀ l ∈ labels, l.LeavesCursor group) (steps : Stream.Steps s labels t)
    (found : s.groups.get group = some g) (waits : Waits j s g) :
    j ∈ deliveries group labels ∨ Gone j t ∨
      ∃ h, t.groups.get group = some h ∧ Waits j t h ∧
        (deliveries group labels).length + entriesUntil j t h ≤ entriesUntil j s g := by
  induction steps generalizing g with
  | nil s =>
    apply Or.inr
    apply Or.inr
    exact ⟨g, found, waits, le_of_eq (Nat.zero_add _)⟩
  | @cons s u t l labels first rest ih =>
    obtain ⟨leavesFirst, leavesRest⟩ := List.forall_mem_cons.mp leaves
    have split := deliveries_append group [l] labels
    rw [List.singleton_append] at split
    rw [split]
    rcases Waits.step leavesFirst first found waits with isOut | isGone | ⟨h, isGroup, waits', near⟩
    · exact Or.inl (List.mem_append_left _ isOut)
    · exact Or.inr (Or.inl (Gone.steps leavesRest rest isGone))
    · rcases ih leavesRest isGroup waits' with isOut | isGone | ⟨k, isGroup', waits'', nearer⟩
      · exact Or.inl (List.mem_append_right _ isOut)
      · exact Or.inr (Or.inl isGone)
      · apply Or.inr
        apply Or.inr
        refine ⟨k, isGroup', waits'', ?_⟩
        rw [List.length_append]
        omega

end NoidaDb.Redis
