/-
The counters of streams and groups are true.
-/

import NoidaDb.Redis.StreamRuns

namespace NoidaDb.Redis

open Lib

def countTo (ids : List Id) (id : Id) : Nat := (ids.filter (fun j => decide (j ≤ id))).length

def countAfter (ids : List Id) (id : Id) : Nat := (ids.filter (fun j => decide (id < j))).length

theorem countTo_add_countAfter (ids : List Id) (id : Id) :
    countTo ids id + countAfter ids id = ids.length := by
  have both := List.length_eq_length_filter_add (l := ids) (fun j => decide (j ≤ id))
  have same : ids.filter (fun j => !decide (j ≤ id)) = ids.filter (fun j => decide (id < j)) := by
    apply List.filter_congr
    intro j _
    rw [← decide_not]
    exact decide_eq_decide.mpr not_le
  rw [same] at both
  exact both.symm

variable {id : Id}

theorem countAfter_eq_zero {ids : List Id} (below : ∀ j ∈ ids, j ≤ id) : countAfter ids id = 0 := by
  unfold countAfter
  rw [List.length_eq_zero_iff, List.filter_eq_nil_iff]
  intro j member
  simpa using below j member

theorem countAfter_eq_length {ids : List Id} (above : ∀ j ∈ ids, id < j) :
    countAfter ids id = ids.length := by
  unfold countAfter
  rw [List.filter_eq_self.mpr]
  intro j member
  simpa using above j member

theorem countAfter_congr {xs ys : List Id} (sortedX : xs.Pairwise (· < ·))
    (sortedY : ys.Pairwise (· < ·)) (same : ∀ j, id < j → (j ∈ xs ↔ j ∈ ys)) :
    countAfter xs id = countAfter ys id := by
  unfold countAfter
  congr 1
  apply List.Pairwise.eq_of_mem_iff (sortedX.filter _) (sortedY.filter _)
  intro j
  simp only [List.mem_filter, decide_eq_true_eq]
  constructor
  · rintro ⟨member, above⟩
    exact ⟨(same j above).mp member, above⟩
  · rintro ⟨member, above⟩
    exact ⟨(same j above).mpr member, above⟩

structure Counted (added : List Id) (s : Stream) : Prop where
  increasing : added.Pairwise (· < ·)
  positive : ∀ id ∈ added, Id.zero < id
  bounded : ∀ id ∈ added, id ≤ s.lastId
  stored : ∀ id ∈ s.entries.keys, id ∈ added
  deleted : ∀ id ∈ added, id ∉ s.entries.keys → id ≤ s.maxDeletedId
  maxDeleted : s.maxDeletedId ≤ s.lastId
  total : s.entriesAdded = added.length
  read : ∀ name g, s.groups.get name = some g → ∀ n, g.entriesRead = some n →
    g.lastId ≤ s.lastId ∧ n = countTo added g.lastId

namespace Counted

variable {added : List Id} {s : Stream}

theorem new : Counted [] {} where
  increasing := List.Pairwise.nil
  positive := by simp
  bounded := by simp
  stored := by simp
  deleted := by simp
  maxDeleted := le_refl _
  total := rfl
  read := by
    intro name g found
    cases found

variable {id : Id} {g : Group}

theorem countAfter_eq (counted : Counted added s)
    (clean : s.maxDeletedId ≤ id ∨ s.maxDeletedId = .zero) :
    countAfter added id = countAfter s.entries.keys id := by
  apply countAfter_congr counted.increasing s.entries.keys_sorted
  intro j above
  constructor
  · intro member
    by_contra gone
    have isDeleted := counted.deleted j member gone
    rcases clean with atMost | isZero
    · exact absurd (lt_of_lt_of_le above isDeleted) (not_lt.mpr atMost)
    · rw [isZero] at isDeleted
      exact absurd (counted.positive j member) (not_lt.mpr isDeleted)
  · exact counted.stored j

theorem firstId_le {j : Id} (member : j ∈ s.entries.keys) : s.firstId ≤ j := by
  unfold Stream.firstId
  cases isFirst : s.entries.firstKey? with
  | none =>
    have isNil : s.entries.keys = [] := List.head?_eq_none_iff.mp isFirst
    rw [isNil] at member
    cases member
  | some first => exact OrderedMap.firstKey?_le isFirst member

theorem firstId_mem (notEmpty : s.entries.keys ≠ []) : s.firstId ∈ s.entries.keys := by
  unfold Stream.firstId
  cases isFirst : s.entries.firstKey? with
  | none => exact absurd (List.head?_eq_none_iff.mp isFirst) notEmpty
  | some first => exact OrderedMap.firstKey?_mem isFirst

theorem countAfter_first (notEmpty : s.entries.keys ≠ []) :
    (countAfter s.entries.keys s.firstId : Int) = s.len - 1 := by
  have both := countTo_add_countAfter s.entries.keys s.firstId
  have one : countTo s.entries.keys s.firstId = 1 := by
    unfold countTo
    have isFilter : s.entries.keys.filter (fun j => decide (j ≤ s.firstId)) = [s.firstId] := by
      apply List.Pairwise.eq_of_mem_iff (s.entries.keys_sorted.filter _)
        (List.pairwise_singleton _ _)
      intro j
      simp only [List.mem_filter, decide_eq_true_eq, List.mem_singleton]
      constructor
      · rintro ⟨member, atMost⟩
        exact le_antisymm atMost (firstId_le member)
      · intro same
        rw [same]
        exact ⟨firstId_mem notEmpty, le_refl _⟩
    rw [isFilter]
    rfl
  unfold Stream.len
  rw [OrderedMap.size_eq]
  omega

theorem estimate (counted : Counted added s) (notEmpty : s.entries.keys ≠ []) {n : Int}
    (estimated : s.estimateEntriesRead id = some n) :
    n = added.length - countAfter s.entries.keys id ∧ (id ≠ .zero → s.maxDeletedId ≤ id) := by
  have someAdded : s.entriesAdded ≠ 0 := by
    intro isZero
    have noneAdded : added = [] := List.length_eq_zero_iff.mp (counted.total.symm.trans isZero)
    obtain ⟨j, member⟩ := List.exists_mem_of_ne_nil _ notEmpty
    have isAdded := counted.stored j member
    rw [noneAdded] at isAdded
    cases isAdded
  have notEmpty' : s.isEmpty = false := by
    cases isEmpty : s.isEmpty with
    | false => rfl
    | true => exact absurd ((OrderedMap.isEmpty_iff _).mp isEmpty) notEmpty
  have size : s.len = s.entries.keys.length := s.entries.size_eq
  unfold Stream.estimateEntriesRead at estimated
  rw [if_neg someAdded, notEmpty'] at estimated
  simp only [Bool.false_and, Bool.false_eq_true, if_false] at estimated
  split at estimated
  · cases estimated
  · rename_i notBelow
    have clean : id ≠ .zero → s.maxDeletedId ≤ id := by
      intro notZero
      by_contra above
      apply notBelow
      simp [notZero, not_le.mp above]
    split at estimated
    · rename_i isLast
      cases estimated
      apply And.intro _ clean
      rw [countAfter_eq_zero (fun j member => isLast ▸ counted.bounded j (counted.stored j member)),
        counted.total]
      simp
    · split at estimated
      · cases estimated
      · split at estimated
        · split at estimated
          · rename_i beforeFirst
            cases estimated
            apply And.intro _ clean
            rw [countAfter_eq_length (fun j member => lt_of_lt_of_le beforeFirst (firstId_le member)),
              counted.total, size]
          · split at estimated
            · rename_i isFirst
              cases estimated
              apply And.intro _ clean
              have rest := countAfter_first notEmpty
              rw [isFirst, rest, counted.total]
              omega
            · cases estimated
        · cases estimated

theorem add (counted : Counted added s) {id : Id} (fields : Fields) (grows : s.lastId < id) :
    Counted (added ++ [id]) (s.append id fields) where
  increasing := by
    rw [List.pairwise_append]
    refine ⟨counted.increasing, List.pairwise_singleton _ _, ?_⟩
    intro j member k isNew
    rw [List.mem_singleton.mp isNew]
    exact lt_of_le_of_lt (counted.bounded j member) grows
  positive := by
    intro j member
    rcases List.mem_append.mp member with isOld | isNew
    · exact counted.positive j isOld
    · rw [List.mem_singleton.mp isNew]
      apply lt_of_le_of_lt _ grows
      rw [← not_lt, Id.lt_iff]
      rintro (less | ⟨_, less⟩)
      · exact absurd less (Fin.not_lt_zero _)
      · exact absurd less (Fin.not_lt_zero _)
  bounded := by
    intro j member
    rcases List.mem_append.mp member with isOld | isNew
    · exact le_trans (counted.bounded j isOld) (le_of_lt grows)
    · exact le_of_eq (List.mem_singleton.mp isNew)
  stored := by
    intro j member
    rcases (OrderedMap.mem_keys_insert s.entries id j fields).mp member with isNew | isOld
    · rw [isNew]
      simp
    · exact List.mem_append_left _ (counted.stored j isOld)
  deleted := by
    intro j member gone
    have notKept := fun isKept => gone ((OrderedMap.mem_keys_insert s.entries id j fields).mpr isKept)
    rcases List.mem_append.mp member with isOld | isNew
    · exact counted.deleted j isOld (fun isKept => notKept (Or.inr isKept))
    · exact absurd (Or.inl (List.mem_singleton.mp isNew)) notKept
  maxDeleted := le_trans counted.maxDeleted (le_of_lt grows)
  total := by
    show s.entriesAdded + 1 = _
    rw [counted.total, List.length_append]
    rfl
  read := by
    intro name g found n isRead
    obtain ⟨bound, isCount⟩ := counted.read name g found n isRead
    apply And.intro (le_trans bound (le_of_lt grows))
    rw [isCount]
    unfold countTo
    have notCounted : ¬id ≤ g.lastId := not_le.mpr (lt_of_le_of_lt bound grows)
    simp [List.filter_append, notCounted]

theorem remove (counted : Counted added s) {id : Id} (stored : id ∈ s.entries.keys) :
    Counted added (s.removeEntry id) where
  increasing := counted.increasing
  positive := counted.positive
  bounded := counted.bounded
  stored := fun j member => counted.stored j ((s.keys_removeEntry id j).mp member).2
  deleted := by
    intro j member gone
    show j ≤ if s.maxDeletedId < id then id else s.maxDeletedId
    by_cases isRemoved : j = id
    · rw [isRemoved]
      split
      · exact le_refl id
      · rename_i notAbove
        exact not_lt.mp notAbove
    · have goneBefore : j ∉ s.entries.keys :=
        fun isKept => gone ((s.keys_removeEntry id j).mpr ⟨isRemoved, isKept⟩)
      have before := counted.deleted j member goneBefore
      split
      · rename_i above
        exact le_trans before (le_of_lt above)
      · exact before
  maxDeleted := by
    show (if s.maxDeletedId < id then id else s.maxDeletedId) ≤ s.lastId
    split
    · exact counted.bounded id (counted.stored id stored)
    · exact counted.maxDeleted
  total := counted.total
  read := counted.read

theorem setGroup (counted : Counted added s) {name : Bytes}
    (read : ∀ n, g.entriesRead = some n → g.lastId ≤ s.lastId ∧ n = countTo added g.lastId) :
    Counted added (s.setGroup name g) where
  increasing := counted.increasing
  positive := counted.positive
  bounded := counted.bounded
  stored := counted.stored
  deleted := counted.deleted
  maxDeleted := counted.maxDeleted
  total := counted.total
  read := by
    intro other g' found n isRead
    simp only [Stream.setGroup, OrderedMap.get_insert] at found
    split at found
    · cases found
      exact read n isRead
    · exact counted.read other g' found n isRead

theorem advance (counted : Counted added s) {name : Bytes} (found : s.groups.get name = some g)
    (stored : id ∈ s.entries.keys) (later : g.lastId < id)
    (next : ∀ j ∈ s.entries.keys, g.lastId < j → id ≤ j) (n : Int)
    (isRead : (advance s g id).entriesRead = some n) :
    (Redis.advance s g id).lastId ≤ s.lastId ∧
      n = countTo added (Redis.advance s g id).lastId := by
  have isAdded := counted.stored id stored
  rw [advance_lastId later]
  apply And.intro (counted.bounded id isAdded)
  have isCounter : entriesReadAt s g id = some n := by
    unfold Redis.advance at isRead
    rw [if_pos later] at isRead
    exact isRead
  unfold entriesReadAt at isCounter
  have notZero : id ≠ .zero := ne_of_gt (counted.positive id isAdded)
  have notEmpty : s.entries.keys ≠ [] := List.ne_nil_of_mem stored
  have total := countTo_add_countAfter added id
  simp only [] at isCounter
  split at isCounter
  · -- One more entry, and nothing deleted above the cursor.
    rename_i counts
    rw [Bool.and_eq_true, Bool.and_eq_true] at counts
    obtain ⟨⟨hasRead, _⟩, noTombstones⟩ := counts
    obtain ⟨before, isBefore⟩ := Option.isSome_iff_exists.mp hasRead
    have isCount := (counted.read name g found before isBefore).2
    rw [isBefore] at isCounter
    have isNext : before + 1 = n := Option.some.inj isCounter
    have clean : s.maxDeletedId ≤ g.lastId ∨ s.maxDeletedId = .zero := by
      by_cases isZero : s.maxDeletedId = .zero
      · exact Or.inr isZero
      · apply Or.inl
        by_contra above
        simp [isZero, le_of_lt (not_le.mp above)] at noTombstones
    have cleanAbove : s.maxDeletedId ≤ id ∨ s.maxDeletedId = .zero :=
      clean.imp (fun atMost => le_trans atMost (le_of_lt later)) (fun isZero => isZero)
    have beforeCount := counted.countAfter_eq clean
    have afterCount := counted.countAfter_eq cleanAbove
    have oneMore : countAfter s.entries.keys g.lastId = countAfter s.entries.keys id + 1 := by
      unfold countAfter
      have isCons : s.entries.keys.filter (fun j => decide (g.lastId < j)) =
          id :: s.entries.keys.filter (fun j => decide (id < j)) := by
        apply List.Pairwise.eq_of_mem_iff (s.entries.keys_sorted.filter _)
        · rw [List.pairwise_cons]
          constructor
          · intro j member
            exact of_decide_eq_true (List.mem_filter.mp member).2
          · exact s.entries.keys_sorted.filter _
        · intro j
          simp only [List.mem_filter, List.mem_cons, decide_eq_true_eq]
          constructor
          · rintro ⟨member, above⟩
            rcases eq_or_lt_of_le (next j member above) with same | beyond
            · exact Or.inl same.symm
            · exact Or.inr ⟨member, beyond⟩
          · rintro (same | ⟨member, beyond⟩)
            · rw [same]
              exact ⟨stored, later⟩
            · exact ⟨member, lt_trans later beyond⟩
      rw [isCons]
      rfl
    have totalBefore := countTo_add_countAfter added g.lastId
    omega
  · split at isCounter
    · obtain ⟨isEstimate, clean⟩ := counted.estimate notEmpty isCounter
      have afterCount := counted.countAfter_eq (Or.inl (clean notZero))
      omega
    · rename_i noneAdded
      have isLength := counted.total
      have positive := List.length_pos_of_mem isAdded
      omega

theorem lag (counted : Counted added s) {name : Bytes} (found : s.groups.get name = some g)
    {n : Int} (known : s.lag g = some n) : n = countAfter s.entries.keys g.lastId := by
  unfold Stream.lag at known
  simp only [] at known
  by_cases isEmpty : s.entries.keys = []
  · have empty : s.isEmpty = true := (OrderedMap.isEmpty_iff _).mpr isEmpty
    rw [empty, Bool.or_true] at known
    cases known
    rw [isEmpty]
    rfl
  · have someAdded : s.entriesAdded ≠ 0 := by
      intro isZero
      have noneAdded : added = [] := List.length_eq_zero_iff.mp (counted.total.symm.trans isZero)
      obtain ⟨j, member⟩ := List.exists_mem_of_ne_nil _ isEmpty
      have isAdded := counted.stored j member
      rw [noneAdded] at isAdded
      cases isAdded
    have notEmpty : s.isEmpty = false := by
      cases empty : s.isEmpty with
      | false => rfl
      | true => exact absurd ((OrderedMap.isEmpty_iff _).mp empty) isEmpty
    rw [notEmpty, decide_eq_false someAdded] at known
    simp only [Bool.or_self, Bool.false_eq_true, if_false] at known
    split at known
    · rename_i before
      cases known
      rw [countAfter_eq_length (fun j member => lt_of_lt_of_le before.1 (firstId_le member))]
      exact congrArg Nat.cast s.entries.size_eq
    · split at known
      · rename_i read isRead
        cases known
        obtain ⟨isCounter, noTombstones⟩ := Option.filter_eq_some_iff.mp isRead
        have isCount := (counted.read name g found read isCounter).2
        have clean : s.maxDeletedId ≤ g.lastId ∨ s.maxDeletedId = .zero := by
          by_cases isZero : s.maxDeletedId = .zero
          · exact Or.inr isZero
          · apply Or.inl
            by_contra above
            simp [Stream.hasTombstones, notEmpty, isZero, le_of_lt (not_le.mp above)] at noTombstones
        have same := counted.countAfter_eq clean
        have total := countTo_add_countAfter added g.lastId
        have isLength := counted.total
        omega
      · obtain ⟨read, isEstimate, same⟩ := Option.map_eq_some_iff.mp known
        have estimated := (counted.estimate isEmpty isEstimate).1
        have isLength := counted.total
        omega

end Counted

def GivesEntriesRead (a : List Bytes) : Prop :=
  ∃ sub options, streamCommand a = some (.xgroup sub) ∧
    groupOptions (sub == .create) (sub == .setid) a.length (a.drop 5) {} = .ok options ∧
    options.entriesRead.isSome = true

def GivesLastId (a : List Bytes) : Prop :=
  streamCommand a = some .xclaim ∧
    ∃ now args, parseClaim now a = .ok args ∧ args.2.2.lastId.isSome = true

def Label.Counts : Label → Prop
  | .setId _ => False
  | .raise _ => False
  | .create _ counter => counter = none
  | .place _ counter => counter = none
  | _ => True

theorem Counted.step {added : List Id} {s t : Stream} {l : Label} (counts : l.Counts)
    (step : Stream.Step s l t) (counted : Counted added s) : Counted (added ++ adds [l]) t := by
  cases step with
  | add grows => exact counted.add _ grows
  | remove stored =>
    show Counted (added ++ []) _
    rw [List.append_nil]
    exact counted.remove stored
  | setId _ _ => exact absurd counts id
  | create free =>
    show Counted (added ++ []) _
    rw [List.append_nil]
    apply counted.setGroup
    intro n isRead
    rw [show _ = none from counts] at isRead
    cases isRead
  | drop =>
    show Counted (added ++ []) _
    rw [List.append_nil]
    exact
      { counted with
        read := by
          intro name g found
          simp only [OrderedMap.get_erase] at found
          split at found
          · cases found
          · exact counted.read name g found }
  | place found =>
    show Counted (added ++ []) _
    rw [List.append_nil]
    apply counted.setGroup
    intro n isRead
    rw [show _ = none from counts] at isRead
    cases isRead
  | raise _ => exact absurd counts id
  | deliver found stored later next =>
    show Counted (added ++ []) _
    rw [List.append_nil]
    apply counted.setGroup
    exact counted.advance found stored later next
  | rehold found change =>
    show Counted (added ++ []) _
    rw [List.append_nil]
    apply counted.setGroup
    intro n isRead
    rw [change.lastId]
    exact counted.read _ _ found n (change.entriesRead ▸ isRead)

theorem counts_of_permits {a : List Bytes} {l : Label} (permitted : Permits a l)
    (noEntriesRead : ¬GivesEntriesRead a) (noLastId : ¬GivesLastId a)
    (noSetId : streamCommand a ≠ some .xsetid) : l.Counts := by
  have noCounter : ∀ {sub options},
      streamCommand a = some (.xgroup sub) →
      groupOptions (sub == .create) (sub == .setid) a.length (a.drop 5) {} = .ok options →
      options.counter = none := by
    intro sub options isSub parses
    cases isGiven : options.entriesRead with
    | none =>
      unfold GroupOptions.counter
      rw [isGiven]
      rfl
    | some n => exact absurd ⟨sub, options, isSub, parses, by rw [isGiven]; rfl⟩ noEntriesRead
  cases l with
  | setId _ => exact absurd permitted.1 noSetId
  | create group counter =>
    obtain ⟨isSub, _, options, parses, isCounter⟩ := permitted
    exact isCounter.trans (noCounter isSub parses)
  | place group counter =>
    obtain ⟨isSub, _, options, parses, isCounter⟩ := permitted
    exact isCounter.trans (noCounter isSub parses)
  | raise group => exact absurd ⟨permitted.1, permitted.2.2⟩ noLastId
  | silent => trivial
  | add _ => trivial
  | drop _ => trivial
  | deliver _ _ => trivial

/-- In any run without ENTRIESREAD, XSETID and XCLAIM LASTID, the counters of a stream are those
of the entries that were added to it, and a lag that XINFO reports is exact. -/
theorem stream_counters_true (calls : List Call)
    (plain : ∀ c ∈ calls, ¬GivesEntriesRead c.2 ∧ ¬GivesLastId c.2 ∧
      streamCommand c.2 ≠ some .xsetid)
    (key : Bytes) (s : Stream) (found : (runCalls calls {}).streamAt key = some s) :
    (∀ id ∈ s.entries.keys, id ≤ s.lastId) ∧ s.maxDeletedId ≤ s.lastId ∧
      s.entriesAdded = (addedIn key calls {}).length ∧
      ∀ name g, s.groups.get name = some g →
        (∀ n, g.entriesRead = some n →
          n = ((addedIn key calls {}).filter (fun id => decide (id ≤ g.lastId))).length) ∧
        ∀ n, lagReply s g = .integer n →
          n = (s.entries.keys.filter (fun id => decide (g.lastId < id))).length := by
  have counted : Counted (addedIn key calls {}) s := by
    apply run_invariant Counted Label.Counts Counted.new _ calls _ found
    · intro added s l t counts step
      exact Counted.step counts step
    · intro c member l permitted
      obtain ⟨noEntriesRead, noLastId, noSetId⟩ := plain c member
      exact counts_of_permits permitted noEntriesRead noLastId noSetId
  refine ⟨fun id member => counted.bounded id (counted.stored id member), counted.maxDeleted,
    counted.total, ?_⟩
  intro name g isGroup
  constructor
  · intro n isRead
    exact (counted.read name g isGroup n isRead).2
  · intro n isLag
    apply counted.lag isGroup
    unfold lagReply intOrNull at isLag
    cases known : s.lag g with
    | none =>
      rw [known] at isLag
      cases isLag
    | some m =>
      rw [known] at isLag
      cases isLag
      rfl

def readOnce : List Call :=
  [typed 1 ["XADD", "k", "5-0", "f", "v"],
    typed 2 ["XGROUP", "CREATE", "k", "g", "0"],
    typed 3 ["XREADGROUP", "GROUP", "g", "c", "STREAMS", "k", ">"]]

theorem stream_counters_true_readOnce :
    ∃ s, (runCalls readOnce {}).streamAt (ascii "k") = some s ∧ s.entriesAdded = 1 ∧
      s.maxDeletedId ≤ s.lastId := by
  obtain ⟨s, found⟩ := Option.isSome_iff_exists.mp
    (by decide +kernel : ((runCalls readOnce {}).streamAt (ascii "k")).isSome = true)
  have counters := stream_counters_true readOnce (by
    intro c member
    have names : streamCommand c.2 = some .xadd ∨ streamCommand c.2 = some .xreadgroup ∨
        streamCommand c.2 = some (.xgroup .create) ∧ c.2.drop 5 = [] := by
      revert c
      decide
    refine ⟨?_, ?_, ?_⟩
    · rintro ⟨sub, options, isSub, parses, given⟩
      rcases names with isName | isName | ⟨_, noOptions⟩
      · rw [isName] at isSub
        cases isSub
      · rw [isName] at isSub
        cases isSub
      · rw [noOptions] at parses
        have isDefault : options = {} := by
          cases isLength : c.2.length with
          | zero =>
            rw [isLength] at parses
            cases parses
            rfl
          | succ n =>
            rw [isLength] at parses
            cases parses
            rfl
        rw [isDefault] at given
        cases given
    · rintro ⟨isClaim, _⟩
      rcases names with isName | isName | ⟨isName, _⟩ <;> rw [isName] at isClaim <;> cases isClaim
    · intro isSetId
      rcases names with isName | isName | ⟨isName, _⟩ <;> rw [isName] at isSetId <;> cases isSetId)
    (ascii "k") s found
  refine ⟨s, found, ?_, counters.2.1⟩
  rw [counters.2.2.1]
  decide +kernel

end NoidaDb.Redis
