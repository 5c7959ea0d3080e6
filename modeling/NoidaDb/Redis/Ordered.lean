/-
The insertion-ordered map and set, with their index beside the entries.

Wherever a step of the source can fail, the step is none here.
-/

import NoidaDb.Lib.IndexedLists
import NoidaDb.Redis.Collections

namespace NoidaDb.Redis.Ordered

open Lib

structure OrderedMap where
  entries : List (Bytes × Bytes) := []
  index : Bytes → Option Nat := fun _ => none

namespace OrderedMap

def get (m : OrderedMap) (k : Bytes) : Option (Option Bytes) :=
  match m.index k with
  | none => some none
  | some i => m.entries[i]?.map (fun e => some e.2)

def insert (m : OrderedMap) (k v : Bytes) : Option (OrderedMap × Bool) :=
  match m.index k with
  | some i => m.entries[i]?.map (fun e => ({ m with entries := m.entries.set i (e.1, v) }, false))
  | none =>
    some
      ({ entries := m.entries ++ [(k, v)]
         index := Function.update m.index k (some m.entries.length) }, true)

def remove (m : OrderedMap) (k : Bytes) : Option (OrderedMap × Bool) :=
  match m.index k with
  | none => some (m, false)
  | some i =>
    if i < m.entries.length then
      let entries := m.entries.eraseIdx i
      (lower Prod.fst (entries.drop i) (Function.update m.index k none)).map
        (fun index => ({ entries := entries, index := index }, true))
    else none

inductive Call where
  | insert (k v : Bytes)
  | remove (k : Bytes)

def call (m : OrderedMap) : Call → Option OrderedMap
  | .insert k v => (m.insert k v).map Prod.fst
  | .remove k => (m.remove k).map Prod.fst

def noted (value : Bytes → Option Bytes) : Call → Bytes → Option Bytes
  | .insert k v => Function.update value k (some v)
  | .remove k => Function.update value k none

structure Holds (m : OrderedMap) (value : Bytes → Option Bytes) : Prop where
  indexed : Indexed Prod.fst m.entries m.index
  entries : ∀ k v, (k, v) ∈ m.entries ↔ value k = some v

variable {m : OrderedMap} {value : Bytes → Option Bytes} {k v : Bytes}

theorem Holds.get (holds : Holds m value) (k : Bytes) : m.get k = some (value k) := by
  unfold OrderedMap.get
  cases found : m.index k with
  | none =>
    cases isValue : value k with
    | none => rfl
    | some v =>
      obtain ⟨i, isAt⟩ := List.mem_iff_getElem?.mp ((holds.entries k v).mpr isValue)
      cases found.symm.trans (holds.indexed.of_getElem isAt)
  | some i =>
    obtain ⟨e, isAt, rfl⟩ := holds.indexed.at_position found
    show m.entries[i]?.map _ = _
    rw [isAt, (holds.entries e.1 e.2).mp (List.mem_of_getElem? isAt)]
    rfl

theorem Holds.insert (holds : Holds m value) (k v : Bytes) :
    ∃ m', m.insert k v = some (m', (value k).isNone) ∧
      Holds m' (Function.update value k (some v)) := by
  have isValue := holds.get k
  unfold OrderedMap.get at isValue
  unfold OrderedMap.insert
  cases found : m.index k with
  | none =>
    rw [found] at isValue
    rw [← Option.some.inj isValue]
    refine ⟨_, rfl, holds.indexed.push (x := (k, v)) found, fun k' v' => ?_⟩
    have new : value k = none := (Option.some.inj isValue).symm
    rw [List.mem_append, List.mem_singleton, holds.entries, Prod.mk.injEq]
    by_cases same : k' = k
    · rw [same, Function.update_self, new, Option.some.injEq]
      exact ⟨fun either => (either.resolve_left nofun).2.symm, fun isV => .inr ⟨rfl, isV.symm⟩⟩
    · rw [Function.update_of_ne same, or_iff_left (fun both => same both.1)]
  | some i =>
    obtain ⟨e, isAt, rfl⟩ := holds.indexed.at_position found
    rw [found] at isValue
    simp only [isAt, Option.map_some] at isValue ⊢
    rw [← Option.some.inj isValue]
    refine ⟨_, rfl, holds.indexed.set (x := (e.1, v)) found, fun k' v' => ?_⟩
    rw [holds.indexed.mem_set (x := (e.1, v)) found, holds.entries, Prod.mk.injEq]
    by_cases same : k' = e.1
    · rw [same, Function.update_self, Option.some.injEq]
      exact ⟨fun either => (either.resolve_right (fun both => both.2 rfl)).2.symm,
        fun isV => .inl ⟨rfl, isV.symm⟩⟩
    · rw [Function.update_of_ne same, or_iff_right (fun both => same both.1), and_iff_left same]

theorem Holds.remove (holds : Holds m value) (k : Bytes) :
    ∃ m', m.remove k = some (m', (value k).isSome) ∧
      m'.entries = m.entries.filter (fun e => e.1 ≠ k) ∧
      Holds m' (Function.update value k none) := by
  have isValue := holds.get k
  have left (k' v' : Bytes) : (k', v') ∈ m.entries.filter (fun e => e.1 ≠ k) ↔
      Function.update value k none k' = some v' := by
    rw [List.mem_filter, holds.entries, decide_eq_true_eq]
    by_cases same : k' = k
    · rw [same, Function.update_self]
      exact ⟨fun both => absurd rfl both.2, nofun⟩
    · rw [Function.update_of_ne same, and_iff_left same]
  unfold OrderedMap.get at isValue
  unfold OrderedMap.remove
  cases found : m.index k with
  | none =>
    rw [found] at isValue
    rw [← Option.some.inj isValue]
    have all : m.entries.filter (fun e => e.1 ≠ k) = m.entries := by
      apply List.filter_eq_self.mpr
      rintro ⟨k', v'⟩ member
      apply decide_eq_true
      rintro rfl
      obtain ⟨i, isAt⟩ := List.mem_iff_getElem?.mp member
      cases found.symm.trans (holds.indexed.of_getElem isAt)
    exact ⟨m, rfl, all.symm, holds.indexed, by rw [← all]; exact left⟩
  | some i =>
    have lowered := holds.indexed.lower_drop found
    have erased := holds.indexed.eraseIdx found
    rw [found] at isValue
    obtain ⟨e, isAt, _⟩ := holds.indexed.at_position found
    simp only [isAt, Option.map_some] at isValue
    simp only [if_pos (holds.indexed.lt_length found), lowered, Option.map_some]
    rw [← Option.some.inj isValue]
    refine ⟨_, rfl, holds.indexed.eraseIdx_eq_filter found, erased, ?_⟩
    rw [holds.indexed.eraseIdx_eq_filter found]
    exact left

def run (calls : List Call) : Option OrderedMap := calls.foldlM call {}

def lastValues (calls : List Call) : Bytes → Option Bytes := calls.foldl noted (fun _ => none)

theorem Holds.call (holds : Holds m value) (c : Call) :
    ∃ m', m.call c = some m' ∧ Holds m' (noted value c) := by
  cases c with
  | insert k v =>
    obtain ⟨m', same, holds'⟩ := holds.insert k v
    exact ⟨m', by rw [OrderedMap.call, same, Option.map_some], holds'⟩
  | remove k =>
    obtain ⟨m', same, _, holds'⟩ := holds.remove k
    exact ⟨m', by rw [OrderedMap.call, same, Option.map_some], holds'⟩

theorem Holds.run (holds : Holds m value) (calls : List Call) :
    ∃ m', calls.foldlM OrderedMap.call m = some m' ∧ Holds m' (calls.foldl noted value) := by
  induction calls generalizing m value with
  | nil => exact ⟨m, rfl, holds⟩
  | cons c calls ih =>
    obtain ⟨next, isNext, holds'⟩ := holds.call c
    rw [List.foldlM_cons, isNext]
    exact ih holds'

theorem run_holds (calls : List Call) : ∃ m, run calls = some m ∧ Holds m (lastValues calls) :=
  Holds.run ⟨Indexed.nil, by intro k v; simp⟩ calls

end OrderedMap

structure OrderedSet where
  items : List Bytes := []
  index : Bytes → Option Nat := fun _ => none

namespace OrderedSet

def contains (s : OrderedSet) (v : Bytes) : Bool := (s.index v).isSome

def insert (s : OrderedSet) (v : Bytes) : OrderedSet × Bool :=
  if s.contains v then (s, false)
  else
    ({ items := s.items ++ [v], index := Function.update s.index v (some s.items.length) }, true)

def remove (s : OrderedSet) (v : Bytes) : Option (OrderedSet × Bool) :=
  match s.index v with
  | none => some (s, false)
  | some i =>
    if i < s.items.length then
      let items := s.items.eraseIdx i
      (lower id (items.drop i) (Function.update s.index v none)).map
        (fun index => ({ items := items, index := index }, true))
    else none

def swapRemove (s : OrderedSet) (v : Bytes) : Option (OrderedSet × Bool) :=
  match s.index v, s.items.getLast? with
  | none, _ => some (s, false)
  | some _, none => none
  | some i, some last =>
    let index := Function.update s.index v none
    let items := (s.items.set i last).dropLast
    if i < s.items.length then
      match items[i]? with
      | none => some ({ items := items, index := index }, true)
      | some moved =>
        (index moved).map (fun _ =>
          ({ items := items, index := Function.update index moved (some i) }, true))
    else none

inductive Call where
  | insert (v : Bytes)
  | remove (v : Bytes)
  | swapRemove (v : Bytes)

def call (s : OrderedSet) : Call → Option OrderedSet
  | .insert v => some (s.insert v).1
  | .remove v => (s.remove v).map Prod.fst
  | .swapRemove v => (s.swapRemove v).map Prod.fst

def noted (present : Bytes → Bool) : Call → Bytes → Bool
  | .insert v => Function.update present v true
  | .remove v => Function.update present v false
  | .swapRemove v => Function.update present v false

structure Holds (s : OrderedSet) (present : Bytes → Bool) : Prop where
  indexed : Indexed id s.items s.index
  items : ∀ v, v ∈ s.items ↔ present v = true

variable {s : OrderedSet} {present : Bytes → Bool} {v : Bytes} {i : Nat}

theorem Holds.contains (holds : Holds s present) (v : Bytes) : s.contains v = present v := by
  apply Bool.eq_iff_iff.mpr
  rw [← holds.items]
  have iff := holds.indexed.isSome_iff (k := v)
  rwa [List.map_id] at iff

theorem mem_filter_iff (holds : Holds s present) (v v' : Bytes) :
    v' ∈ s.items.filter (fun x => x ≠ v) ↔ Function.update present v false v' = true := by
  rw [List.mem_filter, holds.items, decide_eq_true_eq]
  by_cases same : v' = v
  · rw [same, Function.update_self]
    exact ⟨fun both => absurd rfl both.2, nofun⟩
  · rw [Function.update_of_ne same, and_iff_left same]

theorem Holds.insert (holds : Holds s present) (v : Bytes) :
    (s.insert v).2 = !present v ∧ Holds (s.insert v).1 (Function.update present v true) := by
  unfold OrderedSet.insert
  rw [holds.contains]
  cases isPresent : present v with
  | true =>
    have same : Function.update present v true = present := by
      rw [← isPresent, Function.update_eq_self]
    rw [same]
    exact ⟨rfl, holds⟩
  | false =>
    have new : s.index v = none := by
      rw [← Option.not_isSome_iff_eq_none]
      exact fun isSome => absurd ((holds.contains v).symm.trans isSome) (by rw [isPresent]; nofun)
    refine ⟨rfl, holds.indexed.push (x := v) new, fun v' => ?_⟩
    show v' ∈ s.items ++ [v] ↔ _
    rw [List.mem_append, List.mem_singleton, holds.items]
    by_cases same : v' = v
    · rw [same, Function.update_self]
      exact ⟨fun _ => rfl, fun _ => .inr rfl⟩
    · rw [Function.update_of_ne same, or_iff_left same]

theorem Holds.missing (holds : Holds s present) (new : s.index v = none) :
    s.items.filter (fun x => x ≠ v) = s.items ∧ present v = false ∧
      Holds s (Function.update present v false) := by
  have absent : present v = false := by
    rw [← holds.contains, OrderedSet.contains, new]
    rfl
  refine ⟨List.filter_eq_self.mpr (fun x member => decide_eq_true ?_), absent, ?_⟩
  · rintro rfl
    rw [holds.items, absent] at member
    cases member
  · rw [← absent, Function.update_eq_self]
    exact holds

theorem Holds.isPresent (holds : Holds s present) (found : s.index v = some i) :
    present v = true := by
  rw [← holds.contains, OrderedSet.contains, found]
  rfl

theorem Holds.remove (holds : Holds s present) (v : Bytes) :
    ∃ s', s.remove v = some (s', present v) ∧ s'.items = s.items.filter (fun x => x ≠ v) ∧
      Holds s' (Function.update present v false) := by
  unfold OrderedSet.remove
  cases found : s.index v with
  | none =>
    obtain ⟨all, absent, kept⟩ := holds.missing found
    rw [absent]
    exact ⟨s, rfl, all.symm, kept⟩
  | some i =>
    simp only [if_pos (holds.indexed.lt_length found), holds.indexed.lower_drop found,
      Option.map_some]
    rw [holds.isPresent found]
    have left := holds.indexed.eraseIdx_eq_filter found
    refine ⟨_, rfl, left, holds.indexed.eraseIdx found, fun v' => ?_⟩
    rw [← mem_filter_iff holds v v', left]
    rfl

theorem Holds.of_isSome {s' : OrderedSet} (holds : Holds s present)
    (indexed : Indexed id s'.items s'.index)
    (same : ∀ x, (s'.index x).isSome = true ↔ x ≠ v ∧ (s.index x).isSome = true) :
    Holds s' (Function.update present v false) where
  indexed := indexed
  items := by
    intro x
    have later := indexed.isSome_iff (k := x)
    have before := holds.indexed.isSome_iff (k := x)
    rw [List.map_id] at later before
    rw [← later, same, before, and_comm, ← mem_filter_iff holds v x, List.mem_filter,
      decide_eq_true_eq]

theorem Holds.swapRemove (holds : Holds s present) (v : Bytes) :
    ∃ s', s.swapRemove v = some (s', present v) ∧ Holds s' (Function.update present v false) := by
  unfold OrderedSet.swapRemove
  cases found : s.index v with
  | none =>
    obtain ⟨_, absent, kept⟩ := holds.missing found
    rw [absent]
    exact ⟨s, rfl, kept⟩
  | some i =>
    have within := holds.indexed.lt_length found
    have indexed := holds.indexed
    rw [holds.isPresent found]
    obtain isNil | ⟨ys, last, isItems⟩ := List.eq_nil_or_concat s.items
    · rw [isNil] at within
      cases within
    rw [List.concat_eq_append] at isItems
    rw [isItems] at indexed within
    have isLast : s.index last = some ys.length := indexed.of_getElem List.getElem?_concat_length
    simp only [isItems, List.getLast?_concat, if_pos within]
    rw [List.length_append, List.length_singleton] at within
    by_cases before : i < ys.length
    · have apart : last ≠ v := by
        rintro rfl
        have := Option.some.inj (isLast.symm.trans found)
        omega
      simp only [List.set_append_left _ _ before, List.dropLast_concat,
        List.getElem?_set_self before, Function.update_of_ne apart, isLast, Option.map_some]
      refine ⟨_, rfl, holds.of_isSome (indexed.swap found before) (fun x => ?_)⟩
      show (Function.update (Function.update s.index v none) last (some i) x).isSome = true ↔ _
      by_cases moved : x = last
      · rw [moved, Function.update_self, isLast]
        exact ⟨fun _ => ⟨apart, rfl⟩, fun _ => rfl⟩
      · rw [Function.update_of_ne moved]
        by_cases same : x = v
        · rw [same, Function.update_self]
          exact ⟨nofun, fun both => absurd rfl both.1⟩
        · rw [Function.update_of_ne same, and_iff_right same]
    · have atEnd : i = ys.length := by omega
      have isV : last = v := by
        have isAt := (indexed v i).mp found
        rw [atEnd, List.getElem?_concat_length] at isAt
        exact Option.some.inj isAt
      simp only [atEnd, List.set_append_right _ _ (Nat.le_refl _), Nat.sub_self, List.set_cons_zero,
        List.dropLast_concat, List.getElem?_eq_none (Nat.le_refl _)]
      rw [← isV]
      refine ⟨_, rfl, holds.of_isSome indexed.dropLast (fun x => ?_)⟩
      show (Function.update s.index last none x).isSome = true ↔ _
      by_cases same : x = last
      · rw [same, Function.update_self]
        exact ⟨nofun, fun both => absurd rfl both.1⟩
      · rw [Function.update_of_ne same, and_iff_right same]

def run (calls : List Call) : Option OrderedSet := calls.foldlM call {}

def lastPresent (calls : List Call) : Bytes → Bool := calls.foldl noted (fun _ => false)

theorem Holds.call (holds : Holds s present) (c : Call) :
    ∃ s', s.call c = some s' ∧ Holds s' (noted present c) := by
  cases c with
  | insert v => exact ⟨_, rfl, (holds.insert v).2⟩
  | remove v =>
    obtain ⟨s', same, _, holds'⟩ := holds.remove v
    exact ⟨s', by rw [OrderedSet.call, same, Option.map_some], holds'⟩
  | swapRemove v =>
    obtain ⟨s', same, holds'⟩ := holds.swapRemove v
    exact ⟨s', by rw [OrderedSet.call, same, Option.map_some], holds'⟩

theorem Holds.run (holds : Holds s present) (calls : List Call) :
    ∃ s', calls.foldlM OrderedSet.call s = some s' ∧ Holds s' (calls.foldl noted present) := by
  induction calls generalizing s present with
  | nil => exact ⟨s, rfl, holds⟩
  | cons c calls ih =>
    obtain ⟨next, isNext, holds'⟩ := holds.call c
    rw [List.foldlM_cons, isNext]
    exact ih holds'

theorem run_holds (calls : List Call) : ∃ s, run calls = some s ∧ Holds s (lastPresent calls) :=
  Holds.run ⟨Indexed.nil, by intro v; simp⟩ calls

end OrderedSet

/-- After any calls the index and the entries correspond one to one, each key has the value last
inserted for it, and a removal leaves the others in their order. -/
theorem indexes_exact :
    (∀ calls, ∃ m, OrderedMap.run calls = some m ∧
      (∀ k i, m.index k = some i ↔ m.entries[i]?.map Prod.fst = some k) ∧
      (∀ k, m.get k = some (OrderedMap.lastValues calls k)) ∧
      ∀ k, ∃ m', m.remove k = some (m', (OrderedMap.lastValues calls k).isSome) ∧
        m'.entries = m.entries.filter (fun e => e.1 ≠ k)) ∧
    ∀ calls, ∃ s, OrderedSet.run calls = some s ∧
      (∀ v i, s.index v = some i ↔ s.items[i]? = some v) ∧
      (∀ v, s.contains v = OrderedSet.lastPresent calls v) ∧
      ∀ v, ∃ s', s.remove v = some (s', OrderedSet.lastPresent calls v) ∧
        s'.items = s.items.filter (fun x => x ≠ v) := by
  refine ⟨fun calls => ?_, fun calls => ?_⟩
  · obtain ⟨m, isRun, holds⟩ := OrderedMap.run_holds calls
    refine ⟨m, isRun, holds.indexed, holds.get, fun k => ?_⟩
    obtain ⟨m', isRemoved, left, _⟩ := holds.remove k
    exact ⟨m', isRemoved, left⟩
  · obtain ⟨s, isRun, holds⟩ := OrderedSet.run_holds calls
    refine ⟨s, isRun, fun v i => ?_, holds.contains, fun v => ?_⟩
    · rw [holds.indexed v i, Option.map_id_apply]
    · obtain ⟨s', isRemoved, left, _⟩ := holds.remove v
      exact ⟨s', isRemoved, left⟩

end NoidaDb.Redis.Ordered
