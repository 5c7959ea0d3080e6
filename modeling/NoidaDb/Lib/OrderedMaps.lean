/-
Maps whose keys are kept in order.

The entries of a map are a list in strictly increasing order of their keys, so two maps with
the same lookups are the same map.
-/

import Mathlib.Data.List.Sort

namespace NoidaDb.Lib

structure OrderedMap (K V : Type) [LinearOrder K] where
  entries : List (K × V)
  sorted : entries.Pairwise (fun a b => a.1 < b.1)

namespace OrderedMap

variable {K V W : Type} [LinearOrder K]

def empty : OrderedMap K V where
  entries := []
  sorted := List.Pairwise.nil

instance : Inhabited (OrderedMap K V) := ⟨empty⟩

def keys (m : OrderedMap K V) : List K := m.entries.map Prod.fst

def size (m : OrderedMap K V) : Nat := m.entries.length

def isEmpty (m : OrderedMap K V) : Bool := m.entries.isEmpty

def get (m : OrderedMap K V) (k : K) : Option V := m.entries.lookup k

def contains (m : OrderedMap K V) (k : K) : Bool := (m.get k).isSome

def firstKey? (m : OrderedMap K V) : Option K := m.keys.head?

def lastKey? (m : OrderedMap K V) : Option K := m.keys.getLast?

def entriesFrom (m : OrderedMap K V) (low : K) : List (K × V) :=
  m.entries.filter (fun e => decide (low ≤ e.1))

theorem keys_sorted (m : OrderedMap K V) : m.keys.Pairwise (· < ·) := by
  unfold keys
  rw [List.pairwise_map]
  exact m.sorted

theorem keys_nodup (m : OrderedMap K V) : m.keys.Nodup :=
  m.keys_sorted.imp (fun less => ne_of_lt less)

variable {k : K} {entries : List (K × V)} {m : OrderedMap K V} {v : V}

theorem lookup_of_mem (sorted : entries.Pairwise (fun a b => a.1 < b.1))
    (member : (k, v) ∈ entries) : entries.lookup k = some v := by
  induction entries with
  | nil => cases member
  | cons e rest ih =>
    obtain ⟨first, later⟩ := List.pairwise_cons.mp sorted
    rcases List.mem_cons.mp member with isFirst | isLater
    · rw [← isFirst, List.lookup_cons_self]
    · have less := first (k, v) isLater
      rw [List.lookup_cons, beq_eq_false_iff_ne.mpr (ne_of_gt less)]
      exact ih later isLater

theorem mem_of_lookup (found : entries.lookup k = some v) : (k, v) ∈ entries := by
  induction entries with
  | nil => cases found
  | cons e rest ih =>
    rw [List.lookup_cons] at found
    by_cases same : k = e.1
    · rw [beq_iff_eq.mpr same] at found
      have isValue : e.2 = v := Option.some.inj found
      rw [same, ← isValue]
      exact List.mem_cons_self
    · rw [beq_eq_false_iff_ne.mpr same] at found
      exact List.mem_cons_of_mem e (ih found)

theorem mem_entries_iff (m : OrderedMap K V) (k : K) (v : V) :
    (k, v) ∈ m.entries ↔ m.get k = some v :=
  ⟨lookup_of_mem m.sorted, mem_of_lookup⟩

theorem mem_keys_iff (m : OrderedMap K V) (k : K) : k ∈ m.keys ↔ ∃ v, m.get k = some v := by
  unfold keys
  constructor
  · intro member
    obtain ⟨e, isEntry, same⟩ := List.mem_map.mp member
    rw [← same]
    exact ⟨e.2, (m.mem_entries_iff e.1 e.2).mp isEntry⟩
  · intro found
    obtain ⟨v, found⟩ := found
    exact List.mem_map_of_mem ((m.mem_entries_iff k v).mpr found)

theorem contains_iff (m : OrderedMap K V) (k : K) : m.contains k = true ↔ k ∈ m.keys := by
  rw [mem_keys_iff]
  exact Option.isSome_iff_exists

@[simp] theorem get_empty (k : K) : (empty : OrderedMap K V).get k = none := rfl

@[simp] theorem keys_empty : (empty : OrderedMap K V).keys = [] := rfl

@[simp] theorem size_empty : (empty : OrderedMap K V).size = 0 := rfl

theorem size_eq (m : OrderedMap K V) : m.size = m.keys.length := (List.length_map Prod.fst).symm

theorem isEmpty_iff (m : OrderedMap K V) : m.isEmpty = true ↔ m.keys = [] := by
  unfold isEmpty keys
  rw [List.isEmpty_iff, List.map_eq_nil_iff]

theorem ext {n : OrderedMap K V} (same : ∀ k, m.get k = n.get k) : m = n := by
  have entries : m.entries = n.entries := by
    apply List.Pairwise.eq_of_mem_iff (r := fun a b : K × V => a.1 < b.1) m.sorted n.sorted
    intro e
    rw [m.mem_entries_iff e.1 e.2, n.mem_entries_iff e.1 e.2, same]
  cases m
  cases n
  cases entries
  rfl

def insertEntry (k : K) (v : V) : List (K × V) → List (K × V)
  | [] => [(k, v)]
  | e :: rest =>
    if k < e.1 then (k, v) :: e :: rest
    else if k = e.1 then (k, v) :: rest
    else e :: insertEntry k v rest

theorem mem_insertEntry {e : K × V} (member : e ∈ insertEntry k v entries) :
    e = (k, v) ∨ e ∈ entries := by
  induction entries with
  | nil => exact Or.inl (List.mem_singleton.mp member)
  | cons f rest ih =>
    unfold insertEntry at member
    split at member
    · exact List.mem_cons.mp member
    · split at member
      · rcases List.mem_cons.mp member with isFirst | isLater
        · exact Or.inl isFirst
        · exact Or.inr (List.mem_cons_of_mem f isLater)
      · rcases List.mem_cons.mp member with isFirst | isLater
        · rw [isFirst]
          exact Or.inr List.mem_cons_self
        · rcases ih isLater with isNew | isOld
          · exact Or.inl isNew
          · exact Or.inr (List.mem_cons_of_mem f isOld)

theorem sorted_insertEntry (k : K) (v : V) (sorted : entries.Pairwise (fun a b => a.1 < b.1)) :
    (insertEntry k v entries).Pairwise (fun a b => a.1 < b.1) := by
  induction entries with
  | nil => exact List.pairwise_singleton _ _
  | cons e rest ih =>
    obtain ⟨first, later⟩ := List.pairwise_cons.mp sorted
    unfold insertEntry
    split
    · rename_i less
      apply List.pairwise_cons.mpr
      apply And.intro _ sorted
      intro f member
      rcases List.mem_cons.mp member with isFirst | isLater
      · rw [isFirst]
        exact less
      · exact lt_trans less (first f isLater)
    · rename_i notLess
      split
      · rename_i same
        apply List.pairwise_cons.mpr
        apply And.intro _ later
        intro f member
        show k < f.1
        rw [same]
        exact first f member
      · rename_i different
        apply List.pairwise_cons.mpr
        apply And.intro _ (ih later)
        intro f member
        rcases mem_insertEntry member with isNew | isOld
        · rw [isNew]
          exact lt_of_le_of_ne (not_lt.mp notLess) (Ne.symm different)
        · exact first f isOld

def insert (m : OrderedMap K V) (k : K) (v : V) : OrderedMap K V where
  entries := insertEntry k v m.entries
  sorted := sorted_insertEntry k v m.sorted

theorem lookup_insertEntry (k j : K) (v : V) (sorted : entries.Pairwise (fun a b => a.1 < b.1)) :
    (insertEntry k v entries).lookup j = if j = k then some v else entries.lookup j := by
  induction entries with
  | nil =>
    by_cases same : j = k
    · simp [insertEntry, same]
    · simp [insertEntry, same, List.lookup_cons, beq_eq_false_iff_ne.mpr same]
  | cons e rest ih =>
    obtain ⟨first, later⟩ := List.pairwise_cons.mp sorted
    unfold insertEntry
    by_cases same : j = k
    · rw [if_pos same]
      split
      · rw [same, List.lookup_cons_self]
      · split
        · rw [same, List.lookup_cons_self]
        · rename_i different
          rw [List.lookup_cons, beq_eq_false_iff_ne.mpr (same.symm ▸ different), ih later,
            if_pos same]
    · rw [if_neg same]
      split
      · rw [List.lookup_cons, beq_eq_false_iff_ne.mpr same]
      · split
        · rename_i isKey
          rw [List.lookup_cons, beq_eq_false_iff_ne.mpr same, List.lookup_cons,
            beq_eq_false_iff_ne.mpr (isKey ▸ same)]
        · rw [List.lookup_cons, List.lookup_cons, ih later, if_neg same]

@[simp] theorem get_insert (m : OrderedMap K V) (k j : K) (v : V) :
    (m.insert k v).get j = if j = k then some v else m.get j :=
  lookup_insertEntry k j v m.sorted

theorem entries_insert_last (m : OrderedMap K V) (above : ∀ j ∈ m.keys, j < k) (v : V) :
    (m.insert k v).entries = m.entries ++ [(k, v)] := by
  have general : ∀ entries : List (K × V), (∀ e ∈ entries, e.1 < k) →
      insertEntry k v entries = entries ++ [(k, v)] := by
    intro entries
    induction entries with
    | nil =>
      intro _
      rfl
    | cons e rest ih =>
      intro below
      obtain ⟨first, later⟩ := List.forall_mem_cons.mp below
      rw [insertEntry, if_neg (not_lt.mpr (le_of_lt first)), if_neg (ne_of_gt first), ih later,
        List.cons_append]
  exact general m.entries (fun e member => above e.1 (List.mem_map_of_mem member))

def filter (m : OrderedMap K V) (p : K → Bool) : OrderedMap K V where
  entries := m.entries.filter (fun e => p e.1)
  sorted := m.sorted.sublist List.filter_sublist

theorem mem_keys_filter (m : OrderedMap K V) (p : K → Bool) (k : K) :
    k ∈ (m.filter p).keys ↔ k ∈ m.keys ∧ p k = true := by
  simp only [keys, filter, List.mem_map, List.mem_filter]
  constructor
  · rintro ⟨e, ⟨member, holds⟩, rfl⟩
    exact ⟨⟨e, member, rfl⟩, holds⟩
  · rintro ⟨⟨e, member, rfl⟩, holds⟩
    exact ⟨e, ⟨member, holds⟩, rfl⟩

theorem keys_filter (m : OrderedMap K V) (p : K → Bool) : (m.filter p).keys = m.keys.filter p := by
  unfold keys filter
  rw [List.filter_map]
  rfl

@[simp] theorem get_filter (m : OrderedMap K V) (p : K → Bool) (k : K) :
    (m.filter p).get k = if p k = true then m.get k else none := by
  have same : ∀ v, (m.filter p).get k = some v ↔ (if p k = true then m.get k else none) = some v := by
    intro v
    rw [← mem_entries_iff]
    show (k, v) ∈ m.entries.filter (fun e => p e.1) ↔ _
    rw [List.mem_filter, mem_entries_iff]
    by_cases holds : p k = true
    · simp [holds]
    · simp [holds]
  exact Option.ext same

def erase (m : OrderedMap K V) (k : K) : OrderedMap K V := m.filter (fun j => decide (j ≠ k))

@[simp] theorem get_erase (m : OrderedMap K V) (k j : K) :
    (m.erase k).get j = if j = k then none else m.get j := by
  unfold erase
  rw [get_filter]
  by_cases same : j = k
  · simp [same]
  · simp [same]

theorem entries_erase (m : OrderedMap K V) (k : K) :
    (m.erase k).entries = m.entries.filter (fun e => decide (e.1 ≠ k)) := rfl

def update (m : OrderedMap K V) (k : K) (change : V → V) : OrderedMap K V where
  entries := m.entries.map (fun e => if e.1 = k then (e.1, change e.2) else e)
  sorted := by
    rw [List.pairwise_map]
    apply m.sorted.imp
    intro a b less
    split
    · split
      · exact less
      · exact less
    · split
      · exact less
      · exact less

@[simp] theorem keys_update (m : OrderedMap K V) (k : K) (change : V → V) :
    (m.update k change).keys = m.keys := by
  unfold keys update
  rw [List.map_map]
  apply List.map_congr_left
  intro e _
  show (if e.1 = k then (e.1, change e.2) else e).1 = e.1
  split
  · rfl
  · rfl

@[simp] theorem get_update (m : OrderedMap K V) (k j : K) (change : V → V) :
    (m.update k change).get j = if j = k then (m.get j).map change else m.get j := by
  have general : ∀ entries : List (K × V),
      (entries.map (fun e => if e.1 = k then (e.1, change e.2) else e)).lookup j =
        if j = k then (entries.lookup j).map change else entries.lookup j := by
    intro entries
    induction entries with
    | nil => simp
    | cons e rest ih =>
      rw [List.map_cons, List.lookup_cons, List.lookup_cons, ih]
      by_cases isKey : e.1 = k
      · rw [if_pos isKey]
        by_cases same : j = k
        · simp [same, isKey]
        · simp [same, isKey, beq_eq_false_iff_ne.mpr same]
      · rw [if_neg isKey]
        by_cases same : j = k
        · have different : j ≠ e.1 := fun isEntry => isKey (isEntry.symm.trans same)
          simp [same, beq_eq_false_iff_ne.mpr (same ▸ different)]
        · simp [same]
  exact general m.entries

theorem mem_keys_insert (m : OrderedMap K V) (k j : K) (v : V) :
    j ∈ (m.insert k v).keys ↔ j = k ∨ j ∈ m.keys := by
  rw [mem_keys_iff, mem_keys_iff, get_insert]
  by_cases same : j = k
  · simp [same]
  · simp [same]

theorem mem_keys_erase (m : OrderedMap K V) (k j : K) :
    j ∈ (m.erase k).keys ↔ j ≠ k ∧ j ∈ m.keys := by
  unfold erase
  rw [mem_keys_filter]
  simp [and_comm]

theorem firstKey?_le {j : K} (isFirst : m.firstKey? = some k) (member : j ∈ m.keys) : k ≤ j := by
  have sorted := m.keys_sorted
  unfold firstKey? at isFirst
  cases isKeys : m.keys with
  | nil =>
    rw [isKeys] at member
    cases member
  | cons x rest =>
    rw [isKeys] at isFirst member sorted
    have isHead : x = k := Option.some.inj isFirst
    rcases List.mem_cons.mp member with same | later
    · rw [same, isHead]
    · rw [← isHead]
      exact le_of_lt ((List.pairwise_cons.mp sorted).1 j later)

theorem le_lastKey? {j : K} (isLast : m.lastKey? = some k) (member : j ∈ m.keys) : j ≤ k := by
  obtain ⟨before, isKeys⟩ := List.getLast?_eq_some_iff.mp isLast
  have sorted := m.keys_sorted
  rw [isKeys] at member sorted
  rcases List.mem_append.mp member with earlier | same
  · exact le_of_lt ((List.pairwise_append.mp sorted).2.2 j earlier k (List.mem_singleton.mpr rfl))
  · rw [List.mem_singleton.mp same]

theorem firstKey?_mem (isFirst : m.firstKey? = some k) : k ∈ m.keys :=
  List.mem_of_head? isFirst

end OrderedMap

end NoidaDb.Lib
