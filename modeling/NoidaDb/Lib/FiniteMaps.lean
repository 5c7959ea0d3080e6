/-
Finite maps.

A map is a finite set of keys with a value for each of them.  Two maps that give every key
the same value are equal, so a map has no order of its own.
-/

import Mathlib.Data.Finset.Filter
import Mathlib.Data.Finset.Insert

namespace NoidaDb.Lib

structure FiniteMap (K V : Type) where
  keys : Finset K
  get : K → Option V
  mem_keys : ∀ k, k ∈ keys ↔ (get k).isSome = true

namespace FiniteMap

variable {K V : Type}

instance : CoeFun (FiniteMap K V) (fun _ => K → Option V) := ⟨get⟩

@[ext] theorem ext {m n : FiniteMap K V} (same : ∀ k, m.get k = n.get k) : m = n := by
  obtain ⟨keys, get, mem_keys⟩ := m
  obtain ⟨keys', get', mem_keys'⟩ := n
  have sameGet : get = get' := funext same
  subst sameGet
  have sameKeys : keys = keys' := by
    apply Finset.ext
    intro k
    exact (mem_keys k).trans (mem_keys' k).symm
  subst sameKeys
  rfl

def contains (m : FiniteMap K V) (k : K) : Bool := (m.get k).isSome

theorem contains_iff (m : FiniteMap K V) (k : K) : m.contains k = true ↔ k ∈ m.keys :=
  (m.mem_keys k).symm

def empty : FiniteMap K V where
  keys := ∅
  get := fun _ => none
  mem_keys := by simp

@[simp] theorem get_empty (k : K) : (empty : FiniteMap K V).get k = none := rfl

theorem eq_empty_iff (m : FiniteMap K V) : m = empty ↔ m.keys = ∅ := by
  constructor
  · intro same
    rw [same]
    rfl
  · intro noKeys
    apply ext
    intro k
    have absent : k ∉ m.keys := by simp [noKeys]
    rw [m.mem_keys] at absent
    simpa using absent

/-- The entries whose key satisfies `p`. -/
def restrict (m : FiniteMap K V) (p : K → Bool) : FiniteMap K V where
  keys := m.keys.filter (fun k => p k = true)
  get := fun k => if p k then m.get k else none
  mem_keys := by
    intro k
    by_cases holds : p k = true
    · simp [holds, m.mem_keys]
    · simp [holds]

@[simp] theorem get_restrict (m : FiniteMap K V) (p : K → Bool) (k : K) :
    (m.restrict p).get k = if p k then m.get k else none := rfl

def map {W : Type} (m : FiniteMap K V) (f : V → W) : FiniteMap K W where
  keys := m.keys
  get := fun k => (m.get k).map f
  mem_keys := by simp [m.mem_keys]

@[simp] theorem get_map {W : Type} (m : FiniteMap K V) (f : V → W) (k : K) :
    (m.map f).get k = (m.get k).map f := rfl

variable [DecidableEq K]

def insert (m : FiniteMap K V) (k : K) (v : V) : FiniteMap K V where
  keys := Insert.insert k m.keys
  get := fun j => if j = k then some v else m.get j
  mem_keys := by
    intro j
    by_cases same : j = k
    · simp [same]
    · simp [same, m.mem_keys]

@[simp] theorem get_insert (m : FiniteMap K V) (k j : K) (v : V) :
    (m.insert k v).get j = if j = k then some v else m.get j := rfl

def erase (m : FiniteMap K V) (k : K) : FiniteMap K V := m.restrict (fun j => decide (j ≠ k))

@[simp] theorem get_erase (m : FiniteMap K V) (k j : K) :
    (m.erase k).get j = if j = k then none else m.get j := by
  by_cases same : j = k
  · simp [erase, same]
  · simp [erase, same]

/-- The value of `old` goes to `new`, where there is one. -/
def rename (m : FiniteMap K V) (old new : K) : FiniteMap K V :=
  match m.get old with
  | some v => (m.erase old).insert new v
  | none => m

def collect (entries : List (K × V)) : FiniteMap K V :=
  entries.foldl (fun m x => m.insert x.1 x.2) empty

theorem get_foldl_insert (entries : List (K × V)) (m : FiniteMap K V) (k : K) :
    (entries.foldl (fun m x => m.insert x.1 x.2) m).get k =
      ((entries.reverse.find? (fun x => decide (x.1 = k))).map Prod.snd).or (m.get k) := by
  induction entries generalizing m with
  | nil => simp
  | cons x rest ih =>
    rw [List.foldl_cons, ih, List.reverse_cons, List.find?_append]
    cases rest.reverse.find? (fun x => decide (x.1 = k)) with
    | some later => simp
    | none =>
      by_cases same : x.1 = k
      · simp [same]
      · simp [same, Ne.symm same]

theorem get_collect (entries : List (K × V)) (k : K) :
    (collect entries).get k = (entries.reverse.find? (fun x => decide (x.1 = k))).map Prod.snd := by
  unfold collect
  rw [get_foldl_insert]
  simp

theorem mem_of_get_collect {entries : List (K × V)} {k : K} {v : V}
    (found : (collect entries).get k = some v) : (k, v) ∈ entries := by
  rw [get_collect] at found
  obtain ⟨x, isX, isValue⟩ := Option.map_eq_some_iff.mp found
  have isKey : x.1 = k := by simpa using List.find?_some isX
  have member := List.mem_reverse.mp (List.mem_of_find?_eq_some isX)
  rw [← isKey, ← isValue]
  exact member

end FiniteMap

/-- One entry for each key of the map, in any order; `related` says how an entry's value
stands for the map's. -/
structure Lists {K V W : Type} (related : V → W → Prop) (entries : List (K × W))
    (m : K → Option V) : Prop where
  distinct : (entries.map Prod.fst).Nodup
  stands : ∀ k w, (k, w) ∈ entries → ∃ v, m k = some v ∧ related v w
  covers : ∀ k v, m k = some v → ∃ w, (k, w) ∈ entries

/-- Entries read back give the map again, up to what `restore` makes of a value. -/
theorem Lists.get_collect {K V W U : Type} [DecidableEq K] {related : V → W → Prop}
    {entries : List (K × W)} {m : K → Option V} (lists : Lists related entries m)
    (restore : W → U) (restored : V → U)
    (agrees : ∀ v w, related v w → restore w = restored v) (k : K) :
    (FiniteMap.collect (entries.map (fun x => (x.1, restore x.2)))).get k = (m k).map restored := by
  rw [FiniteMap.get_collect]
  cases found : (entries.map (fun x => (x.1, restore x.2))).reverse.find?
      (fun x => decide (x.1 = k)) with
  | none =>
    cases isValue : m k with
    | none => rfl
    | some v =>
      obtain ⟨w, member⟩ := lists.covers k v isValue
      have absent := List.find?_eq_none.mp found (k, restore w) (by
        rw [List.mem_reverse]
        exact List.mem_map_of_mem member)
      simp at absent
  | some x =>
    have isKey : x.1 = k := by simpa using List.find?_some found
    obtain ⟨y, member, isRestored⟩ :=
      List.mem_map.mp (List.mem_reverse.mp (List.mem_of_find?_eq_some found))
    have sameKey : y.1 = k := by rw [← isKey, ← isRestored]
    obtain ⟨v, isValue, holds⟩ := lists.stands y.1 y.2 member
    rw [sameKey] at isValue
    rw [isValue, ← isRestored]
    simp [agrees v y.2 holds]

theorem Lists.collect_get {K V : Type} [DecidableEq K] {entries : List (K × V)} {m : K → Option V}
    (lists : Lists Eq entries m) : (FiniteMap.collect entries).get = m := by
  funext k
  have read := lists.get_collect id id (fun v w same => same.symm) k
  simpa using read

end NoidaDb.Lib
