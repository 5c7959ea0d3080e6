/-
Evicting keys until the memory in use is within `maxmemory`.

A hash map may be walked in any order, another one each time: the order is a parameter.
-/

import Mathlib.Data.List.MinMax
import NoidaDb.Lib.LabelledChains
import NoidaDb.Redis.Blocking
import NoidaDb.Redis.Scans

namespace NoidaDb.Redis

open Lib

def estimateData : Data → Nat
  | .str s => s.length + 16
  | .hash h => 64 + (h.map.map (fun e => e.1.length + e.2.length + 16)).sum
  | .list l => 64 + (l.map (fun e => e.length + 11)).sum
  | .set s => 64 + (s.members.map (fun m => m.length + 16)).sum
  | .zset z => 64 + (z.items.map (fun e => e.2.length + 24)).sum
  | .stream s => 128 + s.len * 64

def estimate (key : Bytes) (entry : Entry) : Nat := estimateData entry.data + key.length + 48

def total (f : Bytes × Entry → Nat) (dbs : Dbs) : Nat :=
  ((List.finRange numDbs).map (fun d => ((dbs d).map.entries.map f).sum)).sum

def baseMemory : Nat := 1000000

def usedMemory (dbs : Dbs) : Nat := baseMemory + total (fun e => estimate e.1 e.2) dbs

/-- The text of `maxmemory-policy`. -/
abbrev Policy := List Char

namespace Policy

def noEviction (policy : Policy) : Bool := policy == "noeviction".toList

def isVolatile (policy : Policy) : Bool := "volatile".toList.isPrefixOf policy

def kind (policy : Policy) : List Char := (policy.reverse.takeWhile (fun c => c != '-')).reverse

def eligible (policy : Policy) (entry : Entry) : Bool :=
  !(policy.isVolatile && entry.expiresAt.isNone)

def ranks (policy : Policy) : Bool :=
  policy.kind == "lru".toList || policy.kind == "lfu".toList || policy.kind == "ttl".toList

end Policy

namespace Db

/-- `access_of`, of a key that exists. -/
def accessOf (db : Db) (key : Bytes) : Nat × Nat := (db.access.get key).getD (0, 0)

end Db

structure Candidate where
  db : DbIndex
  key : Bytes
  entry : Entry

def evictionRank (policy : Policy) (dbs : Dbs) (used nth : Nat) (c : Candidate) : Nat ×ₗ Nat :=
  let access := (dbs c.db).accessOf c.key
  if policy.kind = "lru".toList then toLex (access.1, 0)
  else if policy.kind = "lfu".toList then toLex (access.2, access.1)
  else if policy.kind = "ttl".toList then toLex (c.entry.expiresAt.getD (2 ^ 64 - 1), 0)
  else toLex ((nth * 0x9E3779B97F4A7C15 % 2 ^ 64) ^^^ used, 0)

abbrev WalkOrder := Nat → DbIndex → Db → List (Bytes × Entry)

def candidates (order : WalkOrder) (n : Nat) (policy : Policy) (dbs : Dbs) : List Candidate :=
  ((List.finRange numDbs).flatMap (fun d =>
    (order n d (dbs d)).map (fun e => ⟨d, e.1, e.2⟩))).filter (fun c => policy.eligible c.entry)

def victim (order : WalkOrder) (n : Nat) (policy : Policy) (dbs : Dbs) (used : Nat) :
    Option Candidate :=
  (((candidates order n policy dbs).zipIdx 1).argmin
    (fun c => evictionRank policy dbs used c.2 c.1)).map Prod.fst

def removeKey (dbs : Dbs) (d : DbIndex) (key : Bytes) : Dbs :=
  Function.update dbs d ((dbs d).remove key)

/-- The loop of `perform_evictions`; none if the fuel runs out. -/
def evict (order : WalkOrder) (policy : Policy) (maxmemory : Nat) :
    Nat → Nat → Nat → Dbs → Option (Bool × Dbs)
  | 0, _, _, _ => none
  | fuel + 1, n, used, dbs =>
    if used ≤ maxmemory then some (true, dbs)
    else if policy.noEviction then some (false, dbs)
    else
      match victim order n policy dbs used with
      | none => some (false, dbs)
      | some c =>
        let size := (((dbs c.db).map.entries.find? (fun e => e.1 == c.key)).map
          (fun e => estimate e.1 e.2)).getD 0
        evict order policy maxmemory fuel (n + 1) (used - size) (removeKey dbs c.db c.key)

/-- `perform_evictions`: there is one round for each key, and one to find that none is left. -/
def performEvictions (order : WalkOrder) (policy : Policy) (maxmemory : Nat) (dbs : Dbs) :
    Option (Bool × Dbs) :=
  evict order policy maxmemory (total (fun _ => 1) dbs + 1) 0 (usedMemory dbs) dbs

theorem sum_filter_key {α K : Type} [LinearOrder K] (f : K × α → Nat) {xs : List (K × α)} {k : K}
    {v : α} (nodup : (xs.map Prod.fst).Nodup) (member : (k, v) ∈ xs) :
    (xs.map f).sum = f (k, v) + ((xs.filter (fun e => decide (e.1 ≠ k))).map f).sum := by
  induction xs with
  | nil => cases member
  | cons x xs ih =>
    rw [List.map_cons, List.nodup_cons] at nodup
    rcases List.mem_cons.mp member with isFirst | isLater
    · subst isFirst
      have others : xs.filter (fun e => decide (e.1 ≠ k)) = xs := by
        apply List.filter_eq_self.mpr
        intro e isIn
        apply decide_eq_true
        intro same
        apply nodup.1
        rw [← same]
        exact List.mem_map.mpr ⟨e, isIn, rfl⟩
      rw [List.filter_cons_of_neg (by simp), others, List.map_cons, List.sum_cons]
    · have different : x.1 ≠ k := by
        intro same
        apply nodup.1
        rw [same]
        exact List.mem_map_of_mem (f := Prod.fst) isLater
      rw [List.filter_cons_of_pos (by simpa using different), List.map_cons, List.sum_cons,
        List.map_cons, List.sum_cons, ih nodup.2 isLater]
      omega

theorem sum_erase {K V : Type} [LinearOrder K] (m : OrderedMap K V) (f : K × V → Nat) {k : K}
    {v : V} (found : m.get k = some v) :
    (m.entries.map f).sum = f (k, v) + ((m.erase k).entries.map f).sum := by
  rw [OrderedMap.entries_erase]
  exact sum_filter_key f m.keys_nodup ((m.mem_entries_iff k v).mpr found)

theorem sum_update {ι : Type} [DecidableEq ι] (f g : ι → Nat) {xs : List ι} {i : ι}
    (nodup : xs.Nodup) (member : i ∈ xs) (same : ∀ j, j ≠ i → g j = f j) :
    (xs.map f).sum + g i = (xs.map g).sum + f i := by
  induction xs with
  | nil => cases member
  | cons x xs ih =>
    rw [List.nodup_cons] at nodup
    simp only [List.map_cons, List.sum_cons]
    rcases List.mem_cons.mp member with isFirst | isLater
    · subst isFirst
      have others : xs.map g = xs.map f := by
        apply List.map_congr_left
        intro j isIn
        apply same
        intro isI
        exact nodup.1 (isI ▸ isIn)
      rw [others]
      omega
    · have different : x ≠ i := fun isI => nodup.1 (isI ▸ isLater)
      rw [same x different]
      have rest := ih nodup.2 isLater
      omega

theorem total_removeKey (f : Bytes × Entry → Nat) {dbs : Dbs} {d : DbIndex} {key : Bytes}
    {entry : Entry} (found : (dbs d).map.get key = some entry) :
    total f dbs = f (key, entry) + total f (removeKey dbs d key) := by
  have one := sum_erase (dbs d).map f found
  have all := sum_update (fun d => ((dbs d).map.entries.map f).sum)
    (fun d' => ((removeKey dbs d key d').map.entries.map f).sum)
    (List.nodup_finRange numDbs) (List.mem_finRange d) (by
      intro other different
      unfold removeKey
      rw [Function.update_of_ne different])
  have isRemoved : (removeKey dbs d key d).map = (dbs d).map.erase key := by
    unfold removeKey
    rw [Function.update_self]
    rfl
  simp only [isRemoved] at all
  unfold total
  omega

/-- An eviction: of a key that may go and, where the policy ranks, ranked before no other. -/
structure Evicts (policy : Policy) (dbs : Dbs) (c : Candidate) (dbs' : Dbs) : Prop where
  found : (dbs c.db).map.get c.key = some c.entry
  eligible : policy.eligible c.entry = true
  least : policy.ranks = true → ∀ c' : Candidate, (dbs c'.db).map.get c'.key = some c'.entry →
    policy.eligible c'.entry = true →
    evictionRank policy dbs 0 0 c ≤ evictionRank policy dbs 0 0 c'
  removed : dbs' = removeKey dbs c.db c.key

theorem evictionRank_eq {policy : Policy} (ranks : policy.ranks = true) (dbs : Dbs)
    (used nth : Nat) (c : Candidate) :
    evictionRank policy dbs used nth c = evictionRank policy dbs 0 0 c := by
  unfold evictionRank
  split
  · rfl
  · rename_i notLru
    split
    · rfl
    · rename_i notLfu
      split
      · rfl
      · rename_i notTtl
        simp only [Policy.ranks, Bool.or_eq_true, beq_iff_eq] at ranks
        rcases ranks with (isLru | isLfu) | isTtl
        · exact absurd isLru notLru
        · exact absurd isLfu notLfu
        · exact absurd isTtl notTtl

section

variable {order : WalkOrder} {policy : Policy} {dbs : Dbs} {n used : Nat}

theorem mem_candidates (perm : ∀ n d db, (order n d db).Perm db.map.entries) {c : Candidate} :
    c ∈ candidates order n policy dbs ↔
      (dbs c.db).map.get c.key = some c.entry ∧ policy.eligible c.entry = true := by
  unfold candidates
  rw [List.mem_filter, ← OrderedMap.mem_entries_iff]
  apply and_congr_left
  intro _
  rw [List.mem_flatMap]
  constructor
  · rintro ⟨d, _, isIn⟩
    obtain ⟨e, isEntry, isC⟩ := List.mem_map.mp isIn
    rw [← isC]
    exact (perm n d (dbs d)).mem_iff.mp isEntry
  · intro isEntry
    refine ⟨c.db, List.mem_finRange _, ?_⟩
    exact List.mem_map.mpr ⟨(c.key, c.entry), (perm n c.db (dbs c.db)).mem_iff.mpr isEntry, rfl⟩

theorem victim_evicts (perm : ∀ n d db, (order n d db).Perm db.map.entries) {c : Candidate}
    (isVictim : victim order n policy dbs used = some c) :
    Evicts policy dbs c (removeKey dbs c.db c.key) := by
  obtain ⟨found, isLeast, isC⟩ := Option.map_eq_some_iff.mp isVictim
  have isIn := List.argmin_mem isLeast
  obtain ⟨nth, _, isNth⟩ := List.mem_iff_getElem.mp isIn
  have isCandidate : c ∈ candidates order n policy dbs := by
    rw [← isC]
    exact List.fst_mem_of_mem_zipIdx isIn
  obtain ⟨isFound, eligible⟩ := (mem_candidates perm).mp isCandidate
  refine ⟨isFound, eligible, ?_, rfl⟩
  intro ranks c' isFound' eligible'
  have isCandidate' := (mem_candidates (n := n) perm).mpr ⟨isFound', eligible'⟩
  obtain ⟨i, within, isAt⟩ := List.mem_iff_getElem.mp isCandidate'
  have isIn' : (c', 1 + i) ∈ (candidates order n policy dbs).zipIdx 1 := by
    apply List.mem_iff_getElem.mpr
    refine ⟨i, by rw [List.length_zipIdx]; exact within, ?_⟩
    rw [List.getElem_zipIdx, isAt]
  have atMost := List.le_of_mem_argmin isIn' isLeast
  have sameRank := evictionRank_eq ranks dbs used
  generalize evictionRank policy dbs = rank at atMost sameRank ⊢
  rw [← sameRank found.2, ← sameRank (1 + i), ← isC]
  exact atMost

theorem no_victim (perm : ∀ n d db, (order n d db).Perm db.map.entries)
    (noVictim : victim order n policy dbs used = none) (d : DbIndex) (key : Bytes) (entry : Entry)
    (found : (dbs d).map.get key = some entry) : policy.eligible entry = false := by
  have isEmpty : candidates order n policy dbs = [] := by
    have noLeast := List.argmin_eq_none.mp (Option.map_eq_none_iff.mp noVictim)
    exact List.zipIdx_eq_nil_iff.mp noLeast
  cases eligible : policy.eligible entry with
  | false => rfl
  | true =>
    have member := (mem_candidates (c := ⟨d, key, entry⟩) (n := n) perm).mpr ⟨found, eligible⟩
    rw [isEmpty] at member
    cases member

theorem size_of_found {d : DbIndex} {key : Bytes} {entry : Entry}
    (found : (dbs d).map.get key = some entry) :
    (((dbs d).map.entries.find? (fun e => e.1 == key)).map (fun e => estimate e.1 e.2)).getD 0 =
      estimate key entry := by
  have isEntry := ((dbs d).map.mem_entries_iff key entry).mpr found
  cases isFind : (dbs d).map.entries.find? (fun e => e.1 == key) with
  | none =>
    have differs := List.find?_eq_none.mp isFind (key, entry) isEntry
    simp at differs
  | some e =>
    obtain ⟨key', entry'⟩ := e
    have sameKey : key' = key := by
      have isKey := List.find?_some isFind
      simpa using isKey
    have isEntry' := List.mem_of_find?_eq_some isFind
    rw [sameKey] at isEntry'
    have found' := ((dbs d).map.mem_entries_iff key entry').mp isEntry'
    rw [found] at found'
    cases found'
    rw [sameKey]
    rfl

theorem evict_spec (perm : ∀ n d db, (order n d db).Perm db.map.entries) (maxmemory fuel : Nat)
    (n : Nat) (dbs : Dbs) (enough : total (fun _ => 1) dbs < fuel) :
    ∃ ok dbs' removed, evict order policy maxmemory fuel n (usedMemory dbs) dbs = some (ok, dbs') ∧
      Chain (Evicts policy) dbs removed dbs' ∧
      (ok = true → usedMemory dbs' ≤ maxmemory) ∧
      (ok = false → policy.noEviction = true ∨
        ∀ d key entry, (dbs' d).map.get key = some entry → policy.eligible entry = false) := by
  induction fuel generalizing n dbs with
  | zero => exact absurd enough (Nat.not_lt_zero _)
  | succ fuel ih =>
    unfold evict
    split
    · rename_i within
      exact ⟨true, dbs, [], rfl, .nil dbs, fun _ => within, fun isFalse => by cases isFalse⟩
    · split
      · rename_i isNone
        exact ⟨false, dbs, [], rfl, .nil dbs, (fun isTrue => by cases isTrue),
          fun _ => Or.inl isNone⟩
      · split
        · rename_i noVictim
          exact ⟨false, dbs, [], rfl, .nil dbs, (fun isTrue => by cases isTrue),
            fun _ => Or.inr (no_victim perm noVictim)⟩
        · rename_i c isVictim
          have evicts := victim_evicts perm isVictim
          have sizes : total (fun e => estimate e.1 e.2) dbs = estimate c.key c.entry +
              total (fun e => estimate e.1 e.2) (removeKey dbs c.db c.key) :=
            total_removeKey _ evicts.found
          have counts : total (fun _ => 1) dbs =
              1 + total (fun _ => 1) (removeKey dbs c.db c.key) :=
            total_removeKey _ evicts.found
          have isUsed : usedMemory dbs - estimate c.key c.entry =
              usedMemory (removeKey dbs c.db c.key) := by
            unfold usedMemory
            omega
          simp only []
          rw [size_of_found evicts.found, isUsed]
          obtain ⟨ok, dbs', removed, isResult, chain, whenOk, whenNot⟩ :=
            ih (n + 1) (removeKey dbs c.db c.key) (by omega)
          exact ⟨ok, dbs', c :: removed, isResult, .cons evicts chain, whenOk, whenNot⟩

end

end NoidaDb.Redis
