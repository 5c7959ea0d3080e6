/-
The access data of the keys, over everything that happens to the databases.

Only the operations below reach the map and the access data of a database; commands are made of
them.
-/

import NoidaDb.Redis.Eviction

namespace NoidaDb.Redis

open Lib

inductive DbOp where
  | get (key : Bytes) (now : Nat)
  | peek (key : Bytes) (now : Nat)
  | remove (key : Bytes)
  | insert (key : Bytes) (entry : Entry) (now : Nat)
  | change (key : Bytes) (f : Entry → Entry)
  | changeAll (f : Bytes → Entry → Entry)
  | purge (now : Nat)
  | clear
  | signal (key : Bytes)
  | takeAdded
  | setLazy (lazyOnly : Bool)
  | load (map : OrderedMap Bytes Entry)

namespace Db

def clear (db : Db) : Db := { db with map := .empty }

def mapEntries (map : OrderedMap Bytes Entry) (f : Bytes → Entry → Entry) :
    OrderedMap Bytes Entry where
  entries := map.entries.map (fun e => (e.1, f e.1 e.2))
  sorted := by
    rw [List.pairwise_map]
    exact map.sorted

end Db

namespace DbOp

def apply : DbOp → Db → Db
  | get key now, db => db.touch key now
  | peek key now, db => db.dropExpired key now
  | remove key, db => db.remove key
  | insert key entry now, db => db.insert key entry now
  | change key f, db => { db with map := db.map.update key f }
  | changeAll f, db => { db with map := Db.mapEntries db.map f }
  | purge now, db => db.purgeExpired now
  | clear, db => db.clear
  | signal key, db => db.signalReady key
  | takeAdded, db => { db with added := [] }
  | setLazy lazyOnly, db => { db with lazyExpireOnly := lazyOnly }
  | load map, _ => { map := map }

def Tidy (db : Db) : DbOp → Prop
  | purge now =>
    db.lazyExpireOnly = true ∨ ∀ key ∈ db.expiredKeys now, key ∉ db.access.keys
  | clear => db.access.keys = []
  | _ => True

end DbOp

def Db.AccessWithin (db : Db) : Prop := ∀ key ∈ db.access.keys, key ∈ db.map.keys

namespace Db.AccessWithin

variable {db : Db}

theorem dropExpired (within : db.AccessWithin) (key : Bytes) (now : Nat) :
    (db.dropExpired key now).AccessWithin := by
  unfold Db.dropExpired
  split
  · intro k isAccess
    obtain ⟨different, isAccess'⟩ := (OrderedMap.mem_keys_erase _ _ _).mp isAccess
    exact (OrderedMap.mem_keys_erase _ _ _).mpr ⟨different, within k isAccess'⟩
  · exact within

theorem touch (within : db.AccessWithin) (key : Bytes) (now : Nat) :
    (db.touch key now).AccessWithin := by
  have dropped := within.dropExpired key now
  unfold Db.touch
  simp only []
  split
  · exact dropped
  · rename_i e found
    intro k isAccess
    rcases (OrderedMap.mem_keys_insert _ _ _ _).mp isAccess with isKey | isAccess'
    · rw [isKey]
      exact (OrderedMap.mem_keys_iff _ _).mpr ⟨e, found⟩
    · exact dropped k isAccess'

theorem remove (within : db.AccessWithin) (key : Bytes) : (db.remove key).AccessWithin := by
  intro k isAccess
  obtain ⟨different, isAccess'⟩ := (OrderedMap.mem_keys_erase _ _ _).mp isAccess
  exact (OrderedMap.mem_keys_erase _ _ _).mpr ⟨different, within k isAccess'⟩

theorem insert (within : db.AccessWithin) (key : Bytes) (entry : Entry) (now : Nat) :
    (db.insert key entry now).AccessWithin := by
  intro k isAccess
  rcases (OrderedMap.mem_keys_insert _ _ _ _).mp isAccess with isKey | isAccess'
  · exact (OrderedMap.mem_keys_insert _ _ _ _).mpr (Or.inl isKey)
  · exact (OrderedMap.mem_keys_insert _ _ _ _).mpr (Or.inr (within k isAccess'))

theorem purgeExpired_iff (within : db.AccessWithin) (now : Nat) :
    (db.purgeExpired now).AccessWithin ↔
      db.lazyExpireOnly = true ∨ ∀ key ∈ db.expiredKeys now, key ∉ db.access.keys := by
  unfold Db.purgeExpired
  cases isLazy : db.lazyExpireOnly with
  | true => simpa using within
  | false =>
    simp only [Bool.false_eq_true, if_false, false_or]
    constructor
    · intro after key expired isAccess
      obtain ⟨_, isExpired⟩ := List.mem_filter.mp expired
      obtain ⟨_, kept⟩ := (OrderedMap.mem_keys_filter _ _ _).mp (after key isAccess)
      rw [isExpired] at kept
      cases kept
    · intro tidy key isAccess
      have isKey := within key isAccess
      apply (OrderedMap.mem_keys_filter _ _ _).mpr
      refine ⟨isKey, ?_⟩
      cases isExpired : db.expiredAt key now with
      | false => rfl
      | true => exact absurd isAccess (tidy key (List.mem_filter.mpr ⟨isKey, isExpired⟩))

theorem clear_iff : db.clear.AccessWithin ↔ db.access.keys = [] := by
  constructor
  · intro after
    apply List.eq_nil_iff_forall_not_mem.mpr
    intro key isAccess
    have isKey := after key isAccess
    cases isKey
  · intro isNil key isAccess
    change key ∈ db.access.keys at isAccess
    rw [isNil] at isAccess
    cases isAccess

theorem apply_iff (within : db.AccessWithin) (op : DbOp) :
    (op.apply db).AccessWithin ↔ op.Tidy db := by
  cases op with
  | get key now => exact iff_of_true (within.touch key now) trivial
  | peek key now => exact iff_of_true (within.dropExpired key now) trivial
  | remove key => exact iff_of_true (within.remove key) trivial
  | insert key entry now => exact iff_of_true (within.insert key entry now) trivial
  | change key f =>
    apply iff_of_true _ trivial
    intro k isAccess
    show k ∈ (db.map.update key f).keys
    rw [OrderedMap.keys_update]
    exact within k isAccess
  | changeAll f =>
    apply iff_of_true _ trivial
    have sameKeys : (Db.mapEntries db.map f).keys = db.map.keys := by
      unfold Db.mapEntries OrderedMap.keys
      rw [List.map_map]
      rfl
    intro k isAccess
    show k ∈ (Db.mapEntries db.map f).keys
    rw [sameKeys]
    exact within k isAccess
  | purge now => exact within.purgeExpired_iff now
  | clear => exact clear_iff
  | signal key => exact iff_of_true within trivial
  | takeAdded => exact iff_of_true within trivial
  | setLazy lazyOnly => exact iff_of_true within trivial
  | load map =>
    apply iff_of_true _ trivial
    intro k isAccess
    cases isAccess

end Db.AccessWithin

inductive DbsOp where
  | on (d : DbIndex) (op : DbOp)
  | swap (x y : DbIndex)
  | evict (order : WalkOrder) (policy : Policy) (maxmemory : Nat)

namespace DbsOp

def apply : DbsOp → Dbs → Dbs
  | on d op, dbs => Function.update dbs d (op.apply (dbs d))
  | swap x y, dbs => fun d => dbs (Equiv.swap x y d)
  | evict order policy maxmemory, dbs =>
    ((performEvictions order policy maxmemory dbs).map Prod.snd).getD dbs

def Tidy (dbs : Dbs) : DbsOp → Prop
  | on d op => op.Tidy (dbs d)
  | _ => True

def TidyRun : List DbsOp → Dbs → Prop
  | [], _ => True
  | op :: ops, dbs => op.Tidy dbs ∧ TidyRun ops (op.apply dbs)

def states : List DbsOp → Dbs → List Dbs
  | [], dbs => [dbs]
  | op :: ops, dbs => dbs :: states ops (op.apply dbs)

end DbsOp

def AccessWithin (dbs : Dbs) : Prop := ∀ d, (dbs d).AccessWithin

namespace AccessWithin

variable {dbs : Dbs}

theorem removeKey (within : AccessWithin dbs) (d : DbIndex) (key : Bytes) :
    AccessWithin (removeKey dbs d key) := by
  intro other
  unfold Redis.removeKey
  by_cases same : other = d
  · subst same
    rw [Function.update_self]
    exact (within other).remove key
  · rw [Function.update_of_ne same]
    exact within other

theorem evict {order : WalkOrder} {policy : Policy} {maxmemory : Nat} (fuel n used : Nat)
    (within : AccessWithin dbs) :
    ∀ result ∈ evict order policy maxmemory fuel n used dbs, AccessWithin result.2 := by
  induction fuel generalizing n used dbs with
  | zero =>
    intro result isResult
    cases isResult
  | succ fuel ih =>
    intro result isResult
    unfold Redis.evict at isResult
    split at isResult
    · cases isResult
      exact within
    · split at isResult
      · cases isResult
        exact within
      · split at isResult
        · cases isResult
          exact within
        · exact ih _ _ (within.removeKey _ _) result isResult

theorem apply_iff (within : AccessWithin dbs) (op : DbsOp) :
    AccessWithin (op.apply dbs) ↔ op.Tidy dbs := by
  cases op with
  | on d op =>
    have one := (within d).apply_iff op
    constructor
    · intro after
      have at' := after d
      change (Function.update dbs d (op.apply (dbs d)) d).AccessWithin at at'
      rw [Function.update_self] at at'
      exact one.mp at'
    · intro tidy other
      show (Function.update dbs d (op.apply (dbs d)) other).AccessWithin
      by_cases same : other = d
      · subst same
        rw [Function.update_self]
        exact one.mpr tidy
      · rw [Function.update_of_ne same]
        exact within other
  | swap x y =>
    apply iff_of_true _ trivial
    intro d
    exact within _
  | evict order policy maxmemory =>
    apply iff_of_true _ trivial
    show AccessWithin (((performEvictions order policy maxmemory dbs).map Prod.snd).getD dbs)
    cases isResult : performEvictions order policy maxmemory dbs with
    | none => exact within
    | some result => exact evict _ _ _ within result isResult

theorem states_iff (within : AccessWithin dbs) (ops : List DbsOp) :
    (∀ dbs' ∈ DbsOp.states ops dbs, AccessWithin dbs') ↔ DbsOp.TidyRun ops dbs := by
  induction ops generalizing dbs with
  | nil =>
    apply iff_of_true _ trivial
    intro dbs' member
    rw [List.mem_singleton.mp member]
    exact within
  | cons op ops ih =>
    constructor
    · intro all
      obtain ⟨_, later⟩ := List.forall_mem_cons.mp all
      have first : AccessWithin (op.apply dbs) := by
        apply later
        cases ops with
        | nil => exact List.mem_cons_self
        | cons _ _ => exact List.mem_cons_self
      exact ⟨(within.apply_iff op).mp first, (ih first).mp later⟩
    · intro tidy
      have after := (within.apply_iff op).mpr tidy.1
      exact List.forall_mem_cons.mpr ⟨within, (ih after).mpr tidy.2⟩

end AccessWithin

theorem accessWithin_empty : AccessWithin (fun _ => {}) := by
  intro d key isAccess
  cases isAccess

/-- Evictions end, take only keys that may go and of the lowest rank, and stop when they should; the
access data is of keys that exist exactly if no step removes a key alone. -/
theorem evictions_follow (order : WalkOrder)
    (perm : ∀ n d db, (order n d db).Perm db.map.entries) :
    (∀ policy maxmemory dbs, ∃ ok dbs' removed,
      performEvictions order policy maxmemory dbs = some (ok, dbs') ∧
      Chain (Evicts policy) dbs removed dbs' ∧
      (ok = true → usedMemory dbs' ≤ maxmemory) ∧
      (ok = false → policy.noEviction = true ∨
        ∀ d key entry, (dbs' d).map.get key = some entry → policy.eligible entry = false)) ∧
    ∀ ops, (∀ dbs ∈ DbsOp.states ops (fun _ => {}), AccessWithin dbs) ↔
      DbsOp.TidyRun ops (fun _ => {}) := by
  constructor
  · intro policy maxmemory dbs
    exact evict_spec perm maxmemory _ 0 dbs (Nat.lt_succ_self _)
  · exact AccessWithin.states_iff accessWithin_empty

def removed : List DbsOp :=
  [.on 0 (.insert (ascii "k") { data := .str [] } 1), .on 0 (.remove (ascii "k"))]

def oneKey : Dbs := fun d =>
  if d = 0 then ({} : Db).insert (ascii "k") { data := .str [] } 1 else {}

/-- The databases alone take up the limit, so the key has to go. -/
theorem evictions_follow_removed :
    (∃ ok dbs' evicted,
      performEvictions (fun _ _ db => db.map.entries) "allkeys-lru".toList baseMemory oneKey =
        some (ok, dbs') ∧
      Chain (Evicts "allkeys-lru".toList) oneKey evicted dbs' ∧ evicted ≠ []) ∧
      ∀ dbs ∈ DbsOp.states removed (fun _ => {}), AccessWithin dbs := by
  have follows := evictions_follow (fun _ _ db => db.map.entries)
    (fun _ _ db => List.Perm.refl db.map.entries)
  constructor
  · obtain ⟨ok, dbs', evicted, isResult, chain, fits, stuck⟩ :=
      follows.1 "allkeys-lru".toList baseMemory oneKey
    refine ⟨ok, dbs', evicted, isResult, chain, ?_⟩
    rintro rfl
    cases chain
    cases ok with
    | true => exact absurd (fits rfl) (by decide)
    | false =>
      rcases stuck rfl with policy | nothing
      · exact absurd policy (by decide)
      · exact absurd (nothing 0 (ascii "k") { data := .str [] } (by rfl)) (by decide)
  · exact (follows.2 removed).mpr ⟨trivial, trivial, trivial⟩

def flushed : List DbsOp := [.on 0 (.insert (ascii "k") { data := .str [] } 1), .on 0 .clear]

theorem access_stale :
    ∃ dbs ∈ DbsOp.states flushed (fun _ => {}), ¬AccessWithin dbs := by
  refine ⟨DbsOp.apply (.on 0 .clear)
    (DbsOp.apply (.on 0 (.insert (ascii "k") { data := .str [] } 1)) (fun _ => {})), ?_, ?_⟩
  · exact List.mem_cons_of_mem _ (List.mem_cons_of_mem _ List.mem_cons_self)
  · intro within
    have isAccess : ascii "k" ∈ ((DbsOp.apply (.on 0 .clear)
        (DbsOp.apply (.on 0 (.insert (ascii "k") { data := .str [] } 1)) (fun _ => {}))) 0).access.keys := by
      decide
    have isKey := within 0 (ascii "k") isAccess
    cases isKey

end NoidaDb.Redis
