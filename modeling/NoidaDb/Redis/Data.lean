/-
Values, entries and databases.

Maps are kept in the order of their keys, whatever order a hash map would be walked in.
-/

import NoidaDb.Lib.OrderedMaps
import NoidaDb.Redis.Bytes

namespace NoidaDb.Redis

open Lib

structure Id where
  ms : U64
  seq : U64
deriving DecidableEq, Repr

namespace Id

/-- By milliseconds, then by sequence number. -/
instance : LinearOrder Id :=
  LinearOrder.lift' (fun id => toLex (id.ms, id.seq)) (fun a b same => by
    cases a
    cases b
    cases same
    rfl)

theorem lt_iff (a b : Id) : a < b ↔ a.ms < b.ms ∨ a.ms = b.ms ∧ a.seq < b.seq :=
  Prod.Lex.toLex_lt_toLex

def zero : Id := ⟨0, 0⟩

def maxU64 : U64 := Fin.last _

def max : Id := ⟨maxU64, maxU64⟩

end Id

abbrev Fields := List Bytes

/-- A pending entry: who holds it, since when, and how often it was delivered. -/
structure Nack where
  consumer : Bytes
  deliveryTime : Nat
  deliveryCount : Nat
deriving DecidableEq, Repr

structure Consumer where
  seenTime : Nat
  activeTime : Nat
  pending : OrderedMap Id Unit := .empty

structure Group where
  lastId : Id := .zero
  /-- None is the invalid counter. -/
  entriesRead : Option Int := none
  pending : OrderedMap Id Nack := .empty
  consumers : OrderedMap Bytes Consumer := .empty

structure Stream where
  entries : OrderedMap Id Fields := .empty
  lastId : Id := .zero
  maxDeletedId : Id := .zero
  entriesAdded : Nat := 0
  groups : OrderedMap Bytes Group := .empty

abbrev PairList := List (Bytes × Bytes)

structure Hash where
  map : PairList := []
  big : Bool := false
deriving DecidableEq, Repr

inductive SetData where
  /-- Sorted integers. -/
  | ints (v : List Int)
  /-- In the order of insertion. -/
  | pack (items : List Bytes)
  | hash (items : List Bytes)
deriving DecidableEq, Repr

structure Zset where
  items : List (F64 × Bytes) := []
  scores : OrderedMap Bytes F64 := .empty
  big : Bool := false

inductive Data where
  | str (s : Bytes)
  | hash (h : Hash)
  | list (l : List Bytes)
  | set (s : SetData)
  | zset (z : Zset)
  | stream (s : Stream)

structure Entry where
  data : Data
  /-- Unix milliseconds. -/
  expiresAt : Option Nat := none

namespace Entry

def isExpired (e : Entry) (now : Nat) : Bool := e.expiresAt.any (fun at' => decide (at' < now))

end Entry

structure Db where
  map : OrderedMap Bytes Entry := .empty
  /-- Last access and number of accesses of each key. -/
  access : OrderedMap Bytes (Nat × Nat) := .empty
  /-- Keys added since the engine last looked. -/
  added : List Bytes := []
  lazyExpireOnly : Bool := false

namespace Db

/-- `saturating_add(1)` of a byte. -/
def countAccess (n : Nat) : Nat := min 255 (n + 1)

def dropExpired (db : Db) (key : Bytes) (now : Nat) : Db :=
  if (db.map.get key).any (fun e => e.isExpired now) then
    { db with map := db.map.erase key, access := db.access.erase key }
  else db

def touch (db : Db) (key : Bytes) (now : Nat) : Db :=
  let db := db.dropExpired key now
  match db.map.get key with
  | none => db
  | some _ =>
    let count := ((db.access.get key).map Prod.snd).getD 0
    { db with access := db.access.insert key (now, countAccess count) }

def find (db : Db) (key : Bytes) (now : Nat) : Option Entry :=
  (db.map.get key).filter (fun e => !e.isExpired now)

def insert (db : Db) (key : Bytes) (entry : Entry) (now : Nat) : Db :=
  let count := ((db.access.get key).map Prod.snd).getD 0
  { db with
    added := db.added ++ [key]
    access := db.access.insert key (now, countAccess count)
    map := db.map.insert key entry }

def setData (db : Db) (key : Bytes) (data : Data) : Db :=
  { db with map := db.map.update key (fun e => { e with data := data }) }

def signalReady (db : Db) (key : Bytes) : Db := { db with added := db.added ++ [key] }

def remove (db : Db) (key : Bytes) : Db :=
  { db with access := db.access.erase key, map := db.map.erase key }

end Db

end NoidaDb.Redis
