/-
Hashes, sets and sorted sets: how elements get into them.
-/

import NoidaDb.Redis.Scans

namespace NoidaDb.Redis

open Lib

structure Limits where
  entries : Nat
  value : Nat
  intset : Nat
deriving DecidableEq, Repr

namespace Hash

def put (k v : Bytes) : PairList → PairList
  | [] => [(k, v)]
  | e :: rest => if e.1 = k then (k, v) :: rest else e :: put k v rest

def insert (h : Hash) (k v : Bytes) (lim : Limits) : Hash :=
  let big := h.big || decide (lim.value < k.length) || decide (lim.value < v.length)
  let map := put k v h.map
  { map := map, big := big || decide (lim.entries < map.length) }

end Hash

namespace SetData

/-- `OrderedSet::insert`. -/
def append (items : List Bytes) (m : Bytes) : List Bytes :=
  if items.contains m then items else items ++ [m]

def create (first : Bytes) (sizeHint : Nat) (lim : Limits) : SetData :=
  if (parseInt first).isSome && decide (sizeHint ≤ lim.intset) then .ints []
  else if sizeHint ≤ lim.entries then .pack []
  else .hash []

def copied (s : SetData) : List Bytes := s.members.foldl append []

def add (s : SetData) (m : Bytes) (lim : Limits) : SetData :=
  match s with
  | .ints v =>
    match parseInt m with
    | some n =>
      if v.contains n then .ints v
      else
        let v := v.orderedInsert (· ≤ ·) n
        if lim.intset < v.length then .hash (copied (.ints v)) else .ints v
    | none =>
      let items := append (copied (.ints v)) m
      if v.length < lim.entries ∧ m.length ≤ lim.value then .pack items else .hash items
  | .pack items =>
    if items.contains m then .pack items
    else if items.length < lim.entries ∧ m.length ≤ lim.value then .pack (append items m)
    else .hash (append (copied (.pack items)) m)
  | .hash items => .hash (append items m)

end SetData

namespace F64

/-- `==`, which no NaN satisfies. -/
def same (x y : F64) : Bool := x.partialCmp y == some .eq

end F64

namespace Zset

/-- `cmp`: by score, then by member. -/
def cmp (a b : F64 × Bytes) : Ordering :=
  ((a.1.partialCmp b.1).getD .eq).then (compare a.2 b.2)

def place (items : List (F64 × Bytes)) (x : F64 × Bytes) : Nat :=
  items.findIdx (fun y => cmp y x != .lt)

/-- `pos`: the place of an item, or where it would go. A binary search of a sorted list finds no
other one; of other lists its answer is unspecified. -/
def pos (items : List (F64 × Bytes)) (x : F64 × Bytes) : Except Nat Nat :=
  let i := place items x
  match items[i]? with
  | some y => if cmp y x = .eq then .ok i else .error i
  | none => .error i

def target (items : List (F64 × Bytes)) (x : F64 × Bytes) : Nat :=
  match pos items x with
  | .ok i => i
  | .error i => i

def bigWith (z : Zset) (m : Bytes) (lim : Limits) : Bool :=
  z.big || decide (lim.entries < z.items.length + 1) || decide (lim.value < m.length)

def storedScore (big : Bool) (score : F64) : F64 :=
  if !big && score.same .zero then .zero else score

def put (z : Zset) (m : Bytes) (score : F64) (big : Bool) : Zset :=
  let score := storedScore big score
  { items := z.items.insertIdx (target z.items (score, m)) (score, m)
    scores := z.scores.insert m score
    big := big }

/-- Inserts the member or moves it: the set and whether the member is new; none if its old place
is not found. -/
def insert (z : Zset) (m : Bytes) (score : F64) (lim : Limits) : Option (Zset × Bool) :=
  match z.scores.get m with
  | some old =>
    if old.same score then some (z, false)
    else
      match pos z.items (old, m) with
      | .error _ => none
      | .ok i => some (put { z with items := z.items.eraseIdx i } m score z.big, false)
  | none => some (put z m score (z.bigWith m lim), true)

end Zset

end NoidaDb.Redis
