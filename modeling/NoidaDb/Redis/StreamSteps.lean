/-
What a command can do to a stream, as labelled steps.

A command is a chain of such steps on the stream of each key; the invariants of streams are
invariants of the steps.
-/

import NoidaDb.Lib.LabelledChains
import NoidaDb.Redis.PendingLists
import NoidaDb.Redis.StreamInfo

namespace NoidaDb.Redis

open Lib

inductive Label where
  /-- Entries are removed, or a group's pending lists change. -/
  | silent
  | add (id : Id)
  /-- XSETID. -/
  | setId (maxDeleted : Option Id)
  | create (group : Bytes) (counter : Option Int)
  | drop (group : Bytes)
  /-- XGROUP SETID. -/
  | place (group : Bytes) (counter : Option Int)
  /-- XCLAIM LASTID. -/
  | raise (group : Bytes)
  | deliver (group : Bytes) (id : Id)
deriving DecidableEq

structure Rehold (g g' : Group) : Prop where
  lastId : g'.lastId = g.lastId
  entriesRead : g'.entriesRead = g.entriesRead
  agree : g.Agree → g'.Agree

namespace Rehold

theorem refl (g : Group) : Rehold g g := ⟨rfl, rfl, id⟩

theorem trans {g h k : Group} (first : Rehold g h) (second : Rehold h k) : Rehold g k :=
  ⟨second.lastId.trans first.lastId, second.entriesRead.trans first.entriesRead,
    fun agree => second.agree (first.agree agree)⟩

end Rehold

inductive Stream.Step : Stream → Label → Stream → Prop where
  | add {s : Stream} {id : Id} {fields : Fields} (grows : s.lastId < id) :
      Step s (.add id) (s.append id fields)
  | remove {s : Stream} {id : Id} (stored : id ∈ s.entries.keys) :
      Step s .silent (s.removeEntry id)
  | setId {s s' : Stream} {id : Id} {entriesAdded : Option Nat} {maxDeleted : Option Id}
      (below : ∀ greatest ∈ maxDeleted, greatest ≤ id)
      (done : s.setId id entriesAdded maxDeleted = .ok s') : Step s (.setId maxDeleted) s'
  | create {s : Stream} {name : Bytes} {id : Id} {counter : Option Int}
      (free : s.groups.get name = none) :
      Step s (.create name counter) (s.setGroup name { lastId := id, entriesRead := counter })
  | drop {s : Stream} {name : Bytes} :
      Step s (.drop name) { s with groups := s.groups.erase name }
  | place {s : Stream} {name : Bytes} {g : Group} {id : Id} {counter : Option Int}
      (found : s.groups.get name = some g) :
      Step s (.place name counter)
        (s.setGroup name { g with lastId := id, entriesRead := counter })
  | raise {s : Stream} {name : Bytes} {g : Group} {id : Id} (found : s.groups.get name = some g) :
      Step s (.raise name) (s.setGroup name { g with lastId := id })
  | deliver {s : Stream} {name : Bytes} {g : Group} {id : Id}
      (found : s.groups.get name = some g) (stored : id ∈ s.entries.keys) (later : g.lastId < id)
      (next : ∀ j ∈ s.entries.keys, g.lastId < j → id ≤ j) :
      Step s (.deliver name id) (s.setGroup name (advance s g id))
  | rehold {s : Stream} {name : Bytes} {g g' : Group} (found : s.groups.get name = some g)
      (change : Rehold g g') : Step s .silent (s.setGroup name g')

abbrev Stream.Steps := Chain Stream.Step

def Data.stream? : Data → Option Stream
  | .stream s => some s
  | _ => none

namespace Db

def streamAt (db : Db) (key : Bytes) : Option Stream :=
  (db.map.get key).bind (fun e => e.data.stream?)

def Durable (db : Db) (key : Bytes) : Prop :=
  ∀ e, db.map.get key = some e → e.data.stream?.isSome → e.expiresAt = none

end Db

/-- From no stream or a stream at a key to what the steps make of it; a key that holds no stream
may get a new one. -/
def StepsFrom (before : Option Stream) (labels : List Label) (after : Option Stream) : Prop :=
  (after = before ∧ labels = []) ∨ ∃ s, after = some s ∧ Stream.Steps (before.getD {}) labels s

namespace StepsFrom

theorem refl (before : Option Stream) : StepsFrom before [] before := Or.inl ⟨rfl, rfl⟩

variable {labels : List Label}

theorem steps {s s' : Stream} (steps : Stream.Steps s labels s') :
    StepsFrom (some s) labels (some s') := Or.inr ⟨s', rfl, steps⟩

theorem trans {before middle after : Option Stream} {more : List Label}
    (first : StepsFrom before labels middle) (second : StepsFrom middle more after) :
    StepsFrom before (labels ++ more) after := by
  rcases first with ⟨isBefore, isNil⟩ | ⟨s, isMiddle, steps⟩
  · rw [isNil, List.nil_append, ← isBefore]
    exact second
  · rcases second with ⟨isMiddle', isNil⟩ | ⟨s', isAfter, steps'⟩
    · rw [isNil, List.append_nil, isMiddle', isMiddle]
      exact Or.inr ⟨s, rfl, steps⟩
    · rw [isMiddle] at steps'
      exact Or.inr ⟨s', isAfter, steps.append steps'⟩

theorem of_some {s : Stream} {after : Option Stream} (from' : StepsFrom (some s) labels after) :
    ∃ s', after = some s' ∧ s.Steps labels s' := by
  rcases from' with ⟨isBefore, isNil⟩ | found
  · exact ⟨s, isBefore, isNil ▸ .nil s⟩
  · exact found

end StepsFrom

/-- The database after a command: at each key, a chain of steps whose labels are as described. -/
def Evolves (described : Bytes → List Label → Prop) (db db' : Db) : Prop :=
  ∀ key, db.Durable key → db'.Durable key ∧
    ∃ labels, described key labels ∧ StepsFrom (db.streamAt key) labels (db'.streamAt key)

end NoidaDb.Redis
