/-
Runs of stream commands, and the invariants of the stream at a key.
-/

import NoidaDb.Redis.CallEffects

namespace NoidaDb.Redis

open Lib

abbrev Call := Ctx × List Bytes

def typed (now : U64) (words : List String) : Call :=
  ({ now := now, wall := now }, words.map ascii)

def runCalls (calls : List Call) (db : Db) : Db :=
  calls.foldl (fun db c => (call c.1 c.2 db).2) db

def addedIn (key : Bytes) : List Call → Db → List Id
  | [], _ => []
  | c :: calls, db => addedBy key c.2 (call c.1 c.2 db).1 ++ addedIn key calls (call c.1 c.2 db).2

/-- The key has no stream and nothing was added, or the invariant holds of its stream. -/
def Tracked (inv : List Id → Stream → Prop) (added : List Id) (at' : Option Stream) : Prop :=
  (at' = none ∧ added = []) ∨ ∃ s, at' = some s ∧ inv added s

section

variable {inv : List Id → Stream → Prop} {allowed : Label → Prop} {key : Bytes}

theorem Tracked.stepsFrom (start : inv [] {})
    (kept : ∀ added s l t, allowed l → Stream.Step s l t → inv added s → inv (added ++ adds [l]) t)
    {before after : Option Stream} {labels : List Label} {added : List Id}
    (tracked : Tracked inv added before) (steps : StepsFrom before labels after)
    (permitted : ∀ l ∈ labels, allowed l) : Tracked inv (added ++ adds labels) after := by
  have record : ∀ labels added, labels.foldl (fun h l => h ++ adds [l]) added =
      added ++ adds labels := by
    intro labels
    induction labels with
    | nil => simp [adds]
    | cons l labels ih =>
      intro added
      rw [List.foldl_cons, ih, List.append_assoc]
      congr 1
      exact (adds_append [l] labels).symm
  rcases steps with ⟨isBefore, isNil⟩ | ⟨t, isAfter, steps⟩
  · rw [isBefore, isNil]
    show Tracked inv (added ++ []) before
    rw [List.append_nil]
    exact tracked
  · have holds : inv added (before.getD {}) := by
      rcases tracked with ⟨isNone, isNil⟩ | ⟨s, isSome, holds⟩
      · rw [isNone, isNil]
        exact start
      · rw [isSome]
        exact holds
    have final := steps.invariant (fun h l => h ++ adds [l])
      (fun h s l t => kept h s l t) permitted added holds
    rw [record] at final
    exact Or.inr ⟨t, isAfter, final⟩

theorem Tracked.runCalls (start : inv [] {})
    (kept : ∀ added s l t, allowed l → Stream.Step s l t → inv added s → inv (added ++ adds [l]) t)
    (calls : List Call) (permitted : ∀ c ∈ calls, ∀ l, Permits c.2 l → allowed l) (db : Db)
    (durable : db.Durable key) (added : List Id) (tracked : Tracked inv added (db.streamAt key)) :
    Tracked inv (added ++ addedIn key calls db) ((runCalls calls db).streamAt key) := by
  induction calls generalizing db added with
  | nil =>
    show Tracked inv (added ++ []) _
    rw [List.append_nil]
    exact tracked
  | cons c calls ih =>
    obtain ⟨first, later⟩ := List.forall_mem_cons.mp permitted
    obtain ⟨durable', labels, explains, steps⟩ := call_evolves c.1 c.2 db key durable
    have after := tracked.stepsFrom start kept steps
      (fun l member => first l (explains.permitted l member))
    rw [explains.added] at after
    have final := ih later _ durable' _ after
    rw [List.append_assoc] at final
    exact final

end

theorem durable_empty (key : Bytes) : Db.Durable {} key := by
  intro e found
  cases found

theorem run_invariant (inv : List Id → Stream → Prop) (allowed : Label → Prop)
    (start : inv [] {})
    (kept : ∀ added s l t, allowed l → Stream.Step s l t → inv added s → inv (added ++ adds [l]) t)
    (calls : List Call) (permitted : ∀ c ∈ calls, ∀ l, Permits c.2 l → allowed l) {key : Bytes}
    {s : Stream} (found : (runCalls calls {}).streamAt key = some s) :
    inv (addedIn key calls {}) s := by
  have final := Tracked.runCalls start kept calls permitted {} (durable_empty key) []
    (Or.inl ⟨rfl, rfl⟩)
  rw [found] at final
  rcases final with ⟨isNone, _⟩ | ⟨t, isSome, holds⟩
  · cases isNone
  · cases isSome
    exact holds

end NoidaDb.Redis
