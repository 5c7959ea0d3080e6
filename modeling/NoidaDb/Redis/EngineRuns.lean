/-
What a run of the engine does to the stream of one key: one chain of steps for each command that
was run, whether a client sent it or was waiting with it.
-/

import NoidaDb.Redis.Blocking
import NoidaDb.Redis.StreamRuns

namespace NoidaDb.Redis

open Lib Engine

namespace Engine

@[simp] theorem dbs_blockClient (e : Engine) (id : Nat) (request : BlockRequest) (a : List Bytes) :
    (e.blockClient id request a).dbs = e.dbs := by
  unfold blockClient
  split
  · rfl
  · rfl

@[simp] theorem ran_blockClient (e : Engine) (id : Nat) (request : BlockRequest) (a : List Bytes) :
    (e.blockClient id request a).ran = e.ran := by
  unfold blockClient
  split
  · rfl
  · rfl

@[simp] theorem dbs_unblock (e : Engine) (id : Nat) : (e.unblock id).dbs = e.dbs := by
  unfold unblock
  split
  · rfl
  · rfl

@[simp] theorem ran_unblock (e : Engine) (id : Nat) : (e.unblock id).ran = e.ran := by
  unfold unblock
  split
  · rfl
  · rfl

@[simp] theorem dbs_unblockWith (e : Engine) (id : Nat) (reply : Value) :
    (e.unblockWith id reply).dbs = e.dbs := by
  unfold unblockWith
  split
  · rfl
  · exact dbs_unblock e id

@[simp] theorem ran_unblockWith (e : Engine) (id : Nat) (reply : Value) :
    (e.unblockWith id reply).ran = e.ran := by
  unfold unblockWith
  split
  · rfl
  · exact ran_unblock e id

theorem call_effect (host : Host) (e : Engine) (id : Nat) (a : List Bytes) (denyBlocking : Bool)
    (deadline : Option Nat) :
    (e.call host id a denyBlocking deadline).2.dbs =
        (host.run (e.context host id denyBlocking deadline) (e.client id).db a e.dbs).2 ∧
      (e.call host id a denyBlocking deadline).2.ran =
        e.ran ++ [⟨id, (e.client id).db, e.context host id denyBlocking deadline, a, e.dbs⟩] := by
  unfold call
  simp only []
  split
  · exact ⟨rfl, rfl⟩
  · exact ⟨rfl, rfl⟩
  · exact ⟨dbs_blockClient _ _ _ _, ran_blockClient _ _ _ _⟩
  · exact ⟨rfl, rfl⟩

end Engine

/-- A command that was run takes the stream of a key from one state to the next; a command on
another database leaves it. -/
def RanStep (d : DbIndex) (key : Bytes) (before : Option Stream) (r : Ran)
    (after : Option Stream) : Prop :=
  (r.db = d → (r.before d).Durable key ∧ (r.before d).streamAt key = before ∧
    ∃ labels, Explains r.ctx r.args (r.before d) key labels ∧ StepsFrom before labels after) ∧
  (r.db ≠ d → after = before)

/-- From one engine to a later one, the stream of a key goes through the commands that were run in
between. -/
def Follows (d : DbIndex) (key : Bytes) (e e' : Engine) : Prop :=
  (e.dbs d).Durable key → (e'.dbs d).Durable key ∧
    ∃ more, e'.ran = e.ran ++ more ∧
      Chain (RanStep d key) ((e.dbs d).streamAt key) more ((e'.dbs d).streamAt key)

namespace Follows

variable {d : DbIndex} {key : Bytes} {e e' e'' : Engine}

theorem of_keeps (keeps : Keeps (e.dbs d) (e'.dbs d)) (same : e'.ran = e.ran) :
    Follows d key e e' := by
  intro durable
  obtain ⟨durable', stays⟩ := keeps key durable
  refine ⟨durable', [], by rw [same, List.append_nil], ?_⟩
  rw [stays]
  exact .nil _

theorem of_same (dbs : e'.dbs = e.dbs) (ran : e'.ran = e.ran) : Follows d key e e' := by
  apply of_keeps _ ran
  rw [dbs]
  exact Keeps.refl _

theorem refl (e : Engine) : Follows d key e e := of_same rfl rfl

theorem trans (first : Follows d key e e') (second : Follows d key e' e'') :
    Follows d key e e'' := by
  intro durable
  obtain ⟨durable', more, isMore, chain⟩ := first durable
  obtain ⟨durable'', later, isLater, chain'⟩ := second durable'
  refine ⟨durable'', more ++ later, ?_, chain.append chain'⟩
  rw [isLater, isMore, List.append_assoc]

theorem foldl {α : Type} {f : Engine → α → Engine} (each : ∀ e x, Follows d key e (f e x))
    (xs : List α) (e : Engine) : Follows d key e (xs.foldl f e) := by
  induction xs generalizing e with
  | nil => exact refl e
  | cons x xs ih => exact (each e x).trans (ih (f e x))

theorem iterate {f : Engine → Engine} (each : ∀ e, Follows d key e (f e)) (n : Nat) (e : Engine) :
    Follows d key e (f^[n] e) := by
  induction n generalizing e with
  | zero => exact refl e
  | succ n ih => exact (each e).trans (ih (f e))

section

variable (clock : Nat → U64)

theorem call (e : Engine) (id : Nat) (a : List Bytes) (denyBlocking : Bool)
    (deadline : Option Nat) :
    Follows d key e (e.call (streamHost clock) id a denyBlocking deadline).2 := by
  intro durable
  obtain ⟨isDbs, isRan⟩ := e.call_effect (streamHost clock) id a denyBlocking deadline
  rw [isDbs, isRan]
  generalize e.context (streamHost clock) id denyBlocking deadline = ctx
  generalize (e.client id).db = selected
  show ((Function.update e.dbs selected (Redis.call ctx a (e.dbs selected)).2) d).Durable key ∧
    ∃ more, _ = e.ran ++ more ∧ Chain (RanStep d key) ((e.dbs d).streamAt key) more
      ((Function.update e.dbs selected (Redis.call ctx a (e.dbs selected)).2 d).streamAt key)
  by_cases same : selected = d
  · subst same
    rw [Function.update_self]
    obtain ⟨durable', labels, explains, steps⟩ := call_evolves ctx a (e.dbs selected) key durable
    refine ⟨durable', _, rfl, .single ⟨?_, ?_⟩⟩
    · intro _
      exact ⟨durable, rfl, labels, explains, steps⟩
    · intro different
      exact absurd rfl different
  · rw [Function.update_of_ne (Ne.symm same)]
    refine ⟨durable, _, rfl, .single ⟨?_, ?_⟩⟩
    · intro isSame
      exact absurd isSame same
    · intro _
      rfl

theorem touch (e : Engine) (other : DbIndex) (k : Bytes) (now readings : Nat)
    (waiting : DbIndex → OrderedMap Bytes (List Nat)) :
    Follows d key e
      { e with
        waiting := waiting
        readings := readings
        dbs := Function.update e.dbs other ((e.dbs other).touch k now) } := by
  have keeps : Keeps (e.dbs d) (Function.update e.dbs other ((e.dbs other).touch k now) d) := by
    by_cases same : d = other
    · subst same
      rw [Function.update_self]
      exact Keeps.touch _ _ _
    · rw [Function.update_of_ne same]
      exact Keeps.refl _
  exact of_keeps keeps rfl

theorem serveNext (other : DbIndex) (k : Bytes) (e : Engine) :
    Follows d key e (e.serveNext (streamHost clock) other k) := by
  unfold Engine.serveNext
  split
  · exact refl e
  · split
    · exact refl e
    · simp only []
      split
      · exact of_same rfl rfl
      · split
        · rename_i state _ _
          apply (touch e other k _ _ _).trans
          apply (of_same (dbs_unblock _ _) (ran_unblock _ _)).trans
          split
          · exact call clock _ _ _ _ _
          · exact (call clock _ _ _ _ _).trans (of_same rfl rfl)
        · exact touch e other k _ _ _

theorem serveKey (e : Engine) (ready : DbIndex × Bytes) :
    Follows d key e (e.serveKey (streamHost clock) ready) := by
  apply iterate
  intro e
  exact serveNext clock ready.1 ready.2 e

theorem drain (e : Engine) : Follows d key e e.drain :=
  of_keeps (fun _ durable => ⟨durable, rfl⟩) rfl

theorem serveBlocked (fuel : Nat) (e : Engine) :
    Follows d key e (Engine.serveBlocked (streamHost clock) fuel e) := by
  induction fuel generalizing e with
  | zero => exact refl e
  | succ fuel ih =>
    unfold Engine.serveBlocked
    split
    · exact refl e
    · split
      · exact drain e
      · exact ((drain e).trans (foldl (serveKey clock) _ _)).trans (ih _)

theorem expireBlocked (e : Engine) : Follows d key e (e.expireBlocked (streamHost clock)) := by
  unfold Engine.expireBlocked
  have counted : Follows d key e { e with readings := e.readings + 1 } := of_same rfl rfl
  apply counted.trans
  apply foldl
  intro e id
  exact of_same (dbs_unblockWith e id _) (ran_unblockWith e id _)

theorem runBatch (id : Nat) (e : Engine) (a : List Bytes) :
    Follows d key e (e.runBatch (streamHost clock) id a) := by
  unfold Engine.runBatch
  split
  · exact refl e
  · exact call clock e id a _ _

theorem step (e : Engine) (event : Event) :
    Follows d key e (e.step (streamHost clock) event) := by
  cases event with
  | connect => exact of_same rfl rfl
  | disconnect id =>
    show Follows d key e { e.unblock id with .. }
    exact (of_same (dbs_unblock e id) (ran_unblock e id)).trans (of_same rfl rfl)
  | set id db noTouch resp =>
    unfold Engine.step
    simp only []
    split
    · exact of_same rfl rfl
    · exact refl e
  | execute id a =>
    unfold Engine.step
    simp only []
    split
    · exact (call clock e id a _ _).trans (serveBlocked clock _ _)
    · exact refl e
  | batch id commands =>
    unfold Engine.step
    simp only []
    split
    · exact (foldl (runBatch clock id) commands e).trans (serveBlocked clock _ _)
    · exact refl e
  | expireBlocked =>
    unfold Engine.step
    simp only []
    split
    · exact refl e
    · exact expireBlocked clock e
  | unblock id reply =>
    unfold Engine.step
    simp only []
    split
    · exact refl e
    · exact of_same (dbs_unblockWith e id reply) (ran_unblockWith e id reply)

theorem runEvents (events : List Event) (e : Engine) :
    Follows d key e (Engine.runEvents (streamHost clock) events e) :=
  foldl (step clock) events e

end

end Follows

end NoidaDb.Redis
