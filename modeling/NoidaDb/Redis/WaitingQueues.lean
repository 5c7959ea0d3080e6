/-
The queues of the clients that wait for a key, and what each client waits for.
-/

import NoidaDb.Redis.Blocking

namespace NoidaDb.Redis

open Lib

variable {m : OrderedMap Bytes (List Nat)} {key k : Bytes} {id j : Nat} {d : DbIndex}
  {e e' : Engine} {host : Host}

def queueOf (m : OrderedMap Bytes (List Nat)) (key : Bytes) : List Nat := (m.get key).getD []

theorem count_join : (queueOf (joinQueue id m key) k).count j =
    (queueOf m k).count j + if k = key ∧ j = id then 1 else 0 := by
  unfold queueOf joinQueue
  rw [OrderedMap.get_insert]
  by_cases same : k = key
  · rw [if_pos same, Option.getD_some, List.count_append, same, List.count_singleton]
    by_cases isId : j = id
    · simp [isId]
    · simp [isId, Ne.symm isId]
  · simp [same]

theorem count_leave : (queueOf (leaveQueue id m key) k).count j =
    if k = key ∧ j = id then 0 else (queueOf m k).count j := by
  unfold queueOf leaveQueue
  cases found : m.get key with
  | none =>
    by_cases same : k = key
    · simp [same, found]
    · simp [same]
  | some queue =>
    have filtered : (queue.filter (fun c => c != id)).count j =
        if j = id then 0 else queue.count j := by
      split
      next isId => simp [isId, List.count_eq_zero]
      next other => exact List.count_filter (by simpa using other)
    by_cases same : k = key
    · dsimp only
      split
      next isEmpty =>
        rw [List.isEmpty_iff.mp isEmpty] at filtered
        simpa [same, found] using filtered
      next => simpa [same, found] using filtered
    · dsimp only
      split
      · simp [same]
      · simp [same]

theorem count_joins (keys : List Bytes) : (queueOf (keys.foldl (joinQueue id) m) k).count j =
    (queueOf m k).count j + if j = id then keys.count k else 0 := by
  induction keys generalizing m with
  | nil => simp
  | cons key keys ih =>
    rw [List.foldl_cons, ih, count_join]
    by_cases isId : j = id
    · by_cases same : k = key
      · simp [isId, same]
        omega
      · simp [isId, same, Ne.symm same]
    · simp [isId]

theorem count_leaves (keys : List Bytes) : (queueOf (keys.foldl (leaveQueue id) m) k).count j =
    if k ∈ keys ∧ j = id then 0 else (queueOf m k).count j := by
  induction keys generalizing m with
  | nil => simp
  | cons key keys ih =>
    rw [List.foldl_cons, ih, count_leave]
    by_cases isId : j = id
    · by_cases same : k = key
      · simp [isId, same]
      · simp [isId, same]
    · simp [isId]

theorem nodup_eraseDups (keys : List Bytes) : keys.eraseDups.Nodup := by
  induction length : keys.length using Nat.strong_induction_on generalizing keys with
  | _ n ih =>
    cases keys with
    | nil => exact List.nodup_nil
    | cons key keys =>
      rw [List.eraseDups_cons, List.nodup_cons, List.mem_eraseDups]
      refine ⟨by simp, ih _ ?_ _ rfl⟩
      rw [← length, List.length_cons]
      exact Nat.lt_succ_of_le (List.length_filter_le _ _)

/-- A command that runs where blocking is denied does not block. -/
def Host.Obeys (host : Host) : Prop :=
  ∀ ctx d a dbs request, ctx.denyBlocking = true → (host.run ctx d a dbs).1 ≠ .block request

namespace Engine

/-- BLMOVE from a key that is not there. -/
def blmoveHost : Host where
  run ctx _ a dbs :=
    (if ctx.denyBlocking then .value .null
      else .block { kind := .list, keys := (a.drop 1).take 1, deadline := 0, args := none }, dbs)
  clock _ := 0

def waitsFor (e : Engine) (id : Nat) (d : DbIndex) (key : Bytes) : Bool :=
  (e.blockedState id).any (fun s => s.db == d && s.keys.contains key)

/-- A client is once in the queue of each key that it is blocked on, and in no other queue. -/
structure Enrolled (e : Engine) : Prop where
  queued : ∀ d key id, (queueOf (e.waiting d) key).count id = (e.waitsFor id d key).toNat
  fresh : ∀ id, e.nextClientId ≤ id → e.clients.get id = none

theorem blockedState_unblock (e : Engine) (id j : Nat) :
    (e.unblock id).blockedState j = if j = id then none else e.blockedState j := by
  unfold unblock
  cases found : e.blockedState id with
  | none =>
    by_cases isId : j = id
    · simp [isId, found]
    · simp [isId]
  | some s =>
    unfold blockedState
    rw [OrderedMap.get_update]
    split
    · cases e.clients.get j with
      | none => rfl
      | some c => rfl
    · rfl

theorem count_unblock {s : BlockState} (found : e.blockedState id = some s) :
    (queueOf ((e.unblock id).waiting d) key).count j =
      if (s.db = d ∧ key ∈ s.keys) ∧ j = id then 0 else (queueOf (e.waiting d) key).count j := by
  simp only [unblock, found]
  by_cases isDb : s.db = d
  · rw [← isDb, Function.update_self, count_leaves]
    simp
  · rw [Function.update_of_ne (Ne.symm isDb)]
    simp [isDb]

theorem free_of_active (active : e.active id = true) : e.blockedState id = none := by
  unfold Engine.active at active
  unfold blockedState
  cases found : e.clients.get id with
  | none => rfl
  | some c => simpa [found] using (Bool.and_eq_true_iff.mp active).2

namespace Enrolled

theorem of_clients (enrolled : Enrolled e) (waiting : e'.waiting = e.waiting)
    (blocked : ∀ id, e'.blockedState id = e.blockedState id)
    (fresh : ∀ id, e'.nextClientId ≤ id → e'.clients.get id = none) : Enrolled e' where
  queued d key id := by
    rw [waiting, waitsFor, blocked]
    exact enrolled.queued d key id
  fresh := fresh

theorem of_same (enrolled : Enrolled e) (waiting : e'.waiting = e.waiting)
    (clients : e'.clients = e.clients) (next : e'.nextClientId = e.nextClientId) : Enrolled e' := by
  apply enrolled.of_clients waiting
  · intro id
    rw [blockedState, clients, blockedState]
  · rw [clients, next]
    exact enrolled.fresh

theorem unblock (enrolled : Enrolled e) (id : Nat) : Enrolled (e.unblock id) := by
  cases found : e.blockedState id with
  | none =>
    unfold Engine.unblock
    rw [found]
    exact enrolled
  | some s =>
    refine ⟨fun d key j => ?_, fun j above => ?_⟩
    · rw [count_unblock found, enrolled.queued, waitsFor, waitsFor, blockedState_unblock]
      by_cases isId : j = id
      · simp [isId, found]
      · simp [isId]
    · simp only [Engine.unblock, found] at above ⊢
      rw [OrderedMap.get_update, enrolled.fresh j above, Option.map_none, ite_self]

theorem blockClient (enrolled : Enrolled e) (free : e.blockedState id = none)
    (request : BlockRequest) (a : List Bytes) : Enrolled (e.blockClient id request a) := by
  unfold Engine.blockClient
  cases found : e.clients.get id with
  | none => exact enrolled
  | some client =>
    refine ⟨fun d key j => ?_, fun j above => ?_⟩
    · have before := enrolled.queued d key j
      unfold waitsFor blockedState at before ⊢
      unfold blockedState at free
      dsimp only
      rw [OrderedMap.get_insert]
      have once : request.keys.eraseDups.count key = _ := (nodup_eraseDups request.keys).count
      by_cases isDb : client.db = d
      · rw [← isDb, Function.update_self, count_joins, isDb, before, once]
        by_cases isId : j = id
        · simp [isId, free, Bool.toNat]
        · simp [isId]
      · rw [Function.update_of_ne (Ne.symm isDb), before]
        by_cases isId : j = id
        · simp [isId, free, beq_eq_false_iff_ne.mpr isDb]
        · simp [isId]
    · have other : j ≠ id := by
        rintro rfl
        rw [enrolled.fresh j above] at found
        cases found
      rw [OrderedMap.get_insert, if_neg other]
      exact enrolled.fresh j above

theorem call (enrolled : Enrolled e) (obeys : host.Obeys) (a : List Bytes) (denyBlocking : Bool)
    (deadline : Option Nat) (free : denyBlocking = false → e.blockedState id = none) :
    Enrolled (e.call host id a denyBlocking deadline).2 := by
  unfold Engine.call
  dsimp only
  split
  · exact enrolled.of_same rfl rfl rfl
  · exact enrolled.of_same rfl rfl rfl
  next request isBlock =>
    apply blockClient
    · exact enrolled.of_same rfl rfl rfl
    · apply free
      by_contra denied
      exact obeys _ _ _ _ request (Bool.not_eq_false _ ▸ denied) isBlock
  · exact enrolled.of_same rfl rfl rfl

theorem rotate (enrolled : Enrolled e) {queue : List Nat}
    (isQueue : queueOf (e.waiting d) key = id :: queue) :
    Enrolled { e with
      waiting := Function.update e.waiting d ((e.waiting d).insert key (queue ++ [id])) } := by
  refine ⟨fun d' key' j => ?_, enrolled.fresh⟩
  refine (List.Perm.count_eq ?_ j).trans (enrolled.queued d' key' j)
  unfold queueOf at isQueue ⊢
  dsimp only
  by_cases isDb : d' = d
  · rw [isDb, Function.update_self, OrderedMap.get_insert]
    split
    next isKey =>
      rw [isKey, isQueue]
      exact List.perm_append_singleton id queue
    next => rfl
  · rw [Function.update_of_ne isDb]

theorem serveNext (enrolled : Enrolled e) (obeys : host.Obeys) (d : DbIndex) (key : Bytes) :
    Enrolled (e.serveNext host d key) := by
  unfold Engine.serveNext
  split
  · exact enrolled
  · split
    · exact enrolled
    next id queue isQueue =>
      have turned := enrolled.rotate isQueue
      dsimp only
      split
      · exact turned
      next s _ =>
        split
        · have touched : Enrolled { e with
              waiting := Function.update e.waiting d ((e.waiting d).insert key (queue ++ [id]))
              readings := e.readings + 1
              dbs := Function.update e.dbs d ((e.dbs d).touch key (host.clock e.readings).val) } :=
            turned.of_same rfl rfl rfl
          have called := (touched.unblock id).call obeys s.args false (some s.deadline)
            (fun _ => by rw [blockedState_unblock, if_pos rfl])
          split
          · exact called
          · exact called.of_same rfl rfl rfl
        · exact turned.of_same rfl rfl rfl

theorem foldl {α : Type} {f : Engine → α → Engine} (each : ∀ e x, Enrolled e → Enrolled (f e x))
    (xs : List α) (enrolled : Enrolled e) : Enrolled (xs.foldl f e) := by
  induction xs generalizing e with
  | nil => exact enrolled
  | cons x xs ih => exact ih (each e x enrolled)

theorem serveKey (enrolled : Enrolled e) (obeys : host.Obeys) (ready : DbIndex × Bytes) :
    Enrolled (e.serveKey host ready) :=
  Function.Iterate.rec Enrolled enrolled (fun _ before => before.serveNext obeys _ _) _

theorem serveBlocked (enrolled : Enrolled e) (obeys : host.Obeys) (fuel : Nat) :
    Enrolled (Engine.serveBlocked host fuel e) := by
  induction fuel generalizing e with
  | zero => exact enrolled
  | succ fuel ih =>
    unfold Engine.serveBlocked
    have drained : Enrolled e.drain := enrolled.of_same rfl rfl rfl
    split
    · exact enrolled
    · split
      · exact drained
      · exact ih (foldl (fun _ ready before => before.serveKey obeys ready) _ drained)

theorem unblockWith (enrolled : Enrolled e) (id : Nat) (reply : Value) :
    Enrolled (e.unblockWith id reply) := by
  unfold Engine.unblockWith
  split
  · exact enrolled
  · exact (enrolled.unblock id).of_same rfl rfl rfl

theorem runBatch (enrolled : Enrolled e) (obeys : host.Obeys) (id : Nat) (a : List Bytes) :
    Enrolled (e.runBatch host id a) := by
  unfold Engine.runBatch
  split
  · exact enrolled
  · exact enrolled.call obeys a true none (fun allowed => by cases allowed)

theorem step (enrolled : Enrolled e) (obeys : host.Obeys) (event : Event) :
    Enrolled (e.step host event) := by
  cases event with
  | connect =>
    refine enrolled.of_clients rfl (fun id => ?_) (fun id above => ?_)
    · unfold blockedState Engine.step
      rw [OrderedMap.get_insert]
      split
      next isNew =>
        rw [isNew, enrolled.fresh _ (Nat.le_refl _)]
        rfl
      next => rfl
    · have above : e.nextClientId + 1 ≤ id := above
      show (e.clients.insert e.nextClientId {}).get id = none
      rw [OrderedMap.get_insert, if_neg (by omega)]
      exact enrolled.fresh id (by omega)
  | disconnect id =>
    refine (enrolled.unblock id).of_clients rfl (fun j => ?_) (fun j above => ?_)
    · rw [blockedState_unblock]
      unfold Engine.step
      rw [blockedState, OrderedMap.get_erase, ← blockedState_unblock]
      split
      next isId => simp [isId, blockedState_unblock]
      next => rfl
    · show ((e.unblock id).clients.erase id).get j = none
      rw [OrderedMap.get_erase, (enrolled.unblock id).fresh j above, ite_self]
  | set id db noTouch resp =>
    simp only [Engine.step]
    split
    · refine enrolled.of_clients rfl (fun j => ?_) (fun j above => ?_)
      · unfold blockedState
        rw [OrderedMap.get_update]
        split
        · cases e.clients.get j with
          | none => rfl
          | some c => rfl
        · rfl
      · rw [OrderedMap.get_update, enrolled.fresh j above, Option.map_none, ite_self]
    · exact enrolled
  | execute id a =>
    simp only [Engine.step]
    split
    next active =>
      exact (enrolled.call obeys a false none (fun _ => free_of_active active)).serveBlocked obeys _
    · exact enrolled
  | batch id commands =>
    simp only [Engine.step]
    split
    · exact (foldl (fun _ a before => before.runBatch obeys id a) commands enrolled).serveBlocked
        obeys _
    · exact enrolled
  | expireBlocked =>
    simp only [Engine.step]
    split
    · exact enrolled
    · apply foldl (fun _ id before => before.unblockWith id _)
      exact enrolled.of_same rfl rfl rfl
  | unblock id reply =>
    simp only [Engine.step]
    split
    · exact enrolled
    · exact enrolled.unblockWith id reply

end Enrolled

theorem run_enrolled (host : Host) (obeys : host.Obeys) (dbs : Dbs) (events : List Event) :
    Enrolled (runEvents host events { dbs := dbs }) := by
  have nobody : Enrolled { dbs := dbs } :=
    ⟨fun d key id => by simp [queueOf, waitsFor, blockedState], fun _ _ => rfl⟩
  exact nobody.foldl (fun _ event before => before.step obeys event) events

theorem run_enrolled_blmove : Enrolled (runEvents blmoveHost
    [.connect, .execute 1 (["BLMOVE", "a", "b", "LEFT", "LEFT", "0"].map ascii)] {}) :=
  run_enrolled blmoveHost (fun ctx d a dbs request denied => by simp [blmoveHost, denied]) _ _

end Engine

end NoidaDb.Redis
