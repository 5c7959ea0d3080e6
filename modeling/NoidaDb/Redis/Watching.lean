/-
MULTI, EXEC and WATCH: what a client queues, and the index of the clients that watch a key.
-/

import NoidaDb.Redis.WaitingQueues

namespace NoidaDb.Redis

open Lib

namespace Watching

structure Watched where
  db : DbIndex
  key : Bytes
  expiresAt : Option Nat
  expired : Bool

structure Client where
  multi : Option (List (List Bytes)) := none
  multiError : Bool := false
  dirtyCas : Bool := false
  watched : List Watched := []

structure Engine where
  clients : OrderedMap Nat Client := .empty
  watchers : DbIndex → OrderedMap Bytes (List Nat) := fun _ => .empty

inductive ExecReply where
  | refused (message : String)
  | null
  | runs (queue : List (List Bytes))

structure Snapshot where
  db : DbIndex
  deadline : Bytes → Option Nat
  now : Nat

inductive Command where
  | reset
  | multi
  /-- One that MULTI queues; `noMulti` is its flag. -/
  | queue (args : List Bytes) (noMulti : Bool)
  /-- One that cannot even be queued. -/
  | reject (isExec : Bool)
  | watch (s : Snapshot) (keys : List Bytes)
  | unwatch
  | discard
  | exec

inductive Event where
  | connect (id : Nat)
  | disconnect (id : Nat)
  | command (id : Nat) (command : Command)
  /-- A key was written, and is there or not now. -/
  | touch (db : DbIndex) (key : Bytes) (there : Bool)

def past (deadline : Option Nat) (now : Nat) : Bool := deadline.any (fun t => decide (t < now))

def Snapshot.past (s : Snapshot) (key : Bytes) : Bool := Watching.past (s.deadline key) s.now

def Snapshot.entry (s : Snapshot) (key : Bytes) : Watched := ⟨s.db, key, s.deadline key, s.past key⟩

namespace Client

def watches (c : Client) (db : DbIndex) (key : Bytes) : Bool :=
  c.watched.any (fun w => decide (w.db = db ∧ w.key = key))

/-- A key that had expired when it was watched and is gone has not changed. -/
def touched (db : DbIndex) (key : Bytes) (there : Bool) (c : Client) : Client :=
  if c.watched.any (fun w => decide (w.db = db ∧ w.key = key) && w.expired) && !there then c
  else { c with dirtyCas := true }

/-- Outside MULTI the command runs at once. -/
def queue (args : List Bytes) (noMulti : Bool) (c : Client) : Client :=
  match c.multi with
  | none => c
  | some queued =>
    if noMulti then { c with multiError := true }
    else if !c.multiError && !c.dirtyCas then { c with multi := some (queued ++ [args]) }
    else c

def execReply (now : Nat) (c : Client) : ExecReply :=
  match c.multi with
  | none => .refused "ERR EXEC without MULTI"
  | some queued =>
    if c.multiError then .refused "EXECABORT Transaction discarded because of previous errors."
    else if c.dirtyCas || c.watched.any (fun w => !w.expired && past w.expiresAt now) then .null
    else .runs queued

end Client

namespace Engine

def own (e : Engine) (id : Nat) (change : Client → Client) : Engine :=
  { e with clients := e.clients.update id change }

def leave (id : Nat) (watchers : DbIndex → OrderedMap Bytes (List Nat)) (w : Watched) :
    DbIndex → OrderedMap Bytes (List Nat) :=
  Function.update watchers w.db (leaveQueue id (watchers w.db) w.key)

/-- `unwatch_all`, with what else happens to the client. -/
def unwatchAll (e : Engine) (id : Nat) (change : Client → Client) : Engine :=
  match e.clients.get id with
  | none => e
  | some c =>
    { clients := e.clients.update id (fun c => change { c with watched := [] })
      watchers := c.watched.foldl (leave id) e.watchers }

def touch (e : Engine) (db : DbIndex) (key : Bytes) (there : Bool) : Engine :=
  { e with
    clients := (((e.watchers db).get key).getD []).foldl
      (fun clients id => clients.update id (Client.touched db key there)) e.clients }

def watchKey (id : Nat) (w : Watched) (e : Engine) : Engine :=
  if (e.clients.get id).any (fun c => c.watches w.db w.key) then e
  else
    { clients := e.clients.update id (fun c => { c with watched := c.watched ++ [w] })
      watchers := Function.update e.watchers w.db (joinQueue id (e.watchers w.db) w.key) }

def perform (e : Engine) (id : Nat) (c : Client) : Command → Engine
  | .reset => e.unwatchAll id (fun _ => {})
  | .multi => if c.multi.isSome then e else e.own id (fun c => { c with multi := some [] })
  | .queue args noMulti => e.own id (Client.queue args noMulti)
  | .reject isExec =>
    if c.multi.isNone then e
    else if isExec then e.unwatchAll id (fun _ => {})
    else e.own id (fun c => { c with multiError := true })
  | .watch s keys =>
    if c.multi.isSome || c.dirtyCas then e
    else keys.foldl (fun e key => e.watchKey id (s.entry key)) e
  | .unwatch => e.unwatchAll id (fun c => { c with dirtyCas := false })
  | .discard | .exec => if c.multi.isNone then e else e.unwatchAll id (fun _ => {})

def step (e : Engine) : Event → Engine
  | .connect id => if e.clients.contains id then e else { e with clients := e.clients.insert id {} }
  | .disconnect id =>
    let e := e.unwatchAll id (fun c => c)
    { e with clients := e.clients.erase id }
  | .command id command =>
    match e.clients.get id with
    | none => e
    | some c => e.perform id c command
  | .touch db key there => e.touch db key there

def run (events : List Event) : Engine := events.foldl step {}

end Engine

namespace Client

def watchKey (c : Client) (w : Watched) : Client :=
  if c.watches w.db w.key then c else { c with watched := c.watched ++ [w] }

def perform (c : Client) : Command → Client
  | .reset => {}
  | .multi => { c with multi := some (c.multi.getD []) }
  | .queue args noMulti => c.queue args noMulti
  | .reject isExec =>
    if c.multi.isNone then c else if isExec then {} else { c with multiError := true }
  | .watch s keys =>
    if c.multi.isSome || c.dirtyCas then c
    else keys.foldl (fun c key => c.watchKey (s.entry key)) c
  | .unwatch => { c with watched := [], dirtyCas := false }
  | .discard | .exec => if c.multi.isNone then c else {}

/-- A client as if it were the only one: its own commands, and writes to what it watches. -/
def step (id : Nat) (c : Option Client) : Event → Option Client
  | .connect i => if i = id then some (c.getD {}) else c
  | .disconnect i => if i = id then none else c
  | .command i command => if i = id then c.map (fun c => c.perform command) else c
  | .touch db key there => c.map (fun c => if c.watches db key then c.touched db key there else c)

end Client

namespace Engine

variable {watchers : DbIndex → OrderedMap Bytes (List Nat)} {db : DbIndex} {key : Bytes} {id j : Nat}
  {e e' : Engine} {c : Client} {after : Option Client}

def members (watchers : DbIndex → OrderedMap Bytes (List Nat)) (db : DbIndex) (key : Bytes) :
    List Nat :=
  ((watchers db).get key).getD []

def Agrees (e : Engine) : Prop :=
  ∀ db key id, id ∈ members e.watchers db key ↔
    ∃ c, e.clients.get id = some c ∧ c.watches db key = true

theorem mem_join (w : Watched) :
    j ∈ members (Function.update watchers w.db (joinQueue id (watchers w.db) w.key)) db key ↔
      j ∈ members watchers db key ∨ (j = id ∧ w.db = db ∧ w.key = key) := by
  unfold members joinQueue
  by_cases isDb : db = w.db
  · rw [isDb, Function.update_self, OrderedMap.get_insert]
    by_cases isKey : key = w.key
    · simp [isKey]
    · simp [isKey, Ne.symm isKey]
  · simp [Function.update_of_ne isDb, Ne.symm isDb]

theorem mem_leave (w : Watched) :
    j ∈ members (leave id watchers w) db key ↔
      j ∈ members watchers db key ∧ ¬ (j = id ∧ w.db = db ∧ w.key = key) := by
  unfold members leave
  by_cases isDb : db = w.db
  · rw [isDb, Function.update_self]
    show j ∈ queueOf _ key ↔ j ∈ queueOf _ key ∧ _
    rw [← List.count_pos_iff, ← List.count_pos_iff, count_leave]
    split
    next both => simp [both]
    next other =>
      rw [and_comm (a := key = w.key), eq_comm (a := key)] at other
      simp [other]
  · simp [Function.update_of_ne isDb, Ne.symm isDb]

theorem mem_leave_all (watched : List Watched) :
    j ∈ members (watched.foldl (leave id) watchers) db key ↔
      j ∈ members watchers db key ∧ ¬ (j = id ∧ ∃ w ∈ watched, w.db = db ∧ w.key = key) := by
  induction watched generalizing watchers with
  | nil => simp
  | cons w watched ih =>
    rw [List.foldl_cons, ih, mem_leave, and_assoc, ← not_or, ← and_or_left,
      List.exists_mem_cons_iff]

theorem watches_iff : c.watches db key = true ↔ ∃ w ∈ c.watched, w.db = db ∧ w.key = key := by
  simp [Client.watches]

/-- What a client's own command leaves of the engine. -/
structure Changed (id : Nat) (e e' : Engine) (after : Option Client) : Prop where
  agrees : Agrees e → Agrees e'
  client : ∀ j, e'.clients.get j = if j = id then after else e.clients.get j

theorem own_changed (found : e.clients.get id = some c) (change : Client → Client)
    (keeps : (change c).watched = c.watched) : Changed id e (e.own id change) (some (change c)) where
  client j := by
    rw [own, OrderedMap.get_update]
    split
    next isId => rw [isId, found, Option.map_some]
    next => rfl
  agrees agrees db key j := by
    rw [own, agrees db key j, OrderedMap.get_update]
    split
    next isId =>
      simp [isId, found, Client.watches, keeps]
    next => rfl

theorem unwatchAll_changed (found : e.clients.get id = some c) (change : Client → Client)
    (none' : (change { c with watched := [] }).watched = []) :
    Changed id e (e.unwatchAll id change) (some (change { c with watched := [] })) where
  client j := by
    simp only [unwatchAll, found, OrderedMap.get_update]
    split
    next isId => rw [isId, found, Option.map_some]
    next => rfl
  agrees agrees db key j := by
    simp only [unwatchAll, found, OrderedMap.get_update]
    rw [mem_leave_all, agrees db key j]
    split
    next isId =>
      simp [isId, found, watches_iff, none']
    next other => simp [other]

theorem Changed.same (found : e.clients.get id = after) : Changed id e e after where
  agrees agrees := agrees
  client j := by
    split
    next isId => rw [isId, found]
    next => rfl

theorem Changed.each {f : Option Client → Option Client} (agrees : Agrees e)
    (changed : Changed id e e' (f (e.clients.get id))) :
    Agrees e' ∧ ∀ j, e'.clients.get j = if id = j then f (e.clients.get j) else e.clients.get j := by
  refine ⟨changed.agrees agrees, fun j => ?_⟩
  rw [changed.client]
  by_cases isId : j = id
  · rw [if_pos isId, if_pos isId.symm, isId]
  · rw [if_neg isId, if_neg (Ne.symm isId)]

theorem watchKey_changed (found : e.clients.get id = some c) (w : Watched) :
    Changed id e (watchKey id w e) (some (c.watchKey w)) := by
  unfold watchKey Client.watchKey
  rw [found, Option.any_some]
  by_cases isWatched : c.watches w.db w.key = true
  · rw [if_pos isWatched, if_pos isWatched]
    exact Changed.same found
  · rw [if_neg isWatched, if_neg isWatched]
    refine ⟨fun agrees db key j => ?_, fun j => ?_⟩
    · dsimp only
      rw [mem_join, agrees db key j, OrderedMap.get_update]
      split
      next isId => simp [isId, found, watches_iff, or_and_right, exists_or]
      next other => simp [other]
    · rw [OrderedMap.get_update]
      split
      next isId => rw [isId, found, Option.map_some]
      next => rfl

theorem watch_changed (found : e.clients.get id = some c) (watched : Bytes → Watched)
    (keys : List Bytes) :
    Changed id e (keys.foldl (fun e key => watchKey id (watched key) e) e)
      (some (keys.foldl (fun c key => c.watchKey (watched key)) c)) := by
  induction keys generalizing e c with
  | nil => exact Changed.same found
  | cons key keys ih =>
    have first := watchKey_changed found (watched key)
    have later := ih (by rw [first.client, if_pos rfl] : (watchKey id (watched key) e).clients.get id = _)
    refine ⟨fun agrees => later.agrees (first.agrees agrees), fun j => ?_⟩
    rw [List.foldl_cons, later.client, first.client]
    split
    · rfl
    · rfl

theorem queue_watched (args : List Bytes) (noMulti : Bool) (c : Client) :
    (c.queue args noMulti).watched = c.watched := by
  unfold Client.queue
  split
  · rfl
  · split
    · rfl
    · split
      · rfl
      · rfl

theorem perform_changed (found : e.clients.get id = some c) (command : Command) :
    Changed id e (e.perform id c command) (some (c.perform command)) := by
  have same := Changed.same found
  have freed := unwatchAll_changed found (fun _ => {}) rfl
  cases command with
  | reset => exact freed
  | multi =>
    simp only [perform, Client.perform]
    cases isMulti : c.multi with
    | none => exact own_changed found (fun c => { c with multi := some [] }) rfl
    | some queued =>
      rw [if_pos (Option.isSome_some), Option.getD_some, ← isMulti]
      exact same
  | queue args noMulti => exact own_changed found _ (queue_watched args noMulti c)
  | reject isExec =>
    simp only [perform, Client.perform]
    split
    · exact same
    · split
      · exact freed
      · exact own_changed found (fun c => { c with multiError := true }) rfl
  | watch s keys =>
    simp only [perform, Client.perform]
    split
    · exact same
    · exact watch_changed found _ keys
  | unwatch => exact unwatchAll_changed found (fun c => { c with dirtyCas := false }) rfl
  | discard | exec =>
    simp only [perform, Client.perform]
    split
    · exact same
    · exact freed

theorem touched_watched (there : Bool) (c : Client) :
    (c.touched db key there).watched = c.watched := by
  unfold Client.touched
  split
  · rfl
  · rfl

theorem touched_touched (there : Bool) (c : Client) :
    (c.touched db key there).touched db key there = c.touched db key there := by
  unfold Client.touched
  split
  · rfl
  · rfl

theorem get_touch (there : Bool) (ids : List Nat) (clients : OrderedMap Nat Client) :
    (ids.foldl (fun clients id => clients.update id (Client.touched db key there)) clients).get j =
      if j ∈ ids then (clients.get j).map (Client.touched db key there) else clients.get j := by
  induction ids generalizing clients with
  | nil => rfl
  | cons id ids ih =>
    rw [List.foldl_cons, ih, OrderedMap.get_update]
    by_cases isId : j = id
    · simp [isId, Function.comp_def, touched_touched]
    · simp [isId]

theorem connect_changed (id : Nat) :
    Changed id e (e.step (.connect id)) (some ((e.clients.get id).getD {})) := by
  simp only [step]
  split
  next isClient =>
    obtain ⟨c, found⟩ := Option.isSome_iff_exists.mp isClient
    exact Changed.same (by rw [found, Option.getD_some])
  next isNew =>
    have found : e.clients.get id = none := Option.not_isSome_iff_eq_none.mp isNew
    refine ⟨fun agrees db key j => ?_, fun j => ?_⟩
    · rw [agrees db key j, OrderedMap.get_insert]
      split
      next isId => simp [isId, found, Client.watches]
      next => rfl
    · rw [OrderedMap.get_insert, found, Option.getD_none]

theorem disconnect_changed (id : Nat) : Changed id e (e.step (.disconnect id)) none := by
  cases found : e.clients.get id with
  | none =>
    have left : e.unwatchAll id (fun c => c) = e := by rw [unwatchAll, found]
    refine ⟨fun agrees db key j => ?_, fun j => ?_⟩
    · rw [step, left, agrees db key j, OrderedMap.get_erase]
      split
      next isId => simp [isId, found]
      next => rfl
    · rw [step, left, OrderedMap.get_erase]
  | some c =>
    have left := unwatchAll_changed found (fun c => c) rfl
    refine ⟨fun agrees db key j => ?_, fun j => ?_⟩
    · rw [step, left.agrees agrees db key j, OrderedMap.get_erase, left.client]
      split
      next => simp [Client.watches]
      next => rfl
    · rw [step, OrderedMap.get_erase, left.client]
      split
      · rfl
      · rfl

theorem command_changed (id : Nat) (command : Command) : Changed id e (e.step (.command id command))
    ((e.clients.get id).map (fun c => c.perform command)) := by
  simp only [step]
  cases found : e.clients.get id with
  | none => exact Changed.same found
  | some c => exact perform_changed found command

theorem step_client (agrees : Agrees e) (event : Event) :
    Agrees (e.step event) ∧ ∀ j, (e.step event).clients.get j = Client.step j (e.clients.get j) event := by
  cases event with
  | connect id => exact (connect_changed id).each (f := fun c => some (c.getD {})) agrees
  | disconnect id => exact (disconnect_changed id).each (f := fun _ => none) agrees
  | command id command => exact (command_changed id command).each agrees
  | touch db key there =>
    have client : ∀ j, (e.touch db key there).clients.get j =
        Client.step j (e.clients.get j) (.touch db key there) := by
      intro j
      refine (get_touch there _ e.clients).trans ?_
      have watcher := agrees db key j
      unfold members at watcher
      cases found : e.clients.get j with
      | none => simp [Client.step]
      | some c =>
        rw [found] at watcher
        simp only [watcher, Client.step, Option.map_some]
        simp
        split
        · rfl
        · rfl
    refine ⟨fun db' key' j => ?_, client⟩
    refine (agrees db' key' j).trans ?_
    rw [show e.step (.touch db key there) = e.touch db key there from rfl, client j]
    cases e.clients.get j with
    | none => simp [Client.step]
    | some c =>
      simp only [Client.step, Option.map_some, Option.some.injEq, exists_eq_left']
      split
      · rw [watches_iff, watches_iff, touched_watched]
      · rfl

theorem run_agrees (events : List Event) (agrees : Agrees e) :
    ∀ j, (events.foldl step e).clients.get j = events.foldl (Client.step j) (e.clients.get j) := by
  induction events generalizing e with
  | nil => exact fun _ => rfl
  | cons event events ih =>
    intro j
    obtain ⟨agrees', client⟩ := step_client agrees event
    rw [List.foldl_cons, List.foldl_cons, ih agrees', client]

/-- In every interleaving, what MULTI and WATCH know of a client depends only on its own commands
and on the writes to the keys that it watches. -/
theorem run_client (events : List Event) (id : Nat) :
    (run events).clients.get id = events.foldl (Client.step id) none :=
  run_agrees events (by simp [Agrees, members]) id

end Engine

/-- Not the client's, or one of its commands that MULTI queues. -/
def Event.Ordinary (id : Nat) : Event → Prop
  | .connect i => i ≠ id
  | .disconnect i => i ≠ id
  | .command i c => i ≠ id ∨ ∃ args, c = .queue args false
  | .touch _ _ _ => True

/-- A write to one of the keys, the removal of a key that had expired apart. -/
def Event.spoils (s : Snapshot) (keys : List Bytes) : Event → Bool
  | .touch db key there => decide (db = s.db ∧ key ∈ keys) && !(s.past key && !there)
  | _ => false

def Event.queued (id : Nat) : Event → Option (List Bytes)
  | .command i (.queue args _) => if i = id then some args else none
  | _ => none

/-- A client that watches just these keys; what it has queued counts while it may go on. -/
structure Holding (s : Snapshot) (keys : List Bytes) (dirty : Bool)
    (queue : Option (List (List Bytes))) (c : Client) : Prop where
  watched : ∀ w, w ∈ c.watched ↔ ∃ key ∈ keys, w = s.entry key
  noError : c.multiError = false
  isDirty : c.dirtyCas = dirty
  isMulti : c.multi.isSome = queue.isSome
  isQueue : dirty = false → c.multi = queue

namespace Holding

variable {s : Snapshot} {keys : List Bytes} {id : Nat} {dirty : Bool}
  {queue : Option (List (List Bytes))} {c : Client}

theorem watchKey (holds : Holding s keys dirty queue c) (key : Bytes) :
    Holding s (keys ++ [key]) dirty queue (c.watchKey (s.entry key)) := by
  unfold Client.watchKey
  split
  next isWatched =>
    obtain ⟨w, member, -, isKey⟩ := Engine.watches_iff.mp isWatched
    obtain ⟨key', member', isWatch⟩ := (holds.watched w).mp member
    have known : key ∈ keys := by
      rw [isWatch] at isKey
      change key' = key at isKey
      exact isKey ▸ member'
    refine { holds with watched := fun w => (holds.watched w).trans ?_ }
    simp only [List.mem_append, List.mem_singleton, or_and_right, exists_or, exists_eq_left]
    exact ⟨Or.inl, Or.rec id (fun isLast => ⟨key, known, isLast⟩)⟩
  next notWatched =>
    refine { holds with watched := fun w => ?_ }
    simp only [List.mem_append, List.mem_singleton, or_and_right, exists_or, exists_eq_left,
      holds.watched w]

theorem watchKeys (holds : Holding s keys dirty queue c) (more : List Bytes) :
    Holding s (keys ++ more) dirty queue (more.foldl (fun c key => c.watchKey (s.entry key)) c) := by
  induction more generalizing keys c with
  | nil =>
    rw [List.append_nil]
    exact holds
  | cons key more ih =>
    rw [List.append_cons]
    exact ih (holds.watchKey key)

theorem any (holds : Holding s keys dirty queue c) (p : Watched → Bool) :
    c.watched.any p = keys.any (fun key => p (s.entry key)) := by
  rw [Bool.eq_iff_iff, List.any_eq_true, List.any_eq_true]
  simp only [holds.watched]
  constructor
  · rintro ⟨w, ⟨key, member, rfl⟩, holds'⟩
    exact ⟨key, member, holds'⟩
  · exact fun ⟨key, member, holds'⟩ => ⟨_, ⟨key, member, rfl⟩, holds'⟩

theorem watches (holds : Holding s keys dirty queue c) (db : DbIndex) (key : Bytes) :
    c.watches db key = decide (db = s.db ∧ key ∈ keys) := by
  rw [Client.watches, holds.any, Bool.eq_iff_iff, List.any_eq_true, decide_eq_true_iff]
  simp only [decide_eq_true_iff]
  constructor
  · rintro ⟨key', member, isDb, rfl⟩
    exact ⟨isDb.symm, member⟩
  · exact fun ⟨isDb, member⟩ => ⟨key, member, isDb.symm, rfl⟩

theorem touched (holds : Holding s keys dirty queue c) {key : Bytes} (member : key ∈ keys)
    (there : Bool) :
    Holding s keys (dirty || !(s.past key && !there)) queue (c.touched s.db key there) := by
  have expired : c.watched.any (fun w => decide (w.db = s.db ∧ w.key = key) && w.expired) =
      s.past key := by
    rw [holds.any, Bool.eq_iff_iff]
    simpa [Snapshot.entry] using fun _ => member
  unfold Client.touched
  rw [expired]
  split
  next spared =>
    rw [spared, Bool.not_true, Bool.or_false]
    exact holds
  next spoilt =>
    rw [Bool.not_eq_true] at spoilt
    rw [spoilt, Bool.not_false, Bool.or_true]
    exact { holds with isDirty := rfl, isQueue := fun isClean => by cases isClean }

theorem queued (holds : Holding s keys dirty queue c) (args : List Bytes) :
    Holding s keys dirty (queue.map (· ++ [args])) (c.queue args false) := by
  have isMulti := holds.isMulti
  unfold Client.queue
  cases found : c.multi with
  | none =>
    rw [found] at isMulti
    cases queue with
    | none => exact holds
    | some queued => cases isMulti
  | some old =>
    dsimp only
    rw [if_neg Bool.false_ne_true]
    have isMulti' : c.multi.isSome = (queue.map (· ++ [args])).isSome := by
      rw [Option.isSome_map, isMulti]
    split
    next clean =>
      have isQueue := holds.isQueue (by simpa [holds.isDirty, holds.noError] using clean)
      have isLonger : some (old ++ [args]) = queue.map (· ++ [args]) := by
        rw [← isQueue, found, Option.map_some]
      exact { holds with isMulti := congrArg Option.isSome isLonger, isQueue := fun _ => isLonger }
    next notClean =>
      have isDirty : dirty = true := by simpa [holds.isDirty, holds.noError] using notClean
      exact { holds with isMulti := isMulti', isQueue := fun isClean => by simp [isDirty] at isClean }

theorem step (holds : Holding s keys dirty queue c) {event : Event} (ordinary : event.Ordinary id) :
    ∃ c', Client.step id (some c) event = some c' ∧ Holding s keys (dirty || event.spoils s keys)
        (queue.map (· ++ (event.queued id).toList)) c' := by
  have same : Holding s keys (dirty || false) (queue.map (· ++ [])) c := by
    simpa using holds
  cases event with
  | connect i => exact ⟨c, if_neg ordinary, same⟩
  | disconnect i => exact ⟨c, if_neg ordinary, same⟩
  | touch db key there =>
    simp only [Client.step, Option.map_some, Event.spoils, Event.queued, holds.watches]
    by_cases watched : db = s.db ∧ key ∈ keys
    · rw [decide_eq_true watched, if_pos rfl, Bool.true_and, watched.1]
      exact ⟨_, rfl, by simpa using holds.touched watched.2 there⟩
    · rw [decide_eq_false watched, if_neg Bool.false_ne_true, Bool.false_and]
      exact ⟨c, rfl, same⟩
  | command i command =>
    by_cases isId : i = id
    · obtain ⟨args, rfl⟩ := ordinary.resolve_left (not_not_intro isId)
      refine ⟨c.queue args false, if_pos isId, ?_⟩
      have isQueued : (Event.command i (.queue args false)).queued id = some args := if_pos isId
      have notSpoilt : (Event.command i (.queue args false)).spoils s keys = false := rfl
      rw [isQueued, notSpoilt, Bool.or_false]
      exact holds.queued args
    · refine ⟨c, if_neg isId, ?_⟩
      have notQueued : (Event.command i command).queued id = none := by
        cases command with
        | queue args noMulti => exact if_neg isId
        | _ => rfl
      rw [notQueued]
      exact same

theorem run (events : List Event) (holds : Holding s keys dirty queue c)
    (ordinary : ∀ event ∈ events, event.Ordinary id) :
    ∃ c', events.foldl (Client.step id) (some c) = some c' ∧
      Holding s keys (dirty || events.any (Event.spoils s keys))
        (queue.map (· ++ events.filterMap (Event.queued id))) c' := by
  induction events generalizing dirty queue c with
  | nil => exact ⟨c, rfl, by simpa using holds⟩
  | cons event events ih =>
    obtain ⟨first, later⟩ := List.forall_mem_cons.mp ordinary
    obtain ⟨c', isStep, holds'⟩ := holds.step first
    obtain ⟨c'', isRun, holds''⟩ := ih holds' later
    refine ⟨c'', by rw [List.foldl_cons, isStep, isRun], ?_⟩
    rw [List.any_cons, ← Bool.or_assoc]
    cases isQueued : event.queued id with
    | none => simpa [isQueued] using holds''
    | some args => simpa [isQueued, Function.comp_def] using holds''

theorem reply (holds : Holding s keys dirty (some queue') c) (time : Nat) :
    c.execReply time =
      if dirty || keys.any (fun key => !s.past key && past (s.deadline key) time) then .null
      else .runs queue' := by
  obtain ⟨queued, isMulti⟩ := Option.isSome_iff_exists.mp (holds.isMulti.trans Option.isSome_some)
  have late : c.watched.any (fun w => !w.expired && past w.expiresAt time) =
      keys.any (fun key => !s.past key && past (s.deadline key) time) := holds.any _
  unfold Client.execReply
  rw [isMulti, late, holds.isDirty]
  dsimp only
  rw [holds.noError, if_neg Bool.false_ne_true]
  split
  · rfl
  next clean =>
    rw [Bool.not_eq_true, Bool.or_eq_false_iff] at clean
    have isQueue := holds.isQueue clean.1
    rw [isMulti] at isQueue
    rw [Option.some.inj isQueue]

end Holding

/-- After WATCH, EXEC runs what was queued, in order, if no key was written to and none has expired
since, and otherwise nothing. -/
theorem exec_exact (before reads writes : List Event) (id : Nat) (s : Snapshot) (keys : List Bytes)
    (time : Nat)
    (fresh : (Engine.run before).clients.get id = some {})
    (ordinary : ∀ event ∈ reads ++ writes, event.Ordinary id) :
    ((Engine.run (before ++ .command id (.watch s keys) :: reads ++
        .command id .multi :: writes)).clients.get id).map (Client.execReply time) =
      some (if (reads ++ writes).any (Event.spoils s keys) ||
          keys.any (fun key => !s.past key && past (s.deadline key) time) then .null
        else .runs (writes.filterMap (Event.queued id))) := by
  obtain ⟨inReads, inWrites⟩ := List.forall_mem_append.mp ordinary
  have start : Holding s [] false none {} := ⟨by simp, rfl, rfl, rfl, fun _ => rfl⟩
  obtain ⟨c, isRead, holds⟩ := (start.watchKeys keys).run reads inReads
  have begun : Holding s keys (reads.any (Event.spoils s keys)) (some [])
      (c.perform .multi) := by
    have noMulti : c.multi = none := Option.not_isSome_iff_eq_none.mp (by simp [holds.isMulti])
    refine { holds with isMulti := rfl, isQueue := fun _ => ?_ }
    simp [Client.perform, noMulti]
  obtain ⟨c', isWritten, holds'⟩ := begun.run writes inWrites
  have reached : (Engine.run (before ++ .command id (.watch s keys) :: reads ++
      .command id .multi :: writes)).clients.get id = some c' := by
    have watched : Client.step id (some {}) (.command id (.watch s keys)) =
        some (keys.foldl (fun c key => c.watchKey (s.entry key)) {}) := if_pos rfl
    have isMulti : Client.step id (some c) (.command id .multi) = some (c.perform .multi) := if_pos rfl
    rw [Engine.run_client, List.append_assoc, List.foldl_append, ← Engine.run_client, fresh,
      List.cons_append, List.foldl_cons, List.foldl_append, List.foldl_cons, watched, isRead, isMulti]
    exact isWritten
  rw [reached, Option.map_some, holds'.reply time, List.any_append]
  rfl

/-- Another client writes to the key between MULTI and EXEC. -/
theorem exec_exact_lost :
    ((Engine.run ([.connect 1] ++ .command 1 (.watch ⟨0, fun _ => none, 0⟩ [ascii "k"]) :: [] ++
        .command 1 .multi :: [.command 1 (.queue [ascii "PING"] false), .touch 0 (ascii "k") true]
          )).clients.get 1).map (Client.execReply 0) = some .null :=
  exec_exact [.connect 1] [] _ 1 ⟨0, fun _ => none, 0⟩ [ascii "k"] 0 rfl (by simp [Event.Ordinary])

end Watching

end NoidaDb.Redis
