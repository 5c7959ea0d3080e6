/-
Reads with `>` hand out every entry of a stream once and in order, whether the client waited or not.
A read with a COUNT of zero or less hands out nothing.
-/

import NoidaDb.Redis.EngineRuns
import NoidaDb.Redis.GroupDelivery

namespace NoidaDb.Redis

open Lib Engine

variable {key : Bytes} {s : Stream} {j : Id} {g : Group} {part : Option Part}

theorem le_lastValidId (stored : j ∈ s.entries.keys) : j ≤ s.lastValidId := by
  unfold Stream.lastValidId
  cases isLast : s.entries.lastKey? with
  | none =>
    have isNil : s.entries.keys = [] := List.getLast?_eq_none_iff.mp isLast
    rw [isNil] at stored
    cases stored
  | some last => exact OrderedMap.le_lastKey? isLast stored

theorem readGroupPart_fresh {consumer : Bytes} {count now : Nat} {noack : Bool} {g' : Group}
    (waits : Waits j s g) (some' : 0 < count)
    (isPart : readGroupPart s g key consumer newMessages count noack now = .ok (g', part)) :
    freshIds part ≠ [] := by
  have sameCursor : (g.consumer consumer now (fun c => { c with seenTime := now })).lastId =
      g.lastId := (Rehold.consumer g consumer now (fun _ => rfl)).lastId
  unfold readGroupPart at isPart
  simp only [ne_eq, not_true_eq_false, if_false] at isPart
  generalize g.consumer consumer now (fun c => { c with seenTime := now }) = h at sameCursor isPart
  have notEmpty : 0 < s.len := by
    unfold Stream.len
    rw [OrderedMap.size_eq]
    exact List.length_pos_of_mem waits.stored
  have behind : h.lastId < s.lastValidId := by
    rw [sameCursor]
    exact lt_of_lt_of_le waits.ahead (le_lastValidId waits.stored)
  rw [if_pos ⟨notEmpty, behind⟩] at isPart
  cases isStart : nextId h.lastId with
  | none =>
    rw [isStart] at isPart
    cases isPart
  | some start =>
    rw [isStart] at isPart
    cases isPart
    obtain ⟨fields, isEntry⟩ := (OrderedMap.mem_keys_iff s.entries j).mp waits.stored
    have isIn : (j, fields) ∈ s.entries.entriesFrom start := by
      unfold OrderedMap.entriesFrom
      apply List.mem_filter.mpr
      refine ⟨(OrderedMap.mem_entries_iff s.entries j fields).mpr isEntry, ?_⟩
      apply decide_eq_true
      apply (nextId_le_iff isStart j).mpr
      rw [sameCursor]
      exact waits.ahead
    intro isNil
    have isEmpty : (s.entries.entriesFrom start).take count = [] := by
      simpa [freshIds, asShown, deliverNew] using isNil
    have positive := List.length_pos_of_mem isIn
    have noLength := congrArg List.length isEmpty
    rw [List.length_take, List.length_nil] at noLength
    omega

theorem lastId_of_silent {t : Stream} {labels : List Label} {name : Bytes} {h : Group}
    (steps : Stream.Steps s labels t) (silent : ∀ l ∈ labels, l = .silent)
    (found : s.groups.get name = some g) (found' : t.groups.get name = some h) :
    h.lastId = g.lastId := by
  induction steps generalizing g with
  | nil s =>
    rw [found] at found'
    cases found'
    rfl
  | @cons s u t l labels first rest ih =>
    obtain ⟨isSilent, silentRest⟩ := List.forall_mem_cons.mp silent
    rw [isSilent] at first
    cases first with
    | remove _ => exact ih silentRest found found'
    | @rehold other k k' isGroup change =>
      by_cases same : name = other
      · subst same
        rw [found] at isGroup
        cases isGroup
        exact (ih silentRest (get_setGroup _ _ _) found').trans change.lastId
      · exact ih silentRest ((get_setGroup_of_ne s same _).trans found) found'

theorem readGroupPart_lastId {g' : Group} {name consumer : Bytes} {after : Id} {count now : Nat}
    {noack : Bool} (found : s.groups.get name = some g)
    (isPart : readGroupPart s g key consumer after count noack now = .ok (g', part))
    (nothing : freshIds part = []) : g'.lastId = g.lastId := by
  obtain ⟨h, part', labels, isPart', _, delivers, steps⟩ :=
    readGroupPart_steps found key consumer after count noack now
  rw [isPart] at isPart'
  cases isPart'
  rw [nothing] at delivers
  apply lastId_of_silent steps _ found (get_setGroup _ _ _)
  intro l member
  rcases delivers.2 l member with isSilent | ⟨id, isDeliver⟩
  · exact isSilent
  · have isOut : id ∈ deliveries name labels := by
      apply List.mem_filterMap.mpr
      refine ⟨l, member, ?_⟩
      rw [isDeliver]
      simp
    rw [delivers.1] at isOut
    cases isOut

theorem LiveStream.unique {now : Nat} {db : Db} {t : Stream} (live : LiveStream now db key s)
    (live' : LiveStream now db key t) : s = t := by
  have isAt := live.streamAt
  rw [live'.streamAt] at isAt
  cases isAt
  rfl

theorem readOne_found {ctx : Ctx} {args : ReadArgs} {name consumer : Bytes} {db : Db}
    (inGroup : args.group = some (name, consumer)) (known : KnownAt ctx.now.val db key name)
    (after : Id) :
    ∃ s g g' part, LiveStream ctx.now.val db key s ∧ s.groups.get name = some g ∧
      readGroupPart s g key consumer after args.count args.noack ctx.now.val = .ok (g', part) ∧
      (∀ p ∈ part, p.key = key) ∧
      readOne ctx args key after db =
        (.ok part, (ctx.lookup key (ctx.lookup key db)).setData key
          (.stream (s.setGroup name g'))) := by
  obtain ⟨s, g, live, isGroup⟩ := known
  have isFirst := live.getStream
  have isSecond := (live.lookup key).getStream
  obtain ⟨g', part, labels, isPart, isKey, _, _⟩ :=
    readGroupPart_steps isGroup key consumer after args.count args.noack ctx.now.val
  refine ⟨s, g, g', part, live, isGroup, isPart, isKey, ?_⟩
  unfold readOne
  simp only [isFirst, isSecond, inGroup, isGroup, isPart]

theorem freshOf_append (key : Bytes) (ps qs : List Part) :
    freshOf key (ps ++ qs) = freshOf key ps ++ freshOf key qs := by
  unfold freshOf
  exact List.flatMap_append

theorem freshOf_part (isKey : ∀ p ∈ part, p.key = key) :
    freshOf key part.toList = freshIds part := by
  cases part with
  | none => rfl
  | some p => simp [freshOf, isKey p rfl]

/-- If the streams of a read in a group have the stream of the key among them, to be read with
`>`, and an entry waits there, then something of it is handed out. -/
theorem readParts_fresh {ctx : Ctx} {args : ReadArgs} {name consumer : Bytes}
    (inGroup : args.group = some (name, consumer)) (some' : 0 < args.count)
    (reads : List (Bytes × Id)) (db : Db) (known : ∀ r ∈ reads, KnownAt ctx.now.val db r.1 name)
    (isRead : (key, newMessages) ∈ reads) (live : LiveStream ctx.now.val db key s)
    (found : s.groups.get name = some g) (waits : Waits j s g) {parts : List Part}
    (isParts : (readParts ctx args reads db).1 = .ok parts) : freshOf key parts ≠ [] := by
  induction reads generalizing db s g parts with
  | nil => cases isRead
  | cons r reads ih =>
    obtain ⟨key', after⟩ := r
    obtain ⟨knownKey, knownRest⟩ := List.forall_mem_cons.mp known
    obtain ⟨t, h, h', part, liveT, isGroup, isPart, isKey, isOne⟩ :=
      readOne_found inGroup knownKey after
    have stay : ∀ k, KnownAt ctx.now.val db k name → KnownAt ctx.now.val
        ((ctx.lookup key' (ctx.lookup key' db)).setData key' (.stream (t.setGroup name h'))) k
        name :=
      fun k knownK => ((knownK.lookup key').lookup key').setData (get_setGroup t name h')
    unfold readParts at isParts
    rw [isOne] at isParts
    simp only [] at isParts
    cases isRest : readParts ctx args reads ((ctx.lookup key' (ctx.lookup key' db)).setData key'
        (.stream (t.setGroup name h'))) with
    | mk rest db' =>
      rw [isRest] at isParts
      cases rest with
      | error e => cases isParts
      | ok parts' =>
        cases isParts
        rw [freshOf_append]
        intro isNil
        obtain ⟨noFirst, noRest⟩ := List.append_eq_nil_iff.mp isNil
        by_cases same : key = key'
        · subst same
          rw [freshOf_part isKey] at noFirst
          have sameStream := live.unique liveT
          subst sameStream
          rw [found] at isGroup
          cases isGroup
          rcases List.mem_cons.mp isRead with isFirst | isLater
          · cases isFirst
            exact readGroupPart_fresh waits some' isPart noFirst
          · have cursor := readGroupPart_lastId found isPart noFirst
            have live' := ((live.lookup key).lookup key).setData key
              (s.setGroup name h')
            rw [if_pos rfl] at live'
            refine ih _ (fun r member => stay r.1 (knownRest r member)) isLater live'
              (get_setGroup _ _ _) ⟨waits.bounded, waits.stored, ?_⟩ (by rw [isRest]) noRest
            rw [cursor]
            exact waits.ahead
        · have isLater : (key, newMessages) ∈ reads := by
            rcases List.mem_cons.mp isRead with isFirst | isLater
            · cases isFirst
              exact absurd rfl same
            · exact isLater
          have live' := ((live.lookup key').lookup key').setData key'
            (t.setGroup name h')
          rw [if_neg same] at live'
          exact ih _ (fun r member => stay r.1 (knownRest r member)) isLater live' found waits
            (by rw [isRest]) noRest

/-- The ids that a read starts from: new messages where the client types `>`. -/
theorem readIds_new {ctx : Ctx} {group : Option (Bytes × Bytes)} (keys raws : List Bytes)
    (db : Db) {ids : List Id} (isOk : (readIds ctx true group (keys.zip raws) db).1 = .ok ids)
    (isRead : (key, ascii ">") ∈ keys.zip raws) : (key, newMessages) ∈ keys.zip ids := by
  induction keys generalizing raws db ids with
  | nil => cases isRead
  | cons k keys ih =>
    cases raws with
    | nil => cases isRead
    | cons raw raws =>
      rw [List.zip_cons_cons] at isOk isRead
      unfold readIds at isOk
      split at isOk
      · cases isOk
      · split at isOk
        · cases isOk
        · rename_i id db' isId
          split at isOk
          · cases isOk
          · rename_i ids' _ isRest
            cases isOk
            rw [List.zip_cons_cons]
            rcases List.mem_cons.mp isRead with isFirst | isLater
            · cases isFirst
              have isNew : id = newMessages := by
                have different : ascii ">" ≠ ascii "$" := by decide
                have result := congrArg Prod.fst isId
                unfold readId at result
                rw [if_neg different, if_pos rfl] at result
                cases result
                rfl
              rw [isNew]
              exact List.mem_cons_self
            · exact List.mem_cons_of_mem _ (ih raws db' (by rw [isRest]) isLater)

namespace Ran

def handed (r : Ran) (d : DbIndex) (key group : Bytes) : List (Id × Bytes) :=
  if r.db = d then handedOut r.ctx r.args (r.before d) key group else []

def added (r : Ran) (d : DbIndex) (key : Bytes) : List Id :=
  if r.db = d then addedBy key r.args (Redis.call r.ctx r.args (r.before d)).1 else []

/-- A read of the key with `>` by a consumer of the group, with any COUNT, that is not refused. -/
def readsNew (r : Ran) (d : DbIndex) (key group : Bytes) : Bool :=
  decide (r.db = d) && decide (streamCommand r.args = some .xreadgroup) &&
    StreamCommand.xreadgroup.arityHolds r.args.length &&
    match parseRead r.args true with
    | .error _ => false
    | .ok args =>
      decide (args.group.map Prod.fst = some group) &&
        ((readKeys r.args args).zip
          (r.args.drop (args.streamsArg + (readKeys r.args args).length))).contains
            (key, ascii ">") &&
        (readAll r.ctx r.args true args (r.before d)).1.isOk

/-- The command has no COUNT or a positive one. -/
def TakesSome (r : Ran) : Prop := ∀ args, parseRead r.args true = .ok args → 0 < args.count

/-- The command is none of XGROUP SETID, XGROUP DESTROY, XSETID and XCLAIM LASTID. -/
def LeavesCursor (r : Ran) : Prop :=
  streamCommand r.args ≠ some .xsetid ∧ streamCommand r.args ≠ some (.xgroup .setid) ∧
    streamCommand r.args ≠ some (.xgroup .destroy) ∧ ¬GivesLastId r.args

theorem leavesCursor_label {r : Ran} (leaves : r.LeavesCursor) (group : Bytes) {l : Label}
    (permitted : Permits r.args l) : l.LeavesCursor group := by
  obtain ⟨notSetId, notPlace, notDrop, notRaise⟩ := leaves
  refine ⟨?_, ?_, ?_, ?_⟩
  · intro maxDeleted isLabel
    rw [isLabel] at permitted
    exact notSetId permitted.1
  · intro counter isLabel
    rw [isLabel] at permitted
    exact notPlace permitted.1
  · intro isLabel
    rw [isLabel] at permitted
    exact notRaise ⟨permitted.1, permitted.2.2⟩
  · intro isLabel
    rw [isLabel] at permitted
    exact notDrop permitted.1

theorem handed_of_readsNew {r : Ran} {d : DbIndex} {key group : Bytes} {s : Stream} {g : Group}
    {j : Id} (reads : r.readsNew d key group = true) (takes : r.TakesSome) (durable : (r.before d).Durable key)
    (isAt : (r.before d).streamAt key = some s) (found : s.groups.get group = some g)
    (waits : Waits j s g) : 1 ≤ (r.handed d key group).length := by
  unfold readsNew at reads
  simp only [Bool.and_eq_true, decide_eq_true_eq] at reads
  obtain ⟨⟨⟨sameDb, isCommand⟩, arity⟩, rest⟩ := reads
  unfold handed handedOut
  rw [if_pos sameDb, if_pos ⟨isCommand, arity⟩]
  cases parses : parseRead r.args true with
  | error e =>
    rw [parses] at rest
    cases rest
  | ok args =>
    rw [parses] at rest
    simp only [Bool.and_eq_true, decide_eq_true_eq, List.contains_iff_mem] at rest
    obtain ⟨⟨isGroup, isRead⟩, isOk⟩ := rest
    have some' := takes args parses
    obtain ⟨name, consumer, inGroup⟩ := parseRead_group parses
    rw [inGroup, Option.map_some, Option.some.injEq] at isGroup
    change name = group at isGroup
    subst isGroup
    unfold readAll at isOk ⊢
    simp only [inGroup] at isOk ⊢
    generalize readKeys r.args args = keys at isOk isRead ⊢
    generalize r.args.drop (args.streamsArg + keys.length) = raws at isOk isRead ⊢
    have keeps := readIds_keeps r.ctx true (some (name, consumer)) (keys.zip raws) (r.before d)
    cases isIds : readIds r.ctx true (some (name, consumer)) (keys.zip raws) (r.before d) with
    | mk result db' =>
      rw [isIds] at keeps isOk
      cases result with
      | error e => cases isOk
      | ok ids =>
        have isOk' : (readIds r.ctx true (some (name, consumer)) (keys.zip raws)
            (r.before d)).1 = .ok ids := by
          rw [isIds]
        have known := (readIds_known r.ctx (keys.zip raws) (r.before d) isOk').2
        rw [isIds] at known
        have knownReads : ∀ p ∈ keys.zip ids, KnownAt r.ctx.now.val db' p.1 name := by
          intro p member
          obtain ⟨raw, isPair⟩ :=
            fst_zip keys raws ids (readIds_length _ (r.before d) isOk') p member
          exact known (p.1, raw) isPair
        have isNew := readIds_new keys raws (r.before d) isOk' isRead
        have isAfter : db'.streamAt key = some s := (keeps key durable).2.trans isAt
        obtain ⟨t, h, live, _⟩ := known (key, ascii ">") isRead
        have same : t = s := by
          have isT := live.streamAt
          rw [isAfter] at isT
          cases isT
          rfl
        rw [same] at live
        simp only [] at isOk ⊢
        cases isParts : readParts r.ctx args (keys.zip ids) db' with
        | mk found' db'' =>
          rw [isParts] at isOk
          cases found' with
          | error e => cases isOk
          | ok parts =>
            have fresh := readParts_fresh inGroup some' (keys.zip ids) db' knownReads
              isNew live found waits (by rw [isParts])
            unfold outOf
            simp only [inGroup, if_true, List.length_map]
            exact List.length_pos_iff.mpr fresh

end Ran

def Engine.ranSince (e e' : Engine) : List Ran := e'.ran.drop e.ran.length

def handedBy (d : DbIndex) (key group : Bytes) (rs : List Ran) : List (Id × Bytes) :=
  rs.flatMap (fun r => r.handed d key group)

def addedBetween (d : DbIndex) (key : Bytes) (rs : List Ran) : List Id :=
  rs.flatMap (fun r => r.added d key)

section

variable {d : DbIndex} {key group : Bytes} {s : Stream} {g : Group} {x y : Option Stream} {r : Ran}
  {rs : List Ran}

theorem RanStep.of_some (step : RanStep d key (some s) r y) :
    ∃ t labels, y = some t ∧ Stream.Steps s labels t ∧
      (∀ group, deliveries group labels = (r.handed d key group).map Prod.fst) ∧
      adds labels = r.added d key ∧ ∀ l ∈ labels, Permits r.args l := by
  by_cases same : r.db = d
  · obtain ⟨_, _, labels, explains, from'⟩ := step.1 same
    obtain ⟨t, isAfter, steps⟩ := StepsFrom.of_some from'
    refine ⟨t, labels, isAfter, steps, ?_, ?_, explains.permitted⟩
    · intro group
      unfold Ran.handed
      rw [if_pos same]
      exact explains.delivered group
    · unfold Ran.added
      rw [if_pos same]
      exact explains.added
  · refine ⟨s, [], step.2 same, .nil s, ?_, ?_, by simp⟩
    · intro group
      unfold Ran.handed
      rw [if_neg same]
      rfl
    · unfold Ran.added
      rw [if_neg same]
      rfl

theorem bounded_chain (chain : Chain (RanStep d key) x rs y)
    (bounded : ∀ s, x = some s → s.Bounded) : ∀ t, y = some t → t.Bounded := by
  induction chain with
  | nil _ => exact bounded
  | @cons x z y r rs first rest ih =>
    apply ih
    intro t isAfter
    by_cases same : r.db = d
    · obtain ⟨_, _, labels, _, from'⟩ := first.1 same
      rcases from' with ⟨isBefore, _⟩ | ⟨u, isAfter', steps⟩
      · exact bounded t (isBefore ▸ isAfter)
      · rw [isAfter'] at isAfter
        cases isAfter
        have start : (x.getD {}).Bounded := by
          cases x with
          | none =>
            intro id member
            cases member
          | some s => exact bounded s rfl
        have kept : ∀ (h : Unit) (s : Stream) (label : Label) (t : Stream), True →
            Stream.Step s label t → s.Bounded → t.Bounded :=
          fun _ _ _ _ _ step bounded => Stream.Bounded.step step bounded
        exact steps.invariant (fun h _ => h) kept (by simp) () start
    · rw [first.2 same] at isAfter
      exact bounded t isAfter

theorem cursor_chain {start : Id} {out : List Id} (chain : Chain (RanStep d key) (some s) rs y)
    (leaves : ∀ r ∈ rs, r.LeavesCursor) (found : s.groups.get group = some g)
    (cursor : Cursor start out s g) :
    ∃ t h, y = some t ∧ t.groups.get group = some h ∧
      Cursor start (out ++ (handedBy d key group rs).map Prod.fst) t h ∧
      ∀ i ∈ (handedBy d key group rs).map Prod.fst,
        i ∈ s.entries.keys ∨ i ∈ addedBetween d key rs := by
  generalize isFirst : some s = x at chain
  induction chain generalizing s g out with
  | nil _ =>
    refine ⟨s, g, isFirst.symm, found, ?_, by simp [handedBy]⟩
    show Cursor start (out ++ []) s g
    rw [List.append_nil]
    exact cursor
  | @cons x z y r rs first rest ih =>
    rw [← isFirst] at first
    obtain ⟨leavesFirst, leavesRest⟩ := List.forall_mem_cons.mp leaves
    obtain ⟨u, labels, isAfter, steps, delivered, added, permitted⟩ := first.of_some
    have leavesLabels : ∀ l ∈ labels, l.LeavesCursor group :=
      fun l member => Ran.leavesCursor_label leavesFirst group (permitted l member)
    obtain ⟨h, isGroup, cursor'⟩ := Cursor.steps leavesLabels steps found cursor
    obtain ⟨stored, fromStored⟩ := Cursor.deliveries_stored steps
    rw [delivered group] at cursor' fromStored
    rw [added] at stored fromStored
    obtain ⟨t, k, isLast, isGroup', cursor'', fromRest⟩ := ih leavesRest isGroup cursor' isAfter.symm
    have isHanded : (handedBy d key group (r :: rs)).map Prod.fst =
        (r.handed d key group).map Prod.fst ++ (handedBy d key group rs).map Prod.fst := by
      unfold handedBy
      rw [List.flatMap_cons, List.map_append]
    have isAdded : addedBetween d key (r :: rs) = r.added d key ++ addedBetween d key rs :=
      List.flatMap_cons
    refine ⟨t, k, isLast, isGroup', ?_, ?_⟩
    · rw [isHanded, ← List.append_assoc]
      exact cursor''
    · intro i member
      rw [isHanded] at member
      rw [isAdded]
      have later : i ∈ s.entries.keys ∨ i ∈ r.added d key →
          i ∈ s.entries.keys ∨ i ∈ r.added d key ++ addedBetween d key rs :=
        fun has => has.imp (fun isStored => isStored) (List.mem_append_left _)
      rcases List.mem_append.mp member with isNow | isLater
      · exact later (fromStored i isNow)
      · rcases fromRest i isLater with isStored | isAddedLater
        · exact later (stored i isStored)
        · exact Or.inr (List.mem_append_right _ isAddedLater)

theorem gone_chain {j : Id} (chain : Chain (RanStep d key) (some s) rs y)
    (leaves : ∀ r ∈ rs, r.LeavesCursor) (gone : Gone j s) : ∃ t, y = some t ∧ Gone j t := by
  generalize isFirst : some s = x at chain
  induction chain generalizing s with
  | nil _ => exact ⟨s, isFirst.symm, gone⟩
  | @cons x z y r rs first rest ih =>
    rw [← isFirst] at first
    obtain ⟨leavesFirst, leavesRest⟩ := List.forall_mem_cons.mp leaves
    obtain ⟨u, labels, isAfter, steps, _, _, permitted⟩ := first.of_some
    exact ih leavesRest (Gone.steps
      (fun l member => Ran.leavesCursor_label leavesFirst key (permitted l member)) steps gone)
      isAfter.symm

theorem waits_chain {j : Id} (chain : Chain (RanStep d key) (some s) rs y)
    (leaves : ∀ r ∈ rs, r.LeavesCursor)
    (takes : ∀ r ∈ rs, r.readsNew d key group = true → r.TakesSome)
    (found : s.groups.get group = some g) (waits : Waits j s g) :
    j ∈ (handedBy d key group rs).map Prod.fst ∨ (∃ t, y = some t ∧ Gone j t) ∨
      ∃ t h, y = some t ∧ Waits j t h ∧
        rs.countP (fun r => r.readsNew d key group) + entriesUntil j t h ≤ entriesUntil j s g := by
  generalize isFirst : some s = x at chain
  induction chain generalizing s g with
  | nil _ =>
    apply Or.inr
    apply Or.inr
    exact ⟨s, g, isFirst.symm, waits, le_of_eq (Nat.zero_add _)⟩
  | @cons x z y r rs first rest ih =>
    rw [← isFirst] at first
    obtain ⟨leavesFirst, leavesRest⟩ := List.forall_mem_cons.mp leaves
    obtain ⟨takesFirst, takesRest⟩ := List.forall_mem_cons.mp takes
    obtain ⟨u, labels, isAfter, steps, delivered, _, permitted⟩ := first.of_some
    have leavesLabels : ∀ l ∈ labels, l.LeavesCursor group :=
      fun l member => Ran.leavesCursor_label leavesFirst group (permitted l member)
    have isHanded : (handedBy d key group (r :: rs)).map Prod.fst =
        (r.handed d key group).map Prod.fst ++ (handedBy d key group rs).map Prod.fst := by
      unfold handedBy
      rw [List.flatMap_cons, List.map_append]
    have counted : (if r.readsNew d key group = true then 1 else 0) ≤
        (deliveries group labels).length := by
      rw [delivered group, List.length_map]
      split
      · rename_i reads
        have sameDb : r.db = d := by
          unfold Ran.readsNew at reads
          simp only [Bool.and_eq_true, decide_eq_true_eq] at reads
          exact reads.1.1.1
        obtain ⟨durable, isAt, _⟩ := first.1 sameDb
        exact Ran.handed_of_readsNew reads (takesFirst reads) durable isAt found waits
      · exact Nat.zero_le _
    rw [isHanded]
    rcases Waits.steps leavesLabels steps found waits with isOut | isGone | ⟨h, isGroup, waits', near⟩
    · rw [delivered group] at isOut
      exact Or.inl (List.mem_append_left _ isOut)
    · apply Or.inr
      apply Or.inl
      rw [isAfter] at rest
      exact gone_chain rest leavesRest isGone
    · rcases ih leavesRest takesRest isGroup waits' isAfter.symm with isOut | isGone | ⟨t, k, isLast, waits'', nearer⟩
      · exact Or.inl (List.mem_append_right _ isOut)
      · exact Or.inr (Or.inl isGone)
      · apply Or.inr
        apply Or.inr
        refine ⟨t, k, isLast, waits'', ?_⟩
        rw [List.countP_cons]
        omega

end

namespace Engine

variable (clock : Nat → U64)

theorem durable_runEvents (events : List Event) (d : DbIndex) (key : Bytes) :
    ((runEvents (streamHost clock) events {}).dbs d).Durable key :=
  (Follows.runEvents clock events {} (durable_empty key)).1

theorem chain_since (before during : List Event) (d : DbIndex) (key : Bytes) :
    Chain (RanStep d key) (((runEvents (streamHost clock) before {}).dbs d).streamAt key)
      (ranSince (runEvents (streamHost clock) before {})
        (runEvents (streamHost clock) during (runEvents (streamHost clock) before {})))
      (((runEvents (streamHost clock) during
        (runEvents (streamHost clock) before {})).dbs d).streamAt key) := by
  obtain ⟨_, more, isMore, chain⟩ := Follows.runEvents clock during
    (runEvents (streamHost clock) before {}) (durable_runEvents clock before d key)
  unfold ranSince
  rw [isMore, List.drop_left]
  exact chain

theorem bounded_runEvents (events : List Event) (d : DbIndex) (key : Bytes) {s : Stream}
    (isAt : ((runEvents (streamHost clock) events {}).dbs d).streamAt key = some s) :
    s.Bounded :=
  bounded_chain (chain_since clock [] events d key) (by
    intro t isNone
    cases isNone) s isAt

theorem runEvents_append (host : Host) (first rest : List Event) (e : Engine) :
    runEvents host (first ++ rest) e = runEvents host rest (runEvents host first e) :=
  List.foldl_append

theorem ranSince_append (events first rest : List Event) :
    ranSince (runEvents (streamHost clock) events {})
        (runEvents (streamHost clock) (first ++ rest) (runEvents (streamHost clock) events {})) =
      ranSince (runEvents (streamHost clock) events {})
          (runEvents (streamHost clock) first (runEvents (streamHost clock) events {})) ++
        ranSince (runEvents (streamHost clock) first (runEvents (streamHost clock) events {}))
          (runEvents (streamHost clock) rest
            (runEvents (streamHost clock) first (runEvents (streamHost clock) events {}))) := by
  obtain ⟨durable, more, isMore, _⟩ := @Follows.runEvents 0 [] clock first
    (runEvents (streamHost clock) events {}) (durable_runEvents clock events 0 [])
  obtain ⟨_, later, isLater, _⟩ := @Follows.runEvents 0 [] clock rest _ durable
  rw [runEvents_append]
  unfold ranSince
  rw [isLater, List.drop_left, isMore, List.append_assoc, List.drop_left, List.drop_left]

end Engine

theorem existsUnique_of_sorted {out : List (Id × Bytes)}
    (increasing : (out.map Prod.fst).Pairwise (· < ·)) (member : j ∈ out.map Prod.fst) :
    ∃! consumer, (j, consumer) ∈ out := by
  obtain ⟨p, isOut, isFst⟩ := List.mem_map.mp member
  obtain ⟨i, consumer⟩ := p
  change i = j at isFst
  subst isFst
  refine ⟨consumer, isOut, ?_⟩
  intro other isOther
  have injective := List.inj_on_of_nodup_map (increasing.imp (fun less => ne_of_lt less))
  have same := injective isOther isOut rfl
  exact (Prod.mk.injEq _ _ _ _ ▸ same).2

/-- Every stored entry above `start` is handed out to one consumer, or deleted, once there are as many
reads as there are entries up to it. -/
def ReadsReach (clock : Nat → U64) (before during : List Event) (d : DbIndex) (key group : Bytes)
    (start : Id) : Prop :=
  let e := runEvents (streamHost clock) before {}
  let e' := runEvents (streamHost clock) during e
  ∀ first rest, during = first ++ rest →
    let e₁ := runEvents (streamHost clock) first e
    ∀ s₁ g₁, (e₁.dbs d).streamAt key = some s₁ → s₁.groups.get group = some g₁ →
      ∀ j ∈ s₁.entries.keys, start < j →
        entriesUntil j s₁ g₁ ≤ (ranSince e₁ e').countP (fun r => r.readsNew d key group) →
          (∃! consumer, (j, consumer) ∈ handedBy d key group (ranSince e e')) ∨
            ∀ t, (e'.dbs d).streamAt key = some t → j ∉ t.entries.keys

/-- Where no command moves the cursor of a group or XSETID changes the stream, the reads with `>` hand
out increasing ids, each to one consumer, and pass over no entry above the start; if none has a COUNT
of zero or less, they reach all. -/
theorem group_delivery (clock : Nat → U64) (before during : List Event) (d : DbIndex)
    (key group : Bytes) (s : Stream) (g : Group)
    (isAt : ((runEvents (streamHost clock) before {}).dbs d).streamAt key = some s)
    (found : s.groups.get group = some g)
    (leaves : ∀ r ∈ ranSince (runEvents (streamHost clock) before {})
      (runEvents (streamHost clock) during (runEvents (streamHost clock) before {})),
      r.LeavesCursor) :
    let e := runEvents (streamHost clock) before {}
    let e' := runEvents (streamHost clock) during e
    let out := handedBy d key group (ranSince e e')
    ∃ t h, (e'.dbs d).streamAt key = some t ∧ t.groups.get group = some h ∧
      (out.map Prod.fst).Pairwise (· < ·) ∧
      (∀ i ∈ out.map Prod.fst, g.lastId < i ∧
        (i ∈ s.entries.keys ∨ i ∈ addedBetween d key (ranSince e e'))) ∧
      (∀ j ∈ t.entries.keys, g.lastId < j → (∃! consumer, (j, consumer) ∈ out) ∨ h.lastId < j) ∧
      ((∀ r ∈ ranSince e e', r.readsNew d key group = true → r.TakesSome) →
        ReadsReach clock before during d key group g.lastId) := by
  intro e e' out
  have bounded := bounded_runEvents clock before d key isAt
  have chain := chain_since clock before during d key
  rw [isAt] at chain
  obtain ⟨t, h, isLast, isGroup, cursor, fromStored⟩ :=
    cursor_chain chain leaves found (Cursor.new bounded g)
  change (e'.dbs d).streamAt key = some t at isLast
  rw [List.nil_append] at cursor
  refine ⟨t, h, isLast, isGroup, cursor.increasing, ?_, ?_, ?_⟩
  · intro i member
    exact ⟨(cursor.between i member).1, fromStored i member⟩
  · intro j stored above
    by_cases passed : j ≤ h.lastId
    · exact Or.inl (existsUnique_of_sorted cursor.increasing
        (cursor.noneMissed j stored above passed))
    · exact Or.inr (not_le.mp passed)
  · intro takes
    unfold ReadsReach
    intro _ _ first rest isSplit e₁ s₁ g₁ isAt₁ found₁ j stored above enough
    have isSince := ranSince_append clock before first rest
    rw [← isSplit] at isSince
    have leavesBoth := isSince ▸ leaves
    have takesBoth := isSince ▸ takes
    have leavesFirst := fun r member => leavesBoth r (List.mem_append_left _ member)
    have leavesRest := fun r member => leavesBoth r (List.mem_append_right _ member)
    have takesRest := fun r member => takesBoth r (List.mem_append_right _ member)
    have isHanded : out.map Prod.fst = (handedBy d key group (ranSince e e₁)).map Prod.fst ++
        (handedBy d key group (ranSince e₁ (runEvents (streamHost clock) rest e₁))).map Prod.fst := by
      show (handedBy d key group (ranSince e e')).map Prod.fst = _
      unfold handedBy
      rw [← List.map_append, ← List.flatMap_append, isSince]
    have isOut : ∀ j, j ∈ out.map Prod.fst → ∃! consumer, (j, consumer) ∈ out :=
      fun j member => existsUnique_of_sorted cursor.increasing member
    -- The state in the middle of the run.
    have chain₁ := chain_since clock before first d key
    rw [isAt] at chain₁
    obtain ⟨s₁', g₁', isLast₁, isGroup₁, cursor₁, _⟩ :=
      cursor_chain chain₁ leavesFirst found (Cursor.new bounded g)
    rw [List.nil_append] at cursor₁
    have sameStream : s₁' = s₁ := Option.some.inj (isLast₁.symm.trans isAt₁)
    subst sameStream
    have sameGroup : g₁' = g₁ := Option.some.inj (isGroup₁.symm.trans found₁)
    subst sameGroup
    by_cases passed : j ≤ g₁'.lastId
    · apply Or.inl
      apply isOut
      rw [isHanded]
      exact List.mem_append_left _ (cursor₁.noneMissed j stored above passed)
    · have isEnd : e' = runEvents (streamHost clock) rest e₁ := by
        show runEvents (streamHost clock) during e = _
        rw [isSplit, runEvents_append]
      have chain₂ := chain_since clock (before ++ first) rest d key
      rw [runEvents_append] at chain₂
      change Chain (RanStep d key) ((e₁.dbs d).streamAt key)
        (ranSince e₁ (runEvents (streamHost clock) rest e₁)) _ at chain₂
      rw [isAt₁] at chain₂
      have waits : Waits j s₁' g₁' := ⟨cursor₁.bounded, stored, not_le.mp passed⟩
      change _ ≤ (ranSince e₁ e').countP _ at enough
      rw [isEnd] at enough isLast
      rcases waits_chain chain₂ leavesRest takesRest found₁ waits with isNow | ⟨t', isAt', gone⟩ |
          ⟨t', h', isAt', waits', near⟩
      · apply Or.inl
        apply isOut
        rw [isHanded]
        exact List.mem_append_right _ isNow
      · apply Or.inr
        intro u isU
        change (e'.dbs d).streamAt key = some u at isU
        rw [isEnd, isAt'] at isU
        cases isU
        exact gone.notStored
      · have positive : 0 < entriesUntil j t' h' := by
          unfold entriesUntil
          exact List.length_pos_of_mem (List.mem_filter.mpr
            ⟨waits'.stored, decide_eq_true ⟨waits'.ahead, le_refl j⟩⟩)
        omega

def madeGroup : List Event :=
  [.connect, .connect, .execute 1 (["XGROUP", "CREATE", "k", "g", "0", "MKSTREAM"].map ascii)]

def waitedFor : List Event :=
  [.execute 2 (["XREADGROUP", "GROUP", "g", "c", "BLOCK", "0", "STREAMS", "k", ">"].map ascii),
    .execute 1 (["XADD", "k", "5-0", "f", "v"].map ascii)]

/-- At each step of a run at clock 1. -/
abbrev atOne : Host := streamHost (fun _ => 1)

theorem leavesCursor_of_names {rs : List Ran} {names : List StreamCommand}
    (isNames : rs.map (fun r => streamCommand r.args) = names.map some)
    (plain : ∀ c ∈ names, c = .xadd ∨ c = .xreadgroup) : ∀ r ∈ rs, r.LeavesCursor := by
  intro r member
  have isName := List.mem_map_of_mem (f := fun r : Ran => streamCommand r.args) member
  rw [isNames] at isName
  obtain ⟨c, inNames, isCommand⟩ := List.mem_map.mp isName
  unfold Ran.LeavesCursor GivesLastId
  rcases plain c inNames with rfl | rfl
  · simp [← isCommand]
  · simp [← isCommand]

theorem group_delivery_waitedFor :
    ∃ out, out = handedBy 0 (ascii "k") (ascii "g") (ranSince (runEvents atOne madeGroup {})
        (runEvents atOne waitedFor (runEvents atOne madeGroup {}))) ∧
      out = [(⟨5, 0⟩, ascii "c")] ∧ (out.map Prod.fst).Pairwise (· < ·) ∧
      ReadsReach (fun _ => 1) madeGroup waitedFor 0 (ascii "k") (ascii "g") ⟨0, 0⟩ := by
  obtain ⟨s, isAt⟩ := Option.isSome_iff_exists.mp
    (by decide +kernel : (((runEvents atOne madeGroup {}).dbs 0).streamAt (ascii "k")).isSome = true)
  have start : ((((runEvents atOne madeGroup {}).dbs 0).streamAt (ascii "k")).bind
      (fun s => s.groups.get (ascii "g"))).map Group.lastId = some ⟨0, 0⟩ := by
    decide +kernel
  rw [isAt] at start
  obtain ⟨g, found, isStart⟩ := Option.map_eq_some_iff.mp start
  have names : (ranSince (runEvents atOne madeGroup {})
      (runEvents atOne waitedFor (runEvents atOne madeGroup {}))).map
        (fun r => streamCommand r.args) = [.xreadgroup, .xadd, .xreadgroup].map some := by
    decide +kernel
  have takes : ∀ r ∈ ranSince (runEvents atOne madeGroup {})
      (runEvents atOne waitedFor (runEvents atOne madeGroup {})), r.TakesSome := by
    have each : (ranSince (runEvents atOne madeGroup {})
        (runEvents atOne waitedFor (runEvents atOne madeGroup {}))).all (fun r =>
          match parseRead r.args true with
          | .error _ => true
          | .ok args => decide (0 < args.count)) = true := by
      decide +kernel
    intro r member args parses
    have here := List.all_eq_true.mp each r member
    rw [parses] at here
    exact of_decide_eq_true here
  obtain ⟨t, h, _, _, increasing, _, _, reach⟩ := group_delivery (fun _ => 1) madeGroup waitedFor 0
    (ascii "k") (ascii "g") s g isAt found (leavesCursor_of_names names (by simp))
  have reached := reach (fun r member _ => takes r member)
  rw [isStart] at reached
  refine ⟨_, rfl, ?_, increasing, reached⟩
  decide +kernel

def addedFirst : List Event :=
  [.connect, .execute 1 (["XADD", "k", "1-1", "f", "v"].map ascii),
    .execute 1 (["XGROUP", "CREATE", "k", "g", "0"].map ascii)]

def readsZero : List Event :=
  [.execute 1 (["XREADGROUP", "GROUP", "g", "c", "COUNT", "0", "STREAMS", "k", ">"].map ascii)]

/-- The entry 1-1 is the next one, but a read with COUNT 0 does not hand it out. -/
theorem group_delivery_countZero :
    ¬ ∀ (clock : Nat → U64) (before during : List Event) (d : DbIndex) (key group : Bytes)
        (s : Stream) (g : Group),
      ((runEvents (streamHost clock) before {}).dbs d).streamAt key = some s →
        s.groups.get group = some g →
          (∀ r ∈ ranSince (runEvents (streamHost clock) before {})
            (runEvents (streamHost clock) during (runEvents (streamHost clock) before {})),
            r.LeavesCursor) →
          ReadsReach clock before during d key group g.lastId := by
  intro claimed
  obtain ⟨s, isAt⟩ := Option.isSome_iff_exists.mp
    (by decide +kernel : (((runEvents atOne addedFirst {}).dbs 0).streamAt (ascii "k")).isSome = true)
  have hasGroup : ((((runEvents atOne addedFirst {}).dbs 0).streamAt (ascii "k")).bind
      (fun s => s.groups.get (ascii "g"))).map (fun g => decide (g.lastId < ⟨1, 1⟩)) = some true := by
    decide +kernel
  rw [isAt, Option.bind_some] at hasGroup
  obtain ⟨g, found, behind⟩ := Option.map_eq_some_iff.mp hasGroup
  have names : (ranSince (runEvents atOne addedFirst {})
      (runEvents atOne readsZero (runEvents atOne addedFirst {}))).map
        (fun r => streamCommand r.args) = [.xreadgroup].map some := by
    decide +kernel
  have reach := claimed (fun _ => 1) addedFirst readsZero 0 (ascii "k") (ascii "g") s g isAt found
    (leavesCursor_of_names names (by simp)) [] readsZero rfl s g isAt found ⟨1, 1⟩
  have near : ((((runEvents atOne addedFirst {}).dbs 0).streamAt (ascii "k")).bind
      (fun s => (s.groups.get (ascii "g")).map (fun g => (s.entries.keys.contains ⟨1, 1⟩,
        entriesUntil ⟨1, 1⟩ s g)))) = some (true, 1) := by
    decide +kernel
  rw [isAt, Option.bind_some, found, Option.map_some, Option.some.injEq, Prod.mk.injEq] at near
  have count : (ranSince (runEvents atOne addedFirst {})
      (runEvents atOne readsZero (runEvents atOne addedFirst {}))).countP
        (fun r => r.readsNew 0 (ascii "k") (ascii "g")) = 1 := by
    decide +kernel
  have nothing : handedBy 0 (ascii "k") (ascii "g") (ranSince (runEvents atOne addedFirst {})
      (runEvents atOne readsZero (runEvents atOne addedFirst {}))) = [] := by
    decide +kernel
  have stays : (((runEvents atOne readsZero (runEvents atOne addedFirst {})).dbs 0).streamAt
      (ascii "k")).map (fun t => t.entries.keys.contains ⟨1, 1⟩) = some true := by
    decide +kernel
  obtain ⟨t, isT, stored⟩ := Option.map_eq_some_iff.mp stays
  rcases reach (by simpa using near.1) (of_decide_eq_true behind) (by
      rw [near.2]
      exact le_of_eq count.symm) with ⟨consumer, isOut, _⟩ | gone
  · rw [nothing] at isOut
    cases isOut
  · exact gone t isT (by simpa using stored)

end NoidaDb.Redis
