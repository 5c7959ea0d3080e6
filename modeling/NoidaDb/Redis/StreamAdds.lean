/-
XADD adds above everything the stream has held, and changes nothing when it fails.

The ids of a stream grow as long as no XSETID forgets the greatest deleted id.
-/

import NoidaDb.Redis.PendingAgreement

namespace NoidaDb.Redis

open Lib

theorem find_dropExpired (db : Db) (key : Bytes) (now : Nat) (other : Bytes) :
    (db.dropExpired key now).find other now = db.find other now := by
  unfold Db.find Db.dropExpired
  split
  · rename_i expired
    by_cases same : other = key
    · obtain ⟨e, isEntry, isExpired⟩ := (Option.any_eq_true _ _).mp expired
      simp [same, isEntry, isExpired, Option.filter]
    · simp [same]
  · rfl

theorem find_lookup (ctx : Ctx) (key : Bytes) (db : Db) (other : Bytes) :
    (ctx.lookup key db).find other ctx.now.val = db.find other ctx.now.val := by
  rw [← find_dropExpired db key]
  unfold Db.find
  rw [map_lookup]

theorem find_getStream (ctx : Ctx) (key : Bytes) (db : Db) (other : Bytes) :
    (ctx.getStream key db).2.find other ctx.now.val = db.find other ctx.now.val := by
  rw [getStream_db, find_lookup]

variable {db db' : Db} {key : Bytes}

theorem LiveStream.find {now : Nat} {s : Stream} (live : LiveStream now db key s) :
    ∃ expiresAt, db.find key now = some { data := .stream s, expiresAt := expiresAt } := by
  obtain ⟨expiresAt, found, notExpired⟩ := live
  refine ⟨expiresAt, ?_⟩
  unfold Db.find
  rw [found]
  simp [Option.filter, notExpired]

def keptBy (how : Trim) (entries : List (Id × Fields)) : List (Id × Fields) :=
  match how with
  | .none => entries
  | .maxLen n => entries.drop (entries.length - n.toNat)
  | .minId least => entries.filter (fun e => decide (least ≤ e.1))

theorem entries_removeAll (s : Stream) (ids : List Id) :
    (ids.foldl Stream.removeEntry s).entries.entries =
      s.entries.entries.filter (fun e => !ids.contains e.1) := by
  induction ids generalizing s with
  | nil => simp
  | cons id ids ih =>
    rw [List.foldl_cons, ih]
    show (s.entries.erase id).entries.filter _ = _
    rw [OrderedMap.entries_erase, List.filter_filter]
    apply List.filter_congr
    intro e _
    by_cases same : e.1 = id
    · simp [same]
    · simp [same]

theorem filter_notMem_take {V : Type} (entries : List (Id × V))
    (distinct : (entries.map Prod.fst).Nodup) (k : Nat) :
    entries.filter (fun e => !((entries.map Prod.fst).take k).contains e.1) = entries.drop k := by
  induction entries generalizing k with
  | nil => simp
  | cons e rest ih =>
    obtain ⟨notLater, distinct'⟩ := List.nodup_cons.mp distinct
    cases k with
    | zero => simp
    | succ k =>
      rw [List.map_cons, List.take_succ_cons, List.filter_cons]
      have first : (!(e.1 :: (rest.map Prod.fst).take k).contains e.1) = false := by simp
      rw [first]
      simp only [Bool.false_eq_true, if_false, List.drop_succ_cons]
      rw [← ih distinct' k]
      apply List.filter_congr
      intro f member
      have different : f.1 ≠ e.1 :=
        fun same => notLater (same ▸ List.mem_map_of_mem member)
      simp [different]

theorem entries_trim (s : Stream) (how : Trim) :
    (s.trim how).1.entries.entries = keptBy how s.entries.entries := by
  unfold Stream.trim
  simp only []
  rw [entries_removeAll]
  cases how with
  | none => simp [Stream.victims, keptBy]
  | maxLen n => exact filter_notMem_take s.entries.entries s.entries.keys_nodup _
  | minId least =>
    apply List.filter_congr
    intro e member
    have isKey : e.1 ∈ s.entries.keys := List.mem_map_of_mem member
    by_cases below : e.1 < least
    · simp [Stream.victims, isKey, below]
    · simp [Stream.victims, below, not_lt.mp below]

theorem removeAll_lastId (s : Stream) (ids : List Id) :
    (ids.foldl Stream.removeEntry s).lastId = s.lastId := by
  induction ids generalizing s with
  | nil => rfl
  | cons id ids ih => exact ih (s.removeEntry id)

theorem trim_lastId (s : Stream) (how : Trim) : (s.trim how).1.lastId = s.lastId :=
  removeAll_lastId s _

def seenStream (db : Db) (key : Bytes) (now : Nat) : Stream :=
  ((db.find key now).bind (fun e => e.data.stream?)).getD {}

def Added (ctx : Ctx) (a : List Bytes) (raw : Bytes) (db db' : Db) : Prop :=
  ∃ args id t expiresAt, parseAddTrim a true = .ok args ∧ raw = fmtId id ∧
    db'.find (arg a 1) ctx.now.val = some { data := .stream t, expiresAt := expiresAt } ∧
    (∀ k, k ≠ arg a 1 → db'.find k ctx.now.val = db.find k ctx.now.val) ∧
    (seenStream db (arg a 1) ctx.now.val).lastId < id ∧ t.lastId = id ∧
    t.entries.entries = keptBy args.trim
      ((seenStream db (arg a 1) ctx.now.val).entries.insert id (a.drop (args.next + 1))).entries

/-- What XADD does: its answer is an error or nil and the keyspace is as before, or it adds. -/
def AddsOrKeeps (ctx : Ctx) (a : List Bytes) (db : Db) (r : Answer × Db) : Prop :=
  (((∃ e, r.1 = .error e) ∨ r.1 = .value .null) ∧
      ∀ k, r.2.find k ctx.now.val = db.find k ctx.now.val) ∨
    ∃ raw, r.1 = .value (.bulk raw) ∧ Added ctx a raw db r.2

theorem fail_keeps {ctx : Ctx} {a : List Bytes} (e : Value)
    (same : ∀ k, db'.find k ctx.now.val = db.find k ctx.now.val) :
    AddsOrKeeps ctx a db (.error e, db') :=
  Or.inl ⟨Or.inl ⟨e, rfl⟩, same⟩

theorem addTo_adds {ctx : Ctx} {a : List Bytes} {args : AddTrimArgs}
    (parses : parseAddTrim a true = .ok args)
    (live : LiveStream ctx.now.val db' (arg a 1) (seenStream db (arg a 1) ctx.now.val))
    (others : ∀ k, k ≠ arg a 1 → db'.find k ctx.now.val = db.find k ctx.now.val)
    (failed : ∀ e, pickId (seenStream db (arg a 1) ctx.now.val) ctx.now args.id = .error e →
      ∀ k, db'.find k ctx.now.val = db.find k ctx.now.val) :
    AddsOrKeeps ctx a db (addTo ctx a args db') := by
  unfold addTo
  rw [live.getStream]
  show AddsOrKeeps ctx a db (parsed (pickId _ _ _) _ _)
  cases picks : pickId (seenStream db (arg a 1) ctx.now.val) ctx.now args.id with
  | error e =>
    apply fail_keeps
    intro k
    rw [find_lookup]
    exact failed e picks k
  | ok id =>
    have after := ((live.lookup (arg a 1)).setData (arg a 1)
      ((((seenStream db (arg a 1) ctx.now.val).append id (a.drop (args.next + 1))).trim
        args.trim).1))
    rw [if_pos rfl] at after
    obtain ⟨expiresAt, found⟩ := after.find
    refine Or.inr ⟨fmtId id, rfl, args, id, _, expiresAt, parses, rfl, found, ?_,
      pickId_grows picks, trim_lastId _ _, entries_trim _ _⟩
    intro k different
    have same : ((ctx.lookup (arg a 1) db').setData (arg a 1) (.stream
        (((seenStream db (arg a 1) ctx.now.val).append id (a.drop (args.next + 1))).trim
          args.trim).1)).find k ctx.now.val = (ctx.lookup (arg a 1) db').find k ctx.now.val := by
      simp [Db.find, Db.setData, different]
    exact (same.trans (find_lookup ctx _ db' k)).trans (others k different)

theorem zero_le (id : Id) : Id.zero ≤ id := by
  rw [← not_lt, Id.lt_iff]
  rintro (less | ⟨_, less⟩)
  · exact absurd less (Fin.not_lt_zero _)
  · exact absurd less (Fin.not_lt_zero _)

theorem pickId_new (now : U64) {given : Option (Id × Bool)} (notZero : given ≠ some (.zero, true)) :
    ∃ id, pickId {} now given = .ok id := by
  have picks : ∀ id, candidateId {} now given = .ok id → id ≠ .zero →
      pickId {} now given = .ok id := by
    intro id isCandidate positive
    unfold pickId
    rw [if_neg (by decide), isCandidate]
    apply if_neg
    rintro ⟨below, _⟩
    exact positive (le_antisymm below (zero_le id))
  have following : followingId {} = .ok ⟨0, 1⟩ := rfl
  cases given with
  | none =>
    by_cases later : (0 : U64) < now
    · refine ⟨⟨now, 0⟩, picks _ (if_pos later) ?_⟩
      intro isZero
      cases isZero
      exact absurd later (lt_irrefl _)
    · exact ⟨⟨0, 1⟩, picks _ ((if_neg later).trans following) (by decide)⟩
  | some pair =>
    obtain ⟨id, seqGiven⟩ := pair
    cases seqGiven with
    | true =>
      refine ⟨id, picks id rfl ?_⟩
      intro isZero
      exact notZero (by rw [isZero])
    | false =>
      have isCandidate : candidateId {} now (some (id, false)) =
          if id.ms < 0 then tooSmall else if id.ms = 0 then followingId {} else .ok ⟨id.ms, 0⟩ :=
        rfl
      rw [if_neg (Fin.not_lt_zero _)] at isCandidate
      by_cases same : id.ms = 0
      · rw [if_pos same] at isCandidate
        exact ⟨⟨0, 1⟩, picks _ (isCandidate.trans following) (by decide)⟩
      · rw [if_neg same] at isCandidate
        refine ⟨⟨id.ms, 0⟩, picks _ isCandidate ?_⟩
        intro isZero
        exact same (congrArg Id.ms isZero)

theorem find_of_missing {now : Nat} (missing : db.map.get key = none) : db.find key now = none := by
  unfold Db.find
  rw [missing]
  rfl

theorem seenStream_of_live {now : Nat} {s : Stream} (live : LiveStream now db' key s)
    (same : db'.find key now = db.find key now) : seenStream db key now = s := by
  obtain ⟨expiresAt, found⟩ := live.find
  unfold seenStream
  rw [← same, found]
  rfl

theorem xadd_adds (ctx : Ctx) (a : List Bytes) (db : Db) : AddsOrKeeps ctx a db (xadd ctx a db) := by
  apply parsed_rule
  · intro e
    exact fail_keeps e (fun _ => rfl)
  · intro args parses
    simp only []
    split
    · exact fail_keeps _ (fun _ => rfl)
    · split
      · exact fail_keeps _ (fun _ => rfl)
      · rename_i notZero
        have same := find_getStream ctx (arg a 1) db
        apply andThen_rule
        · intro e failed
          rw [getStream_error failed]
          exact fail_keeps _ same
        · intro found isFound
          cases found with
          | some s =>
            have live := LiveStream.of_getStream isFound
            have isSeen := seenStream_of_live live (same _)
            apply addTo_adds parses
            · rw [isSeen]
              exact live
            · exact fun k _ => same k
            · exact fun _ _ => same
          | none =>
            simp only []
            split
            · exact Or.inl ⟨Or.inr rfl, same⟩
            · have missing := getStream_missing isFound
              have isNew : seenStream db (arg a 1) ctx.now.val = {} := by
                unfold seenStream
                rw [← same, find_of_missing missing]
                rfl
              apply addTo_adds parses
              · rw [isNew]
                exact live_insertStream ctx _ _
              · intro k different
                have kept : (ctx.insertStream (arg a 1) (ctx.getStream (arg a 1) db).2).find k
                    ctx.now.val = (ctx.getStream (arg a 1) db).2.find k ctx.now.val := by
                  simp [Db.find, Ctx.insertStream, Db.insert, different]
                exact kept.trans (same k)
              · intro e failed
                rw [isNew] at failed
                obtain ⟨id, picks⟩ := pickId_new ctx.now notZero
                rw [picks] at failed
                cases failed

/-- No XSETID of the run gives the stream of the key a lower greatest deleted id. -/
def KeepsDeleted (key : Bytes) : List Call → Db → Prop
  | [], _ => True
  | c :: calls, db =>
    (∀ args least s, streamCommand c.2 = some .xsetid → arg c.2 1 = key →
      setIdArgs c.2 = .ok args → args.2.2 = some least → db.streamAt key = some s →
      s.maxDeletedId ≤ least) ∧
    KeepsDeleted key calls (call c.1 c.2 db).2

def Label.NotSetId (l : Label) : Prop := ∀ maxDeleted, l ≠ .setId maxDeleted

/-- The ids ever added grow, and each is still stored or at most the greatest deleted id. -/
structure Grown (added : List Id) (s : Stream) : Prop where
  increasing : added.Pairwise (· < ·)
  kept : ∀ id ∈ added, id ∈ s.entries.keys ∨ id ≤ s.maxDeletedId
  stored : ∀ id ∈ s.entries.keys, id ≤ s.lastId
  maxDeleted : s.maxDeletedId ≤ s.lastId

namespace Grown

variable {added : List Id} {s : Stream}

theorem bounded (grown : Grown added s) : ∀ id ∈ added, id ≤ s.lastId := by
  intro id member
  rcases grown.kept id member with isStored | isDeleted
  · exact grown.stored id isStored
  · exact le_trans isDeleted grown.maxDeleted

theorem new : Grown [] {} where
  increasing := List.Pairwise.nil
  kept := by simp
  stored := by simp
  maxDeleted := le_refl _

theorem add (grown : Grown added s) {id : Id} (fields : Fields) (grows : s.lastId < id) :
    Grown (added ++ [id]) (s.append id fields) where
  increasing := by
    rw [List.pairwise_append]
    refine ⟨grown.increasing, List.pairwise_singleton _ _, ?_⟩
    intro j member k isNew
    rw [List.mem_singleton.mp isNew]
    exact lt_of_le_of_lt (grown.bounded j member) grows
  kept := by
    intro j member
    have isKey := OrderedMap.mem_keys_insert s.entries id j fields
    rcases List.mem_append.mp member with isOld | isNew
    · exact (grown.kept j isOld).imp (fun isStored => isKey.mpr (Or.inr isStored)) (fun below => below)
    · exact Or.inl (isKey.mpr (Or.inl (List.mem_singleton.mp isNew)))
  stored := by
    intro j member
    rcases (OrderedMap.mem_keys_insert s.entries id j fields).mp member with isNew | isOld
    · exact le_of_eq isNew
    · exact le_trans (grown.stored j isOld) (le_of_lt grows)
  maxDeleted := le_trans grown.maxDeleted (le_of_lt grows)

theorem remove (grown : Grown added s) {id : Id} (stored : id ∈ s.entries.keys) :
    Grown added (s.removeEntry id) where
  increasing := grown.increasing
  kept := by
    intro j member
    show _ ∨ j ≤ if s.maxDeletedId < id then id else s.maxDeletedId
    rcases grown.kept j member with isStored | isDeleted
    · by_cases isRemoved : j = id
      · apply Or.inr
        rw [isRemoved]
        split
        · exact le_refl id
        · rename_i notAbove
          exact not_lt.mp notAbove
      · exact Or.inl ((s.keys_removeEntry id j).mpr ⟨isRemoved, isStored⟩)
    · apply Or.inr
      split
      · rename_i above
        exact le_trans isDeleted (le_of_lt above)
      · exact isDeleted
  stored := fun j member => grown.stored j ((s.keys_removeEntry id j).mp member).2
  maxDeleted := by
    show (if s.maxDeletedId < id then id else s.maxDeletedId) ≤ s.lastId
    split
    · exact grown.stored id stored
    · exact grown.maxDeleted

theorem setId (grown : Grown added s) {t : Stream} {id : Id} {entriesAdded : Option Nat}
    {maxDeleted : Option Id} (below : ∀ greatest ∈ maxDeleted, greatest ≤ id)
    (keeps : ∀ least ∈ maxDeleted, s.maxDeletedId ≤ least)
    (done : s.setId id entriesAdded maxDeleted = .ok t) : Grown added t := by
  unfold Stream.setId at done
  split at done
  · cases done
  · rename_i notBelowTop
    split at done
    · cases done
    · split at done
      · cases done
      · rename_i notBelowDeleted
        cases done
        have grows : s.maxDeletedId ≤ maxDeleted.getD s.maxDeletedId := by
          cases maxDeleted with
          | none => exact le_refl _
          | some least => exact keeps least rfl
        refine ⟨grown.increasing, ?_, ?_, ?_⟩
        · intro j member
          exact (grown.kept j member).imp (fun isStored => isStored)
            (fun isDeleted => le_trans isDeleted grows)
        · intro j isStored
          show j ≤ id
          cases isLast : s.entries.lastKey? with
          | none =>
            have isNil : s.entries.keys = [] := List.getLast?_eq_none_iff.mp isLast
            rw [isNil] at isStored
            cases isStored
          | some last =>
            rw [isLast] at notBelowTop
            have atMost : last ≤ id := by simpa using notBelowTop
            exact le_trans (OrderedMap.le_lastKey? isLast isStored) atMost
        · show maxDeleted.getD s.maxDeletedId ≤ id
          cases maxDeleted with
          | none => exact not_lt.mp (fun less => notBelowDeleted ⟨rfl, less⟩)
          | some least => exact below least rfl

theorem step {t : Stream} {l : Label} (notSetId : l.NotSetId)
    (step : Stream.Step s l t) (grown : Grown added s) : Grown (added ++ adds [l]) t := by
  have same : ∀ groups, Grown (added ++ []) { s with groups := groups } := by
    intro groups
    rw [List.append_nil]
    exact ⟨grown.increasing, grown.kept, grown.stored, grown.maxDeleted⟩
  cases step with
  | add grows => exact grown.add _ grows
  | remove stored =>
    show Grown (added ++ []) _
    rw [List.append_nil]
    exact grown.remove stored
  | setId _ _ => exact absurd rfl (notSetId _)
  | create _ => exact same _
  | drop => exact same _
  | place _ => exact same _
  | raise _ => exact same _
  | deliver _ _ _ _ => exact same _
  | rehold _ _ => exact same _

end Grown

theorem xsetid_streamAt {ctx : Ctx} {a : List Bytes} {db : Db} {key : Bytes}
    (durable : db.Durable key) :
    (xsetid ctx a db).2.streamAt key = db.streamAt key ∨
      ∃ s t args, db.streamAt key = some s ∧ arg a 1 = key ∧ setIdArgs a = .ok args ∧
        s.setId args.1 args.2.1 args.2.2 = .ok t ∧ (xsetid ctx a db).2.streamAt key = some t := by
  have keeps := Keeps.getStream ctx (arg a 1) db key durable
  unfold xsetid
  cases parses : setIdArgs a with
  | error e => exact Or.inl rfl
  | ok args =>
    show ((ctx.getStream (arg a 1) db).andThen _).2.streamAt key = _ ∨ _
    apply andThen_rule (Q := fun r => r.2.streamAt key = db.streamAt key ∨
      ∃ s t args', db.streamAt key = some s ∧ arg a 1 = key ∧ Except.ok args = .ok args' ∧
        s.setId args'.1 args'.2.1 args'.2.2 = .ok t ∧ r.2.streamAt key = some t)
    · intro e _
      exact Or.inl keeps.2
    · intro found isFound
      cases found with
      | none => exact Or.inl keeps.2
      | some s =>
        simp only []
        cases done : s.setId args.1 args.2.1 args.2.2 with
        | error e => exact Or.inl keeps.2
        | ok t =>
          by_cases isKey : arg a 1 = key
          · apply Or.inr
            have isAt := getStream_found isFound
            rw [isKey] at isAt
            refine ⟨s, t, args, keeps.2.symm.trans (isKey ▸ isAt), isKey, rfl, done, ?_⟩
            obtain ⟨expiresAt, isEntry, _⟩ := LiveStream.of_getStream isFound
            show (Db.setData _ (arg a 1) (.stream t)).streamAt key = some t
            rw [← isKey]
            simp [Db.streamAt, Db.setData, isEntry, Data.stream?]
          · apply Or.inl
            have other : (Db.setData (ctx.getStream (arg a 1) db).2 (arg a 1)
                (.stream t)).streamAt key = (ctx.getStream (arg a 1) db).2.streamAt key := by
              simp [Db.streamAt, Db.setData, Ne.symm isKey]
            exact other.trans keeps.2

theorem grown_runCalls (key : Bytes) (calls : List Call) (db : Db) (durable : db.Durable key)
    (keeps : KeepsDeleted key calls db) (added : List Id)
    (tracked : Tracked Grown added (db.streamAt key)) :
    Tracked Grown (added ++ addedIn key calls db) ((runCalls calls db).streamAt key) := by
  induction calls generalizing db added with
  | nil =>
    show Tracked Grown (added ++ []) _
    rw [List.append_nil]
    exact tracked
  | cons c calls ih =>
    obtain ⟨first, later⟩ := keeps
    obtain ⟨durable', labels, explains, steps⟩ := call_evolves c.1 c.2 db key durable
    have after : Tracked Grown (added ++ addedBy key c.2 (call c.1 c.2 db).1)
        ((call c.1 c.2 db).2.streamAt key) := by
      by_cases isSetId : streamCommand c.2 = some .xsetid
      · rw [addedBy_of_other (by rw [isSetId]; simp), List.append_nil]
        have isCall : (call c.1 c.2 db).2 = (xsetid c.1 c.2 db).2 ∨ (call c.1 c.2 db).2 = db := by
          unfold call
          rw [isSetId]
          simp only []
          split
          · exact Or.inl rfl
          · exact Or.inr rfl
        rcases isCall with isCall | isCall
        · rw [isCall]
          rcases @xsetid_streamAt c.1 c.2 db key durable with same | changed
          · rw [same]
            exact tracked
          · obtain ⟨s, t, args, isAt, isKey, parses, done, isAfter⟩ := changed
            rw [isAt] at tracked
            rcases tracked with ⟨isNone, _⟩ | ⟨s', isSome, grown⟩
            · cases isNone
            · cases isSome
              rw [isAfter]
              refine Or.inr ⟨t, rfl, grown.setId (setIdArgs_bounds parses) ?_ done⟩
              intro least isLeast
              exact first args least s isSetId isKey parses isLeast isAt
        · rw [isCall]
          exact tracked
      · rw [← explains.added]
        have notSetId : ∀ l ∈ labels, l.NotSetId := by
          intro l member maxDeleted isLabel
          have permitted := explains.permitted l member
          rw [isLabel] at permitted
          exact isSetId permitted.1
        exact tracked.stepsFrom Grown.new
          (fun added s l t allowed step grown => Grown.step allowed step grown) steps notSetId
    have final := ih _ durable' later _ after
    rw [List.append_assoc] at final
    exact final

/-- XADD leaves the keyspace, or adds above the last id and trims exactly; in a run whose XSETIDs lower
no greatest deleted id, the ids ever added to a stream increase. -/
theorem xadd_grows :
    (∀ ctx a db, AddsOrKeeps ctx a db (xadd ctx a db)) ∧
    (∀ id, (nextId id = none ↔ id = .max) ∧
      ∀ next, nextId id = some next → id < next ∧ ∀ j, id < j → next ≤ j) ∧
    ∀ calls key, KeepsDeleted key calls {} →
      (addedIn key calls {}).Pairwise (· < ·) ∧
      ∀ s, (runCalls calls {}).streamAt key = some s →
        ∀ id, id ∈ addedIn key calls {} ∨ id ∈ s.entries.keys → id ≤ s.lastId := by
  refine ⟨xadd_adds, ?_, ?_⟩
  · intro id
    apply And.intro (nextId_none_iff id)
    intro next isNext
    exact ⟨(nextId_le_iff isNext next).mp (le_refl next), fun j => (nextId_le_iff isNext j).mpr⟩
  · intro calls key keeps
    have final := grown_runCalls key calls {} (durable_empty key) keeps [] (Or.inl ⟨rfl, rfl⟩)
    rw [List.nil_append] at final
    rcases final with ⟨isNone, isNil⟩ | ⟨s, isSome, grown⟩
    · rw [isNil, isNone]
      apply And.intro List.Pairwise.nil
      intro s isSome
      cases isSome
    · apply And.intro grown.increasing
      intro t isAt id has
      rw [isSome] at isAt
      cases isAt
      rcases has with isAdded | isStored
      · exact grown.bounded id isAdded
      · exact grown.stored id isStored

def forgets : List Call :=
  [typed 1 ["XADD", "k", "5-0", "f", "v"],
    typed 2 ["XDEL", "k", "5-0"],
    typed 3 ["XSETID", "k", "1-0", "MAXDELETEDID", "0-0"],
    typed 4 ["XADD", "k", "3-0", "f", "v"]]

theorem xadd_below : addedIn (ascii "k") forgets {} = [⟨5, 0⟩, ⟨3, 0⟩] ∧ (⟨3, 0⟩ : Id) < ⟨5, 0⟩ := by
  decide +kernel

end NoidaDb.Redis
