/-
A read in a group hands out the entries that its reply lists, and changes nothing else but
pending lists.
-/

import NoidaDb.Redis.GroupEffects

namespace NoidaDb.Redis

open Lib

def LiveStream (now : Nat) (db : Db) (key : Bytes) (s : Stream) : Prop :=
  ∃ expiresAt, db.map.get key = some { data := .stream s, expiresAt := expiresAt } ∧
    (Entry.mk (.stream s) expiresAt).isExpired now = false

def KnownAt (now : Nat) (db : Db) (key name : Bytes) : Prop :=
  ∃ s g, LiveStream now db key s ∧ s.groups.get name = some g

variable {args : ReadArgs} {db : Db} {key : Bytes} {a : List Bytes}

theorem get_dropExpired {now : Nat} {other : Bytes} {e : Entry}
    (found : db.map.get other = some e) (live : e.isExpired now = false) :
    (db.dropExpired key now).map.get other = some e := by
  unfold Db.dropExpired
  split
  · rename_i expired
    have different : other ≠ key := by
      intro same
      rw [← same, found] at expired
      simp [live] at expired
    simp [different, found]
  · exact found

theorem map_touch (db : Db) (key : Bytes) (now : Nat) :
    (db.touch key now).map = (db.dropExpired key now).map := by
  unfold Db.touch
  simp only []
  split
  · rfl
  · rfl

theorem map_lookup (ctx : Ctx) (key : Bytes) (db : Db) :
    (ctx.lookup key db).map = (db.dropExpired key ctx.now.val).map := by
  unfold Ctx.lookup
  split
  · rfl
  · exact map_touch db key _

theorem live_of_lookup {ctx : Ctx} {e : Entry} (found : (ctx.lookup key db).map.get key = some e) :
    e.isExpired ctx.now.val = false := by
  rw [map_lookup] at found
  unfold Db.dropExpired at found
  split at found
  · simp at found
  · rename_i notExpired
    rw [found] at notExpired
    simpa using notExpired

theorem getStream_db (ctx : Ctx) (key : Bytes) (db : Db) :
    (ctx.getStream key db).2 = ctx.lookup key db := by
  unfold Ctx.getStream
  simp only []
  split
  · rfl
  · rfl
  · rfl

namespace LiveStream

variable {db : Db} {key : Bytes} {s : Stream}

theorem streamAt {now : Nat} (live : LiveStream now db key s) : db.streamAt key = some s := by
  obtain ⟨expiresAt, found, _⟩ := live
  simp [Db.streamAt, found, Data.stream?]

theorem lookup {ctx : Ctx} (live : LiveStream ctx.now.val db key s) (other : Bytes) :
    LiveStream ctx.now.val (ctx.lookup other db) key s := by
  obtain ⟨expiresAt, found, notExpired⟩ := live
  refine ⟨expiresAt, ?_, notExpired⟩
  rw [map_lookup]
  exact get_dropExpired found notExpired

theorem getStream {ctx : Ctx} (live : LiveStream ctx.now.val db key s) :
    ctx.getStream key db = (.ok (some s), ctx.lookup key db) := by
  obtain ⟨expiresAt, found, notExpired⟩ := live
  have stays : (ctx.lookup key db).map.get key =
      some { data := .stream s, expiresAt := expiresAt } := by
    rw [map_lookup]
    exact get_dropExpired found notExpired
  unfold Ctx.getStream
  simp only [stays]

theorem of_getStream {ctx : Ctx} (found : (ctx.getStream key db).1 = .ok (some s)) :
    LiveStream ctx.now.val (ctx.getStream key db).2 key s := by
  rw [getStream_db]
  unfold Ctx.getStream at found
  cases isEntry : (ctx.lookup key db).map.get key with
  | none => simp [isEntry] at found
  | some e =>
    have notExpired := live_of_lookup isEntry
    obtain ⟨data, expiresAt⟩ := e
    cases data with
    | stream s' =>
      simp only [isEntry, Except.ok.injEq, Option.some.injEq] at found
      rw [found] at isEntry notExpired
      exact ⟨expiresAt, isEntry, notExpired⟩
    | _ => simp [isEntry] at found

theorem setData {now : Nat} (live : LiveStream now db key s) (other : Bytes) (s' : Stream) :
    LiveStream now (db.setData other (.stream s')) key (if key = other then s' else s) := by
  obtain ⟨expiresAt, found, notExpired⟩ := live
  refine ⟨expiresAt, ?_, ?_⟩
  · by_cases same : key = other
    · subst same
      simp [Db.setData, found]
    · simp [Db.setData, same, found]
  · exact notExpired

end LiveStream

namespace KnownAt

variable {db : Db} {key name : Bytes}

theorem lookup {ctx : Ctx} (known : KnownAt ctx.now.val db key name) (other : Bytes) :
    KnownAt ctx.now.val (ctx.lookup other db) key name := by
  obtain ⟨s, g, live, isGroup⟩ := known
  exact ⟨s, g, live.lookup other, isGroup⟩

theorem getStream {ctx : Ctx} (known : KnownAt ctx.now.val db key name) :
    ∃ s g, ctx.getStream key db = (.ok (some s), ctx.lookup key db) ∧
      s.groups.get name = some g := by
  obtain ⟨s, g, live, isGroup⟩ := known
  exact ⟨s, g, live.getStream, isGroup⟩

theorem setData {now : Nat} {other : Bytes} {s : Stream} {g : Group}
    (known : KnownAt now db key name) (isGroup : s.groups.get name = some g) :
    KnownAt now (db.setData other (.stream s)) key name := by
  obtain ⟨s', g', live, isGroup'⟩ := known
  have after := live.setData other s
  by_cases same : key = other
  · rw [if_pos same] at after
    exact ⟨s, g, after, isGroup⟩
  · rw [if_neg same] at after
    exact ⟨s', g', after, isGroup'⟩

end KnownAt

def freshOf (key : Bytes) (parts : List Part) : List Id :=
  parts.flatMap (fun part => if part.key = key then freshIds (some part) else [])

theorem readOne_evolves {ctx : Ctx} {name consumer : Bytes}
    (inGroup : args.group = some (name, consumer)) (known : KnownAt ctx.now.val db key name)
    (after : Id) :
    ∃ part, (readOne ctx args key after db).1 = .ok part ∧ (∀ p ∈ part, p.key = key) ∧
      Evolves (fun k ls => Delivers name (if k = key then freshIds part else []) ls) db
        (readOne ctx args key after db).2 ∧
      ∀ k, KnownAt ctx.now.val db k name →
        KnownAt ctx.now.val (readOne ctx args key after db).2 k name := by
  obtain ⟨s, g, isFirst, _⟩ := known.getStream
  obtain ⟨s', g', isSecond, isGroup⟩ := (known.lookup key).getStream
  obtain ⟨g'', part, labels, isPart, isKey, delivers, steps⟩ :=
    readGroupPart_steps isGroup key consumer after args.count args.noack ctx.now.val
  have found := getStream_found (congrArg Prod.fst isSecond)
  rw [isSecond] at found
  have isRead : readOne ctx args key after db =
      (.ok part, (ctx.lookup key (ctx.lookup key db)).setData key
        (.stream (s'.setGroup name g''))) := by
    unfold readOne
    simp only [isFirst, isSecond, inGroup, isGroup, isPart]
  refine ⟨part, by rw [isRead], isKey, ?_, ?_⟩
  · rw [isRead]
    apply Evolves.after ((Keeps.lookup ctx key db).trans (Keeps.lookup ctx key _))
    apply Evolves.weaken (Evolves.setData found steps)
    intro k ls isLabels
    rw [isLabels]
    split
    · exact delivers
    · exact Delivers.nil name
  · intro k knownK
    rw [isRead]
    exact ((knownK.lookup key).lookup key).setData (get_setGroup s' name g'')

theorem readParts_evolves {ctx : Ctx} {name consumer : Bytes}
    (inGroup : args.group = some (name, consumer)) (reads : List (Bytes × Id)) (db : Db)
    (known : ∀ r ∈ reads, KnownAt ctx.now.val db r.1 name) :
    ∃ parts, (readParts ctx args reads db).1 = .ok parts ∧
      Evolves (fun k ls => Delivers name (freshOf k parts) ls) db
        (readParts ctx args reads db).2 := by
  induction reads generalizing db with
  | nil =>
    exact ⟨[], rfl, Evolves.of_keeps (Keeps.refl db) (fun _ => Delivers.nil name)⟩
  | cons r reads ih =>
    obtain ⟨key, after⟩ := r
    obtain ⟨knownKey, knownRest⟩ := List.forall_mem_cons.mp known
    obtain ⟨part, isPart, isKey, evolves, stay⟩ := readOne_evolves inGroup knownKey after
    obtain ⟨parts, isParts, evolves'⟩ := ih (readOne ctx args key after db).2
      (fun r member => stay r.1 (knownRest r member))
    have isRead : readParts ctx args ((key, after) :: reads) db =
        (.ok (part.toList ++ parts),
          (readParts ctx args reads (readOne ctx args key after db).2).2) := by
      have first : readOne ctx args key after db =
          (.ok part, (readOne ctx args key after db).2) := Prod.ext isPart rfl
      have second : readParts ctx args reads (readOne ctx args key after db).2 =
          (.ok parts, (readParts ctx args reads (readOne ctx args key after db).2).2) :=
        Prod.ext isParts rfl
      rw [readParts, first]
      simp only []
      rw [second]
    refine ⟨part.toList ++ parts, by rw [isRead], ?_⟩
    rw [isRead]
    apply Evolves.trans evolves evolves'
    intro k ls ms first second
    have isFresh : freshOf k (part.toList ++ parts) =
        (if k = key then freshIds part else []) ++ freshOf k parts := by
      unfold freshOf
      rw [List.flatMap_append]
      congr 1
      cases part with
      | none => simp [freshIds]
      | some p =>
        have same := isKey p rfl
        simp [same, eq_comm]
    rw [isFresh]
    exact first.append second

theorem knownGroup_keeps (ctx : Ctx) (group : Option (Bytes × Bytes)) (key : Bytes) (db : Db) :
    Keeps db (knownGroup ctx group key db).2 := by
  unfold knownGroup
  cases group with
  | none => exact Keeps.refl db
  | some names =>
    have keeps := Keeps.getStream ctx key db
    simp only []
    split
    · rename_i isStream
      rw [isStream] at keeps
      exact keeps
    · rename_i isStream
      rw [isStream] at keeps
      split
      · exact keeps
      · exact keeps

theorem readId_keeps (ctx : Ctx) (isGroup : Bool) (key raw : Bytes) (db : Db) :
    Keeps db (readId ctx isGroup key raw db).2 := by
  unfold readId
  have keeps := Keeps.getStream ctx key db
  split
  · split
    · exact Keeps.refl db
    · split
      · rename_i isStream
        rw [isStream] at keeps
        exact keeps
      · rename_i isStream
        rw [isStream] at keeps
        exact keeps
  · split
    · split
      · exact Keeps.refl db
      · exact Keeps.refl db
    · split
      · exact Keeps.refl db
      · exact Keeps.refl db

theorem readIds_keeps (ctx : Ctx) (isGroup : Bool) (group : Option (Bytes × Bytes))
    (reads : List (Bytes × Bytes)) (db : Db) :
    Keeps db (readIds ctx isGroup group reads db).2 := by
  induction reads generalizing db with
  | nil => exact Keeps.refl db
  | cons r reads ih =>
    obtain ⟨key, raw⟩ := r
    have first := knownGroup_keeps ctx group key db
    unfold readIds
    split
    · rename_i isKnown
      rw [isKnown] at first
      exact first
    · rename_i db' isKnown
      rw [isKnown] at first
      have second := first.trans (readId_keeps ctx isGroup key raw db')
      split
      · rename_i isId
        rw [isId] at second
        exact second
      · rename_i db'' isId
        rw [isId] at second
        have third := second.trans (ih db'')
        split
        · rename_i isIds
          rw [isIds] at third
          exact third
        · rename_i isIds
          rw [isIds] at third
          exact third

theorem readId_known {ctx : Ctx} {key raw : Bytes} {db : Db} {other name : Bytes}
    (known : KnownAt ctx.now.val db other name) :
    KnownAt ctx.now.val (readId ctx true key raw db).2 other name := by
  unfold readId
  split
  · exact known
  · split
    · exact known
    · split
      · exact known
      · exact known

theorem knownGroup_known (ctx : Ctx) (name consumer key : Bytes) (db : Db) :
    (∀ other, KnownAt ctx.now.val db other name →
      KnownAt ctx.now.val (knownGroup ctx (some (name, consumer)) key db).2 other name) ∧
    ((knownGroup ctx (some (name, consumer)) key db).1 = .ok () →
      KnownAt ctx.now.val (knownGroup ctx (some (name, consumer)) key db).2 key name) := by
  have isDb := getStream_db ctx key db
  have whenFound := fun s => @LiveStream.of_getStream db key s ctx
  unfold knownGroup
  generalize ctx.getStream key db = r at isDb whenFound ⊢
  obtain ⟨result, db'⟩ := r
  cases isDb
  cases result with
  | error e =>
    constructor
    · intro other known
      exact known.lookup key
    · intro isOk
      cases isOk
  | ok found =>
    simp only []
    split
    · rename_i hasGroup
      constructor
      · intro other known
        exact known.lookup key
      · intro _
        obtain ⟨s, isFound, contains⟩ := (Option.any_eq_true _ _).mp hasGroup
        obtain ⟨g, isGroup⟩ := Option.isSome_iff_exists.mp contains
        exact ⟨s, g, whenFound s (by rw [isFound]), isGroup⟩
    · constructor
      · intro other known
        exact known.lookup key
      · intro isOk
        cases isOk

theorem readIds_known (ctx : Ctx) {name consumer : Bytes} (reads : List (Bytes × Bytes)) (db : Db)
    {ids : List Id} (isOk : (readIds ctx true (some (name, consumer)) reads db).1 = .ok ids) :
    (∀ other, KnownAt ctx.now.val db other name →
      KnownAt ctx.now.val (readIds ctx true (some (name, consumer)) reads db).2 other name) ∧
    ∀ r ∈ reads,
      KnownAt ctx.now.val (readIds ctx true (some (name, consumer)) reads db).2 r.1 name := by
  induction reads generalizing db ids with
  | nil => exact ⟨fun _ known => known, by simp⟩
  | cons r reads ih =>
    obtain ⟨key, raw⟩ := r
    obtain ⟨stays, isKnown⟩ := knownGroup_known ctx name consumer key db
    unfold readIds at isOk ⊢
    cases isCheck : knownGroup ctx (some (name, consumer)) key db with
    | mk check db' =>
      rw [isCheck] at stays isKnown isOk
      cases check with
      | error e => cases isOk
      | ok _ =>
        have stays' := fun other => @readId_known ctx key raw db' other name
        simp only [] at isOk ⊢
        cases isRead : readId ctx true key raw db' with
        | mk read db'' =>
          rw [isRead] at stays' isOk
          cases read with
          | error e => cases isOk
          | ok id =>
            simp only [] at isOk ⊢
            cases isRest : readIds ctx true (some (name, consumer)) reads db'' with
            | mk rest db''' =>
              rw [isRest] at isOk
              cases rest with
              | error e => cases isOk
              | ok ids' =>
                obtain ⟨stays'', known⟩ := ih db'' (by rw [isRest])
                rw [isRest] at stays'' known
                constructor
                · intro other knownOther
                  exact stays'' other (stays' other (stays other knownOther))
                · intro r member
                  rcases List.mem_cons.mp member with isFirst | isLater
                  · rw [isFirst]
                    exact stays'' key (stays' key (isKnown rfl))
                  · exact known r isLater

/-- The entries of the key that a read hands out to the group, with the consumer that gets them. -/
def outOf (args : ReadArgs) (result : Except Answer (List Id × List Part)) (key group : Bytes) :
    List (Id × Bytes) :=
  match args.group, result with
  | some (name, consumer), .ok (_, parts) =>
    if name = group then (freshOf key parts).map (fun id => (id, consumer)) else []
  | _, _ => []

def handedOut (ctx : Ctx) (a : List Bytes) (db : Db) (key group : Bytes) : List (Id × Bytes) :=
  if streamCommand a = some .xreadgroup ∧ StreamCommand.xreadgroup.arityHolds a.length then
    match parseRead a true with
    | .error _ => []
    | .ok args => outOf args (readAll ctx a true args db).1 key group
  else []

theorem handedOut_of_other {ctx : Ctx} (other : ¬(streamCommand a = some .xreadgroup ∧
      StreamCommand.xreadgroup.arityHolds a.length)) (db : Db) (key group : Bytes) :
    handedOut ctx a db key group = [] := by
  unfold handedOut
  rw [if_neg other]

def ReadLabels (out : Bytes → Bytes → List (Id × Bytes)) (key : Bytes) (labels : List Label) :
    Prop :=
  (∀ group, deliveries group labels = (out key group).map Prod.fst) ∧
    ∀ l ∈ labels, l = .silent ∨ ∃ name id, l = .deliver name id

theorem parseRead_group (parses : parseRead a true = .ok args) :
    ∃ name consumer, args.group = some (name, consumer) := by
  unfold parseRead at parses
  cases isOptions : readOptions true (a.length - 1) (a.drop 1) 1 {} with
  | error e =>
    rw [isOptions] at parses
    cases parses
  | ok args' =>
    rw [isOptions] at parses
    change (if args'.streamsArg = 0 then syntaxError
      else if true && args'.group.isNone then _ else .ok args') = _ at parses
    split at parses
    · cases parses
    · split at parses
      · cases parses
      · rename_i hasGroup
        cases parses
        cases isGroup : args.group with
        | none => simp [isGroup] at hasGroup
        | some names => exact ⟨names.1, names.2, rfl⟩

theorem deliveries_other {name group : Bytes} (different : name ≠ group) {labels : List Label}
    (only : ∀ l ∈ labels, l = .silent ∨ ∃ id, l = .deliver name id) :
    deliveries group labels = [] := by
  apply List.filterMap_eq_nil_iff.mpr
  intro l member
  rcases only l member with isSilent | ⟨id, isDeliver⟩
  · rw [isSilent]
  · rw [isDeliver]
    exact if_neg different

theorem readIds_length {ctx : Ctx} {isGroup : Bool} {group : Option (Bytes × Bytes)}
    (reads : List (Bytes × Bytes)) (db : Db) {ids : List Id}
    (isOk : (readIds ctx isGroup group reads db).1 = .ok ids) : ids.length = reads.length := by
  induction reads generalizing db ids with
  | nil =>
    cases isOk
    rfl
  | cons r reads ih =>
    obtain ⟨key, raw⟩ := r
    unfold readIds at isOk
    split at isOk
    · cases isOk
    · split at isOk
      · cases isOk
      · split at isOk
        · cases isOk
        · rename_i db'' _ _ ids' _ isRest
          cases isOk
          rw [List.length_cons, List.length_cons, ih db'' (by rw [isRest])]

theorem fst_zip {α β γ : Type} (xs : List α) (ys : List β) (zs : List γ)
    (sameLength : zs.length = (xs.zip ys).length) :
    ∀ r ∈ xs.zip zs, ∃ y, (r.1, y) ∈ xs.zip ys := by
  induction xs generalizing ys zs with
  | nil => simp
  | cons x xs ih =>
    cases ys with
    | nil =>
      have isNil : zs = [] := List.length_eq_zero_iff.mp sameLength
      simp [isNil]
    | cons y ys =>
      cases zs with
      | nil => simp
      | cons z zs =>
        intro r member
        rw [List.zip_cons_cons] at member
        rcases List.mem_cons.mp member with isFirst | isLater
        · rw [isFirst]
          exact ⟨y, List.mem_cons_self⟩
        · have sameRest : zs.length = (xs.zip ys).length := by
            simpa using sameLength
          obtain ⟨y', found⟩ := ih ys zs sameRest r isLater
          exact ⟨y', List.mem_cons_of_mem _ found⟩

theorem readAll_evolves (ctx : Ctx) (a : List Bytes) {name consumer : Bytes}
    (inGroup : args.group = some (name, consumer)) (db : Db) :
    (∃ e, (readAll ctx a true args db).1 = .error e ∧ Keeps db (readAll ctx a true args db).2) ∨
      ∃ ids parts, (readAll ctx a true args db).1 = .ok (ids, parts) ∧
        Evolves (fun k ls => Delivers name (freshOf k parts) ls) db
          (readAll ctx a true args db).2 := by
  unfold readAll
  simp only [inGroup]
  generalize readKeys a args = keys
  generalize a.drop (args.streamsArg + keys.length) = raws
  have keeps := readIds_keeps ctx true (some (name, consumer)) (keys.zip raws) db
  cases isIds : readIds ctx true (some (name, consumer)) (keys.zip raws) db with
  | mk result db' =>
    rw [isIds] at keeps
    cases result with
    | error e => exact Or.inl ⟨e, rfl, keeps⟩
    | ok ids =>
      have isOk : (readIds ctx true (some (name, consumer)) (keys.zip raws) db).1 = .ok ids := by
        rw [isIds]
      have known := (readIds_known ctx (keys.zip raws) db isOk).2
      rw [isIds] at known
      have knownReads : ∀ r ∈ keys.zip ids, KnownAt ctx.now.val db' r.1 name := by
        intro r member
        obtain ⟨raw, found⟩ := fst_zip keys raws ids (readIds_length _ db isOk) r member
        exact known (r.1, raw) found
      obtain ⟨parts, isParts, evolves⟩ := readParts_evolves inGroup (keys.zip ids) db' knownReads
      apply Or.inr
      simp only []
      cases isRead : readParts ctx args (keys.zip ids) db' with
      | mk found db'' =>
        rw [isRead] at isParts evolves
        cases isParts
        exact ⟨ids, parts, rfl, Evolves.after keeps evolves⟩

theorem xreadgroup_evolves {ctx : Ctx} (db : Db) (isRead : streamCommand a = some .xreadgroup ∧
      StreamCommand.xreadgroup.arityHolds a.length) :
    Evolves (ReadLabels (handedOut ctx a db)) db (xreadgroup ctx a db).2 := by
  unfold xreadgroup readGeneric parsed
  cases parses : parseRead a true with
  | error e =>
    apply Evolves.of_keeps (Keeps.refl db)
    intro key
    apply And.intro _ (by simp)
    intro group
    unfold handedOut
    rw [if_pos isRead, parses]
    rfl
  | ok args =>
    obtain ⟨name, consumer, inGroup⟩ := parseRead_group parses
    have isOut : ∀ key group, handedOut ctx a db key group =
        outOf args (readAll ctx a true args db).1 key group := by
      intro key group
      unfold handedOut
      rw [if_pos isRead, parses]
    rcases readAll_evolves ctx a inGroup db with
      ⟨e, failed, keeps⟩ | ⟨ids, parts, isOk, evolves⟩
    · apply andThen_rule (Q := fun r => Evolves (ReadLabels (handedOut ctx a db)) db r.2)
      · intro e' _
        apply Evolves.of_keeps keeps
        intro key
        apply And.intro _ (by simp)
        intro group
        rw [isOut, failed]
        unfold outOf
        rw [inGroup]
        rfl
      · intro found isFound
        rw [failed] at isFound
        cases isFound
    · apply andThen_rule (Q := fun r => Evolves (ReadLabels (handedOut ctx a db)) db r.2)
      · intro e isError
        rw [isOk] at isError
        cases isError
      · intro found _
        apply Evolves.weaken evolves
        intro key labels delivers
        constructor
        · intro group
          rw [isOut, isOk]
          unfold outOf
          rw [inGroup]
          simp only []
          split
          · rename_i same
            rw [← same, delivers.1, List.map_map]
            exact (List.map_id _).symm
          · rename_i different
            exact deliveries_other different delivers.2
        · intro l member
          rcases delivers.2 l member with isSilent | ⟨id, isDeliver⟩
          · exact Or.inl isSilent
          · exact Or.inr ⟨name, id, isDeliver⟩

end NoidaDb.Redis
