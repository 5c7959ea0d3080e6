/-
In every run the pending lists of every group agree, and no command fails on an id that one of
the lists lacks.
-/

import NoidaDb.Redis.StreamRuns

namespace NoidaDb.Redis

open Lib

def AllAgree (db : Db) : Prop :=
  ∀ key s, db.streamAt key = some s → ∀ name g, s.groups.get name = some g → g.Agree

variable {db : Db} {key : Bytes} {s : Stream} {a : List Bytes} {g : Group}

theorem agree_step {t : Stream} {l : Label} (step : Stream.Step s l t)
    (agree : ∀ name g, s.groups.get name = some g → g.Agree) :
    ∀ name g, t.groups.get name = some g → g.Agree := by
  have changed : ∀ {name h}, h.Agree → ∀ other g,
      (s.setGroup name h).groups.get other = some g → g.Agree := by
    intro name h agrees other g found
    simp only [Stream.setGroup, OrderedMap.get_insert] at found
    split at found
    · cases found
      exact agrees
    · exact agree other g found
  cases step with
  | add _ => exact agree
  | remove _ => exact agree
  | setId _ done =>
    intro name g found
    apply agree name g
    unfold Stream.setId at done
    split at done
    · cases done
    · split at done
      · cases done
      · split at done
        · cases done
        · cases done
          exact found
  | create _ => exact changed (Group.agree_new _ _)
  | drop =>
    intro name g found
    simp only [OrderedMap.get_erase] at found
    split at found
    · cases found
    · exact agree name g found
  | place found =>
    have before := agree _ _ found
    apply changed
    exact before
  | raise found =>
    have before := agree _ _ found
    apply changed
    exact before
  | deliver found _ _ _ =>
    apply changed
    have before := agree _ _ found
    unfold advance
    split
    · exact before
    · exact before
  | rehold found change => exact changed (change.agree (agree _ _ found))

theorem allAgree_runCalls (calls : List Call) : AllAgree (runCalls calls {}) := by
  intro key s found
  apply run_invariant (fun _ s => ∀ name g, s.groups.get name = some g → g.Agree)
    (fun _ => True) _ _ calls _ found
  · intro name g isGroup
    cases isGroup
  · intro _ s l t _ step agree
    exact agree_step step agree
  · intro _ _ _ _
    trivial

abbrev Calm (r : Answer × Db) : Prop := r.1 ≠ .panic

theorem error_calm (e : Value) (db : Db) : Calm (.error e, db) := by
  intro same
  cases same

theorem value_calm (v : Value) (db : Db) : Calm (.value v, db) := by
  intro same
  cases same

theorem getStream_before {ctx : Ctx} {key : Bytes} {db : Db} {s : Stream}
    (found : (ctx.getStream key db).1 = .ok (some s)) : db.streamAt key = some s := by
  obtain ⟨expiresAt, isEntry, _⟩ := LiveStream.of_getStream found
  rw [getStream_db, map_lookup] at isEntry
  have before : db.map.get key = some { data := .stream s, expiresAt := expiresAt } := by
    unfold Db.dropExpired at isEntry
    split at isEntry
    · simp at isEntry
    · exact isEntry
  simp [Db.streamAt, before, Data.stream?]

theorem getStream_calm {ctx : Ctx} {next : Option Stream → Db → Answer × Db}
    (missing : ∀ db', Calm (next none db'))
    (go : ∀ s db', db.streamAt key = some s → LiveStream ctx.now.val db' key s →
      Calm (next (some s) db')) : Calm ((ctx.getStream key db).andThen next) := by
  apply andThen_rule
  · intro e failed
    rw [getStream_error failed]
    exact error_calm _ _
  · intro found isFound
    cases found with
    | none => exact missing _
    | some s => exact go s _ (getStream_before isFound) (LiveStream.of_getStream isFound)

theorem groupOf_calm {ctx : Ctx} {name : Bytes} {next : Stream × Group → Db → Answer × Db}
    (go : ∀ s g db', db.streamAt key = some s → s.groups.get name = some g →
      Calm (next (s, g) db')) : Calm ((groupOf ctx key name db).andThen next) := by
  have error := fun e => @getStream_error ctx key db e
  have before := fun s => @getStream_before ctx key db s
  unfold groupOf
  generalize ctx.getStream key db = r at error before ⊢
  obtain ⟨result, db'⟩ := r
  cases result with
  | error e =>
    have isError := error e rfl
    rw [isError]
    exact error_calm _ _
  | ok found =>
    cases found with
    | none => exact error_calm _ _
    | some s =>
      have isAt := before s rfl
      simp only []
      cases isGroup : s.groups.get name with
      | none => exact error_calm _ _
      | some g => exact go s g db' isAt isGroup

theorem claimGroup_calm {ctx : Ctx} {name : Bytes} {next : Stream × Group → Db → Answer × Db}
    (go : ∀ s g db', db.streamAt key = some s → s.groups.get name = some g →
      Calm (next (s, g) db')) : Calm ((claimGroup ctx key name db).andThen next) := by
  have calm : Calm ((groupOf ctx key name db).andThen
      (fun found db' => next found (ctx.lookup key (ctx.lookup key db')))) :=
    groupOf_calm (fun s g db' isAt isGroup => go s g _ isAt isGroup)
  unfold claimGroup
  generalize groupOf ctx key name db = r at calm ⊢
  obtain ⟨result, db'⟩ := r
  cases result with
  | error e => exact calm
  | ok found => exact calm

theorem live_insertStream (ctx : Ctx) (key : Bytes) (db : Db) :
    LiveStream ctx.now.val (ctx.insertStream key db) key {} := by
  refine ⟨none, ?_, rfl⟩
  simp [Ctx.insertStream, Db.insert]

theorem addTo_calm {ctx : Ctx} (args : AddTrimArgs) (live : LiveStream ctx.now.val db (arg a 1) s) :
    Calm (addTo ctx a args db) := by
  unfold addTo
  rw [live.getStream]
  apply parsed_rule
  · intro e
    exact error_calm e _
  · intro id _
    exact value_calm _ _

theorem xadd_calm (ctx : Ctx) (a : List Bytes) (db : Db) : Calm (xadd ctx a db) := by
  apply parsed_rule
  · intro e
    exact error_calm e _
  · intro args _
    simp only []
    split
    · exact error_calm _ _
    · split
      · exact error_calm _ _
      · apply getStream_calm
        · intro db'
          simp only []
          split
          · exact value_calm _ _
          · exact addTo_calm args (live_insertStream ctx _ db')
        · intro s db' _ live
          exact addTo_calm args live

theorem xsetid_calm (ctx : Ctx) (a : List Bytes) (db : Db) : Calm (xsetid ctx a db) := by
  apply parsed_rule
  · intro e
    exact error_calm e _
  · intro args _
    apply getStream_calm
    · intro db'
      exact error_calm _ _
    · intro s db' _ _
      apply parsed_rule
      · intro e
        exact error_calm e _
      · intro s' _
        exact value_calm _ _

theorem xdel_calm (ctx : Ctx) (a : List Bytes) (db : Db) : Calm (xdel ctx a db) := by
  apply parsed_rule
  · intro e
    exact error_calm e _
  · intro ids _
    apply getStream_calm
    · intro db'
      exact value_calm _ _
    · intro s db' _ _
      exact value_calm _ _

theorem xtrim_calm (ctx : Ctx) (a : List Bytes) (db : Db) : Calm (xtrim ctx a db) := by
  apply parsed_rule
  · intro e
    exact error_calm e _
  · intro args _
    simp only []
    split
    · exact error_calm _ _
    · apply getStream_calm
      · intro db'
        exact value_calm _ _
      · intro s db' _ _
        exact value_calm _ _

theorem readIds_error {ctx : Ctx} {isGroup : Bool} {group : Option (Bytes × Bytes)}
    (reads : List (Bytes × Bytes)) (db : Db) {e : Answer}
    (failed : (readIds ctx isGroup group reads db).1 = .error e) : e ≠ .panic := by
  induction reads generalizing db with
  | nil => cases failed
  | cons r reads ih =>
    obtain ⟨key, raw⟩ := r
    have known : ∀ e, (knownGroup ctx group key db).1 = .error e → e ≠ .panic := by
      intro e isError same
      rw [same] at isError
      unfold knownGroup at isError
      cases group with
      | none => cases isError
      | some names =>
        have error := fun e => @getStream_error ctx key db e
        simp only [] at isError
        generalize ctx.getStream key db = r at error isError
        obtain ⟨result, db'⟩ := r
        cases result with
        | error e =>
          cases isError
          cases error _ rfl
        | ok found =>
          simp only [] at isError
          split at isError
          · cases isError
          · cases isError
    have read : ∀ db' e, (readId ctx isGroup key raw db').1 = .error e → e ≠ .panic := by
      intro db' e isError same
      rw [same] at isError
      have error := fun e => @getStream_error ctx key db' e
      unfold readId at isError
      split at isError
      · split at isError
        · cases isError
        · generalize ctx.getStream key db' = r at error isError
          obtain ⟨result, db''⟩ := r
          cases result with
          | error e =>
            cases isError
            cases error _ rfl
          | ok found => cases isError
      · split at isError
        · split at isError
          · cases isError
          · cases isError
        · split at isError
          · cases isError
          · cases isError
    unfold readIds at failed
    generalize knownGroup ctx group key db = r at known failed
    obtain ⟨result, db'⟩ := r
    cases result with
    | error e' =>
      cases failed
      exact known e rfl
    | ok _ =>
      simp only [] at failed
      have readHere := read db'
      generalize readId ctx isGroup key raw db' = r at readHere failed
      obtain ⟨result, db''⟩ := r
      cases result with
      | error e' =>
        cases failed
        exact readHere e rfl
      | ok id =>
        simp only [] at failed
        have rest := ih db''
        generalize readIds ctx isGroup group reads db'' = r at rest failed
        obtain ⟨result, db'''⟩ := r
        cases result with
        | error e' =>
          cases failed
          exact rest rfl
        | ok ids => cases failed

theorem readOne_alone_error {ctx : Ctx} {args : ReadArgs} (alone : args.group = none)
    (key : Bytes) (after : Id) (db : Db) {e : Answer}
    (failed : (readOne ctx args key after db).1 = .error e) : e ≠ .panic := by
  have error := fun e => @getStream_error ctx key db e
  have live := fun s => @LiveStream.of_getStream db key s ctx
  unfold readOne at failed
  generalize ctx.getStream key db = r at error live failed
  obtain ⟨result, db'⟩ := r
  cases result with
  | error e' =>
    cases failed
    rw [error e rfl]
    intro same
    cases same
  | ok found =>
    cases found with
    | none => cases failed
    | some s =>
      simp only [(live s rfl).getStream, alone] at failed
      cases failed

theorem readParts_alone_error {ctx : Ctx} {args : ReadArgs} (alone : args.group = none)
    (reads : List (Bytes × Id)) (db : Db) {e : Answer}
    (failed : (readParts ctx args reads db).1 = .error e) : e ≠ .panic := by
  induction reads generalizing db with
  | nil => cases failed
  | cons r reads ih =>
    obtain ⟨key, after⟩ := r
    have one := fun e => @readOne_alone_error ctx args alone key after db e
    unfold readParts at failed
    generalize readOne ctx args key after db = r at one failed
    obtain ⟨result, db'⟩ := r
    cases result with
    | error e' =>
      cases failed
      exact one e rfl
    | ok part =>
      simp only [] at failed
      have rest := ih db'
      generalize readParts ctx args reads db' = r at rest failed
      obtain ⟨result, db''⟩ := r
      cases result with
      | error e' =>
        cases failed
        exact rest rfl
      | ok parts => cases failed

theorem readAll_alone_error {ctx : Ctx} {args : ReadArgs} (alone : args.group = none) (db : Db)
    {e : Answer} (failed : (readAll ctx a false args db).1 = .error e) : e ≠ .panic := by
  unfold readAll at failed
  simp only [alone] at failed
  generalize (readKeys a args).zip (a.drop (args.streamsArg + (readKeys a args).length)) = raws at failed
  have first := fun e => @readIds_error ctx false none raws db e
  generalize readIds ctx false none raws db = r at first failed
  obtain ⟨result, db'⟩ := r
  cases result with
  | error e' =>
    cases failed
    exact first e rfl
  | ok ids =>
    simp only [] at failed
    have second := fun e => @readParts_alone_error ctx args alone ((readKeys a args).zip ids) db' e
    generalize readParts ctx args ((readKeys a args).zip ids) db' = r at second failed
    obtain ⟨result, db''⟩ := r
    cases result with
    | error e' =>
      cases failed
      exact second e rfl
    | ok parts => cases failed

theorem readAnswer_calm (ctx : Ctx) (a : List Bytes) (args : ReadArgs) (keys : List Bytes)
    (ids : List Id) (parts : List Part) (db : Db) :
    Calm (readAnswer ctx a args keys ids parts, db) := by
  intro same
  change readAnswer ctx a args keys ids parts = .panic at same
  unfold readAnswer readNothing at same
  split at same
  · split at same
    · cases same
    · split at same
      · cases same
      · split at same
        · cases same
        · cases same
  · cases same

theorem xread_calm (ctx : Ctx) (a : List Bytes) (db : Db) : Calm (xread ctx a db) := by
  apply parsed_rule
  · intro e
    exact error_calm e _
  · intro args parses
    apply andThen_rule
    · intro e failed
      exact readAll_alone_error (parseRead_alone parses) db failed
    · intro found _
      exact readAnswer_calm ctx a args _ _ _ _

theorem readAll_group_error {ctx : Ctx} {args : ReadArgs} {name consumer : Bytes}
    (inGroup : args.group = some (name, consumer)) (db : Db) {e : Answer}
    (failed : (readAll ctx a true args db).1 = .error e) : e ≠ .panic := by
  unfold readAll at failed
  simp only [inGroup] at failed
  generalize readKeys a args = keys at failed
  generalize a.drop (args.streamsArg + keys.length) = raws at failed
  have first := fun e => @readIds_error ctx true (some (name, consumer)) (keys.zip raws) db e
  have known := fun ids => @readIds_known ctx name consumer (keys.zip raws) db ids
  have length := fun ids => @readIds_length ctx true (some (name, consumer)) (keys.zip raws) db ids
  generalize readIds ctx true (some (name, consumer)) (keys.zip raws) db = r at first known length failed
  obtain ⟨result, db'⟩ := r
  cases result with
  | error e' =>
    cases failed
    exact first e rfl
  | ok ids =>
    obtain ⟨parts, isParts, _⟩ := readParts_evolves inGroup (keys.zip ids) db' (by
      intro r member
      obtain ⟨raw, found⟩ := fst_zip keys raws ids (length ids rfl) r member
      exact (known ids rfl).2 (r.1, raw) found)
    simp only [] at failed
    generalize readParts ctx args (keys.zip ids) db' = r at isParts failed
    obtain ⟨result, db''⟩ := r
    cases isParts
    cases failed

theorem xreadgroup_calm (ctx : Ctx) (a : List Bytes) (db : Db) : Calm (xreadgroup ctx a db) := by
  apply parsed_rule
  · intro e
    exact error_calm e _
  · intro args parses
    obtain ⟨name, consumer, inGroup⟩ := parseRead_group parses
    apply andThen_rule
    · intro e failed
      exact readAll_group_error inGroup db failed
    · intro found _
      exact readAnswer_calm ctx a args _ _ _ _

theorem createGroup_calm {ctx : Ctx} (name : Bytes) (id : Id) (counter : Option Int)
    (live : LiveStream ctx.now.val db key s) : Calm (createGroup ctx key name id counter db) := by
  unfold createGroup
  rw [live.getStream]
  show Calm (if s.groups.contains name then _ else _)
  split
  · exact error_calm _ _
  · exact value_calm _ _

theorem startId_calm {ctx : Ctx} {raw : Bytes} {strict : Bool} {next : Id → Db → Answer × Db}
    (go : ∀ id db', Calm (next id db')) : Calm ((startId ctx key raw strict db).andThen next) := by
  have error := fun e => @getStream_error ctx key db e
  apply andThen_rule
  · intro e failed
    unfold startId at failed
    split at failed
    · generalize ctx.getStream key db = r at error failed
      obtain ⟨result, db'⟩ := r
      cases result with
      | error e' =>
        cases failed
        rw [error e rfl]
        exact error_calm _ _
      | ok found => cases failed
    · split at failed
      · cases failed
        exact error_calm _ _
      · cases failed
  · intro id _
    exact go id _

theorem runSubcommand_calm (ctx : Ctx) {sub : Subcommand} (options : GroupOptions)
    (key name raw : Bytes) (db : Db)
    (present : sub = .destroy → ∃ s, LiveStream ctx.now.val db key s) :
    Calm (runSubcommand ctx sub options key name raw db) := by
  cases sub with
  | create =>
    apply startId_calm
    intro id db'
    apply andThen_rule
    · intro e failed
      rw [getStream_error failed]
      exact error_calm _ _
    · intro found isFound
      cases found with
      | none => exact createGroup_calm name id _ (live_insertStream ctx key _)
      | some s => exact createGroup_calm name id _ (LiveStream.of_getStream isFound)
  | setid =>
    apply startId_calm
    intro id db'
    apply groupOf_calm
    intro s g db'' _ _
    exact value_calm _ _
  | destroy =>
    obtain ⟨s, live⟩ := present rfl
    unfold runSubcommand
    rw [live.getStream]
    exact value_calm _ _
  | createconsumer =>
    apply groupOf_calm
    intro s g db'' _ _
    exact value_calm _ _
  | delconsumer =>
    apply groupOf_calm
    intro s g db'' _ _
    simp only []
    split
    · exact value_calm _ _
    · exact value_calm _ _

theorem groupOptions_mkstream {setid : Bool} (fuel : Nat) (rest : List Bytes)
    (given options : GroupOptions) (notGiven : given.mkstream = false)
    (parses : groupOptions false setid fuel rest given = .ok options) : options.mkstream = false := by
  induction fuel generalizing rest given with
  | zero =>
    unfold groupOptions at parses
    cases parses
    exact notGiven
  | succ fuel ih =>
    cases rest with
    | nil =>
      unfold groupOptions at parses
      cases parses
      exact notGiven
    | cons x rest =>
      unfold groupOptions at parses
      rw [Bool.false_and, if_neg (by decide)] at parses
      split at parses
      · cases isCount : intArg (rest.headD []) with
        | error e =>
          rw [isCount] at parses
          cases parses
        | ok n =>
          rw [isCount] at parses
          change (if n < 0 ∧ n ≠ -1 then _ else _) = _ at parses
          split at parses
          · cases parses
          · apply ih _ _ _ parses
            exact notGiven
      · cases parses

theorem xgroup_calm (ctx : Ctx) (a : List Bytes) (db : Db) : Calm (xgroup ctx a db) := by
  unfold xgroup
  cases subcommand (arg a 1) with
  | none => exact error_calm _ _
  | some sub =>
    simp only []
    apply parsed_rule
    · intro e
      exact error_calm e _
    · intro options parses
      apply getStream_calm
      · intro db'
        simp only []
        split
        · exact error_calm _ _
        · rename_i mkstream
          apply runSubcommand_calm
          intro isDestroy
          rw [isDestroy] at parses
          have noMkstream := groupOptions_mkstream _ _ _ _ rfl parses
          rw [noMkstream] at mkstream
          exact absurd rfl mkstream
      · intro s db' _ live
        simp only []
        split
        · exact error_calm _ _
        · apply runSubcommand_calm
          intro isDestroy
          split
          · exact ⟨s, live.lookup _⟩
          · exact ⟨s, live⟩

theorem xack_calm (ctx : Ctx) (a : List Bytes) (db : Db) : Calm (xack ctx a db) := by
  apply parsed_rule
  · intro e
    exact error_calm e _
  · intro ids _
    apply getStream_calm
    · intro db'
      exact value_calm _ _
    · intro s db' _ _
      simp only []
      split
      · exact value_calm _ _
      · exact value_calm _ _

theorem xclaim_calm (ctx : Ctx) (a : List Bytes) (db : Db) : Calm (xclaim ctx a db) := by
  apply parsed_rule
  · intro e
    exact error_calm e _
  · intro args _
    apply claimGroup_calm
    intro s g db' _ _
    exact value_calm _ _

theorem pendingDetails_found (minIdle now room : Nat) (ids : List Id)
    (pending : ∀ id ∈ ids, id ∈ g.pending.keys) :
    ∃ rows, pendingDetails g minIdle now room ids = some rows := by
  induction ids generalizing room with
  | nil => exact ⟨[], by cases room <;> rfl⟩
  | cons id ids ih =>
    obtain ⟨isPending, later⟩ := List.forall_mem_cons.mp pending
    cases room with
    | zero => exact ⟨[], rfl⟩
    | succ room =>
      obtain ⟨nack, isNack⟩ := (g.pending.mem_keys_iff id).mp isPending
      unfold pendingDetails
      rw [isNack]
      simp only []
      split
      · exact ih (room + 1) later
      · obtain ⟨rows, isRows⟩ := ih room later
        rw [isRows]
        exact ⟨_, rfl⟩

theorem Group.Agree.pending_of_held (agree : g.Agree) {name : Bytes} {c : Consumer}
    (isConsumer : g.consumers.get name = some c) {id : Id} (held : id ∈ c.pending.keys) :
    id ∈ g.pending.keys := by
  obtain ⟨nack, isNack, _⟩ := (agree name id).mpr ⟨c, isConsumer, held⟩
  exact (g.pending.mem_keys_iff id).mpr ⟨nack, isNack⟩

theorem xpending_calm (agree : AllAgree db) (ctx : Ctx) (a : List Bytes) :
    Calm (xpending ctx a db) := by
  apply parsed_rule
  · intro e
    exact error_calm e _
  · intro args _
    apply groupOf_calm
    intro s g db' isAt isGroup
    have agrees := agree _ s isAt _ g isGroup
    simp only []
    split
    · exact value_calm _ _
    · have pending : ∀ id ∈ pendingIds g args, id ∈ g.pending.keys := by
        intro id member
        unfold pendingIds at member
        split at member
        · exact (List.mem_filter.mp member).1
        · split at member
          · cases member
          · rename_i c isConsumer
            exact agrees.pending_of_held isConsumer (List.mem_filter.mp member).1
      obtain ⟨rows, isRows⟩ := pendingDetails_found args.minIdle ctx.now.val args.count _ pending
      rw [isRows]
      exact value_calm _ _

theorem autoclaimAll_found {s : Stream} {args : AutoclaimArgs} {consumer : Bytes} {now left : Nat}
    (ids : List Id) {g : Group} (distinct : ids.Nodup)
    (pending : ∀ id ∈ ids, ∃ nack, g.pending.get id = some nack) :
    ∃ done, autoclaimAll s args consumer now left ids g = some done := by
  induction ids generalizing left g with
  | nil => exact ⟨_, by cases left <;> rfl⟩
  | cons id ids ih =>
    obtain ⟨notLater, distinct'⟩ := List.nodup_cons.mp distinct
    obtain ⟨⟨nack, isNack⟩, later⟩ := List.forall_mem_cons.mp pending
    -- What the step does to the id leaves the others pending.
    have others : ∀ {h : Group}, (∀ j, j ≠ id → (∃ nack, g.pending.get j = some nack) →
        ∃ nack, h.pending.get j = some nack) →
        ∀ j ∈ ids, ∃ nack, h.pending.get j = some nack := by
      intro h keeps j member
      exact keeps j (fun same => notLater (same ▸ member)) (later j member)
    cases left with
    | zero => exact ⟨_, rfl⟩
    | succ left =>
      unfold autoclaimAll
      rw [isNack]
      simp only []
      split
      · obtain ⟨done, ran⟩ := @ih left (g.forget id) distinct' (others (by
          intro j different isPending
          unfold Group.forget
          rw [isNack]
          simpa [Group.release, different] using isPending))
        rw [ran]
        exact ⟨_, rfl⟩
      · split
        · exact ih distinct' later
        · obtain ⟨done, ran⟩ := @ih left
            ((g.reassign id consumer now).setNack id (autoclaimNack args.justid now)) distinct'
            (others (by
              intro j different isPending
              have same : ((g.reassign id consumer now).setNack id
                  (autoclaimNack args.justid now)).pending.get j = g.pending.get j := by
                show (((g.takeFrom id consumer).pending.update id _).update id _).get j = _
                simp [different, Group.pending_takeFrom]
              rw [same]
              exact isPending))
          rw [ran]
          exact ⟨_, rfl⟩

theorem xautoclaim_calm (ctx : Ctx) (a : List Bytes) (db : Db) : Calm (xautoclaim ctx a db) := by
  apply parsed_rule
  · intro e
    exact error_calm e _
  · intro args _
    apply claimGroup_calm
    intro s g db' _ _
    simp only []
    generalize g.consumer (arg a 3) ctx.now.val _ = h
    have sorted := h.pending.keys_nodup
    obtain ⟨done, ran⟩ := @autoclaimAll_found s args (arg a 3) ctx.now.val args.count
      ((h.pending.entriesFrom args.start).map Prod.fst) h
      (sorted.sublist (List.filter_sublist.map Prod.fst)) (by
        intro id member
        obtain ⟨e, isEntry, same⟩ := List.mem_map.mp member
        rw [← same]
        exact ⟨e.2, (h.pending.mem_entries_iff e.1 e.2).mp (List.mem_filter.mp isEntry).1⟩)
    rw [ran]
    exact value_calm _ _

theorem mapM_some {α β : Type} {f : α → Option β} (xs : List α)
    (each : ∀ x ∈ xs, ∃ y, f x = some y) : ∃ ys, xs.mapM f = some ys := by
  induction xs with
  | nil => exact ⟨[], rfl⟩
  | cons x xs ih =>
    obtain ⟨⟨y, isY⟩, later⟩ := List.forall_mem_cons.mp each
    obtain ⟨ys, isYs⟩ := ih later
    exact ⟨y :: ys, by simp [List.mapM_cons, isY, isYs]⟩

theorem fullGroup_found (agree : g.Agree) (s : Stream) (limit : Nat) (name : Bytes) :
    ∃ v, fullGroup s limit name g = some v := by
  obtain ⟨consumers, isConsumers⟩ := mapM_some (f := fun e => fullConsumer g limit e.1 e.2)
    g.consumers.entries (by
      intro e isEntry
      have isConsumer := (g.consumers.mem_entries_iff e.1 e.2).mp isEntry
      obtain ⟨rows, isRows⟩ := mapM_some (f := fun id => (g.pending.get id).map (fun nack =>
          Value.array [.bulk (fmtId id), .integer nack.deliveryTime, .integer nack.deliveryCount]))
        (e.2.pending.keys.take limit) (by
          intro id member
          have held := agree.pending_of_held isConsumer ((List.take_sublist _ _).subset member)
          obtain ⟨nack, isNack⟩ := (g.pending.mem_keys_iff id).mp held
          rw [isNack]
          exact ⟨_, rfl⟩)
      unfold fullConsumer heldRows
      rw [isRows]
      exact ⟨_, rfl⟩)
  unfold fullGroup
  rw [isConsumers]
  exact ⟨_, rfl⟩

theorem infoStream_calm (agree : ∀ name g, s.groups.get name = some g → g.Agree) (a : List Bytes)
    (db : Db) : Calm (infoStream s a, db) := by
  have found : ∀ limit, ∃ groups,
      s.groups.entries.mapM (fun e => fullGroup s limit e.1 e.2) = some groups := by
    intro limit
    apply mapM_some
    intro e isEntry
    exact fullGroup_found (agree e.1 e.2 ((s.groups.mem_entries_iff e.1 e.2).mp isEntry)) s limit e.1
  unfold infoStream
  split
  · exact value_calm _ _
  · split
    · exact error_calm _ _
    · split
      · exact error_calm _ _
      · rename_i count _
        simp only []
        obtain ⟨groups, isGroups⟩ := found (if count = 0 then usizeMax else count)
        rw [isGroups]
        exact value_calm _ _

theorem xinfo_calm (agree : AllAgree db) (ctx : Ctx) (a : List Bytes) : Calm (xinfo ctx a db) := by
  apply getStream_calm
  · intro db'
    exact error_calm _ _
  · intro s db' isAt _
    simp only []
    split
    · exact value_calm _ _
    · split
      · split
        · exact error_calm _ _
        · exact value_calm _ _
      · split
        · exact infoStream_calm (agree _ s isAt) a db'
        · exact error_calm _ _

theorem rangeGeneric_calm (ctx : Ctx) (a : List Bytes) (rev : Bool) (db : Db) :
    Calm (rangeGeneric ctx a rev db) := by
  apply parsed_rule
  · intro e
    exact error_calm e _
  · intro args _
    simp only []
    split
    · exact value_calm _ _
    · apply parsed_rule
      · intro e
        exact error_calm e _
      · intro interval _
        apply getStream_calm
        · intro db'
          exact value_calm _ _
        · intro s db' _ _
          exact value_calm _ _

theorem xlen_calm (ctx : Ctx) (a : List Bytes) (db : Db) : Calm (xlen ctx a db) := by
  apply getStream_calm
  · intro db'
    exact value_calm _ _
  · intro s db' _ _
    exact value_calm _ _

theorem call_calm (agree : AllAgree db) (ctx : Ctx) (a : List Bytes) : Calm (call ctx a db) := by
  unfold call
  split
  · exact value_calm _ _
  · rename_i c _
    split
    · cases c with
      | xadd => exact xadd_calm ctx a db
      | xlen => exact xlen_calm ctx a db
      | xrange => exact rangeGeneric_calm ctx a false db
      | xrevrange => exact rangeGeneric_calm ctx a true db
      | xdel => exact xdel_calm ctx a db
      | xtrim => exact xtrim_calm ctx a db
      | xsetid => exact xsetid_calm ctx a db
      | xread => exact xread_calm ctx a db
      | xreadgroup => exact xreadgroup_calm ctx a db
      | xack => exact xack_calm ctx a db
      | xpending => exact xpending_calm agree ctx a
      | xclaim => exact xclaim_calm ctx a db
      | xautoclaim => exact xautoclaim_calm ctx a db
      | xgroup sub => exact xgroup_calm ctx a db
      | xinfo sub => exact xinfo_calm agree ctx a
    · exact error_calm _ _

end NoidaDb.Redis
