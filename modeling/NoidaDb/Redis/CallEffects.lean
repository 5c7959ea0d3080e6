/-
What any stream command does to the streams, in terms of its arguments and its answer.
-/

import NoidaDb.Redis.ReadEffects

namespace NoidaDb.Redis

open Lib

variable {a : List Bytes} {key : Bytes} {db : Db} {args : ReadArgs} {labels : List Label}

theorem readPart_keeps (ctx : Ctx) (alone : args.group = none) (key : Bytes) (after : Id)
    (db : Db) : Keeps db (readOne ctx args key after db).2 := by
  have first := Keeps.getStream ctx key db
  unfold readOne
  split
  · rename_i isStream
    rw [isStream] at first
    exact first
  · rename_i isStream
    rw [isStream] at first
    exact first
  · rename_i db' isStream
    rw [isStream] at first
    have second := first.trans (Keeps.getStream ctx key db')
    split
    · rename_i isStream'
      rw [isStream'] at second
      rw [alone]
      exact second
    · rename_i isStream'
      rw [isStream'] at second
      exact second

theorem readParts_keeps (ctx : Ctx) (alone : args.group = none) (reads : List (Bytes × Id))
    (db : Db) : Keeps db (readParts ctx args reads db).2 := by
  induction reads generalizing db with
  | nil => exact Keeps.refl db
  | cons r reads ih =>
    obtain ⟨key, after⟩ := r
    have first := readPart_keeps ctx alone key after db
    unfold readParts
    split
    · rename_i isPart
      rw [isPart] at first
      exact first
    · rename_i db' isPart
      rw [isPart] at first
      have second := first.trans (ih db')
      split
      · rename_i isParts
        rw [isParts] at second
        exact second
      · rename_i isParts
        rw [isParts] at second
        exact second

theorem readOptions_alone (fuel : Nat) (rest : List Bytes) (i : Nat) (given args : ReadArgs)
    (alone : given.group = none) (parses : readOptions false fuel rest i given = .ok args) :
    args.group = none := by
  induction fuel generalizing rest i given with
  | zero =>
    unfold readOptions at parses
    cases parses
    exact alone
  | succ fuel ih =>
    cases rest with
    | nil =>
      unfold readOptions at parses
      cases parses
      exact alone
    | cons x rest =>
      unfold readOptions at parses
      split at parses
      · split at parses
        · cases parses
        · apply ih _ _ _ _ parses
          exact alone
      · split at parses
        · cases isCount : intArg (rest.headD []) with
          | error e =>
            rw [isCount] at parses
            cases parses
          | ok n =>
            rw [isCount] at parses
            apply ih _ _ _ _ parses
            exact alone
        · split at parses
          · split at parses
            · cases parses
            · cases parses
              exact alone
          · split at parses
            · cases parses
            · split at parses
              · cases parses
              · cases parses

theorem parseRead_alone (parses : parseRead a false = .ok args) : args.group = none := by
  unfold parseRead at parses
  cases isOptions : readOptions false (a.length - 1) (a.drop 1) 1 {} with
  | error e =>
    rw [isOptions] at parses
    cases parses
  | ok args' =>
    rw [isOptions] at parses
    change (if args'.streamsArg = 0 then syntaxError
      else if false && args'.group.isNone then _ else .ok args') = _ at parses
    split at parses
    · cases parses
    · cases parses
      exact readOptions_alone _ _ _ _ _ rfl isOptions

theorem xread_keeps (ctx : Ctx) (a : List Bytes) (db : Db) : Keeps db (xread ctx a db).2 := by
  apply parsed_rule (Q := fun r => Keeps db r.2)
  · intro e
    exact Keeps.refl db
  · intro args parses
    have alone := parseRead_alone parses
    have keeps : Keeps db (readAll ctx a false args db).2 := by
      unfold readAll
      simp only [alone]
      generalize (readKeys a args).zip (a.drop (args.streamsArg + (readKeys a args).length)) = raws
      have first := readIds_keeps ctx false none raws db
      split
      · rename_i isIds
        rw [isIds] at first
        exact first
      · rename_i ids db' isIds
        rw [isIds] at first
        have second := first.trans
          (readParts_keeps ctx alone ((readKeys a args).zip ids) db')
        split
        · rename_i isParts
          rw [isParts] at second
          exact second
        · rename_i isParts
          rw [isParts] at second
          exact second
    apply andThen_rule (Q := fun r => Keeps db r.2)
    · intro e _
      exact keeps
    · intro found _
      exact keeps

theorem getStream_keeps {ctx : Ctx} {next : Option Stream → Db → Answer × Db}
    (stays : ∀ found db', (next found db').2 = db') :
    Keeps db ((ctx.getStream key db).andThen next).2 := by
  have keeps := Keeps.getStream ctx key db
  apply andThen_rule (Q := fun r => Keeps db r.2)
  · intro e _
    exact keeps
  · intro found _
    rw [stays]
    exact keeps

theorem xlen_keeps (ctx : Ctx) (a : List Bytes) (db : Db) : Keeps db (xlen ctx a db).2 :=
  getStream_keeps (fun _ _ => rfl)

theorem rangeGeneric_keeps (ctx : Ctx) (a : List Bytes) (rev : Bool) (db : Db) :
    Keeps db (rangeGeneric ctx a rev db).2 := by
  apply parsed_rule (Q := fun r => Keeps db r.2)
  · intro e
    exact Keeps.refl db
  · intro args _
    simp only []
    split
    · exact Keeps.refl db
    · apply parsed_rule (Q := fun r => Keeps db r.2)
      · intro e
        exact Keeps.refl db
      · intro interval _
        apply getStream_keeps
        intro found db'
        cases found with
        | none => rfl
        | some s => rfl

theorem xinfo_keeps (ctx : Ctx) (a : List Bytes) (db : Db) : Keeps db (xinfo ctx a db).2 := by
  apply getStream_keeps
  intro found db'
  cases found with
  | none => rfl
  | some s =>
    simp only []
    split
    · rfl
    · split
      · split
        · rfl
        · rfl
      · split
        · rfl
        · rfl

theorem groupOf_keeps (ctx : Ctx) (key name : Bytes) (db : Db) :
    Keeps db (groupOf ctx key name db).2 := by
  have keeps := Keeps.getStream ctx key db
  unfold groupOf
  split
  · rename_i isStream
    rw [isStream] at keeps
    exact keeps
  · rename_i isStream
    rw [isStream] at keeps
    exact keeps
  · rename_i isStream
    rw [isStream] at keeps
    split
    · exact keeps
    · exact keeps

theorem groupOf_found {ctx : Ctx} {key name : Bytes} {db : Db} {s : Stream} {g : Group}
    (found : (groupOf ctx key name db).1 = .ok (s, g)) :
    LiveStream ctx.now.val (groupOf ctx key name db).2 key s ∧ s.groups.get name = some g := by
  have isLive := fun s' => @LiveStream.of_getStream db key s' ctx
  unfold groupOf at found ⊢
  cases isStream : ctx.getStream key db with
  | mk result db' =>
    rw [isStream] at found isLive
    cases result with
    | error e => cases found
    | ok r =>
      cases r with
      | none => cases found
      | some s' =>
        have live := isLive s' rfl
        simp only [] at found ⊢
        cases isGroup : s'.groups.get name with
        | none =>
          rw [isGroup] at found
          cases found
        | some g' =>
          rw [isGroup] at found
          cases found
          exact ⟨live, isGroup⟩

theorem groupOf_evolves {described : Bytes → List Label → Prop} {ctx : Ctx} {name : Bytes}
    {next : Stream × Group → Db → Answer × Db} (nothing : ∀ k, described k [])
    (go : ∀ s g db', db'.streamAt key = some s → s.groups.get name = some g →
      Evolves described db' (next (s, g) db').2) :
    Evolves described db ((groupOf ctx key name db).andThen next).2 := by
  have keeps := groupOf_keeps ctx key name db
  apply andThen_rule (Q := fun r => Evolves described db r.2)
  · intro e _
    exact Evolves.of_keeps keeps nothing
  · intro found isFound
    obtain ⟨live, isGroup⟩ := groupOf_found isFound
    exact Evolves.after keeps (go found.1 found.2 _ live.streamAt isGroup)

theorem claimGroup_evolves {described : Bytes → List Label → Prop} {ctx : Ctx} {name : Bytes}
    {next : Stream × Group → Db → Answer × Db} (nothing : ∀ k, described k [])
    (go : ∀ s g db', db'.streamAt key = some s → s.groups.get name = some g →
      Evolves described db' (next (s, g) db').2) :
    Evolves described db ((claimGroup ctx key name db).andThen next).2 := by
  have keeps := groupOf_keeps ctx key name db
  have isFound := fun s g => @groupOf_found ctx key name db s g
  unfold claimGroup
  cases isGroup : groupOf ctx key name db with
  | mk result db' =>
    rw [isGroup] at keeps isFound
    cases result with
    | error e => exact Evolves.of_keeps keeps nothing
    | ok found =>
      have twice := (Keeps.lookup ctx key db').trans (Keeps.lookup ctx key _)
      obtain ⟨live, isGroup⟩ := isFound found.1 found.2 rfl
      have stays := ((live.lookup key).lookup key).streamAt
      exact Evolves.after (keeps.trans twice) (go found.1 found.2 _ stays isGroup)

theorem xpending_keeps (ctx : Ctx) (a : List Bytes) (db : Db) : Keeps db (xpending ctx a db).2 := by
  apply parsed_rule (Q := fun r => Keeps db r.2)
  · intro e
    exact Keeps.refl db
  · intro args _
    have keeps := groupOf_keeps ctx (arg a 1) (arg a 2) db
    apply andThen_rule (Q := fun r => Keeps db r.2)
    · intro e _
      exact keeps
    · intro found _
      simp only []
      split
      · exact keeps
      · split
        · exact keeps
        · exact keeps

def Permits (a : List Bytes) : Label → Prop
  | .silent => True
  | .add _ => streamCommand a = some .xadd
  | .setId maxDeleted =>
    streamCommand a = some .xsetid ∧ ∃ args, setIdArgs a = .ok args ∧ maxDeleted = args.2.2
  | .create group counter =>
    streamCommand a = some (.xgroup .create) ∧ group = arg a 3 ∧
      ∃ options, groupOptions true false a.length (a.drop 5) {} = .ok options ∧
        counter = options.counter
  | .drop group => streamCommand a = some (.xgroup .destroy) ∧ group = arg a 3
  | .place group counter =>
    streamCommand a = some (.xgroup .setid) ∧ group = arg a 3 ∧
      ∃ options, groupOptions false true a.length (a.drop 5) {} = .ok options ∧
        counter = options.counter
  | .raise group =>
    streamCommand a = some .xclaim ∧ group = arg a 2 ∧
      ∃ now args, parseClaim now a = .ok args ∧ args.2.2.lastId.isSome = true
  | .deliver _ _ => streamCommand a = some .xreadgroup

def OtherLabels (a : List Bytes) (_ : Bytes) (labels : List Label) : Prop :=
  adds labels = [] ∧ (∀ group, deliveries group labels = []) ∧ ∀ l ∈ labels, Permits a l

theorem OtherLabels.nothing (a : List Bytes) (key : Bytes) : OtherLabels a key [] :=
  ⟨rfl, fun _ => rfl, by simp⟩

theorem OtherLabels.of_silent (a : List Bytes) (key : Bytes) (silent : Silently key labels) :
    OtherLabels a key labels := by
  refine ⟨adds_of_silent silent, deliveries_of_silent silent, ?_⟩
  intro l member
  rw [silent l member]
  trivial

theorem evolves_other {s s' : Stream} (found : db.streamAt key = some s)
    (steps : Stream.Steps s labels s') (other : OtherLabels a key labels) :
    Evolves (OtherLabels a) db (db.setData key (.stream s')) := by
  apply Evolves.weaken (Evolves.setData found steps)
  intro k ls isLabels
  rw [isLabels]
  split
  · exact other
  · exact OtherLabels.nothing a k

theorem OtherLabels.single {l : Label} (permitted : Permits a l) (notAdd : adds [l] = [])
    (notDeliver : ∀ group, deliveries group [l] = []) : OtherLabels a key [l] :=
  ⟨notAdd, notDeliver, by simpa using permitted⟩

theorem createGroup_evolves (ctx : Ctx) (key : Bytes) (id : Id) {counter : Option Int} (db : Db)
    (permitted : Permits a (.create (arg a 3) counter)) :
    Evolves (OtherLabels a) db (createGroup ctx key (arg a 3) id counter db).2 := by
  apply getStream_evolves (OtherLabels.nothing a)
  · intro db' keeps
    exact keeps
  · intro s db' found
    simp only []
    split
    · exact Evolves.of_keeps (Keeps.refl db') (OtherLabels.nothing a)
    · rename_i free
      have isFree : s.groups.get (arg a 3) = none := by
        cases isGroup : s.groups.get (arg a 3) with
        | none => rfl
        | some g =>
          apply absurd _ free
          unfold OrderedMap.contains
          rw [isGroup]
          rfl
      apply evolves_other found (.single (.create isFree))
      exact OtherLabels.single permitted rfl (fun _ => rfl)

theorem startId_keeps (ctx : Ctx) (key raw : Bytes) (strict : Bool) (db : Db) :
    Keeps db (startId ctx key raw strict db).2 := by
  have keeps := Keeps.getStream ctx key db
  unfold startId
  split
  · split
    · rename_i isStream
      rw [isStream] at keeps
      exact keeps
    · rename_i isStream
      rw [isStream] at keeps
      exact keeps
  · split
    · exact Keeps.refl db
    · exact Keeps.refl db

theorem runSubcommand_evolves {sub : Subcommand} {options : GroupOptions}
    (isSub : streamCommand a = some (.xgroup sub))
    (parses : groupOptions (sub == .create) (sub == .setid) a.length (a.drop 5) {} = .ok options)
    (ctx : Ctx) (key raw : Bytes) (db : Db) :
    Evolves (OtherLabels a) db (runSubcommand ctx sub options key (arg a 3) raw db).2 := by
  have nothing := OtherLabels.nothing a
  cases sub with
  | create =>
    have keeps := startId_keeps ctx key raw true db
    apply andThen_rule (Q := fun r => Evolves (OtherLabels a) db r.2)
    · intro e _
      exact Evolves.of_keeps keeps nothing
    · intro id _
      apply Evolves.after keeps
      have keeps' := Keeps.getStream ctx key (startId ctx key raw true db).2
      apply andThen_rule (Q := fun r => Evolves (OtherLabels a) _ r.2)
      · intro e _
        exact Evolves.of_keeps keeps' nothing
      · intro found isFound
        apply Evolves.after keeps'
        have permitted : Permits a (.create (arg a 3) options.counter) :=
          ⟨isSub, rfl, options, parses, rfl⟩
        split
        · rename_i missing
          have isNone : found = none := by simpa using missing
          rw [isNone] at isFound
          apply Evolves.trans (Evolves.insertStream ctx (getStream_missing isFound))
            (createGroup_evolves ctx key id _ permitted)
          intro k ls ms isNil other
          rw [isNil]
          exact other
        · exact createGroup_evolves ctx key id _ permitted
  | setid =>
    have keeps := startId_keeps ctx key raw false db
    apply andThen_rule (Q := fun r => Evolves (OtherLabels a) db r.2)
    · intro e _
      exact Evolves.of_keeps keeps nothing
    · intro id _
      apply Evolves.after keeps
      apply groupOf_evolves nothing
      intro s g db' found isGroup
      apply evolves_other found (.single (.place isGroup))
      exact OtherLabels.single ⟨isSub, rfl, options, parses, rfl⟩ rfl (fun _ => rfl)
  | destroy =>
    apply getStream_evolves nothing
    · intro db' keeps
      exact keeps
    · intro s db' found
      apply evolves_other found (.single .drop)
      exact OtherLabels.single ⟨isSub, rfl⟩ rfl (fun _ => rfl)
  | createconsumer =>
    apply groupOf_evolves nothing
    intro s g db' found isGroup
    have change : Rehold g (g.consumer raw ctx.now.val id) := by
      apply Rehold.consumer
      intro c
      rfl
    exact evolves_other found (.single (.rehold isGroup change))
      (OtherLabels.of_silent a key (by simp [Silently]))
  | delconsumer =>
    apply groupOf_evolves nothing
    intro s g db' found isGroup
    simp only []
    cases isConsumer : g.consumers.get raw with
    | none => exact Evolves.of_keeps (Keeps.refl db') nothing
    | some c =>
      exact evolves_other found (.single (.rehold isGroup (Rehold.removeConsumer isConsumer)))
        (OtherLabels.of_silent a key (by simp [Silently]))

theorem streamCommand_xgroup {sub : Subcommand} (isSub : streamCommand a = some (.xgroup sub)) :
    subcommand (arg a 1) = some sub := by
  unfold streamCommand at isSub
  simp only [] at isSub
  split at isSub
  · obtain ⟨sub', found, same⟩ := Option.map_eq_some_iff.mp isSub
    cases same
    exact found
  · split at isSub
    · obtain ⟨sub', found, same⟩ := Option.map_eq_some_iff.mp isSub
      cases same
    · obtain ⟨c, found, same⟩ := Option.map_eq_some_iff.mp isSub
      have member := List.mem_of_find?_eq_some found
      simp only [plainCommands, List.mem_cons, List.not_mem_nil, or_false] at member
      rcases member with h | h | h | h | h | h | h | h | h | h | h | h | h <;>
        · rw [h] at same
          cases same

theorem xgroup_evolves {sub : Subcommand} (isSub : streamCommand a = some (.xgroup sub))
    (ctx : Ctx) (db : Db) : Evolves (OtherLabels a) db (xgroup ctx a db).2 := by
  have nothing := OtherLabels.nothing a
  unfold xgroup
  rw [streamCommand_xgroup isSub]
  simp only []
  apply parsed_rule (Q := fun r => Evolves (OtherLabels a) db r.2)
  · intro e
    exact Evolves.of_keeps (Keeps.refl db) nothing
  · intro options parses
    have keeps := Keeps.getStream ctx (arg a 2) db
    apply andThen_rule (Q := fun r => Evolves (OtherLabels a) db r.2)
    · intro e _
      exact Evolves.of_keeps keeps nothing
    · intro found _
      apply Evolves.after keeps
      cases found with
      | none =>
        simp only []
        split
        · exact Evolves.of_keeps (Keeps.refl _) nothing
        · exact runSubcommand_evolves isSub parses ctx _ _ _
      | some s =>
        simp only []
        have again : ∀ db', Keeps db' (if sub.needsGroup then ctx.lookup (arg a 2) db' else db') := by
          intro db'
          split
          · exact Keeps.lookup ctx _ db'
          · exact Keeps.refl db'
        apply Evolves.after (again _)
        generalize (if sub.needsGroup then ctx.lookup (arg a 2) _ else _) = db'
        split
        · exact Evolves.of_keeps (Keeps.refl _) nothing
        · exact runSubcommand_evolves isSub parses ctx _ _ _

theorem xack_evolves (ctx : Ctx) (a : List Bytes) (db : Db) :
    Evolves Silently db (xack ctx a db).2 := by
  apply parsed_rule (Q := fun r => Evolves Silently db r.2)
  · intro e
    exact Evolves.of_keeps (Keeps.refl db) Silently.nothing
  · intro ids _
    apply getStream_evolves Silently.nothing
    · intro db' keeps
      exact keeps
    · intro s db' found
      simp only []
      cases isGroup : s.groups.get (arg a 2) with
      | none => exact Evolves.of_keeps (Keeps.refl db') Silently.nothing
      | some g =>
        exact evolves_silently found (.single (.rehold isGroup (Rehold.ack g ids))) (by simp)

theorem raiseLastId_steps {s : Stream} {name : Bytes} {g : Group}
    (found : s.groups.get name = some g) (lastId : Option Id) :
    ∃ labels, Stream.Steps s labels (s.setGroup name (raiseLastId g lastId)) ∧
      ∀ l ∈ labels, l = .raise name ∧ lastId.isSome = true := by
  cases lastId with
  | none =>
    have same : raiseLastId g none = g := rfl
    rw [same, setGroup_same found]
    exact ⟨[], .nil s, by simp⟩
  | some id => exact ⟨[.raise name], .single (.raise found), by simp⟩

theorem xclaim_evolves (isClaim : streamCommand a = some .xclaim) (ctx : Ctx) (db : Db) :
    Evolves (OtherLabels a) db (xclaim ctx a db).2 := by
  have nothing := OtherLabels.nothing a
  apply parsed_rule (Q := fun r => Evolves (OtherLabels a) db r.2)
  · intro e
    exact Evolves.of_keeps (Keeps.refl db) nothing
  · intro args parses
    apply claimGroup_evolves nothing
    intro s g db' found isGroup
    simp only []
    obtain ⟨labels, raises, isRaise⟩ := raiseLastId_steps isGroup args.2.2.lastId
    have rest := (Rehold.consumer (raiseLastId g args.2.2.lastId) (arg a 3) ctx.now.val
      (fun c => (rfl : { c with seenTime := ctx.now.val }.pending = c.pending))).trans
      (Rehold.claimAll s args.2.2 args.1 (arg a 3) ctx.now.val args.2.1 _)
    have second := Stream.Step.rehold (get_setGroup s (arg a 2) (raiseLastId g args.2.2.lastId)) rest
    rw [setGroup_setGroup] at second
    apply evolves_other found (raises.append (.single second))
    refine ⟨?_, ?_, ?_⟩
    · rw [adds_append, List.append_eq_nil_iff]
      apply And.intro _ rfl
      apply List.filterMap_eq_nil_iff.mpr
      intro l member
      rw [(isRaise l member).1]
    · intro group
      rw [deliveries_append, List.append_eq_nil_iff]
      apply And.intro _ rfl
      apply List.filterMap_eq_nil_iff.mpr
      intro l member
      rw [(isRaise l member).1]
    · intro l member
      rcases List.mem_append.mp member with isFirst | isSecond
      · rw [(isRaise l isFirst).1]
        exact ⟨isClaim, rfl, ctx.now.val, args, parses, (isRaise l isFirst).2⟩
      · rw [List.mem_singleton.mp isSecond]
        trivial

theorem xautoclaim_evolves (ctx : Ctx) (a : List Bytes) (db : Db) :
    Evolves Silently db (xautoclaim ctx a db).2 := by
  apply parsed_rule (Q := fun r => Evolves Silently db r.2)
  · intro e
    exact Evolves.of_keeps (Keeps.refl db) Silently.nothing
  · intro args _
    apply claimGroup_evolves Silently.nothing
    intro s g db' found isGroup
    simp only []
    split
    · exact Evolves.of_keeps (Keeps.refl db') Silently.nothing
    · rename_i done ran
      have seen := Rehold.consumer g (arg a 3) ctx.now.val
        (fun c => (rfl : { c with seenTime := ctx.now.val }.pending = c.pending))
      have change := seen.trans (Rehold.autoclaimAll ran)
      exact evolves_silently found (.single (.rehold isGroup change)) (by simp)

/-- What the labels of a command say: what it added, what it handed out, and that its arguments
explain the rest. -/
structure Explains (ctx : Ctx) (a : List Bytes) (db : Db) (key : Bytes) (labels : List Label) :
    Prop where
  added : adds labels = addedBy key a (call ctx a db).1
  delivered : ∀ group, deliveries group labels = (handedOut ctx a db key group).map Prod.fst
  permitted : ∀ l ∈ labels, Permits a l

theorem setIdLabels_other (isSetId : streamCommand a = some .xsetid) (key : Bytes)
    (holds : SetIdLabels a key labels) : OtherLabels a key labels := by
  refine ⟨?_, ?_, ?_⟩
  · apply List.filterMap_eq_nil_iff.mpr
    intro l member
    obtain ⟨args, _, isLabel⟩ := holds l member
    rw [isLabel]
  · intro group
    apply List.filterMap_eq_nil_iff.mpr
    intro l member
    obtain ⟨args, _, isLabel⟩ := holds l member
    rw [isLabel]
  · intro l member
    obtain ⟨args, parses, isLabel⟩ := holds l member
    rw [isLabel]
    exact ⟨isSetId, args, parses, rfl⟩

theorem handler_evolves {c : StreamCommand} (isCommand : streamCommand a = some c)
    (notAdd : c ≠ .xadd) (notRead : c ≠ .xreadgroup) (ctx : Ctx) (db : Db) :
    Evolves (OtherLabels a) db (c.handler ctx a db).2 := by
  have silent : ∀ {db'}, Evolves Silently db db' → Evolves (OtherLabels a) db db' :=
    fun evolves => evolves.weaken (fun key _ holds => OtherLabels.of_silent a key holds)
  have kept : ∀ {db'}, Keeps db db' → Evolves (OtherLabels a) db db' :=
    fun keeps => Evolves.of_keeps keeps (OtherLabels.nothing a)
  cases c with
  | xadd => exact absurd rfl notAdd
  | xlen => exact kept (xlen_keeps ctx a db)
  | xrange => exact kept (rangeGeneric_keeps ctx a false db)
  | xrevrange => exact kept (rangeGeneric_keeps ctx a true db)
  | xdel => exact silent (xdel_evolves ctx a db)
  | xtrim => exact silent (xtrim_evolves ctx a db)
  | xsetid =>
    exact (xsetid_evolves ctx a db).weaken (fun key _ => setIdLabels_other isCommand key)
  | xread => exact kept (xread_keeps ctx a db)
  | xreadgroup => exact absurd rfl notRead
  | xack => exact silent (xack_evolves ctx a db)
  | xpending => exact kept (xpending_keeps ctx a db)
  | xclaim => exact xclaim_evolves isCommand ctx db
  | xautoclaim => exact silent (xautoclaim_evolves ctx a db)
  | xgroup sub => exact xgroup_evolves isCommand ctx db
  | xinfo sub => exact kept (xinfo_keeps ctx a db)

theorem explains_other {ctx : Ctx} {db' : Db}
    (notAdd : ∀ key, addedBy key a (call ctx a db).1 = [])
    (notRead : handedOut ctx a db = fun _ _ => []) (evolves : Evolves (OtherLabels a) db db') :
    Evolves (Explains ctx a db) db db' := by
  apply evolves.weaken
  intro key labels holds
  refine ⟨?_, ?_, holds.2.2⟩
  · rw [notAdd key]
    exact holds.1
  · intro group
    rw [congrFun (congrFun notRead key) group]
    exact holds.2.1 group

theorem call_evolves (ctx : Ctx) (a : List Bytes) (db : Db) :
    Evolves (Explains ctx a db) db (call ctx a db).2 := by
  have noReads : ¬(streamCommand a = some .xreadgroup ∧
      StreamCommand.xreadgroup.arityHolds a.length) → handedOut ctx a db = fun _ _ => [] := by
    intro other
    funext key group
    exact handedOut_of_other other db key group
  cases isCommand : streamCommand a with
  | none =>
    have isCall : call ctx a db = (.value .noReply, db) := by
      unfold call
      rw [isCommand]
    apply explains_other
    · intro key
      exact addedBy_of_other (by simp [isCommand]) key _
    · exact noReads (by simp [isCommand])
    · rw [isCall]
      exact Evolves.of_keeps (Keeps.refl db) (OtherLabels.nothing a)
  | some c =>
    by_cases arity : c.arityHolds a.length = true
    · have isCall : call ctx a db = c.handler ctx a db := by
        unfold call
        rw [isCommand]
        exact if_pos arity
      rw [isCall]
      by_cases isAdd : c = .xadd
      · subst isAdd
        apply Evolves.weaken (xadd_evolves isCommand ctx db)
        intro key labels holds
        refine ⟨?_, ?_, ?_⟩
        · rw [isCall]
          exact holds.1
        · intro group
          rw [noReads (by simp [isCommand])]
          apply List.filterMap_eq_nil_iff.mpr
          intro l member
          rcases holds.2 l member with isSilent | ⟨id, isLabel⟩
          · rw [isSilent]
          · rw [isLabel]
        · intro l member
          rcases holds.2 l member with isSilent | ⟨id, isLabel⟩
          · rw [isSilent]
            trivial
          · rw [isLabel]
            exact isCommand
      · by_cases isRead : c = .xreadgroup
        · subst isRead
          apply Evolves.weaken (xreadgroup_evolves db ⟨isCommand, arity⟩)
          intro key labels holds
          refine ⟨?_, holds.1, ?_⟩
          · rw [addedBy_of_other (by simp [isCommand])]
            apply List.filterMap_eq_nil_iff.mpr
            intro l member
            rcases holds.2 l member with isSilent | ⟨name, id, isLabel⟩
            · rw [isSilent]
            · rw [isLabel]
          · intro l member
            rcases holds.2 l member with isSilent | ⟨name, id, isLabel⟩
            · rw [isSilent]
              trivial
            · rw [isLabel]
              exact isCommand
        · apply explains_other
          · intro key
            exact addedBy_of_other (by simpa [isCommand] using isAdd) key _
          · exact noReads (by
              intro both
              rw [isCommand] at both
              exact isRead (Option.some.inj both.1))
          · exact handler_evolves isCommand isAdd isRead ctx db
    · have isCall : call ctx a db =
          refuse ("ERR wrong number of arguments for '" ++ c.fullname ++ "' command") db := by
        unfold call
        rw [isCommand]
        exact if_neg arity
      apply explains_other
      · intro key
        rw [isCall]
        exact addedBy_error key a _
      · apply noReads
        intro both
        rw [isCommand] at both
        rw [Option.some.inj both.1] at arity
        exact arity both.2
      · rw [isCall]
        exact Evolves.of_keeps (Keeps.refl db) (OtherLabels.nothing a)

end NoidaDb.Redis
