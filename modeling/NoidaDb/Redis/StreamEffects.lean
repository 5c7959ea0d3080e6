/-
Each stream command is a chain of stream steps, and its answer tells which entries it added and
which it handed out.
-/

import NoidaDb.Redis.Numbers
import NoidaDb.Redis.StreamSteps

namespace NoidaDb.Redis

open Lib

theorem showNat_no_dash (n : Nat) : ∀ b ∈ showNat n, (b != 45) = true := by
  intro b member
  exact bne_iff_ne.mpr (digit_ne_minus (showNat_digits n b member))

theorem parseId_fmtId (id : Id) (missingSeq : U64) (strict : Bool) :
    parseId (fmtId id) missingSeq strict = .ok id := by
  have noDash := showNat_no_dash id.ms.val
  have before : (fmtId id).takeWhile (fun b => b != 45) = showNat id.ms.val := by
    unfold fmtId
    rw [List.append_assoc, List.takeWhile_append_of_pos noDash]
    simp
  have after : (fmtId id).dropWhile (fun b => b != 45) = 45 :: showNat id.seq.val := by
    unfold fmtId
    rw [List.append_assoc, List.dropWhile_append_of_pos noDash]
    simp
  have long : 3 ≤ (fmtId id).length := by
    have first := List.length_pos_iff.mpr (showNat_ne_nil id.ms.val)
    have second := List.length_pos_iff.mpr (showNat_ne_nil id.seq.val)
    unfold fmtId
    simp only [List.length_append, List.length_singleton]
    omega
  have notEmpty : fmtId id ≠ [] := by
    intro isNil
    rw [isNil] at long
    simp at long
  have notMinus : (fmtId id == ascii "-") = false := by
    rw [beq_eq_false_iff_ne]
    intro same
    rw [same] at long
    revert long
    decide
  have notPlus : (fmtId id == ascii "+") = false := by
    rw [beq_eq_false_iff_ne]
    intro same
    rw [same] at long
    revert long
    decide
  have notStar : (showNat id.seq.val == ascii "*") = false := by
    rw [beq_eq_false_iff_ne]
    intro same
    have isDigit := showNat_digits id.seq.val 42 (by rw [same]; decide)
    revert isDigit
    decide
  unfold parseId
  simp only [notEmpty, notMinus, notPlus, if_false, Bool.and_false, Bool.false_eq_true]
  simp only [before, after, notStar, parseU64Or, parseU64_showNat, Bool.false_eq_true, if_false]
  rfl

def Keeps (db db' : Db) : Prop :=
  ∀ key, db.Durable key → db'.Durable key ∧ db'.streamAt key = db.streamAt key

namespace Keeps

theorem refl (db : Db) : Keeps db db := fun _ durable => ⟨durable, rfl⟩

theorem trans {db db' db'' : Db} (first : Keeps db db') (second : Keeps db' db'') :
    Keeps db db'' := by
  intro key durable
  obtain ⟨durable', same⟩ := first key durable
  obtain ⟨durable'', same'⟩ := second key durable'
  exact ⟨durable'', same'.trans same⟩

theorem dropExpired (db : Db) (key : Bytes) (now : Nat) : Keeps db (db.dropExpired key now) := by
  unfold Db.dropExpired
  split
  · rename_i expired
    intro other durable
    obtain ⟨e, isEntry, isExpired⟩ := (Option.any_eq_true _ _).mp expired
    have noStream : db.Durable key → db.streamAt key = none := by
      intro lasts
      cases isStream : e.data.stream? with
      | none => simp [Db.streamAt, isEntry, isStream]
      | some s =>
        have never := lasts e isEntry (by rw [isStream]; rfl)
        unfold Entry.isExpired at isExpired
        rw [never] at isExpired
        cases isExpired
    by_cases same : other = key
    · subst same
      constructor
      · intro e' found
        simp only [OrderedMap.get_erase, if_true] at found
        cases found
      · rw [noStream durable]
        simp [Db.streamAt]
    · constructor
      · intro e' found
        simp only [OrderedMap.get_erase, same, if_false] at found
        exact durable e' found
      · simp [Db.streamAt, same]
  · exact refl db

theorem access (db : Db) (access : OrderedMap Bytes (Nat × Nat)) :
    Keeps db { db with access := access } := fun _ durable => ⟨durable, rfl⟩

theorem touch (db : Db) (key : Bytes) (now : Nat) : Keeps db (db.touch key now) := by
  apply (dropExpired db key now).trans
  unfold Db.touch
  simp only []
  split
  · exact refl _
  · exact access _ _

theorem lookup (ctx : Ctx) (key : Bytes) (db : Db) : Keeps db (ctx.lookup key db) := by
  unfold Ctx.lookup
  split
  · exact dropExpired db key _
  · exact touch db key _

theorem signalReady (db : Db) (key : Bytes) : Keeps db (db.signalReady key) :=
  fun _ durable => ⟨durable, rfl⟩

theorem getStream (ctx : Ctx) (key : Bytes) (db : Db) : Keeps db (ctx.getStream key db).2 := by
  have same : (ctx.getStream key db).2 = ctx.lookup key db := by
    unfold Ctx.getStream
    simp only []
    split
    · rfl
    · rfl
    · rfl
  rw [same]
  exact lookup ctx key db

end Keeps

variable {key : Bytes} {db : Db} {a : List Bytes} {s : Stream} {labels : List Label}

theorem getStream_found {ctx : Ctx} (found : (ctx.getStream key db).1 = .ok (some s)) :
    (ctx.getStream key db).2.streamAt key = some s := by
  unfold Ctx.getStream at found ⊢
  cases isEntry : (ctx.lookup key db).map.get key with
  | none => simp [isEntry] at found
  | some e =>
    obtain ⟨data, expiresAt⟩ := e
    cases data with
    | stream s' =>
      simp only [isEntry, Except.ok.injEq, Option.some.injEq] at found
      simp [Db.streamAt, isEntry, Data.stream?, found]
    | _ => simp [isEntry] at found

theorem getStream_missing {ctx : Ctx} (missing : (ctx.getStream key db).1 = .ok none) :
    (ctx.getStream key db).2.map.get key = none := by
  unfold Ctx.getStream at missing ⊢
  cases isEntry : (ctx.lookup key db).map.get key with
  | none => simp [isEntry]
  | some e =>
    obtain ⟨data, expiresAt⟩ := e
    cases data with
    | stream s' => simp [isEntry] at missing
    | _ => simp [isEntry] at missing

namespace Evolves

variable {described : Bytes → List Label → Prop} {db db' db'' : Db}

theorem of_keeps (keeps : Keeps db db') (nothing : ∀ key, described key []) :
    Evolves described db db' := by
  intro key durable
  obtain ⟨durable', same⟩ := keeps key durable
  refine ⟨durable', [], nothing key, ?_⟩
  rw [same]
  exact StepsFrom.refl _

theorem after (keeps : Keeps db db') (evolves : Evolves described db' db'') :
    Evolves described db db'' := by
  intro key durable
  obtain ⟨durable', same⟩ := keeps key durable
  rw [← same]
  exact evolves key durable'

theorem before (evolves : Evolves described db db') (keeps : Keeps db' db'') :
    Evolves described db db'' := by
  intro key durable
  obtain ⟨durable', labels, holds, steps⟩ := evolves key durable
  obtain ⟨durable'', same⟩ := keeps key durable'
  exact ⟨durable'', labels, holds, same ▸ steps⟩

theorem weaken {weaker : Bytes → List Label → Prop} (evolves : Evolves described db db')
    (implied : ∀ key labels, described key labels → weaker key labels) :
    Evolves weaker db db' := by
  intro key durable
  obtain ⟨durable', labels, holds, steps⟩ := evolves key durable
  exact ⟨durable', labels, implied key labels holds, steps⟩

theorem setData {key : Bytes} {s s' : Stream} {labels : List Label}
    (found : db.streamAt key = some s) (steps : Stream.Steps s labels s') :
    Evolves (fun k ls => ls = if k = key then labels else []) db
      (db.setData key (.stream s')) := by
  intro other durable
  by_cases same : other = key
  · subst same
    obtain ⟨e, isEntry, isStream⟩ := Option.bind_eq_some_iff.mp found
    constructor
    · intro e' found'
      simp only [Db.setData, OrderedMap.get_update, if_true, isEntry, Option.map_some,
        Option.some.injEq] at found'
      intro _
      rw [← found']
      exact durable e isEntry (by rw [isStream]; rfl)
    · refine ⟨labels, (if_pos rfl).symm, ?_⟩
      have after : (db.setData other (.stream s')).streamAt other = some s' := by
        simp [Db.streamAt, Db.setData, isEntry, Data.stream?]
      rw [after, found]
      exact StepsFrom.steps steps
  · constructor
    · intro e' found'
      simp only [Db.setData, OrderedMap.get_update, same, if_false] at found'
      exact durable e' found'
    · refine ⟨[], (if_neg same).symm, ?_⟩
      have after : (db.setData key (.stream s')).streamAt other = db.streamAt other := by
        simp [Db.streamAt, Db.setData, same]
      rw [after]
      exact StepsFrom.refl _

theorem insertStream (ctx : Ctx) {key : Bytes} (missing : db.map.get key = none) :
    Evolves (fun _ ls => ls = []) db (ctx.insertStream key db) := by
  intro other durable
  by_cases same : other = key
  · subst same
    constructor
    · intro e found _
      simp only [Ctx.insertStream, Db.insert, OrderedMap.get_insert, if_true,
        Option.some.injEq] at found
      rw [← found]
    · refine ⟨[], rfl, Or.inr ⟨{}, ?_, ?_⟩⟩
      · simp [Ctx.insertStream, Db.insert, Db.streamAt, Data.stream?]
      · have before : db.streamAt other = none := by simp [Db.streamAt, missing]
        rw [before]
        exact .nil _
  · constructor
    · intro e found
      simp only [Ctx.insertStream, Db.insert, OrderedMap.get_insert, same, if_false] at found
      exact durable e found
    · refine ⟨[], rfl, ?_⟩
      have after : (ctx.insertStream key db).streamAt other = db.streamAt other := by
        simp [Ctx.insertStream, Db.insert, Db.streamAt, same]
      rw [after]
      exact StepsFrom.refl _

theorem trans {more described' : Bytes → List Label → Prop} (first : Evolves described db db')
    (second : Evolves more db' db'')
    (both : ∀ key ls ms, described key ls → more key ms → described' key (ls ++ ms)) :
    Evolves described' db db'' := by
  intro key durable
  obtain ⟨durable', labels, holds, steps⟩ := first key durable
  obtain ⟨durable'', labels', holds', steps'⟩ := second key durable'
  exact ⟨durable'', labels ++ labels', both key labels labels' holds holds', steps.trans steps'⟩

end Evolves

theorem parsed_rule {α : Type} {Q : Answer × Db → Prop} {r : Except Value α}
    {next : α → Answer × Db} (stop : ∀ e, Q (.error e, db)) (go : ∀ x, r = .ok x → Q (next x)) :
    Q (parsed r db next) := by
  unfold parsed
  cases r with
  | error e => exact stop e
  | ok x => exact go x rfl

theorem andThen_rule {α : Type} {Q : Answer × Db → Prop} {r : Outcome α}
    {next : α → Db → Answer × Db} (stop : ∀ e, r.1 = .error e → Q (e, r.2))
    (go : ∀ x, r.1 = .ok x → Q (next x r.2)) : Q (r.andThen next) := by
  obtain ⟨result, db⟩ := r
  cases result with
  | error e => exact stop e rfl
  | ok x => exact go x rfl

theorem getStream_error {ctx : Ctx} {key : Bytes} {db : Db} {e : Answer}
    (failed : (ctx.getStream key db).1 = .error e) : e = .error wrongType := by
  unfold Ctx.getStream at failed
  simp only [] at failed
  split at failed
  · cases failed
  · cases failed
  · cases failed
    rfl

namespace Stream

theorem keys_removeEntry (s : Stream) (id j : Id) :
    j ∈ (s.removeEntry id).entries.keys ↔ j ≠ id ∧ j ∈ s.entries.keys :=
  OrderedMap.mem_keys_erase s.entries id j

theorem steps_removeAll {s : Stream} {ids : List Id} (distinct : ids.Nodup)
    (stored : ∀ id ∈ ids, id ∈ s.entries.keys) :
    Steps s (ids.map (fun _ => .silent)) (ids.foldl removeEntry s) := by
  induction ids generalizing s with
  | nil => exact .nil s
  | cons id ids ih =>
    obtain ⟨notLater, distinct'⟩ := List.nodup_cons.mp distinct
    obtain ⟨first, later⟩ := List.forall_mem_cons.mp stored
    apply Chain.cons (Step.remove first)
    apply ih distinct'
    intro j member
    rw [keys_removeEntry]
    exact ⟨fun same => notLater (same ▸ member), later j member⟩

theorem victims_sublist (s : Stream) (how : Trim) : (s.victims how).Sublist s.entries.keys := by
  cases how with
  | none => exact List.nil_sublist _
  | maxLen n => exact List.take_sublist _ _
  | minId least => exact List.filter_sublist

theorem steps_trim (s : Stream) (how : Trim) :
    Steps s ((s.victims how).map (fun _ => .silent)) (s.trim how).1 :=
  steps_removeAll (s.entries.keys_nodup.sublist (s.victims_sublist how))
    (fun _ member => (s.victims_sublist how).subset member)

theorem steps_del (s : Stream) (ids : List Id) :
    ∃ labels, (∀ l ∈ labels, l = Label.silent) ∧ Steps s labels (s.del ids).1 := by
  induction ids generalizing s with
  | nil => exact ⟨[], by simp, .nil s⟩
  | cons id ids ih =>
    unfold del
    split
    · rename_i stored
      obtain ⟨labels, silent, steps⟩ := ih (s.removeEntry id)
      have first : Step s .silent (s.removeEntry id) :=
        .remove ((s.entries.contains_iff id).mp stored)
      exact ⟨.silent :: labels, List.forall_mem_cons.mpr ⟨rfl, silent⟩, .cons first steps⟩
    · exact ih s

end Stream

theorem pickId_grows {now : U64} {given : Option (Id × Bool)} {id : Id}
    (picked : pickId s now given = .ok id) : s.lastId < id := by
  unfold pickId at picked
  split at picked
  · cases picked
  · split at picked
    · cases picked
    · split at picked
      · cases picked
      · rename_i grows
        cases picked
        by_contra notLess
        apply grows
        apply And.intro (not_lt.mp notLess)
        rintro ⟨isZero, _, positive⟩
        exact notLess (isZero ▸ positive)

def adds (labels : List Label) : List Id :=
  labels.filterMap (fun l => match l with | .add id => some id | _ => none)

def deliveries (group : Bytes) (labels : List Label) : List Id :=
  labels.filterMap (fun l => match l with
    | .deliver name id => if name = group then some id else none
    | _ => none)

@[simp] theorem adds_append (ls ms : List Label) : adds (ls ++ ms) = adds ls ++ adds ms :=
  List.filterMap_append

@[simp] theorem deliveries_append (group : Bytes) (ls ms : List Label) :
    deliveries group (ls ++ ms) = deliveries group ls ++ deliveries group ms :=
  List.filterMap_append

def addedBy (key : Bytes) (a : List Bytes) (answer : Answer) : List Id :=
  if streamCommand a = some .xadd ∧ arg a 1 = key then
    match answer with
    | .value (.bulk raw) => (parseId raw 0 true).toOption.toList
    | _ => []
  else []

theorem addedBy_fmtId (isAdd : streamCommand a = some .xadd) (isKey : arg a 1 = key) (id : Id) :
    addedBy key a (.value (.bulk (fmtId id))) = [id] := by
  unfold addedBy
  rw [if_pos ⟨isAdd, isKey⟩]
  simp only [parseId_fmtId]
  rfl

@[simp] theorem addedBy_error (key : Bytes) (a : List Bytes) (e : Value) :
    addedBy key a (.error e) = [] := by
  unfold addedBy
  split
  · rfl
  · rfl

theorem addedBy_of_other (other : streamCommand a ≠ some .xadd) (key : Bytes) (answer : Answer) :
    addedBy key a answer = [] := by
  unfold addedBy
  rw [if_neg (fun both => other both.1)]

theorem adds_of_silent (silent : ∀ l ∈ labels, l = Label.silent) : adds labels = [] := by
  apply List.filterMap_eq_nil_iff.mpr
  intro l member
  rw [silent l member]

theorem deliveries_of_silent (silent : ∀ l ∈ labels, l = Label.silent) (group : Bytes) :
    deliveries group labels = [] := by
  apply List.filterMap_eq_nil_iff.mpr
  intro l member
  rw [silent l member]

def AddLabels (a : List Bytes) (answer : Answer) (key : Bytes) (labels : List Label) : Prop :=
  adds labels = addedBy key a answer ∧ ∀ l ∈ labels, l = .silent ∨ ∃ id, l = .add id

theorem addTo_evolves (isAdd : streamCommand a = some .xadd) (ctx : Ctx) (args : AddTrimArgs)
    (db : Db) : Evolves (AddLabels a (addTo ctx a args db).1) db (addTo ctx a args db).2 := by
  have keeps := Keeps.getStream ctx (arg a 1) db
  apply andThen_rule (Q := fun r => Evolves (AddLabels a r.1) db r.2)
  · intro e failed
    rw [getStream_error failed]
    exact Evolves.of_keeps keeps (fun key => ⟨(addedBy_error key a _).symm, by simp⟩)
  · intro found isFound
    cases found with
    | none =>
      apply Evolves.of_keeps keeps
      intro key
      apply And.intro _ (by simp)
      unfold addedBy
      split
      · rfl
      · rfl
    | some s =>
      apply parsed_rule (Q := fun r => Evolves (AddLabels a r.1) db r.2)
      · intro e
        exact Evolves.of_keeps keeps (fun key => ⟨(addedBy_error key a e).symm, by simp⟩)
      · intro id picked
        apply Evolves.after keeps
        have first : Stream.Step s (.add id) (s.append id (a.drop (args.next + 1))) :=
          .add (pickId_grows picked)
        have steps := Chain.cons first ((s.append id _).steps_trim args.trim)
        have evolves := Evolves.setData (getStream_found isFound) steps
        apply Evolves.weaken (evolves.before (Keeps.signalReady _ _))
        intro key labels isLabels
        by_cases isKey : key = arg a 1
        · rw [isLabels, if_pos isKey]
          constructor
          · rw [addedBy_fmtId isAdd isKey.symm]
            show id :: adds _ = [id]
            rw [adds_of_silent]
            intro l member
            obtain ⟨_, _, same⟩ := List.mem_map.mp member
            exact same.symm
          · intro l member
            rcases List.mem_cons.mp member with isFirst | isLater
            · exact Or.inr ⟨id, isFirst⟩
            · obtain ⟨_, _, same⟩ := List.mem_map.mp isLater
              exact Or.inl same.symm
        · rw [isLabels, if_neg isKey]
          apply And.intro _ (by simp)
          unfold addedBy
          rw [if_neg (fun both => isKey both.2.symm)]
          rfl

theorem xadd_evolves (isAdd : streamCommand a = some .xadd) (ctx : Ctx) (db : Db) :
    Evolves (AddLabels a (xadd ctx a db).1) db (xadd ctx a db).2 := by
  have nothing : ∀ (e : Value) (db' : Db), Keeps db db' →
      Evolves (AddLabels a (.error e)) db db' := by
    intro e db' keeps
    exact Evolves.of_keeps keeps (fun key => ⟨(addedBy_error key a e).symm, by simp⟩)
  apply parsed_rule (Q := fun r => Evolves (AddLabels a r.1) db r.2)
  · intro e
    exact nothing e db (Keeps.refl db)
  · intro args _
    simp only []
    split
    · exact nothing _ db (Keeps.refl db)
    · split
      · exact nothing _ db (Keeps.refl db)
      · have keeps := Keeps.getStream ctx (arg a 1) db
        apply andThen_rule (Q := fun r => Evolves (AddLabels a r.1) db r.2)
        · intro e failed
          rw [getStream_error failed]
          exact nothing _ _ keeps
        · intro found isFound
          cases found with
          | some s => exact Evolves.after keeps (addTo_evolves isAdd ctx args _)
          | none =>
            simp only []
            split
            · apply Evolves.of_keeps keeps
              intro key
              apply And.intro _ (by simp)
              unfold addedBy
              split
              · rfl
              · rfl
            · apply Evolves.after keeps
              apply Evolves.trans (Evolves.insertStream ctx (getStream_missing isFound))
                (addTo_evolves isAdd ctx args _)
              intro key ls ms isNil holds
              rw [isNil]
              exact holds

def Silently (_ : Bytes) (labels : List Label) : Prop := ∀ l ∈ labels, l = Label.silent

theorem Silently.nothing (key : Bytes) : Silently key [] := by simp [Silently]

theorem evolves_silently {s' : Stream} (found : db.streamAt key = some s)
    (steps : Stream.Steps s labels s') (silent : ∀ l ∈ labels, l = Label.silent) :
    Evolves Silently db (db.setData key (.stream s')) := by
  apply Evolves.weaken (Evolves.setData found steps)
  intro other ls isLabels
  rw [isLabels]
  split
  · exact silent
  · exact Silently.nothing other

theorem getStream_evolves {described : Bytes → List Label → Prop} {ctx : Ctx}
    {next : Option Stream → Db → Answer × Db} (nothing : ∀ k, described k [])
    (missing : ∀ db', Keeps db db' → Keeps db (next none db').2)
    (go : ∀ s db', db'.streamAt key = some s → Evolves described db' (next (some s) db').2) :
    Evolves described db ((ctx.getStream key db).andThen next).2 := by
  have keeps := Keeps.getStream ctx key db
  apply andThen_rule (Q := fun r => Evolves described db r.2)
  · intro e _
    exact Evolves.of_keeps keeps nothing
  · intro found isFound
    cases found with
    | none => exact Evolves.of_keeps (missing _ keeps) nothing
    | some s => exact Evolves.after keeps (go s _ (getStream_found isFound))

theorem xdel_evolves (ctx : Ctx) (a : List Bytes) (db : Db) :
    Evolves Silently db (xdel ctx a db).2 := by
  apply parsed_rule (Q := fun r => Evolves Silently db r.2)
  · intro e
    exact Evolves.of_keeps (Keeps.refl db) Silently.nothing
  · intro ids _
    apply getStream_evolves Silently.nothing
    · intro db' keeps
      exact keeps
    · intro s db' found
      obtain ⟨labels, silent, steps⟩ := s.steps_del ids
      have evolves := evolves_silently found steps silent
      simp only []
      split
      · exact evolves.before (Keeps.lookup ctx _ _)
      · exact evolves

theorem xtrim_evolves (ctx : Ctx) (a : List Bytes) (db : Db) :
    Evolves Silently db (xtrim ctx a db).2 := by
  apply parsed_rule (Q := fun r => Evolves Silently db r.2)
  · intro e
    exact Evolves.of_keeps (Keeps.refl db) Silently.nothing
  · intro args _
    simp only []
    split
    · exact Evolves.of_keeps (Keeps.refl db) Silently.nothing
    · apply getStream_evolves Silently.nothing
      · intro db' keeps
        exact keeps
      · intro s db' found
        have evolves := evolves_silently found (s.steps_trim args.trim) (by simp)
        simp only []
        split
        · exact evolves.before (Keeps.lookup ctx _ _)
        · exact evolves

def SetIdLabels (a : List Bytes) (_ : Bytes) (labels : List Label) : Prop :=
  ∀ l ∈ labels, ∃ args, setIdArgs a = .ok args ∧ l = .setId args.2.2

theorem setIdArgs_bounds {args : Id × Option Nat × Option Id} (parses : setIdArgs a = .ok args) :
    ∀ greatest ∈ args.2.2, greatest ≤ args.1 := by
  unfold setIdArgs at parses
  cases isId : parseId (arg a 2) 0 true with
  | error e =>
    rw [isId] at parses
    cases parses
  | ok id =>
    rw [isId] at parses
    cases isOptions : setIdOptions (a.drop 3) (none, none) with
    | error e =>
      rw [isOptions] at parses
      cases parses
    | ok options =>
      rw [isOptions] at parses
      change (if options.2.any (fun greatest => decide (id < greatest)) then _ else _) = _ at parses
      split at parses
      · cases parses
      · rename_i below
        cases parses
        intro greatest isGreatest
        by_contra notBelow
        apply below
        exact (Option.any_eq_true _ _).mpr
          ⟨greatest, isGreatest, decide_eq_true (not_le.mp notBelow)⟩

theorem xsetid_evolves (ctx : Ctx) (a : List Bytes) (db : Db) :
    Evolves (SetIdLabels a) db (xsetid ctx a db).2 := by
  have nothing : ∀ key, SetIdLabels a key [] := by simp [SetIdLabels]
  apply parsed_rule (Q := fun r => Evolves (SetIdLabels a) db r.2)
  · intro e
    exact Evolves.of_keeps (Keeps.refl db) nothing
  · intro args parses
    apply getStream_evolves nothing
    · intro db' keeps
      exact keeps
    · intro s db' found
      apply parsed_rule (Q := fun r => Evolves (SetIdLabels a) db' r.2)
      · intro e
        exact Evolves.of_keeps (Keeps.refl db') nothing
      · intro s' done
        have step := Chain.single (Stream.Step.setId (setIdArgs_bounds parses) done)
        apply Evolves.weaken (Evolves.setData found step)
        intro key labels isLabels
        rw [isLabels]
        split
        · intro l member
          exact ⟨args, parses, List.mem_singleton.mp member⟩
        · exact nothing key

end NoidaDb.Redis
