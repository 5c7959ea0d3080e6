/-
Committed offsets read back.

The ledger keeps what each InitProducerId has handed out.  A producer whose transactional id
has been initialised again is fenced: nothing that it sends counts any more.
-/

import NoidaDb.Kafka.Fencing
import NoidaDb.Kafka.Restart

namespace NoidaDb.Kafka

open Lib

inductive OffsetFact where
  | committed (pending : PendingTxnOffset)
  | deleted (key : String × String × Int)
  | groupDeleted (groupId : String)

def OffsetFact.isAbout (key : String × String × Int) : OffsetFact → Bool
  | .committed pending => decide (pending.key = key)
  | .deleted other => decide (other = key)
  | .groupDeleted groupId => decide (key.1 = groupId)

def OffsetFact.value : OffsetFact → Option (Int × String)
  | .committed pending => some (pending.offset, pending.metadata.getD "")
  | .deleted _ => none
  | .groupDeleted _ => none

def lastOffset (facts : List OffsetFact) (key : String × String × Int) : Option (Int × String) :=
  (facts.reverse.find? (OffsetFact.isAbout key)).bind OffsetFact.value

structure OffsetLedger where
  facts : List OffsetFact := []
  /-- By transactional id: offsets of the open transaction. -/
  waiting : String → List PendingTxnOffset := fun _ => []
  /-- By transactional id: the producer id and the epoch that were handed out last. -/
  current : String → Option (Int × Int) := fun _ => none
  superseded : List (Int × Int) := []
  /-- By transactional id: all that were handed out since the broker was last started. -/
  sinceStart : String → List (Int × Int) := fun _ => []

namespace OffsetLedger

def fences (l : OffsetLedger) (producerId producerEpoch : Int) : Bool :=
  l.superseded.contains (producerId, producerEpoch)

def handOut (l : OffsetLedger) (txId : String) (producer : Int × Int) : OffsetLedger :=
  { l with
    current := Function.update l.current txId (some producer)
    superseded := l.superseded ++ (l.current txId).toList
    sinceStart := Function.update l.sinceStart txId (l.sinceStart txId ++ [producer]) }

def note (l : OffsetLedger) (facts : List OffsetFact) : OffsetLedger :=
  { l with facts := l.facts ++ facts }

def setWaiting (l : OffsetLedger) (txId : String) (offsets : List PendingTxnOffset) :
    OffsetLedger :=
  { l with waiting := Function.update l.waiting txId offsets }

end OffsetLedger

def accepted {α : Type} (entries : List α) (answers : List Int) : List α :=
  ((entries.zip answers).filter (fun x => decide (x.2 = 0))).map Prod.fst

def OffsetCommitRequest.entry (req : OffsetCommitRequest)
    (partition : (String × Int) × Int × Option String) : PendingTxnOffset where
  key := (req.groupId, partition.1.1, partition.1.2)
  offset := partition.2.1
  metadata := partition.2.2

namespace EngineState

def noteOffsets (codec : Codec) (l : OffsetLedger) (e : EngineState) : Event → OffsetLedger
  | .offsetCommit order req =>
    l.note ((accepted req.partitions (e.handleOffsetCommit order req).2).map
      (fun partition => .committed (req.entry partition)))
  | .offsetDelete groupId partitions =>
    if (e.handleOffsetDelete groupId partitions).2 = 0 then
      l.note (partitions.map (fun at' => .deleted (groupId, at'.1, at'.2)))
    else l
  | .deleteGroups groupIds =>
    l.note ((accepted groupIds (handleDeleteGroups groupIds e).2).map .groupDeleted)
  | .request (.txnOffsetCommit txId producerId producerEpoch offsets) =>
    if l.fences producerId producerEpoch then l
    else
      l.setWaiting txId (l.waiting txId ++ accepted offsets
        (e.handleTxnOffsetCommit txId producerId producerEpoch offsets).2)
  | .request (.endTxn order txId producerId producerEpoch committed now) =>
    let answer := (e.handleEndTxn codec order txId producerId producerEpoch committed now).2
    if l.fences producerId producerEpoch then l
    else if answer = 47 then l
    else if answer = 0 ∧ committed = true then
      (l.note ((l.waiting txId).map .committed)).setWaiting txId []
    else l.setWaiting txId []
  | .request (.initProducerId order req now) =>
    match req.transactionalId with
    | some txId =>
      let answer := (e.handleInitProducerId codec order req now).2
      if answer.1 = 0 then (l.setWaiting txId []).handOut txId answer.2 else l
    | none => l
  | .restart _ _ _ => { l with waiting := fun _ => [], sinceStart := fun _ => [] }
  | _ => l

def ledgerAfter (codec : Codec) : OffsetLedger → EngineState → List Event → OffsetLedger
  | l, _, [] => l
  | l, e, event :: rest => ledgerAfter codec (noteOffsets codec l e event) (e.next codec event) rest

/-- A fenced producer that still writes was superseded since the broker was last started, and
the epochs of its transactional id have not wrapped around since then. -/
def FencedInTime (l : OffsetLedger) : Event → Prop
  | .request (.txnOffsetCommit _ producerId producerEpoch _) => InTime l producerId producerEpoch
  | .request (.endTxn _ _ producerId producerEpoch _ _) => InTime l producerId producerEpoch
  | _ => True
where
  InTime (l : OffsetLedger) (producerId producerEpoch : Int) : Prop :=
    l.fences producerId producerEpoch = true →
      ∃ txId, (producerId, producerEpoch) ∈ (l.sinceStart txId).dropLast ∧
        (l.sinceStart txId).length ≤ 32768

def AlongLedger (codec : Codec) : OffsetLedger → EngineState → List Event → Prop
  | _, _, [] => True
  | l, e, event :: rest =>
    FencedInTime l event ∧ AlongLedger codec (noteOffsets codec l e event) (e.next codec event) rest

structure ReadsBack (facts : List OffsetFact) (e : EngineState) : Prop where
  offsets : ∀ key, e.committedOffsets.get key = (lastOffset facts key).map Prod.fst
  metadata : ∀ key, e.offsetMetadataOf key = ((lastOffset facts key).map Prod.snd).getD ""

theorem lastOffset_append (facts : List OffsetFact) (fact : OffsetFact)
    (key : String × String × Int) :
    lastOffset (facts ++ [fact]) key =
      if fact.isAbout key = true then fact.value else lastOffset facts key := by
  unfold lastOffset
  rw [List.reverse_append, List.reverse_singleton, List.singleton_append, List.find?_cons]
  cases fact.isAbout key with
  | true => rfl
  | false => rfl

variable {e e' : EngineState} {facts : List OffsetFact} {α : Type}

theorem ReadsBack.of_same (reads : ReadsBack facts e)
    (offsets : e'.committedOffsets = e.committedOffsets)
    (metadata : e'.offsetMetadata = e.offsetMetadata) : ReadsBack facts e' where
  offsets := by
    rw [offsets]
    exact reads.offsets
  metadata := by
    unfold offsetMetadataOf
    rw [metadata]
    exact reads.metadata

theorem ReadsBack.commitOffset (reads : ReadsBack facts e) (pending : PendingTxnOffset) :
    ReadsBack (facts ++ [.committed pending]) (e.commitOffset pending) := by
  constructor
  · intro key
    rw [lastOffset_append]
    by_cases same : pending.key = key
    · simp [EngineState.commitOffset, setOffsetMetadata, OffsetFact.isAbout, OffsetFact.value, same]
    · simp [EngineState.commitOffset, setOffsetMetadata, OffsetFact.isAbout, same, Ne.symm same,
        reads.offsets]
  · intro key
    rw [lastOffset_append]
    have before := reads.metadata key
    unfold offsetMetadataOf at before ⊢
    unfold EngineState.commitOffset setOffsetMetadata
    by_cases same : pending.key = key
    · cases isText : pending.metadata with
      | none => simp [OffsetFact.isAbout, OffsetFact.value, same, isText]
      | some text =>
        by_cases empty : text = ""
        · simp [OffsetFact.isAbout, OffsetFact.value, same, isText, empty, Option.filter]
        · simp [OffsetFact.isAbout, OffsetFact.value, same, isText, empty, Option.filter]
    · cases pending.metadata.filter (fun m => decide (m ≠ "")) with
      | none => simp [OffsetFact.isAbout, same, Ne.symm same, before]
      | some text => simp [OffsetFact.isAbout, same, Ne.symm same, before]

theorem ReadsBack.deleteOffset (reads : ReadsBack facts e) (groupId : String) (at' : String × Int) :
    ReadsBack (facts ++ [.deleted (groupId, at'.1, at'.2)]) (e.deleteOffset groupId at') := by
  constructor
  · intro key
    rw [lastOffset_append]
    by_cases same : (groupId, at'.1, at'.2) = key
    · subst same
      simp [EngineState.deleteOffset, OffsetFact.isAbout, OffsetFact.value]
    · simp [EngineState.deleteOffset, OffsetFact.isAbout, same, Ne.symm same, reads.offsets]
  · intro key
    rw [lastOffset_append]
    have before := reads.metadata key
    unfold offsetMetadataOf at before ⊢
    by_cases same : (groupId, at'.1, at'.2) = key
    · subst same
      simp [EngineState.deleteOffset, OffsetFact.isAbout, OffsetFact.value]
    · simp [EngineState.deleteOffset, OffsetFact.isAbout, same, Ne.symm same, before]

theorem ReadsBack.dropGroupOffsets (reads : ReadsBack facts e) (groupId : String) :
    ReadsBack (facts ++ [.groupDeleted groupId]) (e.dropGroupOffsets groupId) := by
  constructor
  · intro key
    rw [lastOffset_append]
    by_cases same : key.1 = groupId
    · simp [EngineState.dropGroupOffsets, OffsetFact.isAbout, OffsetFact.value, same]
    · simp [EngineState.dropGroupOffsets, OffsetFact.isAbout, same, reads.offsets]
  · intro key
    rw [lastOffset_append]
    have before := reads.metadata key
    unfold offsetMetadataOf at before ⊢
    by_cases same : key.1 = groupId
    · simp [EngineState.dropGroupOffsets, OffsetFact.isAbout, OffsetFact.value, same]
    · simp [EngineState.dropGroupOffsets, OffsetFact.isAbout, same, before]

theorem ReadsBack.foldl {step : EngineState → α → EngineState} {fact : α → OffsetFact}
    (each : ∀ facts e a, ReadsBack facts e → ReadsBack (facts ++ [fact a]) (step e a))
    (items : List α) (reads : ReadsBack facts e) :
    ReadsBack (facts ++ items.map fact) (items.foldl step e) := by
  induction items generalizing facts e with
  | nil => simpa using reads
  | cons a rest ih =>
    have later := ih (each facts e a reads)
    simpa using later

theorem accepted_cons (entry : α) (entries : List α) (answer : Int) (answers : List Int) :
    accepted (entry :: entries) (answer :: answers) =
      if answer = 0 then entry :: accepted entries answers else accepted entries answers := by
  unfold accepted
  rw [List.zip_cons_cons, List.filter_cons]
  by_cases zero : answer = 0
  · simp [zero]
  · simp [zero]

theorem accepted_map_const (entries : List α) (code : Int) :
    accepted entries (entries.map (fun _ => code)) = if code = 0 then entries else [] := by
  induction entries with
  | nil => simp [accepted]
  | cons entry rest ih =>
    rw [List.map_cons, accepted_cons, ih]
    split
    · rfl
    · rfl

theorem ReadsBack.commitPartitions (error : Int) (groupId : String)
    (entries : List ((String × Int) × Int × Option String)) (reads : ReadsBack facts e) :
    ReadsBack
      (facts ++ (accepted entries (commitPartitions error groupId entries e).2).map (fun entry =>
        .committed
          { key := (groupId, entry.1.1, entry.1.2), offset := entry.2.1, metadata := entry.2.2 }))
      (EngineState.commitPartitions error groupId entries e).1 := by
  induction entries generalizing facts e with
  | nil => simpa [accepted, EngineState.commitPartitions] using reads
  | cons entry rest ih =>
    simp only [EngineState.commitPartitions, accepted_cons]
    by_cases refused : (commitPartition error groupId e entry).2 = 0
    · have stored : (commitPartition error groupId e entry).1 = e.commitOffset
          { key := (groupId, entry.1.1, entry.1.2), offset := entry.2.1,
            metadata := entry.2.2 } := by
        unfold commitPartition at refused ⊢
        split at refused
        · rename_i isError
          exact (isError refused).elim
        · rename_i noError
          split at refused
          · cases refused
          · rename_i exists'
            rw [if_neg noError, if_neg exists']
      have later := ih (reads.commitOffset
        { key := (groupId, entry.1.1, entry.1.2), offset := entry.2.1, metadata := entry.2.2 })
      rw [← stored] at later
      rw [if_pos refused]
      simpa using later
    · have unchanged : (commitPartition error groupId e entry).1 = e := by
        unfold commitPartition at refused ⊢
        split
        · rfl
        · rename_i noError
          rw [if_neg noError] at refused
          split
          · rfl
          · rename_i exists'
            rw [if_neg exists'] at refused
            exact (refused rfl).elim
      rw [if_neg refused]
      have later := ih reads
      rw [← unchanged] at later
      exact later

theorem ReadsBack.deleteGroups (groupIds : List String) (reads : ReadsBack facts e) :
    ReadsBack (facts ++ (accepted groupIds (handleDeleteGroups groupIds e).2).map .groupDeleted)
      (handleDeleteGroups groupIds e).1 := by
  induction groupIds generalizing facts e with
  | nil => simpa [accepted, handleDeleteGroups] using reads
  | cons groupId rest ih =>
    simp only [handleDeleteGroups, accepted_cons]
    have here : (e.deleteGroup groupId).2 = 0 ∧ (e.deleteGroup groupId).1 = e.buryGroup groupId ∨
        (e.deleteGroup groupId).2 ≠ 0 ∧ (e.deleteGroup groupId).1 = e := by
      unfold deleteGroup
      split
      · exact Or.inr ⟨by simp, rfl⟩
      · split
        · exact Or.inl ⟨rfl, rfl⟩
        · exact Or.inr ⟨by simp, rfl⟩
    rcases here with ⟨answer, buried⟩ | ⟨answer, same⟩
    · rw [if_pos answer, buried]
      have dropped := reads.dropGroupOffsets groupId
      have later := ih (e := e.buryGroup groupId) (dropped.of_same rfl rfl)
      simpa using later
    · rw [if_neg answer, same]
      exact ih reads

theorem ReadsBack.endOffsets (reads : ReadsBack facts e) (txId : String) (committed : Bool) :
    ReadsBack
      (if committed = true then
        facts ++ ((e.txnPendingOffsets txId).getD []).map .committed
      else facts) (e.endOffsets txId committed) := by
  cases committed with
  | false => exact reads.of_same rfl rfl
  | true =>
    have removed : ReadsBack facts
        { e with txnPendingOffsets := Function.update e.txnPendingOffsets txId none } :=
      reads.of_same rfl rfl
    have applied := ReadsBack.foldl
      (fun facts e pending (reads : ReadsBack facts e) => reads.commitOffset pending)
      ((e.txnPendingOffsets txId).getD []) removed
    exact applied.of_same rfl rfl

theorem endOffsets_waiting (e : EngineState) (txId : String) (committed : Bool) :
    (e.endOffsets txId committed).txnPendingOffsets =
      Function.update e.txnPendingOffsets txId none := by
  cases committed with
  | false => rfl
  | true =>
    obtain ⟨offsets, metadata, same⟩ := OffsetsOnly.foldl offsetsOnly_commitOffset
      ((e.txnPendingOffsets txId).getD [])
      { e with txnPendingOffsets := Function.update e.txnPendingOffsets txId none }
    unfold EngineState.endOffsets
    simp only [if_true]
    rw [same]

theorem completeTxn_offsets (codec : Codec) (order : HashOrder (String × Int)) (txId : String)
    (producerId producerEpoch : Int) (committed : Bool) (now : Int) (reads : ReadsBack facts e) :
    ReadsBack
        (if (e.completeTxn codec order txId producerId producerEpoch committed now).2 = 0 ∧
            committed = true then
          facts ++ ((e.txnPendingOffsets txId).getD []).map .committed
        else facts)
        (e.completeTxn codec order txId producerId producerEpoch committed now).1 ∧
      (e.completeTxn codec order txId producerId producerEpoch committed now).1.txnPendingOffsets =
        Function.update e.txnPendingOffsets txId none := by
  unfold completeTxn
  cases e.txnPartitions txId with
  | none =>
    simp only [true_and]
    exact ⟨reads.endOffsets txId committed, e.endOffsets_waiting txId committed⟩
  | some partitions =>
    simp only
    obtain ⟨topics, ended⟩ := endPartitions_frame codec producerId producerEpoch committed now
      (order.list partitions)
      { e with txnPartitions := Function.update e.txnPartitions txId none }
    split
    · simp only [true_and]
      rw [ended]
      have closed : ReadsBack facts
          { e with
            txnPartitions := Function.update e.txnPartitions txId none
            topics := topics } := reads.of_same rfl rfl
      exact ⟨closed.endOffsets txId committed, endOffsets_waiting _ txId committed⟩
    · rw [ended]
      constructor
      · simp only [OfNat.ofNat_ne_zero, false_and, if_false]
        exact reads.of_same rfl rfl
      · rfl

theorem initProducerId_offsets (codec : Codec) (order : HashOrder (String × Int))
    (req : InitProducerIdRequest) (now : Int) (reads : ReadsBack facts e) :
    ReadsBack facts (e.handleInitProducerId codec order req now).1 ∧
      ∀ txId, ((e.handleInitProducerId codec order req now).1.txnPendingOffsets txId).getD [] =
        if (e.handleInitProducerId codec order req now).2.1 = 0 ∧ req.transactionalId = some txId
        then [] else (e.txnPendingOffsets txId).getD [] := by
  unfold handleInitProducerId
  split
  · exact ⟨reads, fun txId => by simp⟩
  · split
    · exact ⟨reads, fun txId => by simp⟩
    · simp only [true_and]
      have counted : ReadsBack facts
            (if (req.transactionalId.bind e.txnProducers).isSome = true then e
              else { e with nextProducerId := e.nextProducerId + 1 }) ∧
          (if (req.transactionalId.bind e.txnProducers).isSome = true then e
              else { e with nextProducerId := e.nextProducerId + 1 }).txnPendingOffsets =
            e.txnPendingOffsets := by
        split
        · exact ⟨reads, rfl⟩
        · exact ⟨reads.of_same rfl rfl, rfl⟩
      generalize (if (req.transactionalId.bind e.txnProducers).isSome = true then e
        else { e with nextProducerId := e.nextProducerId + 1 }) = e₁ at counted ⊢
      obtain ⟨counted, waiting⟩ := counted
      rw [← waiting]
      cases req.transactionalId with
      | none =>
        constructor
        · exact counted.of_same rfl rfl
        · intro txId
          simp
      | some tid =>
        simp only [Option.some.injEq]
        split
        · obtain ⟨aborted, dropped⟩ := completeTxn_offsets codec order tid
            ((Option.map Prod.fst ((some tid).bind e.txnProducers)).getD e.nextProducerId)
            ((Option.map (fun k => wrap16 (k.2 + 1)) ((some tid).bind e.txnProducers)).getD 0)
            false now counted
          constructor
          · simp only [Bool.false_eq_true, and_false, if_false] at aborted
            exact aborted.of_same rfl rfl
          · intro txId
            rw [dropped]
            by_cases same : tid = txId
            · subst same
              simp
            · rw [Function.update_of_ne (Ne.symm same), if_neg same]
        · rename_i closed
          constructor
          · exact counted.of_same rfl rfl
          · intro txId
            by_cases same : tid = txId
            · subst same
              rw [if_pos rfl]
              -- A transaction that is not open holds no offsets.
              simp only [txnIsOpen, Bool.or_eq_true, not_or, Bool.not_eq_true] at closed
              cases held : e₁.txnPendingOffsets tid with
              | none => simp
              | some offsets =>
                have none' := closed.2
                rw [held] at none'
                simpa [held] using none'
            · rw [if_neg same]

structure InLedger (l : OffsetLedger) (e : EngineState) : Prop where
  reads : ReadsBack l.facts e
  waiting : ∀ txId, (e.txnPendingOffsets txId).getD [] = l.waiting txId

theorem InLedger.of_same {l : OffsetLedger} (inLedger : InLedger l e)
    (offsets : e'.committedOffsets = e.committedOffsets)
    (metadata : e'.offsetMetadata = e.offsetMetadata)
    (waiting : e'.txnPendingOffsets = e.txnPendingOffsets) : InLedger l e' where
  reads := inLedger.reads.of_same offsets metadata
  waiting := by
    rw [waiting]
    exact inLedger.waiting

theorem InLedger.of_logsOnly {l : OffsetLedger} (inLedger : InLedger l e) (only : LogsOnly e e') :
    InLedger l e' := by
  obtain ⟨topics, same⟩ := only
  subst same
  exact inLedger.of_same rfl rfl rfl

theorem OffsetsOnly.waiting (only : OffsetsOnly e e') :
    e'.txnPendingOffsets = e.txnPendingOffsets := by
  obtain ⟨offsets, metadata, same⟩ := only
  rw [same]

theorem foldl_pendOffset (txId : String) (offsets : List PendingTxnOffset) (e : EngineState) :
    ∃ waiting, offsets.foldl (pendOffset txId) e = { e with txnPendingOffsets := waiting } ∧
      ∀ other, (waiting other).getD [] =
        if other = txId then (e.txnPendingOffsets txId).getD [] ++ offsets
        else (e.txnPendingOffsets other).getD [] := by
  induction offsets generalizing e with
  | nil =>
    refine ⟨e.txnPendingOffsets, rfl, ?_⟩
    intro other
    split
    · rename_i same
      simp [same]
    · rfl
  | cons pending rest ih =>
    obtain ⟨waiting, same, holds⟩ := ih (pendOffset txId e pending)
    refine ⟨waiting, same, ?_⟩
    intro other
    rw [holds other]
    by_cases isTxn : other = txId
    · simp [isTxn, pendOffset]
    · simp [isTxn, pendOffset]

theorem foldl_addPartition (txId : String) (now : Int) (partitions : List (String × Int))
    (e : EngineState) :
    ∃ added info, partitions.foldl (addPartition txId now) e =
      { e with txnPartitions := added, txnInfo := info } := by
  induction partitions generalizing e with
  | nil => exact ⟨e.txnPartitions, e.txnInfo, rfl⟩
  | cons at' rest ih =>
    obtain ⟨added, info, same⟩ := ih (addPartition txId now e at')
    exact ⟨added, info, same⟩

theorem waiting_handleDeleteGroups (groupIds : List String) (e : EngineState) :
    (handleDeleteGroups groupIds e).1.txnPendingOffsets = e.txnPendingOffsets := by
  induction groupIds generalizing e with
  | nil => rfl
  | cons groupId rest ih =>
    have here : (e.deleteGroup groupId).1.txnPendingOffsets = e.txnPendingOffsets := by
      unfold deleteGroup
      split
      · rfl
      · split
        · rfl
        · rfl
    exact (ih _).trans here

theorem sinceStart_noteOffsets (codec : Codec) (l : OffsetLedger) (e : EngineState) (event : Event)
    (txId : String) : (noteOffsets codec l e event).sinceStart txId =
      noteHandedOut codec txId (l.sinceStart txId) e event := by
  unfold noteOffsets noteHandedOut
  cases event with
  | request r =>
    cases r with
    | initProducerId order req now =>
      cases isTid : req.transactionalId with
      | none => simp [isTid]
      | some tid =>
        by_cases answer : (e.handleInitProducerId codec order req now).2.1 = 0
        · by_cases same : tid = txId
          · subst same
            simp [isTid, answer, OffsetLedger.handOut, OffsetLedger.setWaiting]
          · simp [isTid, answer, same, OffsetLedger.handOut, OffsetLedger.setWaiting,
              Function.update_of_ne (Ne.symm same)]
        · simp [isTid, answer]
    | txnOffsetCommit txId' producerId producerEpoch offsets =>
      simp only
      split
      · rfl
      · rfl
    | endTxn order txId' producerId producerEpoch committed now =>
      simp only
      split
      · rfl
      · split
        · rfl
        · split
          · rfl
          · rfl
    | _ => rfl
  | offsetDelete groupId partitions =>
    simp only
    split
    · rfl
    · rfl
  | _ => rfl

theorem Fences.isFenced {handedOut : List (Int × Int)} (fences : Fences tid handedOut e)
    {producerId producerEpoch : Int} (older : (producerId, producerEpoch) ∈ handedOut.dropLast)
    (bounded : handedOut.length ≤ 32768) : e.isFenced producerId producerEpoch = true := by
  rcases fences.answered with ⟨isEmpty, _⟩ | ⟨pid, count, isEpochs, found⟩
  · simp [isEmpty] at older
  · obtain ⟨isEpoch, _, _⟩ := fences.known tid (pid, wrap16 count) found
    have few : count < 32768 := by
      rw [isEpochs, epochsOf, List.length_map, List.length_range] at bounded
      exact bounded
    rw [isEpochs, epochsOf_succ, List.dropLast_concat] at older
    obtain ⟨i, inRange, same⟩ := List.mem_map.mp older
    obtain ⟨rfl, rfl⟩ := Prod.mk.inj same
    simp only at isEpoch
    rw [isFenced_iff isEpoch]
    exact (wrap16_lt_iff count).mpr few i (List.mem_range.mp inRange)

theorem InLedger.initProducerId {l : OffsetLedger} {e : EngineState} (inLedger : InLedger l e)
    (codec : Codec) (order : HashOrder (String × Int)) (req : InitProducerIdRequest) (now : Int) :
    InLedger (noteOffsets codec l e (.request (.initProducerId order req now)))
      (e.next codec (.request (.initProducerId order req now))) := by
  obtain ⟨reads, waiting⟩ := initProducerId_offsets codec order req now inLedger.reads
  simp only [noteOffsets, EngineState.next, handle]
  cases isTid : req.transactionalId with
  | none =>
    refine ⟨reads, ?_⟩
    intro txId
    rw [waiting, isTid]
    simpa using inLedger.waiting txId
  | some tid =>
    simp only
    split
    · rename_i answer
      refine ⟨reads, ?_⟩
      intro txId
      rw [waiting, isTid]
      by_cases same : tid = txId
      · simp [same, answer, OffsetLedger.handOut, OffsetLedger.setWaiting]
      · simp [same, OffsetLedger.handOut, OffsetLedger.setWaiting,
          Function.update_of_ne (Ne.symm same), inLedger.waiting]
    · rename_i answer
      refine ⟨reads, ?_⟩
      intro txId
      rw [waiting, if_neg (by simp [answer])]
      exact inLedger.waiting txId

theorem InLedger.txnOffsetCommit {l : OffsetLedger} {e : EngineState} (inLedger : InLedger l e)
    (codec : Codec) (txId : String) {producerId producerEpoch : Int}
    (offsets : List PendingTxnOffset)
    (fenced : l.fences producerId producerEpoch = true →
      e.isFenced producerId producerEpoch = true) :
    InLedger (noteOffsets codec l e
        (.request (.txnOffsetCommit txId producerId producerEpoch offsets)))
      (e.next codec (.request (.txnOffsetCommit txId producerId producerEpoch offsets))) := by
  simp only [noteOffsets, EngineState.next, handle, handleTxnOffsetCommit]
  by_cases byLedger : l.fences producerId producerEpoch = true
  · rw [if_pos byLedger, if_pos (fenced byLedger)]
    exact inLedger
  rw [if_neg byLedger]
  split
  · simp only [accepted_map_const]
    refine ⟨inLedger.reads, ?_⟩
    intro other
    rw [inLedger.waiting]
    simp [OffsetLedger.setWaiting]
  · simp only [accepted_map_const]
    obtain ⟨waiting, same, holds⟩ := foldl_pendOffset txId offsets e
    rw [same]
    refine ⟨inLedger.reads.of_same rfl rfl, ?_⟩
    intro other
    simp only [holds, inLedger.waiting, OffsetLedger.setWaiting, if_true]
    by_cases isTxn : other = txId
    · simp [isTxn]
    · simp [isTxn]

theorem InLedger.endTxn {l : OffsetLedger} {e : EngineState} (inLedger : InLedger l e)
    (codec : Codec) (order : HashOrder (String × Int)) (txId : String)
    {producerId producerEpoch : Int} (committed : Bool) (now : Int)
    (fenced : l.fences producerId producerEpoch = true →
      e.isFenced producerId producerEpoch = true) :
    InLedger (noteOffsets codec l e
        (.request (.endTxn order txId producerId producerEpoch committed now)))
      (e.next codec (.request (.endTxn order txId producerId producerEpoch committed now))) := by
  simp only [noteOffsets, EngineState.next, handle, handleEndTxn]
  by_cases byLedger : l.fences producerId producerEpoch = true
  · rw [if_pos byLedger, if_pos (fenced byLedger)]
    exact inLedger
  rw [if_neg byLedger]
  split
  · simpa using inLedger
  · obtain ⟨reads, waiting⟩ := completeTxn_offsets codec order txId producerId producerEpoch
      committed now inLedger.reads
    have closed : ∀ other, ((e.completeTxn codec order txId producerId producerEpoch committed
        now).1.txnPendingOffsets other).getD [] =
          Function.update l.waiting txId [] other := by
      intro other
      rw [waiting]
      by_cases same : other = txId
      · simp [same]
      · simp [Function.update_of_ne same, inLedger.waiting]
    have code : (e.completeTxn codec order txId producerId producerEpoch committed now).2 ≠
        47 := by
      unfold completeTxn
      split
      · simp
      · simp only
        split
        · simp
        · simp
    rw [inLedger.waiting] at reads
    rw [if_neg code]
    split
    · rename_i isCommit
      rw [if_pos isCommit] at reads
      exact ⟨reads, closed⟩
    · rename_i notCommit
      rw [if_neg notCommit] at reads
      exact ⟨reads, closed⟩

theorem InLedger.next {l : OffsetLedger} {e : EngineState} (inLedger : InLedger l e) (codec : Codec)
    (fences : ∀ txId, Fences txId (l.sinceStart txId) e) {event : Event}
    (legal : Legal codec e event) (inTime : FencedInTime l event) :
    InLedger (noteOffsets codec l e event) (e.next codec event) := by
  -- What the ledger fences, the broker fences too.
  have fenced : ∀ {producerId producerEpoch : Int},
      FencedInTime.InTime l producerId producerEpoch → l.fences producerId producerEpoch = true →
        e.isFenced producerId producerEpoch = true := by
    intro producerId producerEpoch inTime isFenced
    obtain ⟨txId, older, bounded⟩ := inTime isFenced
    exact (fences txId).isFenced older bounded
  cases event with
  | request r =>
    cases r with
    | initProducerId order req now => exact inLedger.initProducerId codec order req now
    | addPartitionsToTxn txId producerId producerEpoch partitions now =>
      obtain ⟨added, info, same⟩ := foldl_addPartition txId now partitions e
      simp only [noteOffsets, EngineState.next, handle, handleAddPartitionsToTxn]
      split
      · exact inLedger
      · simp only [same]
        exact inLedger.of_same rfl rfl rfl
    | addOffsetsToTxn txId producerId producerEpoch now =>
      simp only [noteOffsets, EngineState.next, handle, handleAddOffsetsToTxn]
      split
      · exact inLedger
      · exact inLedger.of_same rfl rfl rfl
    | txnOffsetCommit txId producerId producerEpoch offsets =>
      exact inLedger.txnOffsetCommit codec txId offsets (fenced inTime)
    | produce data now => exact inLedger.of_logsOnly (logsOnly_handleProduce codec now data e)
    | endTxn order txId producerId producerEpoch committed now =>
      exact inLedger.endTxn codec order txId committed now (fenced inTime)
    | deleteRecords data now =>
      exact inLedger.of_logsOnly (logsOnly_handleDeleteRecords now data e)
    | runLogCleaner now => exact inLedger.of_same rfl rfl rfl
  | offsetCommit order req =>
    constructor
    · exact inLedger.reads.commitPartitions _ req.groupId req.partitions
    · intro txId
      have same := (offsetsOnly_commitPartitions
        (GroupState.commitError order req.groupId req.memberId req.generationIdOrMemberEpoch
          req.groupInstanceId (e.groups req.groupId)) req.groupId req.partitions e).waiting
      simp only [EngineState.next, handleOffsetCommit, same]
      exact inLedger.waiting txId
  | offsetDelete groupId partitions =>
    simp only [noteOffsets, EngineState.next, handleOffsetDelete]
    split
    · simpa using inLedger
    · simp only [if_true]
      constructor
      · exact ReadsBack.foldl
          (fun facts e at' (reads : ReadsBack facts e) => reads.deleteOffset groupId at')
          partitions inLedger.reads
      · intro txId
        rw [(OffsetsOnly.foldl (offsetsOnly_deleteOffset groupId) partitions e).waiting]
        exact inLedger.waiting txId
  | deleteGroups groupIds =>
    constructor
    · exact inLedger.reads.deleteGroups groupIds
    · intro txId
      simp only [EngineState.next, waiting_handleDeleteGroups]
      exact inLedger.waiting txId
  | snapshot order now aside =>
    exact inLedger.of_logsOnly (logsOnly_snapshot codec order now aside e)
  | restart order now s =>
    constructor
    · apply inLedger.reads.of_same
      · apply FiniteMap.ext
        intro key
        exact congrFun legal.committedOffsets.collect_get key
      · apply FiniteMap.ext
        intro key
        exact congrFun legal.offsetMetadata.collect_get key
    · intro txId
      rfl
  | _ => exact inLedger.of_same rfl rfl rfl

theorem InLedger.runEvents (codec : Codec) (events : List Event) {l : OffsetLedger}
    {e : EngineState} (inLedger : InLedger l e)
    (fences : ∀ txId, Fences txId (l.sinceStart txId) e)
    (legal : AlongEvents codec (Legal codec) e events) (inTime : AlongLedger codec l e events) :
    InLedger (ledgerAfter codec l e events) (e.runEvents codec events) := by
  induction events generalizing l e with
  | nil => exact inLedger
  | cons event rest ih =>
    refine ih (inLedger.next codec fences legal.1 inTime.1) ?_ legal.2 inTime.2
    intro txId
    rw [sinceStart_noteOffsets]
    exact (fences txId).next codec legal.1

theorem inLedger_new : InLedger {} new where
  reads := ⟨fun _ => rfl, fun _ => rfl⟩
  waiting := fun _ => rfl

def answerFor (facts : List OffsetFact) (groupId topic : String) (partitionIndex : Int) :
    FetchedOffset where
  partitionIndex := partitionIndex
  committedOffset := ((lastOffset facts (groupId, topic, partitionIndex)).map Prod.fst).getD (-1)
  metadata := ((lastOffset facts (groupId, topic, partitionIndex)).map Prod.snd).getD ""

/-- What is fetched for a group: the partitions asked for, or else every partition that has
an offset, once. -/
def Answers (facts : List OffsetFact) (groupId : String) :
    Option OffsetFetchTopics → FetchedTopics → Prop
  | some topics, fetched =>
    fetched = topics.map (fun topic => (topic.1, topic.2.map (answerFor facts groupId topic.1)))
  | none, fetched =>
    (fetched.map Prod.fst).Nodup ∧
      (∀ t, t ∈ fetched → (t.2.map FetchedOffset.partitionIndex).Nodup) ∧
        ∀ topic entry, (∃ entries, (topic, entries) ∈ fetched ∧ entry ∈ entries) ↔
          lastOffset facts (groupId, topic, entry.partitionIndex) =
            some (entry.committedOffset, entry.metadata)

theorem ReadsBack.fetchedOffset (reads : ReadsBack facts e) (groupId topic : String)
    (partitionIndex : Int) :
    e.fetchedOffset groupId topic partitionIndex = answerFor facts groupId topic partitionIndex := by
  have offsets := reads.offsets (groupId, topic, partitionIndex)
  have metadata := reads.metadata (groupId, topic, partitionIndex)
  unfold EngineState.fetchedOffset answerFor
  rw [offsets]
  cases last : lastOffset facts (groupId, topic, partitionIndex) with
  | none => rfl
  | some value =>
    rw [last] at metadata
    simp [metadata]

theorem ReadsBack.fetchAllTopics (reads : ReadsBack facts e) (groupId : String) :
    Answers facts groupId none (e.fetchAllTopics groupId) := by
  unfold EngineState.fetchAllTopics
  refine ⟨?_, ?_, ?_⟩
  · rw [List.map_map]
    simp [Function.comp_def]
  · intro t member
    obtain ⟨topic, _, same⟩ := List.mem_map.mp member
    rw [← same, List.map_map]
    simp [Function.comp_def]
  · intro topic entry
    have offsets := reads.offsets (groupId, topic, entry.partitionIndex)
    have metadata := reads.metadata (groupId, topic, entry.partitionIndex)
    have isKey := e.committedOffsets.mem_keys (groupId, topic, entry.partitionIndex)
    constructor
    · intro found
      obtain ⟨entries, member, inEntries⟩ := found
      obtain ⟨topic', _, same⟩ := List.mem_map.mp member
      obtain ⟨rfl, rfl⟩ := Prod.mk.inj same
      obtain ⟨i, isPartition, isEntry⟩ := List.mem_map.mp inEntries
      subst isEntry
      simp only [Finset.mem_sort, Finset.mem_image, Finset.mem_filter] at isPartition
      obtain ⟨key, ⟨⟨inKeys, isGroup⟩, isTopic⟩, isIndex⟩ := isPartition
      have sameKey : key = (groupId, topic', i) := by
        rw [← isGroup, ← isTopic, ← isIndex]
      rw [sameKey] at inKeys
      obtain ⟨offset, isOffset⟩ := Option.isSome_iff_exists.mp (isKey.mp inKeys)
      rw [isOffset] at offsets
      obtain ⟨value, last, isFirst⟩ := Option.map_eq_some_iff.mp offsets.symm
      rw [last] at metadata
      simp only at last metadata isOffset ⊢
      rw [last, isOffset, metadata]
      simp [← isFirst]
    · intro last
      rw [last] at offsets metadata
      have inKeys := isKey.mpr (by rw [offsets]; rfl)
      refine ⟨_, List.mem_map.mpr ⟨topic, ?_, rfl⟩, List.mem_map.mpr ⟨entry.partitionIndex, ?_, ?_⟩⟩
      · simp only [Finset.mem_sort, Finset.mem_image, Finset.mem_filter]
        exact ⟨_, ⟨inKeys, rfl⟩, rfl⟩
      · simp only [Finset.mem_sort, Finset.mem_image, Finset.mem_filter]
        exact ⟨_, ⟨⟨inKeys, rfl⟩, rfl⟩, rfl⟩
      · rw [offsets, metadata]
        rfl

theorem ReadsBack.fetchGroup (reads : ReadsBack facts e) (groupId : String)
    (topics : Option OffsetFetchTopics) :
    Answers facts groupId topics (e.fetchGroup groupId topics) := by
  cases topics with
  | none => exact reads.fetchAllTopics groupId
  | some topics =>
    have same : e.fetchedOffset groupId = answerFor facts groupId := by
      funext topic partitionIndex
      exact reads.fetchedOffset groupId topic partitionIndex
    simp only [Answers, EngineState.fetchGroup, EngineState.fetchTopics, same]

/-- Whichever form a request has, each group is answered by the facts. -/
structure FetchesBack (facts : List OffsetFact) (e : EngineState) : Prop where
  older : ∀ version req, ¬ (8 ≤ version ∧ (req.groups ≠ [] ∨ req.groupId = "")) →
    Answers facts req.groupId req.topics (e.handleOffsetFetch version req).topics
  perGroup : ∀ version req, 8 ≤ version → (req.groups ≠ [] ∨ req.groupId = "") →
    List.Forall₂ (fun asked answer => answer.1 = asked.1 ∧ Answers facts asked.1 asked.2 answer.2)
      req.groups (e.handleOffsetFetch version req).groups

/-- After any run whose fenced producers were superseded in time, an OffsetFetch, in whichever
form, answers what was committed last. -/
theorem runEvents_fetchesBack (codec : Codec) (events : List Event)
    (legal : AlongEvents codec (Legal codec) new events) (inTime : AlongLedger codec {} new events) :
    FetchesBack (ledgerAfter codec {} new events).facts (new.runEvents codec events) := by
  have fences := fun txId => fences_fresh txId (e := new) (by decide) (fun _ => rfl)
  have reads := (inLedger_new.runEvents codec events fences legal inTime).reads
  constructor
  · intro version req older
    simp only [handleOffsetFetch, if_neg older]
    exact reads.fetchGroup req.groupId req.topics
  · intro version req isNew perGroup
    simp only [handleOffsetFetch, if_pos (And.intro isNew perGroup)]
    rw [List.forall₂_map_right_iff]
    apply List.forall₂_same.mpr
    intro asked _
    exact ⟨rfl, reads.fetchGroup asked.1 asked.2⟩

/-- The first instance writes in its transaction after the second has started. -/
noncomputable def zombieCommits : List Event :=
  [.request (.txnOffsetCommit "tx" 1000 0 [{ key := ("g", "t", 0), offset := 9 }]),
    .request (.endTxn zeroFirst "tx" 1000 0 true 0)]

noncomputable def fencedAndDeleted : List Event :=
  [.createTopic "t" 2 {}, startedAgain,
    .offsetCommit (.inTurn [] List.nodup_nil)
      { groupId := "g", partitions := [(("t", 0), 5, none), (("t", 1), 7, some "seen")] },
    startedAgain] ++ zombieCommits ++ [.offsetDelete "g" [("t", 1)]]

theorem runEvents_fetchesBack_fenced :
    FetchesBack (ledgerAfter PartitionState.hundredBytes {} new fencedAndDeleted).facts
      (new.runEvents PartitionState.hundredBytes fencedAndDeleted) := by
  have inTime : ∀ l : OffsetLedger, l.sinceStart "tx" = [(1000, 0), (1000, 1)] →
      FencedInTime.InTime l 1000 0 := by
    intro l isSince _
    exact ⟨"tx", by simp [isSince], by simp [isSince]⟩
  exact runEvents_fetchesBack PartitionState.hundredBytes fencedAndDeleted
    ⟨trivial, trivial, trivial, trivial, trivial, trivial, trivial, trivial⟩
    ⟨trivial, trivial, trivial, trivial, inTime _ rfl, inTime _ rfl, trivial, trivial⟩

def savedPartition : PartitionSnapshot where
  recordBatches := []
  highWatermark := 0
  producerSeqs := []
  abortedTxns := []
  logStartOffset := 0
  segments := []
  tombstoneHorizons := []
  cleanOffset := 0

def savedInternal : TopicSnapshot where
  isInternal := true
  partitions := (List.range 50).map (fun i : Nat => ((i : Int), savedPartition))
  configs := {}

def savedStarted : Snapshot where
  topics := [("__consumer_offsets", savedInternal), ("__transaction_state", savedInternal)]
  nextProducerId := 1001
  committedOffsets := []
  offsetMetadata := []
  brokerConfigs := fun _ => none

theorem savedInternal_savedAs : internalTopic.SavedAs savedInternal where
  isInternal := rfl
  partitions := by
    constructor
    · decide
    · intro i w member
      obtain ⟨j, inRange, same⟩ := List.mem_map.mp member
      obtain ⟨rfl, rfl⟩ := Prod.mk.inj same
      have within : (0 : Int) ≤ j ∧ (j : Int) < 50 := by
        have below := List.mem_range.mp inRange
        omega
      refine ⟨{}, if_pos within, ?_⟩
      exact ⟨rfl, rfl, lists_nil (fun _ => rfl), rfl, rfl, rfl, lists_nil (fun _ => rfl), rfl⟩
    · intro i p found
      have within : 0 ≤ i ∧ i < 50 := by
        by_contra outside
        have none' : internalTopic.partitions i = none := if_neg outside
        rw [none'] at found
        cases found
      refine ⟨savedPartition, List.mem_map.mpr ⟨i.toNat, List.mem_range.mpr (by omega), ?_⟩⟩
      rw [Int.toNat_of_nonneg within.1]
  configs := rfl

noncomputable def startedTwice : EngineState :=
  new.runEvents PartitionState.hundredBytes [startedAgain, startedAgain]

theorem resolved_new (codec : Codec) (order : HashOrder (Int × Int)) (now : Int)
    (kept : e.topics = new.topics) :
    (e.resolveOpenTransactionsForShutdown codec order now).topics = new.topics := by
  have closed : (fun i => (internalTopic.partitions i).map
      (PartitionState.resolveOpen codec order e.producerEpochs now)) = internalTopic.partitions := by
    funext i
    unfold internalTopic TopicState.new
    simp only
    split
    · rfl
    · rfl
  funext name
  simp only [resolveOpenTransactionsForShutdown, kept, new]
  split
  · rw [Option.map_some, closed]
  · rfl

theorem savedStarted_savedAs :
    (startedTwice.resolveOpenTransactionsForShutdown PartitionState.hundredBytes
      (.inTurn [] List.nodup_nil) 0).SavedAs savedStarted where
  topics := by
    rw [resolved_new _ _ _ (e := startedTwice) rfl]
    constructor
    · simp [savedStarted]
    · intro name w member
      simp only [savedStarted, List.mem_cons, Prod.mk.injEq, List.not_mem_nil, or_false] at member
      refine ⟨internalTopic, if_pos (member.imp And.left And.left), ?_⟩
      rcases member with ⟨_, rfl⟩ | ⟨_, rfl⟩
      · exact savedInternal_savedAs
      · exact savedInternal_savedAs
    · intro name topic found
      by_cases isName : name = "__consumer_offsets" ∨ name = "__transaction_state"
      · exact ⟨savedInternal, by simpa [savedStarted] using isName⟩
      · have none' : new.topics name = none := if_neg isName
        rw [none'] at found
        cases found
  nextProducerId := rfl
  committedOffsets := lists_nil (fun _ => rfl)
  offsetMetadata := lists_nil (fun _ => rfl)
  brokerConfigs := rfl

/-- After a restart the broker no longer knows that the first instance was superseded. -/
theorem runEvents_zombieCommits :
    ¬ ∀ (codec : Codec) (events : List Event), AlongEvents codec (Legal codec) new events →
      FetchesBack (ledgerAfter codec {} new events).facts (new.runEvents codec events) := by
  intro claimed
  have reads := (claimed PartitionState.hundredBytes (startedAgain :: startedAgain ::
    .restart (.inTurn [] List.nodup_nil) 0 savedStarted :: zombieCommits)
    ⟨trivial, trivial, savedStarted_savedAs, trivial, trivial, trivial⟩).older 0
      { groupId := "g", topics := some [("t", [0])] } (by simp)
  have noFacts : (ledgerAfter PartitionState.hundredBytes {} new (startedAgain :: startedAgain ::
    .restart (.inTurn [] List.nodup_nil) 0 savedStarted :: zombieCommits)).facts = [] := rfl
  rw [noFacts] at reads
  cases reads

end EngineState

end NoidaDb.Kafka
