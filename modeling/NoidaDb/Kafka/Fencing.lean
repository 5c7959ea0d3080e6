/-
Zombie fencing.

Each InitProducerId of a transactional id hands out the next epoch, a 16-bit number that
wraps around.  A request with an older epoch is fenced as long as it has not.
-/

import NoidaDb.Kafka.Frames

namespace NoidaDb.Kafka

open Lib

namespace EngineState

structure SameProducers (e e' : EngineState) : Prop where
  epochs : e'.producerEpochs = e.producerEpochs
  producers : e'.txnProducers = e.txnProducers
  nextId : e'.nextProducerId = e.nextProducerId

theorem SameProducers.refl (e : EngineState) : SameProducers e e := ⟨rfl, rfl, rfl⟩

variable {e e' : EngineState} {tid : String}

theorem SameProducers.trans {e'' : EngineState} (first : SameProducers e e')
    (second : SameProducers e' e'') : SameProducers e e'' :=
  ⟨second.epochs.trans first.epochs, second.producers.trans first.producers,
    second.nextId.trans first.nextId⟩

theorem LogsOnly.sameProducers (only : LogsOnly e e') : SameProducers e e' := by
  obtain ⟨topics, same⟩ := only
  subst same
  exact ⟨rfl, rfl, rfl⟩

theorem OffsetsOnly.sameProducers (only : OffsetsOnly e e') : SameProducers e e' := by
  obtain ⟨offsets, metadata, same⟩ := only
  subst same
  exact ⟨rfl, rfl, rfl⟩

theorem SameProducers.foldl {α : Type} {step : EngineState → α → EngineState}
    (same : ∀ e a, SameProducers e (step e a)) (items : List α) (e : EngineState) :
    SameProducers e (items.foldl step e) := by
  induction items generalizing e with
  | nil => exact SameProducers.refl e
  | cons a rest ih => exact (same e a).trans (ih (step e a))

theorem sameProducers_addPartition (txId : String) (now : Int) (e : EngineState)
    (at' : String × Int) : SameProducers e (addPartition txId now e at') := ⟨rfl, rfl, rfl⟩

theorem sameProducers_pendOffset (txId : String) (e : EngineState) (pending : PendingTxnOffset) :
    SameProducers e (pendOffset txId e pending) := ⟨rfl, rfl, rfl⟩

theorem sameProducers_endOffsets (e : EngineState) (txId : String) (committed : Bool) :
    SameProducers e (e.endOffsets txId committed) := by
  cases committed with
  | false => exact ⟨rfl, rfl, rfl⟩
  | true =>
    have applied := (OffsetsOnly.foldl offsetsOnly_commitOffset
      ((e.txnPendingOffsets txId).getD [])
      { e with
        txnPendingOffsets := Function.update e.txnPendingOffsets txId none }).sameProducers
    exact ⟨applied.epochs, applied.producers, applied.nextId⟩

theorem sameProducers_completeTxn (codec : Codec) (order : HashOrder (String × Int)) (txId : String)
    (producerId producerEpoch : Int) (committed : Bool) (now : Int) (e : EngineState) :
    SameProducers e (e.completeTxn codec order txId producerId producerEpoch committed now).1 := by
  unfold completeTxn
  cases e.txnPartitions txId with
  | none => exact sameProducers_endOffsets e txId committed
  | some partitions =>
    simp only
    obtain ⟨topics, ended⟩ := endPartitions_frame codec producerId producerEpoch committed now
      (order.list partitions)
      { e with txnPartitions := Function.update e.txnPartitions txId none }
    split
    · rw [ended]
      have last := sameProducers_endOffsets
        { e with txnPartitions := Function.update e.txnPartitions txId none, topics := topics }
        txId committed
      exact ⟨last.epochs, last.producers, last.nextId⟩
    · rw [ended]
      exact ⟨rfl, rfl, rfl⟩

theorem sameProducers_handleDeleteGroups (groupIds : List String) (e : EngineState) :
    SameProducers e (handleDeleteGroups groupIds e).1 := by
  induction groupIds generalizing e with
  | nil => exact SameProducers.refl e
  | cons groupId rest ih =>
    have here : SameProducers e (e.deleteGroup groupId).1 := by
      unfold deleteGroup
      split
      · exact SameProducers.refl e
      · split
        · exact ⟨rfl, rfl, rfl⟩
        · exact SameProducers.refl e
    exact here.trans (ih _)

def setsProducers : Event → Bool
  | .request (.initProducerId _ _ _) => true
  | .restart _ _ _ => true
  | _ => false

theorem sameProducers_next (codec : Codec) (e : EngineState) {event : Event}
    (other : setsProducers event = false) : SameProducers e (e.next codec event) := by
  cases event with
  | request r =>
    cases r with
    | initProducerId order req now => cases other
    | addPartitionsToTxn txId producerId producerEpoch partitions now =>
      change SameProducers e
        (e.handleAddPartitionsToTxn txId producerId producerEpoch partitions now).1
      unfold handleAddPartitionsToTxn
      split
      · exact SameProducers.refl e
      · exact SameProducers.foldl (fun e _ => sameProducers_addPartition txId now e _) partitions e
    | addOffsetsToTxn txId producerId producerEpoch now =>
      change SameProducers e (e.handleAddOffsetsToTxn txId producerId producerEpoch now).1
      unfold handleAddOffsetsToTxn
      split
      · exact SameProducers.refl e
      · exact ⟨rfl, rfl, rfl⟩
    | txnOffsetCommit txId producerId producerEpoch offsets =>
      change SameProducers e (e.handleTxnOffsetCommit txId producerId producerEpoch offsets).1
      unfold handleTxnOffsetCommit
      split
      · exact SameProducers.refl e
      · exact SameProducers.foldl (fun e _ => sameProducers_pendOffset txId e _) offsets e
    | produce data now => exact (logsOnly_handleProduce codec now data e).sameProducers
    | endTxn order txId producerId producerEpoch committed now =>
      change SameProducers e
        (e.handleEndTxn codec order txId producerId producerEpoch committed now).1
      unfold handleEndTxn
      split
      · exact SameProducers.refl e
      · exact sameProducers_completeTxn codec order txId producerId producerEpoch committed now e
    | deleteRecords data now => exact (logsOnly_handleDeleteRecords now data e).sameProducers
    | runLogCleaner now => exact ⟨rfl, rfl, rfl⟩
  | offsetCommit order req =>
    exact (offsetsOnly_commitPartitions _ req.groupId req.partitions e).sameProducers
  | offsetDelete groupId partitions =>
    exact (offsetsOnly_handleOffsetDelete groupId partitions e).sameProducers
  | deleteGroups groupIds => exact sameProducers_handleDeleteGroups groupIds e
  | snapshot order now aside => exact (logsOnly_snapshot codec order now aside e).sameProducers
  | restart order now s => cases other
  | _ => exact ⟨rfl, rfl, rfl⟩

/-- The answers to the InitProducerIds of the transactional id since the broker was last
started: the producer id and the epoch. -/
def noteHandedOut (codec : Codec) (tid : String) (handedOut : List (Int × Int)) (e : EngineState) :
    Event → List (Int × Int)
  | .request (.initProducerId order req now) =>
    let answer := (e.handleInitProducerId codec order req now).2
    if req.transactionalId = some tid ∧ answer.1 = 0 then handedOut ++ [answer.2] else handedOut
  | .restart _ _ _ => []
  | _ => handedOut

def handedOutAfter (codec : Codec) (tid : String) :
    List (Int × Int) → EngineState → List Event → List (Int × Int)
  | handedOut, _, [] => handedOut
  | handedOut, e, event :: rest =>
    handedOutAfter codec tid (noteHandedOut codec tid handedOut e event) (e.next codec event) rest

def handedOut (codec : Codec) (tid : String) (events : List Event) : List (Int × Int) :=
  handedOutAfter codec tid [] new events

/-- The first `count` epochs that a producer gets. -/
def epochsOf (producerId : Int) (count : Nat) : List (Int × Int) :=
  (List.range count).map (fun i : Nat => (producerId, wrap16 i))

def nextEpoch (e : EngineState) (tid : Option String) : Int × Int :=
  match tid.bind e.txnProducers with
  | some known => (known.1, wrap16 (known.2 + 1))
  | none => (e.nextProducerId, 0)

structure HandsOut (e e' : EngineState) (tid : Option String) : Prop where
  epochs : e'.producerEpochs =
    Function.update e.producerEpochs (e.nextEpoch tid).1 (some (e.nextEpoch tid).2)
  producers : ∀ t, e'.txnProducers t =
    if tid = some t then some (e.nextEpoch tid) else e.txnProducers t
  nextId : e'.nextProducerId =
    if (tid.bind e.txnProducers).isSome then e.nextProducerId else e.nextProducerId + 1

theorem handleInitProducerId_spec (codec : Codec) (order : HashOrder (String × Int))
    (req : InitProducerIdRequest) (now : Int) (e : EngineState) :
    (e.handleInitProducerId codec order req now).2.1 ≠ 0 ∧
        (e.handleInitProducerId codec order req now).1 = e ∨
      (e.handleInitProducerId codec order req now).2 = (0, e.nextEpoch req.transactionalId) ∧
        HandsOut e (e.handleInitProducerId codec order req now).1 req.transactionalId := by
  unfold handleInitProducerId
  split
  · exact Or.inl ⟨by simp, rfl⟩
  · split
    · exact Or.inl ⟨by simp, rfl⟩
    · apply Or.inr
      have isNext : ((Option.map Prod.fst (req.transactionalId.bind e.txnProducers)).getD
            e.nextProducerId,
          (Option.map (fun k => wrap16 (k.2 + 1)) (req.transactionalId.bind e.txnProducers)).getD 0) =
          e.nextEpoch req.transactionalId := by
        unfold nextEpoch
        cases req.transactionalId.bind e.txnProducers with
        | none => rfl
        | some known => rfl
      have isPid := congrArg Prod.fst isNext
      have isEpoch := congrArg Prod.snd isNext
      simp only at isPid isEpoch
      simp only [isPid, isEpoch, true_and]
      have counted : ∀ known : Option (Int × Int), ∃ e', SameProducers
          { e with nextProducerId := if known.isSome then e.nextProducerId else e.nextProducerId + 1 } e' ∧
          (if known.isSome = true then e else { e with nextProducerId := e.nextProducerId + 1 }) = e' := by
        intro known
        cases known with
        | none => exact ⟨_, SameProducers.refl _, rfl⟩
        | some k => exact ⟨_, SameProducers.refl _, rfl⟩
      obtain ⟨e', same, isCounted⟩ := counted (req.transactionalId.bind e.txnProducers)
      rw [isCounted]
      cases isTid : req.transactionalId with
      | none =>
        rw [isTid] at same
        constructor
        · simp [same.epochs]
        · simp [same.producers]
        · simp [same.nextId]
      | some tid =>
        rw [isTid] at same
        have ended : SameProducers e' (if e'.txnIsOpen tid = true then
            (e'.completeTxn codec order tid (e.nextEpoch (some tid)).1 (e.nextEpoch (some tid)).2
              false now).1 else e') := by
          split
          · exact sameProducers_completeTxn codec order tid _ _ false now e'
          · exact SameProducers.refl e'
        have both := same.trans ended
        constructor
        · simp only [both.epochs]
        · intro t
          simp only [both.producers]
          by_cases isT : tid = t
          · subst isT
            simp
          · rw [Function.update_of_ne (Ne.symm isT), if_neg (by simpa using isT)]
        · exact both.nextId

structure Fences (tid : String) (handedOut : List (Int × Int)) (e : EngineState) : Prop where
  positive : 0 ≤ e.nextProducerId
  known : ∀ t k, e.txnProducers t = some k →
    e.producerEpochs k.1 = some k.2 ∧ 0 ≤ k.1 ∧ k.1 < e.nextProducerId
  distinct : ∀ t t' k k', e.txnProducers t = some k → e.txnProducers t' = some k' → k.1 = k'.1 →
    t = t'
  answered : (handedOut = [] ∧ e.txnProducers tid = none) ∨
    ∃ pid count, handedOut = epochsOf pid (count + 1) ∧
      e.txnProducers tid = some (pid, wrap16 count)

theorem fences_fresh (tid : String) (positive : 0 ≤ e.nextProducerId)
    (unknown : ∀ t, e.txnProducers t = none) : Fences tid [] e where
  positive := positive
  known := by
    intro t k isKnown
    rw [unknown] at isKnown
    cases isKnown
  distinct := by
    intro t t' k k' isKnown
    rw [unknown] at isKnown
    cases isKnown
  answered := Or.inl ⟨rfl, unknown tid⟩

theorem Fences.same {handedOut : List (Int × Int)} (fences : Fences tid handedOut e)
    (same : SameProducers e e') : Fences tid handedOut e' where
  positive := by
    rw [same.nextId]
    exact fences.positive
  known := by
    rw [same.producers, same.epochs, same.nextId]
    exact fences.known
  distinct := by
    rw [same.producers]
    exact fences.distinct
  answered := by
    rw [same.producers]
    exact fences.answered

theorem Fences.nextEpoch_cases {handedOut : List (Int × Int)} (fences : Fences tid handedOut e)
    (txId : Option String) :
    (∃ t k, txId = some t ∧ e.txnProducers t = some k ∧
        e.nextEpoch txId = (k.1, wrap16 (k.2 + 1)) ∧ (txId.bind e.txnProducers).isSome = true) ∨
      (e.nextEpoch txId = (e.nextProducerId, 0) ∧ (txId.bind e.txnProducers).isSome = false ∧
        ∀ t k, e.txnProducers t = some k → k.1 ≠ e.nextProducerId) := by
  cases isKnown : txId.bind e.txnProducers with
  | some k =>
    obtain ⟨t, isT, found⟩ := Option.bind_eq_some_iff.mp isKnown
    exact Or.inl ⟨t, k, isT, found, by simp [nextEpoch, isKnown], rfl⟩
  | none =>
    apply Or.inr
    refine ⟨by simp [nextEpoch, isKnown], rfl, ?_⟩
    intro t k found
    obtain ⟨_, _, below⟩ := fences.known t k found
    omega

theorem wrap16_succ (x : Int) : wrap16 (wrap16 x + 1) = wrap16 (x + 1) := by
  unfold wrap16
  exact Int.bmod_add_bmod

theorem epochsOf_succ (pid : Int) (count : Nat) :
    epochsOf pid (count + 1) = epochsOf pid count ++ [(pid, wrap16 count)] := by
  simp [epochsOf, List.range_succ]

theorem Fences.handsOut {handedOut : List (Int × Int)} (fences : Fences tid handedOut e)
    {txId : Option String} (out : HandsOut e e' txId) :
    Fences tid (if txId = some tid then handedOut ++ [e.nextEpoch txId] else handedOut) e' := by
  have next : 0 ≤ (e.nextEpoch txId).1 ∧ (e.nextEpoch txId).1 < e'.nextProducerId ∧
      e.nextProducerId ≤ e'.nextProducerId := by
    rw [out.nextId]
    have positive := fences.positive
    rcases fences.nextEpoch_cases txId with ⟨t, k, isT, found, isNext, isSome⟩ | ⟨isNext, isNone, _⟩
    · obtain ⟨_, lower, below⟩ := fences.known t k found
      simp [isNext, isSome, lower, below]
    · simp [isNext, isNone, positive]
  -- Another transactional id keeps its producer, and that producer its epoch.
  have others : ∀ t k, txId ≠ some t → e.txnProducers t = some k → k.1 ≠ (e.nextEpoch txId).1 := by
    intro t k other found
    rcases fences.nextEpoch_cases txId with ⟨t', k', isT', found', isNext, _⟩ | ⟨isNext, _, fresh⟩
    · rw [isNext]
      intro samePid
      have sameId := fences.distinct t t' k k' found found' samePid
      rw [sameId] at other
      exact other isT'
    · rw [isNext]
      exact fresh t k found
  have known : ∀ t k, e'.txnProducers t = some k →
      (txId = some t ∧ k = e.nextEpoch txId) ∨ (txId ≠ some t ∧ e.txnProducers t = some k) := by
    intro t k found
    rw [out.producers] at found
    by_cases isT : txId = some t
    · rw [if_pos isT] at found
      exact Or.inl ⟨isT, (Option.some.inj found).symm⟩
    · rw [if_neg isT] at found
      exact Or.inr ⟨isT, found⟩
  constructor
  · exact le_trans fences.positive next.2.2
  · intro t k found
    rcases known t k found with ⟨_, isNext⟩ | ⟨other, before⟩
    · subst isNext
      rw [out.epochs, Function.update_self]
      exact ⟨rfl, next.1, next.2.1⟩
    · obtain ⟨epoch, lower, below⟩ := fences.known t k before
      rw [out.epochs, Function.update_of_ne (others t k other before)]
      exact ⟨epoch, lower, by omega⟩
  · intro t t' k k' found found' samePid
    rcases known t k found with ⟨isT, isNext⟩ | ⟨other, before⟩
    · rcases known t' k' found' with ⟨isT', _⟩ | ⟨other', before'⟩
      · exact Option.some.inj (isT.symm.trans isT')
      · rw [isNext] at samePid
        exact absurd samePid.symm (others t' k' other' before')
    · rcases known t' k' found' with ⟨_, isNext'⟩ | ⟨_, before'⟩
      · rw [isNext'] at samePid
        exact absurd samePid (others t k other before)
      · exact fences.distinct t t' k k' before before' samePid
  · rw [out.producers]
    by_cases isTid : txId = some tid
    · rw [if_pos isTid, if_pos isTid]
      apply Or.inr
      rcases fences.answered with ⟨isEmpty, unknown⟩ | ⟨pid, count, isHanded, found⟩
      · refine ⟨e.nextProducerId, 0, ?_, ?_⟩
        · simp [isEmpty, isTid, nextEpoch, unknown, epochsOf, wrap16]
        · simp [isTid, nextEpoch, unknown, wrap16]
      · have isNext : e.nextEpoch txId = (pid, wrap16 ((count : Int) + 1)) := by
          simp [isTid, nextEpoch, found, wrap16_succ]
        refine ⟨pid, count + 1, ?_, ?_⟩
        · rw [isNext, isHanded, epochsOf_succ pid (count + 1)]
          simp
        · rw [isNext]
          simp
    · rw [if_neg isTid, if_neg isTid]
      exact fences.answered

theorem Fences.next {tid : String} {handedOut : List (Int × Int)} {e : EngineState}
    (fences : Fences tid handedOut e) (codec : Codec) {event : Event} (legal : Legal codec e event) :
    Fences tid (noteHandedOut codec tid handedOut e event) (e.next codec event) := by
  by_cases other : setsProducers event = false
  · have same := fences.same (sameProducers_next codec e other)
    have noted : noteHandedOut codec tid handedOut e event = handedOut := by
      unfold noteHandedOut
      split
      · cases other
      · cases other
      · rfl
    rw [noted]
    exact same
  · unfold setsProducers at other
    split at other
    · rename_i order req now
      rcases handleInitProducerId_spec codec order req now e with ⟨refused, same⟩ | ⟨answer, out⟩
      · simp only [noteHandedOut, EngineState.next, handle, refused, and_false, if_false, same]
        exact fences
      · simp only [noteHandedOut, EngineState.next, handle, answer, and_true]
        exact fences.handsOut out
    · rename_i order now s
      have positive : 0 ≤ (fromSnapshot s).nextProducerId := by
        have saved := legal.nextProducerId
        have isNext : (fromSnapshot s).nextProducerId = e.nextProducerId := saved
        rw [isNext]
        exact fences.positive
      exact fences_fresh tid positive (fun _ => rfl)
    · simp at other

theorem Fences.runEvents {tid : String} (codec : Codec) (events : List Event) {e : EngineState}
    {handedOut : List (Int × Int)} (fences : Fences tid handedOut e)
    (legal : AlongEvents codec (Legal codec) e events) :
    Fences tid (handedOutAfter codec tid handedOut e events) (e.runEvents codec events) := by
  induction events generalizing e handedOut with
  | nil => exact fences
  | cons event rest ih => exact ih (fences.next codec legal.1) legal.2

def checkedBefore (e : EngineState) (at' : String × Int) (b : Batch) : Option Int :=
  match e.topics at'.1 with
  | none => some 3
  | some topic =>
    if (topic.partitions at'.2).isNone then some 3
    else if topic.configs.maxMessageBytes < b.len then some 10
    else if (keyless topic.configs b).isSome then some 87
    else none

/-- Each request with the epoch is answered with 47 and changes nothing. -/
structure Rejected (codec : Codec) (e : EngineState) (producerId producerEpoch : Int) : Prop where
  produce : ∀ (data : List ((String × Int) × Batch)) now,
    (∀ d, d ∈ data → d.2.producerId = producerId ∧ d.2.producerEpoch = producerEpoch) →
      (handleProduce codec now (data.map (fun d => (d.1, some (.batch d.2)))) e).1 = e ∧
        (handleProduce codec now (data.map (fun d => (d.1, some (.batch d.2)))) e).2.map
            PartitionProduceResponse.errorCode =
          data.map (fun d => (e.checkedBefore d.1 d.2).getD 47)
  addPartitions : ∀ txId partitions now,
    e.handleAddPartitionsToTxn txId producerId producerEpoch partitions now =
      (e, partitions.map (fun _ => 47))
  addOffsets : ∀ txId now, e.handleAddOffsetsToTxn txId producerId producerEpoch now = (e, 47)
  commitOffsets : ∀ txId offsets,
    e.handleTxnOffsetCommit txId producerId producerEpoch offsets =
      (e, offsets.map (fun _ => 47))
  endTxn : ∀ order txId committed now,
    e.handleEndTxn codec order txId producerId producerEpoch committed now = (e, 47)

theorem isFenced_iff {producerId epoch : Int} (known : e.producerEpochs producerId = some epoch)
    (producerEpoch : Int) : e.isFenced producerId producerEpoch = true ↔ producerEpoch < epoch := by
  simp [isFenced, known]

theorem setPartition_self {at' : String × Int} {topic : TopicState} {p : PartitionState}
    (isTopic : e.topics at'.1 = some topic) (isPartition : topic.partitions at'.2 = some p) :
    e.setPartition at' p = e := by
  have sameTopics : Function.update e.topics at'.1 ((e.topics at'.1).map (fun t =>
      { t with partitions := Function.update t.partitions at'.2 (some p) })) = e.topics := by
    funext name
    by_cases same : name = at'.1
    · subst same
      rw [Function.update_self, isTopic, Option.map_some, ← isPartition, Function.update_eq_self]
    · rw [Function.update_of_ne same]
  unfold setPartition
  rw [sameTopics]

theorem producePartition_fenced (codec : Codec) (now : Int) (at' : String × Int) {b : Batch}
    (positive : 0 ≤ b.producerId) (fenced : e.isFenced b.producerId b.producerEpoch = true) :
    (producePartition codec now e (at', some (.batch b))).1 = e ∧
      (producePartition codec now e (at', some (.batch b))).2.errorCode =
        (e.checkedBefore at' b).getD 47 := by
  unfold producePartition checkedBefore
  cases isTopic : e.topics at'.1 with
  | none => simp
  | some topic =>
    cases isPartition : topic.partitions at'.2 with
    | none => simp [isPartition]
    | some p =>
      have admission : p.admission (e.producerEpochs b.producerId) b = .fenced := by
        unfold PartitionState.admission
        rw [if_neg (by omega)]
        exact if_pos fenced
      have unchanged := setPartition_self isTopic isPartition
      simp only [isPartition, PartitionState.produce, Option.isNone_some, Bool.false_eq_true,
        if_false]
      split
      · simp [unchanged]
      · cases keyless topic.configs b with
        | some index => simp [unchanged]
        | none => simp [admission, unchanged]

theorem rejected_iff (codec : Codec) {producerId : Int} (positive : 0 ≤ producerId)
    (producerEpoch : Int) :
    Rejected codec e producerId producerEpoch ↔ e.isFenced producerId producerEpoch = true := by
  constructor
  · intro rejected
    by_contra open'
    have answered := congrArg Prod.snd (rejected.addOffsets "" 0)
    simp [handleAddOffsetsToTxn, open'] at answered
  · intro fenced
    constructor
    · intro data now carries
      induction data with
      | nil => exact ⟨rfl, rfl⟩
      | cons d rest ih =>
        obtain ⟨isId, isEpoch⟩ := carries d List.mem_cons_self
        obtain ⟨same, answer⟩ := producePartition_fenced codec now d.1 (b := d.2)
          (by rw [isId]; exact positive) (by rw [isId, isEpoch]; exact fenced)
        obtain ⟨sameRest, answers⟩ := ih (fun d' member => carries d' (List.mem_cons_of_mem d member))
        simp only [List.map_cons, handleProduce, same, answer]
        exact ⟨sameRest, by rw [answers]⟩
    · intro txId partitions now
      simp [handleAddPartitionsToTxn, fenced]
    · intro txId now
      simp [handleAddOffsetsToTxn, fenced]
    · intro txId offsets
      simp [handleTxnOffsetCommit, fenced]
    · intro order txId committed now
      simp [handleEndTxn, fenced]

theorem wrap16_of_small {i : Nat} (small : i < 32768) : wrap16 i = i := by
  unfold wrap16
  rw [Int.bmod_eq_of_le] <;> omega

theorem wrap16_lt_top (i : Int) : wrap16 i < 32768 := by
  have bound := @Int.bmod_lt i (2 ^ 16) (by decide)
  unfold wrap16
  omega

theorem wrap16_lt_iff (count : Nat) :
    (∀ i : Nat, i < count → wrap16 i < wrap16 count) ↔ count < 32768 := by
  constructor
  · intro older
    by_contra large
    -- The largest epoch has been handed out, and no epoch is above it.
    have top := older 32767 (by omega)
    rw [wrap16_of_small (by omega)] at top
    have bounded := wrap16_lt_top count
    omega
  · intro bounded i below
    rw [wrap16_of_small (by omega), wrap16_of_small bounded]
    exact Int.ofNat_lt.mpr below

/-- A zombie stays fenced exactly as long as the epoch has not wrapped around. -/
theorem runEvents_rejected_iff (codec : Codec) (events : List Event)
    (legal : AlongEvents codec (Legal codec) new events) (tid : String)
    {earlier : List (Int × Int)} {pid epoch : Int}
    (answered : handedOut codec tid events = earlier ++ [(pid, epoch)]) :
    (∀ zombie, (pid, zombie) ∈ earlier → Rejected codec (new.runEvents codec events) pid zombie) ↔
      earlier.length < 32768 := by
  have fences := (fences_fresh tid (e := new) (by decide) (fun _ => rfl)).runEvents codec events legal
  have isHanded : handedOutAfter codec tid [] new events = earlier ++ [(pid, epoch)] := answered
  rw [isHanded] at fences
  rcases fences.answered with ⟨isEmpty, _⟩ | ⟨pid', count, isEpochs, found⟩
  · simp at isEmpty
  · rw [epochsOf_succ] at isEpochs
    obtain ⟨isEarlier, isLast⟩ := List.append_inj' isEpochs rfl
    obtain ⟨samePid, sameEpoch⟩ := Prod.mk.inj (List.singleton_inj.mp isLast)
    subst samePid
    obtain ⟨isEpoch, positive, _⟩ := fences.known tid (pid, wrap16 count) found
    simp only at isEpoch positive
    have fenced : ∀ zombie, Rejected codec (new.runEvents codec events) pid zombie ↔
        zombie < wrap16 count := by
      intro zombie
      rw [rejected_iff codec positive]
      exact isFenced_iff isEpoch zombie
    have length : earlier.length = count := by simp [isEarlier, epochsOf]
    rw [length]
    apply Iff.trans _ (wrap16_lt_iff count)
    constructor
    · intro rejected i below
      apply (fenced (wrap16 i)).mp
      apply rejected
      rw [isEarlier]
      exact List.mem_map.mpr ⟨i, List.mem_range.mpr below, rfl⟩
    · intro older zombie member
      rw [isEarlier] at member
      obtain ⟨i, inRange, same⟩ := List.mem_map.mp member
      rw [← (Prod.mk.inj same).2]
      exact (fenced (wrap16 i)).mpr (older i (List.mem_range.mp inRange))

noncomputable def startedAgain : Event :=
  .request (.initProducerId zeroFirst { transactionalId := some "tx" } 0)

theorem length_handedOutAfter_again (codec : Codec) (times : Nat) (handedOut : List (Int × Int))
    (e : EngineState) :
    (handedOutAfter codec "tx" handedOut e (List.replicate times startedAgain)).length =
      handedOut.length + times := by
  induction times generalizing handedOut e with
  | zero => rfl
  | succ times ih =>
    have accepted : (e.handleInitProducerId codec zeroFirst { transactionalId := some "tx" } 0).2.1 =
        0 := by
      simp [handleInitProducerId]
    have noted : (noteHandedOut codec "tx" handedOut e startedAgain).length =
        handedOut.length + 1 := by
      simp [noteHandedOut, startedAgain, accepted]
    rw [List.replicate_succ, handedOutAfter, ih, noted]
    omega

theorem legal_again (codec : Codec) (times : Nat) (e : EngineState) :
    AlongEvents codec (Legal codec) e (List.replicate times startedAgain) := by
  induction times generalizing e with
  | zero => exact trivial
  | succ times ih => exact ⟨trivial, ih _⟩

/-- At the 32769th start the epoch is negative, and the first producer is let through. -/
theorem runEvents_zombieLetThrough :
    ¬ ∀ (codec : Codec) (events : List Event) (tid : String) (earlier : List (Int × Int))
        (pid epoch zombie : Int),
      AlongEvents codec (Legal codec) new events →
        handedOut codec tid events = earlier ++ [(pid, epoch)] → (pid, zombie) ∈ earlier →
          Rejected codec (new.runEvents codec events) pid zombie := by
  intro claimed
  have legal := legal_again PartitionState.hundredBytes 32769 new
  have fences := (fences_fresh "tx" (e := new) (by decide) (fun _ => rfl)).runEvents
    PartitionState.hundredBytes _ legal
  have length := length_handedOutAfter_again PartitionState.hundredBytes 32769 [] new
  rcases fences.answered with ⟨isEmpty, _⟩ | ⟨pid, count, isEpochs, found⟩
  · rw [isEmpty] at length
    simp at length
  · have isCount : count = 32768 := by
      rw [isEpochs] at length
      simp [epochsOf] at length
      exact length
    subst isCount
    obtain ⟨isEpoch, positive, _⟩ := fences.known "tx" _ found
    simp only at isEpoch positive
    have rejected := claimed PartitionState.hundredBytes _ "tx" (epochsOf pid 32768) pid
      (wrap16 (32768 : Nat)) 0 legal (isEpochs.trans (epochsOf_succ pid 32768))
      (List.mem_map.mpr ⟨0, by simp, by simp [wrap16]⟩)
    rw [rejected_iff _ positive, isFenced_iff isEpoch] at rejected
    simp [wrap16] at rejected

theorem runEvents_rejected_iff_once :
    (∀ zombie, ((1000 : Int), zombie) ∈ [((1000 : Int), (0 : Int))] →
        Rejected PartitionState.hundredBytes
          (new.runEvents PartitionState.hundredBytes [startedAgain, startedAgain]) 1000 zombie) ↔
      [((1000 : Int), (0 : Int))].length < 32768 :=
  runEvents_rejected_iff PartitionState.hundredBytes [startedAgain, startedAgain]
    (legal_again PartitionState.hundredBytes 2 new) "tx"
    (rfl : handedOut PartitionState.hundredBytes "tx" [startedAgain, startedAgain] =
      [(1000, 0)] ++ [(1000, 1)])

end EngineState

end NoidaDb.Kafka
