/-
Autosaves and restarts over whole runs.
-/

import NoidaDb.Kafka.Frames
import NoidaDb.Kafka.Isolation

namespace NoidaDb.Kafka

open Lib

namespace PartitionState

variable {p : PartitionState}

theorem openTxns_of_closed (closed : p.activeTxns = []) : OpenTxns p where
  unique := by simp [closed]
  written := fun opened => (opened closed).elim

theorem OpenTxns.of_sublist {p' : PartitionState} (opened : OpenTxns p)
    (sublist : List.Sublist p'.activeTxns p.activeTxns) (segments : p'.segments ≠ []) :
    OpenTxns p' where
  unique := opened.unique.sublist (sublist.map Prod.fst)
  written := fun _ => segments

theorem openTxn_unique (unique : (p.activeTxns.map Prod.fst).Nodup) (producerId : Int) :
    ((p.openTxn producerId).activeTxns.map Prod.fst).Nodup := by
  unfold openTxn
  split
  · exact unique
  · rename_i notOpen
    rw [List.map_append, List.map_singleton]
    apply List.Nodup.append unique (List.nodup_singleton _)
    intro id inOld isNew
    obtain ⟨t, member, isId⟩ := List.mem_map.mp inOld
    have apart := List.lookup_eq_none_iff.mp (Option.not_isSome_iff_eq_none.mp notOpen) t member
    rw [isId, List.mem_singleton.mp isNew] at apart
    simp at apart

theorem noteProducer_unique (unique : (p.activeTxns.map Prod.fst).Nodup) (b : Batch) :
    ((p.noteProducer b).activeTxns.map Prod.fst).Nodup := by
  unfold noteProducer
  split
  · exact unique
  · simp only
    split
    · apply openTxn_unique
      exact unique
    · exact unique

theorem appendSegments_nonempty (segments : p.segments ≠ []) (len : Nat) (now : Int)
    (cfg : Option LogConfig) : p.appendSegments len now cfg ≠ [] := by
  rcases appendSegments_cases p len now cfg with same | ⟨same, _⟩
  · rw [same]
    exact segments
  · simp [same]

theorem openTxns_appendBatch (unique : (p.activeTxns.map Prod.fst).Nodup) (batch : Batch)
    (count now : Int) (cfg : Option LogConfig) :
    OpenTxns (p.appendBatch batch count now cfg).1 := by
  rw [appendBatch_eq]
  constructor
  · simpa using unique
  · intro _
    exact appendSegments_nonempty (ensureSegment_nonempty p now) batch.len now cfg

theorem dropStale_nonempty (newStart : Int) {segments : List Segment} (some' : segments ≠ []) :
    dropStale newStart segments ≠ [] := by
  induction segments with
  | nil => exact some'
  | cons s rest ih =>
    cases rest with
    | nil => exact some'
    | cons next later =>
      unfold dropStale
      split
      · exact ih (List.cons_ne_nil _ _)
      · exact List.cons_ne_nil _ _

theorem keepSegments_nonempty (batches : List (Int × Batch)) {segments : List Segment}
    (some' : segments ≠ []) : keepSegments batches segments ≠ [] := by
  induction segments with
  | nil => exact some'
  | cons s rest ih =>
    cases rest with
    | nil => exact some'
    | cons next later =>
      unfold keepSegments
      simp only
      split
      · exact List.cons_ne_nil _ _
      · exact ih (List.cons_ne_nil _ _)

theorem OpenTxns.ensureSegment (opened : OpenTxns p) (now : Int) :
    OpenTxns (p.ensureSegment now) := by
  apply opened.of_sublist
  · simp
  · exact ensureSegment_nonempty p now

theorem OpenTxns.truncateFront (opened : OpenTxns p) (newStart now : Int) :
    OpenTxns (p.truncateFront newStart now) := by
  unfold PartitionState.truncateFront
  split
  · exact opened
  · apply opened.of_sublist
    · simp
    · simp only
      split
      · exact List.cons_ne_nil _ _
      · exact dropStale_nonempty newStart (ensureSegment_nonempty p now)

theorem OpenTxns.call {p : PartitionState} (opened : OpenTxns p) (codec : Codec) (c : LogCall) :
    OpenTxns (p.call codec c) := by
  cases c with
  | produce label expectedEpoch cfg records now =>
    rcases produce_cases codec label expectedEpoch cfg now records p with
      same | ⟨b, _, _, _, stored⟩
    · simp only [PartitionState.call, same]
      exact opened
    · simp only [PartitionState.call, stored]
      exact openTxns_appendBatch (noteProducer_unique opened.unique b) _ _ now _
  | control producerId producerEpoch committed now =>
    exact openTxns_appendBatch opened.unique _ 1 now none
  | endTxn producerId producerEpoch committed now =>
    rcases endTxn_cases codec producerId producerEpoch committed now p with same | ⟨first, _, ended⟩
    · simp only [PartitionState.call, same]
      exact opened
    · simp only [PartitionState.call, ended]
      apply openTxns_appendBatch
      exact opened.unique.sublist (List.filter_sublist.map Prod.fst)
  | truncateFront newStart now => exact opened.truncateFront newStart now
  | applyRetention cfg now =>
    simp only [PartitionState.call, PartitionState.applyRetention]
    split
    · exact opened
    · split
      · split
        · exact (opened.ensureSegment now).truncateFront _ now
        · exact opened.ensureSegment now
      · exact opened.ensureSegment now
  | compact cfg now =>
    simp only [PartitionState.call, PartitionState.compact]
    split
    · exact opened
    · split
      · apply opened.of_sublist
        · simp [PartitionState.clean]
        · exact keepSegments_nonempty _ (ensureSegment_nonempty p now)
      · exact opened.ensureSegment now

end PartitionState

namespace EngineState

section Each

variable {good : PartitionState → Prop} {codec : Codec}

variable {e : EngineState}

variable (kept : ∀ p c, good p → good (PartitionState.call codec p c))

include kept

theorem EachPartition.call {e : EngineState} (each : EachPartition good e) {at' : String × Int}
    {p : PartitionState} (found : e.partition at' = some p) (c : PartitionState.LogCall) :
    EachPartition good (e.setPartition at' (p.call codec c)) :=
  each.setPartition found (kept p c (each at' p found))

theorem EachPartition.produce (each : EachPartition good e) (now : Int)
    (data : List ((String × Int) × Option Payload)) :
    EachPartition good (handleProduce codec now data e).1 := by
  induction data generalizing e with
  | nil => exact each
  | cons d rest ih =>
    unfold handleProduce
    apply ih
    rcases producePartition_cases codec now e d with ⟨_, same⟩ | ⟨p, cfg, found, _, result⟩
    · rw [same]
      exact each
    · rw [result]
      exact each.call kept found (.produce (partitionLabel d.1) e.producerEpochs cfg d.2 now)

theorem EachPartition.deleteAll (each : EachPartition good e) (now : Int)
    (data : List ((String × Int) × Int)) :
    EachPartition good (handleDeleteRecords now data e).1 := by
  induction data generalizing e with
  | nil => exact each
  | cons d rest ih =>
    unfold handleDeleteRecords
    apply ih
    rcases deleteRecords_cases now e d with same | ⟨p, newStart, found, _, result⟩
    · rw [same]
      exact each
    · rw [result]
      exact each.call kept found (.truncateFront newStart now)

theorem EachPartition.runLogCleaner (each : EachPartition good e) (now : Int) :
    EachPartition good (e.runLogCleaner codec now) := by
  intro at' p' found'
  rcases partition_runLogCleaner codec now e at' with same | ⟨cfg, cleaned⟩
  · rw [same] at found'
    exact each at' p' found'
  · rw [cleaned] at found'
    obtain ⟨p, found, rfl⟩ := Option.map_eq_some_iff.mp found'
    have compacted := kept p (.compact cfg now) (each at' p found)
    exact kept _ (.applyRetention cfg now) compacted

theorem EachPartition.handle (each : EachPartition good e) (request : Request) :
    EachPartition good (e.handle codec request) :=
  each.handle_of (fun p _ _ _ _ => kept p _) (fun data now _ => each.produce kept now data)
    (fun data now _ => each.deleteAll kept now data) (fun now _ => each.runLogCleaner kept now)

end Each

def withPartitions (e : EngineState) (partitions : String × Int → Option PartitionState) :
    EngineState :=
  { e with topics := fun name => (e.topics name).map (fun topic =>
      { topic with partitions := fun i => partitions (name, i) }) }

theorem withPartitions_self (e : EngineState) : e.withPartitions e.partition = e := by
  have same : (fun name => (e.topics name).map (fun topic : TopicState =>
      { topic with partitions := fun i => e.partition (name, i) })) = e.topics := by
    funext name
    cases isTopic : e.topics name with
    | none => rfl
    | some topic => simp [partition, isTopic]
  unfold withPartitions
  rw [same]

theorem resolveOpenTransactions_eq (codec : Codec) (order : HashOrder (Int × Int)) (now : Int)
    (e : EngineState) :
    e.resolveOpenTransactionsForShutdown codec order now = e.withPartitions (fun at' =>
      (e.partition at').map (PartitionState.resolveOpen codec order e.producerEpochs now)) := by
  have same : (fun name => (e.topics name).map (fun topic : TopicState =>
        { topic with partitions := fun i =>
          (topic.partitions i).map (PartitionState.resolveOpen codec order e.producerEpochs now) })) =
      fun name => (e.topics name).map (fun topic : TopicState =>
        { topic with partitions := fun i =>
          (e.partition (name, i)).map (PartitionState.resolveOpen codec order e.producerEpochs now) }) := by
    funext name
    cases isTopic : e.topics name with
    | none => rfl
    | some topic => simp [partition, isTopic]
  unfold resolveOpenTransactionsForShutdown withPartitions
  rw [same]

theorem setPartition_withPartitions (e : EngineState)
    (partitions : String × Int → Option PartitionState) (at' : String × Int) (p : PartitionState) :
    (e.withPartitions partitions).setPartition at' p =
      e.withPartitions (Function.update partitions at' (some p)) := by
  have same : Function.update (e.withPartitions partitions).topics at'.1
        (((e.withPartitions partitions).topics at'.1).map (fun t : TopicState =>
          { t with partitions := Function.update t.partitions at'.2 (some p) })) =
      (e.withPartitions (Function.update partitions at' (some p))).topics := by
    funext name
    by_cases sameTopic : name = at'.1
    · subst sameTopic
      rw [Function.update_self]
      cases isTopic : e.topics at'.1 with
      | none => simp [withPartitions, isTopic]
      | some topic =>
        simp only [withPartitions, isTopic, Option.map_some]
        congr 2
        funext i
        by_cases sameIndex : i = at'.2
        · subst sameIndex
          simp
        · have different : (at'.1, i) ≠ at' := fun same => sameIndex (by rw [← same])
          rw [Function.update_of_ne sameIndex, Function.update_of_ne different]
    · rw [Function.update_of_ne sameTopic]
      simp only [withPartitions]
      congr 1
      funext topic
      congr 1
      funext i
      have different : (name, i) ≠ at' := fun same => sameTopic (by rw [← same])
      rw [Function.update_of_ne different]
  unfold setPartition
  rw [same]
  rfl

theorem foldl_setPartition (aside : List ((String × Int) × PartitionState)) (e : EngineState)
    (partitions : String × Int → Option PartitionState) :
    aside.foldl (fun e x => e.setPartition x.1 x.2) (e.withPartitions partitions) =
      e.withPartitions (fun at' => ((FiniteMap.collect aside).get at').or (partitions at')) := by
  induction aside generalizing partitions with
  | nil => rfl
  | cons x rest ih =>
    rw [List.foldl_cons, setPartition_withPartitions, ih]
    congr 1
    funext at'
    simp only [FiniteMap.get_collect, List.reverse_cons, List.find?_append]
    cases rest.reverse.find? (fun y => decide (y.1 = at')) with
    | some later => simp
    | none =>
      by_cases same : x.1 = at'
      · subst same
        simp
      · simp [same, Function.update_of_ne (Ne.symm same)]

variable {e : EngineState}

theorem snapshot_eq (codec : Codec) (order : HashOrder (Int × Int)) (now : Int)
    {aside : List ((String × Int) × PartitionState)} (complete : Lists Eq aside e.openPartitions) :
    e.snapshot codec order now aside = e := by
  have putBack : (fun at' => ((FiniteMap.collect aside).get at').or
      ((e.partition at').map (PartitionState.resolveOpen codec order e.producerEpochs now))) =
      e.partition := by
    funext at'
    rw [complete.collect_get, openPartitions]
    cases e.partition at' with
    | none => rfl
    | some p =>
      by_cases closed : p.activeTxns = []
      · simp [PartitionState.resolveOpen, Option.filter, closed]
      · simp [Option.filter, closed]
  unfold snapshot
  rw [resolveOpenTransactions_eq, foldl_setPartition, putBack, withPartitions_self]

/-- What is there after the restart, of a state that was saved at `now`. -/
structure RestartsAs (codec : Codec) (now : Int) (e e' : EngineState) : Prop where
  topics : ∀ name topic, e.topics name = some topic → ∃ topic', e'.topics name = some topic' ∧
    topic'.isInternal = topic.isInternal ∧ topic'.configs = topic.configs ∧
      ∀ i, (topic.partitions i = none → topic'.partitions i = none) ∧
        ∀ p, topic.partitions i = some p → ∃ txns, txns.Perm p.activeTxns ∧
          topic'.partitions i = some (p.withAborted codec e.producerEpochs now txns)
  others : ∀ name, e.topics name = none →
    e'.topics name = if name = "__consumer_offsets" then some internalTopic else none
  nextProducerId : e'.nextProducerId = e.nextProducerId
  committedOffsets : e'.committedOffsets = e.committedOffsets
  offsetMetadata : e'.offsetMetadata = e.offsetMetadata
  brokerConfigs : e'.brokerConfigs = e.brokerConfigs

theorem topics_fromSnapshot (s : Snapshot) (name : String) :
    (fromSnapshot s).topics name =
      ((FiniteMap.collect (s.topics.map (fun x => (x.1, x.2.restore)))).get name).or
        (if name = "__consumer_offsets" then some internalTopic else none) := by
  unfold fromSnapshot
  simp only
  by_cases present : (FiniteMap.collect (s.topics.map (fun x => (x.1, x.2.restore)))).contains
      "__consumer_offsets" = true
  · rw [if_pos present]
    by_cases same : name = "__consumer_offsets"
    · subst same
      obtain ⟨topic, isTopic⟩ := Option.isSome_iff_exists.mp present
      rw [isTopic]
      rfl
    · simp [same]
  · rw [if_neg present]
    by_cases same : name = "__consumer_offsets"
    · subst same
      have absent : (FiniteMap.collect (s.topics.map (fun x => (x.1, x.2.restore)))).get
          "__consumer_offsets" = none := by
        simpa [FiniteMap.contains] using present
      simp [absent]
    · simp [same]

def mapPartitions (change : PartitionState → PartitionState) (topic : TopicState) : TopicState :=
  { topic with partitions := fun i => (topic.partitions i).map change }

def withoutTxns (p : PartitionState) : PartitionState := { p with activeTxns := [] }

theorem restore_topic {topic : TopicState} {s : TopicSnapshot} (saved : topic.SavedAs s) :
    s.restore = mapPartitions withoutTxns topic := by
  have partitions : (FiniteMap.collect (s.partitions.map (fun x => (x.1, x.2.restore)))).get =
      fun i => (topic.partitions i).map withoutTxns := by
    funext i
    exact saved.partitions.get_collect PartitionSnapshot.restore withoutTxns
      (fun p ps isSaved => isSaved.restore) i
  unfold TopicSnapshot.restore mapPartitions
  rw [partitions, saved.isInternal, saved.configs]

theorem restartsAs_fromSnapshot {codec : Codec} {order : HashOrder (Int × Int)} {now : Int}
    (each : EachPartition PartitionState.OpenTxns e) {s : Snapshot}
    (saved : (e.resolveOpenTransactionsForShutdown codec order now).SavedAs s) :
    RestartsAs codec now e (fromSnapshot s) := by
  let resolve := PartitionState.resolveOpen codec order e.producerEpochs now
  have collected : ∀ name, (FiniteMap.collect (s.topics.map (fun x => (x.1, x.2.restore)))).get name =
      (e.topics name).map (fun topic => mapPartitions withoutTxns (mapPartitions resolve topic)) := by
    intro name
    have read := saved.topics.get_collect TopicSnapshot.restore (mapPartitions withoutTxns)
      (fun topic t isSaved => restore_topic isSaved) name
    rw [read]
    exact Option.map_map _ _ _
  constructor
  · intro name topic isTopic
    refine ⟨mapPartitions withoutTxns (mapPartitions resolve topic), ?_, rfl, rfl, ?_⟩
    · rw [topics_fromSnapshot, collected, isTopic]
      rfl
    · intro i
      constructor
      · intro nothing
        simp [mapPartitions, nothing]
      · intro p isPartition
        have opened := each (name, i) p (by simp [partition, isTopic, isPartition])
        obtain ⟨txns, perm, resolved⟩ := opened.resolveOpen codec order e.producerEpochs now
        refine ⟨txns, perm, ?_⟩
        simp [mapPartitions, isPartition, resolve, resolved, withoutTxns,
          PartitionState.withAborted]
  · intro name nothing
    rw [topics_fromSnapshot, collected, nothing]
    rfl
  · exact saved.nextProducerId
  · apply FiniteMap.ext
    intro key
    exact congrFun saved.committedOffsets.collect_get key
  · apply FiniteMap.ext
    intro key
    exact congrFun saved.offsetMetadata.collect_get key
  · exact saved.brokerConfigs

theorem openTxns_fromSnapshot (s : Snapshot) :
    EachPartition PartitionState.OpenTxns (fromSnapshot s) := by
  intro at' p found
  obtain ⟨topic, isTopic, isPartition⟩ := Option.bind_eq_some_iff.mp found
  rw [topics_fromSnapshot] at isTopic
  apply PartitionState.openTxns_of_closed
  rcases Option.or_eq_some_iff.mp isTopic with saved | ⟨_, created⟩
  · obtain ⟨x, _, isX⟩ := List.mem_map.mp (FiniteMap.mem_of_get_collect saved)
    rw [← (Prod.mk.inj isX).2] at isPartition
    obtain ⟨y, _, isY⟩ := List.mem_map.mp (FiniteMap.mem_of_get_collect isPartition)
    rw [← (Prod.mk.inj isY).2]
    rfl
  · split at created
    · obtain rfl := Option.some.inj created
      simp only [internalTopic, TopicState.new] at isPartition
      split at isPartition
      · rw [← Option.some.inj isPartition]
      · cases isPartition
    · cases created

theorem topics_handleDeleteGroups (groupIds : List String) (e : EngineState) :
    (handleDeleteGroups groupIds e).1.topics = e.topics := by
  induction groupIds generalizing e with
  | nil => rfl
  | cons groupId rest ih =>
    have here : (e.deleteGroup groupId).1.topics = e.topics := by
      unfold deleteGroup
      split
      · rfl
      · split
        · rfl
        · rfl
    exact (ih _).trans here

theorem OffsetsOnly.topics {e' : EngineState} (only : OffsetsOnly e e') : e'.topics = e.topics := by
  obtain ⟨offsets, metadata, same⟩ := only
  rw [same]

theorem EachPartition.of_new {good : PartitionState → Prop} {e' : EngineState}
    (each : EachPartition good e) (isGood : good {})
    (old : ∀ at' p, e'.partition at' = some p → p = {} ∨ e.partition at' = some p) :
    EachPartition good e' := by
  intro at' p found
  rcases old at' p found with new' | before
  · rw [new']
    exact isGood
  · exact each at' p before

theorem partition_createTopic (name : String) (count : Int) (configs : LogConfig) (e : EngineState)
    (at' : String × Int) (p : PartitionState)
    (found : (e.createTopic name count configs).partition at' = some p) :
    p = {} ∨ e.partition at' = some p := by
  unfold createTopic partition at found
  by_cases same : at'.1 = name
  · simp only [same, Function.update_self] at found
    cases isTopic : e.topics name with
    | some topic =>
      right
      simpa [partition, same, isTopic] using found
    | none =>
      left
      simp only [isTopic, Option.none_or, Option.bind_some, TopicState.new] at found
      split at found
      · exact (Option.some.inj found).symm
      · cases found
  · right
    simpa [Function.update_of_ne same, partition] using found

theorem partition_createPartition (created : String × Int) (e : EngineState) (at' : String × Int)
    (p : PartitionState) (found : (e.createPartition created).partition at' = some p) :
    p = {} ∨ e.partition at' = some p := by
  unfold createPartition partition at found
  by_cases sameTopic : at'.1 = created.1
  · simp only [sameTopic, Function.update_self] at found
    cases isTopic : e.topics created.1 with
    | none => simp [isTopic] at found
    | some topic =>
      simp only [isTopic, Option.map_some, Option.bind_some] at found
      by_cases sameIndex : at'.2 = created.2
      · rw [sameIndex, Function.update_self] at found
        cases isPartition : topic.partitions created.2 with
        | some q =>
          right
          simpa [partition, sameTopic, sameIndex, isTopic, isPartition] using found
        | none =>
          left
          rw [isPartition] at found
          exact (Option.some.inj found).symm
      · right
        rw [Function.update_of_ne sameIndex] at found
        simpa [partition, sameTopic, isTopic] using found
  · right
    simpa [Function.update_of_ne sameTopic, partition] using found

theorem partition_alterConfigs (name : String) (configs : LogConfig) (e : EngineState)
    (at' : String × Int) : (e.alterConfigs name configs).partition at' = e.partition at' := by
  unfold alterConfigs partition
  by_cases same : at'.1 = name
  · simp only [same, Function.update_self]
    cases e.topics name with
    | none => rfl
    | some topic => rfl
  · simp [Function.update_of_ne same]

theorem openTxns_next (codec : Codec) (each : EachPartition PartitionState.OpenTxns e)
    {event : Event} (legal : Legal codec e event) :
    EachPartition PartitionState.OpenTxns (e.next codec event) := by
  have empty : PartitionState.OpenTxns {} := PartitionState.openTxns_of_closed rfl
  cases event with
  | request r => exact each.handle (fun p c opened => opened.call codec c) r
  | offsetCommit order req =>
    apply each.of_topics
    exact (offsetsOnly_commitPartitions _ req.groupId req.partitions e).topics
  | offsetDelete groupId partitions =>
    exact each.of_topics (offsetsOnly_handleOffsetDelete groupId partitions e).topics
  | deleteGroups groupIds => exact each.of_topics (topics_handleDeleteGroups groupIds e)
  | createTopic name count configs =>
    exact each.of_new empty (partition_createTopic name count configs e)
  | createPartition created => exact each.of_new empty (partition_createPartition created e)
  | alterConfigs name configs =>
    intro at' p found
    apply each at' p
    rw [← partition_alterConfigs name configs e at']
    exact found
  | deleteTopics names =>
    intro at' p found
    apply each at' p
    simp only [EngineState.next, handleDeleteTopics, partition] at found ⊢
    split at found
    · simp at found
    · exact found
  | snapshot order now aside =>
    have same : e.next codec (.snapshot order now aside) = e := snapshot_eq codec order now legal
    rw [same]
    exact each
  | restart order now s => exact openTxns_fromSnapshot s
  | _ => exact each.of_topics rfl

theorem openTxns_new : EachPartition PartitionState.OpenTxns new := by
  intro at' p found
  obtain ⟨topic, isTopic, isPartition⟩ := Option.bind_eq_some_iff.mp found
  apply PartitionState.openTxns_of_closed
  simp only [new] at isTopic
  split at isTopic
  · obtain rfl := Option.some.inj isTopic
    simp only [internalTopic, TopicState.new] at isPartition
    split at isPartition
    · rw [← Option.some.inj isPartition]
    · cases isPartition
  · cases isTopic

/-- After any run an autosave is invisible, and a restart from what it saved gives back the
state, with the open transactions aborted. -/
theorem runEvents_snapshot (codec : Codec) (events : List Event)
    (legal : AlongEvents codec (Legal codec) new events) :
    (∀ order now aside, Lists Eq aside (new.runEvents codec events).openPartitions →
        (new.runEvents codec events).snapshot codec order now aside = new.runEvents codec events) ∧
      ∀ order now s,
        ((new.runEvents codec events).resolveOpenTransactionsForShutdown codec order now).SavedAs s →
          RestartsAs codec now (new.runEvents codec events) (fromSnapshot s) := by
  have each : EachPartition PartitionState.OpenTxns (new.runEvents codec events) :=
    @runEvents_keeps codec (Legal codec) (EachPartition PartitionState.OpenTxns)
      (fun e event opened isLegal => openTxns_next codec opened isLegal) events new openTxns_new legal
  constructor
  · intro order now aside complete
    exact snapshot_eq codec order now complete
  · intro order now s saved
    exact restartsAs_fromSnapshot each saved

noncomputable def midTransaction : List Event :=
  [.createTopic "t" 1 {},
    .request (.initProducerId zeroFirst { transactionalId := some "tx" } 0),
    .request (.addPartitionsToTxn "tx" 1000 0 [("t", 0)] 0),
    .request (.produce [(("t", 0), some (.batch (transactionalBatch 0)))] 0)]

theorem runEvents_snapshot_midTransaction :
    (∀ order now aside,
        Lists Eq aside (new.runEvents PartitionState.hundredBytes midTransaction).openPartitions →
          (new.runEvents PartitionState.hundredBytes midTransaction).snapshot
            PartitionState.hundredBytes order now aside =
              new.runEvents PartitionState.hundredBytes midTransaction) ∧
      ∀ order now s,
        ((new.runEvents PartitionState.hundredBytes
          midTransaction).resolveOpenTransactionsForShutdown PartitionState.hundredBytes order
            now).SavedAs s →
          RestartsAs PartitionState.hundredBytes now
            (new.runEvents PartitionState.hundredBytes midTransaction) (fromSnapshot s) :=
  runEvents_snapshot PartitionState.hundredBytes midTransaction
    ⟨trivial, trivial, trivial, trivial, trivial⟩

def internalDeleted : Event := .deleteTopics ["__consumer_offsets", "__transaction_state"]

def nothingSaved : Snapshot where
  topics := []
  nextProducerId := 1000
  committedOffsets := []
  offsetMetadata := []
  brokerConfigs := fun _ => none

theorem lists_nil {K V W : Type} {related : V → W → Prop} {m : K → Option V}
    (empty : ∀ k, m k = none) : Lists related [] m where
  distinct := List.nodup_nil
  stands := by simp
  covers := by simp [empty]

theorem internalDeleted_topics (codec : Codec) (name : String) :
    (new.runEvents codec [internalDeleted]).topics name = none := by
  simp only [runEvents, List.foldl_cons, List.foldl_nil, EngineState.next, internalDeleted,
    handleDeleteTopics]
  split
  · rfl
  · rename_i other
    simp at other
    simp [new, other]

theorem nothingSaved_savedAs (codec : Codec) (order : HashOrder (Int × Int)) (now : Int) :
    ((new.runEvents codec [internalDeleted]).resolveOpenTransactionsForShutdown codec order
      now).SavedAs nothingSaved where
  topics := lists_nil (fun name => by
    simp [resolveOpenTransactionsForShutdown, internalDeleted_topics])
  nextProducerId := rfl
  committedOffsets := lists_nil (fun _ => rfl)
  offsetMetadata := lists_nil (fun _ => rfl)
  brokerConfigs := rfl

theorem fromSnapshot_topicBack :
    ¬ ∀ (codec : Codec) (events : List Event), AlongEvents codec (Legal codec) new events →
      ∀ order now s,
        ((new.runEvents codec events).resolveOpenTransactionsForShutdown codec order now).SavedAs s →
          ∀ name, (new.runEvents codec events).topics name = none →
            (fromSnapshot s).topics name = none := by
  intro claimed
  have gone := claimed PartitionState.hundredBytes [internalDeleted] ⟨trivial, trivial⟩
    (HashOrder.inTurn [] List.nodup_nil) 0 nothingSaved (nothingSaved_savedAs _ _ _)
    "__consumer_offsets" (internalDeleted_topics _ _)
  rw [topics_fromSnapshot] at gone
  simp [nothingSaved, FiniteMap.get_collect] at gone

end EngineState

end NoidaDb.Kafka
