/-
The end of a transaction.

It is refused half way when a commit meets a partition where nothing was written and an earlier
transaction of the producer was aborted, and it forgets a partition that was written to without
being added.
-/

import NoidaDb.Kafka.LogRuns
import NoidaDb.Kafka.Requests

namespace NoidaDb.Kafka

open Lib

namespace PartitionState

def isOpen (p : PartitionState) (producerId : Int) : Bool :=
  (p.activeTxns.lookup producerId).isSome

def hasAborted (p : PartitionState) (producerId : Int) : Bool :=
  p.abortedTxns.any (fun t => t.1 == producerId)

def Marked (p p' : PartitionState) (producerId : Int) (committed : Bool) : Prop :=
  ∃ b, p'.recordBatches = p.recordBatches ++ [(p.highWatermark, b)] ∧ b.control = true ∧
    b.producerId = producerId ∧ b.marker = some committed

theorem lookup_filter_ne (txns : List (Int × Int)) (producerId : Int) :
    (txns.filter (fun t => t.1 != producerId)).lookup producerId = none := by
  apply List.lookup_eq_none_iff.mpr
  intro t member
  have different : (t.1 != producerId) = true := (List.mem_filter.mp member).2
  rw [bne_iff_ne] at different
  exact bne_iff_ne.mpr different.symm

section Ends

variable (codec : Codec) (producerId producerEpoch : Int) (committed : Bool) (now : Int)

theorem encodeControlBatch_marker (base : Int) :
    (encodeControlBatch codec producerId producerEpoch base committed now).marker =
      some committed := by
  cases committed <;>
    simp [encodeControlBatch, Batch.marker, Codec.encode, controlRecord, markerKey]

theorem endTxn_eq_none_iff (p : PartitionState) :
    p.endTxn codec producerId producerEpoch committed now = none ↔
      committed = true ∧ p.isOpen producerId = false ∧ p.hasAborted producerId = true := by
  unfold endTxn isOpen hasAborted
  cases p.activeTxns.lookup producerId with
  | some first => simp
  | none => simp

theorem isOpen_endTxn {p p' : PartitionState}
    (ended : p.endTxn codec producerId producerEpoch committed now = some p') :
    p'.isOpen producerId = false := by
  unfold endTxn at ended
  cases found : p.activeTxns.lookup producerId with
  | some first =>
    simp only [found, Option.some.injEq] at ended
    rw [← ended, appendBatch_eq]
    simp [isOpen, lookup_filter_ne]
  | none =>
    simp only [found] at ended
    split at ended
    · cases ended
    · rw [← Option.some.inj ended]
      simp [isOpen, found]

theorem marked_endTxn {p p' : PartitionState}
    (ended : p.endTxn codec producerId producerEpoch committed now = some p')
    (wasOpen : p.isOpen producerId = true) : p.Marked p' producerId committed := by
  unfold endTxn at ended
  obtain ⟨first, found⟩ := Option.isSome_iff_exists.mp wasOpen
  simp only [found, Option.some.injEq] at ended
  refine ⟨encodeControlBatch codec producerId producerEpoch p.highWatermark committed now, ?_, rfl,
    rfl, encodeControlBatch_marker codec producerId producerEpoch committed now _⟩
  rw [← ended, appendBatch_eq]

end Ends

end PartitionState

namespace EngineState

theorem partition_setPartition {e : EngineState} {at' : String × Int} {old : PartitionState}
    (found : e.partition at' = some old) (p : PartitionState) (other : String × Int) :
    (e.setPartition at' p).partition other = if other = at' then some p else e.partition other := by
  obtain ⟨topic, isTopic, _⟩ := Option.bind_eq_some_iff.mp found
  unfold setPartition partition
  by_cases sameTopic : other.1 = at'.1
  · simp only [sameTopic, Function.update_self, isTopic, Option.map_some, Option.bind_some]
    by_cases sameIndex : other.2 = at'.2
    · have same : other = at' := Prod.ext sameTopic sameIndex
      rw [sameIndex, Function.update_self, if_pos same]
    · have different : other ≠ at' := fun same => sameIndex (by rw [same])
      rw [Function.update_of_ne sameIndex, if_neg different]
  · have different : other ≠ at' := fun same => sameTopic (by rw [same])
    simp [Function.update_of_ne sameTopic, if_neg different]

def ended (codec : Codec) (producerId producerEpoch : Int) (committed : Bool) (now : Int)
    (p : PartitionState) : PartitionState :=
  (p.endTxn codec producerId producerEpoch committed now).getD p

section Ends

variable (codec : Codec) (producerId producerEpoch : Int) (committed : Bool) (now : Int)

def Refuses (e : EngineState) (at' : String × Int) : Prop :=
  ∃ p, e.partition at' = some p ∧
    p.endTxn codec producerId producerEpoch committed now = none

theorem endPartitions_frame (partitions : List (String × Int)) (e : EngineState) :
    ∃ topics, (endPartitions codec producerId producerEpoch committed now partitions e).1 =
      { e with topics := topics } := by
  induction partitions generalizing e with
  | nil => exact ⟨e.topics, rfl⟩
  | cons at' rest ih =>
    unfold endPartitions
    split
    · exact ih e
    · rename_i p _
      split
      · exact ⟨e.topics, rfl⟩
      · rename_i p' _
        obtain ⟨topics, same⟩ := ih (e.setPartition at' p')
        exact ⟨topics, same⟩

theorem endPartitions_refused_iff {partitions : List (String × Int)} (distinct : partitions.Nodup)
    (e : EngineState) :
    (endPartitions codec producerId producerEpoch committed now partitions e).2 = false ↔
      ∃ at', at' ∈ partitions ∧
        e.Refuses codec producerId producerEpoch committed now at' := by
  induction partitions generalizing e with
  | nil => simp [endPartitions]
  | cons at' rest ih =>
    obtain ⟨fresh, distinctRest⟩ := List.nodup_cons.mp distinct
    unfold endPartitions
    cases found : e.partition at' with
    | none =>
      simp only [ih distinctRest e, List.mem_cons, exists_eq_or_imp]
      have never : ¬ e.Refuses codec producerId producerEpoch committed now at' := by
        rintro ⟨p, isP, _⟩
        rw [found] at isP
        cases isP
      simp [never]
    | some p =>
      cases ends : p.endTxn codec producerId producerEpoch committed now with
      | none =>
        simp only [ends, true_iff]
        exact ⟨at', List.mem_cons_self, p, found, ends⟩
      | some p' =>
        have never : ¬ e.Refuses codec producerId producerEpoch committed now at' := by
          rintro ⟨q, isQ, refused⟩
          rw [found] at isQ
          obtain rfl := Option.some.inj isQ
          rw [ends] at refused
          cases refused
        -- The partitions still to come are as they were.
        have others : ∀ other, other ∈ rest →
            ((e.setPartition at' p').Refuses codec producerId producerEpoch committed now other ↔
              e.Refuses codec producerId producerEpoch committed now other) := by
          intro other member
          have different : other ≠ at' := fun same => fresh (same ▸ member)
          unfold Refuses
          rw [partition_setPartition found, if_neg different]
        simp only [ends, ih distinctRest, List.mem_cons, exists_eq_or_imp, never, false_or]
        constructor
        · rintro ⟨other, member, refuses⟩
          exact ⟨other, member, (others other member).mp refuses⟩
        · rintro ⟨other, member, refuses⟩
          exact ⟨other, member, (others other member).mpr refuses⟩

theorem partition_endPartitions {partitions : List (String × Int)} (distinct : partitions.Nodup)
    (e : EngineState)
    (agreed : (endPartitions codec producerId producerEpoch committed now partitions e).2 = true)
    (other : String × Int) :
    (endPartitions codec producerId producerEpoch committed now partitions e).1.partition other =
      if other ∈ partitions then
        (e.partition other).map (ended codec producerId producerEpoch committed now)
      else e.partition other := by
  induction partitions generalizing e with
  | nil => simp [endPartitions]
  | cons at' rest ih =>
    obtain ⟨fresh, distinctRest⟩ := List.nodup_cons.mp distinct
    unfold endPartitions at agreed ⊢
    cases found : e.partition at' with
    | none =>
      simp only [found] at agreed ⊢
      rw [ih distinctRest e agreed]
      by_cases same : other = at'
      · simp [same, fresh, found]
      · simp [same]
    | some p =>
      simp only [found] at agreed ⊢
      cases ends : p.endTxn codec producerId producerEpoch committed now with
      | none =>
        simp only [ends] at agreed
        cases agreed
      | some p' =>
        simp only [ends] at agreed ⊢
        rw [ih distinctRest _ agreed, partition_setPartition found]
        by_cases same : other = at'
        · subst same
          simp [fresh, found, ended, ends]
        · simp [same]

end Ends

def lastPending (pending : List PendingTxnOffset) (key : String × String × Int) : Option Int :=
  (pending.reverse.find? (fun o => decide (o.key = key))).map PendingTxnOffset.offset

theorem foldl_commitOffset (pending : List PendingTxnOffset) (e : EngineState) :
    (∀ key, (pending.foldl commitOffset e).committedOffsets key =
        (lastPending pending key).or (e.committedOffsets key)) ∧
      (pending.foldl commitOffset e).topics = e.topics := by
  induction pending generalizing e with
  | nil => exact ⟨fun key => by simp [lastPending], rfl⟩
  | cons o rest ih =>
    obtain ⟨offsets, topics⟩ := ih (e.commitOffset o)
    refine ⟨?_, topics⟩
    intro key
    have here : (e.commitOffset o).committedOffsets key =
        if o.key = key then some o.offset else e.committedOffsets key := by
      simp only [commitOffset, setOffsetMetadata, FiniteMap.get_insert]
      by_cases same : o.key = key
      · rw [if_pos same, if_pos same.symm]
      · rw [if_neg same, if_neg (fun equal => same equal.symm)]
    rw [List.foldl_cons, offsets key, here]
    simp only [lastPending, List.reverse_cons, List.find?_append]
    cases rest.reverse.find? (fun o => decide (o.key = key)) with
    | some later => simp
    | none =>
      by_cases same : o.key = key
      · simp [same]
      · simp [same]

theorem endOffsets_spec (e : EngineState) (txId : String) (committed : Bool) :
    (e.endOffsets txId committed).topics = e.topics ∧
      ∀ key, (e.endOffsets txId committed).committedOffsets key =
        if committed then (lastPending ((e.txnPendingOffsets txId).getD []) key).or
          (e.committedOffsets key)
        else e.committedOffsets key := by
  cases committed with
  | false => exact ⟨rfl, fun key => rfl⟩
  | true =>
    obtain ⟨offsets, topics⟩ := foldl_commitOffset ((e.txnPendingOffsets txId).getD [])
      { e with txnPendingOffsets := Function.update e.txnPendingOffsets txId none }
    exact ⟨topics, offsets⟩

def added (e : EngineState) (txId : String) : Finset (String × Int) :=
  (e.txnPartitions txId).getD ∅

/-- An end that goes through closes the transaction everywhere, with one marker where it was open; one
that is refused changes nothing; and no commit is refused for a partition never written to. -/
structure AllOrNothing (txId : String) (producerId producerEpoch : Int) (committed : Bool)
    (e e' : EngineState) (errorCode : Int) : Prop where
  closed : errorCode = 0 → ∀ at' p', e'.partition at' = some p' → p'.isOpen producerId = false
  marked : errorCode = 0 → ∀ at' p, e.partition at' = some p → p.isOpen producerId = true →
    ∃ p', e'.partition at' = some p' ∧ p.Marked p' producerId committed
  offsets : errorCode = 0 → ∀ key, e'.committedOffsets key =
    if committed then (lastPending ((e.txnPendingOffsets txId).getD []) key).or
      (e.committedOffsets key)
    else e.committedOffsets key
  nothing : errorCode ≠ 0 → e'.partition = e.partition ∧
    e'.committedOffsets = e.committedOffsets ∧ e'.txnPartitions = e.txnPartitions ∧
    e'.txnPendingOffsets = e.txnPendingOffsets
  partly : e.isFenced producerId producerEpoch = false → committed = true →
    (∃ at', at' ∈ e.added txId ∧ ∃ p, e.partition at' = some p ∧ p.isOpen producerId = false) →
    errorCode = 0

/-- Every partition where the producer is open belongs to the transaction, and a commit
meets no partition where it is not open and has aborted before. -/
structure EndsWhole (e : EngineState) (txId : String) (producerId : Int) (committed : Bool) :
    Prop where
  known : ∀ at' p, e.partition at' = some p → p.isOpen producerId = true → at' ∈ e.added txId
  unaborted : committed = true → ∀ at', at' ∈ e.added txId → ∀ p, e.partition at' = some p →
    p.isOpen producerId = false → p.hasAborted producerId = false

section Ends

variable (codec : Codec) (order : HashOrder (String × Int)) (txId : String)
  (producerId producerEpoch : Int) (committed : Bool) (now : Int)

theorem completeTxn_refused {e : EngineState} {at' : String × Int} (member : at' ∈ e.added txId)
    (refuses : e.Refuses codec producerId producerEpoch committed now at') :
    (e.completeTxn codec order txId producerId producerEpoch committed now).2 = 48 ∧
      (e.completeTxn codec order txId producerId producerEpoch committed now).1.txnPartitions ≠
        e.txnPartitions := by
  unfold added at member
  unfold completeTxn
  cases found : e.txnPartitions txId with
  | none =>
    rw [found] at member
    exact (Finset.notMem_empty at' member).elim
  | some partitions =>
    rw [found] at member
    have refused := (endPartitions_refused_iff codec producerId producerEpoch committed now
      (order.nodup partitions)
      { e with txnPartitions := Function.update e.txnPartitions txId none }).mpr
      ⟨at', (order.mem partitions at').mpr member, refuses⟩
    obtain ⟨topics, frame⟩ := endPartitions_frame codec producerId producerEpoch committed now
      (order.list partitions)
      { e with txnPartitions := Function.update e.txnPartitions txId none }
    simp only [refused, frame, Bool.false_eq_true, if_false, true_and]
    intro same
    have gone := congrFun same txId
    rw [Function.update_self, found] at gone
    cases gone

theorem completeTxn_agreed {e : EngineState}
    (agreed : ∀ at', at' ∈ e.added txId →
      ¬ e.Refuses codec producerId producerEpoch committed now at') :
    (e.completeTxn codec order txId producerId producerEpoch committed now).2 = 0 ∧
      (∀ other, (e.completeTxn codec order txId producerId producerEpoch committed
          now).1.partition other =
        if other ∈ e.added txId then
          (e.partition other).map (ended codec producerId producerEpoch committed now)
        else e.partition other) ∧
      ∀ key, (e.completeTxn codec order txId producerId producerEpoch committed
          now).1.committedOffsets key =
        if committed then (lastPending ((e.txnPendingOffsets txId).getD []) key).or
          (e.committedOffsets key)
        else e.committedOffsets key := by
  unfold added at agreed ⊢
  unfold completeTxn
  cases found : e.txnPartitions txId with
  | none =>
    obtain ⟨topics, offsets⟩ := e.endOffsets_spec txId committed
    refine ⟨rfl, ?_, offsets⟩
    intro other
    simp [partition, topics]
  | some partitions =>
    rw [found] at agreed
    generalize removed : ({ e with
      txnPartitions := Function.update e.txnPartitions txId none } : EngineState) = e₁
    have samePartition : e₁.partition = e.partition := by rw [← removed]; rfl
    have accepted : (endPartitions codec producerId producerEpoch committed now
        (order.list partitions) e₁).2 = true := by
      by_contra refused
      obtain ⟨at', member, refuses⟩ := (endPartitions_refused_iff codec producerId producerEpoch
        committed now (order.nodup partitions) e₁).mp (by simpa using refused)
      apply agreed at' ((order.mem partitions at').mp member)
      simpa [Refuses, samePartition] using refuses
    have each := partition_endPartitions codec producerId producerEpoch committed now
      (order.nodup partitions) e₁ accepted
    obtain ⟨topics, frame⟩ := endPartitions_frame codec producerId producerEpoch committed now
      (order.list partitions) e₁
    simp only [accepted, if_true, true_and]
    obtain ⟨sameTopics, offsets⟩ := endOffsets_spec (endPartitions codec producerId producerEpoch
      committed now (order.list partitions) e₁).1 txId committed
    constructor
    · intro other
      have unmoved : ((endPartitions codec producerId producerEpoch committed now
          (order.list partitions) e₁).1.endOffsets txId committed).partition other =
            (endPartitions codec producerId producerEpoch committed now
              (order.list partitions) e₁).1.partition other := by
        simp only [partition, sameTopics]
      rw [unmoved, each other, samePartition]
      simp [order.mem]
    · intro key
      rw [offsets key, frame, ← removed]

/-- The end of a transaction is all or nothing exactly if the request is fenced or `EndsWhole`. -/
theorem handleEndTxn_allOrNothing_iff (e : EngineState) :
    AllOrNothing txId producerId producerEpoch committed e
        (e.handleEndTxn codec order txId producerId producerEpoch committed now).1
        (e.handleEndTxn codec order txId producerId producerEpoch committed now).2 ↔
      e.isFenced producerId producerEpoch = true ∨ e.EndsWhole txId producerId committed := by
  unfold handleEndTxn
  cases fenced : e.isFenced producerId producerEpoch with
  | true =>
    simp only [if_true, true_or, iff_true]
    constructor
    · intro ok
      cases ok
    · intro ok
      cases ok
    · intro ok
      cases ok
    · intro _
      exact ⟨rfl, rfl, rfl, rfl⟩
    · intro unfenced
      rw [fenced] at unfenced
      cases unfenced
  | false =>
    simp only [Bool.false_eq_true, if_false, false_or]
    by_cases refused : ∃ at', at' ∈ e.added txId ∧
        e.Refuses codec producerId producerEpoch committed now at'
    · obtain ⟨at', member, refuses⟩ := refused
      obtain ⟨code, forgotten⟩ := completeTxn_refused codec order txId producerId producerEpoch
        committed now member refuses
      obtain ⟨p, isP, noEnd⟩ := refuses
      obtain ⟨isCommit, notOpen, aborted⟩ := (PartitionState.endTxn_eq_none_iff codec producerId
        producerEpoch committed now p).mp noEnd
      constructor
      · intro whole
        have unchanged := (whole.nothing (by rw [code]; decide)).2.2.1
        exact (forgotten unchanged).elim
      · intro whole
        have clean := whole.unaborted isCommit at' member p isP notOpen
        rw [clean] at aborted
        cases aborted
    · have agreed : ∀ at', at' ∈ e.added txId →
          ¬ e.Refuses codec producerId producerEpoch committed now at' :=
        fun at' member refuses => refused ⟨at', member, refuses⟩
      obtain ⟨code, partitions, offsets⟩ := completeTxn_agreed codec order txId producerId
        producerEpoch committed now agreed
      -- On a partition of the transaction the end goes through.
      have ends : ∀ at', at' ∈ e.added txId → ∀ p, e.partition at' = some p →
          p.endTxn codec producerId producerEpoch committed now =
            some (ended codec producerId producerEpoch committed now p) := by
        intro at' member p isP
        cases result : p.endTxn codec producerId producerEpoch committed now with
        | none => exact (agreed at' member ⟨p, isP, result⟩).elim
        | some p' => simp [ended, result]
      constructor
      · intro whole
        constructor
        · intro at' p isP isOpen
          by_contra unknown
          have stays := partitions at'
          rw [if_neg unknown, isP] at stays
          have closed := whole.closed code at' p stays
          rw [isOpen] at closed
          cases closed
        · intro isCommit at' member p isP notOpen
          by_contra aborted
          apply agreed at' member
          refine ⟨p, isP, ?_⟩
          rw [PartitionState.endTxn_eq_none_iff]
          exact ⟨isCommit, notOpen, by simpa using aborted⟩
      · intro whole
        refine ⟨fun _ => ?_, fun _ => ?_, fun _ => offsets, fun failed => (failed code).elim,
          fun _ _ _ => code⟩
        · intro at' p' isP'
          rw [partitions at'] at isP'
          split at isP'
          · rename_i member
            obtain ⟨p, isP, rfl⟩ := Option.map_eq_some_iff.mp isP'
            exact PartitionState.isOpen_endTxn codec producerId producerEpoch committed now
              (ends at' member p isP)
          · rename_i unknown
            by_contra isOpen
            exact unknown (whole.known at' p' isP' (by simpa using isOpen))
        · intro at' p isP isOpen
          have member := whole.known at' p isP isOpen
          refine ⟨ended codec producerId producerEpoch committed now p, ?_, ?_⟩
          · rw [partitions at', if_pos member, isP]
            rfl
          · exact PartitionState.marked_endTxn codec producerId producerEpoch committed now
              (ends at' member p isP) isOpen

end Ends

def twoPartitions : String → Option TopicState := fun name =>
  if name = "t" then
    some { partitions := fun i => if i = 0 ∨ i = 1 then some {} else none }
  else none

def transactionalBatch (sequence : Int) : Batch where
  len := 120
  lastOffsetDelta := 0
  transactional := true
  producerId := 1000
  producerEpoch := 0
  baseSequence := sequence
  entries := some [{ offsetDelta := 0, key := some [1], value := some [1] }]
  headed := Nat.le_of_ble_eq_true rfl

/-- A transaction on t-0 is aborted; the next one adds both partitions and writes to t-1
only. -/
def abortedThenPartly (order : HashOrder (String × Int)) : List Request :=
  [.initProducerId order { transactionalId := some "tx" } 0,
    .addPartitionsToTxn "tx" 1000 0 [("t", 0)] 0,
    .produce [(("t", 0), some (.batch (transactionalBatch 0)))] 0,
    .endTxn order "tx" 1000 0 false 0,
    .addPartitionsToTxn "tx" 1000 0 [("t", 0), ("t", 1)] 0,
    .produce [(("t", 1), some (.batch (transactionalBatch 0)))] 0]

noncomputable def zeroFirst : HashOrder (String × Int) := .inTurn [("t", 0), ("t", 1)] (by decide)

theorem handleEndTxn_refusedHalfWay :
    ¬ ∀ (codec : Codec) (order : HashOrder (String × Int)) (requests : List Request)
        (txId : String) (producerId producerEpoch : Int) (committed : Bool) (now : Int),
      ((started twoPartitions).run codec requests).txnProducers txId =
          some (producerId, producerEpoch) →
        AllOrNothing txId producerId producerEpoch committed
          ((started twoPartitions).run codec requests)
          (((started twoPartitions).run codec requests).handleEndTxn codec order txId producerId
            producerEpoch committed now).1
          (((started twoPartitions).run codec requests).handleEndTxn codec order txId producerId
            producerEpoch committed now).2 := by
  intro claimed
  have whole := claimed PartitionState.hundredBytes zeroFirst (abortedThenPartly zeroFirst) "tx" 1000
    0 true 0 rfl
  have code : (((started twoPartitions).run PartitionState.hundredBytes
      (abortedThenPartly zeroFirst)).handleEndTxn PartitionState.hundredBytes zeroFirst "tx" 1000 0
        true 0).2 = 48 := rfl
  obtain ⟨_, _, unchanged, _⟩ := whole.nothing (by rw [code]; decide)
  have before : (((started twoPartitions).run PartitionState.hundredBytes
      (abortedThenPartly zeroFirst)).txnPartitions "tx").isSome = true := rfl
  have after : (((started twoPartitions).run PartitionState.hundredBytes
      (abortedThenPartly zeroFirst)).handleEndTxn PartitionState.hundredBytes zeroFirst "tx" 1000 0
        true 0).1.txnPartitions "tx" = none := rfl
  rw [unchanged] at after
  rw [after] at before
  cases before

end EngineState

end NoidaDb.Kafka
