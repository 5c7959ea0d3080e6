/-
Idempotent producers.

The broker tells a duplicate from a new batch as long as the duplicate is of the last batch and
the 32-bit sequence does not start over.
-/

import NoidaDb.Kafka.TxnEnd

namespace NoidaDb.Kafka

/-- A producer on one partition, with its batches in the order it numbers them. -/
structure Producer where
  id : Int
  epoch : Int
  target : String × Int
  batches : Nat → Batch

def nextSequence (b : Batch) : Int := (b.baseSequence + b.lastOffsetDelta + 1) % 2 ^ 31

namespace Producer

structure Numbers (producer : Producer) : Prop where
  id : 0 ≤ producer.id
  own : ∀ i, (producer.batches i).producerId = producer.id ∧
    (producer.batches i).producerEpoch = producer.epoch
  numbered : ∀ i, (producer.batches i).Numbered
  first : (producer.batches 0).baseSequence = 0
  next : ∀ i, (producer.batches (i + 1)).baseSequence = nextSequence (producer.batches i)

/-- One partition of a Produce request: a batch of the producer, or of somebody else. -/
inductive Send where
  | own (i : Nat)
  | other (data : (String × Int) × Option Payload)

def entry (producer : Producer) : Send → (String × Int) × Option Payload
  | .own i => (producer.target, some (.batch (producer.batches i)))
  | .other data => data

/-- How many batches have been sent, after `n` were. -/
def sentAfter (n : Nat) : Send → Nat
  | .own i => max n (i + 1)
  | .other _ => n

/-- The next batch, or an earlier one again; nobody else sends under the producer's id and
epoch to the partition. -/
def Permitted (producer : Producer) (n : Nat) : Send → Prop
  | .own i => i ≤ n
  | .other data => data.1 = producer.target → ∀ b, data.2 = some (.batch b) →
      ¬ (b.producerId = producer.id ∧ b.producerEpoch = producer.epoch)

def Dependable (producer : Producer) (n : Nat) : Send → Prop
  | .own i =>
    (i = n ∧ (producer.batches i).baseSequence + (producer.batches i).lastOffsetDelta < 2 ^ 31 ∧
      (0 < i → 0 < (producer.batches i).baseSequence)) ∨ i + 1 = n
  | .other _ => True

def AlongSends (condition : Nat → Send → Prop) : Nat → List Send → Prop
  | _, [] => True
  | n, s :: rest => condition n s ∧ AlongSends condition (sentAfter n s) rest

def owns (producer : Producer) (x : Int × Batch) : Bool :=
  decide (x.2.producerId = producer.id) && decide (x.2.producerEpoch = producer.epoch)

end Producer

namespace PartitionState

theorem storedAs_producer (codec : Codec) (cfg : LogConfig) (b : Batch) (now : Int) :
    (storedAs codec cfg b now).producerId = b.producerId ∧
      (storedAs codec cfg b now).producerEpoch = b.producerEpoch := by
  unfold storedAs
  split
  · unfold stampLogAppendTime
    split
    · rename_i first rest decoded
      cases found : b.entries with
      | none => simp [Batch.decode, found] at decoded
      | some entries =>
        cases entries with
        | nil => simp [Batch.decode, found] at decoded
        | cons e later =>
          simp only [Batch.decode, found, Option.map_some, List.map_cons, Option.some.injEq,
            List.cons.injEq] at decoded
          obtain ⟨rfl, _⟩ := decoded
          exact ⟨rfl, rfl⟩
    · exact ⟨rfl, rfl⟩
  · exact ⟨rfl, rfl⟩

theorem appendBatch_producerSeqs (p : PartitionState) (batch : Batch) (count now : Int)
    (cfg : Option LogConfig) : (p.appendBatch batch count now cfg).1.producerSeqs = p.producerSeqs := by
  unfold appendBatch ensureSegment
  split <;> rfl

@[simp] theorem openTxn_producerSeqs (p : PartitionState) (producerId : Int) :
    (p.openTxn producerId).producerSeqs = p.producerSeqs := by
  unfold openTxn
  split <;> rfl

theorem noteProducer_producerSeqs (p : PartitionState) (b : Batch) (producer : Int × Int) :
    (p.noteProducer b).producerSeqs producer =
      if 0 ≤ b.producerId ∧ producer = (b.producerId, b.producerEpoch) then
        some (wrap32 (b.baseSequence + b.lastOffsetDelta), p.highWatermark)
      else p.producerSeqs producer := by
  unfold noteProducer
  by_cases anonymous : b.producerId < 0
  · have unnumbered : ¬ (0 ≤ b.producerId ∧ producer = (b.producerId, b.producerEpoch)) := by
      rintro ⟨numbered, _⟩
      omega
    rw [if_pos anonymous, if_neg unnumbered]
  · rw [if_neg anonymous]
    have known : 0 ≤ b.producerId := by omega
    simp only [known, true_and]
    by_cases same : producer = (b.producerId, b.producerEpoch)
    · subst same
      split <;> simp
    · split <;> simp [same]

theorem storeBatch_spec (codec : Codec) (p : PartitionState) (cfg : LogConfig) (b : Batch)
    (now : Int) :
    (storeBatch codec p cfg b now).1.recordBatches =
        p.recordBatches ++ [(p.highWatermark, storedAs codec cfg b now)] ∧
      (storeBatch codec p cfg b now).1.producerSeqs = (p.noteProducer b).producerSeqs ∧
      (storeBatch codec p cfg b now).2 = p.highWatermark := by
  unfold storeBatch
  refine ⟨?_, appendBatch_producerSeqs _ _ _ _ _, ?_⟩
  · rw [appendBatch_eq]
    simp [storedAs]
  · simp [appendBatch]

structure Passes (cfg : LogConfig) (expectedEpoch : Int → Option Int) (b : Batch) : Prop where
  short : ¬ cfg.maxMessageBytes < b.len
  keyed : keyless cfg b = none
  current : (expectedEpoch b.producerId).any (fun expected =>
    decide (b.producerEpoch < expected)) = false

section Produce

variable (codec : Codec) (label : String) {expectedEpoch : Int → Option Int} {cfg : LogConfig}
  (now : Int) {p : PartitionState} {b : Batch}

theorem produce_accepted (passes : Passes cfg expectedEpoch b)
    (accepted : p.admission (expectedEpoch b.producerId) b = .accepted) :
    (p.produce codec label expectedEpoch cfg now (some (.batch b))).1 =
        (storeBatch codec p cfg b now).1 ∧
      (p.produce codec label expectedEpoch cfg now (some (.batch b))).2.errorCode = 0 ∧
      (p.produce codec label expectedEpoch cfg now (some (.batch b))).2.baseOffset =
        p.highWatermark := by
  have isBase := (storeBatch_spec codec p cfg b now).2.2
  simp [produce, passes.short, passes.keyed, accepted, isBase]

theorem produce_duplicate (passes : Passes cfg expectedEpoch b) {prevBaseOffset : Int}
    (again : p.admission (expectedEpoch b.producerId) b = .duplicate prevBaseOffset) :
    (p.produce codec label expectedEpoch cfg now (some (.batch b))).1 = p ∧
      (p.produce codec label expectedEpoch cfg now (some (.batch b))).2.errorCode = 0 ∧
      (p.produce codec label expectedEpoch cfg now (some (.batch b))).2.baseOffset =
        prevBaseOffset := by
  simp [produce, passes.short, passes.keyed, again]

theorem produce_foreign (producer : Producer) (records : Option Payload)
    (foreign : ∀ b, records = some (.batch b) →
      ¬ (b.producerId = producer.id ∧ b.producerEpoch = producer.epoch)) :
    (p.produce codec label expectedEpoch cfg now records).1.recordBatches.filter producer.owns =
        p.recordBatches.filter producer.owns ∧
      (p.produce codec label expectedEpoch cfg now records).1.producerSeqs
          (producer.id, producer.epoch) = p.producerSeqs (producer.id, producer.epoch) := by
  rcases produce_cases codec label expectedEpoch cfg now records p with
    same | ⟨b, isBatch, _, _, stored⟩
  · rw [same]
    exact ⟨rfl, rfl⟩
  · have different := foreign b isBatch
    obtain ⟨log, seqs, _⟩ := storeBatch_spec codec p cfg b now
    obtain ⟨sameId, sameEpoch⟩ := storedAs_producer codec cfg b now
    rw [stored, log, seqs, noteProducer_producerSeqs, List.filter_append]
    constructor
    · have notOwn : producer.owns (p.highWatermark, storedAs codec cfg b now) = false := by
        simp only [Producer.owns, sameId, sameEpoch, Bool.and_eq_false_iff, decide_eq_false_iff_not]
        by_cases isId : b.producerId = producer.id
        · exact Or.inr (fun isEpoch => different ⟨isId, isEpoch⟩)
        · exact Or.inl isId
      simp [notOwn]
    · rw [if_neg]
      rintro ⟨_, same⟩
      exact different ⟨(congrArg Prod.fst same).symm, (congrArg Prod.snd same).symm⟩

end Produce

/-- `n` batches of the producer have been sent, and `stored` is where they are. -/
structure Sent (codec : Codec) (cfg : LogConfig) (producer : Producer)
    (before : List (Int × Batch)) (n : Nat) (stored : List (Int × Batch)) (p : PartitionState) :
    Prop where
  count : stored.length = n
  log : p.recordBatches.filter producer.owns = before ++ stored
  copies : ∀ i x, stored[i]? = some x →
    ∃ now, x.2 = storedAs codec cfg (producer.batches i) now
  fresh : n = 0 → p.producerSeqs (producer.id, producer.epoch) = none
  last : ∀ m x, n = m + 1 → stored[m]? = some x →
    p.producerSeqs (producer.id, producer.epoch) =
      some ((producer.batches m).baseSequence + (producer.batches m).lastOffsetDelta, x.1)
  bounded : ∀ m, n = m + 1 → 0 ≤ (producer.batches m).baseSequence ∧
    (producer.batches m).baseSequence + (producer.batches m).lastOffsetDelta < 2 ^ 31

theorem wrap32_of_bounds {x : Int} (lower : 0 ≤ x) (upper : x < 2 ^ 31) : wrap32 x = x := by
  unfold wrap32
  rw [Int.bmod_eq_of_le] <;> omega

section Steps

variable {codec : Codec} (label : String) {expectedEpoch : Int → Option Int} {cfg : LogConfig}
  {producer : Producer} {before stored : List (Int × Batch)} {n : Nat} {p : PartitionState}

theorem Sent.nextBase (numbers : producer.Numbers) (sent : Sent codec cfg producer before n stored p)
    (within : 0 < n → 0 < (producer.batches n).baseSequence) :
    0 ≤ (producer.batches n).baseSequence ∧ ∀ m, n = m + 1 →
      (producer.batches n).baseSequence =
        (producer.batches m).baseSequence + (producer.batches m).lastOffsetDelta + 1 := by
  cases n with
  | zero =>
    rw [numbers.first]
    exact ⟨le_rfl, fun m impossible => by omega⟩
  | succ m =>
    have positive := within (Nat.succ_pos m)
    obtain ⟨lower, upper⟩ := sent.bounded m rfl
    have counted := (numbers.numbered m).counted
    have isNext := numbers.next m
    unfold nextSequence at isNext
    refine ⟨le_of_lt positive, ?_⟩
    intro k same
    obtain rfl : m = k := by omega
    have small : (producer.batches m).baseSequence + (producer.batches m).lastOffsetDelta + 1 <
        2 ^ 31 := by
      by_contra large
      have exact' : (producer.batches m).baseSequence + (producer.batches m).lastOffsetDelta + 1 =
          2 ^ 31 := by omega
      rw [exact'] at isNext
      simp at isNext
      omega
    rw [isNext]
    exact Int.emod_eq_of_lt (by omega) small

theorem Sent.sendNext (numbers : producer.Numbers) (sent : Sent codec cfg producer before n stored p)
    (passes : Passes cfg expectedEpoch (producer.batches n))
    (ends : (producer.batches n).baseSequence + (producer.batches n).lastOffsetDelta < 2 ^ 31)
    (within : 0 < n → 0 < (producer.batches n).baseSequence) (now : Int) :
    Sent codec cfg producer before (n + 1)
        (stored ++ [(p.highWatermark, storedAs codec cfg (producer.batches n) now)])
        (p.produce codec label expectedEpoch cfg now (some (.batch (producer.batches n)))).1 ∧
      (p.produce codec label expectedEpoch cfg now
        (some (.batch (producer.batches n)))).2.errorCode = 0 ∧
      (p.produce codec label expectedEpoch cfg now
        (some (.batch (producer.batches n)))).2.baseOffset = p.highWatermark := by
  obtain ⟨ownId, ownEpoch⟩ := numbers.own n
  have known := numbers.id
  have counted := (numbers.numbered n).counted
  obtain ⟨baseNonneg, isNext⟩ := sent.nextBase numbers within
  have notAnonymous : ¬ (producer.batches n).producerId < 0 := by omega
  have accepted : p.admission (expectedEpoch (producer.batches n).producerId) (producer.batches n) =
      .accepted := by
    unfold admission
    rw [if_neg notAnonymous, passes.current, ownId, ownEpoch]
    cases n with
    | zero => simp [sent.fresh rfl, numbers.first]
    | succ m =>
      have bound : m < stored.length := by
        rw [sent.count]
        omega
      have remembered := sent.last m stored[m] rfl (List.getElem?_eq_getElem bound)
      have follows := isNext m rfl
      have notAgain : ¬ (producer.batches (m + 1)).baseSequence ≤
          (producer.batches m).baseSequence + (producer.batches m).lastOffsetDelta := by omega
      have noGap : wrap32 ((producer.batches m).baseSequence +
          (producer.batches m).lastOffsetDelta + 1) = (producer.batches (m + 1)).baseSequence := by
        rw [← follows]
        exact wrap32_of_bounds baseNonneg (by omega)
      rw [remembered]
      simp [notAgain, noGap]
  obtain ⟨isState, isOk, isBase⟩ := produce_accepted codec label now passes accepted
  refine ⟨?_, isOk, isBase⟩
  rw [isState]
  obtain ⟨log, seqs, _⟩ := storeBatch_spec codec p cfg (producer.batches n) now
  obtain ⟨sameId, sameEpoch⟩ := storedAs_producer codec cfg (producer.batches n) now
  have isOwn : producer.owns (p.highWatermark, storedAs codec cfg (producer.batches n) now) = true := by
    simp [Producer.owns, sameId, sameEpoch, ownId, ownEpoch]
  have noted : (storeBatch codec p cfg (producer.batches n) now).1.producerSeqs
      (producer.id, producer.epoch) =
        some ((producer.batches n).baseSequence + (producer.batches n).lastOffsetDelta,
          p.highWatermark) := by
    rw [seqs, noteProducer_producerSeqs, if_pos ⟨by omega, by rw [ownId, ownEpoch]⟩,
      wrap32_of_bounds (by omega) ends]
  have count := sent.count
  constructor
  · simp [count]
  · rw [log, List.filter_append, sent.log, List.filter_singleton, isOwn]
    simp
  · intro i x found
    by_cases old : i < stored.length
    · rw [List.getElem?_append_left old] at found
      exact sent.copies i x found
    · rw [List.getElem?_append_right (by omega)] at found
      obtain ⟨isLast, isX⟩ := List.getElem?_eq_some_iff.mp found
      simp only [List.length_singleton] at isLast
      have isN : i = n := by omega
      have isX : (p.highWatermark, storedAs codec cfg (producer.batches n) now) = x := by
        simpa [List.getElem_singleton] using isX
      subst isN
      rw [← isX]
      exact ⟨now, rfl⟩
  · intro impossible
    omega
  · intro m x same found
    obtain rfl : n = m := by omega
    rw [List.getElem?_append_right (by omega), count, Nat.sub_self] at found
    have isX : (p.highWatermark, storedAs codec cfg (producer.batches n) now) = x := by
      simpa using found
    rw [← isX]
    exact noted
  · intro m same
    obtain rfl : n = m := by omega
    exact ⟨baseNonneg, ends⟩

theorem Sent.sendAgain (numbers : producer.Numbers)
    (sent : Sent codec cfg producer before (n + 1) stored p)
    (passes : Passes cfg expectedEpoch (producer.batches n)) (now : Int) :
    ∃ x, stored[n]? = some x ∧
      (p.produce codec label expectedEpoch cfg now (some (.batch (producer.batches n)))).1 = p ∧
      (p.produce codec label expectedEpoch cfg now
        (some (.batch (producer.batches n)))).2.errorCode = 0 ∧
      (p.produce codec label expectedEpoch cfg now
        (some (.batch (producer.batches n)))).2.baseOffset = x.1 := by
  have bound : n < stored.length := by
    rw [sent.count]
    omega
  obtain ⟨x, isX⟩ : ∃ x, stored[n]? = some x := ⟨stored[n], List.getElem?_eq_getElem bound⟩
  have remembered := sent.last n x rfl isX
  have counted := (numbers.numbered n).counted
  obtain ⟨ownId, ownEpoch⟩ := numbers.own n
  have known := numbers.id
  have again : p.admission (expectedEpoch (producer.batches n).producerId) (producer.batches n) =
      .duplicate x.1 := by
    have notAnonymous : ¬ (producer.batches n).producerId < 0 := by omega
    have atMost : (producer.batches n).baseSequence ≤
        (producer.batches n).baseSequence + (producer.batches n).lastOffsetDelta := by omega
    unfold admission
    rw [if_neg notAnonymous, passes.current, ownId, ownEpoch, remembered]
    simp [atMost]
  exact ⟨x, isX, produce_duplicate codec label now passes again⟩

end Steps

end PartitionState

namespace EngineState

def configs (e : EngineState) (name : String) : Option LogConfig :=
  (e.topics name).map TopicState.configs

theorem configs_setPartition (e : EngineState) (at' : String × Int) (p : PartitionState)
    (name : String) : (e.setPartition at' p).configs name = e.configs name := by
  unfold setPartition configs
  by_cases same : name = at'.1
  · subst same
    simp [Function.comp_def]
  · simp [same]

theorem producePartition_cases (codec : Codec) (now : Int) (e : EngineState)
    (data : (String × Int) × Option Payload) :
    (e.partition data.1 = none ∧ (producePartition codec now e data).1 = e) ∨
      ∃ p cfg, e.partition data.1 = some p ∧ e.configs data.1.1 = some cfg ∧
        producePartition codec now e data =
          (e.setPartition data.1 (p.produce codec (partitionLabel data.1) e.producerEpochs cfg now
            data.2).1,
            (p.produce codec (partitionLabel data.1) e.producerEpochs cfg now data.2).2) := by
  unfold producePartition partition configs
  cases e.topics data.1.1 with
  | none => exact Or.inl ⟨rfl, rfl⟩
  | some topic =>
    simp only [Option.bind_some, Option.map_some]
    cases topic.partitions data.1.2 with
    | none => exact Or.inl ⟨rfl, rfl⟩
    | some p => exact Or.inr ⟨p, topic.configs, rfl, rfl, rfl⟩

def runProduce (codec : Codec) :
    List (Int × List ((String × Int) × Option Payload)) → EngineState →
      EngineState × List PartitionProduceResponse
  | [], e => (e, [])
  | request :: rest, e =>
    let first := handleProduce codec request.1 request.2 e
    let later := runProduce codec rest first.1
    (later.1, first.2 ++ later.2)

/-- What the producer counts on when it sends: the partition and its configs are there, and
its epoch is current. -/
structure Serves (cfg : LogConfig) (epochs : Int → Option Int) (target : String × Int)
    (p : PartitionState) (e : EngineState) : Prop where
  found : e.partition target = some p
  configured : e.configs target.1 = some cfg
  epochs : e.producerEpochs = epochs

section Sends

variable {codec : Codec} {cfg : LogConfig} {epochs : Int → Option Int} {producer : Producer}
  {before : List (Int × Batch)}

variable {p : PartitionState} {e : EngineState}

/-- One entry of a request acts on the producer's partition as `produce`, or not at all. -/
theorem Serves.producePartition {target : String × Int} (serves : Serves cfg epochs target p e)
    (codec : Codec) (now : Int) (data : (String × Int) × Option Payload) :
    (data.1 ≠ target ∧ Serves cfg epochs target p (producePartition codec now e data).1) ∨
      (data.1 = target ∧
        Serves cfg epochs target
          (p.produce codec (partitionLabel target) epochs cfg now data.2).1
          (producePartition codec now e data).1 ∧
        (producePartition codec now e data).2 =
          (p.produce codec (partitionLabel target) epochs cfg now data.2).2) := by
  by_cases same : data.1 = target
  · right
    rcases producePartition_cases codec now e data with ⟨nowhere, _⟩ | ⟨q, cfg', isQ, isCfg, result⟩
    · rw [same, serves.found] at nowhere
      cases nowhere
    · rw [same] at isQ isCfg
      obtain rfl := Option.some.inj (isQ.symm.trans serves.found)
      obtain rfl := Option.some.inj (isCfg.symm.trans serves.configured)
      rw [result, same, serves.epochs]
      refine ⟨rfl, ⟨?_, ?_, serves.epochs⟩, rfl⟩
      · rw [partition_setPartition serves.found, if_pos rfl]
      · rw [configs_setPartition]
        exact serves.configured
  · left
    refine ⟨same, ?_⟩
    rcases producePartition_cases codec now e data with ⟨_, result⟩ | ⟨q, cfg', isQ, _, result⟩
    · rw [result]
      exact serves
    · rw [result]
      refine ⟨?_, ?_, serves.epochs⟩
      · rw [partition_setPartition isQ, if_neg (fun equal => same equal.symm)]
        exact serves.found
      · rw [configs_setPartition]
        exact serves.configured

def Answered (stored : List (Int × Batch)) (s : Producer.Send)
    (answer : PartitionProduceResponse) : Prop :=
  ∀ i, s = .own i → answer.errorCode = 0 ∧ ∃ x, stored[i]? = some x ∧ answer.baseOffset = x.1

theorem Answered.append {stored : List (Int × Batch)} {s : Producer.Send}
    {answer : PartitionProduceResponse} (answered : Answered stored s answer)
    (more : List (Int × Batch)) : Answered (stored ++ more) s answer := by
  intro i isOwn
  obtain ⟨ok, x, found, isBase⟩ := answered i isOwn
  obtain ⟨bound, _⟩ := List.getElem?_eq_some_iff.mp found
  exact ⟨ok, x, by rw [List.getElem?_append_left bound]; exact found, isBase⟩

theorem send_step (numbers : producer.Numbers)
    (passes : ∀ i, PartitionState.Passes cfg epochs (producer.batches i)) {n : Nat}
    {stored : List (Int × Batch)}
    (sent : PartitionState.Sent codec cfg producer before n stored p)
    (serves : Serves cfg epochs producer.target p e) {s : Producer.Send}
    (permitted : producer.Permitted n s) (dependable : producer.Dependable n s) (now : Int) :
    ∃ more p', PartitionState.Sent codec cfg producer before (Producer.sentAfter n s)
        (stored ++ more) p' ∧
      Serves cfg epochs producer.target p' (producePartition codec now e (producer.entry s)).1 ∧
      Answered (stored ++ more) s (producePartition codec now e (producer.entry s)).2 := by
  cases s with
  | own i =>
    rcases serves.producePartition codec now (producer.entry (.own i)) with
      ⟨elsewhere, _⟩ | ⟨_, serves', answer⟩
    · exact (elsewhere rfl).elim
    · simp only [Producer.entry] at serves' answer
      rcases dependable with ⟨rfl, ends, within⟩ | again
      · obtain ⟨sent', isOk, isBase⟩ := sent.sendNext (partitionLabel producer.target) numbers
          (passes i) ends within now
        have isNext : Producer.sentAfter i (.own i) = i + 1 := by
          simp only [Producer.sentAfter]
          omega
        refine ⟨_, _, by rw [isNext]; exact sent', serves', ?_⟩
        intro j same
        cases same
        simp only [Producer.entry] at answer ⊢
        rw [answer, isOk, isBase]
        refine ⟨rfl, (p.highWatermark, PartitionState.storedAs codec cfg (producer.batches i) now),
          ?_, rfl⟩
        rw [List.getElem?_append_right (by rw [sent.count]), sent.count, Nat.sub_self]
        rfl
      · subst again
        obtain ⟨x, isX, isState, isOk, isBase⟩ := sent.sendAgain
          (partitionLabel producer.target) numbers (passes i) now
        have isSame : Producer.sentAfter (i + 1) (.own i) = i + 1 := by
          simp only [Producer.sentAfter]
          omega
        rw [isState] at serves'
        refine ⟨[], p, ?_, serves', ?_⟩
        · rw [isSame, List.append_nil]
          exact sent
        · intro j same
          cases same
          simp only [Producer.entry] at answer ⊢
          rw [answer, isOk, isBase, List.append_nil]
          exact ⟨rfl, x, isX, rfl⟩
  | other data =>
    have unanswered : ∀ answer, Answered (stored ++ []) (.other data) answer := by
      intro answer i same
      cases same
    rcases serves.producePartition codec now data with ⟨_, serves'⟩ | ⟨here, serves', _⟩
    · exact ⟨[], p, by rw [List.append_nil]; exact sent, serves', unanswered _⟩
    · obtain ⟨log, seqs⟩ := PartitionState.produce_foreign codec (partitionLabel producer.target)
        now producer data.2 (permitted here)
      refine ⟨[], _, ?_, serves', unanswered _⟩
      rw [List.append_nil]
      refine ⟨sent.count, ?_, sent.copies, ?_, ?_, sent.bounded⟩
      · rw [log]
        exact sent.log
      · rw [seqs]
        exact sent.fresh
      · rw [seqs]
        exact sent.last

def produceEach (codec : Codec) :
    List (Int × ((String × Int) × Option Payload)) → EngineState →
      EngineState × List PartitionProduceResponse
  | [], e => (e, [])
  | send :: rest, e =>
    let first := EngineState.producePartition codec send.1 e send.2
    let later := produceEach codec rest first.1
    (later.1, first.2 :: later.2)

theorem produceEach_append (codec : Codec)
    (front back : List (Int × ((String × Int) × Option Payload))) (e : EngineState) :
    produceEach codec (front ++ back) e =
      ((produceEach codec back (produceEach codec front e).1).1,
        (produceEach codec front e).2 ++ (produceEach codec back (produceEach codec front e).1).2) := by
  induction front generalizing e with
  | nil => rfl
  | cons send rest ih =>
    simp only [List.cons_append, produceEach]
    rw [ih]

theorem handleProduce_eq (codec : Codec) (now : Int)
    (data : List ((String × Int) × Option Payload)) (e : EngineState) :
    handleProduce codec now data e = produceEach codec (data.map (fun d => (now, d))) e := by
  induction data generalizing e with
  | nil => rfl
  | cons d rest ih =>
    simp only [handleProduce, List.map_cons, produceEach]
    rw [ih]

theorem runProduce_eq (codec : Codec)
    (requests : List (Int × List ((String × Int) × Option Payload))) (e : EngineState) :
    runProduce codec requests e =
      produceEach codec (requests.flatMap (fun r => r.2.map (fun d => (r.1, d)))) e := by
  induction requests generalizing e with
  | nil => rfl
  | cons request rest ih =>
    rw [List.flatMap_cons, produceEach_append, runProduce]
    simp only [handleProduce_eq, ih]

theorem sends_run (numbers : producer.Numbers)
    (passes : ∀ i, PartitionState.Passes cfg epochs (producer.batches i))
    (sends : List (Int × Producer.Send)) {n : Nat} {stored : List (Int × Batch)}
    (sent : PartitionState.Sent codec cfg producer before n stored p)
    (serves : Serves cfg epochs producer.target p e)
    (permitted : Producer.AlongSends producer.Permitted n (sends.map Prod.snd))
    (dependable : Producer.AlongSends producer.Dependable n (sends.map Prod.snd)) :
    ∃ more p', PartitionState.Sent codec cfg producer before
        ((sends.map Prod.snd).foldl Producer.sentAfter n) (stored ++ more) p' ∧
      (produceEach codec (sends.map (fun s => (s.1, producer.entry s.2))) e).1.partition
        producer.target = some p' ∧
      ∀ s answer, (s, answer) ∈ (sends.map Prod.snd).zip
          (produceEach codec (sends.map (fun s => (s.1, producer.entry s.2))) e).2 →
        Answered (stored ++ more) s answer := by
  induction sends generalizing n stored p e with
  | nil =>
    refine ⟨[], p, ?_, serves.found, ?_⟩
    · rw [List.append_nil]
      exact sent
    · intro s answer member
      cases member
  | cons send rest ih =>
    obtain ⟨more, p', sent', serves', answered⟩ := send_step numbers passes sent serves
      permitted.1 dependable.1 send.1
    obtain ⟨later, p'', sent'', found, answeredLater⟩ := ih sent' serves' permitted.2 dependable.2
    refine ⟨more ++ later, p'', ?_, found, ?_⟩
    · rw [← List.append_assoc]
      exact sent''
    · intro s answer member
      simp only [List.map_cons, produceEach, List.zip_cons_cons] at member
      rw [← List.append_assoc]
      rcases List.mem_cons.mp member with same | inRest
      · cases same
        exact answered.append later
      · exact answeredLater s answer inRest

/-- The batches of the producer are in its partition once each, in the order in which it
numbers them, and every answer to it gives where its batch is. -/
def ExactlyOnce (codec : Codec) (cfg : LogConfig) (producer : Producer)
    (e e' : EngineState) (sends : List Producer.Send) (answers : List PartitionProduceResponse) :
    Prop :=
  ∃ p p' stored, e.partition producer.target = some p ∧ e'.partition producer.target = some p' ∧
    stored.length = sends.foldl Producer.sentAfter 0 ∧
    p'.recordBatches.filter producer.owns = p.recordBatches.filter producer.owns ++ stored ∧
    (∀ i x, stored[i]? = some x →
      ∃ now, x.2 = PartitionState.storedAs codec cfg (producer.batches i) now) ∧
    ∀ s answer, (s, answer) ∈ sends.zip answers → Answered stored s answer

def requestsOf (producer : Producer) (requests : List (Int × List Producer.Send)) :
    List (Int × List ((String × Int) × Option Payload)) :=
  requests.map (fun r => (r.1, r.2.map producer.entry))

/-- Where a producer sends its batches in order, within the sequence numbers, and resends only the last
one, each batch is stored once and every answer is right. -/
theorem runProduce_exactlyOnce (numbers : producer.Numbers)
    (passes : ∀ i, PartitionState.Passes cfg epochs (producer.batches i)) {p : PartitionState}
    {e : EngineState} (serves : Serves cfg epochs producer.target p e)
    (new : p.producerSeqs (producer.id, producer.epoch) = none)
    (requests : List (Int × List Producer.Send))
    (permitted : Producer.AlongSends producer.Permitted 0 (requests.flatMap Prod.snd))
    (dependable : Producer.AlongSends producer.Dependable 0 (requests.flatMap Prod.snd)) :
    ExactlyOnce codec cfg producer e (runProduce codec (requestsOf producer requests) e).1
      (requests.flatMap Prod.snd) (runProduce codec (requestsOf producer requests) e).2 := by
  have start : PartitionState.Sent codec cfg producer (p.recordBatches.filter producer.owns) 0 []
      p := by
    refine ⟨rfl, (List.append_nil _).symm, ?_, fun _ => new, ?_, ?_⟩
    · intro i x found
      cases found
    · intro m x impossible
      omega
    · intro m impossible
      omega
  have flat : (requestsOf producer requests).flatMap (fun r => r.2.map (fun d => (r.1, d))) =
      (requests.flatMap (fun r => r.2.map (fun s => (r.1, s)))).map
        (fun s => (s.1, producer.entry s.2)) := by
    simp [requestsOf, List.flatMap_map, List.map_flatMap, Function.comp_def]
  have sends : (requests.flatMap (fun r => r.2.map (fun s => (r.1, s)))).map Prod.snd =
      requests.flatMap Prod.snd := by
    simp [List.map_flatMap, Function.comp_def]
  rw [← sends] at permitted dependable
  obtain ⟨stored, p', sent, found, answered⟩ := sends_run numbers passes _ start serves permitted
    dependable
  rw [sends, List.nil_append] at sent
  rw [sends, List.nil_append] at answered
  rw [runProduce_eq, flat]
  exact ⟨p, p', stored, serves.found, found, sent.count, sent.log, sent.copies, answered⟩

end Sends

def countingBatch (i : Nat) : Batch where
  len := 110
  lastOffsetDelta := 0
  producerId := 1000
  producerEpoch := 0
  baseSequence := (i : Int) % 2 ^ 31
  entries := some [{ offsetDelta := 0, key := some [1], value := some [1] }]
  headed := Nat.le_of_ble_eq_true rfl

def counting : Producer := ⟨1000, 0, ("t", 0), countingBatch⟩

theorem counting_numbers : counting.Numbers where
  id := by decide
  own := fun i => ⟨rfl, rfl⟩
  numbered := by
    intro i
    constructor
    · exact le_rfl
    · intro entries found
      cases found
      rfl
  first := rfl
  next := by
    intro i
    simp only [counting, countingBatch, nextSequence]
    omega

theorem counting_passes (i : Nat) :
    PartitionState.Passes {} (fun _ => none) (counting.batches i) where
  short := by
    show ¬ (1048588 : Int) < 110
    decide
  keyed := rfl
  current := rfl

theorem counting_serves :
    Serves {} (fun _ => none) counting.target {} (started twoPartitions) := ⟨rfl, rfl, rfl⟩

theorem runProduce_exactlyOnce_again :
    ExactlyOnce PartitionState.hundredBytes {} counting (started twoPartitions)
        (runProduce PartitionState.hundredBytes
          (requestsOf counting [(0, [.own 0]), (0, [.own 1]), (0, [.own 1])])
          (started twoPartitions)).1
        [.own 0, .own 1, .own 1]
        (runProduce PartitionState.hundredBytes
          (requestsOf counting [(0, [.own 0]), (0, [.own 1]), (0, [.own 1])])
          (started twoPartitions)).2 := by
  apply runProduce_exactlyOnce counting_numbers counting_passes counting_serves rfl
    [(0, [.own 0]), (0, [.own 1]), (0, [.own 1])]
  · exact ⟨Nat.le_refl 0, Nat.le_refl 1, Nat.le_succ 1, trivial⟩
  · exact ⟨Or.inl ⟨rfl, by decide, by decide⟩, Or.inl ⟨rfl, by decide, by decide⟩, Or.inr rfl,
      trivial⟩

theorem runProduce_misanswered :
    ¬ ∀ (codec : Codec) (cfg : LogConfig) (epochs : Int → Option Int) (producer : Producer)
        (p : PartitionState) (e : EngineState), producer.Numbers →
      (∀ i, PartitionState.Passes cfg epochs (producer.batches i)) →
      Serves cfg epochs producer.target p e →
      p.producerSeqs (producer.id, producer.epoch) = none →
      ∀ requests : List (Int × List Producer.Send),
        Producer.AlongSends producer.Permitted 0 (requests.flatMap Prod.snd) →
        ExactlyOnce codec cfg producer e (runProduce codec (requestsOf producer requests) e).1
          (requests.flatMap Prod.snd) (runProduce codec (requestsOf producer requests) e).2 := by
  intro claimed
  obtain ⟨p, p', stored, _, _, _, _, _, answered⟩ := claimed PartitionState.hundredBytes {}
    (fun _ => none) counting {} (started twoPartitions) counting_numbers counting_passes
    counting_serves rfl [(0, [.own 0]), (0, [.own 1]), (0, [.own 0])]
    ⟨Nat.le_refl 0, Nat.le_refl 1, Nat.zero_le 2, trivial⟩
  obtain ⟨first, second, third, isAnswers, atFirst, atThird⟩ : ∃ first second third,
      (runProduce PartitionState.hundredBytes
        (requestsOf counting [(0, [.own 0]), (0, [.own 1]), (0, [.own 0])])
        (started twoPartitions)).2 = [first, second, third] ∧ first.baseOffset = 0 ∧
          third.baseOffset = 1 := ⟨_, _, _, rfl, rfl, rfl⟩
  rw [isAnswers] at answered
  obtain ⟨_, x, isX, isBase⟩ := answered (.own 0) first (by simp) 0 rfl
  obtain ⟨_, y, isY, isBase'⟩ := answered (.own 0) third (by simp) 0 rfl
  rw [isX] at isY
  cases isY
  omega

end EngineState

end NoidaDb.Kafka
