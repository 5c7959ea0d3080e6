/-
Runs of calls on one partition log.
-/

import NoidaDb.Kafka.Compaction

namespace NoidaDb.Kafka

namespace PartitionState

variable {p : PartitionState}

theorem Rep.openTxn (rep : Rep p) (producerId : Int) : Rep (p.openTxn producerId) := by
  unfold PartitionState.openTxn
  split
  · exact rep
  · refine ⟨rep.fits, rep.ordered, rep.ended, rep.started, rep.segments, rep.reached, rep.bounds,
      rep.covered, rep.cleaned, ?_⟩
    intro t member
    rcases List.mem_append.mp member with old | new
    · exact rep.opened t old
    · rw [List.mem_singleton.mp new]
      exact ⟨fun x inLog => Or.inr (rep.ended x inLog), le_rfl⟩

theorem Rep.noteProducer (rep : Rep p) (b : Batch) : Rep (p.noteProducer b) := by
  have noted : ∀ seqs, Rep { p with producerSeqs := seqs } := fun seqs =>
    ⟨rep.fits, rep.ordered, rep.ended, rep.started, rep.segments, rep.reached, rep.bounds,
      rep.covered, rep.cleaned, rep.opened⟩
  unfold PartitionState.noteProducer
  split
  · exact rep
  · simp only
    split
    · exact (noted _).openTxn b.producerId
    · exact noted _

@[simp] theorem openTxn_highWatermark (p : PartitionState) (producerId : Int) :
    (p.openTxn producerId).highWatermark = p.highWatermark := by
  unfold openTxn
  split <;> rfl

@[simp] theorem openTxn_logStartOffset (p : PartitionState) (producerId : Int) :
    (p.openTxn producerId).logStartOffset = p.logStartOffset := by
  unfold openTxn
  split <;> rfl

@[simp] theorem openTxn_recordBatches (p : PartitionState) (producerId : Int) :
    (p.openTxn producerId).recordBatches = p.recordBatches := by
  unfold openTxn
  split <;> rfl

@[simp] theorem noteProducer_highWatermark (p : PartitionState) (b : Batch) :
    (p.noteProducer b).highWatermark = p.highWatermark := by
  unfold noteProducer
  split
  · rfl
  · simp only
    split <;> simp

@[simp] theorem noteProducer_logStartOffset (p : PartitionState) (b : Batch) :
    (p.noteProducer b).logStartOffset = p.logStartOffset := by
  unfold noteProducer
  split
  · rfl
  · simp only
    split <;> simp

@[simp] theorem noteProducer_recordBatches (p : PartitionState) (b : Batch) :
    (p.noteProducer b).recordBatches = p.recordBatches := by
  unfold noteProducer
  split
  · rfl
  · simp only
    split <;> simp

/-- The batch that is stored for `b`. -/
def storedAs (codec : Codec) (cfg : LogConfig) (b : Batch) (now : Int) : Batch :=
  if cfg.logAppendTime then stampLogAppendTime codec b now else b

theorem storedAs_fits (codec : Codec) (cfg : LogConfig) {b : Batch} (numbered : b.Numbered)
    (now base : Int) :
    BatchFits (base, storedAs codec cfg b now) ∧
      (storedAs codec cfg b now).lastOffsetDelta ≤ b.lastOffsetDelta := by
  unfold storedAs
  split
  · exact stamp_fits codec numbered now base
  · exact ⟨numbered.fits base, le_rfl⟩

theorem Rep.storeBatch (rep : Rep p) (codec : Codec) (cfg : LogConfig) {b : Batch}
    (numbered : b.Numbered) (now : Int) : Rep (storeBatch codec p cfg b now).1 := by
  have counted := numbered.counted
  obtain ⟨fits, atMost⟩ := storedAs_fits codec cfg numbered now (p.noteProducer b).highWatermark
  unfold PartitionState.storeBatch
  simp only [if_pos counted]
  exact (rep.noteProducer b).appendBatch fits (Int.lt_add_one_of_le atMost) now (some cfg)

theorem produce_cases (codec : Codec) (label : String) (expectedEpoch : Int → Option Int)
    (cfg : LogConfig) (now : Int) (records : Option Payload) (p : PartitionState) :
    (p.produce codec label expectedEpoch cfg now records).1 = p ∨
      ∃ b, records = some (.batch b) ∧ p.admission (expectedEpoch b.producerId) b = .accepted ∧
        keyless cfg b = none ∧
        (p.produce codec label expectedEpoch cfg now records).1 =
          (storeBatch codec p cfg b now).1 := by
  cases records with
  | none => exact Or.inl rfl
  | some payload =>
    cases payload with
    | corrupt => exact Or.inl rfl
    | batch b =>
      by_cases large : cfg.maxMessageBytes < b.len
      · simp [produce, large]
      · cases keyed : keyless cfg b with
        | some index => simp [produce, large, keyed]
        | none =>
          cases admitted : p.admission (expectedEpoch b.producerId) b with
          | fenced => simp [produce, large, keyed, admitted]
          | duplicate prev => simp [produce, large, keyed, admitted]
          | outOfOrder => simp [produce, large, keyed, admitted]
          | accepted =>
            exact Or.inr ⟨b, rfl, admitted, keyed, by simp [produce, large, keyed, admitted]⟩

theorem encodeControlBatch_fits (codec : Codec) (producerId producerEpoch base : Int)
    (committed : Bool) (now : Int) :
    BatchFits (base, encodeControlBatch codec producerId producerEpoch base committed now) ∧
      (encodeControlBatch codec producerId producerEpoch base committed now).lastOffsetDelta = 0 := by
  constructor
  · exact encode_fits codec (controlRecord producerId producerEpoch base committed now) []
      (List.pairwise_singleton _ _)
  · simp [encodeControlBatch, Codec.encode]

theorem Rep.appendControl (rep : Rep p) (codec : Codec) (producerId producerEpoch : Int)
    (committed : Bool) (now : Int) :
    Rep (p.appendBatch (encodeControlBatch codec producerId producerEpoch p.highWatermark committed
      now) 1 now none).1 := by
  obtain ⟨fits, alone⟩ := encodeControlBatch_fits codec producerId producerEpoch p.highWatermark
    committed now
  exact rep.appendBatch fits (by omega) now none

def closeTxn (p : PartitionState) (producerId : Int) (committed : Bool) (firstOffset : Int) :
    PartitionState :=
  { p with
    activeTxns := p.activeTxns.filter (fun t => t.1 != producerId)
    abortedTxns :=
      if committed then p.abortedTxns else p.abortedTxns ++ [(producerId, firstOffset)] }

theorem endTxn_cases (codec : Codec) (producerId producerEpoch : Int) (committed : Bool)
    (now : Int) (p : PartitionState) :
    (p.endTxn codec producerId producerEpoch committed now).getD p = p ∨
      ∃ first, p.activeTxns.lookup producerId = some first ∧
        (p.endTxn codec producerId producerEpoch committed now).getD p =
          ((p.closeTxn producerId committed first).appendBatch
            (encodeControlBatch codec producerId producerEpoch p.highWatermark committed now) 1 now
            none).1 := by
  unfold endTxn
  cases found : p.activeTxns.lookup producerId with
  | some first => exact Or.inr ⟨first, rfl, rfl⟩
  | none =>
    simp only
    split
    · exact Or.inl rfl
    · exact Or.inl rfl

theorem Rep.closeTxn (rep : Rep p) (producerId : Int) (committed : Bool) (first : Int) :
    Rep (p.closeTxn producerId committed first) :=
  ⟨rep.fits, rep.ordered, rep.ended, rep.started, rep.segments, rep.reached, rep.bounds,
    rep.covered, rep.cleaned, fun t member => rep.opened t (List.mem_filter.mp member).1⟩

inductive LogCall where
  | produce (label : String) (expectedEpoch : Int → Option Int) (cfg : LogConfig)
      (records : Option Payload) (now : Int)
  | control (producerId producerEpoch : Int) (committed : Bool) (now : Int)
  | endTxn (producerId producerEpoch : Int) (committed : Bool) (now : Int)
  | truncateFront (newStart now : Int)
  | applyRetention (cfg : LogConfig) (now : Int)
  | compact (cfg : LogConfig) (now : Int)

def call (codec : Codec) (p : PartitionState) : LogCall → PartitionState
  | .produce label expectedEpoch cfg records now =>
    (p.produce codec label expectedEpoch cfg now records).1
  | .control producerId producerEpoch committed now =>
    (p.appendBatch (encodeControlBatch codec producerId producerEpoch p.highWatermark committed
      now) 1 now none).1
  | .endTxn producerId producerEpoch committed now =>
    (p.endTxn codec producerId producerEpoch committed now).getD p
  | .truncateFront newStart now => p.truncateFront newStart now
  | .applyRetention cfg now => (p.applyRetention cfg now).1
  | .compact cfg now => (compact codec p cfg now).1

def runCalls (codec : Codec) (p : PartitionState) (calls : List LogCall) : PartitionState :=
  calls.foldl (call codec) p

/-- Batches are as producers write them, and DeleteRecords stays at or below the high
watermark, as its handler checks. -/
def LogCall.WellSent (p : PartitionState) : LogCall → Prop
  | .produce _ _ _ records _ => ∀ b, records = some (.batch b) → b.Numbered
  | .truncateFront newStart _ => newStart ≤ p.highWatermark
  | _ => True

def keepsStart (p : PartitionState) (cfg : LogConfig) (now : Int) : Bool :=
  let latest := p.latestOffsets (p.uncleanable cfg now)
  !p.ratioDue cfg now || p.recordBatches.all (fun x =>
    !cleanable (p.uncleanable cfg now) x ||
      !(recordsOf x).any (fun r =>
        survives latest p.tombstoneHorizons now r && decide (r.offset < p.logStartOffset)) ||
      (recordsOf x).any (fun r =>
        survives latest p.tombstoneHorizons now r && decide (p.logStartOffset ≤ r.offset)))

def LogCall.KeepsStart (p : PartitionState) : LogCall → Prop
  | .compact cfg now => cfg.compact = true → (p.ensureSegment now).keepsStart cfg now = true
  | _ => True

/-- `condition` holds at each call of the run. -/
def Along (codec : Codec) (condition : PartitionState → LogCall → Prop) :
    PartitionState → List LogCall → Prop
  | _, [] => True
  | p, c :: rest => condition p c ∧ Along codec condition (p.call codec c) rest

theorem Rep.call {p : PartitionState} (rep : Rep p) (codec : Codec) {c : LogCall}
    (wellSent : c.WellSent p) : Rep (p.call codec c) := by
  cases c with
  | produce label expectedEpoch cfg records now =>
    rcases produce_cases codec label expectedEpoch cfg now records p with
      same | ⟨b, isBatch, _, _, stored⟩
    · have same : p.call codec (.produce label expectedEpoch cfg records now) = p := same
      rw [same]
      exact rep
    · have stored : p.call codec (.produce label expectedEpoch cfg records now) = _ := stored
      rw [stored]
      exact rep.storeBatch codec cfg (wellSent b isBatch) now
  | control producerId producerEpoch committed now =>
    exact rep.appendControl codec producerId producerEpoch committed now
  | endTxn producerId producerEpoch committed now =>
    rcases endTxn_cases codec producerId producerEpoch committed now p with same | ⟨first, _, ended⟩
    · simp only [PartitionState.call, same]
      exact rep
    · simp only [PartitionState.call, ended]
      exact (rep.closeTxn producerId committed first).appendControl codec producerId producerEpoch
        committed now
  | truncateFront newStart now => exact rep.truncateFront wellSent now
  | applyRetention cfg now => exact rep.applyRetention cfg now
  | compact cfg now => exact rep.compact codec cfg now

theorem runCalls_rep (codec : Codec) (calls : List LogCall) (rep : Rep p)
    (wellSent : Along codec (fun q c => c.WellSent q) p calls) : Rep (p.runCalls codec calls) := by
  induction calls generalizing p with
  | nil => exact rep
  | cons c rest ih => exact ih (rep.call codec wellSent.1) wellSent.2

def AboveStart (p : PartitionState) : Prop :=
  ∀ x, x ∈ p.recordBatches → p.logStartOffset ≤ batchLastOffset x.1 x.2

theorem AboveStart.ensureSegment (above : p.AboveStart) (now : Int) :
    (p.ensureSegment now).AboveStart := by
  simpa [AboveStart] using above

theorem AboveStart.appendBatch (above : p.AboveStart) (rep : Rep p) {batch : Batch}
    (counted : 0 ≤ batch.lastOffsetDelta) (count now : Int) (cfg : Option LogConfig) :
    (p.appendBatch batch count now cfg).1.AboveStart := by
  rw [appendBatch_eq]
  intro x member
  have started := rep.started
  simp only [ensureSegment_logStartOffset]
  rcases List.mem_append.mp member with old | new
  · exact above x old
  · rw [List.mem_singleton.mp new]
    unfold batchLastOffset
    simp only
    omega

theorem AboveStart.truncateFront (above : p.AboveStart) (newStart now : Int) :
    (p.truncateFront newStart now).AboveStart := by
  unfold PartitionState.truncateFront
  split
  · exact above
  · intro x member
    have stays := (List.mem_filter.mp member).2
    simpa using stays

theorem AboveStart.applyRetention (above : p.AboveStart) (cfg : LogConfig) (now : Int) :
    (p.applyRetention cfg now).1.AboveStart := by
  rcases p.applyRetention_cases cfg now with same | same | ⟨hi, _, same⟩
  · rw [same]
    exact above
  · rw [same]
    exact above.ensureSegment now
  · rw [same]
    exact (above.ensureSegment now).truncateFront hi now

theorem mem_clean_recordBatches (rep : Rep p) (codec : Codec) (cfg : LogConfig) (now : Int)
    {x' : Int × Batch} :
    x' ∈ (clean codec p cfg now).1.recordBatches ↔
      ∃ x, x ∈ p.recordBatches ∧
        x' ∈ cleanedBatch codec (p.latestOffsets (p.uncleanable cfg now))
          (p.uncleanable cfg now) now p.tombstoneHorizons x := by
  have written : (clean codec p cfg now).1.recordBatches = p.recordBatches.flatMap
      (cleanedBatch codec (p.latestOffsets (p.uncleanable cfg now)) (p.uncleanable cfg now) now
        p.tombstoneHorizons) :=
    (cleanBatches_spec codec _ _ cfg now rep.fits rep.ordered (fun _ _ _ _ => rfl)).1
  rw [written, List.mem_flatMap]

theorem AboveStart.clean (above : p.AboveStart) (rep : Rep p) (codec : Codec) {cfg : LogConfig}
    {now : Int} (due : p.ratioDue cfg now = true) (keeps : p.keepsStart cfg now = true) :
    (clean codec p cfg now).1.AboveStart := by
  intro x' member
  obtain ⟨x, inLog, written⟩ := (mem_clean_recordBatches rep codec cfg now).mp member
  have fits := rep.fits x inLog
  have kept := cleanedBatch_contents codec (p.latestOffsets (p.uncleanable cfg now))
    (p.uncleanable cfg now) now p.tombstoneHorizons fits
  unfold cleanedBatch at written
  have startSame : (PartitionState.clean codec p cfg now).1.logStartOffset = p.logStartOffset := rfl
  rw [startSame]
  split at written
  · rename_i rewritten
    split at written
    · rw [List.mem_singleton.mp written]
      exact above x inLog
    · obtain ⟨fits', _, same, first, rest, isKept, _⟩ :=
        reencode_spec codec fits List.filter_sublist written
      -- A survivor at or past the log start.
      have reaches : ∃ r, r ∈ (recordsOf x).filter (survives
          (p.latestOffsets (p.uncleanable cfg now)) p.tombstoneHorizons now) ∧
            p.logStartOffset ≤ r.offset := by
        by_cases early : first.offset < p.logStartOffset
        · have inKept : first ∈ (recordsOf x).filter (survives
              (p.latestOffsets (p.uncleanable cfg now)) p.tombstoneHorizons now) := by
            rw [isKept]
            exact List.mem_cons_self
          obtain ⟨inBatch, survivesFirst⟩ := List.mem_filter.mp inKept
          simp only [keepsStart, due, Bool.not_true, Bool.false_or, List.all_eq_true] at keeps
          have here := keeps x inLog
          simp only [rewritten, Bool.not_true, Bool.false_or, Bool.or_eq_true, Bool.not_eq_true',
            List.any_eq_false, List.any_eq_true, Bool.and_eq_true, decide_eq_true_eq] at here
          rcases here with none' | ⟨r, inBatch', survivesR, late⟩
          · exact (none' first inBatch ⟨survivesFirst, early⟩).elim
          · exact ⟨r, List.mem_filter.mpr ⟨inBatch', survivesR⟩, late⟩
        · refine ⟨first, ?_, by omega⟩
          rw [isKept]
          exact List.mem_cons_self
      obtain ⟨r, inKept, late⟩ := reaches
      have listed := List.mem_map_of_mem (f := Record.offset) inKept
      rw [← offsets_of_contents same] at listed
      obtain ⟨r', inNew, isOffset⟩ := List.mem_map.mp listed
      have upper := (fits'.within r' inNew).2
      omega
  · rw [List.mem_singleton.mp written]
    exact above x inLog

theorem AboveStart.call {p : PartitionState} (above : p.AboveStart) (rep : Rep p) (codec : Codec)
    {c : LogCall} (wellSent : c.WellSent p) (keeps : c.KeepsStart p) :
    (p.call codec c).AboveStart := by
  cases c with
  | produce label expectedEpoch cfg records now =>
    rcases produce_cases codec label expectedEpoch cfg now records p with
      same | ⟨b, isBatch, _, _, stored⟩
    · have same : p.call codec (.produce label expectedEpoch cfg records now) = p := same
      rw [same]
      exact above
    · have stored : p.call codec (.produce label expectedEpoch cfg records now) = _ := stored
      rw [stored]
      have noted : (p.noteProducer b).AboveStart := by simpa [AboveStart] using above
      have counted := (storedAs_fits codec cfg (wellSent b isBatch) now 0).1.counted
      exact noted.appendBatch (rep.noteProducer b) counted _ now (some cfg)
  | control producerId producerEpoch committed now =>
    obtain ⟨fits, _⟩ := encodeControlBatch_fits codec producerId producerEpoch p.highWatermark
      committed now
    exact above.appendBatch rep fits.counted 1 now none
  | endTxn producerId producerEpoch committed now =>
    rcases endTxn_cases codec producerId producerEpoch committed now p with same | ⟨first, _, ended⟩
    · simp only [PartitionState.call, same]
      exact above
    · simp only [PartitionState.call, ended]
      obtain ⟨fits, _⟩ := encodeControlBatch_fits codec producerId producerEpoch p.highWatermark
        committed now
      have closed : (p.closeTxn producerId committed first).AboveStart := above
      exact closed.appendBatch (rep.closeTxn producerId committed first) fits.counted 1 now none
  | truncateFront newStart now => exact above.truncateFront newStart now
  | applyRetention cfg now => exact above.applyRetention cfg now
  | compact cfg now =>
    simp only [PartitionState.call, PartitionState.compact]
    split
    · exact above
    · rename_i compacts
      split
      · rename_i due
        exact (above.ensureSegment now).clean (rep.ensureSegment now) codec due
          (keeps (by simpa using compacts))
      · exact above.ensureSegment now

theorem truncateFront_mono (p : PartitionState) (newStart now : Int) :
    p.logStartOffset ≤ (p.truncateFront newStart now).logStartOffset ∧
      (p.truncateFront newStart now).highWatermark = p.highWatermark := by
  unfold truncateFront
  split
  · exact ⟨le_rfl, rfl⟩
  · rename_i forward
    simp only [ensureSegment_highWatermark, and_true]
    omega

theorem call_mono (codec : Codec) (p : PartitionState) (c : LogCall) :
    p.logStartOffset ≤ (p.call codec c).logStartOffset ∧
      p.highWatermark ≤ (p.call codec c).highWatermark := by
  cases c with
  | produce label expectedEpoch cfg records now =>
    rcases produce_cases codec label expectedEpoch cfg now records p with
      same | ⟨b, isBatch, _, _, stored⟩
    · have same : p.call codec (.produce label expectedEpoch cfg records now) = _ := same
      rw [same]
      exact ⟨le_rfl, le_rfl⟩
    · have stored : p.call codec (.produce label expectedEpoch cfg records now) = _ := stored
      rw [stored, storeBatch]
      simp only [appendBatch_eq, ensureSegment_logStartOffset, noteProducer_logStartOffset,
        noteProducer_highWatermark, le_refl, true_and]
      split <;> omega
  | control producerId producerEpoch committed now =>
    simp only [call, appendBatch_eq, ensureSegment_logStartOffset, le_refl, true_and]
    omega
  | endTxn producerId producerEpoch committed now =>
    rcases endTxn_cases codec producerId producerEpoch committed now p with same | ⟨first, _, ended⟩
    · simp only [call, same]
      exact ⟨le_rfl, le_rfl⟩
    · simp only [call, ended, appendBatch_eq, ensureSegment_logStartOffset, closeTxn, le_refl,
        true_and]
      omega
  | truncateFront newStart now =>
    obtain ⟨start, high⟩ := truncateFront_mono p newStart now
    exact ⟨start, le_of_eq high.symm⟩
  | applyRetention cfg now =>
    rcases p.applyRetention_cases cfg now with same | same | ⟨hi, _, same⟩
    · simp [call, same]
    · simp [call, same]
    · simp only [call, same]
      obtain ⟨start, high⟩ := truncateFront_mono (p.ensureSegment now) hi now
      simp only [ensureSegment_logStartOffset, ensureSegment_highWatermark] at start high
      exact ⟨start, le_of_eq high.symm⟩
  | compact cfg now =>
    simp only [call, compact]
    split
    · exact ⟨le_rfl, le_rfl⟩
    · split
      · simp [clean]
      · simp

theorem runCalls_mono (codec : Codec) (calls : List LogCall) (p : PartitionState) :
    p.logStartOffset ≤ (p.runCalls codec calls).logStartOffset ∧
      p.highWatermark ≤ (p.runCalls codec calls).highWatermark := by
  induction calls generalizing p with
  | nil => exact ⟨le_rfl, le_rfl⟩
  | cons c rest ih =>
    obtain ⟨start, high⟩ := call_mono codec p c
    obtain ⟨startLater, highLater⟩ := ih (p.call codec c)
    exact ⟨le_trans start startLater, le_trans high highLater⟩

structure LogInvariant (p : PartitionState) : Prop where
  increasing : p.recordBatches.Pairwise (fun x y => x.1 < y.1)
  disjoint : p.recordBatches.Pairwise (fun x y =>
    batchLastOffset x.1 x.2 < y.1 ∨ batchLastOffset y.1 y.2 < x.1)
  ends : ∀ x, x ∈ p.recordBatches →
    p.logStartOffset ≤ batchLastOffset x.1 x.2 ∧ batchLastOffset x.1 x.2 < p.highWatermark
  start : 0 ≤ p.logStartOffset ∧ p.logStartOffset ≤ p.highWatermark
  segments : p.segments.Pairwise (fun s t => s.baseOffset < t.baseOffset)
  spans : ∀ x, x ∈ p.recordBatches → ∃! s, s ∈ p.segmentSpans ∧ s.lo ≤ x.1 ∧ x.1 < s.hi

theorem lo_of_mem_spansFrom {segments : List Segment} {s : Span}
    (member : s ∈ p.spansFrom segments) : ∃ t, t ∈ segments ∧ s.lo = t.baseOffset := by
  obtain ⟨t, inSegments, isLo, _⟩ := mem_spansFrom member
  exact ⟨t, inSegments, isLo⟩

theorem spansFrom_unique {segments : List Segment} {offset : Int}
    (ordered : segments.Pairwise (fun s t => s.baseOffset < t.baseOffset))
    (covered : ∃ s, s ∈ segments ∧ s.baseOffset ≤ offset) (below : offset < p.highWatermark) :
    ∃! s, s ∈ p.spansFrom segments ∧ s.lo ≤ offset ∧ offset < s.hi := by
  induction segments with
  | nil =>
    obtain ⟨s, member, _⟩ := covered
    cases member
  | cons segment rest ih =>
    obtain ⟨fromHead, fromRest⟩ := List.pairwise_cons.mp ordered
    have starts : segment.baseOffset ≤ offset := by
      obtain ⟨s, member, atMost⟩ := covered
      rcases List.mem_cons.mp member with same | inRest
      · rw [← same]
        exact atMost
      · have after := fromHead s inRest
        omega
    cases rest with
    | nil =>
      refine ⟨p.span segment none, ⟨List.mem_cons_self, starts, below⟩, ?_⟩
      rintro s ⟨member, _⟩
      exact List.mem_singleton.mp member
    | cons next later =>
      by_cases past : next.baseOffset ≤ offset
      · obtain ⟨s, ⟨inRest, fits⟩, unique⟩ := ih fromRest ⟨next, List.mem_cons_self, past⟩
        refine ⟨s, ⟨List.mem_cons_of_mem _ inRest, fits⟩, ?_⟩
        rintro t ⟨member, inside⟩
        rcases List.mem_cons.mp member with same | inRest'
        · subst same
          have ends : (p.span segment (some next)).hi = next.baseOffset := rfl
          have inside := inside.2
          simp only [List.head?_cons] at inside
          omega
        · exact unique t ⟨inRest', inside⟩
      · refine ⟨p.span segment (some next), ⟨List.mem_cons_self, starts, ?_⟩, ?_⟩
        · have ends : (p.span segment (some next)).hi = next.baseOffset := rfl
          omega
        · rintro t ⟨member, inside⟩
          rcases List.mem_cons.mp member with same | inRest
          · exact same
          · obtain ⟨found, inSegments, isLo⟩ := lo_of_mem_spansFrom inRest
            have after : next.baseOffset ≤ found.baseOffset := by
              rcases List.mem_cons.mp inSegments with same | later'
              · rw [same]
              · exact le_of_lt ((List.pairwise_cons.mp fromRest).1 found later')
            have inside := inside.1
            omega

theorem Rep.logInvariant (rep : Rep p) (above : p.AboveStart) :
    LogInvariant p where
  increasing := by
    refine rep.ordered.imp_of_mem ?_
    intro x y inLog _ apart
    have base := (rep.fits x inLog).base_le
    omega
  disjoint := rep.ordered.imp (fun apart => Or.inl apart)
  ends := fun x inLog => ⟨above x inLog, rep.ended x inLog⟩
  start := rep.started
  segments := rep.segments
  spans := by
    intro x inLog
    have base := (rep.fits x inLog).base_le
    have ended := rep.ended x inLog
    exact spansFrom_unique rep.segments (rep.covered x inLog) (by omega)

theorem Along.sound (codec : Codec) (calls : List LogCall) (rep : Rep p) (above : p.AboveStart)
    (along : Along codec (fun q c => c.WellSent q ∧ c.KeepsStart q) p calls) :
    Rep (p.runCalls codec calls) ∧ (p.runCalls codec calls).AboveStart := by
  induction calls generalizing p with
  | nil => exact ⟨rep, above⟩
  | cons c rest ih =>
    exact ih (rep.call codec along.1.1) (above.call rep codec along.1.1 along.1.2) along.2

/-- In every run whose cleans keep the log start, the log keeps its invariant, and the
high watermark and the log start never go back. -/
theorem runCalls_logInvariant (codec : Codec) (calls later : List LogCall)
    (along : Along codec (fun q c => c.WellSent q ∧ c.KeepsStart q) {} (calls ++ later)) :
    LogInvariant (runCalls codec {} (calls ++ later)) ∧
      (runCalls codec {} calls).highWatermark ≤
        (runCalls codec {} (calls ++ later)).highWatermark ∧
      (runCalls codec {} calls).logStartOffset ≤
        (runCalls codec {} (calls ++ later)).logStartOffset := by
  have aboveNew : AboveStart {} := fun x member => (List.not_mem_nil member).elim
  obtain ⟨rep, above⟩ := Along.sound codec (calls ++ later) rep_new aboveNew along
  have joined : runCalls codec {} (calls ++ later) =
      (runCalls codec {} calls).runCalls codec later := List.foldl_append
  obtain ⟨start, high⟩ := runCalls_mono codec later (runCalls codec {} calls)
  refine ⟨rep.logInvariant above, ?_⟩
  rw [joined]
  exact ⟨high, start⟩

def hundredBytes : Codec := ⟨fun _ => 100, fun _ => by decide⟩

def keyedBatch (records : List (Bytes × Option Bytes)) : Batch where
  len := 100
  lastOffsetDelta := records.length - 1
  entries := some (records.zipIdx.map (fun x =>
    { offsetDelta := x.2, key := some x.1.1, value := x.1.2 }))
  headed := Nat.le_of_ble_eq_true rfl

theorem keyedBatch_numbered (records : List (Bytes × Option Bytes)) (some' : records ≠ []) :
    (keyedBatch records).Numbered := by
  have positive : 0 < records.length := List.length_pos_iff.mpr some'
  constructor
  · simp only [keyedBatch]
    omega
  · intro entries found
    have isEntries : entries = records.zipIdx.map (fun x =>
        { offsetDelta := x.2, key := some x.1.1, value := x.1.2 }) := (Option.some.inj found).symm
    have count : (keyedBatch records).lastOffsetDelta.toNat + 1 = records.length := by
      simp only [keyedBatch]
      omega
    have deltas : entries.map Entry.offsetDelta = records.zipIdx.map (fun x => (x.2 : Int)) := by
      rw [isEntries, List.map_map]
      rfl
    rw [deltas, count, List.range_eq_range', ← List.zipIdx_map_snd 0 records, List.map_map]
    rfl

def eager : LogConfig :=
  { compact := true, segmentMs := 100, deleteRetentionMs := 100
    reachesDirtyRatio := fun _ _ => true }

def send (now : Int) (records : List (Bytes × Option Bytes)) : LogCall :=
  .produce "t-0" (fun _ => none) eager (some (.batch (keyedBatch records))) now

theorem send_wellSent (p : PartitionState) (now : Int) (records : List (Bytes × Option Bytes))
    (some' : records ≠ []) : (send now records).WellSent p := by
  intro b isBatch
  obtain rfl : keyedBatch records = b := by
    cases isBatch
    rfl
  exact keyedBatch_numbered records some'

/-- Keys 1 and 2 in one batch, of which the log start leaves key 2; then `key` again, and
key 3 in a new segment. -/
def cutThenWritten (key : UInt8) : List LogCall :=
  [send 0 [([1], some [1]), ([2], some [1])], .truncateFront 1 0, send 0 [([key], some [2])],
    send 300 [([3], some [1])], .compact eager 300]

theorem cutThenWritten_wellSent (key : UInt8) :
    Along hundredBytes (fun q c => c.WellSent q) {} (cutThenWritten key) := by
  have sent := fun p now records some' => send_wellSent p now records some'
  refine ⟨sent _ _ _ (by simp), ?_, sent _ _ _ (by simp), sent _ _ _ (by simp), trivial, trivial⟩
  show (1 : Int) ≤ 2
  decide

theorem runCalls_belowStart :
    ¬ ∀ (codec : Codec) (calls : List LogCall), Along codec (fun q c => c.WellSent q) {} calls →
      LogInvariant (runCalls codec {} calls) := by
  intro claimed
  have invariant := claimed hundredBytes (cutThenWritten 2) (cutThenWritten_wellSent 2)
  have start : (runCalls hundredBytes {} (cutThenWritten 2)).logStartOffset = 1 := rfl
  obtain ⟨x, rest, isFirst, isLast⟩ : ∃ x rest,
      (runCalls hundredBytes {} (cutThenWritten 2)).recordBatches = x :: rest ∧
        batchLastOffset x.1 x.2 = 0 := ⟨_, _, rfl, rfl⟩
  have ends := (invariant.ends x (by rw [isFirst]; exact List.mem_cons_self)).1
  rw [start, isLast] at ends
  omega

theorem runCalls_logInvariant_cut :
    (runCalls hundredBytes {} (cutThenWritten 1)).recordBatches.map Prod.fst = [1, 2, 3] ∧
      LogInvariant (runCalls hundredBytes {} (cutThenWritten 1)) := by
  refine ⟨rfl, (runCalls_logInvariant hundredBytes (cutThenWritten 1) [] ?_).1⟩
  obtain ⟨first, cut, second, third, compact, last⟩ := cutThenWritten_wellSent 1
  exact ⟨⟨first, trivial⟩, ⟨cut, trivial⟩, ⟨second, trivial⟩, ⟨third, trivial⟩,
    ⟨compact, fun _ => rfl⟩, last⟩

end PartitionState

end NoidaDb.Kafka
