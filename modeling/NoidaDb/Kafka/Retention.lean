/-
Retention deletes the longest prefix of segments that may go, and nothing else.
-/

import NoidaDb.Kafka.Survivors

namespace NoidaDb.Kafka

namespace PartitionState

/-- The active segment holds a batch if the log does; an empty log has one segment at most, and
all segments but the first start past the log start. -/
structure Tended (p : PartitionState) : Prop where
  active : p.recordBatches ≠ [] → ∀ s ∈ p.segments, ∃ x ∈ p.recordBatches, s.baseOffset ≤ x.1
  lone : p.recordBatches = [] → p.segments.length ≤ 1
  ahead : ∀ s ∈ p.segments.tail, p.logStartOffset < s.baseOffset
  holding : p.recordBatches ≠ [] → p.logStartOffset < p.highWatermark

theorem tended_new : Tended {} := by
  constructor <;> simp

variable {p q : PartitionState} {segments : List Segment} {cfg : LogConfig} {rest : List Span}

theorem Tended.ensureSegment (tended : Tended p) (rep : Rep p) (now : Int) :
    Tended (p.ensureSegment now) := by
  by_cases empty : p.segments.isEmpty = true
  · have noBatches : p.recordBatches = [] := by
      cases found : p.recordBatches with
      | nil => rfl
      | cons x rest =>
        obtain ⟨s, member, _⟩ := rep.covered x (by rw [found]; exact List.mem_cons_self)
        rw [List.isEmpty_iff.mp empty] at member
        cases member
    unfold PartitionState.ensureSegment
    rw [if_pos empty]
    constructor
    · intro some'
      exact absurd noBatches some'
    · intro _
      exact le_rfl
    · intro s member
      cases member
    · intro some'
      exact absurd noBatches some'
  · unfold PartitionState.ensureSegment
    rw [if_neg empty]
    exact tended

theorem Tended.appendBatch (tended : Tended p) (rep : Rep p) {batch : Batch} {count : Int}
    (positive : 0 < count) (now : Int) (cfg : Option LogConfig) :
    Tended (p.appendBatch batch count now cfg).1 := by
  rw [appendBatch_eq]
  have tended := tended.ensureSegment rep now
  have rep := rep.ensureSegment now
  simp only [← ensureSegment_recordBatches p now, ← ensureSegment_highWatermark p now]
  generalize p.ensureSegment now = q at tended rep ⊢
  have started := rep.started
  have below : ∀ s ∈ q.appendSegments batch.len now cfg, s.baseOffset ≤ q.highWatermark := by
    intro s member
    rcases q.appendSegments_cases batch.len now cfg with same | ⟨rolled, _⟩
    · rw [same] at member
      exact rep.reached s member
    · rw [rolled] at member
      rcases List.mem_append.mp member with old | new
      · exact rep.reached s old
      · rw [List.mem_singleton.mp new]
  constructor
  · intro _ s member
    exact ⟨(q.highWatermark, batch), List.mem_append_right _ List.mem_cons_self, below s member⟩
  · intro isEmpty
    simp at isEmpty
  · intro s member
    rcases q.appendSegments_cases batch.len now cfg with same | ⟨rolled, active, x, last, inLog, _⟩
    · rw [same] at member
      exact tended.ahead s member
    · have some' : q.recordBatches ≠ [] := List.ne_nil_of_mem inLog
      rw [rolled, List.tail_append_of_ne_nil (List.ne_nil_of_mem (List.mem_of_getLast? last))]
        at member
      rcases List.mem_append.mp member with old | new
      · exact tended.ahead s old
      · rw [List.mem_singleton.mp new]
        exact tended.holding some'
  · intro _
    show q.logStartOffset < q.highWatermark + count
    omega

theorem dropStale_ahead {newStart : Int} :
    ∀ s ∈ (dropStale newStart segments).tail, newStart < s.baseOffset := by
  induction segments with
  | nil => simp [dropStale]
  | cons s rest ih =>
    cases rest with
    | nil => simp [dropStale]
    | cons next later =>
      unfold dropStale
      split
      next stale => exact ih
      next fresh =>
        intro t member
        by_contra past
        apply fresh
        apply List.any_eq_true.mpr
        exact ⟨t, member, by simpa using Int.not_lt.mp past⟩

theorem Tended.truncateFront (tended : Tended p) (rep : Rep p) (newStart now : Int) :
    Tended (p.truncateFront newStart now) := by
  unfold PartitionState.truncateFront
  split
  next behind => exact tended
  next ahead =>
    have tended := tended.ensureSegment rep now
    have rep := rep.ensureSegment now
    generalize p.ensureSegment now = q at tended rep ⊢
    simp only
    split
    next isEmpty =>
      have noneKept := List.isEmpty_iff.mp isEmpty
      constructor
      · intro some'
        exact absurd noneKept some'
      · intro _
        exact le_rfl
      · intro s member
        cases member
      · intro some'
        exact absurd noneKept some'
    next someKept =>
      have notNil := (not_congr List.isEmpty_iff).mp someKept
      obtain ⟨y, isKept⟩ := List.exists_mem_of_ne_nil _ notNil
      obtain ⟨inLog, reaches⟩ := List.mem_filter.mp isKept
      have reaches : newStart ≤ batchLastOffset y.1 y.2 := of_decide_eq_true reaches
      constructor
      · intro _ s member
        have inSegments := (dropStale_suffix newStart q.segments).subset member
        obtain ⟨x, inLog', above⟩ := tended.active (List.ne_nil_of_mem inLog) s inSegments
        -- The later of the two batches stays.
        by_cases late : s.baseOffset ≤ y.1
        · exact ⟨y, isKept, late⟩
        · have apart : batchLastOffset y.1 y.2 < x.1 := by
            have before : y.1 < x.1 := by omega
            exact rep.ends_before inLog inLog' before
          have base := (rep.fits x inLog').base_le
          refine ⟨x, List.mem_filter.mpr ⟨inLog', ?_⟩, above⟩
          apply decide_eq_true
          omega
      · intro isEmpty
        exact absurd isEmpty notNil
      · exact dropStale_ahead
      · intro _
        have ended := rep.ended y inLog
        show newStart < q.highWatermark
        omega

theorem Tended.applyRetention (tended : Tended p) (rep : Rep p) (cfg : LogConfig) (now : Int) :
    Tended (p.applyRetention cfg now).1 := by
  rcases p.applyRetention_cases cfg now with same | same | ⟨hi, _, same⟩
  · rw [same]
    exact tended
  · rw [same]
    exact tended.ensureSegment rep now
  · rw [same]
    exact (tended.ensureSegment rep now).truncateFront (rep.ensureSegment now) hi now

theorem Tended.clean (tended : Tended p) (rep : Rep p) (some' : p.segments ≠ []) (codec : Codec)
    (cfg : LogConfig) (now : Int) : Tended (clean codec p cfg now).1 := by
  have sublist := keepSegments_sublist (PartitionState.clean codec p cfg now).1.recordBatches
    p.segments
  have fromLog {x' : Int × Batch} (member : x' ∈ (PartitionState.clean codec p cfg now).1.recordBatches) :
      p.recordBatches ≠ [] := by
    obtain ⟨x, inLog, _⟩ := (mem_clean_recordBatches rep codec cfg now).mp member
    exact List.ne_nil_of_mem inLog
  obtain ⟨active, last⟩ : ∃ active, p.segments.getLast? = some active := by
    rw [← Option.isSome_iff_exists, List.getLast?_isSome]
    exact some'
  -- A batch of the active segment is not cleaned.
  have stays (holds : p.recordBatches ≠ []) :
      ∃ x ∈ (PartitionState.clean codec p cfg now).1.recordBatches, active.baseOffset ≤ x.1 := by
    obtain ⟨x, inLog, above⟩ := tended.active holds active (List.mem_of_getLast? last)
    have limit := uncleanable_le_active last cfg now
    refine ⟨x, (mem_clean_recordBatches rep codec cfg now).mpr ⟨x, inLog, ?_⟩, above⟩
    have notCleanable : cleanable (p.uncleanable cfg now) x = false := by
      unfold cleanable
      simp only [Bool.and_eq_false_iff, decide_eq_false_iff_not]
      left
      omega
    unfold cleanedBatch
    rw [notCleanable]
    exact List.mem_cons_self
  constructor
  · intro holds s member
    obtain ⟨y, isKept⟩ := List.exists_mem_of_ne_nil _ holds
    obtain ⟨x, inLog, above⟩ := stays (fromLog isKept)
    have upTo := le_getLast rep.segments last (sublist.subset member)
    exact ⟨x, inLog, by omega⟩
  · intro isEmpty
    by_cases holds : p.recordBatches = []
    · exact le_trans sublist.length_le (tended.lone holds)
    · obtain ⟨x, inLog, _⟩ := stays holds
      rw [isEmpty] at inLog
      cases inLog
  · intro s member
    exact tended.ahead s (sublist.tail.subset member)
  · intro holds
    obtain ⟨y, isKept⟩ := List.exists_mem_of_ne_nil _ holds
    exact tended.holding (fromLog isKept)

theorem Tended.compact (tended : Tended p) (rep : Rep p) (codec : Codec) (cfg : LogConfig)
    (now : Int) : Tended (compact codec p cfg now).1 := by
  unfold PartitionState.compact
  split
  · exact tended
  · simp only
    split
    · exact (tended.ensureSegment rep now).clean (rep.ensureSegment now)
        (ensureSegment_nonempty p now) codec cfg now
    · exact tended.ensureSegment rep now

theorem Tended.noteProducer (tended : Tended p) (b : Batch) : Tended (p.noteProducer b) := by
  obtain ⟨seqs, txns, noted⟩ := p.noteProducer_only b
  rw [noted]
  exact ⟨tended.active, tended.lone, tended.ahead, tended.holding⟩

theorem Tended.closeTxn (tended : Tended p) (producerId : Int) (committed : Bool) (first : Int) :
    Tended (p.closeTxn producerId committed first) :=
  ⟨tended.active, tended.lone, tended.ahead, tended.holding⟩

theorem Tended.call {p : PartitionState} (tended : Tended p) (rep : Rep p) (codec : Codec)
    {c : LogCall} (wellSent : c.WellSent p) : Tended (p.call codec c) := by
  cases c with
  | produce label expectedEpoch cfg records now =>
    rcases produce_cases codec label expectedEpoch cfg now records p with
      same | ⟨b, isBatch, _, _, stored⟩
    · have same : p.call codec (.produce label expectedEpoch cfg records now) = p := same
      rw [same]
      exact tended
    · have stored : p.call codec (.produce label expectedEpoch cfg records now) = _ := stored
      have counted := (wellSent b isBatch).counted
      rw [stored]
      unfold PartitionState.storeBatch
      simp only [if_pos counted]
      exact (tended.noteProducer b).appendBatch (rep.noteProducer b) (by omega) now (some cfg)
  | control producerId producerEpoch committed now =>
    exact tended.appendBatch rep Int.one_pos now none
  | endTxn producerId producerEpoch committed now =>
    rcases endTxn_cases codec producerId producerEpoch committed now p with same | ⟨first, _, ended⟩
    · simp only [PartitionState.call, same]
      exact tended
    · simp only [PartitionState.call, ended]
      exact (tended.closeTxn producerId committed first).appendBatch
        (rep.closeTxn producerId committed first) Int.one_pos now none
  | truncateFront newStart now => exact tended.truncateFront rep newStart now
  | applyRetention cfg now => exact tended.applyRetention rep cfg now
  | compact cfg now => exact tended.compact rep codec cfg now

theorem runCalls_tended (codec : Codec) (calls : List LogCall) (tended : Tended p) (rep : Rep p)
    (wellSent : Along codec (fun p c => c.WellSent p) p calls) :
    Tended (runCalls codec p calls) := by
  induction calls generalizing p with
  | nil => exact tended
  | cons c calls ih =>
    exact ih (tended.call rep codec wellSent.1) (rep.call codec wellSent.1) wellSent.2

def sizeOf (spans : List Span) : Int := (spans.map Span.size).sum

/-- May the segment go when these come after it? By its newest timestamp, or because enough is left
without it; an active segment that holds nothing may not. -/
def Deletable (cfg : LogConfig) (now : Int) (bytes : Int) (s : Span) (later : List Span) : Prop :=
  ¬(s.size = 0 ∧ later = []) ∧
    (0 ≤ cfg.retentionMs ∧ (s.size = 0 ∨ cfg.retentionMs < now - s.maxTs) ∨
      0 ≤ cfg.retentionBytes ∧ cfg.retentionBytes ≤ bytes - s.size)

structure LongestPrefix (cfg : LogConfig) (now : Int) (bytes : Int) (gone rest : List Span) :
    Prop where
  each : ∀ before s after, gone = before ++ s :: after →
    Deletable cfg now (bytes - sizeOf before) s (after ++ rest)
  longest : ∀ s after, rest = s :: after → ¬Deletable cfg now (bytes - sizeOf gone) s after

theorem retentionUpto_of_not {now bytes : Int}
    (longest : ∀ s after, rest = s :: after → ¬Deletable cfg now bytes s after)
    (upto : Option Int) : retentionUpto cfg now rest (bytes - cfg.retentionBytes) upto = upto := by
  cases rest with
  | nil => rfl
  | cons s after =>
    have stops := longest s after rfl
    unfold retentionUpto
    by_cases isActive : s.size = 0 ∧ after = []
    · rw [if_pos isActive]
    · rw [if_neg isActive]
      apply if_neg
      intro goes
      apply stops
      refine ⟨isActive, ?_⟩
      simp only [Bool.or_eq_true, Bool.and_eq_true, decide_eq_true_eq] at goes
      rcases goes with byTime | bySize
      · exact Or.inl byTime
      · exact Or.inr ⟨bySize.1, by omega⟩

theorem retentionUpto_of_deletable {now bytes : Int} {s : Span} {later : List Span}
    (deletable : Deletable cfg now bytes s later) (upto : Option Int) :
    retentionUpto cfg now (s :: later) (bytes - cfg.retentionBytes) upto =
      retentionUpto cfg now later (bytes - s.size - cfg.retentionBytes) (some s.hi) := by
  obtain ⟨notActive, goes⟩ := deletable
  have same : bytes - cfg.retentionBytes - s.size = bytes - s.size - cfg.retentionBytes := by omega
  rw [retentionUpto, if_neg notActive, same]
  apply if_pos
  simp only [Bool.or_eq_true, Bool.and_eq_true, decide_eq_true_eq]
  rcases goes with byTime | bySize
  · exact Or.inl byTime
  · exact Or.inr ⟨bySize.1, by omega⟩

theorem retentionUpto_prefix (cfg : LogConfig) (now bytes : Int) (spans : List Span)
    (upto : Option Int) :
    ∃ gone rest, spans = gone ++ rest ∧ LongestPrefix cfg now bytes gone rest ∧
      retentionUpto cfg now spans (bytes - cfg.retentionBytes) upto =
        (gone.getLast?.map Span.hi).or upto := by
  induction spans generalizing bytes upto with
  | nil =>
    refine ⟨[], [], rfl, ⟨?_, ?_⟩, by rfl⟩
    · intro before s after isNil
      simp at isNil
    · intro s after isNil
      cases isNil
  | cons s later ih =>
    by_cases deletable : Deletable cfg now bytes s later
    · obtain ⟨gone, rest, isSplit, isLongest, isEnd⟩ := ih (bytes - s.size) (some s.hi)
      refine ⟨s :: gone, rest, by rw [isSplit]; rfl, ⟨?_, ?_⟩, ?_⟩
      · intro before t after isAt
        cases before with
        | nil =>
          cases isAt
          rw [← isSplit]
          simpa [sizeOf] using deletable
        | cons u before =>
          obtain ⟨rfl, isAt'⟩ := List.cons.inj isAt
          have here := isLongest.each before t after isAt'
          have same : bytes - sizeOf (s :: before) = bytes - s.size - sizeOf before := by
            simp only [sizeOf, List.map_cons, List.sum_cons]
            omega
          rw [same]
          exact here
      · intro t after isAt
        have here := isLongest.longest t after isAt
        have same : bytes - sizeOf (s :: gone) = bytes - s.size - sizeOf gone := by
          simp only [sizeOf, List.map_cons, List.sum_cons]
          omega
        rw [same]
        exact here
      · rw [retentionUpto_of_deletable deletable, isEnd]
        cases gone with
        | nil => rfl
        | cons t gone =>
          rw [List.getLast?_cons_cons]
          cases isLast : (t :: gone).getLast? with
          | none => simp at isLast
          | some u => rfl
    · refine ⟨[], s :: later, rfl, ⟨?_, ?_⟩, ?_⟩
      · intro before t after isNil
        simp at isNil
      · intro t after isAt
        cases isAt
        simpa [sizeOf] using deletable
      · apply retentionUpto_of_not
        intro t after isAt
        cases isAt
        exact deletable

theorem spansFrom_split {gone : List Span} (isSplit : p.spansFrom segments = gone ++ rest) :
    ∃ gs rs, segments = gs ++ rs ∧ gs.length = gone.length ∧ p.spansFrom rs = rest ∧
      ∀ s, gone.getLast? = some s →
        s.hi = ((rs.head?.map Segment.baseOffset).getD p.highWatermark) := by
  induction gone generalizing segments with
  | nil =>
    refine ⟨[], segments, rfl, rfl, isSplit, ?_⟩
    intro s isLast
    cases isLast
  | cons t gone ih =>
    cases segments with
    | nil => cases isSplit
    | cons g segments =>
      obtain ⟨isFirst, isLater⟩ := List.cons.inj isSplit
      obtain ⟨gs, rs, same, isLength, isRest, isHi⟩ := ih isLater
      refine ⟨g :: gs, rs, by rw [same]; rfl, by simp [isLength], isRest, ?_⟩
      intro s isLast
      cases gone with
      | nil =>
        cases gs with
        | nil =>
          rw [List.getLast?_singleton, Option.some.injEq] at isLast
          rw [← isLast, ← isFirst, same]
          rfl
        | cons _ _ => cases isLength
      | cons u gone =>
        rw [List.getLast?_cons_cons] at isLast
        exact isHi s isLast

theorem totalLen_filter_add (f : Int × Batch → Bool) (xs : List (Int × Batch)) :
    totalLen xs = totalLen (xs.filter f) + totalLen (xs.filter (fun x => !f x)) := by
  induction xs with
  | nil => rfl
  | cons x xs ih =>
    cases isIn : f x
    · simp [isIn, totalLen] at ih ⊢
      omega
    · simp [isIn, totalLen] at ih ⊢
      omega

def bytesFrom (p : PartitionState) (segments : List Segment) : Int :=
  match segments.head? with
  | none => 0
  | some s => totalLen (p.recordBatches.filter (fun x => decide (s.baseOffset ≤ x.1)))

theorem bytesFrom_cons {s : Segment} (increasing : ∀ t ∈ segments, s.baseOffset < t.baseOffset) :
    p.bytesFrom (s :: segments) = (p.span s segments.head?).size + p.bytesFrom segments := by
  cases segments with
  | nil => simp [bytesFrom, span, inSegment]
  | cons t segments =>
    have above := increasing t List.mem_cons_self
    have splits := totalLen_filter_add (fun x => decide (x.1 < t.baseOffset))
      (p.recordBatches.filter (fun x => decide (s.baseOffset ≤ x.1)))
    rw [List.filter_filter, List.filter_filter] at splits
    show totalLen _ = totalLen _ + totalLen _
    rw [splits]
    congr 2
    · apply List.filter_congr
      intro x _
      simp [Bool.and_comm]
    · apply List.filter_congr
      intro x _
      rw [Bool.eq_iff_iff]
      simp
      omega

theorem bytesFrom_spans {gs rs : List Segment} {gone : List Span}
    (increasing : (gs ++ rs).Pairwise (fun s t => s.baseOffset < t.baseOffset))
    (isSplit : p.spansFrom (gs ++ rs) = gone ++ rest) (isLength : gs.length = gone.length) :
    p.bytesFrom (gs ++ rs) = sizeOf gone + p.bytesFrom rs := by
  induction gs generalizing gone with
  | nil =>
    cases gone with
    | nil => simp [sizeOf]
    | cons _ _ => cases isLength
  | cons g gs ih =>
    cases gone with
    | nil => cases isLength
    | cons s gone =>
      obtain ⟨fromHead, fromRest⟩ := List.pairwise_cons.mp increasing
      obtain ⟨isFirst, isLater⟩ := List.cons.inj isSplit
      have isFirst : p.span g (gs ++ rs).head? = s := isFirst
      have later : p.bytesFrom (gs ++ rs) = sizeOf gone + p.bytesFrom rs :=
        ih fromRest isLater (Nat.succ.inj isLength)
      have fromHead : ∀ t ∈ gs ++ rs, g.baseOffset < t.baseOffset := fromHead
      rw [List.cons_append, bytesFrom_cons fromHead, later, isFirst]
      simp only [sizeOf, List.map_cons, List.sum_cons]
      omega

theorem Rep.bytesFrom_all (rep : Rep p) (some' : p.segments ≠ []) :
    p.bytesFrom p.segments = p.sizeBytes := by
  cases isSegments : p.segments with
  | nil => exact absurd isSegments some'
  | cons s segments =>
    have increasing := rep.segments
    rw [isSegments] at increasing
    have all : p.recordBatches.filter (fun x => decide (s.baseOffset ≤ x.1)) = p.recordBatches := by
      apply List.filter_eq_self.mpr
      intro x inLog
      obtain ⟨t, inSegments, below⟩ := rep.covered x inLog
      apply decide_eq_true
      rw [isSegments] at inSegments
      rcases List.mem_cons.mp inSegments with same | later
      · rw [← same]
        exact below
      · have above := List.rel_of_pairwise_cons increasing later
        omega
    show totalLen _ = totalLen _
    rw [all]

theorem spansFrom_congr (sameHigh : p.highWatermark = q.highWatermark)
    (sameBatches : ∀ s ∈ segments, p.recordBatches.filter (fun x => decide (s.baseOffset ≤ x.1))
      = q.recordBatches.filter (fun x => decide (s.baseOffset ≤ x.1))) :
    p.spansFrom segments = q.spansFrom segments := by
  induction segments with
  | nil => rfl
  | cons s segments ih =>
    obtain ⟨first, later⟩ := List.forall_mem_cons.mp sameBatches
    have sameIn : p.inSegment s segments.head? = q.inSegment s segments.head? := by
      have filtered (batches : List (Int × Batch)) :
          batches.filter (fun x => decide (s.baseOffset ≤ x.1) &&
            segments.head?.all (fun n => decide (x.1 < n.baseOffset)))
          = (batches.filter (fun x => decide (s.baseOffset ≤ x.1))).filter (fun x =>
            segments.head?.all (fun n => decide (x.1 < n.baseOffset))) := by
        rw [List.filter_filter]
        apply List.filter_congr
        intro x _
        exact Bool.and_comm _ _
      unfold inSegment
      rw [filtered, filtered, first]
    rw [spansFrom, spansFrom, ih later]
    congr 1
    unfold span
    rw [sameIn, sameHigh]

theorem dropStale_eq {newStart : Int} {gs rs : List Segment} {r : Segment}
    (increasing : (gs ++ r :: rs).Pairwise (fun s t => s.baseOffset < t.baseOffset))
    (isStart : r.baseOffset = newStart) : dropStale newStart (gs ++ r :: rs) = r :: rs := by
  induction gs with
  | nil =>
    have fromHead := (List.pairwise_cons.mp increasing).1
    cases rs with
    | nil => rfl
    | cons t rs =>
      rw [List.nil_append, dropStale]
      apply if_neg
      intro stale
      obtain ⟨u, member, past⟩ := List.any_eq_true.mp stale
      have above := fromHead u member
      have past := of_decide_eq_true past
      omega
  | cons g gs ih =>
    have later := ih (List.pairwise_cons.mp increasing).2
    cases isRest : gs ++ r :: rs with
    | nil => simp at isRest
    | cons t more =>
      rw [List.cons_append, isRest, dropStale, ← isRest, later]
      apply if_pos
      apply List.any_eq_true.mpr
      exact ⟨r, List.mem_append_right _ List.mem_cons_self, decide_eq_true (le_of_eq isStart)⟩

structure DeletedUpTo (p q : PartitionState) (cut : Int) : Prop where
  logStart : q.logStartOffset = cut
  batches : q.recordBatches = p.recordBatches.filter (fun x => decide (cut ≤ x.1))
  highWatermark : q.highWatermark = p.highWatermark
  producerSeqs : q.producerSeqs = p.producerSeqs
  activeTxns : q.activeTxns = p.activeTxns
  abortedTxns : q.abortedTxns = p.abortedTxns.filter (fun x => decide (cut ≤ x.2))
  horizons : ∀ offset, cut ≤ offset → q.tombstoneHorizons offset = p.tombstoneHorizons offset
  cleaned : q.cleanOffset = max p.cleanOffset cut

/-- Retention, exactly: of the segments `gs ++ rs` it deletes `gs`. -/
structure RetentionExact (p : PartitionState) (cfg : LogConfig) (now : Int) (gs rs : List Segment)
    (gone rest : List Span) : Prop where
  segments : (p.ensureSegment now).segments = gs ++ rs
  spans : (p.ensureSegment now).segmentSpans = gone ++ rest
  counted : gs.length = gone.length
  prefixed : LongestPrefix cfg now p.sizeBytes gone rest
  untouched : gone = [] → (p.applyRetention cfg now).1 = p ∨
    (p.applyRetention cfg now).1 = p.ensureSegment now
  deleted : ∀ s, gone.getLast? = some s →
    p.logStartOffset < s.hi ∧ DeletedUpTo p (p.applyRetention cfg now).1 s.hi
  left : gone ≠ [] → rs ≠ [] → (p.applyRetention cfg now).1.segments = rs
  rolled : gone ≠ [] → rs = [] → (p.applyRetention cfg now).1.segments =
    [{ baseOffset := p.highWatermark, createdMs := now }]
  bytes : (p.applyRetention cfg now).1.sizeBytes = p.sizeBytes - sizeOf gone
  enough : ∀ s, gone.getLast? = some s →
    ¬(0 ≤ cfg.retentionMs ∧ (s.size = 0 ∨ cfg.retentionMs < now - s.maxTs)) →
    cfg.retentionBytes ≤ (p.applyRetention cfg now).1.sizeBytes
  again : (p.applyRetention cfg now).1.applyRetention cfg now = ((p.applyRetention cfg now).1, false)

theorem ensureSegment_of_nonempty (some' : p.segments ≠ []) (now : Int) :
    p.ensureSegment now = p := by
  unfold ensureSegment
  rw [if_neg]
  rw [List.isEmpty_iff]
  exact some'

theorem applyRetention_of_not (some' : q.segments ≠ []) {now : Int}
    (longest : ∀ s after, q.segmentSpans = s :: after → ¬Deletable cfg now q.sizeBytes s after) :
    q.applyRetention cfg now = (q, false) := by
  unfold applyRetention
  split
  next off => rfl
  next on =>
    simp only [ensureSegment_of_nonempty some']
    rw [retentionUpto_of_not longest]

theorem not_deletable_fresh {s : Segment} (isLone : q.segments = [s])
    (noBatches : q.recordBatches = []) (cfg : LogConfig) (now bytes : Int) :
    ∀ t after, q.segmentSpans = t :: after → ¬Deletable cfg now bytes t after := by
  intro t after isSpans deletable
  unfold segmentSpans at isSpans
  rw [isLone] at isSpans
  cases isSpans
  apply deletable.1
  refine ⟨?_, rfl⟩
  simp [span, inSegment, noBatches, totalLen]

section Call

variable {q : PartitionState} {cfg : LogConfig} {now : Int} {gs rs : List Segment}
  {gone rest : List Span} {s : Span}

theorem Rep.prefix_end (rep : Rep q) (tended : Tended q) (isSegments : q.segments = gs ++ rs)
    (isSpans : q.segmentSpans = gone ++ rest) (isLength : gs.length = gone.length)
    (isRest : q.spansFrom rs = rest)
    (isHi : s.hi = (rs.head?.map Segment.baseOffset).getD q.highWatermark)
    (deletable : ∃ before bytes, gone = before ++ [s] ∧ Deletable cfg now bytes s rest) :
    q.logStartOffset < s.hi ∧ Boundary q.recordBatches s.hi ∧ s.hi ≤ q.highWatermark := by
  obtain ⟨before, bytes, isGone, notActive, _⟩ := deletable
  cases rs with
  | nil =>
    have isHigh : s.hi = q.highWatermark := isHi
    rw [isHigh]
    refine ⟨?_, fun x inLog => Or.inr (rep.ended x inLog), le_rfl⟩
    apply tended.holding
    intro noBatches
    apply notActive
    rw [← isRest]
    refine ⟨?_, rfl⟩
    have member : s ∈ q.segmentSpans := by
      rw [isSpans, isGone]
      simp
    -- A span of an empty log has no bytes.
    have noBytes : ∀ (segments : List Segment), ∀ t ∈ q.spansFrom segments, t.size = 0 := by
      intro segments
      induction segments with
      | nil => simp [spansFrom]
      | cons g segments ih =>
        intro t inSpans
        rcases List.mem_cons.mp inSpans with same | later
        · rw [same]
          simp [span, inSegment, noBatches, totalLen]
        · exact ih t later
    exact noBytes q.segments s member
  | cons r rs =>
    have isBase : s.hi = r.baseOffset := isHi
    have inSegments : r ∈ q.segments := by
      rw [isSegments]
      exact List.mem_append_right _ List.mem_cons_self
    rw [isBase]
    refine ⟨?_, rep.bounds r inSegments, rep.reached r inSegments⟩
    apply tended.ahead
    rw [isSegments]
    cases gs with
    | nil =>
      rw [isGone] at isLength
      simp at isLength
    | cons g gs =>
      rw [List.cons_append, List.tail_cons]
      exact List.mem_append_right _ List.mem_cons_self

variable {cut : Int}

theorem filter_boundary (rep : Rep q) (boundary : Boundary q.recordBatches cut) :
    q.recordBatches.filter (fun x => decide (cut ≤ batchLastOffset x.1 x.2))
      = q.recordBatches.filter (fun x => decide (cut ≤ x.1)) := by
  apply List.filter_congr
  intro x inLog
  have base := (rep.fits x inLog).base_le
  rw [Bool.eq_iff_iff]
  simp only [decide_eq_true_eq]
  rcases boundary x inLog with above | below <;> omega

theorem kept_isEmpty (rep : Rep q) (tended : Tended q) (isSegments : q.segments = gs ++ rs)
    (some' : gs ≠ []) (isHi : s.hi = (rs.head?.map Segment.baseOffset).getD q.highWatermark) :
    q.recordBatches.filter (fun x => decide (s.hi ≤ x.1)) = [] ↔ rs = [] := by
  cases rs with
  | nil =>
    have isHigh : s.hi = q.highWatermark := isHi
    apply iff_of_true _ rfl
    apply List.filter_eq_nil_iff.mpr
    intro x inLog
    have base := (rep.fits x inLog).base_le
    have ended := rep.ended x inLog
    simp only [decide_eq_true_eq]
    omega
  | cons r rs =>
    have isBase : s.hi = r.baseOffset := isHi
    apply iff_of_false _ (List.cons_ne_nil r rs)
    have holds : q.recordBatches ≠ [] := by
      intro noBatches
      have atMost := tended.lone noBatches
      have atLeast := List.length_pos_of_ne_nil some'
      rw [isSegments, List.length_append, List.length_cons] at atMost
      omega
    obtain ⟨x, inLog, above⟩ := tended.active holds r (by
      rw [isSegments]
      exact List.mem_append_right _ List.mem_cons_self)
    rw [isBase]
    exact List.ne_nil_of_mem (List.mem_filter.mpr ⟨inLog, decide_eq_true above⟩)

theorem DeletedUpTo.ensured {p q : PartitionState} {now : Int}
    (deleted : DeletedUpTo (p.ensureSegment now) q cut) : DeletedUpTo p q cut := by
  unfold PartitionState.ensureSegment at deleted
  split at deleted
  · exact ⟨deleted.logStart, deleted.batches, deleted.highWatermark, deleted.producerSeqs,
      deleted.activeTxns, deleted.abortedTxns, deleted.horizons, deleted.cleaned⟩
  · exact deleted

theorem Rep.truncateFront_deleted (rep : Rep q) (some' : q.segments ≠ [])
    (ahead : q.logStartOffset < cut) (boundary : Boundary q.recordBatches cut) :
    DeletedUpTo q (q.truncateFront cut now) cut := by
  have filtered := filter_boundary rep boundary
  unfold PartitionState.truncateFront
  rw [if_neg (Int.not_le.mpr ahead), ensureSegment_of_nonempty some']
  constructor
  · rfl
  · exact filtered
  · rfl
  · rfl
  · rfl
  · rfl
  · intro offset reaches
    exact if_pos reaches
  · rfl

theorem Rep.truncateFront_left (rep : Rep q) (tended : Tended q) {r : Segment}
    (isSegments : q.segments = gs ++ r :: rs) (onePrefix : gs ≠ []) (isHi : s.hi = r.baseOffset)
    (ahead : q.logStartOffset < s.hi) (boundary : Boundary q.recordBatches s.hi) :
    (q.truncateFront s.hi now).segments = r :: rs := by
  have some' : q.segments ≠ [] := by
    rw [isSegments]
    simp
  have isEmpty := kept_isEmpty rep tended isSegments onePrefix isHi
  have increasing := rep.segments
  rw [isSegments] at increasing
  unfold PartitionState.truncateFront
  rw [if_neg (Int.not_le.mpr ahead), ensureSegment_of_nonempty some']
  simp only [filter_boundary rep boundary]
  have someKept : ¬(q.recordBatches.filter (fun x => decide (s.hi ≤ x.1))).isEmpty = true := by
    rw [List.isEmpty_iff, isEmpty]
    simp
  simp only [if_neg someKept]
  rw [isSegments]
  exact dropStale_eq increasing isHi.symm

theorem Rep.truncateFront_rolled (rep : Rep q) (tended : Tended q) (isSegments : q.segments = gs)
    (onePrefix : gs ≠ []) (isHi : s.hi = q.highWatermark) (ahead : q.logStartOffset < s.hi)
    (boundary : Boundary q.recordBatches s.hi) :
    (q.truncateFront s.hi now).recordBatches = [] ∧
      (q.truncateFront s.hi now).segments = [{ baseOffset := q.highWatermark, createdMs := now }] := by
  have some' : q.segments ≠ [] := by
    rw [isSegments]
    exact onePrefix
  have isEmpty : q.recordBatches.filter (fun x => decide (s.hi ≤ x.1)) = [] := by
    apply (kept_isEmpty rep tended _ onePrefix isHi).mpr rfl
    simpa using isSegments
  unfold PartitionState.truncateFront
  rw [if_neg (Int.not_le.mpr ahead), ensureSegment_of_nonempty some']
  simp only [filter_boundary rep boundary, isEmpty]
  rw [isHi]
  exact ⟨trivial, if_pos rfl⟩

theorem DeletedUpTo.sizeBytes {r : PartitionState} (deleted : DeletedUpTo q r s.hi) (rep : Rep q)
    (some' : q.segments ≠ []) (tended : Tended q) (isSegments : q.segments = gs ++ rs)
    (isSpans : q.segmentSpans = gone ++ rest) (isLength : gs.length = gone.length)
    (onePrefix : gs ≠ []) (isHi : s.hi = (rs.head?.map Segment.baseOffset).getD q.highWatermark) :
    r.sizeBytes = q.sizeBytes - sizeOf gone := by
  have increasing := rep.segments
  rw [isSegments] at increasing
  unfold segmentSpans at isSpans
  rw [isSegments] at isSpans
  have counted := bytesFrom_spans increasing isSpans isLength
  have all := rep.bytesFrom_all some'
  rw [isSegments] at all
  have kept : r.sizeBytes = q.bytesFrom rs := by
    have isEmpty := kept_isEmpty rep tended isSegments onePrefix isHi
    show totalLen r.recordBatches = _
    rw [deleted.batches]
    cases rs with
    | nil =>
      rw [isEmpty.mpr rfl]
      rfl
    | cons t rs =>
      have isBase : s.hi = t.baseOffset := isHi
      rw [isBase]
      rfl
  omega

end Call

theorem Rep.retentionExact (rep : Rep p) (tended : Tended p) (deletes : cfg.delete = true)
    (now : Int) : ∃ gs rs gone rest, RetentionExact p cfg now gs rs gone rest := by
  have rep' := rep.ensureSegment now
  have tended' := tended.ensureSegment rep now
  have some' := ensureSegment_nonempty p now
  have sameBytes : (p.ensureSegment now).sizeBytes = p.sizeBytes := by
    unfold sizeBytes
    rw [ensureSegment_recordBatches]
  obtain ⟨gone, rest, isSpans, isLongest, isEnd⟩ :=
    retentionUpto_prefix cfg now p.sizeBytes (p.ensureSegment now).segmentSpans none
  obtain ⟨gs, rs, isSegments, isLength, isRest, isHi⟩ := spansFrom_split isSpans
  have increasing := rep'.segments
  rw [isSegments] at increasing
  refine ⟨gs, rs, gone, rest, ?_⟩
  cases isLast : gone.getLast? with
  | none =>
    have isNil := List.getLast?_eq_none_iff.mp isLast
    subst isNil
    have noneGoes : ∀ s after, (p.ensureSegment now).segmentSpans = s :: after →
        ¬Deletable cfg now (p.ensureSegment now).sizeBytes s after := by
      intro s after isCons
      rw [isSpans] at isCons
      have here := isLongest.longest s after isCons
      rw [sameBytes]
      simpa [sizeOf] using here
    have after : (p.applyRetention cfg now).1 = p ∨
        (p.applyRetention cfg now).1 = p.ensureSegment now := by
      unfold PartitionState.applyRetention
      split
      · exact Or.inl rfl
      · right
        simp only [← sameBytes] at isEnd ⊢
        rw [isEnd]
        rfl
    have again : (p.applyRetention cfg now).1.applyRetention cfg now
        = ((p.applyRetention cfg now).1, false) := by
      by_cases off : (!cfg.delete || (decide (cfg.retentionMs < 0)
          && decide (cfg.retentionBytes < 0))) = true
      · unfold PartitionState.applyRetention
        rw [if_pos off, if_pos off]
      · have isEnsured : (p.applyRetention cfg now).1 = p.ensureSegment now := by
          unfold PartitionState.applyRetention
          rw [if_neg off]
          simp only [← sameBytes] at isEnd ⊢
          rw [isEnd]
          rfl
        rw [isEnsured]
        exact applyRetention_of_not some' noneGoes
    constructor
    · exact isSegments
    · exact isSpans
    · exact isLength
    · exact isLongest
    · exact fun _ => after
    · intro s isLast
      cases isLast
    · intro notNil
      exact absurd rfl notNil
    · intro notNil
      exact absurd rfl notNil
    · rcases after with same | same <;> rw [same]
      · simp [sizeOf]
      · rw [sameBytes]
        simp [sizeOf]
    · intro s isLast
      cases isLast
    · exact again
  | some s =>
    have hiAt := isHi s isLast
    obtain ⟨before, isGone⟩ := List.getLast?_eq_some_iff.mp isLast
    have deletable := isLongest.each before s [] isGone
    obtain ⟨ahead, boundary, upper⟩ := rep'.prefix_end tended' isSegments isSpans isLength isRest
      hiAt ⟨before, _, isGone, deletable⟩
    have onePrefix : gs ≠ [] := by
      intro isNil
      rw [isNil, isGone] at isLength
      simp at isLength
    have isOn : ¬(!cfg.delete || (decide (cfg.retentionMs < 0)
        && decide (cfg.retentionBytes < 0))) = true := by
      simp only [deletes, Bool.not_true, Bool.false_or, Bool.and_eq_true, decide_eq_true_eq]
      rcases deletable.2 with byTime | bySize <;> omega
    have isResult : (p.applyRetention cfg now).1 = (p.ensureSegment now).truncateFront s.hi now := by
      unfold PartitionState.applyRetention
      rw [if_neg isOn]
      simp only [← sameBytes] at isEnd ⊢
      rw [isEnd, isLast]
      show (if (p.ensureSegment now).logStartOffset < s.hi then _ else _ : _ × Bool).1 = _
      rw [if_pos ahead]
    have deleted : DeletedUpTo (p.ensureSegment now) ((p.ensureSegment now).truncateFront s.hi now)
        s.hi := rep'.truncateFront_deleted some' ahead boundary
    have bytes := deleted.sizeBytes rep' some' tended' isSegments isSpans isLength onePrefix hiAt
    rw [sameBytes] at bytes
    have left (r : Segment) (rs' : List Segment) (isCons : rs = r :: rs') :
        ((p.ensureSegment now).truncateFront s.hi now).segments = rs := by
      subst isCons
      exact rep'.truncateFront_left tended' isSegments onePrefix hiAt ahead boundary
    have rolled (isNil : rs = []) :
        ((p.ensureSegment now).truncateFront s.hi now).recordBatches = [] ∧
        ((p.ensureSegment now).truncateFront s.hi now).segments
          = [{ baseOffset := p.highWatermark, createdMs := now }] := by
      subst isNil
      rw [List.append_nil] at isSegments
      rw [← ensureSegment_highWatermark p now]
      exact rep'.truncateFront_rolled tended' isSegments onePrefix hiAt ahead boundary
    constructor
    · exact isSegments
    · exact isSpans
    · exact isLength
    · exact isLongest
    · intro isNil
      rw [isNil] at isLast
      cases isLast
    · intro t isLast'
      rw [isLast] at isLast'
      cases isLast'
      rw [isResult]
      exact ⟨by simpa using ahead, deleted.ensured⟩
    · intro _ someLeft
      rw [isResult]
      obtain ⟨r, rs', isCons⟩ := List.exists_cons_of_ne_nil someLeft
      exact left r rs' isCons
    · intro _ isNil
      rw [isResult]
      exact (rolled isNil).2
    · rw [isResult]
      exact bytes
    · intro t isLast' notByTime
      rw [isLast] at isLast'
      cases isLast'
      rw [isResult, bytes, isGone]
      rcases deletable.2 with byTime | bySize
      · exact absurd byTime notByTime
      · simp only [sizeOf, List.map_append, List.sum_append, List.map_cons, List.map_nil,
          List.sum_cons, List.sum_nil] at bySize ⊢
        omega
    · rw [isResult]
      cases rs with
      | nil =>
        obtain ⟨noBatches, isFresh⟩ := rolled rfl
        apply applyRetention_of_not
        · rw [isFresh]
          exact List.cons_ne_nil _ _
        · exact not_deletable_fresh isFresh noBatches cfg now _
      | cons r rs =>
        have isLeft := left r rs rfl
        apply applyRetention_of_not
        · rw [isLeft]
          exact List.cons_ne_nil r rs
        · intro t after isCons
          -- The spans that are left are what they were.
          have sameSpans : ((p.ensureSegment now).truncateFront s.hi now).segmentSpans
              = rest := by
            unfold segmentSpans
            rw [isLeft, ← isRest]
            apply spansFrom_congr deleted.highWatermark
            intro u member
            rw [deleted.batches, List.filter_filter]
            apply List.filter_congr
            intro x _
            have above : s.hi ≤ u.baseOffset := by
              have isBase : s.hi = r.baseOffset := hiAt
              rw [isBase]
              rcases List.mem_cons.mp member with same | later
              · rw [same]
              · have fromHead := (List.pairwise_append.mp increasing).2.1
                exact le_of_lt (List.rel_of_pairwise_cons fromHead later)
            rw [Bool.eq_iff_iff]
            simp only [Bool.and_eq_true, decide_eq_true_eq]
            omega
          rw [sameSpans] at isCons
          rw [bytes]
          exact isLongest.longest t after isCons

/-- Of every log that calls lead to, retention deletes the longest prefix of segments that may
go. -/
theorem applyRetention_exact (codec : Codec) (calls : List LogCall)
    (wellSent : Along codec (fun p c => c.WellSent p) {} calls) (cfg : LogConfig)
    (deletes : cfg.delete = true) (now : Int) :
    ∃ gs rs gone rest, RetentionExact (runCalls codec {} calls) cfg now gs rs gone rest := by
  have rep := runCalls_rep codec calls rep_new wellSent
  have tended := runCalls_tended codec calls tended_new rep_new wellSent
  exact rep.retentionExact tended deletes now

theorem applyRetention_exact_hundred :
    ((runCalls hundredBytes {} [send 0 [([1], some [1])], send 300 [([2], some [1])]]).applyRetention
        { retentionMs := -1, retentionBytes := 100 } 300).1.logStartOffset = 1 ∧
      ∃ gs rs gone rest, RetentionExact
        (runCalls hundredBytes {} [send 0 [([1], some [1])], send 300 [([2], some [1])]])
        { retentionMs := -1, retentionBytes := 100 } 300 gs rs gone rest := by
  have sent := fun p now records some' => send_wellSent p now records some'
  refine ⟨rfl, ?_⟩
  apply applyRetention_exact
  · exact ⟨sent _ _ _ (by simp), sent _ _ _ (by simp), trivial⟩
  · rfl

end PartitionState

end NoidaDb.Kafka
