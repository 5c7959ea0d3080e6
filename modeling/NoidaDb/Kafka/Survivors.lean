/-
Which records survive a clean.

A clean never touches what it must leave alone, keeps the newest record of each key, and
leaves no key twice below where it stops.  Tombstones wait for their horizon, which the
first clean that sees them sets.
-/

import NoidaDb.Lib.SortedLists
import NoidaDb.Kafka.CompactedView

namespace NoidaDb.Kafka

namespace PartitionState

def Holds (p : PartitionState) (c : Content) : Prop :=
  ∃ x, x ∈ p.recordBatches ∧ ∃ r, r ∈ recordsOf x ∧ r.content = c

def cleans (p : PartitionState) (cfg : LogConfig) (now : Int) : Bool :=
  cfg.compact && p.ratioDue cfg now

/-- The active segment, transactions and markers, what comes after the start of an open transaction,
and segments younger than `min.compaction.lag.ms`. -/
def Protected (p : PartitionState) (cfg : LogConfig) (now : Int) (x : Int × Batch) (r : Record) :
    Prop :=
  (∃ s, p.segments.getLast? = some s ∧ s.baseOffset ≤ r.offset) ∨
    x.2.transactional = true ∨ x.2.control = true ∨
    (∃ t, t ∈ p.activeTxns ∧ t.2 ≤ r.offset) ∨
    (0 < cfg.minCompactionLagMs ∧ ∃ s, s ∈ p.segmentSpans ∧ s.lo ≤ r.offset ∧ r.offset < s.hi ∧
      now - s.maxTs < cfg.minCompactionLagMs)

variable {p : PartitionState} {x y : Int × Batch} {r : Record} {cfg : LogConfig}
  {limit horizon newStart : Int} {batches : List (Int × Batch)} {latest : Latest} {k : Bytes}
  {calls : List LogCall}

theorem ensureSegment_of_mem (rep : Rep p) (inLog : x ∈ p.recordBatches) (now : Int) :
    p.ensureSegment now = p := by
  obtain ⟨s, member, _⟩ := rep.covered x inLog
  unfold ensureSegment
  rw [if_neg]
  intro empty
  rw [List.isEmpty_iff.mp empty] at member
  cases member

theorem ratioDue_nonempty {now : Int} (due : p.ratioDue cfg now = true) :
    ∃ x, x ∈ p.recordBatches ∧ x.1 < p.uncleanable cfg now ∧ p.firstDirty ≤ x.1 := by
  simp only [ratioDue, Bool.and_eq_true, decide_eq_true_eq] at due
  obtain ⟨x, member⟩ := exists_of_totalLen_pos due.1
  obtain ⟨inBelow, dirty⟩ := List.mem_filter.mp member
  have under := List.mem_takeWhile_imp inBelow
  simp only [decide_eq_true_eq] at dirty under
  exact ⟨x, (List.takeWhile_prefix _).subset inBelow, under, dirty⟩

theorem ratioDue_ensureSegment (rep : Rep p) (cfg : LogConfig) (now : Int) :
    (p.ensureSegment now).ratioDue cfg now = p.ratioDue cfg now := by
  by_cases empty : p.recordBatches = []
  · have never : ∀ {q : PartitionState}, q.recordBatches = [] → q.ratioDue cfg now = false := by
      intro q nothing
      cases due : q.ratioDue cfg now with
      | false => rfl
      | true =>
        obtain ⟨x, inLog, _⟩ := ratioDue_nonempty due
        rw [nothing] at inLog
        cases inLog
    rw [never empty, never ((ensureSegment_recordBatches p now).trans empty)]
  · obtain ⟨x, inLog⟩ := List.exists_mem_of_ne_nil _ empty
    rw [ensureSegment_of_mem rep inLog]

theorem compact_eq (rep : Rep p) (codec : Codec) (cfg : LogConfig) (now : Int) :
    (compact codec p cfg now).1 =
      if p.cleans cfg now then (clean codec p cfg now).1
      else if cfg.compact then p.ensureSegment now else p := by
  unfold compact cleans
  cases cfg.compact with
  | false => rfl
  | true =>
    cases due : p.ratioDue cfg now with
    | false => simp [ratioDue_ensureSegment rep, due]
    | true =>
      obtain ⟨x, inLog, _⟩ := ratioDue_nonempty due
      simp [ensureSegment_of_mem rep inLog, due]

theorem segments_nonempty_of_cleans (rep : Rep p) {now : Int} (runs : p.cleans cfg now = true) :
    p.segments ≠ [] := by
  simp only [cleans, Bool.and_eq_true] at runs
  obtain ⟨x, inLog, _⟩ := ratioDue_nonempty runs.2
  obtain ⟨s, member, _⟩ := rep.covered x inLog
  exact List.ne_nil_of_mem member

theorem holds_clean (rep : Rep p) (codec : Codec) (cfg : LogConfig) (now : Int)
    (inLog : x ∈ p.recordBatches) (inBatch : r ∈ recordsOf x)
    (kept : p.keeps cfg now (x, r) = true) : (clean codec p cfg now).1.Holds r.content := by
  have same := cleanedBatch_contents codec (p.latestOffsets (p.uncleanable cfg now))
    (p.uncleanable cfg now) now p.tombstoneHorizons (rep.fits x inLog)
  have listed : r.content ∈ contents ((cleanedBatch codec (p.latestOffsets (p.uncleanable cfg now))
      (p.uncleanable cfg now) now p.tombstoneHorizons x).flatMap recordsOf) := by
    rw [same]
    exact List.mem_map_of_mem (List.mem_filter.mpr ⟨inBatch, kept⟩)
  obtain ⟨r', inCleaned, isContent⟩ := List.mem_map.mp listed
  obtain ⟨x', written, inBatch'⟩ := List.mem_flatMap.mp inCleaned
  exact ⟨x', (mem_clean_recordBatches rep codec cfg now).mpr ⟨x, inLog, written⟩, r', inBatch',
    isContent⟩

theorem cleanedBatch_within (codec : Codec) (latest : Latest) (limit now : Int)
    (horizons : Horizons) {x' : Int × Batch} (fits : BatchFits x)
    (written : x' ∈ cleanedBatch codec latest limit now horizons x) :
    Within x' x ∧ x'.2.plain = x.2.plain := by
  cases rewritten : cleanable limit x with
  | false =>
    rw [cleanedBatch_of_not_cleanable codec latest limit now horizons rewritten] at written
    rw [List.mem_singleton.mp written]
    exact ⟨Within.refl x, rfl⟩
  | true =>
    have plain : x.2.plain = true := by
      simp only [cleanable, Bool.and_eq_true] at rewritten
      exact rewritten.2
    rw [cleanedBatch_plain codec latest limit now horizons rewritten written, plain]
    unfold cleanedBatch at written
    rw [if_pos rewritten] at written
    split at written
    · rw [List.mem_singleton.mp written]
      exact ⟨Within.refl x, rfl⟩
    · exact ⟨(reencode_spec codec fits List.filter_sublist written).2.1, rfl⟩

theorem holds_of_clean (rep : Rep p) (codec : Codec) (cfg : LogConfig) (now : Int)
    {x' : Int × Batch} {r' : Record} (inLog : x' ∈ (clean codec p cfg now).1.recordBatches)
    (inBatch : r' ∈ recordsOf x') :
    ∃ x, x ∈ p.recordBatches ∧ Within x' x ∧ x'.2.plain = x.2.plain ∧
      ∃ r, r ∈ recordsOf x ∧ r.content = r'.content ∧ p.keeps cfg now (x, r) = true := by
  obtain ⟨x, inOld, written⟩ := (mem_clean_recordBatches rep codec cfg now).mp inLog
  have same := cleanedBatch_contents codec (p.latestOffsets (p.uncleanable cfg now))
    (p.uncleanable cfg now) now p.tombstoneHorizons (rep.fits x inOld)
  have listed : r'.content ∈ contents ((recordsOf x).filter (fun r =>
      !cleanable (p.uncleanable cfg now) x || survives (p.latestOffsets (p.uncleanable cfg now))
        p.tombstoneHorizons now r)) := by
    rw [← same]
    exact List.mem_map_of_mem (List.mem_flatMap.mpr ⟨x', written, inBatch⟩)
  obtain ⟨r, inKept, isContent⟩ := List.mem_map.mp listed
  obtain ⟨inBatch', kept⟩ := List.mem_filter.mp inKept
  obtain ⟨within, plain⟩ := cleanedBatch_within codec _ _ now _ (rep.fits x inOld) written
  exact ⟨x, inOld, within, plain, r, inBatch', isContent, kept⟩

theorem settled_le (p : PartitionState) (cfg : LogConfig) (now : Int) :
    p.uncleanable cfg now ≤
      match (p.activeTxns.map Prod.snd).min? with
      | some first => min ((p.segments.getLast?.map Segment.baseOffset).getD 0) first
      | none => (p.segments.getLast?.map Segment.baseOffset).getD 0 := by
  unfold uncleanable
  by_cases lagging : 0 < cfg.minCompactionLagMs
  · rw [if_pos lagging]
    cases p.segmentSpans.find? (fun s =>
        decide (0 < s.size) && decide (now - cfg.minCompactionLagMs < s.maxTs)) with
    | none => exact le_rfl
    | some young => exact min_le_left _ _
  · exact le_of_eq (if_neg lagging)

theorem uncleanable_le_active {active : Segment} (last : p.segments.getLast? = some active)
    (cfg : LogConfig) (now : Int) : p.uncleanable cfg now ≤ active.baseOffset := by
  apply le_trans (p.settled_le cfg now)
  rw [last]
  cases (p.activeTxns.map Prod.snd).min? with
  | none => exact le_rfl
  | some first => exact min_le_left _ _

theorem uncleanable_le_open {t : Int × Int} (opened : t ∈ p.activeTxns) (cfg : LogConfig)
    (now : Int) : p.uncleanable cfg now ≤ t.2 := by
  apply le_trans (p.settled_le cfg now)
  have listed := List.mem_map_of_mem (f := Prod.snd) opened
  cases found : (p.activeTxns.map Prod.snd).min? with
  | none =>
    rw [List.min?_eq_none_iff.mp found] at listed
    cases listed
  | some first =>
    exact le_trans (min_le_right _ _) ((List.min?_eq_some_iff.mp found).2 t.2 listed)

theorem spansFrom_increasing {segments : List Segment}
    (ordered : segments.Pairwise (fun s t => s.baseOffset < t.baseOffset)) :
    (p.spansFrom segments).Pairwise (fun s t => s.lo < t.lo) := by
  induction segments with
  | nil => exact .nil
  | cons segment rest ih =>
    obtain ⟨fromHead, fromRest⟩ := List.pairwise_cons.mp ordered
    refine List.pairwise_cons.mpr ⟨?_, ih fromRest⟩
    intro s member
    obtain ⟨t, inRest, isLo⟩ := lo_of_mem_spansFrom member
    rw [isLo]
    exact fromHead t inRest

theorem totalLen_nonneg (batches : List (Int × Batch)) : 0 ≤ totalLen batches := by
  induction batches with
  | nil => exact le_rfl
  | cons x rest ih =>
    unfold totalLen at ih ⊢
    rw [List.map_cons, List.sum_cons]
    omega

theorem totalLen_pos_of_mem (member : x ∈ batches) : 0 < totalLen batches := by
  induction batches with
  | nil => cases member
  | cons y rest ih =>
    have headed := y.2.headed
    have later := totalLen_nonneg rest
    unfold totalLen at later ⊢
    rw [List.map_cons, List.sum_cons]
    omega

theorem size_pos_of_mem {segments : List Segment} {s : Span} (member : s ∈ p.spansFrom segments)
    (inLog : x ∈ p.recordBatches) (starts : s.lo ≤ x.1) (stops : x.1 < s.hi) : 0 < s.size := by
  induction segments with
  | nil => cases member
  | cons segment rest ih =>
    rcases List.mem_cons.mp member with same | inRest
    · subst same
      apply totalLen_pos_of_mem (x := x)
      apply List.mem_filter.mpr
      refine ⟨inLog, ?_⟩
      simp only [span] at starts stops
      cases next : rest.head? with
      | none => simp [starts]
      | some n =>
        rw [next] at stops
        simp only [Option.map_some, Option.getD_some] at stops
        simp [starts, stops]
    · exact ih inRest

theorem uncleanable_le_young (rep : Rep p) {now : Int} (lagging : 0 < cfg.minCompactionLagMs)
    {s : Span} (member : s ∈ p.segmentSpans) (filled : 0 < s.size)
    (young : now - s.maxTs < cfg.minCompactionLagMs) : p.uncleanable cfg now ≤ s.lo := by
  have qualifies : (decide (0 < s.size) && decide (now - cfg.minCompactionLagMs < s.maxTs)) = true := by
    have later : now - cfg.minCompactionLagMs < s.maxTs := by omega
    simp [filled, later]
  obtain ⟨first, found, atMost⟩ := Lib.exists_find?_le (spansFrom_increasing rep.segments)
    (fun s => decide (0 < s.size) && decide (now - cfg.minCompactionLagMs < s.maxTs)) member
    qualifies
  unfold uncleanable
  rw [if_pos lagging]
  have found : p.segmentSpans.find? _ = some first := found
  simp only [found]
  exact le_trans (min_le_right _ _) atMost

theorem base_ge_of_boundary (rep : Rep p) (boundary : Boundary p.recordBatches limit)
    (inLog : x ∈ p.recordBatches) (inBatch : r ∈ recordsOf x) (past : limit ≤ r.offset) :
    limit ≤ x.1 := by
  have upper := ((rep.fits x inLog).within r inBatch).2
  rcases boundary x inLog with above | below
  · exact above
  · omega

theorem keeps_of_past (rep : Rep p) {now : Int} (some' : p.segments ≠ [])
    (inLog : x ∈ p.recordBatches) (inBatch : r ∈ recordsOf x)
    (past : p.uncleanable cfg now ≤ r.offset) : p.keeps cfg now (x, r) = true := by
  have base := base_ge_of_boundary rep (rep.uncleanable_boundary some' cfg now) inLog inBatch past
  have outside : ¬ x.1 < p.uncleanable cfg now := by omega
  simp [keeps, keptBy, cleanable, outside]

theorem keeps_of_protected (rep : Rep p) {now : Int} (inLog : x ∈ p.recordBatches)
    (inBatch : r ∈ recordsOf x) (safe : p.Protected cfg now x r) :
    p.keeps cfg now (x, r) = true := by
  obtain ⟨segment, inSegments, _⟩ := rep.covered x inLog
  have some' : p.segments ≠ [] := List.ne_nil_of_mem inSegments
  rcases safe with ⟨active, last, inActive⟩ | transactional | control | ⟨t, opened, after⟩ |
    ⟨lagging, s, inSpans, starts, stops, young⟩
  · apply keeps_of_past rep some' inLog inBatch
    exact le_trans (uncleanable_le_active last cfg now) inActive
  · simp [keeps, keptBy, cleanable, Batch.plain, transactional]
  · simp [keeps, keptBy, cleanable, Batch.plain, control]
  · apply keeps_of_past rep some' inLog inBatch
    exact le_trans (uncleanable_le_open opened cfg now) after
  · apply keeps_of_past rep some' inLog inBatch
    obtain ⟨t, inSegments', isLo⟩ := lo_of_mem_spansFrom inSpans
    have base : s.lo ≤ x.1 := by
      rw [isLo] at starts ⊢
      exact base_ge_of_boundary rep (rep.bounds t inSegments') inLog inBatch starts
    have lower := ((rep.fits x inLog).within r inBatch).1
    have filled := size_pos_of_mem inSpans inLog base (lt_of_le_of_lt lower stops)
    exact le_trans (uncleanable_le_young rep lagging inSpans filled young) starts

theorem keeps_of_keyless {now : Int} (x : Int × Batch) (keyless' : r.key = none) :
    p.keeps cfg now (x, r) = true := by
  simp [keeps, keptBy, survives, superseded, expired, keyless']

theorem keeps_of_current (rep : Rep p) {now : Int} (some' : p.segments ≠ [])
    (valued : r.value.isSome = true)
    (current : ∀ y, y ∈ p.recordBatches → y.2.plain = true → ∀ s, s ∈ recordsOf y →
      s.offset < p.uncleanable cfg now → s.key = r.key → s.offset ≤ r.offset) :
    p.keeps cfg now (x, r) = true := by
  have notExpired : expired p.tombstoneHorizons now r = false := by
    obtain ⟨value, isValue⟩ := Option.isSome_iff_exists.mp valued
    simp [expired, isValue]
  have notSuperseded : superseded (p.latestOffsets (p.uncleanable cfg now)) r = false := by
    by_contra gone
    simp only [Bool.not_eq_false, superseded, Option.any_eq_true, decide_eq_true_eq] at gone
    obtain ⟨k, isKey, newest, found, newer⟩ := gone
    obtain ⟨s, inDirty, sameKey, isNewest⟩ := latestOffsets_some found
    obtain ⟨y, inLog, rewritten, _, inBatch⟩ := mem_dirtyRecords inDirty
    have below := offset_lt_of_cleanable rep (rep.uncleanable_boundary some' cfg now) inLog
      rewritten inBatch
    have plain : y.2.plain = true := by
      simp only [cleanable, Bool.and_eq_true] at rewritten
      exact rewritten.2
    have upper := current y inLog plain s inBatch below (sameKey.trans isKey.symm)
    omega
  simp [keeps, keptBy, survives, notExpired, notSuperseded]

/-- No two plain records of `batches` in batches below `limit` share a key. -/
def UniqueBelow (batches : List (Int × Batch)) (limit : Int) : Prop :=
  ∀ x, x ∈ batches → x.2.plain = true → x.1 < limit → ∀ r, r ∈ recordsOf x →
    ∀ y, y ∈ batches → y.2.plain = true → y.1 < limit → ∀ s, s ∈ recordsOf y →
      r.key.isSome = true → r.key = s.key → r.offset = s.offset

def Compacted (p : PartitionState) : Prop := UniqueBelow p.recordBatches p.firstDirty

def LogCall.CutsNoDuplicates (p : PartitionState) : LogCall → Prop
  | .truncateFront newStart _ => ∀ x, x ∈ p.recordBatches → x.2.plain = true →
      p.cleanOffset ≤ x.1 → x.1 < newStart → newStart ≤ batchLastOffset x.1 x.2 →
      (recordsOf x).Pairwise (fun r s => r.key.isSome = true → r.key ≠ s.key)
  | _ => True

theorem Rep.increasing (rep : Rep p) : p.recordBatches.Pairwise (fun x y => x.1 < y.1) := by
  refine rep.ordered.imp_of_mem ?_
  intro x y inLog _ apart
  have base := (rep.fits x inLog).base_le
  omega

theorem mem_below (rep : Rep p) (inLog : x ∈ p.recordBatches) (under : x.1 < limit) :
    x ∈ p.below limit := by
  have downward : p.recordBatches.Pairwise (fun x y =>
      decide (y.1 < limit) = true → decide (x.1 < limit) = true) := by
    refine rep.increasing.imp ?_
    intro x y before
    simp only [decide_eq_true_eq]
    omega
  unfold below
  rw [Lib.takeWhile_eq_filter downward]
  exact List.mem_filter.mpr ⟨inLog, by simpa using under⟩

theorem Rep.apart (rep : Rep p) (inX : x ∈ p.recordBatches) (inY : y ∈ p.recordBatches)
    (different : x ≠ y) : batchLastOffset x.1 x.2 < y.1 ∨ batchLastOffset y.1 y.2 < x.1 := by
  have either : p.recordBatches.Pairwise (fun x y =>
      batchLastOffset x.1 x.2 < y.1 ∨ batchLastOffset y.1 y.2 < x.1) :=
    rep.ordered.imp (fun apart => Or.inl apart)
  have symm : Std.Symm (fun x y : Int × Batch =>
      batchLastOffset x.1 x.2 < y.1 ∨ batchLastOffset y.1 y.2 < x.1) := ⟨fun _ _ => Or.symm⟩
  exact either.forall inX inY different

theorem Rep.ends_before (rep : Rep p) (inX : x ∈ p.recordBatches) (inY : y ∈ p.recordBatches)
    (before : x.1 < y.1) : batchLastOffset x.1 x.2 < y.1 := by
  have different : x ≠ y := fun same => by
    rw [same] at before
    omega
  rcases rep.apart inX inY different with apart | apart
  · exact apart
  · have base := (rep.fits y inY).base_le
    omega

theorem Rep.eq_of_base (rep : Rep p) (inX : x ∈ p.recordBatches) (inY : y ∈ p.recordBatches)
    (same : x.1 = y.1) : x = y := by
  by_contra different
  have baseX := (rep.fits x inX).base_le
  have baseY := (rep.fits y inY).base_le
  rcases rep.apart inX inY different with apart | apart
  · omega
  · omega

theorem flatMap_recordsOf_increasing (fits : ∀ x, x ∈ batches → BatchFits x)
    (ordered : batches.Pairwise (fun x y => batchLastOffset x.1 x.2 < y.1)) :
    (batches.flatMap recordsOf).Pairwise (fun r s => r.offset < s.offset) := by
  induction batches with
  | nil => exact .nil
  | cons x rest ih =>
    obtain ⟨fromHead, fromRest⟩ := List.pairwise_cons.mp ordered
    have fitsRest := fun y member => fits y (List.mem_cons_of_mem x member)
    rw [List.flatMap_cons]
    apply List.pairwise_append.mpr
    refine ⟨(fits x List.mem_cons_self).increasing, ih fitsRest fromRest, ?_⟩
    intro r inX s inLater
    obtain ⟨y, inRest, inY⟩ := List.mem_flatMap.mp inLater
    exact offset_ne_of_apart (fits x List.mem_cons_self) (fitsRest y inRest) (fromHead y inRest)
      inX inY

theorem foldl_noteLatest_ge {records : List Record} {noted : Int}
    (increasing : records.Pairwise (fun r s => r.offset < s.offset))
    (found : latest k = some noted) (after : ∀ r, r ∈ records → noted ≤ r.offset) :
    ∃ newest, records.foldl (noteLatest limit) latest k = some newest ∧ noted ≤ newest := by
  induction records generalizing latest noted with
  | nil => exact ⟨noted, found, le_rfl⟩
  | cons r rest ih =>
    obtain ⟨fromHead, fromRest⟩ := List.pairwise_cons.mp increasing
    have head := after r List.mem_cons_self
    rw [List.foldl_cons]
    by_cases notes : r.key = some k ∧ r.offset < limit
    · have noted' : noteLatest limit latest r k = some r.offset := by
        rw [noteLatest_apply, if_pos notes]
      obtain ⟨newest, isNewest, atLeast⟩ := ih fromRest noted'
        (fun s member => le_of_lt (fromHead s member))
      exact ⟨newest, isNewest, le_trans head atLeast⟩
    · apply ih fromRest
      · rw [noteLatest_apply, if_neg notes]
        exact found
      · intro s member
        exact after s (List.mem_cons_of_mem r member)

theorem le_foldl_noteLatest {records : List Record}
    (increasing : records.Pairwise (fun r s => r.offset < s.offset)) {s : Record}
    (member : s ∈ records) (isKey : s.key = some k) (below : s.offset < limit) :
    ∃ newest, records.foldl (noteLatest limit) latest k = some newest ∧ s.offset ≤ newest := by
  induction records generalizing latest with
  | nil => cases member
  | cons r rest ih =>
    obtain ⟨fromHead, fromRest⟩ := List.pairwise_cons.mp increasing
    rw [List.foldl_cons]
    rcases List.mem_cons.mp member with same | inRest
    · subst same
      apply foldl_noteLatest_ge fromRest
      · rw [noteLatest_apply, if_pos ⟨isKey, below⟩]
      · intro t inRest
        exact le_of_lt (fromHead t inRest)
    · exact ih fromRest inRest

theorem le_latestOffsets (rep : Rep p) (boundary : Boundary p.recordBatches limit)
    (inLog : x ∈ p.recordBatches) (plain : x.2.plain = true) (under : x.1 < limit)
    (dirty : p.firstDirty ≤ x.1) {s : Record} (inBatch : s ∈ recordsOf x) (isKey : s.key = some k) :
    ∃ newest, p.latestOffsets limit k = some newest ∧ s.offset ≤ newest := by
  have below : s.offset < limit := by
    apply offset_lt_of_cleanable rep boundary inLog _ inBatch
    simp [cleanable, under, plain]
  have sublist : List.Sublist ((p.below limit).filter (fun x =>
      decide (p.firstDirty ≤ x.1) && x.2.plain)) p.recordBatches :=
    List.filter_sublist.trans (List.takeWhile_sublist _)
  have increasing : (p.dirtyRecords limit).Pairwise (fun r s => r.offset < s.offset) :=
    flatMap_recordsOf_increasing (fun y member => rep.fits y (sublist.subset member))
      (rep.ordered.sublist sublist)
  have member : s ∈ p.dirtyRecords limit := by
    apply List.mem_flatMap.mpr
    refine ⟨x, List.mem_filter.mpr ⟨mem_below rep inLog under, ?_⟩, inBatch⟩
    simp [dirty, plain]
  exact le_foldl_noteLatest increasing member isKey below

theorem UniqueBelow.subset {batches' : List (Int × Batch)} {limit' : Int}
    (unique : UniqueBelow batches limit)
    (old : ∀ x, x ∈ batches' → x.2.plain = true → x.1 < limit' → x ∈ batches ∧ x.1 < limit) :
    UniqueBelow batches' limit' := by
  intro x inX plainX belowX r inR y inY plainY belowY s inS hasKey sameKey
  obtain ⟨inX', belowX'⟩ := old x inX plainX belowX
  obtain ⟨inY', belowY'⟩ := old y inY plainY belowY
  exact unique x inX' plainX belowX' r inR y inY' plainY belowY' s inS hasKey sameKey

theorem Compacted.clean (compacted : p.Compacted) (rep : Rep p) (some' : p.segments ≠ [])
    (codec : Codec) (cfg : LogConfig) (now : Int) :
    UniqueBelow (clean codec p cfg now).1.recordBatches (p.uncleanable cfg now) := by
  have boundary := rep.uncleanable_boundary some' cfg now
  -- The older of two records with one key has gone.
  have gone : ∀ x, x ∈ p.recordBatches → x.2.plain = true → x.1 < p.uncleanable cfg now →
      ∀ r, r ∈ recordsOf x → p.keeps cfg now (x, r) = true →
      ∀ y, y ∈ p.recordBatches → y.2.plain = true → y.1 < p.uncleanable cfg now →
      ∀ s, s ∈ recordsOf y → r.key.isSome = true → r.key = s.key → ¬ r.offset < s.offset := by
    intro x inX plainX belowX r inR kept y inY plainY belowY s inS hasKey sameKey before
    obtain ⟨k, isKey⟩ := Option.isSome_iff_exists.mp hasKey
    by_cases dirty : p.firstDirty ≤ y.1
    · obtain ⟨newest, found, atLeast⟩ := le_latestOffsets rep boundary inY plainY belowY dirty inS
        (sameKey.symm.trans isKey)
      have newer : r.offset < newest := by omega
      have rewritten : cleanable (p.uncleanable cfg now) x = true := by
        simp [cleanable, belowX, plainX]
      simp [keeps, keptBy, rewritten, survives, superseded, isKey, found, newer] at kept
    · have lowerX := ((rep.fits x inX).within r inR).1
      have upperY := ((rep.fits y inY).within s inS).2
      have beforeX : x.1 < p.firstDirty := by
        by_contra past
        have apart := rep.ends_before inY inX (by omega)
        omega
      have same := compacted x inX plainX beforeX r inR y inY plainY (by omega) s inS hasKey sameKey
      omega
  intro x' inX plainX belowX r' inR y' inY plainY belowY s' inS hasKey sameKey
  obtain ⟨x, inX, withinX, isPlainX, r, inR, isR, keptR⟩ := holds_of_clean rep codec cfg now inX inR
  obtain ⟨y, inY, withinY, isPlainY, s, inS, isS, keptS⟩ := holds_of_clean rep codec cfg now inY inS
  have offsetR : r.offset = r'.offset := congrArg Content.offset isR
  have offsetS : s.offset = s'.offset := congrArg Content.offset isS
  have keyR : r.key = r'.key := congrArg Content.key isR
  have keyS : s.key = s'.key := congrArg Content.key isS
  have plainX : x.2.plain = true := isPlainX.symm.trans plainX
  have plainY : y.2.plain = true := isPlainY.symm.trans plainY
  have belowX : x.1 < p.uncleanable cfg now := lt_of_le_of_lt withinX.1 belowX
  have belowY : y.1 < p.uncleanable cfg now := lt_of_le_of_lt withinY.1 belowY
  have sameKey : r.key = s.key := by
    rw [keyR, keyS]
    exact sameKey
  have hasKey : r.key.isSome = true := by
    rw [keyR]
    exact hasKey
  have notBefore := gone x inX plainX belowX r inR keptR y inY plainY belowY s inS hasKey sameKey
  have notAfter := gone y inY plainY belowY s inS keptS x inX plainX belowX r inR
    (sameKey ▸ hasKey) sameKey.symm
  omega

theorem Compacted.appendBatch (compacted : p.Compacted) (rep : Rep p) (batch : Batch)
    (count now : Int) (cfg : Option LogConfig) :
    (p.appendBatch batch count now cfg).1.Compacted := by
  have cleaned := rep.cleaned
  have started := rep.started
  rw [appendBatch_eq]
  apply UniqueBelow.subset compacted
  intro x member _ below
  simp only [firstDirty, ensureSegment_cleanOffset, ensureSegment_logStartOffset] at below
  refine ⟨?_, below⟩
  rcases List.mem_append.mp member with old | new
  · simpa using old
  · rw [List.mem_singleton.mp new] at below
    simp only [lt_max_iff] at below
    omega

theorem Compacted.truncateFront (compacted : p.Compacted) (rep : Rep p) (newStart now : Int)
    (uncut : (LogCall.truncateFront newStart now).CutsNoDuplicates p) :
    (p.truncateFront newStart now).Compacted := by
  unfold PartitionState.truncateFront
  split
  · exact compacted
  · rename_i forward
    have fromStart : p.logStartOffset ≤ p.firstDirty := le_max_right _ _
    have fromClean : p.cleanOffset ≤ p.firstDirty := le_max_left _ _
    have stays : ∀ x, x ∈ p.recordBatches.filter (fun x =>
        decide (newStart ≤ batchLastOffset x.1 x.2)) →
        x ∈ p.recordBatches ∧ newStart ≤ batchLastOffset x.1 x.2 := by
      intro x member
      simpa using List.mem_filter.mp member
    -- A batch that was dirty is the one that the new start cuts.
    have alone : ∀ x, x ∈ p.recordBatches → newStart ≤ batchLastOffset x.1 x.2 →
        x.1 < max p.cleanOffset newStart → p.firstDirty ≤ x.1 →
        ∀ y, y ∈ p.recordBatches → newStart ≤ batchLastOffset y.1 y.2 →
        y.1 < max p.cleanOffset newStart → x = y := by
      intro x inX staysX belowX dirty y inY staysY belowY
      have cut : x.1 < newStart := by
        rcases lt_max_iff.mp belowX with below | below
        · omega
        · exact below
      by_contra different
      rcases rep.apart inX inY different with apart | apart
      · rcases lt_max_iff.mp belowY with below | below
        · omega
        · omega
      · omega
    have within : ∀ x, x ∈ p.recordBatches → x.2.plain = true →
        newStart ≤ batchLastOffset x.1 x.2 → x.1 < max p.cleanOffset newStart →
        p.firstDirty ≤ x.1 → ∀ r, r ∈ recordsOf x → ∀ s, s ∈ recordsOf x →
        r.key.isSome = true → r.key = s.key → r.offset = s.offset := by
      intro x inX plainX staysX belowX dirty r inR s inS hasKey sameKey
      have cut : x.1 < newStart := by
        rcases lt_max_iff.mp belowX with below | below
        · omega
        · exact below
      have distinct := uncut x inX plainX (le_trans fromClean dirty) cut staysX
      have symm : Std.Symm (fun r s : Record => r.key.isSome = true → r.key ≠ s.key) :=
        ⟨fun r s apart hasKey' equal => apart (equal ▸ hasKey') equal.symm⟩
      by_contra different
      have apart := distinct.forall inR inS (fun equal => different (congrArg Record.offset equal))
      exact apart hasKey sameKey
    intro x inX plainX belowX r inR y inY plainY belowY s inS hasKey sameKey
    obtain ⟨inX, staysX⟩ := stays x (by simpa using inX)
    obtain ⟨inY, staysY⟩ := stays y (by simpa using inY)
    have belowX : x.1 < max p.cleanOffset newStart := by
      simpa [firstDirty] using belowX
    have belowY : y.1 < max p.cleanOffset newStart := by
      simpa [firstDirty] using belowY
    by_cases dirtyX : p.firstDirty ≤ x.1
    · obtain rfl := alone x inX staysX belowX dirtyX y inY staysY belowY
      exact within x inX plainX staysX belowX dirtyX r inR s inS hasKey sameKey
    · by_cases dirtyY : p.firstDirty ≤ y.1
      · obtain rfl := alone y inY staysY belowY dirtyY x inX staysX belowX
        exact within y inY plainY staysY belowY dirtyY r inR s inS hasKey sameKey
      · exact compacted x inX plainX (by omega) r inR y inY plainY (by omega) s inS hasKey sameKey

theorem Compacted.ensureSegment (compacted : p.Compacted) (now : Int) :
    (p.ensureSegment now).Compacted := by
  simpa [Compacted, firstDirty] using compacted

theorem cutsNoDuplicates_of_boundary (boundary : Boundary p.recordBatches newStart) (now : Int) :
    (LogCall.truncateFront newStart now).CutsNoDuplicates p := by
  intro x inLog _ _ before reaches
  rcases boundary x inLog with above | below
  · omega
  · omega

theorem Compacted.call {p : PartitionState} (compacted : p.Compacted) (rep : Rep p) (codec : Codec)
    {c : LogCall} (wellSent : c.WellSent p) (uncut : c.CutsNoDuplicates p) :
    (p.call codec c).Compacted := by
  have change := call_change rep codec wellSent
  generalize p.call codec c = p' at change
  cases change with
  | same => exact compacted
  | ensured _ now => exact compacted.ensureSegment now
  | appended _ seqs active aborted now cfg _ _ rep' =>
    have unchanged : Compacted { p with
      producerSeqs := seqs, activeTxns := active, abortedTxns := aborted } := compacted
    exact unchanged.appendBatch rep' _ _ now cfg
  | truncated now _ => exact compacted.truncateFront rep _ now uncut
  | retained _ now _ boundary =>
    apply (compacted.ensureSegment now).truncateFront (rep.ensureSegment now) _ now
    apply cutsNoDuplicates_of_boundary
    simpa using boundary
  | @cleaned cfg now _ due =>
    have rep' := rep.ensureSegment now
    have unique := (compacted.ensureSegment now).clean rep' (ensureSegment_nonempty p now) codec
      cfg now
    obtain ⟨x, _, below, dirty⟩ := ratioDue_nonempty due
    apply unique.subset
    intro y inLog _ before
    refine ⟨inLog, ?_⟩
    have clean' : (p.ensureSegment now).cleanOffset ≤ (p.ensureSegment now).firstDirty :=
      le_max_left _ _
    have start' : (p.ensureSegment now).logStartOffset ≤ (p.ensureSegment now).firstDirty :=
      le_max_right _ _
    simp only [firstDirty, PartitionState.clean, lt_max_iff] at before
    omega

theorem Along.and {codec : Codec} {first second : PartitionState → LogCall → Prop}
    (onFirst : Along codec first p calls) (onSecond : Along codec second p calls) :
    Along codec (fun q c => first q c ∧ second q c) p calls := by
  induction calls generalizing p with
  | nil => trivial
  | cons c rest ih => exact ⟨⟨onFirst.1, onSecond.1⟩, ih onFirst.2 onSecond.2⟩

theorem runCalls_compacted (codec : Codec) (calls : List LogCall) (rep : Rep p)
    (compacted : p.Compacted)
    (along : Along codec (fun q c => c.WellSent q ∧ c.CutsNoDuplicates q) p calls) :
    (p.runCalls codec calls).Compacted := by
  induction calls generalizing p with
  | nil => exact compacted
  | cons c rest ih =>
    exact ih (rep.call codec along.1.1) (compacted.call rep codec along.1.1 along.1.2) along.2

def Sees (p : PartitionState) (cfg : LogConfig) (now : Int) (c : Content) : Prop :=
  p.cleans cfg now = true ∧ ∃ x, x ∈ p.recordBatches ∧ cleanable (p.uncleanable cfg now) x = true ∧
    ∃ r, r ∈ recordsOf x ∧ r.content = c

def HorizonsSet (codec : Codec) (calls : List LogCall) : Prop :=
  ∀ c, (runCalls codec {} calls).Holds c → ∀ horizon,
    (runCalls codec {} calls).tombstoneHorizons c.offset = some horizon →
    ∃ before cfg now after, calls = before ++ .compact cfg now :: after ∧
      (runCalls codec {} before).Sees cfg now c ∧
      horizon = min (now + cfg.deleteRetentionMs) i64Max

theorem holds_of_truncateFront {now : Int} {c : Content}
    (holds : (p.truncateFront newStart now).Holds c) : p.Holds c := by
  unfold truncateFront at holds
  split at holds
  · exact holds
  · obtain ⟨x, inLog, found⟩ := holds
    refine ⟨x, ?_, found⟩
    have inLog := (List.mem_filter.mp inLog).1
    simpa using inLog

theorem horizon_of_truncateFront {now offset : Int}
    (found : (p.truncateFront newStart now).tombstoneHorizons offset = some horizon) :
    p.tombstoneHorizons offset = some horizon := by
  unfold truncateFront at found
  split at found
  · exact found
  · simp only [ensureSegment_tombstoneHorizons] at found
    split at found
    · exact found
    · cases found

theorem cleanRecord_snd_some {now : Int} {horizons : Horizons}
    (found : (cleanRecord latest cfg now horizons r).2 r.offset = some horizon) :
    horizons r.offset = some horizon ∨ horizon = min (now + cfg.deleteRetentionMs) i64Max := by
  unfold cleanRecord at found
  split at found
  · exact Or.inl found
  · split at found
    · simp at found
    · split at found
      · split at found
        · split at found
          · simp at found
          · exact Or.inl found
        · simp only [Function.update_self, Option.some.injEq] at found
          exact Or.inr found.symm
      · exact Or.inl found

theorem horizon_of_clean (rep : Rep p) (codec : Codec) (cfg : LogConfig) (now : Int)
    (inLog : x ∈ p.recordBatches) (inBatch : r ∈ recordsOf x)
    (found : (clean codec p cfg now).1.tombstoneHorizons r.offset = some horizon) :
    p.tombstoneHorizons r.offset = some horizon ∨
      cleanable (p.uncleanable cfg now) x = true ∧
        horizon = min (now + cfg.deleteRetentionMs) i64Max := by
  obtain ⟨_, own, others⟩ := cleanBatches_spec codec (p.latestOffsets (p.uncleanable cfg now))
    (p.uncleanable cfg now) cfg now rep.fits rep.ordered
    (fun (_ : Int × Batch) _ (r : Record) _ => (rfl : p.tombstoneHorizons r.offset = _))
  simp only [clean] at found
  cases rewritten : cleanable (p.uncleanable cfg now) x with
  | true =>
    have looked : r ∈ p.recordBatches.flatMap (cleanedRecords (p.uncleanable cfg now)) := by
      apply List.mem_flatMap.mpr
      refine ⟨x, inLog, ?_⟩
      simpa [cleanedRecords, rewritten] using inBatch
    rw [own r looked] at found
    rcases cleanRecord_snd_some found with old | new
    · exact Or.inl old
    · exact Or.inr ⟨rfl, new⟩
  | false =>
    left
    rw [others r.offset] at found
    · exact found
    · intro s looked same
      obtain ⟨y, inLog', inBatch'⟩ := List.mem_flatMap.mp looked
      obtain ⟨rewritten', inBatch'⟩ := mem_cleanedRecords inBatch'
      have different : x ≠ y := fun equal => by
        rw [equal, rewritten'] at rewritten
        cases rewritten
      rcases rep.apart inLog inLog' different with apart | apart
      · have before := offset_ne_of_apart (rep.fits x inLog) (rep.fits y inLog') apart inBatch
          inBatch'
        omega
      · have before := offset_ne_of_apart (rep.fits y inLog') (rep.fits x inLog) apart inBatch'
          inBatch
        omega

theorem horizon_of_call (rep : Rep p) (seen : p.HorizonsClean) (codec : Codec) {call : LogCall}
    (wellSent : call.WellSent p) {c : Content} (holds : (p.call codec call).Holds c)
    (found : (p.call codec call).tombstoneHorizons c.offset = some horizon) :
    (p.Holds c ∧ p.tombstoneHorizons c.offset = some horizon) ∨
      ∃ cfg now, call = .compact cfg now ∧ p.Sees cfg now c ∧
        horizon = min (now + cfg.deleteRetentionMs) i64Max := by
  have change := call_change rep codec wellSent
  generalize p.call codec call = p' at change holds found
  cases change with
  | same => exact Or.inl ⟨holds, found⟩
  | ensured _ now =>
    left
    simpa [Holds] using And.intro holds found
  | appended _ seqs active aborted now cfg fits _ _ =>
    left
    rw [appendBatch_eq] at holds found
    simp only [ensureSegment_tombstoneHorizons] at found
    refine ⟨?_, found⟩
    obtain ⟨x, inLog, r, inBatch, isContent⟩ := holds
    rcases List.mem_append.mp inLog with old | new
    · exact ⟨x, by simpa using old, r, inBatch, isContent⟩
    · exfalso
      rw [List.mem_singleton.mp new] at inBatch
      have lower := (fits.within r inBatch).1
      have below := seen c.offset horizon found
      have cleaned := rep.cleaned
      have isOffset : r.offset = c.offset := congrArg Content.offset isContent
      simp only at lower
      omega
  | truncated now _ =>
    exact Or.inl ⟨holds_of_truncateFront holds, horizon_of_truncateFront found⟩
  | retained _ now _ _ =>
    left
    have holds := holds_of_truncateFront holds
    have found := horizon_of_truncateFront found
    simpa [Holds] using And.intro holds found
  | @cleaned cfg now compacts due =>
    obtain ⟨z, inLog, _⟩ := ratioDue_nonempty due
    simp only [ensureSegment_recordBatches] at inLog
    rw [ensureSegment_of_mem rep inLog] at holds found due
    obtain ⟨x', inLog', r', inBatch', isContent'⟩ := holds
    obtain ⟨x, inLog, _, _, r, inBatch, isContent, _⟩ :=
      holds_of_clean rep codec cfg now inLog' inBatch'
    have isContent : r.content = c := isContent.trans isContent'
    have isOffset : r.offset = c.offset := congrArg Content.offset isContent
    rw [← isOffset] at found ⊢
    rcases horizon_of_clean rep codec cfg now inLog inBatch found with old | ⟨rewritten, new⟩
    · exact Or.inl ⟨⟨x, inLog, r, inBatch, isContent⟩, old⟩
    · right
      refine ⟨cfg, now, rfl, ⟨?_, x, inLog, rewritten, r, inBatch, isContent⟩, new⟩
      simp [cleans, compacts, due]

theorem runCalls_concat (codec : Codec) (p : PartitionState) (calls : List LogCall) (c : LogCall) :
    p.runCalls codec (calls ++ [c]) = (p.runCalls codec calls).call codec c := by
  simp [runCalls]

theorem Along.concat {codec : Codec} {condition : PartitionState → LogCall → Prop} {c : LogCall}
    (along : Along codec condition p (calls ++ [c])) :
    Along codec condition p calls ∧ condition (p.runCalls codec calls) c := by
  induction calls generalizing p with
  | nil => exact ⟨trivial, along.1⟩
  | cons d rest ih =>
    obtain ⟨onRest, onLast⟩ := ih along.2
    exact ⟨⟨along.1, onRest⟩, onLast⟩

theorem runCalls_horizonsSet (codec : Codec) (calls : List LogCall)
    (wellSent : Along codec (fun q c => c.WellSent q) {} calls) : HorizonsSet codec calls := by
  induction calls using List.reverseRecOn with
  | nil =>
    intro c _ horizon found
    cases found
  | append_singleton calls call ih =>
    obtain ⟨earlier, last⟩ := wellSent.concat
    have new : HorizonsClean {} := fun offset horizon found => by cases found
    obtain ⟨rep, seen⟩ := runCalls_seen codec calls rep_new new earlier
    intro c holds horizon found
    rw [runCalls_concat] at holds found
    rcases horizon_of_call rep seen codec last holds found with
      ⟨holds, found⟩ | ⟨cfg, now, rfl, sees, isHorizon⟩
    · obtain ⟨before, cfg, now, after, isCalls, sees, isHorizon⟩ := ih earlier c holds horizon found
      refine ⟨before, cfg, now, after ++ [call], ?_, sees, isHorizon⟩
      simp [isCalls]
    · exact ⟨calls, cfg, now, [], rfl, sees, isHorizon⟩

def LogCall.time : LogCall → Int
  | .produce _ _ _ _ now => now
  | .control _ _ _ now => now
  | .endTxn _ _ _ now => now
  | .truncateFront _ now => now
  | .applyRetention _ now => now
  | .compact _ now => now

def ClockForward (calls : List LogCall) : Prop :=
  calls.Pairwise (fun c d => c.time ≤ d.time)

theorem exists_first (forward : ClockForward calls) (holds : List LogCall → LogCall → Prop)
    {before after : List LogCall} {c : LogCall} (isCalls : calls = before ++ c :: after)
    (here : holds before c) :
    ∃ before' c' after', calls = before' ++ c' :: after' ∧ holds before' c' ∧ c'.time ≤ c.time ∧
      ∀ front d back, before' = front ++ d :: back → ¬ holds front d := by
  induction size : before.length using Nat.strong_induction_on generalizing before after c with
  | _ n ih =>
    by_cases earlier : ∃ front d back, before = front ++ d :: back ∧ holds front d
    · obtain ⟨front, d, back, isBefore, there⟩ := earlier
      have shorter : front.length < n := by
        rw [← size, isBefore]
        simp
      have isCalls' : calls = front ++ d :: (back ++ c :: after) := by
        rw [isCalls, isBefore]
        simp
      have sooner : d.time ≤ c.time := by
        unfold ClockForward at forward
        rw [isCalls'] at forward
        have tail := (List.pairwise_append.mp forward).2.1
        exact List.rel_of_pairwise_cons tail (List.mem_append_right back List.mem_cons_self)
      obtain ⟨before', c', after', split, found, atMost, first⟩ :=
        ih front.length shorter isCalls' there rfl
      exact ⟨before', c', after', split, found, le_trans atMost sooner, first⟩
    · refine ⟨before, c, after, isCalls, here, le_rfl, ?_⟩
      intro front d back isBefore there
      exact earlier ⟨front, d, back, isBefore, there⟩

structure KeepsCurrent (codec : Codec) (p : PartitionState) (cfg : LogConfig) (now : Int) :
    Prop where
  safe : ∀ x, x ∈ p.recordBatches → ∀ r, r ∈ recordsOf x → p.Protected cfg now x r →
    (compact codec p cfg now).1.Holds r.content
  keyless : ∀ x, x ∈ p.recordBatches → ∀ r, r ∈ recordsOf x → r.key = none →
    (compact codec p cfg now).1.Holds r.content
  current : ∀ x, x ∈ p.recordBatches → ∀ r, r ∈ recordsOf x → r.value.isSome = true →
    (∀ y, y ∈ p.recordBatches → y.2.plain = true → ∀ s, s ∈ recordsOf y →
      s.offset < p.uncleanable cfg now → s.key = r.key → s.offset ≤ r.offset) →
    (compact codec p cfg now).1.Holds r.content
  high : (compact codec p cfg now).1.highWatermark = p.highWatermark
  start : (compact codec p cfg now).1.logStartOffset = p.logStartOffset
  aborted : (compact codec p cfg now).1.abortedTxns = p.abortedTxns
  active : (compact codec p cfg now).1.activeTxns = p.activeTxns

/-- No dirty plain record below the limit is newer and has the key of `r`. -/
def Unsuperseded (p : PartitionState) (cfg : LogConfig) (now : Int) (r : Record) : Prop :=
  ∀ y, y ∈ p.recordBatches → y.2.plain = true → p.firstDirty ≤ y.1 → ∀ s, s ∈ recordsOf y →
    s.offset < p.uncleanable cfg now → s.key = r.key → s.offset ≤ r.offset

/-- The first clean of the run that saw the record ran `retention` or more before `now`. -/
def SeenBefore (codec : Codec) (calls : List LogCall) (c : Content) (retention now : Int) : Prop :=
  ∃ before cfg seenAt after, calls = before ++ .compact cfg seenAt :: after ∧
    (runCalls codec {} before).Sees cfg seenAt c ∧
    (∀ front cfg' now' back, before = front ++ .compact cfg' now' :: back →
      ¬ (runCalls codec {} front).Sees cfg' now' c) ∧
    min (seenAt + retention) i64Max ≤ now

theorem holds_compact (rep : Rep p) (codec : Codec) (cfg : LogConfig) (now : Int)
    (inLog : x ∈ p.recordBatches) (inBatch : r ∈ recordsOf x)
    (kept : p.cleans cfg now = true → p.keeps cfg now (x, r) = true) :
    (compact codec p cfg now).1.Holds r.content := by
  rw [compact_eq rep]
  split
  · rename_i runs
    exact holds_clean rep codec cfg now inLog inBatch (kept runs)
  · split
    · exact ⟨x, by simpa using inLog, r, inBatch, rfl⟩
    · exact ⟨x, inLog, r, inBatch, rfl⟩

theorem compact_keepsCurrent (rep : Rep p) (codec : Codec) (cfg : LogConfig) (now : Int) :
    KeepsCurrent codec p cfg now where
  safe := by
    intro x inLog r inBatch safe
    apply holds_compact rep codec cfg now inLog inBatch
    intro _
    exact keeps_of_protected rep inLog inBatch safe
  keyless := by
    intro x inLog r inBatch keyless'
    apply holds_compact rep codec cfg now inLog inBatch
    intro _
    exact keeps_of_keyless x keyless'
  current := by
    intro x inLog r inBatch valued current
    apply holds_compact rep codec cfg now inLog inBatch
    intro runs
    exact keeps_of_current rep (segments_nonempty_of_cleans rep runs) valued current
  high := by
    rw [compact_eq rep]
    split
    · rfl
    · split <;> simp
  start := by
    rw [compact_eq rep]
    split
    · rfl
    · split <;> simp
  aborted := by
    rw [compact_eq rep]
    split
    · rfl
    · split <;> simp
  active := by
    rw [compact_eq rep]
    split
    · rfl
    · split <;> simp

theorem expired_of_dropped (rep : Rep p) (codec : Codec) {now : Int} (inLog : x ∈ p.recordBatches)
    (inBatch : r ∈ recordsOf x) (newest : p.Unsuperseded cfg now r)
    (gone : ¬ (compact codec p cfg now).1.Holds r.content) :
    ∃ horizon, p.tombstoneHorizons r.offset = some horizon ∧ horizon ≤ now := by
  have dropped : p.cleans cfg now = true ∧ p.keeps cfg now (x, r) = false := by
    by_contra kept
    apply gone
    apply holds_compact rep codec cfg now inLog inBatch
    intro runs
    by_contra drops
    exact kept ⟨runs, by simpa using drops⟩
  obtain ⟨runs, dropped⟩ := dropped
  have boundary := rep.uncleanable_boundary (segments_nonempty_of_cleans rep runs) cfg now
  rcases dropped_cases cfg now dropped with gone' | aged
  · exfalso
    simp only [superseded, Option.any_eq_true, decide_eq_true_eq] at gone'
    obtain ⟨k, isKey, newestOffset, found, newer⟩ := gone'
    obtain ⟨s, inDirty, sameKey, isNewest⟩ := latestOffsets_some found
    obtain ⟨y, inLog', rewritten, dirty, inBatch'⟩ := mem_dirtyRecords inDirty
    have below := offset_lt_of_cleanable rep boundary inLog' rewritten inBatch'
    have plain : y.2.plain = true := by
      simp only [cleanable, Bool.and_eq_true] at rewritten
      exact rewritten.2
    have upper := newest y inLog' plain dirty s inBatch' below (sameKey.trans isKey.symm)
    omega
  · simp only [agedOut, expired, Bool.and_eq_true, Option.any_eq_true, decide_eq_true_eq] at aged
    exact aged.2.2

/-- A pass of the cleaner keeps what is current, leaves each key once below where it stops (where no log
start has cut a dirty batch with a key twice), and a tombstone goes for a newer record or when due. -/
theorem runCalls_compact (codec : Codec) (calls : List LogCall)
    (wellSent : Along codec (fun q c => c.WellSent q) {} calls) (forward : ClockForward calls)
    (cfg : LogConfig) (now : Int) :
    KeepsCurrent codec (runCalls codec {} calls) cfg now ∧
      (Along codec (fun q c => c.CutsNoDuplicates q) {} calls →
        (runCalls codec {} calls).cleans cfg now = true →
        UniqueBelow (compact codec (runCalls codec {} calls) cfg now).1.recordBatches
          ((runCalls codec {} calls).uncleanable cfg now)) ∧
      (∀ retention, (∀ cfg' now', .compact cfg' now' ∈ calls → retention ≤ cfg'.deleteRetentionMs) →
        ∀ x, x ∈ (runCalls codec {} calls).recordBatches → ∀ r, r ∈ recordsOf x →
          (runCalls codec {} calls).Unsuperseded cfg now r → r.value = none →
          ¬ (compact codec (runCalls codec {} calls) cfg now).1.Holds r.content →
          SeenBefore codec calls r.content retention now) := by
  have new : HorizonsClean {} := fun offset horizon found => by cases found
  obtain ⟨rep, seen⟩ := runCalls_seen codec calls rep_new new wellSent
  refine ⟨compact_keepsCurrent rep codec cfg now, ?_, ?_⟩
  · intro uncut runs
    have both := Along.and wellSent uncut
    have empty : Compacted {} := fun x member => by cases member
    have compacted := runCalls_compacted codec calls rep_new empty both
    rw [compact_eq rep, if_pos runs]
    exact compacted.clean rep (segments_nonempty_of_cleans rep runs) codec cfg now
  · intro retention atLeast x inLog r inBatch newest _ gone
    obtain ⟨horizon, found, passed⟩ := expired_of_dropped rep codec inLog inBatch newest gone
    obtain ⟨before, cfg₀, now₀, after, isCalls, sees, isHorizon⟩ :=
      runCalls_horizonsSet codec calls wellSent r.content ⟨x, inLog, r, inBatch, rfl⟩ horizon found
    obtain ⟨before', c', after', split, ⟨cfg₁, now₁, rfl, sees'⟩, sooner, first⟩ :=
      exists_first forward (fun front c => ∃ cfg' now', c = .compact cfg' now' ∧
        (runCalls codec {} front).Sees cfg' now' r.content) isCalls ⟨cfg₀, now₀, rfl, sees⟩
    refine ⟨before', cfg₁, now₁, after', split, sees', ?_, ?_⟩
    · intro front cfg' now' back isBefore sees''
      exact first front _ back isBefore ⟨cfg', now', rfl, sees''⟩
    · have listed : LogCall.compact cfg₀ now₀ ∈ calls := by
        rw [isCalls]
        exact List.mem_append_right before List.mem_cons_self
      have waited := atLeast cfg₀ now₀ listed
      simp only [LogCall.time] at sooner
      omega

theorem holds_iff (p : PartitionState) (c : Content) :
    p.Holds c ↔ c ∈ contents (p.recordBatches.flatMap recordsOf) := by
  simp only [Holds, contents, List.mem_map, List.mem_flatMap]
  constructor
  · rintro ⟨x, inLog, r, inBatch, isContent⟩
    exact ⟨r, ⟨x, inLog, inBatch⟩, isContent⟩
  · rintro ⟨r, ⟨x, inLog, inBatch⟩, isContent⟩
    exact ⟨x, inLog, r, inBatch, isContent⟩

theorem runCalls_compact_deletedAtOnce :
    KeepsCurrent hundredBytes (runCalls hundredBytes {} deletedAtOnce) eager 600 ∧
      UniqueBelow (compact hundredBytes (runCalls hundredBytes {} deletedAtOnce) eager 600).1.recordBatches
        3 ∧
      SeenBefore hundredBytes deletedAtOnce ⟨1, some [2], none⟩ 100 600 := by
  have forward : ClockForward deletedAtOnce := by
    simp [ClockForward, deletedAtOnce, send, LogCall.time]
  obtain ⟨keeps, unique, seen⟩ := runCalls_compact hundredBytes deletedAtOnce deletedAtOnce_wellSent
    forward eager 600
  refine ⟨keeps, unique ⟨trivial, trivial, trivial, trivial, trivial⟩ rfl, ?_⟩
  obtain ⟨x, rest, isFirst, r, isRecord, isContent⟩ : ∃ x rest,
      (runCalls hundredBytes {} deletedAtOnce).recordBatches = x :: rest ∧
        ∃ r, recordsOf x = [r] ∧ r.content = ⟨1, some [2], none⟩ := ⟨_, _, rfl, _, rfl, rfl⟩
  rw [← isContent]
  apply seen 100 _ x (by rw [isFirst]; exact List.mem_cons_self) r
    (by rw [isRecord]; exact List.mem_singleton_self r)
  · have upTo : ∀ y, y ∈ (runCalls hundredBytes {} deletedAtOnce).recordBatches →
        ∀ s, s ∈ recordsOf y → s.key = some [2] → s.offset ≤ 1 := by decide
    intro y inLog _ _ s inBatch _ sameKey
    have isKey : r.key = some [2] := congrArg Content.key isContent
    have isOffset : r.offset = 1 := congrArg Content.offset isContent
    rw [isOffset]
    exact upTo y inLog s inBatch (sameKey.trans isKey)
  · exact congrArg Content.value isContent
  · rw [isContent, holds_iff]
    decide
  · intro cfg' now' member
    have isEager : cfg' = eager := by
      simp only [deletedAtOnce, send, List.mem_cons, reduceCtorEq, LogCall.compact.injEq,
        List.not_mem_nil, or_false, false_or] at member
      exact member.1
    rw [isEager]
    decide

def writtenAgain : List LogCall :=
  [send 0 [([2], none), ([2], some [1])], send 300 [([3], some [1])]]

theorem writtenAgain_wellSent :
    Along hundredBytes (fun q c => c.WellSent q) {} writtenAgain := by
  have sent := fun p now records some' => send_wellSent p now records some'
  exact ⟨sent _ _ _ (by simp), sent _ _ _ (by simp), trivial⟩

theorem runCalls_compact_writtenAgain :
    ¬ ∀ (codec : Codec) (calls : List LogCall), Along codec (fun q c => c.WellSent q) {} calls →
      ClockForward calls → ∀ (cfg : LogConfig) (now : Int),
        (∀ cfg' now', .compact cfg' now' ∈ calls →
          cfg.deleteRetentionMs ≤ cfg'.deleteRetentionMs) →
        ∀ x, x ∈ (runCalls codec {} calls).recordBatches → ∀ r, r ∈ recordsOf x → r.value = none →
          ¬ (compact codec (runCalls codec {} calls) cfg now).1.Holds r.content →
          SeenBefore codec calls r.content cfg.deleteRetentionMs now := by
  intro claimed
  have forward : ClockForward writtenAgain := by
    simp [ClockForward, writtenAgain, send, LogCall.time]
  have noClean : ∀ cfg' now', LogCall.compact cfg' now' ∉ writtenAgain := by
    intro cfg' now' member
    simp [writtenAgain, send] at member
  obtain ⟨x, rest, isFirst, r, later, isRecord, isContent⟩ : ∃ x rest,
      (runCalls hundredBytes {} writtenAgain).recordBatches = x :: rest ∧
        ∃ r later, recordsOf x = r :: later ∧ r.content = ⟨0, some [2], none⟩ :=
    ⟨_, _, rfl, _, _, rfl, rfl⟩
  have gone : ¬ (compact hundredBytes (runCalls hundredBytes {} writtenAgain) eager 300).1.Holds
      r.content := by
    rw [isContent, holds_iff]
    decide
  obtain ⟨before, cfg, seenAt, after, isCalls, _⟩ := claimed hundredBytes writtenAgain
    writtenAgain_wellSent forward eager 300 (fun cfg' now' member => (noClean cfg' now' member).elim)
    x (by rw [isFirst]; exact List.mem_cons_self) r (by rw [isRecord]; exact List.mem_cons_self)
    (congrArg Content.value isContent) gone
  apply noClean cfg seenAt
  rw [isCalls]
  exact List.mem_append_right before List.mem_cons_self

end PartitionState

end NoidaDb.Kafka
