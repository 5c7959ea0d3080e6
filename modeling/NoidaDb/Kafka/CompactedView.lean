/-
What a compacted log says about each key.

A clean drops a record only for a newer one of its key, or because it is a tombstone that has aged
out; the second is where an older value can come back.
-/

import Mathlib.Data.List.MinMax
import NoidaDb.Kafka.LogRuns

namespace NoidaDb.Kafka

namespace PartitionState

/-! ### The view -/

/-- How the transaction of `producerId` that is open before `later` ends. -/
def nextMarker (producerId : Int) (later : List (Int × Batch)) : Option Bool :=
  (later.find? (fun x => x.2.control && x.2.producerId == producerId)).bind (fun x => x.2.marker)

def committedBatch (x : Int × Batch) (later : List (Int × Batch)) : Bool :=
  !x.2.control && (!x.2.transactional || nextMarker x.2.producerId later == some true)

abbrev Stored := (Int × Batch) × Record

def Stored.offset (s : Stored) : Int := s.2.offset

def storedIn (x : Int × Batch) : List Stored := (recordsOf x).map (fun r => (x, r))

def committedRecords : List (Int × Batch) → List Stored
  | [] => []
  | x :: later => (if committedBatch x later then storedIn x else []) ++ committedRecords later

def recordsOfKey (p : PartitionState) (key : Bytes) : List Stored :=
  (committedRecords p.recordBatches).filter (fun s =>
    decide (s.2.key = some key) && decide (p.logStartOffset ≤ s.offset))

def newest (stored : List Stored) : Option Stored :=
  @List.argmax Stored Int Int.instLinearOrder.toPreorder Int.decLt Stored.offset stored

def view (p : PartitionState) (key : Bytes) : Option Bytes :=
  (newest (p.recordsOfKey key)).bind (fun s => s.2.value)

/-! ### The committed records -/

variable {p : PartitionState} {batches : List (Int × Batch)} {limit : Int} {r : Record}

theorem mem_committedRecords {s : Stored} (member : s ∈ committedRecords batches) :
    s.1 ∈ batches ∧ s.2 ∈ recordsOf s.1 := by
  induction batches with
  | nil => cases member
  | cons x later ih =>
    rcases List.mem_append.mp member with here | there
    · split at here
      · obtain ⟨r, inBatch, rfl⟩ := List.mem_map.mp here
        exact ⟨List.mem_cons_self, inBatch⟩
      · cases here
    · obtain ⟨inLater, inBatch⟩ := ih there
      exact ⟨List.mem_cons_of_mem x inLater, inBatch⟩

theorem mem_committedRecords_of_plain {x : Int × Batch} (member : x ∈ batches)
    (plain : x.2.plain = true) (inBatch : r ∈ recordsOf x) : (x, r) ∈ committedRecords batches := by
  induction batches with
  | nil => cases member
  | cons y later ih =>
    apply List.mem_append.mpr
    rcases List.mem_cons.mp member with same | inLater
    · left
      subst same
      have flags : x.2.transactional = false ∧ x.2.control = false := by
        simpa [Batch.plain] using plain
      have committed : committedBatch x later = true := by
        simp [committedBatch, flags]
      rw [if_pos committed]
      exact List.mem_map_of_mem inBatch
    · right
      exact ih inLater

theorem committedRecords_increasing (fits : ∀ x, x ∈ batches → BatchFits x)
    (ordered : batches.Pairwise (fun x y => batchLastOffset x.1 x.2 < y.1)) :
    (committedRecords batches).Pairwise (fun s t => s.offset < t.offset) := by
  induction batches with
  | nil => exact .nil
  | cons x later ih =>
    obtain ⟨fromHead, fromLater⟩ := List.pairwise_cons.mp ordered
    have fitsX := fits x List.mem_cons_self
    have fitsLater := fun y member => fits y (List.mem_cons_of_mem x member)
    apply List.pairwise_append.mpr
    refine ⟨?_, ih fitsLater fromLater, ?_⟩
    · split
      · exact List.pairwise_map.mpr fitsX.increasing
      · exact .nil
    · intro s here t there
      obtain ⟨inLater, inBatch⟩ := mem_committedRecords there
      split at here
      · obtain ⟨r, inX, rfl⟩ := List.mem_map.mp here
        exact offset_ne_of_apart fitsX (fitsLater t.1 inLater) (fromHead t.1 inLater) inX inBatch
      · cases here

theorem recordsOfKey_increasing (rep : Rep p) (key : Bytes) :
    (p.recordsOfKey key).Pairwise (fun s t => s.offset < t.offset) :=
  (committedRecords_increasing rep.fits rep.ordered).filter _

theorem newest_eq_some_of_increasing {stored : List Stored} {s : Stored}
    (increasing : stored.Pairwise (fun s t => s.offset < t.offset)) :
    newest stored = some s ↔
      s ∈ stored ∧ ∀ t, t ∈ stored → t.offset ≤ s.offset := by
  constructor
  · intro isNewest
    exact ⟨List.argmax_mem isNewest, fun t member => List.le_of_mem_argmax member isNewest⟩
  · rintro ⟨member, isNewest⟩
    cases found : newest stored with
    | none =>
      rw [List.argmax_eq_none.mp found] at member
      cases member
    | some t =>
      have inStored := List.argmax_mem found
      have atLeast := List.le_of_mem_argmax member found
      have atMost := isNewest t inStored
      have distinct : stored.Pairwise (fun s t => s.offset ≠ t.offset) :=
        increasing.imp (fun before => ne_of_lt before)
      have same : t = s := by
        by_contra different
        have symm : Std.Symm (fun s t : Stored => s.offset ≠ t.offset) := ⟨fun _ _ => Ne.symm⟩
        have apart := distinct.forall inStored member different
        omega
      rw [same]

/-! ### The view by contents -/

def storedContents (stored : List Stored) : List Content := stored.map (fun s => s.2.content)

theorem view_eq_some_iff (rep : Rep p) (key value : Bytes) :
    p.view key = some value ↔
      ∃ c, c ∈ storedContents (p.recordsOfKey key) ∧ c.value = some value ∧
        ∀ d, d ∈ storedContents (p.recordsOfKey key) → d.offset ≤ c.offset := by
  have increasing := recordsOfKey_increasing rep key
  simp only [view, Option.bind_eq_some_iff, newest_eq_some_of_increasing increasing]
  constructor
  · rintro ⟨s, ⟨member, newest⟩, isValue⟩
    refine ⟨s.2.content, List.mem_map_of_mem member, isValue, ?_⟩
    intro d inContents
    obtain ⟨t, inStored, rfl⟩ := List.mem_map.mp inContents
    exact newest t inStored
  · rintro ⟨c, member, isValue, newest⟩
    obtain ⟨s, inStored, rfl⟩ := List.mem_map.mp member
    refine ⟨s, ⟨inStored, ?_⟩, isValue⟩
    intro t inStored'
    exact newest t.2.content (List.mem_map_of_mem inStored')

/-! ### The committed records after a clean -/

section Cleaned

variable (codec : Codec) (latest : Latest) (limit now : Int) (horizons : Horizons)

def keptBy (s : Stored) : Bool := !cleanable limit s.1 || survives latest horizons now s.2

variable {x : Int × Batch}

theorem cleanedBatch_of_not_cleanable (apart : cleanable limit x = false) :
    cleanedBatch codec latest limit now horizons x = [x] := by
  simp [cleanedBatch, apart]

theorem reencode_plain (b : Batch) {kept : List Record}
    (plain : ∀ r, r ∈ kept → r.transactional = false ∧ r.control = false) {x' : Int × Batch}
    (member : x' ∈ reencode codec b kept) : x'.2.plain = true := by
  cases kept with
  | nil => cases member
  | cons first rest =>
    have flags := plain first List.mem_cons_self
    unfold reencode resequence at member
    by_cases anonymous : first.producerId < 0
    · simp only [if_pos anonymous, List.map_cons, List.mem_singleton] at member
      subst member
      cases b.logAppendTime <;>
        simp [Batch.flagged, Batch.setLogAppendTimeFlag, Batch.plain, Codec.encode, flags]
    · simp only [if_neg anonymous, List.mem_singleton] at member
      subst member
      cases b.logAppendTime <;>
        simp [Batch.flagged, Batch.setLogAppendTimeFlag, Batch.plain, Codec.encode, flags]

theorem recordsOf_flags {r : Record} (member : r ∈ recordsOf x) :
    r.transactional = x.2.transactional ∧ r.control = x.2.control := by
  cases found : x.2.entries with
  | none => simp [recordsOf, Batch.decode, found] at member
  | some entries =>
    simp only [recordsOf, Batch.decode, found, Option.map_some, Option.getD_some] at member
    obtain ⟨e, _, rfl⟩ := List.mem_map.mp member
    exact ⟨rfl, rfl⟩

theorem cleanedBatch_plain {x' : Int × Batch} (rewritten : cleanable limit x = true)
    (member : x' ∈ cleanedBatch codec latest limit now horizons x) : x'.2.plain = true := by
  have plain : x.2.plain = true := by
    simp only [cleanable, Bool.and_eq_true] at rewritten
    exact rewritten.2
  unfold cleanedBatch at member
  rw [if_pos rewritten] at member
  split at member
  · rw [List.mem_singleton.mp member]
    exact plain
  · apply reencode_plain codec x.2 _ member
    intro r inKept
    obtain ⟨transactional, control⟩ := recordsOf_flags (List.mem_filter.mp inKept).1
    simp only [Batch.plain, Bool.and_eq_true, Bool.not_eq_true'] at plain
    rw [transactional, control]
    exact plain

theorem nextMarker_cleaned (producerId : Int) (later : List (Int × Batch)) :
    nextMarker producerId (later.flatMap (cleanedBatch codec latest limit now horizons)) =
      nextMarker producerId later := by
  have noControl : ∀ {y : Int × Batch}, y.2.plain = true →
      (y.2.control && y.2.producerId == producerId) = false := by
    intro y plain
    have flags : y.2.transactional = false ∧ y.2.control = false := by
      simpa [Batch.plain] using plain
    simp [flags]
  unfold nextMarker
  congr 1
  induction later with
  | nil => rfl
  | cons x rest ih =>
    rw [List.flatMap_cons, List.find?_append]
    cases rewritten : cleanable limit x with
    | false =>
      rw [cleanedBatch_of_not_cleanable codec latest limit now horizons rewritten, ih]
      rw [List.find?_singleton, List.find?_cons]
      cases x.2.control && x.2.producerId == producerId <;> rfl
    | true =>
      have plain : x.2.plain = true := by
        simp only [cleanable, Bool.and_eq_true] at rewritten
        exact rewritten.2
      have nothing : (cleanedBatch codec latest limit now horizons x).find?
          (fun y => y.2.control && y.2.producerId == producerId) = none := by
        apply List.find?_eq_none.mpr
        intro y member
        rw [noControl (cleanedBatch_plain codec latest limit now horizons rewritten member)]
        exact Bool.false_ne_true
      rw [nothing, ih, Option.none_or, List.find?_cons, noControl plain]

theorem storedContents_append (front back : List Stored) :
    storedContents (front ++ back) = storedContents front ++ storedContents back :=
  List.map_append

theorem storedContents_storedIn (x : Int × Batch) :
    storedContents (storedIn x) = contents (recordsOf x) := by
  simp [storedContents, storedIn, contents]

theorem committedRecords_append_plain {front : List (Int × Batch)}
    (plain : ∀ x, x ∈ front → x.2.plain = true) (later : List (Int × Batch)) :
    committedRecords (front ++ later) = front.flatMap storedIn ++ committedRecords later := by
  induction front with
  | nil => rfl
  | cons x rest ih =>
    have flags : x.2.transactional = false ∧ x.2.control = false := by
      simpa [Batch.plain] using plain x List.mem_cons_self
    have committed : committedBatch x (rest ++ later) = true := by
      simp [committedBatch, flags]
    rw [List.cons_append, committedRecords, if_pos committed,
      ih (fun y member => plain y (List.mem_cons_of_mem x member)), List.flatMap_cons,
      List.append_assoc]

theorem storedContents_flatMap (front : List (Int × Batch)) :
    storedContents (front.flatMap storedIn) = contents (front.flatMap recordsOf) := by
  simp only [storedContents, contents, List.map_flatMap]
  congr 1
  funext x
  exact storedContents_storedIn x

theorem committedRecords_cleaned {batches : List (Int × Batch)}
    (fits : ∀ x, x ∈ batches → BatchFits x) :
    storedContents (committedRecords
        (batches.flatMap (cleanedBatch codec latest limit now horizons))) =
      storedContents ((committedRecords batches).filter (keptBy latest limit now horizons)) := by
  induction batches with
  | nil => rfl
  | cons x later ih =>
    have ih := ih (fun y member => fits y (List.mem_cons_of_mem x member))
    rw [List.flatMap_cons, committedRecords, List.filter_append, storedContents_append]
    cases rewritten : cleanable limit x with
    | false =>
      have same : committedBatch x
          (later.flatMap (cleanedBatch codec latest limit now horizons)) =
            committedBatch x later := by
        simp only [committedBatch, nextMarker_cleaned]
      have all : (storedIn x).filter (keptBy latest limit now horizons) = storedIn x := by
        apply List.filter_eq_self.mpr
        intro s member
        obtain ⟨r, _, rfl⟩ := List.mem_map.mp member
        simp [keptBy, rewritten]
      rw [cleanedBatch_of_not_cleanable codec latest limit now horizons rewritten,
        List.singleton_append, committedRecords, storedContents_append, same, ih]
      split
      · rw [all]
      · rfl
    | true =>
      have plain : x.2.plain = true := by
        simp only [cleanable, Bool.and_eq_true] at rewritten
        exact rewritten.2
      have flags : x.2.transactional = false ∧ x.2.control = false := by
        simpa [Batch.plain] using plain
      have committed : committedBatch x later = true := by
        simp [committedBatch, flags]
      have filtered : (storedIn x).filter (keptBy latest limit now horizons) =
          ((recordsOf x).filter (fun r =>
            !cleanable limit x || survives latest horizons now r)).map (fun r => (x, r)) := by
        rw [storedIn, List.filter_map]
        rfl
      rw [committedRecords_append_plain
          (fun y member => cleanedBatch_plain codec latest limit now horizons rewritten member),
        storedContents_append, ih, if_pos committed, storedContents_flatMap,
        cleanedBatch_contents codec latest limit now horizons (fits x List.mem_cons_self),
        filtered]
      simp [storedContents, contents]

end Cleaned

/-! ### Where a clean looks -/

theorem Boundary.min {a b : Int} (first : Boundary batches a) (second : Boundary batches b) :
    Boundary batches (min a b) := by
  rcases le_total a b with le | le
  · rw [min_eq_left le]
    exact first
  · rw [min_eq_right le]
    exact second

theorem Rep.uncleanable_boundary (rep : Rep p) (some' : p.segments ≠ []) (cfg : LogConfig)
    (now : Int) : Boundary p.recordBatches (p.uncleanable cfg now) := by
  obtain ⟨active, last⟩ : ∃ active, p.segments.getLast? = some active := by
    rw [← Option.isSome_iff_exists, List.getLast?_isSome]
    exact some'
  have atActive := rep.bounds active (List.mem_of_getLast? last)
  have young : ∀ {base : Int} {s : Span}, Boundary p.recordBatches base →
      p.segmentSpans.find? (fun s =>
        decide (0 < s.size) && decide (now - cfg.minCompactionLagMs < s.maxTs)) = some s →
      Boundary p.recordBatches (min base s.lo) := by
    intro base s atBase found
    obtain ⟨segment, member, isLo, _⟩ := mem_spansFrom (List.mem_of_find?_eq_some found)
    rw [isLo]
    exact atBase.min (rep.bounds segment member)
  unfold uncleanable
  simp only [last, Option.map_some, Option.getD_some]
  cases found : (p.activeTxns.map Prod.snd).min? with
  | none =>
    split
    · split
      · exact young atActive (by assumption)
      · exact atActive
    · exact atActive
  | some first =>
    obtain ⟨t, member, isFirst⟩ := List.mem_map.mp (List.min?_mem found)
    have settled : Boundary p.recordBatches (min active.baseOffset first) := by
      rw [← isFirst]
      exact atActive.min (rep.opened t member).1
    split
    · split
      · exact young settled (by assumption)
      · exact settled
    · exact settled

theorem offset_lt_of_cleanable (rep : Rep p) (boundary : Boundary p.recordBatches limit)
    {x : Int × Batch} (inLog : x ∈ p.recordBatches) (rewritten : cleanable limit x = true)
    (inBatch : r ∈ recordsOf x) : r.offset < limit := by
  simp only [cleanable, Bool.and_eq_true, decide_eq_true_eq] at rewritten
  have upper := ((rep.fits x inLog).within r inBatch).2
  rcases boundary x inLog with above | below
  · omega
  · omega

theorem mem_dirtyRecords (member : r ∈ p.dirtyRecords limit) :
    ∃ x, x ∈ p.recordBatches ∧ cleanable limit x = true ∧ p.firstDirty ≤ x.1 ∧
      r ∈ recordsOf x := by
  obtain ⟨x, inDirty, inBatch⟩ := List.mem_flatMap.mp member
  obtain ⟨inBelow, dirty⟩ := List.mem_filter.mp inDirty
  have under := List.mem_takeWhile_imp inBelow
  simp only [decide_eq_true_eq, Bool.and_eq_true] at dirty under
  refine ⟨x, (List.takeWhile_prefix _).subset inBelow, ?_, dirty.1, inBatch⟩
  simp [cleanable, under, dirty.2]

theorem noteLatest_apply (limit : Int) (latest : Latest) (r : Record) (k : Bytes) :
    noteLatest limit latest r k =
      if r.key = some k ∧ r.offset < limit then some r.offset else latest k := by
  unfold noteLatest
  cases found : r.key with
  | none => simp
  | some key =>
    by_cases below : r.offset < limit
    · by_cases same : k = key
      · subst same
        simp [below]
      · have different : key ≠ k := fun equal => same equal.symm
        simp [below, same, different]
    · simp [below]

theorem foldl_noteLatest_some {records : List Record} {latest : Latest} {k : Bytes} {newest : Int}
    (found : records.foldl (noteLatest limit) latest k = some newest) :
    latest k = some newest ∨ ∃ r, r ∈ records ∧ r.key = some k ∧ r.offset = newest := by
  induction records generalizing latest with
  | nil => exact Or.inl found
  | cons r rest ih =>
    rcases ih found with before | ⟨s, member, isKey, isNewest⟩
    · rw [noteLatest_apply] at before
      split at before
      · rename_i noted
        exact Or.inr ⟨r, List.mem_cons_self, noted.1, Option.some.inj before⟩
      · exact Or.inl before
    · exact Or.inr ⟨s, List.mem_cons_of_mem r member, isKey, isNewest⟩

theorem latestOffsets_some {k : Bytes} {newest : Int}
    (found : p.latestOffsets limit k = some newest) :
    ∃ r, r ∈ p.dirtyRecords limit ∧ r.key = some k ∧ r.offset = newest := by
  rcases foldl_noteLatest_some found with nothing | inRecords
  · cases nothing
  · exact inRecords

/-! ### Horizons -/

def HorizonsClean (p : PartitionState) : Prop :=
  ∀ offset horizon, p.tombstoneHorizons offset = some horizon → offset < p.cleanOffset

theorem HorizonsClean.of_same {p' : PartitionState} (seen : p.HorizonsClean)
    (horizons : p'.tombstoneHorizons = p.tombstoneHorizons)
    (offset : p'.cleanOffset = p.cleanOffset) : p'.HorizonsClean := by
  unfold HorizonsClean
  rw [horizons, offset]
  exact seen

theorem HorizonsClean.truncateFront (seen : p.HorizonsClean) (newStart now : Int) :
    (p.truncateFront newStart now).HorizonsClean := by
  unfold PartitionState.truncateFront
  split
  · exact seen
  · intro offset horizon found
    simp only [ensureSegment_tombstoneHorizons, ensureSegment_cleanOffset] at found ⊢
    split at found
    · have before := seen offset horizon found
      omega
    · cases found

theorem HorizonsClean.clean (seen : p.HorizonsClean) (rep : Rep p) (some' : p.segments ≠ [])
    (codec : Codec) (cfg : LogConfig) (now : Int) : (clean codec p cfg now).1.HorizonsClean := by
  have boundary := rep.uncleanable_boundary some' cfg now
  obtain ⟨_, _, others⟩ := cleanBatches_spec codec (p.latestOffsets (p.uncleanable cfg now))
    (p.uncleanable cfg now) cfg now rep.fits rep.ordered
    (fun (_ : Int × Batch) _ (r : Record) _ => (rfl : p.tombstoneHorizons r.offset = _))
  intro offset horizon found
  simp only [PartitionState.clean] at found ⊢
  by_cases looked : ∃ r, r ∈ p.recordBatches.flatMap (cleanedRecords (p.uncleanable cfg now)) ∧
      r.offset = offset
  · obtain ⟨r, member, rfl⟩ := looked
    obtain ⟨x, inLog, inBatch⟩ := List.mem_flatMap.mp member
    obtain ⟨rewritten, inBatch⟩ := mem_cleanedRecords inBatch
    have below := offset_lt_of_cleanable rep boundary inLog rewritten inBatch
    exact lt_max_of_lt_right below
  · rw [others offset (fun r member same => looked ⟨r, member, same⟩)] at found
    exact lt_max_of_lt_left (seen offset horizon found)

theorem noteProducer_only (p : PartitionState) (b : Batch) :
    ∃ seqs txns, p.noteProducer b = { p with producerSeqs := seqs, activeTxns := txns } := by
  unfold noteProducer
  split
  · exact ⟨_, _, rfl⟩
  · simp only
    split
    · unfold openTxn
      split
      · exact ⟨_, _, rfl⟩
      · exact ⟨_, _, rfl⟩
    · exact ⟨_, _, rfl⟩

theorem HorizonsClean.appendBatch (seen : p.HorizonsClean) (batch : Batch) (count now : Int)
    (cfg : Option LogConfig) : (p.appendBatch batch count now cfg).1.HorizonsClean := by
  rw [appendBatch_eq]
  apply seen.of_same
  · simp
  · simp

inductive LogChange (codec : Codec) (p : PartitionState) : LogCall → PartitionState → Prop
  | same (c : LogCall) : LogChange codec p c p
  | ensured (c : LogCall) (now : Int) : LogChange codec p c (p.ensureSegment now)
  | appended (c : LogCall) (seqs : Int × Int → Option (Int × Int)) (active aborted : List (Int × Int))
      {batch : Batch} {count : Int} (now : Int) (cfg : Option LogConfig)
      (fits : BatchFits (p.highWatermark, batch)) (counted : batch.lastOffsetDelta < count)
      (rep : Rep { p with producerSeqs := seqs, activeTxns := active, abortedTxns := aborted }) :
      LogChange codec p c ({ p with
        producerSeqs := seqs, activeTxns := active, abortedTxns := aborted }.appendBatch batch count
          now cfg).1
  | truncated {newStart : Int} (now : Int) (upper : newStart ≤ p.highWatermark) :
      LogChange codec p (.truncateFront newStart now) (p.truncateFront newStart now)
  | retained (cfg : LogConfig) {newStart : Int} (now : Int) (upper : newStart ≤ p.highWatermark)
      (boundary : Boundary p.recordBatches newStart) :
      LogChange codec p (.applyRetention cfg now) ((p.ensureSegment now).truncateFront newStart now)
  | cleaned {cfg : LogConfig} {now : Int} (compacts : cfg.compact = true)
      (due : (p.ensureSegment now).ratioDue cfg now = true) :
      LogChange codec p (.compact cfg now) (clean codec (p.ensureSegment now) cfg now).1

theorem Rep.span_hi_boundary (rep : Rep p) {s : Span} (member : s ∈ p.segmentSpans) :
    Boundary p.recordBatches s.hi := by
  obtain ⟨_, _, _, isHigh | ⟨next, inSegments, isNext⟩⟩ := mem_spansFrom member
  · intro x inLog
    right
    rw [isHigh]
    exact rep.ended x inLog
  · rw [isNext]
    exact rep.bounds next inSegments

theorem call_change (rep : Rep p) (codec : Codec) {c : LogCall} (wellSent : c.WellSent p) :
    LogChange codec p c (p.call codec c) := by
  cases c with
  | produce label expectedEpoch cfg records now =>
    rcases produce_cases codec label expectedEpoch cfg now records p with
      same | ⟨b, isBatch, _, _, stored⟩
    · have same : p.call codec (.produce label expectedEpoch cfg records now) = p := same
      rw [same]
      exact .same _
    · have stored : p.call codec (.produce label expectedEpoch cfg records now) = _ := stored
      have numbered := wellSent b isBatch
      have counted := numbered.counted
      obtain ⟨fits, atMost⟩ := storedAs_fits codec cfg numbered now p.highWatermark
      obtain ⟨seqs, txns, noted⟩ := p.noteProducer_only b
      have repNoted := rep.noteProducer b
      rw [noted] at repNoted
      rw [stored, storeBatch, noted]
      simp only [if_pos counted]
      exact .appended _ seqs txns p.abortedTxns now (some cfg) fits (Int.lt_add_one_of_le atMost)
        repNoted
  | control producerId producerEpoch committed now =>
    obtain ⟨fits, alone⟩ := encodeControlBatch_fits codec producerId producerEpoch
      p.highWatermark committed now
    exact .appended _ p.producerSeqs p.activeTxns p.abortedTxns now none fits (by omega) rep
  | endTxn producerId producerEpoch committed now =>
    rcases endTxn_cases codec producerId producerEpoch committed now p with same | ⟨first, _, ended⟩
    · simp only [PartitionState.call, same]
      exact .same _
    · simp only [PartitionState.call, ended]
      obtain ⟨fits, alone⟩ := encodeControlBatch_fits codec producerId producerEpoch
        p.highWatermark committed now
      exact .appended _ p.producerSeqs _ _ now none fits (by omega)
        (rep.closeTxn producerId committed first)
  | truncateFront newStart now => exact .truncated now wellSent
  | applyRetention cfg now =>
    rcases p.applyRetention_cases cfg now with same | same | ⟨hi, ⟨s, member, isHi⟩, same⟩
    · simp only [PartitionState.call, same]
      exact .same _
    · simp only [PartitionState.call, same]
      exact .ensured _ now
    · simp only [PartitionState.call, same]
      have upper := (rep.ensureSegment now).span_hi_le member
      have boundary := (rep.ensureSegment now).span_hi_boundary member
      rw [isHi] at upper boundary
      simp only [ensureSegment_highWatermark, ensureSegment_recordBatches] at upper boundary
      exact .retained cfg now upper boundary
  | compact cfg now =>
    simp only [PartitionState.call, PartitionState.compact]
    split
    · exact .same _
    · rename_i compacts
      split
      · rename_i due
        exact .cleaned (by simpa using compacts) due
      · exact .ensured _ now

theorem HorizonsClean.ensureSegment (seen : p.HorizonsClean) (now : Int) :
    (p.ensureSegment now).HorizonsClean := by
  simpa [HorizonsClean] using seen

theorem HorizonsClean.call {p : PartitionState} (seen : p.HorizonsClean) (rep : Rep p)
    (codec : Codec) {c : LogCall} (wellSent : c.WellSent p) : (p.call codec c).HorizonsClean := by
  have change := call_change rep codec wellSent
  generalize p.call codec c = p' at change
  cases change with
  | same => exact seen
  | ensured _ now => exact seen.ensureSegment now
  | appended =>
    apply HorizonsClean.appendBatch
    exact seen
  | truncated now _ => exact seen.truncateFront _ now
  | retained _ now _ _ => exact (seen.ensureSegment now).truncateFront _ now
  | cleaned _ _ =>
    exact (seen.ensureSegment _).clean (rep.ensureSegment _) (ensureSegment_nonempty p _) codec _ _

theorem runCalls_seen (codec : Codec) (calls : List LogCall) (rep : Rep p)
    (seen : p.HorizonsClean) (along : Along codec (fun q c => c.WellSent q) p calls) :
    Rep (p.runCalls codec calls) ∧ (p.runCalls codec calls).HorizonsClean := by
  induction calls generalizing p with
  | nil => exact ⟨rep, seen⟩
  | cons c rest ih => exact ih (rep.call codec along.1) (seen.call rep codec along.1) along.2

/-! ### Values that come back -/

def agedOut (p : PartitionState) (cfg : LogConfig) (now : Int) (s : Stored) : Bool :=
  cleanable (p.uncleanable cfg now) s.1 && expired p.tombstoneHorizons now s.2

/-- A committed value of the key that newer records follow, each of them a tombstone that
is dropped now. -/
def ComesBack (p : PartitionState) (cfg : LogConfig) (now : Int) (key : Bytes) : Prop :=
  ∃ s, s ∈ p.recordsOfKey key ∧ s.2.value.isSome = true ∧
    (∃ t, t ∈ p.recordsOfKey key ∧ s.offset < t.offset) ∧
    ∀ t, t ∈ p.recordsOfKey key → s.offset < t.offset → p.agedOut cfg now t = true

section Clean

variable {p : PartitionState} (rep : Rep p) (some' : p.segments ≠ []) (codec : Codec)
  (cfg : LogConfig) (now : Int)

def keeps (p : PartitionState) (cfg : LogConfig) (now : Int) : Stored → Bool :=
  keptBy (p.latestOffsets (p.uncleanable cfg now)) (p.uncleanable cfg now) now p.tombstoneHorizons

include rep in
theorem recordsOfKey_clean (key : Bytes) :
    storedContents ((clean codec p cfg now).1.recordsOfKey key) =
      storedContents ((p.recordsOfKey key).filter (p.keeps cfg now)) := by
  have written : (clean codec p cfg now).1.recordBatches = p.recordBatches.flatMap
      (cleanedBatch codec (p.latestOffsets (p.uncleanable cfg now)) (p.uncleanable cfg now) now
        p.tombstoneHorizons) :=
    (cleanBatches_spec codec _ _ cfg now rep.fits rep.ordered (fun _ _ _ _ => rfl)).1
  have byContent : ∀ stored : List Stored,
      storedContents (stored.filter (fun s =>
        decide (s.2.key = some key) && decide (p.logStartOffset ≤ s.offset))) =
      (storedContents stored).filter (fun c =>
        decide (c.key = some key) && decide (p.logStartOffset ≤ c.offset)) := by
    intro stored
    rw [storedContents, storedContents, List.filter_map]
    rfl
  have start : (clean codec p cfg now).1.logStartOffset = p.logStartOffset := rfl
  have committed := committedRecords_cleaned codec (p.latestOffsets (p.uncleanable cfg now))
    (p.uncleanable cfg now) now p.tombstoneHorizons rep.fits
  rw [recordsOfKey, start, written, byContent, committed, ← byContent, List.filter_comm]
  rfl

include rep some' in
theorem view_clean_eq_some_iff (key value : Bytes) :
    (clean codec p cfg now).1.view key = some value ↔
      ∃ s, s ∈ p.recordsOfKey key ∧ p.keeps cfg now s = true ∧ s.2.value = some value ∧
        ∀ t, t ∈ p.recordsOfKey key → p.keeps cfg now t = true → t.offset ≤ s.offset := by
  rw [view_eq_some_iff (rep.clean some' codec cfg now), recordsOfKey_clean rep]
  constructor
  · rintro ⟨c, member, isValue, newest⟩
    obtain ⟨s, inKept, rfl⟩ := List.mem_map.mp member
    obtain ⟨inStored, kept⟩ := List.mem_filter.mp inKept
    refine ⟨s, inStored, kept, isValue, ?_⟩
    intro t inStored' kept'
    exact newest t.2.content (List.mem_map_of_mem (List.mem_filter.mpr ⟨inStored', kept'⟩))
  · rintro ⟨s, inStored, kept, isValue, newest⟩
    refine ⟨s.2.content, List.mem_map_of_mem (List.mem_filter.mpr ⟨inStored, kept⟩), isValue, ?_⟩
    intro d inContents
    obtain ⟨t, inKept, rfl⟩ := List.mem_map.mp inContents
    obtain ⟨inStored', kept'⟩ := List.mem_filter.mp inKept
    exact newest t inStored' kept'

variable {s : Stored}

include rep in
theorem exists_newer_of_superseded (seen : p.HorizonsClean) {key : Bytes}
    (member : s ∈ p.recordsOfKey key)
    (gone : superseded (p.latestOffsets (p.uncleanable cfg now)) s.2 = true) :
    ∃ d, d ∈ p.recordsOfKey key ∧ s.offset < d.offset ∧ p.keeps cfg now d = true ∧
      p.agedOut cfg now d = false := by
  obtain ⟨_, selected⟩ := List.mem_filter.mp member
  simp only [Bool.and_eq_true, decide_eq_true_eq] at selected
  simp only [superseded, selected.1, Option.any_some, Option.any_eq_true, decide_eq_true_eq] at gone
  obtain ⟨newest, found, newer⟩ := gone
  obtain ⟨r, inDirty, isKey, isNewest⟩ := latestOffsets_some found
  obtain ⟨x, inLog, rewritten, dirty, inBatch⟩ := mem_dirtyRecords inDirty
  have lower := ((rep.fits x inLog).within r inBatch).1
  have fromClean : p.cleanOffset ≤ p.firstDirty := le_max_left _ _
  have fromStart : p.logStartOffset ≤ p.firstDirty := le_max_right _ _
  have plain : x.2.plain = true := by
    simp only [cleanable, Bool.and_eq_true] at rewritten
    exact rewritten.2
  -- A dirty record has no horizon yet.
  have noHorizon : p.tombstoneHorizons r.offset = none := by
    cases at' : p.tombstoneHorizons r.offset with
    | none => rfl
    | some horizon =>
      have below := seen r.offset horizon at'
      omega
  have notExpired : expired p.tombstoneHorizons now r = false := by
    simp [expired, noHorizon]
  have notSuperseded : superseded (p.latestOffsets (p.uncleanable cfg now)) r = false := by
    simp [superseded, isKey, found, isNewest]
  refine ⟨(x, r), ?_, ?_, ?_, ?_⟩
  · apply List.mem_filter.mpr
    refine ⟨mem_committedRecords_of_plain inLog plain inBatch, ?_⟩
    have late : p.logStartOffset ≤ r.offset := by omega
    simp [isKey, Stored.offset, late]
  · simp only [Stored.offset]
    omega
  · simp [keeps, keptBy, survives, notExpired, notSuperseded]
  · simp [agedOut, notExpired]

theorem dropped_cases (gone : p.keeps cfg now s = false) :
    superseded (p.latestOffsets (p.uncleanable cfg now)) s.2 = true ∨
      p.agedOut cfg now s = true := by
  simp only [keeps, keptBy, survives, Bool.or_eq_false_iff, Bool.not_eq_false',
    Bool.and_eq_false_iff] at gone
  obtain ⟨rewritten, superseded' | expired'⟩ := gone
  · exact Or.inl superseded'
  · right
    simp [agedOut, rewritten, expired']

theorem agedOut_value (aged : p.agedOut cfg now s = true) :
    s.2.value = none ∧ p.keeps cfg now s = false := by
  simp only [agedOut, Bool.and_eq_true] at aged
  obtain ⟨rewritten, expired'⟩ := aged
  constructor
  · simp only [expired, Bool.and_eq_true, Option.isNone_iff_eq_none] at expired'
    exact expired'.1.2
  · simp [keeps, keptBy, survives, rewritten, expired']

include rep some' in
theorem view_clean_iff (seen : p.HorizonsClean) (key : Bytes) :
    (clean codec p cfg now).1.view key = p.view key ↔ ¬ p.ComesBack cfg now key := by
  have newer : ∀ {s : Stored}, s ∈ p.recordsOfKey key → _ → _ := fun member gone =>
    exists_newer_of_superseded rep cfg now seen member gone
  constructor
  · rintro same ⟨s, member, hasValue, ⟨t, member', after⟩, aged⟩
    obtain ⟨value, isValue⟩ := Option.isSome_iff_exists.mp hasValue
    have stays : p.keeps cfg now s = true := by
      by_contra gone
      rcases dropped_cases cfg now (by simpa using gone) with superseded' | aged'
      · obtain ⟨d, inStored, later, _, fresh⟩ := newer member superseded'
        rw [aged d inStored later] at fresh
        cases fresh
      · have tombstone := (agedOut_value cfg now aged').1
        rw [isValue] at tombstone
        cases tombstone
    have back : (clean codec p cfg now).1.view key = some value := by
      rw [view_clean_eq_some_iff rep some']
      refine ⟨s, member, stays, isValue, ?_⟩
      intro d inStored kept
      by_contra later
      have dropped := (agedOut_value cfg now (aged d inStored (by omega))).2
      rw [dropped] at kept
      cases kept
    rw [same, view_eq_some_iff rep] at back
    obtain ⟨c, inContents, isValue', newest⟩ := back
    obtain ⟨top, inStored, rfl⟩ := List.mem_map.mp inContents
    have atLeast := newest t.2.content (List.mem_map_of_mem member')
    have tombstone := (agedOut_value cfg now (aged top inStored (lt_of_lt_of_le after atLeast))).1
    have isValue' : top.2.value = some value := isValue'
    rw [tombstone] at isValue'
    cases isValue'
  · intro never
    apply Option.ext
    intro value
    rw [view_clean_eq_some_iff rep some', view_eq_some_iff rep]
    constructor
    · rintro ⟨s, member, kept, isValue, newest⟩
      refine ⟨s.2.content, List.mem_map_of_mem member, isValue, ?_⟩
      intro c inContents
      obtain ⟨t, member', rfl⟩ := List.mem_map.mp inContents
      by_contra after
      have after : s.offset < t.offset := not_le.mp after
      apply never
      refine ⟨s, member, by rw [isValue]; rfl, ⟨t, member', after⟩, ?_⟩
      intro u inStored later
      have gone : p.keeps cfg now u = false := by
        by_contra stays
        have upper := newest u inStored (by simpa using stays)
        omega
      rcases dropped_cases cfg now gone with superseded' | aged
      · obtain ⟨d, inStored', laterStill, kept', _⟩ := newer inStored superseded'
        have upper := newest d inStored' kept'
        omega
      · exact aged
    · rintro ⟨c, inContents, isValue, newest⟩
      obtain ⟨s, member, rfl⟩ := List.mem_map.mp inContents
      have newest' : ∀ t, t ∈ p.recordsOfKey key → t.offset ≤ s.offset := fun t member' =>
        newest t.2.content (List.mem_map_of_mem member')
      refine ⟨s, member, ?_, isValue, fun t member' _ => newest' t member'⟩
      by_contra gone
      rcases dropped_cases cfg now (by simpa using gone) with superseded' | aged
      · obtain ⟨d, inStored, later, _⟩ := newer member superseded'
        have upper := newest' d inStored
        omega
      · have isValue : s.2.value = some value := isValue
        rw [(agedOut_value cfg now aged).1] at isValue
        cases isValue

end Clean

/-! ### Compaction keeps the view -/

@[simp] theorem view_ensureSegment (p : PartitionState) (now : Int) (key : Bytes) :
    (p.ensureSegment now).view key = p.view key := by
  simp [view, recordsOfKey]

/-- In every state that calls reach, a pass of the cleaner keeps the view of every key exactly if no
value of a key comes back. -/
theorem compact_view_iff (codec : Codec) (calls : List LogCall)
    (wellSent : Along codec (fun q c => c.WellSent q) {} calls) (cfg : LogConfig) (now : Int) :
    (∀ key, (compact codec (runCalls codec {} calls) cfg now).1.view key =
        (runCalls codec {} calls).view key) ↔
      (cfg.compact = true →
        ((runCalls codec {} calls).ensureSegment now).ratioDue cfg now = true →
        ∀ key, ¬ ((runCalls codec {} calls).ensureSegment now).ComesBack cfg now key) := by
  have new : HorizonsClean {} := fun offset horizon found => by cases found
  obtain ⟨rep, seen⟩ := runCalls_seen codec calls rep_new new wellSent
  generalize runCalls codec {} calls = p at rep seen
  have seen' : (p.ensureSegment now).HorizonsClean := by
    simpa [HorizonsClean] using seen
  unfold compact
  cases cfg.compact with
  | false => simp
  | true =>
    cases due : (p.ensureSegment now).ratioDue cfg now with
    | false => simp [due]
    | true =>
      have each := view_clean_iff (rep.ensureSegment now) (ensureSegment_nonempty p now) codec
        cfg now seen'
      simp only [view_ensureSegment] at each
      simp [due, each]

def deletedAtOnce : List LogCall :=
  [send 0 [([2], some [1]), ([2], none)], send 300 [([3], some [1])], .compact eager 300,
    send 600 [([4], some [1])]]

theorem deletedAtOnce_wellSent :
    Along hundredBytes (fun q c => c.WellSent q) {} deletedAtOnce := by
  have sent := fun p now records some' => send_wellSent p now records some'
  exact ⟨sent _ _ _ (by simp), sent _ _ _ (by simp), trivial, sent _ _ _ (by simp), trivial⟩

/-- The tombstone goes, the value has gone before it. -/
theorem compact_view_iff_deletedAtOnce :
    (compact hundredBytes (runCalls hundredBytes {} deletedAtOnce) eager 600).1.recordBatches.map
        Prod.fst = [2, 3] ∧
      (compact hundredBytes (runCalls hundredBytes {} deletedAtOnce) eager 600).1.view [2] =
        (runCalls hundredBytes {} deletedAtOnce).view [2] := by
  refine ⟨rfl, (compact_view_iff hundredBytes deletedAtOnce deletedAtOnce_wellSent eager 600).mpr
    ?_ [2]⟩
  rintro _ _ key ⟨s, member, _, ⟨t, member', after⟩, _⟩
  have distinct : (committedRecords (runCalls hundredBytes {} deletedAtOnce).recordBatches).Pairwise
      (fun s t => s.2.key ≠ t.2.key) := by decide
  obtain ⟨inLog, selected⟩ := List.mem_filter.mp member
  obtain ⟨inLog', selected'⟩ := List.mem_filter.mp member'
  simp only [Bool.and_eq_true, decide_eq_true_eq] at selected selected'
  have symm : Std.Symm (fun s t : Stored => s.2.key ≠ t.2.key) := ⟨fun _ _ => Ne.symm⟩
  have different : s ≠ t := fun same => by
    rw [same] at after
    omega
  exact distinct.forall inLog inLog' different (selected.1.trans selected'.1.symm)

/-- The log start cuts the batch in which key 2 is written and deleted, so no clean drops
its value; the tombstone has been seen by one clean. -/
def deletedAfterCut : List LogCall :=
  [send 0 [([1], some [1]), ([2], some [1]), ([2], none)], .truncateFront 1 0,
    send 300 [([3], some [1])], send 600 [([4], some [1])], .compact eager 600,
    send 900 [([5], some [1])]]

theorem deletedAfterCut_wellSent :
    Along hundredBytes (fun q c => c.WellSent q) {} deletedAfterCut := by
  have sent := fun p now records some' => send_wellSent p now records some'
  refine ⟨sent _ _ _ (by simp), ?_, sent _ _ _ (by simp), sent _ _ _ (by simp), trivial,
    sent _ _ _ (by simp), trivial⟩
  show (1 : Int) ≤ 3
  decide

theorem compact_view_broughtBack :
    ¬ ∀ (codec : Codec) (calls : List LogCall), Along codec (fun q c => c.WellSent q) {} calls →
      ∀ (cfg : LogConfig) (now : Int) (key : Bytes),
        (compact codec (runCalls codec {} calls) cfg now).1.view key =
          (runCalls codec {} calls).view key := by
  intro claimed
  have same := claimed hundredBytes deletedAfterCut deletedAfterCut_wellSent eager 900 [2]
  have before : (runCalls hundredBytes {} deletedAfterCut).view [2] = none := by decide
  have after : (compact hundredBytes (runCalls hundredBytes {} deletedAfterCut) eager 900).1.view
      [2] = some [1] := by decide
  rw [before, after] at same
  cases same

end PartitionState

end NoidaDb.Kafka
