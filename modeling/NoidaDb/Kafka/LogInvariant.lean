/-
The representation of the partition log.

`Rep` is what every operation keeps: batches in offset order with disjoint ranges, and segments
that start between batches.
-/

import Mathlib.Data.List.TakeWhile
import NoidaDb.Lib.ListUpdates
import NoidaDb.Kafka.Engine

namespace NoidaDb.Kafka

def recordsOf (x : Int × Batch) : List Record := (x.2.decode x.1).getD []

structure BatchFits (x : Int × Batch) : Prop where
  counted : 0 ≤ x.2.lastOffsetDelta
  increasing : (recordsOf x).Pairwise (fun a b => a.offset < b.offset)
  within : ∀ r, r ∈ recordsOf x → x.1 ≤ r.offset ∧ r.offset ≤ batchLastOffset x.1 x.2

theorem BatchFits.base_le {x : Int × Batch} (fits : BatchFits x) :
    x.1 ≤ batchLastOffset x.1 x.2 := by
  have counted := fits.counted
  unfold batchLastOffset
  omega

/-- As producers write it: `lastOffsetDelta` is the number of records less one. -/
structure Batch.Numbered (b : Batch) : Prop where
  counted : 0 ≤ b.lastOffsetDelta
  deltas : ∀ entries, b.entries = some entries →
    entries.map Entry.offsetDelta = (List.range (b.lastOffsetDelta.toNat + 1)).map Int.ofNat

section Encoding

variable (codec : Codec) (first : Record) (rest : List Record)

theorem le_foldl_max (ns : List Int) (start : Int) :
    start ≤ ns.foldl max start ∧ ∀ n, n ∈ ns → n ≤ ns.foldl max start := by
  induction ns generalizing start with
  | nil => simp
  | cons m rest ih =>
    obtain ⟨fromStart, fromRest⟩ := ih (max start m)
    constructor
    · exact le_trans (le_max_left start m) fromStart
    · intro n member
      rcases List.mem_cons.mp member with same | later
      · subst same
        exact le_trans (le_max_right start n) fromStart
      · exact fromRest n later

theorem foldl_max_le {ns : List Int} {start bound : Int} (fits : start ≤ bound)
    (all : ∀ n, n ∈ ns → n ≤ bound) : ns.foldl max start ≤ bound := by
  induction ns generalizing start with
  | nil => exact fits
  | cons m rest ih =>
    apply ih
    · exact max_le fits (all m List.mem_cons_self)
    · intro n member
      exact all n (List.mem_cons_of_mem m member)

structure Content where
  offset : Int
  key : Option Bytes
  value : Option Bytes
deriving Repr, DecidableEq

def Record.content (r : Record) : Content := ⟨r.offset, r.key, r.value⟩

def contents (records : List Record) : List Content := records.map Record.content

theorem encode_contents :
    contents (recordsOf (first.offset, codec.encode first rest)) = contents (first :: rest) := by
  simp only [recordsOf, Batch.decode, Codec.encode, Option.map_some, Option.getD_some, contents,
    List.map_map]
  apply List.map_congr_left
  intro r _
  simp only [Function.comp_apply, Record.content, Content.mk.injEq, and_true]
  omega

theorem offsets_of_contents {records others : List Record}
    (same : contents records = contents others) :
    records.map Record.offset = others.map Record.offset := by
  have project := congrArg (List.map Content.offset) same
  simp only [contents, List.map_map] at project
  exact project

theorem pairwise_offsets {records : List Record} :
    records.Pairwise (fun a b => a.offset < b.offset) ↔
      (records.map Record.offset).Pairwise (· < ·) := by
  rw [List.pairwise_map]

theorem encode_fits (increasing : (first :: rest).Pairwise (fun a b => a.offset < b.offset)) :
    BatchFits (first.offset, codec.encode first rest) := by
  have offsets := offsets_of_contents (encode_contents codec first rest)
  obtain ⟨fromFirst, fromRest⟩ := le_foldl_max (rest.map Record.offset) first.offset
  refine ⟨?_, ?_, ?_⟩
  · simp only [Codec.encode]
    omega
  · rw [pairwise_offsets, offsets, ← pairwise_offsets]
    exact increasing
  · intro r member
    have listed : r.offset ∈ (first :: rest).map Record.offset := by
      rw [← offsets]
      exact List.mem_map_of_mem member
    simp only [batchLastOffset, Codec.encode]
    rw [List.map_cons] at listed
    rcases List.mem_cons.mp listed with same | later
    · omega
    · have upper := fromRest r.offset later
      obtain ⟨other, inRest, isOffset⟩ := List.mem_map.mp later
      have lower := List.rel_of_pairwise_cons increasing inRest
      omega

theorem encode_lastOffset_le (bound : Int) (all : ∀ r, r ∈ first :: rest → r.offset ≤ bound) :
    batchLastOffset first.offset (codec.encode first rest) ≤ bound := by
  have upper : (rest.map Record.offset).foldl max first.offset ≤ bound := by
    apply foldl_max_le (all first List.mem_cons_self)
    intro n member
    obtain ⟨r, inRest, rfl⟩ := List.mem_map.mp member
    exact all r (List.mem_cons_of_mem first inRest)
  simp only [batchLastOffset, Codec.encode]
  omega

end Encoding

variable {b : Batch}

theorem Batch.Numbered.fits (numbered : b.Numbered) (base : Int) : BatchFits (base, b) := by
  have counted := numbered.counted
  have offsets : ∀ r, r ∈ recordsOf (base, b) →
      ∃ i : Nat, i ≤ b.lastOffsetDelta.toNat ∧ r.offset = base + i := by
    intro r member
    cases found : b.entries with
    | none => simp [recordsOf, Batch.decode, found] at member
    | some entries =>
      simp only [recordsOf, Batch.decode, found, Option.map_some, Option.getD_some] at member
      obtain ⟨e, inEntries, rfl⟩ := List.mem_map.mp member
      have listed := List.mem_map_of_mem (f := Entry.offsetDelta) inEntries
      rw [numbered.deltas entries found] at listed
      obtain ⟨i, inRange, isDelta⟩ := List.mem_map.mp listed
      have upper := List.mem_range.mp inRange
      refine ⟨i, by omega, ?_⟩
      rw [← isDelta]
      rfl
  refine ⟨counted, ?_, ?_⟩
  · cases found : b.entries with
    | none => simp [recordsOf, Batch.decode, found]
    | some entries =>
      have deltas : entries.Pairwise (fun a b => a.offsetDelta < b.offsetDelta) := by
        have ordered : (entries.map Entry.offsetDelta).Pairwise (· < ·) := by
          rw [numbered.deltas entries found, List.pairwise_map]
          exact List.pairwise_lt_range.imp (fun h => Int.ofNat_lt.mpr h)
        rw [List.pairwise_map] at ordered
        exact ordered
      simp only [recordsOf, Batch.decode, found, Option.map_some, Option.getD_some,
        List.pairwise_map]
      exact deltas.imp (fun h => by omega)
  · intro r member
    obtain ⟨i, upper, isOffset⟩ := offsets r member
    simp only [batchLastOffset]
    omega

theorem recordsOf_shift (b : Batch) (base base' : Int) :
    recordsOf (base', b) =
      (recordsOf (base, b)).map (fun r => { r with offset := r.offset - base + base' }) := by
  cases found : b.entries with
  | none => simp [recordsOf, Batch.decode, found]
  | some entries =>
    simp only [recordsOf, Batch.decode, found, Option.map_some, Option.getD_some, List.map_map]
    apply List.map_congr_left
    intro e _
    simp only [Function.comp_apply, Record.mk.injEq, and_true]
    omega

@[simp] theorem recordsOf_flagged (base : Int) (b : Batch) (flag : Bool) :
    recordsOf (base, b.flagged flag) = recordsOf (base, b) := by
  cases flag <;> rfl

@[simp] theorem flagged_lastOffsetDelta (b : Batch) (flag : Bool) :
    (b.flagged flag).lastOffsetDelta = b.lastOffsetDelta := by
  cases flag <;> rfl

@[simp] theorem batchLastOffset_flagged (base : Int) (b : Batch) (flag : Bool) :
    batchLastOffset base (b.flagged flag) = batchLastOffset base b := by
  simp [batchLastOffset]

theorem BatchFits.flagged {base : Int} (fits : BatchFits (base, b)) (flag : Bool) :
    BatchFits (base, b.flagged flag) where
  counted := by
    rw [flagged_lastOffsetDelta]
    exact fits.counted
  increasing := by
    rw [recordsOf_flagged]
    exact fits.increasing
  within := by
    rw [recordsOf_flagged, batchLastOffset_flagged]
    exact fits.within

theorem BatchFits.shift {base : Int} (fits : BatchFits (base, b)) (base' : Int) :
    BatchFits (base', b) := by
  refine ⟨fits.counted, ?_, ?_⟩
  · rw [recordsOf_shift b base base', List.pairwise_map]
    exact fits.increasing.imp (fun h => by simp only; omega)
  · intro r member
    rw [recordsOf_shift b base base'] at member
    obtain ⟨origin, inBatch, rfl⟩ := List.mem_map.mp member
    have within := fits.within origin inBatch
    simp only [batchLastOffset] at within ⊢
    omega

theorem stamp_fits (codec : Codec) (numbered : b.Numbered) (now base : Int) :
    BatchFits (base, stampLogAppendTime codec b now) ∧
      (stampLogAppendTime codec b now).lastOffsetDelta ≤ b.lastOffsetDelta := by
  have fits := numbered.fits 0
  unfold stampLogAppendTime
  split
  · rename_i first rest decoded
    have isRecords : recordsOf (0, b) = first :: rest := by
      simp [recordsOf, decoded]
    have increasing := fits.increasing
    have within := fits.within
    rw [isRecords] at increasing within
    have stamped : ({ first with timestamp := now } ::
        rest.map (fun r => { r with timestamp := now })).Pairwise
          (fun a b => a.offset < b.offset) := by
      rw [pairwise_offsets] at increasing ⊢
      simpa [List.map_map, Function.comp_def] using increasing
    constructor
    · exact ((encode_fits codec _ _ stamped).shift base).flagged true
    · have atMost := encode_lastOffset_le codec { first with timestamp := now }
        (rest.map (fun r => { r with timestamp := now })) b.lastOffsetDelta ?_
      · have lower := (within first List.mem_cons_self).1
        simp only [batchLastOffset] at atMost
        simp only [Batch.setLogAppendTimeFlag]
        omega
      · intro r member
        rcases List.mem_cons.mp member with same | later
        · subst same
          have upper := (within first List.mem_cons_self).2
          simp only [batchLastOffset] at upper
          simp only
          omega
        · obtain ⟨origin, inRest, rfl⟩ := List.mem_map.mp later
          have upper := (within origin (List.mem_cons_of_mem first inRest)).2
          simp only [batchLastOffset] at upper
          simp only
          omega
  · exact ⟨numbered.fits base, le_rfl⟩

namespace PartitionState

/-- No batch has `offset` in its range, other than as its first offset. -/
def Boundary (batches : List (Int × Batch)) (offset : Int) : Prop :=
  ∀ x, x ∈ batches → offset ≤ x.1 ∨ batchLastOffset x.1 x.2 < offset

structure Rep (p : PartitionState) : Prop where
  fits : ∀ x, x ∈ p.recordBatches → BatchFits x
  ordered : p.recordBatches.Pairwise (fun x y => batchLastOffset x.1 x.2 < y.1)
  ended : ∀ x, x ∈ p.recordBatches → batchLastOffset x.1 x.2 < p.highWatermark
  started : 0 ≤ p.logStartOffset ∧ p.logStartOffset ≤ p.highWatermark
  segments : p.segments.Pairwise (fun s t => s.baseOffset < t.baseOffset)
  reached : ∀ s, s ∈ p.segments → s.baseOffset ≤ p.highWatermark
  bounds : ∀ s, s ∈ p.segments → Boundary p.recordBatches s.baseOffset
  covered : ∀ x, x ∈ p.recordBatches → ∃ s, s ∈ p.segments ∧ s.baseOffset ≤ x.1
  cleaned : p.cleanOffset ≤ p.highWatermark
  opened : ∀ t, t ∈ p.activeTxns → Boundary p.recordBatches t.2 ∧ t.2 ≤ p.highWatermark

theorem rep_new : Rep {} := by
  constructor <;> simp

/-- `x'` is `x` or what a clean left of it. -/
def Within (x' x : Int × Batch) : Prop :=
  x.1 ≤ x'.1 ∧ batchLastOffset x'.1 x'.2 ≤ batchLastOffset x.1 x.2

theorem Within.refl (x : Int × Batch) : Within x x := ⟨le_rfl, le_rfl⟩

variable {p : PartitionState} {batches batches' : List (Int × Batch)} {segments : List Segment}

theorem shrunk_mem (shrunk : List.SublistForall₂ Within batches' batches) {x' : Int × Batch}
    (member : x' ∈ batches') : ∃ x, x ∈ batches ∧ Within x' x := by
  obtain ⟨kept, related, sublist⟩ := List.sublistForall₂_iff.mp shrunk
  obtain ⟨i, atI⟩ := List.getElem?_of_mem member
  rcases List.forall₂_iff_get.mp related with ⟨sameLength, each⟩
  obtain ⟨bound, isX'⟩ := List.getElem?_eq_some_iff.mp atI
  have within := each i bound (by omega)
  refine ⟨kept.get ⟨i, by omega⟩, sublist.subset (List.get_mem _ _), ?_⟩
  rw [← isX']
  exact within

theorem shrunk_ordered (shrunk : List.SublistForall₂ Within batches' batches)
    (ordered : batches.Pairwise (fun x y => batchLastOffset x.1 x.2 < y.1)) :
    batches'.Pairwise (fun x y => batchLastOffset x.1 x.2 < y.1) := by
  induction shrunk with
  | nil => exact .nil
  | @cons x' x rest' rest within later ih =>
    obtain ⟨fromHead, fromRest⟩ := List.pairwise_cons.mp ordered
    refine List.pairwise_cons.mpr ⟨?_, ih fromRest⟩
    intro y' member
    obtain ⟨y, inRest, after⟩ := shrunk_mem later member
    have apart := fromHead y inRest
    have before := within.2
    have start := after.1
    omega
  | @cons_right x batches' rest _ ih => exact ih (List.pairwise_cons.mp ordered).2

theorem Boundary.shrunk {offset : Int} (boundary : Boundary batches offset)
    (shrunk : List.SublistForall₂ Within batches' batches) : Boundary batches' offset := by
  intro x' member
  obtain ⟨x, inBatches, within⟩ := shrunk_mem shrunk member
  have start := within.1
  have stop := within.2
  rcases boundary x inBatches with above | below
  · exact Or.inl (by omega)
  · exact Or.inr (by omega)

theorem Rep.shrunk (rep : Rep p) {p' : PartitionState}
    (shrunk : List.SublistForall₂ Within p'.recordBatches p.recordBatches)
    (fits : ∀ x, x ∈ p'.recordBatches → BatchFits x)
    (sameHigh : p'.highWatermark = p.highWatermark)
    (started : 0 ≤ p'.logStartOffset ∧ p'.logStartOffset ≤ p.highWatermark)
    (sublist : List.Sublist p'.segments p.segments)
    (covered : ∀ x, x ∈ p'.recordBatches → ∃ s, s ∈ p'.segments ∧ s.baseOffset ≤ x.1)
    (cleaned : p'.cleanOffset ≤ p.highWatermark) (sameOpen : p'.activeTxns = p.activeTxns) :
    Rep p' where
  fits := fits
  ordered := shrunk_ordered shrunk rep.ordered
  ended := by
    intro x' member
    obtain ⟨x, inBatches, within⟩ := shrunk_mem shrunk member
    have stop := within.2
    have below := rep.ended x inBatches
    rw [sameHigh]
    omega
  started := by
    rw [sameHigh]
    exact started
  segments := rep.segments.sublist sublist
  reached := by
    intro s member
    rw [sameHigh]
    exact rep.reached s (sublist.subset member)
  bounds := fun s member => (rep.bounds s (sublist.subset member)).shrunk shrunk
  covered := covered
  cleaned := by
    rw [sameHigh]
    exact cleaned
  opened := by
    intro t member
    rw [sameOpen] at member
    rw [sameHigh]
    obtain ⟨boundary, upper⟩ := rep.opened t member
    exact ⟨boundary.shrunk shrunk, upper⟩

@[simp] theorem ensureSegment_recordBatches (p : PartitionState) (now : Int) :
    (p.ensureSegment now).recordBatches = p.recordBatches := by
  unfold ensureSegment
  split <;> rfl

@[simp] theorem ensureSegment_highWatermark (p : PartitionState) (now : Int) :
    (p.ensureSegment now).highWatermark = p.highWatermark := by
  unfold ensureSegment
  split <;> rfl

@[simp] theorem ensureSegment_logStartOffset (p : PartitionState) (now : Int) :
    (p.ensureSegment now).logStartOffset = p.logStartOffset := by
  unfold ensureSegment
  split <;> rfl

@[simp] theorem ensureSegment_cleanOffset (p : PartitionState) (now : Int) :
    (p.ensureSegment now).cleanOffset = p.cleanOffset := by
  unfold ensureSegment
  split <;> rfl

@[simp] theorem ensureSegment_activeTxns (p : PartitionState) (now : Int) :
    (p.ensureSegment now).activeTxns = p.activeTxns := by
  unfold ensureSegment
  split <;> rfl

@[simp] theorem ensureSegment_abortedTxns (p : PartitionState) (now : Int) :
    (p.ensureSegment now).abortedTxns = p.abortedTxns := by
  unfold ensureSegment
  split <;> rfl

@[simp] theorem ensureSegment_tombstoneHorizons (p : PartitionState) (now : Int) :
    (p.ensureSegment now).tombstoneHorizons = p.tombstoneHorizons := by
  unfold ensureSegment
  split <;> rfl

theorem ensureSegment_nonempty (p : PartitionState) (now : Int) :
    (p.ensureSegment now).segments ≠ [] := by
  unfold ensureSegment
  split
  · exact List.cons_ne_nil _ _
  · rename_i some'
    simpa using some'

theorem Rep.ensureSegment (rep : Rep p) (now : Int) : Rep (p.ensureSegment now) := by
  by_cases empty : p.segments.isEmpty = true
  · have noBatches : p.recordBatches = [] := by
      cases found : p.recordBatches with
      | nil => rfl
      | cons x rest =>
        obtain ⟨s, member, _⟩ := rep.covered x (by rw [found]; exact List.mem_cons_self)
        rw [List.isEmpty_iff.mp empty] at member
        cases member
    have started := rep.started
    unfold PartitionState.ensureSegment
    rw [if_pos empty]
    simp only [noBatches, List.head?_nil, Option.map_none, Option.getD_none, min_self]
    refine ⟨?_, ?_, ?_, rep.started, List.pairwise_singleton _ _, ?_, ?_, ?_, rep.cleaned, ?_⟩
    · simp
    · exact List.Pairwise.nil
    · simp
    · intro s member
      obtain rfl := List.mem_singleton.mp member
      exact started.2
    · intro s _ x member
      cases member
    · simp
    · intro t member
      obtain ⟨_, upper⟩ := rep.opened t member
      refine ⟨?_, upper⟩
      intro x inBatches
      cases inBatches
  · unfold PartitionState.ensureSegment
    rw [if_neg empty]
    exact rep

theorem exists_of_totalLen_pos (positive : 0 < totalLen batches) : ∃ x, x ∈ batches := by
  cases batches with
  | nil => simp [totalLen] at positive
  | cons x rest => exact ⟨x, List.mem_cons_self⟩

theorem exists_of_rolls {active : Segment} {len : Nat} {cfg : LogConfig} {now : Int}
    (rolls : p.rolls active len cfg now = true) :
    ∃ x, x ∈ p.recordBatches ∧ active.baseOffset ≤ x.1 := by
  unfold PartitionState.rolls at rolls
  simp only [Bool.and_eq_true, decide_eq_true_eq] at rolls
  obtain ⟨x, member⟩ := exists_of_totalLen_pos rolls.1
  have inLog := List.takeWhile_subset _ member
  have above := List.mem_takeWhile_imp member
  exact ⟨x, List.mem_reverse.mp inLog, by simpa using above⟩

theorem appendBatch_eq (p : PartitionState) (batch : Batch) (count now : Int)
    (cfg : Option LogConfig) :
    p.appendBatch batch count now cfg =
      ({ p.ensureSegment now with
          segments := (p.ensureSegment now).appendSegments batch.len now cfg
          recordBatches := p.recordBatches ++ [(p.highWatermark, batch)]
          highWatermark := p.highWatermark + count }, p.highWatermark) := by
  simp only [appendBatch, ensureSegment_recordBatches, ensureSegment_highWatermark]

theorem appendSegments_cases (p : PartitionState) (len : Nat) (now : Int)
    (cfg : Option LogConfig) :
    p.appendSegments len now cfg = p.segments ∨
      (p.appendSegments len now cfg =
          p.segments ++ [{ baseOffset := p.highWatermark, createdMs := now }] ∧
        ∃ active x, p.segments.getLast? = some active ∧ x ∈ p.recordBatches ∧
          active.baseOffset ≤ x.1) := by
  unfold appendSegments
  split
  · rename_i cfg active last
    split
    · rename_i rolls
      obtain ⟨x, member, above⟩ := exists_of_rolls rolls
      exact Or.inr ⟨rfl, active, x, last, member, above⟩
    · exact Or.inl rfl
  · exact Or.inl rfl

theorem le_getLast {active : Segment}
    (ordered : segments.Pairwise (fun s t => s.baseOffset < t.baseOffset))
    (last : segments.getLast? = some active) {s : Segment} (member : s ∈ segments) :
    s.baseOffset ≤ active.baseOffset := by
  obtain ⟨front, isAppend⟩ : ∃ front, segments = front ++ [active] := by
    obtain ⟨front, isFront⟩ := List.getLast?_eq_some_iff.mp last
    exact ⟨front, isFront⟩
  rw [isAppend] at member ordered
  rcases List.mem_append.mp member with inFront | isActive
  · have below := (List.pairwise_append.mp ordered).2.2 s inFront active List.mem_cons_self
    omega
  · rw [List.mem_singleton.mp isActive]

theorem Rep.appendBatch (rep : Rep p) {batch : Batch} {count : Int}
    (fits : BatchFits (p.highWatermark, batch)) (counts : batch.lastOffsetDelta < count)
    (now : Int) (cfg : Option LogConfig) : Rep (p.appendBatch batch count now cfg).1 := by
  rw [appendBatch_eq]
  have rep := rep.ensureSegment now
  have some' := ensureSegment_nonempty p now
  have counted : 0 ≤ batch.lastOffsetDelta := fits.counted
  have started := rep.started
  have cleaned := rep.cleaned
  simp only [← ensureSegment_recordBatches p now, ← ensureSegment_highWatermark p now] at fits ⊢
  generalize p.ensureSegment now = q at rep some' started cleaned fits ⊢
  have endsNew : batchLastOffset q.highWatermark batch < q.highWatermark + count := by
    unfold batchLastOffset
    omega
  have cases' : ∀ s, s ∈ q.appendSegments batch.len now cfg →
      s ∈ q.segments ∨ s.baseOffset = q.highWatermark := by
    intro s member
    rcases q.appendSegments_cases batch.len now cfg with same | ⟨rolled, _⟩
    · rw [same] at member
      exact Or.inl member
    · rw [rolled] at member
      rcases List.mem_append.mp member with old | new
      · exact Or.inl old
      · rw [List.mem_singleton.mp new]
        exact Or.inr rfl
  have keeps : ∀ s, s ∈ q.segments → s ∈ q.appendSegments batch.len now cfg := by
    intro s member
    rcases q.appendSegments_cases batch.len now cfg with same | ⟨rolled, _⟩
    · rw [same]
      exact member
    · rw [rolled]
      exact List.mem_append_left _ member
  have boundary : ∀ {offset : Int}, Boundary q.recordBatches offset → offset ≤ q.highWatermark →
      Boundary (q.recordBatches ++ [(q.highWatermark, batch)]) offset := by
    intro offset old upper x member
    rcases List.mem_append.mp member with inLog | isNew
    · exact old x inLog
    · rw [List.mem_singleton.mp isNew]
      exact Or.inl upper
  refine ⟨?_, ?_, ?_, ?_, ?_, ?_, ?_, ?_, ?_, ?_⟩
  · intro x member
    rcases List.mem_append.mp member with old | new
    · exact rep.fits x old
    · rw [List.mem_singleton.mp new]
      exact fits
  · refine List.pairwise_append.mpr ⟨rep.ordered, List.pairwise_singleton _ _, ?_⟩
    intro x old y new
    rw [List.mem_singleton.mp new]
    exact rep.ended x old
  · intro x member
    rcases List.mem_append.mp member with old | new
    · have below := rep.ended x old
      simp only
      omega
    · rw [List.mem_singleton.mp new]
      exact endsNew
  · simp only
    omega
  · rcases q.appendSegments_cases batch.len now cfg with same | ⟨rolled, active, x, last, inLog, above⟩
    · rw [same]
      exact rep.segments
    · rw [rolled]
      refine List.pairwise_append.mpr ⟨rep.segments, List.pairwise_singleton _ _, ?_⟩
      intro s old t new
      rw [List.mem_singleton.mp new]
      have upToActive := le_getLast rep.segments last old
      have base := (rep.fits x inLog).base_le
      have ended := rep.ended x inLog
      simp only
      omega
  · intro s member
    rcases cases' s member with old | isHigh
    · have upper := rep.reached s old
      simp only
      omega
    · simp only
      omega
  · intro s member
    rcases cases' s member with old | isHigh
    · exact boundary (rep.bounds s old) (rep.reached s old)
    · refine boundary ?_ (le_of_eq isHigh)
      intro x inLog
      rw [isHigh]
      exact Or.inr (rep.ended x inLog)
  · intro x member
    rcases List.mem_append.mp member with old | new
    · obtain ⟨s, inSegments, below⟩ := rep.covered x old
      exact ⟨s, keeps s inSegments, below⟩
    · rw [List.mem_singleton.mp new]
      obtain ⟨s, inSegments⟩ := List.exists_mem_of_ne_nil _ some'
      exact ⟨s, keeps s inSegments, rep.reached s inSegments⟩
  · simp only
    omega
  · intro t member
    obtain ⟨old, upper⟩ := rep.opened t member
    refine ⟨boundary old upper, ?_⟩
    simp only
    omega

theorem dropStale_suffix (newStart : Int) (segments : List Segment) :
    dropStale newStart segments <:+ segments := by
  induction segments with
  | nil => exact List.suffix_rfl
  | cons s rest ih =>
    cases rest with
    | nil => exact List.suffix_rfl
    | cons next later =>
      unfold dropStale
      split
      · exact ih.trans (List.suffix_cons s _)
      · exact List.suffix_rfl

theorem dropStale_covers {newStart : Int} {x : Int × Batch}
    (bounds : ∀ s, s ∈ segments → s.baseOffset ≤ x.1 ∨ batchLastOffset x.1 x.2 < s.baseOffset)
    (stays : newStart ≤ batchLastOffset x.1 x.2)
    (covered : ∃ s, s ∈ segments ∧ s.baseOffset ≤ x.1) :
    ∃ s, s ∈ dropStale newStart segments ∧ s.baseOffset ≤ x.1 := by
  induction segments with
  | nil => exact covered
  | cons s rest ih =>
    cases rest with
    | nil => exact covered
    | cons next later =>
      unfold dropStale
      split
      · rename_i stale
        obtain ⟨t, member, below⟩ := List.any_eq_true.mp stale
        have below : t.baseOffset ≤ newStart := by simpa using below
        apply ih (fun u inRest => bounds u (List.mem_cons_of_mem s inRest))
        refine ⟨t, member, ?_⟩
        rcases bounds t (List.mem_cons_of_mem s member) with covers | after
        · exact covers
        · omega
      · exact covered

theorem shrunk_filter (keep : Int × Batch → Bool) (batches : List (Int × Batch)) :
    List.SublistForall₂ Within (batches.filter keep) batches :=
  List.sublistForall₂_iff.mpr
    ⟨batches.filter keep, List.forall₂_same.mpr (fun x _ => Within.refl x), List.filter_sublist⟩

theorem Rep.truncateFront (rep : Rep p) {newStart : Int} (atMost : newStart ≤ p.highWatermark)
    (now : Int) : Rep (p.truncateFront newStart now) := by
  unfold PartitionState.truncateFront
  split
  · exact rep
  · rename_i forward
    have started := rep.started
    have rep := rep.ensureSegment now
    have cleaned := rep.cleaned
    simp only [← ensureSegment_highWatermark p now] at atMost
    simp only [← ensureSegment_logStartOffset p now] at forward started
    generalize p.ensureSegment now = q at rep forward atMost started cleaned ⊢
    have positive : 0 ≤ newStart ∧ newStart ≤ q.highWatermark := by omega
    by_cases empty : (q.recordBatches.filter
        (fun x => decide (newStart ≤ batchLastOffset x.1 x.2))).isEmpty = true
    · simp only [empty, if_true]
      rw [List.isEmpty_iff.mp empty]
      refine ⟨?_, List.Pairwise.nil, ?_, positive, List.pairwise_singleton _ _, ?_, ?_, ?_, ?_, ?_⟩
      · simp
      · simp
      · intro s member
        rw [List.mem_singleton.mp member]
        exact atMost
      · intro s _ x member
        cases member
      · simp
      · exact max_le cleaned atMost
      · intro t member
        refine ⟨?_, (rep.opened t member).2⟩
        intro x inLog
        cases inLog
    · rw [Bool.not_eq_true] at empty
      simp only [empty, Bool.false_eq_true, if_false]
      refine rep.shrunk (shrunk_filter _ _) ?_ rfl positive (dropStale_suffix _ _).sublist ?_
        (max_le cleaned atMost) rfl
      · intro x member
        exact rep.fits x (List.mem_filter.mp member).1
      · intro x member
        obtain ⟨inLog, stays⟩ := List.mem_filter.mp member
        exact dropStale_covers (fun s inSegments => rep.bounds s inSegments x inLog)
          (by simpa using stays) (rep.covered x inLog)

theorem mem_spansFrom {s : Span} (member : s ∈ p.spansFrom segments) :
    ∃ segment, segment ∈ segments ∧ s.lo = segment.baseOffset ∧
      (s.hi = p.highWatermark ∨ ∃ next, next ∈ segments ∧ s.hi = next.baseOffset) := by
  induction segments with
  | nil => cases member
  | cons segment rest ih =>
    rcases List.mem_cons.mp member with same | later
    · subst same
      refine ⟨segment, List.mem_cons_self, rfl, ?_⟩
      cases rest with
      | nil => exact Or.inl rfl
      | cons next more =>
        exact Or.inr ⟨next, List.mem_cons_of_mem _ List.mem_cons_self, rfl⟩
    · obtain ⟨found, inRest, isLo, isHi⟩ := ih later
      refine ⟨found, List.mem_cons_of_mem _ inRest, isLo, ?_⟩
      rcases isHi with isHigh | ⟨next, inRest', isNext⟩
      · exact Or.inl isHigh
      · exact Or.inr ⟨next, List.mem_cons_of_mem _ inRest', isNext⟩

theorem retentionUpto_mem {cfg : LogConfig} {now excess hi : Int} {spans : List Span}
    {upto : Option Int} (found : retentionUpto cfg now spans excess upto = some hi) :
    upto = some hi ∨ ∃ s, s ∈ spans ∧ s.hi = hi := by
  induction spans generalizing excess upto with
  | nil => exact Or.inl found
  | cons s rest ih =>
    unfold retentionUpto at found
    split at found
    · exact Or.inl found
    · simp only at found
      split at found
      · rcases ih found with isHi | ⟨t, member, isHi⟩
        · exact Or.inr ⟨s, List.mem_cons_self, Option.some.inj isHi⟩
        · exact Or.inr ⟨t, List.mem_cons_of_mem s member, isHi⟩
      · exact Or.inl found

theorem applyRetention_cases (p : PartitionState) (cfg : LogConfig) (now : Int) :
    (p.applyRetention cfg now).1 = p ∨
      (p.applyRetention cfg now).1 = p.ensureSegment now ∨
      ∃ hi, (∃ s, s ∈ (p.ensureSegment now).segmentSpans ∧ s.hi = hi) ∧
        (p.applyRetention cfg now).1 = (p.ensureSegment now).truncateFront hi now := by
  unfold applyRetention
  split
  · exact Or.inl rfl
  · simp only
    split
    · rename_i hi found
      split
      · rcases retentionUpto_mem found with impossible | span
        · cases impossible
        · exact Or.inr (Or.inr ⟨hi, span, rfl⟩)
      · exact Or.inr (Or.inl rfl)
    · exact Or.inr (Or.inl rfl)

theorem Rep.span_hi_le (rep : Rep p) {s : Span} (member : s ∈ p.segmentSpans) :
    s.hi ≤ p.highWatermark := by
  obtain ⟨_, _, _, isHigh | ⟨next, inSegments, isNext⟩⟩ := mem_spansFrom member
  · omega
  · have upper := rep.reached next inSegments
    omega

theorem Rep.applyRetention (rep : Rep p) (cfg : LogConfig) (now : Int) :
    Rep (p.applyRetention cfg now).1 := by
  rcases p.applyRetention_cases cfg now with same | same | ⟨hi, ⟨s, member, isHi⟩, same⟩
  · rw [same]
    exact rep
  · rw [same]
    exact rep.ensureSegment now
  · rw [same]
    have upper := (rep.ensureSegment now).span_hi_le member
    rw [isHi] at upper
    exact (rep.ensureSegment now).truncateFront upper now

section Clean

variable (codec : Codec) (latest : Latest) (limit : Int) (cfg : LogConfig) (now : Int)

theorem cleanRecords_sublist (records : List Record) (horizons : Horizons) :
    List.Sublist (cleanRecords latest cfg now records horizons).1 records := by
  induction records generalizing horizons with
  | nil => exact List.Sublist.refl _
  | cons r rest ih =>
    simp only [cleanRecords]
    split
    · exact (ih _).cons_cons r
    · exact (ih _).cons r

theorem reencode_cases (b : Batch) (kept : List Record) :
    (kept = [] ∧ reencode codec b kept = []) ∨
      ∃ first rest first' rest' , kept = first :: rest ∧
        contents (first' :: rest') = contents (first :: rest) ∧
        reencode codec b kept =
          [(first.offset, (codec.encode first' rest').flagged b.logAppendTime)] := by
  cases kept with
  | nil => exact Or.inl ⟨rfl, rfl⟩
  | cons first rest =>
    have same : contents (resequence first (first :: rest)) = contents (first :: rest) := by
      unfold resequence
      split
      · simp [contents, Record.content]
      · rfl
    refine Or.inr ?_
    simp only [reencode]
    cases found : resequence first (first :: rest) with
    | nil =>
      rw [found] at same
      cases same
    | cons first' rest' =>
      rw [found] at same
      exact ⟨first, rest, first', rest', rfl, same, rfl⟩

theorem reencode_spec {x x' : Int × Batch} {kept : List Record} (fits : BatchFits x)
    (sublist : List.Sublist kept (recordsOf x)) (member : x' ∈ reencode codec x.2 kept) :
    BatchFits x' ∧ Within x' x ∧ contents (recordsOf x') = contents kept ∧
      ∃ first rest, kept = first :: rest ∧ x'.1 = first.offset := by
  rcases reencode_cases codec x.2 kept with
    ⟨_, nothing⟩ | ⟨first, rest, first', rest', isKept, same, written⟩
  · rw [nothing] at member
    cases member
  · rw [written] at member
    obtain rfl := List.mem_singleton.mp member
    have heads : first'.offset = first.offset := by
      have offsets := offsets_of_contents same
      rw [List.map_cons, List.map_cons] at offsets
      exact (List.cons.inj offsets).1
    have within : ∀ r, r ∈ first :: rest → x.1 ≤ r.offset ∧ r.offset ≤ batchLastOffset x.1 x.2 := by
      intro r inKept
      rw [← isKept] at inKept
      exact fits.within r (sublist.subset inKept)
    have increasing : (first' :: rest').Pairwise (fun a b => a.offset < b.offset) := by
      rw [pairwise_offsets, offsets_of_contents same, ← pairwise_offsets, ← isKept]
      exact fits.increasing.sublist sublist
    have atMost : batchLastOffset first'.offset (codec.encode first' rest') ≤
        batchLastOffset x.1 x.2 := by
      apply encode_lastOffset_le
      intro r inNew
      have listed := List.mem_map_of_mem (f := Record.offset) inNew
      rw [offsets_of_contents same] at listed
      obtain ⟨origin, inKept, isOffset⟩ := List.mem_map.mp listed
      have upper := (within origin inKept).2
      omega
    have encoded := encode_fits codec first' rest' increasing
    have decoded := encode_contents codec first' rest'
    rw [heads] at encoded decoded atMost
    refine ⟨encoded.flagged _, ⟨(within first List.mem_cons_self).1, ?_⟩, ?_,
      first, rest, isKept, rfl⟩
    · rw [batchLastOffset_flagged]
      exact atMost
    · rw [isKept, ← same, recordsOf_flagged]
      exact decoded

theorem cleanBatch_within (horizons : Horizons) {x : Int × Batch} (fits : BatchFits x)
    {x' : Int × Batch}
    (member : x' ∈ (cleanBatch codec latest limit cfg now horizons x).1) :
    BatchFits x' ∧ Within x' x := by
  unfold cleanBatch at member
  split at member
  · rw [List.mem_singleton.mp member]
    exact ⟨fits, Within.refl x⟩
  · split at member
    · rw [List.mem_singleton.mp member]
      exact ⟨fits, Within.refl x⟩
    · rename_i records decoded
      simp only at member
      split at member
      · rw [List.mem_singleton.mp member]
        exact ⟨fits, Within.refl x⟩
      · have sublist : List.Sublist (cleanRecords latest cfg now records horizons).1
            (recordsOf x) := by
          have isRecords : recordsOf x = records := by simp [recordsOf, decoded]
          rw [isRecords]
          exact cleanRecords_sublist latest cfg now records horizons
        obtain ⟨fits', within, _⟩ := reencode_spec codec fits sublist member
        exact ⟨fits', within⟩

theorem cleanBatch_length (horizons : Horizons) (x : Int × Batch) :
    (cleanBatch codec latest limit cfg now horizons x).1.length ≤ 1 := by
  unfold cleanBatch
  split
  · exact le_rfl
  · split
    · exact le_rfl
    · simp only
      split
      · exact le_rfl
      · rcases reencode_cases codec x.2 (cleanRecords latest cfg now _ horizons).1 with
          ⟨_, nothing⟩ | ⟨_, _, _, _, _, _, written⟩
        · rw [nothing]
          exact Nat.zero_le 1
        · rw [written]
          exact le_rfl

theorem cleanBatches_shrunk {batches : List (Int × Batch)} (horizons : Horizons)
    (fits : ∀ x, x ∈ batches → BatchFits x) :
    List.SublistForall₂ Within (cleanBatches codec latest limit cfg now batches horizons).1
      batches ∧
      ∀ x', x' ∈ (cleanBatches codec latest limit cfg now batches horizons).1 → BatchFits x' := by
  induction batches generalizing horizons with
  | nil => exact ⟨.nil, fun x' member => by cases member⟩
  | cons x rest ih =>
    simp only [cleanBatches]
    obtain ⟨shrunk, fitsLater⟩ := ih (cleanBatch codec latest limit cfg now horizons x).2.1
      (fun y member => fits y (List.mem_cons_of_mem x member))
    have within : ∀ x', x' ∈ (cleanBatch codec latest limit cfg now horizons x).1 →
        BatchFits x' ∧ Within x' x := fun _ member =>
      cleanBatch_within codec latest limit cfg now horizons (fits x List.mem_cons_self) member
    have short := cleanBatch_length codec latest limit cfg now horizons x
    generalize (cleanBatch codec latest limit cfg now horizons x).1 = front at within short
    constructor
    · cases front with
      | nil => exact .cons_right shrunk
      | cons x' more =>
        have alone : more = [] := by
          rw [List.length_cons] at short
          exact List.length_eq_zero_iff.mp (by omega)
        rw [alone]
        exact .cons (within x' List.mem_cons_self).2 shrunk
    · intro y' member
      rcases List.mem_append.mp member with inFront | later
      · exact (within y' inFront).1
      · exact fitsLater y' later

end Clean

theorem keepSegments_sublist (batches : List (Int × Batch)) (segments : List Segment) :
    List.Sublist (keepSegments batches segments) segments := by
  induction segments with
  | nil => exact List.Sublist.refl _
  | cons s rest ih =>
    cases rest with
    | nil => exact List.Sublist.refl _
    | cons next later =>
      unfold keepSegments
      simp only
      split
      · exact ih.cons_cons s
      · exact ih.cons s

theorem keepSegments_covers {x : Int × Batch} (member : x ∈ batches)
    (ordered : segments.Pairwise (fun s t => s.baseOffset < t.baseOffset))
    (covered : ∃ s, s ∈ segments ∧ s.baseOffset ≤ x.1) :
    ∃ s, s ∈ keepSegments batches segments ∧ s.baseOffset ≤ x.1 := by
  induction segments with
  | nil => exact covered
  | cons s rest ih =>
    cases rest with
    | nil => exact covered
    | cons next later =>
      obtain ⟨fromHead, fromRest⟩ := List.pairwise_cons.mp ordered
      unfold keepSegments
      simp only
      by_cases past : next.baseOffset ≤ x.1
      · obtain ⟨t, inKept, below⟩ := ih fromRest ⟨next, List.mem_cons_self, past⟩
        refine ⟨t, ?_, below⟩
        split
        · exact List.mem_cons_of_mem s inKept
        · exact inKept
      · have starts : s.baseOffset ≤ x.1 := by
          obtain ⟨t, inSegments, below⟩ := covered
          rcases List.mem_cons.mp inSegments with same | inRest
          · rw [← same]
            exact below
          · have after := fromHead t inRest
            omega
        have holds : batches.any (fun x =>
            decide (s.baseOffset ≤ x.1) && decide (x.1 < next.baseOffset)) = true := by
          refine List.any_eq_true.mpr ⟨x, member, ?_⟩
          simp only [Bool.and_eq_true, decide_eq_true_eq]
          omega
        rw [if_pos holds]
        exact ⟨s, List.mem_cons_self, starts⟩

theorem Rep.uncleanable_le (rep : Rep p) (some' : p.segments ≠ []) (cfg : LogConfig) (now : Int) :
    p.uncleanable cfg now ≤ p.highWatermark := by
  obtain ⟨active, last⟩ : ∃ active, p.segments.getLast? = some active := by
    rw [← Option.isSome_iff_exists, List.getLast?_isSome]
    exact some'
  have upper := rep.reached active (List.mem_of_getLast? last)
  unfold uncleanable
  simp only [last, Option.map_some, Option.getD_some]
  cases (p.activeTxns.map Prod.snd).min? with
  | none =>
    split
    · split
      · exact le_trans (min_le_left _ _) upper
      · exact upper
    · exact upper
  | some first =>
    have below : min active.baseOffset first ≤ p.highWatermark := le_trans (min_le_left _ _) upper
    split
    · split
      · exact le_trans (min_le_left _ _) below
      · exact below
    · exact below

theorem Rep.clean (rep : Rep p) (some' : p.segments ≠ []) (codec : Codec) (cfg : LogConfig)
    (now : Int) : Rep (clean codec p cfg now).1 := by
  obtain ⟨shrunk, fits⟩ := cleanBatches_shrunk codec (p.latestOffsets (p.uncleanable cfg now))
    (p.uncleanable cfg now) cfg now p.tombstoneHorizons rep.fits
  refine rep.shrunk shrunk fits rfl rep.started (keepSegments_sublist _ _) ?_
    (max_le rep.cleaned (rep.uncleanable_le some' cfg now)) rfl
  intro x' member
  obtain ⟨x, inLog, within⟩ := shrunk_mem shrunk member
  obtain ⟨s, inSegments, below⟩ := rep.covered x inLog
  exact keepSegments_covers member rep.segments ⟨s, inSegments, le_trans below within.1⟩

theorem Rep.compact (rep : Rep p) (codec : Codec) (cfg : LogConfig) (now : Int) :
    Rep (compact codec p cfg now).1 := by
  unfold PartitionState.compact
  split
  · exact rep
  · simp only
    split
    · exact (rep.ensureSegment now).clean (ensureSegment_nonempty p now) codec cfg now
    · exact rep.ensureSegment now

end PartitionState

end NoidaDb.Kafka
