/-
Transactions in the log of one partition.

The open ones are in `activeTxns`, and every aborted one that still has batches is in
`abortedTxns`, as long as the log start does not cut one.
-/

import NoidaDb.Kafka.Survivors
import NoidaDb.Kafka.TxnEnd

namespace NoidaDb.Kafka

def MarkerOf (producerId : Int) (x : Int × Batch) : Prop :=
  x.2.control = true ∧ x.2.producerId = producerId

def WrittenBy (producerId : Int) (x : Int × Batch) : Prop :=
  x.2.control = false ∧ x.2.transactional = true ∧ x.2.producerId = producerId

namespace PartitionState

/-- `y` is the first marker of the producer after `x`. -/
def EndedBy (batches : List (Int × Batch)) (producerId : Int) (x y : Int × Batch) : Prop :=
  y ∈ batches ∧ MarkerOf producerId y ∧ x.1 < y.1 ∧
    ∀ z, z ∈ batches → MarkerOf producerId z → x.1 < z.1 → y.1 ≤ z.1

structure Txns (p : PartitionState) : Prop where
  unique : (p.activeTxns.map Prod.fst).Nodup
  before : ∀ t, t ∈ p.activeTxns → t.2 < p.highWatermark
  markers : ∀ x, x ∈ p.recordBatches → x.2.control = true →
    x.2.marker.isSome = true ∧ x.2.lastOffsetDelta = 0
  opened : ∀ x, x ∈ p.recordBatches → ∀ producerId, WrittenBy producerId x →
    (∀ y, y ∈ p.recordBatches → MarkerOf producerId y → y.1 < x.1) →
    ∃ t, t ∈ p.activeTxns ∧ t.1 = producerId ∧ t.2 ≤ x.1
  active : ∀ t, t ∈ p.activeTxns → ∀ y, y ∈ p.recordBatches → MarkerOf t.1 y → y.1 < t.2
  ended : ∀ t, t ∈ p.abortedTxns → ∃ y, y ∈ p.recordBatches ∧ MarkerOf t.1 y ∧
    y.2.marker = some false ∧ t.2 ≤ y.1 ∧
    ∀ z, z ∈ p.recordBatches → MarkerOf t.1 z → t.2 ≤ z.1 → y.1 ≤ z.1
  listed : ∀ x, x ∈ p.recordBatches → ∀ producerId, WrittenBy producerId x →
    ∀ y, EndedBy p.recordBatches producerId x y → y.2.marker = some false →
    ∃ t, t ∈ p.abortedTxns ∧ t.1 = producerId ∧ t.2 ≤ x.1 ∧
      ∀ z, z ∈ p.recordBatches → MarkerOf producerId z → z.1 < x.1 → z.1 < t.2
  starts : ∀ t, t ∈ p.activeTxns ∨ t ∈ p.abortedTxns → ∀ x, x ∈ p.recordBatches → x.1 = t.2 →
    WrittenBy t.1 x
  bounds : ∀ t, t ∈ p.abortedTxns → Boundary p.recordBatches t.2

theorem txns_new : Txns {} := by
  constructor <;> simp

/-- The new log start leaves each aborted transaction whole, or takes all its batches. -/
def KeepsAborted (p : PartitionState) (newStart : Int) : Prop :=
  ∀ t, t ∈ p.abortedTxns → t.2 < newStart → ∀ x, x ∈ p.recordBatches → WrittenBy t.1 x →
    t.2 ≤ x.1 → newStart ≤ batchLastOffset x.1 x.2 →
    ∃ y, y ∈ p.recordBatches ∧ MarkerOf t.1 y ∧ t.2 ≤ y.1 ∧ y.1 < x.1

variable {p : PartitionState} {newStart producerId first : Int} {x : Int × Batch}

theorem Txns.rewritten {p' : PartitionState} (txns : Txns p)
    (same : ∀ x : Int × Batch, x.2.plain = false → (x ∈ p'.recordBatches ↔ x ∈ p.recordBatches))
    (within : ∀ x, x ∈ p'.recordBatches → ∃ y, y ∈ p.recordBatches ∧ Within x y ∧
      x.2.plain = y.2.plain) (fits : ∀ x, x ∈ p'.recordBatches → BatchFits x)
    (boundsActive : ∀ t, t ∈ p.activeTxns → Boundary p.recordBatches t.2)
    (high : p'.highWatermark = p.highWatermark) (active : p'.activeTxns = p.activeTxns)
    (aborted : p'.abortedTxns = p.abortedTxns) : Txns p' := by
  have marker : ∀ {producerId : Int} {x : Int × Batch}, MarkerOf producerId x →
      x.2.plain = false := by
    intro producerId x isMarker
    simp [Batch.plain, isMarker.1]
  have written : ∀ {producerId : Int} {x : Int × Batch}, WrittenBy producerId x →
      x.2.plain = false := by
    intro producerId x isWritten
    simp [Batch.plain, isWritten.2.1]
  have markerIff : ∀ {producerId : Int} {x : Int × Batch}, MarkerOf producerId x →
      (x ∈ p'.recordBatches ↔ x ∈ p.recordBatches) := fun isMarker => same _ (marker isMarker)
  have boundary : ∀ {t : Int × Int}, t ∈ p.activeTxns ∨ t ∈ p.abortedTxns →
      Boundary p.recordBatches t.2 := by
    rintro t (isActive | isAborted)
    · exact boundsActive t isActive
    · exact txns.bounds t isAborted
  constructor
  · rw [active]
    exact txns.unique
  · rw [active, high]
    exact txns.before
  · intro x inLog isControl
    apply txns.markers x _ isControl
    exact (same x (by simp [Batch.plain, isControl])).mp inLog
  · intro x inLog producerId isWritten alone
    rw [active]
    apply txns.opened x ((same x (written isWritten)).mp inLog) producerId isWritten
    intro y inLog' isMarker
    exact alone y ((markerIff isMarker).mpr inLog') isMarker
  · intro t isActive y inLog isMarker
    rw [active] at isActive
    exact txns.active t isActive y ((markerIff isMarker).mp inLog) isMarker
  · intro t isAborted
    rw [aborted] at isAborted
    obtain ⟨y, inLog, isMarker, isAbort, after, first⟩ := txns.ended t isAborted
    refine ⟨y, (markerIff isMarker).mpr inLog, isMarker, isAbort, after, ?_⟩
    intro z inLog' isMarker' after'
    exact first z ((markerIff isMarker').mp inLog') isMarker' after'
  · intro x inLog producerId isWritten y isNext isAbort
    obtain ⟨inLog', isMarker, after, first⟩ := isNext
    rw [aborted]
    obtain ⟨t, isAborted, isId, starts, none'⟩ := txns.listed x
      ((same x (written isWritten)).mp inLog) producerId isWritten y
      ⟨(markerIff isMarker).mp inLog', isMarker, after, fun z inLog'' isMarker' =>
        first z ((markerIff isMarker').mpr inLog'') isMarker'⟩ isAbort
    exact ⟨t, isAborted, isId, starts, fun z inLog'' isMarker' =>
      none' z ((markerIff isMarker').mp inLog'') isMarker'⟩
  · intro t isTxn x inLog isStart
    rw [active, aborted] at isTxn
    obtain ⟨y, inOld, ⟨lower, upper⟩, samePlain⟩ := within x inLog
    have base := (fits x inLog).base_le
    -- The batch that starts there is the one that has always been there.
    have isBase : y.1 = t.2 := by
      rcases boundary isTxn y inOld with above | below
      · omega
      · omega
    have isWritten := txns.starts t isTxn y inOld isBase
    have notPlain : x.2.plain = false := by
      rw [samePlain]
      exact written isWritten
    exact txns.starts t isTxn x ((same x notPlain).mp inLog) isStart
  · intro t isAborted
    rw [aborted] at isAborted
    intro x inLog
    obtain ⟨y, inOld, ⟨lower, upper⟩, _⟩ := within x inLog
    rcases txns.bounds t isAborted y inOld with above | below
    · exact Or.inl (by omega)
    · exact Or.inr (by omega)

theorem Txns.ensureSegment (txns : Txns p) (now : Int) : Txns (p.ensureSegment now) := by
  obtain ⟨segments, same⟩ : ∃ segments, p.ensureSegment now = { p with segments := segments } := by
    unfold PartitionState.ensureSegment
    split
    · exact ⟨_, rfl⟩
    · exact ⟨_, rfl⟩
  rw [same]
  exact ⟨txns.unique, txns.before, txns.markers, txns.opened, txns.active, txns.ended, txns.listed,
    txns.starts, txns.bounds⟩

theorem mem_clean_of_not_plain (rep : Rep p) (codec : Codec) (cfg : LogConfig) (now : Int)
    (notPlain : x.2.plain = false) :
    x ∈ (PartitionState.clean codec p cfg now).1.recordBatches ↔ x ∈ p.recordBatches := by
  have apart : cleanable (p.uncleanable cfg now) x = false := by
    simp [cleanable, notPlain]
  rw [mem_clean_recordBatches rep]
  constructor
  · rintro ⟨y, inLog, written⟩
    have samePlain := (cleanedBatch_within codec _ _ now _ (rep.fits y inLog) written).2
    have apart' : cleanable (p.uncleanable cfg now) y = false := by
      simp [cleanable, ← samePlain, notPlain]
    rw [cleanedBatch_of_not_cleanable codec _ _ now _ apart'] at written
    rw [List.mem_singleton.mp written]
    exact inLog
  · intro inLog
    refine ⟨x, inLog, ?_⟩
    rw [cleanedBatch_of_not_cleanable codec _ _ now _ apart]
    exact List.mem_singleton_self x

theorem Txns.clean (txns : Txns p) (rep : Rep p) (some' : p.segments ≠ []) (codec : Codec)
    (cfg : LogConfig) (now : Int) : Txns (clean codec p cfg now).1 := by
  apply txns.rewritten
  · intro x notPlain
    exact mem_clean_of_not_plain rep codec cfg now notPlain
  · intro x inLog
    obtain ⟨y, inOld, written⟩ := (mem_clean_recordBatches rep codec cfg now).mp inLog
    obtain ⟨within, samePlain⟩ := cleanedBatch_within codec _ _ now _ (rep.fits y inOld) written
    exact ⟨y, inOld, within, samePlain⟩
  · exact (rep.clean some' codec cfg now).fits
  · intro t isActive
    exact (rep.opened t isActive).1
  · rfl
  · rfl
  · rfl

theorem before_of_dropped (rep : Rep p) {y : Int × Batch} (inX : x ∈ p.recordBatches)
    (inY : y ∈ p.recordBatches) (dropped : batchLastOffset x.1 x.2 < newStart)
    (stays : newStart ≤ batchLastOffset y.1 y.2) : x.1 < y.1 := by
  have different : x ≠ y := fun same => by
    rw [same] at dropped
    omega
  have base := (rep.fits x inX).base_le
  rcases rep.apart inX inY different with apart | apart
  · omega
  · omega

theorem Txns.truncateFront (txns : Txns p) (rep : Rep p)
    (keeps : p.logStartOffset < newStart → p.KeepsAborted newStart) (now : Int) :
    Txns (p.truncateFront newStart now) := by
  unfold PartitionState.truncateFront
  split
  · exact txns
  · rename_i moves
    have keeps := keeps (by omega)
    have stays : ∀ x, x ∈ (p.ensureSegment now).recordBatches.filter (fun x =>
        decide (newStart ≤ batchLastOffset x.1 x.2)) ↔
          x ∈ p.recordBatches ∧ newStart ≤ batchLastOffset x.1 x.2 := by
      intro x
      simp
    have aborted : ∀ t, t ∈ (p.ensureSegment now).abortedTxns.filter (fun x =>
        decide (newStart ≤ x.2)) ↔ t ∈ p.abortedTxns ∧ newStart ≤ t.2 := by
      intro t
      simp
    -- A batch past one that stays stays too.
    have staysAfter : ∀ {x y : Int × Batch}, x ∈ p.recordBatches →
        newStart ≤ batchLastOffset x.1 x.2 → y ∈ p.recordBatches → x.1 < y.1 →
        newStart ≤ batchLastOffset y.1 y.2 := by
      intro x y inX staysX inY after
      have apart := rep.ends_before inX inY after
      have base := (rep.fits y inY).base_le
      omega
    constructor
    · simpa using txns.unique
    · simpa using txns.before
    · intro x inLog isControl
      exact txns.markers x ((stays x).mp inLog).1 isControl
    · intro x inLog producerId isWritten alone
      obtain ⟨inOld, staysX⟩ := (stays x).mp inLog
      have found := txns.opened x inOld producerId isWritten (by
        intro y inY isMarker
        by_cases staysY : newStart ≤ batchLastOffset y.1 y.2
        · exact alone y ((stays y).mpr ⟨inY, staysY⟩) isMarker
        · exact before_of_dropped rep inY inOld (by omega) staysX)
      simpa using found
    · intro t isActive y inLog isMarker
      have isActive : t ∈ p.activeTxns := by simpa using isActive
      exact txns.active t isActive y ((stays y).mp inLog).1 isMarker
    · intro t isAborted
      obtain ⟨isAborted, late⟩ := (aborted t).mp isAborted
      obtain ⟨y, inLog, isMarker, isAbort, after, first⟩ := txns.ended t isAborted
      have base := (rep.fits y inLog).base_le
      refine ⟨y, (stays y).mpr ⟨inLog, by omega⟩, isMarker, isAbort, after, ?_⟩
      intro z inLog' isMarker' after'
      exact first z ((stays z).mp inLog').1 isMarker' after'
    · intro x inLog producerId isWritten y ⟨inLog', isMarker, after, first⟩ isAbort
      obtain ⟨inOld, staysX⟩ := (stays x).mp inLog
      obtain ⟨t, isAborted, isId, starts, none'⟩ := txns.listed x inOld producerId isWritten y
        ⟨((stays y).mp inLog').1, isMarker, after, fun z inZ isMarker' after' =>
          first z ((stays z).mpr ⟨inZ, staysAfter inOld staysX inZ after'⟩) isMarker' after'⟩ isAbort
      subst isId
      refine ⟨t, (aborted t).mpr ⟨isAborted, ?_⟩, rfl, starts, fun z inZ isMarker' =>
        none' z ((stays z).mp inZ).1 isMarker'⟩
      by_contra early
      obtain ⟨z, inZ, isMarker', after', before'⟩ := keeps t isAborted (by omega) x inOld isWritten
        starts staysX
      have impossible := none' z inZ isMarker' before'
      omega
    · intro t isTxn x inLog isStart
      obtain ⟨inOld, _⟩ := (stays x).mp inLog
      apply txns.starts t _ x inOld isStart
      rcases isTxn with isActive | isAborted
      · exact Or.inl (by simpa using isActive)
      · exact Or.inr ((aborted t).mp isAborted).1
    · intro t isAborted x inLog
      exact txns.bounds t ((aborted t).mp isAborted).1 x ((stays x).mp inLog).1

theorem Rep.base_lt (rep : Rep p) (inLog : x ∈ p.recordBatches) : x.1 < p.highWatermark := by
  have base := (rep.fits x inLog).base_le
  have ended := rep.ended x inLog
  omega

theorem Txns.aborted_lt (txns : Txns p) (rep : Rep p) {t : Int × Int}
    (isAborted : t ∈ p.abortedTxns) : t.2 < p.highWatermark := by
  obtain ⟨y, inLog, _, _, after, _⟩ := txns.ended t isAborted
  have upper := rep.base_lt inLog
  omega

theorem Txns.appendData (txns : Txns p) (rep : Rep p) (seqs : Int × Int → Option (Int × Int))
    {active : List (Int × Int)} {batch : Batch} (data : batch.control = false)
    (noted : active = p.activeTxns ∨ active = p.activeTxns ++ [(batch.producerId, p.highWatermark)] ∧
      batch.transactional = true ∧ ∀ t, t ∈ p.activeTxns → t.1 ≠ batch.producerId)
    (known : batch.transactional = true → ∃ t, t ∈ active ∧ t.1 = batch.producerId) {count : Int}
    (positive : 0 < count) (now : Int) (cfg : Option LogConfig) :
    Txns ({ p with producerSeqs := seqs, activeTxns := active }.appendBatch batch count now cfg).1 := by
  have old : ∀ t, t ∈ p.activeTxns → t ∈ active := by
    intro t member
    rcases noted with same | ⟨same, _⟩
    · rw [same]
      exact member
    · rw [same]
      exact List.mem_append_left _ member
  have cases' : ∀ t, t ∈ active → t ∈ p.activeTxns ∨
      (t = (batch.producerId, p.highWatermark) ∧ batch.transactional = true) := by
    intro t member
    rcases noted with same | ⟨same, isTransactional, _⟩
    · rw [same] at member
      exact Or.inl member
    · rw [same] at member
      rcases List.mem_append.mp member with before | new
      · exact Or.inl before
      · exact Or.inr ⟨List.mem_singleton.mp new, isTransactional⟩
  have inNew : ∀ x, x ∈ p.recordBatches ++ [(p.highWatermark, batch)] ↔
      x ∈ p.recordBatches ∨ x = (p.highWatermark, batch) := by
    intro x
    simp
  have markerOld : ∀ {producerId : Int} {y : Int × Batch},
      y ∈ p.recordBatches ++ [(p.highWatermark, batch)] → MarkerOf producerId y →
      y ∈ p.recordBatches := by
    intro producerId y member isMarker
    rcases (inNew y).mp member with before | new
    · exact before
    · rw [new] at isMarker
      have isControl : batch.control = true := isMarker.1
      rw [data] at isControl
      cases isControl
  rw [appendBatch_eq]
  constructor
  · show ((PartitionState.ensureSegment _ now).activeTxns.map Prod.fst).Nodup
    simp only [ensureSegment_activeTxns]
    rcases noted with same | ⟨same, _, fresh⟩
    · rw [same]
      exact txns.unique
    · rw [same, List.map_append, List.map_singleton]
      apply List.Nodup.append txns.unique (List.nodup_singleton _)
      intro producerId inOld isNew
      obtain ⟨t, member, rfl⟩ := List.mem_map.mp inOld
      exact fresh t member (List.mem_singleton.mp isNew)
  · intro t member
    simp only [ensureSegment_activeTxns] at member ⊢
    rcases cases' t member with before | ⟨new, _⟩
    · have upper := txns.before t before
      omega
    · rw [new]
      simp only
      omega
  · intro x member isControl
    have isMarker : MarkerOf x.2.producerId x := ⟨isControl, rfl⟩
    exact txns.markers x (markerOld member isMarker) isControl
  · intro x member producerId isWritten alone
    simp only [ensureSegment_activeTxns]
    rcases (inNew x).mp member with before | new
    · obtain ⟨t, isActive, isId, starts⟩ := txns.opened x before producerId isWritten
        (fun y inY => alone y ((inNew y).mpr (Or.inl inY)))
      exact ⟨t, old t isActive, isId, starts⟩
    · subst new
      obtain ⟨t, isActive, isId⟩ := known isWritten.2.1
      refine ⟨t, isActive, isId.trans isWritten.2.2, ?_⟩
      rcases cases' t isActive with before | ⟨same, _⟩
      · exact le_of_lt (txns.before t before)
      · rw [same]
  · intro t member y inY isMarker
    simp only [ensureSegment_activeTxns] at member
    have inOld := markerOld inY isMarker
    rcases cases' t member with before | ⟨same, _⟩
    · exact txns.active t before y inOld isMarker
    · rw [same]
      exact rep.base_lt inOld
  · intro t member
    simp only [ensureSegment_abortedTxns] at member
    obtain ⟨y, inLog, isMarker, isAbort, after, first⟩ := txns.ended t member
    exact ⟨y, (inNew y).mpr (Or.inl inLog), isMarker, isAbort, after, fun z inZ isMarker' =>
      first z (markerOld inZ isMarker') isMarker'⟩
  · intro x member producerId isWritten y ⟨inY, isMarker, after, first⟩ isAbort
    simp only [ensureSegment_abortedTxns]
    have inOld := markerOld inY isMarker
    rcases (inNew x).mp member with before | new
    · obtain ⟨t, isAborted, isId, starts, none'⟩ := txns.listed x before producerId isWritten y
        ⟨inOld, isMarker, after, fun z inZ => first z ((inNew z).mpr (Or.inl inZ))⟩ isAbort
      exact ⟨t, isAborted, isId, starts, fun z inZ isMarker' =>
        none' z (markerOld inZ isMarker') isMarker'⟩
    · have upper := rep.base_lt inOld
      rw [new] at after
      simp only at after
      omega
  · intro t isTxn x member isStart
    simp only [ensureSegment_activeTxns, ensureSegment_abortedTxns] at isTxn
    have isTxn : (t ∈ p.activeTxns ∨ t ∈ p.abortedTxns) ∨
        (t = (batch.producerId, p.highWatermark) ∧ batch.transactional = true) := by
      rcases isTxn with isActive | isAborted
      · rcases cases' t isActive with before | new
        · exact Or.inl (Or.inl before)
        · exact Or.inr new
      · exact Or.inl (Or.inr isAborted)
    rcases (inNew x).mp member with before | new
    · have upper := rep.base_lt before
      rcases isTxn with isOld | ⟨same, _⟩
      · exact txns.starts t isOld x before isStart
      · rw [same] at isStart
        simp only at isStart
        omega
    · rw [new] at isStart ⊢
      rcases isTxn with (isActive | isAborted) | ⟨same, isTransactional⟩
      · have upper := txns.before t isActive
        simp only at isStart
        omega
      · have upper := txns.aborted_lt rep isAborted
        simp only at isStart
        omega
      · rw [same]
        exact ⟨data, isTransactional, rfl⟩
  · intro t member x inX
    simp only [ensureSegment_abortedTxns] at member
    rcases (inNew x).mp inX with before | new
    · exact txns.bounds t member x before
    · rw [new]
      exact Or.inl (le_of_lt (txns.aborted_lt rep member))

theorem eq_of_lookup {txns : List (Int × Int)} (unique : (txns.map Prod.fst).Nodup)
    (found : txns.lookup producerId = some first) {t : Int × Int} (member : t ∈ txns)
    (isId : t.1 = producerId) : t.2 = first := by
  induction txns with
  | nil => cases member
  | cons u rest ih =>
    rw [List.map_cons, List.nodup_cons] at unique
    rw [List.lookup_cons] at found
    by_cases same : producerId = u.1
    · rw [beq_iff_eq.mpr same] at found
      rcases List.mem_cons.mp member with isHead | inRest
      · rw [isHead]
        exact Option.some.inj found
      · exfalso
        apply unique.1
        rw [← same, ← isId]
        exact List.mem_map_of_mem inRest
    · rw [beq_eq_false_iff_ne.mpr same] at found
      rcases List.mem_cons.mp member with isHead | inRest
      · rw [isHead] at isId
        exact (same isId.symm).elim
      · exact ih unique.2 found inRest

theorem mem_of_lookup {txns : List (Int × Int)} (found : txns.lookup producerId = some first) :
    (producerId, first) ∈ txns := by
  obtain ⟨front, back, same, _⟩ := List.lookup_eq_some_iff.mp found
  rw [same]
  exact List.mem_append_right front List.mem_cons_self

theorem Txns.appendMarker (txns : Txns p) (rep : Rep p) (codec : Codec) (producerEpoch : Int)
    (found : p.activeTxns.lookup producerId = some first) (committed : Bool) (now : Int) :
    Txns ((p.closeTxn producerId committed first).appendBatch
      (encodeControlBatch codec producerId producerEpoch p.highWatermark committed now) 1 now
      none).1 := by
  generalize isMarkerBatch :
    encodeControlBatch codec producerId producerEpoch p.highWatermark committed now = marker
  have kind : marker.marker = some committed := by
    rw [← isMarkerBatch]
    exact encodeControlBatch_marker codec producerId producerEpoch committed now _
  have alone : marker.lastOffsetDelta = 0 := by
    rw [← isMarkerBatch]
    exact (encodeControlBatch_fits codec producerId producerEpoch p.highWatermark committed now).2
  have isMarker₀ : MarkerOf producerId (p.highWatermark, marker) := by
    rw [← isMarkerBatch]
    exact ⟨rfl, rfl⟩
  have isOpen := mem_of_lookup found
  have firstLt : first < p.highWatermark := txns.before _ isOpen
  have inNew : ∀ x, x ∈ p.recordBatches ++ [(p.highWatermark, marker)] ↔
      x ∈ p.recordBatches ∨ x = (p.highWatermark, marker) := by
    intro x
    simp
  have inActive : ∀ t, t ∈ p.activeTxns.filter (fun t => t.1 != producerId) ↔
      t ∈ p.activeTxns ∧ t.1 ≠ producerId := by
    intro t
    rw [List.mem_filter, bne_iff_ne]
  have inAborted : ∀ t, t ∈ (if committed then p.abortedTxns
      else p.abortedTxns ++ [(producerId, first)]) →
      t ∈ p.abortedTxns ∨ (t = (producerId, first) ∧ committed = false) := by
    intro t member
    split at member
    · exact Or.inl member
    · rename_i aborts
      rcases List.mem_append.mp member with before | new
      · exact Or.inl before
      · exact Or.inr ⟨List.mem_singleton.mp new, by simpa using aborts⟩
  have oldAborted : ∀ t, t ∈ p.abortedTxns → t ∈ (if committed then p.abortedTxns
      else p.abortedTxns ++ [(producerId, first)]) := by
    intro t member
    split
    · exact member
    · exact List.mem_append_left _ member
  -- A marker of another producer was there before.
  have markerOld : ∀ {other : Int} {y : Int × Batch}, other ≠ producerId →
      y ∈ p.recordBatches ++ [(p.highWatermark, marker)] → MarkerOf other y →
      y ∈ p.recordBatches := by
    intro other y different member isMarker
    rcases (inNew y).mp member with before | new
    · exact before
    · rw [new] at isMarker
      exact (different (isMarker.2.symm.trans isMarker₀.2)).elim
  rw [appendBatch_eq]
  constructor
  · show ((PartitionState.ensureSegment _ now).activeTxns.map Prod.fst).Nodup
    simp only [ensureSegment_activeTxns]
    exact txns.unique.sublist (List.filter_sublist.map Prod.fst)
  · intro t member
    simp only [ensureSegment_activeTxns] at member ⊢
    have upper := txns.before t ((inActive t).mp member).1
    simp only [PartitionState.closeTxn]
    omega
  · intro x member isControl
    rcases (inNew x).mp member with before | new
    · exact txns.markers x before isControl
    · rw [new]
      exact ⟨by rw [kind]; rfl, alone⟩
  · intro x member other isWritten last
    simp only [ensureSegment_activeTxns]
    rcases (inNew x).mp member with before | new
    · by_cases same : other = producerId
      · subst same
        have later := last _ ((inNew _).mpr (Or.inr rfl)) isMarker₀
        have upper := rep.base_lt before
        simp only at later
        omega
      · obtain ⟨t, isActive, isId, starts⟩ := txns.opened x before other isWritten
          (fun y inY => last y ((inNew y).mpr (Or.inl inY)))
        refine ⟨t, (inActive t).mpr ⟨isActive, ?_⟩, isId, starts⟩
        rw [isId]
        exact same
    · rw [new] at isWritten
      have isControl : marker.control = true := isMarker₀.1
      have notControl : marker.control = false := isWritten.1
      rw [isControl] at notControl
      cases notControl
  · intro t member y inY isMarker
    simp only [ensureSegment_activeTxns] at member
    obtain ⟨isActive, different⟩ := (inActive t).mp member
    exact txns.active t isActive y (markerOld different inY isMarker) isMarker
  · intro t member
    simp only [ensureSegment_abortedTxns] at member
    rcases inAborted t member with before | ⟨same, aborts⟩
    · obtain ⟨y, inLog, isMarker, isAbort, after, least⟩ := txns.ended t before
      refine ⟨y, (inNew y).mpr (Or.inl inLog), isMarker, isAbort, after, ?_⟩
      intro z inZ isMarker' after'
      rcases (inNew z).mp inZ with inOld | new
      · exact least z inOld isMarker' after'
      · rw [new]
        exact le_of_lt (rep.base_lt inLog)
    · subst same
      refine ⟨_, (inNew _).mpr (Or.inr rfl), isMarker₀, by rw [kind, aborts], le_of_lt firstLt, ?_⟩
      intro z inZ isMarker' after'
      rcases (inNew z).mp inZ with inOld | new
      · have before := txns.active _ isOpen z inOld isMarker'
        simp only at before after'
        omega
      · rw [new]
  · intro x member other isWritten y isNext isAbort
    obtain ⟨inY, isMarker, after, least⟩ := isNext
    simp only [ensureSegment_abortedTxns]
    have inX : x ∈ p.recordBatches := by
      rcases (inNew x).mp member with before | new
      · exact before
      · rw [new] at isWritten
        have isControl : marker.control = true := isMarker₀.1
        have notControl : marker.control = false := isWritten.1
        rw [isControl] at notControl
        cases notControl
    have upper := rep.base_lt inX
    rcases (inNew y).mp inY with inOld | new
    · obtain ⟨t, isAborted, isId, starts, none'⟩ := txns.listed x inX other isWritten y
        ⟨inOld, isMarker, after, fun z inZ => least z ((inNew z).mpr (Or.inl inZ))⟩ isAbort
      refine ⟨t, oldAborted t isAborted, isId, starts, ?_⟩
      intro z inZ isMarker' before'
      rcases (inNew z).mp inZ with inOld' | new
      · exact none' z inOld' isMarker' before'
      · rw [new] at before'
        simp only at before'
        omega
    · subst new
      obtain rfl : producerId = other := isMarker₀.2.symm.trans isMarker.2
      have aborts : committed = false := Option.some.inj (kind.symm.trans isAbort)
      -- Nothing ended it before, so it belongs to the open transaction.
      obtain ⟨t, isActive, isId, starts⟩ := txns.opened x inX producerId isWritten (by
        intro z inZ isMarker'
        by_contra notBefore
        have different : z.1 ≠ x.1 := by
          intro sameBase
          have same : z = x := by
            by_contra apart
            have baseZ := (rep.fits z inZ).base_le
            have baseX := (rep.fits x inX).base_le
            rcases rep.apart inZ inX apart with far | far
            · omega
            · omega
          rw [same] at isMarker'
          have notControl := isWritten.1
          rw [isMarker'.1] at notControl
          cases notControl
        have later := least z ((inNew z).mpr (Or.inl inZ)) isMarker' (by omega)
        have upper' := rep.base_lt inZ
        simp only at later
        omega)
      have isFirst := eq_of_lookup txns.unique found isActive isId
      refine ⟨(producerId, first), ?_, rfl, by simp only; omega, ?_⟩
      · simp only [PartitionState.closeTxn, aborts]
        exact List.mem_append_right _ (List.mem_singleton_self _)
      · intro z inZ isMarker' before'
        rcases (inNew z).mp inZ with inOld' | new
        · exact txns.active _ isOpen z inOld' isMarker'
        · rw [new] at before'
          simp only at before'
          omega
  · intro t isTxn x member isStart
    simp only [ensureSegment_activeTxns, ensureSegment_abortedTxns] at isTxn
    have isTxn : t ∈ p.activeTxns ∨ t ∈ p.abortedTxns := by
      rcases isTxn with isActive | isAborted
      · exact Or.inl ((inActive t).mp isActive).1
      · rcases inAborted t isAborted with before | ⟨same, _⟩
        · exact Or.inr before
        · rw [same]
          exact Or.inl isOpen
    rcases (inNew x).mp member with before | new
    · exact txns.starts t isTxn x before isStart
    · rw [new] at isStart
      simp only at isStart
      rcases isTxn with isActive | isAborted
      · have upper := txns.before t isActive
        omega
      · have upper := txns.aborted_lt rep isAborted
        omega
  · intro t member x inX
    simp only [ensureSegment_abortedTxns] at member
    rcases inAborted t member with before | ⟨same, _⟩
    · rcases (inNew x).mp inX with inOld | new
      · exact txns.bounds t before x inOld
      · rw [new]
        exact Or.inl (le_of_lt (txns.aborted_lt rep before))
    · rw [same]
      rcases (inNew x).mp inX with inOld | new
      · exact (rep.opened _ isOpen).1 x inOld
      · rw [new]
        exact Or.inl (le_of_lt firstLt)

def SentInTxn (b : Batch) : Prop :=
  b.control = false ∧ (b.transactional = true → 0 ≤ b.producerId)

/-- Markers come only from the end of a transaction, and no log start cuts an aborted
transaction. -/
def LogCall.LeavesTxns (p : PartitionState) : LogCall → Prop
  | .produce _ _ _ records _ => ∀ b, records = some (.batch b) → SentInTxn b
  | .control _ _ _ _ => False
  | .truncateFront newStart _ => p.KeepsAborted newStart
  | .applyRetention cfg now => p.KeepsAborted (p.applyRetention cfg now).1.logStartOffset
  | _ => True

theorem storedAs_flags (codec : Codec) (cfg : LogConfig) (b : Batch) (now : Int) :
    (storedAs codec cfg b now).control = b.control ∧
      (storedAs codec cfg b now).transactional = b.transactional ∧
      (storedAs codec cfg b now).producerId = b.producerId := by
  unfold storedAs
  split
  · unfold stampLogAppendTime
    split
    · rename_i first rest decoded
      have inBatch : first ∈ recordsOf (0, b) := by simp [recordsOf, decoded]
      obtain ⟨isTransactional, isControl⟩ := recordsOf_flags inBatch
      have isProducer : first.producerId = b.producerId := by
        cases found : b.entries with
        | none => simp [recordsOf, Batch.decode, found] at inBatch
        | some entries =>
          simp only [recordsOf, Batch.decode, found, Option.map_some, Option.getD_some] at inBatch
          obtain ⟨e, _, rfl⟩ := List.mem_map.mp inBatch
          rfl
      exact ⟨isControl, isTransactional, isProducer⟩
    · exact ⟨rfl, rfl, rfl⟩
  · exact ⟨rfl, rfl, rfl⟩

theorem noteProducer_active {b : Batch} (sent : SentInTxn b) :
    ∃ seqs active, p.noteProducer b = { p with producerSeqs := seqs, activeTxns := active } ∧
      (active = p.activeTxns ∨ active = p.activeTxns ++ [(b.producerId, p.highWatermark)] ∧
        b.transactional = true ∧ ∀ t, t ∈ p.activeTxns → t.1 ≠ b.producerId) ∧
      (b.transactional = true → ∃ t, t ∈ active ∧ t.1 = b.producerId) := by
  unfold noteProducer
  split
  · rename_i anonymous
    refine ⟨p.producerSeqs, p.activeTxns, rfl, Or.inl rfl, ?_⟩
    intro isTransactional
    have known := sent.2 isTransactional
    omega
  · simp only
    split
    · rename_i isTransactional
      unfold openTxn
      split
      · rename_i isOpen
        obtain ⟨first, found⟩ := Option.isSome_iff_exists.mp isOpen
        exact ⟨_, p.activeTxns, rfl, Or.inl rfl, fun _ => ⟨_, mem_of_lookup found, rfl⟩⟩
      · rename_i notOpen
        refine ⟨_, p.activeTxns ++ [(b.producerId, p.highWatermark)], rfl,
          Or.inr ⟨rfl, isTransactional, ?_⟩, fun _ => ⟨_, List.mem_append_right _
            (List.mem_singleton_self _), rfl⟩⟩
        intro t member same
        have nothing : p.activeTxns.lookup b.producerId = none :=
          Option.not_isSome_iff_eq_none.mp notOpen
        have apart := List.lookup_eq_none_iff.mp nothing t member
        rw [same] at apart
        simp at apart
    · rename_i notTransactional
      exact ⟨_, p.activeTxns, rfl, Or.inl rfl, fun isTransactional =>
        (notTransactional isTransactional).elim⟩

theorem KeepsAborted.ensureSegment (keeps : p.KeepsAborted newStart) (now : Int) :
    (p.ensureSegment now).KeepsAborted newStart := by
  simpa [KeepsAborted] using keeps

theorem truncateFront_logStartOffset (p : PartitionState) (newStart now : Int) :
    (p.truncateFront newStart now).logStartOffset = max p.logStartOffset newStart := by
  unfold truncateFront
  split
  · omega
  · simp only
    omega

theorem Txns.applyRetention (txns : Txns p) (rep : Rep p) {cfg : LogConfig} {now : Int}
    (keeps : p.logStartOffset < (p.applyRetention cfg now).1.logStartOffset →
      p.KeepsAborted (p.applyRetention cfg now).1.logStartOffset) :
    Txns (p.applyRetention cfg now).1 := by
  rcases p.applyRetention_cases cfg now with same | same | ⟨hi, _, same⟩
  · rw [same]
    exact txns
  · rw [same]
    exact txns.ensureSegment now
  · rw [same] at keeps ⊢
    rw [truncateFront_logStartOffset, ensureSegment_logStartOffset] at keeps
    apply (txns.ensureSegment now).truncateFront (rep.ensureSegment now)
    intro moves
    rw [ensureSegment_logStartOffset] at moves
    rw [max_eq_right (by omega)] at keeps
    exact (keeps moves).ensureSegment now

theorem Txns.call {p : PartitionState} (txns : Txns p) (rep : Rep p) (codec : Codec) {c : LogCall}
    (wellSent : c.WellSent p) (leaves : c.LeavesTxns p) : Txns (p.call codec c) := by
  cases c with
  | produce label expectedEpoch cfg records now =>
    rcases produce_cases codec label expectedEpoch cfg now records p with
      same | ⟨b, isBatch, _, _, stored⟩
    · have same : p.call codec (.produce label expectedEpoch cfg records now) = p := same
      rw [same]
      exact txns
    · have stored : p.call codec (.produce label expectedEpoch cfg records now) = _ := stored
      have sent := leaves b isBatch
      have counted := (wellSent b isBatch).counted
      obtain ⟨isControl, isTransactional, isProducer⟩ := storedAs_flags codec cfg b now
      obtain ⟨seqs, active, isNoted, noted, known⟩ := p.noteProducer_active sent
      rw [stored, storeBatch, isNoted]
      simp only [if_pos counted]
      apply txns.appendData rep seqs
      · exact isControl.trans sent.1
      · have same : (if cfg.logAppendTime = true then stampLogAppendTime codec b now else b) =
          storedAs codec cfg b now := rfl
        rw [same, isProducer, isTransactional]
        exact noted
      · have same : (if cfg.logAppendTime = true then stampLogAppendTime codec b now else b) =
          storedAs codec cfg b now := rfl
        rw [same, isProducer, isTransactional]
        exact known
      · omega
  | control => exact leaves.elim
  | endTxn producerId producerEpoch committed now =>
    rcases endTxn_cases codec producerId producerEpoch committed now p with
      same | ⟨first, found, ended⟩
    · simp only [PartitionState.call, same]
      exact txns
    · simp only [PartitionState.call, ended]
      exact txns.appendMarker rep codec producerEpoch found committed now
  | truncateFront newStart now => exact txns.truncateFront rep (fun _ => leaves) now
  | applyRetention cfg now => exact txns.applyRetention rep (fun _ => leaves)
  | compact cfg now =>
    simp only [PartitionState.call, PartitionState.compact]
    split
    · exact txns
    · split
      · exact (txns.ensureSegment now).clean (rep.ensureSegment now) (ensureSegment_nonempty p now)
          codec cfg now
      · exact txns.ensureSegment now

theorem KeepsAborted.compact (keeps : p.KeepsAborted newStart) (rep : Rep p) (codec : Codec)
    (cfg : LogConfig) (now : Int) : (p.compact codec cfg now).1.KeepsAborted newStart := by
  unfold PartitionState.compact
  split
  · exact keeps
  · simp only
    split
    · intro t isAborted early x inLog isWritten starts stays
      have rep' := rep.ensureSegment now
      have notPlain : x.2.plain = false := by simp [Batch.plain, isWritten.2.1]
      rw [mem_clean_of_not_plain rep' codec cfg now notPlain] at inLog
      obtain ⟨y, inY, isMarker, after, before'⟩ := keeps.ensureSegment now t isAborted early x inLog
        isWritten starts stays
      have notPlain' : y.2.plain = false := by simp [Batch.plain, isMarker.1]
      exact ⟨y, (mem_clean_of_not_plain rep' codec cfg now notPlain').mpr inY, isMarker, after,
        before'⟩
    · exact keeps.ensureSegment now

theorem Txns.cleanPartition (txns : Txns p) (rep : Rep p) (codec : Codec) {cfg : LogConfig}
    {now : Int}
    (keeps : p.logStartOffset < (EngineState.cleanPartition codec cfg now p).logStartOffset →
      p.KeepsAborted (EngineState.cleanPartition codec cfg now p).logStartOffset) :
    Txns (EngineState.cleanPartition codec cfg now p) := by
  have compacted : Txns (p.compact codec cfg now).1 :=
    @Txns.call p txns rep codec (.compact cfg now) trivial trivial
  apply compacted.applyRetention (rep.compact codec cfg now)
  intro moves
  apply KeepsAborted.compact _ rep codec cfg now
  apply keeps
  have start : p.logStartOffset ≤ (p.compact codec cfg now).1.logStartOffset :=
    (call_mono codec p (.compact cfg now)).1
  exact lt_of_le_of_lt start moves

end PartitionState

end NoidaDb.Kafka
