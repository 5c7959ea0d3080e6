/-
ListOffsets: the log start, the end, and the first record that is new enough.

A batch's own header carries the offset that its records count from, and the producers
write what they like there, so it is a parameter.
-/

import NoidaDb.Kafka.Survivors

namespace NoidaDb.Kafka

namespace PartitionState

/-- The records of one batch; the error is the answer that the loop returns early. -/
def lookupRecords (logStart target upTo base header : Int) :
    List Record → Option (Int × Int) → Except (Int × Int) (Option (Int × Int))
  | [], best => .ok best
  | r :: rest, best =>
    let offset := base + (r.offset - header)
    if r.control || decide (upTo ≤ offset) || decide (offset < logStart) then
      lookupRecords logStart target upTo base header rest best
    else if target = -3 then
      if best.all (fun b => decide (b.2 < r.timestamp)) then
        lookupRecords logStart target upTo base header rest (some (offset, r.timestamp))
      else lookupRecords logStart target upTo base header rest best
    else if target ≤ r.timestamp then .error (offset, r.timestamp)
    else lookupRecords logStart target upTo base header rest best

def lookupBatches (headerBase : Int × Batch → Int) (logStart target upTo : Int) :
    List (Int × Batch) → Option (Int × Int) → Except (Int × Int) (Option (Int × Int))
  | [], best => .ok best
  | x :: rest, best =>
    if upTo ≤ x.1 then .ok best
    else
      match x.2.decode (headerBase x) with
      | none => lookupBatches headerBase logStart target upTo rest best
      | some records => do
          let best ← lookupRecords logStart target upTo x.1 (headerBase x) records best
          lookupBatches headerBase logStart target upTo rest best

/-- The earliest offset below `upTo` whose record is at least as new as `target`, with its
timestamp; for -3 the record with the largest timestamp. -/
def offsetForTimestamp (headerBase : Int × Batch → Int) (p : PartitionState)
    (target upTo : Int) : Int × Int :=
  match lookupBatches headerBase p.logStartOffset target upTo p.recordBatches none with
  | .error found => found
  | .ok best => best.getD (-1, -1)

def listedEnd (p : PartitionState) (isolationLevel : Int) : Int :=
  if isolationLevel = 1 then p.lastStableOffset else p.highWatermark

structure ListedOffset where
  errorCode : Int
  offset : Int := -1
  timestamp : Int := -1
deriving Repr, DecidableEq

def listOffset (headerBase : Int × Batch → Int) (p : PartitionState)
    (isolationLevel timestamp : Int) : ListedOffset :=
  if timestamp = -2 then { errorCode := 0, offset := p.logStartOffset }
  else if timestamp = -1 then { errorCode := 0, offset := p.listedEnd isolationLevel }
  else
    let found := p.offsetForTimestamp headerBase timestamp (p.listedEnd isolationLevel)
    { errorCode := 0, offset := found.1, timestamp := found.2 }

end PartitionState

def EngineState.handleListOffsets (headerBase : Int × Batch → Int) (e : EngineState)
    (at' : String × Int) (isolationLevel timestamp : Int) : PartitionState.ListedOffset :=
  match e.partition at' with
  | some p => p.listOffset headerBase isolationLevel timestamp
  | none => { errorCode := 3 }

namespace PartitionState

/-- The record is stored, is no marker, and lies in the part of the log that is looked at. -/
structure Listed (p : PartitionState) (upTo : Int) (r : Record) : Prop where
  stored : ∃ x ∈ p.recordBatches, r ∈ recordsOf x
  notControl : r.control = false
  started : p.logStartOffset ≤ r.offset
  ended : r.offset < upTo

def listed (logStart upTo : Int) (records : List Record) : List Record :=
  records.filter (fun r => !r.control && decide (logStart ≤ r.offset) && decide (r.offset < upTo))

theorem listed_cons (logStart upTo : Int) (r : Record) (rest : List Record) :
    listed logStart upTo (r :: rest) =
      if (!r.control && decide (logStart ≤ r.offset) && decide (r.offset < upTo)) = true then
        r :: listed logStart upTo rest
      else listed logStart upTo rest := List.filter_cons

theorem mem_listed {p : PartitionState} {upTo : Int} {r : Record} :
    r ∈ listed p.logStartOffset upTo (p.recordBatches.flatMap recordsOf) ↔ p.Listed upTo r := by
  simp only [listed, List.mem_filter, List.mem_flatMap, Bool.and_eq_true, Bool.not_eq_true',
    decide_eq_true_eq]
  constructor
  · rintro ⟨stored, ⟨notControl, started⟩, ended⟩
    exact ⟨stored, notControl, started, ended⟩
  · intro found
    exact ⟨found.stored, ⟨found.notControl, found.started⟩, found.ended⟩

def newer (best : Option (Int × Int)) (r : Record) : Option (Int × Int) :=
  if best.all (fun b => decide (b.2 < r.timestamp)) then some (r.offset, r.timestamp) else best

def lookup (target : Int) (records : List Record) (best : Option (Int × Int)) :
    Except (Int × Int) (Option (Int × Int)) :=
  if target = -3 then .ok (records.foldl newer best)
  else
    match records.find? (fun r => decide (target ≤ r.timestamp)) with
    | some r => .error (r.offset, r.timestamp)
    | none => .ok best

theorem lookup_append (target : Int) (before after : List Record) (best : Option (Int × Int)) :
    lookup target (before ++ after) best = (lookup target before best >>= lookup target after) := by
  unfold lookup
  split
  · rw [List.foldl_append]
    rfl
  · rw [List.find?_append]
    cases before.find? (fun r => decide (target ≤ r.timestamp)) with
    | none => rfl
    | some r => rfl

theorem lookup_cons (target : Int) (r : Record) (rest : List Record) (best : Option (Int × Int)) :
    lookup target (r :: rest) best =
      if target = -3 then lookup target rest (newer best r)
      else if target ≤ r.timestamp then .error (r.offset, r.timestamp)
      else lookup target rest best := by
  unfold lookup
  split
  · rfl
  · rw [List.find?_cons]
    by_cases new : target ≤ r.timestamp
    · simp [new]
    · simp [new]

theorem decode_recounted (b : Batch) (base header : Int) :
    (b.decode header).map (List.map (fun r => { r with offset := base + (r.offset - header) })) =
      b.decode base := by
  unfold Batch.decode
  rw [Option.map_map]
  congr 1
  funext entries
  rw [Function.comp_apply, List.map_map]
  apply List.map_congr_left
  intro e _
  have same : base + (header + e.offsetDelta - header) = base + e.offsetDelta := by omega
  simp only [Function.comp_apply, same]

theorem lookupRecords_eq (logStart target upTo base header : Int) (records : List Record)
    (best : Option (Int × Int)) :
    lookupRecords logStart target upTo base header records best =
      lookup target (listed logStart upTo
        (records.map (fun r => { r with offset := base + (r.offset - header) }))) best := by
  induction records generalizing best with
  | nil =>
    unfold lookup
    split <;> rfl
  | cons r rest ih =>
    rw [lookupRecords, List.map_cons]
    by_cases skipped : (r.control || decide (upTo ≤ base + (r.offset - header)) ||
        decide (base + (r.offset - header) < logStart)) = true
    · have notListed : (!r.control && decide (logStart ≤ base + (r.offset - header)) &&
          decide (base + (r.offset - header) < upTo)) = false := by
        by_contra isListed
        simp only [Bool.not_eq_false, Bool.and_eq_true, Bool.not_eq_true', decide_eq_true_eq]
          at isListed
        simp only [Bool.or_eq_true, decide_eq_true_eq, isListed.1.1] at skipped
        rcases skipped with (isControl | late) | early
        · cases isControl
        · omega
        · omega
      rw [if_pos skipped, ih, listed_cons, if_neg]
      rw [notListed]
      exact Bool.false_ne_true
    · have isListed : (!r.control && decide (logStart ≤ base + (r.offset - header)) &&
          decide (base + (r.offset - header) < upTo)) = true := by
        simp only [Bool.or_eq_true, decide_eq_true_eq, not_or, Bool.not_eq_true] at skipped
        simp only [Bool.and_eq_true, Bool.not_eq_true', decide_eq_true_eq]
        exact ⟨⟨skipped.1.1, by omega⟩, by omega⟩
      rw [if_neg skipped, listed_cons, if_pos isListed, lookup_cons]
      simp only [ih, newer]
      split
      · split <;> rfl
      · rfl

theorem listed_past {logStart upTo : Int} {batches : List (Int × Batch)} {x : Int × Batch}
    (fits : ∀ y ∈ x :: batches, BatchFits y)
    (ordered : (x :: batches).Pairwise (fun x y => batchLastOffset x.1 x.2 < y.1))
    (past : upTo ≤ x.1) : listed logStart upTo ((x :: batches).flatMap recordsOf) = [] := by
  apply List.filter_eq_nil_iff.mpr
  intro r member
  obtain ⟨y, inBatches, inY⟩ := List.mem_flatMap.mp member
  have within := (fits y inBatches).within r inY
  have notBefore : x.1 ≤ y.1 := by
    rcases List.mem_cons.mp inBatches with same | later
    · rw [same]
    · have above := List.rel_of_pairwise_cons ordered later
      have base := (fits x List.mem_cons_self).base_le
      omega
  simp only [Bool.and_eq_true, decide_eq_true_eq]
  omega

theorem lookupBatches_eq (headerBase : Int × Batch → Int) (logStart target upTo : Int)
    {batches : List (Int × Batch)} (fits : ∀ x ∈ batches, BatchFits x)
    (ordered : batches.Pairwise (fun x y => batchLastOffset x.1 x.2 < y.1))
    (best : Option (Int × Int)) :
    lookupBatches headerBase logStart target upTo batches best =
      lookup target (listed logStart upTo (batches.flatMap recordsOf)) best := by
  induction batches generalizing best with
  | nil =>
    unfold lookup
    split <;> rfl
  | cons x rest ih =>
    have later := ih (fun y member => fits y (List.mem_cons_of_mem x member))
      (List.pairwise_cons.mp ordered).2
    rw [lookupBatches]
    split
    next past =>
      rw [listed_past fits ordered past]
      unfold lookup
      split <;> rfl
    next ahead =>
      have recounted := decode_recounted x.2 x.1 (headerBase x)
      have split' : listed logStart upTo ((x :: rest).flatMap recordsOf) =
          listed logStart upTo (recordsOf x) ++ listed logStart upTo (rest.flatMap recordsOf) := by
        rw [List.flatMap_cons]
        exact List.filter_append _ _
      rw [split', lookup_append]
      unfold recordsOf
      rw [← recounted]
      cases x.2.decode (headerBase x) with
      | none =>
        simp only [later]
        unfold listed lookup
        split <;> rfl
      | some records =>
        simp only [lookupRecords_eq, Option.map_some, Option.getD_some]
        congr 1
        funext best
        exact later best

/-- The answer to a lookup by time: the first listed record that is at least as new as the
target, or for -3 the first of the newest. -/
structure FoundByTime (p : PartitionState) (target upTo : Int) (answer : Int × Int) : Prop where
  nothing : answer = (-1, -1) ↔ ∀ r, p.Listed upTo r → target ≠ -3 ∧ r.timestamp < target
  found : answer ≠ (-1, -1) → ∃ r, p.Listed upTo r ∧ answer = (r.offset, r.timestamp) ∧
    (target = -3 → ∀ s, p.Listed upTo s →
      s.timestamp < r.timestamp ∨ s.timestamp = r.timestamp ∧ r.offset ≤ s.offset) ∧
    (target ≠ -3 → target ≤ r.timestamp ∧
      ∀ s, p.Listed upTo s → target ≤ s.timestamp → r.offset ≤ s.offset)

theorem foldl_newer {records : List Record}
    (increasing : records.Pairwise (fun r s => r.offset < s.offset)) {r : Record}
    (before : ∀ s ∈ records, r.offset < s.offset) :
    ∃ t ∈ r :: records, records.foldl newer (some (r.offset, r.timestamp))
        = some (t.offset, t.timestamp) ∧
      ∀ s ∈ r :: records, s.timestamp < t.timestamp ∨
        s.timestamp = t.timestamp ∧ t.offset ≤ s.offset := by
  induction records generalizing r with
  | nil =>
    refine ⟨r, List.mem_cons_self, rfl, ?_⟩
    intro s member
    rw [List.mem_singleton.mp member]
    exact Or.inr ⟨rfl, le_rfl⟩
  | cons u rest ih =>
    obtain ⟨fromHead, fromRest⟩ := List.pairwise_cons.mp increasing
    rw [List.foldl_cons]
    by_cases isNewer : r.timestamp < u.timestamp
    · have next : newer (some (r.offset, r.timestamp)) u = some (u.offset, u.timestamp) := by
        simp [newer, isNewer]
      obtain ⟨t, member, isLast, newest⟩ := ih fromRest fromHead
      refine ⟨t, List.mem_cons_of_mem r member, by rw [next]; exact isLast, ?_⟩
      intro s inAll
      rcases List.mem_cons.mp inAll with same | later
      · have upper := newest u List.mem_cons_self
        rw [same]
        omega
      · exact newest s later
    · have next : newer (some (r.offset, r.timestamp)) u = some (r.offset, r.timestamp) := by
        simp [newer, isNewer]
      obtain ⟨t, member, isLast, newest⟩ := ih fromRest
        (fun s inRest => before s (List.mem_cons_of_mem u inRest))
      refine ⟨t, ?_, by rw [next]; exact isLast, ?_⟩
      · rcases List.mem_cons.mp member with same | later
        · rw [same]
          exact List.mem_cons_self
        · exact List.mem_cons_of_mem r (List.mem_cons_of_mem u later)
      · intro s inAll
        rcases List.mem_cons.mp inAll with same | later
        · rw [same]
          exact newest r List.mem_cons_self
        · rcases List.mem_cons.mp later with isU | later
          · have upper := newest r List.mem_cons_self
            have after := before u List.mem_cons_self
            rw [isU]
            omega
          · exact newest s (List.mem_cons_of_mem r later)

theorem Rep.offsetForTimestamp {p : PartitionState} (rep : Rep p)
    (headerBase : Int × Batch → Int) (target upTo : Int) :
    FoundByTime p target upTo (p.offsetForTimestamp headerBase target upTo) := by
  have increasing : (listed p.logStartOffset upTo (p.recordBatches.flatMap recordsOf)).Pairwise
      (fun r s => r.offset < s.offset) :=
    (flatMap_recordsOf_increasing rep.fits rep.ordered).filter _
  have isOffset {r : Record} (isListed : p.Listed upTo r) (ts : Int) : (r.offset, ts) ≠ (-1, -1) := by
    intro same
    have started := rep.started.1
    have above := isListed.started
    have isNegative : r.offset = -1 := congrArg Prod.fst same
    omega
  unfold PartitionState.offsetForTimestamp
  rw [lookupBatches_eq headerBase p.logStartOffset target upTo rep.fits rep.ordered]
  generalize isRecords : listed p.logStartOffset upTo (p.recordBatches.flatMap recordsOf) = records
    at increasing
  have isListed (r : Record) : r ∈ records ↔ p.Listed upTo r := by
    rw [← isRecords]
    exact mem_listed
  unfold lookup
  by_cases isMax : target = -3
  · rw [if_pos isMax]
    cases records with
    | nil =>
      constructor
      · apply iff_of_true rfl
        intro r found
        cases (isListed r).mpr found
      · intro someAnswer
        exact absurd rfl someAnswer
    | cons r rest =>
      obtain ⟨fromHead, fromRest⟩ := List.pairwise_cons.mp increasing
      obtain ⟨t, member, isLast, newest⟩ := foldl_newer fromRest fromHead
      have found := (isListed t).mp member
      have answered : (r :: rest).foldl newer none = some (t.offset, t.timestamp) := isLast
      simp only [answered, Option.getD_some]
      constructor
      · apply iff_of_false (isOffset found _)
        intro noneFound
        exact (noneFound t found).1 isMax
      · intro _
        refine ⟨t, found, rfl, ?_, ?_⟩
        · intro _ s isFound
          exact newest s ((isListed s).mpr isFound)
        · intro notMax
          exact absurd isMax notMax
  · rw [if_neg isMax]
    cases isFound : records.find? (fun r => decide (target ≤ r.timestamp)) with
    | none =>
      have noneNew := List.find?_eq_none.mp isFound
      constructor
      · apply iff_of_true rfl
        intro r found
        have old := noneNew r ((isListed r).mpr found)
        rw [decide_eq_true_eq] at old
        exact ⟨isMax, by omega⟩
      · intro someAnswer
        exact absurd rfl someAnswer
    | some r =>
      obtain ⟨isNew, before, after, isSplit, noneBefore⟩ := List.find?_eq_some_iff_append.mp isFound
      have isNew : target ≤ r.timestamp := of_decide_eq_true isNew
      have found := (isListed r).mp (List.mem_of_find?_eq_some isFound)
      constructor
      · apply iff_of_false (isOffset found _)
        intro noneFound
        have old := (noneFound r found).2
        omega
      · intro _
        refine ⟨r, found, rfl, ?_, ?_⟩
        · intro isMax'
          exact absurd isMax' isMax
        · intro _
          refine ⟨isNew, ?_⟩
          intro s isListed' new
          have member := (isListed s).mpr isListed'
          rw [isSplit] at member increasing
          rcases List.mem_append.mp member with early | late
          · have old := noneBefore s early
            simp [new] at old
          · rcases List.mem_cons.mp late with same | later
            · rw [same]
            · have fromHead := (List.pairwise_append.mp increasing).2.1
              exact le_of_lt (List.rel_of_pairwise_cons fromHead later)

theorem listOffset_exact (headerBase : Int × Batch → Int) (codec : Codec) (calls : List LogCall)
    (wellSent : Along codec (fun p c => c.WellSent p) {} calls) (isolationLevel target : Int) :
    FoundByTime (runCalls codec {} calls) target
        ((runCalls codec {} calls).listedEnd isolationLevel)
        ((runCalls codec {} calls).offsetForTimestamp headerBase target
          ((runCalls codec {} calls).listedEnd isolationLevel)) ∧
      ∀ (e : EngineState) (at' : String × Int), e.partition at' = some (runCalls codec {} calls) →
        target ≠ -1 → target ≠ -2 →
          e.handleListOffsets headerBase at' isolationLevel target =
            let found := (runCalls codec {} calls).offsetForTimestamp headerBase target
              ((runCalls codec {} calls).listedEnd isolationLevel)
            { errorCode := 0, offset := found.1, timestamp := found.2 } := by
  have rep := runCalls_rep codec calls rep_new wellSent
  refine ⟨rep.offsetForTimestamp headerBase target _, ?_⟩
  intro e at' isPartition notEnd notStart
  unfold EngineState.handleListOffsets listOffset
  rw [isPartition]
  simp only [if_neg notStart, if_neg notEnd]

theorem listOffset_exact_cut :
    (runCalls hundredBytes {} (cutThenWritten 2)).offsetForTimestamp (fun _ => 7) 0
        ((runCalls hundredBytes {} (cutThenWritten 2)).listedEnd 0) = (2, 0) ∧
      FoundByTime (runCalls hundredBytes {} (cutThenWritten 2)) 0
        ((runCalls hundredBytes {} (cutThenWritten 2)).listedEnd 0)
        ((runCalls hundredBytes {} (cutThenWritten 2)).offsetForTimestamp (fun _ => 7) 0
          ((runCalls hundredBytes {} (cutThenWritten 2)).listedEnd 0)) := by
  refine ⟨rfl, ?_⟩
  have exactly := listOffset_exact (fun _ => 7) hundredBytes (cutThenWritten 2)
    (cutThenWritten_wellSent 2) 0 0
  exact exactly.1

end PartitionState

end NoidaDb.Kafka
