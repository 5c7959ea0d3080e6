/-
What a read_committed consumer sees.

A producer counts as aborted from the start of a reported transaction to the next abort marker in
the answer.
-/

import NoidaDb.Kafka.Transactions

namespace NoidaDb.Kafka

/-- What a consumer knows: the aborted transactions still to come, and the producers whose
records it drops. -/
structure Reader where
  pending : List (Int × Int)
  aborted : List Int

namespace Reader

def meet (reader : Reader) (x : Int × Batch) : Reader where
  pending := reader.pending.filter (fun t => !decide (t.2 ≤ batchLastOffset x.1 x.2))
  aborted := (reader.pending.filter (fun t => decide (t.2 ≤ batchLastOffset x.1 x.2))).map Prod.fst ++
    reader.aborted

def read (reader : Reader) (x : Int × Batch) : Reader × Bool :=
  let reader := reader.meet x
  if x.2.control then
    (if x.2.marker = some false then
      { reader with aborted := reader.aborted.filter (fun id => id != x.2.producerId) }
    else reader, false)
  else (reader, !(x.2.transactional && reader.aborted.contains x.2.producerId))

def readAll (reader : Reader) : List (Int × Batch) → List (Int × Batch)
  | [] => []
  | x :: rest =>
    let next := reader.read x
    if next.2 then x :: next.1.readAll rest else next.1.readAll rest

end Reader

namespace PartitionState

def consumed (data : PartitionData) (fetchOffset : Int) : List Stored :=
  ((Reader.readAll ⟨data.abortedTransactions, []⟩ data.records).flatMap storedIn).filter
    (fun s => decide (fetchOffset ≤ s.offset))

/-- The committed records in [`fetchOffset`, `upTo`). -/
def committedBetween (p : PartitionState) (fetchOffset upTo : Int) : List Stored :=
  (committedRecords p.recordBatches).filter (fun s =>
    decide (fetchOffset ≤ s.offset) && decide (s.offset < upTo))

def isAbortOf (producerId : Int) (x : Int × Batch) : Bool :=
  x.2.control && decide (x.2.marker = some false) && decide (x.2.producerId = producerId)

/-- A reported transaction of the producer has started and no abort marker among `batches`
before `x` ends it. -/
def hidden (reported : List (Int × Int)) (batches : List (Int × Batch)) (x : Int × Batch) : Bool :=
  reported.any (fun t => decide (t.1 = x.2.producerId) &&
    decide (t.2 ≤ batchLastOffset x.1 x.2) &&
    batches.all (fun z => !(isAbortOf x.2.producerId z && decide (z.1 < x.1)) ||
      decide (batchLastOffset z.1 z.2 < t.2)))

def shown (reported : List (Int × Int)) (batches : List (Int × Batch)) (x : Int × Batch) : Bool :=
  !x.2.control && !(x.2.transactional && hidden reported batches x)

/-- What the consumer knows after `done`. -/
structure Reads (reported : List (Int × Int)) (done : List (Int × Batch)) (reader : Reader) :
    Prop where
  pending : ∀ t, t ∈ reader.pending ↔
    t ∈ reported ∧ ∀ y, y ∈ done → batchLastOffset y.1 y.2 < t.2
  aborted : ∀ producerId, producerId ∈ reader.aborted ↔
    ∃ t, t ∈ reported ∧ t.1 = producerId ∧ (∃ y, y ∈ done ∧ t.2 ≤ batchLastOffset y.1 y.2) ∧
      ∀ z, z ∈ done → isAbortOf producerId z = true → batchLastOffset z.1 z.2 < t.2

section Reading

variable {reported : List (Int × Int)} {done : List (Int × Batch)} {reader : Reader}
  {x : Int × Batch}

theorem Reads.mem_meet (reads : Reads reported done reader)
    (last : ∀ y, y ∈ done → batchLastOffset y.1 y.2 ≤ batchLastOffset x.1 x.2)
    (producerId : Int) :
    producerId ∈ (reader.meet x).aborted ↔
      ∃ t, t ∈ reported ∧ t.1 = producerId ∧ t.2 ≤ batchLastOffset x.1 x.2 ∧
        ∀ z, z ∈ done → isAbortOf producerId z = true → batchLastOffset z.1 z.2 < t.2 := by
  simp only [Reader.meet, List.mem_append, List.mem_map, List.mem_filter, decide_eq_true_eq,
    reads.pending, reads.aborted]
  constructor
  · rintro (⟨t, ⟨⟨member, after⟩, due⟩, isId⟩ | ⟨t, member, isId, ⟨y, inDone, due⟩, unended⟩)
    · exact ⟨t, member, isId, due, fun z inDone _ => after z inDone⟩
    · exact ⟨t, member, isId, le_trans due (last y inDone), unended⟩
  · rintro ⟨t, member, isId, due, unended⟩
    by_cases started : ∃ y, y ∈ done ∧ t.2 ≤ batchLastOffset y.1 y.2
    · exact Or.inr ⟨t, member, isId, started, unended⟩
    · left
      refine ⟨t, ⟨⟨member, ?_⟩, due⟩, isId⟩
      intro y inDone
      by_contra notBefore
      exact started ⟨y, inDone, by omega⟩

theorem Reads.read (reads : Reads reported done reader)
    (last : ∀ y, y ∈ done → batchLastOffset y.1 y.2 ≤ batchLastOffset x.1 x.2) :
    Reads reported (done ++ [x]) (reader.read x).1 := by
  have inDone : ∀ y, y ∈ done ++ [x] ↔ y ∈ done ∨ y = x := by
    intro y
    simp
  have pending : ∀ t, t ∈ (reader.meet x).pending ↔
      t ∈ reported ∧ ∀ y, y ∈ done ++ [x] → batchLastOffset y.1 y.2 < t.2 := by
    intro t
    simp only [Reader.meet, List.mem_filter, reads.pending, Bool.not_eq_true',
      decide_eq_false_iff_not, not_le]
    constructor
    · rintro ⟨⟨member, after⟩, notDue⟩
      refine ⟨member, ?_⟩
      intro y inNew
      rcases (inDone y).mp inNew with old | new
      · exact after y old
      · rw [new]
        exact notDue
    · rintro ⟨member, after⟩
      exact ⟨⟨member, fun y old => after y ((inDone y).mpr (Or.inl old))⟩,
        after x ((inDone x).mpr (Or.inr rfl))⟩
  -- A reported transaction has started by the end of `x` if it has started at all.
  have started : ∀ t : Int × Int, (∃ y, y ∈ done ++ [x] ∧ t.2 ≤ batchLastOffset y.1 y.2) ↔
      t.2 ≤ batchLastOffset x.1 x.2 := by
    intro t
    constructor
    · rintro ⟨y, inNew, due⟩
      rcases (inDone y).mp inNew with old | new
      · exact le_trans due (last y old)
      · rw [← new]
        exact due
    · intro due
      exact ⟨x, (inDone x).mpr (Or.inr rfl), due⟩
  have unmarked : ∀ producerId, isAbortOf producerId x = false →
      (producerId ∈ (reader.meet x).aborted ↔
        ∃ t, t ∈ reported ∧ t.1 = producerId ∧
          (∃ y, y ∈ done ++ [x] ∧ t.2 ≤ batchLastOffset y.1 y.2) ∧
          ∀ z, z ∈ done ++ [x] → isAbortOf producerId z = true → batchLastOffset z.1 z.2 < t.2) := by
    intro producerId notAbort
    rw [reads.mem_meet last]
    constructor
    · rintro ⟨t, member, isId, due, unended⟩
      refine ⟨t, member, isId, (started t).mpr due, ?_⟩
      intro z inNew isAbort
      rcases (inDone z).mp inNew with old | new
      · exact unended z old isAbort
      · rw [new, notAbort] at isAbort
        cases isAbort
    · rintro ⟨t, member, isId, due, unended⟩
      exact ⟨t, member, isId, (started t).mp due, fun z old =>
        unended z ((inDone z).mpr (Or.inl old))⟩
  have marked : ∀ producerId, isAbortOf producerId x = true →
      ¬ ∃ t, t ∈ reported ∧ t.1 = producerId ∧
          (∃ y, y ∈ done ++ [x] ∧ t.2 ≤ batchLastOffset y.1 y.2) ∧
          ∀ z, z ∈ done ++ [x] → isAbortOf producerId z = true → batchLastOffset z.1 z.2 < t.2 := by
    rintro producerId isAbort ⟨t, _, _, due, unended⟩
    have before := unended x ((inDone x).mpr (Or.inr rfl)) isAbort
    have after := (started t).mp due
    omega
  unfold Reader.read
  by_cases isControl : x.2.control = true
  · by_cases aborts : x.2.marker = some false
    · simp only [if_pos isControl, if_pos aborts]
      refine ⟨pending, ?_⟩
      intro producerId
      rw [List.mem_filter, bne_iff_ne]
      by_cases same : producerId = x.2.producerId
      · have isAbort : isAbortOf producerId x = true := by
          simp [isAbortOf, isControl, aborts, same]
        constructor
        · rintro ⟨_, different⟩
          exact (different same).elim
        · intro found
          exact (marked producerId isAbort found).elim
      · have notAbort : isAbortOf producerId x = false := by
          have different : ¬ x.2.producerId = producerId := fun equal => same equal.symm
          simp [isAbortOf, different]
        rw [unmarked producerId notAbort]
        constructor
        · rintro ⟨found, _⟩
          exact found
        · intro found
          exact ⟨found, same⟩
    · simp only [if_pos isControl, if_neg aborts]
      refine ⟨pending, ?_⟩
      intro producerId
      exact unmarked producerId (by simp [isAbortOf, aborts])
  · simp only [if_neg isControl]
    refine ⟨pending, ?_⟩
    intro producerId
    exact unmarked producerId (by simp [isAbortOf, isControl])

variable {rest : List (Int × Batch)}

theorem mem_done_iff (fits : ∀ y, y ∈ done ++ x :: rest → BatchFits y)
    (ordered : (done ++ x :: rest).Pairwise (fun x y => batchLastOffset x.1 x.2 < y.1))
    (z : Int × Batch) : z ∈ done ↔ z ∈ done ++ x :: rest ∧ z.1 < x.1 := by
  obtain ⟨_, fromX, acrossX⟩ := List.pairwise_append.mp ordered
  constructor
  · intro inDone
    have inAll : z ∈ done ++ x :: rest := List.mem_append_left _ inDone
    have apart := acrossX z inDone x List.mem_cons_self
    have base := (fits z inAll).base_le
    exact ⟨inAll, by omega⟩
  · rintro ⟨inAll, before⟩
    rcases List.mem_append.mp inAll with inDone | later
    · exact inDone
    · rcases List.mem_cons.mp later with same | inRest
      · rw [same] at before
        omega
      · have apart := List.rel_of_pairwise_cons fromX inRest
        have base := (fits x (List.mem_append_right _ List.mem_cons_self)).base_le
        omega

theorem hidden_iff (fits : ∀ y, y ∈ done ++ x :: rest → BatchFits y)
    (ordered : (done ++ x :: rest).Pairwise (fun x y => batchLastOffset x.1 x.2 < y.1)) :
    hidden reported (done ++ x :: rest) x = true ↔
      ∃ t, t ∈ reported ∧ t.1 = x.2.producerId ∧ t.2 ≤ batchLastOffset x.1 x.2 ∧
        ∀ z, z ∈ done → isAbortOf x.2.producerId z = true → batchLastOffset z.1 z.2 < t.2 := by
  simp only [hidden, List.any_eq_true, Bool.and_eq_true, decide_eq_true_eq, List.all_eq_true,
    Bool.or_eq_true, Bool.not_eq_true', Bool.and_eq_false_iff, decide_eq_false_iff_not, not_lt]
  constructor
  · rintro ⟨t, member, ⟨isId, due⟩, unended⟩
    refine ⟨t, member, isId, due, ?_⟩
    intro z inDone isAbort
    obtain ⟨inAll, before⟩ := (mem_done_iff fits ordered z).mp inDone
    rcases unended z inAll with (notAbort | notBefore) | after
    · rw [isAbort] at notAbort
      cases notAbort
    · omega
    · exact after
  · rintro ⟨t, member, isId, due, unended⟩
    refine ⟨t, member, ⟨isId, due⟩, ?_⟩
    intro z inAll
    by_cases before : z.1 < x.1
    · cases isAbort : isAbortOf x.2.producerId z with
      | false => exact Or.inl (Or.inl rfl)
      | true =>
        exact Or.inr (unended z ((mem_done_iff fits ordered z).mpr ⟨inAll, before⟩) isAbort)
    · exact Or.inl (Or.inr (by omega))

theorem Reads.keeps (reads : Reads reported done reader)
    (fits : ∀ y, y ∈ done ++ x :: rest → BatchFits y)
    (ordered : (done ++ x :: rest).Pairwise (fun x y => batchLastOffset x.1 x.2 < y.1))
    (last : ∀ y, y ∈ done → batchLastOffset y.1 y.2 ≤ batchLastOffset x.1 x.2) :
    (reader.read x).2 = shown reported (done ++ x :: rest) x := by
  have same : (reader.meet x).aborted.contains x.2.producerId =
      hidden reported (done ++ x :: rest) x := by
    rw [Bool.eq_iff_iff, List.contains_iff_mem, reads.mem_meet last, hidden_iff fits ordered]
  unfold Reader.read shown
  cases isControl : x.2.control with
  | true => simp
  | false => simp only [Bool.false_eq_true, if_false, same, Bool.not_false, Bool.true_and]

theorem Reads.readAll (reads : Reads reported done reader)
    (fits : ∀ y, y ∈ done ++ rest → BatchFits y)
    (ordered : (done ++ rest).Pairwise (fun x y => batchLastOffset x.1 x.2 < y.1)) :
    reader.readAll rest = rest.filter (shown reported (done ++ rest)) := by
  induction rest generalizing done reader with
  | nil => rfl
  | cons x later ih =>
    have last : ∀ y, y ∈ done → batchLastOffset y.1 y.2 ≤ batchLastOffset x.1 x.2 := by
      intro y inDone
      have apart := (List.pairwise_append.mp ordered).2.2 y inDone x List.mem_cons_self
      have base := (fits x (List.mem_append_right _ List.mem_cons_self)).base_le
      omega
    have split : done ++ x :: later = (done ++ [x]) ++ later := by simp
    have kept := reads.keeps fits ordered last
    have tail := ih (reads.read last) (by rw [← split]; exact fits) (by rw [← split]; exact ordered)
    rw [Reader.readAll, kept, tail, List.filter_cons, split]

end Reading

theorem reads_new (reported : List (Int × Int)) : Reads reported [] ⟨reported, []⟩ := by
  constructor
  · intro t
    simp
  · intro producerId
    simp

def fetchable (p : PartitionState) (fetchOffset : Int) (x : Int × Batch) : Bool :=
  decide (fetchOffset ≤ batchLastOffset x.1 x.2) && decide (x.1 < p.lastStableOffset) &&
    !p.startsAborted x.1

variable {p : PartitionState}

theorem lastStableOffset_le {t : Int × Int} (isActive : t ∈ p.activeTxns) :
    p.lastStableOffset ≤ t.2 := by
  have listed := List.mem_map_of_mem (f := Prod.snd) isActive
  unfold lastStableOffset
  cases found : (p.activeTxns.map Prod.snd).min? with
  | none =>
    rw [List.min?_eq_none_iff.mp found] at listed
    cases listed
  | some first => exact le_trans (min_le_left _ _) ((List.min?_eq_some_iff.mp found).2 t.2 listed)

theorem Rep.lastStableOffset_boundary (rep : Rep p) :
    Boundary p.recordBatches p.lastStableOffset := by
  have atHigh : Boundary p.recordBatches p.highWatermark := fun x inLog =>
    Or.inr (rep.ended x inLog)
  unfold lastStableOffset
  cases found : (p.activeTxns.map Prod.snd).min? with
  | none => exact atHigh
  | some first =>
    obtain ⟨t, member, isFirst⟩ := List.mem_map.mp (List.min?_mem found)
    rw [← isFirst]
    exact (rep.opened t member).1.min atHigh

theorem fetch_records (rep : Rep p) {fetchOffset : Int} (lower : p.logStartOffset ≤ fetchOffset)
    (upper : fetchOffset ≤ p.highWatermark) :
    (p.fetch true fetchOffset).records = p.recordBatches.filter (p.fetchable fetchOffset) := by
  have inRange : (decide (fetchOffset < p.logStartOffset) ||
      decide (p.highWatermark < fetchOffset)) = false := by
    simp only [Bool.or_eq_false_iff, decide_eq_false_iff_not]
    omega
  have boundary := rep.lastStableOffset_boundary
  simp only [fetch, inRange, Bool.not_false, Bool.true_and, if_true]
  by_cases visible : fetchOffset < p.lastStableOffset
  · have early : p.recordBatches.Pairwise (fun x y =>
        decide (batchLastOffset y.1 y.2 < fetchOffset) = true →
          decide (batchLastOffset x.1 x.2 < fetchOffset) = true) := by
      refine rep.ordered.imp_of_mem ?_
      intro x y _ inLog apart
      have base := (rep.fits y inLog).base_le
      simp only [decide_eq_true_eq]
      omega
    have below : p.recordBatches.Pairwise (fun x y =>
        decide (y.1 < p.lastStableOffset) = true → decide (x.1 < p.lastStableOffset) = true) := by
      refine rep.increasing.imp ?_
      intro x y before
      simp only [decide_eq_true_eq]
      omega
    rw [if_pos (by simpa using visible), fromOffset, Lib.dropWhile_eq_filter early,
      Lib.takeWhile_eq_filter (below.sublist List.filter_sublist), List.filter_filter,
      List.filter_filter]
    apply List.filter_congr
    intro x _
    have past : (!decide (batchLastOffset x.1 x.2 < fetchOffset)) =
        decide (fetchOffset ≤ batchLastOffset x.1 x.2) := by
      rw [← decide_not]
      exact decide_eq_decide.mpr not_lt
    rw [past]
    unfold fetchable
    cases decide (fetchOffset ≤ batchLastOffset x.1 x.2) <;>
      cases decide (x.1 < p.lastStableOffset) <;> simp
  · rw [if_neg (by simpa using visible)]
    symm
    apply List.filter_eq_nil_iff.mpr
    intro x inLog
    simp only [fetchable, Bool.and_eq_true, decide_eq_true_eq, not_and]
    rintro ⟨late, below⟩
    rcases boundary x inLog with above | under
    · omega
    · omega

theorem consumed_fetch (rep : Rep p) {fetchOffset : Int} (lower : p.logStartOffset ≤ fetchOffset)
    (upper : fetchOffset ≤ p.highWatermark) :
    consumed (p.fetch true fetchOffset) fetchOffset =
      ((p.recordBatches.filter (fun x => p.fetchable fetchOffset x &&
        shown (p.abortedTxns.filter (fun t => decide (t.2 < p.lastStableOffset)))
          (p.recordBatches.filter (p.fetchable fetchOffset)) x)).flatMap storedIn).filter
        (fun s => decide (fetchOffset ≤ s.offset)) := by
  have sublist : List.Sublist (p.recordBatches.filter (p.fetchable fetchOffset)) p.recordBatches :=
    List.filter_sublist
  have kept := (reads_new (p.abortedTxns.filter (fun t =>
    decide (t.2 < p.lastStableOffset)))).readAll
      (fun x member => rep.fits x (sublist.subset member)) (rep.ordered.sublist sublist)
  have reported : (p.fetch true fetchOffset).abortedTransactions =
      p.abortedTxns.filter (fun t => decide (t.2 < p.lastStableOffset)) := rfl
  unfold consumed
  rw [fetch_records rep lower upper, reported, kept, List.nil_append, List.filter_filter]
  congr 3
  funext x
  exact Bool.and_comm _ _

def committedIn (batches : List (Int × Batch)) (x : Int × Batch) : Bool :=
  committedBatch x (batches.filter (fun y => decide (x.1 < y.1)))

theorem committedRecords_eq {done rest : List (Int × Batch)}
    (increasing : (done ++ rest).Pairwise (fun x y => x.1 < y.1)) :
    committedRecords rest = (rest.filter (committedIn (done ++ rest))).flatMap storedIn := by
  induction rest generalizing done with
  | nil => rfl
  | cons x later ih =>
    obtain ⟨_, fromX, acrossX⟩ := List.pairwise_append.mp increasing
    have split : done ++ x :: later = (done ++ [x]) ++ later := by simp
    -- What comes after `x` is what has a higher base offset.
    have after : (done ++ x :: later).filter (fun y => decide (x.1 < y.1)) = later := by
      have nothing : done.filter (fun y => decide (x.1 < y.1)) = [] := by
        apply List.filter_eq_nil_iff.mpr
        intro y inDone
        have before := acrossX y inDone x List.mem_cons_self
        simp only [decide_eq_true_eq]
        omega
      have all : later.filter (fun y => decide (x.1 < y.1)) = later := by
        apply List.filter_eq_self.mpr
        intro y inLater
        simpa using List.rel_of_pairwise_cons fromX inLater
      rw [List.filter_append, nothing, List.nil_append, List.filter_cons_of_neg (by simp), all]
    have tail := ih (by rw [← split]; exact increasing)
    rw [← split] at tail
    have here : committedIn (done ++ x :: later) x = committedBatch x later := by
      rw [committedIn, after]
    rw [committedRecords, List.filter_cons, here, tail]
    split
    · rw [List.flatMap_cons]
    · rfl

theorem nextMarker_eq (rep : Rep p) {producerId : Int} {x y : Int × Batch}
    (ends : EndedBy p.recordBatches producerId x y) :
    nextMarker producerId (p.recordBatches.filter (fun z => decide (x.1 < z.1))) = y.2.marker := by
  obtain ⟨inY, isMarker, after, least⟩ := ends
  have member : y ∈ p.recordBatches.filter (fun z => decide (x.1 < z.1)) :=
    List.mem_filter.mpr ⟨inY, by simpa using after⟩
  have qualifies : (y.2.control && y.2.producerId == producerId) = true := by
    simp [isMarker.1, isMarker.2]
  obtain ⟨first, found, atMost⟩ := Lib.exists_find?_le (rep.increasing.filter _)
    (fun z => z.2.control && z.2.producerId == producerId) member qualifies
  have inFirst := List.mem_of_find?_eq_some found
  have isFirst := List.find?_some found
  simp only [Bool.and_eq_true, beq_iff_eq] at isFirst
  obtain ⟨inLog, afterX⟩ := List.mem_filter.mp inFirst
  have atLeast := least first inLog isFirst (by simpa using afterX)
  have same : first = y := rep.eq_of_base inLog inY (by omega)
  rw [nextMarker, found, same]
  rfl

theorem Txns.exists_end (txns : Txns p) (rep : Rep p) {x : Int × Batch}
    (inX : x ∈ p.recordBatches) {producerId : Int} (isWritten : WrittenBy producerId x)
    (stable : x.1 < p.lastStableOffset) : ∃ y, EndedBy p.recordBatches producerId x y := by
  have later : ∃ y, y ∈ p.recordBatches ∧ MarkerOf producerId y ∧ x.1 < y.1 := by
    by_contra none'
    obtain ⟨t, isActive, _, starts⟩ := txns.opened x inX producerId isWritten (by
      intro y inY isMarker
      by_contra notBefore
      have notAfter : ¬ x.1 < y.1 := fun after => none' ⟨y, inY, isMarker, after⟩
      have same : y = x := rep.eq_of_base inY inX (by omega)
      rw [same] at isMarker
      have notControl := isWritten.1
      rw [isMarker.1] at notControl
      cases notControl)
    have upper := lastStableOffset_le isActive
    omega
  obtain ⟨y, inY, isMarker, after⟩ := later
  have member : y ∈ p.recordBatches.filter (fun z => decide (x.1 < z.1)) :=
    List.mem_filter.mpr ⟨inY, by simpa using after⟩
  have qualifies : (y.2.control && y.2.producerId == producerId) = true := by
    simp [isMarker.1, isMarker.2]
  obtain ⟨first, found, _⟩ := Lib.exists_find?_le (rep.increasing.filter _)
    (fun z => z.2.control && z.2.producerId == producerId) member qualifies
  have isFirst := List.find?_some found
  simp only [Bool.and_eq_true, beq_iff_eq] at isFirst
  obtain ⟨inLog, afterX⟩ := List.mem_filter.mp (List.mem_of_find?_eq_some found)
  refine ⟨first, inLog, isFirst, by simpa using afterX, ?_⟩
  intro z inZ isMarker' after'
  have member' : z ∈ p.recordBatches.filter (fun z => decide (x.1 < z.1)) :=
    List.mem_filter.mpr ⟨inZ, by simpa using after'⟩
  obtain ⟨first', found', atMost⟩ := Lib.exists_find?_le (rep.increasing.filter _)
    (fun z => z.2.control && z.2.producerId == producerId) member'
    (by simp [isMarker'.1, isMarker'.2])
  obtain rfl := Option.some.inj (found.symm.trans found')
  exact atMost

theorem filter_flatMap_filter (batches : List (Int × Batch)) (keep : Int × Batch → Bool)
    (among : Stored → Bool) :
    ((batches.filter keep).flatMap storedIn).filter among =
      batches.flatMap (fun x => if keep x then (storedIn x).filter among else []) := by
  induction batches with
  | nil => rfl
  | cons x rest ih =>
    rw [List.filter_cons, List.flatMap_cons]
    split
    · rw [List.flatMap_cons, List.filter_append, ih]
    · rw [ih, List.nil_append]


/-- A committed record at or past `fetchOffset` comes after every aborted transaction of its
producer that is on record: the answer has an abort marker in between. -/
def FetchSafe (p : PartitionState) (fetchOffset : Int) : Prop :=
  ∀ x, x ∈ p.recordBatches → ∀ producerId, WrittenBy producerId x →
    x.1 < p.lastStableOffset → (∃ r, r ∈ recordsOf x ∧ fetchOffset ≤ r.offset) →
    (∃ y, EndedBy p.recordBatches producerId x y ∧ y.2.marker = some true) →
    ∀ t, t ∈ p.abortedTxns → t.1 = producerId → t.2 ≤ x.1 →
      ∃ z, z ∈ p.recordBatches ∧ MarkerOf producerId z ∧ z.2.marker = some false ∧
        fetchOffset ≤ z.1 ∧ t.2 ≤ z.1 ∧ z.1 < x.1

section Seen

variable {p : PartitionState} (rep : Rep p) (txns : Txns p) {fetchOffset : Int} {x : Int × Batch}

variable {y : Int × Batch} {producerId : Int}

include txns in
theorem not_startsAborted (inY : y ∈ p.recordBatches)
    (outside : ∀ producerId, ¬ WrittenBy producerId y) : p.startsAborted y.1 = false := by
  apply List.any_eq_false.mpr
  intro t isAborted isStart
  rw [beq_iff_eq] at isStart
  exact outside t.1 (txns.starts t (Or.inr isAborted) y inY isStart.symm)

include txns in
theorem markerLast {z : Int × Batch} (inZ : z ∈ p.recordBatches) (isControl : z.2.control = true) :
    batchLastOffset z.1 z.2 = z.1 := by
  have alone := (txns.markers z inZ isControl).2
  unfold batchLastOffset
  omega

include rep txns in
theorem hidden_of_aborted (fetchOffset : Int) (inX : x ∈ p.recordBatches)
    (isWritten : WrittenBy producerId x) (stable : x.1 < p.lastStableOffset)
    (ends : EndedBy p.recordBatches producerId x y) (aborts : y.2.marker = some false) :
    hidden (p.abortedTxns.filter (fun t => decide (t.2 < p.lastStableOffset)))
      (p.recordBatches.filter (p.fetchable fetchOffset)) x = true := by
  obtain ⟨t, isAborted, isId, starts, unmarked⟩ := txns.listed x inX producerId isWritten y ends aborts
  have base := (rep.fits x inX).base_le
  have reported : t.2 < p.lastStableOffset := by omega
  have due : t.2 ≤ batchLastOffset x.1 x.2 := by omega
  apply List.any_eq_true.mpr
  refine ⟨t, List.mem_filter.mpr ⟨isAborted, by simpa using reported⟩, ?_⟩
  simp only [isId, isWritten.2.2, due, decide_true, Bool.true_and, List.all_eq_true]
  intro z inReturned
  have inZ := (List.mem_filter.mp inReturned).1
  by_cases marks : isAbortOf producerId z = true ∧ z.1 < x.1
  · obtain ⟨isAbort, before⟩ := marks
    simp only [isAbortOf, Bool.and_eq_true, decide_eq_true_eq] at isAbort
    have early := unmarked z inZ ⟨isAbort.1.1, isAbort.2⟩ before
    rw [markerLast txns inZ isAbort.1.1]
    simp [early]
  · cases isAbort : isAbortOf producerId z with
    | false => simp
    | true =>
      have notBefore : ¬ z.1 < x.1 := fun before => marks ⟨isAbort, before⟩
      simp [notBefore]

include rep txns in
theorem hidden_iff_of_committed (inX : x ∈ p.recordBatches) (isWritten : WrittenBy producerId x)
    (stable : x.1 < p.lastStableOffset) :
    hidden (p.abortedTxns.filter (fun t => decide (t.2 < p.lastStableOffset)))
        (p.recordBatches.filter (p.fetchable fetchOffset)) x = false ↔
      ∀ t, t ∈ p.abortedTxns → t.1 = producerId → t.2 ≤ x.1 →
        ∃ z, z ∈ p.recordBatches ∧ MarkerOf producerId z ∧ z.2.marker = some false ∧
          fetchOffset ≤ z.1 ∧ t.2 ≤ z.1 ∧ z.1 < x.1 := by
  have isId := isWritten.2.2
  simp only [hidden, List.any_eq_false, List.mem_filter, decide_eq_true_eq, Bool.and_eq_true,
    List.all_eq_true, not_and, not_forall, and_imp]
  constructor
  · intro shows t isAborted same starts
    have base := (rep.fits x inX).base_le
    obtain ⟨z, inZ, returned, marks⟩ := shows t isAborted (by omega) (same.trans isId.symm) (by omega)
    simp only [Bool.or_eq_true, Bool.not_eq_true', Bool.and_eq_false_iff, decide_eq_false_iff_not,
      decide_eq_true_eq, not_or, Bool.not_eq_false, not_not, isAbortOf, not_lt] at marks
    obtain ⟨⟨⟨⟨isControl, isAbort⟩, isProducer⟩, before⟩, late⟩ := marks
    simp only [fetchable, Bool.and_eq_true, decide_eq_true_eq] at returned
    rw [markerLast txns inZ isControl] at late
    have past := returned.1.1
    rw [markerLast txns inZ isControl] at past
    exact ⟨z, inZ, ⟨isControl, isProducer.trans isId⟩, isAbort, past, late, by omega⟩
  · intro safe t isAborted _ same due
    have starts : t.2 ≤ x.1 := by
      rcases txns.bounds t isAborted x inX with above | below
      · exact above
      · omega
    obtain ⟨z, inZ, isMarker, isAbort, past, late, before⟩ := safe t isAborted (same.trans isId) starts
    have returned : p.fetchable fetchOffset z = true := by
      have last := markerLast txns inZ isMarker.1
      have unstarted := not_startsAborted txns inZ (fun producerId isWritten' => by
        have notControl := isWritten'.1
        rw [isMarker.1] at notControl
        cases notControl)
      have below : z.1 < p.lastStableOffset := by omega
      simp [fetchable, last, past, below, unstarted]
    refine ⟨z, inZ, returned, ?_⟩
    rw [markerLast txns inZ isMarker.1]
    have isAbort' : isAbortOf x.2.producerId z = true := by
      simp [isAbortOf, isMarker.1, isAbort, isMarker.2, isId]
    have notEarly : ¬ z.1 < t.2 := by omega
    simp [isAbort', before, notEarly]

include rep txns in
theorem not_startsAborted_of_committed (inX : x ∈ p.recordBatches)
    (isWritten : WrittenBy producerId x) (ends : EndedBy p.recordBatches producerId x y)
    (commits : y.2.marker = some true) : p.startsAborted x.1 = false := by
  apply List.any_eq_false.mpr
  intro t isAborted isStart
  rw [beq_iff_eq] at isStart
  have isId : t.1 = producerId :=
    (txns.starts t (Or.inr isAborted) x inX isStart.symm).2.2.symm.trans isWritten.2.2
  obtain ⟨inY, isMarker, after, least⟩ := ends
  obtain ⟨z, inZ, isMarker', isAbort, late, first⟩ := txns.ended t isAborted
  rw [isId] at isMarker' first
  have different : z ≠ x := fun same => by
    rw [same] at isMarker'
    have notControl := isWritten.1
    rw [isMarker'.1] at notControl
    cases notControl
  have past : x.1 < z.1 := by
    by_contra notPast
    exact different (rep.eq_of_base inZ inX (by omega))
  have before := least z inZ isMarker' past
  have before' := first y inY isMarker (by omega)
  have same : z = y := rep.eq_of_base inZ inY (by omega)
  rw [same, commits] at isAbort
  cases isAbort

include rep txns in
theorem seen_iff (inX : x ∈ p.recordBatches) (reached : fetchOffset ≤ batchLastOffset x.1 x.2)
    (stable : x.1 < p.lastStableOffset) :
    (p.fetchable fetchOffset x &&
        shown (p.abortedTxns.filter (fun t => decide (t.2 < p.lastStableOffset)))
          (p.recordBatches.filter (p.fetchable fetchOffset)) x) = true ↔
      committedIn p.recordBatches x = true ∧
        ∀ producerId, WrittenBy producerId x → ∀ t, t ∈ p.abortedTxns → t.1 = producerId →
          t.2 ≤ x.1 → ∃ z, z ∈ p.recordBatches ∧ MarkerOf producerId z ∧
            z.2.marker = some false ∧ fetchOffset ≤ z.1 ∧ t.2 ≤ z.1 ∧ z.1 < x.1 := by
  cases isControl : x.2.control with
  | true =>
    have notCommitted : committedIn p.recordBatches x = false := by
      simp [committedIn, committedBatch, isControl]
    simp [shown, isControl, notCommitted]
  | false =>
    cases isTransactional : x.2.transactional with
    | false =>
      have outside : ∀ producerId, ¬ WrittenBy producerId x := by
        intro producerId isWritten
        have transactional := isWritten.2.1
        rw [isTransactional] at transactional
        cases transactional
      have unstarted := not_startsAborted txns inX outside
      have committed : committedIn p.recordBatches x = true := by
        simp [committedIn, committedBatch, isControl, isTransactional]
      have returned : p.fetchable fetchOffset x = true := by
        simp [fetchable, reached, stable, unstarted]
      simp only [returned, shown, isControl, isTransactional, Bool.not_false, Bool.false_and,
        Bool.and_self, committed, true_and, true_iff]
      intro producerId isWritten
      exact (outside producerId isWritten).elim
    | true =>
      have isWritten : WrittenBy x.2.producerId x := ⟨isControl, isTransactional, rfl⟩
      obtain ⟨y, ends⟩ := txns.exists_end rep inX isWritten stable
      have kind := nextMarker_eq rep ends
      obtain ⟨commits, isKind⟩ := Option.isSome_iff_exists.mp
        (txns.markers y ends.1 ends.2.1.1).1
      have committed : committedIn p.recordBatches x = commits := by
        rw [isKind] at kind
        simp [committedIn, committedBatch, isControl, isTransactional, kind]
      cases commits with
      | false =>
        have isHidden := hidden_of_aborted rep txns fetchOffset inX isWritten stable ends
          isKind
        simp [shown, isControl, isTransactional, isHidden, committed]
      | true =>
        have unstarted := not_startsAborted_of_committed rep txns inX isWritten ends isKind
        have returned : p.fetchable fetchOffset x = true := by
          simp [fetchable, reached, stable, unstarted]
        simp only [returned, shown, isControl, isTransactional, Bool.not_false, Bool.true_and,
          Bool.not_eq_true', committed, true_and]
        rw [hidden_iff_of_committed rep txns inX isWritten stable]
        constructor
        · intro safe producerId isWritten'
          rw [← isWritten'.2.2]
          exact safe
        · intro safe
          exact safe x.2.producerId isWritten

include rep txns in
theorem consumed_eq_iff (lower : p.logStartOffset ≤ fetchOffset)
    (upper : fetchOffset ≤ p.highWatermark) :
    consumed (p.fetch true fetchOffset) fetchOffset =
        p.committedBetween fetchOffset p.lastStableOffset ↔ p.FetchSafe fetchOffset := by
  have committed : committedRecords p.recordBatches =
      (p.recordBatches.filter (committedIn p.recordBatches)).flatMap storedIn :=
    @committedRecords_eq [] p.recordBatches rep.increasing
  have boundary := rep.lastStableOffset_boundary
  rw [consumed_fetch rep lower upper, committedBetween, committed]
  constructor
  · intro same x inX producerId isWritten stable ⟨r, inBatch, late⟩ ⟨y, ends, commits⟩
    have within := (rep.fits x inX).within r inBatch
    have isCommitted : committedIn p.recordBatches x = true := by
      have kind := nextMarker_eq rep ends
      rw [commits, ← isWritten.2.2] at kind
      simp [committedIn, committedBatch, isWritten.1, kind]
    have below : r.offset < p.lastStableOffset := by
      rcases boundary x inX with above | under
      · omega
      · omega
    have expected : (x, r) ∈ ((p.recordBatches.filter (committedIn p.recordBatches)).flatMap
        storedIn).filter (fun s => decide (fetchOffset ≤ s.offset) &&
          decide (s.offset < p.lastStableOffset)) := by
      apply List.mem_filter.mpr
      refine ⟨List.mem_flatMap.mpr ⟨x, List.mem_filter.mpr ⟨inX, isCommitted⟩,
        List.mem_map_of_mem inBatch⟩, ?_⟩
      simp [Stored.offset, late, below]
    rw [← same] at expected
    obtain ⟨x', inKept, isStored⟩ := List.mem_flatMap.mp (List.mem_filter.mp expected).1
    obtain ⟨_, _, isPair⟩ := List.mem_map.mp isStored
    obtain rfl : x' = x := congrArg Prod.fst isPair
    obtain ⟨_, seen⟩ := List.mem_filter.mp inKept
    exact ((seen_iff rep txns inX (by omega) stable).mp seen).2 producerId isWritten
  · intro safe
    rw [filter_flatMap_filter, filter_flatMap_filter, List.flatMap_def, List.flatMap_def]
    congr 1
    apply List.map_congr_left
    intro x inX
    by_cases some' : ∃ r, r ∈ recordsOf x ∧ fetchOffset ≤ r.offset ∧ x.1 < p.lastStableOffset
    · obtain ⟨r, inBatch, late, stable⟩ := some'
      have reached : fetchOffset ≤ batchLastOffset x.1 x.2 := by
        have within := (rep.fits x inX).within r inBatch
        omega
      have bounded : ∀ s, s ∈ storedIn x → s.offset < p.lastStableOffset := by
        intro s member
        obtain ⟨r', inBatch', rfl⟩ := List.mem_map.mp member
        have within := (rep.fits x inX).within r' inBatch'
        simp only [Stored.offset]
        rcases boundary x inX with above | under
        · omega
        · omega
      have sameSeen : (p.fetchable fetchOffset x &&
          shown (p.abortedTxns.filter (fun t => decide (t.2 < p.lastStableOffset)))
            (p.recordBatches.filter (p.fetchable fetchOffset)) x) =
          committedIn p.recordBatches x := by
        rw [Bool.eq_iff_iff, seen_iff rep txns inX reached stable]
        constructor
        · intro seen
          exact seen.1
        · intro isCommitted
          refine ⟨isCommitted, ?_⟩
          intro producerId isWritten
          obtain ⟨y, ends⟩ := txns.exists_end rep inX isWritten stable
          have kind := nextMarker_eq rep ends
          have commits : y.2.marker = some true := by
            rw [← kind]
            simpa [committedIn, committedBatch, isWritten.1, isWritten.2.1, isWritten.2.2] using
              isCommitted
          exact safe x inX producerId isWritten stable ⟨r, inBatch, late⟩ ⟨y, ends, commits⟩
      have sameFilter : (storedIn x).filter (fun s => decide (fetchOffset ≤ s.offset)) =
          (storedIn x).filter (fun s => decide (fetchOffset ≤ s.offset) &&
            decide (s.offset < p.lastStableOffset)) := by
        apply List.filter_congr
        intro s member
        simp [bounded s member]
      rw [sameSeen, sameFilter]
    · -- No record of the batch is in the range.
      have outside : ∀ r, r ∈ recordsOf x → fetchOffset ≤ r.offset → p.lastStableOffset ≤ x.1 := by
        intro r inBatch late
        by_contra stable
        exact some' ⟨r, inBatch, late, by omega⟩
      have nothing : (if committedIn p.recordBatches x then
          (storedIn x).filter (fun s => decide (fetchOffset ≤ s.offset) &&
            decide (s.offset < p.lastStableOffset)) else []) = [] := by
        split
        · apply List.filter_eq_nil_iff.mpr
          intro s member
          obtain ⟨r, inBatch, rfl⟩ := List.mem_map.mp member
          have within := (rep.fits x inX).within r inBatch
          intro inRange
          obtain ⟨late, below⟩ := Bool.and_eq_true_iff.mp inRange
          have past := outside r inBatch (of_decide_eq_true late)
          have below : r.offset < p.lastStableOffset := of_decide_eq_true below
          omega
        · rfl
      have nothing' : (if (p.fetchable fetchOffset x &&
          shown (p.abortedTxns.filter (fun t => decide (t.2 < p.lastStableOffset)))
            (p.recordBatches.filter (p.fetchable fetchOffset)) x) then
          (storedIn x).filter (fun s => decide (fetchOffset ≤ s.offset)) else []) = [] := by
        split
        · rename_i seen
          simp only [fetchable, Bool.and_eq_true, decide_eq_true_eq] at seen
          apply List.filter_eq_nil_iff.mpr
          intro s member
          obtain ⟨r, inBatch, rfl⟩ := List.mem_map.mp member
          intro late
          have past := outside r inBatch (of_decide_eq_true late)
          omega
        · rfl
      rw [nothing, nothing']

end Seen

end PartitionState

end NoidaDb.Kafka
