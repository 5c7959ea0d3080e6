/-
What a clean keeps of the log.

Offsets are distinct, so each record is judged by the tombstone horizons as they were before the
clean, and a clean filters the records of each batch.
-/

import NoidaDb.Kafka.LogInvariant

namespace NoidaDb.Kafka

namespace PartitionState

def superseded (latest : Latest) (r : Record) : Bool :=
  r.key.any (fun k => (latest k).any (fun newest => decide (r.offset < newest)))

def expired (horizons : Horizons) (now : Int) (r : Record) : Bool :=
  r.key.isSome && r.value.isNone && (horizons r.offset).any (fun h => decide (h ≤ now))

def survives (latest : Latest) (horizons : Horizons) (now : Int) (r : Record) : Bool :=
  !superseded latest r && !expired horizons now r

section Records

variable (latest : Latest) (cfg : LogConfig) (now : Int)

theorem cleanRecord_fst (horizons : Horizons) (r : Record) :
    (cleanRecord latest cfg now horizons r).1 = survives latest horizons now r := by
  unfold cleanRecord survives superseded expired
  cases r.key with
  | none => simp
  | some k =>
    simp only [Option.any_some, Option.isSome_some, Bool.true_and]
    cases newer : (latest k).any (fun newest => decide (r.offset < newest)) with
    | true => simp
    | false =>
      simp only [Bool.false_eq_true, if_false, Bool.not_false, Bool.true_and]
      cases r.value with
      | some v => simp
      | none =>
        simp only [Option.isNone_none, if_true, Bool.true_and]
        cases horizons r.offset with
        | none => simp
        | some h =>
          simp only [Option.any_some]
          split <;> simp_all

variable {r : Record}

theorem cleanRecord_snd_of_ne (horizons : Horizons) {offset : Int} (other : offset ≠ r.offset) :
    (cleanRecord latest cfg now horizons r).2 offset = horizons offset := by
  unfold cleanRecord
  split
  · rfl
  · split
    · exact Function.update_of_ne other _ _
    · split
      · split
        · split
          · exact Function.update_of_ne other _ _
          · rfl
        · exact Function.update_of_ne other _ _
      · rfl

theorem survives_congr {horizons others : Horizons} (same : horizons r.offset = others r.offset) :
    survives latest horizons now r = survives latest others now r := by
  simp only [survives, expired, same]

theorem cleanRecord_snd_congr {horizons others : Horizons}
    (same : horizons r.offset = others r.offset) :
    (cleanRecord latest cfg now horizons r).2 r.offset =
      (cleanRecord latest cfg now others r).2 r.offset := by
  unfold cleanRecord
  split
  · exact same
  · split
    · simp only [Function.update_self]
    · split
      · rw [same]
        split
        · split
          · simp only [Function.update_self]
          · exact same
        · simp only [Function.update_self]
      · exact same

/-- The horizons after a clean of `records`: those of their offsets, record by record. -/
structure HorizonsAfter (records : List Record) (horizons horizons' : Horizons) : Prop where
  own : ∀ r, r ∈ records →
    horizons' r.offset = (cleanRecord latest cfg now horizons r).2 r.offset
  others : ∀ offset, (∀ r, r ∈ records → r.offset ≠ offset) → horizons' offset = horizons offset

theorem cleanRecords_spec {records : List Record} (horizons : Horizons)
    (increasing : records.Pairwise (fun a b => a.offset < b.offset)) :
    (cleanRecords latest cfg now records horizons).1 =
        records.filter (survives latest horizons now) ∧
      HorizonsAfter latest cfg now records horizons
        (cleanRecords latest cfg now records horizons).2 := by
  induction records generalizing horizons with
  | nil =>
    refine ⟨rfl, ?_, fun offset _ => rfl⟩
    intro r member
    cases member
  | cons r rest ih =>
    obtain ⟨fromHead, fromRest⟩ := List.pairwise_cons.mp increasing
    obtain ⟨kept, own, others⟩ := ih (cleanRecord latest cfg now horizons r).2 fromRest
    have untouched : ∀ later, later ∈ rest →
        (cleanRecord latest cfg now horizons r).2 later.offset = horizons later.offset := by
      intro later member
      have after := fromHead later member
      apply cleanRecord_snd_of_ne
      omega
    have sameFilter : rest.filter (survives latest (cleanRecord latest cfg now horizons r).2 now) =
        rest.filter (survives latest horizons now) := by
      apply List.filter_congr
      intro later member
      exact survives_congr latest now (untouched later member)
    simp only [cleanRecords]
    refine ⟨?_, ?_, ?_⟩
    · rw [kept, sameFilter, cleanRecord_fst, List.filter_cons]
    · intro found member
      rcases List.mem_cons.mp member with same | later
      · subst same
        apply others
        intro later inRest
        have after := fromHead later inRest
        omega
      · rw [own found later]
        exact cleanRecord_snd_congr latest cfg now (untouched found later)
    · intro offset absent
      rw [others offset (fun later member => absent later (List.mem_cons_of_mem r member))]
      exact cleanRecord_snd_of_ne latest cfg now horizons (absent r List.mem_cons_self).symm

end Records

def cleanable (limit : Int) (x : Int × Batch) : Bool := decide (x.1 < limit) && x.2.plain

section Batches

variable (codec : Codec) (latest : Latest) (limit : Int) (cfg : LogConfig) (now : Int)

/-- What `cleanBatch` makes of a batch, by the horizons before the clean. -/
def cleanedBatch (horizons : Horizons) (x : Int × Batch) : List (Int × Batch) :=
  if cleanable limit x then
    if ((recordsOf x).filter (survives latest horizons now)).length = (recordsOf x).length then [x]
    else reencode codec x.2 ((recordsOf x).filter (survives latest horizons now))
  else [x]

def cleanedRecords (x : Int × Batch) : List Record := if cleanable limit x then recordsOf x else []

variable {x : Int × Batch}

theorem cleanBatch_spec {horizons others : Horizons} (fits : BatchFits x)
    (same : ∀ r, r ∈ recordsOf x → horizons r.offset = others r.offset) :
    (cleanBatch codec latest limit cfg now horizons x).1 =
        cleanedBatch codec latest limit now others x ∧
      HorizonsAfter latest cfg now (cleanedRecords limit x) horizons
        (cleanBatch codec latest limit cfg now horizons x).2.1 := by
  have nothing : HorizonsAfter latest cfg now [] horizons horizons :=
    ⟨fun r member => (List.not_mem_nil member).elim, fun _ _ => rfl⟩
  unfold cleanBatch cleanedBatch cleanedRecords
  by_cases rewritten : cleanable limit x = true
  · have inside : ¬ (limit ≤ x.1 ∨ x.2.plain = false) := by
      simp only [cleanable, Bool.and_eq_true, decide_eq_true_eq] at rewritten
      rintro (above | notPlain)
      · omega
      · rw [rewritten.2] at notPlain
        cases notPlain
    rw [if_neg inside]
    simp only [rewritten, if_true]
    cases decoded : x.2.decode x.1 with
    | none =>
      have none' : recordsOf x = [] := by simp [recordsOf, decoded]
      rw [none']
      exact ⟨rfl, nothing⟩
    | some records =>
      have isRecords : recordsOf x = records := by simp [recordsOf, decoded]
      have increasing := fits.increasing
      rw [isRecords] at increasing same ⊢
      obtain ⟨kept, after⟩ := cleanRecords_spec latest cfg now horizons increasing
      have sameFilter : records.filter (survives latest horizons now) =
          records.filter (survives latest others now) :=
        List.filter_congr (fun r member => survives_congr latest now (same r member))
      simp only [kept, sameFilter]
      split
      · exact ⟨rfl, after⟩
      · exact ⟨rfl, after⟩
  · have outside : limit ≤ x.1 ∨ x.2.plain = false := by
      simp only [cleanable, Bool.and_eq_true, decide_eq_true_eq, not_and, Bool.not_eq_true]
        at rewritten
      by_cases below : x.1 < limit
      · exact Or.inr (rewritten below)
      · exact Or.inl (by omega)
    rw [if_pos outside]
    simp only [Bool.not_eq_true] at rewritten
    simp only [rewritten, Bool.false_eq_true, if_false]
    exact ⟨trivial, nothing⟩

theorem offset_ne_of_apart {y : Int × Batch} (fitsX : BatchFits x) (fitsY : BatchFits y)
    (apart : batchLastOffset x.1 x.2 < y.1) {r s : Record} (inX : r ∈ recordsOf x)
    (inY : s ∈ recordsOf y) : r.offset < s.offset := by
  have upper := (fitsX.within r inX).2
  have lower := (fitsY.within s inY).1
  omega

theorem mem_cleanedRecords {limit : Int} {r : Record} (member : r ∈ cleanedRecords limit x) :
    cleanable limit x = true ∧ r ∈ recordsOf x := by
  unfold cleanedRecords at member
  split at member
  · rename_i rewritten
    exact ⟨rewritten, member⟩
  · cases member

theorem cleanBatches_spec {batches : List (Int × Batch)} {horizons others : Horizons}
    (fits : ∀ x, x ∈ batches → BatchFits x)
    (ordered : batches.Pairwise (fun x y => batchLastOffset x.1 x.2 < y.1))
    (same : ∀ x, x ∈ batches → ∀ r, r ∈ recordsOf x → horizons r.offset = others r.offset) :
    (cleanBatches codec latest limit cfg now batches horizons).1 =
        batches.flatMap (cleanedBatch codec latest limit now others) ∧
      HorizonsAfter latest cfg now (batches.flatMap (cleanedRecords limit)) horizons
        (cleanBatches codec latest limit cfg now batches horizons).2.1 := by
  induction batches generalizing horizons with
  | nil =>
    refine ⟨rfl, ?_, fun offset _ => rfl⟩
    intro r member
    cases member
  | cons x rest ih =>
    obtain ⟨fromHead, fromRest⟩ := List.pairwise_cons.mp ordered
    have fitsX := fits x List.mem_cons_self
    obtain ⟨written, after⟩ := cleanBatch_spec codec latest limit cfg now fitsX
      (same x List.mem_cons_self)
    have later : ∀ y, y ∈ rest → ∀ s, s ∈ recordsOf y → ∀ r, r ∈ cleanedRecords limit x →
        r.offset < s.offset := by
      intro y member s inY r inX
      exact offset_ne_of_apart fitsX (fits y (List.mem_cons_of_mem x member)) (fromHead y member)
        (mem_cleanedRecords inX).2 inY
    have untouched : ∀ y, y ∈ rest → ∀ s, s ∈ recordsOf y →
        (cleanBatch codec latest limit cfg now horizons x).2.1 s.offset = horizons s.offset := by
      intro y member s inY
      apply after.others
      intro r inX
      have before := later y member s inY r inX
      omega
    obtain ⟨writtenRest, afterRest⟩ := @ih (cleanBatch codec latest limit cfg now horizons x).2.1
      (fun y member => fits y (List.mem_cons_of_mem x member)) fromRest
      (fun y member s inY => (untouched y member s inY).trans
        (same y (List.mem_cons_of_mem x member) s inY))
    simp only [cleanBatches, List.flatMap_cons]
    refine ⟨by rw [written, writtenRest], ?_, ?_⟩
    · intro r member
      rcases List.mem_append.mp member with inX | inRest
      · rw [afterRest.others r.offset, after.own r inX]
        intro s inLater
        obtain ⟨y, inRest, inY⟩ := List.mem_flatMap.mp inLater
        have before := later y inRest s (mem_cleanedRecords inY).2 r inX
        omega
      · obtain ⟨y, inBatches, inY⟩ := List.mem_flatMap.mp inRest
        rw [afterRest.own r inRest]
        exact cleanRecord_snd_congr latest cfg now
          (untouched y inBatches r (mem_cleanedRecords inY).2)
    · intro offset absent
      rw [afterRest.others offset
        (fun r member => absent r (List.mem_append_right _ member))]
      exact after.others offset (fun r member => absent r (List.mem_append_left _ member))

theorem cleanedBatch_contents (horizons : Horizons) (fits : BatchFits x) :
    contents ((cleanedBatch codec latest limit now horizons x).flatMap recordsOf) =
      contents ((recordsOf x).filter (fun r =>
        !cleanable limit x || survives latest horizons now r)) := by
  unfold cleanedBatch
  cases rewritten : cleanable limit x with
  | false =>
    have all : (recordsOf x).filter (fun r =>
        !false || survives latest horizons now r) = recordsOf x := by
      apply List.filter_eq_self.mpr
      intro r _
      rfl
    rw [all]
    simp
  | true =>
    simp only [if_true, Bool.not_true, Bool.false_or]
    split
    · rename_i all
      rw [List.filter_eq_self.mpr (List.length_filter_eq_length_iff.mp all)]
      simp
    · rcases reencode_cases codec x.2 ((recordsOf x).filter (survives latest horizons now)) with
        ⟨nothing, written⟩ | ⟨first, rest, first', rest', isKept, _, written⟩
      · rw [written, nothing]
        rfl
      · have written' : (first.offset, (codec.encode first' rest').flagged x.2.logAppendTime) ∈
            reencode codec x.2 ((recordsOf x).filter (survives latest horizons now)) := by
          rw [written]
          exact List.mem_cons_self
        have spec := reencode_spec codec fits List.filter_sublist written'
        rw [written, List.flatMap_singleton]
        exact spec.2.2.1

end Batches

end PartitionState

end NoidaDb.Kafka
