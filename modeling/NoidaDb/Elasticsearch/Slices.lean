/-
Sliced scrolls: which documents a slice returns.
-/

import NoidaDb.Lib.Builds
import Mathlib.Data.Nat.Cast.Basic
import Mathlib.Data.Nat.Log

namespace NoidaDb.Elasticsearch

open Lib

/-- `encode_utf16` of a character. -/
def utf16 (c : Char) : List Nat :=
  if c.toNat < 0x10000 then [c.toNat]
  else [0xD800 + (c.toNat - 0x10000) / 0x400, 0xDC00 + (c.toNat - 0x10000) % 0x400]

def routingBytes (s : String) : List UInt32 :=
  (s.toList.flatMap utf16).flatMap (fun u => [(u % 256).toUInt32, (u / 256).toUInt32])

def rotateLeft (x : UInt32) (n : UInt32) : UInt32 := x <<< n ||| x >>> (32 - n)

def mixed (k : UInt32) : UInt32 := rotateLeft (k * 0xcc9e2d51) 15 * 0x1b873593

def mixChunks (h : UInt32) : List UInt32 → UInt32 × List UInt32
  | a :: b :: c :: d :: rest =>
    let h := h ^^^ mixed (a ||| b <<< 8 ||| c <<< 16 ||| d <<< 24)
    mixChunks (rotateLeft h 13 * 5 + 0xe6546b64) rest
  | tail => (h, tail)

def murmur3Routing (s : String) : Int :=
  let bytes := routingBytes s
  let (h, tail) := mixChunks 0 bytes
  let k := (tail.zipIdx).foldl (fun k b => k ^^^ b.1 <<< (8 * b.2).toUInt32) 0
  let h := if tail.isEmpty then h else h ^^^ mixed k
  let h := h ^^^ bytes.length.toUInt32
  let h := (h ^^^ h >>> 16) * 0x85ebca6b
  let h := (h ^^^ h >>> 13) * 0xc2b2ae35
  (h ^^^ h >>> 16).toInt32.toInt

abbrev I64 := { n : Int // i64.Holds n }

structure Index where
  /-- The settings, where they are read as a `u64` and as an `i64`. -/
  numberOfShards : Option (Fin (2 ^ 64)) := none
  numberOfRoutingShards : Option I64 := none
  /-- The routing values of documents that have one, by id. -/
  routing : String → Option String := fun _ => none

namespace Index

def shardCount (i : Index) : Nat := (i.numberOfShards.map Fin.val).getD 1

/-- `shard_counts(i).0.max(1) as i64`. -/
def shards (i : Index) : Int := i64.wrap (max i.shardCount 1 : Nat)

/-- `64 - n.leading_zeros()`. -/
def bitLength (n : Nat) : Nat := if n = 0 then 0 else Nat.log 2 n + 1

def routingShards (i : Index) : Int :=
  match i.numberOfRoutingShards with
  | some n => n.val
  | none => i64.wrap (i.shards * 2 ^ max (10 - bitLength (usize.wrap (i.shards - 1)).toNat) 1)

def shardOf (i : Index) (key : String) : Int :=
  (murmur3Routing key % i.routingShards).tdiv (max (i.routingShards.tdiv i.shards) 1)

def Sharded (i : Index) : Prop :=
  0 < i.routingShards ∧ ((max i.shardCount 1 : Nat) : Int) ∣ i.routingShards

end Index

structure CommittedDoc where
  id : String
  index : String
  /-- The text of the first value that the source has at a field; empty if none. -/
  firstText : String → String

structure State where
  indices : String → Option Index

structure Slice where
  id : Option I64
  max : Option I64
  field : Option String := none

def hashOf (field : String) (d : CommittedDoc) : Int :=
  murmur3Routing (if field = "_id" then d.id else d.firstText field)

/-- The filter of `sliced`. -/
def inSlice (s : State) (field : String) (id max : Int) (d : CommittedDoc) : Bool :=
  match s.indices d.index with
  | none => hashOf field d % max = id
  | some i =>
    let shard := i.shardOf ((i.routing d.id).getD d.id)
    if max ≤ i.shards then shard.tmod max = id
    else if shard ≠ id.tmod i.shards then false
    else
      let perShard := max.tdiv i.shards + if shard < max.tmod i.shards then 1 else 0
      perShard ≤ 1 || hashOf field d % perShard = id.tdiv i.shards

def sliced (s : State) (docs : List CommittedDoc) (slice : Option Slice) : List CommittedDoc :=
  match slice with
  | none => docs
  | some slice =>
    match slice.id, slice.max with
    | some id, some max => docs.filter (inSlice s (slice.field.getD "_id") id.val max.val)
    | _, _ => docs

namespace Index

variable {i : Index}

theorem shards_eq (sharded : i.Sharded) : i.shards = (max i.shardCount 1 : Nat) := by
  have bounded : i.routingShards < 9223372036854775808 := by
    unfold routingShards
    split
    next n _ => exact (i64_holds.mp n.property).2
    next =>
      rw [IntType.i64_wrap]
      omega
  have least := Int.le_of_dvd sharded.1 sharded.2
  exact IntType.wrap_eq (i64_holds.mpr (by omega))

theorem shards_pos (sharded : i.Sharded) : 0 < i.shards := by
  rw [shards_eq sharded]
  omega

theorem shardOf_range (sharded : i.Sharded) (key : String) :
    0 ≤ i.shardOf key ∧ i.shardOf key < i.shards := by
  have positive := shards_pos sharded
  obtain ⟨all, c, same⟩ := sharded
  rw [← shards_eq ⟨all, c, same⟩] at same
  have factor : 0 < c := by
    rw [same] at all
    exact Int.pos_of_mul_pos_right all positive
  have low := Int.emod_nonneg (murmur3Routing key) (Int.ne_of_gt all)
  have high := Int.emod_lt_of_pos (murmur3Routing key) all
  unfold shardOf
  rw [Int.tdiv_eq_ediv_of_nonneg (Int.le_of_lt all), same,
    Int.mul_ediv_cancel_left c (Int.ne_of_gt positive), max_eq_left (by omega),
    Int.tdiv_eq_ediv_of_nonneg (by rw [← same]; exact low)]
  rw [same] at high low
  exact ⟨Int.ediv_nonneg low (by omega), Int.ediv_lt_of_lt_mul factor high⟩

theorem lt_two_pow_bitLength (n : Nat) : n < 2 ^ bitLength n := by
  unfold bitLength
  split
  next isZero => omega
  next => exact Nat.lt_pow_succ_log_self (by decide) n

theorem default_small {n : Nat} (pos : 1 ≤ n) (few : n < 4611686018427387904) :
    n * 2 ^ max (10 - bitLength (n - 1)) 1 < 9223372036854775808 := by
  by_cases narrow : bitLength (n - 1) < 9
  · have le : n ≤ 2 ^ bitLength (n - 1) := by
      have := lt_two_pow_bitLength (n - 1)
      omega
    have sum : bitLength (n - 1) + (10 - bitLength (n - 1)) = 10 := by omega
    rw [max_eq_left (by omega)]
    calc n * 2 ^ (10 - bitLength (n - 1))
        ≤ 2 ^ bitLength (n - 1) * 2 ^ (10 - bitLength (n - 1)) := Nat.mul_le_mul_right _ le
      _ = 2 ^ 10 := by rw [← Nat.pow_add, sum]
      _ < 9223372036854775808 := by decide
  · rw [max_eq_right (by omega)]
    omega

theorem sharded_of_default (isDefault : i.numberOfRoutingShards = none)
    (few : i.shardCount < 4611686018427387904) : i.Sharded := by
  have isShards : i.shards = (max i.shardCount 1 : Nat) :=
    IntType.wrap_eq (i64_holds.mpr (by omega))
  have pos : 1 ≤ max i.shardCount 1 ∧ max i.shardCount 1 < 4611686018427387904 := by omega
  unfold Sharded
  generalize max i.shardCount 1 = n at isShards pos ⊢
  have small := default_small pos.1 pos.2
  have same : (usize.wrap (i.shards - 1)).toNat = n - 1 := by
    rw [IntType.usize_wrap, isShards]
    omega
  have all : i.routingShards = ((n * 2 ^ max (10 - bitLength (n - 1)) 1 : Nat) : Int) := by
    unfold routingShards
    rw [isDefault]
    dsimp only
    rw [same, isShards, ← Nat.cast_ofNat, ← Nat.cast_pow, ← Nat.cast_mul]
    exact IntType.wrap_eq (i64_holds.mpr (by omega))
  rw [all]
  refine ⟨?_, Int.natCast_dvd_natCast.mpr ⟨_, rfl⟩⟩
  exact_mod_cast Nat.mul_pos pos.1 (Nat.two_pow_pos _)

end Index

theorem slices_of_shard {shard n max : Int} (low : 0 ≤ shard) (high : shard < n) (q : Int) :
    shard + n * q < max ↔ q < max / n + if shard < max % n then 1 else 0 := by
  have whole := Int.mul_ediv_add_emod max n
  have left := Int.emod_nonneg max (show n ≠ 0 by omega)
  have least := Int.emod_lt_of_pos max (show 0 < n by omega)
  rcases Int.lt_trichotomy q (max / n) with lt | eq | gt
  · have := Int.mul_le_mul_of_nonneg_left (show q + 1 ≤ max / n by omega) (show 0 ≤ n by omega)
    rw [Int.mul_add] at this
    split <;> omega
  · rw [eq]
    split <;> omega
  · have := Int.mul_le_mul_of_nonneg_left (show max / n + 1 ≤ q by omega) (show 0 ≤ n by omega)
    rw [Int.mul_add] at this
    split <;> omega

theorem existsUnique_slice {shard n max q : Int} (low : 0 ≤ shard) (high : shard < n)
    (nonneg : 0 ≤ q) (below : shard + n * q < max) :
    ∃! id : Int, (0 ≤ id ∧ id < max) ∧ id % n = shard ∧ id / n = q := by
  have multiple := Int.mul_nonneg (show 0 ≤ n by omega) nonneg
  refine ⟨shard + n * q, ⟨⟨by omega, below⟩, ?_, ?_⟩, ?_⟩
  · rw [Int.add_mul_emod_self_left, Int.emod_eq_of_lt low high]
  · rw [Int.add_mul_ediv_left _ _ (by omega), Int.ediv_eq_zero_of_lt low high, Int.zero_add]
  · rintro id ⟨-, rfl, rfl⟩
    exact (Int.emod_add_mul_ediv id n).symm

variable {s : State} {field : String} {max : Int}

theorem existsUnique_inSlice (many : 1 < max)
    (sharded : ∀ name i, s.indices name = some i → i.Sharded) (d : CommittedDoc) :
    ∃! id : Int, (0 ≤ id ∧ id < max) ∧ inSlice s field id max d = true := by
  unfold inSlice
  cases found : s.indices d.index with
  | none =>
    refine ⟨hashOf field d % max, ⟨⟨?_, ?_⟩, by simp⟩, ?_⟩
    · exact Int.emod_nonneg _ (by omega)
    · exact Int.emod_lt_of_pos _ (by omega)
    · rintro id ⟨-, same⟩
      exact (of_decide_eq_true same).symm
  | some i =>
    have some := Index.shards_pos (sharded _ _ found)
    obtain ⟨low, high⟩ := Index.shardOf_range (sharded _ _ found) ((i.routing d.id).getD d.id)
    dsimp only
    generalize i.shardOf ((i.routing d.id).getD d.id) = shard at low high ⊢
    by_cases fewer : max ≤ i.shards
    · simp only [fewer, if_true, decide_eq_true_eq, Int.tmod_eq_emod_of_nonneg low]
      refine ⟨shard % max, ⟨⟨?_, ?_⟩, rfl⟩, fun id slice => slice.2.symm⟩
      · exact Int.emod_nonneg _ (by omega)
      · exact Int.emod_lt_of_pos _ (by omega)
    · have count := @slices_of_shard shard i.shards max low high
      simp only [fewer, if_false, Int.tdiv_eq_ediv_of_nonneg (show 0 ≤ max by omega),
        Int.tmod_eq_emod_of_nonneg (show 0 ≤ max by omega)]
      generalize max / i.shards + (if shard < max % i.shards then 1 else 0) = perShard at count ⊢
      have one : 0 < perShard := (count 0).mp (by omega)
      have inRange (id : Int) (nonneg : 0 ≤ id) :
          (if shard ≠ id.tmod i.shards then false
            else perShard ≤ 1 || hashOf field d % perShard = id.tdiv i.shards) = true ↔
            id % i.shards = shard ∧
              (perShard ≤ 1 ∨ hashOf field d % perShard = id / i.shards) := by
        rw [Int.tmod_eq_emod_of_nonneg nonneg, Int.tdiv_eq_ediv_of_nonneg nonneg]
        by_cases same : id % i.shards = shard
        · rw [if_neg (not_not.mpr same.symm), Bool.or_eq_true, decide_eq_true_iff,
            decide_eq_true_iff]
          exact (and_iff_right same).symm
        · rw [if_pos (Ne.symm same)]
          exact ⟨fun isTrue => absurd isTrue Bool.false_ne_true, fun is => absurd is.1 same⟩
      have turn := Int.emod_lt_of_pos (hashOf field d) one
      have nonneg := Int.emod_nonneg (hashOf field d) (Int.ne_of_gt one)
      obtain ⟨id, ⟨range, mod, div⟩, unique⟩ :=
        existsUnique_slice low high nonneg ((count _).mpr turn)
      refine ⟨id, ⟨range, (inRange id range.1).mpr ⟨mod, .inr div.symm⟩⟩, ?_⟩
      rintro other ⟨bounds, slice⟩
      obtain ⟨isShard, first | turned⟩ := (inRange other bounds.1).mp slice
      · refine unique other ⟨bounds, isShard, ?_⟩
        have least := (count (other / i.shards)).mp (by
          rw [← isShard, Int.emod_add_mul_ediv]
          exact bounds.2)
        have := Int.ediv_nonneg bounds.1 (show 0 ≤ i.shards by omega)
        omega
      · exact unique other ⟨bounds, isShard, turned.symm⟩

/-- Each document of a scroll is in exactly one of its slices, and each shard is one of its
index. -/
theorem slices_partition (s : State) (docs : List CommittedDoc) (max : I64) (field : Option String)
    (many : 1 < max.val) (sharded : ∀ name i, s.indices name = some i → i.Sharded) :
    (∀ d ∈ docs, ∃! id : I64, (0 ≤ id.val ∧ id.val < max.val) ∧
      d ∈ sliced s docs (some { id := some id, max := some max, field })) ∧
    ∀ name i, s.indices name = some i → ∀ key,
      0 ≤ i.shardOf key ∧ i.shardOf key < (Max.max i.shardCount 1 : Nat) := by
  constructor
  · intro d isDoc
    obtain ⟨id, ⟨range, slice⟩, unique⟩ :=
      @existsUnique_inSlice s (field.getD "_id") max.val many sharded d
    have bound := i64_holds.mp max.property
    refine ⟨⟨id, i64_holds.mpr (by omega)⟩, ⟨range, List.mem_filter.mpr ⟨isDoc, slice⟩⟩, ?_⟩
    rintro other ⟨bounds, member⟩
    exact Subtype.ext (unique other.val ⟨bounds, (List.mem_filter.mp member).2⟩)
  · intro name i found key
    rw [← Index.shards_eq (sharded name i found)]
    exact Index.shardOf_range (sharded name i found) key

def fiveShards : State :=
  { indices := fun name => if name = "logs" then some { numberOfShards := some 5 } else none }

theorem slices_partition_fiveShards : ∃! id : I64, (0 ≤ id.val ∧ id.val < 7) ∧
    (⟨"a", "logs", fun _ => ""⟩ : CommittedDoc) ∈ sliced fiveShards
      [⟨"a", "logs", fun _ => ""⟩]
      (some { id := some id, max := some ⟨7, by decide⟩ }) := by
  refine (slices_partition fiveShards [⟨"a", "logs", fun _ => ""⟩] ⟨7, by decide⟩ none
    (by decide) ?_).1 _ (List.mem_singleton.mpr rfl)
  intro name i found
  unfold fiveShards at found
  dsimp only at found
  split at found
  · obtain rfl := Option.some.inj found
    exact Index.sharded_of_default rfl (by decide)
  · cases found

end NoidaDb.Elasticsearch
