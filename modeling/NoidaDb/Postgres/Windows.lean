/-
Window functions: the order of a partition, ranks and buckets, frames and what is read in them.

A partition is the list of its rows in order, with the values of their ORDER BY expressions.
Positions count from 0.  RANGE frames, LAG and LEAD are left out.
-/

import Mathlib.Algebra.Ring.Int.Defs
import Mathlib.Algebra.Ring.Nat
import NoidaDb.Lib.Orders
import NoidaDb.Lib.PeerGroups
import NoidaDb.Postgres.SetOperations

namespace NoidaDb.Postgres.Windows

open PgValue
open NoidaDb.Lib
open Queries (compareKey)

def invalidPrecedingOrFollowingSize : String := "22013"
def nullValueNotAllowed : String := "22004"
def wrap64 (x : Int) : Int := x.bmod (2 ^ 64)

/-- What `as_int` and `is_null` say of an offset. -/
inductive Offset where
  | int (k : Int)
  | null
  | other
deriving Repr, DecidableEq

abbrev RowExpr (V α : Type) := Row V → PgResult α

inductive FrameBound (V : Type) where
  | unboundedPreceding
  | preceding (offset : RowExpr V Offset)
  | currentRow
  | following (offset : RowExpr V Offset)
  | unboundedFollowing

structure Frame (V : Type) where
  groups : Bool
  start : FrameBound V
  stop : FrameBound V

inductive WinFunc (V : Type) where
  | rowNumber
  | rank
  | denseRank
  | percentRank
  | cumeDist
  | ntile (buckets : RowExpr V Offset)
  | firstValue (arg : RowExpr V V)
  | lastValue (arg : RowExpr V V)
  | nthValue (arg : RowExpr V V) (nth : RowExpr V Offset)
  | aggregate (agg : List (Row V) → PgResult V)

structure OrderKey (V : Type) where
  expr : RowExpr V V
  desc : Bool := false
  nullsFirst : Bool := false

structure WinCall (V : Type) where
  func : WinFunc V
  order : List (OrderKey V) := []
  frame : Option (Frame V) := none

variable {V : Type} [PgValue V]

def evalKeys (order : List (OrderKey V)) (row : Row V) : PgResult (Row V) :=
  order.mapM (fun k => k.expr row)

def compareOrder : List (OrderKey V) → Row V → Row V → Ordering
  | [], _, _ => .eq
  | k :: order, a, b =>
    (compareKey k.desc k.nullsFirst (a.headD null) (b.headD null)).then
      (compareOrder order a.tail b.tail)

def sortPartition (order : List (OrderKey V)) (keyed : List (Row V × Row V)) :
    List (Row V × Row V) :=
  if order.isEmpty then keyed else keyed.mergeSort (fun a b => compareOrder order a.1 b.1 != .gt)

def samePeer (keys : List (Row V)) (a b : Nat) : Bool := Queries.rowsEqual (keys.getD a []) (keys.getD b [])

/-- `rank` and `dense` after the loop has come to a position. -/
def ranksAt (peer : Nat → Nat → Bool) : Nat → Int × Int
  | 0 => (1, 1)
  | p + 1 =>
    let before := ranksAt peer p
    if peer p (p + 1) then before else (p + 2, before.2 + 1)

/-- The bucket of the row at `p`, of `n`. -/
def ntileAt (n : Nat) (buckets : Int) (p : Nat) : Int := (wrap64 (p * buckets)).tdiv n + 1

def bucketsOf : Offset → Int
  | .int k => max k 1
  | _ => 1

def count : Offset → PgResult Nat
  | .int k =>
    if 0 ≤ k then .ok k.toNat
    else .error { code := invalidPrecedingOrFollowingSize
                  message := "frame starting offset must not be negative" }
  | .null => .error { code := nullValueNotAllowed
                      message := "frame starting offset must not be null" }
  | .other => .ok 0

def countAt (offset : RowExpr V Offset) (row : Row V) : PgResult Nat := do
  let v ← offset row
  count v

def rowsStart (n p : Nat) (row : Row V) : FrameBound V → PgResult Nat
  | .unboundedPreceding => pure 0
  | .currentRow => pure p
  | .preceding e => do
      let k ← countAt e row
      pure (p - k)
  | .following e => do
      let k ← countAt e row
      pure (p + k)
  | .unboundedFollowing => pure n

def rowsStop (n p : Nat) (row : Row V) : FrameBound V → PgResult Nat
  | .unboundedFollowing => pure n
  | .currentRow => pure (p + 1)
  | .following e => do
      let k ← countAt e row
      pure (min (p + k + 1) n)
  | .preceding e => do
      let k ← countAt e row
      pure (p + 1 - k)
  | .unboundedPreceding => pure 0

def rowsBounds (f : Frame V) (n p : Nat) (row : Row V) : PgResult (Nat × Nat) := do
  let start ← rowsStart n p row f.start
  let stop ← rowsStop n p row f.stop
  pure (min start n, min stop n)

/-- The number of the peer group at `p`, from the groups' bounds. -/
def groupOf (bounds : List (Nat × Nat)) (p : Nat) : Nat :=
  bounds.findIdx (fun b => decide (b.1 ≤ p) && decide (p < b.2))

def groupAt (bounds : List (Nat × Nat)) (k : Int) : Nat × Nat :=
  bounds.getD (max 0 (min k (bounds.length - 1))).toNat (0, 0)

def groupsStart (bounds : List (Nat × Nat)) (n : Nat) (g : Int) (row : Row V) :
    FrameBound V → PgResult Nat
  | .unboundedPreceding => pure 0
  | .currentRow => pure (groupAt bounds g).1
  | .preceding e => do
      let k ← countAt e row
      pure (groupAt bounds (max (g - k) 0)).1
  | .following e => do
      let count ← countAt e row
      let k := wrap64 (g + count)
      pure (if bounds.length - 1 < k then n else (groupAt bounds k).1)
  | .unboundedFollowing => pure n

def groupsStop (bounds : List (Nat × Nat)) (n : Nat) (g : Int) (row : Row V) :
    FrameBound V → PgResult Nat
  | .unboundedFollowing => pure n
  | .currentRow => pure (groupAt bounds g).2
  | .following e => do
      let k ← countAt e row
      pure (groupAt bounds (min (wrap64 (g + k)) (bounds.length - 1))).2
  | .preceding e => do
      let count ← countAt e row
      let k := g - count
      pure (if k < 0 then 0 else (groupAt bounds k).2)
  | .unboundedPreceding => pure 0

def groupsBounds (peer : Nat → Nat → Bool) (f : Frame V) (n p : Nat) (row : Row V) :
    PgResult (Nat × Nat) := do
  let bounds := groupsFrom peer n n 0
  let g : Int := groupOf bounds p
  let start ← groupsStart bounds n g row f.start
  let stop ← groupsStop bounds n g row f.stop
  pure (start, stop)

def frameBounds (w : WinCall V) (p n : Nat) (row : Row V) (keys : List (Row V)) :
    PgResult (Nat × Nat) :=
  let peer := fun a b => !w.order.isEmpty && samePeer keys a b
  match w.frame with
  | none => .ok (if w.order.isEmpty then (0, n) else (0, peerEnd peer n p))
  | some f => if f.groups then groupsBounds peer f n p row else rowsBounds f n p row

def rowAt (rows : List (Row V)) (q : Nat) : Row V := rows.getD q []

def pickIn (bounds : Nat × Nat) (n pick : Nat) : Option Nat :=
  if pick < bounds.2 && pick < n then some pick else none

def readPick (arg : RowExpr V V) (rows : List (Row V)) : Option Nat → PgResult V
  | some q => arg (rowAt rows q)
  | none => .ok null

/-- `nth.max(1) as usize - 1`. -/
def nthOffset : Offset → Nat
  | .int k => (max k 1).toNat - 1
  | _ => 0

def frameList (bounds : Nat × Nat) (n : Nat) : List Nat :=
  List.range' bounds.1 (min bounds.2 n - bounds.1)

structure Fractions (V : Type) where
  ratio : Int → Int → V

/-- The result for the row at `p`. -/
def windowAt (fractions : Fractions V) (w : WinCall V) (rows keys : List (Row V)) (p : Nat) :
    PgResult V := do
  let n := rows.length
  let peer := samePeer keys
  match w.func with
  | .rowNumber => pure (ofInt (p + 1))
  | .rank => pure (ofInt (ranksAt peer p).1)
  | .denseRank => pure (ofInt (ranksAt peer p).2)
  | .percentRank =>
    pure (if 1 < n then fractions.ratio ((ranksAt peer p).1 - 1) (n - 1) else fractions.ratio 0 1)
  | .cumeDist => pure (fractions.ratio (peerEnd peer n p) n)
  | .ntile e => do
      let buckets ← e (rowAt rows 0)
      pure (ofInt (ntileAt n (bucketsOf buckets) p))
  | .firstValue arg => do
      let bounds ← frameBounds w p n (rowAt rows p) keys
      readPick arg rows (pickIn bounds n bounds.1)
  | .lastValue arg => do
      let bounds ← frameBounds w p n (rowAt rows p) keys
      readPick arg rows (pickIn bounds n (bounds.2 - 1))
  | .nthValue arg nth => do
      let bounds ← frameBounds w p n (rowAt rows p) keys
      let k ← nth (rowAt rows p)
      readPick arg rows (pickIn bounds n (bounds.1 + nthOffset k))
  | .aggregate agg => do
      let bounds ← frameBounds w p n (rowAt rows p) keys
      agg ((frameList bounds n).map (rowAt rows))

def computeWindow (fractions : Fractions V) (w : WinCall V) (rows : List (Row V)) :
    PgResult (List V) := do
  let keys ← rows.mapM (evalKeys w.order)
  (List.range rows.length).mapM (windowAt fractions w rows keys)

def KeysOf (types : List (V → Prop)) (key : Row V) : Prop :=
  List.Forall₂ (fun S v => S v) types key

/-- Each ORDER BY expression has values of a type that the comparison orders, with its nulls
equal. -/
structure Orderable (order : List (OrderKey V)) (types : List (V → Prop)) : Prop where
  length : types.length = order.length
  ordered : ∀ S, S ∈ types → PreorderOn cmpValues S
  nulls : ∀ a b : V, isNull a = true → isNull b = true → cmpValues a b = .eq

variable {order : List (OrderKey V)} {types : List (V → Prop)}

theorem Orderable.tail {k : OrderKey V} {S : V → Prop}
    (orderable : Orderable (k :: order) (S :: types)) : Orderable order types := by
  constructor
  · exact Nat.succ.inj orderable.length
  · exact fun T member => orderable.ordered T (List.mem_cons_of_mem S member)
  · exact orderable.nulls

theorem compareKey_preorder {S : V → Prop} (ordered : PreorderOn cmpValues S) (desc nullsFirst : Bool) :
    PreorderOn (compareKey desc nullsFirst) S := by
  have values : PreorderOn (fun x y : V => if desc then (cmpValues x y).swap else cmpValues x y) S := by
    cases desc with
    | false => exact ordered
    | true =>
      apply PreorderOn.intro
      · intro a b isA isB
        exact congrArg Ordering.swap (ordered.swap isA isB)
      · intro a b c isA isB isC first second
        simp only [if_true, ← ordered.swap isB isA, ← ordered.swap isC isB,
          ← ordered.swap isC isA] at first second ⊢
        exact ordered.trans isC isB isA second first
  apply PreorderOn.of_ranks (fun x => if isNull x = nullsFirst then 0 else 1)
  · intro a b _ _ different
    unfold compareKey
    cases isA : isNull a <;> cases isB : isNull b <;> cases nullsFirst <;>
      simp [isA, isB, compare, compareOfLessAndEq] at different ⊢
  · intro r
    -- All are null, or none is.
    have alike (a : V) (here : (if isNull a = nullsFirst then 0 else 1) = r) :
        isNull a = (if r = 0 then nullsFirst else !nullsFirst) := by
      split at here
      next same => rw [← here, if_pos rfl, same]
      next other =>
        rw [← here, if_neg Nat.one_ne_zero]
        exact Bool.eq_not.mpr other
    generalize (if r = 0 then nullsFirst else !nullsFirst) = isNull' at alike
    cases isNull' with
    | true =>
      apply PreorderOn.of_key compare (fun _ => ())
      intro a b isA isB
      unfold compareKey
      rw [alike a isA.2, alike b isB.2]
      rfl
    | false =>
      apply (values.mono (fun a isA => isA.1)).comap id (fun _ isA => isA)
      intro a b isA isB
      unfold compareKey
      rw [alike a isA.2, alike b isB.2]
      rfl

theorem compareKey_eq_iff (nulls : ∀ a b : V, isNull a = true → isNull b = true → cmpValues a b = .eq)
    (desc nullsFirst : Bool) (x y : V) :
    compareKey desc nullsFirst x y = .eq ↔ cmpValues x y = .eq := by
  have alike (equal : cmpValues x y = .eq) : isNull x = isNull y := cmp_isNull x y equal
  unfold compareKey
  cases isX : isNull x with
  | true =>
    cases isY : isNull y with
    | true => exact iff_of_true rfl (nulls x y isX isY)
    | false =>
      refine iff_of_false ?_ (fun equal => by
        rw [isX, isY] at alike
        cases alike equal)
      cases nullsFirst <;> exact fun impossible => by cases impossible
  | false =>
    cases isY : isNull y with
    | true =>
      refine iff_of_false ?_ (fun equal => by
        rw [isX, isY] at alike
        cases alike equal)
      cases nullsFirst <;> exact fun impossible => by cases impossible
    | false =>
      cases desc with
      | false => exact Iff.rfl
      | true => exact Ordering.swap_eq_eq

theorem compareOrder_preorder (orderable : Orderable order types) :
    PreorderOn (compareOrder order) (KeysOf types) := by
  induction order generalizing types with
  | nil =>
    apply PreorderOn.of_key compare (fun _ => ())
    intro a b _ _
    rfl
  | cons k order ih =>
    cases types with
    | nil => cases orderable.length
    | cons S types =>
      have first : PreorderOn (fun a b : Row V =>
          compareKey k.desc k.nullsFirst (a.headD null) (b.headD null)) (KeysOf (S :: types)) := by
        apply (compareKey_preorder (orderable.ordered S List.mem_cons_self) k.desc
          k.nullsFirst).comap (fun a : Row V => a.headD null)
        · intro a isA
          cases isA with
          | cons here _ => exact here
        · exact fun _ _ _ _ => rfl
      have later : PreorderOn (fun a b : Row V => compareOrder order a.tail b.tail)
          (KeysOf (S :: types)) := by
        apply (ih orderable.tail).comap List.tail
        · intro a isA
          cases isA with
          | cons _ rest => exact rest
        · exact fun _ _ _ _ => rfl
      exact first.andThen later

theorem compareOrder_eq_iff (orderable : Orderable order types) {a b : Row V}
    (isA : KeysOf types a) (isB : KeysOf types b) :
    compareOrder order a b = .eq ↔ Queries.rowsEqual a b = true := by
  rw [Queries.rowsEqual_iff]
  induction order generalizing types a b with
  | nil =>
    obtain rfl := List.length_eq_zero_iff.mp orderable.length
    cases isA
    cases isB
    exact iff_of_true rfl .nil
  | cons k order ih =>
    cases isA with
    | nil => cases orderable.length
    | cons _ restA =>
      cases isB with
      | cons _ restB =>
        rw [List.forall₂_cons, ← ih orderable.tail restA restB,
          ← compareKey_eq_iff orderable.nulls k.desc k.nullsFirst]
        exact Ordering.then_eq_eq

theorem sortPartition_peers (orderable : Orderable order types) {keyed : List (Row V × Row V)}
    (typed : ∀ entry, entry ∈ keyed → KeysOf types entry.1) :
    Peers (samePeer ((sortPartition order keyed).map Prod.fst)) keyed.length := by
  have perm : (sortPartition order keyed).Perm keyed := by
    unfold sortPartition
    split
    · exact List.Perm.refl keyed
    · exact List.mergeSort_perm keyed _
  have typed' : ∀ key, key ∈ (sortPartition order keyed).map Prod.fst → KeysOf types key := by
    intro key member
    obtain ⟨entry, listed, rfl⟩ := List.mem_map.mp member
    exact typed entry (perm.mem_iff.mp listed)
  have length : ((sortPartition order keyed).map Prod.fst).length = keyed.length := by
    rw [List.length_map, perm.length_eq]
  have isOrdered : ((sortPartition order keyed).map Prod.fst).Pairwise
      (fun a b => (compareOrder order a b).isLE) := by
    unfold sortPartition
    split
    next none' =>
      rw [List.isEmpty_iff.mp none']
      exact List.pairwise_of_forall (fun _ _ => rfl)
    · rw [List.pairwise_map]
      exact (compareOrder_preorder orderable).sorted Prod.fst typed
  generalize (sortPartition order keyed).map Prod.fst = keys at typed' length isOrdered
  rw [← length]
  have atPos {a : Nat} (within : a < keys.length) : keys.getD a [] = keys[a] := by
    rw [List.getD_eq_getElem?_getD, List.getElem?_eq_getElem within, Option.getD_some]
  constructor
  · exact fun _ => Queries.rowsEqual_refl _
  · exact fun _ _ same => Queries.rowsEqual_symm same
  · intro a b c inA inB inC first second
    unfold samePeer at first second ⊢
    rw [atPos inA, atPos inB] at first
    rw [atPos inB, atPos inC] at second
    rw [atPos inA, atPos inC]
    exact Queries.TransitiveOn.of_columns orderable.ordered _ _ _ (typed' _ (List.getElem_mem inA))
      (typed' _ (List.getElem_mem inB)) (typed' _ (List.getElem_mem inC)) first second
  · intro a b c low high within isPeer
    have inA : a < keys.length := by omega
    have inB : b < keys.length := by omega
    have isKey {d : Nat} (inside : d < keys.length) : KeysOf types keys[d] :=
      typed' _ (List.getElem_mem inside)
    have le {d e : Nat} (inside : e < keys.length) (inside' : d < keys.length) (before : d ≤ e) :
        (compareOrder order keys[d] keys[e]).isLE := by
      rcases Nat.lt_or_eq_of_le before with earlier | rfl
      · exact List.pairwise_iff_getElem.mp isOrdered d e inside' inside earlier
      · rw [(compareOrder_preorder orderable).self (isKey inside)]
        rfl
    unfold samePeer at isPeer ⊢
    rw [atPos inA, atPos within] at isPeer
    rw [atPos inA, atPos inB]
    have preorder := compareOrder_preorder orderable
    have back := (compareOrder_eq_iff orderable (isKey within) (isKey inA)).mpr (Queries.rowsEqual_symm isPeer)
    have down : (compareOrder order keys[b] keys[a]).isLE := by
      apply preorder.trans (isKey inB) (isKey within) (isKey inA) (le within inB high)
      rw [back]
      rfl
    have up := le inB inA low
    rw [preorder.swap (isKey inB) (isKey inA)] at down
    apply (compareOrder_eq_iff orderable (isKey inA) (isKey inB)).mp
    cases result : compareOrder order keys[a] keys[b] with
    | eq => rfl
    | lt =>
      rw [result] at down
      cases down
    | gt =>
      rw [result] at up
      cases up

/-- The rows of a partition, each with its key.  They stand in a list of machine words, which has
fewer than 2^60 entries. -/
structure Partition (V : Type) [PgValue V] where
  order : List (OrderKey V)
  types : List (V → Prop)
  orderable : Orderable order types
  keyed : List (Row V × Row V)
  evaluated : ∀ entry, entry ∈ keyed → evalKeys order entry.2 = .ok entry.1
  typed : ∀ entry, entry ∈ keyed → KeysOf types entry.1
  small : keyed.length < 2 ^ 60

namespace Partition

def keys (part : Partition V) : List (Row V) := (sortPartition part.order part.keyed).map Prod.fst

def rows (part : Partition V) : List (Row V) := (sortPartition part.order part.keyed).map Prod.snd

def peer (part : Partition V) : Nat → Nat → Bool := samePeer part.keys

theorem sorted_perm (part : Partition V) : (sortPartition part.order part.keyed).Perm part.keyed := by
  unfold sortPartition
  split
  · exact List.Perm.refl _
  · exact List.mergeSort_perm _ _

theorem rows_length (part : Partition V) : part.rows.length = part.keyed.length := by
  rw [rows, List.length_map, part.sorted_perm.length_eq]

theorem peers (part : Partition V) : Peers part.peer part.rows.length := by
  rw [rows_length]
  exact sortPartition_peers part.orderable part.typed

theorem evalKeys_rows (part : Partition V) : part.rows.mapM (evalKeys part.order) = .ok part.keys := by
  have each : ∀ entry, entry ∈ sortPartition part.order part.keyed →
      evalKeys part.order entry.2 = .ok entry.1 :=
    fun entry member => part.evaluated entry (part.sorted_perm.mem_iff.mp member)
  unfold rows keys
  generalize sortPartition part.order part.keyed = sorted at each
  induction sorted with
  | nil => rfl
  | cons entry rest ih =>
    rw [List.map_cons, List.mapM_cons, each entry List.mem_cons_self,
      ih (fun other member => each other (List.mem_cons_of_mem entry member))]
    rfl

theorem computeWindow_ok (part : Partition V) (fractions : Fractions V) (w : WinCall V)
    (isOrder : w.order = part.order) {f : Nat → V} (each : ∀ p, p < part.rows.length →
      windowAt fractions w part.rows part.keys p = .ok (f p)) :
    computeWindow fractions w part.rows = .ok ((List.range part.rows.length).map f) := by
  unfold computeWindow
  rw [isOrder, part.evalKeys_rows]
  show (List.range part.rows.length).mapM (windowAt fractions w part.rows part.keys) = _
  have within : ∀ p, p ∈ List.range part.rows.length → p < part.rows.length :=
    fun p member => List.mem_range.mp member
  generalize List.range part.rows.length = positions at within
  induction positions with
  | nil => rfl
  | cons p rest ih =>
    rw [List.mapM_cons, each p (within p List.mem_cons_self),
      ih (fun q member => within q (List.mem_cons_of_mem p member))]
    rfl

end Partition

end NoidaDb.Postgres.Windows
