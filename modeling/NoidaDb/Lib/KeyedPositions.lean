/-
The positions of a list by the keys that stand there.

The index is built in one pass, and a position without a key is left out.  A key's positions
are listed in increasing order.
-/

import NoidaDb.Lib.FiniteMaps

namespace NoidaDb.Lib

variable {K : Type} [DecidableEq K]

/-- `map.entry(k).or_default().push(j)`. -/
def pushPosition (index : FiniteMap K (List Nat)) (k : K) (j : Nat) : FiniteMap K (List Nat) :=
  index.insert k ((index.get k).getD [] ++ [j])

def keyedPositions (keys : List (Option K)) : FiniteMap K (List Nat) :=
  keys.zipIdx.foldl
    (fun index entry =>
      match entry.1 with
      | some k => pushPosition index k entry.2
      | none => index)
    FiniteMap.empty

def positionsOf (index : FiniteMap K (List Nat)) (k : K) : List Nat := (index.get k).getD []

theorem positionsOf_push (index : FiniteMap K (List Nat)) (pushed k : K) (j : Nat) :
    positionsOf (pushPosition index pushed j) k =
      if k = pushed then positionsOf index k ++ [j] else positionsOf index k := by
  unfold positionsOf pushPosition
  rw [FiniteMap.get_insert]
  split
  · rename_i same
    rw [same]
    rfl
  · rfl

theorem positionsOf_foldl (entries : List (Option K × Nat)) (index : FiniteMap K (List Nat))
    (k : K) :
    positionsOf
        (entries.foldl
          (fun index entry =>
            match entry.1 with
            | some k => pushPosition index k entry.2
            | none => index)
          index) k =
      positionsOf index k ++ (entries.filter (fun entry => entry.1 = some k)).map Prod.snd := by
  induction entries generalizing index with
  | nil => simp
  | cons entry entries ih =>
    obtain ⟨key, j⟩ := entry
    rw [List.foldl_cons, ih, List.filter_cons]
    cases key with
    | none => simp
    | some pushed =>
      simp only [positionsOf_push, Option.some.injEq, decide_eq_true_eq]
      by_cases same : k = pushed
      · simp [same]
      · simp [same, Ne.symm same]

theorem positionsOf_keyedPositions (keys : List (Option K)) (k : K) :
    positionsOf (keyedPositions keys) k =
      (List.range keys.length).filter (fun j => keys[j]? = some (some k)) := by
  have split : (List.range keys.length).filter (fun j => keys[j]? = some (some k)) =
      (keys.zipIdx.filter (fun entry => entry.1 = some k)).map Prod.snd := by
    rw [List.range_eq_range', ← List.zipIdx_map_snd 0 keys, List.filter_map]
    apply congrArg (List.map Prod.snd)
    apply List.filter_congr
    intro entry member
    have stands := List.mem_zipIdx_iff_getElem?.mp member
    simp only [Function.comp_apply, stands, Option.some.injEq]
  unfold keyedPositions
  rw [positionsOf_foldl, split]
  rfl

end NoidaDb.Lib
