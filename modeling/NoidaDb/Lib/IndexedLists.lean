/-
Lists with an index from the keys of their elements to their positions.

The index is kept up to date by what happens at the changed positions alone.
-/

import Mathlib.Data.List.Nodup

namespace NoidaDb.Lib

variable {κ ε : Type} (key : ε → κ)

def Indexed (xs : List ε) (index : κ → Option Nat) : Prop :=
  ∀ k i, index k = some i ↔ xs[i]?.map key = some k

namespace Indexed

variable {key} {xs : List ε} {index : κ → Option Nat} {k : κ} {i : Nat} {x : ε}

theorem at_position (indexed : Indexed key xs index) (found : index k = some i) :
    ∃ x, xs[i]? = some x ∧ key x = k :=
  Option.map_eq_some_iff.mp ((indexed k i).mp found)

theorem of_getElem (indexed : Indexed key xs index) (isAt : xs[i]? = some x) :
    index (key x) = some i :=
  (indexed (key x) i).mpr (by rw [isAt]; rfl)

theorem lt_length (indexed : Indexed key xs index) (found : index k = some i) : i < xs.length := by
  obtain ⟨x, isAt, _⟩ := indexed.at_position found
  exact (List.getElem?_eq_some_iff.mp isAt).1

theorem isSome_iff (indexed : Indexed key xs index) :
    (index k).isSome = true ↔ k ∈ xs.map key := by
  rw [Option.isSome_iff_exists, List.mem_iff_getElem?]
  exact exists_congr (fun i => by rw [indexed, List.getElem?_map])

theorem mem_set {y : ε} (indexed : Indexed key xs index) (found : index (key x) = some i) :
    y ∈ xs.set i x ↔ y = x ∨ y ∈ xs ∧ key y ≠ key x := by
  have isThere := List.getElem?_set_self (a := x) (indexed.lt_length found)
  constructor
  · intro member
    obtain ⟨j, isAt⟩ := List.mem_iff_getElem?.mp member
    by_cases same : i = j
    · rw [← same, isThere] at isAt
      exact .inl (Option.some.inj isAt).symm
    · rw [List.getElem?_set_ne same] at isAt
      refine .inr ⟨List.mem_of_getElem? isAt, fun isKey => same ?_⟩
      exact Option.some.inj (found.symm.trans (isKey ▸ indexed.of_getElem isAt))
  · rintro (rfl | ⟨member, other⟩)
    · exact List.mem_of_getElem? isThere
    · obtain ⟨j, isAt⟩ := List.mem_iff_getElem?.mp member
      have apart : i ≠ j := by
        rintro rfl
        obtain ⟨z, isZ, isKey⟩ := indexed.at_position found
        rw [isAt] at isZ
        cases isZ
        exact other isKey
      exact List.mem_of_getElem? ((List.getElem?_set_ne apart).trans isAt)

theorem nil : Indexed key [] (fun _ => none) := fun _ _ => ⟨nofun, nofun⟩

theorem nodup (indexed : Indexed key xs index) : (xs.map key).Nodup := by
  apply List.nodup_iff_getElem?_ne_getElem?.mpr
  intro i j less within same
  rw [List.length_map] at within
  have isAt := List.getElem?_eq_getElem (show i < xs.length by omega)
  rw [List.getElem?_map, List.getElem?_map, isAt, Option.map_some] at same
  have first := indexed.of_getElem isAt
  rw [(indexed _ j).mpr same.symm] at first
  have := Option.some.inj first
  omega

theorem set (indexed : Indexed key xs index) (found : index (key x) = some i) :
    Indexed key (xs.set i x) index := by
  intro k j
  rw [indexed k j, List.getElem?_set]
  split
  next same =>
    obtain ⟨y, isAt, isKey⟩ := indexed.at_position found
    rw [← same, isAt, if_pos (indexed.lt_length found), Option.map_some, Option.map_some, isKey]
  next => rfl

theorem ne_position {k' : κ} {j : Nat} (indexed : Indexed key xs index) (found : index k = some i)
    (other : k' ≠ k) (isAt : index k' = some j) : j ≠ i := by
  rintro rfl
  rw [indexed] at found isAt
  exact other (Option.some.inj (isAt.symm.trans found))

end Indexed

variable [DecidableEq κ]

def lower : List ε → (κ → Option Nat) → Option (κ → Option Nat)
  | [], index => some index
  | x :: xs, index =>
    match index (key x) with
    | some (n + 1) => lower xs (Function.update index (key x) (some n))
    | _ => none

def without (index : κ → Option Nat) (k : κ) (i : Nat) : κ → Option Nat := fun k' =>
  if k' = k then none else (index k').map (fun j => if i < j then j - 1 else j)

namespace Indexed

variable {key} {xs : List ε} {index : κ → Option Nat} {k : κ} {i : Nat} {x : ε}

theorem push (indexed : Indexed key xs index) (new : index (key x) = none) :
    Indexed key (xs ++ [x]) (Function.update index (key x) (some xs.length)) := by
  intro k i
  by_cases same : k = key x
  · rw [same, Function.update_self, Option.some.injEq]
    constructor
    · rintro rfl
      rw [List.getElem?_concat_length]
      rfl
    · intro isAt
      by_contra other
      by_cases before : i < xs.length
      · rw [List.getElem?_append_left before, ← indexed, new] at isAt
        cases isAt
      · rw [List.getElem?_eq_none (by rw [List.length_append, List.length_singleton]; omega)] at isAt
        cases isAt
  · rw [Function.update_of_ne same, indexed k i]
    by_cases before : i < xs.length
    · rw [List.getElem?_append_left before]
    · rw [List.getElem?_eq_none (Nat.le_of_not_lt before),
        List.getElem?_append_right (Nat.le_of_not_lt before)]
      cases i - xs.length with
      | zero => exact ⟨nofun, fun isAt => absurd (Option.some.inj isAt).symm same⟩
      | succ n => exact ⟨nofun, nofun⟩

theorem eraseIdx (indexed : Indexed key xs index) (found : index k = some i) :
    Indexed key (xs.eraseIdx i) (without index k i) := by
  intro k' j
  rw [List.getElem?_eraseIdx]
  unfold without
  by_cases same : k' = k
  · rw [if_pos same, same]
    refine ⟨nofun, fun isAt => ?_⟩
    split at isAt <;>
    · have := Option.some.inj (((indexed k _).mpr isAt).symm.trans found)
      omega
  rw [if_neg same, Option.map_eq_some_iff]
  constructor
  · rintro ⟨n, isAt, rfl⟩
    have apart := indexed.ne_position found same isAt
    by_cases after : i < n
    · rw [if_pos after, if_neg (by omega), show n - 1 + 1 = n by omega]
      exact (indexed _ _).mp isAt
    · rw [if_neg after, if_pos (by omega)]
      exact (indexed _ _).mp isAt
  · intro isAt
    split at isAt
    next before => exact ⟨j, (indexed _ _).mpr isAt, if_neg (by omega)⟩
    next after =>
      have apart := indexed.ne_position found same ((indexed _ _).mpr isAt)
      exact ⟨j + 1, (indexed _ _).mpr isAt, if_pos (by omega)⟩

theorem lower_eq : ∀ (ys : List ε) (index : κ → Option Nat), (ys.map key).Nodup →
    (∀ y ∈ ys, ∃ n, index (key y) = some (n + 1)) →
      lower key ys index = some (fun k =>
        if k ∈ ys.map key then (index k).map (· - 1) else index k)
  | [], _, _, _ => by simp [lower]
  | y :: ys, index, nodup, positive => by
    obtain ⟨n, isAt⟩ := positive y List.mem_cons_self
    obtain ⟨apart, nodup⟩ := List.nodup_cons.mp nodup
    unfold lower
    simp only [isAt]
    rw [lower_eq ys _ nodup]
    · congr 1
      funext k
      by_cases same : k = key y
      · simp [same, apart, isAt]
      · simp [same, Function.update_of_ne]
    · intro z member
      rw [Function.update_of_ne (fun same => apart (by
        rw [← same]
        exact List.mem_map_of_mem member))]
      exact positive z (List.mem_cons_of_mem _ member)

theorem lower_drop (indexed : Indexed key xs index) (found : index k = some i) :
    lower key ((xs.eraseIdx i).drop i) (Function.update index k none) =
      some (without index k i) := by
  have rest : (xs.eraseIdx i).drop i = xs.drop (i + 1) := by
    rw [List.eraseIdx_eq_take_drop_succ]
    exact List.drop_left' (List.length_take_of_le (Nat.le_of_lt (indexed.lt_length found)))
  rw [rest]
  have later (k' : κ) : k' ∈ (xs.drop (i + 1)).map key ↔ ∃ j, i < j ∧ index k' = some j := by
    rw [List.mem_iff_getElem?]
    constructor
    · rintro ⟨j, isAt⟩
      rw [List.getElem?_map, List.getElem?_drop] at isAt
      exact ⟨i + 1 + j, by omega, (indexed _ _).mpr isAt⟩
    · rintro ⟨j, after, isAt⟩
      refine ⟨j - (i + 1), ?_⟩
      rw [List.getElem?_map, List.getElem?_drop, show i + 1 + (j - (i + 1)) = j by omega]
      exact (indexed _ _).mp isAt
  have apart {k' : κ} (member : k' ∈ (xs.drop (i + 1)).map key) : k' ≠ k := by
    rintro rfl
    obtain ⟨j, after, isAt⟩ := (later _).mp member
    have := Option.some.inj (isAt.symm.trans found)
    omega
  rw [lower_eq]
  · congr 1
    funext k'
    unfold without
    by_cases same : k' = k
    · rw [same, if_pos rfl, Function.update_self, if_neg (fun member => apart member rfl)]
    rw [if_neg same, Function.update_of_ne same]
    cases isAt : index k' with
    | none => split <;> rfl
    | some j =>
      by_cases after : i < j
      · rw [if_pos ((later _).mpr ⟨j, after, isAt⟩), Option.map_some, Option.map_some, if_pos after]
      · rw [if_neg, Option.map_some, if_neg after]
        intro member
        obtain ⟨j', after', isAt'⟩ := (later _).mp member
        have := Option.some.inj (isAt.symm.trans isAt')
        omega
  · rw [List.map_drop]
    exact indexed.nodup.sublist (List.drop_sublist _ _)
  · intro y member
    have isKey := List.mem_map_of_mem (f := key) member
    obtain ⟨j, after, isAt⟩ := (later _).mp isKey
    rw [Function.update_of_ne (apart isKey)]
    exact ⟨j - 1, by rw [isAt, show j - 1 + 1 = j by omega]⟩

theorem eraseIdx_eq_filter (indexed : Indexed key xs index) (found : index k = some i) :
    xs.eraseIdx i = xs.filter (fun x => key x ≠ k) := by
  have elsewhere {j : Nat} {y : ε} (other : j ≠ i) (isAt : xs[j]? = some y) : key y ≠ k := by
    rintro rfl
    exact other (Option.some.inj ((indexed.of_getElem isAt).symm.trans found))
  have isThere : (xs[i]?).map key = some k := (indexed k i).mp found
  clear found indexed
  induction xs generalizing i with
  | nil => cases isThere
  | cons y ys ih =>
    cases i with
    | zero =>
      have isKey : key y = k := Option.some.inj isThere
      have kept : ys.filter (fun x => key x ≠ k) = ys := by
        apply List.filter_eq_self.mpr
        intro z member
        obtain ⟨j, isAt⟩ := List.mem_iff_getElem?.mp member
        exact decide_eq_true (elsewhere (j := j + 1) (by omega) isAt)
      rw [List.eraseIdx_cons_zero, List.filter_cons_of_neg (by simp [isKey]), kept]
    | succ i =>
      have isKept : key y ≠ k := elsewhere (j := 0) (by omega) rfl
      rw [List.eraseIdx_cons_succ, List.filter_cons_of_pos (by simp [isKept])]
      congr 1
      apply ih (fun {j} {z} other isAt => elsewhere (j := j + 1) (by omega) isAt)
      exact isThere

theorem swap {last : ε} (indexed : Indexed key (xs ++ [last]) index) (found : index k = some i)
    (before : i < xs.length) :
    Indexed key (xs.set i last)
      (Function.update (Function.update index k none) (key last) (some i)) := by
  have isLast : index (key last) = some xs.length := indexed.of_getElem List.getElem?_concat_length
  have apart : k ≠ key last := by
    rintro rfl
    have := Option.some.inj (isLast.symm.trans found)
    omega
  intro k' j
  rw [List.getElem?_set]
  by_cases moved : k' = key last
  · rw [moved, Function.update_self, Option.some.injEq]
    split
    next same => exact ⟨fun _ => rfl, fun _ => same⟩
    next other =>
      refine ⟨fun same => absurd same other, fun isAt => ?_⟩
      obtain ⟨y, isThere, isKey⟩ := Option.map_eq_some_iff.mp isAt
      have within := (List.getElem?_eq_some_iff.mp isThere).1
      have := indexed.of_getElem ((List.getElem?_append_left within).trans isThere)
      rw [isKey, isLast, Option.some.injEq] at this
      omega
  rw [Function.update_of_ne moved]
  have elsewhere (other : i ≠ j) : index k' = some j ↔ xs[j]?.map key = some k' := by
    rw [indexed]
    by_cases within : j < xs.length
    · rw [List.getElem?_append_left within]
    · rw [List.getElem?_eq_none (Nat.le_of_not_lt within),
        List.getElem?_append_right (Nat.le_of_not_lt within)]
      cases j - xs.length with
      | zero => exact ⟨fun isAt => absurd (Option.some.inj isAt).symm moved, nofun⟩
      | succ n => exact ⟨nofun, nofun⟩
  by_cases same : k' = k
  · rw [same, Function.update_self]
    refine ⟨nofun, fun isAt => ?_⟩
    split at isAt
    next => exact absurd (Option.some.inj isAt).symm apart
    next other =>
      rw [same] at elsewhere
      have := Option.some.inj (((elsewhere other).mpr isAt).symm.trans found)
      omega
  · rw [Function.update_of_ne same]
    split
    next isPosition =>
      rw [← isPosition]
      exact ⟨fun isAt => absurd rfl (indexed.ne_position found same isAt),
        fun isAt => absurd (Option.some.inj isAt).symm moved⟩
    next other => exact elsewhere other

theorem dropLast {last : ε} (indexed : Indexed key (xs ++ [last]) index) :
    Indexed key xs (Function.update index (key last) none) := by
  have isLast : index (key last) = some xs.length := indexed.of_getElem List.getElem?_concat_length
  have erased := indexed.eraseIdx isLast
  rw [List.eraseIdx_append_of_length_le (Nat.le_refl _), Nat.sub_self, List.eraseIdx_cons_zero,
    List.append_nil] at erased
  intro k j
  rw [← erased k j]
  unfold without
  by_cases same : k = key last
  · rw [same, Function.update_self, if_pos rfl]
  · rw [Function.update_of_ne same, if_neg same]
    cases isAt : index k with
    | none => rfl
    | some n =>
      have within := indexed.lt_length isAt
      rw [List.length_append, List.length_singleton] at within
      rw [Option.map_some, if_neg (by omega)]

end Indexed

end NoidaDb.Lib
