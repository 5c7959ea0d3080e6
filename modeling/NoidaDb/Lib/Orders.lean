/-
Comparisons that order a set of values.

A comparison need only be an order on the values of one kind.  What it answers on others does
not matter.
-/

import Mathlib.Data.List.Forall2
import Mathlib.Order.Compare
import Mathlib.Order.Std

namespace NoidaDb.Lib

/-- On the values in `S` the comparison is total, transitive and oriented. -/
def PreorderOn {α : Type} (cmp : α → α → Ordering) (S : α → Prop) : Prop :=
  Std.TransCmp (fun a b : { x // S x } => cmp a.val b.val)

namespace PreorderOn

variable {α β : Type} {cmp : α → α → Ordering} {S : α → Prop}

variable {a : α}

theorem swap (order : PreorderOn cmp S) {b : α} (isA : S a) (isB : S b) :
    cmp a b = (cmp b a).swap :=
  order.eq_swap (a := ⟨a, isA⟩) (b := ⟨b, isB⟩)

theorem trans (order : PreorderOn cmp S) {b c : α} (isA : S a) (isB : S b) (isC : S c)
    (first : (cmp a b).isLE) (second : (cmp b c).isLE) : (cmp a c).isLE :=
  order.isLE_trans (a := ⟨a, isA⟩) (b := ⟨b, isB⟩) (c := ⟨c, isC⟩) first second

theorem eq_trans (order : PreorderOn cmp S) {b c : α} (isA : S a) (isB : S b) (isC : S c)
    (first : cmp a b = .eq) (second : cmp b c = .eq) : cmp a c = .eq := by
  have ordered : Std.TransCmp (fun a b : { x // S x } => cmp a.val b.val) := order
  exact ordered.eq_trans (a := ⟨a, isA⟩) (b := ⟨b, isB⟩) (c := ⟨c, isC⟩) first second

theorem intro (swap : ∀ a b, S a → S b → cmp a b = (cmp b a).swap)
    (trans : ∀ a b c, S a → S b → S c → (cmp a b).isLE → (cmp b c).isLE → (cmp a c).isLE) :
    PreorderOn cmp S where
  eq_swap := swap _ _ (Subtype.property _) (Subtype.property _)
  isLE_trans := trans _ _ _ (Subtype.property _) (Subtype.property _) (Subtype.property _)

theorem self (order : PreorderOn cmp S) (isA : S a) : cmp a a = .eq := by
  have swapped := order.swap isA isA
  cases result : cmp a a with
  | lt => simp [result] at swapped
  | eq => rfl
  | gt => simp [result] at swapped

theorem mono {T : α → Prop} (order : PreorderOn cmp T) (within : ∀ a, S a → T a) :
    PreorderOn cmp S :=
  intro (fun a b isA isB => order.swap (within a isA) (within b isB))
    (fun a b c isA isB isC => order.trans (within a isA) (within b isB) (within c isC))

theorem comap {cmp' : β → β → Ordering} {T : β → Prop} (order : PreorderOn cmp' T) (f : α → β)
    (maps : ∀ a, S a → T (f a)) (same : ∀ a b, S a → S b → cmp a b = cmp' (f a) (f b)) :
    PreorderOn cmp S := by
  apply intro
  · intro a b isA isB
    rw [same a b isA isB, same b a isB isA]
    exact order.swap (maps a isA) (maps b isB)
  · intro a b c isA isB isC first second
    rw [same a b isA isB] at first
    rw [same b c isB isC] at second
    rw [same a c isA isC]
    exact order.trans (maps a isA) (maps b isB) (maps c isC) first second

theorem of_cmp (cmp : α → α → Ordering) [Std.TransCmp cmp] : PreorderOn cmp (fun _ => True) :=
  intro (fun _ _ _ _ => Std.OrientedCmp.eq_swap) (fun _ _ _ _ _ _ => Std.TransCmp.isLE_trans)

theorem of_key (cmp' : β → β → Ordering) [Std.TransCmp cmp'] (f : α → β)
    (same : ∀ a b, S a → S b → cmp a b = cmp' (f a) (f b)) : PreorderOn cmp S :=
  (of_cmp cmp').comap f (fun _ _ => trivial) same

theorem andThen {cmp' : α → α → Ordering} (order : PreorderOn cmp S) (later : PreorderOn cmp' S) :
    PreorderOn (fun a b => (cmp a b).then (cmp' a b)) S := by
  have first : Std.TransCmp (fun a b : { x // S x } => cmp a.val b.val) := order
  have second : Std.TransCmp (fun a b : { x // S x } => cmp' a.val b.val) := later
  exact inferInstanceAs (Std.TransCmp (compareLex (fun a b : { x // S x } => cmp a.val b.val)
    (fun a b : { x // S x } => cmp' a.val b.val)))

theorem of_ranks (rank : α → Nat)
    (cross : ∀ a b, S a → S b → rank a ≠ rank b → cmp a b = compare (rank a) (rank b))
    (each : ∀ r, PreorderOn cmp (fun a => S a ∧ rank a = r)) : PreorderOn cmp S := by
  apply intro
  · intro a b isA isB
    by_cases same : rank a = rank b
    · exact (each (rank b)).swap ⟨isA, same⟩ ⟨isB, rfl⟩
    · rw [cross a b isA isB same, cross b a isB isA (Ne.symm same)]
      exact Std.OrientedOrd.eq_swap
  · intro a b c isA isB isC first second
    have ordered : ∀ x y, S x → S y → (cmp x y).isLE → rank x ≤ rank y := by
      intro x y isX isY isLE
      by_cases same : rank x = rank y
      · exact Nat.le_of_eq same
      · rw [cross x y isX isY same] at isLE
        exact Nat.isLE_compare.mp isLE
    have low := ordered a b isA isB first
    have high := ordered b c isB isC second
    by_cases same : rank a = rank c
    · exact (each (rank c)).trans ⟨isA, same⟩ ⟨isB, by omega⟩ ⟨isC, rfl⟩ first second
    · rw [cross a c isA isC same]
      exact Nat.isLE_compare.mpr (Nat.le_trans low high)

end PreorderOn

abbrev linearOrderOf {α : Type} [DecidableEq α] (cmp : α → α → Ordering) [Std.TransCmp cmp]
    [Std.LawfulEqCmp cmp] : LinearOrder α where
  le a b := (cmp a b).isLE
  lt a b := cmp a b = .lt
  le_refl _ := Std.ReflCmp.isLE_rfl
  le_trans _ _ _ := Std.TransCmp.isLE_trans
  lt_iff_le_not_ge a b := by
    have swapped : cmp b a = (cmp a b).swap := Std.OrientedCmp.eq_swap
    rw [swapped]
    cases cmp a b <;> decide
  le_antisymm _ _ first second :=
    Std.LawfulEqCmp.eq_of_compare (Std.OrientedCmp.isLE_antisymm first second)
  le_total a b := by
    have swapped : cmp b a = (cmp a b).swap := Std.OrientedCmp.eq_swap
    rw [swapped]
    cases cmp a b <;> decide
  toDecidableLE _ _ := inferInstanceAs (Decidable (_ = true))
  toDecidableEq := inferInstance

section Lists

variable {α : Type} (cmp : α → α → Ordering)

/-- The loop over two lists at once: the first difference, if one of them does not end
before it. -/
def firstDifference : List α → List α → Ordering
  | [], _ => .eq
  | _ :: _, [] => .eq
  | x :: xs, y :: ys =>
    match cmp x y with
    | .eq => firstDifference xs ys
    | o => o

theorem firstDifference_cons (x y : α) (xs ys : List α) :
    firstDifference cmp (x :: xs) (y :: ys) = (cmp x y).then (firstDifference cmp xs ys) := by
  rw [firstDifference]
  cases cmp x y <;> rfl

theorem firstDifference_length (xs ys : List α) :
    (firstDifference cmp xs ys).then (compare xs.length ys.length) = List.compareLex cmp xs ys := by
  induction xs generalizing ys with
  | nil =>
    cases ys with
    | nil => rfl
    | cons y ys => simp [firstDifference, List.compareLex_nil_cons, Nat.compare_eq_lt]
  | cons x xs ih =>
    cases ys with
    | nil => simp [firstDifference, List.compareLex_cons_nil, Nat.compare_eq_gt]
    | cons y ys =>
      rw [firstDifference_cons, List.compareLex_cons_cons, Ordering.then_assoc, ← ih]
      have lengths : compare (x :: xs).length (y :: ys).length = compare xs.length ys.length := by
        simp [compare, compareOfLessAndEq]
      rw [lengths]

theorem length_firstDifference (xs ys : List α) :
    (compare xs.length ys.length).then (firstDifference cmp xs ys) =
      (compare xs.length ys.length).then (List.compareLex cmp xs ys) := by
  rw [← firstDifference_length]
  cases result : compare xs.length ys.length with
  | lt => rfl
  | gt => rfl
  | eq => simp

theorem firstDifference_eq_iff (xs ys : List α) (sameLength : xs.length = ys.length) :
    firstDifference cmp xs ys = .eq ↔ List.Forall₂ (fun x y => cmp x y = .eq) xs ys := by
  induction xs generalizing ys with
  | nil =>
    obtain rfl := List.length_eq_zero_iff.mp sameLength.symm
    simp [firstDifference]
  | cons x xs ih =>
    cases ys with
    | nil => cases sameLength
    | cons y ys =>
      rw [firstDifference_cons, Ordering.then_eq_eq, List.forall₂_cons,
        ih ys (Nat.succ.inj sameLength)]

variable {cmp}

variable {S : α → Prop}

theorem compareLex_subtype (xs ys : List { x // S x }) :
    List.compareLex cmp (xs.map Subtype.val) (ys.map Subtype.val) =
      List.compareLex (fun a b : { x // S x } => cmp a.val b.val) xs ys := by
  induction xs generalizing ys with
  | nil =>
    cases ys with
    | nil => rfl
    | cons y ys => rfl
  | cons x xs ih =>
    cases ys with
    | nil => rfl
    | cons y ys =>
      rw [List.map_cons, List.map_cons, List.compareLex_cons_cons, List.compareLex_cons_cons, ih]

theorem exists_subtypes {xs : List α} (all : ∀ x ∈ xs, S x) :
    ∃ zs : List { x // S x }, xs = zs.map Subtype.val := by
  induction xs with
  | nil => exact ⟨[], rfl⟩
  | cons x xs ih =>
    obtain ⟨here, later⟩ := List.forall_mem_cons.mp all
    obtain ⟨zs, rfl⟩ := ih later
    exact ⟨⟨x, here⟩ :: zs, rfl⟩

theorem PreorderOn.lists (order : PreorderOn cmp S) :
    PreorderOn (List.compareLex cmp) (fun xs => ∀ x ∈ xs, S x) := by
  have onValues : Std.TransCmp (fun a b : { x // S x } => cmp a.val b.val) := order
  apply PreorderOn.intro
  · intro xs ys isXs isYs
    obtain ⟨us, rfl⟩ := exists_subtypes isXs
    obtain ⟨vs, rfl⟩ := exists_subtypes isYs
    rw [compareLex_subtype, compareLex_subtype]
    exact Std.OrientedCmp.eq_swap
  · intro xs ys zs isXs isYs isZs first second
    obtain ⟨us, rfl⟩ := exists_subtypes isXs
    obtain ⟨vs, rfl⟩ := exists_subtypes isYs
    obtain ⟨ws, rfl⟩ := exists_subtypes isZs
    rw [compareLex_subtype] at first second ⊢
    exact Std.TransCmp.isLE_trans first second

theorem PreorderOn.listsByLength (order : PreorderOn cmp S) :
    PreorderOn (fun xs ys => (compare xs.length ys.length).then (firstDifference cmp xs ys))
      (fun xs => ∀ x ∈ xs, S x) := by
  have lengths : PreorderOn (fun xs ys : List α => compare xs.length ys.length)
      (fun xs => ∀ x ∈ xs, S x) :=
    PreorderOn.of_key compare List.length (fun _ _ _ _ => rfl)
  exact (lengths.andThen order.lists).comap id (fun _ all => all)
    (fun xs ys _ _ => length_firstDifference cmp xs ys)

theorem PreorderOn.sorted {β : Type} (order : PreorderOn cmp S) (key : β → α) {items : List β}
    (all : ∀ b, b ∈ items → S (key b)) :
    (items.mergeSort (fun a b => cmp (key a) (key b) != .gt)).Pairwise
      (fun a b => (cmp (key a) (key b)).isLE) := by
  obtain ⟨zs, rfl⟩ := exists_subtypes all
  have mapped : (zs.mergeSort (fun a b => cmp (key a.val) (key b.val) != .gt)).map Subtype.val =
      (zs.map Subtype.val).mergeSort (fun a b => cmp (key a) (key b) != .gt) :=
    List.map_mergeSort (fun a _ b _ => rfl)
  have isLE (o : Ordering) : (o != .gt) = true ↔ o.isLE = true := by cases o <;> decide
  rw [← mapped, List.pairwise_map]
  have sorted : (zs.mergeSort (fun a b => cmp (key a.val) (key b.val) != .gt)).Pairwise
      (fun a b => (cmp (key a.val) (key b.val) != .gt) = true) := by
    apply List.pairwise_mergeSort
    · intro a b c first second
      rw [isLE] at first second ⊢
      exact order.trans a.property b.property c.property first second
    · intro a b
      rw [Bool.or_eq_true, isLE, isLE, order.swap b.property a.property]
      cases cmp (key a.val) (key b.val) <;> decide
  exact sorted.imp (fun le => (isLE _).mp le)

end Lists

end NoidaDb.Lib
