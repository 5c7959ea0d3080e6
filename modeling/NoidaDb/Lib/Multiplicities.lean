/-
How many copies of an item a list has, where equality is a test that may only be transitive on
some items.

The loops here keep the items of one list that find, or do not find, an equal one in a pool whose
entries may each be used once.
-/

import Mathlib.Data.List.Basic

namespace NoidaDb.Lib

variable {α : Type}

structure EqualityOn (same : α → α → Bool) (S : α → Prop) : Prop where
  refl : ∀ a, same a a = true
  symm : ∀ {a b}, same a b = true → same b a = true
  trans : ∀ {a b c}, S a → S b → S c → same a b = true → same b c = true → same a c = true

variable {same : α → α → Bool} {S : α → Prop}

variable {a b : α}

theorem EqualityOn.congr (equality : EqualityOn same S) (isA : S a) (isB : S b)
    (equal : same a b = true) {c : α} (isC : S c) : same a c = same b c := by
  rw [Bool.eq_iff_iff]
  constructor
  · exact equality.trans isB isA isC (equality.symm equal)
  · exact equality.trans isA isB isC equal

theorem EqualityOn.comm (equality : EqualityOn same S) (a b : α) : same a b = same b a := by
  rw [Bool.eq_iff_iff]
  exact ⟨equality.symm, equality.symm⟩

def copies (same : α → α → Bool) (a : α) (items : List α) : Nat := items.countP (same a)

@[simp] theorem copies_nil (a : α) : copies same a [] = 0 := rfl

theorem copies_cons (a b : α) (items : List α) :
    copies same a (b :: items) = copies same a items + if same a b = true then 1 else 0 :=
  List.countP_cons

@[simp] theorem copies_append (a : α) (items others : List α) :
    copies same a (items ++ others) = copies same a items + copies same a others :=
  List.countP_append

theorem copies_perm {items others : List α} (perm : items.Perm others) :
    copies same a items = copies same a others :=
  perm.countP_eq _

theorem copies_pos {items : List α} : 0 < copies same a items ↔ ∃ b, b ∈ items ∧ same a b = true :=
  List.countP_pos_iff

theorem copies_congr (equality : EqualityOn same S) (isA : S a) (isB : S b)
    (equal : same a b = true) {items : List α} (inside : ∀ x ∈ items, S x) :
    copies same a items = copies same b items := by
  apply List.countP_congr
  intro c member
  rw [equality.congr isA isB equal (inside c member)]

/-- Items of which none occurs twice are no more than those that have an equal of each. -/
theorem length_le_of_covered (equality : EqualityOn same S) {items others : List α}
    (inItems : ∀ x ∈ items, S x) (inOthers : ∀ x ∈ others, S x)
    (once : ∀ x, S x → copies same x items ≤ 1)
    (covered : ∀ x ∈ items, 0 < copies same x others) : items.length ≤ others.length := by
  induction others generalizing items with
  | nil =>
    cases items with
    | nil => exact Nat.le_refl 0
    | cons x rest => exact (Nat.lt_irrefl 0 (covered x List.mem_cons_self)).elim
  | cons y others ih =>
    obtain ⟨isY, inOthers⟩ := List.forall_mem_cons.mp inOthers
    have fewer : (items.filter (fun x => !same y x)).length ≤ others.length := by
      apply ih
      · exact fun x member => inItems x (List.mem_of_mem_filter member)
      · exact inOthers
      · intro x isX
        exact Nat.le_trans (List.filter_sublist.countP_le) (once x isX)
      · intro x member
        obtain ⟨inItems, different⟩ := List.mem_filter.mp member
        have found := covered x inItems
        rw [Bool.not_eq_true', equality.comm] at different
        rwa [copies_cons, different, if_neg Bool.false_ne_true, Nat.add_zero] at found
    have here := once y isY
    have split : items.length = copies same y items + (items.filter (fun x => !same y x)).length := by
      rw [copies, List.countP_eq_length_filter]
      exact List.length_eq_length_filter_add (same y)
    rw [List.length_cons]
    omega

/-- The items that no earlier one and none of `out` equals, after `out`. -/
def distinct (same : α → α → Bool) : List α → List α → List α
  | out, [] => out
  | out, a :: rest =>
    if out.any (fun b => same b a) then distinct same out rest
    else distinct same (out ++ [a]) rest

theorem copies_distinct (equality : EqualityOn same S) (isA : S a) {out items : List α}
    (inOut : ∀ x ∈ out, S x) (inItems : ∀ x ∈ items, S x) :
    copies same a (distinct same out items) =
      if 0 < copies same a out then copies same a out
      else if 0 < copies same a items then 1 else 0 := by
  induction items generalizing out with
  | nil =>
    unfold distinct
    split
    · rfl
    · rw [copies_nil, if_neg (Nat.lt_irrefl 0)]
      omega
  | cons b rest ih =>
    unfold distinct
    obtain ⟨isB, inRest⟩ := List.forall_mem_cons.mp inItems
    by_cases present : out.any (fun c => same c b) = true
    · rw [if_pos present, ih inOut inRest, copies_cons]
      by_cases equal : same a b = true
      · -- An item that equals `b` has a copy already.
        have found : 0 < copies same a out := by
          obtain ⟨c, member, isEqual⟩ := List.any_eq_true.mp present
          exact copies_pos.mpr ⟨c, member,
            equality.trans isA isB (inOut c member) equal (equality.symm isEqual)⟩
        rw [if_pos found, if_pos found]
      · rw [if_neg equal, Nat.add_zero]
    · have inBoth : ∀ x ∈ out ++ [b], S x := by
        intro x member
        rcases List.mem_append.mp member with earlier | last
        · exact inOut x earlier
        · rwa [List.mem_singleton.mp last]
      rw [if_neg present, ih inBoth inRest, copies_append, copies_cons, copies_cons, copies_nil]
      by_cases equal : same a b = true
      · have absent : copies same a out = 0 := by
          apply Nat.eq_zero_of_not_pos
          intro found
          obtain ⟨c, member, isEqual⟩ := copies_pos.mp found
          exact present (List.any_eq_true.mpr
            ⟨c, member, equality.trans (inOut c member) isA isB (equality.symm isEqual) equal⟩)
        simp [absent, equal]
      · simp [equal]

theorem copies_distinct_nil (equality : EqualityOn same S) (isA : S a) {items : List α}
    (inside : ∀ x ∈ items, S x) :
    copies same a (distinct same [] items) = if 0 < copies same a items then 1 else 0 := by
  rw [copies_distinct equality isA (by simp) inside, copies_nil, if_neg (Nat.lt_irrefl 0)]

theorem mem_distinct {out items : List α} (member : a ∈ distinct same out items) :
    a ∈ out ∨ a ∈ items := by
  induction items generalizing out with
  | nil => exact Or.inl member
  | cons b rest ih =>
    unfold distinct at member
    split at member
    · exact (ih member).imp_right (List.mem_cons_of_mem b)
    · rcases ih member with inOut | inRest
      · rcases List.mem_append.mp inOut with earlier | last
        · exact Or.inl earlier
        · exact Or.inr (List.mem_cons.mpr (Or.inl (List.mem_singleton.mp last)))
      · exact Or.inr (List.mem_cons_of_mem b inRest)

theorem mem_distinct_of_out {out : List α} (member : a ∈ out) (items : List α) :
    a ∈ distinct same out items := by
  induction items generalizing out with
  | nil => exact member
  | cons b rest ih =>
    unfold distinct
    split
    · exact ih member
    · exact ih (List.mem_append_left _ member)

theorem exists_distinct (refl : ∀ a, same a a = true) {out items : List α} (member : a ∈ items) :
    ∃ b ∈ distinct same out items, same b a = true := by
  induction items generalizing out with
  | nil => cases member
  | cons b rest ih =>
    unfold distinct
    rcases List.mem_cons.mp member with isFirst | inRest
    · subst isFirst
      split
      next present =>
        obtain ⟨c, isOut, equal⟩ := List.any_eq_true.mp present
        exact ⟨c, mem_distinct_of_out isOut rest, equal⟩
      · exact ⟨a, mem_distinct_of_out (List.mem_append_right out List.mem_cons_self) rest, refl a⟩
    · split
      · exact ih inRest
      · exact ih inRest

def useFirst (same : α → α → Bool) (a : α) : List (α × Bool) → Option (List (α × Bool))
  | [] => none
  | (b, used) :: rest =>
    if !used && same b a then some ((b, true) :: rest)
    else (useFirst same a rest).map ((b, used) :: ·)

def unused (same : α → α → Bool) (a : α) (pool : List (α × Bool)) : Nat :=
  pool.countP (fun entry => !entry.2 && same entry.1 a)

theorem unused_cons (a b : α) (used : Bool) (rest : List (α × Bool)) :
    unused same a ((b, used) :: rest) =
      unused same a rest + if (!used && same b a) = true then 1 else 0 :=
  List.countP_cons

theorem useFirst_none {pool : List (α × Bool)} (none' : useFirst same a pool = none) :
    unused same a pool = 0 := by
  induction pool with
  | nil => rfl
  | cons entry rest ih =>
    obtain ⟨b, used⟩ := entry
    unfold useFirst at none'
    split at none'
    · cases none'
    next missed =>
      rw [unused_cons, if_neg missed, ih (Option.map_eq_none_iff.mp none')]

theorem useFirst_pool {pool pool' : List (α × Bool)} (found : useFirst same a pool = some pool') :
    pool'.map Prod.fst = pool.map Prod.fst := by
  induction pool generalizing pool' with
  | nil => cases found
  | cons entry rest ih =>
    obtain ⟨b, used⟩ := entry
    unfold useFirst at found
    split at found
    · cases found
      rfl
    · obtain ⟨rest', later, rfl⟩ := Option.map_eq_some_iff.mp found
      simp [ih later]

theorem useFirst_some (equality : EqualityOn same S) (isA : S a) {pool pool' : List (α × Bool)}
    (inPool : ∀ x ∈ pool.map Prod.fst, S x) (found : useFirst same a pool = some pool') {c : α}
    (isC : S c) :
    unused same c pool = unused same c pool' + if same c a = true then 1 else 0 := by
  induction pool generalizing pool' with
  | nil => cases found
  | cons entry rest ih =>
    obtain ⟨b, used⟩ := entry
    obtain ⟨isB, inRest⟩ := List.forall_mem_cons.mp inPool
    unfold useFirst at found
    split at found
    next hit =>
      cases found
      simp only [Bool.and_eq_true, Bool.not_eq_true'] at hit
      rw [unused_cons, unused_cons, hit.1]
      simp [equality.congr isB isA hit.2 isC, equality.comm a c]
    · obtain ⟨rest', later, rfl⟩ := Option.map_eq_some_iff.mp found
      rw [unused_cons, unused_cons, ih inRest later]
      omega

theorem unused_congr (equality : EqualityOn same S) (isA : S a) (isB : S b)
    (equal : same a b = true) {pool : List (α × Bool)} (inPool : ∀ x ∈ pool.map Prod.fst, S x) :
    unused same a pool = unused same b pool := by
  apply List.countP_congr
  intro entry member
  rw [equality.comm entry.1 a, equality.comm entry.1 b,
    equality.congr isA isB equal (inPool _ (List.mem_map_of_mem member))]

theorem unused_fresh (equality : EqualityOn same S) (a : α) (items : List α) :
    unused same a (items.map (fun b => (b, false))) = copies same a items := by
  unfold unused copies
  rw [List.countP_map]
  apply List.countP_congr
  intro b _
  simp [equality.comm b a]

/-- The items that find an equal entry, which each uses up if `once`. -/
def matched (same : α → α → Bool) (once : Bool) : List (α × Bool) → List α → List α
  | _, [] => []
  | pool, a :: rest =>
    match useFirst same a pool with
    | some pool' => a :: matched same once (if once then pool' else pool) rest
    | none => matched same once pool rest

def unmatched (same : α → α → Bool) (once : Bool) : List (α × Bool) → List α → List α
  | _, [] => []
  | pool, a :: rest =>
    match useFirst same a pool with
    | some pool' => unmatched same once (if once then pool' else pool) rest
    | none => a :: unmatched same once pool rest

theorem mem_matched {once : Bool} {pool : List (α × Bool)} {items : List α}
    (member : a ∈ matched same once pool items) : a ∈ items := by
  induction items generalizing pool with
  | nil => cases member
  | cons b rest ih =>
    unfold matched at member
    split at member
    · rcases List.mem_cons.mp member with first | later
      · exact List.mem_cons.mpr (Or.inl first)
      · exact List.mem_cons_of_mem b (ih later)
    · exact List.mem_cons_of_mem b (ih member)

theorem mem_unmatched {once : Bool} {pool : List (α × Bool)} {items : List α}
    (member : a ∈ unmatched same once pool items) : a ∈ items := by
  induction items generalizing pool with
  | nil => cases member
  | cons b rest ih =>
    unfold unmatched at member
    split at member
    · exact List.mem_cons_of_mem b (ih member)
    · rcases List.mem_cons.mp member with first | later
      · exact List.mem_cons.mpr (Or.inl first)
      · exact List.mem_cons_of_mem b (ih later)

section Matching

variable (equality : EqualityOn same S) (isA : S a)

include equality isA

theorem copies_matched_once {pool : List (α × Bool)} (inPool : ∀ x ∈ pool.map Prod.fst, S x)
    {items : List α} (inItems : ∀ x ∈ items, S x) :
    copies same a (matched same true pool items) = min (copies same a items) (unused same a pool) := by
  induction items generalizing pool with
  | nil => simp [matched]
  | cons b rest ih =>
    unfold matched
    obtain ⟨isB, inRest⟩ := List.forall_mem_cons.mp inItems
    cases found : useFirst same b pool with
    | none =>
      have none' := useFirst_none found
      rw [ih inPool inRest, copies_cons]
      split
      next equal =>
        rw [unused_congr equality isA isB equal inPool, none', Nat.min_zero, Nat.min_zero]
      · rfl
    | some pool' =>
      have used := useFirst_some equality isB inPool found isA
      show copies same a (b :: matched same true pool' rest) = _
      rw [copies_cons, copies_cons, ih (useFirst_pool found ▸ inPool) inRest, used]
      split <;> omega

theorem copies_unmatched_once {pool : List (α × Bool)} (inPool : ∀ x ∈ pool.map Prod.fst, S x)
    {items : List α} (inItems : ∀ x ∈ items, S x) :
    copies same a (unmatched same true pool items) = copies same a items - unused same a pool := by
  induction items generalizing pool with
  | nil => simp [unmatched]
  | cons b rest ih =>
    unfold unmatched
    obtain ⟨isB, inRest⟩ := List.forall_mem_cons.mp inItems
    cases found : useFirst same b pool with
    | none =>
      have none' := useFirst_none found
      rw [copies_cons, ih inPool inRest, copies_cons]
      split
      next equal =>
        rw [unused_congr equality isA isB equal inPool, none', Nat.sub_zero, Nat.sub_zero]
      · rfl
    | some pool' =>
      have used := useFirst_some equality isB inPool found isA
      show copies same a (unmatched same true pool' rest) = _
      rw [copies_cons, ih (useFirst_pool found ▸ inPool) inRest, used]
      split <;> omega

variable {pool : List (α × Bool)} (inPool : ∀ x ∈ pool.map Prod.fst, S x)

include inPool

theorem copies_matched {items : List α} (inItems : ∀ x ∈ items, S x) :
    copies same a (matched same false pool items) =
      if 0 < unused same a pool then copies same a items else 0 := by
  induction items with
  | nil => simp [matched]
  | cons b rest ih =>
    unfold matched
    obtain ⟨isB, inRest⟩ := List.forall_mem_cons.mp inItems
    cases found : useFirst same b pool with
    | none =>
      have none' := useFirst_none found
      rw [ih inRest, copies_cons]
      by_cases equal : same a b = true
      · rw [unused_congr equality isA isB equal inPool, none']
        simp
      · rw [if_neg equal, Nat.add_zero]
    | some pool' =>
      show copies same a (b :: matched same false pool rest) = _
      rw [copies_cons, copies_cons, ih inRest]
      by_cases equal : same a b = true
      · have some' : 0 < unused same a pool := by
          have used := useFirst_some equality isB inPool found isA
          rw [if_pos equal] at used
          omega
        rw [if_pos some', if_pos some']
      · rw [if_neg equal, Nat.add_zero, Nat.add_zero]

theorem copies_unmatched {items : List α} (inItems : ∀ x ∈ items, S x) :
    copies same a (unmatched same false pool items) =
      if 0 < unused same a pool then 0 else copies same a items := by
  induction items with
  | nil => simp [unmatched]
  | cons b rest ih =>
    unfold unmatched
    obtain ⟨isB, inRest⟩ := List.forall_mem_cons.mp inItems
    cases found : useFirst same b pool with
    | none =>
      have none' := useFirst_none found
      rw [copies_cons, copies_cons, ih inRest]
      by_cases equal : same a b = true
      · rw [unused_congr equality isA isB equal inPool, none']
        simp
      · rw [if_neg equal, Nat.add_zero, Nat.add_zero]
    | some pool' =>
      show copies same a (unmatched same false pool rest) = _
      rw [copies_cons, ih inRest]
      by_cases equal : same a b = true
      · have some' : 0 < unused same a pool := by
          have used := useFirst_some equality isB inPool found isA
          rw [if_pos equal] at used
          omega
        rw [if_pos some', if_pos some']
      · rw [if_neg equal, Nat.add_zero]

end Matching

end NoidaDb.Lib
