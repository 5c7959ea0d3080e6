/-
Positional updates of a list, and pairwise relations that survive them: a value is
written in place, many are, or rows are dropped.
-/

import Mathlib.Data.List.Forall2
import Mathlib.Data.List.Pairwise

namespace NoidaDb.Lib

variable {α : Type}

def setAll (items : List α) (updates : List (Nat × α)) : List α :=
  updates.foldl (fun current update => current.set update.1 update.2) items

@[simp] theorem setAll_nil (items : List α) : setAll items [] = items := rfl

@[simp] theorem setAll_cons (items : List α) (update : Nat × α) (rest : List (Nat × α)) :
    setAll items (update :: rest) = setAll (items.set update.1 update.2) rest := rfl

theorem setAll_getElem?_of_notMem (items : List α) (updates : List (Nat × α)) (position : Nat)
    (absent : position ∉ updates.map Prod.fst) :
    (setAll items updates)[position]? = items[position]? := by
  induction updates generalizing items with
  | nil => rfl
  | cons update rest ih =>
    rw [List.map_cons, List.mem_cons, not_or] at absent
    rw [setAll_cons, ih _ absent.2, List.getElem?_set_ne (Ne.symm absent.1)]

theorem setAll_getElem?_of_mem (items : List α) (updates : List (Nat × α)) (position : Nat)
    (value : α) (distinct : (updates.map Prod.fst).Nodup)
    (member : (position, value) ∈ updates) (within : position < items.length) :
    (setAll items updates)[position]? = some value := by
  induction updates generalizing items with
  | nil => cases member
  | cons update rest ih =>
    rw [List.map_cons, List.nodup_cons] at distinct
    rcases List.mem_cons.mp member with same | later
    · subst same
      rw [setAll_cons, setAll_getElem?_of_notMem _ _ _ distinct.1]
      simp [within]
    · exact ih (items.set update.1 update.2) distinct.2 later (by simpa using within)

theorem mem_setAll {items : List α} {updates : List (Nat × α)} {value : α}
    (member : value ∈ setAll items updates) :
    value ∈ items ∨ ∃ position, (position, value) ∈ updates := by
  induction updates generalizing items with
  | nil => exact Or.inl member
  | cons update rest ih =>
    rcases ih member with earlier | ⟨position, found⟩
    · rcases List.mem_or_eq_of_mem_set earlier with kept | same
      · exact Or.inl kept
      · refine Or.inr ⟨update.1, ?_⟩
        rw [same]
        exact List.mem_cons_self
    · exact Or.inr ⟨position, List.mem_cons_of_mem update found⟩

variable {relation : α → α → Prop}

theorem pairwise_iff_getElem? (symmetric : ∀ a b, relation a b → relation b a)
    (items : List α) :
    items.Pairwise relation ↔
      ∀ (i j : Nat) (a b : α), i ≠ j → items[i]? = some a → items[j]? = some b → relation a b := by
  rw [List.pairwise_iff_getElem]
  constructor
  · intro related i j a b different atI atJ
    obtain ⟨iWithin, rfl⟩ := List.getElem?_eq_some_iff.mp atI
    obtain ⟨jWithin, rfl⟩ := List.getElem?_eq_some_iff.mp atJ
    rcases Nat.lt_or_gt_of_ne different with before | after
    · exact related i j iWithin jWithin before
    · exact symmetric _ _ (related j i jWithin iWithin after)
  · intro related i j iWithin jWithin before
    exact related i j _ _ (Nat.ne_of_lt before)
      (List.getElem?_eq_getElem iWithin) (List.getElem?_eq_getElem jWithin)

theorem pairwise_set (symmetric : ∀ a b, relation a b → relation b a) {items : List α}
    (related : items.Pairwise relation) (position : Nat) (value : α)
    (fits : ∀ j b, j ≠ position → items[j]? = some b → relation value b) :
    (items.set position value).Pairwise relation := by
  rw [pairwise_iff_getElem? symmetric] at related ⊢
  intro i j a b different atI atJ
  by_cases iSame : i = position
  · subst iSame
    rw [List.getElem?_set_ne different] at atJ
    rw [List.getElem?_set_self'] at atI
    obtain ⟨old, _, same⟩ := Option.map_eq_some_iff.mp atI
    subst same
    exact fits j b (Ne.symm different) atJ
  · rw [List.getElem?_set_ne (Ne.symm iSame)] at atI
    by_cases jSame : j = position
    · subst jSame
      rw [List.getElem?_set_self'] at atJ
      obtain ⟨old, _, same⟩ := Option.map_eq_some_iff.mp atJ
      subst same
      exact symmetric _ _ (fits i a iSame atI)
    · rw [List.getElem?_set_ne (Ne.symm jSame)] at atJ
      exact related i j a b different atI atJ

theorem pairwise_setAll (symmetric : ∀ a b, relation a b → relation b a) {items : List α}
    {updates : List (Nat × α)} (distinct : (updates.map Prod.fst).Nodup)
    (within : ∀ update, update ∈ updates → update.1 < items.length)
    (related : items.Pairwise relation)
    (fitsOld : ∀ update, update ∈ updates → ∀ j b, j ≠ update.1 → items[j]? = some b →
      relation update.2 b)
    (fitsNew : ∀ a, a ∈ updates → ∀ b, b ∈ updates → a.1 ≠ b.1 → relation a.2 b.2) :
    (setAll items updates).Pairwise relation := by
  rw [pairwise_iff_getElem? symmetric] at related ⊢
  have written : ∀ i a, (setAll items updates)[i]? = some a →
      (i, a) ∈ updates ∨ (i ∉ updates.map Prod.fst ∧ items[i]? = some a) := by
    intro i a atI
    by_cases named : i ∈ updates.map Prod.fst
    · obtain ⟨update, member, same⟩ := List.mem_map.mp named
      subst same
      have value := setAll_getElem?_of_mem items updates update.1 update.2 distinct
        member (within update member)
      rw [value] at atI
      obtain rfl := Option.some.inj atI
      exact Or.inl member
    · rw [setAll_getElem?_of_notMem items updates i named] at atI
      exact Or.inr ⟨named, atI⟩
  intro i j a b different atI atJ
  rcases written i a atI with newI | ⟨_, oldI⟩
  · rcases written j b atJ with newJ | ⟨_, oldJ⟩
    · exact fitsNew (i, a) newI (j, b) newJ different
    · exact fitsOld (i, a) newI j b (Ne.symm different) oldJ
  · rcases written j b atJ with newJ | ⟨_, oldJ⟩
    · exact symmetric _ _ (fitsOld (j, b) newJ i a different oldI)
    · exact related i j a b different oldI oldJ

variable {replaces : α → α → Prop} {items' : List α}

theorem mem_of_sublistForall₂ {kept items : List α}
    (shrunk : List.SublistForall₂ replaces kept items) :
    ∀ a', a' ∈ kept → ∃ a, a ∈ items ∧ replaces a' a := by
  induction shrunk with
  | nil =>
    intro a' member
    cases member
  | @cons head' head rest' rest replaced _ ih =>
    intro a' member
    rcases List.mem_cons.mp member with same | later
    · subst same
      exact ⟨head, List.mem_cons_self, replaced⟩
    · obtain ⟨a, found, related⟩ := ih a' later
      exact ⟨a, List.mem_cons_of_mem head found, related⟩
  | @cons_right dropped rest' rest _ ih =>
    intro a' member
    obtain ⟨a, found, related⟩ := ih a' member
    exact ⟨a, List.mem_cons_of_mem dropped found, related⟩

theorem pairwise_of_sublistForall₂
    (equivalent : ∀ a a' b b', replaces a' a → replaces b' b → relation a b → relation a' b')
    {kept items : List α} (shrunk : List.SublistForall₂ replaces kept items)
    (related : items.Pairwise relation) : kept.Pairwise relation := by
  induction shrunk with
  | nil => exact List.Pairwise.nil
  | @cons head' head rest' rest replaced restShrunk ih =>
    rw [List.pairwise_cons] at related ⊢
    refine ⟨?_, ih related.2⟩
    intro b' member
    obtain ⟨b, bMember, bReplaced⟩ := mem_of_sublistForall₂ restShrunk b' member
    exact equivalent head head' b b' replaced bReplaced (related.1 b bMember)
  | cons_right _ ih =>
    rw [List.pairwise_cons] at related
    exact ih related.2

theorem sublistForall₂_filter (refl : ∀ a, replaces a a) (keep : α → Bool) (items : List α) :
    List.SublistForall₂ replaces (items.filter keep) items := by
  rw [List.sublistForall₂_iff]
  exact ⟨items.filter keep, List.forall₂_same.mpr (fun a _ => refl a), List.filter_sublist⟩

theorem forall₂_set_left {items : List α} (related : List.Forall₂ replaces items' items)
    (position : Nat) (value : α) (fits : ∀ old, items[position]? = some old → replaces value old) :
    List.Forall₂ replaces (items'.set position value) items := by
  induction related generalizing position with
  | nil => exact List.Forall₂.nil
  | @cons head' head rest' rest replaced restRelated ih =>
    cases position with
    | zero => exact List.Forall₂.cons (fits head rfl) restRelated
    | succ position => exact List.Forall₂.cons replaced (ih position fits)

theorem forall₂_getElem? {items : List α} (related : List.Forall₂ replaces items' items)
    (position : Nat) :
    (items'[position]? = none ∧ items[position]? = none) ∨
      ∃ a' a, items'[position]? = some a' ∧ items[position]? = some a ∧ replaces a' a := by
  induction related generalizing position with
  | nil => exact Or.inl ⟨rfl, rfl⟩
  | @cons head' head rest' rest replaced _ ih =>
    cases position with
    | zero => exact Or.inr ⟨head', head, rfl, rfl, replaced⟩
    | succ position => exact ih position

theorem forall₂_trans (trans : ∀ a b c, replaces a b → replaces b c → replaces a c)
    {first second third : List α} (left : List.Forall₂ replaces first second)
    (right : List.Forall₂ replaces second third) : List.Forall₂ replaces first third := by
  induction left generalizing third with
  | nil =>
    cases right
    exact List.Forall₂.nil
  | cons replaced _ ih =>
    cases right with
    | cons replacedNext restNext =>
      exact List.Forall₂.cons (trans _ _ _ replaced replacedNext) (ih restNext)

theorem sublistForall₂_trans (trans : ∀ a b c, replaces a b → replaces b c → replaces a c)
    {first second third : List α} (left : List.SublistForall₂ replaces first second)
    (right : List.SublistForall₂ replaces second third) :
    List.SublistForall₂ replaces first third := by
  have transitive : IsTrans α replaces := ⟨trans⟩
  exact List.SublistForall₂.is_trans.trans _ _ _ left right

theorem sublistForall₂_of_forall₂ {items : List α} (related : List.Forall₂ replaces items' items) :
    List.SublistForall₂ replaces items' items :=
  List.sublistForall₂_iff.mpr ⟨items, related, List.Sublist.refl items⟩

theorem forall₂_mem_right {β : Type} {related : β → α → Prop} {items' : List β} {items : List α}
    (all : List.Forall₂ related items' items) {a : α} (member : a ∈ items) :
    ∃ a', a' ∈ items' ∧ related a' a := by
  induction all with
  | nil => cases member
  | cons here later ih =>
    rcases List.mem_cons.mp member with rfl | inRest
    · exact ⟨_, List.mem_cons_self, here⟩
    · obtain ⟨a', member', isRelated⟩ := ih inRest
      exact ⟨a', List.mem_cons_of_mem _ member', isRelated⟩

end NoidaDb.Lib
