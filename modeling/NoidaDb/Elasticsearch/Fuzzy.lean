/-
Fuzzy terms: the edit distance, and the index terms that a fuzzy term stands for.
-/

import NoidaDb.Lib.Alignments
import NoidaDb.Lib.Tables
import Mathlib.Order.Bounds.Defs

namespace NoidaDb.Elasticsearch

open Lib

namespace Distance

variable (a b : List Char) (transpositions : Bool)

def cell (d : Table Nat) (i j : Nat) : Nat :=
  let cost := if a[i - 1]? ≠ b[j - 1]? then 1 else 0
  let least := min (min (d (i - 1) j + 1) (d i (j - 1) + 1)) (d (i - 1) (j - 1) + cost)
  if transpositions ∧ i > 1 ∧ j > 1 ∧ a[i - 1]? = b[j - 2]? ∧ a[i - 2]? = b[j - 1]? then
    min least (d (i - 2) (j - 2) + 1)
  else least

def border : Table Nat := ⟨fun i j => if i = 0 then j else if j = 0 then i else 0⟩

def table : Table Nat := Table.fill (cell a b transpositions) b.length a.length border

end Distance

def editDistance (a b : List Char) (transpositions : Bool) : Nat :=
  Distance.table a b transpositions a.length b.length

namespace Distance

variable {a b : List Char} {transpositions : Bool} {i j n : Nat}

theorem table_column : table a b transpositions i 0 = i := by
  unfold table
  rw [Table.fill_border (.inr rfl)]
  unfold border
  dsimp only
  split
  next isZero => exact isZero.symm
  next => rfl

theorem table_row : table a b transpositions 0 j = j := by
  unfold table
  rw [Table.fill_border (.inl rfl)]
  rfl

theorem cell_looksBack : Table.LooksBack (cell a b transpositions) := by
  intro t t' i j row column same
  have diagonal := same (i - 1) (j - 1) (.inl (by omega))
  have above := same (i - 1) j (.inl (by omega))
  have left := same i (j - 1) (.inr ⟨rfl, by omega⟩)
  have corner := same (i - 2) (j - 2) (.inl (by omega))
  unfold cell
  rw [diagonal, above, left, corner]

theorem table_cell (row : i < a.length) (column : j < b.length) :
    table a b transpositions (i + 1) (j + 1) =
      cell a b transpositions (table a b transpositions) (i + 1) (j + 1) :=
  Table.fill_cell cell_looksBack (by omega) (by omega) (by omega) (by omega)

theorem table_delete (row : i < a.length) (column : j ≤ b.length) :
    table a b transpositions (i + 1) j ≤ table a b transpositions i j + 1 := by
  cases j with
  | zero => exact Nat.le_of_eq (by rw [table_column, table_column])
  | succ j =>
    rw [table_cell row column]
    unfold cell
    rw [Nat.add_sub_cancel, Nat.add_sub_cancel]
    dsimp only
    split <;> omega

theorem table_insert (row : i ≤ a.length) (column : j < b.length) :
    table a b transpositions i (j + 1) ≤ table a b transpositions i j + 1 := by
  cases i with
  | zero => exact Nat.le_of_eq (by rw [table_row, table_row])
  | succ i =>
    rw [table_cell row column]
    unfold cell
    rw [Nat.add_sub_cancel, Nat.add_sub_cancel]
    dsimp only
    split <;> omega

theorem table_replace (row : i < a.length) (column : j < b.length) :
    table a b transpositions (i + 1) (j + 1) ≤
      table a b transpositions i j + if a[i]? ≠ b[j]? then 1 else 0 := by
  rw [table_cell row column]
  unfold cell
  rw [Nat.add_sub_cancel, Nat.add_sub_cancel]
  dsimp only
  split <;> omega

theorem table_swap (row : i + 1 < a.length) (column : j + 1 < b.length)
    (allowed : transpositions = true) (crossed : a[i + 1]? = b[j]? ∧ a[i]? = b[j + 1]?) :
    table a b transpositions (i + 1 + 1) (j + 1 + 1) ≤ table a b transpositions i j + 1 := by
  have swaps : transpositions = true ∧ i + 1 + 1 > 1 ∧ j + 1 + 1 > 1 ∧
      a[i + 1 + 1 - 1]? = b[j + 1 + 1 - 2]? ∧ a[i + 1 + 1 - 2]? = b[j + 1 + 1 - 1]? :=
    ⟨allowed, by omega, by omega, crossed.1, crossed.2⟩
  rw [table_cell row column]
  unfold cell
  dsimp only
  rw [if_pos swaps]
  exact Nat.min_le_right _ _

theorem of_take_eq {l front : List Char} {c : Char} (inside : i ≤ l.length)
    (same : front ++ [c] = l.take i) :
    ∃ k, i = k + 1 ∧ k < l.length ∧ front = l.take k ∧ l[k]? = some c := by
  cases i with
  | zero => exact absurd same (by simp)
  | succ k =>
    rw [List.take_add_one, List.getElem?_eq_getElem (by omega)] at same
    obtain ⟨rfl, last⟩ := List.append_inj' same rfl
    refine ⟨k, rfl, by omega, rfl, ?_⟩
    rw [List.getElem?_eq_getElem (by omega), (List.cons.inj last).1]

theorem le_of_align {front front' : List Char} (align : Align transpositions front front' n)
    (row : i ≤ a.length) (column : j ≤ b.length) (isFront : front = a.take i)
    (isFront' : front' = b.take j) : table a b transpositions i j ≤ n := by
  induction align generalizing i j with
  | nil =>
    have first := congrArg List.length isFront
    have second := congrArg List.length isFront'
    rw [List.length_take, List.length_nil] at first second
    obtain rfl : i = 0 := by omega
    rw [table_row]
    omega
  | keep c _ ih =>
    obtain ⟨i, rfl, inRow, isFront, first⟩ := of_take_eq row isFront
    obtain ⟨j, rfl, inColumn, isFront', second⟩ := of_take_eq column isFront'
    have least := ih (by omega) (by omega) isFront isFront'
    have cell := @table_replace a b transpositions _ _ inRow inColumn
    rw [first, second, if_neg (not_not.mpr rfl)] at cell
    omega
  | insert c _ ih =>
    obtain ⟨j, rfl, inColumn, isFront', second⟩ := of_take_eq column isFront'
    have least := ih row (by omega) isFront isFront'
    have cell := @table_insert a b transpositions _ _ row inColumn
    omega
  | delete c _ ih =>
    obtain ⟨i, rfl, inRow, isFront, first⟩ := of_take_eq row isFront
    have least := ih (by omega) column isFront isFront'
    have cell := @table_delete a b transpositions _ _ inRow column
    omega
  | replace c d _ ih =>
    obtain ⟨i, rfl, inRow, isFront, first⟩ := of_take_eq row isFront
    obtain ⟨j, rfl, inColumn, isFront', second⟩ := of_take_eq column isFront'
    have least := ih (by omega) (by omega) isFront isFront'
    have cell := @table_replace a b transpositions _ _ inRow inColumn
    split at cell <;> omega
  | swap c d allowed _ ih =>
    obtain ⟨i, rfl, inRow, isFront, last⟩ := of_take_eq row isFront
    obtain ⟨i, rfl, inRow', isFront, first⟩ := of_take_eq (by omega) isFront
    obtain ⟨j, rfl, inColumn, isFront', last'⟩ := of_take_eq column isFront'
    obtain ⟨j, rfl, inColumn', isFront', first'⟩ := of_take_eq (by omega) isFront'
    have least := ih (by omega) (by omega) isFront isFront'
    have cell := table_swap inRow inColumn allowed ⟨last.trans first'.symm, first.trans last'.symm⟩
    omega

theorem take_succ_eq {l : List Char} (inside : i < l.length) :
    l.take (i + 1) = l.take i ++ [l[i]] := by
  rw [List.take_add_one, List.getElem?_eq_getElem inside]
  rfl

theorem cell_from (d : Table Nat) :
    cell a b transpositions d (i + 1) (j + 1) = d i (j + 1) + 1 ∨
    cell a b transpositions d (i + 1) (j + 1) = d (i + 1) j + 1 ∨
    cell a b transpositions d (i + 1) (j + 1) = d i j + (if a[i]? ≠ b[j]? then 1 else 0) ∨
    ∃ i' j', i = i' + 1 ∧ j = j' + 1 ∧ transpositions = true ∧ a[i]? = b[j']? ∧ a[i']? = b[j]? ∧
      cell a b transpositions d (i + 1) (j + 1) = d i' j' + 1 := by
  unfold cell
  rw [Nat.add_sub_cancel, Nat.add_sub_cancel]
  dsimp only
  generalize (if a[i]? ≠ b[j]? then 1 else 0) = cost
  split
  next swaps =>
    obtain ⟨allowed, row, column, crossed, crossed'⟩ := swaps
    obtain ⟨i, rfl⟩ := Nat.exists_eq_add_of_lt (show 0 < i by omega)
    obtain ⟨j, rfl⟩ := Nat.exists_eq_add_of_lt (show 0 < j by omega)
    by_cases isLeast : min (min (d (0 + i + 1) (0 + j + 1 + 1) + 1) (d (0 + i + 1 + 1) (0 + j + 1) + 1))
        (d (0 + i + 1) (0 + j + 1) + cost) ≤ d (0 + i + 1 + 1 - 2) (0 + j + 1 + 1 - 2) + 1
    · rw [Nat.min_eq_left isLeast]
      omega
    · rw [Nat.min_eq_right (by omega)]
      exact .inr (.inr (.inr ⟨0 + i, 0 + j, rfl, rfl, allowed, crossed, crossed', rfl⟩))
  next => omega

theorem align_table (row : i ≤ a.length) (column : j ≤ b.length) :
    Align transpositions (a.take i) (b.take j) (table a b transpositions i j) := by
  induction h : i + j using Nat.strongRecOn generalizing i j with
  | ind total ih =>
    cases i with
    | zero =>
      cases j with
      | zero =>
        rw [table_row]
        exact .nil
      | succ j =>
        have shorter := ih j (by omega) row (show j ≤ b.length by omega) (Nat.zero_add j)
        rw [table_row] at shorter ⊢
        rw [take_succ_eq column]
        exact .insert _ shorter
    | succ i =>
      cases j with
      | zero =>
        have shorter := ih i (by omega) (show i ≤ a.length by omega) column (Nat.add_zero i)
        rw [table_column] at shorter ⊢
        rw [take_succ_eq row]
        exact .delete _ shorter
      | succ j =>
        have above := ih (i + (j + 1)) (by omega) (show i ≤ a.length by omega) column rfl
        have left := ih (i + 1 + j) (by omega) row (show j ≤ b.length by omega) rfl
        have diagonal := ih (i + j) (by omega) (show i ≤ a.length by omega)
          (show j ≤ b.length by omega) rfl
        rw [table_cell row column]
        rcases @cell_from a b transpositions i j (table a b transpositions) with
          value | value | value | ⟨i, j, rfl, rfl, swaps⟩
        · rw [value, take_succ_eq row]
          exact .delete _ above
        · rw [value, take_succ_eq column]
          exact .insert _ left
        · rw [value, take_succ_eq row, take_succ_eq column]
          rw [List.getElem?_eq_getElem row, List.getElem?_eq_getElem column]
          split
          next => exact .replace _ _ diagonal
          next same =>
            rw [Option.some.inj (not_not.mp same)]
            exact .keep _ diagonal
        · obtain ⟨allowed, crossed, crossed', value⟩ := swaps
          have corner := ih (i + j) (by omega) (show i ≤ a.length by omega)
            (show j ≤ b.length by omega) rfl
          rw [List.getElem?_eq_getElem (by omega), List.getElem?_eq_getElem (by omega)] at crossed
          rw [List.getElem?_eq_getElem (by omega), List.getElem?_eq_getElem (by omega)] at crossed'
          rw [value, take_succ_eq row, take_succ_eq column, take_succ_eq (by omega),
            take_succ_eq (by omega), Option.some.inj crossed, Option.some.inj crossed']
          exact .swap _ _ allowed corner

end Distance

variable {a b : List Char} {transpositions : Bool} {n : Nat}

theorem editDistance_align (a b : List Char) (transpositions : Bool) :
    Align transpositions a b (editDistance a b transpositions) := by
  have align := @Distance.align_table a b transpositions _ _ (Nat.le_refl a.length)
    (Nat.le_refl b.length)
  rwa [List.take_length, List.take_length] at align

theorem editDistance_le (align : Align transpositions a b n) :
    editDistance a b transpositions ≤ n :=
  Distance.le_of_align align (Nat.le_refl _) (Nat.le_refl _) List.take_length.symm
    List.take_length.symm

theorem editDistance_comm (a b : List Char) (transpositions : Bool) :
    editDistance a b transpositions = editDistance b a transpositions :=
  Nat.le_antisymm (editDistance_le (editDistance_align b a transpositions).symm)
    (editDistance_le (editDistance_align a b transpositions).symm)

theorem editDistance_eq_zero : editDistance a b transpositions = 0 ↔ a = b := by
  constructor
  · exact (editDistance_align a b transpositions).eq_of_zero
  · rintro rfl
    exact Nat.le_zero.mp (editDistance_le (.refl a))

theorem length_le_editDistance (a b : List Char) (transpositions : Bool) :
    a.length ≤ b.length + editDistance a b transpositions :=
  (editDistance_align a b transpositions).length_le

theorem editDistance_least (a b : List Char) :
    IsLeast {n | Edits n a b} (editDistance a b false) := by
  constructor
  · exact (editDistance_align a b false).edits
  · intro n edits
    obtain ⟨m, le, align⟩ := edits.align
    exact Nat.le_trans (editDistance_le align) le

/-- With transpositions, "ca" to "ac" to "abc" is shorter than the direct way. -/
theorem editDistance_triangle :
    (∀ a b c, editDistance a c false ≤ editDistance a b false + editDistance b c false) ∧
      editDistance "ca".toList "ac".toList true + editDistance "ac".toList "abc".toList true <
        editDistance "ca".toList "abc".toList true := by
  constructor
  · intro a b c
    exact (editDistance_least a c).2 ((editDistance_least a b).1.trans (editDistance_least b c).1)
  · decide

inductive Fuzziness where
  | auto (low high : Nat)
  | edits (n : Nat)

/-- `Fuzziness::edits`. -/
def Fuzziness.editsFor (f : Fuzziness) (term : String) : Nat :=
  match f with
  | .edits n => n
  | .auto low high =>
    let len := term.toList.length
    if len < low then 0 else if len < high then 1 else 2

structure FuzzyOpts where
  fuzziness : Fuzziness
  prefixLength : Nat
  maxExpansions : Nat
  transpositions : Bool

structure Boosts (F : Type) where
  one : F
  /-- `1.0 - ed / length`. -/
  reduced : Nat → Nat → F
  totalCmp : F → F → Ordering

/-- `Vec::dedup`. -/
def dedup : List String → List String
  | x :: y :: rest => if x = y then dedup (y :: rest) else x :: dedup (y :: rest)
  | l => l

structure FieldTerms where
  toks : List (List String)

namespace FieldTerms

def terms (f : FieldTerms) : List String := dedup (f.toks.flatten.mergeSort (fun x y => x ≤ y))

variable {F : Type} (boosts : Boosts F)

def expansion (term : String) (opts : FuzzyOpts) (t : String) : Option (String × F) :=
  let q := term.toList
  let maxEdits := opts.fuzziness.editsFor term
  let prefixLen := min opts.prefixLength q.length
  let c := t.toList
  if c.length < prefixLen ∨ c.take prefixLen ≠ q.take prefixLen then none
  else if max (c.length - q.length) (q.length - c.length) > maxEdits then none
  else
    let ed := editDistance (c.drop prefixLen) (q.drop prefixLen) opts.transpositions
    if ed > maxEdits then none
    else
      some (t,
        if ed = 0 then boosts.one else boosts.reduced ed (max (min c.length q.length) 1))

/-- The expansions before `truncate`. -/
def ranked (f : FieldTerms) (term : String) (opts : FuzzyOpts) : List (String × F) :=
  (f.terms.filterMap (expansion boosts term opts)).mergeSort fun x y =>
    (boosts.totalCmp y.2 x.2).then (compare x.1 y.1) != .gt

def fuzzyExpansions (f : FieldTerms) (term : String) (opts : FuzzyOpts) : List (String × F) :=
  (f.ranked boosts term opts).take (max opts.maxExpansions 1)

end FieldTerms

/-- The term starts like the query's, and what follows is within the edits. -/
def FuzzyOpts.Within (opts : FuzzyOpts) (term t : String) : Prop :=
  ∃ rest, t.toList = term.toList.take opts.prefixLength ++ rest ∧
    editDistance rest (term.toList.drop opts.prefixLength) opts.transpositions ≤
      opts.fuzziness.editsFor term

theorem mem_dedup (l : List String) (t : String) : t ∈ dedup l ↔ t ∈ l := by
  fun_induction dedup l with
  | case1 x rest ih =>
    rw [ih]
    simp only [List.mem_cons, or_self_left]
  | case2 x y rest _ ih => rw [List.mem_cons, ih, List.mem_cons (b := x)]
  | case3 => rfl

theorem mem_terms (f : FieldTerms) (t : String) : t ∈ f.terms ↔ ∃ toks ∈ f.toks, t ∈ toks := by
  unfold FieldTerms.terms
  rw [mem_dedup, List.mem_mergeSort, List.mem_flatten]

theorem take_min_length (l : List Char) (n : Nat) : l.take (min n l.length) = l.take n := by
  rcases Nat.le_total n l.length with le | le
  · rw [Nat.min_eq_left le]
  · rw [Nat.min_eq_right le, List.take_length, List.take_of_length_le le]

theorem drop_min_length (l : List Char) (n : Nat) : l.drop (min n l.length) = l.drop n := by
  rcases Nat.le_total n l.length with le | le
  · rw [Nat.min_eq_left le]
  · rw [Nat.min_eq_right le, List.drop_length, List.drop_of_length_le le]

theorem expansion_iff {F : Type} (boosts : Boosts F) (term t x : String) (opts : FuzzyOpts) :
    (∃ boost, FieldTerms.expansion boosts term opts t = some (x, boost)) ↔
      t = x ∧ opts.Within term t := by
  unfold FieldTerms.expansion FuzzyOpts.Within
  dsimp only
  rw [take_min_length, drop_min_length]
  constructor
  · rintro ⟨boost, isSome⟩
    split at isSome
    next => cases isSome
    next shares =>
      split at isSome
      next => cases isSome
      next =>
        split at isSome
        next => cases isSome
        next few =>
          refine ⟨congrArg Prod.fst (Option.some.inj isSome), _, ?_, Nat.le_of_not_lt few⟩
          rw [not_or, not_not] at shares
          rw [← shares.2, List.take_append_drop]
  · rintro ⟨rfl, rest, isTerm, few⟩
    have longer := length_le_editDistance rest (term.toList.drop opts.prefixLength) opts.transpositions
    have shorter :=
      length_le_editDistance (term.toList.drop opts.prefixLength) rest opts.transpositions
    rw [editDistance_comm] at shorter
    have count : min opts.prefixLength term.toList.length =
        (term.toList.take opts.prefixLength).length := List.length_take.symm
    have length := congrArg List.length isTerm
    rw [List.length_append, ← count] at length
    rw [List.length_drop] at longer shorter
    have starts : t.toList.take (min opts.prefixLength term.toList.length) =
        term.toList.take opts.prefixLength := by
      rw [count, isTerm, List.take_left]
    have ends : t.toList.drop (min opts.prefixLength term.toList.length) = rest := by
      rw [count, isTerm, List.drop_left]
    rw [starts, ends, if_neg (by rw [not_or, not_not]; exact ⟨by omega, rfl⟩), if_neg (by omega),
      if_neg (Nat.not_lt.mpr few)]
    exact ⟨_, rfl⟩

theorem mem_ranked {F : Type} (boosts : Boosts F) (f : FieldTerms) (term t : String)
    (opts : FuzzyOpts) : (∃ boost, (t, boost) ∈ f.ranked boosts term opts) ↔
      (∃ toks ∈ f.toks, t ∈ toks) ∧ opts.Within term t := by
  unfold FieldTerms.ranked
  rw [← mem_terms]
  constructor
  · rintro ⟨boost, member⟩
    obtain ⟨x, inTerms, isSome⟩ := List.mem_filterMap.mp (List.mem_mergeSort.mp member)
    obtain ⟨rfl, within⟩ := (expansion_iff boosts term x t opts).mp ⟨boost, isSome⟩
    exact ⟨inTerms, within⟩
  · rintro ⟨inTerms, within⟩
    obtain ⟨boost, isSome⟩ := (expansion_iff boosts term t t opts).mpr ⟨rfl, within⟩
    exact ⟨boost, List.mem_mergeSort.mpr (List.mem_filterMap.mpr ⟨t, inTerms, isSome⟩)⟩

end NoidaDb.Elasticsearch
