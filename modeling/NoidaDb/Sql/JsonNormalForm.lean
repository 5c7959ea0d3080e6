/-
The normal form of jsonb: what `normalize` returns, at every level.

In normal form the members of an object are an ordered map from its keys.
-/

import NoidaDb.Lib.BinarySearch
import NoidaDb.Lib.OrderedMaps
import NoidaDb.Sql.JsonOrder

namespace NoidaDb.Sql

open Lib

namespace Json

theorem byParts {motive : Json → Prop} (null : motive .null) (bool : ∀ b, motive (.bool b))
    (num : ∀ n, motive (.num n)) (str : ∀ s, motive (.str s))
    (array : ∀ vs, (∀ v ∈ vs, motive v) → motive (.array vs))
    (object : ∀ ms, (∀ m ∈ ms, motive m.2) → motive (.object ms)) (j : Json) : motive j := by
  have bySize : ∀ n, ∀ j : Json, sizeOf j < n → motive j := by
    intro n
    induction n with
    | zero => exact fun j small => (Nat.not_lt_zero _ small).elim
    | succ n ih =>
      intro j small
      cases j with
      | null => exact null
      | bool b => exact bool b
      | num n => exact num n
      | str s => exact str s
      | array vs =>
        rw [Json.array.sizeOf_spec] at small
        apply array
        intro v isV
        have smaller := List.sizeOf_lt_of_mem isV
        exact ih v (by omega)
      | object ms =>
        rw [Json.object.sizeOf_spec] at small
        apply object
        intro m isM
        have smaller := List.sizeOf_lt_of_mem isM
        have part : sizeOf m = 1 + sizeOf m.1 + sizeOf m.2 := by
          cases m
          rfl
        exact ih m.2 (by omega)
  exact bySize (sizeOf j + 1) j (Nat.lt_succ_self _)

def get (key : String) : Json → Option Json
  | object m => (m.reverse.find? (fun e => e.1 = key)).map Prod.snd
  | _ => none

instance : Std.TransCmp keyCmp :=
  inferInstanceAs (Std.TransCmp (compareLex (compareOn String.utf8ByteSize)
    (compareOn (fun s : String => s.toList.map Char.toNat))))

instance : Std.LawfulEqCmp keyCmp where
  eq_of_compare := (keyCmp_eq_iff _ _).mp

def Key : Type := String

instance : LinearOrder Key := (linearOrderOf keyCmp : LinearOrder String)

theorem key_not_lt {a b : Key} (notLess : keyCmp a b ≠ .lt) : ¬ a < b := notLess

theorem insertMember_eq (k : String) (v : Json) (out : List (String × Json)) :
    insertMember k v out = OrderedMap.insertEntry (K := Key) k v out := by
  induction out with
  | nil => rfl
  | cons e rest ih =>
    obtain ⟨ek, ev⟩ := e
    have swapped : keyCmp k ek = (keyCmp ek k).swap := Std.OrientedCmp.eq_swap
    have same : k = ek ↔ keyCmp ek k = .eq := by
      rw [keyCmp_eq_iff]
      exact eq_comm
    rw [insertMember, ih]
    cases result : keyCmp ek k with
    | lt =>
      rw [result] at swapped same
      have different : k ≠ ek := fun isSame => by cases same.mp isSame
      have notLess : keyCmp k ek ≠ .lt := by
        rw [swapped]
        decide
      exact ((if_neg (key_not_lt notLess)).trans (if_neg different)).symm
    | eq =>
      rw [result] at swapped same
      have notLess : keyCmp k ek ≠ .lt := by
        rw [swapped]
        decide
      rw [← same.mpr rfl]
      rw [← same.mpr rfl] at notLess
      exact ((if_neg (key_not_lt notLess)).trans (if_pos rfl)).symm
    | gt =>
      rw [result] at swapped
      exact (if_pos swapped).symm

def InOrder (ms : List (String × Json)) : Prop :=
  ms.Pairwise (fun a b => keyCmp a.1 b.1 = .lt)

variable {out ms : List (String × Json)}

theorem inOrder_insertMember (k : String) (v : Json) (inOrder : InOrder out) :
    InOrder (insertMember k v out) := by
  rw [insertMember_eq]
  exact OrderedMap.sorted_insertEntry (K := Key) k v inOrder

theorem inOrder_normalizeMembers (ms : List (String × Json)) (inOrder : InOrder out) :
    InOrder (normalizeMembers out ms) := by
  induction ms generalizing out with
  | nil => exact inOrder
  | cons m ms ih => exact ih (inOrder_insertMember m.1 m.2.normalize inOrder)

/-- The turn of the loop in `normalize`: where a binary search finds the key its value changes,
elsewhere the member goes in at the place that the search tells. -/
def placeMember (out : List (String × Json)) (m : String × Json) : List (String × Json) :=
  match binarySearchBy (fun e => keyCmp e.1 m.1) out with
  | .ok i => out.modify i (fun e => (e.1, m.2))
  | .error i => out.insertIdx i m

theorem exists_split (inOrder : InOrder out) (k : String) :
    ∃ below found above, BinarySearch.Split (fun e => keyCmp e.1 k) out below found above := by
  induction out with
  | nil => exact ⟨[], none, [], rfl, by simp, by simp, by simp⟩
  | cons e rest ih =>
    obtain ⟨first, later⟩ := List.pairwise_cons.mp inOrder
    have above (notLess : keyCmp e.1 k ≠ .lt) : ∀ m ∈ rest, keyCmp m.1 k = .gt := by
      intro m isM
      have least : (keyCmp k e.1).isLE := by
        have swapped : keyCmp k e.1 = (keyCmp e.1 k).swap := Std.OrientedCmp.eq_swap
        rw [swapped]
        cases result : keyCmp e.1 k with
        | lt => exact (notLess result).elim
        | eq => rfl
        | gt => rfl
      exact Std.OrientedCmp.gt_of_lt (Std.TransCmp.lt_of_isLE_of_lt least (first m isM))
    cases result : keyCmp e.1 k with
    | lt =>
      obtain ⟨below, found, above, split⟩ := ih later
      refine ⟨e :: below, found, above, ?_, ?_, split.equal, split.greater⟩
      · rw [split.whole, List.cons_append]
      · intro m isM
        rcases List.mem_cons.mp isM with isFirst | isLater
        · rw [isFirst]
          exact result
        · exact split.less m isLater
    | eq =>
      refine ⟨[], some e, rest, rfl, by simp, ?_, above (by rw [result]; decide)⟩
      intro m isM
      rw [← Option.some.inj isM]
      exact result
    | gt =>
      refine ⟨[], none, e :: rest, rfl, by simp, by simp, ?_⟩
      intro m isM
      rcases List.mem_cons.mp isM with isFirst | isLater
      · rw [isFirst]
        exact result
      · exact above (by rw [result]; decide) m isLater

theorem insertMember_append {k : String} (v : Json) {below : List (String × Json)}
    (less : ∀ m ∈ below, keyCmp m.1 k = .lt) (rest : List (String × Json)) :
    insertMember k v (below ++ rest) = below ++ insertMember k v rest := by
  induction below with
  | nil => rfl
  | cons m below ih =>
    obtain ⟨first, later⟩ := List.forall_mem_cons.mp less
    rw [List.cons_append, insertMember, first, ih later, List.cons_append]

theorem insertMember_above {k : String} (v : Json) {above : List (String × Json)}
    (greater : ∀ m ∈ above, keyCmp m.1 k = .gt) : insertMember k v above = (k, v) :: above := by
  cases above with
  | nil => rfl
  | cons m above => rw [insertMember, greater m List.mem_cons_self]

theorem placeMember_eq (inOrder : InOrder out) (k : String) (v : Json) :
    placeMember out (k, v) = insertMember k v out := by
  obtain ⟨below, found, above, split⟩ := exists_split inOrder k
  rw [placeMember, binarySearchBy_split split, split.whole, insertMember_append v split.less]
  cases found with
  | none =>
    rw [Option.toList_none, List.nil_append, insertMember_above v split.greater]
    clear split
    induction below with
    | nil => rfl
    | cons m below ih => exact congrArg (m :: ·) ih
  | some m =>
    have isEqual : keyCmp m.1 k = .eq := split.equal m rfl
    rw [Option.toList_some, List.singleton_append, insertMember, isEqual]
    clear split
    induction below with
    | nil => rfl
    | cons m below ih => exact congrArg (m :: ·) ih

theorem normalizeMembers_eq (ms : List (String × Json)) (inOrder : InOrder out) :
    normalizeMembers out ms = (ms.map (fun m => (m.1, m.2.normalize))).foldl placeMember out := by
  induction ms generalizing out with
  | nil => rfl
  | cons m ms ih =>
    rw [List.map_cons, List.foldl_cons, placeMember_eq inOrder]
    exact ih (inOrder_insertMember m.1 m.2.normalize inOrder)

theorem normalizeItems_eq (vs : List Json) : normalizeItems vs = vs.map normalize := by
  induction vs with
  | nil => rfl
  | cons v vs ih => rw [normalizeItems, ih, List.map_cons]

/-- A value whose objects, at every level, have their keys in strictly increasing order. -/
inductive Ordered : Json → Prop
  | null : Ordered .null
  | bool (b : Bool) : Ordered (.bool b)
  | num (n : Numeric) : Ordered (.num n)
  | str (s : String) : Ordered (.str s)
  | array {vs : List Json} (items : ∀ v ∈ vs, Ordered v) : Ordered (.array vs)
  | object {ms : List (String × Json)} (keys : InOrder ms) (members : ∀ m ∈ ms, Ordered m.2) :
      Ordered (.object ms)

theorem inOrder_nil : InOrder [] := List.Pairwise.nil

theorem mem_normalized {m : String × Json} (member : m ∈ normalizeMembers out ms) :
    m ∈ out ∨ ∃ w ∈ ms, m = (w.1, w.2.normalize) := by
  induction ms generalizing out with
  | nil => exact Or.inl member
  | cons w ms ih =>
    rcases ih member with inOut | ⟨u, isU, same⟩
    · rw [insertMember_eq] at inOut
      rcases OrderedMap.mem_insertEntry (K := Key) inOut with isNew | isOld
      · exact Or.inr ⟨w, List.mem_cons_self, isNew⟩
      · exact Or.inl isOld
    · exact Or.inr ⟨u, List.mem_cons_of_mem w isU, same⟩

theorem ordered_normalize (j : Json) : Ordered j.normalize := by
  induction j using byParts with
  | null => exact Ordered.null
  | bool b => exact Ordered.bool b
  | num n => exact Ordered.num n
  | str s => exact Ordered.str s
  | array vs ih =>
    apply Ordered.array
    intro v isV
    rw [normalizeItems_eq] at isV
    obtain ⟨w, isW, same⟩ := List.mem_map.mp isV
    rw [← same]
    exact ih w isW
  | object ms ih =>
    apply Ordered.object (inOrder_normalizeMembers ms inOrder_nil)
    intro m isM
    rcases mem_normalized isM with inNone | ⟨w, isW, same⟩
    · cases inNone
    · rw [same]
      exact ih w isW

theorem normalizeMembers_append (inOrder : InOrder (out ++ ms))
    (fixed : ∀ m ∈ ms, m.2.normalize = m.2) : normalizeMembers out ms = out ++ ms := by
  induction ms generalizing out with
  | nil => exact (List.append_nil out).symm
  | cons m ms ih =>
    obtain ⟨first, later⟩ := List.forall_mem_cons.mp fixed
    have less : ∀ e ∈ out, keyCmp e.1 m.1 = .lt :=
      fun e isE => (List.pairwise_append.mp inOrder).2.2 e isE m List.mem_cons_self
    have atEnd : insertMember m.1 m.2 out = out ++ [m] := by
      have placed := insertMember_append m.2 less []
      rw [List.append_nil] at placed
      exact placed
    rw [List.append_cons] at inOrder ⊢
    rw [normalizeMembers, first, atEnd]
    exact ih inOrder later

theorem normalize_ordered {j : Json} (ordered : Ordered j) : j.normalize = j := by
  induction ordered with
  | null => rfl
  | bool b => rfl
  | num n => rfl
  | str s => rfl
  | array items ih =>
    rw [normalize, normalizeItems_eq]
    exact congrArg Json.array ((List.map_congr_left (g := id) ih).trans (List.map_id _))
  | object keys members ih => exact congrArg Json.object (normalizeMembers_append keys ih)

def lookup (key : String) (ms : List (String × Json)) : Option Json :=
  @List.lookup Key Json _ key ms

theorem lookup_insertMember (key k : String) (v : Json) (inOrder : InOrder out) :
    lookup key (insertMember k v out) = if key = k then some v else lookup key out := by
  rw [insertMember_eq]
  exact OrderedMap.lookup_insertEntry (K := Key) k key v inOrder

theorem get_inOrder (inOrder : InOrder ms) (key : String) :
    (object ms).get key = lookup key ms := by
  rw [get]
  cases result : ms.reverse.find? (fun e => e.1 = key) with
  | none =>
    rw [List.find?_eq_none] at result
    apply Eq.symm
    apply List.lookup_eq_none_iff.mpr
    intro e isE
    have different := result e (List.mem_reverse.mpr isE)
    rw [decide_eq_true_eq] at different
    exact bne_iff_ne.mpr (Ne.symm different)
  | some e =>
    have isE := List.mem_reverse.mp (List.mem_of_find?_eq_some result)
    have isKey := List.find?_some result
    rw [decide_eq_true_eq] at isKey
    rw [← isKey]
    exact (OrderedMap.lookup_of_mem (K := Key) inOrder isE).symm

theorem lookup_normalizeMembers (key : String) (ms : List (String × Json)) (inOrder : InOrder out) :
    lookup key (normalizeMembers out ms) =
      (((object ms).get key).map normalize).or (lookup key out) := by
  induction ms generalizing out with
  | nil => rfl
  | cons m ms ih =>
    rw [normalizeMembers, ih (inOrder_insertMember m.1 m.2.normalize inOrder),
      lookup_insertMember key m.1 m.2.normalize inOrder]
    simp only [get, List.reverse_cons, List.find?_append]
    cases result : ms.reverse.find? (fun e => e.1 = key) with
    | some e => rfl
    | none =>
      by_cases isKey : key = m.1
      · simp [isKey]
      · simp [isKey, Ne.symm isKey]

theorem get_normalize (j : Json) (key : String) :
    j.normalize.get key = (j.get key).map normalize := by
  cases j with
  | object ms =>
    rw [normalize, get_inOrder (inOrder_normalizeMembers ms inOrder_nil),
      lookup_normalizeMembers key ms inOrder_nil]
    exact Option.or_none
  | _ => rfl

end Json

end NoidaDb.Sql
