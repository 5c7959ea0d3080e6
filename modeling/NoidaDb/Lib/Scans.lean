/-
Walks over a list by position, in pages, while the list may change between two pages.
-/

import Mathlib.Data.List.Basic

namespace NoidaDb.Lib

variable {α : Type}

def pageEnd (length cursor count : Nat) : Nat := min (cursor + count) length

def page (xs : List α) (cursor count : Nat) : List α :=
  let stop := pageEnd xs.length cursor count
  (xs.take stop).drop (min cursor stop)

def nextPage (length cursor count : Nat) : Nat :=
  let stop := pageEnd length cursor count
  if length ≤ stop then 0 else stop

section

variable [BEq α] [LawfulBEq α] {xs : List α} {x : α} {cursor count : Nat}

theorem mem_page (member : x ∈ xs) (after : cursor ≤ xs.idxOf x)
    (before : xs.idxOf x < cursor + count) : x ∈ page xs cursor count := by
  have within : xs.idxOf x < xs.length := List.idxOf_lt_length_of_mem member
  have isAt : xs[xs.idxOf x] = x := List.getElem_idxOf within
  have inStop : xs.idxOf x < pageEnd xs.length cursor count := by
    unfold pageEnd
    omega
  unfold page
  simp only []
  apply List.mem_iff_getElem.mpr
  refine ⟨xs.idxOf x - min cursor (pageEnd xs.length cursor count), ?_, ?_⟩
  · rw [List.length_drop, List.length_take]
    omega
  · rw [List.getElem_drop, List.getElem_take]
    have sum : min cursor (pageEnd xs.length cursor count) +
        (xs.idxOf x - min cursor (pageEnd xs.length cursor count)) = xs.idxOf x := by
      omega
    simp only [sum]
    exact isAt

theorem nextPage_eq (member : x ∈ xs) (after : cursor + count ≤ xs.idxOf x) :
    nextPage xs.length cursor count = cursor + count := by
  have within : xs.idxOf x < xs.length := List.idxOf_lt_length_of_mem member
  have isEnd : pageEnd xs.length cursor count = cursor + count := by
    unfold pageEnd
    omega
  unfold nextPage
  rw [isEnd]
  simp only []
  rw [if_neg (by omega)]

end

end NoidaDb.Lib
