/-
LCS: the longest common subsequence of two strings, and the ranges that it consists of.
-/

import NoidaDb.Lib.Tables
import NoidaDb.Redis.Expiry

namespace NoidaDb.Redis.Lcs

open Lib

structure Opts where
  getLen : Bool := false
  getIdx : Bool := false
  withMatchLen : Bool := false
  /-- Not negative, by `max(0)`. -/
  minMatchLen : Nat := 0

def opts (o : Opts) : List Bytes → Except Value Opts
  | [] => .ok o
  | x :: rest =>
    if eqIc x "idx" then opts { o with getIdx := true } rest
    else if eqIc x "len" then opts { o with getLen := true } rest
    else if eqIc x "withmatchlen" then opts { o with withMatchLen := true } rest
    else
      match rest with
      | [] => syntaxError
      | n :: rest =>
        if eqIc x "minmatchlen" then
          match intArg n with
          | .error e => .error e
          | .ok n => opts { o with minMatchLen := n.toNat } rest
        else syntaxError

structure MatchRange where
  aStart : Nat
  aEnd : Nat
  bStart : Nat
  bEnd : Nat

structure Walk where
  i : Nat
  k : Nat
  idx : Nat
  result : Bytes
  range : MatchRange
  /-- `matches`. -/
  found : List MatchRange := []

variable (x y : Bytes)

def cell (t : Table Nat) (i k : Nat) : Nat :=
  if x[i - 1]? = y[k - 1]? then t (i - 1) (k - 1) + 1 else max (t (i - 1) k) (t i (k - 1))

def table : Table Nat := Table.fill (cell x y) y.length x.length ⟨fun _ _ => 0⟩

variable (minMatchLen : Nat)

/-- What `emit` leads to. -/
def report (w : Walk) : Walk :=
  let matchLen : Int := w.range.aEnd - w.range.aStart + 1
  { w with
    found := if minMatchLen = 0 ∨ matchLen ≥ minMatchLen then w.found ++ [w.range] else w.found
    range := { w.range with aStart := x.length } }

/-- The range after a match at the positions before `i` and `k`, and `emit`. -/
def extend (r : MatchRange) (i k : Nat) : MatchRange × Bool :=
  let (r, emit) :=
    if r.aStart = x.length then (⟨i - 1, i - 1, k - 1, k - 1⟩, false)
    else if r.aStart = i ∧ r.bStart = k then
      ({ r with aStart := r.aStart - 1, bStart := r.bStart - 1 }, false)
    else (r, true)
  (r, emit || r.aStart = 0 || r.bStart = 0)

def step (t : Table Nat) (w : Walk) : Walk :=
  if x[w.i - 1]? = y[w.k - 1]? then
    let (range, emit) := extend x w.range w.i w.k
    let next := { w with
      i := w.i - 1
      k := w.k - 1
      idx := w.idx - 1
      result := w.result.set (w.idx - 1) (x[w.i - 1]?.getD 0)
      range }
    if emit then report x minMatchLen next else next
  else
    let next :=
      if t (w.i - 1) w.k > t w.i (w.k - 1) then { w with i := w.i - 1 } else { w with k := w.k - 1 }
    if w.range.aStart ≠ x.length then report x minMatchLen next else next

theorem step_shrinks (t : Table Nat) (w : Walk) (inside : 0 < w.i ∧ 0 < w.k) :
    (step x y minMatchLen t w).i + (step x y minMatchLen t w).k < w.i + w.k := by
  unfold step report
  dsimp only
  split_ifs <;> dsimp only <;> omega

def walk (t : Table Nat) (w : Walk) : Walk :=
  if 0 < w.i ∧ 0 < w.k then walk t (step x y minMatchLen t w) else w
termination_by w.i + w.k
decreasing_by
  rename_i inside
  exact step_shrinks x y minMatchLen t w inside

def walked : Walk :=
  let t := table x y
  let total := t x.length y.length
  walk x y minMatchLen t
    { i := x.length
      k := y.length
      idx := total
      result := List.replicate total 0
      range := ⟨x.length, 0, 0, 0⟩ }

def MatchRange.reply (withMatchLen : Bool) (r : MatchRange) : Value :=
  let parts : List Value :=
    [.array [.integer r.aStart, .integer r.aEnd], .array [.integer r.bStart, .integer r.bEnd]]
  .array (if withMatchLen then parts ++ [.integer (r.aEnd - r.aStart + 1)] else parts)

def answer (o : Opts) : Value :=
  let total := table x y x.length y.length
  let w := walked x y o.minMatchLen
  if o.getIdx then
    .array [.bulk (ascii "matches"), .array (w.found.map (MatchRange.reply o.withMatchLen)),
      .bulk (ascii "len"), .integer total]
  else if o.getLen then .integer total
  else .bulk w.result

def fetch (ctx : Ctx) (k : Bytes) (db : Db) : Outcome Bytes :=
  match Expiry.getStr ctx k db with
  | (.ok v, db) => (.ok (v.getD []), db)
  | (.error _, db) =>
    (.error (.error (.error "ERR The specified keys must contain string values")), db)

def lcs (ctx : Ctx) (a : List Bytes) (db : Db) : Answer × Db :=
  (fetch ctx (arg a 1) db).andThen fun x db =>
  (fetch ctx (arg a 2) db).andThen fun y db =>
  parsed (opts {} (a.drop 3)) db fun o =>
    if o.getIdx && o.getLen then
      refuse "ERR If you want both the length and indexes, please just use IDX." db
    else (.value (answer x y o), db)

variable {x y} {i k : Nat} {s : Bytes}

theorem table_zero (border : i = 0 ∨ k = 0) : table x y i k = 0 := Table.fill_border border

theorem cell_looksBack : Table.LooksBack (cell x y) := by
  intro t t' i k row column same
  have diagonal := same (i - 1) (k - 1) (.inl (by omega))
  have above := same (i - 1) k (.inl (by omega))
  have left := same i (k - 1) (.inr ⟨rfl, by omega⟩)
  unfold cell
  rw [diagonal, above, left]

theorem table_succ (row : i < x.length) (column : k < y.length) :
    table x y (i + 1) (k + 1) =
      if x[i]? = y[k]? then table x y i k + 1
      else max (table x y i (k + 1)) (table x y (i + 1) k) :=
  Table.fill_cell cell_looksBack (by omega) (by omega) (by omega) (by omega)

theorem dropLast_sublist {l : Bytes} {last : Option UInt8} (sub : s.Sublist (l ++ last.toList)) :
    s.dropLast.Sublist l := by
  obtain ⟨front, back, rfl, inFront, inBack⟩ := List.sublist_append_iff.mp sub
  match back, inBack.length_le with
  | [], _ =>
    rw [List.append_nil]
    exact (List.dropLast_sublist front).trans inFront
  | [b], _ =>
    rw [List.dropLast_concat]
    exact inFront
  | _ :: _ :: _, long =>
    cases last <;> simp at long

theorem sublist_of_getLast {l : Bytes} {last : Option UInt8} (sub : s.Sublist (l ++ last.toList))
    (other : s.getLast? ≠ last) : s.Sublist l := by
  obtain ⟨front, back, rfl, inFront, inBack⟩ := List.sublist_append_iff.mp sub
  cases last with
  | none =>
    rw [List.sublist_nil.mp inBack, List.append_nil]
    exact inFront
  | some b =>
    rcases List.sublist_singleton.mp inBack with rfl | rfl
    · rw [List.append_nil]
      exact inFront
    · exact absurd List.getLast?_concat other

theorem common_le (row : i ≤ x.length) (column : k ≤ y.length) (inFirst : s.Sublist (x.take i))
    (inSecond : s.Sublist (y.take k)) : s.length ≤ table x y i k := by
  induction i generalizing k s with
  | zero =>
    rw [List.take_zero, List.sublist_nil] at inFirst
    rw [inFirst]
    exact Nat.zero_le _
  | succ i above =>
    induction k generalizing s with
    | zero =>
      rw [List.take_zero, List.sublist_nil] at inSecond
      rw [inSecond]
      exact Nat.zero_le _
    | succ k left =>
      have inFirst' := inFirst
      have inSecond' := inSecond
      rw [List.take_add_one] at inFirst' inSecond'
      rw [table_succ row column]
      split
      next =>
        have shorter := above (by omega) (by omega) (dropLast_sublist inFirst')
          (dropLast_sublist inSecond')
        rw [List.length_dropLast] at shorter
        omega
      next different =>
        by_cases isLast : s.getLast? = x[i]?
        · have := left (by omega) inFirst
            (sublist_of_getLast inSecond' (fun same => different (isLast.symm.trans same)))
          omega
        · have := above (by omega) column (sublist_of_getLast inFirst' isLast) inSecond
          omega

structure Longest (s x y : Bytes) : Prop where
  inFirst : s.Sublist x
  inSecond : s.Sublist y
  longest : ∀ other : Bytes, other.Sublist x → other.Sublist y → other.length ≤ s.length

namespace MatchRange

def length (r : MatchRange) : Nat := r.aEnd + 1 - r.aStart

def bytes (x : Bytes) (r : MatchRange) : Bytes := (x.drop r.aStart).take r.length

structure Fits (x y : Bytes) (r : MatchRange) : Prop where
  aOrder : r.aStart ≤ r.aEnd
  aLast : r.aEnd < x.length
  bOrder : r.bStart ≤ r.bEnd
  bLast : r.bEnd < y.length
  sameLength : r.aEnd - r.aStart = r.bEnd - r.bStart
  sameBytes : r.bytes x = (y.drop r.bStart).take r.length

def Before (r r' : MatchRange) : Prop := r.aEnd < r'.aStart ∧ r.bEnd < r'.bStart

end MatchRange

structure Describes (x y s : Bytes) (ranges : List MatchRange) : Prop where
  fit : ∀ r ∈ ranges, r.Fits x y
  increasing : ranges.Pairwise MatchRange.Before
  whole : ranges.flatMap (MatchRange.bytes x) = s

variable {w : Walk} {ranges rest : List MatchRange} {b : UInt8}

theorem drop_eq_cons (isByte : x[i]? = some b) : x.drop i = b :: x.drop (i + 1) := by
  rw [List.drop_eq_getElem?_toList_append, isByte]
  rfl

structure Along (x y s : Bytes) (ranges : List MatchRange) (w : Walk) : Prop where
  row : w.i ≤ x.length
  column : w.k ≤ y.length
  left : w.idx = table x y w.i w.k
  total : w.idx + s.length = table x y x.length y.length
  written : w.result = List.replicate w.idx 0 ++ s
  inFirst : s.Sublist (x.drop w.i)
  inSecond : s.Sublist (y.drop w.k)
  describes : Describes x y s ranges
  above : ∀ r ∈ ranges, w.i ≤ r.aStart ∧ w.k ≤ r.bStart

def Closed (x : Bytes) (ranges : List MatchRange) (w : Walk) : Prop :=
  w.range.aStart = x.length ∧ w.found.reverse = ranges

def Open (ranges : List MatchRange) (w : Walk) : Prop :=
  ∃ rest, ranges = w.range :: rest ∧ w.found.reverse = rest ∧
    w.range.aStart = w.i ∧ w.range.bStart = w.k ∧ 0 < w.i ∧ 0 < w.k

theorem report_closed (isOpen : ranges = w.range :: rest) (isFound : w.found.reverse = rest) :
    Closed x ranges (report x 0 w) := by
  constructor
  · rfl
  · unfold report
    dsimp only
    rw [if_pos (.inl rfl), List.reverse_append, isFound, isOpen]
    rfl

theorem Along.report (along : Along x y s ranges w) : Along x y s ranges (report x 0 w) :=
  ⟨along.row, along.column, along.left, along.total, along.written, along.inFirst,
    along.inSecond, along.describes, along.above⟩

theorem Open.fits (isOpen : Open ranges w) (along : Along x y s ranges w) :
    w.range.Fits x y := by
  obtain ⟨rest, rfl, -⟩ := isOpen
  exact along.describes.fit _ List.mem_cons_self

theorem Describes.single (describes : Describes x y s ranges) (inFirst : x[i]? = some b)
    (inSecond : y[k]? = some b) (above : ∀ r ∈ ranges, i + 1 ≤ r.aStart ∧ k + 1 ≤ r.bStart) :
    Describes x y (b :: s) (⟨i, i, k, k⟩ :: ranges) := by
  obtain ⟨row, -⟩ := List.getElem?_eq_some_iff.mp inFirst
  obtain ⟨column, -⟩ := List.getElem?_eq_some_iff.mp inSecond
  have one : MatchRange.bytes x ⟨i, i, k, k⟩ = [b] := by
    unfold MatchRange.bytes MatchRange.length
    rw [Nat.add_sub_cancel_left, drop_eq_cons inFirst]
    rfl
  constructor
  · intro r member
    rcases List.mem_cons.mp member with rfl | later
    · refine ⟨Nat.le_refl _, row, Nat.le_refl _, column,
        (Nat.sub_self i).trans (Nat.sub_self k).symm, ?_⟩
      rw [one]
      unfold MatchRange.length
      rw [Nat.add_sub_cancel_left, drop_eq_cons inSecond]
      rfl
    · exact describes.fit r later
  · exact List.pairwise_cons.mpr ⟨above, describes.increasing⟩
  · rw [List.flatMap_cons, one, describes.whole]
    rfl

theorem Describes.longer {r : MatchRange} (describes : Describes x y s (r :: rest))
    (inFirst : x[i]? = some b) (inSecond : y[k]? = some b) (aStart : r.aStart = i + 1)
    (bStart : r.bStart = k + 1) :
    Describes x y (b :: s) ({ r with aStart := i, bStart := k } :: rest) := by
  obtain ⟨r, aEnd, r', bEnd⟩ := r
  obtain rfl : r = i + 1 := aStart
  obtain rfl : r' = k + 1 := bStart
  obtain ⟨aOrder, aLast, bOrder, bLast, sameLength, sameBytes⟩ :=
    describes.fit _ List.mem_cons_self
  obtain ⟨before, increasing⟩ := List.pairwise_cons.mp describes.increasing
  have whole := describes.whole
  dsimp only at aOrder aLast bOrder bLast sameLength
  have count : aEnd + 1 - i = aEnd + 1 - (i + 1) + 1 := by omega
  unfold MatchRange.bytes MatchRange.length at sameBytes
  have more : MatchRange.bytes x ⟨i, aEnd, k, bEnd⟩ =
      b :: MatchRange.bytes x ⟨i + 1, aEnd, k + 1, bEnd⟩ := by
    unfold MatchRange.bytes MatchRange.length
    dsimp only
    rw [count, drop_eq_cons inFirst, List.take_succ_cons]
  constructor
  · intro r member
    rcases List.mem_cons.mp member with rfl | later
    · refine ⟨by dsimp only; omega, aLast, by dsimp only; omega, bLast, by dsimp only; omega, ?_⟩
      rw [more]
      unfold MatchRange.bytes MatchRange.length
      dsimp only at sameBytes ⊢
      rw [sameBytes, count, drop_eq_cons inSecond, List.take_succ_cons]
    · exact describes.fit r (List.mem_cons_of_mem _ later)
  · exact List.pairwise_cons.mpr ⟨before, increasing⟩
  · rw [List.flatMap_cons, more, ← whole, List.flatMap_cons]
    rfl

theorem replicate_set (n : Nat) (s : Bytes) (b : UInt8) :
    (List.replicate (n + 1) 0 ++ s).set n b = List.replicate n 0 ++ b :: s := by
  rw [List.replicate_succ', List.append_assoc, List.set_append_right _ _ (by simp),
    List.length_replicate, Nat.sub_self]
  rfl

theorem Along.matched (along : Along x y s ranges w) (row : w.i = i + 1) (column : w.k = k + 1)
    (inFirst : x[i]? = some b) (inSecond : y[k]? = some b) {range : MatchRange}
    (describes : Describes x y (b :: s) (range :: rest))
    (above : ∀ r ∈ range :: rest, i ≤ r.aStart ∧ k ≤ r.bStart) :
    Along x y (b :: s) (range :: rest)
      { w with i, k, idx := w.idx - 1, result := w.result.set (w.idx - 1) b, range } := by
  have inRow := along.row
  have inColumn := along.column
  have cell := along.left
  have total := along.total
  rw [row, column, table_succ (by omega) (by omega), inFirst, inSecond, if_pos rfl] at cell
  refine ⟨by dsimp only; omega, by dsimp only; omega, by dsimp only; omega, ?_, ?_, ?_, ?_,
    describes, above⟩
  · rw [List.length_cons]
    dsimp only
    omega
  · rw [along.written, cell, Nat.add_sub_cancel]
    exact replicate_set _ _ _
  · rw [drop_eq_cons inFirst, ← row]
    exact along.inFirst.cons_cons b
  · rw [drop_eq_cons inSecond, ← column]
    exact along.inSecond.cons_cons b

theorem emitted {next : Walk} (along : Along x y s ranges next)
    (isOpen : ranges = next.range :: rest) (isFound : next.found.reverse = rest)
    (aStart : next.range.aStart = next.i) (bStart : next.range.bStart = next.k) :
    ∃ w, (if (next.range.aStart = 0 || next.range.bStart = 0) = true then report x 0 next
        else next) = w ∧
      Along x y s ranges w ∧ (Closed x ranges w ∨ Open ranges w) := by
  refine ⟨_, rfl, ?_⟩
  split
  next => exact ⟨along.report, .inl (report_closed isOpen isFound)⟩
  next inside =>
    rw [Bool.or_eq_true, decide_eq_true_iff, decide_eq_true_iff] at inside
    exact ⟨along, .inr ⟨rest, isOpen, isFound, aStart, bStart, by omega, by omega⟩⟩

theorem Along.step_matched (along : Along x y s ranges w) (state : Closed x ranges w ∨ Open ranges w)
    (row : w.i = i + 1) (column : w.k = k + 1) (inFirst : x[i]? = some b)
    (inSecond : y[k]? = some b) (t : Table Nat) :
    ∃ s ranges, Along x y s ranges (step x y 0 t w) ∧
      (Closed x ranges (step x y 0 t w) ∨ Open ranges (step x y 0 t w)) := by
  have lower : ∀ r ∈ ranges, i ≤ r.aStart ∧ k ≤ r.bStart := by
    intro r member
    have := along.above r member
    omega
  unfold step
  rw [row, column, Nat.add_sub_cancel, Nat.add_sub_cancel, inFirst, inSecond, if_pos rfl]
  unfold extend
  rcases state with ⟨isClosed, isFound⟩ | isOpen
  · have describes := along.describes.single inFirst inSecond (by rw [← row, ← column]; exact along.above)
    have matched := along.matched row column inFirst inSecond describes (by
      intro r member
      rcases List.mem_cons.mp member with rfl | later
      · exact ⟨Nat.le_refl _, Nat.le_refl _⟩
      · exact lower r later)
    obtain ⟨w', same, result⟩ := emitted matched rfl isFound rfl rfl
    rw [if_pos isClosed]
    exact ⟨_, _, same ▸ result⟩
  · have fits := isOpen.fits along
    have inside := fits.aOrder.trans_lt fits.aLast
    obtain ⟨rest, rfl, isFound, aStart, bStart, -⟩ := isOpen
    have describes := along.describes.longer inFirst inSecond (aStart.trans row) (bStart.trans column)
    have matched := along.matched row column inFirst inSecond describes (by
      intro r member
      rcases List.mem_cons.mp member with rfl | later
      · exact ⟨Nat.le_refl _, Nat.le_refl _⟩
      · exact lower r (List.mem_cons_of_mem _ later))
    obtain ⟨w', same, result⟩ := emitted matched rfl isFound rfl rfl
    rw [if_neg (Nat.ne_of_lt inside), if_pos ⟨aStart.trans row, bStart.trans column⟩, aStart.trans row,
      bStart.trans column]
    exact ⟨_, _, same ▸ result⟩

theorem Along.neighbour (along : Along x y s ranges w) (row : w.i = i + 1) (column : w.k = k + 1)
    (different : x[i]? ≠ y[k]?) :
    Along x y s ranges
      (if table x y i (k + 1) > table x y (i + 1) k then { w with i } else { w with k }) := by
  have inRow := along.row
  have inColumn := along.column
  have cell := along.left
  rw [row, column, table_succ (by omega) (by omega), if_neg different] at cell
  have inFirst := row ▸ along.inFirst
  have inSecond := column ▸ along.inSecond
  split
  next =>
    refine ⟨by dsimp only; omega, inColumn, ?_, along.total, along.written, ?_, along.inSecond,
      along.describes, fun r member => ?_⟩
    · dsimp only
      rw [column]
      omega
    · exact inFirst.trans (List.drop_sublist_drop_left x (Nat.le_succ i))
    · have := along.above r member
      dsimp only
      omega
  next =>
    refine ⟨inRow, by dsimp only; omega, ?_, along.total, along.written, along.inFirst, ?_,
      along.describes, fun r member => ?_⟩
    · dsimp only
      rw [row]
      omega
    · exact inSecond.trans (List.drop_sublist_drop_left y (Nat.le_succ k))
    · have := along.above r member
      dsimp only
      omega

theorem Along.step_different (along : Along x y s ranges w)
    (state : Closed x ranges w ∨ Open ranges w) (row : w.i = i + 1) (column : w.k = k + 1)
    (different : x[i]? ≠ y[k]?) :
    Along x y s ranges (step x y 0 (table x y) w) ∧
      Closed x ranges (step x y 0 (table x y) w) := by
  have next := along.neighbour row column different
  rw [row, column] at next
  unfold step
  rw [row, column, Nat.add_sub_cancel, Nat.add_sub_cancel, if_neg different]
  rcases state with ⟨isClosed, isFound⟩ | isOpen
  · rw [if_neg (not_not.mpr isClosed)]
    refine ⟨next, ?_⟩
    split <;> exact ⟨isClosed, isFound⟩
  · have fits := isOpen.fits along
    have inside := fits.aOrder.trans_lt fits.aLast
    obtain ⟨rest, isRange, isFound, -⟩ := isOpen
    rw [if_pos (Nat.ne_of_lt inside)]
    refine ⟨next.report, @report_closed x _ _ rest ?_ ?_⟩
    · split <;> exact isRange
    · split <;> exact isFound

theorem Along.step (along : Along x y s ranges w) (state : Closed x ranges w ∨ Open ranges w)
    (inside : 0 < w.i ∧ 0 < w.k) :
    ∃ s ranges, Along x y s ranges (step x y 0 (table x y) w) ∧
      (Closed x ranges (Lcs.step x y 0 (table x y) w) ∨
        Open ranges (Lcs.step x y 0 (table x y) w)) := by
  obtain ⟨i, row⟩ := Nat.exists_eq_add_of_lt inside.1
  obtain ⟨k, column⟩ := Nat.exists_eq_add_of_lt inside.2
  rw [Nat.zero_add] at row column
  have inRow := along.row
  by_cases same : x[i]? = y[k]?
  · have isByte := List.getElem?_eq_getElem (show i < x.length by omega)
    exact along.step_matched state row column isByte (same.symm.trans isByte) _
  · obtain ⟨next, isClosed⟩ := along.step_different state row column same
    exact ⟨s, ranges, next, .inl isClosed⟩

theorem Along.walk (along : Along x y s ranges w) (state : Closed x ranges w ∨ Open ranges w) :
    ∃ s ranges, Along x y s ranges (walk x y 0 (table x y) w) ∧
      Closed x ranges (Lcs.walk x y 0 (table x y) w) ∧ (Lcs.walk x y 0 (table x y) w).idx = 0 := by
  induction w using Lcs.walk.induct x y 0 (table x y) generalizing s ranges with
  | case1 w inside ih =>
    obtain ⟨s, ranges, next, state⟩ := along.step state inside
    rw [Lcs.walk, if_pos inside]
    exact ih next state
  | case2 w outside =>
    rw [Lcs.walk, if_neg outside]
    refine ⟨s, ranges, along, ?_, ?_⟩
    · rcases state with isClosed | ⟨_, _, _, _, _, inside⟩
      · exact isClosed
      · exact absurd inside outside
    · rw [along.left]
      exact table_zero (by omega)

def Walk.kept (n : Nat) (w : Walk) : Walk :=
  { w with found := w.found.filter (fun r => n ≤ r.length) }

theorem report_kept (n : Nat) (w : Walk) : report x n (w.kept n) = (report x 0 w).kept n := by
  unfold report Walk.kept
  dsimp only
  have isLong : (n = 0 ∨ (w.range.aEnd - w.range.aStart + 1 : Int) ≥ n) ↔
      decide (n ≤ w.range.length) = true := by
    rw [decide_eq_true_iff]
    unfold MatchRange.length
    omega
  simp only [true_or, if_true, List.filter_append, List.filter_cons, List.filter_nil]
  split
  next long => rw [if_pos (isLong.mp long)]
  next short => rw [if_neg (fun long => short (isLong.mpr long)), List.append_nil]

theorem kept_ite (n : Nat) (c : Prop) [Decidable c] (w w' : Walk) :
    (if c then w else w').kept n = if c then w.kept n else w'.kept n := apply_ite _ _ _ _

theorem step_kept (n : Nat) (t : Table Nat) (w : Walk) :
    step x y n t (w.kept n) = (step x y 0 t w).kept n := by
  unfold step
  simp only [kept_ite, ← report_kept]
  rfl

theorem walk_kept (n : Nat) (t : Table Nat) (w : Walk) :
    walk x y n t (w.kept n) = (walk x y 0 t w).kept n := by
  induction w using walk.induct x y 0 t with
  | case1 w inside ih =>
    have more : 0 < (w.kept n).i ∧ 0 < (w.kept n).k := inside
    rw [walk.eq_def x y n, if_pos more, step_kept, ih, walk.eq_def x y 0 t w, if_pos inside]
  | case2 w outside =>
    have done : ¬ (0 < (w.kept n).i ∧ 0 < (w.kept n).k) := outside
    rw [walk.eq_def x y n, if_neg done, walk.eq_def x y 0 t w, if_neg outside]

/-- The reply is made from a longest common subsequence and the ranges it consists of, the last
one first; MINMATCHLEN keeps those of this length. -/
theorem answer_exact (x y : Bytes) :
    ∃ s ranges, Longest s x y ∧ Describes x y s ranges ∧ ∀ o : Opts, answer x y o =
      if o.getIdx then
        .array [.bulk (ascii "matches"),
          .array ((ranges.reverse.filter (fun r => o.minMatchLen ≤ r.length)).map
            (MatchRange.reply o.withMatchLen)),
          .bulk (ascii "len"), .integer s.length]
      else if o.getLen then .integer s.length
      else .bulk s := by
  have start : Along x y [] []
      { i := x.length, k := y.length, idx := table x y x.length y.length
        result := List.replicate (table x y x.length y.length) 0
        range := ⟨x.length, 0, 0, 0⟩ } :=
    ⟨Nat.le_refl _, Nat.le_refl _, rfl, rfl, (List.append_nil _).symm, List.nil_sublist _,
      List.nil_sublist _, ⟨fun _ none => absurd none List.not_mem_nil, .nil, rfl⟩,
      fun _ none => absurd none List.not_mem_nil⟩
  obtain ⟨s, ranges, along, ⟨-, isFound⟩, isDone⟩ := start.walk (.inl ⟨rfl, rfl⟩)
  have total := along.total
  have written := along.written
  rw [isDone, Nat.zero_add] at total
  rw [isDone, List.replicate_zero, List.nil_append] at written
  refine ⟨s, ranges, ⟨?_, ?_, ?_⟩, along.describes, fun o => ?_⟩
  · exact along.inFirst.trans (List.drop_sublist _ _)
  · exact along.inSecond.trans (List.drop_sublist _ _)
  · intro other inFirst inSecond
    rw [total]
    exact common_le (Nat.le_refl _) (Nat.le_refl _) (by rwa [List.take_length])
      (by rwa [List.take_length])
  · unfold answer walked
    have kept := walk_kept (x := x) (y := y) o.minMatchLen (table x y)
      { i := x.length, k := y.length, idx := table x y x.length y.length
        result := List.replicate (table x y x.length y.length) 0
        range := ⟨x.length, 0, 0, 0⟩ }
    dsimp only [Walk.kept, List.filter_nil] at kept ⊢
    rw [kept, ← isFound, List.reverse_reverse, written, total]

theorem lcs_answers {ctx : Ctx} {a : List Bytes} {db db₁ db₂ : Db} {o : Opts}
    (first : fetch ctx (arg a 1) db = (.ok x, db₁)) (second : fetch ctx (arg a 2) db₁ = (.ok y, db₂))
    (isOpts : opts {} (a.drop 3) = .ok o) (notBoth : ¬ (o.getIdx && o.getLen) = true) :
    lcs ctx a db = (.value (answer x y o), db₂) := by
  unfold lcs
  rw [first]
  unfold Outcome.andThen
  dsimp only
  rw [second, isOpts]
  unfold parsed
  dsimp only
  rw [if_neg notBoth]

end NoidaDb.Redis.Lcs
