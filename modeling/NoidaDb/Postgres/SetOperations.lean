/-
Set operations and recursive queries: how many copies of a row they return.

SELECT, VALUES and data-modifying statements stand for themselves: they read and write the
executor's state, of which only the slots of WITH tables matter here.
-/

import Mathlib.Data.List.Sort
import NoidaDb.Lib.ExceptState
import NoidaDb.Lib.ListUpdates
import NoidaDb.Lib.Multiplicities
import NoidaDb.Postgres.Value
import NoidaDb.Postgres.ValueOrder

namespace NoidaDb.Postgres.Queries

open PgValue
open NoidaDb.Lib

def invalidRowCountInLimit : String := "2201W"
def invalidRowCountInOffset : String := "2201X"
def programLimitExceeded : String := "54000"
def outOfMemory : String := "53200"

def maxRecursiveRows : Nat := 1000000

def maxRounds : Nat := 100000

inductive SetOpKind where
  | union
  | intersect
  | except
deriving Repr, DecidableEq

structure SortKey where
  col : Nat
  desc : Bool := false
  nullsFirst : Bool := false

variable {S V : Type}

structure QueryCtx (S V : Type) where
  ctes : List (Option (List (Row V)))
  rest : S

abbrev QueryM (S V : Type) := StateT (QueryCtx S V) (Except PgError)

inductive Query (S V : Type) where
  | leaf (run : QueryM S V (List (Row V)))
  | setOp (op : SetOpKind) (all : Bool) (left right : Query S V) (order : List SortKey)
      (limit offset : Option (QueryM S V (Option Int)))
  | cte (slot : Nat) (query body : Query S V)
  | recursive (slot : Nat) (seed step : Query S V) (all : Bool)

def growCtes (slot : Nat) (ctx : QueryCtx S V) : QueryCtx S V :=
  { ctx with ctes := ctx.ctes ++ List.replicate (slot + 1 - ctx.ctes.length) none }

/-- `ctx.ctes[slot] = Some(rows)`. -/
def setCte (slot : Nat) (rows : List (Row V)) (ctx : QueryCtx S V) : QueryCtx S V :=
  { growCtes slot ctx with ctes := (growCtes slot ctx).ctes.set slot (some rows) }

theorem setCte_slot (slot : Nat) (rows : List (Row V)) (ctx : QueryCtx S V) :
    (setCte slot rows ctx).ctes[slot]? = some (some rows) := by
  unfold setCte growCtes
  rw [List.getElem?_set_self]
  rw [List.length_append, List.length_replicate]
  omega

section Values

variable [PgValue V]

def rowsEqual (a b : Row V) : Bool :=
  a.length == b.length && (a.zip b).all (fun pair => cmpValues pair.1 pair.2 == .eq)

def compareKey (desc nullsFirst : Bool) (x y : V) : Ordering :=
  match isNull x, isNull y with
  | true, true => .eq
  | true, false => if nullsFirst then .lt else .gt
  | false, true => if nullsFirst then .gt else .lt
  | false, false => if desc then (cmpValues x y).swap else cmpValues x y

def compareRows : List SortKey → Row V → Row V → Ordering
  | [], _, _ => .eq
  | k :: keys, a, b =>
    (compareKey k.desc k.nullsFirst (Row.col a k.col) (Row.col b k.col)).then
      (compareRows keys a b)

def sortRows (rows : List (Row V)) (keys : List SortKey) : List (Row V) :=
  if keys.isEmpty then rows else rows.mergeSort (fun a b => compareRows keys a b != .gt)

def dedupRows (rows : List (Row V)) : List (Row V) := distinct rowsEqual [] rows

/-- The rows of UNION, INTERSECT and EXCEPT.  An entry of the right list is marked as used only
for ALL. -/
def combine (op : SetOpKind) (all : Bool) (l r : List (Row V)) : List (Row V) :=
  let pool := r.map (fun row => (row, false))
  let o :=
    match op with
    | .union => l ++ r
    | .intersect => matched rowsEqual all pool l
    | .except => unmatched rowsEqual all pool l
  if all then o else dedupRows o

def applyLimit (rows : List (Row V)) (limit offset : Option (QueryM S V (Option Int))) :
    QueryM S V (List (Row V)) := do
  let rows ← match offset with
    | none => pure rows
    | some e => do
        match ← e with
        | none => pure rows
        | some n =>
          if n < 0 then
            throw { code := invalidRowCountInOffset, message := "OFFSET must not be negative" }
          else pure (rows.drop n.toNat)
  match limit with
  | none => pure rows
  | some e => do
      match ← e with
      | none => pure rows
      | some n =>
        if n < 0 then
          throw { code := invalidRowCountInLimit, message := "LIMIT must not be negative" }
        else pure (rows.take n.toNat)

def didNotTerminate : PgError :=
  { code := programLimitExceeded, message := "recursive query did not terminate" }

def tooManyRows : PgError :=
  { code := outOfMemory
    message := "out of memory"
    detail := some ("recursive query would return more than 1000000 rows; " ++
      "noida-db materializes recursive queries") }

def newRows (all : Bool) (result next : List (Row V)) : List (Row V) :=
  if all then next
  else dedupRows (next.filter (fun r => !result.any (fun x => rowsEqual x r)))

/-- The rounds of a recursive query; `left` of them are still allowed. -/
def recursiveLoop (slot : Nat) (all : Bool) (step : QueryM S V (List (Row V))) :
    Nat → List (Row V) → List (Row V) → QueryM S V (List (Row V))
  | 0, result, working => if working.isEmpty then pure result else throw didNotTerminate
  | left + 1, result, working =>
    if working.isEmpty then pure result
    else do
      modify (setCte slot working)
      let next ← step
      let next := newRows all result next
      if (result ++ next).length > maxRecursiveRows then throw tooManyRows
      else recursiveLoop slot all step left (result ++ next) next

def runQuery : Query S V → QueryM S V (List (Row V))
  | .leaf run => run
  | .setOp op all left right order limit offset => do
      let l ← runQuery left
      let r ← runQuery right
      applyLimit (sortRows (combine op all l r) order) limit offset
  | .cte slot query body => do
      let rows ← runQuery query
      modify (setCte slot rows)
      runQuery body
  | .recursive slot seed step all => do
      modify (growCtes slot)
      let seeds ← runQuery seed
      let result := if all then seeds else dedupRows seeds
      let result ← recursiveLoop slot all (runQuery step) maxRounds result result
      modify (setCte slot result)
      pure result

theorem rowsEqual_iff (a b : Row V) :
    rowsEqual a b = true ↔ List.Forall₂ (fun x y => cmpValues x y = .eq) a b := by
  unfold rowsEqual
  rw [List.forall₂_iff_zip]
  simp only [Bool.and_eq_true, beq_iff_eq, List.all_eq_true, Prod.forall]

/-- On the rows of `D`, equality by `rows_equal` is transitive. -/
def TransitiveOn (D : Row V → Prop) : Prop :=
  ∀ a b c, D a → D b → D c → rowsEqual a b = true → rowsEqual b c = true → rowsEqual a c = true

variable {D : Row V → Prop}

theorem rowsEqual_refl (a : Row V) : rowsEqual a a = true := by
  rw [rowsEqual_iff]
  exact List.forall₂_same.mpr (fun x _ => cmp_refl x)

theorem rowsEqual_symm {a b : Row V} (equal : rowsEqual a b = true) : rowsEqual b a = true := by
  rw [rowsEqual_iff] at equal ⊢
  exact equal.flip.imp (fun x y here => cmp_symm y x here)

/-- Equality is transitive on rows whose columns each have one type. -/
theorem TransitiveOn.of_columns {types : List (V → Prop)}
    (ordered : ∀ T ∈ types, PreorderOn cmpValues T) :
    TransitiveOn (fun row : Row V => List.Forall₂ (fun T v => T v) types row) := by
  intro a b c isA isB isC first second
  rw [rowsEqual_iff] at first second ⊢
  induction isA generalizing b c with
  | nil =>
    cases first
    exact second
  | cons isV _ ih =>
    cases isB with
    | cons isW restB =>
      cases isC with
      | cons isX restC =>
        obtain ⟨here, later⟩ := List.forall₂_cons.mp first
        obtain ⟨here', later'⟩ := List.forall₂_cons.mp second
        obtain ⟨order, others⟩ := List.forall_mem_cons.mp ordered
        exact .cons (order.eq_trans isV isW isX here here')
          (ih others _ _ restB restC later later')

theorem TransitiveOn.equality (transitive : TransitiveOn D) : EqualityOn (rowsEqual (V := V)) D :=
  ⟨rowsEqual_refl, rowsEqual_symm, fun isA isB isC => transitive _ _ _ isA isB isC⟩

theorem copies_dedupRows (transitive : TransitiveOn D) {row : Row V} (isRow : D row)
    {rows : List (Row V)} (inside : ∀ r ∈ rows, D r) :
    copies rowsEqual row (dedupRows rows) = if 0 < copies rowsEqual row rows then 1 else 0 :=
  copies_distinct_nil transitive.equality isRow inside

theorem mem_dedupRows {row : Row V} {rows : List (Row V)} (member : row ∈ dedupRows rows) :
    row ∈ rows := by
  rcases mem_distinct member with inNil | inRows
  · cases inNil
  · exact inRows

/-- The copies that ALL keeps, of `m` on the left and `n` on the right. -/
def SetOpKind.copies : SetOpKind → Nat → Nat → Nat
  | .union, m, n => m + n
  | .intersect, m, n => min m n
  | .except, m, n => m - n

def SetOpKind.Has : SetOpKind → Nat → Nat → Prop
  | .union, m, n => 0 < m ∨ 0 < n
  | .intersect, m, n => 0 < m ∧ 0 < n
  | .except, m, n => 0 < m ∧ n = 0

theorem copies_combine_union (row : Row V) (l r : List (Row V)) :
    copies rowsEqual row (combine .union true l r) =
      copies rowsEqual row l + copies rowsEqual row r :=
  copies_append row l r

section Combine

variable (transitive : TransitiveOn D) {row : Row V} (isRow : D row)

variable {l r : List (Row V)} (inL : ∀ x ∈ l, D x) (inR : ∀ x ∈ r, D x)

include transitive isRow inL inR

theorem copies_combine_all (op : SetOpKind) :
    copies rowsEqual row (combine op true l r) =
      op.copies (copies rowsEqual row l) (copies rowsEqual row r) := by
  have fresh := unused_fresh transitive.equality row r
  have inPool : ∀ x ∈ (r.map (fun row => (row, false))).map Prod.fst, D x := by
    simpa using inR
  cases op with
  | union => exact copies_append row l r
  | intersect =>
    show copies rowsEqual row (matched rowsEqual true _ l) = _
    rw [copies_matched_once transitive.equality isRow inPool inL, fresh]
    rfl
  | except =>
    show copies rowsEqual row (unmatched rowsEqual true _ l) = _
    rw [copies_unmatched_once transitive.equality isRow inPool inL, fresh]
    rfl

theorem copies_combine_distinct (op : SetOpKind) :
    (op.Has (copies rowsEqual row l) (copies rowsEqual row r) →
      copies rowsEqual row (combine op false l r) = 1) ∧
    (¬ op.Has (copies rowsEqual row l) (copies rowsEqual row r) →
      copies rowsEqual row (combine op false l r) = 0) := by
  have fresh := unused_fresh transitive.equality row r
  have inPool : ∀ x ∈ (r.map (fun row => (row, false))).map Prod.fst, D x := by
    simpa using inR
  cases op with
  | union =>
    have inBoth : ∀ x ∈ l ++ r, D x := by
      intro x member
      exact (List.mem_append.mp member).elim (inL x) (inR x)
    show (_ → copies rowsEqual row (dedupRows (l ++ r)) = 1) ∧
      (_ → copies rowsEqual row (dedupRows (l ++ r)) = 0)
    rw [copies_dedupRows transitive isRow inBoth, copies_append]
    simp only [SetOpKind.Has]
    split <;> omega
  | intersect =>
    have inside : ∀ x ∈ matched rowsEqual false (r.map (fun row => (row, false))) l, D x :=
      fun x member => inL x (mem_matched member)
    show (_ → copies rowsEqual row (dedupRows (matched rowsEqual false _ l)) = 1) ∧
      (_ → copies rowsEqual row (dedupRows (matched rowsEqual false _ l)) = 0)
    rw [copies_dedupRows transitive isRow inside,
      copies_matched transitive.equality isRow inPool inL, fresh]
    simp only [SetOpKind.Has]
    split <;> split at * <;> omega
  | except =>
    have inside : ∀ x ∈ unmatched rowsEqual false (r.map (fun row => (row, false))) l, D x :=
      fun x member => inL x (mem_unmatched member)
    show (_ → copies rowsEqual row (dedupRows (unmatched rowsEqual false _ l)) = 1) ∧
      (_ → copies rowsEqual row (dedupRows (unmatched rowsEqual false _ l)) = 0)
    rw [copies_dedupRows transitive isRow inside,
      copies_unmatched transitive.equality isRow inPool inL, fresh]
    simp only [SetOpKind.Has]
    split <;> split at * <;> omega

end Combine

theorem sortRows_perm (rows : List (Row V)) (keys : List SortKey) : (sortRows rows keys).Perm rows := by
  unfold sortRows
  split
  · exact List.Perm.refl rows
  · exact List.mergeSort_perm rows _

variable (D) in
/-- The query returns what `f` makes of the table in its slot, and changes nothing. -/
def PureStep (slot : Nat) (step : Query S V) (f : List (Row V) → List (Row V)) : Prop :=
  ∀ (ctx : QueryCtx S V) rows, (∀ row ∈ rows, D row) → ctx.ctes[slot]? = some (some rows) →
    runQuery step ctx = .ok (f rows, ctx)

def Has (rows : List (Row V)) (row : Row V) : Prop := 0 < copies rowsEqual row rows

variable (D) in
/-- The step of a UNION of tables has the rows of its steps of each. -/
def Distributes (f : List (Row V) → List (Row V)) : Prop :=
  ∀ tables : List (List (Row V)), (∀ table ∈ tables, ∀ row ∈ table, D row) → ∀ row, D row →
    (Has (f (dedupRows tables.flatten)) row ↔ ∃ table, table ∈ tables ∧ Has (f table) row)

variable (D) in
def StaysIn (f : List (Row V) → List (Row V)) : Prop :=
  ∀ rows : List (Row V), (∀ row ∈ rows, D row) → ∀ row ∈ f rows, D row

variable (D) in
structure Closed (f : List (Row V) → List (Row V)) (seeds : List (Row V)) (R : Row V → Prop) :
    Prop where
  respects : ∀ a b, D a → D b → rowsEqual a b = true → R a → R b
  seeds : ∀ row, row ∈ seeds → R row
  step : ∀ rows, (∀ row, row ∈ rows → D row ∧ R row) → ∀ row, row ∈ f rows → R row

variable (D) in
/-- The least set that has the seeds and is closed under the step. -/
def Least (f : List (Row V) → List (Row V)) (seeds : List (Row V)) (row : Row V) : Prop :=
  ∀ R : Row V → Prop, Closed D f seeds R → R row

/-- What `n` steps make of the seeds, each taken on all the rows so far. -/
def reached (f : List (Row V) → List (Row V)) (seeds : List (Row V)) : Nat → List (Row V)
  | 0 => seeds
  | n + 1 => reached f seeds n ++ f (reached f seeds n)

variable (D) in
/-- The least set has no more rows than may be returned, and fewer steps than there may be rounds
make each of them. -/
structure WithinLimits (f : List (Row V) → List (Row V)) (seeds : List (Row V)) : Prop where
  rounds : ∀ row, D row → Least D f seeds row → Has (reached f seeds (maxRounds - 1)) row
  rows : ∃ all : List (Row V), all.length ≤ maxRecursiveRows ∧ (∀ row ∈ all, D row) ∧
    ∀ row, D row → Least D f seeds row → Has all row

variable {row : Row V}

theorem has_iff {rows : List (Row V)} : Has rows row ↔ ∃ b, b ∈ rows ∧ rowsEqual row b = true :=
  copies_pos

theorem has_of_mem {rows : List (Row V)} (member : row ∈ rows) : Has rows row :=
  has_iff.mpr ⟨row, member, rowsEqual_refl row⟩

theorem not_has_nil (row : Row V) : ¬ Has [] row := Nat.lt_irrefl 0

theorem has_append {rows others : List (Row V)} :
    Has (rows ++ others) row ↔ Has rows row ∨ Has others row := by
  unfold Has
  rw [copies_append]
  omega

theorem mem_newRows {result next : List (Row V)} (member : row ∈ newRows false result next) :
    row ∈ next :=
  (List.mem_filter.mp (mem_dedupRows member)).1

section Transitive

variable (transitive : TransitiveOn D)

include transitive

theorem Has.respects {rows : List (Row V)} (inside : ∀ r ∈ rows, D r) {a b : Row V} (isA : D a)
    (isB : D b) (equal : rowsEqual a b = true) (has : Has rows a) : Has rows b := by
  unfold Has at has ⊢
  rwa [copies_congr transitive.equality isA isB equal inside] at has

theorem has_dedupRows {rows : List (Row V)} (inside : ∀ r ∈ rows, D r) (isRow : D row) :
    Has (dedupRows rows) row ↔ Has rows row := by
  unfold Has
  rw [copies_dedupRows transitive isRow inside]
  split <;> omega

theorem has_newRows {result next : List (Row V)} (inResult : ∀ r ∈ result, D r)
    (inNext : ∀ r ∈ next, D r) (isRow : D row) :
    Has (newRows false result next) row ↔ Has next row ∧ ¬ Has result row := by
  show Has (dedupRows (next.filter _)) row ↔ _
  rw [has_dedupRows transitive (fun r member => inNext r (List.mem_of_mem_filter member)) isRow,
    has_iff]
  constructor
  · rintro ⟨b, member, equal⟩
    obtain ⟨isNext, isNew⟩ := List.mem_filter.mp member
    refine ⟨has_iff.mpr ⟨b, isNext, equal⟩, ?_⟩
    intro already
    obtain ⟨c, isResult, equal'⟩ := has_iff.mp
      (already.respects transitive inResult isRow (inNext b isNext) equal)
    have found : result.any (fun x => rowsEqual x b) = true :=
      List.any_eq_true.mpr ⟨c, isResult, rowsEqual_symm equal'⟩
    rw [found] at isNew
    cases isNew
  · rintro ⟨has, isNew⟩
    obtain ⟨b, isNext, equal⟩ := has_iff.mp has
    refine ⟨b, List.mem_filter.mpr ⟨isNext, ?_⟩, equal⟩
    rw [Bool.not_eq_true']
    apply Bool.eq_false_iff.mpr
    intro found
    obtain ⟨c, isResult, equal'⟩ := List.any_eq_true.mp found
    apply isNew
    have isC := inResult c isResult
    have has : Has result c := has_of_mem isResult
    have hasB := has.respects transitive inResult isC (inNext b isNext) equal'
    exact hasB.respects transitive inResult (inNext b isNext) isRow (rowsEqual_symm equal)

theorem copies_newRows_le {result next : List (Row V)} (inNext : ∀ r ∈ next, D r)
    (isRow : D row) : copies rowsEqual row (newRows false result next) ≤ 1 := by
  show copies rowsEqual row (dedupRows _) ≤ 1
  rw [copies_dedupRows transitive isRow
    (fun r member => inNext r (List.mem_of_mem_filter member))]
  split <;> omega

end Transitive

section Step

variable {f : List (Row V) → List (Row V)} {seeds : List (Row V)}

omit [PgValue V] in
theorem reached_inside (stays : StaysIn D f) (inSeeds : ∀ r ∈ seeds, D r) (n : Nat) :
    ∀ r ∈ reached f seeds n, D r := by
  induction n with
  | zero => exact inSeeds
  | succ n ih =>
    intro r member
    exact (List.mem_append.mp member).elim (ih r) (stays _ ih r)

theorem reached_mono {m n : Nat} (later : m ≤ n) (has : Has (reached f seeds m) row) :
    Has (reached f seeds n) row := by
  induction n, later using Nat.le_induction with
  | base => exact has
  | succ n _ ih => exact has_append.mpr (Or.inl ih)

theorem Distributes.each (distributes : Distributes D f) {rows : List (Row V)}
    (inside : ∀ r ∈ rows, D r) (isRow : D row) :
    Has (f rows) row ↔ ∃ v, v ∈ rows ∧ Has (f [v]) row := by
  have whole := distributes [rows] (by simpa using inside) row isRow
  have single := distributes (rows.map (fun v => [v])) (by simpa using inside) row isRow
  have flat : (rows.map (fun v => [v])).flatten = rows := by
    rw [← List.flatMap_def, List.flatMap_singleton']
  rw [flat] at single
  simp only [List.flatten_singleton, List.mem_singleton, exists_eq_left] at whole
  rw [← whole, single]
  constructor
  · rintro ⟨table, member, has⟩
    obtain ⟨v, inRows, rfl⟩ := List.mem_map.mp member
    exact ⟨v, inRows, has⟩
  · rintro ⟨v, inRows, has⟩
    exact ⟨[v], List.mem_map_of_mem inRows, has⟩

theorem Distributes.congr (distributes : Distributes D f) {a b : Row V} (isA : D a) (isB : D b)
    (isRow : D row) (equal : rowsEqual a b = true) (has : Has (f [a]) row) :
    Has (f [b]) row := by
  have both := distributes [[b], [a]] (by simp [isA, isB]) row isRow
  have one : dedupRows [[b], [a]].flatten = [b] := by
    simp [dedupRows, distinct, rowsEqual_symm equal]
  rw [one] at both
  exact both.mpr ⟨[a], by simp, has⟩

variable (D) in
/-- What the rounds keep: the rows so far are distinct, all in the least set, and what the step
makes of those that no longer work is there.  They are those of `n` steps, and the working ones
are of no fewer. -/
structure Round (f : List (Row V) → List (Row V)) (seeds : List (Row V)) (n : Nat)
    (result working : List (Row V)) : Prop where
  inside : ∀ row, row ∈ result → D row
  once : ∀ row, D row → copies rowsEqual row result ≤ 1
  least : ∀ row, row ∈ result → Least D f seeds row
  within : ∀ row, row ∈ working → row ∈ result
  stepped : ∀ row, D row → Has result row →
    Has working row ∨ ∀ r, D r → Has (f [row]) r → Has result r
  level : ∀ row, D row → (Has result row ↔ Has (reached f seeds n) row)
  fresh : n ≠ 0 → ∀ row, row ∈ working → ¬ Has (reached f seeds (n - 1)) row
  idle : working = [] → ∀ row, D row → Has (reached f seeds n) row →
    Has (reached f seeds (n - 1)) row

section Rounds

variable (transitive : TransitiveOn D) (inSeeds : ∀ r ∈ seeds, D r)

include transitive inSeeds

variable (f) in
theorem round_seeds : Round D f seeds 0 (dedupRows seeds) (dedupRows seeds) := by
  constructor
  · exact fun row member => inSeeds row (mem_dedupRows member)
  · intro row isRow
    rw [copies_dedupRows transitive isRow inSeeds]
    split <;> omega
  · exact fun row member R closed => closed.seeds row (mem_dedupRows member)
  · exact fun row member => member
  · exact fun row _ has => Or.inl has
  · exact fun row isRow => has_dedupRows transitive inSeeds isRow
  · exact fun more => (more rfl).elim
  · exact fun _ row _ has => has

variable (distributes : Distributes D f) (stays : StaysIn D f)

include distributes stays

theorem Round.next {n : Nat} {result working : List (Row V)}
    (round : Round D f seeds n result working) :
    Round D f seeds (n + 1) (result ++ newRows false result (f working))
      (newRows false result (f working)) := by
  have inWorking : ∀ r ∈ working, D r := fun r member => round.inside r (round.within r member)
  have inNext := stays working inWorking
  have inReached := reached_inside stays inSeeds n
  -- A row that has worked has brought what the step makes of it.
  have worked : ∀ row r, D row → D r → Has working row → Has (f [row]) r → Has (f working) r := by
    intro row r isRow isR works made
    obtain ⟨v, member, equal⟩ := has_iff.mp works
    exact (distributes.each inWorking isR).mpr
      ⟨v, member, distributes.congr isRow (inWorking v member) isR equal made⟩
  have level : ∀ row, D row → (Has (result ++ newRows false result (f working)) row ↔
      Has (reached f seeds (n + 1)) row) := by
    intro row isRow
    have here := round.level row isRow
    show _ ↔ Has (reached f seeds n ++ f (reached f seeds n)) row
    rw [has_append, has_append, has_newRows transitive round.inside inNext isRow]
    constructor
    · rintro (earlier | ⟨new, _⟩)
      · exact Or.inl (here.mp earlier)
      · right
        obtain ⟨v, member, made⟩ := (distributes.each inWorking isRow).mp new
        have isV := inWorking v member
        have hasV := (round.level v isV).mp (has_of_mem (round.within v member))
        obtain ⟨w, isReached, equal⟩ := has_iff.mp hasV
        exact (distributes.each inReached isRow).mpr
          ⟨w, isReached, distributes.congr isV (inReached w isReached) isRow equal made⟩
    · rintro (earlier | new)
      · exact Or.inl (here.mpr earlier)
      · obtain ⟨w, isReached, made⟩ := (distributes.each inReached isRow).mp new
        have isW := inReached w isReached
        have hasW := (round.level w isW).mpr (has_of_mem isReached)
        by_cases already : Has result row
        · exact Or.inl already
        · rcases round.stepped w isW hasW with works | done
          · exact Or.inr ⟨worked w row isW isRow works made, already⟩
          · exact (already (done row isRow made)).elim
  constructor
  · intro row member
    rcases List.mem_append.mp member with earlier | new
    · exact round.inside row earlier
    · exact inNext row (mem_newRows new)
  · intro row isRow
    have before := round.once row isRow
    have new : copies rowsEqual row (newRows false result (f working)) ≤ 1 :=
      copies_newRows_le transitive inNext isRow
    have apart : Has (newRows false result (f working)) row → ¬ Has result row :=
      fun has => ((has_newRows transitive round.inside inNext isRow).mp has).2
    unfold Has at apart
    rw [copies_append]
    omega
  · intro row member
    rcases List.mem_append.mp member with earlier | new
    · exact round.least row earlier
    · intro R closed
      apply closed.step working _ row (mem_newRows new)
      intro v member
      exact ⟨inWorking v member, round.least v (round.within v member) R closed⟩
  · exact fun row member => List.mem_append_right result member
  · intro row isRow has
    rcases has_append.mp has with earlier | new
    · right
      intro r isR made
      rcases round.stepped row isRow earlier with works | done
      · by_cases already : Has result r
        · exact has_append.mpr (Or.inl already)
        · exact has_append.mpr (Or.inr ((has_newRows transitive round.inside inNext isR).mpr
            ⟨worked row r isRow isR works made, already⟩))
      · exact has_append.mpr (Or.inl (done r isR made))
    · exact Or.inl new
  · exact level
  · intro _ row member has
    have isRow := inNext row (mem_newRows member)
    have isNew := (has_newRows transitive round.inside inNext isRow).mp (has_of_mem member)
    exact isNew.2 ((round.level row isRow).mpr has)
  · intro idle row isRow has
    have hasResult := (level row isRow).mpr has
    rw [idle, List.append_nil] at hasResult
    exact (round.level row isRow).mp hasResult

end Rounds

theorem Closed.least {a b : Row V} (isA : D a) (isB : D b) (equal : rowsEqual a b = true)
    (least : Least D f seeds a) : Least D f seeds b :=
  fun R closed => closed.respects a b isA isB equal (least R closed)

variable (D) in
def LeastOnce (f : List (Row V) → List (Row V)) (seeds rows : List (Row V)) : Prop :=
  ∀ row, D row → (Least D f seeds row → copies rowsEqual row rows = 1) ∧
    (¬ Least D f seeds row → copies rowsEqual row rows = 0)

section Loop

variable (transitive : TransitiveOn D) (inSeeds : ∀ r ∈ seeds, D r)

variable (distributes : Distributes D f) (stays : StaysIn D f)

include transitive inSeeds distributes stays

theorem Round.leastOnce {n : Nat} {result : List (Row V)}
    (round : Round D f seeds n result []) : LeastOnce D f seeds result := by
  have closed : Closed D f seeds (fun row => D row ∧ Has result row) := by
    constructor
    · exact fun a b isA isB equal has =>
        ⟨isB, has.2.respects transitive round.inside isA isB equal⟩
    · intro row member
      have isRow := inSeeds row member
      have isSeed : Has seeds row := has_of_mem member
      exact ⟨isRow, (round.level row isRow).mpr (reached_mono (Nat.zero_le n) isSeed)⟩
    · intro rows all row member
      have inRows : ∀ r ∈ rows, D r := fun r isIn => (all r isIn).1
      have isRow := stays rows inRows row member
      obtain ⟨v, isIn, made⟩ :=
        (distributes.each inRows isRow).mp (has_of_mem member)
      rcases round.stepped v (inRows v isIn) (all v isIn).2.2 with works | done
      · exact (not_has_nil v works).elim
      · exact ⟨isRow, done row isRow made⟩
  intro row isRow
  constructor
  · intro least
    have has : 0 < copies rowsEqual row result := (least _ closed).2
    have once := round.once row isRow
    omega
  · intro outside
    apply Nat.eq_zero_of_not_pos
    intro has
    obtain ⟨b, member, equal⟩ := has_iff.mp has
    exact outside (Closed.least (round.inside b member) isRow (rowsEqual_symm equal)
      (round.least b member))

omit inSeeds distributes stays in
theorem Round.length_le {n : Nat} {result working : List (Row V)}
    (round : Round D f seeds n result working) (limits : WithinLimits D f seeds) :
    result.length ≤ maxRecursiveRows := by
  obtain ⟨all, fits, inAll, hasAll⟩ := limits.rows
  have covered := length_le_of_covered transitive.equality round.inside inAll round.once
    (fun row member => hasAll row (round.inside row member) (round.least row member))
  omega

theorem Round.finished {n : Nat} {result : List (Row V)}
    (round : Round D f seeds n result []) (inTime : n ≤ maxRounds)
    (fits : result.length ≤ maxRecursiveRows) :
    LeastOnce D f seeds result ∧ WithinLimits D f seeds := by
  have leastOnce := round.leastOnce transitive inSeeds distributes stays
  have hasLeast : ∀ row, D row → Least D f seeds row → Has result row := by
    intro row isRow least
    have one := (leastOnce row isRow).1 least
    unfold Has
    omega
  refine ⟨leastOnce, ?_, result, fits, round.inside, hasLeast⟩
  intro row isRow least
  have atEnd := (round.level row isRow).mp (hasLeast row isRow least)
  exact reached_mono (by omega) (round.idle rfl row isRow atEnd)

theorem recursiveLoop_least {slot : Nat} {step : Query S V} (isPure : PureStep D slot step f)
    {left n : Nat} (rounds : left + n = maxRounds) {result working : List (Row V)}
    (round : Round D f seeds n result working)
    (fits : working = [] → result.length ≤ maxRecursiveRows) (ctx : QueryCtx S V) :
    Yields (recursiveLoop slot false (runQuery step) left result working) ctx
      (fun rows _ => LeastOnce D f seeds rows ∧ WithinLimits D f seeds)
      (fun e => ¬ WithinLimits D f seeds ∧ (e = didNotTerminate ∨ e = tooManyRows)) := by
  induction left generalizing n result working ctx with
  | zero =>
    apply Yields.ite
    · intro idle
      rw [List.isEmpty_iff.mp idle] at round
      exact Yields.pure (round.finished transitive inSeeds distributes stays (by omega)
        (fits (List.isEmpty_iff.mp idle)))
    · intro works
      apply Yields.throw
      refine ⟨?_, Or.inl rfl⟩
      intro limits
      obtain ⟨row, member⟩ := List.exists_mem_of_ne_nil working (by simpa using works)
      have isResult := round.within row member
      have inTime := limits.rounds row (round.inside row isResult) (round.least row isResult)
      have isLast : n = maxRounds := by omega
      rw [← isLast] at inTime
      exact round.fresh (by rw [isLast]; decide) row member inTime
  | succ left ih =>
    apply Yields.ite
    · intro idle
      rw [List.isEmpty_iff.mp idle] at round
      exact Yields.pure (round.finished transitive inSeeds distributes stays (by omega)
        (fits (List.isEmpty_iff.mp idle)))
    · intro _
      refine Yields.bind (Yields.update ?_)
      have inWorking : ∀ r ∈ working, D r := fun r member => round.inside r (round.within r member)
      have ran := isPure (setCte slot working ctx) working inWorking (setCte_slot slot working ctx)
      have next := round.next transitive inSeeds distributes stays
      refine Yields.bind (Yields.known ran ?_)
      apply Yields.ite
      · intro tooMany
        apply Yields.throw
        refine ⟨?_, Or.inr rfl⟩
        intro limits
        exact Nat.not_lt.mpr (next.length_le transitive limits) tooMany
      · intro few
        exact ih (by omega) next (fun _ => Nat.le_of_not_lt few) _

theorem runQuery_recursive {slot : Nat} {seed step : Query S V}
    (isPure : PureStep D slot step f) {ctx middle : QueryCtx S V}
    (seeded : runQuery seed (growCtes slot ctx) = .ok (seeds, middle)) :
    Yields (runQuery (.recursive slot seed step false)) ctx
      (fun rows _ => LeastOnce D f seeds rows ∧ WithinLimits D f seeds)
      (fun e => ¬ WithinLimits D f seeds ∧ (e = didNotTerminate ∨ e = tooManyRows)) := by
  refine Yields.bind (Yields.update ?_)
  refine Yields.bind (Yields.known seeded ?_)
  have loop := recursiveLoop_least transitive inSeeds distributes stays isPure
    (Nat.add_zero maxRounds) (round_seeds f transitive inSeeds)
    (fun idle => by rw [idle]; exact Nat.zero_le _) middle
  refine Yields.bind (loop.weaken ?_)
  intro rows final least
  exact Yields.bind (Yields.update (Yields.pure least))

end Loop

end Step

theorem recursiveLoop_last {slot left : Nat} {all : Bool} {step : QueryM S V (List (Row V))}
    {result working next : List (Row V)} {ctx after : QueryCtx S V} (works : working ≠ [])
    (ran : step (setCte slot working ctx) = .ok (next, after))
    (nothing : newRows all result next = []) (few : result.length ≤ maxRecursiveRows) :
    recursiveLoop slot all step (left + 1) result working ctx = .ok (result, after) := by
  have busy : working.isEmpty = false := by simpa using works
  show (if working.isEmpty then pure result else _ : QueryM S V (List (Row V))) ctx = _
  rw [busy]
  show Except.bind (step (setCte slot working ctx)) _ = _
  rw [ran]
  show (if (result ++ newRows all result next).length > maxRecursiveRows then throw tooManyRows
    else recursiveLoop slot all step left (result ++ newRows all result next)
      (newRows all result next) : QueryM S V (List (Row V))) after = _
  rw [nothing, List.append_nil, if_neg (Nat.not_lt.mpr few)]
  cases left with
  | zero => rfl
  | succ left => rfl

theorem runQuery_setOp (op : SetOpKind) (all : Bool) {left right : Query S V} (order : List SortKey)
    {ctx middle final : QueryCtx S V} {l r : List (Row V)}
    (isLeft : runQuery left ctx = .ok (l, middle)) (isRight : runQuery right middle = .ok (r, final)) :
    ∃ rows, runQuery (.setOp op all left right order none none) ctx = .ok (rows, final) ∧
      rows.Perm (combine op all l r) := by
  refine ⟨sortRows (combine op all l r) order, ?_, sortRows_perm _ order⟩
  show (runQuery left >>= fun l => runQuery right >>= fun r =>
    applyLimit (sortRows (combine op all l r) order) none none) ctx = _
  show Except.bind (runQuery left ctx) _ = _
  rw [isLeft]
  show Except.bind (runQuery right middle) _ = _
  rw [isRight]
  rfl

end Values

theorem rowsEqual_scalar {a b : Row Scalar} : rowsEqual a b = true ↔ a = b := by
  rw [rowsEqual_iff]
  have same : (fun x y : Scalar => cmpValues x y = .eq) = (· = ·) := by
    funext x y
    exact propext (Scalar.cmpValues_eq_iff x y)
  rw [same, List.forall₂_eq_eq_eq]

theorem has_scalar {rows : List (Row Scalar)} {row : Row Scalar} : Has rows row ↔ row ∈ rows := by
  rw [has_iff]
  constructor
  · rintro ⟨b, member, equal⟩
    rwa [rowsEqual_scalar.mp equal]
  · exact fun member => ⟨row, member, rowsEqual_scalar.mpr rfl⟩

theorem transitiveOn_scalar (D : Row Scalar → Prop) : TransitiveOn D := by
  intro a b c _ _ _ first second
  rw [rowsEqual_scalar] at first second ⊢
  exact first.trans second

abbrev everyRow (V : Type) : Row V → Prop := fun _ => True

theorem distributes_flatMap (next : Row Scalar → List (Row Scalar)) :
    Distributes (everyRow Scalar) (fun rows => rows.flatMap next) := by
  intro tables _ row _
  simp only [has_scalar, List.mem_flatMap]
  constructor
  · rintro ⟨v, member, made⟩
    obtain ⟨table, listed, inTable⟩ := List.mem_flatten.mp (mem_dedupRows member)
    exact ⟨table, listed, v, inTable, made⟩
  · rintro ⟨table, listed, v, inTable, made⟩
    have inTables : v ∈ tables.flatten := List.mem_flatten.mpr ⟨table, listed, inTable⟩
    have kept := (has_dedupRows (transitiveOn_scalar (everyRow Scalar)) (fun _ _ => trivial)
      trivial).mpr (has_of_mem inTables)
    exact ⟨v, has_scalar.mp kept, made⟩

/-- `SELECT n + 1 FROM t WHERE n < 3`. -/
def countUp (row : Row Scalar) : List (Row Scalar) :=
  match row with
  | [.int n] => if n < 3 then [[.int (n + 1)]] else []
  | _ => []

def countStep : Query Unit Scalar :=
  .leaf (do
    let ctx ← get
    pure (((ctx.ctes.getD 0 none).getD []).flatMap countUp))

/-- The rows of a step that reads the table of its slot. -/
theorem readSlot_eq {V : Type} {ctx : QueryCtx Unit V} {rows : List (Row V)}
    (found : ctx.ctes[0]? = some (some rows)) : (ctx.ctes.getD 0 none).getD [] = rows := by
  rw [List.getD_eq_getElem?_getD, found]
  rfl

theorem countStep_pure :
    PureStep (everyRow Scalar) 0 countStep (fun rows => rows.flatMap countUp) := by
  intro ctx rows _ found
  rw [← readSlot_eq found]
  rfl

theorem countUp_withinLimits :
    WithinLimits (everyRow Scalar) (fun rows => rows.flatMap countUp) [[.int 1]] := by
  have inThree : ∀ row, Least (everyRow Scalar) (fun rows => rows.flatMap countUp) [[.int 1]] row →
      row ∈ [[Scalar.int 1], [.int 2], [.int 3]] := by
    intro row least
    apply least (fun row => row ∈ [[Scalar.int 1], [.int 2], [.int 3]])
    constructor
    · intro a b _ _ equal member
      rwa [← rowsEqual_scalar.mp equal]
    · intro row member
      rw [List.mem_singleton.mp member]
      decide
    · intro rows all row member
      obtain ⟨v, inRows, made⟩ := List.mem_flatMap.mp member
      have isV := (all v inRows).2
      simp only [List.mem_cons, List.not_mem_nil, or_false] at isV
      rcases isV with isOne | isTwo | isThree
      · rw [isOne] at made
        rw [List.mem_singleton.mp made]
        decide
      · rw [isTwo] at made
        rw [List.mem_singleton.mp made]
        decide
      · rw [isThree] at made
        cases made
  constructor
  · intro row _ least
    apply reached_mono (m := 2) (by decide)
    rw [has_scalar]
    have isRow := inThree row least
    simp only [List.mem_cons, List.not_mem_nil, or_false] at isRow
    rcases isRow with isOne | isTwo | isThree
    · rw [isOne]
      decide
    · rw [isTwo]
      decide
    · rw [isThree]
      decide
  · exact ⟨[[.int 1], [.int 2], [.int 3]], by decide, fun _ _ => trivial,
      fun row _ least => has_scalar.mpr (inThree row least)⟩

/-- What the columns of a query can hold whose types nothing compares. -/
inductive Datum where
  | null
  | bool (b : Bool)
  | int (i : Int)
  | float (x : Types.F64)
  | text (s : String)

namespace Datum

def value : Datum → Types.Value
  | .null => .null
  | .bool b => .bool b
  | .int i => .int i
  | .float x => .float x
  | .text s => .text s

/-- `i64 as f64`: of the numbers with 53 binary digits the nearest, of two as near the even one. -/
def floatOfInt (i : Int) : Types.F64 :=
  let m := i.natAbs
  let e := Nat.log2 m - 52
  let unit := 2 ^ e
  let up := unit < 2 * (m % unit) ∨ (2 * (m % unit) = unit ∧ m / unit % 2 = 1)
  .finite (i < 0) (if up then m / unit + 1 else m / unit) e

/-- No value here is a NUMERIC. -/
def conversions : Types.Conversions where
  ofInt := floatOfInt
  ofNum := fun _ => .nan

def cmp (a b : Datum) : Ordering := Types.cmpValues conversions a.value b.value

theorem cmpF64_eq_iff (x y : Types.F64) : Types.cmpF64 x y = .eq ↔ x.amount = y.amount := by
  rw [Types.cmpF64_amount, Sql.Amount.cmp_eq_iff]

theorem cmp_int_float {i : Int} {x : Types.F64} (isFloat : floatOfInt i = x) :
    (int i).cmp (float x) = .eq :=
  (cmpF64_eq_iff (floatOfInt i) x).mpr (congrArg Types.F64.amount isFloat)

theorem cmp_refl (a : Datum) : a.cmp a = .eq := by
  cases a with
  | null => rfl
  | bool b => exact Std.LawfulEqOrd.compare_eq_iff_eq.mpr rfl
  | int i => exact Std.LawfulEqOrd.compare_eq_iff_eq.mpr rfl
  | float x => exact (cmpF64_eq_iff x x).mpr rfl
  | text s => exact (Sql.cmpText_eq_iff s s).mpr rfl

theorem cmp_symm {a b : Datum} (equal : a.cmp b = .eq) : b.cmp a = .eq := by
  cases a with
  | null =>
    cases b with
    | null => rfl
    | _ => cases equal
  | bool x =>
    cases b with
    | bool y =>
      have same : x = y := Std.LawfulEqOrd.compare_eq_iff_eq.mp equal
      rw [same]
      exact cmp_refl _
    | _ => cases equal
  | int x =>
    cases b with
    | int y =>
      have same : x = y := Std.LawfulEqOrd.compare_eq_iff_eq.mp equal
      rw [same]
      exact cmp_refl _
    | float y => exact (cmpF64_eq_iff y (floatOfInt x)).mpr ((cmpF64_eq_iff _ _).mp equal).symm
    | _ => cases equal
  | float x =>
    cases b with
    | int y => exact (cmpF64_eq_iff (floatOfInt y) x).mpr ((cmpF64_eq_iff _ _).mp equal).symm
    | float y => exact (cmpF64_eq_iff y x).mpr ((cmpF64_eq_iff _ _).mp equal).symm
    | _ => cases equal
  | text x =>
    cases b with
    | text y => exact (Sql.cmpText_eq_iff y x).mpr ((Sql.cmpText_eq_iff x y).mp equal).symm
    | _ => cases equal

def isNull : Datum → Bool
  | .null => true
  | _ => false

theorem cmp_isNull {a b : Datum} (equal : a.cmp b = .eq) : a.isNull = b.isNull := by
  cases a with
  | null =>
    cases b with
    | null => rfl
    | _ => cases equal
  | _ =>
    cases b with
    | null => cases equal
    | _ => rfl

/-- `n::float8`. -/
def toFloat : Datum → Datum
  | .int i => .float (floatOfInt i)
  | .float x => .float x
  | _ => .null

theorem cmp_toFloat {a b : Datum} (equal : a.cmp b = .eq) (v : Datum) :
    v.cmp a.toFloat = .eq ↔ v.cmp b.toFloat = .eq := by
  have floats : ∀ x y : Types.F64, x.amount = y.amount →
      (v.cmp (.float x) = .eq ↔ v.cmp (.float y) = .eq) := by
    intro x y same
    cases v with
    | int i =>
      show Types.cmpF64 _ _ = .eq ↔ Types.cmpF64 _ _ = .eq
      rw [cmpF64_eq_iff, cmpF64_eq_iff, same]
    | float z =>
      show Types.cmpF64 _ _ = .eq ↔ Types.cmpF64 _ _ = .eq
      rw [cmpF64_eq_iff, cmpF64_eq_iff, same]
    | _ => exact Iff.rfl
  cases a with
  | int x =>
    cases b with
    | int y => rw [(Std.LawfulEqOrd.compare_eq_iff_eq.mp equal : x = y)]
    | float y => exact floats _ _ ((cmpF64_eq_iff _ _).mp equal)
    | _ => cases equal
  | float x =>
    cases b with
    | int y => exact floats _ _ ((cmpF64_eq_iff _ _).mp equal)
    | float y => exact floats _ _ ((cmpF64_eq_iff _ _).mp equal)
    | _ => cases equal
  | _ =>
    cases b with
    | int y => cases equal
    | float y => cases equal
    | _ => exact Iff.rfl

/-- `shown` is how a float is written, which no comparison looks at. -/
abbrev pgValue (shown : Types.F64 → String) : PgValue Datum where
  null := .null
  isNull := isNull
  asBool
    | .bool b => some b
    | _ => none
  ofInt := .int
  ofText := .text
  toText
    | .null => "null"
    | .bool b => if b then "t" else "f"
    | .int i => toString i
    | .float x => shown x
    | .text s => s
  cmpValues := cmp
  isNull_null := rfl
  cmp_refl := cmp_refl
  cmp_symm := fun _ _ => cmp_symm
  cmp_isNull := fun _ _ => cmp_isNull

end Datum

/-- `SELECT n::float8 FROM t`. -/
def floatStep : Query Unit Datum :=
  .leaf (do
    let ctx ← get
    pure (((ctx.ctes.getD 0 none).getD []).map (fun row => row.map Datum.toFloat)))

end NoidaDb.Postgres.Queries
