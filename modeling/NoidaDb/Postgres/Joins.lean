/-
Joins: an index over the columns that an ON condition equates, against trying every pair.
-/

import NoidaDb.Lib.KeyedPositions
import NoidaDb.Lib.ListUpdates
import NoidaDb.Postgres.JoinKeys
import NoidaDb.Postgres.Quantified

namespace NoidaDb.Postgres.Joins

open Lib NoidaDb.Sql NoidaDb.Postgres.Types

abbrev Row := List Value

/-- Columns, comparisons and AND; every other expression by what it answers on a row. -/
inductive Expr (E : Type) where
  | col (i : Nat)
  | compare (op : CmpOp) (left right : Expr E) (bpchar : Bool)
  | and (items : List (Expr E))
  | other (answers : Row → Except E Value)

variable {E : Type} (conv : Conversions)

mutual

def eval : Expr E → Row → Except E Value
  | .col i, row => .ok (row.getD i .null)
  | .compare op left right bpchar, row => do
      let l ← eval left row
      let r ← eval right row
      if isNull l || isNull r then return .null
      return .bool (op.test (compareValues conv bpchar l r))
  | .and items, row => evalAnd items row false
  | .other answers, row => answers row

def evalAnd : List (Expr E) → Row → Bool → Except E Value
  | [], _, anyNull => .ok (if anyNull then .null else .bool true)
  | item :: items, row, anyNull => do
      match ← eval item row with
      | .bool false => return .bool false
      | .null => evalAnd items row true
      | _ => evalAnd items row anyNull

end

def truthy : Value → Bool
  | .bool true => true
  | _ => false

def joinOk (on : Option (Expr E)) (row : Row) : Except E Bool :=
  match on with
  | none => .ok true
  | some e => (eval conv e row).map truthy

mutual

def conjuncts : Expr E → List (Expr E)
  | .and items => conjunctsAll items
  | e => [e]

def conjunctsAll : List (Expr E) → List (Expr E)
  | [] => []
  | item :: items => conjuncts item ++ conjunctsAll items

end

/-- The left and the right column of `left.col = right.col`. -/
def keyColumns (leftCols : Nat) : Expr E → Option (Nat × Nat)
  | .compare .eq (.col a) (.col b) _ =>
    if a < leftCols ∧ ¬ b < leftCols then some (a, b - leftCols)
    else if ¬ a < leftCols ∧ b < leftCols then some (b, a - leftCols)
    else none
  | _ => none

def joinKey (row : Row) : List Nat → Option (List JoinKey)
  | [] => some []
  | c :: cols => do
      let v ← row[c]?
      if isNull v then none
      else
        let key ← joinKeyValue v
        let keys ← joinKey row cols
        return key :: keys

def unhashable (rows : List Row) (cols : List Nat) : Bool :=
  rows.any (fun row => cols.any (fun c =>
    match row[c]? with
    | some v => !isNull v && (isFloat v || (joinKeyValue v).isNone)
    | none => false))

/-- The left key columns, and the right rows by key; none where every pair is tried. -/
def equiJoinIndex (on : Option (Expr E)) (leftCols : Nat) (lrows rrows : List Row) :
    Option (List Nat × FiniteMap (List JoinKey) (List Nat)) := do
  let pairs := (conjuncts (← on)).filterMap (keyColumns leftCols)
  let lk := pairs.map Prod.fst
  let rk := pairs.map Prod.snd
  if lk = [] ∨ lrows.length * rrows.length < 64 then none
  else if unhashable lrows lk ∨ unhashable rrows rk then none
  else some (lk, keyedPositions (rrows.map (fun r => joinKey r rk)))

def candidates (index : Option (List Nat × FiniteMap (List JoinKey) (List Nat))) (n : Nat)
    (l : Row) : List Nat :=
  match index with
  | some (lk, map) =>
    match joinKey l lk with
    | some k => positionsOf map k
    | none => []
  | none => List.range n

inductive JoinKind where
  | inner
  | left
  | right
  | full
  | cross
deriving DecidableEq

def JoinKind.keepsLeft : JoinKind → Bool
  | .left | .full => true
  | _ => false

def JoinKind.keepsRight : JoinKind → Bool
  | .right | .full => true
  | _ => false

structure Joined where
  rightMatched : List Bool
  out : List Row

def probe (ok : Row → Except E Bool) (rrows : List Row) (l : Row) :
    List Nat → Bool → Joined → Except E (Bool × Joined)
  | [], matched, joined => .ok (matched, joined)
  | j :: js, matched, joined => do
      let row := l ++ rrows.getD j []
      if ← ok row then
        probe ok rrows l js true
          { rightMatched := joined.rightMatched.set j true, out := joined.out ++ [row] }
      else probe ok rrows l js matched joined

def probeAll (ok : Row → Except E Bool) (kind : JoinKind) (rightCols : Nat) (rrows : List Row)
    (proposed : Row → List Nat) : List Row → Joined → Except E Joined
  | [], joined => .ok joined
  | l :: ls, joined => do
      let (matched, joined) ← probe ok rrows l (proposed l) false joined
      probeAll ok kind rightCols rrows proposed ls
        (if !matched && kind.keepsLeft then
          { joined with out := joined.out ++ [l ++ List.replicate rightCols .null] }
        else joined)

def joinWith (index : Option (List Nat × FiniteMap (List JoinKey) (List Nat))) (kind : JoinKind)
    (on : Option (Expr E)) (leftCols rightCols : Nat) (lrows rrows : List Row) :
    Except E (List Row) := do
  let joined ← probeAll (joinOk conv on) kind rightCols rrows (candidates index rrows.length)
    lrows { rightMatched := List.replicate rrows.length false, out := [] }
  return joined.out ++
    if kind.keepsRight then
      (rrows.zipIdx.filter (fun r => !joined.rightMatched.getD r.2 false)).map
        (fun r => List.replicate leftCols .null ++ r.1)
    else []

def join (kind : JoinKind) (on : Option (Expr E)) (leftCols rightCols : Nat)
    (lrows rrows : List Row) : Except E (List Row) :=
  joinWith conv (equiJoinIndex on leftCols lrows rrows) kind on leftCols rightCols lrows rrows

def nestedLoop (accepts : Row → Bool) (kind : JoinKind) (leftCols rightCols : Nat)
    (lrows rrows : List Row) : List Row :=
  lrows.flatMap (fun l =>
    let found := (rrows.map (fun r => l ++ r)).filter accepts
    if found.isEmpty && kind.keepsLeft then [l ++ List.replicate rightCols .null] else found) ++
  if kind.keepsRight then
    (rrows.filter (fun r => !lrows.any (fun l => accepts (l ++ r)))).map
      (fun r => List.replicate leftCols .null ++ r)
  else []

def Holds (v : Value) : Prop := isNull v = false ∧ v ≠ .bool false

mutual

theorem eval_conjuncts {row : Row} {v : Value} (e : Expr E) (evaluated : eval conv e row = .ok v)
    (holds : Holds v) : ∀ c ∈ conjuncts e, ∃ w, eval conv c row = .ok w ∧ Holds w := by
  cases e with
  | and items =>
    rw [conjuncts]
    rw [eval] at evaluated
    exact (evalAnd_conjuncts items false evaluated holds).2
  | col i =>
    intro c member
    rw [conjuncts, List.mem_singleton] at member
    · exact ⟨v, member ▸ evaluated, holds⟩
    · intro items impossible
      cases impossible
  | compare op left right bpchar =>
    intro c member
    rw [conjuncts, List.mem_singleton] at member
    · exact ⟨v, member ▸ evaluated, holds⟩
    · intro items impossible
      cases impossible
  | other answers =>
    intro c member
    rw [conjuncts, List.mem_singleton] at member
    · exact ⟨v, member ▸ evaluated, holds⟩
    · intro items impossible
      cases impossible

theorem evalAnd_conjuncts {row : Row} {v : Value} (items : List (Expr E)) (anyNull : Bool)
    (evaluated : evalAnd conv items row anyNull = .ok v) (holds : Holds v) :
    anyNull = false ∧ ∀ c ∈ conjunctsAll items, ∃ w, eval conv c row = .ok w ∧ Holds w := by
  cases items with
  | nil =>
    rw [evalAnd] at evaluated
    cases anyNull with
    | true =>
      cases evaluated
      cases holds.1
    | false => exact ⟨rfl, by simp [conjunctsAll]⟩
  | cons item items =>
    rw [evalAnd] at evaluated
    cases first : eval conv item row with
    | error e =>
      rw [first] at evaluated
      cases evaluated
    | ok w =>
      rw [first] at evaluated
      have keeps : Holds w → evalAnd conv items row anyNull = .ok v →
          anyNull = false ∧
            ∀ c ∈ conjunctsAll (item :: items), ∃ w, eval conv c row = .ok w ∧ Holds w := by
        intro holdsW rest
        obtain ⟨noNull, others⟩ := evalAnd_conjuncts items anyNull rest holds
        refine ⟨noNull, ?_⟩
        intro c member
        rw [conjunctsAll] at member
        rcases List.mem_append.mp member with ofItem | later
        · exact eval_conjuncts item first holdsW c ofItem
        · exact others c later
      cases w with
      | null =>
        cases (evalAnd_conjuncts items true evaluated holds).1
      | bool b =>
        cases b with
        | true => exact keeps ⟨rfl, by simp⟩ evaluated
        | false =>
          cases evaluated
          exact (holds.2 rfl).elim
      | _ => exact keeps ⟨rfl, by simp⟩ evaluated

end

variable {row l r : Row}

theorem getElem_of_notNull {i : Nat} (known : isNull (row.getD i .null) = false) :
    row[i]? = some (row.getD i .null) := by
  rw [List.getD_eq_getElem?_getD] at known ⊢
  cases found : row[i]? with
  | some v => rfl
  | none =>
    rw [found] at known
    cases known

theorem eval_equal {a b : Nat} {bpchar : Bool} {w : Value}
    (evaluated : eval conv (.compare .eq (.col a) (.col b) bpchar : Expr E) row = .ok w)
    (holds : Holds w) :
    ∃ va vb, row[a]? = some va ∧ row[b]? = some vb ∧ isNull va = false ∧ isNull vb = false ∧
      compareValues conv bpchar va vb = .eq := by
  have unfolded : eval conv (.compare .eq (.col a) (.col b) bpchar : Expr E) row =
      if isNull (row.getD a .null) || isNull (row.getD b .null) then .ok .null
      else .ok (.bool (compareValues conv bpchar (row.getD a .null) (row.getD b .null) == .eq)) := by
    simp only [eval]
    rfl
  rw [unfolded] at evaluated
  by_cases unknown : (isNull (row.getD a .null) || isNull (row.getD b .null)) = true
  · rw [if_pos unknown] at evaluated
    cases evaluated
    cases holds.1
  · rw [if_neg unknown] at evaluated
    rw [Bool.not_eq_true, Bool.or_eq_false_iff] at unknown
    refine ⟨_, _, getElem_of_notNull unknown.1, getElem_of_notNull unknown.2, unknown.1, unknown.2, ?_⟩
    cases evaluated
    by_contra different
    exact holds.2 (congrArg Value.bool (beq_eq_false_iff_ne.mpr different))

theorem keyColumns_equal {c : Expr E} {pair : Nat × Nat} {w : Value}
    (columns : keyColumns l.length c = some pair) (evaluated : eval conv c (l ++ r) = .ok w)
    (holds : Holds w) :
    ∃ va vb, l[pair.1]? = some va ∧ r[pair.2]? = some vb ∧ isNull va = false ∧ isNull vb = false ∧
      ∃ bpchar, compareValues conv bpchar va vb = .eq ∨ compareValues conv bpchar vb va = .eq := by
  fun_cases keyColumns l.length c
  · rename_i a b bpchar sides
    rw [keyColumns, if_pos sides] at columns
    cases columns
    obtain ⟨va, vb, atA, atB, knownA, knownB, equal⟩ := eval_equal conv evaluated holds
    rw [List.getElem?_append_left sides.1] at atA
    rw [List.getElem?_append_right (Nat.le_of_not_lt sides.2)] at atB
    exact ⟨va, vb, atA, atB, knownA, knownB, bpchar, Or.inl equal⟩
  · rename_i a b bpchar notFirst sides
    rw [keyColumns, if_neg notFirst, if_pos sides] at columns
    cases columns
    obtain ⟨va, vb, atA, atB, knownA, knownB, equal⟩ := eval_equal conv evaluated holds
    rw [List.getElem?_append_right (Nat.le_of_not_lt sides.1)] at atA
    rw [List.getElem?_append_left sides.2] at atB
    exact ⟨vb, va, atB, atA, knownB, knownA, bpchar, Or.inr equal⟩
  · rename_i a b bpchar notFirst notSecond
    rw [keyColumns, if_neg notFirst, if_neg notSecond] at columns
    cases columns
  · rename_i other
    rw [keyColumns] at columns
    · cases columns
    · exact other

theorem joinKey_cons {c : Nat} {cols : List Nat} {v : Value} {key : JoinKey} {keys : List JoinKey}
    (stands : row[c]? = some v) (known : isNull v = false) (hasKey : joinKeyValue v = some key)
    (others : joinKey row cols = some keys) : joinKey row (c :: cols) = some (key :: keys) := by
  rw [joinKey, stands]
  show (if isNull v = true then none else _) = _
  rw [if_neg (by rw [known]; decide), hasKey, others]
  rfl

theorem hashable {rows : List Row} {cols : List Nat} (all : ¬ unhashable rows cols = true)
    (isRow : row ∈ rows) {c : Nat} (isCol : c ∈ cols) {v : Value} (stands : row[c]? = some v)
    (known : isNull v = false) : ∃ key, joinKeyValue v = some key := by
  rw [← Option.isSome_iff_exists]
  by_contra noKey
  apply all
  unfold unhashable
  rw [List.any_eq_true]
  refine ⟨row, isRow, ?_⟩
  rw [List.any_eq_true]
  refine ⟨c, isCol, ?_⟩
  rw [stands]
  rw [Bool.not_eq_true, ← Bool.not_eq_true', Option.not_isSome] at noKey
  simp [known, noKey]

theorem joinKeys_equal {pairs : List (Nat × Nat)}
    (equal : ∀ pair ∈ pairs, ∃ va vb key, l[pair.1]? = some va ∧ r[pair.2]? = some vb ∧
      isNull va = false ∧ isNull vb = false ∧ joinKeyValue va = some key ∧
      joinKeyValue vb = some key) :
    ∃ keys, joinKey l (pairs.map Prod.fst) = some keys ∧
      joinKey r (pairs.map Prod.snd) = some keys := by
  induction pairs with
  | nil => exact ⟨[], rfl, rfl⟩
  | cons pair pairs ih =>
    obtain ⟨keys, keysL, keysR⟩ := ih (fun p member => equal p (List.mem_cons_of_mem _ member))
    obtain ⟨va, vb, key, atL, atR, knownL, knownR, keyL, keyR⟩ := equal pair List.mem_cons_self
    exact ⟨key :: keys, joinKey_cons atL knownL keyL keysL, joinKey_cons atR knownR keyR keysR⟩

structure IndexOf (e : Expr E) (leftCols : Nat) (lrows rrows : List Row) (lk rk : List Nat)
    (map : FiniteMap (List JoinKey) (List Nat)) : Prop where
  left : lk = ((conjuncts e).filterMap (keyColumns leftCols)).map Prod.fst
  right : rk = ((conjuncts e).filterMap (keyColumns leftCols)).map Prod.snd
  hashableLeft : ¬ unhashable lrows lk = true
  hashableRight : ¬ unhashable rrows rk = true
  positions : map = keyedPositions (rrows.map (fun r => joinKey r rk))

theorem equiJoinIndex_spec {on : Option (Expr E)} {leftCols : Nat} {lrows rrows : List Row}
    {lk : List Nat} {map : FiniteMap (List JoinKey) (List Nat)}
    (isIndex : equiJoinIndex on leftCols lrows rrows = some (lk, map)) :
    ∃ e rk, on = some e ∧ IndexOf e leftCols lrows rrows lk rk map := by
  cases on with
  | none => cases isIndex
  | some e =>
    have unfolded : equiJoinIndex (some e) leftCols lrows rrows =
        let pairs := (conjuncts e).filterMap (keyColumns leftCols)
        if pairs.map Prod.fst = [] ∨ lrows.length * rrows.length < 64 then none
        else if unhashable lrows (pairs.map Prod.fst) ∨ unhashable rrows (pairs.map Prod.snd)
        then none
        else some (pairs.map Prod.fst,
          keyedPositions (rrows.map (fun r => joinKey r (pairs.map Prod.snd)))) := rfl
    rw [unfolded] at isIndex
    simp only at isIndex
    split at isIndex
    · cases isIndex
    · split at isIndex
      · cases isIndex
      · rename_i large hashable
        cases isIndex
        rw [not_or] at hashable
        exact ⟨e, _, rfl, rfl, rfl, hashable.1, hashable.2, rfl⟩

theorem accepted_key {e : Expr E} {lrows rrows : List Row} {lk rk : List Nat}
    {map : FiniteMap (List JoinKey) (List Nat)} (index : IndexOf e l.length lrows rrows lk rk map)
    (isL : l ∈ lrows) (isR : r ∈ rrows) (heldL : ∀ v ∈ l, Held v) (heldR : ∀ v ∈ r, Held v)
    (accepted : joinOk conv (some e) (l ++ r) = .ok true) :
    ∃ keys, joinKey l lk = some keys ∧ joinKey r rk = some keys := by
  have isTrue : eval conv e (l ++ r) = .ok (.bool true) := by
    have unfolded : joinOk conv (some e) (l ++ r) = (eval conv e (l ++ r)).map truthy := rfl
    rw [unfolded] at accepted
    cases evaluated : eval conv e (l ++ r) with
    | error _ =>
      rw [evaluated] at accepted
      cases accepted
    | ok v =>
      rw [evaluated] at accepted
      have isTruthy : truthy v = true := Except.ok.inj accepted
      cases v with
      | bool b =>
        cases b with
        | true => rfl
        | false => cases isTruthy
      | _ => cases isTruthy
  have conjunctsHold := eval_conjuncts conv e isTrue ⟨rfl, by simp⟩
  rw [index.left, index.right]
  apply joinKeys_equal
  intro pair isPair
  obtain ⟨c, isConjunct, columns⟩ := List.mem_filterMap.mp isPair
  obtain ⟨w, evaluated, holds⟩ := conjunctsHold c isConjunct
  obtain ⟨va, vb, atL, atR, knownL, knownR, bpchar, equal⟩ :=
    keyColumns_equal conv columns evaluated holds
  have isLeftCol : pair.1 ∈ lk := index.left ▸ List.mem_map_of_mem isPair
  have isRightCol : pair.2 ∈ rk := index.right ▸ List.mem_map_of_mem isPair
  obtain ⟨ka, keyA⟩ := hashable index.hashableLeft isL isLeftCol atL knownL
  obtain ⟨kb, keyB⟩ := hashable index.hashableRight isR isRightCol atR knownR
  have heldA := heldL va (List.mem_of_getElem? atL)
  have heldB := heldR vb (List.mem_of_getElem? atR)
  have sameKey : ka = kb := by
    rcases equal with forwards | backwards
    · exact joinKeyValue_of_equal heldA heldB keyA keyB forwards
    · exact (joinKeyValue_of_equal heldB heldA keyB keyA backwards).symm
  exact ⟨va, vb, ka, atL, atR, knownL, knownR, keyA, sameKey ▸ keyB⟩

section Loops

variable {ok : Row → Except E Bool} {accepts : Row → Bool} {kind : JoinKind} {rightCols : Nat}
  {rrows : List Row}

def partners (accepts : Row → Bool) (rrows : List Row) (l : Row) : List Nat :=
  (List.range rrows.length).filter (fun j => accepts (l ++ rrows.getD j []))

def rowsOf (accepts : Row → Bool) (kind : JoinKind) (rightCols : Nat) (rrows : List Row)
    (l : Row) : List Row :=
  if (partners accepts rrows l).isEmpty && kind.keepsLeft then
    [l ++ List.replicate rightCols .null]
  else (partners accepts rrows l).map (fun j => l ++ rrows.getD j [])

def Joined.extend (joined : Joined) (js : List Nat) (rows : List Row) : Joined where
  rightMatched := setAll joined.rightMatched (js.map (fun j => (j, true)))
  out := joined.out ++ rows

theorem extend_extend (joined : Joined) (is js : List Nat) (first second : List Row) :
    (joined.extend is first).extend js second = joined.extend (is ++ js) (first ++ second) := by
  simp [Joined.extend, setAll]

theorem probe_eq {l : Row} {js : List Nat}
    (decided : ∀ j ∈ js, ok (l ++ rrows.getD j []) = .ok (accepts (l ++ rrows.getD j [])))
    (matched : Bool) (joined : Joined) :
    probe ok rrows l js matched joined =
      .ok (matched || !(js.filter (fun j => accepts (l ++ rrows.getD j []))).isEmpty,
        joined.extend (js.filter (fun j => accepts (l ++ rrows.getD j [])))
          ((js.filter (fun j => accepts (l ++ rrows.getD j []))).map
            (fun j => l ++ rrows.getD j []))) := by
  induction js generalizing matched joined with
  | nil => simp [probe, Joined.extend]
  | cons j js ih =>
    have step : probe ok rrows l (j :: js) matched joined =
        if accepts (l ++ rrows.getD j []) then
          probe ok rrows l js true (joined.extend [j] [l ++ rrows.getD j []])
        else probe ok rrows l js matched joined := by
      rw [probe, decided j List.mem_cons_self]
      rfl
    have others := ih (fun i member => decided i (List.mem_cons_of_mem j member))
    rw [step, List.filter_cons]
    by_cases accepted : accepts (l ++ rrows.getD j []) = true
    · rw [if_pos accepted, if_pos accepted, others, extend_extend]
      simp
    · rw [if_neg accepted, if_neg accepted, others]

theorem probeAll_eq {proposed : Row → List Nat} {ls : List Row}
    (decided : ∀ l ∈ ls, ∀ j ∈ proposed l,
      ok (l ++ rrows.getD j []) = .ok (accepts (l ++ rrows.getD j [])))
    (complete : ∀ l ∈ ls, (proposed l).filter (fun j => accepts (l ++ rrows.getD j [])) =
      partners accepts rrows l)
    (joined : Joined) :
    probeAll ok kind rightCols rrows proposed ls joined =
      .ok (joined.extend (ls.flatMap (partners accepts rrows))
        (ls.flatMap (rowsOf accepts kind rightCols rrows))) := by
  induction ls generalizing joined with
  | nil => simp [probeAll, Joined.extend]
  | cons l ls ih =>
    have others := ih (fun l member => decided l (List.mem_cons_of_mem _ member))
      (fun l member => complete l (List.mem_cons_of_mem _ member))
    have padded : (if (!(false || !(partners accepts rrows l).isEmpty)) && kind.keepsLeft then
          { joined.extend (partners accepts rrows l)
              ((partners accepts rrows l).map (fun j => l ++ rrows.getD j [])) with
            out := (joined.extend (partners accepts rrows l)
              ((partners accepts rrows l).map (fun j => l ++ rrows.getD j []))).out ++
                [l ++ List.replicate rightCols .null] }
        else joined.extend (partners accepts rrows l)
          ((partners accepts rrows l).map (fun j => l ++ rrows.getD j []))) =
        joined.extend (partners accepts rrows l) (rowsOf accepts kind rightCols rrows l) := by
      unfold rowsOf
      cases noPartner : partners accepts rrows l with
      | nil => cases kind.keepsLeft <;> simp [Joined.extend]
      | cons j js => simp
    rw [probeAll, probe_eq (decided l List.mem_cons_self), complete l List.mem_cons_self]
    show probeAll ok kind rightCols rrows proposed ls _ = _
    rw [others, padded, extend_extend, List.flatMap_cons, List.flatMap_cons]

theorem map_getD_range (xs : List Row) : (List.range xs.length).map (fun j => xs.getD j []) = xs := by
  apply List.ext_getElem
  · simp
  · intro i inRange inside
    simp [List.getD_eq_getElem?_getD, inside]

theorem rowsOf_eq (l : Row) :
    rowsOf accepts kind rightCols rrows l =
      if ((rrows.map (fun r => l ++ r)).filter accepts).isEmpty && kind.keepsLeft then
        [l ++ List.replicate rightCols .null]
      else (rrows.map (fun r => l ++ r)).filter accepts := by
  have found : (partners accepts rrows l).map (fun j => l ++ rrows.getD j []) =
      (rrows.map (fun r => l ++ r)).filter accepts := by
    conv_rhs => rw [← map_getD_range rrows]
    rw [List.map_map, List.filter_map]
    rfl
  unfold rowsOf
  rw [← found, List.isEmpty_map]

theorem getD_setAll_true {flags : List Bool} {j : Nat} (inside : j < flags.length)
    (js : List Nat) :
    (setAll flags (js.map (fun j => (j, true)))).getD j false =
      (flags.getD j false || decide (j ∈ js)) := by
  induction js generalizing flags with
  | nil => simp
  | cons i js ih =>
    rw [List.map_cons, setAll_cons, ih (by simpa using inside)]
    by_cases same : i = j
    · subst same
      simp [List.getD_eq_getElem?_getD, inside]
    · simp [List.getD_eq_getElem?_getD, List.getElem?_set_ne same, Ne.symm same]

theorem unmatched_eq (lrows : List Row) (f : Row → Row) :
    (rrows.zipIdx.filter (fun r =>
        !(setAll (List.replicate rrows.length false)
          ((lrows.flatMap (partners accepts rrows)).map (fun j => (j, true)))).getD r.2 false)).map
        (fun r => f r.1) =
      (rrows.filter (fun r => !lrows.any (fun l => accepts (l ++ r)))).map f := by
  have flags : rrows.zipIdx.filter (fun r =>
        !(setAll (List.replicate rrows.length false)
          ((lrows.flatMap (partners accepts rrows)).map (fun j => (j, true)))).getD r.2 false) =
      rrows.zipIdx.filter
        ((fun r => !lrows.any (fun l => accepts (l ++ r))) ∘ Prod.fst) := by
    apply List.filter_congr
    intro entry member
    obtain ⟨r, j⟩ := entry
    have stands := List.mem_zipIdx_iff_getElem?.mp member
    have inside : j < rrows.length := (List.getElem?_eq_some_iff.mp stands).1
    rw [getD_setAll_true (by simpa using inside)]
    have atJ : rrows.getD j [] = r := by
      rw [List.getD_eq_getElem?_getD, stands]
      rfl
    have noFlag : (List.replicate rrows.length false).getD j false = false := by
      simp [List.getD_eq_getElem?_getD, inside]
    have isPartner : decide (j ∈ lrows.flatMap (partners accepts rrows)) =
        lrows.any (fun l => accepts (l ++ r)) := by
      rw [Bool.eq_iff_iff, decide_eq_true_eq, List.mem_flatMap, List.any_eq_true]
      apply exists_congr
      intro l
      apply and_congr_right
      intro _
      rw [partners, List.mem_filter, List.mem_range, atJ]
      exact and_iff_right inside
    rw [noFlag, isPartner]
    rfl
  have byRow : (fun r : Row × Nat => f r.1) = f ∘ Prod.fst := rfl
  rw [flags, byRow, ← List.map_map, ← List.filter_map, List.zipIdx_map_fst]

end Loops

section Whole

variable {kind : JoinKind} {on : Option (Expr E)} {leftCols rightCols : Nat}
  {lrows rrows : List Row}

def accepts (on : Option (Expr E)) (row : Row) : Bool :=
  match joinOk conv on row with
  | .ok b => b
  | .error _ => false

def Evaluates (on : Option (Expr E)) (lrows rrows : List Row) : Prop :=
  ∀ l ∈ lrows, ∀ r ∈ rrows, ∃ b, joinOk conv on (l ++ r) = .ok b

theorem joinWith_eq {index : Option (List Nat × FiniteMap (List JoinKey) (List Nat))}
    (evaluates : Evaluates conv on lrows rrows)
    (inside : ∀ l ∈ lrows, ∀ j ∈ candidates index rrows.length l, j < rrows.length)
    (complete : ∀ l ∈ lrows,
      (candidates index rrows.length l).filter (fun j => accepts conv on (l ++ rrows.getD j [])) =
        partners (accepts conv on) rrows l) :
    joinWith conv index kind on leftCols rightCols lrows rrows =
      .ok (nestedLoop (accepts conv on) kind leftCols rightCols lrows rrows) := by
  have decided : ∀ l ∈ lrows, ∀ j ∈ candidates index rrows.length l,
      joinOk conv on (l ++ rrows.getD j []) = .ok (accepts conv on (l ++ rrows.getD j [])) := by
    intro l isL j proposed
    have isRow : rrows.getD j [] ∈ rrows := by
      rw [List.getD_eq_getElem?_getD, List.getElem?_eq_getElem (inside l isL j proposed)]
      exact List.getElem_mem _
    obtain ⟨b, evaluated⟩ := evaluates l isL _ isRow
    unfold accepts
    rw [evaluated]
  unfold joinWith
  rw [probeAll_eq decided complete]
  show Except.ok (_ ++ if kind.keepsRight = true then _ else _) = _
  unfold nestedLoop Joined.extend
  simp only [unmatched_eq, List.nil_append]
  congr 3
  exact funext (fun l => rowsOf_eq l)

theorem candidates_complete (widths : ∀ l ∈ lrows, l.length = leftCols)
    (held : ∀ row ∈ lrows ++ rrows, ∀ v ∈ row, Held v) {l : Row} (isL : l ∈ lrows) :
    (∀ j ∈ candidates (equiJoinIndex on leftCols lrows rrows) rrows.length l, j < rrows.length) ∧
    (candidates (equiJoinIndex on leftCols lrows rrows) rrows.length l).filter
        (fun j => accepts conv on (l ++ rrows.getD j [])) =
      partners (accepts conv on) rrows l := by
  cases isIndex : equiJoinIndex on leftCols lrows rrows with
  | none => exact ⟨fun j proposed => List.mem_range.mp proposed, rfl⟩
  | some index =>
    obtain ⟨lk, map⟩ := index
    obtain ⟨e, rk, rfl, index⟩ := equiJoinIndex_spec isIndex
    rw [← widths l isL] at index
    have sameKeys : ∀ j < rrows.length, accepts conv (some e) (l ++ rrows.getD j []) = true →
        ∃ keys, joinKey l lk = some keys ∧ (rrows.map (fun r => joinKey r rk))[j]? = some (some keys) := by
      intro j inside accepted
      have stands : rrows[j]? = some (rrows.getD j []) := by
        rw [List.getD_eq_getElem?_getD, List.getElem?_eq_getElem inside]
        rfl
      have isR := List.mem_of_getElem? stands
      have isTrue : joinOk conv (some e) (l ++ rrows.getD j []) = .ok true := by
        unfold accepts at accepted
        cases evaluated : joinOk conv (some e) (l ++ rrows.getD j []) with
        | error _ =>
          rw [evaluated] at accepted
          cases accepted
        | ok b =>
          rw [evaluated] at accepted
          rw [show b = true from accepted]
      obtain ⟨keys, keyL, keyR⟩ := accepted_key conv index isL isR
        (held l (List.mem_append_left _ isL)) (held _ (List.mem_append_right _ isR)) isTrue
      refine ⟨keys, keyL, ?_⟩
      rw [List.getElem?_map, stands, Option.map_some, keyR]
    cases keyL : joinKey l lk with
    | none =>
      have nothing : candidates (some (lk, map)) rrows.length l = [] := by
        rw [candidates, keyL]
      rw [nothing]
      refine ⟨by simp, ?_⟩
      symm
      unfold partners
      rw [List.filter_nil, List.filter_eq_nil_iff]
      intro j inside accepted
      obtain ⟨keys, hasKey, _⟩ := sameKeys j (List.mem_range.mp inside) accepted
      rw [keyL] at hasKey
      cases hasKey
    | some k =>
      have listed : candidates (some (lk, map)) rrows.length l =
          (List.range rrows.length).filter
            (fun j => (rrows.map (fun r => joinKey r rk))[j]? = some (some k)) := by
        rw [candidates, keyL]
        show positionsOf map k = _
        rw [index.positions, positionsOf_keyedPositions, List.length_map]
      rw [listed]
      refine ⟨fun j proposed => List.mem_range.mp (List.mem_of_mem_filter proposed), ?_⟩
      unfold partners
      rw [List.filter_filter]
      apply List.filter_congr
      intro j inside
      by_cases accepted : accepts conv (some e) (l ++ rrows.getD j []) = true
      · obtain ⟨keys, hasKey, stands⟩ := sameKeys j (List.mem_range.mp inside) accepted
        rw [keyL] at hasKey
        cases hasKey
        rw [stands, accepted]
        simp
      · rw [Bool.not_eq_true] at accepted
        rw [accepted, Bool.false_and]

/-- An index or none, the join has the same rows in the same order as trying every pair. -/
theorem join_exact (widths : ∀ l ∈ lrows, l.length = leftCols)
    (held : ∀ row ∈ lrows ++ rrows, ∀ v ∈ row, Held v) (evaluates : Evaluates conv on lrows rrows) :
    join conv kind on leftCols rightCols lrows rrows =
        .ok (nestedLoop (accepts conv on) kind leftCols rightCols lrows rrows) ∧
      join conv kind on leftCols rightCols lrows rrows =
        joinWith conv none kind on leftCols rightCols lrows rrows := by
  have indexed : join conv kind on leftCols rightCols lrows rrows =
      .ok (nestedLoop (accepts conv on) kind leftCols rightCols lrows rrows) :=
    joinWith_eq conv evaluates
      (fun l isL => (candidates_complete conv widths held isL).1)
      (fun l isL => (candidates_complete conv widths held isL).2)
  have everyPair : joinWith conv none kind on leftCols rightCols lrows rrows =
      .ok (nestedLoop (accepts conv on) kind leftCols rightCols lrows rrows) :=
    joinWith_eq conv evaluates
      (fun _ _ j proposed => List.mem_range.mp proposed) (fun _ _ => rfl)
  exact ⟨indexed, indexed.trans everyPair.symm⟩

theorem join_exact_scales :
    let conv : Conversions := ⟨fun _ => .nan, fun _ => .nan⟩
    let on : Option (Expr Unit) := some (.compare .eq (.col 0) (.col 1) false)
    let lrows : List Row :=
      List.replicate 8 [.num (.fin { neg := false, digits := [1, 0], scale := 1 })]
    let rrows : List Row :=
      List.replicate 8 [.num (.fin { neg := false, digits := [1, 0, 0], scale := 2 })]
    (equiJoinIndex on 1 lrows rrows).isSome = true ∧
      join conv .full on 1 1 lrows rrows = .ok (nestedLoop (accepts conv on) .full 1 1 lrows rrows) ∧
      join conv .full on 1 1 lrows rrows = joinWith conv none .full on 1 1 lrows rrows := by
  intro conv on lrows rrows
  refine ⟨by decide, join_exact conv ?_ ?_ ?_⟩
  · decide
  · intro row isRow v isV
    rcases List.mem_append.mp isRow with isL | isR
    · rw [List.eq_of_mem_replicate isL, List.mem_singleton] at isV
      rw [isV]
      exact ⟨⟨⟨by decide, by decide⟩, by decide⟩, rfl⟩
    · rw [List.eq_of_mem_replicate isR, List.mem_singleton] at isV
      rw [isV]
      exact ⟨⟨⟨by decide, by decide⟩, by decide⟩, rfl⟩
  · intro l isL r isR
    rw [List.eq_of_mem_replicate isL, List.eq_of_mem_replicate isR]
    exact ⟨true, rfl⟩

end Whole

end NoidaDb.Postgres.Joins
