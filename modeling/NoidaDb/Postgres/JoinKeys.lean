/-
The keys of a hash join, against the comparison that decides a pair of rows.
-/

import NoidaDb.Postgres.ValueOrder
import Mathlib.Data.List.DropRight

namespace NoidaDb.Postgres.Joins

open Lib NoidaDb.Sql NoidaDb.Postgres.Types

/-- `trim_end_matches`. -/
def trimEnd (c : Char) (s : List Char) : List Char := s.rdropWhile (fun x => x == c)

/-- `i64::to_string`. -/
def intText (i : Int) : List Char :=
  (if i < 0 then ['-'] else []) ++
    (if i = 0 then ['0'] else (Nat.digits 10 i.natAbs).reverse.map digitChar)

def withoutZeros (s : List Char) : List Char :=
  if '.' ∈ s then trimEnd '.' (trimEnd '0' s) else s

/-- A join key column's value, such that values PostgreSQL calls equal get the same key. -/
inductive JoinKey where
  | bool (b : Bool)
  /-- Integers and numerics, as normalized decimal text. -/
  | exact (s : List Char)
  | text (s : List Char)
  | bytes (b : List Nat)
  | int (i : Int)
  | uuid (u : List Nat)
  | inet (v6 : Bool) (addr : List Nat) (bits : Nat)
deriving DecidableEq

def joinKeyValue : Value → Option JoinKey
  | .bool b => some (.bool b)
  | .int i => some (.exact (intText i))
  | .num n =>
    let s := withoutZeros n.show
    some (.exact (if s = "-0".toList then "0".toList else s))
  -- The comparison of `bpchar` ignores trailing spaces.
  | .text t => some (.text (trimEnd ' ' t.toList))
  | .bytes b => some (.bytes b)
  | .date d => some (.int d)
  | .time t => some (.int t)
  | .ts t => some (.int t)
  | .uuid u => some (.uuid u)
  | .inet i => some (.inet i.v6 i.addr i.bits)
  | _ => none

/-- The comparison of two values that are not NULL, with the trailing-space rule of `bpchar`. -/
def compareValues (conv : Conversions) (bpchar : Bool) : Value → Value → Ordering
  | .text x, .text y =>
    if bpchar then
      cmpText (String.ofList (trimEnd ' ' x.toList)) (String.ofList (trimEnd ' ' y.toList))
    else cmpText x y
  | a, b => cmpValues conv a b

@[simp] theorem compareValues_false (conv : Conversions) (a b : Value) :
    compareValues conv false a b = cmpValues conv a b := by
  unfold compareValues
  split
  · rw [cmpValues]
    rfl
  · rfl

/-- What holds of every value in a row: a number has no leading zeros and, unlike one of MySQL,
shows all its digits; an address fills its 16 bytes, the unused ones with zeros. -/
def Held : Value → Prop
  | .num (.fin d) => d.Normal ∧ d.hidden = 0
  | .inet i => i.addr.length = 16 ∧ (i.v6 = false → i.addr.drop 4 = List.replicate 12 0)
  | _ => True

theorem trimEnd_append (c : Char) (a b : List Char) :
    trimEnd c (a ++ b) = if trimEnd c b = [] then trimEnd c a else a ++ trimEnd c b := by
  unfold trimEnd List.rdropWhile
  rw [List.reverse_append, List.dropWhile_append]
  by_cases gone : b.reverse.dropWhile (fun x => x == c) = []
  · simp [gone]
  · simp [gone]

variable {c : Char} {conv : Conversions}

theorem trimEnd_of_notMem {s : List Char} (absent : c ∉ s) : trimEnd c s = s := by
  unfold trimEnd
  rw [List.rdropWhile_eq_self_iff]
  intro some isLast
  apply absent
  rw [← eq_of_beq isLast]
  exact List.getLast_mem some

theorem notMem_trimEnd {removed : Char} {s : List Char} (absent : c ∉ s) : c ∉ trimEnd removed s :=
  fun member => absent ((List.rdropWhile_prefix _ s).subset member)

theorem trimEnd_zeros (s : List Char) (k : Nat) :
    trimEnd '0' (s ++ List.replicate k '0') = trimEnd '0' s := by
  have gone : trimEnd '0' (List.replicate k '0') = [] := by
    unfold trimEnd
    rw [List.rdropWhile_eq_nil_iff]
    intro x member
    rw [List.eq_of_mem_replicate member]
    rfl
  rw [trimEnd_append, if_pos gone]

theorem trimEnd_other {d : Char} (different : d ≠ c) (s : List Char) :
    trimEnd c (d :: s) = d :: trimEnd c s := by
  have alone : trimEnd c [d] = [d] := by
    apply trimEnd_of_notMem
    simpa using Ne.symm different
  rw [← List.singleton_append, trimEnd_append, alone]
  split
  · rename_i gone
    rw [gone]
  · rfl

theorem withoutZeros_fraction {whole fraction : List Char} (noPoint : '.' ∉ whole)
    (digits : '.' ∉ fraction) :
    withoutZeros (whole ++ '.' :: fraction) =
      whole ++ if trimEnd '0' fraction = [] then [] else '.' :: trimEnd '0' fraction := by
  have cut : trimEnd '0' (whole ++ '.' :: fraction) = whole ++ '.' :: trimEnd '0' fraction := by
    rw [trimEnd_append, trimEnd_other (by decide), if_neg (List.cons_ne_nil _ _)]
  unfold withoutZeros
  rw [if_pos (by simp), cut]
  by_cases gone : trimEnd '0' fraction = []
  · have point : trimEnd '.' ['.'] = [] := by decide
    rw [gone, if_pos rfl, trimEnd_append, point, if_pos rfl, trimEnd_of_notMem noPoint,
      List.append_nil]
  · have kept : trimEnd '.' ('.' :: trimEnd '0' fraction) = '.' :: trimEnd '0' fraction := by
      rw [← List.singleton_append, trimEnd_append,
        trimEnd_of_notMem (notMem_trimEnd digits), if_neg gone]
    rw [if_neg gone, trimEnd_append, kept, if_neg (List.cons_ne_nil _ _)]

section Numbers

variable {d : Dec}

theorem scale_lt_padded (d : Dec) : d.scale < d.padded.length := by
  unfold Dec.padded
  split
  · rw [List.length_append, List.length_replicate]
    omega
  · omega

theorem padded_below (digits : ∀ x ∈ d.digits, x < 10) : ∀ x ∈ d.padded, x < 10 := by
  unfold Dec.padded
  split
  · intro x member
    rcases List.mem_append.mp member with isZero | isDigit
    · rw [List.eq_of_mem_replicate isZero]
      decide
    · exact digits x isDigit
  · exact digits

theorem notMem_digits {ks : List Nat} (small : ∀ k ∈ ks, k < 10) {c : Char}
    (other : isDigit c = false) : c ∉ ks.map digitChar := by
  intro member
  have isDigit := (digitChars small).1 c member
  rw [other] at isDigit
  cases isDigit

def wholeText (d : Dec) : List Char :=
  (if d.neg then ['-'] else []) ++ (d.padded.take (d.padded.length - d.scale)).map digitChar

def fractionText (d : Dec) : List Char :=
  (d.padded.drop (d.padded.length - d.scale)).map digitChar

theorem show_eq (d : Dec) :
    d.show = wholeText d ++ if 0 < d.scale then '.' :: fractionText d else [] := rfl

theorem point_notMem_whole (digits : ∀ x ∈ d.digits, x < 10) : '.' ∉ wholeText d := by
  intro member
  rcases List.mem_append.mp member with isSign | isDigit
  · split at isSign
    · cases List.mem_singleton.mp isSign
    · cases isSign
  · exact notMem_digits (fun x isX => padded_below digits x (List.mem_of_mem_take isX))
      (by decide) isDigit

theorem point_notMem_fraction (digits : ∀ x ∈ d.digits, x < 10) : '.' ∉ fractionText d :=
  notMem_digits (fun x isX => padded_below digits x (List.mem_of_mem_drop isX)) (by decide)

theorem withoutZeros_show (digits : ∀ x ∈ d.digits, x < 10) :
    withoutZeros d.show =
      wholeText d ++ if trimEnd '0' (fractionText d) = [] then []
        else '.' :: trimEnd '0' (fractionText d) := by
  rw [show_eq]
  by_cases places : 0 < d.scale
  · rw [if_pos places,
      withoutZeros_fraction (point_notMem_whole digits) (point_notMem_fraction digits)]
  · have noFraction : fractionText d = [] := by
      unfold fractionText
      rw [Nat.eq_zero_of_not_pos places, Nat.sub_zero, List.drop_length]
      rfl
    have nothing : trimEnd '0' [] = [] := rfl
    rw [if_neg places, noFraction, nothing, if_pos rfl, List.append_nil]
    unfold withoutZeros
    rw [if_neg (point_notMem_whole digits)]

def extended (d : Dec) (scale : Nat) : Dec :=
  { d with digits := d.withScale scale, scale := scale }

theorem extended_below (digits : ∀ x ∈ d.digits, x < 10) (scale : Nat) :
    ∀ x ∈ (extended d scale).digits, x < 10 := by
  unfold extended Dec.withScale
  split
  · simp
  · intro x member
    rcases List.mem_append.mp member with isDigit | isZero
    · exact digits x isDigit
    · rw [List.eq_of_mem_replicate isZero]
      decide

theorem padded_extended {scale : Nat} (upTo : d.scale ≤ scale) :
    (extended d scale).padded = d.padded ++ List.replicate (scale - d.scale) 0 := by
  by_cases isZero : d.digits = []
  · simp only [Dec.padded, extended, Dec.withScale, isZero, if_true, List.length_nil, Nat.zero_le,
      Nat.sub_zero, List.append_nil, List.replicate_append_replicate]
    congr 1
    omega
  · have longer : (d.digits ++ List.replicate (scale - d.scale) 0).length ≤ scale ↔
        d.digits.length ≤ d.scale := by
      rw [List.length_append, List.length_replicate]
      omega
    simp only [Dec.padded, extended, Dec.withScale, if_neg isZero, longer]
    split
    · rw [List.length_append, List.length_replicate, List.append_assoc]
      congr 2
      omega
    · rfl

theorem wholeText_extended {scale : Nat} (upTo : d.scale ≤ scale) :
    wholeText (extended d scale) = wholeText d := by
  have inside := scale_lt_padded d
  unfold wholeText
  rw [padded_extended upTo, List.length_append, List.length_replicate]
  show _ ++ (List.take (d.padded.length + (scale - d.scale) - scale) _).map digitChar = _
  rw [show d.padded.length + (scale - d.scale) - scale = d.padded.length - d.scale by omega,
    List.take_append_of_le_length (by omega)]
  rfl

theorem fractionText_extended {scale : Nat} (upTo : d.scale ≤ scale) :
    fractionText (extended d scale) =
      fractionText d ++ List.replicate (scale - d.scale) '0' := by
  have inside := scale_lt_padded d
  unfold fractionText
  rw [padded_extended upTo, List.length_append, List.length_replicate]
  show (List.drop (d.padded.length + (scale - d.scale) - scale) _).map digitChar = _
  rw [show d.padded.length + (scale - d.scale) - scale = d.padded.length - d.scale by omega,
    List.drop_append_of_le_length (by omega), List.map_append, List.map_replicate]
  rfl

theorem withoutZeros_extended (digits : ∀ x ∈ d.digits, x < 10) {scale : Nat}
    (upTo : d.scale ≤ scale) :
    withoutZeros (extended d scale).show = withoutZeros d.show := by
  rw [withoutZeros_show (extended_below digits scale), withoutZeros_show digits,
    wholeText_extended upTo, fractionText_extended upTo, trimEnd_zeros]

theorem compare_lengths_eq {a b : List Nat} (same : cmpMag a b = .eq) : a = b := by
  unfold cmpMag at same
  rw [Ordering.then_eq_eq] at same
  exact Std.LawfulEqOrd.eq_of_compare same.2

theorem withoutZeros_of_equal {a b : Dec} (digitsA : ∀ x ∈ a.digits, x < 10)
    (digitsB : ∀ x ∈ b.digits, x < 10) (equal : cmpNum (.fin a) (.fin b) = .eq) :
    withoutZeros a.show = withoutZeros b.show := by
  rw [cmpNum] at equal
  by_cases sameSign : a.neg = b.neg
  · rw [if_neg (not_not.mpr sameSign)] at equal
    have sameDigits : a.withScale (max a.scale b.scale) = b.withScale (max a.scale b.scale) := by
      cases isMinus : a.neg with
      | true =>
        simp only [isMinus, if_true] at equal
        rw [Ordering.swap_eq_eq] at equal
        exact compare_lengths_eq equal
      | false =>
        simp only [isMinus, Bool.false_eq_true, if_false] at equal
        exact compare_lengths_eq equal
    have sameShow : (extended a (max a.scale b.scale)).show =
        (extended b (max a.scale b.scale)).show := by
      unfold extended Dec.show Dec.padded
      rw [sameDigits, sameSign]
    rw [← withoutZeros_extended digitsA (Nat.le_max_left a.scale b.scale), sameShow,
      withoutZeros_extended digitsB (Nat.le_max_right a.scale b.scale)]
  · rw [if_pos sameSign] at equal
    split at equal
    · cases equal
    · cases equal

theorem intText_eq (i : Int) :
    ∃ d, numOfInt i = .fin d ∧ d.hidden = 0 ∧ withoutZeros d.show = intText i := by
  refine ⟨_, rfl, rfl, ?_⟩
  have whole : ({ neg := i < 0, digits := (Nat.digits 10 i.natAbs).reverse, scale := 0 } : Dec).show =
      intText i := by
    rw [show_eq, if_neg (Nat.lt_irrefl 0), List.append_nil]
    unfold wholeText intText Dec.padded
    by_cases isZero : i = 0
    · subst isZero
      decide
    · have some : Nat.digits 10 i.natAbs ≠ [] := by
        rw [Nat.digits_ne_nil_iff_ne_zero]
        omega
      have long : ¬ (Nat.digits 10 i.natAbs).reverse.length ≤ 0 := by
        rw [List.length_reverse, Nat.le_zero, List.length_eq_zero_iff]
        exact some
      simp only [if_neg long, if_neg isZero, Nat.sub_zero, List.take_length, decide_eq_true_eq]
  rw [← whole, withoutZeros_show (digits_magnitude i.natAbs).digits]
  rw [show_eq, if_neg (Nat.lt_irrefl 0)]
  unfold fractionText
  rw [Nat.sub_zero, List.drop_length]
  rfl

def numberKey (n : Numeric) : List Char :=
  let s := withoutZeros n.show
  if s = "-0".toList then "0".toList else s

theorem numberKey_of_equal {m n : Numeric} (heldM : Held (.num m)) (heldN : Held (.num n))
    (equal : cmpNum m n = .eq) : numberKey m = numberKey n := by
  cases m with
  | nan =>
    cases n with
    | nan => rfl
    | inf y => cases equal
    | fin y => cases equal
  | inf x =>
    cases n with
    | nan => cases equal
    | inf y => rw [← Std.LawfulEqOrd.eq_of_compare (show compare y x = .eq from equal)]
    | fin y => cases x <;> cases equal
  | fin x =>
    cases n with
    | nan => cases equal
    | inf y => cases y <;> cases equal
    | fin y =>
      have same := withoutZeros_of_equal heldM.1.magnitude.digits heldN.1.magnitude.digits equal
      unfold numberKey
      rw [show_fin heldM.2, show_fin heldN.2, same]

theorem numOfInt_held (i : Int) : Held (.num (numOfInt i)) := by
  unfold numOfInt Held
  refine ⟨⟨digits_magnitude i.natAbs, ?_⟩, rfl⟩
  intro isZero
  have none : Nat.digits 10 i.natAbs = [] := List.reverse_eq_nil_iff.mp isZero
  have zero := Nat.digits_eq_nil_iff_eq_zero.mp none
  simp only [decide_eq_false_iff_not]
  omega

theorem numberKey_int (i : Int) : numberKey (numOfInt i) = intText i := by
  obtain ⟨d, isDec, allShown, text⟩ := intText_eq i
  unfold numberKey
  rw [isDec, show_fin allShown, text]
  by_cases isZero : i = 0
  · subst isZero
    decide
  · have magnitude := digits_magnitude i.natAbs
    apply if_neg
    intro minusZero
    have chars : "-0".toList = ['-', '0'] := rfl
    unfold intText at minusZero
    rw [if_neg isZero, chars] at minusZero
    split at minusZero
    · have onlyZero := congrArg (List.map digitOf) (List.cons.inj minusZero).2
      have digits : (Nat.digits 10 i.natAbs).reverse = [0] :=
        (digitChars magnitude.digits).2.symm.trans onlyZero
      apply magnitude.leads
      rw [digits]
      rfl
    · have isMinus : '-' ∈ (Nat.digits 10 i.natAbs).reverse.map digitChar := by
        rw [List.nil_append] at minusZero
        rw [minusZero]
        decide
      exact notMem_digits magnitude.digits (by decide) isMinus

end Numbers

def isNull : Value → Bool
  | .null => true
  | _ => false

def isFloat : Value → Bool
  | .float _ => true
  | _ => false

theorem inetKey_of_equal {a b : Inet} (heldA : Held (.inet a)) (heldB : Held (.inet b))
    (equal : a.cmp b = .eq) : a.v6 = b.v6 ∧ a.addr = b.addr ∧ a.bits = b.bits := by
  unfold Inet.cmp at equal
  by_cases family : a.v6 = b.v6
  · rw [if_neg (not_not.mpr family), Ordering.then_eq_eq, Ordering.then_eq_eq] at equal
    obtain ⟨⟨_, bits⟩, addr⟩ := equal
    refine ⟨family, ?_, Std.LawfulEqOrd.eq_of_compare bits⟩
    have used := Std.LawfulEqOrd.eq_of_compare addr
    unfold Inet.len at used
    rw [← family] at used
    cases isV6 : a.v6 with
    | true =>
      simp only [isV6, if_true] at used
      rwa [List.take_of_length_le (Nat.le_of_eq heldA.1),
        List.take_of_length_le (Nat.le_of_eq heldB.1)] at used
    | false =>
      simp only [isV6, Bool.false_eq_true, if_false] at used
      rw [← List.take_append_drop 4 a.addr, ← List.take_append_drop 4 b.addr, used,
        heldA.2 isV6, heldB.2 (family ▸ isV6)]
  · rw [if_pos family] at equal
    exact (family (Std.LawfulEqOrd.eq_of_compare equal)).elim

theorem compareValues_text {bpchar : Bool} {x y : String}
    (equal : compareValues conv bpchar (.text x) (.text y) = .eq) :
    trimEnd ' ' x.toList = trimEnd ' ' y.toList := by
  rw [compareValues] at equal
  split at equal
  · have same := congrArg String.toList ((cmpText_eq_iff _ _).mp equal)
    rwa [String.toList_ofList, String.toList_ofList] at same
  · rw [(cmpText_eq_iff _ _).mp equal]

theorem joinKeyValue_of_cmp {a b : Value} {ka kb : JoinKey} (heldA : Held a) (heldB : Held b)
    (keyA : joinKeyValue a = some ka) (keyB : joinKeyValue b = some kb)
    (equal : cmpValues conv a b = .eq) : ka = kb := by
  suffices same : joinKeyValue a = joinKeyValue b by
    rw [keyA, keyB] at same
    exact Option.some.inj same
  cases a with
  | bool x =>
    cases b with
    | bool y => rw [Std.LawfulEqOrd.eq_of_compare (show compare x y = .eq from equal)]
    | _ => cases equal
  | int x =>
    cases b with
    | int y => rw [Std.LawfulEqOrd.eq_of_compare (show compare x y = .eq from equal)]
    | num y =>
      have sameKey := numberKey_of_equal (numOfInt_held x) heldB equal
      rw [numberKey_int] at sameKey
      exact congrArg (fun s => some (JoinKey.exact s)) sameKey
    | _ => first | cases equal | cases keyB
  | num x =>
    cases b with
    | int y =>
      have sameKey := numberKey_of_equal heldA (numOfInt_held y) equal
      rw [numberKey_int] at sameKey
      exact congrArg (fun s => some (JoinKey.exact s)) sameKey
    | num y =>
      exact congrArg (fun s => some (JoinKey.exact s)) (numberKey_of_equal heldA heldB equal)
    | _ => first | cases equal | cases keyB
  | text x =>
    cases b with
    | text y => rw [(cmpText_eq_iff x y).mp equal]
    | _ => cases equal
  | bytes x =>
    cases b with
    | bytes y => rw [Std.LawfulEqOrd.eq_of_compare (show compare x y = .eq from equal)]
    | _ => cases equal
  | date x =>
    cases b with
    | date y => rw [Std.LawfulEqOrd.eq_of_compare (show compare x y = .eq from equal)]
    | _ => cases equal
  | time x =>
    cases b with
    | time y => rw [Std.LawfulEqOrd.eq_of_compare (show compare x y = .eq from equal)]
    | _ => cases equal
  | ts x =>
    cases b with
    | ts y => rw [Std.LawfulEqOrd.eq_of_compare (show compare x y = .eq from equal)]
    | _ => cases equal
  | uuid x =>
    cases b with
    | uuid y => rw [Std.LawfulEqOrd.eq_of_compare (show compare x y = .eq from equal)]
    | _ => cases equal
  | inet x =>
    cases b with
    | inet y =>
      obtain ⟨family, addr, bits⟩ := inetKey_of_equal heldA heldB equal
      rw [joinKeyValue, joinKeyValue, family, addr, bits]
    | _ => cases equal
  | _ => cases keyA

theorem joinKeyValue_of_equal {bpchar : Bool} {a b : Value} {ka kb : JoinKey} (heldA : Held a)
    (heldB : Held b) (keyA : joinKeyValue a = some ka) (keyB : joinKeyValue b = some kb)
    (equal : compareValues conv bpchar a b = .eq) : ka = kb := by
  by_cases texts : ∃ x y, a = .text x ∧ b = .text y
  · obtain ⟨x, y, rfl, rfl⟩ := texts
    rw [joinKeyValue, compareValues_text equal, ← joinKeyValue, keyB] at keyA
    exact Option.some.inj keyA.symm
  · have others : compareValues conv bpchar a b = cmpValues conv a b := by
      rw [compareValues]
      intro x y isX isY
      exact texts ⟨x, y, isX, isY⟩
    exact joinKeyValue_of_cmp heldA heldB keyA keyB (others ▸ equal)

end NoidaDb.Postgres.Joins
