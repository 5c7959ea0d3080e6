/-
Dates, times and timestamps as text.

Numbers are printed with a fixed number of digits, so most of what is printed compares as
text the way it compares as a number.
-/

import NoidaDb.Sql.JsonOrder

namespace NoidaDb.Sql

open Lib

/-- `{n:0w}`. -/
def padded (w n : Nat) : List Char :=
  let digits := (Nat.digits 10 n).reverse
  (List.replicate (w - digits.length) 0 ++ digits).map digitChar

def cmpChars (a b : List Char) : Ordering := compare (a.map Char.toNat) (b.map Char.toNat)

theorem cmpText_ofList (a b : List Char) :
    cmpText (String.ofList a) (String.ofList b) = cmpChars a b := by
  simp [cmpText, cmpChars]

theorem cmpChars_cons (c d : Char) (a b : List Char) :
    cmpChars (c :: a) (d :: b) = (compare c.toNat d.toNat).then (cmpChars a b) :=
  List.compareLex_cons_cons

@[simp] theorem cmpChars_self (a : List Char) : cmpChars a a = .eq := by
  unfold cmpChars
  exact Std.ReflOrd.compare_self

theorem cmpChars_append {a b : List Char} (same : a.length = b.length) (c d : List Char) :
    cmpChars (a ++ c) (b ++ d) = (cmpChars a b).then (cmpChars c d) := by
  induction a generalizing b with
  | nil =>
    rw [List.length_eq_zero_iff.mp same.symm]
    simp
  | cons x a ih =>
    cases b with
    | nil => cases same
    | cons y b =>
      rw [List.cons_append, List.cons_append, cmpChars_cons, cmpChars_cons,
        ih (Nat.succ.inj same), Ordering.then_assoc]

variable {n w : Nat}

theorem length_digits (fits : n < 10 ^ w) : (Nat.digits 10 n).reverse.length ≤ w := by
  rw [List.length_reverse]
  exact (Nat.digits_length_le_iff (by decide) n).mpr fits

theorem length_padded (fits : n < 10 ^ w) : (padded w n).length = w := by
  have short := length_digits fits
  unfold padded
  rw [List.length_map, List.length_append, List.length_replicate]
  omega

theorem digitChar_toNat {d : Nat} (below : d < 10) : (digitChar d).toNat = 48 + d := by
  have all : ∀ d < 10, (digitChar d).toNat = 48 + d := by decide
  exact all d below

theorem numberOf_padded (w n : Nat) :
    numberOf 10 (List.replicate (w - (Nat.digits 10 n).reverse.length) 0 ++
      (Nat.digits 10 n).reverse) = n := by
  rw [numberOf_append]
  simp [numberOf, Nat.ofDigits_digits, Nat.ofDigits_replicate_zero]

theorem cmpChars_padded {m : Nat} (fitsM : m < 10 ^ w) (fitsN : n < 10 ^ w) :
    cmpChars (padded w m) (padded w n) = compare m n := by
  have below : ∀ n, ∀ d ∈ List.replicate (w - (Nat.digits 10 n).reverse.length) 0 ++
      (Nat.digits 10 n).reverse, d < 10 := by
    intro n d member
    rcases List.mem_append.mp member with zero | digit
    · rw [List.eq_of_mem_replicate zero]
      decide
    · exact digits_below n d digit
  have shifted : ∀ xs ys : List Nat, (∀ d ∈ xs, d < 10) → (∀ d ∈ ys, d < 10) →
      cmpChars (xs.map digitChar) (ys.map digitChar) = compare xs ys := by
    intro xs
    induction xs with
    | nil =>
      intro ys _ _
      cases ys with
      | nil => rfl
      | cons y ys => rfl
    | cons x xs ih =>
      intro ys belowX belowY
      cases ys with
      | nil => rfl
      | cons y ys =>
        obtain ⟨belowX, belowXs⟩ := List.forall_mem_cons.mp belowX
        obtain ⟨belowY, belowYs⟩ := List.forall_mem_cons.mp belowY
        have step : compare (x :: xs) (y :: ys) = (compare x y).then (compare xs ys) :=
          List.compareLex_cons_cons
        have heads : compare (48 + x) (48 + y) = compare x y := by
          simp [compare, compareOfLessAndEq]
        rw [List.map_cons, List.map_cons, cmpChars_cons, digitChar_toNat belowX,
          digitChar_toNat belowY, ih ys belowXs belowYs, step, heads]
  have lengths := (length_padded fitsM).trans (length_padded fitsN).symm
  unfold padded at lengths ⊢
  rw [List.length_map, List.length_map] at lengths
  rw [shifted _ _ (below m) (below n), compare_of_length (by decide) (below m) (below n) lengths,
    numberOf_padded, numberOf_padded]

def usecsPerSec : Int := 1000000

def usecsPerDay : Int := 86400 * usecsPerSec

def pgEpochDays : Int := 10957

def dateInf : Int := 2 ^ 31 - 1

def dateNegInf : Int := -2 ^ 31

def tsInf : Int := 2 ^ 63 - 1

def tsNegInf : Int := -2 ^ 63

def civilFromDays (days : Int) : Int × Nat × Nat :=
  let z := days + 719468
  let era := z / 146097
  let doe := z - era * 146097
  let yoe := (doe - doe / 1460 + doe / 36524 - doe / 146096) / 365
  let y := yoe + era * 400
  let doy := doe - (365 * yoe + yoe / 4 - yoe / 100)
  let mp := (5 * doy + 2) / 153
  let d := doy - (153 * mp + 2) / 5 + 1
  let m := if mp < 10 then mp + 3 else mp - 9
  (if m ≤ 2 then y + 1 else y, m.toNat, d.toNat)

def yearStr (y : Int) : List Char × Bool :=
  if y ≤ 0 then (padded 4 (1 - y).toNat, true) else (padded 4 y.toNat, false)

def formatDate (d : Int) : List Char :=
  if d = dateInf then "infinity".toList
  else if d = dateNegInf then "-infinity".toList
  else
    let date := civilFromDays (d + pgEpochDays)
    let year := yearStr date.1
    year.1 ++ '-' :: padded 2 date.2.1 ++ '-' :: padded 2 date.2.2 ++
      if year.2 then " BC".toList else []

def fracStr (frac : Nat) : List Char :=
  if frac = 0 then []
  else '.' :: ((padded 6 frac).reverse.dropWhile (fun c => c == '0')).reverse

/-- `HH:MM:SS[.ffffff]`. -/
def formatTime (us : Nat) : List Char :=
  let secs := us / 1000000
  padded 2 (secs / 3600) ++ ':' :: padded 2 (secs / 60 % 60) ++ ':' :: padded 2 (secs % 60) ++
    fracStr (us % 1000000)

def formatTimestamp (ts : Int) : List Char :=
  if ts = tsInf then "infinity".toList
  else if ts = tsNegInf then "-infinity".toList
  else
    let date := civilFromDays (ts / usecsPerDay + pgEpochDays)
    let year := yearStr date.1
    year.1 ++ '-' :: padded 2 date.2.1 ++ '-' :: padded 2 date.2.2 ++
      ' ' :: formatTime (ts % usecsPerDay).toNat ++ if year.2 then " BC".toList else []

theorem digitChar_pos {d : Nat} (below : d < 10) (pos : 0 < d) : '0'.toNat < (digitChar d).toNat := by
  rw [digitChar_toNat below]
  show 48 < 48 + d
  omega

theorem padded_after_zeros (w : Nat) (pos : 0 < n) (rest other : List Char) :
    cmpChars (padded (w + 1) n ++ rest) (List.replicate (w + 1) '0' ++ other) = .gt := by
  by_cases fits : n < 10 ^ (w + 1)
  · have zeros : padded (w + 1) 0 = List.replicate (w + 1) '0' := by
      have isZero : digitChar 0 = '0' := by decide
      simp [padded, isZero]
    have fitsZero : 0 < 10 ^ (w + 1) := Nat.pow_pos (by decide)
    rw [← zeros, cmpChars_append ((length_padded fits).trans (length_padded fitsZero).symm),
      cmpChars_padded fits fitsZero, compare_gt_iff_gt.mpr pos]
    rfl
  · -- More digits than zeros, the first of which is no zero.
    have long : w + 1 < (Nat.digits 10 n).reverse.length := by
      rw [List.length_reverse]
      by_contra short
      exact fits ((Nat.digits_length_le_iff (by decide) n).mp (Nat.le_of_not_lt short))
    cases isDigits : (Nat.digits 10 n).reverse with
    | nil =>
      rw [isDigits] at long
      cases long
    | cons d ds =>
      have below : d < 10 := digits_below n d (by rw [isDigits]; exact List.mem_cons_self)
      have leads : 0 < d := by
        have last := Nat.getLast_digit_ne_zero 10 (m := n) (by omega)
        have isLast : (Nat.digits 10 n).getLast? = some d := by
          rw [← List.head?_reverse, isDigits]
          rfl
        rw [List.getLast?_eq_some_getLast (Nat.digits_ne_nil_iff_ne_zero.mpr (by omega))] at isLast
        rw [Option.some.inj isLast] at last
        omega
      have text : padded (w + 1) n = digitChar d :: ds.map digitChar := by
        rw [isDigits] at long
        simp only [padded, isDigits, Nat.sub_eq_zero_of_le (Nat.le_of_lt long)]
        rfl
      rw [text, List.replicate_succ, List.cons_append, List.cons_append, cmpChars_cons,
        compare_gt_iff_gt.mpr (digitChar_pos below leads)]
      rfl

theorem yearStr_after_zeros (y : Int) (rest other : List Char) :
    cmpChars ((yearStr y).1 ++ rest) (List.replicate 4 '0' ++ other) = .gt := by
  unfold yearStr
  split
  · exact padded_after_zeros 3 (by omega) rest other
  · exact padded_after_zeros 3 (by omega) rest other

/-- Every date but `-infinity` comes after a text that begins like the zero date. -/
theorem formatDate_after_zeros (d : Int) (rest other : List Char) :
    cmpChars (formatDate d ++ rest) (List.replicate 4 '0' ++ other) =
      if d = dateNegInf then .lt else .gt := by
  unfold formatDate
  by_cases isInf : d = dateInf
  · rw [if_pos isInf, if_neg (by rw [isInf]; decide)]
    rfl
  · rw [if_neg isInf]
    by_cases isNegInf : d = dateNegInf
    · rw [if_pos isNegInf, if_pos isNegInf]
      rfl
    · rw [if_neg isNegInf, if_neg isNegInf]
      simp only [List.append_assoc]
      exact yearStr_after_zeros _ _ other

theorem formatTimestamp_after_zeros (ts : Int) (rest other : List Char) :
    cmpChars (formatTimestamp ts ++ rest) (List.replicate 4 '0' ++ other) =
      if ts = tsNegInf then .lt else .gt := by
  unfold formatTimestamp
  by_cases isInf : ts = tsInf
  · rw [if_pos isInf, if_neg (by rw [isInf]; decide)]
    rfl
  · rw [if_neg isInf]
    by_cases isNegInf : ts = tsNegInf
    · rw [if_pos isNegInf, if_pos isNegInf]
      rfl
    · rw [if_neg isNegInf, if_neg isNegInf]
      simp only [List.append_assoc]
      exact yearStr_after_zeros _ _ other

end NoidaDb.Sql
