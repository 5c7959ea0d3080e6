/-
What is printed for a timestamp is read back as that timestamp.

The text is a date token, a clock token with the zone glued to it, and the era.
-/

import NoidaDb.Sql.DatetimeText

namespace NoidaDb.Sql

open Lib

namespace DatetimeText

/-! ### Characters -/

def digitMarks : List Char := "0123456789".toList

/-- A text with the digits and the characters `others` in it. -/
def Over (others s : List Char) : Prop := ∀ c ∈ s, c ∈ digitMarks ++ others

variable {s : List Char} {n w m : Nat} {ts : Int} {c : Char}

theorem Over.none {others : List Char} (within : Over others s) {p : Char → Bool}
    (all : (digitMarks ++ others).all (fun c => !p c) = true) : ∀ c ∈ s, p c = false := by
  intro c isC
  have notP := List.all_eq_true.mp all c (within c isC)
  simpa using notP

theorem Over.append {others t : List Char} (first : Over others s) (second : Over others t) :
    Over others (s ++ t) := by
  intro c isC
  rcases List.mem_append.mp isC with inFirst | inSecond
  · exact first c inFirst
  · exact second c inSecond

theorem Over.cons {others t : List Char} {c : Char} (isOther : c ∈ digitMarks ++ others)
    (later : Over others t) : Over others (c :: t) :=
  List.forall_mem_cons.mpr ⟨isOther, later⟩

theorem Over.nil (others : List Char) : Over others [] := by simp [Over]

theorem Over.mono {others : List Char} (within : Over others s) {more : List Char}
    (subset : others ⊆ more) : Over more s := by
  intro c isC
  rcases List.mem_append.mp (within c isC) with isDigit | isOther
  · exact List.mem_append_left _ isDigit
  · exact List.mem_append_right _ (subset isOther)

/-! ### Numbers of a width -/

def paddedDigits (w n : Nat) : List Nat :=
  List.replicate (w - (Nat.digits 10 n).reverse.length) 0 ++ (Nat.digits 10 n).reverse

theorem paddedDigits_below (w n : Nat) : ∀ k ∈ paddedDigits w n, k < 10 := by
  intro k isK
  rcases List.mem_append.mp isK with zero | digit
  · rw [List.eq_of_mem_replicate zero]
    decide
  · exact digits_below n k digit

theorem padded_eq (w n : Nat) : padded w n = (paddedDigits w n).map digitChar := rfl

theorem allDigits_padded (w n : Nat) : allDigits (padded w n) = true :=
  List.all_eq_true.mpr (digitChars (paddedDigits_below w n)).1

theorem numeral_padded (w n : Nat) : numeral (padded w n) = n := by
  unfold numeral
  rw [padded_eq, (digitChars (paddedDigits_below w n)).2]
  exact numberOf_padded w n

theorem padded_over (w n : Nat) (others : List Char) : Over others (padded w n) := by
  intro c isC
  rw [padded_eq] at isC
  obtain ⟨k, isK, same⟩ := List.mem_map.mp isC
  have marks : ∀ k < 10, digitChar k ∈ digitMarks := by decide
  rw [← same]
  exact List.mem_append_left _ (marks k (paddedDigits_below w n k isK))

theorem le_length_padded (w n : Nat) : w ≤ (padded w n).length := by
  rw [padded_eq, List.length_map, paddedDigits, List.length_append, List.length_replicate]
  omega

theorem padded_cons (pos : 0 < w) (n : Nat) :
    ∃ c rest, padded w n = c :: rest ∧ c ∈ digitMarks := by
  have long := le_length_padded w n
  cases text : padded w n with
  | nil =>
    rw [text] at long
    simp at long
    omega
  | cons c rest =>
    have within := padded_over w n []
    rw [text] at within
    have isDigit := within c List.mem_cons_self
    rw [List.append_nil] at isDigit
    exact ⟨c, rest, rfl, isDigit⟩

theorem padded_two (fits : n < 100) : padded 2 n = [digitChar (n / 10), digitChar (n % 10)] := by
  have lengths : (paddedDigits 2 n).length = 2 := by
    have length := length_padded (w := 2) (n := n) fits
    rw [padded_eq, List.length_map] at length
    exact length
  obtain ⟨a, b, isPair⟩ := List.length_eq_two.mp lengths
  have below := paddedDigits_below 2 n
  have value := numberOf_padded 2 n
  rw [← paddedDigits, isPair] at value
  rw [isPair] at below
  have isA := below a (by simp)
  have isB := below b (by simp)
  have sum : 10 * a + b = n := by
    rw [← value]
    simp [numberOf, Nat.ofDigits]
    omega
  rw [padded_eq, isPair, List.map_cons, List.map_cons, List.map_nil, ← sum]
  have tens : (10 * a + b) / 10 = a := by omega
  have ones : (10 * a + b) % 10 = b := by omega
  rw [tens, ones]

theorem byteLen_over (within : Over [] s) : byteLen s = s.length := by
  induction s with
  | nil => rfl
  | cons c s ih =>
    obtain ⟨first, later⟩ := List.forall_mem_cons.mp within
    have single : (digitMarks ++ []).all (fun c => c.utf8Size == 1) = true := by decide
    have one := beq_iff_eq.mp (List.all_eq_true.mp single c first)
    have rest := ih later
    unfold byteLen at rest ⊢
    rw [List.map_cons, List.sum_cons, rest, one, List.length_cons, Nat.add_comm]

theorem padded_ne_nil (pos : 0 < w) (n : Nat) : padded w n ≠ [] := by
  obtain ⟨c, rest, text, _⟩ := padded_cons pos n
  rw [text]
  exact List.cons_ne_nil c rest

theorem clockNum_padded (fits : n < 100) : clockNum (padded 2 n) = .ok n := by
  have length := length_padded (w := 2) (n := n) fits
  have short : ¬ 9 < byteLen (padded 2 n) := by
    rw [byteLen_over (padded_over 2 n []), length]
    decide
  unfold clockNum
  rw [if_neg, numeral_padded]
  rw [allDigits_padded]
  rintro (isEmpty | isLong | isOther)
  · exact padded_ne_nil (by decide) n isEmpty
  · exact short isLong
  · cases isOther

theorem dateNum_padded (pos : 0 < w) (fits : n < 2 ^ 63) :
    dateNum (padded w n) = .ok (n : Int) := by
  unfold dateNum
  rw [if_neg, numeral_padded, if_pos (by omega)]
  rw [allDigits_padded]
  rintro (isEmpty | isOther)
  · exact padded_ne_nil pos n isEmpty
  · cases isOther

/-! ### Fractions of a second -/

def trimZeros (s : List Char) : List Char := (s.reverse.dropWhile (fun c => c == '0')).reverse

theorem trimZeros_append (s : List Char) :
    s = trimZeros s ++ List.replicate (s.length - (trimZeros s).length) '0' := by
  have zeros : s.reverse.takeWhile (fun c => c == '0') =
      List.replicate (s.reverse.takeWhile (fun c => c == '0')).length '0' := by
    apply List.eq_replicate_of_mem
    intro c isC
    exact beq_iff_eq.mp (List.all_eq_true.mp List.all_takeWhile c isC)
  have whole := List.takeWhile_append_dropWhile (p := fun c => c == '0') (l := s.reverse)
  have parts : s = trimZeros s ++ (s.reverse.takeWhile (fun c => c == '0')).reverse := by
    unfold trimZeros
    rw [← List.reverse_append, whole, List.reverse_reverse]
  have lengths := congrArg List.length parts
  rw [List.length_append, List.length_reverse] at lengths
  have count : s.length - (trimZeros s).length =
      (s.reverse.takeWhile (fun c => c == '0')).length := by omega
  rw [count]
  rw [zeros, List.reverse_replicate] at parts
  exact parts

theorem trimZeros_over (others s : List Char) (within : Over others s) :
    Over others (trimZeros s) := by
  intro c isC
  apply within c
  rw [trimZeros_append s]
  exact List.mem_append_left _ isC

theorem parseFracMicros_trimZeros {frac : Nat} (pos : 0 < frac) (fits : frac < 1000000) :
    parseFracMicros (trimZeros (padded 6 frac)) = frac := by
  have length := length_padded (w := 6) (n := frac) fits
  have whole := trimZeros_append (padded 6 frac)
  rw [length] at whole
  have short : (trimZeros (padded 6 frac)).length ≤ 6 := by
    have lengths := congrArg List.length whole
    rw [length, List.length_append] at lengths
    omega
  have digits : (padded 6 frac).map digitOf =
      (trimZeros (padded 6 frac)).map digitOf ++
        List.replicate (6 - (trimZeros (padded 6 frac)).length) 0 := by
    have zero : digitOf '0' = 0 := by decide
    have mapped := congrArg (List.map digitOf) whole
    rw [List.map_append, List.map_replicate, zero] at mapped
    exact mapped
  have some : trimZeros (padded 6 frac) ≠ [] := by
    intro isEmpty
    rw [isEmpty, List.map_nil, List.nil_append] at digits
    have value := numeral_padded 6 frac
    unfold numeral at value
    rw [digits, numberOf, List.reverse_replicate, Nat.ofDigits_replicate_zero] at value
    omega
  -- With seven more zeros the first six digits are those that were printed.
  obtain ⟨zeros, isZeros⟩ : ∃ k, k = (trimZeros (padded 6 frac)).length := ⟨_, rfl⟩
  have extended : (trimZeros (padded 6 frac)).map digitOf ++ List.replicate 7 0 =
      (padded 6 frac).map digitOf ++ 0 :: List.replicate zeros 0 := by
    have split : 7 = (6 - zeros) + (zeros + 1) := by omega
    rw [digits, ← isZeros, List.append_assoc, ← List.replicate_succ, ← List.replicate_add, ← split]
  have six : ((padded 6 frac).map digitOf).length = 6 := by rw [List.length_map, length]
  unfold parseFracMicros
  rw [if_neg some, extended]
  have first : (((padded 6 frac).map digitOf ++ 0 :: List.replicate zeros 0).take 7).take 6 =
      (padded 6 frac).map digitOf := by
    rw [List.take_take]
    exact List.take_left' six
  have seventh : (((padded 6 frac).map digitOf ++ 0 :: List.replicate zeros 0).take 7).getD 6 0 =
      0 := by
    rw [List.getD_eq_getElem?_getD, List.getElem?_take_of_lt (by decide),
      List.getElem?_append_right (by rw [six]), six]
    rfl
  simp only [first, seventh]
  exact numeral_padded 6 frac

/-! ### Clocks -/

theorem fracStr_eq (frac : Nat) :
    fracStr frac = if frac = 0 then [] else '.' :: trimZeros (padded 6 frac) := rfl

theorem fracStr_over (frac : Nat) : Over ['.'] (fracStr frac) := by
  rw [fracStr_eq]
  split
  · exact Over.nil _
  · exact Over.cons (by decide) (trimZeros_over _ _ (padded_over 6 frac _))

theorem clockSeconds_padded {sec frac : Nat} (fitsSec : sec < 100) (fits : frac < 1000000) :
    clockSeconds (padded 2 sec ++ fracStr frac) = .ok (sec, frac) := by
  have noPoint : ∀ c ∈ padded 2 sec, (c != '.') = true := by
    intro c isC
    have isOther := (padded_over 2 sec []).none (p := fun c => c == '.') (by decide) c isC
    rw [bne, isOther]
    rfl
  have whole : (padded 2 sec ++ fracStr frac).takeWhile (fun c => c != '.') = padded 2 sec := by
    rw [List.takeWhile_append_of_pos noPoint, fracStr_eq]
    split
    · simp
    · simp
  have rest : (padded 2 sec ++ fracStr frac).dropWhile (fun c => c != '.') = fracStr frac := by
    rw [List.dropWhile_append_of_pos noPoint, fracStr_eq]
    split
    · rfl
    · rfl
  unfold clockSeconds
  rw [whole, rest, clockNum_padded fitsSec, fracStr_eq]
  by_cases isZero : frac = 0
  · rw [if_pos isZero, isZero]
    rfl
  · rw [if_neg isZero, List.tail_cons]
    have digits : allDigits (trimZeros (padded 6 frac)) = true := by
      apply List.all_eq_true.mpr
      intro c isC
      apply List.all_eq_true.mp (allDigits_padded 6 frac)
      rw [trimZeros_append (padded 6 frac)]
      exact List.mem_append_left _ isC
    show (if allDigits (trimZeros (padded 6 frac)) = false then Except.error DtErr.syntaxError
      else Except.ok (sec, parseFracMicros (trimZeros (padded 6 frac)))) = Except.ok (sec, frac)
    rw [digits, if_neg (by decide), parseFracMicros_trimZeros (by omega) fits]

theorem parseClock_formatTime {us : Nat} (inDay : us < 86400000000) :
    parseClock (formatTime us) = .ok (us : Int) := by
  have hours : us / 1000000 / 3600 < 24 := by omega
  have noColon (w n : Nat) : ∀ c ∈ padded w n, (c == ':') = false :=
    (padded_over w n []).none (p := fun c => c == ':') (by decide)
  have noColonAfter : ∀ c ∈ padded 2 (us / 1000000 % 60) ++ fracStr (us % 1000000),
      (c == ':') = false :=
    ((padded_over 2 _ _).append (fracStr_over _)).none (p := fun c => c == ':') (by decide)
  have parts : (formatTime us).splitOn ':' = [padded 2 (us / 1000000 / 3600),
      padded 2 (us / 1000000 / 60 % 60), padded 2 (us / 1000000 % 60) ++ fracStr (us % 1000000)] := by
    unfold formatTime
    simp only [List.append_assoc, List.cons_append]
    rw [List.splitOn_eq_splitOnP,
      List.splitOnP_append_cons_of_forall_mem (noColon 2 _) ':' (by decide),
      List.splitOnP_append_cons_of_forall_mem (noColon 2 _) ':' (by decide),
      List.splitOnP_eq_singleton noColonAfter]
  unfold parseClock
  rw [parts]
  simp only [clockNum_padded (show us / 1000000 / 3600 < 100 by omega),
    clockNum_padded (show us / 1000000 / 60 % 60 < 100 by omega),
    clockSeconds_padded (show us / 1000000 % 60 < 100 by omega)
      (show us % 1000000 < 1000000 by omega)]
  show clockOf _ _ _ = _
  unfold clockOf usecsPerDay usecsPerSec
  rw [if_neg (by omega)]
  simp only
  rw [if_neg (by omega)]
  exact congrArg Except.ok (by omega)

/-! ### Dates -/

def dateStr (n m d : Nat) : List Char :=
  padded 4 n ++ '-' :: (padded 2 m ++ '-' :: padded 2 d)

theorem monthFromName_padded (fits : m < 100) : monthFromName (padded 2 m) = none := by
  have short : ∀ a < 10, ∀ b < 10,
      byteLen (trimEndMatches '.' (lowercase [digitChar a, digitChar b])) < 3 := by decide
  unfold monthFromName
  rw [padded_two fits, if_pos (short (m / 10) (by omega) (m % 10) (by omega))]

theorem dateOfParts_padded {d : Nat} (fitsN : n < 2 ^ 63) (fitsM : m ≤ 12) (fitsD : d ≤ 31) :
    dateOfParts (padded 4 n) (padded 2 m) (padded 2 d) = .ok (some ((n : Int), m, d)) := by
  have long : 3 ≤ byteLen (padded 4 n) := by
    rw [byteLen_over (padded_over 4 n [])]
    exact Nat.le_trans (by decide) (le_length_padded 4 n)
  have year := dateNum_padded (show 0 < 4 by decide) fitsN
  have month := dateNum_padded (w := 2) (by decide) (show m < 2 ^ 63 by omega)
  have day := dateNum_padded (w := 2) (by decide) (show d < 2 ^ 63 by omega)
  have small : ¬ (12 < (m : Int) ∨ 31 < (d : Int)) := by omega
  unfold dateOfParts
  simp only [monthFromName_padded (show m < 100 by omega), if_pos long, year, month, day, bind,
    Except.bind, if_neg small, Int.toNat_natCast]

theorem parseDateToken_dateStr {d : Nat} (fitsN : n < 2 ^ 63) (fitsM : m ≤ 12) (fitsD : d ≤ 31) :
    parseDateToken (dateStr n m d) = .ok (some ((n : Int), m, d)) := by
  have noDash (w n : Nat) : ∀ c ∈ padded w n, (c == '-') = false :=
    (padded_over w n []).none (p := fun c => c == '-') (by decide)
  have parts : (dateStr n m d).splitOn '-' = [padded 4 n, padded 2 m, padded 2 d] := by
    unfold dateStr
    rw [List.splitOn_eq_splitOnP,
      List.splitOnP_append_cons_of_forall_mem (noDash 4 n) '-' (by decide),
      List.splitOnP_append_cons_of_forall_mem (noDash 2 m) '-' (by decide),
      List.splitOnP_eq_singleton (noDash 2 d)]
  have dashed : (dateStr n m d).contains '-' ∧ (dateStr n m d).head? ≠ some '-' := by
    constructor
    · simp [dateStr]
    · obtain ⟨c, rest, text, isDigit⟩ := padded_cons (show 0 < 4 by decide) n
      have noDash : digitMarks.all (fun c => c != '-') = true := by decide
      intro isHead
      rw [dateStr, text] at isHead
      exact bne_iff_ne.mp (List.all_eq_true.mp noDash c isDigit) (Option.some.inj isHead)
  have split : dateOfSplit [padded 4 n, padded 2 m, padded 2 d] =
      dateOfParts (padded 4 n) (padded 2 m) (padded 2 d) := by rw [dateOfSplit]
  unfold parseDateToken
  rw [if_pos dashed, parts, split, dateOfParts_padded fitsN fitsM fitsD]

theorem dateStr_over (n m d : Nat) : Over ['-'] (dateStr n m d) := by
  have dash : '-' ∈ digitMarks ++ ['-'] := by decide
  exact (padded_over 4 n _).append (Over.cons dash ((padded_over 2 m _).append
    (Over.cons dash (padded_over 2 d _))))

/-! ### Offsets -/

theorem formatOffset_cons (o : Int) : ∃ sign rest, formatOffset o = sign :: rest ∧
    sign = (if o < 0 then '-' else '+') ∧ Over [':'] rest ∧ rest ≠ [] := by
  have colon : ':' ∈ digitMarks ++ [':'] := by decide
  have present (n : Nat) (rest : List Char) : padded 2 n ++ rest ≠ [] :=
    List.append_ne_nil_of_left_ne_nil (padded_ne_nil (by decide) n) rest
  unfold formatOffset
  simp only
  split
  · exact ⟨_, _, rfl, rfl, ((padded_over 2 _ _).append (Over.cons colon (padded_over 2 _ _))).append
      (Over.cons colon (padded_over 2 _ _)), by simp [present]⟩
  · split
    · exact ⟨_, _, rfl, rfl, (padded_over 2 _ _).append (Over.cons colon (padded_over 2 _ _)),
        present _ _⟩
    · exact ⟨_, _, rfl, rfl, padded_over 2 _ _, padded_ne_nil (by decide) _⟩

theorem offsetOfParts_padded (neg : Bool) {parts : List Nat} (some : parts ≠ [])
    (few : parts.length ≤ 3) (h : parts.getD 0 0 ≤ 15) (m : parts.getD 1 0 ≤ 59)
    (sec : parts.getD 2 0 ≤ 59) :
    offsetOfParts neg (parts.map (padded 2)) =
      Option.some (if neg then
        -((parts.getD 0 0 : Int) * 3600 + parts.getD 1 0 * 60 + parts.getD 2 0)
        else (parts.getD 0 0 : Int) * 3600 + parts.getD 1 0 * 60 + parts.getD 2 0) := by
  have read (i : Nat) : numeral ((parts.map (padded 2)).getD i []) = parts.getD i 0 := by
    rw [List.getD_eq_getElem?_getD, List.getD_eq_getElem?_getD, List.getElem?_map]
    cases parts[i]? with
    | none => rfl
    | some n => exact numeral_padded 2 n
  have wellFormed : ¬ ((parts.map (padded 2)).isEmpty ∨ 3 < (parts.map (padded 2)).length ∨
      (parts.map (padded 2)).any (fun p => p.isEmpty || !allDigits p)) := by
    rintro (isEmpty | isLong | isOther)
    · rw [List.isEmpty_iff, List.map_eq_nil_iff] at isEmpty
      exact some isEmpty
    · rw [List.length_map] at isLong
      omega
    · obtain ⟨p, isP, bad⟩ := List.any_eq_true.mp isOther
      obtain ⟨n, _, rfl⟩ := List.mem_map.mp isP
      rw [allDigits_padded] at bad
      simp [padded_ne_nil] at bad
  unfold offsetOfParts
  rw [if_neg wellFormed, read, read, read, if_neg (by omega)]

def offsetParts (a : Nat) : List Nat :=
  if a % 60 ≠ 0 then [a / 3600, a / 60 % 60, a % 60]
  else if a / 60 % 60 ≠ 0 then [a / 3600, a / 60 % 60]
  else [a / 3600]

def partsOf (rest : List Char) : Except DtErr (Option (List (List Char))) :=
  if rest.contains ':' then .ok (some (rest.splitOn ':')) else compactParts rest

theorem parseIsoOffset_of_parts (isSign : c = '+' ∨ c = '-') {rest : List Char}
    (present : rest ≠ []) {parts : List (List Char)} (read : partsOf rest = .ok (some parts)) :
    parseIsoOffset (c :: rest) = .ok (offsetOfParts (c = '-') parts) := by
  have signed : ¬ (rest = [] ∨ (c ≠ '+' ∧ c ≠ '-')) := by tauto
  unfold parseIsoOffset
  unfold partsOf at read
  simp only [if_neg signed]
  by_cases colons : rest.contains ':' = true
  · rw [if_pos colons] at read ⊢
    rw [Option.some.inj (Except.ok.inj read)]
  · rw [if_neg colons] at read ⊢
    rw [read]
    rfl

theorem partsOf_two (fits : n < 100) : partsOf (padded 2 n) = .ok (some [padded 2 n]) := by
  have noColon := (padded_over 2 n []).none (p := fun c => c == ':') (by decide)
  have plain : ¬ (padded 2 n).contains ':' = true := by
    intro found
    rw [List.contains_eq_any_beq, List.any_eq_true] at found
    obtain ⟨c, isC, same⟩ := found
    have other := noColon c isC
    rw [Bool.beq_comm, other] at same
    cases same
  have length : byteLen (padded 2 n) = 2 := by
    rw [byteLen_over (padded_over 2 n []), length_padded fits]
  unfold partsOf compactParts
  rw [if_neg plain, if_pos (Or.inr length)]

theorem partsOf_colons (n : Nat) {rest : List Char} :
    partsOf (padded 2 n ++ ':' :: rest) = .ok (some (padded 2 n :: rest.splitOn ':')) := by
  have noColon := (padded_over 2 n []).none (p := fun c => c == ':') (by decide)
  unfold partsOf
  rw [if_pos (by simp), List.splitOn_eq_splitOnP,
    List.splitOnP_append_cons_of_forall_mem noColon ':' (by decide), ← List.splitOn_eq_splitOnP]

theorem splitOn_padded (n : Nat) : (padded 2 n).splitOn ':' = [padded 2 n] := by
  rw [List.splitOn_eq_splitOnP,
    List.splitOnP_eq_singleton ((padded_over 2 n []).none (p := fun c => c == ':') (by decide))]

theorem splitOn_two (m s : Nat) :
    (padded 2 m ++ ':' :: padded 2 s).splitOn ':' = [padded 2 m, padded 2 s] := by
  have noColon := (padded_over 2 m []).none (p := fun c => c == ':') (by decide)
  rw [List.splitOn_eq_splitOnP,
    List.splitOnP_append_cons_of_forall_mem noColon ':' (by decide), ← List.splitOn_eq_splitOnP,
    splitOn_padded]

theorem formatOffset_parts {o : Int} (small : o.natAbs < 57600) :
    ∃ rest, formatOffset o = (if o < 0 then '-' else '+') :: rest ∧ rest ≠ [] ∧
      partsOf rest = .ok (some ((offsetParts o.natAbs).map (padded 2))) := by
  have present (n : Nat) : padded 2 n ≠ [] := padded_ne_nil (by decide) n
  unfold formatOffset offsetParts
  simp only
  split
  · refine ⟨_, by rw [List.cons_append, List.cons_append], by simp [present], ?_⟩
    rw [List.append_assoc, List.cons_append, partsOf_colons, splitOn_two]
    rfl
  · split
    · refine ⟨_, by rw [List.cons_append], by simp [present], ?_⟩
      rw [partsOf_colons, splitOn_padded]
      rfl
    · exact ⟨_, rfl, present _, partsOf_two (by omega)⟩

theorem offsetParts_spec {a : Nat} (small : a < 57600) :
    (offsetParts a).length ≤ 3 ∧ offsetParts a ≠ [] ∧ (offsetParts a).getD 0 0 ≤ 15 ∧
      (offsetParts a).getD 1 0 ≤ 59 ∧ (offsetParts a).getD 2 0 ≤ 59 ∧
      (offsetParts a).getD 0 0 * 3600 + (offsetParts a).getD 1 0 * 60 +
        (offsetParts a).getD 2 0 = a := by
  unfold offsetParts
  split
  · simp only [List.length_cons, List.length_nil, List.getD_cons_zero, List.getD_cons_succ]
    refine ⟨by omega, List.cons_ne_nil _ _, by omega, by omega, by omega, by omega⟩
  · split
    · simp only [List.length_cons, List.length_nil, List.getD_cons_zero, List.getD_cons_succ,
        List.getD_nil]
      refine ⟨by omega, List.cons_ne_nil _ _, by omega, by omega, by omega, by omega⟩
    · simp only [List.length_cons, List.length_nil, List.getD_cons_zero, List.getD_cons_succ,
        List.getD_nil]
      refine ⟨by omega, List.cons_ne_nil _ _, by omega, by omega, by omega, by omega⟩

theorem parseIsoOffset_formatOffset {o : Int} (small : o.natAbs < 57600) :
    parseIsoOffset (formatOffset o) = .ok (some o) := by
  obtain ⟨rest, text, present, parts⟩ := formatOffset_parts small
  obtain ⟨few, some, h, m, s, total⟩ := offsetParts_spec small
  have isSign : (if o < 0 then '-' else '+') = '+' ∨ (if o < 0 then '-' else '+') = '-' := by
    split
    · exact Or.inr rfl
    · exact Or.inl rfl
  rw [text, parseIsoOffset_of_parts isSign present parts, offsetOfParts_padded _ some few h m s]
  by_cases negative : o < 0
  · simp only [if_pos negative, decide_true]
    rw [if_pos trivial]
    exact congrArg (fun v => Except.ok (Option.some v)) (by omega)
  · have plus : ('+' = '-') = False := by decide
    simp only [if_neg negative, plus, decide_false]
    rw [if_neg (by decide)]
    exact congrArg (fun v => Except.ok (Option.some v)) (by omega)

/-! ### Tokens -/

theorem over_formatTime (us : Nat) : Over [':', '.'] (formatTime us) := by
  have colon : ':' ∈ digitMarks ++ [':', '.'] := by decide
  unfold formatTime
  exact (((padded_over 2 _ _).append (Over.cons colon (padded_over 2 _ _))).append
    (Over.cons colon (padded_over 2 _ _))).append ((fracStr_over _).mono (by simp))

theorem formatTime_cons (us : Nat) : ∃ c rest, formatTime us = c :: rest ∧ c ∈ digitMarks := by
  obtain ⟨c, rest, text, isDigit⟩ := padded_cons (show 0 < 2 by decide) (us / 1000000 / 3600)
  unfold formatTime
  simp only [text, List.cons_append]
  exact ⟨c, _, rfl, isDigit⟩

theorem dateStr_cons (n m d : Nat) : ∃ c rest, dateStr n m d = c :: rest ∧ c ∈ digitMarks := by
  obtain ⟨c, rest, text, isDigit⟩ := padded_cons (show 0 < 4 by decide) n
  unfold dateStr
  rw [text, List.cons_append]
  exact ⟨c, _, rfl, isDigit⟩

theorem isDigit_mark (isMark : c ∈ digitMarks) : isDigit c = true := by
  have all : digitMarks.all isDigit = true := by decide
  exact List.all_eq_true.mp all c isMark

theorem splitT_over {others : List Char} (within : Over others s)
    (noT : (digitMarks ++ others).all (fun c => !isT c) = true) : splitT s = [s] := by
  have all : ∀ c ∈ s, (!isT c) = true := by
    intro c isC
    rw [within.none (p := isT) noT c isC]
    rfl
  have none : s.dropWhile (fun c => !isT c) = [] := by
    rw [← List.append_nil s, List.dropWhile_append_of_pos all]
    rfl
  unfold splitT
  rw [none]

theorem splitClock_date (within : Over ['-'] s) : splitClock s = [s] := by
  cases s with
  | nil => rfl
  | cons c rest =>
    have noColon : ¬ ((c :: rest).contains ':' ∧ isDigit c) := by
      intro both
      have isOther := within.none (p := fun c => c == ':') (by decide)
      have found := both.1
      rw [List.contains_eq_any_beq, List.any_eq_true] at found
      obtain ⟨d, isD, same⟩ := found
      have other := isOther d isD
      rw [Bool.beq_comm, other] at same
      cases same
    rw [splitClock, if_neg noColon]

def zoneTokens (zone : List Char) : List (List Char) := if zone = [] then [] else [zone]

theorem splitClock_clock {us : Nat} {zone : List Char} (signed : ∀ c ∈ zone.head?, isSign c = true) :
    splitClock (formatTime us ++ zone) = formatTime us :: zoneTokens zone := by
  obtain ⟨c, rest, text, isMark⟩ := formatTime_cons us
  have within := over_formatTime us
  have colon : ':' ∈ formatTime us := by simp [formatTime]
  have noSign : ∀ d ∈ rest, (!isSign d) = true := by
    intro d isD
    rw [within.none (p := isSign) (by decide) d (by rw [text]; exact List.mem_cons_of_mem c isD)]
    rfl
  have glued : (formatTime us ++ zone).contains ':' ∧ isDigit c := by
    refine ⟨?_, isDigit_mark isMark⟩
    rw [List.contains_iff_mem]
    exact List.mem_append_left _ colon
  rw [text] at glued ⊢
  rw [List.cons_append] at glued ⊢
  unfold zoneTokens
  rw [splitClock, if_pos glued, List.dropWhile_append_of_pos noSign, List.takeWhile_append_of_pos noSign]
  cases zone with
  | nil =>
    have noZ : ∀ d ∈ c :: rest, d ≠ 'Z' ∧ d ≠ 'z' := by
      intro d isD
      rw [← text] at isD
      have capital := within.none (p := fun c => c == 'Z') (by decide) d isD
      have small := within.none (p := fun c => c == 'z') (by decide) d isD
      exact ⟨beq_eq_false_iff_ne.mp capital, beq_eq_false_iff_ne.mp small⟩
    have last : ¬ ((c :: rest).getLast? = some 'Z' ∨ (c :: rest).getLast? = some 'z') := by
      rintro (isZ | isZ)
      · exact (noZ _ (List.mem_of_getLast? isZ)).1 rfl
      · exact (noZ _ (List.mem_of_getLast? isZ)).2 rfl
    rw [List.dropWhile_nil, List.append_nil, if_pos rfl]
    exact if_neg last
  | cons sign zone =>
    have isSigned := signed sign rfl
    rw [List.dropWhile_cons_of_neg (by simp [isSigned]),
      List.takeWhile_cons_of_neg (by simp [isSigned]), List.append_nil,
      if_neg (List.cons_ne_nil _ _)]

def stampStr (n m d us : Nat) (zone : List Char) (bc : Bool) : List Char :=
  dateStr n m d ++ ' ' :: (formatTime us ++ (zone ++ if bc then " BC".toList else []))

def eraTokens (bc : Bool) : List (List Char) := if bc then ["BC".toList] else []

theorem tokenize_stampStr (n m d us : Nat) {zone : List Char} (within : Over ['+', '-', ':'] zone)
    (signed : ∀ c ∈ zone.head?, isSign c = true) (bc : Bool) :
    tokenize (stampStr n m d us zone bc) =
      dateStr n m d :: formatTime us :: (zoneTokens zone ++ eraTokens bc) := by
  have date := dateStr_over n m d
  have clock : Over ['+', '-', ':', '.'] (formatTime us ++ zone) :=
    ((over_formatTime us).mono (by simp)).append (within.mono (by simp))
  have blank := date.none (p := fun c => isWhitespace c || c == ',') (by decide)
  have blank' := clock.none (p := fun c => isWhitespace c || c == ',') (by decide)
  have pieces : (stampStr n m d us zone bc).splitOnP (fun c => isWhitespace c || c == ',') =
      dateStr n m d :: (formatTime us ++ zone) :: eraTokens bc := by
    unfold stampStr eraTokens
    rw [List.splitOnP_append_cons_of_forall_mem blank ' ' (by decide), ← List.append_assoc]
    cases bc with
    | false =>
      rw [if_neg (by decide), if_neg (by decide), List.append_nil,
        List.splitOnP_eq_singleton blank']
    | true =>
      have era : " BC".toList = ' ' :: "BC".toList := by decide
      have alone : ("BC".toList).splitOnP (fun c => isWhitespace c || c == ',') = ["BC".toList] :=
        List.splitOnP_eq_singleton (by simp [isWhitespace])
      rw [if_pos rfl, if_pos rfl, era,
        List.splitOnP_append_cons_of_forall_mem blank' ' ' (by decide), alone]
  obtain ⟨c, rest, dateText, _⟩ := dateStr_cons n m d
  obtain ⟨c', rest', clockText, _⟩ := formatTime_cons us
  have present : (dateStr n m d :: (formatTime us ++ zone) :: eraTokens bc).filter
      (fun raw => !raw.isEmpty) = dateStr n m d :: (formatTime us ++ zone) :: eraTokens bc := by
    apply List.filter_eq_self.mpr
    rw [dateText, clockText]
    unfold eraTokens
    cases bc <;> simp
  have era : ((eraTokens bc).flatMap splitT).flatMap splitClock = eraTokens bc := by
    cases bc <;> decide
  unfold tokenize
  rw [pieces, present, List.flatMap_cons, List.flatMap_cons, splitT_over date (by decide),
    splitT_over clock (by decide), List.flatMap_append, List.flatMap_append, era,
    List.flatMap_singleton, List.flatMap_singleton, splitClock_date date, splitClock_clock signed]
  rfl

/-! ### The loop over the tokens -/

def marks : List Char := digitMarks ++ ['+', '-']

theorem lowercase_ne (isMark : c ∈ marks) (rest : List Char) {word : List Char}
    (letter : word.head?.any (fun h => marks.all (fun c => c.toLower != h)) = true) :
    lowercase (c :: rest) ≠ word := by
  intro same
  rw [← same, lowercase, List.map_cons, List.head?_cons, Option.any_some] at letter
  have other := List.all_eq_true.mp letter c isMark
  simp at other

section Loop

variable (lookup : List Char → Except DtErr (Option Zone)) (st : Scan)

variable {c : Char} {n m d us : Nat}

theorem readToken_marked (isMark : c ∈ marks) (rest : List Char) :
    readToken lookup st (c :: rest) = readPlain lookup st (c :: rest) := by
  have notWord (word : List Char)
      (letter : word.head?.any (fun h => marks.all (fun c => c.toLower != h)) = true) :
      lowercase (c :: rest) ≠ word := lowercase_ne isMark rest letter
  have notSpecial : tokenSpecial (lowercase (c :: rest)) = none := by
    unfold tokenSpecial
    rw [if_neg (notWord _ (by decide)), if_neg (notWord _ (by decide)),
      if_neg (notWord _ (by decide)), if_neg (notWord _ (by decide)),
      if_neg (notWord _ (by decide))]
  unfold readToken
  simp only [notSpecial]
  rw [if_neg (notWord _ (by decide)), if_neg (notWord _ (by decide)),
    if_neg (not_or.mpr ⟨notWord _ (by decide), notWord _ (by decide)⟩),
    if_neg (not_or.mpr ⟨notWord _ (by decide), notWord _ (by decide)⟩)]
  rfl

theorem readToken_date (fitsN : n < 2 ^ 63) (fitsM : m ≤ 12) (fitsD : d ≤ 31)
    (first : st.out.ymd = none) :
    readToken lookup st (dateStr n m d) =
      .ok { st with out := { st.out with ymd := some ((n : Int), m, d) } } := by
  obtain ⟨c, rest, text, isDigit⟩ := dateStr_cons n m d
  have isMark : c ∈ marks := List.mem_append_left _ isDigit
  have date := parseDateToken_dateStr fitsN fitsM fitsD
  have noColon : ¬ (dateStr n m d).contains ':' = true := by
    rw [List.contains_iff_mem]
    intro isColon
    have other := (dateStr_over n m d).none (p := fun c => c == ':') (by decide) ':' isColon
    cases other
  have plain : digitMarks.all (fun c => !isSign c && c != '+') = true := by decide
  have noSign := List.all_eq_true.mp plain c isDigit
  rw [Bool.and_eq_true, Bool.not_eq_true', bne_iff_ne] at noSign
  rw [text] at date noColon ⊢
  rw [readToken_marked lookup st isMark]
  unfold readPlain
  rw [if_neg (fun both => noColon both.1), if_neg, if_neg (lowercase_ne isMark rest (by decide)),
    date]
  · simp only [bind, Except.bind, first]
    rfl
  · rintro (⟨signed, _⟩ | isPlus)
    · simp [noSign.1] at signed
    · exact noSign.2 (Option.some.inj isPlus)

theorem readToken_clock (inDay : us < 86400000000) (first : st.out.time = none) :
    readToken lookup st (formatTime us) =
      .ok { st with out := { st.out with time := some (us : Int) } } := by
  obtain ⟨c, rest, text, isMark⟩ := formatTime_cons us
  have time := parseClock_formatTime inDay
  have colon : (formatTime us).contains ':' = true := by
    rw [List.contains_iff_mem]
    simp [formatTime]
  rw [text] at time colon ⊢
  rw [readToken_marked lookup st (List.mem_append_left _ isMark)]
  unfold readPlain
  rw [if_pos ⟨colon, by simp [isDigit_mark isMark]⟩, first, time]
  rfl

theorem readToken_offset {o : Int} (small : o.natAbs < 57600) (later : st.out.time.isSome = true) :
    readToken lookup st (formatOffset o) =
      .ok { st with out := { st.out with tz := some (.offset o) } } := by
  obtain ⟨c, rest, text, isSigned, _⟩ := formatOffset_cons o
  have offset := parseIsoOffset_formatOffset small
  have sign : c ∈ marks ∧ isSign c = true ∧ isDigit c = false := by
    rw [isSigned]
    split
    · decide
    · decide
  rw [text] at offset ⊢
  rw [readToken_marked lookup st sign.1]
  unfold readPlain
  rw [if_neg (by simp [sign.2.2]), if_pos (Or.inl ⟨by simp [sign.2.1], later⟩), offset]
  rfl

theorem readToken_bc : readToken lookup st "BC".toList = .ok { st with bc := true } := by
  have isBc : lowercase "BC".toList = "bc".toList := by decide
  unfold readToken
  simp only [isBc]
  rfl

def zoneStr (zone : Option Int) : List Char := (zone.map formatOffset).getD []

theorem readTokens_stamp (fitsN : n < 2 ^ 63) (fitsM : m ≤ 12) (fitsD : d ≤ 31)
    (inDay : us < 86400000000) {zone : Option Int} (small : ∀ o ∈ zone, o.natAbs < 57600)
    (bc : Bool) :
    readTokens lookup {} (dateStr n m d :: formatTime us ::
        (zoneTokens (zoneStr zone) ++ eraTokens bc)) =
      .ok { out := { ymd := some ((n : Int), m, d), time := some (us : Int),
                     tz := zone.map TzSpec.offset }
            bc := bc } := by
  have era (st : Scan) (before : st.bc = false) :
      readTokens lookup st (eraTokens bc) = .ok { st with bc := bc } := by
    cases bc with
    | false =>
      have same : st = { st with bc := false } := by
        rw [← before]
      exact congrArg Except.ok same
    | true =>
      show readTokens lookup st ["BC".toList] = _
      rw [readTokens, readToken_bc]
      rfl
  rw [readTokens, readToken_date lookup _ fitsN fitsM fitsD rfl]
  simp only [bind, Except.bind]
  rw [readTokens, readToken_clock lookup _ inDay rfl]
  simp only [bind, Except.bind]
  cases zone with
  | none => exact era _ rfl
  | some o =>
    obtain ⟨c, rest, text, _⟩ := formatOffset_cons o
    have present : zoneTokens (zoneStr (some o)) = [formatOffset o] := by
      apply if_neg
      show formatOffset o ≠ []
      rw [text]
      exact List.cons_ne_nil c rest
    rw [present, List.singleton_append, readTokens, readToken_offset lookup _ (small o rfl) rfl]
    exact era _ rfl

/-! ### The whole text -/

theorem trim_cons (notBlank : isWhitespace c = false) (rest : List Char) :
    ∃ rest', trim (c :: rest) = c :: rest' := by
  unfold trim
  rw [List.dropWhile_cons_of_neg (by simp [notBlank]), List.reverse_cons, List.dropWhile_append]
  split
  · rw [List.dropWhile_cons_of_neg (by simp [notBlank])]
    exact ⟨[], rfl⟩
  · rw [List.reverse_append]
    exact ⟨_, rfl⟩

theorem wholeSpecial_digit (isDigit : c ∈ digitMarks) (rest : List Char) :
    wholeSpecial (lowercase (trim (c :: rest))) = none := by
  have visible : digitMarks.all (fun c => !isWhitespace c) = true := by decide
  have blank := List.all_eq_true.mp visible c isDigit
  rw [Bool.not_eq_true'] at blank
  obtain ⟨rest', text⟩ := trim_cons blank rest
  have notWord (word : List Char)
      (letter : word.head?.any (fun h => digitMarks.all (fun c => c.toLower != h)) = true) :
      lowercase (c :: rest') ≠ word := by
    intro same
    rw [← same, lowercase, List.map_cons, List.head?_cons, Option.any_some] at letter
    have other := List.all_eq_true.mp letter c isDigit
    simp at other
  rw [text]
  unfold wholeSpecial
  rw [if_neg (not_or.mpr ⟨notWord _ (by decide), notWord _ (by decide)⟩),
    if_neg (notWord _ (by decide)), if_neg (notWord _ (by decide)), if_neg (notWord _ (by decide)),
    if_neg (notWord _ (by decide)), if_neg (notWord _ (by decide)), if_neg (notWord _ (by decide)),
    if_neg (notWord _ (by decide))]

theorem parseDatetime_stampStr (fitsN : n < 2 ^ 63) (bc : Bool)
    (valid : Calendar.Valid (if bc then 1 - (n : Int) else n, m, d)) (inDay : us < 86400000000)
    {zone : Option Int} (small : ∀ o ∈ zone, o.natAbs < 57600) :
    parseDatetime lookup (stampStr n m d us (zoneStr zone) bc) =
      .ok { ymd := some (if bc then 1 - (n : Int) else n, m, d), time := some (us : Int),
            tz := zone.map TzSpec.offset } := by
  obtain ⟨c, rest, text, isDigit⟩ := dateStr_cons n m d
  have notSpecial : wholeSpecial (lowercase (trim (stampStr n m d us (zoneStr zone) bc))) = none := by
    unfold stampStr
    rw [text, List.cons_append]
    exact wholeSpecial_digit isDigit _
  have day : d ≤ 31 := Nat.le_trans valid.day.2 (Calendar.daysInMonth_le _ m)
  have within : Over ['+', '-', ':'] (zoneStr zone) ∧ ∀ c ∈ (zoneStr zone).head?, isSign c = true := by
    cases zone with
    | none => exact ⟨Over.nil _, by simp [zoneStr]⟩
    | some o =>
      obtain ⟨sign, rest, text, isSigned, inside, _⟩ := formatOffset_cons o
      have signs : sign ∈ digitMarks ++ ['+', '-', ':'] ∧ isSign sign = true := by
        rw [isSigned]
        split
        · decide
        · decide
      have whole : zoneStr (some o) = sign :: rest := text
      rw [whole]
      refine ⟨Over.cons signs.1 (inside.mono (by simp)), ?_⟩
      intro c isC
      rw [← Option.some.inj isC]
      exact signs.2
  have tokens := tokenize_stampStr n m d us within.1 within.2 bc
  have scanned := readTokens_stamp lookup fitsN valid.month.2 day inDay small bc
  unfold parseDatetime
  rw [notSpecial]
  simp only
  rw [tokens, if_neg (by simp), scanned]
  simp only [bind, Except.bind, namedDate]
  rw [if_neg (by simp)]
  have inRange : ¬ (m < 1 ∨ 12 < m ∨ d < 1 ∨
      Calendar.daysInMonth (if bc then 1 - (n : Int) else n) m < d) := by
    have month := valid.month
    have days := valid.day
    simp only at month days
    omega
  simp only [checkDate]
  rw [if_neg inRange]
  rfl

end Loop

/-! ### Timestamps -/

open Calendar (asI64 asI64_eq InI64 daysFromCivil civilFromDays_spec)

def shownYear (y : Int) : Nat := if y ≤ 0 then (1 - y).toNat else y.toNat

theorem yearStr_eq (y : Int) : yearStr y = (padded 4 (shownYear y), decide (y ≤ 0)) := by
  unfold yearStr shownYear
  by_cases isBc : y ≤ 0
  · simp [isBc]
  · simp [isBc]

theorem shownYear_era (y : Int) :
    (if decide (y ≤ 0) = true then 1 - (shownYear y : Int) else shownYear y) = y := by
  unfold shownYear
  by_cases isBc : y ≤ 0
  · rw [if_pos isBc, if_pos (decide_eq_true isBc)]
    omega
  · rw [if_neg isBc, if_neg (by rw [decide_eq_true_eq]; exact isBc)]
    omega

def stampOf (wall : Int) (zone : Option Int) : List Char :=
  let date := civilFromDays (wall / usecsPerDay + pgEpochDays)
  stampStr (shownYear date.1) date.2.1 date.2.2 (wall % usecsPerDay).toNat (zoneStr zone)
    (decide (date.1 ≤ 0))

theorem formatTimestamp_eq (finite : ts ≠ tsInf ∧ ts ≠ tsNegInf) :
    formatTimestamp ts = stampOf ts none := by
  unfold formatTimestamp stampOf stampStr dateStr zoneStr
  rw [if_neg finite.1, if_neg finite.2]
  simp only [yearStr_eq, List.append_assoc, List.cons_append, Option.map_none, Option.getD_none,
    List.nil_append]

theorem formatTimestamptz_eq (finite : ts ≠ tsInf ∧ ts ≠ tsNegInf) (zone : Zone) :
    formatTimestamptz ts zone =
      stampOf (asI64 (ts + zone.offsetAtUtc (utcSeconds ts) * usecsPerSec))
        (some (zone.offsetAtUtc (utcSeconds ts))) := by
  unfold formatTimestamptz formatTsParts stampOf stampStr dateStr zoneStr
  rw [if_neg finite.1, if_neg finite.2]
  simp only [yearStr_eq, List.append_assoc, List.cons_append, Option.map_some, Option.getD_some]

structure NearRange (wall : Int) : Prop where
  low : minTs - 57600000000 < wall
  high : wall < maxTs + 57600000000

theorem NearRange.year {wall : Int} (near : NearRange wall) {date : Int × Nat × Nat}
    (valid : Calendar.Valid date) (days : daysFromCivil date = wall / usecsPerDay + pgEpochDays) :
    -4713 ≤ date.1 ∧ date.1 ≤ 5874897 := by
  obtain ⟨y, m, d⟩ := date
  obtain ⟨month, day⟩ := valid
  have length := Calendar.daysInMonth_le y m
  obtain ⟨low, high⟩ := near
  unfold minTs at low
  unfold maxTs at high
  unfold daysFromCivil usecsPerDay usecsPerSec pgEpochDays at days
  simp only at month day days ⊢
  split at days
  · omega
  · omega

theorem tsFromParts_wall {wall : Int} (near : NearRange wall) (tz : Option TzSpec) (ctx : Ctx)
    (withTz : Bool) :
    tsFromParts
        { ymd := some (civilFromDays (wall / usecsPerDay + pgEpochDays))
          time := some ((wall % usecsPerDay).toNat : Int), tz := tz } ctx withTz =
      let ts := if withTz then withZone { tz := tz } ctx wall else wall
      if minTs ≤ ts ∧ ts < maxTs then .ok ts else .error .range := by
  obtain ⟨valid, days⟩ := civilFromDays_spec (wall / usecsPerDay + pgEpochDays)
  have year := near.year valid days
  have whole : wall / usecsPerDay * usecsPerDay + ((wall % usecsPerDay).toNat : Int) = wall := by
    unfold usecsPerDay usecsPerSec
    omega
  have fits : -2 ^ 63 ≤ wall / usecsPerDay * usecsPerDay ∧
      wall / usecsPerDay * usecsPerDay < 2 ^ 63 ∧ -2 ^ 63 ≤ wall ∧ wall < 2 ^ 63 := by
    obtain ⟨low, high⟩ := near
    unfold minTs at low
    unfold maxTs at high
    unfold usecsPerDay usecsPerSec
    omega
  have day : daysFromCivil (civilFromDays (wall / usecsPerDay + pgEpochDays)) - pgEpochDays =
      wall / usecsPerDay := by omega
  unfold tsFromParts
  simp only [dayOf, checkYear, bind, Except.bind]
  rw [if_pos year]
  simp only [pure, Except.pure, day, Option.getD_some]
  unfold wallOf
  rw [whole, if_pos fits]
  rfl

theorem parse_stampOf (lookup : List Char → Except DtErr (Option Zone)) {wall : Int}
    (near : NearRange wall) {zone : Option Int} (small : ∀ o ∈ zone, o.natAbs < 57600) :
    parseDatetime lookup (stampOf wall zone) =
      .ok { ymd := some (civilFromDays (wall / usecsPerDay + pgEpochDays))
            time := some ((wall % usecsPerDay).toNat : Int), tz := zone.map TzSpec.offset } := by
  obtain ⟨valid, days⟩ := civilFromDays_spec (wall / usecsPerDay + pgEpochDays)
  have year := near.year valid days
  have inDay : (wall % usecsPerDay).toNat < 86400000000 := by
    unfold usecsPerDay usecsPerSec
    omega
  have fitsYear : shownYear (civilFromDays (wall / usecsPerDay + pgEpochDays)).1 < 2 ^ 63 := by
    unfold shownYear
    split
    · omega
    · omega
  have era := shownYear_era (civilFromDays (wall / usecsPerDay + pgEpochDays)).1
  unfold stampOf
  simp only
  rw [parseDatetime_stampStr lookup fitsYear _ (by rw [era]; exact valid) inDay small, era]

theorem nearRange_of {off : Int} (range : minTs ≤ ts ∧ ts < maxTs) (small : off.natAbs < 57600) :
    NearRange (ts + off * usecsPerSec) ∧ asI64 (ts + off * usecsPerSec) = ts + off * usecsPerSec := by
  have near : NearRange (ts + off * usecsPerSec) := by
    unfold usecsPerSec
    exact ⟨by omega, by omega⟩
  refine ⟨near, asI64_eq ?_⟩
  obtain ⟨low, high⟩ := near
  unfold minTs at low
  unfold maxTs at high
  unfold InI64
  omega

theorem finite_of_range (range : minTs ≤ ts ∧ ts < maxTs) : ts ≠ tsInf ∧ ts ≠ tsNegInf := by
  unfold minTs maxTs at range
  unfold tsInf tsNegInf
  omega

theorem parseDatetime_infinity (lookup : List Char → Except DtErr (Option Zone)) :
    parseDatetime lookup "infinity".toList = .ok { special := some .infinity } ∧
      parseDatetime lookup "-infinity".toList = .ok { special := some .negInfinity } := by
  have first : wholeSpecial (lowercase (trim "infinity".toList)) = some .infinity := by decide
  have second : wholeSpecial (lowercase (trim "-infinity".toList)) = some .negInfinity := by decide
  unfold parseDatetime
  rw [first, second]
  exact ⟨rfl, rfl⟩

/-- A timestamp that is printed is read back, with or without a zone and whatever the zone of the
session is. -/
theorem timestamp_text_exact (lookup : List Char → Except DtErr (Option Zone)) (ctx : Ctx) :
    (∀ ts : Int, (minTs ≤ ts ∧ ts < maxTs) ∨ ts = tsInf ∨ ts = tsNegInf →
      parseTimestamp lookup ctx (formatTimestamp ts) = .ok ts) ∧
    (∀ (ts : Int) (zone : Zone),
      (minTs ≤ ts ∧ ts < maxTs ∧ (zone.offsetAtUtc (utcSeconds ts)).natAbs ≤ 57599) ∨
        ts = tsInf ∨ ts = tsNegInf →
      parseTimestamptz lookup ctx (formatTimestamptz ts zone) = .ok ts) := by
  obtain ⟨isInf, isNegInf⟩ := parseDatetime_infinity lookup
  constructor
  · intro ts cases
    unfold parseTimestamp
    rcases cases with range | rfl | rfl
    · have near : NearRange ts := ⟨by omega, by omega⟩
      rw [formatTimestamp_eq (finite_of_range range),
        @parse_stampOf lookup ts near none (by simp)]
      simp only [bind, Except.bind]
      rw [tsFromParts_wall near]
      exact if_pos range
    · have text : formatTimestamp tsInf = "infinity".toList := by decide
      rw [text, isInf]
      rfl
    · have text : formatTimestamp tsNegInf = "-infinity".toList := by decide
      rw [text, isNegInf]
      rfl
  · intro ts zone cases
    unfold parseTimestamptz
    rcases cases with ⟨low, high, small⟩ | rfl | rfl
    · obtain ⟨near, noWrap⟩ := nearRange_of ⟨low, high⟩ (Nat.lt_succ_of_le small)
      rw [formatTimestamptz_eq (finite_of_range ⟨low, high⟩), noWrap,
        parse_stampOf lookup near (by intro o isO; cases isO; exact Nat.lt_succ_of_le small)]
      simp only [bind, Except.bind]
      rw [tsFromParts_wall near]
      have back : withZone { tz := Option.map TzSpec.offset (some (zone.offsetAtUtc (utcSeconds ts))) }
          ctx (ts + zone.offsetAtUtc (utcSeconds ts) * usecsPerSec) = ts := by
        show asI64 (ts + zone.offsetAtUtc (utcSeconds ts) * usecsPerSec -
          zone.offsetAtUtc (utcSeconds ts) * usecsPerSec) = ts
        rw [Int.add_sub_cancel]
        apply asI64_eq
        unfold minTs at low
        unfold maxTs at high
        unfold InI64
        omega
      simp only [back]
      exact if_pos ⟨low, high⟩
    · have text : formatTimestamptz tsInf zone = "infinity".toList := if_pos rfl
      rw [text, isInf]
      rfl
    · have text : formatTimestamptz tsNegInf zone = "-infinity".toList := by
        unfold formatTimestamptz
        rw [if_neg (by decide), if_pos rfl]
      rw [text, isNegInf]
      rfl

theorem timestamp_text_exact_first :
    parseTimestamp (fun _ => .ok none) { now := 0, zone := .fixed 0 } (formatTimestamp minTs) =
        .ok minTs ∧
      parseTimestamptz (fun _ => .ok none) { now := 0, zone := .fixed (-3600) }
        (formatTimestamptz 500000 (.fixed 19270)) = .ok 500000 := by
  obtain ⟨plain, _⟩ := timestamp_text_exact (fun _ => .ok none) { now := 0, zone := .fixed 0 }
  obtain ⟨_, zoned⟩ := timestamp_text_exact (fun _ => .ok none) { now := 0, zone := .fixed (-3600) }
  constructor
  · exact plain minTs (Or.inl (by decide))
  · exact zoned 500000 (.fixed 19270) (Or.inl (by decide))

end DatetimeText

end NoidaDb.Sql
