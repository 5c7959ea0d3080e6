/-
The parser takes the JSON texts, and nothing else.
-/

import NoidaDb.Sql.JsonGrammar

namespace NoidaDb.Sql.JsonGrammar

open JsonParser

structure Agrees (r : Readers) (m : Meanings) : Prop where
  hex : m.hex = r.hex
  ascii : ∀ w v, r.hex w = some v → ∀ c ∈ w, c.utf8Size = 1
  number : ∀ x : Numeral, x.WellFormed → ∀ v, r.number x.text = .ok v ↔ m.numeral x = some v

def Stops (rest : List Char) : Prop :=
  ∀ c ∈ rest.head?, isWs c = true ∨ c = ',' ∨ c = ']' ∨ c = '}'

theorem bind_ok_iff {ε α β : Type} {first : Except ε α} {next : α → Except ε β} {b : β} :
    (first >>= next) = .ok b ↔ ∃ a, first = .ok a ∧ next a = .ok b := by
  cases first with
  | error failure => simp [bind, Except.bind]
  | ok a => simp [bind, Except.bind]

theorem ws_skips (s : List Char) : Ws s (ws s) := by
  induction s with
  | nil => exact Ws.none _
  | cons c rest ih =>
    unfold ws
    by_cases isSpace : isWs c = true
    · rw [List.dropWhile_cons_of_pos isSpace]
      exact Ws.some isSpace ih
    · rw [List.dropWhile_cons_of_neg isSpace]
      exact Ws.none _

variable {rest s t : List Char} {c : Char}

theorem ws_eq (space : Ws s t) : ws s = ws t := by
  induction space with
  | none s => rfl
  | some isSpace later ih =>
    unfold ws at ih ⊢
    rw [List.dropWhile_cons_of_pos isSpace, ih]

theorem ws_stops (space : Ws s (c :: rest)) (other : isWs c = false) : ws s = c :: rest := by
  rw [ws_eq space]
  unfold ws
  rw [List.dropWhile_cons_of_neg (by simp [other])]

theorem ws_nil (space : Ws s []) : ws s = [] := ws_eq space

theorem length_ws (space : Ws s t) : t.length ≤ s.length := by
  induction space with
  | none s => exact Nat.le_refl _
  | some isSpace later ih => exact Nat.le_succ_of_le ih

theorem Ws.trans {u : List Char} (first : Ws s t) (second : Ws t u) : Ws s u := by
  induction first with
  | none s => exact second
  | some isSpace later ih => exact Ws.some isSpace (ih second)

theorem stops_of_ws {s : List Char} {c : Char} {rest : List Char} (space : Ws s (c :: rest))
    (closes : c = ',' ∨ c = ']' ∨ c = '}') : Stops s := by
  intro d head
  cases space with
  | none =>
    obtain rfl := Option.some.inj head
    exact Or.inr closes
  | some isSpace later =>
    obtain rfl := Option.some.inj head
    exact Or.inl isSpace

theorem stops_of_ws_nil (space : Ws s []) : Stops s := by
  intro d head
  cases space with
  | none => cases head
  | some isSpace later =>
    obtain rfl := Option.some.inj head
    exact Or.inl isSpace

theorem stops_plain (stops : Stops rest) (head : rest.head? = some c) :
    isDigit c = false ∧ isAlphanumeric c = false ∧ c ≠ '.' ∧ c ≠ 'e' ∧ c ≠ 'E' ∧ c ≠ '_' := by
  rcases stops c head with isSpace | isComma | isBracket | isBrace
  · simp only [isWs, Bool.or_eq_true, decide_eq_true_eq] at isSpace
    rcases isSpace with ((isBlank | isTab) | isNewline) | isReturn
    · subst isBlank
      decide
    · subst isTab
      decide
    · subst isNewline
      decide
    · subst isReturn
      decide
  · subst isComma
    decide
  · subst isBracket
    decide
  · subst isBrace
    decide

theorem word_sound {w : List Char} {v : Json} {j : Json} (result : word w v s = .ok (j, rest)) :
    j = v ∧ s = w ++ rest := by
  unfold word at result
  split at result
  · rename_i isPrefix
    split at result
    · cases result
    · obtain ⟨rfl, rfl⟩ := Prod.mk.inj (Except.ok.inj result)
      obtain ⟨t, rfl⟩ := List.isPrefixOf_iff_prefix.mp isPrefix
      simp
  · cases result

theorem word_complete (w : List Char) (v : Json) (stops : Stops rest) :
    word w v (w ++ rest) = .ok (v, rest) := by
  have isPrefix : w.isPrefixOf (w ++ rest) = true :=
    List.isPrefixOf_iff_prefix.mpr (List.prefix_append w rest)
  have free : ¬ rest.head?.any (fun c => isAlphanumeric c || c = '_') = true := by
    intro occupied
    obtain ⟨c, head, letter⟩ := (Option.any_eq_true _ _).mp occupied
    obtain ⟨_, notLetter, _, _, _, notUnderscore⟩ := stops_plain stops head
    simp [notLetter, notUnderscore] at letter
  simp [word, isPrefix, free]

section Digits

variable {ds rest : List Char}

theorem digits_span (digits : ∀ c ∈ ds, isDigit c = true)
    (ends : ∀ c, rest.head? = some c → isDigit c = false) :
    (ds ++ rest).takeWhile isDigit = ds ∧ (ds ++ rest).dropWhile isDigit = rest := by
  induction ds with
  | nil =>
    cases rest with
    | nil => exact ⟨rfl, rfl⟩
    | cons c rest =>
      have isEnd := ends c rfl
      rw [List.nil_append, List.takeWhile_cons_of_neg (by simp [isEnd]),
        List.dropWhile_cons_of_neg (by simp [isEnd])]
      exact ⟨rfl, rfl⟩
  | cons d ds ih =>
    obtain ⟨here, later⟩ := List.forall_mem_cons.mp digits
    obtain ⟨taken, left⟩ := ih later
    rw [List.cons_append, List.takeWhile_cons_of_pos here, List.dropWhile_cons_of_pos here,
      taken, left]
    exact ⟨rfl, rfl⟩

theorem digits_takeWhile (s : List Char) : ∀ c ∈ s.takeWhile isDigit, isDigit c = true :=
  List.all_eq_true.mp List.all_takeWhile

theorem split_digits (s : List Char) : s = s.takeWhile isDigit ++ s.dropWhile isDigit :=
  List.takeWhile_append_dropWhile.symm

end Digits

theorem fraction_sound (result : fraction s = .ok (t, rest)) :
    ∃ frac, (∀ c ∈ frac, isDigit c = true) ∧ t = Numeral.fracText frac ∧ s = t ++ rest := by
  unfold fraction at result
  split at result
  · rename_i tail
    split at result
    · cases result
    · rename_i present
      obtain ⟨rfl, rfl⟩ := Prod.mk.inj (Except.ok.inj result)
      refine ⟨_, digits_takeWhile tail, by simp [Numeral.fracText, present], ?_⟩
      simp
  · obtain ⟨rfl, rfl⟩ := Prod.mk.inj (Except.ok.inj result)
    exact ⟨[], by simp, rfl, rfl⟩

theorem fraction_complete {frac : List Char} (digits : ∀ c ∈ frac, isDigit c = true)
    (ends : ∀ c, rest.head? = some c → isDigit c = false ∧ c ≠ '.') :
    fraction (Numeral.fracText frac ++ rest) = .ok (Numeral.fracText frac, rest) := by
  unfold Numeral.fracText
  split
  · rw [List.nil_append]
    cases rest with
    | nil => rfl
    | cons c rest =>
      unfold fraction
      split
      · rename_i isPoint
        obtain ⟨rfl, _⟩ := List.cons.inj isPoint
        exact ((ends '.' rfl).2 rfl).elim
      · rfl
  · rename_i present
    obtain ⟨taken, left⟩ := digits_span digits (fun c head => (ends c head).1)
    simp [fraction, taken, left, present]

theorem exponentSign_sound (s : List Char) :
    s = (exponentSign s).1 ++ (exponentSign s).2 ∧
      ((exponentSign s).1 = [] ∨ (exponentSign s).1 = ['+'] ∨ (exponentSign s).1 = ['-']) := by
  unfold exponentSign
  split
  · simp
  · simp
  · simp

theorem exponent_sound (result : exponent s = .ok (t, rest)) :
    ∃ exp, (∀ x ∈ exp, (x.1 = 'e' ∨ x.1 = 'E') ∧
        (x.2.1 = [] ∨ x.2.1 = ['+'] ∨ x.2.1 = ['-']) ∧ x.2.2 ≠ [] ∧
          ∀ c ∈ x.2.2, isDigit c = true) ∧ t = Numeral.expText exp ∧ s = t ++ rest := by
  cases s with
  | nil =>
    obtain ⟨rfl, rfl⟩ := Prod.mk.inj (Except.ok.inj result)
    exact ⟨none, by simp, rfl, rfl⟩
  | cons c tail =>
    simp only [exponent] at result
    split at result
    · rename_i isLetter
      split at result
      · cases result
      · rename_i present
        obtain ⟨rfl, rfl⟩ := Prod.mk.inj (Except.ok.inj result)
        obtain ⟨whole, sign⟩ := exponentSign_sound tail
        refine ⟨some (c, (exponentSign tail).1, (exponentSign tail).2.takeWhile isDigit), ?_, rfl, ?_⟩
        · intro x isX
          obtain rfl := Option.some.inj isX
          exact ⟨isLetter, sign, present, digits_takeWhile _⟩
        · rw [List.append_assoc, List.takeWhile_append_dropWhile, List.cons_append, ← whole]
    · obtain ⟨rfl, rfl⟩ := Prod.mk.inj (Except.ok.inj result)
      exact ⟨none, by simp, rfl, rfl⟩

theorem exponentSign_complete {sign ds : List Char}
    (isSign : sign = [] ∨ sign = ['+'] ∨ sign = ['-'])
    (digits : ds ≠ [] ∧ ∀ c ∈ ds, isDigit c = true) (rest : List Char) :
    exponentSign (sign ++ (ds ++ rest)) = (sign, ds ++ rest) := by
  rcases isSign with rfl | rfl | rfl
  · cases ds with
    | nil => exact (digits.1 rfl).elim
    | cons d ds =>
      have isDigit := digits.2 d List.mem_cons_self
      rw [List.nil_append, List.cons_append]
      unfold exponentSign
      split
      · rename_i isPlus
        obtain ⟨rfl, _⟩ := List.cons.inj isPlus
        cases isDigit
      · rename_i isMinus
        obtain ⟨rfl, _⟩ := List.cons.inj isMinus
        cases isDigit
      · rfl
  · rfl
  · rfl

theorem exponent_complete {exp : Option (Char × List Char × List Char)}
    (isExp : ∀ x ∈ exp, (x.1 = 'e' ∨ x.1 = 'E') ∧
      (x.2.1 = [] ∨ x.2.1 = ['+'] ∨ x.2.1 = ['-']) ∧ x.2.2 ≠ [] ∧ ∀ c ∈ x.2.2, isDigit c = true)
    (ends : ∀ c, rest.head? = some c → isDigit c = false ∧ c ≠ 'e' ∧ c ≠ 'E') :
    exponent (Numeral.expText exp ++ rest) = .ok (Numeral.expText exp, rest) := by
  cases exp with
  | none =>
    cases rest with
    | nil => rfl
    | cons c rest =>
      obtain ⟨_, notSmall, notLarge⟩ := ends c rfl
      simp [Numeral.expText, exponent, notSmall, notLarge]
  | some x =>
    obtain ⟨e, sign, ds⟩ := x
    obtain ⟨isLetter, isSign, present, digits⟩ := isExp _ rfl
    obtain ⟨taken, left⟩ := digits_span digits (fun c head => (ends c head).1)
    have signed := exponentSign_complete isSign ⟨present, digits⟩ rest
    simp only at isLetter present
    simp only [Numeral.expText, List.cons_append, List.append_assoc]
    simp only [exponent, if_pos isLetter, signed, taken, left, if_neg present, List.cons_append]

theorem minus_sound (s : List Char) :
    ∃ isMinus, (minus s).1 = Numeral.minusText isMinus ∧ s = (minus s).1 ++ (minus s).2 := by
  unfold minus
  split
  · exact ⟨true, rfl, rfl⟩
  · exact ⟨false, rfl, rfl⟩

theorem minus_complete (isMinus : Bool) (digits : ∀ c, s.head? = some c → isDigit c = true) :
    minus (Numeral.minusText isMinus ++ s) = (Numeral.minusText isMinus, s) := by
  cases isMinus with
  | true => rfl
  | false =>
    cases s with
    | nil => rfl
    | cons c s =>
      have here := digits c rfl
      simp only [Numeral.minusText, Bool.false_eq_true, if_false, List.nil_append]
      unfold minus
      split
      · rename_i isDash
        obtain ⟨rfl, _⟩ := List.cons.inj isDash
        cases here
      · rfl

theorem number_sound {r : Readers} {j : Json} (result : number r s = .ok (j, rest)) :
    ∃ x : Numeral, x.WellFormed ∧ s = x.text ++ rest ∧ ∃ v, r.number x.text = .ok v ∧ j = .num v := by
  simp only [number] at result
  split at result
  · cases result
  · rename_i good
    obtain ⟨f, isFraction, result⟩ := bind_ok_iff.mp result
    obtain ⟨e, isExponent, result⟩ := bind_ok_iff.mp result
    split at result
    · cases result
    · obtain ⟨isMinus, minusText, whole⟩ := minus_sound s
      obtain ⟨frac, fracDigits, fracText, fracWhole⟩ := fraction_sound isFraction
      obtain ⟨exp, isExp, expText, expWhole⟩ := exponent_sound isExponent
      have text : Numeral.text ⟨isMinus, (minus s).2.takeWhile isDigit, frac, exp⟩ =
          (minus s).1 ++ (minus s).2.takeWhile isDigit ++ f.1 ++ e.1 := by
        rw [Numeral.text, minusText, fracText, expText]
      rw [← text] at result
      refine ⟨⟨isMinus, (minus s).2.takeWhile isDigit, frac, exp⟩, ?_, ?_, ?_⟩
      · simp only [not_or, not_and] at good
        constructor
        · exact ⟨good.1, digits_takeWhile _⟩
        · by_cases long : 1 < ((minus s).2.takeWhile isDigit).length
          · exact Or.inr (good.2 long)
          · exact Or.inl (Nat.le_antisymm (Nat.not_lt.mp long) (List.length_pos_iff.mpr good.1))
        · exact fracDigits
        · exact isExp
      · split at result
        · obtain ⟨_, rfl⟩ := Prod.mk.inj (Except.ok.inj result)
          rw [text, List.append_assoc _ e.1, ← expWhole, List.append_assoc _ f.1, ← fracWhole,
            List.append_assoc, ← split_digits, ← whole]
        · cases result
        · cases result
      · split at result
        · rename_i v reads
          obtain ⟨rfl, _⟩ := Prod.mk.inj (Except.ok.inj result)
          exact ⟨v, reads, rfl⟩
        · cases result
        · cases result

theorem fracText_head {frac : List Char} (head : (Numeral.fracText frac ++ rest).head? = some c) :
    c = '.' ∨ rest.head? = some c := by
  unfold Numeral.fracText at head
  split at head
  · exact Or.inr head
  · exact Or.inl (Option.some.inj head).symm

theorem expText_head {exp : Option (Char × List Char × List Char)}
    (isExp : ∀ x ∈ exp, x.1 = 'e' ∨ x.1 = 'E')
    (head : (Numeral.expText exp ++ rest).head? = some c) :
    c = 'e' ∨ c = 'E' ∨ rest.head? = some c := by
  cases exp with
  | none => exact Or.inr (Or.inr head)
  | some x =>
    have isLetter := isExp x rfl
    have isHead : x.1 = c := Option.some.inj head
    rw [isHead] at isLetter
    rcases isLetter with small | large
    · exact Or.inl small
    · exact Or.inr (Or.inl large)

theorem number_complete {r : Readers} {x : Numeral} (wellFormed : x.WellFormed) {v : Numeric}
    (reads : r.number x.text = .ok v) (stops : Stops rest) :
    number r (x.text ++ rest) = .ok (.num v, rest) := by
  obtain ⟨present, intDigits⟩ := wellFormed.int
  -- Each part ends where the next one starts.
  have endsExp : ∀ c, rest.head? = some c → isDigit c = false ∧ c ≠ 'e' ∧ c ≠ 'E' := by
    intro c head
    obtain ⟨notDigit, _, _, notSmall, notLarge, _⟩ := stops_plain stops head
    exact ⟨notDigit, notSmall, notLarge⟩
  have endsFrac : ∀ c, (Numeral.expText x.exp ++ rest).head? = some c →
      isDigit c = false ∧ c ≠ '.' := by
    intro c head
    rcases expText_head (fun y isY => (wellFormed.exp y isY).1) head with rfl | rfl | later
    · decide
    · decide
    · obtain ⟨notDigit, _, notPoint, _⟩ := stops_plain stops later
      exact ⟨notDigit, notPoint⟩
  have endsInt : ∀ c, (Numeral.fracText x.frac ++ (Numeral.expText x.exp ++ rest)).head? = some c →
      isDigit c = false := by
    intro c head
    rcases fracText_head head with rfl | later
    · decide
    · exact (endsFrac c later).1
  have startsInt : ∀ c, (x.int ++ (Numeral.fracText x.frac ++ (Numeral.expText x.exp ++ rest))).head? =
      some c → isDigit c = true := by
    intro c head
    rw [List.head?_append_of_ne_nil _ present] at head
    exact intDigits c (List.mem_of_mem_head? head)
  obtain ⟨taken, left⟩ := digits_span intDigits endsInt
  have good : ¬ (x.int = [] ∨ 1 < x.int.length ∧ x.int.head? = some '0') := by
    intro bad
    rcases bad with isEmpty | leading
    · exact present isEmpty
    · rcases wellFormed.leading with single | noZero
      · omega
      · exact noZero leading.2
  have free : ¬ rest.head?.any isAlphanumeric = true := by
    intro occupied
    obtain ⟨c, head, letter⟩ := (Option.any_eq_true _ _).mp occupied
    obtain ⟨_, notLetter, _⟩ := stops_plain stops head
    rw [notLetter] at letter
    cases letter
  have text : Numeral.minusText x.minus ++ x.int ++ Numeral.fracText x.frac ++
      Numeral.expText x.exp = x.text := rfl
  have split : x.text ++ rest = Numeral.minusText x.minus ++
      (x.int ++ (Numeral.fracText x.frac ++ (Numeral.expText x.exp ++ rest))) := by
    simp [Numeral.text]
  rw [split]
  simp only [number, minus_complete x.minus startsInt, taken, left, if_neg good,
    fraction_complete wellFormed.frac endsFrac, exponent_complete wellFormed.exp endsExp, bind,
    Except.bind, if_neg free, text, reads]

theorem window_sound {n : Nat} {s w rest : List Char} (result : window n s = .ok (w, rest)) :
    s = w ++ rest ∧ (w.map Char.utf8Size).sum = n := by
  induction s generalizing n w with
  | nil =>
    cases n with
    | zero =>
      obtain ⟨rfl, rfl⟩ := Prod.mk.inj (Except.ok.inj result)
      exact ⟨rfl, rfl⟩
    | succ n => cases result
  | cons c tail ih =>
    cases n with
    | zero =>
      obtain ⟨rfl, rfl⟩ := Prod.mk.inj (Except.ok.inj result)
      exact ⟨rfl, rfl⟩
    | succ n =>
      rw [window] at result
      split at result
      · rename_i fits
        obtain ⟨later, isLater, result⟩ := bind_ok_iff.mp result
        obtain ⟨rfl, rfl⟩ := Prod.mk.inj (Except.ok.inj result)
        obtain ⟨split, size⟩ := ih isLater
        refine ⟨by rw [split, List.cons_append], ?_⟩
        rw [List.map_cons, List.sum_cons, size]
        omega
      · cases result

theorem window_complete {w : List Char} (ascii : ∀ c ∈ w, c.utf8Size = 1) (rest : List Char) :
    window w.length (w ++ rest) = .ok (w, rest) := by
  induction w with
  | nil =>
    rw [List.nil_append, List.length_nil]
    cases rest with
    | nil => rfl
    | cons c rest => rfl
  | cons c tail ih =>
    obtain ⟨here, later⟩ := List.forall_mem_cons.mp ascii
    rw [List.length_cons, List.cons_append, window, here, if_pos (Nat.le_add_left 1 _),
      Nat.add_sub_cancel, ih later]
    rfl

section Strings

variable {r : Readers} {m : Meanings}

theorem hex4_sound (agrees : Agrees r m) {s rest : List Char} {cp : Nat}
    (result : hex4 r s = .ok (cp, rest)) :
    ∃ w, w.length = 4 ∧ m.hex w = some cp ∧ s = w ++ rest := by
  unfold hex4 at result
  obtain ⟨w, isWindow, result⟩ := bind_ok_iff.mp result
  split at result
  · rename_i v isHex
    obtain ⟨rfl, rfl⟩ := Prod.mk.inj (Except.ok.inj result)
    obtain ⟨split, size⟩ := @window_sound 4 s w.1 w.2 isWindow
    rw [List.map_congr_left (agrees.ascii w.1 v isHex)] at size
    simp only [List.map_const', List.sum_replicate_nat, Nat.mul_one] at size
    exact ⟨w.1, size, by rw [agrees.hex]; exact isHex, split⟩
  · cases result

variable {s out rest w s' : List Char} {c : Char}

theorem hex4_complete (agrees : Agrees r m) {cp : Nat} (four : w.length = 4)
    (isHex : m.hex w = some cp) (rest : List Char) : hex4 r (w ++ rest) = .ok (cp, rest) := by
  rw [agrees.hex] at isHex
  have isWindow := window_complete (agrees.ascii w cp isHex) rest
  rw [four] at isWindow
  simp [hex4, isWindow, isHex, bind, Except.bind]

theorem mem_escapes_iff {e : Char} : (e, c) ∈ escapes ↔ simpleEscape e = some c := by
  constructor
  · intro isEscape
    simp only [escapes, List.mem_cons, Prod.mk.injEq, List.not_mem_nil, or_false] at isEscape
    rcases isEscape with ⟨rfl, rfl⟩ | ⟨rfl, rfl⟩ | ⟨rfl, rfl⟩ | ⟨rfl, rfl⟩ | ⟨rfl, rfl⟩ |
      ⟨rfl, rfl⟩ | ⟨rfl, rfl⟩ | ⟨rfl, rfl⟩ <;> rfl
  · intro isEscape
    unfold simpleEscape at isEscape
    split_ifs at isEscape <;> (obtain rfl := Option.some.inj isEscape; simp_all [escapes])

theorem unicode_sound (agrees : Agrees r m) (result : unicode r s = .ok (c, s'))
    (later : Chars m s' out rest) : Chars m ('\\' :: 'u' :: s) (c :: out) rest := by
  unfold unicode at result
  obtain ⟨cp, isCp, result⟩ := bind_ok_iff.mp result
  split at result
  · cases result
  · rename_i notZero
    obtain ⟨rfl, rfl⟩ := Prod.mk.inj (Except.ok.inj result)
    unfold codePoint at isCp
    obtain ⟨first, isFirst, isCp⟩ := bind_ok_iff.mp isCp
    obtain ⟨w, four, isHex, split⟩ := @hex4_sound r m agrees s first.2 first.1 isFirst
    split at isCp
    · rename_i isHigh
      unfold lowHalf at isCp
      split at isCp
      · rename_i tail isTail
        obtain ⟨second, isSecond, isCp⟩ := bind_ok_iff.mp isCp
        obtain ⟨w', four', isHex', split'⟩ := @hex4_sound r m agrees tail second.2 second.1 isSecond
        split at isCp
        · rename_i isLow
          obtain rfl := Except.ok.inj isCp
          rw [split, isTail, split']
          exact Chars.pair ⟨four, four'⟩ ⟨isHex, isHex'⟩ ⟨isHigh, isLow⟩ later
        · cases isCp
      · cases isCp
    · rename_i notHigh
      split at isCp
      · cases isCp
      · rename_i notLow
        obtain rfl := Except.ok.inj isCp
        rw [split]
        exact Chars.unicode four isHex ⟨by simpa using notHigh, by simpa using notLow, notZero⟩ later

theorem escaped_sound (agrees : Agrees r m) (result : escaped r s = .ok (c, s'))
    (later : Chars m s' out rest) : Chars m ('\\' :: s) (c :: out) rest := by
  cases s with
  | nil => cases result
  | cons e s =>
    unfold escaped at result
    simp only at result
    split at result
    · rename_i d isEscape
      obtain ⟨rfl, rfl⟩ := Prod.mk.inj (Except.ok.inj result)
      exact Chars.escape (mem_escapes_iff.mpr isEscape) later
    · split at result
      · rename_i isU
        rw [isU]
        exact unicode_sound agrees result later
      · cases result

theorem string_sound (agrees : Agrees r m) {fuel : Nat} {s out rest : List Char}
    (result : string r fuel s = .ok (out, rest)) : Chars m s out rest := by
  induction fuel generalizing s out with
  | zero => cases result
  | succ fuel ih =>
    cases s with
    | nil => cases result
    | cons c s =>
      rw [string] at result
      split at result
      · rename_i isQuote
        obtain ⟨rfl, rfl⟩ := Prod.mk.inj (Except.ok.inj result)
        rw [isQuote]
        exact Chars.close s
      · rename_i notQuote
        split at result
        · rename_i isBackslash
          obtain ⟨e, isEscaped, result⟩ := bind_ok_iff.mp result
          obtain ⟨later, isLater, result⟩ := bind_ok_iff.mp result
          obtain ⟨rfl, rfl⟩ := Prod.mk.inj (Except.ok.inj result)
          rw [isBackslash]
          exact escaped_sound agrees isEscaped (ih isLater)
        · rename_i notBackslash
          split at result
          · cases result
          · rename_i printable
            obtain ⟨later, isLater, result⟩ := bind_ok_iff.mp result
            obtain ⟨rfl, rfl⟩ := Prod.mk.inj (Except.ok.inj result)
            exact Chars.plain ⟨Nat.not_lt.mp printable, notQuote, notBackslash⟩ (ih isLater)

theorem length_chars (chars : Chars m s out rest) : rest.length < s.length := by
  induction chars with
  | close rest => simp
  | plain isPlain later ih =>
    rw [List.length_cons]
    omega
  | escape isEscape later ih =>
    simp only [List.length_cons]
    omega
  | unicode four isHex isWhole later ih =>
    simp only [List.length_cons, List.length_append]
    omega
  | pair four isHex isPair later ih =>
    simp only [List.length_cons, List.length_append]
    omega

theorem unicode_complete (agrees : Agrees r m) {cp : Nat} (four : w.length = 4)
    (isHex : m.hex w = some cp)
    (isWhole : isHighSurrogate cp = false ∧ isLowSurrogate cp = false ∧ cp ≠ 0) :
    unicode r (w ++ s) = .ok (charOf cp, s) := by
  obtain ⟨notHigh, notLow, notZero⟩ := isWhole
  simp [unicode, codePoint, hex4_complete agrees four isHex, bind, Except.bind, notHigh, notLow,
    notZero, pure, Except.pure]

theorem pair_complete (agrees : Agrees r m) {w' : List Char} {high low : Nat}
    (four : w.length = 4 ∧ w'.length = 4) (isHex : m.hex w = some high ∧ m.hex w' = some low)
    (isPair : isHighSurrogate high = true ∧ isLowSurrogate low = true) :
    unicode r (w ++ '\\' :: 'u' :: (w' ++ s)) =
      .ok (charOf (0x10000 + (high - 0xD800) * 1024 + (low - 0xDC00)), s) := by
  have isLow : lowHalf r high ('\\' :: 'u' :: (w' ++ s)) =
      .ok (0x10000 + (high - 0xD800) * 1024 + (low - 0xDC00), s) := by
    simp [lowHalf, hex4_complete agrees four.2 isHex.2, bind, Except.bind, isPair.2, pure,
      Except.pure]
  have notZero : 0x10000 + (high - 0xD800) * 1024 + (low - 0xDC00) ≠ 0 := by omega
  generalize 0x10000 + (high - 0xD800) * 1024 + (low - 0xDC00) = cp at *
  simp [unicode, codePoint, hex4_complete agrees four.1 isHex.1, bind, Except.bind, isPair.1, isLow,
    notZero, pure, Except.pure]

theorem string_escaped (isEscaped : escaped r s = .ok (c, s')) {fuel : Nat}
    (later : string r fuel s' = .ok (out, rest)) :
    string r (fuel + 1) ('\\' :: s) = .ok (c :: out, rest) := by
  rw [string, if_neg (by decide), if_pos rfl, isEscaped]
  simp only [bind, Except.bind, later]
  rfl

theorem escaped_unicode (s : List Char) : escaped r ('u' :: s) = unicode r s := rfl

theorem string_complete (agrees : Agrees r m) (chars : Chars m s out rest) {fuel : Nat}
    (enough : s.length < fuel) : string r fuel s = .ok (out, rest) := by
  induction chars generalizing fuel with
  | close rest =>
    cases fuel with
    | zero => omega
    | succ fuel => simp [string]
  | @plain c s out rest isPlain later ih =>
    cases fuel with
    | zero => omega
    | succ fuel =>
      obtain ⟨printable, notQuote, notBackslash⟩ := isPlain
      simp only [List.length_cons] at enough
      rw [string, if_neg notQuote, if_neg notBackslash, if_neg (by omega), ih (by omega)]
      rfl
  | @escape e c s out rest isEscape later ih =>
    cases fuel with
    | zero => omega
    | succ fuel =>
      simp only [List.length_cons] at enough
      apply string_escaped _ (ih (by omega))
      simp [escaped, mem_escapes_iff.mp isEscape]
  | @unicode w s out rest cp four isHex isWhole later ih =>
    cases fuel with
    | zero => omega
    | succ fuel =>
      simp only [List.length_cons, List.length_append] at enough
      apply string_escaped _ (ih (by omega))
      rw [escaped_unicode]
      exact unicode_complete agrees four isHex isWhole
  | @pair w w' s out rest high low four isHex isPair later ih =>
    cases fuel with
    | zero => omega
    | succ fuel =>
      simp only [List.length_cons, List.length_append] at enough
      apply string_escaped _ (ih (by omega))
      rw [escaped_unicode]
      exact pair_complete agrees four isHex isPair

end Strings

section Values

variable {r : Readers} {m : Meanings}

structure Sound (r : Readers) (m : Meanings) (fuel : Nat) : Prop where
  value : ∀ n depth s j rest, depth + n = maxDepth → value r fuel depth s = .ok (j, rest) →
    ∃ s₁, Ws s s₁ ∧ Value m n s₁ j rest
  items : ∀ n depth s vs rest, depth + n = maxDepth → items r fuel depth s = .ok (vs, rest) →
    Items m n s vs rest
  members : ∀ n depth s vs rest, depth + n = maxDepth → members r fuel depth s = .ok (vs, rest) →
    Members m n s vs rest

variable {s rest : List Char} {n fuel depth : Nat} {c : Char} {j : Json}

theorem head_tail (head : s.head? = some c) : s = c :: s.tail := by
  cases s with
  | nil => cases head
  | cons d s => rw [Option.some.inj head, List.tail_cons]

theorem ws_head (head : (ws s).head? = some c) : Ws s (c :: (ws s).tail) := by
  rw [← head_tail head]
  exact ws_skips s

theorem ws_cons (split : ws s = c :: rest) : Ws s (c :: rest) := by
  rw [← split]
  exact ws_skips s

theorem value_sound (agrees : Agrees r m) (sound : Sound r m fuel) (levels : depth + n = maxDepth)
    (result : value r (fuel + 1) depth s = .ok (j, rest)) :
    ∃ s₁, Ws s s₁ ∧ Value m n s₁ j rest := by
  rw [value] at result
  refine ⟨ws s, ws_skips s, ?_⟩
  cases split : ws s with
  | nil =>
    rw [split] at result
    cases result
  | cons c tail =>
    rw [split] at result
    simp only at result
    -- One level more, where there is one.
    have level : ¬ maxDepth < depth + 1 → ∃ k, n = k + 1 ∧ depth + 1 + k = maxDepth := by
      intro fits
      exact ⟨n - 1, by omega, by omega⟩
    split at result
    · rename_i isBrace
      rw [isBrace]
      split at result
      · cases result
      · rename_i fits
        obtain ⟨k, rfl, deeper⟩ := level fits
        split at result
        · rename_i closes
          obtain ⟨rfl, rfl⟩ := Prod.mk.inj (Except.ok.inj result)
          exact Value.emptyObject (ws_head closes)
        · obtain ⟨all, isAll, result⟩ := bind_ok_iff.mp result
          obtain ⟨rfl, rfl⟩ := Prod.mk.inj (Except.ok.inj result)
          exact Value.object (sound.members k _ tail all.1 all.2 deeper isAll)
    · split at result
      · rename_i isBracket
        rw [isBracket]
        split at result
        · cases result
        · rename_i fits
          obtain ⟨k, rfl, deeper⟩ := level fits
          split at result
          · rename_i closes
            obtain ⟨rfl, rfl⟩ := Prod.mk.inj (Except.ok.inj result)
            exact Value.emptyArray (ws_head closes)
          · obtain ⟨all, isAll, result⟩ := bind_ok_iff.mp result
            obtain ⟨rfl, rfl⟩ := Prod.mk.inj (Except.ok.inj result)
            exact Value.array (sound.items k _ tail all.1 all.2 deeper isAll)
      · split at result
        · rename_i isQuote
          rw [isQuote]
          obtain ⟨text, isText, result⟩ := bind_ok_iff.mp result
          obtain ⟨rfl, rfl⟩ := Prod.mk.inj (Except.ok.inj result)
          exact Value.str (@string_sound r m agrees _ tail text.1 text.2 isText)
        · split at result
          · obtain ⟨rfl, whole⟩ := word_sound result
            rw [whole]
            exact Value.true n rest
          · split at result
            · obtain ⟨rfl, whole⟩ := word_sound result
              rw [whole]
              exact Value.false n rest
            · split at result
              · obtain ⟨rfl, whole⟩ := word_sound result
                rw [whole]
                exact Value.null n rest
              · split at result
                · obtain ⟨x, wellFormed, whole, v, reads, rfl⟩ := number_sound result
                  rw [whole]
                  exact Value.num wellFormed ((agrees.number x wellFormed v).mp reads)
                · cases result

theorem items_sound (sound : Sound r m fuel) (levels : depth + n = maxDepth) {vs : List Json}
    (result : items r (fuel + 1) depth s = .ok (vs, rest)) : Items m n s vs rest := by
  rw [items] at result
  obtain ⟨v, isV, result⟩ := bind_ok_iff.mp result
  obtain ⟨s₁, before, isValue⟩ := sound.value n depth s v.1 v.2 levels isV
  split at result
  · rename_i tail after
    obtain ⟨later, isLater, result⟩ := bind_ok_iff.mp result
    obtain ⟨rfl, rfl⟩ := Prod.mk.inj (Except.ok.inj result)
    exact Items.cons before isValue (ws_cons after)
      (sound.items n depth tail later.1 later.2 levels isLater)
  · rename_i tail after
    obtain ⟨rfl, rfl⟩ := Prod.mk.inj (Except.ok.inj result)
    exact Items.last before isValue (ws_cons after)
  · cases result

theorem members_sound (agrees : Agrees r m) (sound : Sound r m fuel)
    (levels : depth + n = maxDepth) {vs : List (String × Json)}
    (result : members r (fuel + 1) depth s = .ok (vs, rest)) : Members m n s vs rest := by
  rw [members] at result
  split at result
  · rename_i s₁ before
    obtain ⟨k, isK, result⟩ := bind_ok_iff.mp result
    have isKey := @string_sound r m agrees _ s₁ k.1 k.2 isK
    split at result
    · rename_i s₃ colon
      obtain ⟨v, isV, result⟩ := bind_ok_iff.mp result
      obtain ⟨s₄, between, isValue⟩ := sound.value n depth s₃ v.1 v.2 levels isV
      split at result
      · rename_i tail after
        obtain ⟨later, isLater, result⟩ := bind_ok_iff.mp result
        obtain ⟨rfl, rfl⟩ := Prod.mk.inj (Except.ok.inj result)
        exact Members.cons (ws_cons before) isKey (ws_cons colon) between isValue (ws_cons after)
          (sound.members n depth tail later.1 later.2 levels isLater)
      · rename_i tail after
        obtain ⟨rfl, rfl⟩ := Prod.mk.inj (Except.ok.inj result)
        exact Members.last (ws_cons before) isKey (ws_cons colon) between isValue (ws_cons after)
      · cases result
    · cases result
  · cases result

theorem sound_all (agrees : Agrees r m) (fuel : Nat) : Sound r m fuel := by
  induction fuel with
  | zero =>
    constructor
    · intro n depth s j rest _ result
      cases result
    · intro n depth s vs rest _ result
      cases result
    · intro n depth s vs rest _ result
      cases result
  | succ fuel ih =>
    constructor
    · intro n depth s j rest levels result
      exact value_sound agrees ih levels result
    · intro n depth s vs rest levels result
      exact items_sound ih levels result
    · intro n depth s vs rest levels result
      exact members_sound agrees ih levels result

theorem length_text {x : Numeral} (wellFormed : x.WellFormed) (rest : List Char) :
    rest.length < (x.text ++ rest).length := by
  have present := List.length_pos_iff.mpr wellFormed.int.1
  simp only [Numeral.text, List.length_append]
  omega

mutual

theorem length_value {n : Nat} {s rest : List Char} {j : Json} :
    Value m n s j rest → rest.length < s.length
  | .null _ _ => by
      simp
      omega
  | .true _ _ => by
      simp
      omega
  | .false _ _ => by
      simp
      omega
  | .num wellFormed _ => length_text wellFormed rest
  | .str chars => Nat.lt_succ_of_lt (length_chars chars)
  | .emptyArray space => Nat.lt_succ_of_lt (length_ws space)
  | .array items => Nat.lt_succ_of_lt (length_items items)
  | .emptyObject space => Nat.lt_succ_of_lt (length_ws space)
  | .object members => Nat.lt_succ_of_lt (length_members members)

theorem length_items {n : Nat} {s rest : List Char} {vs : List Json} :
    Items m n s vs rest → rest.length < s.length
  | .last before isValue after => by
      have first := length_ws before
      have second := length_value isValue
      have third := length_ws after
      simp only [List.length_cons] at third
      omega
  | .cons before isValue after later => by
      have first := length_ws before
      have second := length_value isValue
      have third := length_ws after
      have fourth := length_items later
      simp only [List.length_cons] at third
      omega

theorem length_members {n : Nat} {s rest : List Char} {vs : List (String × Json)} :
    Members m n s vs rest → rest.length < s.length
  | .last before isKey colon between isValue after => by
      have first := length_ws before
      have second := length_chars isKey
      have third := length_ws colon
      have fourth := length_ws between
      have fifth := length_value isValue
      have sixth := length_ws after
      simp only [List.length_cons] at first third sixth
      omega
  | .cons before isKey colon between isValue after later => by
      have first := length_ws before
      have second := length_chars isKey
      have third := length_ws colon
      have fourth := length_ws between
      have fifth := length_value isValue
      have sixth := length_ws after
      have seventh := length_members later
      simp only [List.length_cons] at first third sixth
      omega

end

theorem text_head {x : Numeral} (wellFormed : x.WellFormed) (rest : List Char) :
    ∃ c tail, x.text ++ rest = c :: tail ∧ (c = '-' ∨ isDigit c = true) := by
  obtain ⟨isMinus, int, frac, exp⟩ := x
  cases isMinus with
  | true => exact ⟨_, _, rfl, Or.inl rfl⟩
  | false =>
    cases int with
    | nil => exact (wellFormed.int.1 rfl).elim
    | cons d int => exact ⟨d, _, rfl, Or.inr (wellFormed.int.2 d List.mem_cons_self)⟩

theorem digit_plain (digit : isDigit c = true) :
    isWs c = false ∧ c ≠ '{' ∧ c ≠ '[' ∧ c ≠ '"' ∧ c ≠ 't' ∧ c ≠ 'f' ∧ c ≠ 'n' ∧ c ≠ ']' ∧
      c ≠ '}' := by
  have other : ∀ d : Char, isDigit d = false → c ≠ d := by
    intro d notDigit same
    rw [same, notDigit] at digit
    cases digit
  refine ⟨?_, other _ (by decide), other _ (by decide), other _ (by decide), other _ (by decide),
    other _ (by decide), other _ (by decide), other _ (by decide), other _ (by decide)⟩
  unfold isWs
  simp [other ' ' (by decide), other '\t' (by decide), other '\n' (by decide),
    other '\r' (by decide)]

theorem number_plain (starts : c = '-' ∨ isDigit c = true) :
    isWs c = false ∧ c ≠ '{' ∧ c ≠ '[' ∧ c ≠ '"' ∧ c ≠ 't' ∧ c ≠ 'f' ∧ c ≠ 'n' ∧ c ≠ ']' ∧
      c ≠ '}' := by
  rcases starts with isDash | digit
  · rw [isDash]
    decide
  · exact digit_plain digit

theorem value_head (isValue : Value m n s j rest) :
    ∃ c tail, s = c :: tail ∧ isWs c = false ∧ c ≠ ']' ∧ c ≠ '}' := by
  cases isValue with
  | null => exact ⟨_, _, rfl, by decide, by decide, by decide⟩
  | true => exact ⟨_, _, rfl, by decide, by decide, by decide⟩
  | false => exact ⟨_, _, rfl, by decide, by decide, by decide⟩
  | @num _ x v rest wellFormed means =>
    obtain ⟨c, tail, split, starts⟩ := text_head wellFormed rest
    obtain ⟨notSpace, _, _, _, _, _, _, notBracket, notBrace⟩ := number_plain starts
    exact ⟨c, tail, split, notSpace, notBracket, notBrace⟩
  | str => exact ⟨_, _, rfl, by decide, by decide, by decide⟩
  | emptyArray => exact ⟨_, _, rfl, by decide, by decide, by decide⟩
  | array => exact ⟨_, _, rfl, by decide, by decide, by decide⟩
  | emptyObject => exact ⟨_, _, rfl, by decide, by decide, by decide⟩
  | object => exact ⟨_, _, rfl, by decide, by decide, by decide⟩

theorem ws_value {s₀ : List Char} (space : Ws s₀ s) (isValue : Value m n s j rest) : ws s₀ = s := by
  obtain ⟨c, tail, rfl, notSpace, _⟩ := value_head isValue
  exact ws_stops space notSpace

theorem items_head {vs : List Json} (items : Items m n s vs rest) : (ws s).head? ≠ some ']' := by
  have starts : ∀ {s₁ s₂ : List Char} {v : Json}, Ws s s₁ → Value m n s₁ v s₂ →
      (ws s).head? ≠ some ']' := by
    intro s₁ s₂ v before isValue
    rw [ws_value before isValue]
    obtain ⟨c, tail, rfl, _, notBracket, _⟩ := value_head isValue
    simpa using notBracket
  cases items with
  | last before isValue after => exact starts before isValue
  | cons before isValue after later => exact starts before isValue

theorem members_head {vs : List (String × Json)} (members : Members m n s vs rest) :
    (ws s).head? ≠ some '}' := by
  cases members with
  | last before isKey colon between isValue after =>
    rw [ws_stops before (by decide)]
    simp
  | cons before isKey colon between isValue after later =>
    rw [ws_stops before (by decide)]
    simp

mutual

theorem value_complete (agrees : Agrees r m) {n : Nat} {s rest : List Char} {j : Json}
    (isValue : Value m n s j rest) {depth : Nat} (levels : depth + n = maxDepth) {s₀ : List Char}
    (space : Ws s₀ s) (stops : Stops rest) {fuel : Nat} (enough : 2 * s₀.length < fuel) :
    value r fuel depth s₀ = .ok (j, rest) := by
  have skipped := ws_value space isValue
  have length := length_ws space
  cases fuel with
  | zero => omega
  | succ fuel =>
    rw [value, skipped]
    have fits : ∀ {k : Nat}, depth + (k + 1) = maxDepth → ¬ maxDepth < depth + 1 := by
      intro k isLevel
      omega
    cases isValue with
    | null n rest => exact word_complete "null".toList .null stops
    | true n rest => exact word_complete "true".toList (.bool true) stops
    | false n rest => exact word_complete "false".toList (.bool false) stops
    | @num _ x v _ wellFormed means =>
      have isNumber := number_complete wellFormed ((agrees.number x wellFormed v).mpr means) stops
      obtain ⟨c, tail, split, starts⟩ := text_head wellFormed rest
      obtain ⟨_, notBrace, notBracket, notQuote, notT, notF, notN, _⟩ := number_plain starts
      rw [split] at isNumber ⊢
      simp only [if_neg notBrace, if_neg notBracket, if_neg notQuote, if_neg notT, if_neg notF,
        if_neg notN, if_pos starts]
      exact isNumber
    | @str _ s out _ chars =>
      have isText := string_complete agrees chars (Nat.lt_succ_self s.length)
      simp [isText, bind, Except.bind, pure, Except.pure]
    | @emptyArray n s _ closing =>
      have closes := ws_stops closing (by decide)
      simp [fits levels, closes]
    | @array n s _ vs items =>
      simp only [List.length_cons] at length
      have all := items_complete agrees items (by omega : depth + 1 + n = maxDepth)
        (by omega : 2 * s.length + 1 < fuel)
      simp [fits levels, items_head items, all, bind, Except.bind, pure, Except.pure]
    | @emptyObject n s _ closing =>
      have closes := ws_stops closing (by decide)
      simp [fits levels, closes]
    | @object n s _ vs members =>
      simp only [List.length_cons] at length
      have all := members_complete agrees members (by omega : depth + 1 + n = maxDepth)
        (by omega : 2 * s.length + 1 < fuel)
      simp [fits levels, members_head members, all, bind, Except.bind, pure, Except.pure]

theorem items_complete (agrees : Agrees r m) {n : Nat} {s rest : List Char} {vs : List Json}
    (all : Items m n s vs rest) {depth : Nat} (levels : depth + n = maxDepth) {fuel : Nat}
    (enough : 2 * s.length + 1 < fuel) : items r fuel depth s = .ok (vs, rest) := by
  cases fuel with
  | zero => omega
  | succ fuel =>
    rw [items]
    cases all with
    | last before isValue after =>
      have first := value_complete agrees isValue levels before
        (stops_of_ws after (by decide)) (by omega : 2 * s.length < fuel)
      simp only [first, bind, Except.bind, ws_stops after (by decide : isWs ']' = false)]
      rfl
    | @cons _ _ s₁ s₂ s₃ _ v vs before isValue after later =>
      have first := value_complete agrees isValue levels before
        (stops_of_ws after (by decide)) (by omega : 2 * s.length < fuel)
      have shorter := length_value isValue
      have before' := length_ws before
      have after' := length_ws after
      simp only [List.length_cons] at after'
      have rest := items_complete agrees later levels (by omega : 2 * s₃.length + 1 < fuel)
      simp only [first, bind, Except.bind, ws_stops after (by decide : isWs ',' = false), rest]
      rfl

theorem members_complete (agrees : Agrees r m) {n : Nat} {s rest : List Char}
    {vs : List (String × Json)} (all : Members m n s vs rest) {depth : Nat}
    (levels : depth + n = maxDepth) {fuel : Nat} (enough : 2 * s.length + 1 < fuel) :
    members r fuel depth s = .ok (vs, rest) := by
  cases fuel with
  | zero => omega
  | succ fuel =>
    rw [members]
    cases all with
    | @last _ _ s₁ s₂ s₃ s₄ s₅ _ key v before isKey colon between isValue after =>
      have shorter := length_chars isKey
      have before' := length_ws before
      have colon' := length_ws colon
      simp only [List.length_cons] at before' colon'
      have isText := string_complete agrees isKey (Nat.lt_succ_self s₁.length)
      have first := value_complete agrees isValue levels between
        (stops_of_ws after (by decide)) (by omega : 2 * s₃.length < fuel)
      simp only [ws_stops before (by decide : isWs '"' = false), isText, bind, Except.bind,
        ws_stops colon (by decide : isWs ':' = false), first,
        ws_stops after (by decide : isWs '}' = false)]
      rfl
    | @cons _ _ s₁ s₂ s₃ s₄ s₅ s₆ _ key v vs before isKey colon between isValue after later =>
      have shorter := length_chars isKey
      have before' := length_ws before
      have colon' := length_ws colon
      have between' := length_ws between
      have shorter' := length_value isValue
      have after' := length_ws after
      simp only [List.length_cons] at before' colon' after'
      have isText := string_complete agrees isKey (Nat.lt_succ_self s₁.length)
      have first := value_complete agrees isValue levels between
        (stops_of_ws after (by decide)) (by omega : 2 * s₃.length < fuel)
      have rest := members_complete agrees later levels (by omega : 2 * s₆.length + 1 < fuel)
      simp only [ws_stops before (by decide : isWs '"' = false), isText, bind, Except.bind,
        ws_stops colon (by decide : isWs ':' = false), first,
        ws_stops after (by decide : isWs ',' = false), rest]
      rfl

end

theorem parseWith_iff (agrees : Agrees r m) (s : String) (j : Json) :
    Json.parseWith r s = .ok j ↔ Text m s j := by
  unfold Json.parseWith
  constructor
  · intro result
    obtain ⟨v, isV, result⟩ := bind_ok_iff.mp result
    split at result
    · cases result
    · rename_i done
      obtain rfl := Except.ok.inj result
      obtain ⟨s₁, space, isValue⟩ := (sound_all agrees _).value maxDepth 0 s.toList v.1 v.2
        (Nat.zero_add _) isV
      refine ⟨s₁, v.2, space, isValue, ?_⟩
      rw [← not_not.mp done]
      exact ws_skips v.2
  · intro isText
    obtain ⟨s₁, s₂, space, isValue, done⟩ := isText
    have first := value_complete agrees isValue (Nat.zero_add maxDepth) space (stops_of_ws_nil done)
      (Nat.lt_succ_self (2 * s.toList.length))
    simp only [first, bind, Except.bind, ws_nil done]
    rfl

end Values

end NoidaDb.Sql.JsonGrammar
