/-
`LIKE`: patterns with an escape character, and the search that remembers the last `%` only.
-/

import NoidaDb.Lib.Wildcards
import Mathlib.Data.List.TakeWhile
import Mathlib.Data.Prod.Lex

namespace NoidaDb.MySql.Like

open Lib

def plainTok (c : Char) : Tok Char :=
  if c = '%' then .any else if c = '_' then .one else .lit c

def tokens (esc : Option Char) : List Char → List (Tok Char)
  | [] => []
  | [c] => [plainTok c]
  | c :: d :: rest =>
    if some c = esc then .lit d :: tokens esc rest else plainTok c :: tokens esc (d :: rest)

structure Search where
  /-- The text from `si` on. -/
  text : List Char
  /-- The tokens from `ti` on. -/
  toks : List (Tok Char)
  /-- The tokens after the last `%`, and the text from where it starts. -/
  star : Option (List (Tok Char) × List Char)

namespace Search

/-- The last `%` takes one character more. -/
def retry (st : Search) : Search ⊕ Bool :=
  match st.star with
  | some (after, start) =>
    .inl { text := start.tail, toks := after, star := some (after, start.tail) }
  | none => .inr false

def step (st : Search) : Search ⊕ Bool :=
  match st.text with
  | [] => .inr (st.toks.dropWhile (fun tok => tok == .any)).isEmpty
  | c :: rest =>
    match st.toks with
    | .any :: after => .inl { text := st.text, toks := after, star := some (after, st.text) }
    | .one :: after => .inl { st with text := rest, toks := after }
    | .lit d :: after => if d = c then .inl { st with text := rest, toks := after } else st.retry
    | [] => st.retry

def run : Nat → Search → Option Bool
  | 0, _ => none
  | fuel + 1, st =>
    match st.step with
    | .inl next => run fuel next
    | .inr answer => some answer

end Search

/-- `mysql_like`, with at most `fuel` rounds of its loop. -/
def mysqlLike (lower : String → String) (s pattern : String) (esc : Option Char) (fuel : Nat) :
    Option Bool :=
  let esc := esc.map Char.toLower
  Search.run fuel
    { text := (lower s).toList, toks := tokens esc (lower pattern).toList, star := none }

def Stands (esc : Option Char) (c : Char) (rest : List Char) : Prop := some c ≠ esc ∨ rest = []

inductive Denotes (esc : Option Char) : List Char → List Char → Prop
  | nil : Denotes esc [] []
  | escaped {c d : Char} {pattern s : List Char} (isEscape : some c = esc)
      (rest : Denotes esc pattern s) : Denotes esc (c :: d :: pattern) (d :: s)
  | run {pattern s : List Char} (stands : Stands esc '%' pattern) (run : List Char)
      (rest : Denotes esc pattern s) : Denotes esc ('%' :: pattern) (run ++ s)
  | one {pattern s : List Char} (stands : Stands esc '_' pattern) (d : Char)
      (rest : Denotes esc pattern s) : Denotes esc ('_' :: pattern) (d :: s)
  | itself {c : Char} {pattern s : List Char} (stands : Stands esc c pattern)
      (notRun : c ≠ '%') (notOne : c ≠ '_') (rest : Denotes esc pattern s) :
      Denotes esc (c :: pattern) (c :: s)

variable {esc : Option Char} {c : Char}

theorem tokens_escaped (isEscape : some c = esc) (d : Char) (rest : List Char) :
    tokens esc (c :: d :: rest) = .lit d :: tokens esc rest := by
  rw [tokens, if_pos isEscape]

theorem tokens_stands {rest : List Char} (stands : Stands esc c rest) :
    tokens esc (c :: rest) = plainTok c :: tokens esc rest := by
  cases rest with
  | nil => rfl
  | cons d rest =>
    rcases stands with notEscape | isNil
    · rw [tokens, if_neg notEscape]
    · cases isNil

theorem denotes_plain {rest s : List Char} (stands : Stands esc c rest) :
    InLanguage (plainTok c :: tokens esc rest) s →
      (∀ tail, InLanguage (tokens esc rest) tail → Denotes esc rest tail) → Denotes esc (c :: rest) s := by
  intro inLanguage ih
  unfold plainTok at inLanguage
  by_cases isRun : c = '%'
  · rw [if_pos isRun] at inLanguage
    obtain ⟨taken, tail, rfl, inRest⟩ := inLanguage
    subst isRun
    exact .run stands taken (ih tail inRest)
  · rw [if_neg isRun] at inLanguage
    by_cases isOne : c = '_'
    · rw [if_pos isOne] at inLanguage
      obtain ⟨d, tail, rfl, inRest⟩ := inLanguage
      subst isOne
      exact .one stands d (ih tail inRest)
    · rw [if_neg isOne] at inLanguage
      obtain ⟨tail, rfl, inRest⟩ := inLanguage
      exact .itself stands isRun isOne (ih tail inRest)

theorem inLanguage_tokens_iff (esc : Option Char) (pattern s : List Char) :
    InLanguage (tokens esc pattern) s ↔ Denotes esc pattern s := by
  constructor
  · intro inLanguage
    induction pattern using tokens.induct esc generalizing s with
    | case1 =>
      have isNil : s = [] := inLanguage
      rw [isNil]
      exact .nil
    | case2 c =>
      apply denotes_plain (.inr rfl) inLanguage
      intro tail inRest
      have isNil : tail = [] := inRest
      rw [isNil]
      exact .nil
    | case3 c d rest isEscape ih =>
      rw [tokens_escaped isEscape] at inLanguage
      obtain ⟨tail, rfl, inRest⟩ := inLanguage
      exact .escaped isEscape (ih tail inRest)
    | case4 c d rest notEscape ih =>
      rw [tokens_stands (.inl notEscape)] at inLanguage
      exact denotes_plain (.inl notEscape) inLanguage ih
  · intro denotes
    induction denotes with
    | nil => rfl
    | escaped isEscape rest ih =>
      rw [tokens_escaped isEscape]
      exact ⟨_, rfl, ih⟩
    | run stands taken rest ih =>
      rw [tokens_stands stands]
      exact ⟨taken, _, rfl, ih⟩
    | one stands d rest ih =>
      rw [tokens_stands stands]
      exact ⟨d, _, rfl, ih⟩
    | itself stands notRun notOne rest ih =>
      rw [tokens_stands stands, plainTok, if_neg notRun, if_neg notOne]
      exact ⟨_, rfl, ih⟩

namespace Search

/-- The text and the tokens since the last `%` go together: as many characters as tokens were
passed, and none of the tokens is a `%`. -/
def Since (st : Search) : Prop :=
  ∀ after start, st.star = some (after, start) →
    ∃ passed taken, after = passed ++ st.toks ∧ start = taken ++ st.text ∧
      passed.length = taken.length ∧ .any ∉ passed

/-- There is a match with a later start after the last `%`. -/
def Later (st : Search) : Prop :=
  ∃ after c start, st.star = some (after, c :: start) ∧ InLanguage (.any :: after) start

def Accepts (st : Search) : Prop := InLanguage st.toks st.text ∨ st.Later

/-- Later rounds have fewer tokens after the last `%`, or a later start there, or fewer tokens. -/
def measure (st : Search) : ℕ ×ₗ ℕ ×ₗ ℕ :=
  toLex (st.star.elim (st.toks.length + 1) (fun star => star.1.length),
    toLex (st.star.elim 0 (fun star => star.2.length), st.toks.length))

variable {st next : Search}

/-- A match after an earlier `%` is one after a new one: what is left for the new one is a part of
the text from here on. -/
theorem Since.later_absorbed (since : st.Since) {after : List (Tok Char)}
    (isAny : st.toks = .any :: after) (later : st.Later) : InLanguage st.toks st.text := by
  obtain ⟨earlier, c, start, isStar, run, tail, isAppend, inEarlier⟩ := later
  obtain ⟨passed, taken, isPassed, isTaken, length, noRun⟩ := since _ _ isStar
  rw [isPassed] at inEarlier
  obtain ⟨taken', left, rfl, length', inLeft⟩ := inEarlier.split noRun
  rw [isAny] at inLeft ⊢
  apply inLanguage_any_of_suffix inLeft
  -- Both are ends of the text after the earlier `%`, and `left` is not longer.
  have leftEnds : left <:+ taken ++ st.text := by
    rw [← isTaken, isAppend]
    exact ⟨c :: (run ++ taken'), by simp⟩
  apply List.suffix_of_suffix_length_le leftEnds (List.suffix_append _ _)
  have lengths := congrArg List.length isTaken
  rw [isAppend] at lengths
  simp only [List.length_cons, List.length_append] at lengths
  omega

theorem Since.not_later (since : st.Since) (atEnd : st.text = []) : ¬ st.Later := by
  rintro ⟨after, c, start, isStar, run, tail, isAppend, inAfter⟩
  obtain ⟨passed, taken, isPassed, isTaken, length, noRun⟩ := since _ _ isStar
  rw [isPassed] at inAfter
  obtain ⟨taken', left, rfl, length', _⟩ := inAfter.split noRun
  have lengths := congrArg List.length isTaken
  rw [isAppend, atEnd] at lengths
  simp only [List.length_cons, List.length_append, List.length_nil] at lengths
  omega

structure Keeps (st next : Search) : Prop where
  since : next.Since
  accepts : next.Accepts ↔ st.Accepts
  measure : next.measure < st.measure

def Right (st : Search) : Search ⊕ Bool → Prop
  | .inl next => Keeps st next
  | .inr answer => answer = true ↔ st.Accepts

theorem measure_lt_of_toks (isStar : next.star = st.star) (fewer : next.toks.length < st.toks.length) :
    next.measure < st.measure := by
  unfold measure
  rw [isStar]
  cases st.star with
  | none =>
    apply Prod.Lex.left
    exact Nat.succ_lt_succ fewer
  | some star =>
    apply Prod.Lex.right
    apply Prod.Lex.right
    exact fewer

theorem keeps_matched (since : st.Since) {tok : Tok Char} {after : List (Tok Char)} {c : Char}
    {rest : List Char} (isToks : st.toks = tok :: after) (isText : st.text = c :: rest)
    (notAny : tok ≠ .any) (one : InLanguage (tok :: after) (c :: rest) ↔ InLanguage after rest) :
    Keeps st { st with text := rest, toks := after } where
  since := by
    intro earlier start isStar
    obtain ⟨passed, taken, isPassed, isTaken, length, noRun⟩ := since _ _ isStar
    refine ⟨passed ++ [tok], taken ++ [c], ?_, ?_, ?_, ?_⟩
    · rw [isPassed, isToks, List.append_assoc]
      rfl
    · rw [isTaken, isText, List.append_assoc]
      rfl
    · simp only [List.length_append, length]
      rfl
    · intro member
      rcases List.mem_append.mp member with inPassed | isTok
      · exact noRun inPassed
      · exact notAny (List.mem_singleton.mp isTok).symm
  accepts := by
    unfold Accepts
    rw [isToks, isText, one]
    rfl
  measure := measure_lt_of_toks rfl (by rw [isToks]; exact Nat.lt_succ_self _)

/-- No match from here: the last `%` takes one character more. -/
theorem retry_right (since : st.Since) {c : Char} {rest : List Char} (isText : st.text = c :: rest)
    (noMatch : ¬ InLanguage st.toks st.text) : Right st st.retry := by
  unfold retry
  cases isStar : st.star with
  | none =>
    show false = true ↔ _
    constructor
    · intro isTrue
      cases isTrue
    · rintro (inLanguage | ⟨after, c, start, isSome, _⟩)
      · exact (noMatch inLanguage).elim
      · rw [isStar] at isSome
        cases isSome
  | some star =>
    obtain ⟨passed, taken, isPassed, isTaken, length, noRun⟩ := since star.1 star.2 isStar
    obtain ⟨d, start, isStart⟩ : ∃ d start, star.2 = d :: start := by
      cases isNil : star.2 with
      | nil =>
        rw [isNil, isText] at isTaken
        exact absurd isTaken.symm (by simp)
      | cons d start => exact ⟨d, start, rfl⟩
    show Keeps st { text := star.2.tail, toks := star.1, star := some (star.1, star.2.tail) }
    rw [isStart, List.tail_cons]
    refine ⟨?_, ?_, ?_⟩
    · intro after from' isSome
      cases isSome
      exact ⟨[], [], rfl, rfl, rfl, List.not_mem_nil⟩
    · have accepts : st.Accepts ↔ InLanguage (.any :: star.1) start := by
        constructor
        · rintro (inLanguage | ⟨after, c, from', isSome, inAfter⟩)
          · exact (noMatch inLanguage).elim
          · rw [isStar] at isSome
            cases isSome
            cases isStart
            exact inAfter
        · intro inAfter
          right
          refine ⟨star.1, d, start, ?_, inAfter⟩
          rw [isStar, ← isStart]
      rw [accepts]
      cases start with
      | nil =>
        constructor
        · rintro (inAfter | ⟨after, c, from', isSome, _⟩)
          · exact ⟨[], [], rfl, inAfter⟩
          · cases isSome
        · rintro ⟨run, tail, isAppend, inAfter⟩
          obtain ⟨rfl, rfl⟩ := List.append_eq_nil_iff.mp isAppend.symm
          exact .inl inAfter
      | cons e start =>
        rw [inLanguage_any_cons]
        constructor
        · rintro (inAfter | ⟨after, c, from', isSome, inAfter⟩)
          · exact .inl inAfter
          · cases isSome
            exact .inr inAfter
        · rintro (inAfter | inAfter)
          · exact .inl inAfter
          · exact .inr ⟨star.1, e, start, rfl, inAfter⟩
    · unfold measure
      rw [isStar]
      apply Prod.Lex.right
      apply Prod.Lex.left
      show start.length < star.2.length
      rw [isStart]
      exact Nat.lt_succ_self _

theorem step_right (since : st.Since) : Right st st.step := by
  unfold step
  cases isText : st.text with
  | nil =>
    show (st.toks.dropWhile (fun tok => tok == .any)).isEmpty = true ↔ st.Accepts
    have accepts : st.Accepts ↔ InLanguage st.toks [] := by
      unfold Accepts
      rw [isText]
      exact or_iff_left (since.not_later isText)
    rw [accepts, inLanguage_nil_iff, List.isEmpty_iff, List.dropWhile_eq_nil_iff]
    simp
  | cons c rest =>
    simp only
    cases isToks : st.toks with
    | nil =>
      apply retry_right since isText
      rw [isToks, isText]
      intro isNil
      cases isNil
    | cons tok after =>
      cases tok with
      | one => exact keeps_matched since isToks isText (by simp) inLanguage_one_cons
      | lit d =>
        simp only
        by_cases same : d = c
        · rw [if_pos same]
          apply keeps_matched since isToks isText (by simp)
          rw [inLanguage_lit_cons]
          exact and_iff_right same
        · rw [if_neg same]
          apply retry_right since isText
          rw [isToks, isText, inLanguage_lit_cons]
          exact fun matched => same matched.1
      | any =>
        refine ⟨?_, ?_, ?_⟩
        · intro earlier start isSome
          cases isSome
          exact ⟨[], [], rfl, rfl, rfl, List.not_mem_nil⟩
        · have accepts : st.Accepts ↔ InLanguage (.any :: after) (c :: rest) := by
            rw [← isToks, ← isText]
            exact ⟨fun accepted => accepted.elim id (since.later_absorbed isToks), .inl⟩
          rw [accepts, inLanguage_any_cons]
          constructor
          · rintro (inAfter | ⟨earlier, d, start, isSome, inAfter⟩)
            · exact .inl inAfter
            · cases isSome
              exact .inr inAfter
          · rintro (inAfter | inAfter)
            · exact .inl inAfter
            · exact .inr ⟨after, c, rest, rfl, inAfter⟩
        · unfold measure
          rw [isToks]
          apply Prod.Lex.left
          show after.length < _
          cases isStar : st.star with
          | none =>
            show after.length < after.length + 1 + 1
            omega
          | some star =>
            obtain ⟨passed, taken, isPassed, _⟩ := since star.1 star.2 isStar
            show after.length < star.1.length
            rw [isPassed, isToks, List.length_append, List.length_cons]
            omega

theorem run_right (since : st.Since) :
    ∃ answer, (∃ enough, ∀ fuel, enough ≤ fuel → run fuel st = some answer) ∧
      (answer = true ↔ st.Accepts) := by
  induction isMeasure : st.measure using WellFoundedLT.induction generalizing st with
  | ind m ih =>
    subst isMeasure
    have right := step_right since
    cases isStep : st.step with
    | inr answer =>
      rw [isStep] at right
      refine ⟨answer, ⟨1, ?_⟩, right⟩
      intro fuel enough
      obtain ⟨fuel, rfl⟩ := Nat.exists_eq_add_of_le' enough
      rw [run, isStep]
    | inl next =>
      rw [isStep] at right
      have keeps : Keeps st next := right
      obtain ⟨answer, ⟨enough, isAnswer⟩, exact'⟩ := ih next.measure keeps.measure keeps.since rfl
      refine ⟨answer, ⟨enough + 1, ?_⟩, exact'.trans keeps.accepts⟩
      intro fuel atLeast
      obtain ⟨fuel, rfl⟩ := Nat.exists_eq_add_of_le' (Nat.le_trans (Nat.le_add_left 1 enough) atLeast)
      rw [run, isStep]
      exact isAnswer fuel (by omega)

end Search

/-- `LIKE` decides the language of the pattern. -/
theorem mysqlLike_exact (lower : String → String) (s pattern : String) (esc : Option Char) :
    ∃ answer,
      (∃ enough, ∀ fuel, enough ≤ fuel → mysqlLike lower s pattern esc fuel = some answer) ∧
      (answer = true ↔ Denotes (esc.map Char.toLower) (lower pattern).toList (lower s).toList) := by
  have since : Search.Since
      { text := (lower s).toList
        toks := tokens (esc.map Char.toLower) (lower pattern).toList
        star := none } := by
    intro after start isSome
    cases isSome
  obtain ⟨answer, isAnswer, accepts⟩ := Search.run_right since
  refine ⟨answer, isAnswer, accepts.trans ?_⟩
  rw [← inLanguage_tokens_iff]
  constructor
  · rintro (inLanguage | ⟨after, c, start, isSome, _⟩)
    · exact inLanguage
    · cases isSome
  · exact .inl

/-- `%` takes the first `b` too. -/
example : mysqlLike id "abba" "a%b_" (some '\\') 20 = some true := by decide

end NoidaDb.MySql.Like
