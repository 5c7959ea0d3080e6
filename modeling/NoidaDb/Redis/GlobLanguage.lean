/-
What a glob pattern stands for, and that the matcher decides it.

The matcher gives up a search once the rest of the pattern matches at no end of the string.
-/

import NoidaDb.Lib.Languages
import NoidaDb.Redis.Glob
import Mathlib.Data.List.DropRight

namespace NoidaDb.Redis.Glob

open Lib

def fold (nocase : Bool) (b : UInt8) : UInt8 := if nocase then toAsciiLower b else b

inductive Member where
  | byte (b : UInt8)
  /-- After a backslash: its case always matters. -/
  | exact (b : UInt8)
  /-- In either order; the ends are put in order before their case is dropped. -/
  | range (a z : UInt8)

def Member.Has (nocase : Bool) (c : UInt8) : Member → Prop
  | .byte b => fold nocase b = fold nocase c
  | .exact b => b = c
  | .range a z =>
    (a ≤ z ∧ fold nocase a ≤ fold nocase c ∧ fold nocase c ≤ fold nocase z) ∨
      (z ≤ a ∧ fold nocase z ≤ fold nocase c ∧ fold nocase c ≤ fold nocase a)

/-- The members of a class from here on, and what follows the class.  The end of the pattern
ends the class too. -/
inductive Members : Bytes → List Member → Bytes → Prop
  | stop : Members [] [] []
  | close (rest : Bytes) : Members (closeClass :: rest) [] rest
  | escaped (b : UInt8) {pattern rest : Bytes} {members : List Member}
      (after : Members pattern members rest) :
      Members (backslash :: b :: pattern) (.exact b :: members) rest
  | range {a : UInt8} (z : UInt8) {pattern rest : Bytes} {members : List Member}
      (notEscape : a ≠ backslash) (notClose : a ≠ closeClass)
      (after : Members pattern members rest) :
      Members (a :: dash :: z :: pattern) (.range a z :: members) rest
  | byte {b : UInt8} {pattern rest : Bytes} {members : List Member}
      (notEscape : b = backslash → pattern = []) (notClose : b ≠ closeClass)
      (notRange : ∀ z more, pattern ≠ dash :: z :: more)
      (after : Members pattern members rest) :
      Members (b :: pattern) (.byte b :: members) rest

inductive Denotes (nocase : Bool) : Bytes → Bytes → Prop
  | nil : Denotes nocase [] []
  | run {pattern s : Bytes} (run : Bytes) (rest : Denotes nocase pattern s) :
      Denotes nocase (star :: pattern) (run ++ s)
  | one {pattern s : Bytes} (c : UInt8) (rest : Denotes nocase pattern s) :
      Denotes nocase (question :: pattern) (c :: s)
  | listed {pattern after s : Bytes} {members : List Member} {c : UInt8}
      (notNegated : pattern.head? ≠ some caret) (reads : Members pattern members after)
      (has : ∃ m ∈ members, m.Has nocase c) (rest : Denotes nocase after s) :
      Denotes nocase (openClass :: pattern) (c :: s)
  | unlisted {pattern after s : Bytes} {members : List Member} {c : UInt8}
      (reads : Members pattern members after) (hasNone : ∀ m ∈ members, ¬m.Has nocase c)
      (rest : Denotes nocase after s) : Denotes nocase (openClass :: caret :: pattern) (c :: s)
  | escaped {pattern s : Bytes} {b c : UInt8} (same : fold nocase b = fold nocase c)
      (rest : Denotes nocase pattern s) : Denotes nocase (backslash :: b :: pattern) (c :: s)
  | itself {pattern s : Bytes} {b c : UInt8} (notStar : b ≠ star) (notOne : b ≠ question)
      (notClass : b ≠ openClass) (notEscape : b = backslash → pattern = [])
      (same : fold nocase b = fold nocase c) (rest : Denotes nocase pattern s) :
      Denotes nocase (b :: pattern) (c :: s)

/-- The number of runs of `*` in a pattern. -/
def starRuns : Bytes → Nat
  | [] => 0
  | b :: rest => (if b = star ∧ rest.head? ≠ some star then 1 else 0) + starRuns rest

theorem eq_iff (a b : UInt8) (nocase : Bool) :
    eq a b nocase = true ↔ fold nocase a = fold nocase b := by
  unfold eq fold
  cases nocase <;> simp

theorem inRange_iff (a z c : UInt8) (nocase : Bool) :
    inRange a z c nocase = true ↔ (Member.range a z).Has nocase c := by
  have between : inRange a z c nocase = true ↔
      fold nocase (if z < a then z else a) ≤ fold nocase c ∧
        fold nocase c ≤ fold nocase (if z < a then a else z) := by
    unfold inRange fold
    cases nocase <;> simp
  rw [between]
  unfold Member.Has
  simp only [UInt8.le_iff_toNat_le]
  by_cases swapped : z < a
  · rw [if_pos swapped, if_pos swapped]
    have order := UInt8.lt_iff_toNat_lt.mp swapped
    omega
  · rw [if_neg swapped, if_neg swapped]
    have order : a.toNat ≤ z.toNat := not_lt.mp (fun less => swapped (UInt8.lt_iff_toNat_lt.mpr less))
    by_cases same : a = z
    · rw [same]
      omega
    · have different : a.toNat ≠ z.toNat := fun equal => same (UInt8.toNat_inj.mp equal)
      omega

variable {nocase : Bool} {pattern rest s : Bytes} {c : UInt8} {fuel nesting : Nat}

theorem members_suffix {after : Bytes} {members : List Member}
    (reads : Members pattern members after) : after <:+ pattern := by
  induction reads with
  | stop => exact List.suffix_rfl
  | close rest => exact List.suffix_cons _ _
  | escaped b _ ih => exact ih.trans ((List.suffix_cons _ _).trans (List.suffix_cons _ _))
  | range z _ _ _ ih =>
    exact ih.trans ((List.suffix_cons _ _).trans
      ((List.suffix_cons _ _).trans (List.suffix_cons _ _)))
  | byte _ _ _ _ ih => exact ih.trans (List.suffix_cons _ _)

theorem members_unique {after after' : Bytes} {members members' : List Member}
    (reads : Members pattern members after) (reads' : Members pattern members' after') :
    members = members' ∧ after = after' := by
  induction reads generalizing members' after' with
  | stop =>
    cases reads'
    exact ⟨rfl, rfl⟩
  | close rest =>
    cases reads' with
    | close => exact ⟨rfl, rfl⟩
    | range _ _ notClose _ => exact absurd rfl notClose
    | byte _ notClose _ _ => exact absurd rfl notClose
  | escaped b _ ih =>
    cases reads' with
    | escaped _ after =>
      obtain ⟨rfl, rfl⟩ := ih after
      exact ⟨rfl, rfl⟩
    | range _ notEscape _ _ => exact absurd rfl notEscape
    | byte notEscape _ _ _ => cases notEscape rfl
  | range z notEscape notClose _ ih =>
    cases reads' with
    | close => exact absurd rfl notClose
    | escaped => exact absurd rfl notEscape
    | range _ _ _ after =>
      obtain ⟨rfl, rfl⟩ := ih after
      exact ⟨rfl, rfl⟩
    | byte _ _ notRange _ => exact absurd rfl (notRange _ _)
  | byte notEscape notClose notRange _ ih =>
    cases reads' with
    | close => exact absurd rfl notClose
    | escaped => cases notEscape rfl
    | range => exact absurd rfl (notRange _ _)
    | byte _ _ _ after =>
      obtain ⟨rfl, rfl⟩ := ih after
      exact ⟨rfl, rfl⟩

theorem found_cons {found matched this : Bool} {m : Member} {members : List Member}
    (isThis : this = true ↔ m.Has nocase c)
    (isFound : found = true ↔ (matched || this) = true ∨ ∃ m ∈ members, m.Has nocase c) :
    found = true ↔ matched = true ∨ ∃ m' ∈ m :: members, m'.Has nocase c := by
  rw [isFound, Bool.or_eq_true, isThis, or_assoc, List.exists_mem_cons_iff]

theorem classMembers_spec (nocase : Bool) (c : UInt8) (pattern : Bytes) (matched : Bool) :
    ∃ members, Members pattern members (classMembers nocase c pattern matched).2 ∧
      ((classMembers nocase c pattern matched).1 = true ↔
        matched = true ∨ ∃ m ∈ members, m.Has nocase c) := by
  have isExact (b : UInt8) : (b == c) = true ↔ (Member.exact b).Has nocase c := beq_iff_eq
  fun_induction classMembers nocase c pattern matched with
  | case1 matched => exact ⟨[], .stop, by simp⟩
  | case2 x matched =>
    by_cases isClose : x = closeClass
    · subst isClose
      exact ⟨[], .close [], by simp⟩
    · rw [if_neg isClose]
      refine ⟨[.byte x], .byte (fun _ => rfl) isClose (by simp) .stop, ?_⟩
      exact found_cons (eq_iff x c nocase) (by simp)
  | case3 y matched => exact ⟨[.exact y], .escaped y .stop, found_cons (isExact y) (by simp)⟩
  | case4 y matched _ => exact ⟨[], .close [y], by simp⟩
  | case5 x y matched notEscape notClose ih =>
    obtain ⟨members, reads, isFound⟩ := ih
    exact ⟨.byte x :: members,
      .byte (fun isEscape => absurd isEscape notEscape) notClose (by simp) reads,
      found_cons (eq_iff x c nocase) isFound⟩
  | case6 y z rest matched ih =>
    obtain ⟨members, reads, isFound⟩ := ih
    exact ⟨.exact y :: members, .escaped y reads, found_cons (isExact y) isFound⟩
  | case7 y z rest matched _ => exact ⟨[], .close (y :: z :: rest), by simp⟩
  | case8 x z rest matched notEscape notClose ih =>
    obtain ⟨members, reads, isFound⟩ := ih
    exact ⟨.range x z :: members, .range z notEscape notClose reads,
      found_cons (inRange_iff x z c nocase) isFound⟩
  | case9 x y z rest matched notEscape notClose notDash ih =>
    obtain ⟨members, reads, isFound⟩ := ih
    have notRange : ∀ z' more, y :: z :: rest ≠ dash :: z' :: more := by
      intro z' more isRange
      exact notDash (List.cons.inj isRange).1
    exact ⟨.byte x :: members,
      .byte (fun isEscape => absurd isEscape notEscape) notClose notRange reads,
      found_cons (eq_iff x c nocase) isFound⟩

section Steps

variable {nocase : Bool}

theorem denotes_star_iff (pattern s : Bytes) :
    Denotes nocase (star :: pattern) s ↔ AfterRun (Denotes nocase pattern) s := by
  constructor
  · intro denotes
    cases denotes with
    | run run rest => exact ⟨_, List.suffix_append run _, rest⟩
    | itself notStar _ _ _ _ _ => exact absurd rfl notStar
  · rintro ⟨t, ⟨run, rfl⟩, rest⟩
    exact .run run rest

theorem denotes_stars_iff (pattern s : Bytes) :
    Denotes nocase (star :: pattern) s ↔
      AfterRun (Denotes nocase (pattern.dropWhile (fun x => x == star))) s := by
  induction pattern generalizing s with
  | nil => exact denotes_star_iff [] s
  | cons b pattern ih =>
    by_cases isStar : b = star
    · subst isStar
      rw [List.dropWhile_cons_of_pos (by simp), ← ih, denotes_star_iff]
      constructor
      · rintro ⟨t, suffix, inner⟩
        obtain ⟨u, deeper, rest⟩ := (denotes_star_iff pattern t).mp inner
        exact (denotes_star_iff pattern s).mpr ⟨u, deeper.trans suffix, rest⟩
      · intro whole
        exact ⟨s, List.suffix_rfl, whole⟩
    · rw [List.dropWhile_cons_of_neg (by simpa using isStar)]
      exact denotes_star_iff (b :: pattern) s

theorem denotes_empty_iff (pattern : Bytes) :
    Denotes nocase pattern [] ↔ pattern.dropWhile (fun x => x == star) = [] := by
  induction pattern with
  | nil => exact ⟨fun _ => rfl, fun _ => .nil⟩
  | cons b pattern ih =>
    by_cases isStar : b = star
    · subst isStar
      rw [List.dropWhile_cons_of_pos (by simp), ← ih, denotes_star_iff]
      constructor
      · rintro ⟨t, suffix, rest⟩
        rw [List.suffix_nil.mp suffix] at rest
        exact rest
      · intro rest
        exact ⟨[], List.suffix_rfl, rest⟩
    · rw [List.dropWhile_cons_of_neg (by simpa using isStar)]
      constructor
      · intro denotes
        generalize isEmpty : ([] : Bytes) = t at denotes
        cases denotes with
        | run run rest => exact absurd rfl isStar
        | _ => cases isEmpty
      · intro isNil
        cases isNil

theorem takesOne_question (pattern : Bytes) :
    TakesOne (Denotes nocase (question :: pattern)) (fun _ => True) (Denotes nocase pattern) where
  nil := by
    intro denotes
    cases denotes
  cons := by
    intro c s
    constructor
    · intro denotes
      cases denotes with
      | one _ rest => exact ⟨trivial, rest⟩
      | itself _ notOne _ _ _ _ => exact absurd rfl notOne
    · rintro ⟨_, rest⟩
      exact .one c rest

theorem takesOne_listed {pattern after : Bytes} {members : List Member}
    (notNegated : pattern.head? ≠ some caret) (reads : Members pattern members after) :
    TakesOne (Denotes nocase (openClass :: pattern)) (fun c => ∃ m ∈ members, m.Has nocase c)
      (Denotes nocase after) where
  nil := by
    intro denotes
    cases denotes
  cons := by
    intro c s
    constructor
    · intro denotes
      cases denotes with
      | listed _ reads' has rest =>
        obtain ⟨rfl, rfl⟩ := members_unique reads reads'
        exact ⟨has, rest⟩
      | unlisted _ _ _ => exact absurd rfl notNegated
      | itself _ _ notClass _ _ _ => exact absurd rfl notClass
    · rintro ⟨has, rest⟩
      exact .listed notNegated reads has rest

theorem takesOne_unlisted {pattern after : Bytes} {members : List Member}
    (reads : Members pattern members after) :
    TakesOne (Denotes nocase (openClass :: caret :: pattern))
      (fun c => ¬∃ m ∈ members, m.Has nocase c) (Denotes nocase after) where
  nil := by
    intro denotes
    cases denotes
  cons := by
    intro c s
    constructor
    · intro denotes
      cases denotes with
      | listed notNegated _ _ _ => exact absurd rfl notNegated
      | unlisted reads' hasNone rest =>
        obtain ⟨rfl, rfl⟩ := members_unique reads reads'
        refine ⟨?_, rest⟩
        rintro ⟨m, member, has⟩
        exact hasNone m member has
      | itself _ _ notClass _ _ _ => exact absurd rfl notClass
    · rintro ⟨hasNone, rest⟩
      exact .unlisted reads (fun m member has => hasNone ⟨m, member, has⟩) rest

theorem takesOne_escaped (b : UInt8) (pattern : Bytes) :
    TakesOne (Denotes nocase (backslash :: b :: pattern)) (fun c => fold nocase b = fold nocase c)
      (Denotes nocase pattern) where
  nil := by
    intro denotes
    cases denotes
  cons := by
    intro c s
    constructor
    · intro denotes
      cases denotes with
      | escaped same rest => exact ⟨same, rest⟩
      | itself _ _ _ notEscape _ _ => cases notEscape rfl
    · rintro ⟨same, rest⟩
      exact .escaped same rest

theorem takesOne_itself {b : UInt8} {pattern : Bytes} (notStar : b ≠ star) (notOne : b ≠ question)
    (notClass : b ≠ openClass) (notEscape : b = backslash → pattern = []) :
    TakesOne (Denotes nocase (b :: pattern)) (fun c => fold nocase b = fold nocase c)
      (Denotes nocase pattern) where
  nil := by
    intro denotes
    generalize isEmpty : ([] : Bytes) = t at denotes
    cases denotes with
    | run run rest => exact absurd rfl notStar
    | _ => cases isEmpty
  cons := by
    intro c s
    constructor
    · intro denotes
      generalize isString : c :: s = t at denotes
      cases denotes with
      | run run rest => exact absurd rfl notStar
      | one _ _ => exact absurd rfl notOne
      | listed _ _ _ _ => exact absurd rfl notClass
      | unlisted _ _ _ => exact absurd rfl notClass
      | escaped _ _ => cases notEscape rfl
      | itself _ _ _ _ same rest =>
        obtain ⟨rfl, rfl⟩ := List.cons.inj isString
        exact ⟨same, rest⟩
    · rintro ⟨same, rest⟩
      exact .itself notStar notOne notClass notEscape same rest

end Steps

theorem starRuns_suffix {after : Bytes} (suffix : after <:+ pattern) :
    starRuns after ≤ starRuns pattern := by
  obtain ⟨before, rfl⟩ := suffix
  induction before with
  | nil => exact Nat.le_refl _
  | cons b before ih => exact ih.trans (Nat.le_add_left _ _)

theorem starRuns_stars (pattern : Bytes) :
    starRuns (star :: pattern) = 1 + starRuns (pattern.dropWhile (fun x => x == star)) := by
  induction pattern with
  | nil => rfl
  | cons b pattern ih =>
    by_cases isStar : b = star
    · subst isStar
      rw [List.dropWhile_cons_of_pos (by simp), ← ih]
      simp [starRuns]
    · rw [List.dropWhile_cons_of_neg (by simpa using isStar)]
      simp [starRuns, isStar]

theorem firstSuffix_tells {L : Bytes → Prop} (notEmpty : ¬L []) {f : Bytes → Bool → Bool × Bool}
    (s : Bytes) (each : ∀ c t, c :: t <:+ s → Tells L (c :: t) (f (c :: t) false)) :
    Tells (AfterRun L) s (firstSuffix f s false) := by
  induction s with
  | nil =>
    have barren : Barren L [] := by
      intro t suffix inL
      rw [List.suffix_nil.mp suffix] at inL
      exact notEmpty inL
    exact ⟨by simp [firstSuffix, not_afterRun_iff.mpr barren], fun _ _ => barren.afterRun⟩
  | cons c s ih =>
    have first := each c s List.suffix_rfl
    have later := ih (fun d t suffix => each d t (suffix.trans (List.suffix_cons c s)))
    unfold firstSuffix
    generalize f (c :: s) false = result at first
    obtain ⟨found, gaveUp⟩ := result
    cases found with
    | true =>
      have inL : L (c :: s) := first.answer.mp rfl
      exact ⟨by simp [afterRun_cons_iff, inL], by simp⟩
    | false =>
      have notHere : ¬L (c :: s) := fun inL => Bool.false_ne_true (first.answer.mpr inL)
      cases gaveUp with
      | true =>
        have barren := first.barren rfl rfl
        exact ⟨by simp [not_afterRun_iff.mpr barren], fun _ _ => barren.afterRun⟩
      | false =>
        refine ⟨?_, ?_⟩
        · rw [afterRun_cons_iff, or_iff_right notHere]
          exact later.answer
        · intro notFound gaveUp
          rw [barren_cons_iff, afterRun_cons_iff]
          have barren := later.barren notFound gaveUp
          exact ⟨fun inside => inside.elim notHere (barren s List.suffix_rfl), barren⟩

def following (nocase : Bool) (fuel nesting : Nat) (rest s : Bytes) : Bool × Bool :=
  if s.isEmpty then ((rest.dropWhile (fun x => x == star)).isEmpty, false)
  else matchAt nocase fuel rest s false nesting

theorem following_tells (tells : ∀ c s, Tells (Denotes nocase rest) (c :: s)
      (matchAt nocase fuel rest (c :: s) false nesting)) (s : Bytes) :
    Tells (Denotes nocase rest) s (following nocase fuel nesting rest s) := by
  unfold following
  cases s with
  | nil => exact ⟨by simp [denotes_empty_iff], by simp⟩
  | cons c s => exact tells c s

theorem matchAt_nil (nocase : Bool) (fuel nesting : Nat) (c : UInt8) (s : Bytes) :
    Tells (Denotes nocase []) (c :: s) (matchAt nocase fuel [] (c :: s) false nesting) := by
  have isFalse : matchAt nocase fuel [] (c :: s) false nesting = (false, false) := by
    cases fuel <;> rfl
  rw [isFalse]
  refine ⟨?_, by simp⟩
  constructor
  · intro isTrue
    cases isTrue
  · intro denotes
    cases denotes

/-- A `*`, as far as the rest of the pattern is searched for at every end of the string. -/
theorem star_tells (shallow : nesting < 1000)
    (each : ∀ d t, Tells (Denotes nocase (rest.dropWhile (fun x => x == star))) (d :: t)
      (matchAt nocase fuel (rest.dropWhile (fun x => x == star)) (d :: t) false (nesting + 1))) :
    Tells (Denotes nocase (star :: rest)) (c :: s)
      (matchAt nocase (fuel + 1) (star :: rest) (c :: s) false nesting) := by
  have language : Denotes nocase (star :: rest) =
      AfterRun (Denotes nocase (rest.dropWhile (fun x => x == star))) :=
    funext (fun t => propext (denotes_stars_iff rest t))
  have step : matchAt nocase (fuel + 1) (star :: rest) (c :: s) false nesting =
      if (rest.dropWhile (fun x => x == star)).isEmpty then (true, false)
      else firstSuffix
        (fun suffix skip =>
          if 1000 < nesting + 1 then (false, skip)
          else matchAt nocase fuel (rest.dropWhile (fun x => x == star)) suffix skip (nesting + 1))
        (c :: s) false := rfl
  have notStar : (rest.dropWhile (fun x => x == star)).dropWhile (fun x => x == star) =
      rest.dropWhile (fun x => x == star) := List.dropWhile_idempotent _ rest
  rw [language, step]
  generalize rest.dropWhile (fun x => x == star) = after at each notStar
  cases after with
  | nil =>
    have whole : AfterRun (Denotes nocase []) (c :: s) := ⟨[], List.nil_suffix, .nil⟩
    exact ⟨by simp [whole], by simp⟩
  | cons d after =>
    rw [if_neg (by simp)]
    apply firstSuffix_tells
    · rw [denotes_empty_iff, notStar]
      exact List.cons_ne_nil d after
    · intro d t _
      rw [if_neg (by omega)]
      exact each d t

theorem class_tells (follows : ∀ after, after <:+ rest →
      Tells (Denotes nocase after) s (following nocase fuel nesting after s)) :
    Tells (Denotes nocase (openClass :: rest)) (c :: s)
      (matchAt nocase (fuel + 1) (openClass :: rest) (c :: s) false nesting) := by
  have step : matchAt nocase (fuel + 1) (openClass :: rest) (c :: s) false nesting =
      if (classMembers nocase c (if (rest.head? == some caret) = true then rest.tail else rest)
          false).1 = (rest.head? == some caret) then (false, false)
      else following nocase fuel nesting
        (classMembers nocase c (if (rest.head? == some caret) = true then rest.tail else rest)
          false).2 s := by
    show (if (_ == _) = true then _ else _) = _
    simp only [beq_iff_eq]
    rfl
  rw [step]
  by_cases negated : rest.head? = some caret
  · obtain ⟨pattern, rfl⟩ : ∃ pattern, rest = caret :: pattern := by
      cases rest with
      | nil => cases negated
      | cons b pattern => exact ⟨pattern, by rw [Option.some.inj negated]⟩
    obtain ⟨members, reads, isFound⟩ := classMembers_spec nocase c pattern false
    have one := @takesOne_unlisted nocase _ _ _ reads
    have isNegated : ((caret :: pattern).head? == some caret) = true := by simp
    rw [isNegated, if_pos rfl, List.tail_cons]
    simp only [Bool.false_eq_true, false_or] at isFound
    by_cases found : (classMembers nocase c pattern false).1 = true
    · rw [if_pos found]
      exact one.refuses (not_not_intro (isFound.mp found))
    · rw [if_neg found]
      exact one.tells (fun has => found (isFound.mpr has))
        (follows _ ((members_suffix reads).trans (List.suffix_cons caret pattern)))
  · obtain ⟨members, reads, isFound⟩ := classMembers_spec nocase c rest false
    have one := @takesOne_listed nocase _ _ _ negated reads
    have notNegated : (rest.head? == some caret) = false := by simpa using negated
    rw [notNegated, if_neg Bool.false_ne_true]
    simp only [Bool.false_eq_true, false_or] at isFound
    by_cases found : (classMembers nocase c rest false).1 = true
    · rw [if_neg (by simp [found])]
      exact one.tells (isFound.mp found) (follows _ (members_suffix reads))
    · rw [if_pos (by simpa using found)]
      exact one.refuses (fun has => found (isFound.mpr has))

theorem byte_tells {b : UInt8}
    (one : TakesOne (Denotes nocase pattern) (fun c => fold nocase b = fold nocase c)
      (Denotes nocase rest))
    (follows : Tells (Denotes nocase rest) s (following nocase fuel nesting rest s)) :
    Tells (Denotes nocase pattern) (c :: s)
      (if eq b c nocase then following nocase fuel nesting rest s else (false, false)) := by
  by_cases same : eq b c nocase = true
  · rw [if_pos same]
    exact one.tells ((eq_iff b c nocase).mp same) follows
  · rw [if_neg same]
    exact one.refuses (fun equal => same ((eq_iff b c nocase).mpr equal))

theorem matchAt_tells (nocase : Bool) (fuel nesting : Nat) (pattern : Bytes)
    (enough : pattern.length < fuel) (few : nesting + starRuns pattern ≤ 1000) (c : UInt8)
    (s : Bytes) :
    Tells (Denotes nocase pattern) (c :: s)
      (matchAt nocase fuel pattern (c :: s) false nesting) := by
  induction fuel generalizing nesting pattern c s with
  | zero => exact absurd enough (Nat.not_lt_zero _)
  | succ fuel ih =>
    cases pattern with
    | nil => exact matchAt_nil nocase _ nesting c s
    | cons p rest =>
      simp only [List.length_cons] at enough
      have follows (after : Bytes) (suffix : after <:+ rest) :
          Tells (Denotes nocase after) s (following nocase fuel nesting after s) := by
        apply following_tells
        intro d t
        have shorter := suffix.length_le
        have fewer := starRuns_suffix (suffix.trans (List.suffix_cons p rest))
        exact ih nesting after (by omega) (by omega) d t
      by_cases isStar : p = star
      · subst isStar
        rw [starRuns_stars] at few
        have shorter := (List.dropWhile_suffix (l := rest) (fun x => x == star)).length_le
        apply star_tells (by omega)
        intro d t
        exact ih (nesting + 1) _ (by omega) (by omega) d t
      · by_cases isOne : p = question
        · subst isOne
          exact (takesOne_question rest).tells trivial (follows rest List.suffix_rfl)
        · by_cases isClass : p = openClass
          · subst isClass
            exact class_tells follows
          · by_cases isEscape : p = backslash
            · subst isEscape
              cases rest with
              | nil =>
                have one := @takesOne_itself nocase _ [] isStar isOne isClass (fun _ => rfl)
                exact byte_tells one (follows [] List.suffix_rfl)
              | cons b rest =>
                exact byte_tells (takesOne_escaped b rest)
                  (follows rest (List.suffix_cons b rest))
            · have step : matchAt nocase (fuel + 1) (p :: rest) (c :: s) false nesting =
                  if eq p c nocase then following nocase fuel nesting rest s
                  else (false, false) := by
                simp only [matchAt, if_neg isStar, if_neg isOne, if_neg isClass, if_neg isEscape]
                rfl
              rw [step]
              exact byte_tells
                (takesOne_itself isStar isOne isClass (fun escape => absurd escape isEscape))
                (follows rest List.suffix_rfl)

/-- A string is matched exactly where the pattern stands for it; the empty one only by the empty
pattern. -/
theorem globMatches_exact (pattern s : Bytes) (nocase : Bool) (few : starRuns pattern ≤ 1000) :
    globMatches pattern s nocase = true ↔
      if s = [] then pattern = [] else Denotes nocase pattern s := by
  unfold globMatches
  cases s with
  | nil =>
    rw [if_pos rfl]
    cases pattern with
    | nil => exact ⟨fun _ => rfl, fun _ => rfl⟩
    | cons p rest =>
      constructor
      · intro found
        cases found
      · intro isNil
        cases isNil
  | cons c s =>
    rw [if_neg (List.cons_ne_nil c s)]
    exact (matchAt_tells nocase (pattern.length + 1) 0 pattern (Nat.lt_succ_self _)
      (by omega) c s).answer

theorem globMatches_exact_hello :
    Denotes false (ascii "h*[^a-c]") (ascii "hello") ∧
      ¬Denotes true (ascii "H*[^O-A]") (ascii "hello") := by
  constructor
  · have found := globMatches_exact (ascii "h*[^a-c]") (ascii "hello") false (by decide)
    rw [if_neg (by decide)] at found
    exact found.mp (by decide)
  · have found := globMatches_exact (ascii "H*[^O-A]") (ascii "hello") true (by decide)
    rw [if_neg (by decide)] at found
    intro denotes
    exact absurd (found.mpr denotes) (by decide)

end NoidaDb.Redis.Glob
