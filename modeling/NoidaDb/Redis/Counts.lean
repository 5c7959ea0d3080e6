/-
Counts that clients choose: where the positions of the arguments hold, and where they do not.
-/

import NoidaDb.Redis.ArgumentReads
import NoidaDb.Redis.ReadEffects

namespace NoidaDb.Redis

open Lib Lib.Run

namespace Positions

variable {build : Build} {a : Args}

variable {j i n : Nat} {α W : Type} {args : ScanArgs} {b : Bytes} {big : Bool}

theorem count_small (within : n ≤ a.length + 3) : n < 2 ^ 64 := by
  have := a.fits
  unfold Args.length at within
  omega

theorem ends_position (within : n ≤ a.length + 3) :
    Ends (fun m => m = n) (position build n : Run Value Nat) := by
  rw [position_eq n (count_small within)]
  exact .ok rfl

theorem ends_rest (within : n ≤ a.length) :
    Ends (fun m => m = a.length - n) (position build ((a.length : Int) - n) : Run Value Nat) := by
  rw [position_sub within (count_small (a := a) (by omega))]
  exact .ok rfl

theorem ends_at (within : i < a.length) :
    Ends (fun _ => True) (item a.items i : Run Value Bytes) := ends_item within

theorem ends_slice (ordered : i ≤ j) (within : j ≤ a.length) :
    Ends (fun xs => xs.length = j - i) (slice a.items i j : Run Value (List Bytes)) := by
  rw [slice_eq ordered within]
  unfold Args.length at within
  apply Ends.ok
  rw [List.length_drop, List.length_take]
  omega

theorem ends_given (r : Except Value α) : Ends (fun _ => True) (answered r) :=
  (ends_answered r).weaken (fun _ _ => trivial)

theorem ends_refused (P : α → Prop) (message : String) :
    Ends P (answered (fail message)) := ends_refuse _

theorem ends_followed (within : j < a.length) :
    Ends (fun b => b = true → j + 1 < a.length) (followed build a j) := by
  apply (ends_position (a := a) (by omega)).bind
  intro n same
  apply Ends.ok
  intro isTrue
  rw [same] at isTrue
  exact of_decide_eq_true isTrue

theorem ends_isWord (within : j < a.length) (word : String) :
    Ends (fun b => b = true → True) (isWord a j word) :=
  (ends_at within).bind (fun _ _ => .ok (fun _ => trivial))

theorem ends_named (within : j < a.length) (word : String) {c : Bool} {S : Prop}
    (told : c = true → S) : Ends (fun b => b = true → S ∧ True) (both (.ok c) (isWord a j word)) :=
  Ends.both (.ok told) (fun _ => ends_isWord within word)

theorem ends_forward {σ : Type} {s : σ} (forward : i < j) (within : j ≤ a.length + 3) :
    Ends (fun r => i < r.2 ∧ True)
      (do .ok (s, ← position build j) : Run Value (σ × Nat)) := by
  apply (ends_position (a := a) within).bind
  intro n same
  rw [same]
  exact .ok ⟨forward, trivial⟩

theorem ends_options {σ : Type} {step : σ → Nat → Run Value (σ × Nat)} {s : σ}
    (round : ∀ s j, j < a.length → Ends (fun r => j < r.2 ∧ True) (step s j)) :
    Ends (fun _ => True) (loop a.length step a.length s j) :=
  (ends_loop (fun _ _ => True) (fun s j more _ => round s j more) a.length s j trivial
    (by omega)).weaken (fun _ _ => trivial)

theorem ends_countOption (count : Option Int) (more : j < a.length) :
    Ends (fun r => j < r.2 ∧ True) (countOption build a count j) := by
  have counts : Ends (fun b => b = true → True ∧ True ∧ j + 1 < a.length)
      (both (.ok count.isNone) (both (isWord a j "count") (followed build a j))) :=
    Ends.both (.ok (fun _ => trivial))
      (fun _ => Ends.both (ends_isWord more "count") (fun _ => ends_followed more))
  apply counts.bind
  intro b told
  apply Ends.ite
  · intro isTrue
    have next := (told isTrue).2.2
    apply (ends_position (a := a) (by omega)).bind
    rintro i rfl
    apply (ends_at next).bind
    intro raw _
    apply (ends_given _).bind
    intro n _
    exact ends_forward (a := a) (by omega) (by omega)
  · exact fun _ => ends_refused _ _

theorem item_arg (within : i < a.length) :
    (item a.items i : Run Value Bytes) = .ok (arg a.items i) := by
  rw [item_eq within]
  unfold arg
  rw [List.getD_eq_getElem?_getD, List.getElem?_eq_getElem within, Option.getD_some]

theorem parseInt_le {n : Int} (isNumber : parseInt b = some n) : n ≤ i64Max := by
  unfold parseInt at isNumber
  split at isNumber
  · cases isNumber
  · split at isNumber
    · cases isNumber
      decide
    · dsimp only at isNumber
      have spelled := (Option.ite_none_right_eq_some.mp isNumber).2
      obtain ⟨inRange, same⟩ := Option.ite_none_right_eq_some.mp spelled
      rw [← Option.some.inj same]
      exact inRange.2

theorem rangeLong_ok {min max n : Int} {message : String}
    (isOk : rangeLong b min max message = .ok n) : parseInt b = some n ∧ min ≤ n ∧ n ≤ max := by
  unfold rangeLong at isOk
  split at isOk
  · cases isOk
  · split at isOk
    · cases isOk
    · rename_i isNumber inRange
      cases isOk
      exact ⟨isNumber, by omega⟩

theorem rangeLong_eq {min max n : Int} {message : String} (isNumber : parseInt b = some n)
    (inRange : min ≤ n ∧ n ≤ max) : rangeLong b min max message = .ok n := by
  unfold rangeLong
  rw [isNumber]
  exact if_neg (by omega)

def NumkeysFit (a : Args) (i : Nat) : Prop :=
  ∀ n, parseInt (arg a.items i) = some n → i + n + 1 ≤ i64Max

theorem ends_mpopArgs (whereArg : Bytes → Except Value W) (within : i < a.length)
    (fit : NumkeysFit a i) : Ends (fun _ => True) (mpopArgs build whereArg a i) := by
  have bounded := a.fits
  have limit : i64Max = 9223372036854775807 := rfl
  unfold mpopArgs
  rw [item_arg within, ok_bind]
  apply (ends_answered _).bind
  intro n isOk
  obtain ⟨isNumber, positive, _⟩ := rangeLong_ok isOk
  have room := fit n isNumber
  rw [result_eq (i64_holds.mpr (by omega)), ok_bind, result_eq (i64_holds.mpr (by omega)), ok_bind]
  apply Ends.ite
  · exact fun _ => ends_refused _ _
  intro inside
  have same : usize.wrap ((i : Int) + n + 1) = i + n + 1 := by
    rw [IntType.usize_wrap]
    omega
  have isWhere : ((i : Int) + n + 1).toNat < a.length := by omega
  rw [same]
  apply (ends_at isWhere).bind
  intro raw _
  apply (ends_given _).bind
  intro way _
  apply (ends_position (a := a) (by omega)).bind
  rintro start rfl
  apply (ends_options (fun count j more => ends_countOption count more)).bind
  intro count _
  apply (ends_position (a := a) (by omega)).bind
  rintro first rfl
  apply (ends_slice (by omega) (by omega)).bind
  exact fun _ _ => .ok trivial

theorem mpopArgs_panics (whereArg : Bytes → Except Value W) (within : i < a.length)
    (beyond : ¬ NumkeysFit a i) : mpopArgs build whereArg a i = panic := by
  have bounded : a.length < 2 ^ 63 := a.fits
  have limit : i64Max = 9223372036854775807 := rfl
  unfold NumkeysFit at beyond
  push Not at beyond
  obtain ⟨n, isNumber, tooMany⟩ := beyond
  have most := parseInt_le isNumber
  unfold mpopArgs
  rw [item_arg within, ok_bind, rangeLong_eq isNumber ⟨by omega, most⟩]
  show (result build i64 (i + n) >>= _) = _
  cases build with
  | checked =>
    by_cases first : i64.Holds (i + n)
    · rw [result_eq first, ok_bind, result_panics (fun holds => by
        have := (i64_holds.mp holds).2
        omega)]
      rfl
    · rw [result_panics first]
      rfl
  | release =>
    rw [result_release, ok_bind, result_release, ok_bind]
    have wrapped : i64.wrap (i64.wrap (i + n) + 1) = i + n + 1 - 18446744073709551616 := by
      rw [IntType.i64_wrap, IntType.i64_wrap]
      omega
    have outside : a.length ≤ (usize.wrap (i + n + 1 - 18446744073709551616)).toNat := by
      rw [IntType.usize_wrap]
      omega
    rw [wrapped, if_neg (by omega)]
    dsimp only
    rw [item_panics outside]
    rfl

theorem mpopArgs_panics_iff (whereArg : Bytes → Except Value W) (within : i < a.length) :
    mpopArgs build whereArg a i = panic ↔ ¬ NumkeysFit a i :=
  ⟨fun panics fit => (ends_mpopArgs whereArg within fit).not_panic panics,
    mpopArgs_panics whereArg within⟩

theorem blocking_panics_iff {T : Type} (request : Run Value T) (r : Readings) (now : U64)
    (within : 1 < a.length) :
    (do .ok ((← request), ← timeoutArg r now a) : Run Value (T × Nat)) = panic ↔
      request = panic := by
  match request with
  | .error (.refused e) => exact ⟨nofun, nofun⟩
  | .error .panicked => exact ⟨fun _ => rfl, fun _ => rfl⟩
  | .ok t =>
    have ends : Ends (fun _ => True) (do .ok (t, ← timeoutArg r now a) : Run Value (T × Nat)) := by
      unfold timeoutArg
      rw [item_arg within, ok_bind]
      exact (ends_given _).bind (fun _ _ => .ok trivial)
    exact ⟨fun panics => absurd panics ends.not_panic, nofun⟩

theorem ends_takeWeights (r : Readings) :
    ∀ (n j : Nat), j + n ≤ a.length →
      Ends (fun taken => taken.2 = j + n) (takeWeights build r a n j)
  | 0, j, _ => .ok rfl
  | n + 1, j, within => by
      unfold takeWeights
      apply (ends_at (by omega)).bind
      intro raw _
      cases r.parseDouble raw with
      | none => exact ends_refused _ _
      | some w =>
        apply (ends_position (a := a) (by omega)).bind
        rintro next rfl
        apply (ends_takeWeights r n (j + 1) (by omega)).bind
        intro rest same
        apply Ends.ok
        show rest.2 = _
        omega

theorem ends_setOpOption (r : Readings) (op : SetOp) (stored cardOnly : Bool) (setnum : Nat)
    (args : SetOpArgs) (more : j < a.length) :
    Ends (fun next => j < next.2 ∧ True)
      (setOpOption build r op stored cardOnly setnum a args j) := by
  unfold setOpOption
  apply (ends_rest (by omega)).bind
  rintro remaining rfl
  apply (ends_named more "weights" (S := setnum < a.length - j) (fun both =>
    of_decide_eq_true (Bool.and_eq_true_iff.mp both).2)).bind
  intro weighted told
  apply Ends.ite
  · intro isTrue
    have room := (told isTrue).1
    apply (ends_position (a := a) (by omega)).bind
    rintro next rfl
    apply (ends_takeWeights r setnum (j + 1) (by omega)).bind
    intro taken same
    apply Ends.ok
    exact ⟨by omega, trivial⟩
  intro _
  apply (ends_named more "aggregate" (S := 2 ≤ a.length - j) (fun both =>
    of_decide_eq_true (Bool.and_eq_true_iff.mp both).2)).bind
  intro aggregated told
  apply Ends.ite
  · intro isTrue
    have room := (told isTrue).1
    apply (ends_position (a := a) (by omega)).bind
    rintro next rfl
    apply (ends_at (by omega)).bind
    intro raw _
    apply (ends_given _).bind
    intro aggregate _
    exact ends_forward (a := a) (by omega) (by omega)
  intro _
  apply (ends_named more "withscores" (S := True) (fun _ => trivial)).bind
  intro scored _
  apply Ends.ite
  · exact fun _ => ends_forward (a := a) (by omega) (by omega)
  intro _
  apply (ends_named more "limit" (S := 2 ≤ a.length - j) (fun both =>
    of_decide_eq_true (Bool.and_eq_true_iff.mp both).2)).bind
  intro limited told
  apply Ends.ite
  · intro isTrue
    have room := (told isTrue).1
    apply (ends_position (a := a) (by omega)).bind
    rintro next rfl
    apply (ends_at (by omega)).bind
    intro raw _
    apply (ends_given _).bind
    intro limit _
    apply (ends_position (a := a) (by omega)).bind
    rintro value rfl
    exact ends_forward (a := a) (by omega) (by omega)
  · exact fun _ => ends_refused _ _

theorem ends_zsetop (r : Readings) (ctx : Ctx) (db : Db) {idx : Nat} (op : SetOp)
    (stored cardOnly : Bool) (name : String) (within : idx < a.length) :
    Ends (fun _ => True) (zsetop build r ctx db idx op stored cardOnly name a) := by
  have bounded : a.length < 2 ^ 63 := a.fits
  unfold zsetop
  apply (ends_at within).bind
  intro raw _
  apply (ends_given _).bind
  intro setnum _
  apply Ends.ite
  · exact fun _ => ends_refused _ _
  intro positive
  apply (ends_rest (by omega)).bind
  rintro room rfl
  rw [position_sub (by omega) (by omega), ok_bind]
  apply Ends.ite
  · exact fun _ => ends_refused _ _
  intro enough
  apply (ends_position (a := a) (by omega)).bind
  rintro first rfl
  apply (ends_position (a := a) (by omega)).bind
  rintro stop rfl
  apply (ends_slice (by omega) (by omega)).bind
  intro keys _
  apply (ends_given _).bind
  intro srcs _
  apply (ends_options (fun args j more =>
    ends_setOpOption r op stored cardOnly setnum.toNat args more)).bind
  exact fun _ _ => .ok trivial

theorem ends_limitOption (limit : Nat) (more : j < a.length) :
    Ends (fun r => j < r.2 ∧ True) (limitOption build a limit j) := by
  apply (Ends.both (ends_isWord more "limit") (fun _ => ends_followed more)).bind
  intro limited told
  apply Ends.ite
  · intro isTrue
    have next := (told isTrue).2
    apply (ends_position (a := a) (by omega)).bind
    rintro i rfl
    apply (ends_at next).bind
    intro raw _
    apply (ends_given _).bind
    intro n _
    exact ends_forward (a := a) (by omega) (by omega)
  · exact fun _ => ends_refused _ _

theorem ends_sintercard (within : 1 < a.length) :
    Ends (fun _ => True) (sintercard build a) := by
  have bounded : a.length < 2 ^ 63 := a.fits
  unfold sintercard
  apply (ends_at within).bind
  intro raw _
  apply (ends_answered _).bind
  intro numkeys isOk
  have positive := (rangeLong_ok isOk).2.1
  rw [result_eq (i64_holds.mpr (by omega)), ok_bind]
  apply Ends.ite
  · exact fun _ => ends_refused _ _
  intro enough
  apply (ends_position (a := a) (by omega)).bind
  rintro stop rfl
  apply (ends_options (fun limit j more => ends_limitOption limit more)).bind
  intro limit _
  apply (ends_slice (by omega) (by omega)).bind
  exact fun _ _ => .ok trivial

theorem drop_at (within : j < a.length) :
    a.items.drop j = arg a.items j :: a.items.drop (j + 1) := by
  rw [List.drop_eq_getElem_cons within]
  unfold arg
  rw [List.getD_eq_getElem?_getD, List.getElem?_eq_getElem within, Option.getD_some]

theorem followed_eq (within : j < a.length) :
    followed build a j = .ok (decide (j + 1 < a.length)) := by
  unfold followed
  rw [position_eq (j + 1) (count_small (a := a) (by omega))]
  rfl

theorem scanOptions_eq (allowType : Bool) :
    ∀ (fuel : Nat) (args : ScanArgs) (j : Nat), a.length ≤ j + fuel →
      loop a.length (scanOption build allowType a) fuel args j =
        answered (scanOptions allowType (a.items.drop j) args) := by
  intro fuel
  induction fuel with
  | zero =>
    intro args j enough
    unfold loop
    rw [if_neg (by omega), List.drop_eq_nil_of_le (show a.length ≤ j by omega)]
    rfl
  | succ fuel ih =>
    intro args j enough
    unfold loop
    by_cases more : j < a.length
    · rw [if_pos more, drop_at more]
      unfold scanOption
      rw [followed_eq more, ok_bind, item_arg more, ok_bind]
      by_cases next : j + 1 < a.length
      · have one : (position build (j + 1 : Nat) : Run Value Nat) = .ok (j + 1) :=
          position_eq (j + 1) (count_small (a := a) (by omega))
        have two : (position build (j + 2 : Nat) : Run Value Nat) = .ok (j + 2) :=
          position_eq (j + 2) (count_small (a := a) (by omega))
        rw [drop_at next]
        unfold scanOptions
        simp only [one, two, ok_bind, item_arg next, next, decide_true, Bool.and_true]
        split
        · cases intArg (arg a.items (j + 1)) with
          | error e => rfl
          | ok n =>
            show ((if n < 1 then answered syntaxError else .ok _) >>= _) =
              answered (if n < 1 then syntaxError else _)
            split
            · rfl
            · exact ih _ (j + 2) (by omega)
        · split
          · exact ih _ (j + 2) (by omega)
          · split
            · exact ih _ (j + 2) (by omega)
            · rfl
      · rw [List.drop_eq_nil_of_le (Nat.le_of_not_lt next)]
        simp only [decide_eq_false next, Bool.and_false, Bool.false_and, Bool.false_eq_true,
          if_false]
        rfl
    · rw [if_neg more, List.drop_eq_nil_of_le (Nat.le_of_not_lt more)]
      rfl

theorem scanArgs_eq (allowType : Bool) (within : i < a.length) :
    scanArgs build a i allowType = answered (parseScan a.items i allowType) := by
  unfold scanArgs parseScan
  rw [item_arg within, ok_bind]
  cases parseU64 (arg a.items i) with
  | none => rfl
  | some cursor =>
    show (position build (i + 1 : Nat) >>= _) = _
    rw [position_eq (i + 1) (count_small (a := a) (by omega)), ok_bind]
    exact scanOptions_eq allowType a.length _ (i + 1) (by omega)

def CursorFits (big : Bool) (args : ScanArgs) : Prop :=
  big = true → args.cursor + args.count < 2 ^ 64

theorem pageOf_eq (xs : List α) (fits : CursorFits big args) :
    pageOf build big xs args = .ok (scanned big xs args, scanNext big xs args) := by
  unfold pageOf scanned scanNext
  cases big with
  | false =>
    simp only [Bool.false_eq_true, if_false, ok_bind]
    rw [slice_eq (Nat.zero_le _) (Nat.le_refl _), List.take_length, if_pos (Nat.le_refl _)]
    rfl
  | true =>
    simp only [if_true]
    rw [position_eq _ (fits rfl)]
    show (slice xs (min args.cursor (min _ xs.length)) (min _ xs.length) >>= _) = _
    rw [slice_eq (Nat.min_le_right _ _) (Nat.min_le_right _ _)]
    rfl

theorem ends_pageOf (big : Bool) (xs : List α) (args : ScanArgs) :
    Ends (fun _ => True) (pageOf .release big xs args) := by
  have ends (stop : Nat) (within : stop ≤ xs.length) :
      Ends (fun _ => True)
        (do
          let picked ← slice xs (if big then min args.cursor stop else 0) stop
          .ok (picked, if xs.length ≤ stop then 0 else stop) : Run Value (List α × Nat)) := by
    rw [slice_eq (by split <;> omega) within]
    exact .ok trivial
  unfold pageOf
  cases big with
  | false => exact ends xs.length (Nat.le_refl _)
  | true =>
    unfold position
    rw [result_release]
    exact ends _ (Nat.min_le_right _ _)

theorem pageOf_panics (xs : List α) (beyond : ¬ CursorFits big args) :
    pageOf .checked big xs args = panic := by
  obtain ⟨isBig, tooFar⟩ := Classical.not_imp.mp beyond
  have outside : ¬ usize.Holds (args.cursor + args.count : Nat) := fun holds => by
    have := (usize_holds.mp holds).2
    omega
  unfold pageOf position
  rw [isBig, result_panics outside]
  rfl

theorem pageOf_panics_iff (xs : List α) :
    pageOf build big xs args = panic ↔ build = .checked ∧ ¬ CursorFits big args := by
  constructor
  · intro panics
    cases build with
    | release => exact absurd panics (ends_pageOf big xs args).not_panic
    | checked =>
      refine ⟨rfl, fun fits => ?_⟩
      rw [pageOf_eq xs fits] at panics
      cases panics
  · rintro ⟨rfl, beyond⟩
    exact pageOf_panics xs beyond

theorem scanFound_panics_iff {found : Option (Bool × List α)} {reply : List α → List Value}
    {db : Db} :
    scanFound build found args reply db = panic ↔
      build = .checked ∧ ∃ c, found = some c ∧ ¬ CursorFits c.1 args := by
  cases found with
  | none => exact ⟨nofun, fun ⟨_, _, isSome, _⟩ => nomatch isSome⟩
  | some c =>
    have iff : pageOf build c.1 c.2 args = panic ↔ build = .checked ∧ ¬ CursorFits c.1 args :=
      pageOf_panics_iff c.2
    show (pageOf build c.1 c.2 args >>= _) = _ ↔ _
    constructor
    · intro panics
      match page : pageOf build c.1 c.2 args with
      | .ok _ =>
        rw [page] at panics
        cases panics
      | .error (.refused e) =>
        rw [page] at panics
        cases panics
      | .error .panicked => exact ⟨(iff.mp page).1, c, rfl, (iff.mp page).2⟩
    · rintro ⟨isChecked, _, isSome, beyond⟩
      cases isSome
      rw [iff.mpr ⟨isChecked, beyond⟩]
      rfl

theorem scan_panics_iff (ctx : Ctx) (db : Db) (within : 1 < a.length) :
    scan build ctx a db = panic ↔
      build = .checked ∧ ∃ args, parseScan a.items 1 true = .ok args ∧ ¬ CursorFits true args := by
  unfold scan
  rw [scanArgs_eq true within]
  cases parseScan a.items 1 true with
  | error e => exact ⟨nofun, fun ⟨_, _, isOk, _⟩ => nomatch isOk⟩
  | ok args =>
    rw [answered_ok, ok_bind]
    apply scanFound_panics_iff.trans
    constructor
    · rintro ⟨isChecked, _, isSome, beyond⟩
      cases isSome
      exact ⟨isChecked, args, rfl, beyond⟩
    · rintro ⟨isChecked, _, isOk, beyond⟩
      cases isOk
      exact ⟨isChecked, _, rfl, beyond⟩

theorem scanKey_panics_iff {C : Type} {get : Ctx → Bytes → Db → Outcome (Option C)}
    {view : C → Bool × List α} {reply : ScanArgs → List α → List Value} (ctx : Ctx) (db : Db)
    (within : 2 < a.length) :
    scanKey build get view reply ctx a db = panic ↔
      build = .checked ∧ ∃ args c, parseScan a.items 2 false = .ok args ∧
        (get ctx (arg a.items 1) db).1 = .ok (some c) ∧ ¬ CursorFits (view c).1 args := by
  unfold scanKey
  rw [scanArgs_eq false within]
  cases parseScan a.items 2 false with
  | error e => exact ⟨nofun, fun ⟨_, _, _, isOk, _⟩ => nomatch isOk⟩
  | ok args =>
    rw [answered_ok, ok_bind, item_arg (by omega), ok_bind]
    match get ctx (arg a.items 1) db with
    | (.error e, db) => exact ⟨nofun, fun ⟨_, _, _, _, isOk, _⟩ => nomatch isOk⟩
    | (.ok found, db) =>
      apply scanFound_panics_iff.trans
      constructor
      · rintro ⟨isChecked, _, isSome, beyond⟩
        obtain ⟨c, rfl, rfl⟩ := Option.map_eq_some_iff.mp isSome
        exact ⟨isChecked, args, c, rfl, rfl, beyond⟩
      · rintro ⟨isChecked, _, c, isOk, isSome, beyond⟩
        cases isOk
        cases isSome
        exact ⟨isChecked, view c, rfl, beyond⟩

def StreamsWithin (a : Args) (args : ReadArgs) (_ : Nat) : Prop := args.streamsArg ≤ a.length

theorem ends_onward {s : ReadArgs} (forward : i < j) (within : j ≤ a.length + 3)
    (kept : StreamsWithin a s j) :
    Ends (fun r => i < r.2 ∧ StreamsWithin a r.1 r.2)
      (do .ok (s, ← position build j) : Run Value (ReadArgs × Nat)) := by
  apply (ends_position (a := a) within).bind
  rintro n rfl
  exact .ok ⟨forward, kept⟩

theorem ends_readOption (isGroup : Bool) {args : ReadArgs} (within : i < a.length)
    (kept : StreamsWithin a args i) :
    Ends (fun r => i < r.2 ∧ StreamsWithin a r.1 r.2) (readOption build isGroup a args i) := by
  have bounded : a.length < 2 ^ 63 := a.fits
  unfold readOption
  apply (ends_rest (by omega)).bind
  rintro rest rfl
  rw [position_sub (by omega) (by omega), ok_bind, item_arg within, ok_bind]
  have value {word : String} {n : Nat}
      (holds : (eqIc (arg a.items i) word && decide (n ≤ a.length - i - 1)) = true) :
      n ≤ a.length - i - 1 := of_decide_eq_true (Bool.and_eq_true_iff.mp holds).2
  apply Ends.ite
  · intro isBlock
    have more := value (n := 1) isBlock
    apply (ends_position (a := a) (by omega)).bind
    rintro next rfl
    apply (ends_at (by omega)).bind
    intro raw _
    cases parseInt raw with
    | none => exact ends_refused _ _
    | some ms => exact ends_onward (by omega) (by omega) kept
  intro _
  apply Ends.ite
  · intro isCount
    have more := value (n := 1) isCount
    apply (ends_position (a := a) (by omega)).bind
    rintro next rfl
    apply (ends_at (by omega)).bind
    intro raw _
    apply (ends_given _).bind
    exact fun n _ => ends_onward (by omega) (by omega) kept
  intro _
  apply Ends.ite
  · intro isStreams
    have more := value (n := 1) isStreams
    apply (ends_position (a := a) (by omega)).bind
    rintro start rfl
    apply (ends_rest (by omega)).bind
    intro rest _
    apply Ends.ite
    · exact fun _ => ends_refused _ _
    · exact fun _ => .ok ⟨within, Nat.succ_le_of_lt within⟩
  intro _
  apply Ends.ite
  · intro isGroupWord
    have more := value (n := 2) isGroupWord
    apply Ends.ite
    · exact fun _ => ends_refused _ _
    intro _
    apply (ends_position (a := a) (by omega)).bind
    rintro first rfl
    apply (ends_at (by omega)).bind
    intro name _
    apply (ends_position (a := a) (by omega)).bind
    rintro second rfl
    apply (ends_at (by omega)).bind
    exact fun consumer _ => ends_onward (by omega) (by omega) kept
  intro _
  apply Ends.ite
  · intro _
    apply Ends.ite
    · exact fun _ => ends_refused _ _
    · exact fun _ => ends_onward (by omega) (by omega) kept
  · exact fun _ => ends_refused _ _

theorem ends_readArgs (isGroup : Bool) :
    Ends (fun args => args.streamsArg ≤ a.length) (readArgs build isGroup a) := by
  have round (args : ReadArgs) (i : Nat) (within : i < a.length) (kept : StreamsWithin a args i) :
      Ends (fun r => i < r.2 ∧ StreamsWithin a r.1 r.2) (readOption build isGroup a args i) :=
    ends_readOption isGroup within kept
  apply (ends_loop (StreamsWithin a) round a.length {} 1 (Nat.zero_le _) (by omega)).bind
  intro args ⟨_, _, within⟩
  apply Ends.ite
  · exact fun _ => ends_refused _ _
  intro _
  apply Ends.ite
  · exact fun _ => ends_refused _ _
  · exact fun _ => .ok within

theorem ends_rewriteFrom {start : Nat} :
    ∀ (ids : List Id) (out : List Bytes) (j : Nat), out.length = a.length →
      start + j + ids.length ≤ a.length → Ends (fun _ => True) (rewriteFrom build out start j ids)
  | [], _, _, _, _ => .ok trivial
  | id :: ids, out, j, same, within => by
      rw [List.length_cons] at within
      unfold rewriteFrom
      apply (ends_position (a := a) (by omega)).bind
      rintro pos rfl
      apply (ends_item (by omega)).bind
      intro raw _
      apply ends_rewriteFrom ids _ (j + 1) _ (by omega)
      split
      · rw [List.length_set, same]
      · exact same

theorem ends_waitFor {ctx : Ctx} {args : ReadArgs} (keys : List Bytes) {ids : List Id}
    (within : args.streamsArg + n + ids.length ≤ a.length) :
    Ends (fun _ => True) (waitFor build ctx a args keys n ids) := by
  unfold waitFor
  split
  · exact .ok trivial
  · apply Ends.ite
    · exact fun _ => .ok trivial
    intro _
    apply (ends_given _).bind
    intro deadline _
    apply (ends_position (a := a) (by omega)).bind
    rintro start rfl
    apply (ends_rewriteFrom ids a.items 0 rfl (by omega)).bind
    exact fun _ _ => .ok trivial

theorem ends_readGeneric (isGroup : Bool) (ctx : Ctx) (db : Db) :
    Ends (fun _ => True) (readGeneric build isGroup ctx a db) := by
  unfold readGeneric
  apply (ends_readArgs isGroup).bind
  intro args within
  apply (ends_rest within).bind
  rintro rest rfl
  apply (ends_position (a := a) (by omega)).bind
  rintro stop rfl
  apply (ends_slice (by omega) (by omega)).bind
  intro keys _
  apply (ends_slice (by omega) (Nat.le_refl _)).bind
  intro raws isRest
  split
  · exact .ok trivial
  · rename_i ids _ isIds
    have sameLength := readIds_length _ _ (congrArg Prod.fst isIds)
    rw [List.length_zip] at sameLength
    split
    · exact .ok trivial
    · apply Ends.ite
      · intro _
        exact (ends_waitFor keys (by omega)).bind (fun _ _ => .ok trivial)
      · exact fun _ => .ok trivial

end Positions

inductive CountingCommand where
  | lmpop
  | blmpop
  | zmpop
  | bzmpop
  | zunion
  | zinter
  | zdiff
  | zunionstore
  | zinterstore
  | zdiffstore
  | sintercard
  | zintercard
  | scan
  | hscan
  | sscan
  | zscan
  | xread
  | xreadgroup
deriving DecidableEq, Repr

namespace CountingCommand

open Positions

/-- The least number of arguments that `check_arity` lets through, the name included. -/
def arity : CountingCommand → Nat
  | scan => 2
  | zunion | zinter | zdiff | sintercard | zintercard | hscan | sscan | zscan => 3
  | lmpop | zmpop | zunionstore | zinterstore | zdiffstore | xread => 4
  | blmpop | bzmpop => 5
  | xreadgroup => 7

def Panics (build : Build) (r : Readings) (ctx : Ctx) (db : Db) (a : Args) :
    CountingCommand → Prop
  | lmpop => Positions.lmpop build a = panic
  | blmpop => Positions.blmpop build r ctx.now a = panic
  | zmpop => Positions.zmpop build a = panic
  | bzmpop => Positions.bzmpop build r ctx.now a = panic
  | zunion => zsetop build r ctx db 1 .union false false "zunion" a = panic
  | zinter => zsetop build r ctx db 1 .inter false false "zinter" a = panic
  | zdiff => zsetop build r ctx db 1 .diff false false "zdiff" a = panic
  | zunionstore => zsetop build r ctx db 2 .union true false "zunionstore" a = panic
  | zinterstore => zsetop build r ctx db 2 .inter true false "zinterstore" a = panic
  | zdiffstore => zsetop build r ctx db 2 .diff true false "zdiffstore" a = panic
  | sintercard => Positions.sintercard build a = panic
  | zintercard => zsetop build r ctx db 1 .inter false true "zintercard" a = panic
  | scan => Positions.scan build ctx a db = panic
  | hscan => Positions.hscan build ctx a db = panic
  | sscan => Positions.sscan build ctx a db = panic
  | zscan => Positions.zscan build r ctx a db = panic
  | xread => Positions.readGeneric build false ctx a db = panic
  | xreadgroup => Positions.readGeneric build true ctx a db = panic

/-- The collection at the key that HSCAN, SSCAN and ZSCAN walk by cursor, with a cursor that the
count does not lead beyond 64 bits. -/
def WalkFits {C : Type} (get : Ctx → Bytes → Db → Outcome (Option C)) (big : C → Bool) (ctx : Ctx)
    (db : Db) (a : Args) : Prop :=
  ∀ args c, parseScan a.items 2 false = .ok args →
    (get ctx (arg a.items 1) db).1 = .ok (some c) → CursorFits (big c) args

def Fits (ctx : Ctx) (db : Db) (a : Args) : CountingCommand → Prop
  | lmpop | zmpop => NumkeysFit a 1
  | blmpop | bzmpop => NumkeysFit a 2
  | scan => ∀ args, parseScan a.items 1 true = .ok args → CursorFits true args
  | hscan => WalkFits Ctx.getHash Hash.big ctx db a
  | sscan => WalkFits Ctx.getSet SetData.isHash ctx db a
  | zscan => WalkFits Ctx.getZset Zset.big ctx db a
  | _ => True

def pops : CountingCommand → Bool
  | lmpop | blmpop | zmpop | bzmpop => true
  | _ => false

section

variable {build : Build} {a : Args}

theorem walk_panics_iff {C α : Type} {get : Ctx → Bytes → Db → Outcome (Option C)}
    {view : C → Bool × List α} {reply : ScanArgs → List α → List Value} {ctx : Ctx} {db : Db}
    (within : 2 < a.length) :
    scanKey build get view reply ctx a db = panic ↔
      build = .checked ∧ ¬ WalkFits get (fun c => (view c).1) ctx db a := by
  rw [scanKey_panics_iff ctx db within]
  unfold WalkFits
  push Not
  exact Iff.rfl

theorem panics_iff {cmd : CountingCommand} (r : Readings) (ctx : Ctx) (db : Db)
    (enough : cmd.arity ≤ a.length) :
    cmd.Panics build r ctx db a ↔ (cmd.pops = true ∨ build = .checked) ∧ ¬ cmd.Fits ctx db a := by
  have popped {p : Prop} {i : Nat} (iff : p ↔ ¬ NumkeysFit a i) :
      p ↔ (true = true ∨ build = .checked) ∧ ¬ NumkeysFit a i :=
    iff.trans ⟨fun beyond => ⟨.inl rfl, beyond⟩, And.right⟩
  have walked {p q : Prop} (iff : p ↔ build = .checked ∧ ¬ q) :
      p ↔ (false = true ∨ build = .checked) ∧ ¬ q :=
    iff.trans (and_congr_left' ⟨.inr, fun either => either.resolve_left (nomatch ·)⟩)
  have never {α : Type} {x : Run Value α} (ends : Ends (fun _ => True) x) :
      x = Run.panic ↔ (false = true ∨ build = .checked) ∧ ¬ True :=
    ⟨fun panics => absurd panics ends.not_panic, fun beyond => absurd trivial beyond.2⟩
  have within {i : Nat} (small : i < cmd.arity) : i < a.length := Nat.lt_of_lt_of_le small enough
  cases cmd with
  | lmpop => exact popped (mpopArgs_panics_iff endArg (within (by decide)))
  | zmpop => exact popped (mpopArgs_panics_iff maxArg (within (by decide)))
  | blmpop =>
    exact popped ((blocking_panics_iff _ r ctx.now (within (by decide))).trans
      (mpopArgs_panics_iff endArg (within (by decide))))
  | bzmpop =>
    exact popped ((blocking_panics_iff _ r ctx.now (within (by decide))).trans
      (mpopArgs_panics_iff maxArg (within (by decide))))
  | zunion | zinter | zdiff | zunionstore | zinterstore | zdiffstore | zintercard =>
    exact never (ends_zsetop r ctx db _ _ _ _ (within (by decide)))
  | sintercard => exact never (ends_sintercard (within (by decide)))
  | scan =>
    apply walked
    apply (scan_panics_iff ctx db (within (by decide))).trans
    unfold Fits
    push Not
    exact Iff.rfl
  | hscan | sscan | zscan => exact walked (walk_panics_iff (within (by decide)))
  | xread => exact never (ends_readGeneric false ctx db)
  | xreadgroup => exact never (ends_readGeneric true ctx db)

/-- A command that counts its arguments reads them all and counts without an overflow exactly where the
counts fit; a release build panics where a pop's do not. -/
theorem counts_exact (cmd : CountingCommand) (r : Readings) (ctx : Ctx) (db : Db) (a : Args)
    (enough : cmd.arity ≤ a.length) :
    (¬ cmd.Panics .checked r ctx db a ↔ cmd.Fits ctx db a) ∧
      (cmd.Panics .release r ctx db a ↔ cmd.pops = true ∧ ¬ cmd.Fits ctx db a) := by
  constructor
  · rw [panics_iff r ctx db enough, and_iff_right (.inr rfl), Classical.not_not]
  · rw [panics_iff r ctx db enough]
    exact and_congr_left' (or_iff_left nofun)

end

def lmpopOf (numkeys : String) : Args :=
  ⟨[ascii "lmpop", ascii numkeys, ascii "k", ascii "left"], (by decide : 4 < 2 ^ 63)⟩

theorem counts_exact_one : ∃ r : Readings, ∃ ctx : Ctx, 4 ≤ (lmpopOf "1").length ∧
    ¬ lmpop.Panics .release r ctx {} (lmpopOf "1") := by
  refine ⟨⟨fun _ _ => .ok 0, fun _ => none, fun _ => []⟩, { now := 0, wall := 0 }, by decide,
    fun panics => ?_⟩
  apply ((counts_exact lmpop _ _ _ (lmpopOf "1") (by decide)).2.mp panics).2
  intro n isNumber
  cases (show parseInt _ = some 1 by decide).symm.trans isNumber
  decide

theorem lmpop_aborts :
    ∃ r : Readings, ∃ ctx : Ctx, lmpop.arity ≤ (lmpopOf "9223372036854775807").length ∧
      lmpop.Panics .release r ctx {} (lmpopOf "9223372036854775807") := by
  refine ⟨⟨fun _ _ => .ok 0, fun _ => none, fun _ => []⟩, { now := 0, wall := 0 }, by decide, ?_⟩
  apply mpopArgs_panics endArg (by decide)
  intro fit
  have tooFew := fit 9223372036854775807 (by decide)
  revert tooFew
  decide

end CountingCommand

end NoidaDb.Redis
