/-
The deadlines that commands store, compare and tell, against exact instants.

What is stored is exact up to multiples of 2^64; comparisons and answers go through a cast to
signed numbers.
-/

import NoidaDb.Redis.Expiry

namespace NoidaDb.Redis.Expiry

open Lib

def instant (kind : Exp) (n : Int) (now : Nat) : Int :=
  n * (if kind.seconds then 1000 else 1) + if kind.relative then (now : Int) else 0

def roundedSeconds (ms : Int) : Int := (ms + 500) / 1000

theorem asI64_cases {n : Nat} (fits : n < 2 ^ 64) :
    (n < 2 ^ 63 ∧ asI64 n = n) ∨ (2 ^ 63 ≤ n ∧ asI64 n = (n : Int) - 2 ^ 64) := by
  unfold asI64
  rw [Nat.mod_eq_of_lt fits]
  split
  · exact Or.inl ⟨by assumption, by omega⟩
  · exact Or.inr ⟨by omega, by omega⟩

variable {db : Db} {n x : Int} {e : Entry} {key raw : Bytes} {a : List Bytes} {deadline : Nat}
  {cmd : String} {v : Value} {o : ExtArgs}

theorem asU64_eq_iff {exact : Int} (same : x % 2 ^ 64 = exact % 2 ^ 64) :
    ((asU64 x : Nat) : Int) = exact ↔ 0 ≤ exact ∧ exact < 2 ^ 64 := by
  unfold asU64
  omega

theorem checkedI64_ok {α : Type} {y : Int} {overflow : α} (isOk : checkedI64 x overflow = .ok y) :
    y = x ∧ InI64 x := by
  unfold checkedI64 at isOk
  split at isOk
  · exact ⟨(Except.ok.inj isOk).symm, by assumption⟩
  · cases isOk

def base (kind : Exp) (now : Nat) : Int := if kind.relative then asI64 now else 0

theorem base_instant (kind : Exp) (n : Int) {now : Nat} (fits : now < 2 ^ 64) :
    (n * (if kind.seconds then 1000 else 1) + base kind now) % 2 ^ 64 =
      instant kind n now % 2 ^ 64 := by
  unfold base instant
  cases kind.relative with
  | true =>
    rw [if_pos rfl, if_pos rfl]
    rcases asI64_cases fits with ⟨_, isNow⟩ | ⟨_, isNow⟩ <;> rw [isNow]
    omega
  | false => rfl

theorem find_eq {now : Nat} (live : db.find key now = some e) :
    db.map.get key = some e ∧ e.isExpired now = false := by
  unfold Db.find at live
  obtain ⟨found, notExpired⟩ := Option.filter_eq_some_iff.mp live
  exact ⟨found, by simpa using notExpired⟩

def EntryFits (e : Entry) : Prop := ∀ deadline, e.expiresAt = some deadline → deadline < 2 ^ 64

theorem get_lookup_eq (ctx : Ctx) (key : Bytes) (db : Db) :
    (ctx.lookup key db).map.get key = db.find key ctx.now.val := by
  rw [← find_lookup ctx key db key]
  unfold Db.find
  cases found : (ctx.lookup key db).map.get key with
  | none => rfl
  | some e => simp [Option.filter, live_of_lookup found]

theorem get_lookup {ctx : Ctx} (live : db.find key ctx.now.val = some e) :
    (ctx.lookup key db).map.get key = some e := by
  rw [get_lookup_eq, live]

theorem le_deadline {now : Nat} (live : db.find key now = some e)
    (isDeadline : e.expiresAt = some deadline) : now ≤ deadline := by
  have notExpired := (find_eq live).2
  unfold Entry.isExpired at notExpired
  rw [isDeadline] at notExpired
  simpa using notExpired

def expireWith (kind : Exp) (ctx : Ctx) (a : List Bytes) (db : Db) : Answer × Db :=
  if kind.relative then if kind.seconds then expire ctx a db else pexpire ctx a db
  else if kind.seconds then expireat ctx a db else pexpireat ctx a db

def expireName (kind : Exp) : String :=
  if kind.relative then if kind.seconds then "expire" else "pexpire"
  else if kind.seconds then "expireat" else "pexpireat"

theorem expireWith_eq (kind : Exp) (ctx : Ctx) (a : List Bytes) (db : Db) :
    expireWith kind ctx a db =
      expireGeneric ctx a (base kind ctx.now.val) kind.seconds (expireName kind) db := by
  obtain ⟨seconds, relative⟩ := kind
  cases seconds <;> cases relative <;> rfl

theorem expireWhen_ok {base when : Int} {seconds : Bool} (isArg : intArg raw = .ok n)
    (isOk : expireWhen raw base seconds cmd = .ok when) :
    when = n * (if seconds then 1000 else 1) + base ∧ InI64 when := by
  unfold expireWhen at isOk
  rw [isArg] at isOk
  cases seconds with
  | true =>
    simp only [bind, Except.bind, if_true] at isOk ⊢
    cases product : checkedI64 (n * 1000) (invalidExpire cmd) with
    | error e =>
      rw [product] at isOk
      cases isOk
    | ok m =>
      rw [product] at isOk
      obtain ⟨rfl, fits⟩ := checkedI64_ok isOk
      obtain ⟨rfl, _⟩ := checkedI64_ok product
      exact ⟨rfl, fits⟩
  | false =>
    simp only [bind, Except.bind, Bool.false_eq_true, if_false] at isOk ⊢
    obtain ⟨rfl, fits⟩ := checkedI64_ok isOk
    exact ⟨by omega, fits⟩

theorem compatible {nx xx gt lt : Bool} (mixed : ¬(nx && (xx || gt || lt)) = true)
    (both : ¬(gt && lt) = true) : (nx = true → gt = false ∧ lt = false) ∧ (gt = true → lt = false) := by
  cases nx <;> cases gt <;> cases lt <;> simp_all

theorem expireWith_spec {kind : Exp} {ctx : Ctx} {o : ExpireOpts}
    (isOpts : expireOpts (a.drop 3) {} = .ok o) (isArg : intArg (arg a 2) = .ok n)
    (live : db.find (arg a 1) ctx.now.val = some e)
    (accepted : (expireWith kind ctx a db).1 = .value v) :
    (o.nx = true → o.gt = false ∧ o.lt = false) ∧ (o.gt = true → o.lt = false) ∧
    ∃ deadline, deadline = n * (if kind.seconds then 1000 else 1) + base kind ctx.now.val ∧
      InI64 deadline ∧
      expireWith kind ctx a db =
        let db := ctx.lookup (arg a 1) db
        if o.refuses (e.expiresAt.map asI64) deadline then (.value (.integer 0), db)
        else if deadline ≤ asI64 ctx.now.val then (.value (.integer 1), db.remove (arg a 1))
        else
          (.value (.integer 1),
            (ctx.lookup (arg a 1) db).setExpiry (arg a 1) (some (asU64 deadline))) := by
  rw [expireWith_eq] at accepted ⊢
  unfold expireGeneric at accepted ⊢
  rw [isOpts] at accepted ⊢
  simp only [parsed] at accepted ⊢
  by_cases mixed : (o.nx && (o.xx || o.gt || o.lt)) = true
  · rw [if_pos mixed] at accepted
    cases accepted
  · rw [if_neg mixed] at accepted ⊢
    by_cases both : (o.gt && o.lt) = true
    · rw [if_pos both] at accepted
      cases accepted
    · rw [if_neg both] at accepted ⊢
      cases isWhen : expireWhen (arg a 2) (base kind ctx.now.val) kind.seconds (expireName kind) with
      | error err =>
        rw [isWhen] at accepted
        cases accepted
      | ok deadline =>
        obtain ⟨isDeadline, fits⟩ := expireWhen_ok isArg isWhen
        have options := compatible mixed both
        refine ⟨options.1, options.2, deadline, isDeadline, fits, ?_⟩
        simp only [get_lookup live]

structure ExpireExact (kind : Exp) (ctx : Ctx) (a : List Bytes) (db : Db) (o : ExpireOpts) (n : Int)
    (e : Entry) : Prop where
  decides : (expireWith kind ctx a db).1 = .value (.integer 0) ↔
    o.refuses (e.expiresAt.map Int.ofNat) (instant kind n ctx.now.val) = true
  stores : ∀ e', (expireWith kind ctx a db).1 = .value (.integer 1) →
    (expireWith kind ctx a db).2.map.get (arg a 1) = some e' →
      e'.expiresAt.map Int.ofNat = some (instant kind n ctx.now.val)

/-- The comparison is with a deadline that its cast to a signed number keeps, or both are shifted
alike, or the shift makes no difference. -/
def Compared (kind : Exp) (o : ExpireOpts) (current : Option Nat) (now : Nat) (exact : Int) : Prop :=
  ∀ deadline, current = some deadline →
    deadline < 2 ^ 63 ∨ (kind.relative = true ∧ 2 ^ 63 ≤ now) ∨
      ((o.gt = true → exact ≤ (deadline : Int) - 2 ^ 64) ∧
        (o.lt = true → exact < (deadline : Int) - 2 ^ 64))

def Storable (kind : Exp) (o : ExpireOpts) (current : Option Nat) (now : Nat) (exact : Int) : Prop :=
  o.refuses (current.map Int.ofNat) exact = true ∨
    exact ≤ (if kind.relative then (now : Int) else asI64 now) ∨ (0 ≤ exact ∧ exact < 2 ^ 64)

theorem base_eq (kind : Exp) (n : Int) {now : Nat} (fits : now < 2 ^ 64) :
    n * (if kind.seconds then 1000 else 1) + base kind now =
      if kind.relative = true ∧ 2 ^ 63 ≤ now then instant kind n now - 2 ^ 64
      else instant kind n now := by
  unfold base instant
  generalize n * (if kind.seconds then 1000 else 1) = w
  cases kind.relative with
  | true =>
    rw [if_pos rfl, if_pos rfl]
    rcases asI64_cases fits with ⟨small, isNow⟩ | ⟨large, isNow⟩
    · rw [isNow, if_neg (fun shifted => absurd shifted.2 (Nat.not_le.mpr small))]
    · rw [isNow, if_pos ⟨rfl, large⟩]
      omega
  | false =>
    rw [if_neg Bool.false_ne_true, if_neg Bool.false_ne_true,
      if_neg (fun shifted => Bool.false_ne_true shifted.1)]

theorem refuses_iff {kind : Exp} {o : ExpireOpts} {current : Option Nat} {now : Nat} {n : Int}
    (nowFits : now < 2 ^ 64) (nx : o.nx = true → o.gt = false ∧ o.lt = false)
    (gt : o.gt = true → o.lt = false)
    (alive : ∀ d, current = some d → now ≤ d ∧ d < 2 ^ 64)
    (fits : InI64 (n * (if kind.seconds then 1000 else 1) + base kind now)) :
    (o.refuses (current.map asI64) (n * (if kind.seconds then 1000 else 1) + base kind now) =
      o.refuses (current.map Int.ofNat) (instant kind n now)) ↔
    Compared kind o current now (instant kind n now) := by
  rw [base_eq kind n nowFits] at fits ⊢
  cases current with
  | none => simp [ExpireOpts.refuses, Compared]
  | some d =>
    obtain ⟨low, high⟩ := alive d rfl
    have castDeadline := asI64_cases high
    generalize instant kind n now = exact at *
    unfold InI64 i64Min i64Max at fits
    obtain ⟨onx, oxx, ogt, olt⟩ := o
    simp only [Compared, Option.some.injEq, forall_eq', Option.map_some, ExpireOpts.refuses,
      Option.isSome_some, Option.isNone_some, Option.all_some, Option.any_some, Bool.and_true,
      Bool.and_false, Bool.or_false, Int.ofNat_eq_natCast] at nx gt ⊢
    cases ogt with
    | true =>
      obtain rfl := gt rfl
      have notNx : onx = false := by
        cases onx with
        | true => cases (nx rfl).1
        | false => rfl
      subst notNx
      simp only [Bool.false_or, Bool.true_and, Bool.false_and, Bool.or_false, decide_eq_decide,
        Bool.false_eq_true, false_implies, and_true, true_implies]
      by_cases shifted : kind.relative = true ∧ 2 ^ 63 ≤ now
      · simp only [shifted, and_self, if_true, true_or, or_true, iff_true]
        omega
      · rw [if_neg shifted] at fits
        simp only [shifted, if_false, false_or]
        omega
    | false =>
      cases olt with
      | true =>
        have notNx : onx = false := by
          cases onx with
          | true => cases (nx rfl).2
          | false => rfl
        subst notNx
        simp only [Bool.false_or, Bool.true_and, Bool.false_and, decide_eq_decide,
          Bool.false_eq_true, false_implies, true_and, true_implies]
        by_cases shifted : kind.relative = true ∧ 2 ^ 63 ≤ now
        · simp only [shifted, and_self, if_true, true_or, or_true, iff_true]
          omega
        · rw [if_neg shifted] at fits
          simp only [shifted, if_false, false_or]
          omega
      | false => simp

theorem get_setExpiry (found : db.map.get key = some e) (deadline : Option Nat) :
    (db.setExpiry key deadline).map.get key = some { e with expiresAt := deadline } := by
  unfold Db.setExpiry
  rw [OrderedMap.get_update, if_pos rfl, found]
  rfl

theorem stored_iff {kind : Exp} {deadline : Int} {now : Nat} (fits : now < 2 ^ 64)
    (isDeadline : deadline = n * (if kind.seconds then 1000 else 1) + base kind now) :
    (some (asU64 deadline)).map Int.ofNat = some (instant kind n now) ↔
      0 ≤ instant kind n now ∧ instant kind n now < 2 ^ 64 := by
  rw [Option.map_some, Option.some_inj, isDeadline]
  exact asU64_eq_iff (base_instant kind n fits)

theorem past_iff (kind : Exp) (n : Int) (now : Nat) :
    n * (if kind.seconds then 1000 else 1) + base kind now ≤ asI64 now ↔
      instant kind n now ≤ if kind.relative then (now : Int) else asI64 now := by
  unfold base instant
  generalize n * (if kind.seconds then 1000 else 1) = w
  cases kind.relative with
  | true =>
    rw [if_pos rfl, if_pos rfl, if_pos rfl]
    omega
  | false =>
    rw [if_neg Bool.false_ne_true, if_neg Bool.false_ne_true, if_neg Bool.false_ne_true]

theorem expire_exact_iff {kind : Exp} {ctx : Ctx} {o : ExpireOpts}
    (isOpts : expireOpts (a.drop 3) {} = .ok o) (isArg : intArg (arg a 2) = .ok n)
    (live : db.find (arg a 1) ctx.now.val = some e) (entryFits : EntryFits e)
    (accepted : (expireWith kind ctx a db).1 = .value v) :
    ExpireExact kind ctx a db o n e ↔
      Compared kind o e.expiresAt ctx.now.val (instant kind n ctx.now.val) ∧
        Storable kind o e.expiresAt ctx.now.val (instant kind n ctx.now.val) := by
  have nowFits := ctx.now.isLt
  obtain ⟨nx, gt, deadline, isDeadline, fits, runs⟩ := expireWith_spec isOpts isArg live accepted
  have alive : ∀ d, e.expiresAt = some d → ctx.now.val ≤ d ∧ d < 2 ^ 64 :=
    fun d isD => ⟨le_deadline live isD, entryFits d isD⟩
  have agree := @refuses_iff kind o e.expiresAt ctx.now.val n nowFits nx gt alive
    (by rw [← isDeadline]; exact fits)
  rw [← isDeadline] at agree
  have zero : (expireWith kind ctx a db).1 = .value (.integer 0) ↔
      o.refuses (e.expiresAt.map asI64) deadline = true := by
    rw [runs]
    simp only
    by_cases refused : o.refuses (e.expiresAt.map asI64) deadline = true
    · simp [refused]
    · rw [if_neg refused]
      by_cases past : deadline ≤ asI64 ctx.now.val
      · simp [past, refused]
      · simp [past, refused]
  have decides : ((expireWith kind ctx a db).1 = .value (.integer 0) ↔
      o.refuses (e.expiresAt.map Int.ofNat) (instant kind n ctx.now.val) = true) ↔
      Compared kind o e.expiresAt ctx.now.val (instant kind n ctx.now.val) := by
    rw [zero, ← Bool.eq_iff_iff]
    exact agree
  have stores (compared : Compared kind o e.expiresAt ctx.now.val (instant kind n ctx.now.val)) :
      (∀ e', (expireWith kind ctx a db).1 = .value (.integer 1) →
        (expireWith kind ctx a db).2.map.get (arg a 1) = some e' →
          e'.expiresAt.map Int.ofNat = some (instant kind n ctx.now.val)) ↔
      Storable kind o e.expiresAt ctx.now.val (instant kind n ctx.now.val) := by
    have same := agree.mpr compared
    have past := past_iff kind n ctx.now.val
    rw [← isDeadline] at past
    unfold Storable
    rw [← same, ← past, ← stored_iff nowFits isDeadline, runs]
    simp only
    by_cases refused : o.refuses (e.expiresAt.map asI64) deadline = true
    · simp [refused]
    · rw [if_neg refused]
      by_cases isPast : deadline ≤ asI64 ctx.now.val
      · simp [isPast, Db.remove]
      · rw [if_neg isPast]
        have again : (ctx.lookup (arg a 1) (ctx.lookup (arg a 1) db)).map.get (arg a 1) = some e :=
          get_lookup (by rw [find_lookup]; exact live)
        simp only [get_setExpiry again, refused, isPast, Bool.false_eq_true, false_or,
          Option.some.injEq, forall_eq', true_implies]
  constructor
  · rintro ⟨isDecided, isStored⟩
    have compared := decides.mp isDecided
    exact ⟨compared, (stores compared).mp isStored⟩
  · rintro ⟨compared, storable⟩
    exact ⟨decides.mpr compared, (stores compared).mpr storable⟩

theorem expireAt_ok {kind : Exp} {deadline : Int} {now : Nat}
    (isOk : expireAt (asI64 now) kind n cmd = .ok deadline) :
    deadline = n * (if kind.seconds then 1000 else 1) + base kind now ∧ 0 < n := by
  unfold expireAt at isOk
  split at isOk
  · cases isOk
  · rename_i inRange
    have positive : 0 < n := by omega
    have scaled : (if kind.seconds = true then n * 1000 else n) =
        n * (if kind.seconds then 1000 else 1) := by
      split
      · rfl
      · rw [Int.mul_one]
    simp only [scaled] at isOk
    unfold base
    cases isRelative : kind.relative with
    | true =>
      rw [isRelative, if_pos rfl] at isOk
      exact ⟨(checkedI64_ok isOk).1, positive⟩
    | false =>
      rw [isRelative, if_neg Bool.false_ne_true] at isOk
      rw [if_neg Bool.false_ne_true, Int.add_zero]
      exact ⟨(Except.ok.inj isOk).symm, positive⟩

theorem stored_positive_iff {kind : Exp} {deadline : Int} {now : Nat} (fits : now < 2 ^ 64)
    (isOk : expireAt (asI64 now) kind n cmd = .ok deadline) :
    (some (asU64 deadline)).map Int.ofNat = some (instant kind n now) ↔
      instant kind n now < 2 ^ 64 := by
  obtain ⟨isDeadline, positive⟩ := expireAt_ok isOk
  have notNegative : 0 ≤ instant kind n now := by
    unfold instant
    split <;> split <;> omega
  rw [stored_iff fits isDeadline, and_iff_right notNegative]

theorem parseExt_ok {ctx : Ctx} {args : List Bytes} {isSet : Bool} {kind : Exp}
    (isOk : parseExt ctx args isSet cmd = .ok o) (isExp : o.opts.exp = some (kind, raw))
    (isArg : intArg raw = .ok n) :
    ∃ deadline, o.expireAt = some deadline ∧
      expireAt (asI64 ctx.now.val) kind n cmd = .ok deadline := by
  unfold parseExt at isOk
  cases isOpts : extOpts isSet args {} with
  | error e =>
    rw [isOpts] at isOk
    cases isOk
  | ok opts =>
    rw [isOpts] at isOk
    simp only [bind, Except.bind] at isOk
    cases given : opts.exp with
    | none =>
      rw [given] at isOk
      obtain rfl := Except.ok.inj isOk
      rw [given] at isExp
      cases isExp
    | some exp =>
      obtain ⟨kind', raw'⟩ := exp
      rw [given] at isOk
      simp only at isOk
      cases isNumber : intArg raw' with
      | error e =>
        rw [isNumber] at isOk
        cases isOk
      | ok n' =>
        rw [isNumber] at isOk
        simp only at isOk
        cases isDeadline : expireAt (asI64 ctx.now.val) kind' n' cmd with
        | error e =>
          rw [isDeadline] at isOk
          cases isOk
        | ok deadline =>
          rw [isDeadline] at isOk
          obtain rfl := Except.ok.inj isOk
          rw [given] at isExp
          obtain ⟨rfl, rfl⟩ := Prod.mk.inj (Option.some.inj isExp)
          rw [isArg] at isNumber
          obtain rfl := Except.ok.inj isNumber
          exact ⟨deadline, rfl, isDeadline⟩

def HasDeadline (db : Db) (key : Bytes) (exact : Int) : Prop :=
  ∃ e, db.map.get key = some e ∧ e.expiresAt.map Int.ofNat = some exact

theorem hasDeadline_insert_iff (db : Db) (key : Bytes) (data : Data) (deadline : Option Nat)
    (wall : Nat) (exact : Int) :
    HasDeadline (db.insert key { data := data, expiresAt := deadline } wall) key exact ↔
      deadline.map Int.ofNat = some exact := by
  unfold HasDeadline Db.insert
  simp

theorem getStr_db (ctx : Ctx) (key : Bytes) (db : Db) :
    (getStr ctx key db).2 = ctx.lookup key db := by
  unfold getStr
  simp only
  split <;> rfl

theorem getStr_error {ctx : Ctx} {key : Bytes} {db : Db} {e : Answer}
    (isError : (getStr ctx key db).1 = .error e) : e = .error wrongType := by
  unfold getStr at isError
  simp only at isError
  split at isError
  · cases isError
  · cases isError
  · exact (Except.error.inj isError).symm

theorem getStr_ok {ctx : Ctx} {s : Bytes} (live : db.find key ctx.now.val = some e)
    (isText : e.data = .str s) : getStr ctx key db = (.ok (some s), ctx.lookup key db) := by
  obtain ⟨data, expiresAt⟩ := e
  obtain rfl : data = .str s := isText
  unfold getStr
  simp only [get_lookup live]

theorem set_exact_iff {ctx : Ctx} {kind : Exp} (isOk : parseExt ctx (a.drop 3) true "set" = .ok o)
    (isExp : o.opts.exp = some (kind, raw)) (isArg : intArg raw = .ok n)
    (nx : o.opts.nx = true → db.find (arg a 1) ctx.now.val = none)
    (xx : o.opts.xx = true → (db.find (arg a 1) ctx.now.val).isSome)
    (accepted : (set ctx a db).1 = .value v) :
    HasDeadline (set ctx a db).2 (arg a 1) (instant kind n ctx.now.val) ↔
      instant kind n ctx.now.val < 2 ^ 64 := by
  obtain ⟨deadline, isDeadline, isExpire⟩ := parseExt_ok isOk isExp isArg
  rw [← stored_positive_iff ctx.now.isLt isExpire]
  -- Whatever GET has looked up, the key is live as it was.
  have sets (other : Db) (old : Option Value)
      (same : other.find (arg a 1) ctx.now.val = db.find (arg a 1) ctx.now.val)
      (runs : set ctx a db =
        let db := ctx.lookup (arg a 1) other
        let existing := (db.map.get (arg a 1)).map Entry.expiresAt
        if (o.opts.nx && existing.isSome) || (o.opts.xx && existing.isNone) then
          (.value (old.getD .null), db)
        else
          (.value (old.getD .ok),
            db.insert (arg a 1) { data := .str (arg a 2), expiresAt := some (asU64 deadline) }
              ctx.wall.val)) :
      HasDeadline (set ctx a db).2 (arg a 1) (instant kind n ctx.now.val) ↔
        (some (asU64 deadline)).map Int.ofNat = some (instant kind n ctx.now.val) := by
    have performed : ¬((o.opts.nx && ((db.find (arg a 1) ctx.now.val).map Entry.expiresAt).isSome) ||
        (o.opts.xx && ((db.find (arg a 1) ctx.now.val).map Entry.expiresAt).isNone)) = true := by
      simp only [Option.isSome_map, Option.isNone_map]
      intro refused
      rcases (Bool.or_eq_true _ _).mp refused with exists' | missing
      · obtain ⟨isNx, isSome⟩ := (Bool.and_eq_true _ _).mp exists'
        rw [nx isNx] at isSome
        cases isSome
      · obtain ⟨isXx, isNone⟩ := (Bool.and_eq_true _ _).mp missing
        have isSome := xx isXx
        cases found : db.find (arg a 1) ctx.now.val with
        | none => rw [found] at isSome; cases isSome
        | some e => rw [found] at isNone; cases isNone
    rw [runs]
    simp only [get_lookup_eq, same]
    rw [if_neg performed]
    exact hasDeadline_insert_iff _ _ _ _ _ _
  by_cases wantsOld : o.opts.get = true
  · have same : (ctx.lookup (arg a 1) db).find (arg a 1) ctx.now.val =
        db.find (arg a 1) ctx.now.val := find_lookup ctx (arg a 1) db (arg a 1)
    cases found : getStr ctx (arg a 1) db with
    | mk outcome other =>
      have isOther : other = ctx.lookup (arg a 1) db := by
        rw [← getStr_db, found]
      subst isOther
      cases outcome with
      | error e =>
        have isWrong := @getStr_error ctx (arg a 1) db e (by rw [found])
        unfold set at accepted
        rw [isOk] at accepted
        simp only [parsed, wantsOld, if_true, found, Outcome.andThen, isWrong] at accepted
        cases accepted
      | ok s =>
        apply sets _ (some (optBulk s)) same
        unfold set
        rw [isOk]
        simp only [parsed, wantsOld, if_true, found, Outcome.andThen, isDeadline]
  · apply sets db none rfl
    unfold set
    rw [isOk]
    simp only [parsed, wantsOld, Outcome.andThen, isDeadline]
    rfl

theorem getex_exact_iff {ctx : Ctx} {kind : Exp} {s : Bytes}
    (isOk : parseExt ctx (a.drop 2) false "getex" = .ok o) (isExp : o.opts.exp = some (kind, raw))
    (isArg : intArg raw = .ok n) (live : db.find (arg a 1) ctx.now.val = some e)
    (isText : e.data = .str s) :
    (∀ e', (getex ctx a db).2.map.get (arg a 1) = some e' →
      e'.expiresAt.map Int.ofNat = some (instant kind n ctx.now.val)) ↔
      instant kind n ctx.now.val < 2 ^ 64 := by
  obtain ⟨deadline, isDeadline, isExpire⟩ := parseExt_ok isOk isExp isArg
  have stored := stored_positive_iff ctx.now.isLt isExpire
  have runs : getex ctx a db =
      if deadline ≤ asI64 ctx.now.val then
        (.value (.bulk s), (ctx.lookup (arg a 1) db).remove (arg a 1))
      else
        (.value (.bulk s), (ctx.lookup (arg a 1) (ctx.lookup (arg a 1) db)).setExpiry (arg a 1)
          (some (asU64 deadline))) := by
    unfold getex
    rw [isOk]
    simp only [parsed, getStr_ok live isText, Outcome.andThen, isDeadline]
  rw [runs]
  by_cases past : deadline ≤ asI64 ctx.now.val
  · obtain ⟨isSum, positive⟩ := expireAt_ok isExpire
    have below : instant kind n ctx.now.val < 2 ^ 64 := by
      have small := asI64_cases ctx.now.isLt
      have whole := past_iff kind n ctx.now.val
      rw [← isSum] at whole
      have bound := whole.mp past
      unfold instant at bound ⊢
      cases isRelative : kind.relative with
      | true =>
        rw [isRelative, if_pos rfl, if_pos rfl] at bound
        split at bound <;> omega
      | false =>
        rw [isRelative, if_neg Bool.false_ne_true, if_neg Bool.false_ne_true] at bound
        rw [if_neg Bool.false_ne_true]
        omega
    rw [if_pos past]
    exact ⟨fun _ => below, fun _ e' found => by simp [Db.remove] at found⟩
  · have again : (ctx.lookup (arg a 1) (ctx.lookup (arg a 1) db)).map.get (arg a 1) = some e :=
      get_lookup (by rw [find_lookup]; exact live)
    rw [if_neg past, ← stored]
    simp only [get_setExpiry again, Option.some.injEq, forall_eq']

theorem restoreDeadline_eq {now ttl : Nat} (absttl : Bool) (positive : 0 < ttl)
    (small : ttl < 2 ^ 63) :
    ∃ deadline, restoreDeadline now ttl absttl = some deadline ∧
      (deadline : Int) = instant ⟨false, !absttl⟩ ttl now % 2 ^ 64 ∧
      0 ≤ instant ⟨false, !absttl⟩ ttl now ∧
      (now < 2 ^ 64 → 2 ^ 64 ≤ instant ⟨false, !absttl⟩ ttl now → deadline < now) := by
  unfold restoreDeadline instant
  rw [if_neg (by omega)]
  cases absttl with
  | true =>
    refine ⟨ttl, rfl, ?_⟩
    simp only [Bool.false_eq_true, if_false, Bool.not_true]
    omega
  | false =>
    refine ⟨(now + ttl) % 2 ^ 64, rfl, ?_⟩
    simp only [Bool.false_eq_true, if_false, Bool.not_false, if_true]
    omega

theorem inI64_of_ite {p : Prop} [Decidable p] {m : Int}
    (isNumber : (if p then if i64Min ≤ m ∧ m ≤ i64Max then some m else none else none) = some n) :
    InI64 n := by
  by_cases holds : p
  · rw [if_pos holds] at isNumber
    by_cases inRange : i64Min ≤ m ∧ m ≤ i64Max
    · rw [if_pos inRange] at isNumber
      rw [← Option.some.inj isNumber]
      exact inRange
    · rw [if_neg inRange] at isNumber
      cases isNumber
  · rw [if_neg holds] at isNumber
    cases isNumber

theorem intArg_range {b : Bytes} (isOk : intArg b = .ok n) : InI64 n := by
  unfold intArg at isOk
  cases isNumber : parseInt b with
  | none =>
    rw [isNumber] at isOk
    cases isOk
  | some m =>
    rw [isNumber] at isOk
    obtain rfl := Except.ok.inj isOk
    unfold parseInt at isNumber
    split at isNumber
    · cases isNumber
    · split at isNumber
      · rw [← Option.some.inj isNumber]
        decide
      · exact inI64_of_ite isNumber

theorem restore_exact_iff {loader : Loader} {ctx : Ctx} {o : RestoreOpts}
    (isArg : intArg (arg a 2) = .ok n) (isOpts : restoreOpts (a.drop 4) {} = .ok o)
    (given : n ≠ 0) (accepted : (restore loader ctx a db).1 = .value v) :
    ((ctx.now.val ≤ instant ⟨false, !o.absttl⟩ n ctx.now.val →
        HasDeadline (restore loader ctx a db).2 (arg a 1) (instant ⟨false, !o.absttl⟩ n ctx.now.val)) ∧
      (instant ⟨false, !o.absttl⟩ n ctx.now.val < ctx.now.val →
        (restore loader ctx a db).2.map.get (arg a 1) = none)) ↔
      instant ⟨false, !o.absttl⟩ n ctx.now.val < 2 ^ 64 := by
  have inRange := intArg_range isArg
  unfold restore at accepted ⊢
  rw [isArg] at accepted ⊢
  simp only [parsed, isOpts] at accepted ⊢
  by_cases negative : n < 0
  · rw [if_pos negative] at accepted
    cases accepted
  · rw [if_neg negative] at accepted ⊢
    split at accepted
    · cases accepted
    · rename_i free
      rw [if_neg free]
      cases unsealed : Rdb.unsealWith (arg a 3) (!loader.skipChecksum) with
      | none =>
        rw [unsealed] at accepted
        cases accepted
      | some body =>
        rw [unsealed] at accepted
        simp only at accepted ⊢
        cases loaded : Rdb.load loader.parseF64 body loader.setLimits loader.zsetLimits
            loader.hashLimits with
        | aborted =>
          rw [loaded] at accepted
          cases accepted
        | refused =>
          rw [loaded] at accepted
          cases accepted
        | value data =>
          obtain ⟨ttl, rfl⟩ : ∃ ttl : Nat, n = ttl := ⟨n.toNat, by omega⟩
          have positive : 0 < ttl := by omega
          have small : ttl < 2 ^ 63 := by
            unfold InI64 i64Max at inRange
            omega
          obtain ⟨deadline, isDeadline, isMod, notNegative, wrapped⟩ :=
            @restoreDeadline_eq ctx.now.val ttl o.absttl positive small
          have nowFits := ctx.now.isLt
          have gone : (if ((db.touch (arg a 1) ctx.now.val).map.get (arg a 1)).isSome = true then
                (db.touch (arg a 1) ctx.now.val).remove (arg a 1)
              else db.touch (arg a 1) ctx.now.val).map.get (arg a 1) = none := by
            by_cases live : ((db.touch (arg a 1) ctx.now.val).map.get (arg a 1)).isSome = true
            · rw [if_pos live]
              simp [Db.remove]
            · rw [if_neg live]
              simpa using live
          simp only [Int.toNat_natCast, isDeadline, Option.any_some, decide_eq_true_eq]
          generalize instant ⟨false, !o.absttl⟩ ttl ctx.now.val = exact at *
          generalize (if ((db.touch (arg a 1) ctx.now.val).map.get (arg a 1)).isSome = true then
            (db.touch (arg a 1) ctx.now.val).remove (arg a 1)
            else db.touch (arg a 1) ctx.now.val) = removed at gone ⊢
          by_cases past : deadline < ctx.now.val
          · rw [if_pos past]
            have missing : ¬HasDeadline removed (arg a 1) exact := by
              rintro ⟨e', found, _⟩
              rw [gone] at found
              cases found
            constructor
            · rintro ⟨stores, _⟩
              by_contra beyond
              exact missing (stores (by omega))
            · intro below
              refine ⟨?_, fun _ => gone⟩
              intro future
              omega
          · rw [if_neg past]
            constructor
            · intro _
              by_contra beyond
              exact past (wrapped nowFits (by omega))
            · intro below
              constructor
              · intro _
                rw [hasDeadline_insert_iff, Option.map_some, Option.some_inj]
                show (deadline : Int) = exact
                omega
              · intro isPast
                omega

theorem ttlGeneric_eq {ctx : Ctx} (live : db.find key ctx.now.val = some e)
    (isDeadline : e.expiresAt = some deadline) (millis absolute : Bool) :
    (ttlGeneric ctx key millis absolute db).1 =
      .value (.integer
        (let t := if absolute then asI64 deadline
          else max (wrapI64 (asI64 deadline - asI64 ctx.now.val)) 0
        if millis then t else (wrapI64 (t + 500)).tdiv 1000)) := by
  obtain ⟨found, notExpired⟩ := find_eq live
  unfold ttlGeneric
  simp only [get_dropExpired found notExpired, isDeadline]

theorem answer_iff (x y : Int) : Answer.value (.integer x) = .value (.integer y) ↔ x = y :=
  ⟨fun same => Value.integer.inj (Answer.value.inj same), fun same => by rw [same]⟩

theorem wrapI64_eq (x : Int) :
    wrapI64 x = if x % 2 ^ 64 < 2 ^ 63 then x % 2 ^ 64 else x % 2 ^ 64 - 2 ^ 64 := by
  unfold wrapI64
  rw [Int.bmod_def]
  split <;> split <;> omega

theorem left_eq {now : Nat} (le : now ≤ deadline) (fits : deadline < 2 ^ 64) :
    max (wrapI64 (asI64 deadline - asI64 now)) 0 =
      if (deadline : Int) - now < 2 ^ 63 then (deadline : Int) - now else 0 := by
  have castDeadline := asI64_cases fits
  have castNow := asI64_cases (show now < 2 ^ 64 by omega)
  rw [wrapI64_eq]
  split <;> split <;> omega

theorem noSeconds (small : x < 1000) : x.tdiv 1000 ≤ 0 := by
  by_cases negative : x < 0
  · have quotient : x.tdiv 1000 = -(-x / 1000) := by
      rw [← Int.tdiv_eq_ediv_of_nonneg (by omega), Int.neg_tdiv, Int.neg_neg]
    omega
  · rw [Int.tdiv_eq_ediv_of_nonneg (by omega)]
    omega

theorem rounded_iff {t : Int} (low : 0 ≤ t) (high : t < 2 ^ 63) :
    (wrapI64 (t + 500)).tdiv 1000 = roundedSeconds t ↔ t + 500 < 2 ^ 63 := by
  unfold roundedSeconds
  rw [wrapI64_eq]
  by_cases small : t + 500 < 2 ^ 63
  · rw [if_pos (by omega), Int.emod_eq_of_lt (by omega) (by omega),
      Int.tdiv_eq_ediv_of_nonneg (by omega)]
    exact ⟨fun _ => small, fun _ => rfl⟩
  · have negative : (t + 500) % 2 ^ 64 - 2 ^ 64 < 0 := by omega
    have notPositive := noSeconds (show (t + 500) % 2 ^ 64 - 2 ^ 64 < 1000 by omega)
    rw [if_neg (by omega)]
    omega

theorem ttl_exact_iff {ctx : Ctx} (live : db.find (arg a 1) ctx.now.val = some e)
    (entryFits : EntryFits e) (isDeadline : e.expiresAt = some deadline) :
    ((pttl ctx a db).1 = .value (.integer (deadline - ctx.now.val)) ↔
      (deadline : Int) - ctx.now.val < 2 ^ 63) ∧
    ((ttl ctx a db).1 = .value (.integer (roundedSeconds (deadline - ctx.now.val))) ↔
      (deadline : Int) - ctx.now.val + 500 < 2 ^ 63) ∧
    ((pexpiretime ctx a db).1 = .value (.integer deadline) ↔ deadline < 2 ^ 63) ∧
    ((expiretime ctx a db).1 = .value (.integer (roundedSeconds deadline)) ↔
      deadline + 500 < 2 ^ 63) := by
  have le := le_deadline live isDeadline
  have fits := entryFits deadline isDeadline
  have left := left_eq le fits
  have castDeadline := asI64_cases fits
  unfold pttl ttl pexpiretime expiretime
  simp only [ttlGeneric_eq live isDeadline, answer_iff, left, Bool.false_eq_true, if_false, if_true]
  refine ⟨?_, ?_, ?_, ?_⟩
  · split <;> omega
  · split
    · rename_i small
      exact rounded_iff (by omega) small
    · have zero : (wrapI64 (0 + 500)).tdiv 1000 = 0 := by decide
      rw [zero]
      unfold roundedSeconds
      omega
  · omega
  · rcases castDeadline with ⟨small, isCast⟩ | ⟨large, isCast⟩
    · rw [isCast, rounded_iff (by omega) (by omega)]
      omega
    · have whole : wrapI64 (asI64 deadline + 500) = (deadline : Int) - 2 ^ 64 + 500 := by
        rw [isCast, wrapI64_eq]
        split <;> omega
      have notPositive := noSeconds (show (deadline : Int) - 2 ^ 64 + 500 < 1000 by omega)
      rw [whole]
      unfold roundedSeconds
      omega

/-- Deadlines are stored, compared and told exactly, each under a condition that is exact too. -/
theorem deadlines_exact (ctx : Ctx) (a : List Bytes) (db : Db) :
    (∀ kind o n e v, expireOpts (a.drop 3) {} = .ok o → intArg (arg a 2) = .ok n →
      db.find (arg a 1) ctx.now.val = some e → EntryFits e →
      (expireWith kind ctx a db).1 = .value v →
        (ExpireExact kind ctx a db o n e ↔
          Compared kind o e.expiresAt ctx.now.val (instant kind n ctx.now.val) ∧
            Storable kind o e.expiresAt ctx.now.val (instant kind n ctx.now.val))) ∧
    (∀ o kind raw n v, parseExt ctx (a.drop 3) true "set" = .ok o →
      o.opts.exp = some (kind, raw) → intArg raw = .ok n →
      (o.opts.nx = true → db.find (arg a 1) ctx.now.val = none) →
      (o.opts.xx = true → (db.find (arg a 1) ctx.now.val).isSome) →
      (set ctx a db).1 = .value v →
        (HasDeadline (set ctx a db).2 (arg a 1) (instant kind n ctx.now.val) ↔
          instant kind n ctx.now.val < 2 ^ 64)) ∧
    (∀ o kind raw n e s, parseExt ctx (a.drop 2) false "getex" = .ok o →
      o.opts.exp = some (kind, raw) → intArg raw = .ok n →
      db.find (arg a 1) ctx.now.val = some e → e.data = .str s →
        ((∀ e', (getex ctx a db).2.map.get (arg a 1) = some e' →
          e'.expiresAt.map Int.ofNat = some (instant kind n ctx.now.val)) ↔
          instant kind n ctx.now.val < 2 ^ 64)) ∧
    (∀ loader o n v, intArg (arg a 2) = .ok n → restoreOpts (a.drop 4) {} = .ok o → n ≠ 0 →
      (restore loader ctx a db).1 = .value v →
        (((ctx.now.val ≤ instant ⟨false, !o.absttl⟩ n ctx.now.val →
            HasDeadline (restore loader ctx a db).2 (arg a 1)
              (instant ⟨false, !o.absttl⟩ n ctx.now.val)) ∧
          (instant ⟨false, !o.absttl⟩ n ctx.now.val < ctx.now.val →
            (restore loader ctx a db).2.map.get (arg a 1) = none)) ↔
          instant ⟨false, !o.absttl⟩ n ctx.now.val < 2 ^ 64)) ∧
    (∀ e deadline, db.find (arg a 1) ctx.now.val = some e → EntryFits e →
      e.expiresAt = some deadline →
        ((pttl ctx a db).1 = .value (.integer (deadline - ctx.now.val)) ↔
          (deadline : Int) - ctx.now.val < 2 ^ 63) ∧
        ((ttl ctx a db).1 = .value (.integer (roundedSeconds (deadline - ctx.now.val))) ↔
          (deadline : Int) - ctx.now.val + 500 < 2 ^ 63) ∧
        ((pexpiretime ctx a db).1 = .value (.integer deadline) ↔ deadline < 2 ^ 63) ∧
        ((expiretime ctx a db).1 = .value (.integer (roundedSeconds deadline)) ↔
          deadline + 500 < 2 ^ 63)) :=
  ⟨fun _ _ _ _ _ isOpts isArg live entryFits accepted =>
      expire_exact_iff isOpts isArg live entryFits accepted,
    fun _ _ _ _ _ isOk isExp isArg nx xx accepted =>
      set_exact_iff isOk isExp isArg nx xx accepted,
    fun _ _ _ _ _ _ isOk isExp isArg live isText => getex_exact_iff isOk isExp isArg live isText,
    fun _ _ _ _ isArg isOpts given accepted => restore_exact_iff isArg isOpts given accepted,
    fun _ _ live entryFits isDeadline => ttl_exact_iff live entryFits isDeadline⟩

def keyUntil (deadline : Nat) : Db :=
  Db.insert {} (ascii "k") { data := .str [], expiresAt := some deadline } 0

def atOneSecond : Ctx := ⟨1000, 0, false, 2, false, none⟩

def plainLoader : Loader where
  skipChecksum := false
  setLimits := ⟨128, 64, 512⟩
  zsetLimits := ⟨128, 64, 0⟩
  hashLimits := ⟨128, 64, 0⟩
  parseF64 := fun _ => none

def restoreArgs (ttl : String) : List Bytes :=
  [ascii "restore", ascii "k", ascii ttl, [0, 1, 97, 9, 0, 0, 0, 0, 0, 0, 0, 0, 0]]

theorem deadlines_exact_second :
    ExpireExact ⟨true, true⟩ atOneSecond (["expire", "k", "5", "gt"].map ascii) (keyUntil 2500)
        { gt := true } 5 { data := .str [], expiresAt := some 2500 } ∧
      HasDeadline (set atOneSecond (["set", "k", "v", "px", "70"].map ascii) {}).2 (ascii "k") 1070 ∧
      (∀ e', (getex atOneSecond (["getex", "k", "ex", "7"].map ascii) (keyUntil 2500)).2.map.get
        (ascii "k") = some e' → e'.expiresAt.map Int.ofNat = some 8000) ∧
      HasDeadline (restore plainLoader atOneSecond (restoreArgs "70") {}).2 (ascii "k") 1070 ∧
      (ttl atOneSecond [ascii "ttl", ascii "k"] (keyUntil 2500)).1 = .value (.integer 2) := by
  refine ⟨?_, ?_, ?_, ?_, ?_⟩
  · have exact' := (deadlines_exact atOneSecond (["expire", "k", "5", "gt"].map ascii)
      (keyUntil 2500)).1 ⟨true, true⟩ { gt := true } 5 { data := .str [], expiresAt := some 2500 }
        (.integer 1) (by rfl) (by rfl) (by rfl) (by intro d isD; cases isD; decide) (by rfl)
    apply exact'.mpr
    constructor
    · intro deadline isDeadline
      cases isDeadline
      exact Or.inl (by decide)
    · exact Or.inr (Or.inr (by decide))
  · have parses : parseExt atOneSecond ((["set", "k", "v", "px", "70"].map ascii).drop 3) true
        "set" = .ok { opts := { exp := some (⟨false, true⟩, ascii "70") }, expireAt := some 1070 } := by
      simp [parseExt, extOpts, ascii, toAsciiLower, Exp.ofName]
      rfl
    have accepted : (set atOneSecond (["set", "k", "v", "px", "70"].map ascii) {}).1 = .value .ok := by
      unfold set
      rw [parses]
      rfl
    have exact' := (deadlines_exact atOneSecond (["set", "k", "v", "px", "70"].map ascii) {}).2.1
      _ _ _ _ _ parses rfl (by rfl) (fun _ => rfl) (by decide) accepted
    exact exact'.mpr (by decide)
  · have parses : parseExt atOneSecond ((["getex", "k", "ex", "7"].map ascii).drop 2) false
        "getex" = .ok { opts := { exp := some (⟨true, true⟩, ascii "7") }, expireAt := some 8000 } := by
      simp [parseExt, extOpts, ascii, toAsciiLower, Exp.ofName]
      rfl
    have exact' := (deadlines_exact atOneSecond (["getex", "k", "ex", "7"].map ascii)
      (keyUntil 2500)).2.2.1 _ _ _ 7 { data := .str [], expiresAt := some 2500 } [] parses rfl (by rfl)
        (by rfl) rfl
    exact exact'.mpr (by decide)
  · have exact' := (deadlines_exact atOneSecond (restoreArgs "70") {}).2.2.2.1 plainLoader {} 70 .ok
      (by rfl) (by rfl) (by decide) (by rfl)
    exact (exact'.mpr (by decide)).1 (by decide)
  · have answers := (deadlines_exact atOneSecond [ascii "ttl", ascii "k"] (keyUntil 2500)).2.2.2.2
      { data := .str [], expiresAt := some 2500 } 2500 (by rfl) (by intro d isD; cases isD; decide) rfl
    exact answers.2.1.mpr (by decide)

def endless : List Bytes := restoreArgs "9223372036854775807"

theorem restore_negative :
    (restore plainLoader ⟨1, 0, false, 2, false, none⟩ endless {}).1 = .value .ok ∧
    HasDeadline (restore plainLoader ⟨1, 0, false, 2, false, none⟩ endless {}).2 (ascii "k")
      9223372036854775808 ∧
    (pexpiretime ⟨1, 0, false, 2, false, none⟩ [ascii "pexpiretime", ascii "k"]
      (restore plainLoader ⟨1, 0, false, 2, false, none⟩ endless {}).2).1 =
        .value (.integer (-9223372036854775808)) := by
  refine ⟨by rfl, ⟨{ data := .str [97], expiresAt := some 9223372036854775808 }, by rfl, by rfl⟩,
    by rfl⟩

end NoidaDb.Redis.Expiry
