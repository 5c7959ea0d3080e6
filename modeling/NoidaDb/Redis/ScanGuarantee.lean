/-
What an iteration of SCAN, HSCAN, SSCAN or ZSCAN returns, whatever happens between its calls.
-/

import NoidaDb.Redis.ReadEffects
import NoidaDb.Redis.Scans

namespace NoidaDb.Redis

open Lib

inductive Walk where
  | scan
  | hscan
  | sscan
  | zscan
deriving DecidableEq

/-- One call of an iteration: its client's context, its arguments, and the database that it finds. -/
structure Visit where
  ctx : Ctx
  args : List Bytes
  db : Db

def firstOfTwo {α : Type} : List α → List α
  | x :: _ :: rest => x :: firstOfTwo rest
  | _ => []

def Value.bulk? : Value → Option Bytes
  | .bulk b => some b
  | _ => none

namespace Answer

def cursor : Answer → Option Bytes
  | .value (.array [.bulk cursor, .array _]) => some cursor
  | _ => none

def bulks : Answer → List Bytes
  | .value (.array [_, .array items]) => items.filterMap Value.bulk?
  | _ => []

end Answer

namespace Walk

def cursorArg : Walk → Nat
  | scan => 1
  | _ => 2

def run (d2string : F64 → Bytes) (w : Walk) (v : Visit) : Answer :=
  match w with
  | scan => (Redis.scan v.ctx v.args v.db).1
  | hscan => (Redis.hscan v.ctx v.args v.db).1
  | sscan => (Redis.sscan v.ctx v.args v.db).1
  | zscan => (Redis.zscan d2string v.ctx v.args v.db).1

def returned (w : Walk) (answer : Answer) : List Bytes :=
  match w with
  | scan => answer.bulks
  | sscan => answer.bulks
  | hscan => firstOfTwo answer.bulks
  | zscan => firstOfTwo answer.bulks

def target (v : Visit) : Option Data :=
  (v.db.find (arg v.args 1) v.ctx.now.val).map Entry.data

def walked (w : Walk) (v : Visit) : Bool × List Bytes :=
  match w, target v with
  | scan, _ => (true, v.db.liveKeys v.ctx.now.val)
  | hscan, some (.hash h) => (h.big, h.map.map Prod.fst)
  | sscan, some (.set s) => (s.isHash, s.members)
  | zscan, some (.zset z) => (z.big, z.items.map Prod.snd)
  | _, _ => (false, [])

def scanArgs (w : Walk) (v : Visit) : Except Value ScanArgs :=
  parseScan v.args w.cursorArg (decide (w = scan))

def selects (w : Walk) (v : Visit) (x : Bytes) : Bool :=
  match w.scanArgs v with
  | .error _ => false
  | .ok args =>
    args.matchesItem x && (decide (w ≠ scan) || typeMatches args v.db x v.ctx.now.val)

end Walk

/-- An iteration: each call is given the cursor that the one before has returned, from the given
cursor on until 0 is returned. -/
inductive Iterates (d2string : F64 → Bytes) (w : Walk) : Bytes → List Visit → Prop where
  | last {v : Visit} {cursor : Bytes} (given : arg v.args w.cursorArg = cursor)
      (ends : (w.run d2string v).cursor = some (ascii "0")) : Iterates d2string w cursor [v]
  | more {v : Visit} {visits : List Visit} {cursor next : Bytes}
      (given : arg v.args w.cursorArg = cursor) (goesOn : (w.run d2string v).cursor = some next)
      (notEnd : next ≠ ascii "0") (rest : Iterates d2string w next visits) :
      Iterates d2string w cursor (v :: visits)

/-- Between two calls, nothing takes the element from the next cursor's position or a later one to
an earlier one, unless the next call takes the elements whole. -/
def KeepsAhead (w : Walk) (x : Bytes) : List Visit → Prop
  | v :: v' :: visits =>
    (∀ cursor, parseU64 (arg v'.args w.cursorArg) = some cursor → (w.walked v').1 = true →
      cursor.val ≤ (w.walked v).2.idxOf x → cursor.val ≤ (w.walked v').2.idxOf x) ∧
    KeepsAhead w x (v' :: visits)
  | _ => True

section

variable {α β : Type}

theorem page_map (f : α → β) (xs : List α) (cursor count : Nat) :
    page (xs.map f) cursor count = (page xs cursor count).map f := by
  unfold page
  simp only [List.length_map, List.map_drop, List.map_take]

theorem scanned_map (f : α → β) (big : Bool) (xs : List α) (args : ScanArgs) :
    scanned big (xs.map f) args = (scanned big xs args).map f := by
  cases big with
  | false => rfl
  | true => exact page_map f xs _ _

theorem scanNext_map (f : α → β) (big : Bool) (xs : List α) (args : ScanArgs) :
    scanNext big (xs.map f) args = scanNext big xs args := by
  unfold scanNext
  rw [List.length_map]

theorem firstOfTwo_pairs (f g : α → Bytes) (xs : List α) :
    firstOfTwo ((xs.flatMap (fun e => [Value.bulk (f e), .bulk (g e)])).filterMap Value.bulk?) =
      xs.map f := by
  induction xs with
  | nil => rfl
  | cons x xs ih =>
    rw [List.map_cons, ← ih]
    rfl

theorem bulks_map (xs : List Bytes) : (xs.map Value.bulk).filterMap Value.bulk? = xs := by
  induction xs with
  | nil => rfl
  | cons x xs ih =>
    rw [List.map_cons, List.filterMap_cons]
    exact congrArg (List.cons x) ih

end

structure Walk.Tells (w : Walk) (v : Visit) (args : ScanArgs) (answer : Answer) : Prop where
  parses : w.scanArgs v = .ok args
  cursor : answer.cursor = some (showNat (scanNext (w.walked v).1 (w.walked v).2 args))
  returned : ∀ x ∈ scanned (w.walked v).1 (w.walked v).2 args, w.selects v x = true →
    x ∈ w.returned answer

namespace Walk.Tells

variable {w : Walk} {v : Visit} {args : ScanArgs} {big : Bool} {xs out : List Bytes} {next : Nat}
  {items : List Value}

theorem of_reply (parses : w.scanArgs v = .ok args) (isWalked : w.walked v = (big, xs))
    (isNext : next = scanNext big xs args) (isOut : w.returned (scanReply next items) = out)
    (kept : ∀ x ∈ scanned big xs args, w.selects v x = true → x ∈ out) :
    w.Tells v args (scanReply next items) where
  parses := parses
  cursor := by
    rw [isWalked, isNext]
    rfl
  returned := by
    rw [isWalked, isOut]
    exact kept

theorem of_missing (parses : w.scanArgs v = .ok args) (isWalked : w.walked v = (false, [])) :
    w.Tells v args (scanReply 0 []) :=
  of_reply parses isWalked rfl rfl (fun x member => by cases member)

end Walk.Tells

theorem get_lookup (ctx : Ctx) (key : Bytes) (db : Db) :
    (ctx.lookup key db).map.get key = db.find key ctx.now.val := by
  rw [map_lookup]
  unfold Db.dropExpired Db.find
  cases isEntry : db.map.get key with
  | none => simp [isEntry]
  | some e =>
    cases expired : e.isExpired ctx.now.val with
    | true => simp [Option.filter, expired]
    | false => simp [Option.filter, expired, isEntry]

variable {args : ScanArgs} {w : Walk}

theorem Walk.selects_eq {v : Visit} (notScan : w ≠ .scan) (parses : w.scanArgs v = .ok args)
    (x : Bytes) : w.selects v x = args.matchesItem x := by
  unfold Walk.selects
  rw [parses]
  simp [notScan]

theorem hscan_tells (d2string : F64 → Bytes) (v : Visit) :
    (∃ e, Walk.hscan.run d2string v = .error e) ∨
      ∃ args, Walk.hscan.Tells v args (Walk.hscan.run d2string v) := by
  unfold Walk.run
  simp only []
  unfold hscan parsed
  cases parses : parseScan v.args 2 false with
  | error e => exact Or.inl ⟨e, rfl⟩
  | ok args =>
    have isArgs : Walk.hscan.scanArgs v = .ok args := parses
    have isFound := get_lookup v.ctx (arg v.args 1) v.db
    simp only []
    unfold Ctx.getHash Outcome.andThen
    simp only [isFound]
    cases isEntry : v.db.find (arg v.args 1) v.ctx.now.val with
    | none =>
      have isWalked : Walk.hscan.walked v = (false, []) := by
        unfold Walk.walked Walk.target
        rw [isEntry]
        rfl
      exact Or.inr ⟨args, .of_missing isArgs isWalked⟩
    | some entry =>
      obtain ⟨data, expiresAt⟩ := entry
      cases data with
      | hash h =>
        have isWalked : Walk.hscan.walked v = (h.big, h.map.map Prod.fst) := by
          unfold Walk.walked Walk.target
          rw [isEntry]
          rfl
        refine Or.inr ⟨args, .of_reply isArgs isWalked (scanNext_map _ _ _ _).symm
          (firstOfTwo_pairs Prod.fst Prod.snd _) ?_⟩
        intro x member selected
        rw [Walk.selects_eq (by simp) isArgs] at selected
        rw [scanned_map] at member
        obtain ⟨e, isIn, isElement⟩ := List.mem_map.mp member
        apply List.mem_map.mpr
        refine ⟨e, List.mem_filter.mpr ⟨isIn, ?_⟩, isElement⟩
        rw [← isElement] at selected
        exact selected
      | _ => exact Or.inl ⟨_, rfl⟩

theorem sscan_tells (d2string : F64 → Bytes) (v : Visit) :
    (∃ e, Walk.sscan.run d2string v = .error e) ∨
      ∃ args, Walk.sscan.Tells v args (Walk.sscan.run d2string v) := by
  unfold Walk.run
  simp only []
  unfold sscan parsed
  cases parses : parseScan v.args 2 false with
  | error e => exact Or.inl ⟨e, rfl⟩
  | ok args =>
    have isArgs : Walk.sscan.scanArgs v = .ok args := parses
    have isFound := get_lookup v.ctx (arg v.args 1) v.db
    simp only []
    unfold Ctx.getSet Outcome.andThen
    simp only [isFound]
    cases isEntry : v.db.find (arg v.args 1) v.ctx.now.val with
    | none =>
      have isWalked : Walk.sscan.walked v = (false, []) := by
        unfold Walk.walked Walk.target
        rw [isEntry]
        rfl
      exact Or.inr ⟨args, .of_missing isArgs isWalked⟩
    | some entry =>
      obtain ⟨data, expiresAt⟩ := entry
      cases data with
      | set s =>
        have isWalked : Walk.sscan.walked v = (s.isHash, s.members) := by
          unfold Walk.walked Walk.target
          rw [isEntry]
          rfl
        refine Or.inr ⟨args, .of_reply isArgs isWalked rfl (bulks_map _) ?_⟩
        intro x member selected
        rw [Walk.selects_eq (by simp) isArgs] at selected
        exact List.mem_filter.mpr ⟨member, selected⟩
      | _ => exact Or.inl ⟨_, rfl⟩

theorem zscan_tells (d2string : F64 → Bytes) (v : Visit) :
    (∃ e, Walk.zscan.run d2string v = .error e) ∨
      ∃ args, Walk.zscan.Tells v args (Walk.zscan.run d2string v) := by
  unfold Walk.run
  simp only []
  unfold zscan parsed
  cases parses : parseScan v.args 2 false with
  | error e => exact Or.inl ⟨e, rfl⟩
  | ok args =>
    have isArgs : Walk.zscan.scanArgs v = .ok args := parses
    have isFound := get_lookup v.ctx (arg v.args 1) v.db
    simp only []
    unfold Ctx.getZset Outcome.andThen
    simp only [isFound]
    cases isEntry : v.db.find (arg v.args 1) v.ctx.now.val with
    | none =>
      have isWalked : Walk.zscan.walked v = (false, []) := by
        unfold Walk.walked Walk.target
        rw [isEntry]
        rfl
      exact Or.inr ⟨args, .of_missing isArgs isWalked⟩
    | some entry =>
      obtain ⟨data, expiresAt⟩ := entry
      cases data with
      | zset z =>
        have isWalked : Walk.zscan.walked v = (z.big, z.items.map Prod.snd) := by
          unfold Walk.walked Walk.target
          rw [isEntry]
          rfl
        refine Or.inr ⟨args, .of_reply isArgs isWalked (scanNext_map _ _ _ _).symm
          (firstOfTwo_pairs Prod.snd (fun e => d2string e.1) _) ?_⟩
        intro x member selected
        rw [Walk.selects_eq (by simp) isArgs] at selected
        rw [scanned_map] at member
        obtain ⟨e, isIn, isElement⟩ := List.mem_map.mp member
        apply List.mem_map.mpr
        refine ⟨e, List.mem_filter.mpr ⟨isIn, ?_⟩, isElement⟩
        rw [← isElement] at selected
        exact selected
      | _ => exact Or.inl ⟨_, rfl⟩

namespace Db

theorem expiredAt_dropExpired (db : Db) (key other : Bytes) (now : Nat) :
    (db.dropExpired key now).map.get other =
      if other = key ∧ db.expiredAt key now = true then none else db.map.get other := by
  unfold dropExpired expiredAt
  split
  · rename_i expired
    by_cases same : other = key
    · simp [same, expired]
    · simp [same]
  · rename_i notExpired
    simp [notExpired]

theorem find_dropAll (keys : List Bytes) (db : Db) (now : Nat) (other : Bytes) :
    (keys.foldl (fun db key => db.dropExpired key now) db).find other now = db.find other now := by
  induction keys generalizing db with
  | nil => rfl
  | cons key keys ih =>
    rw [List.foldl_cons, ih]
    unfold find
    rw [expiredAt_dropExpired]
    split
    · rename_i both
      rw [both.1]
      have expired := both.2
      unfold expiredAt at expired
      cases isEntry : db.map.get key with
      | none => rfl
      | some e =>
        rw [isEntry] at expired
        have isExpired : e.isExpired now = true := by simpa using expired
        simp [Option.filter, isExpired]
    · rfl

theorem mem_liveKeys {db : Db} {now : Nat} {key : Bytes} :
    key ∈ db.liveKeys now ↔ (db.find key now).isSome = true := by
  unfold liveKeys expiredAt find
  rw [List.mem_filter, OrderedMap.mem_keys_iff]
  cases isEntry : db.map.get key with
  | none => simp
  | some e =>
    cases expired : e.isExpired now with
    | true => simp [Option.filter, expired]
    | false => simp [Option.filter, expired]

theorem liveKeys_sorted (db : Db) (now : Nat) : (db.liveKeys now).Pairwise (· < ·) :=
  db.map.keys_sorted.filter _

theorem liveKeys_eq {db db' : Db} {now : Nat}
    (same : ∀ key, db.find key now = db'.find key now) : db.liveKeys now = db'.liveKeys now := by
  apply @List.Perm.eq_of_pairwise _ (fun a b => a < b)
  · intro a b _ _ less more
    exact absurd less (lt_asymm more)
  · exact db.liveKeys_sorted now
  · exact db'.liveKeys_sorted now
  · apply (List.perm_ext_iff_of_nodup _ _).mpr
    · intro key
      rw [mem_liveKeys, mem_liveKeys, same]
    · exact (db.liveKeys_sorted now).imp (fun less => ne_of_lt less)
    · exact (db'.liveKeys_sorted now).imp (fun less => ne_of_lt less)

theorem find_purgeExpired (db : Db) (now : Nat) (key : Bytes) :
    (db.purgeExpired now).find key now = db.find key now := by
  unfold purgeExpired
  split
  · rfl
  · unfold find
    rw [OrderedMap.get_filter]
    unfold expiredAt
    cases isEntry : db.map.get key with
    | none => simp
    | some e =>
      cases expired : e.isExpired now with
      | true => simp [Option.filter, expired]
      | false => simp [Option.filter, expired]

end Db

theorem scan_tells (d2string : F64 → Bytes) (v : Visit) :
    (∃ e, Walk.scan.run d2string v = .error e) ∨
      ∃ args, Walk.scan.Tells v args (Walk.scan.run d2string v) := by
  unfold Walk.run
  simp only []
  unfold scan parsed
  cases parses : parseScan v.args 1 true with
  | error e => exact Or.inl ⟨e, rfl⟩
  | ok args =>
    have isArgs : Walk.scan.scanArgs v = .ok args := parses
    have sameFind := Db.find_dropAll (v.db.expiredKeys v.ctx.now.val) v.db v.ctx.now.val
    simp only []
    generalize (v.db.expiredKeys v.ctx.now.val).foldl
      (fun db key => db.dropExpired key v.ctx.now.val) v.db = db at sameFind ⊢
    rw [Db.liveKeys_eq sameFind]
    refine Or.inr ⟨args, .of_reply isArgs rfl rfl (bulks_map _) ?_⟩
    intro x member selected
    apply List.mem_filter.mpr
    refine ⟨member, ?_⟩
    have sameType : typeMatches args (db.purgeExpired v.ctx.now.val) x v.ctx.now.val =
        typeMatches args v.db x v.ctx.now.val := by
      unfold typeMatches
      rw [Db.find_purgeExpired, sameFind]
    rw [sameType]
    unfold Walk.selects at selected
    rw [isArgs] at selected
    simpa using selected

theorem run_tells (d2string : F64 → Bytes) (w : Walk) (v : Visit) :
    (∃ e, w.run d2string v = .error e) ∨ ∃ args, w.Tells v args (w.run d2string v) := by
  cases w with
  | scan => exact scan_tells d2string v
  | hscan => exact hscan_tells d2string v
  | sscan => exact sscan_tells d2string v
  | zscan => exact zscan_tells d2string v

theorem scanOptions_keeps {allowType : Bool} (rest : List Bytes) {given : ScanArgs}
    (parses : scanOptions allowType rest given = .ok args) (positive : 0 < given.count) :
    args.cursor = given.cursor ∧ 0 < args.count := by
  induction rest, given using scanOptions.induct allowType with
  | case1 given =>
    cases parses
    exact ⟨rfl, positive⟩
  | case2 x given => cases parses
  | case3 x y rest given isCount ih =>
    unfold scanOptions at parses
    rw [if_pos isCount] at parses
    cases isInt : intArg y with
    | error e =>
      rw [isInt] at parses
      cases parses
    | ok n =>
      rw [isInt] at parses
      change (if n < 1 then syntaxError else _) = _ at parses
      split at parses
      · cases parses
      · exact ih n parses (by show 0 < n.toNat; omega)
  | case4 x y rest given notCount isMatch ih =>
    unfold scanOptions at parses
    rw [if_neg notCount, if_pos isMatch] at parses
    exact ih parses positive
  | case5 x y rest given notCount notMatch isType ih =>
    unfold scanOptions at parses
    rw [if_neg notCount, if_neg notMatch, if_pos isType] at parses
    exact ih parses positive
  | case6 x y rest given notCount notMatch notType =>
    unfold scanOptions at parses
    rw [if_neg notCount, if_neg notMatch, if_neg notType] at parses
    cases parses

theorem parseScan_cursor {a : List Bytes} {i : Nat} {allowType : Bool}
    (parses : parseScan a i allowType = .ok args) :
    (∃ cursor, parseU64 (arg a i) = some cursor ∧ args.cursor = cursor.val) ∧ 0 < args.count := by
  unfold parseScan at parses
  cases isCursor : parseU64 (arg a i) with
  | none =>
    rw [isCursor] at parses
    cases parses
  | some cursor =>
    rw [isCursor] at parses
    obtain ⟨same, positive⟩ := scanOptions_keeps _ parses (Nat.succ_pos 9)
    exact ⟨⟨cursor, rfl, same⟩, positive⟩

theorem parseU64_value {n : Nat} {c : U64} (parses : parseU64 (showNat n) = some c) :
    c.val = n := by
  have noPlus : (showNat n).head? ≠ some 43 := by
    intro isHead
    exact digit_ne_plus (showNat_digits n 43 (List.mem_of_head? isHead)) rfl
  unfold parseU64 at parses
  simp only [beq_eq_false_iff_ne.mpr noPlus, Bool.false_eq_true, if_false] at parses
  split at parses
  · split at parses
    · cases parses
      exact valueOf_showNat n
    · cases parses
  · cases parses

theorem showNat_eq_zero {n : Nat} (isZero : showNat n = ascii "0") : n = 0 := by
  have same := congrArg valueOf isZero
  rw [valueOf_showNat] at same
  exact same

theorem Walk.Tells.returns_or {v : Visit} {answer : Answer} {x next : Bytes}
    (tells : w.Tells v args answer) (isNext : answer.cursor = some next)
    (present : x ∈ (w.walked v).2) (selected : w.selects v x = true)
    (start : ∀ c, parseU64 (arg v.args w.cursorArg) = some c → (w.walked v).1 = true →
      c.val ≤ (w.walked v).2.idxOf x) :
    x ∈ w.returned answer ∨ ∃ n, next = showNat n ∧ 0 < n ∧ n ≤ (w.walked v).2.idxOf x := by
  have returns := tells.returned x
  have isCursor := tells.cursor
  rw [isNext] at isCursor
  cases big : (w.walked v).1 with
  | false =>
    rw [big] at returns
    exact Or.inl (returns present selected)
  | true =>
    rw [big] at returns isCursor
    obtain ⟨isGiven, positive⟩ := parseScan_cursor tells.parses
    obtain ⟨c, isC, same⟩ := isGiven
    have notAfter := start c isC big
    rw [← same] at notAfter
    by_cases inPage : (w.walked v).2.idxOf x < args.cursor + args.count
    · exact Or.inl (returns (mem_page present notAfter inPage) selected)
    · apply Or.inr
      have isLater : args.cursor + args.count ≤ (w.walked v).2.idxOf x := not_lt.mp inPage
      refine ⟨args.cursor + args.count, ?_, by omega, isLater⟩
      rw [← nextPage_eq present isLater]
      exact Option.some.inj isCursor

theorem returned_of_iterates {d2string : F64 → Bytes} {x cursor : Bytes} {visits : List Visit}
    (iterates : Iterates d2string w cursor visits)
    (start : ∀ v ∈ visits.head?, ∀ c, parseU64 cursor = some c → (w.walked v).1 = true →
      c.val ≤ (w.walked v).2.idxOf x)
    (present : ∀ v ∈ visits, x ∈ (w.walked v).2 ∧ w.selects v x = true)
    (ahead : KeepsAhead w x visits) : ∃ v ∈ visits, x ∈ w.returned (w.run d2string v) := by
  induction iterates with
  | @last v cursor given ends =>
    obtain ⟨isIn, selected⟩ := present v List.mem_cons_self
    rcases run_tells d2string w v with ⟨e, failed⟩ | ⟨args, tells⟩
    · rw [failed] at ends
      cases ends
    · rw [← given] at start
      rcases tells.returns_or ends isIn selected (start v rfl) with returns | ⟨n, isNext, positive, _⟩
      · exact ⟨v, List.mem_cons_self, returns⟩
      · have isZero := showNat_eq_zero isNext.symm
        omega
  | @more v visits cursor next given goesOn notEnd rest ih =>
    obtain ⟨isIn, selected⟩ := present v List.mem_cons_self
    rcases run_tells d2string w v with ⟨e, failed⟩ | ⟨args, tells⟩
    · rw [failed] at goesOn
      cases goesOn
    · rw [← given] at start
      rcases tells.returns_or goesOn isIn selected (start v rfl) with returns | ⟨n, isNext, _, notAfter⟩
      · exact ⟨v, List.mem_cons_self, returns⟩
      · obtain ⟨v', visits', isVisits, isGiven⟩ : ∃ v' visits', visits = v' :: visits' ∧
            arg v'.args w.cursorArg = next := by
          cases rest with
          | last given' _ => exact ⟨_, [], rfl, given'⟩
          | more given' _ _ _ => exact ⟨_, _, rfl, given'⟩
        subst isVisits
        obtain ⟨stays, aheadRest⟩ := ahead
        have startRest : ∀ u ∈ (v' :: visits').head?, ∀ c, parseU64 next = some c →
            (w.walked u).1 = true → c.val ≤ (w.walked u).2.idxOf x := by
          intro u isHead c parses big
          cases isHead
          have isN : c.val = n := parseU64_value (isNext ▸ parses)
          apply stays c (isGiven ▸ parses) big
          rw [isN]
          exact notAfter
        obtain ⟨u, member, returns⟩ := ih startRest
          (fun u member => present u (List.mem_cons_of_mem _ member)) aheadRest
        exact ⟨u, List.mem_cons_of_mem _ member, returns⟩

/-- An element that is there all the time, and that the filters let through, is returned by some call if
nothing takes it from behind the cursor's position to before it. -/
theorem scan_returns (d2string : F64 → Bytes) (w : Walk) (x : Bytes) (visits : List Visit)
    (iterates : Iterates d2string w (ascii "0") visits)
    (present : ∀ v ∈ visits, x ∈ (w.walked v).2 ∧ w.selects v x = true)
    (ahead : KeepsAhead w x visits) : ∃ v ∈ visits, x ∈ w.returned (w.run d2string v) := by
  apply returned_of_iterates iterates _ present ahead
  intro v _ c isZero _
  have isC : c = 0 := by
    have parses : parseU64 (ascii "0") = some 0 := by decide
    rw [parses] at isZero
    exact (Option.some.inj isZero).symm
  rw [isC]
  exact Nat.zero_le _

def fourKeys : Db :=
  ["a", "b", "c", "d"].foldl (fun db k => db.insert (ascii k) { data := .str [] } 1) {}

def scanCall (words : List String) (db : Db) : Visit :=
  { ctx := { now := 1, wall := 1 }, args := words.map ascii, db := db }

/-- Between the calls the last key is deleted. -/
def undisturbed : List Visit :=
  [scanCall ["SCAN", "0", "COUNT", "2"] fourKeys,
    scanCall ["SCAN", "2", "COUNT", "2"] (fourKeys.remove (ascii "d"))]

theorem scan_returns_undisturbed :
    ∃ v ∈ undisturbed, ascii "c" ∈ Walk.scan.returned (Walk.scan.run (fun _ => []) v) := by
  apply scan_returns (fun _ => []) .scan (ascii "c") undisturbed
  · have goesOn : (Walk.scan.run (fun _ => []) (scanCall ["SCAN", "0", "COUNT", "2"]
        fourKeys)).cursor = some (ascii "2") := by
      decide +kernel
    have ends : (Walk.scan.run (fun _ => []) (scanCall ["SCAN", "2", "COUNT", "2"]
        (fourKeys.remove (ascii "d")))).cursor = some (ascii "0") := by
      decide +kernel
    exact .more rfl goesOn (by decide) (.last rfl ends)
  · intro v member
    have both : undisturbed.all (fun v => (Walk.scan.walked v).2.contains (ascii "c") &&
        Walk.scan.selects v (ascii "c")) = true := by
      decide +kernel
    simpa using List.all_eq_true.mp both v member
  · have stays : (Walk.scan.walked (scanCall ["SCAN", "2", "COUNT", "2"]
          (fourKeys.remove (ascii "d")))).2.idxOf (ascii "c") =
        (Walk.scan.walked (scanCall ["SCAN", "0", "COUNT", "2"] fourKeys)).2.idxOf (ascii "c") := by
      decide +kernel
    constructor
    · intro cursor _ _ atMost
      rw [stays]
      exact atMost
    · trivial

def overtaken : List Visit :=
  [scanCall ["SCAN", "0", "COUNT", "2"] fourKeys,
    scanCall ["SCAN", "2", "COUNT", "2"] (fourKeys.remove (ascii "a"))]

/-- A key that is there in both calls is returned by none. -/
theorem scan_misses :
    Iterates (fun _ => []) .scan (ascii "0") overtaken ∧
      (∀ v ∈ overtaken, ascii "c" ∈ (Walk.scan.walked v).2 ∧
        Walk.scan.selects v (ascii "c") = true) ∧
      ∀ v ∈ overtaken, ascii "c" ∉ Walk.scan.returned (Walk.scan.run (fun _ => []) v) := by
  refine ⟨?_, ?_, ?_⟩
  · have goesOn : (Walk.scan.run (fun _ => []) (scanCall ["SCAN", "0", "COUNT", "2"]
        fourKeys)).cursor = some (ascii "2") := by
      decide +kernel
    have ends : (Walk.scan.run (fun _ => []) (scanCall ["SCAN", "2", "COUNT", "2"]
        (fourKeys.remove (ascii "a")))).cursor = some (ascii "0") := by
      decide +kernel
    exact .more rfl goesOn (by decide) (.last rfl ends)
  · intro v member
    have both : overtaken.all (fun v => (Walk.scan.walked v).2.contains (ascii "c") &&
        Walk.scan.selects v (ascii "c")) = true := by
      decide +kernel
    simpa using List.all_eq_true.mp both v member
  · intro v member
    have neither : overtaken.all (fun v =>
        !(Walk.scan.returned (Walk.scan.run (fun _ => []) v)).contains (ascii "c")) = true := by
      decide +kernel
    simpa using List.all_eq_true.mp neither v member

end NoidaDb.Redis
