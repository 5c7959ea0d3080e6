/-
What DUMP wrote is restored: the same value, but for -0 scores that a small sorted set stores
as 0.
-/

import NoidaDb.Redis.Numbers
import NoidaDb.Redis.RdbStrings

namespace NoidaDb.Redis

open Lib Reader

theorem Hash.put_new {k v : Bytes} {map : PairList} (isNew : k ∉ map.map Prod.fst) :
    Hash.put k v map = map ++ [(k, v)] := by
  induction map with
  | nil => rfl
  | cons e rest ih =>
    simp only [List.map_cons, List.mem_cons, not_or] at isNew
    unfold Hash.put
    rw [if_neg (fun same => isNew.1 same.symm), ih isNew.2]
    rfl

theorem Rdb.hashOf_map (lim : Limits) (items : PairList) (h : Hash)
    (distinct : ((h.map ++ items).map Prod.fst).Nodup) :
    (items.foldl (fun h p => h.insert p.1 p.2 lim) h).map = h.map ++ items := by
  induction items generalizing h with
  | nil => exact (List.append_nil h.map).symm
  | cons p items ih =>
    have isNew : p.1 ∉ h.map.map Prod.fst := by
      intro member
      rw [List.map_append, List.nodup_append] at distinct
      exact distinct.2.2 p.1 member p.1 List.mem_cons_self rfl
    have isMap : (h.insert p.1 p.2 lim).map = h.map ++ [p] := Hash.put_new isNew
    rw [List.foldl_cons, ih _ (by rw [isMap, List.append_assoc]; exact distinct), isMap,
      List.append_assoc]
    rfl

namespace SetData

theorem mem_append (items : List Bytes) (m x : Bytes) : x ∈ append items m ↔ x ∈ items ∨ x = m := by
  unfold append
  split
  next isIn =>
    have member := List.contains_iff_mem.mp isIn
    constructor
    · exact Or.inl
    · intro either
      cases either with
      | inl old => exact old
      | inr same =>
        rw [same]
        exact member
  next isNew => simp

theorem nodup_append {items : List Bytes} (distinct : items.Nodup) (m : Bytes) :
    (append items m).Nodup := by
  unfold append
  split
  next isIn => exact distinct
  next isNew =>
    apply List.Nodup.append distinct (List.nodup_singleton m)
    intro x old same
    rw [List.mem_singleton.mp same] at old
    exact isNew (List.contains_iff_mem.mpr old)

theorem mem_copied (s : SetData) (x : Bytes) : x ∈ s.copied ↔ x ∈ s.members := by
  have general (items acc : List Bytes) : x ∈ items.foldl append acc ↔ x ∈ acc ∨ x ∈ items := by
    induction items generalizing acc with
    | nil => simp
    | cons m items ih =>
      rw [List.foldl_cons, ih, mem_append, List.mem_cons]
      exact or_assoc
  unfold copied
  rw [general]
  simp

theorem nodup_copied (s : SetData) : s.copied.Nodup := by
  have general (items acc : List Bytes) (distinct : acc.Nodup) : (items.foldl append acc).Nodup := by
    induction items generalizing acc with
    | nil => exact distinct
    | cons m items ih => exact ih _ (nodup_append distinct m)
  exact general _ [] List.nodup_nil

theorem members_ints (v : List Int) : (ints v).members = v.map showInt := rfl

theorem mem_orderedInsert (v : List Int) (n : Int) (x : Bytes) :
    x ∈ (v.orderedInsert (· ≤ ·) n).map showInt ↔ x ∈ v.map showInt ∨ x = showInt n := by
  simp only [List.mem_map, List.mem_orderedInsert]
  constructor
  · intro member
    obtain ⟨i, isIn, shown⟩ := member
    cases isIn with
    | inl same =>
      right
      rw [← shown, same]
    | inr old => exact Or.inl ⟨i, old, shown⟩
  · intro either
    cases either with
    | inl member =>
      obtain ⟨i, old, shown⟩ := member
      exact ⟨i, Or.inr old, shown⟩
    | inr same => exact ⟨n, Or.inl rfl, same.symm⟩

theorem mem_add (s : SetData) (m : Bytes) (lim : Limits) (x : Bytes) :
    x ∈ (s.add m lim).members ↔ x ∈ s.members ∨ x = m := by
  cases s with
  | ints v =>
    unfold add
    cases isNumber : parseInt m with
    | some n =>
      simp only
      have shown := showInt_parseInt isNumber
      split
      next isIn =>
        have member : m ∈ (ints v).members := by
          rw [members_ints, ← shown]
          exact List.mem_map_of_mem (List.contains_iff_mem.mp isIn)
        constructor
        · exact Or.inl
        · intro either
          cases either with
          | inl old => exact old
          | inr same =>
            rw [same]
            exact member
      next isNew =>
        rw [← shown]
        split
        · show x ∈ copied _ ↔ _
          rw [mem_copied]
          exact mem_orderedInsert v n x
        · exact mem_orderedInsert v n x
    | none =>
      simp only
      have isMember : x ∈ append (copied (ints v)) m ↔ x ∈ (ints v).members ∨ x = m := by
        rw [mem_append, mem_copied]
      split <;> exact isMember
  | pack items =>
    simp only [add]
    split
    next isIn =>
      constructor
      · exact Or.inl
      · intro either
        cases either with
        | inl old => exact old
        | inr same =>
          rw [same]
          exact List.contains_iff_mem.mp isIn
    next isNew =>
      split
      · exact mem_append items m x
      · show x ∈ append _ m ↔ _
        rw [mem_append, mem_copied]
  | hash items => exact mem_append items m x

theorem nodup_add {s : SetData} (distinct : s.members.Nodup) (m : Bytes) (lim : Limits) :
    (s.add m lim).members.Nodup := by
  cases s with
  | ints v =>
    unfold add
    cases isNumber : parseInt m with
    | some n =>
      simp only
      split
      next isIn => exact distinct
      next isNew =>
        split
        · exact nodup_copied _
        · show ((v.orderedInsert (· ≤ ·) n).map showInt).Nodup
          have numbers : v.Nodup := List.Nodup.of_map showInt distinct
          have fresh : n ∉ v := fun old => isNew (List.contains_iff_mem.mpr old)
          apply List.Nodup.map (fun i j => showInt_inj)
          apply (List.perm_orderedInsert (· ≤ ·) n v).nodup_iff.mpr
          exact List.nodup_cons.mpr ⟨fresh, numbers⟩
    | none =>
      simp only
      have result := nodup_append (nodup_copied (ints v)) m
      split <;> exact result
  | pack items =>
    simp only [add]
    split
    next isIn => exact distinct
    next isNew =>
      split
      · exact nodup_append distinct m
      · exact nodup_append (nodup_copied _) m
  | hash items => exact nodup_append distinct m

theorem members_create (first : Bytes) (sizeHint : Nat) (lim : Limits) :
    (create first sizeHint lim).members = [] := by
  unfold create
  split
  · rfl
  · split <;> rfl

end SetData

namespace Rdb

theorem mem_foldl_add (lim : Limits) (items : List Bytes) (s : SetData) (x : Bytes) :
    x ∈ (items.foldl (fun s m => s.add m lim) s).members ↔ x ∈ s.members ∨ x ∈ items := by
  induction items generalizing s with
  | nil => simp
  | cons m items ih =>
    rw [List.foldl_cons, ih, SetData.mem_add, List.mem_cons]
    exact or_assoc

theorem nodup_foldl_add (lim : Limits) (items : List Bytes) {s : SetData}
    (distinct : s.members.Nodup) : (items.foldl (fun s m => s.add m lim) s).members.Nodup := by
  induction items generalizing s with
  | nil => exact distinct
  | cons m items ih => exact ih (SetData.nodup_add distinct m lim)

theorem mem_setOf (lim : Limits) (items : List Bytes) (x : Bytes) :
    x ∈ (setOf lim items).members ↔ x ∈ items := by
  unfold setOf
  rw [mem_foldl_add, SetData.members_create]
  simp

theorem nodup_setOf (lim : Limits) (items : List Bytes) : (setOf lim items).members.Nodup := by
  apply nodup_foldl_add
  rw [SetData.members_create]
  exact List.nodup_nil

end Rdb

/-- The items as they come back when they are inserted one after the other, the set being big
already or not and having so many items. -/
def reloaded (lim : Limits) : List (F64 × Bytes) → Bool → Nat → List (F64 × Bytes)
  | [], _, _ => []
  | (score, m) :: rest, big, count =>
    let big := big || decide (lim.entries < count + 1) || decide (lim.value < m.length)
    (Zset.storedScore big score, m) :: reloaded lim rest big (count + 1)

namespace Zset

theorem target_le (items : List (F64 × Bytes)) (x : F64 × Bytes) :
    target items x ≤ items.length := by
  have low : place items x ≤ items.length := List.findIdx_le_length
  unfold target pos
  simp only
  split
  next i isPos =>
    split at isPos
    · split at isPos
      · cases isPos
        exact low
      · cases isPos
    · cases isPos
  next i isPos =>
    split at isPos
    · split at isPos
      · cases isPos
      · cases isPos
        exact low
    · cases isPos
      exact low

variable {z : Zset} {m : Bytes}

theorem insert_new (isNew : z.scores.get m = none) (score : F64) (lim : Limits) :
    z.insert m score lim = some (put z m score (z.bigWith m lim), true) := by
  unfold insert
  rw [isNew]

theorem put_items (z : Zset) (m : Bytes) (score : F64) (big : Bool) :
    ((put z m score big).items).Perm ((storedScore big score, m) :: z.items) :=
  List.perm_insertIdx _ _ (target_le _ _)

/-- What holds of a set in which each member has one item, and the index finds it. -/
def Indexed (z : Zset) : Prop :=
  (z.items.map Prod.snd).Nodup ∧ ∀ m score, z.scores.get m = some score ↔ (score, m) ∈ z.items

theorem indexed_empty : Indexed {} := by
  constructor
  · exact List.nodup_nil
  · intro m score
    constructor <;> intro impossible <;> cases impossible

theorem Indexed.get_eq_none (indexed : z.Indexed) (isNew : m ∉ z.items.map Prod.snd) :
    z.scores.get m = none := by
  cases found : z.scores.get m with
  | none => rfl
  | some score =>
    have member := (indexed.2 m score).mp found
    exact absurd (List.mem_map_of_mem (f := Prod.snd) member) isNew

theorem Indexed.put (indexed : z.Indexed) (isNew : m ∉ z.items.map Prod.snd) (score : F64)
    (big : Bool) : (put z m score big).Indexed := by
  have isPerm := put_items z m score big
  constructor
  · rw [(isPerm.map Prod.snd).nodup_iff, List.map_cons, List.nodup_cons]
    exact ⟨isNew, indexed.1⟩
  · intro x s
    rw [isPerm.mem_iff, List.mem_cons]
    show (z.scores.insert m (storedScore big score)).get x = some s ↔ _
    rw [OrderedMap.get_insert]
    split
    next same =>
      rw [same]
      constructor
      · intro isScore
        cases isScore
        exact Or.inl rfl
      · intro either
        cases either with
        | inl isItem =>
          cases isItem
          rfl
        | inr old => exact absurd (List.mem_map_of_mem (f := Prod.snd) old) isNew
    next other =>
      rw [indexed.2 x s]
      constructor
      · exact Or.inr
      · intro either
        cases either with
        | inl isItem =>
          cases isItem
          exact absurd rfl other
        | inr old => exact old

end Zset

namespace Rdb

theorem zsetOf_items (lim : Limits) (items : List (F64 × Bytes)) {z : Zset}
    (indexed : z.Indexed) (distinct : ((items ++ z.items).map Prod.snd).Nodup) :
    ∃ z', zsetOf lim (items.map Prod.swap) z = some z' ∧ z'.Indexed
      ∧ z'.items.Perm (reloaded lim items z.big z.items.length ++ z.items) := by
  induction items generalizing z with
  | nil => exact ⟨z, rfl, indexed, List.Perm.refl _⟩
  | cons p items ih =>
    obtain ⟨score, m⟩ := p
    rw [List.cons_append, List.map_cons, List.nodup_cons, List.map_append,
      List.mem_append, not_or] at distinct
    obtain ⟨⟨notLater, isNew⟩, later⟩ := distinct
    have isGet := indexed.get_eq_none isNew
    have isPerm := Zset.put_items z m score (z.bigWith m lim)
    have stillDistinct :
        ((items ++ (Zset.put z m score (z.bigWith m lim)).items).map Prod.snd).Nodup := by
      have moved : (items ++ (Zset.put z m score (z.bigWith m lim)).items).Perm
          ((Zset.storedScore (z.bigWith m lim) score, m) :: (items ++ z.items)) :=
        (isPerm.append_left items).trans List.perm_middle
      rw [(moved.map Prod.snd).nodup_iff, List.map_cons, List.nodup_cons, List.map_append,
        List.mem_append, not_or]
      exact ⟨⟨notLater, isNew⟩, later⟩
    obtain ⟨z', isBuilt, indexed', isResult⟩ := ih (indexed.put isNew score _) stillDistinct
    have isLength : (Zset.put z m score (z.bigWith m lim)).items.length = z.items.length + 1 := by
      rw [isPerm.length_eq, List.length_cons]
    refine ⟨z', ?_, indexed', ?_⟩
    · show (z.insert m score lim).bind _ = _
      rw [Zset.insert_new isGet]
      exact isBuilt
    · rw [isLength] at isResult
      apply isResult.trans
      apply (isPerm.append_left _).trans
      exact List.perm_middle

end Rdb

namespace F64

def negZero : F64 := ⟨0x8000000000000000⟩

theorem eq_of_same_zero {x : F64} (isZero : x.same zero = true) : x = zero ∨ x = negZero := by
  unfold same partialCmp at isZero
  split at isZero
  next someNan => cases isZero
  next numbers =>
    have samePlace : x.place = zero.place := compare_eq_iff_eq.mp (by simpa using isZero)
    have fits := x.bits.isLt
    have noMagnitude : x.bits.val % 2 ^ 63 = 0 := by
      have zeroPlace : zero.place = 0 := rfl
      rw [zeroPlace] at samePlace
      unfold place magnitude at samePlace
      split at samePlace <;> omega
    have either : x.bits.val = 0 ∨ x.bits.val = 2 ^ 63 := by omega
    cases x with
    | mk bits =>
      cases either with
      | inl isZero =>
        left
        exact congrArg F64.mk (Fin.ext isZero)
      | inr isMinus =>
        right
        exact congrArg F64.mk (Fin.ext isMinus)

end F64

theorem Zset.storedScore_eq {score : F64} (notMinus : score ≠ .negZero) (big : Bool) :
    storedScore big score = score := by
  unfold storedScore
  split
  next isZero =>
    cases F64.eq_of_same_zero (Bool.and_eq_true_iff.mp isZero).2 with
    | inl same => exact same.symm
    | inr minus => exact absurd minus notMinus
  next other => rfl

theorem reloaded_eq (lim : Limits) {items : List (F64 × Bytes)}
    (noMinus : ∀ e ∈ items, e.1 ≠ .negZero) (big : Bool) (count : Nat) :
    reloaded lim items big count = items := by
  induction items generalizing big count with
  | nil => rfl
  | cons e items ih =>
    obtain ⟨first, later⟩ := List.forall_mem_cons.mp noMinus
    simp only [reloaded, ih later, Zset.storedScore_eq first]

def Limits.standard : Limits where
  entries := 128
  value := 64
  intset := 512

namespace Data

/-- A value as it is stored: lengths are machine words, and a field or a member is there once. -/
def Stored : Data → Prop
  | .str s => s.length < 2 ^ 64
  | .list l => l.length < 2 ^ 64 ∧ ∀ item ∈ l, item.length < 2 ^ 64
  | .set s => s.members.length < 2 ^ 64 ∧ ∀ m ∈ s.members, m.length < 2 ^ 64
  | .zset z =>
    (z.items.map Prod.snd).Nodup ∧ z.items.length < 2 ^ 64 ∧ ∀ e ∈ z.items, e.2.length < 2 ^ 64
  | .hash h =>
    (h.map.map Prod.fst).Nodup ∧ h.map.length < 2 ^ 64
      ∧ ∀ e ∈ h.map, e.1.length < 2 ^ 64 ∧ e.2.length < 2 ^ 64
  | .stream _ => False

def RestoredAs (zsetLim : Limits) : Data → Data → Prop
  | .str s, v => v = .str s
  | .list l, v => v = .list l
  | .set s, v => ∃ s', v = .set s' ∧ s'.members.Nodup ∧ ∀ m, m ∈ s'.members ↔ m ∈ s.members
  | .zset z, v =>
    ∃ z', v = .zset z' ∧ z'.Indexed
      ∧ z'.items.Perm (reloaded zsetLim z.items.reverse false 0)
      ∧ ((∀ e ∈ z.items, e.1 ≠ .negZero) → z'.items.Perm z.items)
  | .hash h, v => ∃ h', v = .hash h' ∧ h'.map = h.map
  | .stream _, _ => False

end Data

namespace Rdb

theorem load_eq {parseF64 : Bytes → Option F64} {setLim zsetLim hashLim : Limits} {ty : UInt8}
    {written : Bytes} {read : Items} {v : Data} (reads : Reads (items parseF64 ty) written read)
    (builds : build setLim zsetLim hashLim read = some v) :
    load parseF64 (ty :: written) setLim zsetLim hashLim = .value v := by
  have whole : Reads (do let ty ← next; items parseF64 ty) (ty :: written) read :=
    Reads.next_bind reads
  unfold load
  rw [Reads.run_all whole]
  simp only [builds, if_true]

variable (parseF64 : Bytes → Option F64) (setLim zsetLim hashLim : Limits)

def GivesBack (v : Data) : Prop :=
  ∃ payload body v', dump v = some payload ∧ unsealPayload payload = some body
    ∧ load parseF64 body setLim zsetLim hashLim = .value v' ∧ v.RestoredAs zsetLim v'

theorem givesBack_str {s : Bytes} (fits : s.length < 2 ^ 64) :
    GivesBack parseF64 setLim zsetLim hashLim (.str s) := by
  have reads : Reads (items parseF64 typeString) (writeString s) (.str s) :=
    Reads.map Items.str (reads_string fits)
  exact ⟨_, _, _, rfl, unsealPayload_sealPayload _, load_eq reads rfl, rfl⟩

theorem givesBack_list {l : List Bytes} (fits : l.length < 2 ^ 64)
    (itemsFit : ∀ item ∈ l, item.length < 2 ^ 64) :
    GivesBack parseF64 setLim zsetLim hashLim (.list l) := by
  have each : ∀ item ∈ l, Reads string (writeString item) item :=
    fun item member => reads_string (itemsFit item member)
  have reads : Reads (items parseF64 typeList) (writeLen l.length ++ l.flatMap writeString)
      (.list l) := Reads.map Items.list (reads_counted fits each)
  exact ⟨_, _, _, rfl, unsealPayload_sealPayload _, load_eq reads rfl, rfl⟩

theorem givesBack_set {s : SetData} (fits : s.members.length < 2 ^ 64)
    (membersFit : ∀ m ∈ s.members, m.length < 2 ^ 64) :
    GivesBack parseF64 setLim zsetLim hashLim (.set s) := by
  have each : ∀ m ∈ s.members, Reads string (writeString m) m :=
    fun m member => reads_string (membersFit m member)
  have reads : Reads (items parseF64 typeSet)
      (writeLen s.members.length ++ s.members.flatMap writeString) (.set s.members) :=
    Reads.map Items.set (reads_counted fits each)
  exact ⟨_, _, _, rfl, unsealPayload_sealPayload _, load_eq reads rfl, _, rfl,
    nodup_setOf setLim s.members, mem_setOf setLim s.members⟩

theorem givesBack_hash {h : Hash} (distinct : (h.map.map Prod.fst).Nodup)
    (fits : h.map.length < 2 ^ 64)
    (fieldsFit : ∀ e ∈ h.map, e.1.length < 2 ^ 64 ∧ e.2.length < 2 ^ 64) :
    GivesBack parseF64 setLim zsetLim hashLim (.hash h) := by
  have each : ∀ e ∈ h.map, Reads fieldValue (writeString e.1 ++ writeString e.2) e :=
    fun e member => reads_fieldValue (fieldsFit e member).1 (fieldsFit e member).2
  have reads : Reads (items parseF64 typeHash)
      (writeLen h.map.length ++ h.map.flatMap (fun e => writeString e.1 ++ writeString e.2))
      (.hash h.map) := Reads.map Items.hash (reads_counted fits each)
  have isMap : (hashOf hashLim h.map).map = h.map := hashOf_map hashLim h.map {} distinct
  exact ⟨_, _, _, rfl, unsealPayload_sealPayload _, load_eq reads rfl, _, rfl, isMap⟩

theorem givesBack_zset {z : Zset} (distinct : (z.items.map Prod.snd).Nodup)
    (fits : z.items.length < 2 ^ 64) (membersFit : ∀ e ∈ z.items, e.2.length < 2 ^ 64) :
    GivesBack parseF64 setLim zsetLim hashLim (.zset z) := by
  have each : ∀ p ∈ z.items.reverse.map Prod.swap,
      Reads scoredMember (writeString p.1 ++ p.2.toLeBytes) p := by
    intro p member
    obtain ⟨e, isItem, rfl⟩ := List.mem_map.mp member
    exact reads_scoredMember e.1 (membersFit e (List.mem_reverse.mp isItem))
  have isLength : (z.items.reverse.map Prod.swap).length = z.items.length := by
    rw [List.length_map, List.length_reverse]
  have reads := reads_counted (by rw [isLength]; exact fits) each
  rw [isLength, List.flatMap_map] at reads
  have highestFirst : ((z.items.reverse ++ ({} : Zset).items).map Prod.snd).Nodup := by
    rw [show ({} : Zset).items = [] from rfl, List.append_nil, List.map_reverse,
      List.nodup_reverse]
    exact distinct
  obtain ⟨z', isBuilt, indexed, isPerm⟩ :=
    zsetOf_items zsetLim z.items.reverse Zset.indexed_empty highestFirst
  rw [show ({} : Zset).items = [] from rfl, List.append_nil] at isPerm
  have builds : build setLim zsetLim hashLim (.zset (z.items.reverse.map Prod.swap))
      = some (.zset z') := by
    simp only [build, isBuilt, Option.map_some]
  have loads : load parseF64 (typeZset2 :: (writeLen z.items.length
      ++ z.items.reverse.flatMap (fun e => writeString e.2 ++ e.1.toLeBytes)))
      setLim zsetLim hashLim = .value (.zset z') :=
    load_eq (Reads.map Items.zset reads) builds
  refine ⟨_, _, _, rfl, unsealPayload_sealPayload _, loads, z', rfl, indexed, isPerm, ?_⟩
  intro noMinus
  have noMinus' : ∀ e ∈ z.items.reverse, e.1 ≠ .negZero :=
    fun e member => noMinus e (List.mem_reverse.mp member)
  have sameItems := reloaded_eq zsetLim noMinus' false 0
  exact isPerm.trans (by
    rw [show ({} : Zset).big = false from rfl, List.length_nil, sameItems]
    exact List.reverse_perm z.items)

theorem dump_restored (parseF64 : Bytes → Option F64) (setLim zsetLim hashLim : Limits)
    {v : Data} (stored : v.Stored) :
    GivesBack parseF64 setLim zsetLim hashLim v
      ∧ (∀ n < 2 ^ 64, Reads len (writeLen n) n)
      ∧ (∀ s : Bytes, s.length < 2 ^ 64 → Reads string (writeString s) s) := by
  refine ⟨?_, fun n fits => reads_len fits, fun s fits => reads_string fits⟩
  cases v with
  | str s => exact givesBack_str parseF64 setLim zsetLim hashLim stored
  | hash h =>
    exact givesBack_hash parseF64 setLim zsetLim hashLim stored.1 stored.2.1 stored.2.2
  | list l => exact givesBack_list parseF64 setLim zsetLim hashLim stored.1 stored.2
  | set s => exact givesBack_set parseF64 setLim zsetLim hashLim stored.1 stored.2
  | zset z =>
    exact givesBack_zset parseF64 setLim zsetLim hashLim stored.1 stored.2.1 stored.2.2
  | stream s => exact absurd stored id

theorem dump_restored_numbers :
    GivesBack (fun _ => none) .standard .standard .standard
        (.list [ascii "1", ascii "01", ascii "-7", ascii "70000"])
      ∧ (∀ n < 2 ^ 64, Reads len (writeLen n) n)
      ∧ (∀ s : Bytes, s.length < 2 ^ 64 → Reads string (writeString s) s) :=
  dump_restored (fun _ => none) .standard .standard .standard (by
    constructor
    · decide
    · decide)

def signedZero : Zset where
  items := [(.negZero, ascii "m")]
  scores := OrderedMap.empty.insert (ascii "m") .negZero
  big := true

theorem signedZero_restored :
    ∃ body z', dump (.zset signedZero) = some (sealPayload body)
      ∧ unsealPayload (sealPayload body) = some body
      ∧ load (fun _ => none) body .standard .standard .standard = .value (.zset z')
      ∧ signedZero.scores.get (ascii "m") = some .negZero
      ∧ z'.scores.get (ascii "m") = some .zero
      ∧ F64.negZero ≠ F64.zero := by
  refine ⟨_, _, rfl, unsealPayload_sealPayload _, rfl, by decide, ?_, by decide⟩
  decide

end Rdb

end NoidaDb.Redis
