/-
Containment of jsonb values, `@>`, and the laws of jsonb as a whole.
-/

import NoidaDb.Sql.JsonNormalForm

namespace NoidaDb.Sql

open Lib

namespace Json

/-- `PartialEq`. -/
def eq (a b : Json) : Bool := cmpJsonb a b == .eq

mutual

/-- `contains_value`, with what `contains` does on two objects and on two arrays. -/
def containsValue : Json → Json → Bool
  | object a, object b => containsMembers a b
  | array a, array b => containsItems a b
  | a, b => a.eq b

def containsItems (a : List Json) : List Json → Bool
  | [] => true
  | bv :: rest => a.any (fun av => av.containsValue bv) && containsItems a rest

def containsMembers (a : List (String × Json)) : List (String × Json) → Bool
  | [] => true
  | (k, bv) :: rest =>
    a.any (fun m => m.1 == k && m.2.containsValue bv) && containsMembers a rest

end

/-- `@>`.  A top-level array contains a primitive it holds. -/
def contains : Json → Json → Bool
  | object a, object b => containsMembers a b
  | array a, array b => containsItems a b
  | array a, object b => (array a).eq (object b)
  | array a, b => a.any (fun av => av.eq b)
  | a, b => a.eq b

theorem containsItems_iff (a b : List Json) :
    containsItems a b = true ↔ ∀ bv ∈ b, ∃ av ∈ a, av.containsValue bv = true := by
  induction b with
  | nil => simp [containsItems]
  | cons bv rest ih => rw [containsItems, Bool.and_eq_true, ih, List.any_eq_true, List.forall_mem_cons]

theorem containsMembers_iff (a b : List (String × Json)) :
    containsMembers a b = true ↔
      ∀ m ∈ b, ∃ e ∈ a, e.1 = m.1 ∧ e.2.containsValue m.2 = true := by
  induction b with
  | nil => simp [containsMembers]
  | cons m rest ih =>
    rw [containsMembers, Bool.and_eq_true, ih, List.any_eq_true, List.forall_mem_cons]
    simp only [Bool.and_eq_true, beq_iff_eq]

def Valid (j : Json) : Prop := ∃ n, Normal n j

theorem Valid.item {vs : List Json} (valid : Valid (.array vs)) : ∀ v ∈ vs, Valid v := by
  intro v isV
  obtain ⟨n, normal⟩ := valid
  obtain ⟨m, _, isNormal⟩ := items_below normal v isV
  exact ⟨m, isNormal⟩

theorem Valid.member {ms : List (String × Json)} (valid : Valid (.object ms)) :
    ∀ m ∈ ms, Valid m.2 := by
  intro m isM
  obtain ⟨n, normal⟩ := valid
  obtain ⟨k, _, isNormal⟩ := members_below normal m isM
  exact ⟨k, isNormal⟩

theorem eq_iff (a b : Json) : a.eq b = true ↔ cmpJsonb a b = .eq := beq_iff_eq

variable {a b c : Json}

theorem eq_iff_same (validA : Valid a) (validB : Valid b) : a.eq b = true ↔ Same a b := by
  obtain ⟨n, normalA⟩ := validA
  obtain ⟨m, normalB⟩ := validB
  rw [eq_iff, cmpJsonb_eq_iff normalA normalB]

theorem eq_self (valid : Valid a) : a.eq a = true :=
  (eq_iff a a).mpr (cmpJsonb_order.self valid)

theorem eq_symm (validA : Valid a) (validB : Valid b) (same : a.eq b = true) : b.eq a = true := by
  rw [eq_iff] at same ⊢
  rw [cmpJsonb_order.swap validB validA, same]
  rfl

theorem antisymm (validA : Valid a) (validB : Valid b) (first : (cmpJsonb a b).isLE)
    (second : (cmpJsonb b a).isLE) : a.eq b = true := by
  rw [cmpJsonb_order.swap validB validA] at second
  rw [eq_iff]
  cases result : cmpJsonb a b with
  | lt => simp [result] at second
  | eq => rfl
  | gt => simp [result] at first

theorem eq_trans (validA : Valid a) (validB : Valid b) (validC : Valid c) (first : a.eq b = true)
    (second : b.eq c = true) : a.eq c = true := by
  have isLE : ∀ {x y : Json}, x.eq y = true → (cmpJsonb x y).isLE := by
    intro x y same
    rw [(eq_iff x y).mp same]
    rfl
  apply antisymm validA validC
  · exact cmpJsonb_order.trans validA validB validC (isLE first) (isLE second)
  · exact cmpJsonb_order.trans validC validB validA (isLE (eq_symm validB validC second))
      (isLE (eq_symm validA validB first))

theorem rank_eq (same : a.eq b = true) : a.rank = b.rank := by
  by_contra different
  rw [eq_iff, cmpJsonb_cross a b different, Nat.compare_eq_eq] at same
  exact different same

def Primitive (j : Json) : Prop := j.rank < 5

theorem containsValue_primitive (a : Json) (primitive : Primitive b) :
    a.containsValue b = a.eq b := by
  unfold Primitive at primitive
  cases b with
  | array vs =>
    rw [rank] at primitive
    omega
  | object ms =>
    rw [rank] at primitive
    omega
  | _ => cases a <;> rfl

theorem containsValue_array {bs : List Json} (holds : a.containsValue (.array bs) = true) :
    ∃ vs, a = .array vs ∧ ∀ bv ∈ bs, ∃ av ∈ vs, av.containsValue bv = true := by
  cases a with
  | array vs => exact ⟨vs, rfl, (containsItems_iff vs bs).mp holds⟩
  | _ =>
    have sameRank := rank_eq holds
    cases sameRank

theorem containsValue_object {bs : List (String × Json)}
    (holds : a.containsValue (.object bs) = true) :
    ∃ ms, a = .object ms ∧ ∀ m ∈ bs, ∃ e ∈ ms, e.1 = m.1 ∧ e.2.containsValue m.2 = true := by
  cases a with
  | object ms => exact ⟨ms, rfl, (containsMembers_iff ms bs).mp holds⟩
  | _ =>
    have sameRank := rank_eq holds
    cases sameRank

theorem containsValue_trans (validA : Valid a) (validB : Valid b) (validC : Valid c)
    (first : a.containsValue b = true) (second : b.containsValue c = true) :
    a.containsValue c = true := by
  have primitive (c : Json) (isPrimitive : Primitive c) {a b : Json} (validA : Valid a)
      (validB : Valid b) (validC : Valid c) (first : a.containsValue b = true)
      (second : b.containsValue c = true) : a.containsValue c = true := by
    rw [containsValue_primitive b isPrimitive] at second
    have isPrimitive' : Primitive b := by
      unfold Primitive
      rw [rank_eq second]
      exact isPrimitive
    rw [containsValue_primitive a isPrimitive'] at first
    rw [containsValue_primitive a isPrimitive]
    exact eq_trans validA validB validC first second
  induction c using byParts generalizing a b with
  | null => exact primitive _ (by simp [Primitive, rank]) validA validB validC first second
  | bool x => exact primitive _ (by simp [Primitive, rank]) validA validB validC first second
  | num n => exact primitive _ (by simp [Primitive, rank]) validA validB validC first second
  | str s => exact primitive _ (by simp [Primitive, rank]) validA validB validC first second
  | array cs ih =>
    obtain ⟨bs, rfl, inB⟩ := containsValue_array second
    obtain ⟨vs, rfl, inA⟩ := containsValue_array first
    apply (containsItems_iff vs cs).mpr
    intro cv isC
    obtain ⟨bv, isB, later⟩ := inB cv isC
    obtain ⟨av, isA, earlier⟩ := inA bv isB
    exact ⟨av, isA, ih cv isC (validA.item av isA) (validB.item bv isB) (validC.item cv isC)
      earlier later⟩
  | object cs ih =>
    obtain ⟨bs, rfl, inB⟩ := containsValue_object second
    obtain ⟨ms, rfl, inA⟩ := containsValue_object first
    apply (containsMembers_iff ms cs).mpr
    intro c isC
    obtain ⟨b, isB, sameB, later⟩ := inB c isC
    obtain ⟨a, isA, sameA, earlier⟩ := inA b isB
    exact ⟨a, isA, sameA.trans sameB, ih c isC (validA.member a isA) (validB.member b isB)
      (validC.member c isC) earlier later⟩

theorem exists_zip {α β : Type} {xs : List α} {ys : List β} (length : xs.length = ys.length)
    {y : β} (isY : y ∈ ys) : ∃ p ∈ xs.zip ys, p.2 = y := by
  have seconds := List.map_snd_zip (Nat.le_of_eq length.symm)
  rw [← seconds] at isY
  exact List.mem_map.mp isY

theorem containsValue_same (validA : Valid a) (validB : Valid b) (same : Same a b) :
    a.containsValue b = true := by
  induction same with
  | null => rfl
  | bool x => exact eq_self validA
  | num amount => exact (eq_iff_same validA validB).mpr (Same.num amount)
  | str s => exact eq_self validA
  | @array xs ys length items ih =>
    apply (containsItems_iff xs ys).mpr
    intro y isY
    obtain ⟨p, isPair, isSecond⟩ := exists_zip length isY
    obtain ⟨isX, isY'⟩ := List.of_mem_zip isPair
    have holds := ih p isPair (validA.item p.1 isX) (validB.item p.2 isY')
    rw [isSecond] at holds
    exact ⟨p.1, isX, holds⟩
  | @object xs ys length keys members ih =>
    apply (containsMembers_iff xs ys).mpr
    intro y isY
    obtain ⟨p, isPair, isSecond⟩ := exists_zip length isY
    obtain ⟨isX, isY'⟩ := List.of_mem_zip isPair
    have holds := ih p isPair (validA.member p.1 isX) (validB.member p.2 isY')
    have sameKey := keys p isPair
    rw [isSecond] at holds sameKey
    exact ⟨p.1, isX, sameKey, holds⟩

theorem contains_iff (a b : Json) :
    a.contains b = true ↔ a.containsValue b = true ∨
      (Primitive b ∧ ∃ vs, a = .array vs ∧ ∃ v ∈ vs, v.containsValue b = true) := by
  by_cases held : Primitive b ∧ ∃ vs, a = .array vs
  · obtain ⟨primitive, vs, rfl⟩ := held
    have different : (array vs).containsValue b = false := by
      rw [containsValue_primitive _ primitive, Bool.eq_false_iff]
      intro same
      have sameRank := rank_eq same
      unfold Primitive at primitive
      rw [rank] at sameRank
      omega
    have holds : (array vs).contains b = vs.any (fun v => v.eq b) := by
      unfold Primitive at primitive
      cases b with
      | array ws =>
        rw [rank] at primitive
        omega
      | object ms =>
        rw [rank] at primitive
        omega
      | _ => rfl
    rw [holds, different, List.any_eq_true]
    constructor
    · intro found
      obtain ⟨v, isV, same⟩ := found
      rw [← containsValue_primitive v primitive] at same
      exact Or.inr ⟨primitive, vs, rfl, v, isV, same⟩
    · intro found
      obtain ⟨_, ws, sameArray, v, isV, holds⟩ := found.resolve_left (by decide)
      rw [containsValue_primitive v primitive] at holds
      rw [Json.array.inj sameArray]
      exact ⟨v, isV, holds⟩
  · have plain : a.contains b = a.containsValue b := by
      cases a with
      | array vs =>
        have notPrimitive : ¬ Primitive b := fun primitive => held ⟨primitive, vs, rfl⟩
        unfold Primitive at notPrimitive
        cases b with
        | array ws => rfl
        | object ms => rfl
        | _ =>
          simp only [rank] at notPrimitive
          omega
      | _ => cases b <;> rfl
    rw [plain]
    constructor
    · exact Or.inl
    · intro found
      rcases found with holds | ⟨primitive, vs, isArray, _⟩
      · exact holds
      · exact (held ⟨primitive, vs, isArray⟩).elim

theorem contains_same (validA : Valid a) (validB : Valid b) (same : a.eq b = true) :
    a.contains b = true := by
  rw [eq_iff_same validA validB] at same
  exact (contains_iff a b).mpr (Or.inl (containsValue_same validA validB same))

theorem primitive_of_containsValue (primitive : Primitive a) (holds : a.containsValue b = true) :
    Primitive b := by
  cases b with
  | array bs =>
    obtain ⟨vs, rfl, _⟩ := containsValue_array holds
    exact primitive
  | object bs =>
    obtain ⟨ms, rfl, _⟩ := containsValue_object holds
    exact primitive
  | _ => simp [Primitive, rank]

theorem contains_trans (validA : Valid a) (validB : Valid b) (validC : Valid c)
    (first : a.contains b = true) (second : b.contains c = true) : a.contains c = true := by
  rw [contains_iff] at first second ⊢
  rcases first with whole | ⟨primitive, vs, rfl, v, isV, holds⟩
  · rcases second with later | ⟨primitive, bs, rfl, w, isW, holds⟩
    · exact Or.inl (containsValue_trans validA validB validC whole later)
    · -- The item that holds the primitive is held by an item of the first array.
      obtain ⟨vs, rfl, inA⟩ := containsValue_array whole
      obtain ⟨v, isV, covers⟩ := inA w isW
      have chain := containsValue_trans (validA.item v isV) (validB.item w isW) validC covers holds
      exact Or.inr ⟨primitive, vs, rfl, v, isV, chain⟩
  · rcases second with later | ⟨_, bs, rfl, _⟩
    · have chain := containsValue_trans (validA.item v isV) validB validC holds later
      exact Or.inr ⟨primitive_of_containsValue primitive later, vs, rfl, v, isV, chain⟩
    · simp [Primitive, rank] at primitive

theorem contains_congr {a' b' : Json} (validA : Valid a) (validA' : Valid a') (validB : Valid b)
    (validB' : Valid b') (left : a.eq a' = true) (right : b.eq b' = true) :
    a.contains b = a'.contains b' := by
  have carries {x x' y y' : Json} (validX : Valid x) (validX' : Valid x') (validY : Valid y)
      (validY' : Valid y') (left : x.eq x' = true) (right : y.eq y' = true)
      (holds : x.contains y = true) : x'.contains y' = true := by
    have back := contains_same validX' validX (eq_symm validX validX' left)
    have forth := contains_same validY validY' right
    exact contains_trans validX' validX validY' back (contains_trans validX validY validY' holds forth)
  rw [Bool.eq_iff_iff]
  constructor
  · exact carries validA validA' validB validB' left right
  · exact carries validA' validA validB' validB (eq_symm validA validA' left)
      (eq_symm validB validB' right)

/-- `normalize` only sorts the keys at every level and keeps the last duplicate; the order is a total
preorder, and containment a preorder up to its equality. -/
theorem jsonb_exact :
    (∀ j : Json, Ordered j.normalize ∧ j.normalize.normalize = j.normalize ∧
      ∀ key, j.normalize.get key = (j.get key).map normalize) ∧
    (∀ ms : List (String × Json), (object ms).normalize =
      object ((ms.map (fun m => (m.1, m.2.normalize))).foldl placeMember [])) ∧
    (∀ a b c : Json, Valid a → Valid b → Valid c →
      cmpJsonb a a = .eq ∧ cmpJsonb a b = (cmpJsonb b a).swap ∧
      ((cmpJsonb a b).isLE → (cmpJsonb b c).isLE → (cmpJsonb a c).isLE) ∧
      ((cmpJsonb a b).isLE → (cmpJsonb b a).isLE → a.eq b = true)) ∧
    (∀ a b : Json, Valid a → Valid b → (cmpJsonb a b = .eq ↔ Same a b)) ∧
    (∀ a b c : Json, Valid a → Valid b → Valid c →
      a.contains a = true ∧ (a.contains b = true → b.contains c = true → a.contains c = true)) ∧
    (∀ a a' b b' : Json, Valid a → Valid a' → Valid b → Valid b' → a.eq a' = true →
      b.eq b' = true → a.contains b = a'.contains b') := by
  refine ⟨?_, ?_, ?_, ?_, ?_, ?_⟩
  · intro j
    exact ⟨ordered_normalize j, normalize_ordered (ordered_normalize j), get_normalize j⟩
  · intro ms
    exact congrArg Json.object (normalizeMembers_eq ms inOrder_nil)
  · intro a b c validA validB validC
    exact ⟨cmpJsonb_order.self validA, cmpJsonb_order.swap validA validB,
      cmpJsonb_order.trans validA validB validC, antisymm validA validB⟩
  · intro a b validA validB
    rw [← eq_iff]
    exact eq_iff_same validA validB
  · intro a b c validA validB validC
    exact ⟨contains_same validA validA (eq_self validA), contains_trans validA validB validC⟩
  · intro a a' b b'
    exact contains_congr

theorem jsonb_exact_one :
    (array [num (.fin { neg := false, digits := [1], scale := 0 })]).contains
        (num (.fin { neg := false, digits := [1, 0], scale := 1 })) =
      (array [num (.fin { neg := false, digits := [1, 0], scale := 1 })]).contains
        (num (.fin { neg := false, digits := [1], scale := 0 })) := by
  have whole : (Numeric.fin { neg := false, digits := [1], scale := 0 }).Normal :=
    { magnitude := ⟨by decide, by decide⟩, zero := by decide }
  have scaled : (Numeric.fin { neg := false, digits := [1, 0], scale := 1 }).Normal :=
    { magnitude := ⟨by decide, by decide⟩, zero := by decide }
  obtain ⟨_, _, _, _, _, congruence⟩ := jsonb_exact
  apply congruence
  · exact ⟨1, Normal.array (by simpa using Normal.num whole)⟩
  · exact ⟨1, Normal.array (by simpa using Normal.num scaled)⟩
  · exact ⟨0, Normal.num scaled⟩
  · exact ⟨0, Normal.num whole⟩
  · decide
  · decide

end Json

end NoidaDb.Sql
