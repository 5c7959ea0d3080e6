/-
When the parser accepts exactly JSON.

The parser is lenient in one place: an escape may have a plus sign in place of its first
digit.  And the scale of a number is kept in 32 bits.
-/

import NoidaDb.Sql.JsonNumbers

namespace NoidaDb.Sql.JsonGrammar

open JsonParser

/-- A value whose numbers satisfy `p`, with at most `n` levels and without U+0000. -/
inductive Within (p : Numeric → Prop) : Nat → Json → Prop
  | null (n : Nat) : Within p n .null
  | bool (n : Nat) (b : Bool) : Within p n (.bool b)
  | num {n : Nat} {v : Numeric} (holds : p v) : Within p n (.num v)
  | str {n : Nat} {s : String} (noNul : ∀ c ∈ s.toList, c.toNat ≠ 0) : Within p n (.str s)
  | array {n : Nat} {vs : List Json} (items : ∀ v ∈ vs, Within p n v) : Within p (n + 1) (.array vs)
  | object {n : Nat} {vs : List (String × Json)}
      (keys : ∀ v ∈ vs, ∀ c ∈ v.1.toList, c.toNat ≠ 0) (members : ∀ v ∈ vs, Within p n v.2) :
      Within p (n + 1) (.object vs)

theorem charOf_pos {cp : Nat} (positive : cp ≠ 0) : (charOf cp).toNat ≠ 0 := by
  unfold charOf
  split
  · rename_i valid
    rw [Char.ofNat, dif_pos valid]
    exact positive
  · decide

theorem escapes_pos {e c : Char} (isEscape : (e, c) ∈ escapes) : c.toNat ≠ 0 := by
  have all : ∀ x ∈ escapes, x.2.toNat ≠ 0 := by decide
  exact all _ isEscape

section Within

variable {m : Meanings} {p : Numeric → Prop}

theorem noNul_chars {s out rest : List Char} (chars : Chars m s out rest) :
    ∀ c ∈ out, c.toNat ≠ 0 := by
  induction chars with
  | close rest => simp
  | plain isPlain later ih => exact List.forall_mem_cons.mpr ⟨by omega, ih⟩
  | escape isEscape later ih => exact List.forall_mem_cons.mpr ⟨escapes_pos isEscape, ih⟩
  | unicode four isHex isWhole later ih =>
    exact List.forall_mem_cons.mpr ⟨charOf_pos isWhole.2.2, ih⟩
  | pair four isHex isPair later ih =>
    exact List.forall_mem_cons.mpr ⟨charOf_pos (by omega), ih⟩

mutual

theorem within_value (holds : ∀ x v, x.WellFormed → m.numeral x = some v → p v) {n : Nat} {s rest : List Char}
    {j : Json} : Value m n s j rest → Within p n j
  | .null n _ => Within.null n
  | .true n _ => Within.bool n true
  | .false n _ => Within.bool n false
  | .num wellFormed means => Within.num (holds _ _ wellFormed means)
  | .str chars => Within.str (by
      rw [String.toList_ofList]
      exact noNul_chars chars)
  | .emptyArray _ => Within.array (by simp)
  | .array items => Within.array (within_items holds items)
  | .emptyObject _ => Within.object (by simp) (by simp)
  | .object members =>
    Within.object (fun v isV => (within_members holds members v isV).1)
      (fun v isV => (within_members holds members v isV).2)

theorem within_items (holds : ∀ x v, x.WellFormed → m.numeral x = some v → p v) {n : Nat} {s rest : List Char}
    {vs : List Json} : Items m n s vs rest → ∀ v ∈ vs, Within p n v
  | .last _ isValue _ => by
      intro v isV
      rw [List.mem_singleton.mp isV]
      exact within_value holds isValue
  | .cons _ isValue _ later =>
    List.forall_mem_cons.mpr ⟨within_value holds isValue, within_items holds later⟩

theorem within_members (holds : ∀ x v, x.WellFormed → m.numeral x = some v → p v) {n : Nat} {s rest : List Char}
    {vs : List (String × Json)} :
    Members m n s vs rest → ∀ v ∈ vs, (∀ c ∈ v.1.toList, c.toNat ≠ 0) ∧ Within p n v.2
  | .last _ isKey _ _ isValue _ => by
      intro v isV
      rw [List.mem_singleton.mp isV, String.toList_ofList]
      exact ⟨noNul_chars isKey, within_value holds isValue⟩
  | .cons _ isKey _ _ isValue _ later => by
      intro v isV
      rcases List.mem_cons.mp isV with isFirst | isLater
      · rw [isFirst, String.toList_ofList]
        exact ⟨noNul_chars isKey, within_value holds isValue⟩
      · exact within_members holds later v isLater

end

end Within

section Transfer

variable {m m' : Meanings} {p : Numeric → Prop}

theorem chars_transfer (hex : ∀ w v, w.length = 4 → m.hex w = some v → m'.hex w = some v)
    {s out rest : List Char} (chars : Chars m s out rest) : Chars m' s out rest := by
  induction chars with
  | close rest => exact Chars.close rest
  | plain isPlain later ih => exact Chars.plain isPlain ih
  | escape isEscape later ih => exact Chars.escape isEscape ih
  | unicode four isHex isWhole later ih => exact Chars.unicode four (hex _ _ four isHex) isWhole ih
  | pair four isHex isPair later ih =>
    exact Chars.pair four ⟨hex _ _ four.1 isHex.1, hex _ _ four.2 isHex.2⟩ isPair ih

/-- What is true of the new meanings, for a value whose numbers satisfy `p`. -/
structure Carries (m m' : Meanings) (p : Numeric → Prop) : Prop where
  hex : ∀ w v, w.length = 4 → m.hex w = some v → m'.hex w = some v
  numeral : ∀ x v, m.numeral x = some v → p v → m'.numeral x = some v

mutual

theorem value_transfer (carries : Carries m m' p) {n : Nat} {s rest : List Char} {j : Json} :
    Value m n s j rest → Within p n j → Value m' n s j rest
  | .null n rest, _ => Value.null n rest
  | .true n rest, _ => Value.true n rest
  | .false n rest, _ => Value.false n rest
  | .num wellFormed means, within => by
      cases within with
      | num holds => exact Value.num wellFormed (carries.numeral _ _ means holds)
  | .str chars, _ => Value.str (chars_transfer carries.hex chars)
  | .emptyArray space, _ => Value.emptyArray space
  | .array items, within => by
      cases within with
      | array all => exact Value.array (items_transfer carries items all)
  | .emptyObject space, _ => Value.emptyObject space
  | .object members, within => by
      cases within with
      | object keys all => exact Value.object (members_transfer carries members all)

theorem items_transfer (carries : Carries m m' p) {n : Nat} {s rest : List Char} {vs : List Json} :
    Items m n s vs rest → (∀ v ∈ vs, Within p n v) → Items m' n s vs rest
  | .last before isValue after, within =>
    Items.last before (value_transfer carries isValue (within _ List.mem_cons_self)) after
  | .cons before isValue after later, within =>
    Items.cons before (value_transfer carries isValue (within _ List.mem_cons_self)) after
      (items_transfer carries later (fun v isV => within v (List.mem_cons_of_mem _ isV)))

theorem members_transfer (carries : Carries m m' p) {n : Nat} {s rest : List Char}
    {vs : List (String × Json)} :
    Members m n s vs rest → (∀ v ∈ vs, Within p n v.2) → Members m' n s vs rest
  | .last before isKey colon between isValue after, within =>
    Members.last before (chars_transfer carries.hex isKey) colon between
      (value_transfer carries isValue (within _ List.mem_cons_self)) after
  | .cons before isKey colon between isValue after later, within =>
    Members.cons before (chars_transfer carries.hex isKey) colon between
      (value_transfer carries isValue (within _ List.mem_cons_self)) after
      (members_transfer carries later (fun v isV => within v (List.mem_cons_of_mem _ isV)))

end

structure Reads (m m' : Meanings) : Prop where
  hex : ∀ w v, w.length = 4 → m.hex w = some v → m'.hex w = some v
  numeral : ∀ x v, m.numeral x = some v → ∃ v', m'.numeral x = some v'

mutual

theorem value_reads (reads : Reads m m') {n : Nat} {s rest : List Char} {j : Json} :
    Value m n s j rest → ∃ j', Value m' n s j' rest
  | .null n rest => ⟨_, Value.null n rest⟩
  | .true n rest => ⟨_, Value.true n rest⟩
  | .false n rest => ⟨_, Value.false n rest⟩
  | .num wellFormed means => by
      obtain ⟨v', means'⟩ := reads.numeral _ _ means
      exact ⟨_, Value.num wellFormed means'⟩
  | .str chars => ⟨_, Value.str (chars_transfer reads.hex chars)⟩
  | .emptyArray space => ⟨_, Value.emptyArray space⟩
  | .array items => by
      obtain ⟨vs', items'⟩ := items_reads reads items
      exact ⟨_, Value.array items'⟩
  | .emptyObject space => ⟨_, Value.emptyObject space⟩
  | .object members => by
      obtain ⟨vs', members'⟩ := members_reads reads members
      exact ⟨_, Value.object members'⟩

theorem items_reads (reads : Reads m m') {n : Nat} {s rest : List Char} {vs : List Json} :
    Items m n s vs rest → ∃ vs', Items m' n s vs' rest
  | .last before isValue after => by
      obtain ⟨v', isValue'⟩ := value_reads reads isValue
      exact ⟨_, Items.last before isValue' after⟩
  | .cons before isValue after later => by
      obtain ⟨v', isValue'⟩ := value_reads reads isValue
      obtain ⟨vs', later'⟩ := items_reads reads later
      exact ⟨_, Items.cons before isValue' after later'⟩

theorem members_reads (reads : Reads m m') {n : Nat} {s rest : List Char}
    {vs : List (String × Json)} : Members m n s vs rest → ∃ vs', Members m' n s vs' rest
  | .last before isKey colon between isValue after => by
      obtain ⟨v', isValue'⟩ := value_reads reads isValue
      exact ⟨_, Members.last before (chars_transfer reads.hex isKey) colon between isValue' after⟩
  | .cons before isKey colon between isValue after later => by
      obtain ⟨v', isValue'⟩ := value_reads reads isValue
      obtain ⟨vs', later'⟩ := members_reads reads later
      exact ⟨_, Members.cons before (chars_transfer reads.hex isKey) colon between isValue' after
        later'⟩

end

variable {s : String} {j : Json}

theorem text_transfer (carries : Carries m m' p) (isText : Text m s j)
    (within : Within p maxDepth j) : Text m' s j := by
  obtain ⟨s₁, s₂, before, isValue, after⟩ := isText
  exact ⟨s₁, s₂, before, value_transfer carries isValue within, after⟩

theorem text_reads (reads : Reads m m') (isText : Text m s j) : ∃ j', Text m' s j' := by
  obtain ⟨s₁, s₂, before, isValue, after⟩ := isText
  obtain ⟨j', isValue'⟩ := value_reads reads isValue
  exact ⟨j', s₁, s₂, before, isValue', after⟩

theorem within_text (holds : ∀ x v, x.WellFormed → m.numeral x = some v → p v)
    (isText : Text m s j) : Within p maxDepth j := by
  obtain ⟨_, _, _, isValue, _⟩ := isText
  exact within_value holds isValue

end Transfer

def rfcMeanings : Meanings where
  hex := onlyHex
  numeral := numeralMeaning id

def plusMeanings : Meanings where
  hex := fromStrRadix16
  numeral := numeralMeaning id

def plainMeanings : Meanings where
  hex := onlyHex
  numeral := fun x => x.exact.bind (fun d => if d.scale < 2 ^ 32 then some (.fin d) else none)

def Plain (s : String) : Prop := (∃ j, Text plusMeanings s j) → ∃ j, Text plainMeanings s j

def rfcReaders : Readers where
  hex := onlyHex
  number := fun t => (readDec t).map .fin

theorem agrees_rfc : Agrees rfcReaders rfcMeanings where
  hex := rfl
  ascii := by
    intro w v isHex
    obtain ⟨ds, isDs, _⟩ := Option.map_eq_some_iff.mp isHex
    exact fun c member => ((hexDigits_plain isDs).2.2 c member).1
  number := by
    intro x wellFormed v
    have reads := readDec_text wellFormed
    simp only [rfcReaders, rfcMeanings, numeralMeaning, id]
    cases isDec : readDec x.text with
    | error failure =>
      have nothing : x.exact = none := by
        cases exact : x.exact with
        | none => rfl
        | some d =>
          have isOk := (reads d).mpr exact
          rw [isDec] at isOk
          cases isOk
      simp [nothing, Except.map]
    | ok d =>
      rw [(reads d).mp isDec]
      simp [Except.map]

theorem text_unique {s : String} {j j' : Json} (isText : Text rfcMeanings s j)
    (isText' : Text rfcMeanings s j') : j = j' := by
  have parsed := (parseWith_iff agrees_rfc s j).mpr isText
  have parsed' := (parseWith_iff agrees_rfc s j').mpr isText'
  exact Except.ok.inj (parsed.symm.trans parsed')

def FitsScale : Numeric → Prop
  | .fin d => d.scale < 2 ^ 32
  | _ => True

theorem plain_of_rfc : Carries rfcMeanings plainMeanings FitsScale where
  hex := fun _ _ _ isHex => isHex
  numeral := by
    intro x v means fits
    obtain ⟨d, isDec, rfl⟩ := Option.map_eq_some_iff.mp means
    simp only [plainMeanings, isDec, Option.bind_some]
    exact if_pos fits

theorem rfc_of_plain : Carries plainMeanings rfcMeanings (fun _ => True) where
  hex := fun _ _ _ isHex => isHex
  numeral := by
    intro x v means _
    obtain ⟨d, isDec, kept⟩ := Option.bind_eq_some_iff.mp means
    split at kept
    · obtain rfl := Option.some.inj kept
      simp [rfcMeanings, numeralMeaning, isDec]
    · cases kept

theorem code_of_plain : Carries plainMeanings codeMeanings (fun _ => True) where
  hex := fun _ _ four isHex => fromStrRadix16_of_onlyHex four isHex
  numeral := by
    intro x v means _
    obtain ⟨d, isDec, kept⟩ := Option.bind_eq_some_iff.mp means
    split at kept
    · rename_i fits
      obtain rfl := Option.some.inj kept
      simp only [codeMeanings, numeralMeaning, isDec, Option.map_some]
      rw [Nat.mod_eq_of_lt fits]
    · cases kept

theorem plus_of_rfc : Carries rfcMeanings plusMeanings (fun _ => True) where
  hex := fun _ _ four isHex => fromStrRadix16_of_onlyHex four isHex
  numeral := fun _ _ means _ => means

theorem plus_reads_code : Reads codeMeanings plusMeanings where
  hex := fun _ _ _ isHex => isHex
  numeral := by
    intro x v means
    obtain ⟨d, isDec, _⟩ := Option.map_eq_some_iff.mp means
    exact ⟨.fin d, by simp [plusMeanings, numeralMeaning, isDec]⟩

theorem code_reads_plus : Reads plusMeanings codeMeanings where
  hex := fun _ _ _ isHex => isHex
  numeral := by
    intro x v means
    obtain ⟨d, isDec, _⟩ := Option.map_eq_some_iff.mp means
    exact ⟨.fin { d with scale := d.scale % 2 ^ 32 }, by simp [codeMeanings, numeralMeaning, isDec]⟩

theorem fitsScale_code (x : Numeral) (v : Numeric) (_ : x.WellFormed)
    (means : codeMeanings.numeral x = some v) :
    FitsScale v := by
  obtain ⟨d, _, rfl⟩ := Option.map_eq_some_iff.mp means
  exact Nat.mod_lt _ (by decide)

theorem anything {m : Meanings} {s : String} {j : Json} (isText : Text m s j) :
    Within (fun _ => True) maxDepth j := within_text (fun _ _ _ _ => trivial) isText

/-- The parser accepts just the JSON texts, with what they stand for, if and only if the
text is plain. -/
theorem parse_exact_iff (s : String) :
    (∀ j, Json.parse s = .ok j ↔ Text rfcMeanings s j) ↔ Plain s := by
  constructor
  · intro exact readable
    obtain ⟨j, isPlus⟩ := readable
    obtain ⟨j', isCode⟩ := text_reads code_reads_plus isPlus
    have isRfc := (exact j').mp ((parse_iff s j').mpr isCode)
    exact ⟨j', text_transfer plain_of_rfc isRfc (within_text fitsScale_code isCode)⟩
  · intro plain j
    constructor
    · intro parsed
      obtain ⟨j₀, isPlus⟩ := text_reads plus_reads_code ((parse_iff s j).mp parsed)
      obtain ⟨j₁, isPlain⟩ := plain ⟨j₀, isPlus⟩
      have isCode := text_transfer code_of_plain isPlain (anything isPlain)
      have same := Except.ok.inj (parsed.symm.trans ((parse_iff s j₁).mpr isCode))
      rw [same]
      exact text_transfer rfc_of_plain isPlain (anything isPlain)
    · intro isRfc
      obtain ⟨j₁, isPlain⟩ := plain ⟨j, text_transfer plus_of_rfc isRfc (anything isRfc)⟩
      have isCode := text_transfer code_of_plain isPlain (anything isPlain)
      have same := text_unique isRfc (text_transfer rfc_of_plain isPlain (anything isPlain))
      rw [same]
      exact (parse_iff s j₁).mpr isCode

/-- The text `"\u+041"`. -/
def plusText : String := String.ofList ['"', '\\', 'u', '+', '0', '4', '1', '"']

theorem parse_plusTaken :
    ¬ ∀ (s : String) (j : Json), Json.parse s = .ok j ↔ Text rfcMeanings s j := by
  intro claimed
  have taken : Json.parse plusText = .ok (.str (String.ofList ['A'])) := by
    unfold Json.parse Json.parseWith plusText
    rw [String.toList_ofList]
    rfl
  have isRfc := (claimed plusText _).mp taken
  have refused : Json.parseWith rfcReaders plusText =
      JsonParser.err "\"\\u\" must be followed by four hexadecimal digits." := by
    unfold Json.parseWith plusText
    rw [String.toList_ofList]
    rfl
  have parsed := (parseWith_iff agrees_rfc plusText _).mpr isRfc
  rw [refused] at parsed
  cases parsed

end NoidaDb.Sql.JsonGrammar
