/-
What is printed is read back.

Every value that the parser returns can be printed in three ways, and each of the texts is
a JSON text of the grammar that stands for the value.
-/

import NoidaDb.Sql.JsonExactness
import NoidaDb.Sql.Magnitudes

namespace NoidaDb.Sql.JsonGrammar

open JsonParser

def Printable : Numeric → Prop
  | .fin d => Magnitude d.digits ∧ (d.digits = [] → d.neg = false) ∧ d.scale < 2 ^ 32 ∧ d.hidden = 0
  | _ => False

variable {j : Json} {n level : Nat} {c : Char} {s lead : List Char} {vs : List Json}

theorem digitOf_lt (digit : isDigit c = true) : digitOf c < 10 := by
  simp only [isDigit, Bool.and_eq_true, decide_eq_true_eq] at digit
  have high : c.toNat ≤ 57 := digit.2
  have value : digitOf c = c.toNat - 48 := rfl
  omega

theorem digits_map {ds : List Char} (digits : ∀ c ∈ ds, isDigit c = true) :
    ∀ d ∈ ds.map digitOf, d < 10 := by
  intro d member
  obtain ⟨c, isC, rfl⟩ := List.mem_map.mp member
  exact digitOf_lt (digits c isC)

theorem printable_code (x : Numeral) (v : Numeric) (wellFormed : x.WellFormed)
    (means : codeMeanings.numeral x = some v) : Printable v := by
  obtain ⟨d, isDec, rfl⟩ := Option.map_eq_some_iff.mp means
  unfold Numeral.exact at isDec
  split at isDec
  · obtain rfl := Option.some.inj isDec
    refine ⟨magnitude_strip ?_, ?_, Nat.mod_lt _ (by decide), rfl⟩
    · intro k member
      rcases List.mem_append.mp member with digit | isZero
      · apply digits_map _ k digit
        intro c inText
        rcases List.mem_append.mp inText with inInt | inFrac
        · exact wellFormed.int.2 c inInt
        · exact wellFormed.frac c inFrac
      · rw [(List.mem_replicate.mp isZero).2]
        decide
    · intro isEmpty
      simp only [Dec.normalize] at isEmpty ⊢
      rw [if_pos isEmpty]
  · cases isDec

theorem strip_padded {digits : List Nat} (magnitude : Magnitude digits) (n : Nat) :
    strip (List.replicate n 0 ++ digits) = digits := by
  induction n with
  | zero =>
    cases digits with
    | nil => rfl
    | cons d ds =>
      have leads := magnitude.leads
      simp only [List.head?_cons, ne_eq, Option.some.injEq] at leads
      simp [strip, leads]
  | succ n ih =>
    rw [List.replicate_succ, List.cons_append]
    unfold strip at ih ⊢
    rw [List.dropWhile_cons_of_pos (by rfl)]
    exact ih

theorem exact_of_none (minus : Bool) {int frac : List Char} {digits : List Nat}
    (all : (int ++ frac).map digitOf = digits) :
    Numeral.exact { minus := minus, int := int, frac := frac, exp := none } =
      some { neg := if strip digits = [] then false else minus
             digits := strip digits
             scale := frac.length } := by
  unfold Numeral.exact
  have noExponent : Numeral.exponent { minus := minus, int := int, frac := frac, exp := none } = 0 := rfl
  rw [noExponent, if_pos (by simp), all]
  simp [Dec.normalize]

theorem show_text {v : Numeric} (printable : Printable v) :
    ∃ x : Numeral, x.WellFormed ∧ v.show = x.text ∧ codeMeanings.numeral x = some v := by
  cases v with
  | nan => exact printable.elim
  | inf neg => exact printable.elim
  | fin d =>
    obtain ⟨magnitude, zero, fits, shown⟩ := printable
    have length : d.scale < d.padded.length := by
      unfold Dec.padded
      split
      · rw [List.length_append, List.length_replicate]
        omega
      · omega
    have digits : ∀ k ∈ d.padded, k < 10 := by
      intro k member
      unfold Dec.padded at member
      split at member
      · rcases List.mem_append.mp member with isZero | inDigits
        · rw [(List.mem_replicate.mp isZero).2]
          decide
        · exact magnitude.digits k inDigits
      · exact magnitude.digits k member
    have stripped : strip d.padded = d.digits := by
      unfold Dec.padded
      split
      · exact strip_padded magnitude _
      · exact strip_padded magnitude 0
    have fracLength : (d.padded.drop (d.padded.length - d.scale)).length = d.scale := by
      rw [List.length_drop]
      omega
    have inInt : ∀ k ∈ d.padded.take (d.padded.length - d.scale), k < 10 :=
      fun k member => digits k (List.mem_of_mem_take member)
    have inFrac : ∀ k ∈ d.padded.drop (d.padded.length - d.scale), k < 10 :=
      fun k member => digits k (List.mem_of_mem_drop member)
    -- With no places there are no digits after the point.
    have fracText : (if 0 < d.scale then
        '.' :: (d.padded.drop (d.padded.length - d.scale)).map digitChar else []) =
          Numeral.fracText ((d.padded.drop (d.padded.length - d.scale)).map digitChar) := by
      unfold Numeral.fracText
      by_cases places : 0 < d.scale
      · have present : (d.padded.drop (d.padded.length - d.scale)).map digitChar ≠ [] := by
          intro isEmpty
          rw [List.map_eq_nil_iff] at isEmpty
          rw [isEmpty] at fracLength
          simp only [List.length_nil] at fracLength
          omega
        rw [if_pos places, if_neg present]
      · have none : d.padded.drop (d.padded.length - d.scale) = [] := by
          apply List.length_eq_zero_iff.mp
          omega
        rw [if_neg places, none]
        rfl
    refine ⟨{ minus := d.neg
              int := (d.padded.take (d.padded.length - d.scale)).map digitChar
              frac := (d.padded.drop (d.padded.length - d.scale)).map digitChar
              exp := none }, ?_, ?_, ?_⟩
    · constructor
      · constructor
        · intro isEmpty
          have none := congrArg List.length isEmpty
          simp only [List.length_map, List.length_take, List.length_nil] at none
          omega
        · exact (digitChars inInt).1
      · unfold Dec.padded
        split
        · apply Or.inl
          simp only [List.length_map, List.length_take, List.length_append, List.length_replicate]
          omega
        · rename_i long
          apply Or.inr
          cases ks : d.digits with
          | nil =>
            rw [ks] at long
            simp at long
          | cons k rest =>
            have leads := magnitude.leads
            have small := magnitude.digits k (by simp [ks])
            rw [ks] at leads long
            obtain ⟨n, isN⟩ : ∃ n, (k :: rest).length - d.scale = n + 1 :=
              ⟨(k :: rest).length - d.scale - 1, by omega⟩
            rw [isN, List.take_succ_cons, List.map_cons, List.head?_cons]
            intro isZero
            apply leads
            have value := (digitOf_digitChar small).1
            rw [Option.some.inj isZero] at value
            rw [List.head?_cons, ← value]
            rfl
      · exact (digitChars inFrac).1
      · simp
    · rw [show_fin shown]
      simp only [Dec.show, fracText]
      rw [Numeral.text, Numeral.expText, List.append_nil]
      rfl
    · have all : ((d.padded.take (d.padded.length - d.scale)).map digitChar ++
          (d.padded.drop (d.padded.length - d.scale)).map digitChar).map digitOf = d.padded := by
        rw [List.map_append, (digitChars inInt).2, (digitChars inFrac).2, List.take_append_drop]
      have exact := exact_of_none d.neg all
      rw [List.length_map, fracLength, stripped] at exact
      have sign : (if d.digits = [] then false else d.neg) = d.neg := by
        split
        · rename_i isEmpty
          exact (zero isEmpty).symm
        · rfl
      rw [sign] at exact
      simp only [codeMeanings, numeralMeaning, exact, Option.map_some, Nat.mod_eq_of_lt fits,
        ← shown]

theorem hex_control (control : n < 0x20) :
    fromStrRadix16 ['0', '0', Json.hexChar (n / 16), Json.hexChar (n % 16)] = some n ∧
      isHighSurrogate n = false ∧ isLowSurrogate n = false := by
  have all : ∀ n < 0x20,
      fromStrRadix16 ['0', '0', Json.hexChar (n / 16), Json.hexChar (n % 16)] = some n ∧
        isHighSurrogate n = false ∧ isLowSurrogate n = false := by decide
  exact all n control

theorem charOf_toNat (c : Char) : charOf c.toNat = c := by
  have valid : c.toNat.isValidChar := c.valid
  unfold charOf
  rw [if_pos valid, Char.ofNat_toNat]

theorem chars_escapeChar (noNul : c.toNat ≠ 0) {out rest : List Char}
    (later : Chars codeMeanings s out rest) :
    Chars codeMeanings (Json.escapeChar c ++ s) (c :: out) rest := by
  unfold Json.escapeChar
  split
  · rename_i isQuote
    rw [isQuote]
    exact Chars.escape (by decide) later
  · rename_i notQuote
    split
    · rename_i isBackslash
      rw [isBackslash]
      exact Chars.escape (by decide) later
    · rename_i notBackslash
      split
      · rename_i same
        rw [same]
        exact Chars.escape (by decide) later
      · split
        · rename_i same
          rw [same]
          exact Chars.escape (by decide) later
        · split
          · rename_i same
            rw [same]
            exact Chars.escape (by decide) later
          · split
            · rename_i same
              rw [same]
              exact Chars.escape (by decide) later
            · split
              · rename_i same
                rw [same]
                exact Chars.escape (by decide) later
              · split
                · rename_i control
                  obtain ⟨isHex, notHigh, notLow⟩ := hex_control control
                  have unicode := @Chars.unicode codeMeanings
                    ['0', '0', Json.hexChar (c.toNat / 16), Json.hexChar (c.toNat % 16)] s out rest
                    c.toNat rfl isHex ⟨notHigh, notLow, noNul⟩ later
                  rw [charOf_toNat] at unicode
                  exact unicode
                · rename_i printable
                  exact Chars.plain ⟨Nat.not_lt.mp printable, notQuote, notBackslash⟩ later

theorem chars_escape (noNul : ∀ c ∈ s, c.toNat ≠ 0) (rest : List Char) :
    Chars codeMeanings (s.flatMap Json.escapeChar ++ '"' :: rest) s rest := by
  induction s with
  | nil => exact Chars.close rest
  | cons c s ih =>
    obtain ⟨here, later⟩ := List.forall_mem_cons.mp noNul
    rw [List.flatMap_cons, List.append_assoc]
    exact chars_escapeChar here (ih later)

theorem escape_append (s : String) (rest : List Char) :
    Json.escape s ++ rest = '"' :: (s.toList.flatMap Json.escapeChar ++ '"' :: rest) := by
  simp [Json.escape]

def Space (lead : List Char) : Prop := ∀ c ∈ lead, isWs c = true

theorem ws_space (space : Space lead) (s : List Char) : Ws (lead ++ s) s := by
  induction lead with
  | nil => exact Ws.none s
  | cons c lead ih =>
    obtain ⟨here, later⟩ := List.forall_mem_cons.mp space
    exact Ws.some here (ih later)

def ReadBack (n : Nat) (text : List Char) (j : Json) : Prop :=
  ∀ rest, Value codeMeanings n (text ++ rest) j rest

section OneLine

variable {afterComma afterColon : List Char}

theorem items_write {n : Nat} {vs : List Json} (present : vs ≠ [])
    (each : ∀ v ∈ vs, ReadBack n (v.write (',' :: afterComma) (':' :: afterColon)) v)
    (spaceComma : Space afterComma) {lead : List Char} (space : Space lead) (rest : List Char) :
    Items codeMeanings n
      (lead ++ (Json.writeItems (',' :: afterComma) (':' :: afterColon) vs ++ ']' :: rest)) vs rest := by
  induction vs generalizing lead with
  | nil => exact (present rfl).elim
  | cons v vs ih =>
    obtain ⟨here, later⟩ := List.forall_mem_cons.mp each
    cases vs with
    | nil => exact Items.last (ws_space space _) (here _) (Ws.none _)
    | cons w vs =>
      have tail := ih (by simp) later spaceComma
      simp only [Json.writeItems, List.append_assoc, List.cons_append]
      exact Items.cons (ws_space space _) (here _) (Ws.none _) tail

theorem members_write {n : Nat} {vs : List (String × Json)} (present : vs ≠ [])
    (keys : ∀ v ∈ vs, ∀ c ∈ v.1.toList, c.toNat ≠ 0)
    (each : ∀ v ∈ vs, ReadBack n (v.2.write (',' :: afterComma) (':' :: afterColon)) v.2)
    (spaceComma : Space afterComma) (spaceColon : Space afterColon) {lead : List Char}
    (space : Space lead) (rest : List Char) :
    Members codeMeanings n
      (lead ++ (Json.writeMembers (',' :: afterComma) (':' :: afterColon) vs ++ '}' :: rest)) vs
        rest := by
  induction vs generalizing lead with
  | nil => exact (present rfl).elim
  | cons v vs ih =>
    obtain ⟨key, value⟩ := v
    obtain ⟨here, later⟩ := List.forall_mem_cons.mp each
    obtain ⟨noNul, noNuls⟩ := List.forall_mem_cons.mp keys
    cases vs with
    | nil =>
      simp only [Json.writeMembers, List.append_assoc, List.cons_append, escape_append]
      have last := @Members.last codeMeanings n _ _ _ _ _ _ rest key.toList value
        (ws_space space _) (chars_escape noNul _) (Ws.none _) (ws_space spaceColon _) (here _)
        (Ws.none _)
      rw [String.ofList_toList] at last
      exact last
    | cons w vs =>
      have tail := ih (by simp) noNuls later spaceComma
      simp only [Json.writeMembers, List.append_assoc, List.cons_append, escape_append]
      have cons := @Members.cons codeMeanings n _ _ _ _ _ _ _ rest key.toList value (w :: vs)
        (ws_space space _) (chars_escape noNul _) (Ws.none _) (ws_space spaceColon _) (here _)
        (Ws.none _) tail
      rw [String.ofList_toList] at cons
      exact cons

theorem readBack_write (spaceComma : Space afterComma) (spaceColon : Space afterColon) {n : Nat}
    {j : Json} (within : Within Printable n j) :
    ReadBack n (j.write (',' :: afterComma) (':' :: afterColon)) j := by
  induction within with
  | null n => exact fun rest => Value.null n rest
  | bool n b =>
    cases b with
    | true => exact fun rest => Value.true n rest
    | false => exact fun rest => Value.false n rest
  | num holds =>
    intro rest
    obtain ⟨x, wellFormed, isText, means⟩ := show_text holds
    rw [Json.write, isText]
    exact Value.num wellFormed means
  | @str n s noNul =>
    intro rest
    rw [Json.write, escape_append]
    have isString := @Value.str codeMeanings n _ _ _ (chars_escape noNul rest)
    rw [String.ofList_toList] at isString
    exact isString
  | @array n vs items ih =>
    intro rest
    rw [Json.write, List.cons_append, List.append_assoc]
    cases vs with
    | nil => exact Value.emptyArray (Ws.none _)
    | cons v vs =>
      exact Value.array (@items_write _ _ _ _ (by simp) ih spaceComma [] (by simp [Space]) rest)
  | @object n vs keys members ih =>
    intro rest
    rw [Json.write, List.cons_append, List.append_assoc]
    cases vs with
    | nil => exact Value.emptyObject (Ws.none _)
    | cons v vs =>
      exact Value.object (@members_write _ _ _ _ (by simp) keys ih spaceComma spaceColon []
        (by simp [Space]) rest)

end OneLine

theorem space_one : Space [' '] := by simp [Space, isWs]

theorem space_pad (level : Nat) : Space (Json.pad level) := by
  intro c member
  rw [(List.mem_replicate.mp member).2]
  rfl

theorem space_cons (space : Space lead) : Space ('\n' :: lead) :=
  List.forall_mem_cons.mpr ⟨by decide, space⟩

theorem space_newline : Space ['\n'] := space_cons (by simp [Space])

theorem items_pretty (present : vs ≠ []) (each : ∀ v ∈ vs, ReadBack n (v.prettyInto level) v)
    (lead : List Char) (space : Space lead) {tail : List Char} (spaceTail : Space tail)
    (rest : List Char) :
    Items codeMeanings n
      (lead ++ (Json.prettyItems level vs ++ (tail ++ ']' :: rest))) vs rest := by
  induction vs generalizing lead with
  | nil => exact (present rfl).elim
  | cons v vs ih =>
    obtain ⟨here, later⟩ := List.forall_mem_cons.mp each
    cases vs with
    | nil =>
      simp only [Json.prettyItems, List.append_assoc, List.cons_append, List.nil_append]
      apply Items.last ((ws_space space _).trans (ws_space (space_pad level) _)) (here _)
      exact ws_space (space_cons spaceTail) (']' :: rest)
    | cons w vs =>
      have after := ih (by simp) later ['\n'] space_newline
      simp only [Json.prettyItems, List.append_assoc, List.cons_append, List.nil_append]
      exact Items.cons ((ws_space space _).trans (ws_space (space_pad level) _)) (here _)
        (Ws.none _) after

theorem members_pretty {vs : List (String × Json)} (present : vs ≠ [])
    (keys : ∀ v ∈ vs, ∀ c ∈ v.1.toList, c.toNat ≠ 0)
    (each : ∀ v ∈ vs, ReadBack n (v.2.prettyInto level) v.2) (lead : List Char)
    (space : Space lead) {tail : List Char} (spaceTail : Space tail) (rest : List Char) :
    Members codeMeanings n
      (lead ++ (Json.prettyMembers level vs ++ (tail ++ '}' :: rest))) vs rest := by
  induction vs generalizing lead with
  | nil => exact (present rfl).elim
  | cons v vs ih =>
    obtain ⟨key, value⟩ := v
    obtain ⟨here, later⟩ := List.forall_mem_cons.mp each
    obtain ⟨noNul, noNuls⟩ := List.forall_mem_cons.mp keys
    cases vs with
    | nil =>
      simp only [Json.prettyMembers, List.append_assoc, List.cons_append, List.nil_append,
        escape_append]
      have last := @Members.last codeMeanings n _ _ _ _ _ _ rest key.toList value
        ((ws_space space _).trans (ws_space (space_pad level) _)) (chars_escape noNul _)
        (Ws.none _) (ws_space space_one _) (here _) (ws_space (space_cons spaceTail) ('}' :: rest))
      rw [String.ofList_toList] at last
      exact last
    | cons w vs =>
      have after := ih (by simp) noNuls later ['\n'] space_newline
      simp only [Json.prettyMembers, List.append_assoc, List.cons_append, List.nil_append,
        escape_append]
      have cons := @Members.cons codeMeanings n _ _ _ _ _ _ _ rest key.toList value (w :: vs)
        ((ws_space space _).trans (ws_space (space_pad level) _)) (chars_escape noNul _)
        (Ws.none _) (ws_space space_one _) (here _) (Ws.none _) after
      rw [String.ofList_toList] at cons
      exact cons

theorem readBack_pretty (within : Within Printable n j) (level : Nat) :
    ReadBack n (j.prettyInto level) j := by
  induction within generalizing level with
  | null n => exact readBack_write space_one space_one (Within.null n)
  | bool n b => exact readBack_write space_one space_one (Within.bool n b)
  | num holds => exact readBack_write space_one space_one (Within.num holds)
  | str noNul => exact readBack_write space_one space_one (Within.str noNul)
  | @array n vs items ih =>
    intro rest
    cases vs with
    | nil => exact readBack_write space_one space_one (Within.array items) rest
    | cons v vs =>
      have isArray := items_pretty (by simp) (fun w isW => ih w isW (level + 1)) ['\n']
        space_newline (space_pad level) rest
      have text : ((Json.array (v :: vs)).prettyInto level) ++ rest = '[' :: (['\n'] ++
          (Json.prettyItems (level + 1) (v :: vs) ++ (Json.pad level ++ ']' :: rest))) := by
        simp [Json.prettyInto]
      rw [text]
      exact Value.array isArray
  | @object n vs keys members ih =>
    intro rest
    cases vs with
    | nil => exact readBack_write space_one space_one (Within.object keys members) rest
    | cons v vs =>
      have isObject := members_pretty (by simp) keys (fun w isW => ih w isW (level + 1)) ['\n']
        space_newline (space_pad level) rest
      have text : ((Json.object (v :: vs)).prettyInto level) ++ rest = '{' :: (['\n'] ++
          (Json.prettyMembers (level + 1) (v :: vs) ++ (Json.pad level ++ '}' :: rest))) := by
        simp [Json.prettyInto]
      rw [text]
      exact Value.object isObject

theorem parse_of_readBack (readBack : ReadBack maxDepth s j) :
    Json.parse (String.ofList s) = .ok j := by
  apply (parse_iff _ j).mpr
  refine ⟨s, [], ?_, ?_, Ws.none _⟩
  · rw [String.toList_ofList]
    exact Ws.none s
  · have whole := readBack []
    rw [List.append_nil] at whole
    exact whole

theorem mem_insertMember {k : String} {v : Json} {ms : List (String × Json)} {m : String × Json}
    (member : m ∈ Json.insertMember k v ms) :
    (m.1 = k ∨ m.1 ∈ ms.map Prod.fst) ∧ (m.2 = v ∨ m.2 ∈ ms.map Prod.snd) := by
  induction ms with
  | nil =>
    rw [List.mem_singleton.mp member]
    exact ⟨Or.inl rfl, Or.inl rfl⟩
  | cons e rest ih =>
    obtain ⟨ek, ev⟩ := e
    unfold Json.insertMember at member
    split at member
    · rcases List.mem_cons.mp member with isFirst | isLater
      · simp [isFirst]
      · constructor
        · exact Or.inr (List.mem_map_of_mem (List.mem_cons_of_mem _ isLater))
        · exact Or.inr (List.mem_map_of_mem (List.mem_cons_of_mem _ isLater))
    · rcases List.mem_cons.mp member with isFirst | isLater
      · simp [isFirst]
      · have found := ih isLater
        simp only [List.map_cons, List.mem_cons]
        tauto
    · rcases List.mem_cons.mp member with isFirst | isLater
      · simp [isFirst]
      · constructor
        · exact Or.inr (List.mem_map_of_mem isLater)
        · exact Or.inr (List.mem_map_of_mem isLater)

theorem mem_normalizeMembers {vs out : List (String × Json)} {m : String × Json}
    (member : m ∈ Json.normalizeMembers out vs) :
    (m.1 ∈ out.map Prod.fst ∨ ∃ v ∈ vs, m.1 = v.1) ∧
      (m.2 ∈ out.map Prod.snd ∨ ∃ v ∈ vs, m.2 = v.2.normalize) := by
  induction vs generalizing out with
  | nil => exact ⟨Or.inl (List.mem_map_of_mem member), Or.inl (List.mem_map_of_mem member)⟩
  | cons v vs ih =>
    obtain ⟨k, value⟩ := v
    obtain ⟨key, found⟩ := ih member
    constructor
    · rcases key with inOut | ⟨w, isW, same⟩
      · obtain ⟨e, isE, same⟩ := List.mem_map.mp inOut
        rcases (mem_insertMember isE).1 with isKey | older
        · exact Or.inr ⟨(k, value), List.mem_cons_self, same.symm.trans isKey⟩
        · exact Or.inl (same ▸ older)
      · exact Or.inr ⟨w, List.mem_cons_of_mem _ isW, same⟩
    · rcases found with inOut | ⟨w, isW, same⟩
      · obtain ⟨e, isE, same⟩ := List.mem_map.mp inOut
        rcases (mem_insertMember isE).2 with isValue | older
        · exact Or.inr ⟨(k, value), List.mem_cons_self, same.symm.trans isValue⟩
        · exact Or.inl (same ▸ older)
      · exact Or.inr ⟨w, List.mem_cons_of_mem _ isW, same⟩

theorem mem_normalizeItems {v : Json} (member : v ∈ Json.normalizeItems vs) :
    ∃ w ∈ vs, v = w.normalize := by
  induction vs with
  | nil => cases member
  | cons w vs ih =>
    rcases List.mem_cons.mp member with isFirst | isLater
    · exact ⟨w, List.mem_cons_self, isFirst⟩
    · obtain ⟨u, isU, same⟩ := ih isLater
      exact ⟨u, List.mem_cons_of_mem _ isU, same⟩

theorem within_normalize {p : Numeric → Prop} (within : Within p n j) : Within p n j.normalize := by
  induction within with
  | null n => exact Within.null n
  | bool n b => exact Within.bool n b
  | num holds => exact Within.num holds
  | str noNul => exact Within.str noNul
  | array items ih =>
    apply Within.array
    intro v member
    obtain ⟨w, isW, same⟩ := mem_normalizeItems member
    rw [same]
    exact ih w isW
  | object keys members ih =>
    apply Within.object
    · intro v member
      rcases (mem_normalizeMembers member).1 with older | ⟨w, isW, same⟩
      · cases older
      · rw [same]
        exact keys w isW
    · intro v member
      rcases (mem_normalizeMembers member).2 with older | ⟨w, isW, same⟩
      · cases older
      · rw [same]
        exact ih w isW

def Returned (j : Json) : Prop := ∃ s, Json.parse s = .ok j ∨ Json.parseJsonb s = .ok j

theorem within_returned (returned : Returned j) : Within Printable maxDepth j := by
  have parsed : ∀ s j, Json.parse s = .ok j → Within Printable maxDepth j :=
    fun s j isParsed => within_text printable_code ((parse_iff s j).mp isParsed)
  obtain ⟨s, plain | jsonb⟩ := returned
  · exact parsed s j plain
  · unfold Json.parseJsonb at jsonb
    cases result : Json.parse s with
    | error e =>
      rw [result] at jsonb
      cases jsonb
    | ok v =>
      rw [result] at jsonb
      obtain rfl := Except.ok.inj jsonb
      exact within_normalize (parsed s v result)

def printers : List (Json → String) := [Json.toJsonbString, Json.toCompactString, Json.pretty]

theorem parse_printers (within : Within Printable maxDepth j) :
    ∀ print ∈ printers, Json.parse (print j) = .ok j := by
  intro print isPrinter
  have none : Space [] := by simp [Space]
  simp only [printers, List.mem_cons, List.not_mem_nil, or_false] at isPrinter
  rcases isPrinter with rfl | rfl | rfl
  · exact parse_of_readBack (readBack_write space_one space_one within)
  · exact parse_of_readBack (readBack_write none none within)
  · exact parse_of_readBack (readBack_pretty within 0)

mutual

def bare : List Char → List Char
  | [] => []
  | c :: s => if isWs c then bare s else if c = '"' then c :: quoted s else c :: bare s

def quoted : List Char → List Char
  | [] => []
  | c :: s => if c = '"' then c :: bare s else if c = '\\' then c :: afterBackslash s else c :: quoted s

def afterBackslash : List Char → List Char
  | [] => []
  | c :: s => c :: quoted s

end

theorem bare_space (space : Space lead) (s : List Char) : bare (lead ++ s) = bare s := by
  induction lead with
  | nil => rfl
  | cons c lead ih =>
    obtain ⟨here, later⟩ := List.forall_mem_cons.mp space
    rw [List.cons_append, bare, if_pos here, ih later]

theorem bare_punctuation (notSpace : isWs c = false) (notQuote : c ≠ '"') (s : List Char) :
    bare (c :: s) = c :: bare s := by
  rw [bare, if_neg (by simp [notSpace]), if_neg notQuote]

theorem bare_plain {text : List Char} (plain : ∀ c ∈ text, isWs c = false ∧ c ≠ '"')
    (s : List Char) : bare (text ++ s) = text ++ bare s := by
  induction text with
  | nil => rfl
  | cons c text ih =>
    obtain ⟨here, later⟩ := List.forall_mem_cons.mp plain
    rw [List.cons_append, bare_punctuation here.1 here.2, ih later]
    rfl

theorem quoted_escapeChar (c : Char) (s : List Char) :
    quoted (Json.escapeChar c ++ s) = Json.escapeChar c ++ quoted s := by
  unfold Json.escapeChar
  split
  · simp [quoted, afterBackslash]
  · rename_i notQuote
    split
    · simp [quoted, afterBackslash]
    · rename_i notBackslash
      split
      · simp [quoted, afterBackslash]
      · split
        · simp [quoted, afterBackslash]
        · split
          · simp [quoted, afterBackslash]
          · split
            · simp [quoted, afterBackslash]
            · split
              · simp [quoted, afterBackslash]
              · split
                · rename_i control
                  have plain : ∀ n < 0x20, (Json.hexChar (n / 16) ≠ '"' ∧ Json.hexChar (n / 16) ≠ '\\') ∧
                      Json.hexChar (n % 16) ≠ '"' ∧ Json.hexChar (n % 16) ≠ '\\' := by decide
                  obtain ⟨⟨notQuote₁, notBackslash₁⟩, notQuote₂, notBackslash₂⟩ :=
                    plain c.toNat control
                  simp [quoted, afterBackslash, notQuote₁, notBackslash₁, notQuote₂, notBackslash₂]
                · simp [quoted, notQuote, notBackslash]

theorem bare_escape (s : String) (rest : List Char) :
    bare (Json.escape s ++ rest) = Json.escape s ++ bare rest := by
  have inside : ∀ t : List Char, quoted (t.flatMap Json.escapeChar ++ '"' :: rest) =
      t.flatMap Json.escapeChar ++ '"' :: bare rest := by
    intro t
    induction t with
    | nil => simp [quoted]
    | cons c t ih =>
      rw [List.flatMap_cons, List.append_assoc, quoted_escapeChar, ih, List.append_assoc]
  rw [escape_append, escape_append, bare, if_neg (by decide), if_pos rfl, inside]

theorem bare_show {v : Numeric} (printable : Printable v) (rest : List Char) :
    bare (v.show ++ rest) = v.show ++ bare rest := by
  obtain ⟨x, wellFormed, isText, _⟩ := show_text printable
  rw [isText]
  apply bare_plain
  intro c member
  rcases mem_text wellFormed member with digit | other
  · obtain ⟨notSpace, _, _, notQuote, _⟩ := digit_plain digit
    exact ⟨notSpace, notQuote⟩
  · simp only [List.mem_cons, List.not_mem_nil, or_false] at other
    rcases other with rfl | rfl | rfl | rfl | rfl <;> decide

section OneLine

variable {afterComma afterColon : List Char}

theorem bare_items {vs : List Json} (space : Space afterComma)
    (each : ∀ v ∈ vs, ∀ rest,
      bare (v.write (',' :: afterComma) (':' :: afterColon) ++ rest) = v.write [','] [':'] ++ bare rest)
    (rest : List Char) :
    bare (Json.writeItems (',' :: afterComma) (':' :: afterColon) vs ++ rest) =
      Json.writeItems [','] [':'] vs ++ bare rest := by
  induction vs with
  | nil => rfl
  | cons v vs ih =>
    obtain ⟨here, later⟩ := List.forall_mem_cons.mp each
    cases vs with
    | nil => exact here rest
    | cons w vs =>
      simp only [Json.writeItems, List.append_assoc, List.cons_append, List.nil_append]
      rw [here, bare_punctuation (by decide) (by decide), bare_space space, ih later]

theorem bare_members {vs : List (String × Json)} (spaceComma : Space afterComma)
    (spaceColon : Space afterColon)
    (each : ∀ v ∈ vs, ∀ rest, bare (v.2.write (',' :: afterComma) (':' :: afterColon) ++ rest) =
      v.2.write [','] [':'] ++ bare rest)
    (rest : List Char) :
    bare (Json.writeMembers (',' :: afterComma) (':' :: afterColon) vs ++ rest) =
      Json.writeMembers [','] [':'] vs ++ bare rest := by
  induction vs with
  | nil => rfl
  | cons v vs ih =>
    obtain ⟨key, value⟩ := v
    obtain ⟨here, later⟩ := List.forall_mem_cons.mp each
    cases vs with
    | nil =>
      simp only [Json.writeMembers, List.append_assoc, List.cons_append, List.nil_append]
      rw [bare_escape, bare_punctuation (by decide) (by decide), bare_space spaceColon, here]
    | cons w vs =>
      simp only [Json.writeMembers, List.append_assoc, List.cons_append, List.nil_append]
      rw [bare_escape, bare_punctuation (by decide) (by decide), bare_space spaceColon, here,
        bare_punctuation (by decide) (by decide), bare_space spaceComma, ih later]

theorem bare_write (spaceComma : Space afterComma) (spaceColon : Space afterColon) {n : Nat}
    {j : Json} (within : Within Printable n j) (rest : List Char) :
    bare (j.write (',' :: afterComma) (':' :: afterColon) ++ rest) =
      j.write [','] [':'] ++ bare rest := by
  induction within generalizing rest with
  | null n => exact @bare_plain "null".toList (by simp [isWs]) rest
  | bool n b =>
    cases b with
    | true => exact @bare_plain "true".toList (by simp [isWs]) rest
    | false => exact @bare_plain "false".toList (by simp [isWs]) rest
  | num holds => exact bare_show holds rest
  | str noNul => exact bare_escape _ rest
  | array items ih =>
    simp only [Json.write, List.append_assoc, List.cons_append, List.nil_append]
    rw [bare_punctuation (by decide) (by decide), bare_items spaceComma ih, bare,
      if_neg (by decide), if_neg (by decide)]
  | object keys members ih =>
    simp only [Json.write, List.append_assoc, List.cons_append, List.nil_append]
    rw [bare_punctuation (by decide) (by decide), bare_members spaceComma spaceColon ih, bare,
      if_neg (by decide), if_neg (by decide)]

end OneLine

theorem bare_prettyItems
    (each : ∀ v ∈ vs, ∀ rest, bare (v.prettyInto level ++ rest) = v.write [','] [':'] ++ bare rest)
    (rest : List Char) :
    bare (Json.prettyItems level vs ++ rest) = Json.writeItems [','] [':'] vs ++ bare rest := by
  induction vs with
  | nil => rfl
  | cons v vs ih =>
    obtain ⟨here, later⟩ := List.forall_mem_cons.mp each
    cases vs with
    | nil =>
      simp only [Json.prettyItems, List.append_assoc]
      rw [bare_space (space_pad level), here, bare_space space_newline]
      rfl
    | cons w vs =>
      have split : Json.prettyItems level (v :: w :: vs) ++ rest = Json.pad level ++
          (v.prettyInto level ++ ',' :: (['\n'] ++ (Json.prettyItems level (w :: vs) ++ rest))) := by
        simp [Json.prettyItems]
      rw [split, bare_space (space_pad level), here, bare_punctuation (by decide) (by decide),
        bare_space space_newline, ih later]
      simp [Json.writeItems]

theorem bare_prettyMembers {vs : List (String × Json)} (each : ∀ v ∈ vs, ∀ rest,
      bare (v.2.prettyInto level ++ rest) = v.2.write [','] [':'] ++ bare rest) (rest : List Char) :
    bare (Json.prettyMembers level vs ++ rest) = Json.writeMembers [','] [':'] vs ++ bare rest := by
  induction vs with
  | nil => rfl
  | cons v vs ih =>
    obtain ⟨key, value⟩ := v
    obtain ⟨here, later⟩ := List.forall_mem_cons.mp each
    cases vs with
    | nil =>
      have split : Json.prettyMembers level [(key, value)] ++ rest = Json.pad level ++
          (Json.escape key ++ ':' :: ([' '] ++ (value.prettyInto level ++ (['\n'] ++ rest)))) := by
        simp [Json.prettyMembers]
      rw [split, bare_space (space_pad level), bare_escape,
        bare_punctuation (by decide) (by decide), bare_space space_one, here, bare_space space_newline]
      simp [Json.writeMembers]
    | cons w vs =>
      have split : Json.prettyMembers level ((key, value) :: w :: vs) ++ rest =
          Json.pad level ++ (Json.escape key ++ ':' :: ([' '] ++ (value.prettyInto level ++
            ',' :: (['\n'] ++ (Json.prettyMembers level (w :: vs) ++ rest))))) := by
        simp [Json.prettyMembers]
      rw [split, bare_space (space_pad level), bare_escape,
        bare_punctuation (by decide) (by decide), bare_space space_one, here,
        bare_punctuation (by decide) (by decide), bare_space space_newline, ih later]
      simp [Json.writeMembers]

theorem bare_pretty (within : Within Printable n j) (level : Nat) (rest : List Char) :
    bare (j.prettyInto level ++ rest) = j.write [','] [':'] ++ bare rest := by
  induction within generalizing level rest with
  | null n => exact bare_write space_one space_one (Within.null n) rest
  | bool n b => exact bare_write space_one space_one (Within.bool n b) rest
  | @num n v holds => exact bare_write space_one space_one (Within.num (n := n) holds) rest
  | @str n s noNul => exact bare_write space_one space_one (Within.str (n := n) noNul) rest
  | @array n vs items ih =>
    cases vs with
    | nil => exact bare_write space_one space_one (Within.array items) rest
    | cons v vs =>
      have split : (Json.array (v :: vs)).prettyInto level ++ rest = '[' :: (['\n'] ++
          (Json.prettyItems (level + 1) (v :: vs) ++ (Json.pad level ++ ']' :: rest))) := by
        simp [Json.prettyInto]
      rw [split, bare_punctuation (by decide) (by decide), bare_space space_newline,
        bare_prettyItems (fun w isW => ih w isW (level + 1)), bare_space (space_pad level),
        bare_punctuation (by decide) (by decide)]
      simp [Json.write]
  | @object n vs keys members ih =>
    cases vs with
    | nil => exact bare_write space_one space_one (Within.object keys members) rest
    | cons v vs =>
      have split : (Json.object (v :: vs)).prettyInto level ++ rest = '{' :: (['\n'] ++
          (Json.prettyMembers (level + 1) (v :: vs) ++ (Json.pad level ++ '}' :: rest))) := by
        simp [Json.prettyInto]
      rw [split, bare_punctuation (by decide) (by decide), bare_space space_newline,
        bare_prettyMembers (fun w isW => ih w isW (level + 1)), bare_space (space_pad level),
        bare_punctuation (by decide) (by decide)]
      simp [Json.write]

theorem bare_printers (within : Within Printable maxDepth j) :
    ∀ print ∈ printers, bare (print j).toList = j.toCompactString.toList := by
  have none : Space [] := by simp [Space]
  intro print isPrinter
  have compact : j.toCompactString.toList = j.write [','] [':'] ++ bare [] := by
    simp [Json.toCompactString, bare]
  rw [compact]
  simp only [printers, List.mem_cons, List.not_mem_nil, or_false] at isPrinter
  rcases isPrinter with rfl | rfl | rfl
  · rw [Json.toJsonbString, String.toList_ofList, ← bare_write space_one space_one within,
      List.append_nil]
  · rw [Json.toCompactString, String.toList_ofList, ← bare_write none none within, List.append_nil]
  · rw [Json.pretty, String.toList_ofList, ← bare_pretty within 0, List.append_nil]

/-- Whatever the parser returns is read back from its three texts, and no other value has any
of the texts, up to space. -/
theorem printed_once {j : Json} (returned : Returned j) :
    (∀ print ∈ printers, Json.parse (print j) = .ok j ∧
      (Json.parse (print j)).map print = .ok (print j)) ∧
    ∀ k, Returned k → ∀ print ∈ printers, ∀ print' ∈ printers,
      bare (print j).toList = bare (print' k).toList → j = k := by
  have within := within_returned returned
  constructor
  · intro print isPrinter
    have parsed := parse_printers within print isPrinter
    constructor
    · exact parsed
    · rw [parsed]
      rfl
  · intro k isReturned print isPrinter print' isPrinter' same
    have withinK := within_returned isReturned
    rw [bare_printers within print isPrinter, bare_printers withinK print' isPrinter'] at same
    have compact : Json.toCompactString ∈ printers := by simp [printers]
    have parsed := parse_printers within _ compact
    rw [String.toList_inj.mp same, parse_printers withinK _ compact] at parsed
    exact (Except.ok.inj parsed).symm

/-- The text `[1.50, {"a": null}]`. -/
def sampleText : String := String.ofList
  ['[', '1', '.', '5', '0', ',', ' ', '\x7b', '"', 'a', '"', ':', ' ', 'n', 'u', 'l', 'l', '\x7d', ']']

def sample : Json :=
  .array [.num (.fin { neg := false, digits := [1, 5, 0], scale := 2 }), .object [("a", .null)]]

theorem printed_once_sample :
    Json.parse sample.pretty = .ok sample ∧ Json.parse sample.toCompactString = .ok sample := by
  have parsed : Json.parse sampleText = .ok sample := by
    unfold Json.parse Json.parseWith sampleText
    rw [String.toList_ofList]
    rfl
  have both := (printed_once ⟨sampleText, Or.inl parsed⟩).1
  exact ⟨(both Json.pretty (by simp [printers])).1, (both Json.toCompactString (by simp [printers])).1⟩

end NoidaDb.Sql.JsonGrammar
