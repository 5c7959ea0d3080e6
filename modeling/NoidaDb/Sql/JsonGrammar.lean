/-
JSON texts as RFC 8259 has them, and what they stand for.

Every relation is between a text, what its beginning stands for, and the rest of it.  What
an escape and a number mean is left open here.
-/

import NoidaDb.Sql.Json

namespace NoidaDb.Sql.JsonGrammar

open JsonParser

structure Numeral where
  minus : Bool
  int : List Char
  frac : List Char
  exp : Option (Char × List Char × List Char)

namespace Numeral

def fracText (frac : List Char) : List Char := if frac = [] then [] else '.' :: frac

def expText : Option (Char × List Char × List Char) → List Char
  | none => []
  | some (e, sign, ds) => e :: sign ++ ds

def minusText (minus : Bool) : List Char := if minus then ['-'] else []

def text (n : Numeral) : List Char :=
  minusText n.minus ++ n.int ++ fracText n.frac ++ expText n.exp

structure WellFormed (n : Numeral) : Prop where
  int : n.int ≠ [] ∧ ∀ c ∈ n.int, isDigit c = true
  leading : n.int.length = 1 ∨ n.int.head? ≠ some '0'
  frac : ∀ c ∈ n.frac, isDigit c = true
  exp : ∀ x ∈ n.exp, (x.1 = 'e' ∨ x.1 = 'E') ∧ (x.2.1 = [] ∨ x.2.1 = ['+'] ∨ x.2.1 = ['-']) ∧
    x.2.2 ≠ [] ∧ ∀ c ∈ x.2.2, isDigit c = true

end Numeral

/-- What the four characters of an escape, and a number, stand for. -/
structure Meanings where
  hex : List Char → Option Nat
  numeral : Numeral → Option Numeric

inductive Ws : List Char → List Char → Prop
  | none (s : List Char) : Ws s s
  | some {c : Char} {s rest : List Char} (isSpace : isWs c = true) (later : Ws s rest) :
      Ws (c :: s) rest

def escapes : List (Char × Char) :=
  [('"', '"'), ('\\', '\\'), ('/', '/'), ('b', Char.ofNat 8), ('f', Char.ofNat 12), ('n', '\n'),
    ('r', '\r'), ('t', '\t')]

/-- The characters of a string, and its closing quote.  Half a surrogate pair and U+0000
stand for nothing. -/
inductive Chars (m : Meanings) : List Char → List Char → List Char → Prop
  | close (rest : List Char) : Chars m ('"' :: rest) [] rest
  | plain {c : Char} {s out rest : List Char} (isPlain : 0x20 ≤ c.toNat ∧ c ≠ '"' ∧ c ≠ '\\')
      (later : Chars m s out rest) : Chars m (c :: s) (c :: out) rest
  | escape {e c : Char} {s out rest : List Char} (isEscape : (e, c) ∈ escapes)
      (later : Chars m s out rest) : Chars m ('\\' :: e :: s) (c :: out) rest
  | unicode {w s out rest : List Char} {cp : Nat} (four : w.length = 4) (isHex : m.hex w = some cp)
      (isWhole : isHighSurrogate cp = false ∧ isLowSurrogate cp = false ∧ cp ≠ 0)
      (later : Chars m s out rest) : Chars m ('\\' :: 'u' :: (w ++ s)) (charOf cp :: out) rest
  | pair {w w' s out rest : List Char} {high low : Nat} (four : w.length = 4 ∧ w'.length = 4)
      (isHex : m.hex w = some high ∧ m.hex w' = some low)
      (isPair : isHighSurrogate high = true ∧ isLowSurrogate low = true)
      (later : Chars m s out rest) :
      Chars m ('\\' :: 'u' :: (w ++ '\\' :: 'u' :: (w' ++ s)))
        (charOf (0x10000 + (high - 0xD800) * 1024 + (low - 0xDC00)) :: out) rest

mutual

/-- A value with at most `n` levels of arrays and objects. -/
inductive Value (m : Meanings) : Nat → List Char → Json → List Char → Prop
  | null (n : Nat) (rest : List Char) : Value m n ("null".toList ++ rest) .null rest
  | true (n : Nat) (rest : List Char) : Value m n ("true".toList ++ rest) (.bool true) rest
  | false (n : Nat) (rest : List Char) : Value m n ("false".toList ++ rest) (.bool false) rest
  | num {n : Nat} {x : Numeral} {v : Numeric} {rest : List Char} (wellFormed : x.WellFormed)
      (means : m.numeral x = some v) : Value m n (x.text ++ rest) (.num v) rest
  | str {n : Nat} {s out rest : List Char} (chars : Chars m s out rest) :
      Value m n ('"' :: s) (.str (String.ofList out)) rest
  | emptyArray {n : Nat} {s rest : List Char} (space : Ws s (']' :: rest)) :
      Value m (n + 1) ('[' :: s) (.array []) rest
  | array {n : Nat} {s rest : List Char} {vs : List Json} (items : Items m n s vs rest) :
      Value m (n + 1) ('[' :: s) (.array vs) rest
  | emptyObject {n : Nat} {s rest : List Char} (space : Ws s ('}' :: rest)) :
      Value m (n + 1) ('{' :: s) (.object []) rest
  | object {n : Nat} {s rest : List Char} {vs : List (String × Json)}
      (members : Members m n s vs rest) : Value m (n + 1) ('{' :: s) (.object vs) rest

inductive Items (m : Meanings) : Nat → List Char → List Json → List Char → Prop
  | last {n : Nat} {s s₁ s₂ rest : List Char} {v : Json} (before : Ws s s₁)
      (isValue : Value m n s₁ v s₂) (after : Ws s₂ (']' :: rest)) : Items m n s [v] rest
  | cons {n : Nat} {s s₁ s₂ s₃ rest : List Char} {v : Json} {vs : List Json} (before : Ws s s₁)
      (isValue : Value m n s₁ v s₂) (after : Ws s₂ (',' :: s₃)) (later : Items m n s₃ vs rest) :
      Items m n s (v :: vs) rest

inductive Members (m : Meanings) : Nat → List Char → List (String × Json) → List Char → Prop
  | last {n : Nat} {s s₁ s₂ s₃ s₄ s₅ rest key : List Char} {v : Json} (before : Ws s ('"' :: s₁))
      (isKey : Chars m s₁ key s₂) (colon : Ws s₂ (':' :: s₃)) (between : Ws s₃ s₄)
      (isValue : Value m n s₄ v s₅) (after : Ws s₅ ('}' :: rest)) :
      Members m n s [(String.ofList key, v)] rest
  | cons {n : Nat} {s s₁ s₂ s₃ s₄ s₅ s₆ rest key : List Char} {v : Json}
      {vs : List (String × Json)} (before : Ws s ('"' :: s₁)) (isKey : Chars m s₁ key s₂)
      (colon : Ws s₂ (':' :: s₃)) (between : Ws s₃ s₄) (isValue : Value m n s₄ v s₅)
      (after : Ws s₅ (',' :: s₆)) (later : Members m n s₆ vs rest) :
      Members m n s ((String.ofList key, v) :: vs) rest

end

def Text (m : Meanings) (s : String) (j : Json) : Prop :=
  ∃ s₁ s₂, Ws s.toList s₁ ∧ Value m maxDepth s₁ j s₂ ∧ Ws s₂ []

end NoidaDb.Sql.JsonGrammar
