/-
RESP: reading client commands and encoding replies.

A stream is the list of the bytes that arrive until the connection is closed.
-/

import NoidaDb.Lib.Framings
import NoidaDb.Redis.Numbers
import NoidaDb.Redis.Rdb

namespace NoidaDb.Redis

open Lib

namespace Resp

inductive ReadError where
  | io
  | protocol (message : String)

abbrev Reading (α : Type) := Framer UInt8 ReadError α

def protocol {α : Type} (message : String) : Reading α := fun _ => .error (.protocol message)

def unexpectedEof {α : Type} : Reading α := fun _ => .error .io

def line (head : UInt8) (body : Bytes) : Bytes := head :: (body ++ [13, 10])

def bulk (head : UInt8) (b : Bytes) : Bytes := line head (showNat b.length) ++ (b ++ [13, 10])

/-- A command as clients send it: `encode` of an array of bulk strings. -/
def encodeCommand (args : List Bytes) : Bytes :=
  line 42 (showNat args.length) ++ args.flatMap (bulk 36)

def maxMultibulk : Int := 1024 * 1024

def maxBulk : Int := 512 * 1024 * 1024

/-- One line without its end; nothing at the end of the stream. -/
def readLine : Reading (Option Bytes) := fun input =>
  if input.isEmpty then .ok (none, [])
  else
    match input.dropWhile (fun b => b != 10) with
    | [] => .error .io
    | _ :: rest =>
      let buf := input.takeWhile (fun b => b != 10)
      .ok (some (if buf.getLast? = some 13 then buf.dropLast else buf), rest)

def expectLine : Reading Bytes := do
  match ← readLine with
  | some line => pure line
  | none => unexpectedEof

/-- The two bytes after the string are not looked at. -/
def readExactBulk (len : Nat) : Reading Bytes := fun input =>
  if len + 2 ≤ input.length then .ok (input.take len, input.drop (len + 2)) else .error .io

def readArgument : Reading Bytes := do
  let line ← expectLine
  match line with
  | [] => protocol "expected '$', got ' '"
  | c :: digits =>
    if c ≠ 36 then protocol ("expected '$', got '" ++ String.ofList [Char.ofNat c.toNat] ++ "'")
    else
      match (parseI64 digits).filter (fun n => 0 ≤ n && n ≤ maxBulk) with
      | some n => readExactBulk n.toNat
      | none => protocol "invalid bulk length"

def isAsciiWhitespace (b : UInt8) : Bool := [9, 10, 12, 13, 32].contains b

def hexValue (b : UInt8) : Option Nat :=
  if 48 ≤ b.toNat ∧ b.toNat ≤ 57 then some (b.toNat - 48)
  else if 65 ≤ b.toNat ∧ b.toNat ≤ 70 then some (b.toNat - 55)
  else if 97 ≤ b.toNat ∧ b.toNat ≤ 102 then some (b.toNat - 87)
  else none

def hexByte (high low : UInt8) : Option UInt8 :=
  (hexValue high).bind (fun h => (hexValue low).map (fun l => (16 * h + l).toUInt8))

def escaped (c : UInt8) : UInt8 :=
  if c = 110 then 10 else if c = 114 then 13 else if c = 116 then 9
  else if c = 98 then 8 else if c = 97 then 7 else c

inductive Quoting where
  | plain
  | double
  | single

def unbalanced {α : Type} : Except ReadError α :=
  .error (.protocol "unbalanced quotes in request")

def closes (rest : Bytes) : Bool := !rest.head?.any (fun c => !isAsciiWhitespace c)

def prepend (b : UInt8) (word : Except ReadError (Bytes × Bytes)) : Except ReadError (Bytes × Bytes) :=
  word.map (fun w => (b :: w.1, w.2))

/-- What a backslash and the bytes after it stand for, and what follows them. -/
def unescape : Bytes → UInt8 × Bytes
  | [] => (92, [])
  | c :: more =>
    match if c = 120 then more.head?.bind (fun h => more.tail.head?.bind (hexByte h)) else none with
    | some b => (b, more.drop 2)
    | none => (escaped c, more)

theorem unescape_length (input : Bytes) : (unescape input).2.length ≤ input.length := by
  unfold unescape
  split
  · rfl
  · split
    · simp
      omega
    · simp

/-- The rest of an argument, and what follows it. -/
def readWord : Quoting → Bytes → Except ReadError (Bytes × Bytes)
  | .plain, [] => .ok ([], [])
  | .plain, c :: rest =>
    if isAsciiWhitespace c then .ok ([], c :: rest)
    else if c = 34 then readWord .double rest
    else if c = 39 then readWord .single rest
    else prepend c (readWord .plain rest)
  | _, [] => unbalanced
  | .single, c :: rest =>
    if c = 39 then if closes rest then readWord .plain rest else unbalanced
    else if c = 92 ∧ rest.head? = some 39 then prepend 39 (readWord .single rest.tail)
    else prepend c (readWord .single rest)
  | .double, c :: rest =>
    if c = 34 then if closes rest then readWord .plain rest else unbalanced
    else if c = 92 then prepend (unescape rest).1 (readWord .double (unescape rest).2)
    else prepend c (readWord .double rest)
termination_by _ input => input.length
decreasing_by
  all_goals simp only [List.length_cons, List.length_tail]
  all_goals have := unescape_length rest
  all_goals omega

/-- Each argument takes a byte at least. -/
def splitWords : Nat → Bytes → Except ReadError (List Bytes)
  | 0, _ => .ok []
  | fuel + 1, input =>
    match input.dropWhile isAsciiWhitespace with
    | [] => .ok []
    | c :: rest => do
      let (arg, later) ← readWord .plain (c :: rest)
      let args ← splitWords fuel later
      pure (arg :: args)

def splitInline (line : Bytes) : Except ReadError (List Bytes) :=
  splitWords (line.length + 1) line

def afterHeader (header : Bytes) : Reading (List Bytes) :=
  if header.head? ≠ some 42 then StateT.lift (splitInline header)
  else
    match (parseI64 header.tail).filter (fun n => n ≤ maxMultibulk) with
    | some n => readTimes readArgument n.toNat
    | none => protocol "invalid multibulk length"

def readCommand : Reading (Option (List Bytes)) := do
  match ← readLine with
  | none => pure none
  | some header => some <$> afterHeader header

section Serving

/-- What executing a command leaves behind, and whether the connection is closed after it: by QUIT,
by a CLIENT KILL of its own or of another client, or because the peer is gone while it blocks. -/
abbrev Executes (S : Type) := S → List Bytes → S × Bool

variable {S : Type} (execute : Executes S)

def serveFor : Nat → S → Bytes → List (List Bytes) × Option ReadError
  | 0, _, _ => ([], none)
  | fuel + 1, s, input =>
    match readCommand input with
    | .ok (none, _) => ([], none)
    | .ok (some args, rest) =>
      if args.isEmpty then serveFor fuel s rest
      else if (execute s args).2 then ([args], none)
      else
        let (later, failure) := serveFor fuel (execute s args).1 rest
        (args :: later, failure)
    | .error failure => ([], some failure)

/-- The commands of a connection that are executed, and why it was closed if not by the client or
by a command.  Each command takes a byte at least. -/
def serve (s : S) (input : Bytes) : List (List Bytes) × Option ReadError :=
  serveFor execute (input.length + 1) s input

/-- The commands up to the first that closes the connection, and what the others leave behind if
none does. -/
def untilClosed : S → List (List Bytes) → List (List Bytes) × Option S
  | s, [] => ([], some s)
  | s, args :: commands =>
    if (execute s args).2 then ([args], none)
    else
      let (later, last) := untilClosed (execute s args).1 commands
      (args :: later, last)

/-- Commands are served, and then the rest of the input unless they close the connection. -/
def servedBefore (s : S) (commands : List (List Bytes)) (rest : Bytes) :
    List (List Bytes) × Option ReadError :=
  match untilClosed execute s commands with
  | (ran, none) => (ran, none)
  | (ran, some s') => (ran ++ (serve execute s' rest).1, (serve execute s' rest).2)

end Serving

theorem frames_line {body : Bytes} (oneLine : ∀ b ∈ body, b ≠ 10) :
    Frames readLine (body ++ [13, 10]) (some body) := by
  intro rest
  have isLine : ∀ b ∈ body ++ [13], (b != 10) = true := by
    intro b member
    rcases List.mem_append.mp member with inBody | isCr
    · exact bne_iff_ne.mpr (oneLine b inBody)
    · rw [List.mem_singleton.mp isCr]
      rfl
  have whole : body ++ [13, 10] ++ rest = (body ++ [13]) ++ 10 :: rest := by simp
  unfold readLine
  rw [whole, List.takeWhile_append_of_pos isLine, List.dropWhile_append_of_pos isLine]
  simp

theorem showNat_oneLine (n : Nat) : ∀ b ∈ showNat n, b ≠ 10 := by
  intro b member same
  have isDigit := showNat_digits n b member
  rw [same] at isDigit
  revert isDigit
  decide

theorem parseI64_showNat {n : Nat} (fits : (n : Int) ≤ i64Max) :
    parseI64 (showNat n) = some (n : Int) := by
  have noSign (b : UInt8) (isSign : isAsciiDigit b = false) : (showNat n).head? ≠ some b := by
    intro isHead
    rw [showNat_digits n b (List.mem_of_head? isHead)] at isSign
    cases isSign
  unfold parseI64
  simp only [beq_eq_false_iff_ne.mpr (noSign 45 rfl), beq_eq_false_iff_ne.mpr (noSign 43 rfl),
    Bool.or_self, Bool.false_eq_true, if_false, valueOf_showNat]
  rw [if_pos ⟨showNat_ne_nil n, List.all_eq_true.mpr (showNat_digits n)⟩,
    if_pos ⟨by unfold i64Min; omega, fits⟩]

theorem frames_header (head : UInt8) (isHead : head ≠ 10) (n : Nat) :
    Frames readLine (line head (showNat n)) (some (head :: showNat n)) := by
  have body : ∀ b ∈ head :: showNat n, b ≠ 10 := by
    intro b member
    rcases List.mem_cons.mp member with isFirst | later
    · rw [isFirst]
      exact isHead
    · exact showNat_oneLine n b later
  exact frames_line body

theorem frames_exact (b : Bytes) : Frames (readExactBulk b.length) (b ++ [13, 10]) b := by
  intro rest
  unfold readExactBulk
  rw [if_pos (by simp), List.append_assoc, List.take_left, List.drop_append]
  simp

theorem frames_argument {b : Bytes} (small : (b.length : Int) ≤ maxBulk) :
    Frames readArgument (bulk 36 b) b := by
  have isHeader : Frames expectLine (line 36 (showNat b.length)) (36 :: showNat b.length) :=
    (frames_header 36 (by decide) b.length).bind_last (Frames.pure _)
  apply isHeader.bind
  have isLength : (parseI64 (showNat b.length)).filter (fun n => 0 ≤ n && n ≤ maxBulk) =
      some (b.length : Int) := by
    rw [parseI64_showNat (by unfold i64Max; unfold maxBulk at small; omega)]
    simp [small]
  simp only [ne_eq, not_true_eq_false, if_false, isLength, Int.toNat_natCast]
  exact frames_exact b

structure WithinLimits (args : List Bytes) : Prop where
  count : (args.length : Int) ≤ maxMultibulk
  sizes : ∀ a ∈ args, (a.length : Int) ≤ maxBulk

theorem frames_command {args : List Bytes} (within : WithinLimits args) :
    Frames readCommand (encodeCommand args) (some args) := by
  apply (frames_header 42 (by decide) args.length).bind
  apply Frames.map
  unfold afterHeader
  have isCount : (parseI64 (showNat args.length)).filter (fun n => n ≤ maxMultibulk) =
      some (args.length : Int) := by
    have small := within.count
    rw [parseI64_showNat (by unfold i64Max; unfold maxMultibulk at small; omega)]
    simp [small]
  simp only [List.head?_cons, ne_eq, not_true_eq_false, if_false, List.tail_cons, isCount,
    Int.toNat_natCast]
  exact Frames.times args (fun a member => frames_argument (within.sizes a member))

theorem readLine_some {input l rest : Bytes} (isLine : readLine input = .ok (some l, rest)) :
    ∃ used, used ≠ [] ∧ input = used ++ rest ∧ Frames readLine used (some l) := by
  unfold readLine at isLine
  split at isLine
  next empty => cases isLine
  next notEmpty =>
  have split := List.takeWhile_append_dropWhile (p := fun b : UInt8 => b != 10) (l := input)
  split at isLine
  next noEnd => cases isLine
  next b after isEnd =>
    cases isLine
    have isLf : b = 10 := by
      have stops := List.head?_dropWhile_not (fun b : UInt8 => b != 10) input
      rw [isEnd] at stops
      simpa using stops
    rw [isLf] at isEnd
    have inLine := List.all_eq_true.mp (List.all_takeWhile (p := fun b : UInt8 => b != 10)
      (l := input))
    refine ⟨input.takeWhile (fun b => b != 10) ++ [10], by simp, ?_, ?_⟩
    · rw [List.append_assoc, List.singleton_append, ← isEnd, split]
    · intro later
      unfold readLine
      rw [List.append_assoc, List.takeWhile_append_of_pos inLine,
        List.dropWhile_append_of_pos inLine]
      simp

theorem expectLine_steady : Steady expectLine := by
  intro input l rest isOk
  obtain ⟨found, middle, isLine, isSome⟩ := bind_ok isOk
  cases found with
  | none => cases isSome
  | some l' =>
    cases isSome
    obtain ⟨used, _, isInput, frames⟩ := readLine_some isLine
    exact ⟨used, isInput, frames.bind_last (Frames.pure l)⟩

theorem readExactBulk_steady (len : Nat) : Steady (readExactBulk len) := by
  intro input b rest isOk
  unfold readExactBulk at isOk
  split at isOk
  next enough =>
    cases isOk
    refine ⟨input.take (len + 2), (List.take_append_drop _ _).symm, fun later => ?_⟩
    unfold readExactBulk
    have isLength : (input.take (len + 2)).length = len + 2 := List.length_take_of_le enough
    rw [if_pos (by rw [List.length_append]; omega), List.take_append_of_le_length (by omega),
      List.take_take, List.drop_left' isLength, Nat.min_eq_left (by omega)]
  next tooFew => cases isOk

theorem readArgument_steady : Steady readArgument := by
  apply expectLine_steady.bind
  intro l
  cases l with
  | nil => exact Steady.refuse _
  | cons c digits =>
    simp only []
    split
    · exact Steady.refuse _
    · split
      next n isLength => exact readExactBulk_steady n.toNat
      next noLength => exact Steady.refuse _

theorem afterHeader_steady (header : Bytes) : Steady (afterHeader header) := by
  unfold afterHeader
  split
  next isInline =>
    cases splitInline header with
    | ok args => exact Steady.pure args
    | error failure => exact Steady.refuse failure
  next isMultibulk =>
    split
    next n isCount => exact readArgument_steady.times n.toNat
    next noCount => exact Steady.refuse _

theorem readCommand_frame (input rest : Bytes) (args : List Bytes)
    (isCommand : readCommand input = .ok (some args, rest)) :
    ∃ used, used ≠ [] ∧ input = used ++ rest ∧ Frames readCommand used (some args) := by
  obtain ⟨found, middle, isLine, isArgs⟩ := bind_ok isCommand
  cases found with
  | none => cases isArgs
  | some header =>
    obtain ⟨used, notNil, isInput, frames⟩ := readLine_some isLine
    obtain ⟨used', isMiddle, frames'⟩ :=
      (afterHeader_steady header).map some middle (some args) rest isArgs
    exact ⟨used ++ used', by simp [notNil], by rw [isInput, isMiddle, List.append_assoc],
      frames.bind frames'⟩

theorem readArgument_small {input rest b : Bytes} (isArgument : readArgument input = .ok (b, rest)) :
    (b.length : Int) ≤ maxBulk := by
  obtain ⟨header, middle, _, isRead⟩ := bind_ok isArgument
  cases header with
  | nil => cases isRead
  | cons c digits =>
    simp only [] at isRead
    split at isRead
    next other => cases isRead
    next isBulk =>
    cases isLength : (parseI64 digits).filter (fun n => 0 ≤ n && n ≤ maxBulk) with
    | none =>
      rw [isLength] at isRead
      cases isRead
    | some n =>
      rw [isLength] at isRead
      have fits := (Option.filter_eq_some_iff.mp isLength).2
      simp only [Bool.and_eq_true, decide_eq_true_eq] at fits
      simp only [readExactBulk] at isRead
      split at isRead
      · cases isRead
        rw [List.length_take]
        omega
      · cases isRead

theorem afterHeader_within {header input rest : Bytes} {args : List Bytes}
    (isArray : header.head? = some 42) (isArgs : afterHeader header input = .ok (args, rest)) :
    WithinLimits args := by
  unfold afterHeader at isArgs
  rw [if_neg (not_not_intro isArray)] at isArgs
  cases isCount : (parseI64 header.tail).filter (fun n => n ≤ maxMultibulk) with
  | none =>
    rw [isCount] at isArgs
    cases isArgs
  | some n =>
    rw [isCount] at isArgs
    have fits := of_decide_eq_true (Option.filter_eq_some_iff.mp isCount).2
    obtain ⟨isLength, each⟩ := readTimes_ok isArgs
    refine ⟨?_, fun a member => ?_⟩
    · unfold maxMultibulk at fits ⊢
      omega
    · obtain ⟨before, after, isRead⟩ := each a member
      exact readArgument_small isRead

theorem readLine_head {input header rest : Bytes} (isLine : readLine input = .ok (some header, rest))
    (isArray : input.head? = some 42) : header.head? = some 42 := by
  obtain ⟨tail, rfl⟩ := List.head?_eq_some_iff.mp isArray
  unfold readLine at isLine
  rw [if_neg (by simp), List.takeWhile_cons_of_pos (by decide)] at isLine
  split at isLine
  next noEnd => cases isLine
  next b after isEnd =>
    cases isLine
    split
    next isCr =>
      cases inLine : tail.takeWhile (fun b => b != 10) with
      | nil =>
        rw [inLine] at isCr
        exact absurd isCr (by decide)
      | cons c cs => rfl
    next noCr => rfl

/-- A command that has arrived is the same, and ends at the same byte, whatever arrives later;
and one that is sent as an array keeps to the limits. -/
theorem readCommand_whole (input rest : Bytes) (args : List Bytes)
    (isCommand : readCommand input = .ok (some args, rest)) :
    (∃ used, used ≠ [] ∧ input = used ++ rest ∧
      ∀ later, readCommand (used ++ later) = .ok (some args, later)) ∧
    (input.head? = some 42 → WithinLimits args) := by
  refine ⟨readCommand_frame input rest args isCommand, fun isArray => ?_⟩
  obtain ⟨found, middle, isLine, isArgs⟩ := bind_ok isCommand
  cases found with
  | none => cases isArgs
  | some header =>
    obtain ⟨args', isRead, isSome⟩ := map_ok isArgs
    cases isSome
    exact afterHeader_within (readLine_head isLine isArray) isRead

theorem readCommand_whole_ping :
    (∃ used, used ≠ [] ∧ encodeCommand [ascii "ping"] ++ [] = used ++ [] ∧
      ∀ later, readCommand (used ++ later) = .ok (some [ascii "ping"], later)) ∧
    ((encodeCommand [ascii "ping"] ++ []).head? = some 42 → WithinLimits [ascii "ping"]) :=
  readCommand_whole _ [] [ascii "ping"] (frames_command ⟨by decide, by decide⟩ [])

section Serving

variable {S : Type} (execute : Executes S)

theorem serveFor_eq {fuel : Nat} {input : Bytes} (s : S) (enough : input.length < fuel) :
    serveFor execute fuel s input = serve execute s input := by
  have general : ∀ (n : Nat) (input : Bytes), input.length ≤ n → ∀ fuel s, input.length < fuel →
      serveFor execute fuel s input = serveFor execute (input.length + 1) s input := by
    intro n
    induction n with
    | zero =>
      intro input small fuel s enough
      rw [List.length_eq_zero_iff.mp (Nat.le_zero.mp small)] at enough ⊢
      cases fuel with
      | zero => cases enough
      | succ fuel => rfl
    | succ n ih =>
      intro input small fuel s enough
      cases fuel with
      | zero => cases enough
      | succ fuel =>
        unfold serveFor
        split
        · rfl
        next args rest isCommand =>
          obtain ⟨used, notNil, isInput, _⟩ := readCommand_frame input rest args isCommand
          have shorter : rest.length < input.length := by
            have positive := List.length_pos_iff.mpr notNil
            rw [isInput, List.length_append]
            omega
          have same : ∀ s, serveFor execute fuel s rest = serveFor execute input.length s rest := by
            intro s
            rw [ih rest (by omega) fuel s (by omega), ih rest (by omega) input.length s shorter]
          rw [same, same]
        · rfl
  exact general input.length input (Nat.le_refl _) fuel s enough

theorem serve_command {used rest : Bytes} {args : List Bytes} (s : S) (notNil : used ≠ [])
    (isCommand : args ≠ []) (frames : Frames readCommand used (some args)) :
    serve execute s (used ++ rest) =
      if (execute s args).2 then ([args], none)
      else (args :: (serve execute (execute s args).1 rest).1,
        (serve execute (execute s args).1 rest).2) := by
  have shorter : rest.length < (used ++ rest).length := by
    have positive := List.length_pos_iff.mpr notNil
    rw [List.length_append]
    omega
  have hasWord : args.isEmpty = false := by simpa using isCommand
  unfold serve
  rw [serveFor, frames rest]
  simp only [hasWord, Bool.false_eq_true, if_false, serveFor_eq execute _ shorter]
  rfl

theorem serve_frames {write : List Bytes → Bytes} (s : S) (commands : List (List Bytes)) (rest : Bytes)
    (frames : ∀ args ∈ commands, args ≠ [] ∧ write args ≠ [] ∧
      Frames readCommand (write args) (some args)) :
    serve execute s (commands.flatMap write ++ rest) = servedBefore execute s commands rest := by
  induction commands generalizing s with
  | nil => rfl
  | cons args commands ih =>
    obtain ⟨⟨isCommand, notNil, first⟩, later⟩ := List.forall_mem_cons.mp frames
    rw [List.flatMap_cons, List.append_assoc, serve_command execute s notNil isCommand first,
      ih _ later]
    unfold servedBefore
    rw [untilClosed]
    cases (execute s args).2 with
    | true => rfl
    | false =>
      obtain ⟨ran, last⟩ := untilClosed execute (execute s args).1 commands
      cases last with
      | none => rfl
      | some s' => rfl

/-- Commands sent one after the other are served as they were sent until one closes the connection;
if none does, what follows them is served as if they had not been there. -/
theorem serve_commands (s : S) (commands : List (List Bytes)) (rest : Bytes)
    (within : ∀ args ∈ commands, args ≠ [] ∧ WithinLimits args) :
    serve execute s (commands.flatMap encodeCommand ++ rest) =
      servedBefore execute s commands rest := by
  apply serve_frames
  intro args member
  obtain ⟨isCommand, small⟩ := within args member
  exact ⟨isCommand, by simp [encodeCommand, line], frames_command small⟩

end Serving

/-- Only QUIT closes the connection. -/
def quits : Executes Unit := fun _ args => ((), args == [ascii "quit"])

theorem serve_commands_quit :
    serve quits () ([[ascii "ping"], [ascii "quit"], [ascii "ping"]].flatMap encodeCommand ++ []) =
      ([[ascii "ping"], [ascii "quit"]], none) := by
  rw [serve_commands quits () [[ascii "ping"], [ascii "quit"], [ascii "ping"]] []]
  · rfl
  · intro args member
    have both : args = [ascii "ping"] ∨ args = [ascii "quit"] := by
      simp only [List.mem_cons, List.not_mem_nil, or_false] at member
      rcases member with isPing | isQuit | isPing
      · exact Or.inl isPing
      · exact Or.inr isQuit
      · exact Or.inl isPing
    rcases both with rfl | rfl
    · exact ⟨by decide, by decide, by decide⟩
    · exact ⟨by decide, by decide, by decide⟩

def hexDigit (n : Nat) : UInt8 := if n < 10 then (48 + n).toUInt8 else (87 + n).toUInt8

def reprByte (b : UInt8) : Bytes :=
  if b = 92 ∨ b = 34 then [92, b]
  else if b = 10 then [92, 110]
  else if b = 13 then [92, 114]
  else if b = 9 then [92, 116]
  else if b = 7 then [92, 97]
  else if b = 8 then [92, 98]
  else if 32 ≤ b.toNat ∧ b.toNat ≤ 126 then [b]
  else [92, 120, hexDigit (b.toNat / 16), hexDigit (b.toNat % 16)]

def repr (bytes : Bytes) : Bytes := 34 :: (bytes.flatMap reprByte ++ [34])

/-- The end of `feed_monitors`'s line: the arguments. -/
def shown (args : List Bytes) : Bytes := args.flatMap (fun a => 32 :: repr a)

theorem hexByte_hexDigit (b : UInt8) :
    hexByte (hexDigit (b.toNat / 16)) (hexDigit (b.toNat % 16)) = some b := by
  have all : ∀ n < 256, hexByte (hexDigit (n / 16)) (hexDigit (n % 16)) = some n.toUInt8 := by
    decide +kernel
  have isByte := all b.toNat b.toNat_lt
  simpa using isByte

theorem readWord_plainByte {b : UInt8} (rest : Bytes) (noQuote : b ≠ 34) (noSlash : b ≠ 92) :
    readWord .double (b :: rest) = prepend b (readWord .double rest) := by
  rw [readWord, if_neg noQuote, if_neg noSlash]

theorem readWord_escape {c : UInt8} (rest : Bytes) (notHex : c ≠ 120) :
    readWord .double (92 :: c :: rest) = prepend (escaped c) (readWord .double rest) := by
  rw [readWord, if_neg (by decide), if_pos rfl]
  unfold unescape
  simp [notHex]

theorem readWord_hex (b : UInt8) (rest : Bytes) :
    readWord .double (92 :: 120 :: hexDigit (b.toNat / 16) :: hexDigit (b.toNat % 16) :: rest) =
      prepend b (readWord .double rest) := by
  rw [readWord, if_neg (by decide), if_pos rfl]
  unfold unescape
  simp [hexByte_hexDigit]

theorem readWord_reprByte (b : UInt8) (rest : Bytes) :
    readWord .double (reprByte b ++ rest) = prepend b (readWord .double rest) := by
  unfold reprByte
  split
  next isQuoted =>
    rcases isQuoted with isSlash | isQuote
    · rw [isSlash]
      exact readWord_escape rest (by decide)
    · rw [isQuote]
      exact readWord_escape rest (by decide)
  next notQuoted =>
  obtain ⟨noSlash, noQuote⟩ := not_or.mp notQuoted
  split
  next isLetter => rw [isLetter]; exact readWord_escape rest (by decide)
  split
  next isLetter => rw [isLetter]; exact readWord_escape rest (by decide)
  split
  next isLetter => rw [isLetter]; exact readWord_escape rest (by decide)
  split
  next isLetter => rw [isLetter]; exact readWord_escape rest (by decide)
  split
  next isLetter => rw [isLetter]; exact readWord_escape rest (by decide)
  split
  next printable => exact readWord_plainByte rest noQuote noSlash
  next other => exact readWord_hex b rest

theorem readWord_repr (bytes : Bytes) {rest : Bytes} (ends : closes rest = true) :
    readWord .plain (repr bytes ++ rest) = .ok (bytes, rest) := by
  have isPlain : readWord .plain rest = .ok ([], rest) := by
    cases rest with
    | nil => rw [readWord]
    | cons c rest =>
      have isSpace : isAsciiWhitespace c = true := by simpa [closes] using ends
      rw [readWord, if_pos isSpace]
  have quoted : readWord .double (bytes.flatMap reprByte ++ 34 :: rest) = .ok (bytes, rest) := by
    induction bytes with
    | nil =>
      rw [List.flatMap_nil, List.nil_append, readWord, if_pos rfl, if_pos ends, isPlain]
    | cons b bytes ih =>
      rw [List.flatMap_cons, List.append_assoc, readWord_reprByte, ih]
      rfl
  unfold repr
  rw [List.cons_append, readWord, if_neg (by decide), if_pos rfl, List.append_assoc]
  exact quoted

theorem closes_shown (args : List Bytes) : closes (shown args) = true := by
  cases args with
  | nil => rfl
  | cons a args => rfl

theorem splitWords_shown (args : List Bytes) {fuel : Nat} (enough : args.length < fuel) :
    splitWords fuel (shown args) = .ok args := by
  induction args generalizing fuel with
  | nil =>
    cases fuel with
    | zero => cases enough
    | succ fuel => rfl
  | cons a args ih =>
    cases fuel with
    | zero => cases enough
    | succ fuel =>
      have isWord := readWord_repr a (closes_shown args)
      have starts : (shown (a :: args)).dropWhile isAsciiWhitespace = repr a ++ shown args := rfl
      unfold splitWords
      rw [starts]
      show (readWord .plain (repr a ++ shown args) >>= fun w => splitWords fuel w.2 >>= fun args =>
        pure (w.1 :: args)) = _
      rw [isWord]
      show (splitWords fuel (shown args) >>= fun args => pure (a :: args)) = _
      rw [ih (Nat.lt_of_succ_lt_succ enough)]
      rfl

theorem frames_shown (args : List Bytes) :
    Frames readCommand (shown args ++ [13, 10]) (some args) := by
  have oneLine : ∀ b ∈ shown args, b ≠ 10 := by
    have bytes : ∀ n < 256, (10 : UInt8) ∉ reprByte n.toUInt8 := by decide +kernel
    intro b member same
    obtain ⟨a, _, inArg⟩ := List.mem_flatMap.mp member
    unfold repr at inArg
    simp only [List.mem_cons, List.mem_append, List.mem_flatMap, List.not_mem_nil, or_false] at inArg
    rw [same] at inArg
    rcases inArg with isSpace | isQuote | ⟨c, _, inByte⟩ | isQuote
    · exact absurd isSpace (by decide)
    · exact absurd isQuote (by decide)
    · have free := bytes c.toNat c.toNat_lt
      simp only [Nat.toUInt8_eq, UInt8.ofNat_toNat] at free
      exact free inByte
    · exact absurd isQuote (by decide)
  have long : args.length ≤ (shown args).length := by
    clear oneLine
    unfold shown
    induction args with
    | nil => exact Nat.le_refl 0
    | cons a args ih =>
      rw [List.flatMap_cons, List.length_append, List.length_cons, List.length_cons]
      omega
  apply (frames_line oneLine).bind_last
  apply Frames.map
  intro rest
  unfold afterHeader
  have isInline : (shown args).head? ≠ some 42 := by
    cases args with
    | nil => decide
    | cons a args => exact fun same => absurd (Option.some.inj same) (by decide)
  rw [if_pos isInline]
  unfold splitInline
  rw [splitWords_shown args (by omega)]
  rfl

/-- The arguments that MONITOR shows are, line by line, the inline commands that were run. -/
theorem serve_shown {S : Type} (execute : Executes S) (s : S) (commands : List (List Bytes))
    (rest : Bytes) (some' : ∀ args ∈ commands, args ≠ []) :
    serve execute s (commands.flatMap (fun args => shown args ++ [13, 10]) ++ rest) =
      servedBefore execute s commands rest :=
  serve_frames execute s commands rest
    (fun args member => ⟨some' args member, by simp, frames_shown args⟩)

theorem serve_shown_quit :
    serve quits () ([[ascii "ping", ascii "a b"], [ascii "quit"]].flatMap
        (fun args => shown args ++ [13, 10]) ++ ascii "ping") =
      ([[ascii "ping", ascii "a b"], [ascii "quit"]], none) := by
  rw [serve_shown quits () [[ascii "ping", ascii "a b"], [ascii "quit"]] (ascii "ping") (by decide)]
  rfl

end Resp

end NoidaDb.Redis
