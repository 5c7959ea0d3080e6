/-
Write detection: which statements the engine takes to write, before it runs them.

The engine goes by a query's printed text and the names of the user functions.  A transaction
with no statement taken to write is not published, whatever its statements did.
-/

import Mathlib.Data.List.Infix
import NoidaDb.Postgres.Blocks

namespace NoidaDb.Postgres

open Database

/-- Unicode lower case, letter by letter; a capital sigma depends on the text before
it (last character first) and after it. -/
structure Lowercase where
  char : Char → List Char
  sigma : List Char → List Char → Char
  ascii : ∀ c, c.toNat < 128 → char c = [c.toLower]

def Lowercase.go (lower : Lowercase) (before : List Char) : List Char → List Char
  | [] => []
  | c :: rest =>
    (if c = 'Σ' then [lower.sigma before rest] else lower.char c) ++ lower.go (c :: before) rest

/-- `str::to_lowercase`. -/
def Lowercase.text (lower : Lowercase) (s : List Char) : List Char := lower.go [] s

def contains (text pattern : List Char) : Bool := decide (pattern <:+: text)

section Text

variable (lower : Lowercase)

theorem Lowercase.go_append (first later before : List Char) :
    ∃ front, lower.go before (first ++ later) = front ++ lower.go (first.reverse ++ before) later := by
  induction first generalizing before with
  | nil => exact ⟨[], rfl⟩
  | cons c rest ih =>
    obtain ⟨front, split⟩ := ih (c :: before)
    simp only [List.cons_append, Lowercase.go, split]
    refine ⟨(if c = 'Σ' then [lower.sigma before (rest ++ later)] else lower.char c) ++ front, ?_⟩
    simp

theorem Lowercase.go_word (word later before : List Char) (plain : 'Σ' ∉ word) :
    lower.go before (word ++ later) =
      word.flatMap lower.char ++ lower.go (word.reverse ++ before) later := by
  induction word generalizing before with
  | nil => rfl
  | cons c rest ih =>
    have other : c ≠ 'Σ' := fun same => plain (by simp [same])
    have plainRest : 'Σ' ∉ rest := fun member => plain (List.mem_cons_of_mem c member)
    simp only [List.cons_append, Lowercase.go, if_neg other, ih (c :: before) plainRest]
    simp

theorem Lowercase.text_word {word : List Char} (plain : 'Σ' ∉ word) :
    lower.text word = word.flatMap lower.char := by
  have whole := lower.go_word word [] [] plain
  simpa [Lowercase.text, Lowercase.go] using whole

theorem Lowercase.text_infix {word text : List Char} (plain : 'Σ' ∉ word)
    (inside : word <:+: text) : lower.text word <:+: lower.text text := by
  obtain ⟨first, last, rfl⟩ := inside
  obtain ⟨front, split⟩ := lower.go_append first (word ++ last) []
  rw [lower.text_word plain]
  simp only [Lowercase.text, List.append_assoc, split, lower.go_word word last _ plain]
  exact ⟨front, lower.go (word.reverse ++ (first.reverse ++ [])) last, by simp⟩

theorem Lowercase.text_ascii {word : List Char} (ascii : ∀ c, c ∈ word → c.toNat < 128) :
    lower.text word = word.map Char.toLower := by
  have plain : 'Σ' ∉ word := fun member => absurd (ascii _ member) (by decide)
  rw [lower.text_word plain]
  clear plain
  induction word with
  | nil => rfl
  | cons c rest ih =>
    rw [List.flatMap_cons, lower.ascii c (ascii c List.mem_cons_self),
      ih (fun d member => ascii d (List.mem_cons_of_mem c member))]
    rfl

end Text

structure Ident where
  value : String
  quoted : Bool := false

/-- `ident`: a name as the catalog has it. -/
def Ident.name (lower : Lowercase) (id : Ident) : String :=
  if id.quoted then id.value else String.ofList (lower.text id.value.toList)

def Ident.text (id : Ident) : List Char :=
  if id.quoted then
    ['"'] ++ id.value.toList.flatMap (fun c => if c = '"' then ['"', '"'] else [c]) ++ ['"']
  else id.value.toList

inductive Verb where
  | insert
  | update
  | delete

def Verb.text : Verb → List Char
  | .insert => "INSERT ".toList
  | .update => "UPDATE ".toList
  | .delete => "DELETE ".toList

inductive Token (D : Type) where
  | text (s : String)
  /-- A function's name and the bracket before its arguments. -/
  | call (qualifier : List Ident) (name : Ident)
  | relation (name : List Ident)
  /-- The start of a data-modifying CTE, and what the CTE may do. -/
  | modifying (verb : Verb) (does : D → D → Prop)

variable {D : Type}

def dotted (name : List Ident) : List Char := ['.'].intercalate (name.map Ident.text)

def Token.chars : Token D → List Char
  | .text s => s.toList
  | .call qualifier name => qualifier.flatMap (fun id => id.text ++ ['.']) ++ (name.text ++ ['('])
  | .relation name => dotted name
  | .modifying verb _ => verb.text

structure ParsedQuery (D : Type) where
  tokens : List (Token D)

/-- `to_string`. -/
def ParsedQuery.text (q : ParsedQuery D) : List Char := q.tokens.flatMap Token.chars

structure UserFunction (D : Type) where
  name : String
  /-- What a call may do to the database, with any arguments. -/
  calls : D → D → Prop

structure Routines (D : Type) where
  functions : D → List (UserFunction D)
  view : D → List String → Option (ParsedQuery D)

variable (lower : Lowercase) (routines : Routines D)

/-- What a query bound in `d` may do: its own calls and CTEs, and those of the views it
reads. -/
inductive Reaches (d : D) : ParsedQuery D → (D → D → Prop) → Prop where
  | call {q : ParsedQuery D} {qualifier : List Ident} {id : Ident} {f : UserFunction D}
      (called : .call qualifier id ∈ q.tokens) (member : f ∈ routines.functions d)
      (named : f.name = id.name lower) : Reaches d q f.calls
  | modifying {q : ParsedQuery D} {verb : Verb} {does : D → D → Prop}
      (present : .modifying verb does ∈ q.tokens) : Reaches d q does
  | view {q inner : ParsedQuery D} {name : List Ident} {effect : D → D → Prop}
      (reads : .relation name ∈ q.tokens)
      (found : routines.view d (name.map (Ident.name lower)) = some inner)
      (within : Reaches d inner effect) : Reaches d q effect

/-- A run of a query bound in `bound`: it does what it reaches, any number of times. -/
inductive Performs (bound : D) (q : ParsedQuery D) : D → D → Prop where
  | done (d : D) : Performs bound q d d
  | step {effect : D → D → Prop} {d d₁ d₂ : D} (reaches : Reaches lower routines bound q effect)
      (first : effect d d₁) (rest : Performs bound q d₁ d₂) : Performs bound q d d₂

structure QueryStmt where
  query : ParsedQuery D
  run : Modes → D → D × PgResult StmtResult
  performs : ∀ modes d, Performs lower routines d query d (run modes d).1

/-- A statement that touches the database: a query, or one of the others (INSERT,
UPDATE, DELETE, DDL). -/
inductive Sql where
  | query (stmt : QueryStmt lower routines)
  | other (run : Modes → D → D × PgResult StmtResult)

variable {lower routines}

def statementWrites : Sql lower routines → Bool
  | .query stmt =>
    -- Data-modifying CTEs write.
    let sql := lower.text stmt.query.text
    contains sql "insert ".toList || contains sql "update ".toList ||
      contains sql "delete ".toList || contains sql "nextval".toList
  | .other _ => true

/-- The write detection of `run_data_statement`: a query calling a user function may
write through it. -/
def Sql.writes (sql : Sql lower routines) (d : D) : Bool :=
  statementWrites sql ||
    match sql with
    | .query stmt =>
      (routines.functions d).any (fun f =>
        contains (lower.text stmt.query.text) (f.name.toList ++ ['(']))
    | .other _ => false

def Sql.run : Sql lower routines → Modes → D → D × PgResult StmtResult
  | .query stmt => stmt.run
  | .other run => run

def Sql.data (sql : Sql lower routines) : DataStmt D := { writes := sql.writes, run := sql.run }

variable (lower routines) in
/-- The query's own text has a data-modifying CTE, or calls a user function by an
unquoted name (without a sigma). -/
def Overt (d : D) (q : ParsedQuery D) : Prop :=
  (∃ verb does, .modifying verb does ∈ q.tokens) ∨
    ∃ qualifier id f, .call qualifier id ∈ q.tokens ∧ id.quoted = false ∧
      'Σ' ∉ id.value.toList ∧ f ∈ routines.functions d ∧ f.name = id.name lower

variable (lower routines) in
def Harmless (d : D) (q : ParsedQuery D) : Prop :=
  ∀ effect, Reaches lower routines d q effect → ∀ before after, effect before after → after = before

def Sql.Shown (d : D) : Sql lower routines → Prop
  | .query stmt => Harmless lower routines d stmt.query ∨ Overt lower routines d stmt.query
  | .other _ => True

theorem Token.infix_text {q : ParsedQuery D} {token : Token D} (member : token ∈ q.tokens) :
    token.chars <:+: q.text := by
  obtain ⟨first, last, split⟩ := List.append_of_mem member
  refine ⟨first.flatMap Token.chars, last.flatMap Token.chars, ?_⟩
  simp [ParsedQuery.text, split]

theorem contains_of_infix {text pattern : List Char} (inside : pattern <:+: text) :
    contains text pattern = true := by
  simpa [contains] using inside

theorem Verb.text_ascii (verb : Verb) : ∀ c, c ∈ verb.text → c.toNat < 128 := by
  cases verb <;> simp [Verb.text]

variable {stmt : QueryStmt lower routines} {d : D}

theorem Sql.modifying_writes {verb : Verb} {does : D → D → Prop}
    (present : .modifying verb does ∈ stmt.query.tokens) :
    statementWrites (.query stmt) = true := by
  have plain : 'Σ' ∉ verb.text := fun member => absurd (verb.text_ascii _ member) (by decide)
  have inside := contains_of_infix (lower.text_infix plain (Token.infix_text present))
  rw [lower.text_ascii verb.text_ascii] at inside
  have words : verb.text.map Char.toLower = "insert ".toList ∨
      verb.text.map Char.toLower = "update ".toList ∨
        verb.text.map Char.toLower = "delete ".toList := by
    cases verb <;> decide +kernel
  rcases words with word | word | word
  · simp [statementWrites, ← word, inside]
  · simp [statementWrites, ← word, inside]
  · simp [statementWrites, ← word, inside]

theorem Lowercase.text_bracket {word : List Char} (plain : 'Σ' ∉ word) :
    lower.text (word ++ ['(']) = lower.text word ++ ['('] := by
  have plainCall : 'Σ' ∉ word ++ ['('] := by
    simpa using plain
  have bracket : lower.char '(' = ['('] := lower.ascii '(' (by decide)
  rw [lower.text_word plainCall, lower.text_word plain, List.flatMap_append]
  simp [bracket]

theorem Sql.called_contains {qualifier : List Ident} {id : Ident}
    (called : .call qualifier id ∈ stmt.query.tokens) (unquoted : id.quoted = false)
    (plain : 'Σ' ∉ id.value.toList) :
    contains (lower.text stmt.query.text) ((id.name lower).toList ++ ['(']) = true := by
  have shown : id.value.toList ++ ['('] <:+: stmt.query.text := by
    refine List.IsInfix.trans ?_ (Token.infix_text called)
    exact ⟨qualifier.flatMap (fun id => id.text ++ ['.']), [], by
      simp [Token.chars, Ident.text, unquoted]⟩
  have plainCall : 'Σ' ∉ id.value.toList ++ ['('] := by
    simpa using plain
  have inside := lower.text_infix plainCall shown
  rw [Lowercase.text_bracket plain] at inside
  apply contains_of_infix
  simpa [Ident.name, unquoted] using inside

theorem Sql.overt_writes (overt : Overt lower routines d stmt.query) :
    (Sql.query stmt).writes d = true := by
  rcases overt with ⟨verb, does, present⟩ | ⟨qualifier, id, f, called, unquoted, plain, member, named⟩
  · simp [Sql.writes, Sql.modifying_writes present]
  · have found := Sql.called_contains called unquoted plain
    rw [← named] at found
    simp only [Sql.writes, Bool.or_eq_true, List.any_eq_true]
    exact Or.inr ⟨f, member, found⟩

theorem Performs.unchanged {bound d' : D} {q : ParsedQuery D}
    (performs : Performs lower routines bound q d d') (harmless : Harmless lower routines bound q) :
    d' = d := by
  induction performs with
  | done d => rfl
  | step reaches first rest ih =>
    rw [ih]
    exact harmless _ reaches _ _ first

theorem Sql.reads_unchanged {sql : Sql lower routines} (shown : sql.Shown d)
    (reads : sql.writes d = false) (modes : Modes) : sql.data.effect modes d = d := by
  cases sql with
  | query stmt =>
    rcases shown with harmless | overt
    · exact (stmt.performs modes d).unchanged harmless
    · rw [Sql.overt_writes overt] at reads
      cases reads
  | other run => cases reads

variable (lower routines) in
/-- What a session sends: a statement that touches the database, or any other request. -/
inductive Asked where
  | sql (stmt : Sql lower routines)
  | control (request : Request D) (plain : request.isData = false)

def Asked.request : Asked lower routines → Request D
  | .sql stmt => .statement (.data stmt.data)
  | .control request _ => request

def Conn.leaving (stmt : DataStmt D) (c : Conn D) : D :=
  stmt.effect c.session.rt.modes (c.entering stmt).visible

/-- `asked` was acknowledged, and changed the session's copy. -/
def Changes (c : Conn D) (request : Request D) (result : PgResult StmtResult) : Prop :=
  ∃ stmt r, request = .statement (.data stmt) ∧ result = .ok r ∧
    c.leaving stmt ≠ (c.entering stmt).visible

variable [Database D]

structure Chronicle (D : Type) where
  world : World D
  /-- The session's open transaction has a statement that changed its copy. -/
  changed : Nat → Prop := fun _ => False

def Chronicle.next (rules : SettingRules) (h : Chronicle D) (call : Nat × Asked lower routines) :
    Chronicle D :=
  let c := h.world.conn call.1
  let served := serve rules c call.2.request
  { world :=
      { global := served.1.global
        sessions := Function.update h.world.sessions call.1 served.1.session }
    changed := Function.update h.changed call.1
      (served.1.session.txn.isSome = true ∧
        (h.changed call.1 ∨ Changes c call.2.request served.2)) }

def Chronicle.run (rules : SettingRules) (h : Chronicle D)
    (calls : List (Nat × Asked lower routines)) : Chronicle D :=
  calls.foldl (Chronicle.next rules) h

def Commits (request : Request D) (r : StmtResult) : Prop :=
  (request = .statement .commit ∧ r.tag = "COMMIT") ∨ request = .commitImplicit

structure Publishes (changed : Prop) (c : Conn D) (request : Request D) (c' : Conn D)
    (result : PgResult StmtResult) : Prop where
  marked : ∀ stmt, request = .statement (.data stmt) → Changes c request result →
    (c.entering stmt).wrote = true
  alone : ∀ stmt, request = .statement (.data stmt) → Changes c request result →
    c.session.txn = none →
      c'.global.db = Database.onCommitActions c'.session.rt.settings.tempSchema (c.leaving stmt)
  builds : ∀ stmt, request = .statement (.data stmt) → changed →
    (c.entering stmt).visible = c.visible
  /-- Nothing else touches it, ROLLBACK TO apart. -/
  keeps : changed → request.isData = false → (∀ name, request ≠ .statement (.rollbackTo name)) →
    c'.session.txn.isSome = true → c'.visible = c.visible
  commits : ∀ r, changed → result = .ok r → Commits request r → c'.session.txn = none →
    c'.global.db = Database.onCommitActions c'.session.rt.settings.tempSchema c.visible

/-- What the engine does not guard against: a query that changes the copy in a way its text does not
show, and BEGIN in an implicit transaction. -/
def Asked.Meets (changed : Prop) (c : Conn D) : Asked lower routines → Prop
  | .sql stmt => stmt.Shown c.visible
  | .control (.statement .startTransaction) _ => c.session.status = .idle → ¬ changed
  | .control .commitImplicit _ => c.session.status ≠ .failed
  | .control _ _ => True

def AllMeet (rules : SettingRules) : Chronicle D → List (Nat × Asked lower routines) → Prop
  | _, [] => True
  | h, call :: rest =>
    call.2.Meets (h.changed call.1) (h.world.conn call.1) ∧ AllMeet rules (h.next rules call) rest

section Entering

variable {c c' : Conn D} {stmt : DataStmt D}

omit [Database D] in
theorem entering_reads (reads : stmt.writes c.visible = false) :
    (c.entering stmt).visible = c.visible := by
  unfold Conn.entering
  rw [reads]
  simp only [Bool.false_eq_true, if_false]
  cases found : c.session.txn with
  | none => simp [Conn.visible, begin, found]
  | some tx => simp

omit [Database D] in
theorem Conn.wrote_txn (wrote : c.wrote = true) :
    ∃ tx, c.session.txn = some tx ∧ tx.wrote = true := by
  cases found : c.session.txn with
  | none => simp [Conn.wrote, found] at wrote
  | some tx => exact ⟨tx, rfl, by simpa [Conn.wrote, found] using wrote⟩

omit [Database D] in
theorem entering_visible (wrote : c.wrote = true) : (c.entering stmt).visible = c.visible := by
  obtain ⟨tx, open', written⟩ := c.wrote_txn wrote
  unfold Conn.entering
  simp only [open', Option.isNone_some, Bool.false_eq_true, if_false]
  split
  · unfold acquireWriter
    split
    · simp [Conn.visible, open', Txn.startWriting, written]
    · rfl
  · rfl

theorem Effect.data_cases {rules : SettingRules} {r : StmtResult}
    (effect : Effect rules c (.data stmt) c' (.ok r)) :
    (∃ tx tx' g, c.session.txn = some tx ∧ (stmt.writes tx.state = true → c.MayWrite) ∧
        c.locked tx (stmt.writes tx.state) = (g, tx') ∧ c'.session.txn = some { tx' with
          state := stmt.effect c.session.rt.modes tx'.state }) ∨
      (c.session.txn = none ∧ (stmt.writes c.global.db = true → c.MayWrite) ∧
        c'.session.txn = none ∧ (stmt.writes c.global.db = true → c'.global.db =
          Database.onCommitActions c'.session.rt.settings.tempSchema
            (stmt.effect c.session.rt.modes c.global.db))) := by
  cases effect with
  | warned quiet => exact quiet.elim
  | abandoned open' ends => simp at ends
  | @ranInTxn _ tx tx' g d _ open' sound free locked ran =>
    have left : d = stmt.effect c.session.rt.modes tx'.state := by
      simp [DataStmt.effect, ran]
    exact Or.inl ⟨tx, tx', g, open', free, locked, by rw [left]⟩
  | @ranAlone _ _ d idle none' free ran passed =>
    have left : d = stmt.effect c.session.rt.modes c.global.db := by
      simp [DataStmt.effect, ran]
    refine Or.inr ⟨none', free, rfl, ?_⟩
    intro writes
    rw [← left]
    simp [Conn.published, writes, Session.ended]

omit [Database D] in
theorem afterError_open (open' : (afterError c).session.txn.isSome = true) :
    (afterError c).session.txn = c.session.txn := by
  unfold afterError at open' ⊢
  split
  · rfl
  · split
    · rename_i idle found
      simp [idle, found, rollback] at open'
    · rfl
  · rfl

structure Continues (c c' : Conn D) (request : Request D) : Prop where
  wrote : c'.wrote = true
  visible : request.isData = false → (∀ name, request ≠ .statement (.rollbackTo name)) →
    c'.visible = c.visible

omit [Database D] in
theorem Continues.of_txn {request : Request D} (wrote : c.wrote = true)
    (same : c'.session.txn = c.session.txn) : Continues c c' request := by
  obtain ⟨tx, open', written⟩ := c.wrote_txn wrote
  constructor
  · simpa [Conn.wrote, same] using wrote
  · intro _ _
    simp [Conn.visible, same, open']

omit [Database D] in
theorem Continues.of_error {c₀ : Conn D} {request : Request D} (wrote : c.wrote = true)
    (same : c₀.session.txn = c.session.txn)
    (open' : (afterError c₀).session.txn.isSome = true) : Continues c (afterError c₀) request :=
  .of_txn wrote ((afterError_open open').trans same)

omit [Database D] in
theorem locked_wrote {tx tx' : Txn D} {g : Global D} {writes : Bool}
    (locked : c.locked tx writes = (g, tx')) (wrote : tx.wrote = true ∨ writes = true) :
    tx'.wrote = true := by
  cases writes with
  | true =>
    cases locked
    rfl
  | false =>
    cases locked
    simpa using wrote

theorem Effect.continues {rules : SettingRules} {stmt : Stmt D} {result : PgResult StmtResult}
    (effect : Effect rules c stmt c' result) (wrote : c.wrote = true)
    (fresh : stmt = .startTransaction → c.session.status ≠ .idle)
    (stillOpen : c'.session.txn.isSome = true) : Continues c c' (.statement stmt) := by
  have ended : ∀ {c₀ : Conn D}, c₀.session.txn = none → ¬ c₀.session.txn.isSome = true := by
    intro c₀ none'
    simp [none']
  obtain ⟨tx, found, written⟩ := c.wrote_txn wrote
  have current : ∀ {tx₀ : Txn D}, c.session.txn = some tx₀ → tx₀ = tx := by
    intro tx₀ open'
    rw [found] at open'
    cases open'
    rfl
  cases effect with
  | refused failed gated => exact .of_txn wrote rfl
  | warned quiet => exact .of_txn wrote rfl
  | began idle => exact (fresh rfl idle).elim
  | committed => exact (ended rfl stillOpen).elim
  | violated => exact (ended rfl stillOpen).elim
  | abandoned => exact (ended rfl stillOpen).elim
  | wentBack open' back =>
    obtain rfl := current open'
    exact ⟨written, fun _ other => (other _ rfl).elim⟩
  | marked open' sound =>
    obtain rfl := current open'
    exact ⟨written, fun _ _ => by simp [Conn.visible, open']⟩
  | released open' sound back =>
    obtain rfl := current open'
    exact ⟨written, fun _ _ => by simp [Conn.visible, open']⟩
  | misnamed kind => exact .of_error wrote rfl stillOpen
  | assigned => exact .of_txn wrote rfl
  | unassigned => exact .of_error wrote rfl stillOpen
  | zoned => exact .of_txn wrote rfl
  | roled => exact .of_txn wrote rfl
  | unroled => exact .of_error wrote rfl stillOpen
  | deferred => exact .of_txn wrote rfl
  | undeferred => exact .of_error wrote rfl stillOpen
  | busy sound writes blocked =>
    simp only [found, Option.isNone_some, Bool.false_eq_true, if_false] at stillOpen ⊢
    exact .of_error wrote rfl stillOpen
  | ranInTxn open' sound free locked ran =>
    obtain rfl := current open'
    constructor
    · simpa [Conn.wrote] using locked_wrote locked (Or.inl written)
    · intro isData _
      cases isData
  | failedInTxn open' sound free locked =>
    obtain rfl := current open'
    constructor
    · simpa [Conn.wrote, afterError_open stillOpen] using locked_wrote locked (Or.inl written)
    · intro isData _
      cases isData
  | ranAlone => exact (ended rfl stillOpen).elim
  | failedAlone => exact (ended rfl stillOpen).elim

theorem commitImplicit_cases (c : Conn D) :
    (commitImplicit c).1.session.txn = c.session.txn ∧
        (commitImplicit c).1.session.status = c.session.status ∨
      ∃ tx, c.session.txn = some tx ∧ (commitImplicit c).1.session.txn = none ∧
        ((∃ e, (commitImplicit c).2 = .error e ∧ (commitImplicit c).1.session.status = .idle) ∨
          ((commitImplicit c).1.session.status = c.session.status ∧
            (tx.wrote = true → (commitImplicit c).1.global.db = Database.onCommitActions
              (commitImplicit c).1.session.rt.settings.tempSchema tx.state))) := by
  unfold commitImplicit
  split
  · split
    · cases found : c.session.txn with
      | none =>
        have nothing : commit c.leaveImplicit = (c.leaveImplicit, .ok ()) := by
          simp [commit, Conn.leaveImplicit, found]
        rw [nothing]
        exact Or.inl ⟨found, rfl⟩
      | some tx =>
        have open' : c.leaveImplicit.session.txn = some tx := found
        refine Or.inr ⟨tx, rfl, ?_⟩
        rcases commit_cases open' with ⟨e, ended⟩ | ⟨passed, settings, restored, ended⟩
        · rw [ended]
          exact ⟨rfl, Or.inl ⟨e, rfl, rfl⟩⟩
        · rw [ended]
          refine ⟨rfl, Or.inr ⟨rfl, ?_⟩⟩
          intro wrote
          simp [Conn.published, wrote, Session.ended]
    · exact Or.inl ⟨rfl, rfl⟩
  · exact Or.inl ⟨rfl, rfl⟩

omit [Database D] in
theorem rollbackImplicit_cases (c : Conn D) :
    (rollbackImplicit c).session.txn = c.session.txn ∧
        (rollbackImplicit c).session.status = c.session.status ∨
      (rollbackImplicit c).session.txn = none ∧ (rollbackImplicit c).session.status = .idle := by
  unfold rollbackImplicit
  split
  · split
    · exact Or.inr ⟨rfl, rfl⟩
    · exact Or.inl ⟨rfl, rfl⟩
  · exact Or.inl ⟨rfl, rfl⟩

omit [Database D] in
theorem Session.Coherent.of_same {s s' : Session D} (coherent : s.Coherent) (txn : s'.txn = s.txn)
    (status : s'.status = s.status) : s'.Coherent := by
  intro active
  rw [status] at active
  rw [txn]
  exact coherent active

variable {rules : SettingRules} {request : Request D}

theorem serve_coherent (coherent : c.session.Coherent)
    (sound : request = .commitImplicit → c.session.status ≠ .failed) :
    (serve rules c request).1.session.Coherent := by
  cases request with
  | statement stmt => exact ((execute_effect rules stmt coherent).transition coherent).coherent
  | beginImplicit => exact beginImplicit_coherent
  | commitImplicit =>
    rcases commitImplicit_cases c with ⟨txn, status⟩ | ⟨tx, open', none', ended⟩
    · exact coherent.of_same txn status
    · rcases ended with ⟨e, isError, idle⟩ | ⟨status, published⟩
      · exact .of_idle idle
      · by_cases idle : c.session.status = .idle
        · exact .of_idle (status.trans idle)
        · -- The block stays open: only an implicit transaction ends here.
          have block : c.session.status = .inTransaction := by
            cases found : c.session.status with
            | idle => exact (idle found).elim
            | inTransaction => rfl
            | failed => exact (sound rfl found).elim
          have left : (commitImplicit c).1.session.txn = c.session.txn := by
            simp only [commitImplicit, block]
            split <;> rfl
          rw [left, open'] at none'
          cases none'
  | rollbackImplicit =>
    rcases rollbackImplicit_cases c with ⟨txn, status⟩ | ⟨none', idle⟩
    · exact coherent.of_same txn status
    · exact .of_idle idle

theorem serve_continues (coherent : c.session.Coherent) (wrote : c.wrote = true)
    (fresh : request = .statement .startTransaction → c.session.status ≠ .idle)
    (stillOpen : (serve rules c request).1.session.txn.isSome = true) :
    Continues c (serve rules c request).1 request := by
  cases request with
  | statement stmt =>
    apply (execute_effect rules stmt coherent).continues wrote ?_ stillOpen
    intro begins
    exact fresh (by rw [begins])
  | beginImplicit =>
    obtain ⟨tx, open', written⟩ := c.wrote_txn wrote
    have same : beginImplicit c = c := by simp [beginImplicit, open']
    exact .of_txn wrote (by rw [serve, same])
  | commitImplicit =>
    rcases commitImplicit_cases c with ⟨txn, status⟩ | ⟨tx, open', none', ended⟩
    · exact .of_txn wrote txn
    · simp [serve, none'] at stillOpen
  | rollbackImplicit =>
    rcases rollbackImplicit_cases c with ⟨txn, status⟩ | ⟨none', idle⟩
    · exact .of_txn wrote txn
    · simp [serve, none'] at stillOpen

theorem serve_commits (coherent : c.session.Coherent) (wrote : c.wrote = true) {r : StmtResult}
    (acknowledged : (serve rules c request).2 = .ok r) (commits : Commits request r)
    (ended : (serve rules c request).1.session.txn = none) :
    (serve rules c request).1.global.db = Database.onCommitActions
      (serve rules c request).1.session.rt.settings.tempSchema c.visible := by
  obtain ⟨tx, open', written⟩ := c.wrote_txn wrote
  have visible : c.visible = tx.state := by simp [Conn.visible, open']
  rw [visible]
  rcases commits with ⟨rfl, tag⟩ | rfl
  · have effect := execute_effect rules .commit coherent
    simp only [serve] at acknowledged ⊢
    rw [acknowledged] at effect
    revert effect
    generalize (execute rules .commit c).1 = c'
    intro effect
    cases effect with
    | warned quiet => simp [quiet.2] at open'
    | committed found sound passed restored =>
      rw [open'] at found
      cases found
      simp [Conn.published, written, Session.ended]
    | abandoned found ends => exact absurd tag (by decide)
  · rcases commitImplicit_cases c with ⟨txn, status⟩ | ⟨tx₀, found, none', ended⟩
    · simp [serve, txn, open'] at ended
    · rw [open'] at found
      cases found
      rcases ended with ⟨e, isError, idle⟩ | ⟨status, published⟩
      · simp [serve, isError, Except.map] at acknowledged
      · exact published written

theorem changes_writes {sql : Sql lower routines} (coherent : c.session.Coherent)
    (shown : sql.Shown c.visible)
    (changes : Changes c (.statement (.data sql.data))
      (serve rules c (.statement (.data sql.data))).2) :
    (c.entering sql.data).wrote = true ∧
      (c.session.txn = none → (serve rules c (.statement (.data sql.data))).1.global.db =
        Database.onCommitActions
          (serve rules c (.statement (.data sql.data))).1.session.rt.settings.tempSchema
          (c.leaving sql.data)) ∧
      ((serve rules c (.statement (.data sql.data))).1.session.txn.isSome = true →
        (serve rules c (.statement (.data sql.data))).1.wrote = true) := by
  obtain ⟨stmt, r, same, acknowledged, changed⟩ := changes
  obtain rfl : stmt = sql.data := by
    cases same
    rfl
  have effect := execute_effect rules (.data sql.data) coherent
  simp only [serve] at acknowledged ⊢
  rw [acknowledged] at effect
  have detected : (c.entering sql.data).visible = c.visible ∨ sql.writes c.visible = true := by
    cases writes : sql.writes c.visible with
    | true => exact Or.inr rfl
    | false =>
      apply Or.inl
      exact entering_reads writes
  have writes : sql.writes c.visible = true := by
    rcases detected with same | writes
    · by_contra reads
      apply changed
      unfold Conn.leaving
      rw [same]
      exact sql.reads_unchanged shown (by simpa using reads) c.session.rt.modes
    · exact writes
  rcases effect.data_cases with ⟨tx, tx', g, open', free, locked, left⟩ | ⟨none', free, ended, left⟩
  · have visible : c.visible = tx.state := by simp [Conn.visible, open']
    rw [visible] at writes
    have wrote : tx'.wrote = true := locked_wrote locked (Or.inr writes)
    refine ⟨?_, ?_, ?_⟩
    · simp [entering_inTxn open' free locked, Conn.wrote, wrote]
    · simp [open']
    · simp [Conn.wrote, left, wrote]
  · have visible : c.visible = c.global.db := by simp [Conn.visible, none']
    rw [visible] at writes
    have entered := entering_alone none' free
    refine ⟨?_, ?_, ?_⟩
    · rw [entered]
      exact writes
    · intro _
      rw [left writes]
      unfold Conn.leaving
      rw [entered]
      rfl
    · simp [ended]

end Entering

structure Tracked (changed : Prop) (c : Conn D) : Prop where
  coherent : c.session.Coherent
  marked : changed → c.wrote = true

variable {changed : Prop} {c : Conn D} {rules : SettingRules}

theorem Tracked.publishes (tracked : Tracked changed c) (asked : Asked lower routines)
    (meets : asked.Meets changed c) :
    Publishes changed c asked.request (serve rules c asked.request).1
      (serve rules c asked.request).2 := by
  have fresh : changed → asked.request = .statement .startTransaction →
      c.session.status ≠ .idle := by
    intro dirty begins idle
    cases asked with
    | sql stmt => cases begins
    | control request plain =>
      simp only [Asked.request] at begins
      subst begins
      exact meets idle dirty
  constructor
  · intro stmt data changes
    cases asked with
    | sql sql =>
      obtain rfl : sql.data = stmt := by
        cases data
        rfl
      exact (changes_writes tracked.coherent meets changes).1
    | control request plain =>
      simp only [Asked.request] at data
      simp [data, Request.isData] at plain
  · intro stmt data changes none'
    cases asked with
    | sql sql =>
      obtain rfl : sql.data = stmt := by
        cases data
        rfl
      exact (changes_writes tracked.coherent meets changes).2.1 none'
    | control request plain =>
      simp only [Asked.request] at data
      simp [data, Request.isData] at plain
  · intro stmt data dirty
    exact entering_visible (tracked.marked dirty)
  · intro dirty plain other stillOpen
    exact (serve_continues tracked.coherent (tracked.marked dirty) (fresh dirty) stillOpen).visible
      plain other
  · intro r dirty acknowledged commits ended
    exact serve_commits tracked.coherent (tracked.marked dirty) acknowledged commits ended

theorem Tracked.serve (tracked : Tracked changed c) (asked : Asked lower routines)
    (meets : asked.Meets changed c) :
    Tracked ((serve rules c asked.request).1.session.txn.isSome = true ∧
        (changed ∨ Changes c asked.request (serve rules c asked.request).2))
      (serve rules c asked.request).1 := by
  constructor
  · apply serve_coherent tracked.coherent
    intro ends
    cases asked with
    | sql stmt => cases ends
    | control request plain =>
      simp only [Asked.request] at ends
      subst ends
      exact meets
  · rintro ⟨stillOpen, dirty | changes⟩
    · refine (serve_continues tracked.coherent (tracked.marked dirty) ?_ stillOpen).wrote
      intro begins idle
      cases asked with
      | sql stmt => cases begins
      | control request plain =>
        simp only [Asked.request] at begins
        subst begins
        exact meets idle dirty
    · cases asked with
      | sql stmt => exact (changes_writes tracked.coherent meets changes).2.2 stillOpen
      | control request plain =>
        obtain ⟨stmt, r, data, _⟩ := changes
        simp only [Asked.request] at data
        simp [data, Request.isData] at plain

def Chronicle.Sound (h : Chronicle D) : Prop := ∀ i, Tracked (h.changed i) (h.world.conn i)

theorem Chronicle.Sound.next {h : Chronicle D} (sound : h.Sound)
    {call : Nat × Asked lower routines}
    (meets : call.2.Meets (h.changed call.1) (h.world.conn call.1)) :
    (h.next rules call).Sound := by
  obtain ⟨i, asked⟩ := call
  intro j
  by_cases same : j = i
  · subst same
    simpa [Chronicle.next, World.conn] using (sound j).serve asked meets
  · -- Another session's transaction is its own.
    have tracked := sound j
    refine ⟨?_, ?_⟩
    · simpa [Chronicle.next, World.conn, same] using tracked.coherent
    · simpa [Chronicle.next, World.conn, same, Conn.wrote] using tracked.marked

theorem AllMeet.run (calls : List (Nat × Asked lower routines))
    {later : List (Nat × Asked lower routines)} {h : Chronicle D} (sound : h.Sound)
    (meet : AllMeet rules h (calls ++ later)) :
    (h.run rules calls).Sound ∧ AllMeet rules (h.run rules calls) later := by
  induction calls generalizing h with
  | nil => exact ⟨sound, meet⟩
  | cons call rest ih => exact ih (sound.next meet.1) meet.2

/-- In every interleaving whose queries show in their text what they do, every change is
made in a transaction marked as writing and is committed with it. -/
theorem run_publishes (rules : SettingRules) (w : World D)
    (calls : List (Nat × Asked lower routines)) (i : Nat) (asked : Asked lower routines)
    (atRest : w.AtRest) (meet : AllMeet rules { world := w } (calls ++ [(i, asked)])) :
    let h := Chronicle.run rules { world := w } calls
    Publishes (h.changed i) (h.world.conn i) asked.request
      (serve rules (h.world.conn i) asked.request).1
      (serve rules (h.world.conn i) asked.request).2 := by
  have start : Chronicle.Sound { world := w } := by
    intro j
    refine ⟨.of_idle (atRest.idle j), ?_⟩
    intro dirty
    exact dirty.elim
  obtain ⟨sound, last⟩ := AllMeet.run calls start meet
  exact (sound i).publishes asked last.1

def asciiLowercase : Lowercase where
  char c := [c.toLower]
  sigma _ _ := 'σ'
  ascii _ _ := rfl

/-- `INSERT INTO t VALUES (1)`. -/
def insertKey : Modes → DbState Scalar → DbState Scalar × PgResult StmtResult :=
  (DataStmt.ofDml 1 0 (fun db => db) (insertValues 1 1 [[.int 1]])).run

/-- A function `bump()` whose body is `INSERT INTO t VALUES (1)`. -/
def bump : UserFunction (DbState Scalar) where
  name := "bump"
  calls before after := ∃ modes, after = (insertKey modes before).1

def bumpRoutines : Routines (DbState Scalar) where
  functions _ := [bump]
  view _ _ := none

/-- `SELECT bump()`, with the name as it is written. -/
def selectBump (qualifier : List Ident) (id : Ident) (named : "bump" = id.name asciiLowercase) :
    Sql asciiLowercase bumpRoutines :=
  .query
    { query := ⟨[.text "SELECT ", .call qualifier id, .text ")"]⟩
      run := insertKey
      performs := by
        intro modes d
        have calls : Reaches asciiLowercase bumpRoutines d
            ⟨[.text "SELECT ", .call qualifier id, .text ")"]⟩ bump.calls := by
          apply @Reaches.call _ _ _ _ _ qualifier id bump
          · simp
          · simp [bumpRoutines]
          · exact named
        exact .step calls ⟨modes, rfl⟩ (.done _) }

/-- `SELECT "bump"()`. -/
def quotedBump : Sql asciiLowercase bumpRoutines :=
  selectBump [] { value := "bump", quoted := true } (by decide +kernel)

/-- `SELECT public.Bump()`. -/
def qualifiedBump : Sql asciiLowercase bumpRoutines :=
  selectBump [{ value := "public" }] { value := "Bump" } (by decide +kernel)

theorem quotedBump_reads (d : DbState Scalar) : quotedBump.writes d = false := by
  have reads : quotedBump.writes (Ctx.ofTables [keyed]).db = false := by decide +kernel
  exact reads

theorem qualifiedBump_writes (d : DbState Scalar) : qualifiedBump.writes d = true := by
  have writes : qualifiedBump.writes (Ctx.ofTables [keyed]).db = true := by decide +kernel
  exact writes

/-- The key `SELECT "bump"()` inserts is acknowledged and never committed. -/
theorem run_unpublished_quoted :
    ¬ ∀ (lower : Lowercase) (routines : Routines (DbState Scalar)) (rules : SettingRules)
      (w : World (DbState Scalar)) (calls : List (Nat × Asked lower routines)) (i : Nat)
      (asked : Asked lower routines), w.AtRest →
      let h := Chronicle.run rules { world := w } calls
      Publishes (h.changed i) (h.world.conn i) asked.request
        (serve rules (h.world.conn i) asked.request).1
        (serve rules (h.world.conn i) asked.request).2 := by
  intro claimed
  have publishes := claimed asciiLowercase bumpRoutines textRules keyedWorld [] 1 (.sql quotedBump)
    keyedWorld_atRest
  have reads : ∀ d, quotedBump.data.writes d = false := quotedBump_reads
  have entered : (keyedWorld.conn 1).entering quotedBump.data = begin (keyedWorld.conn 1) := by
    simp [Conn.entering, reads, keyedWorld, World.conn]
  have left : ((keyedWorld.conn 1).leaving quotedBump.data).rows 1 = [[.int 1]] := by
    unfold Conn.leaving
    rw [entered]
    rfl
  have changes : Changes (keyedWorld.conn 1) (.statement (.data quotedBump.data))
      (serve textRules (keyedWorld.conn 1) (.statement (.data quotedBump.data))).2 := by
    refine ⟨_, { tag := "" }, rfl, ?_, ?_⟩
    · simp only [serve, execute, runStatement, runDataStatement, reads]
      rfl
    · intro same
      rw [same, entered] at left
      cases left
  have kept : (serve textRules (keyedWorld.conn 1)
      (.statement (.data quotedBump.data))).1.global.db.rows 1 = [] := by
    simp only [serve, execute, runStatement, runDataStatement, reads]
    rfl
  have committed := publishes.alone quotedBump.data rfl changes rfl
  have rows : [] = [[Scalar.int 1]] :=
    kept.symm.trans ((congrArg (fun db => db.rows 1) committed).trans left)
  cases rows

/-- `BEGIN; SELECT public.Bump();` in one session, then another looks in, and COMMIT. -/
def bumpInBlock : List (Nat × Asked asciiLowercase bumpRoutines) :=
  [(1, .control (.statement .startTransaction) rfl), (1, .sql qualifiedBump),
    (2, .control (.statement (.savepoint "s")) rfl)]

theorem bumpInBlock_meet :
    AllMeet textRules { world := keyedWorld }
      (bumpInBlock ++ [(1, .control (.statement .commit) rfl)]) := by
  refine ⟨fun _ => id, Or.inr (Or.inr ?_), trivial, trivial, trivial⟩
  refine ⟨[{ value := "public" }], { value := "Bump" }, bump, ?_, rfl, by decide +kernel, ?_, ?_⟩
  · simp
  · simp [bumpRoutines]
  · decide +kernel

def bumpedInBlock : Chronicle (DbState Scalar) :=
  Chronicle.run textRules { world := keyedWorld } bumpInBlock

theorem run_publishes_qualified :
    bumpedInBlock.changed 1 ∧
      (serve textRules (bumpedInBlock.world.conn 1)
        (.statement .commit)).1.global.db.rows 1 = [[.int 1]] := by
  have publishes := run_publishes textRules keyedWorld bumpInBlock 1
    (.control (.statement .commit) rfl) keyedWorld_atRest bumpInBlock_meet
  have data : qualifiedBump.data = { writes := fun _ => true, run := insertKey } :=
    congrArg (fun writes => DataStmt.mk writes insertKey (fun _ _ outside => outside))
      (funext qualifiedBump_writes)
  have evaluated : bumpedInBlock = Chronicle.run textRules { world := keyedWorld } bumpInBlock := rfl
  simp only [bumpInBlock, Chronicle.run, List.foldl, Chronicle.next, Asked.request, data]
    at evaluated
  have rows : (bumpedInBlock.world.conn 1).visible.rows 1 = [[.int 1]] := by
    rw [evaluated]
    rfl
  have changed : bumpedInBlock.changed 1 := by
    rw [evaluated]
    refine ⟨rfl, Or.inr ⟨_, { tag := "" }, rfl, rfl, ?_⟩⟩
    intro same
    cases congrArg (fun db => db.rows 1) same
  have ended : (serve textRules (bumpedInBlock.world.conn 1)
      (.statement .commit)).1.session.txn = none := by
    rw [evaluated]
    rfl
  have acknowledged : (serve textRules (bumpedInBlock.world.conn 1)
      (.statement .commit)).2 = .ok { tag := "COMMIT" } := by
    rw [evaluated]
    rfl
  have published := publishes.commits _ changed acknowledged (Or.inl ⟨rfl, rfl⟩) ended
  exact ⟨changed, (congrArg (fun db => db.rows 1) published).trans rows⟩

end NoidaDb.Postgres
