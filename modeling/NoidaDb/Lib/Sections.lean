/-
Programs that work in sections.

A program is a tree of calls, each one section under a lock.  A pool of programs makes its calls
in any order.
-/

import Mathlib.Data.List.Nodup

namespace NoidaDb.Lib

structure Interface where
  Call : Type
  Answer : Call → Type

inductive Program (I : Interface) (α : Type) : Type where
  | done (result : α)
  | call (c : I.Call) (next : I.Answer c → Program I α)

abbrev Interface.Event (I : Interface) := (c : I.Call) × I.Answer c

namespace Program

variable {I : Interface} {α β : Type}

def bind : Program I α → (α → Program I β) → Program I β
  | .done result, next => next result
  | .call c rest, next => .call c (fun answer => (rest answer).bind next)

instance : Monad (Program I) where
  pure := .done
  bind := bind

def ask (c : I.Call) : Program I (I.Answer c) := .call c .done

@[simp] theorem pure_eq (result : α) : (pure result : Program I α) = .done result := rfl

@[simp] theorem done_bind (result : α) (next : α → Program I β) :
    (.done result : Program I α) >>= next = next result := rfl

@[simp] theorem call_bind (c : I.Call) (rest : I.Answer c → Program I α)
    (next : α → Program I β) :
    (.call c rest : Program I α) >>= next = .call c (fun answer => rest answer >>= next) := rfl

/-- What a program's calls meet, and what it may rely on in each. -/
structure Contract (I : Interface) where
  meets : I.Call → Prop
  relies : I.Call → Prop := fun _ => True

/-- Whatever it is answered, the program's calls meet the contract as long as what it relies on
holds, and it ends in a result that satisfies `post`, together with the calls it made. -/
def Always (good : Contract I) : Program I α → (List I.Event → α → Prop) → Prop
  | .done result, post => post [] result
  | .call c next, post =>
    good.meets c ∧ (good.relies c → ∀ answer, (next answer).Always good (fun events =>
      post (⟨c, answer⟩ :: events)))

variable {good : Contract I}

theorem Always.weaken {program : Program I α} {post weaker : List I.Event → α → Prop}
    (always : program.Always good post)
    (implied : ∀ events result, post events result → weaker events result) :
    program.Always good weaker := by
  induction program generalizing post weaker with
  | done result => exact implied [] result always
  | call c next ih =>
    refine ⟨always.1, ?_⟩
    intro relied answer
    exact ih answer (always.2 relied answer)
      (fun events result => implied (⟨c, answer⟩ :: events) result)

theorem Always.bind {program : Program I α} {next : α → Program I β}
    {post : List I.Event → β → Prop}
    (always : program.Always good (fun events result =>
      (next result).Always good (fun later => post (events ++ later)))) :
    (program >>= next).Always good post := by
  induction program generalizing post with
  | done result => exact always
  | call c rest ih =>
    refine ⟨always.1, ?_⟩
    intro relied answer
    exact ih answer (always.2 relied answer)

section Failing

variable {ε : Type}

/-- The program's calls meet the contract, and where it succeeds its result and the calls it made
satisfy `post`. -/
def Promises (good : Contract I) (program : ExceptT ε (Program I) α)
    (post : α → List I.Event → Prop) : Prop :=
  program.run.Always good (fun events result => ∀ value, result = .ok value → post value events)

namespace Promises

variable {program : ExceptT ε (Program I) α} {next : α → ExceptT ε (Program I) β}

variable {post : α → List I.Event → Prop}

theorem weaken {weaker : α → List I.Event → Prop} (promises : Promises good program post)
    (implied : ∀ value events, post value events → weaker value events) :
    Promises good program weaker :=
  Always.weaken promises (fun events _ holds value isValue =>
    implied value events (holds value isValue))

theorem pure {value : α} (holds : post value []) :
    Promises good (Pure.pure value : ExceptT ε (Program I) α) post := by
  intro result isResult
  cases isResult
  exact holds

theorem throw {failure : ε} :
    Promises good (MonadExcept.throw failure : ExceptT ε (Program I) α) post := by
  intro result isResult
  cases isResult

theorem ofResult {result : Except ε α} (holds : ∀ value, result = .ok value → post value []) :
    Promises good (ExceptT.mk (Pure.pure result) : ExceptT ε (Program I) α) post :=
  holds

theorem bind {post : β → List I.Event → Prop}
    (promises : Promises good program (fun value events =>
      Promises good (next value) (fun result later => post result (events ++ later)))) :
    Promises good (program >>= next) post := by
  apply Always.bind
  apply Always.weaken promises
  intro events result holds
  cases result with
  | error failure =>
    intro value isValue
    cases isValue
  | ok value => exact holds value rfl

theorem ask {c : I.Call} {post : I.Answer c → List I.Event → Prop} (isGood : good.meets c)
    (holds : good.relies c → ∀ answer, post answer [⟨c, answer⟩]) :
    Promises good (ExceptT.lift (Program.ask c) : ExceptT ε (Program I) (I.Answer c)) post := by
  refine ⟨isGood, ?_⟩
  intro relied answer value isValue
  cases isValue
  exact holds relied answer

theorem foldlM {items : List β} {step : α → β → ExceptT ε (Program I) α} {init : α}
    (invariant : α → Prop) (initially : invariant init)
    (keeps : ∀ value item, invariant value → item ∈ items →
      Promises good (step value item) (fun value' _ => invariant value')) :
    Promises good (items.foldlM step init) (fun value _ => invariant value) := by
  induction items generalizing init with
  | nil => exact Promises.pure initially
  | cons item rest ih =>
    rw [List.foldlM_cons]
    apply Promises.bind
    apply (keeps init item initially List.mem_cons_self).weaken
    intro value _ kept
    exact ih kept (fun value item holds member =>
      keeps value item holds (List.mem_cons_of_mem _ member))

theorem forM_made {items : List β} {body : β → ExceptT ε (Program I) PUnit}
    (mark : β → I.Event)
    (marks : ∀ item, item ∈ items →
      Promises good (body item) (fun _ events => mark item ∈ events)) :
    Promises good (items.forM body) (fun _ events => ∀ item, item ∈ items → mark item ∈ events) := by
  induction items with
  | nil =>
    apply Promises.pure
    intro item member
    cases member
  | cons item rest ih =>
    show Promises good (body item >>= fun _ => rest.forM body) _
    apply Promises.bind
    apply (marks item List.mem_cons_self).weaken
    intro _ events marked
    apply (ih (fun item member => marks item (List.mem_cons_of_mem _ member))).weaken
    intro _ later others other member
    rcases List.mem_cons.mp member with same | inRest
    · rw [same]
      exact List.mem_append_left _ marked
    · exact List.mem_append_right _ (others other inRest)

theorem forM {items : List β} {body : β → ExceptT ε (Program I) PUnit}
    (each : ∀ item, item ∈ items → Promises good (body item) (fun _ _ => True)) :
    Promises good (items.forM body) (fun _ _ => True) := by
  induction items with
  | nil => exact Promises.pure trivial
  | cons item rest ih =>
    show Promises good (body item >>= fun _ => rest.forM body) _
    apply Promises.bind
    apply (each item List.mem_cons_self).weaken
    intro _ _ _
    exact ih (fun item member => each item (List.mem_cons_of_mem _ member))

end Promises

end Failing

abbrev Server (I : Interface) (σ : Type) := (c : I.Call) → σ → I.Answer c × σ

variable {σ : Type} (server : Server I σ)

def run : Program I α → σ → α × σ
  | .done result, state => (result, state)
  | .call c next, state =>
    let served := server c state
    (next served.1).run served.2

theorem run_bind (program : Program I α) (next : α → Program I β) (state : σ) :
    (program >>= next).run server state =
      (next (program.run server state).1).run server (program.run server state).2 := by
  induction program generalizing state with
  | done result => rfl
  | call c rest ih => exact ih _ _

end Program

/-- Programs under way.  They are numbered as they start; a thread runs one at a time. -/
structure Pool (I : Interface) (σ α Thread : Type) where
  shared : σ
  started : Nat := 0
  threads : Thread → Option (Nat × Program I α) := fun _ => none
  made : List (Nat × I.Event) := []
  answered : List (Nat × α) := []

inductive Move (I : Interface) (σ α Thread : Type) where
  | start (thread : Thread) (program : Program I α)
  | step (thread : Thread)
  | other (change : σ → σ)

namespace Pool

variable {I : Interface} {σ α Thread : Type} [DecidableEq Thread]

def move (server : Program.Server I σ) (pool : Pool I σ α Thread) :
    Move I σ α Thread → Pool I σ α Thread
  | .start thread program =>
    { pool with
      started := pool.started + 1
      threads := Function.update pool.threads thread (some (pool.started, program)) }
  | .step thread =>
    match pool.threads thread with
    | none => pool
    | some (number, .done result) =>
      { pool with
        threads := Function.update pool.threads thread none
        answered := pool.answered ++ [(number, result)] }
    | some (number, .call c next) =>
      let served := server c pool.shared
      { pool with
        shared := served.2
        threads := Function.update pool.threads thread (some (number, next served.1))
        made := pool.made ++ [(number, ⟨c, served.1⟩)] }
  | .other change => { pool with shared := change pool.shared }

def run (server : Program.Server I σ) (pool : Pool I σ α Thread) (moves : List (Move I σ α Thread)) :
    Pool I σ α Thread :=
  moves.foldl (move server) pool

/-- Programs come from `programs`, other changes from `changes`, and the condition holds at
each call. -/
def Along (server : Program.Server I σ) (programs : Program I α → Prop) (changes : (σ → σ) → Prop)
    (condition : σ → I.Call → Prop) : Pool I σ α Thread → List (Move I σ α Thread) → Prop
  | _, [] => True
  | pool, m :: rest =>
    (match m with
      | .start _ program => programs program
      | .step thread => ∀ number c next, pool.threads thread = some (number, .call c next) →
          condition pool.shared c
      | .other change => changes change) ∧
      Along server programs changes condition (pool.move server m) rest

theorem Along.step {server : Program.Server I σ} {programs : Program I α → Prop}
    {changes : (σ → σ) → Prop} {condition : σ → I.Call → Prop} {pool : Pool I σ α Thread}
    {thread : Thread} {number : Nat} {c : I.Call} {next : I.Answer c → Program I α}
    {rest : List (Move I σ α Thread)} (found : pool.threads thread = some (number, .call c next))
    (holds : condition pool.shared c)
    (along : Along server programs changes condition (pool.move server (.step thread)) rest) :
    Along server programs changes condition pool (.step thread :: rest) := by
  refine ⟨?_, along⟩
  intro number' c' next' found'
  rw [found] at found'
  cases found'
  exact holds

variable {pool : Pool I σ α Thread} {good : Program.Contract I} {post : List I.Event → α → Prop}

theorem Along.answer {server : Program.Server I σ} {programs : Program I α → Prop}
    {changes : (σ → σ) → Prop} {condition : σ → I.Call → Prop} {thread : Thread} {number : Nat}
    {result : α} {rest : List (Move I σ α Thread)}
    (found : pool.threads thread = some (number, .done result))
    (along : Along server programs changes condition (pool.move server (.step thread)) rest) :
    Along server programs changes condition pool (.step thread :: rest) := by
  refine ⟨?_, along⟩
  intro number' c' next' found'
  rw [found] at found'
  cases found'

def madeBy (pool : Pool I σ α Thread) (number : Nat) : List I.Event :=
  (pool.made.filter (fun m => decide (m.1 = number))).map Prod.snd

/-- Every program goes on, or has gone, as `post` says of all it has done. -/
structure Keeps (good : Program.Contract I) (post : List I.Event → α → Prop) (pool : Pool I σ α Thread) :
    Prop where
  numbered : ∀ m, m ∈ pool.made → m.1 < pool.started
  fresh : ∀ a, a ∈ pool.answered → a.1 < pool.started
  running : ∀ thread number program, pool.threads thread = some (number, program) →
    number < pool.started ∧ (∀ a, a ∈ pool.answered → a.1 ≠ number) ∧
      program.Always good (fun later => post (pool.madeBy number ++ later))
  apart : ∀ thread thread' number program program', pool.threads thread = some (number, program) →
    pool.threads thread' = some (number, program') → thread = thread'
  kept : ∀ a, a ∈ pool.answered → post (pool.madeBy a.1) a.2
  once : (pool.answered.map Prod.fst).Nodup

omit [DecidableEq Thread] in
theorem keeps_new (good : Program.Contract I) (post : List I.Event → α → Prop) (shared : σ) :
    Keeps good post ({ shared := shared } : Pool I σ α Thread) where
  numbered := fun m member => (List.not_mem_nil member).elim
  fresh := fun a member => (List.not_mem_nil member).elim
  running := fun thread number program impossible => by cases impossible
  apart := fun thread thread' number program program' impossible => by cases impossible
  kept := fun a member => (List.not_mem_nil member).elim
  once := List.nodup_nil

omit [DecidableEq Thread] in
theorem madeBy_append (pool : Pool I σ α Thread) (shared : σ)
    (threads : Thread → Option (Nat × Program I α)) (number other : Nat) (event : I.Event) :
    ({ pool with
        shared := shared
        threads := threads
        made := pool.made ++ [(number, event)] } : Pool I σ α Thread).madeBy other =
      pool.madeBy other ++ if number = other then [event] else [] := by
  simp only [madeBy, List.filter_append, List.map_append]
  congr 1
  by_cases same : number = other
  · simp [same]
  · simp [same]

theorem Keeps.start (keeps : Keeps good post pool) (server : Program.Server I σ) (thread : Thread)
    {program : Program I α} (always : program.Always good post) :
    Keeps good post (pool.move server (.start thread program)) := by
  have nothing : pool.madeBy pool.started = [] := by
    simp only [madeBy, List.map_eq_nil_iff, List.filter_eq_nil_iff, decide_eq_true_eq]
    intro m member same
    have earlier := keeps.numbered m member
    omega
  have old : ∀ t number p, Function.update pool.threads thread (some (pool.started, program)) t =
      some (number, p) →
      (t = thread ∧ number = pool.started ∧ p = program) ∨
        (t ≠ thread ∧ pool.threads t = some (number, p)) := by
    intro t number p found
    by_cases same : t = thread
    · subst same
      rw [Function.update_self] at found
      cases found
      exact Or.inl ⟨rfl, rfl, rfl⟩
    · rw [Function.update_of_ne same] at found
      exact Or.inr ⟨same, found⟩
  constructor
  · intro m member
    exact Nat.lt_succ_of_lt (keeps.numbered m member)
  · intro a member
    exact Nat.lt_succ_of_lt (keeps.fresh a member)
  · intro t number p found
    rcases old t number p found with ⟨_, isNew, isProgram⟩ | ⟨_, before⟩
    · subst isNew
      subst isProgram
      refine ⟨Nat.lt_succ_self _, ?_, ?_⟩
      · intro a member same
        have earlier := keeps.fresh a member
        omega
      · show p.Always good (fun later => post (pool.madeBy pool.started ++ later))
        rw [nothing]
        exact always
    · obtain ⟨earlier, unanswered, goesOn⟩ := keeps.running t number p before
      exact ⟨Nat.lt_succ_of_lt earlier, unanswered, goesOn⟩
  · intro t t' number p p' found found'
    rcases old t number p found with ⟨isThread, isNew, _⟩ | ⟨_, before⟩
    · rcases old t' number p' found' with ⟨isThread', _, _⟩ | ⟨_, before'⟩
      · exact isThread.trans isThread'.symm
      · have earlier := (keeps.running t' number p' before').1
        omega
    · rcases old t' number p' found' with ⟨_, isNew', _⟩ | ⟨_, before'⟩
      · have earlier := (keeps.running t number p before).1
        omega
      · exact keeps.apart t t' number p p' before before'
  · exact keeps.kept
  · exact keeps.once

theorem Keeps.step {good : Program.Contract I} {post : List I.Event → α → Prop}
    {pool : Pool I σ α Thread}
    (keeps : Keeps good post pool) (server : Program.Server I σ) (thread : Thread)
    (relied : ∀ number c next, pool.threads thread = some (number, .call c next) → good.relies c) :
    Keeps good post (pool.move server (.step thread)) := by
  unfold move
  cases found : pool.threads thread with
  | none =>
    simp only [found]
    exact keeps
  | some under =>
    obtain ⟨number, program⟩ := under
    obtain ⟨earlier, unanswered, goesOn⟩ := keeps.running thread number program found
    -- No other thread runs the same program.
    have others : ∀ t n p, t ≠ thread → pool.threads t = some (n, p) → n ≠ number := by
      intro t n p different foundT same
      subst same
      exact different (keeps.apart t thread n p program foundT found)
    cases program with
    | done result =>
      simp only [found]
      have ends : post (pool.madeBy number) result := by
        simpa [Program.Always] using goesOn
      have old : ∀ t n p, Function.update pool.threads thread none t = some (n, p) →
          t ≠ thread ∧ pool.threads t = some (n, p) := by
        intro t n p foundT
        by_cases same : t = thread
        · rw [same, Function.update_self] at foundT
          cases foundT
        · rw [Function.update_of_ne same] at foundT
          exact ⟨same, foundT⟩
      constructor
      · exact keeps.numbered
      · intro a member
        rcases List.mem_append.mp member with before | new
        · exact keeps.fresh a before
        · rw [List.mem_singleton.mp new]
          exact earlier
      · intro t n p foundT
        obtain ⟨different, before⟩ := old t n p foundT
        obtain ⟨earlier', unanswered', goesOn'⟩ := keeps.running t n p before
        refine ⟨earlier', ?_, goesOn'⟩
        intro a member
        rcases List.mem_append.mp member with answered | new
        · exact unanswered' a answered
        · rw [List.mem_singleton.mp new]
          exact (others t n p different before).symm
      · intro t t' n p p' foundT foundT'
        exact keeps.apart t t' n p p' (old t n p foundT).2 (old t' n p' foundT').2
      · intro a member
        rcases List.mem_append.mp member with before | new
        · exact keeps.kept a before
        · rw [List.mem_singleton.mp new]
          exact ends
      · rw [List.map_append, List.map_singleton]
        apply List.Nodup.append keeps.once (List.nodup_singleton _)
        intro n inOld isNew
        obtain ⟨a, member, isNumber⟩ := List.mem_map.mp inOld
        exact unanswered a member (isNumber.trans (List.mem_singleton.mp isNew))
    | call c next =>
      simp only [found]
      have old : ∀ t n p, Function.update pool.threads thread
          (some (number, next (server c pool.shared).1)) t = some (n, p) →
          (t = thread ∧ n = number ∧ p = next (server c pool.shared).1) ∨
            (t ≠ thread ∧ pool.threads t = some (n, p)) := by
        intro t n p foundT
        by_cases same : t = thread
        · subst same
          rw [Function.update_self] at foundT
          cases foundT
          exact Or.inl ⟨rfl, rfl, rfl⟩
        · rw [Function.update_of_ne same] at foundT
          exact Or.inr ⟨same, foundT⟩
      constructor
      · intro m member
        rcases List.mem_append.mp member with before | new
        · exact keeps.numbered m before
        · rw [List.mem_singleton.mp new]
          exact earlier
      · exact keeps.fresh
      · intro t n p foundT
        rcases old t n p foundT with ⟨_, isNumber, isProgram⟩ | ⟨different, before⟩
        · subst isNumber
          subst isProgram
          refine ⟨earlier, unanswered, ?_⟩
          rw [madeBy_append, if_pos rfl]
          have continues := goesOn.2 (relied n c next found) (server c pool.shared).1
          simpa using continues
        · obtain ⟨earlier', unanswered', goesOn'⟩ := keeps.running t n p before
          refine ⟨earlier', unanswered', ?_⟩
          rw [madeBy_append, if_neg (others t n p different before).symm, List.append_nil]
          exact goesOn'
      · intro t t' n p p' foundT foundT'
        rcases old t n p foundT with ⟨isThread, isNumber, _⟩ | ⟨different, before⟩
        · rcases old t' n p' foundT' with ⟨isThread', _, _⟩ | ⟨different', before'⟩
          · exact isThread.trans isThread'.symm
          · exact (others t' n p' different' before' isNumber).elim
        · rcases old t' n p' foundT' with ⟨_, isNumber', _⟩ | ⟨_, before'⟩
          · exact (others t n p different before isNumber').elim
          · exact keeps.apart t t' n p p' before before'
      · intro a member
        rw [madeBy_append, if_neg (unanswered a member).symm, List.append_nil]
        exact keeps.kept a member
      · exact keeps.once

theorem Keeps.other (keeps : Keeps good post pool) (server : Program.Server I σ) (change : σ → σ) :
    Keeps good post (pool.move server (.other change)) :=
  ⟨keeps.numbered, keeps.fresh, keeps.running, keeps.apart, keeps.kept, keeps.once⟩

theorem run_keeps {server : Program.Server I σ} {programs : Program I α → Prop}
    {changes : (σ → σ) → Prop} {condition : σ → I.Call → Prop}
    (promise : ∀ program, programs program → program.Always good post)
    (relied : ∀ state c, condition state c → good.relies c)
    (invariant : σ → List (Nat × I.Event) → Prop)
    (called : ∀ state made number c, invariant state made → good.meets c → condition state c →
      invariant (server c state).2 (made ++ [(number, ⟨c, (server c state).1⟩)]))
    (changed : ∀ state made change, invariant state made → changes change →
      invariant (change state) made) (moves : List (Move I σ α Thread))
    (keeps : Keeps good post pool) (initially : invariant pool.shared pool.made)
    (along : Along server programs changes condition pool moves) :
    Keeps good post (pool.run server moves) ∧
      invariant (pool.run server moves).shared (pool.run server moves).made := by
  induction moves generalizing pool with
  | nil => exact ⟨keeps, initially⟩
  | cons m rest ih =>
    obtain ⟨allowed, along⟩ := along
    cases m with
    | start thread program =>
      exact ih (keeps.start server thread (promise program allowed)) initially along
    | step thread =>
      refine ih (keeps.step server thread (fun number c next found =>
        relied pool.shared c (allowed number c next found))) ?_ along
      unfold move
      cases found : pool.threads thread with
      | none =>
        simp only [found]
        exact initially
      | some under =>
        obtain ⟨number, program⟩ := under
        cases program with
        | done result =>
          simp only [found]
          exact initially
        | call c next =>
          simp only [found]
          have isGood := (keeps.running thread number _ found).2.2.1
          exact called pool.shared pool.made number c initially isGood
            (allowed number c next found)
    | other change =>
      exact ih (keeps.other server change)
        (changed pool.shared pool.made change initially allowed) along

end Pool

end NoidaDb.Lib
