/-
Partial correctness for computations that thread a state and may fail.

`Ensures m s Q` says that every successful run of `m` from `s` ends in a result and a state that
satisfy `Q`.
-/

import Mathlib.Data.List.Basic

namespace NoidaDb.Lib

variable {σ ε α β : Type}

def Ensures (computation : StateT σ (Except ε) α) (state : σ)
    (post : α → σ → Prop) : Prop :=
  ∀ result final, computation state = .ok (result, final) → post result final

namespace Ensures

variable {state : σ} {post : α → σ → Prop} {body : α → StateT σ (Except ε) PUnit}

theorem weaken {computation : StateT σ (Except ε) α} {weaker : α → σ → Prop}
    (ensured : Ensures computation state post)
    (implied : ∀ result final, post result final → weaker result final) :
    Ensures computation state weaker :=
  fun result final succeeded => implied result final (ensured result final succeeded)

theorem and {computation : StateT σ (Except ε) α} {left right : α → σ → Prop}
    (ensuredLeft : Ensures computation state left)
    (ensuredRight : Ensures computation state right) :
    Ensures computation state (fun result final => left result final ∧ right result final) :=
  fun result final succeeded =>
    ⟨ensuredLeft result final succeeded, ensuredRight result final succeeded⟩

theorem pure {value : α} (holds : post value state) :
    Ensures (Pure.pure value : StateT σ (Except ε) α) state post := by
  intro result final succeeded
  cases succeeded
  exact holds

theorem throw {failure : ε} :
    Ensures (MonadExcept.throw failure : StateT σ (Except ε) α) state post := by
  intro result final succeeded
  cases succeeded

theorem bind {first : StateT σ (Except ε) α} {next : α → StateT σ (Except ε) β}
    {post : β → σ → Prop}
    (ensured : Ensures first state (fun value middle => Ensures (next value) middle post)) :
    Ensures (first >>= next) state post := by
  intro result final succeeded
  change (first state >>= fun pair => next pair.1 pair.2) = .ok (result, final) at succeeded
  cases ran : first state with
  | error failure =>
    rw [ran] at succeeded
    cases succeeded
  | ok pair =>
    rw [ran] at succeeded
    exact ensured pair.1 pair.2 ran result final succeeded

theorem get {post : σ → σ → Prop} (holds : post state state) :
    Ensures (MonadState.get : StateT σ (Except ε) σ) state post := by
  intro result final succeeded
  cases succeeded
  exact holds

theorem update {change : σ → σ} {post : PUnit → σ → Prop} (holds : post PUnit.unit (change state)) :
    Ensures (modify change : StateT σ (Except ε) PUnit) state post := by
  intro result final succeeded
  cases succeeded
  exact holds

theorem lift {computation : Except ε α}
    (holds : ∀ value, computation = .ok value → post value state) :
    Ensures (StateT.lift computation : StateT σ (Except ε) α) state post := by
  intro result final succeeded
  cases computation with
  | error failure => cases succeeded
  | ok value =>
    cases succeeded
    exact holds result rfl

theorem ite {condition : Prop} [Decidable condition] {yes no : StateT σ (Except ε) α}
    (whenTrue : condition → Ensures yes state post)
    (whenFalse : ¬ condition → Ensures no state post) :
    Ensures (if condition then yes else no) state post := by
  split
  · exact whenTrue (by assumption)
  · exact whenFalse (by assumption)

theorem forM (invariant : σ → Prop) {items : List α} (initially : invariant state)
    (step : ∀ item, item ∈ items → ∀ current, invariant current →
      Ensures (body item) current (fun _ final => invariant final)) :
    Ensures (items.forM body) state (fun _ final => invariant final) := by
  induction items generalizing state with
  | nil => exact Ensures.pure initially
  | cons item rest ih =>
    refine Ensures.bind ?_
    refine (step item List.mem_cons_self state initially).weaken ?_
    intro _ middle kept
    exact ih kept (fun other member => step other (List.mem_cons_of_mem item member))

theorem forM_each (invariant : σ → Prop) (fact : α → Prop) {items : List α}
    (initially : invariant state) (step : ∀ item, item ∈ items → ∀ current, invariant current →
      Ensures (body item) current (fun _ final => invariant final ∧ fact item)) :
    Ensures (items.forM body) state
      (fun _ final => invariant final ∧ ∀ item, item ∈ items → fact item) := by
  induction items generalizing state with
  | nil =>
    refine Ensures.pure ⟨initially, ?_⟩
    intro item member
    cases member
  | cons item rest ih =>
    refine Ensures.bind ?_
    refine (step item List.mem_cons_self state initially).weaken ?_
    rintro _ middle ⟨kept, established⟩
    refine (ih kept
      (fun other member => step other (List.mem_cons_of_mem item member))).weaken ?_
    rintro _ final ⟨keptToEnd, others⟩
    refine ⟨keptToEnd, ?_⟩
    intro other member
    rcases List.mem_cons.mp member with same | later
    · subst same
      exact established
    · exact others other later

theorem forM_history (invariant : List α → σ → Prop) {items earlier : List α}
    (initially : invariant earlier state)
    (step : ∀ item, item ∈ items → ∀ before current, invariant before current →
      Ensures (body item) current (fun _ final => invariant (item :: before) final)) :
    Ensures (items.forM body) state (fun _ final => invariant (items.reverse ++ earlier) final) := by
  induction items generalizing state earlier with
  | nil => exact Ensures.pure initially
  | cons item rest ih =>
    refine Ensures.bind ?_
    refine (step item List.mem_cons_self earlier state initially).weaken ?_
    intro _ middle kept
    rw [List.reverse_cons, List.append_assoc, List.singleton_append]
    exact ih kept (fun other member => step other (List.mem_cons_of_mem item member))

theorem forM_attains (invariant goal : σ → Prop) {items : List α} {key : α} (listed : key ∈ items)
    (initially : invariant state)
    (step : ∀ item, item ∈ items → item ≠ key → ∀ current, invariant current →
      Ensures (body item) current (fun _ final => invariant final))
    (attains : ∀ current, invariant current →
      Ensures (body key) current (fun _ final => goal final))
    (keeps : ∀ item, item ∈ items → ∀ current, goal current →
      Ensures (body item) current (fun _ final => goal final)) :
    Ensures (items.forM body) state (fun _ final => goal final) := by
  induction items generalizing state with
  | nil => cases listed
  | cons item rest ih =>
    refine Ensures.bind ?_
    by_cases reached : item = key
    · subst reached
      refine (attains state initially).weaken ?_
      intro _ middle attained
      exact Ensures.forM goal attained
        (fun other member => keeps other (List.mem_cons_of_mem item member))
    · refine (step item List.mem_cons_self reached state initially).weaken ?_
      intro _ middle kept
      have later : key ∈ rest := (List.mem_cons.mp listed).resolve_left (Ne.symm reached)
      exact ih later kept
        (fun other member => step other (List.mem_cons_of_mem item member))
        (fun other member => keeps other (List.mem_cons_of_mem item member))

/-- As `forM`, with an accumulator that the invariant may mention. -/
theorem foldlM (invariant : β → σ → Prop) {items : List α} {body : β → α → StateT σ (Except ε) β}
    {accumulator : β} (initially : invariant accumulator state)
    (step : ∀ item, item ∈ items → ∀ partialResult current, invariant partialResult current →
      Ensures (body partialResult item) current invariant) :
    Ensures (items.foldlM body accumulator) state invariant := by
  induction items generalizing state accumulator with
  | nil => exact Ensures.pure initially
  | cons item rest ih =>
    rw [List.foldlM_cons]
    refine Ensures.bind ?_
    refine (step item List.mem_cons_self accumulator state initially).weaken ?_
    intro partialResult middle kept
    exact ih kept (fun other member => step other (List.mem_cons_of_mem item member))

end Ensures

/-- A successful run ends as `post` says, and a failed one with an error as `fails` says. -/
structure Yields (computation : StateT σ (Except ε) α) (state : σ) (post : α → σ → Prop)
    (fails : ε → Prop) : Prop where
  succeeded : Ensures computation state post
  failed : ∀ failure, computation state = .error failure → fails failure

namespace Yields

variable {fails : ε → Prop}

variable {state : σ} {post : α → σ → Prop} {computation : StateT σ (Except ε) α}

theorem weaken {weaker : α → σ → Prop} (yields : Yields computation state post fails)
    (implied : ∀ result final, post result final → weaker result final) :
    Yields computation state weaker fails :=
  ⟨yields.succeeded.weaken implied, yields.failed⟩

theorem pure {value : α} (holds : post value state) :
    Yields (Pure.pure value : StateT σ (Except ε) α) state post fails := by
  refine ⟨Ensures.pure holds, ?_⟩
  intro failure ran
  cases ran

theorem throw {failure : ε} (holds : fails failure) :
    Yields (MonadExcept.throw failure : StateT σ (Except ε) α) state post fails := by
  refine ⟨Ensures.throw, ?_⟩
  intro failure' ran
  cases ran
  exact holds

theorem known {final : σ} {value : α} (ran : computation state = .ok (value, final))
    (holds : post value final) : Yields computation state post fails := by
  constructor
  · intro value' final' ran'
    rw [ran] at ran'
    cases ran'
    exact holds
  · intro failure ran'
    rw [ran] at ran'
    cases ran'

theorem bind {first : StateT σ (Except ε) α} {next : α → StateT σ (Except ε) β}
    {post : β → σ → Prop}
    (yields : Yields first state (fun value middle => Yields (next value) middle post fails) fails) :
    Yields (first >>= next) state post fails := by
  constructor
  · exact Ensures.bind (yields.succeeded.weaken (fun _ _ onward => onward.succeeded))
  · intro failure ran
    change (first state >>= fun pair => next pair.1 pair.2) = .error failure at ran
    cases ranFirst : first state with
    | error failure' =>
      rw [ranFirst] at ran
      cases ran
      exact yields.failed failure ranFirst
    | ok pair =>
      rw [ranFirst] at ran
      exact (yields.succeeded pair.1 pair.2 ranFirst).failed failure ran

theorem get {post : σ → σ → Prop} (holds : post state state) :
    Yields (MonadState.get : StateT σ (Except ε) σ) state post fails := by
  refine ⟨Ensures.get holds, ?_⟩
  intro failure ran
  cases ran

theorem update {change : σ → σ} {post : PUnit → σ → Prop} (holds : post PUnit.unit (change state)) :
    Yields (modify change : StateT σ (Except ε) PUnit) state post fails := by
  refine ⟨Ensures.update holds, ?_⟩
  intro failure ran
  cases ran

theorem lift {computation : Except ε α}
    (holds : ∀ value, computation = .ok value → post value state)
    (failed : ∀ failure, computation = .error failure → fails failure) :
    Yields (StateT.lift computation : StateT σ (Except ε) α) state post fails := by
  refine ⟨Ensures.lift holds, ?_⟩
  intro failure ran
  cases computation with
  | error failure' =>
    cases ran
    exact failed failure rfl
  | ok value => cases ran

theorem ite {condition : Prop} [Decidable condition] {yes no : StateT σ (Except ε) α}
    (whenTrue : condition → Yields yes state post fails)
    (whenFalse : ¬ condition → Yields no state post fails) :
    Yields (if condition then yes else no) state post fails := by
  split
  · exact whenTrue (by assumption)
  · exact whenFalse (by assumption)

theorem forM_from (invariant : List α → σ → Prop) {items : List α}
    {body : α → StateT σ (Except ε) PUnit} (before : List α) (initially : invariant before state)
    (step : ∀ item, item ∈ items → ∀ before current, invariant before current →
      Yields (body item) current (fun _ final => invariant (before ++ [item]) final) fails) :
    Yields (items.forM body) state (fun _ final => invariant (before ++ items) final) fails := by
  induction items generalizing state before with
  | nil =>
    apply Yields.pure
    rw [List.append_nil]
    exact initially
  | cons item rest ih =>
    refine Yields.bind ?_
    refine (step item List.mem_cons_self before state initially).weaken ?_
    intro _ middle kept
    have later := ih (before ++ [item]) kept
      (fun other member => step other (List.mem_cons_of_mem item member))
    rw [List.append_assoc, List.singleton_append] at later
    exact later

theorem forM (invariant : List α → σ → Prop) {items : List α}
    {body : α → StateT σ (Except ε) PUnit} (initially : invariant [] state)
    (step : ∀ item, item ∈ items → ∀ before current, invariant before current →
      Yields (body item) current (fun _ final => invariant (before ++ [item]) final) fails) :
    Yields (items.forM body) state (fun _ final => invariant items final) fails := by
  have loop := forM_from invariant [] initially step
  rw [List.nil_append] at loop
  exact loop

theorem total (yields : Yields computation state post (fun _ => False)) :
    ∃ result final, computation state = .ok (result, final) ∧ post result final := by
  cases ran : computation state with
  | error failure => exact (yields.failed failure ran).elim
  | ok pair => exact ⟨pair.1, pair.2, rfl, yields.succeeded pair.1 pair.2 ran⟩

end Yields

theorem bind_eq_ok {first : Except ε α} {next : α → Except ε β} {result : β}
    (succeeded : first >>= next = .ok result) :
    ∃ value, first = .ok value ∧ next value = .ok result := by
  cases first with
  | error failure => cases succeeded
  | ok value => exact ⟨value, rfl, succeeded⟩

theorem forM_ok {items : List α} {body : α → Except ε PUnit}
    (succeeded : items.forM body = .ok PUnit.unit) :
    ∀ item, item ∈ items → body item = .ok PUnit.unit := by
  induction items with
  | nil =>
    intro item member
    cases member
  | cons head rest ih =>
    change (body head >>= fun _ => rest.forM body) = .ok PUnit.unit at succeeded
    cases ran : body head with
    | error failure =>
      rw [ran] at succeeded
      cases succeeded
    | ok value =>
      rw [ran] at succeeded
      intro item member
      rcases List.mem_cons.mp member with same | later
      · subst same
        exact ran
      · exact ih succeeded item later

theorem filterAuxM_ok {α : Type} {items : List α} {test : α → Except ε Bool} {p : α → Bool}
    (tests : ∀ item ∈ items, test item = .ok (p item)) (kept : List α) :
    items.filterAuxM test kept = .ok ((items.filter p).reverse ++ kept) := by
  induction items generalizing kept with
  | nil => rfl
  | cons head rest ih =>
    have tested : (head :: rest).filterAuxM test kept =
        rest.filterAuxM test (cond (p head) (head :: kept) kept) := by
      show test head >>= _ = _
      rw [tests head List.mem_cons_self]
      rfl
    rw [tested, ih (fun item isIn => tests item (List.mem_cons_of_mem head isIn))]
    cases isKept : p head with
    | true => simp [isKept]
    | false => simp [isKept]

theorem filterM_ok {α : Type} {items : List α} {test : α → Except ε Bool} {p : α → Bool}
    (tests : ∀ item ∈ items, test item = .ok (p item)) :
    items.filterM test = .ok (items.filter p) := by
  show items.filterAuxM test [] >>= _ = _
  rw [filterAuxM_ok tests]
  show Except.ok ((items.filter p).reverse ++ []).reverse = _
  rw [List.append_nil, List.reverse_reverse]

theorem filterAuxM_mem {α : Type} {items kept : List α} {test : α → Except ε Bool} {before : List α}
    (ran : items.filterAuxM test before = .ok kept) :
    ∀ item ∈ kept, item ∈ before ∨ item ∈ items := by
  induction items generalizing before with
  | nil =>
    cases ran
    intro item isIn
    exact .inl isIn
  | cons head rest ih =>
    obtain ⟨keeps, _, later⟩ := bind_eq_ok ran
    intro item isIn
    rcases ih later item isIn with isBefore | isLater
    · cases keeps with
      | true =>
        rcases List.mem_cons.mp isBefore with isHead | isBefore
        · exact .inr (isHead ▸ List.mem_cons_self)
        · exact .inl isBefore
      | false => exact .inl isBefore
    · exact .inr (List.mem_cons_of_mem head isLater)

theorem filterM_mem {α : Type} {items kept : List α} {test : α → Except ε Bool}
    (ran : items.filterM test = .ok kept) : ∀ item ∈ kept, item ∈ items := by
  obtain ⟨reversed, loop, result⟩ := bind_eq_ok ran
  cases result
  intro item isIn
  rcases filterAuxM_mem loop item (List.mem_reverse.mp isIn) with isBefore | isIn
  · cases isBefore
  · exact isIn

theorem mapM_eq_ok_iff {α β : Type} {items : List α} {body : α → Except ε β} {results : List β} :
    items.mapM body = .ok results ↔
      List.Forall₂ (fun item result => body item = .ok result) items results := by
  induction items generalizing results with
  | nil =>
    constructor
    · intro ran
      cases ran
      exact .nil
    · intro all
      cases all
      rfl
  | cons head rest ih =>
    rw [List.mapM_cons]
    constructor
    · intro ran
      obtain ⟨result, isResult, later⟩ := bind_eq_ok ran
      obtain ⟨others, areOthers, isAll⟩ := bind_eq_ok later
      cases isAll
      exact .cons isResult (ih.mp areOthers)
    · intro all
      cases all with
      | cons isResult areOthers =>
        rw [isResult, ih.mpr areOthers]
        rfl

end NoidaDb.Lib
