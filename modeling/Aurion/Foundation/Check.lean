import Mathlib.Data.List.Basic

/-!
# Checks that may fail

A validator is a sequence of checks, each of which passes or names its fault.
The lemmas say when a sequence, a repetition or a relabelling of checks passes,
and the same for checks that thread a state.
-/

namespace Foundation

variable {Fault Value Next : Type}

/-- Pass when the condition holds. -/
def ensure (condition : Prop) [Decidable condition] (fault : Fault) : Except Fault Unit :=
  if condition then .ok () else .error fault

@[simp]
theorem ensure_eq_ok_iff (condition : Prop) [Decidable condition] (fault : Fault)
    (result : Unit) : ensure condition fault = .ok result ↔ condition := by
  unfold ensure
  split <;> simp [*]

theorem except_bind_eq_ok_iff (first : Except Fault Value) (next : Value → Except Fault Next)
    (value : Next) :
    (first >>= next) = .ok value ↔ ∃ head, first = .ok head ∧ next head = .ok value := by
  cases first <;> simp [bind, Except.bind]

@[simp]
theorem except_error_bind (fault : Fault) (next : Value → Except Fault Next) :
    (.error fault : Except Fault Value) >>= next = .error fault := rfl

@[simp]
theorem except_ok_bind (value : Value) (next : Value → Except Fault Next) :
    (.ok value : Except Fault Value) >>= next = next value := rfl

theorem except_pure_eq_ok_iff (value value' : Value) :
    (pure value : Except Fault Value) = .ok value' ↔ value = value' := by
  simp [pure, Except.pure]

/-- A sequence of two checks passes when both do. -/
theorem check_bind_eq_ok_iff (first : Except Fault Unit) (next : Except Fault Value)
    (value : Value) :
    (first >>= fun _ => next) = .ok value ↔ first = .ok () ∧ next = .ok value := by
  rw [except_bind_eq_ok_iff]
  exact ⟨fun ⟨_, passed, rest⟩ => ⟨passed, rest⟩, fun ⟨passed, rest⟩ => ⟨(), passed, rest⟩⟩

@[simp]
theorem mapError_eq_ok_iff {Fault' : Type} (relabel : Fault → Fault') (check : Except Fault Value)
    (value : Value) : check.mapError relabel = .ok value ↔ check = .ok value := by
  cases check <;> simp [Except.mapError]

theorem except_map_eq_ok_iff (transform : Value → Next) (check : Except Fault Value)
    (value : Next) :
    check.map transform = .ok value ↔ ∃ head, check = .ok head ∧ transform head = value := by
  cases check <;> simp [Except.map]

@[simp]
theorem toOption_eq_some_iff (check : Except Fault Value) (value : Value) :
    check.toOption = some value ↔ check = .ok value := by
  cases check <;> simp [Except.toOption]

theorem forM_eq_ok_iff (check : Value → Except Fault Unit) (values : List Value) :
    values.forM check = .ok () ↔ ∀ value ∈ values, check value = .ok () := by
  induction values with
  | nil => simp [List.forM, pure, Except.pure]
  | cons head tail inductionHypothesis =>
      change (check head >>= fun _ => tail.forM check) = _ ↔ _
      rw [check_bind_eq_ok_iff, inductionHypothesis, List.forall_mem_cons]

/-- Checks with known results, made one after another. -/
theorem mapM_eq_ok_iff {check : Value → Except Fault Next} {passes : Value → Prop}
    {result : Value → Next}
    (spec : ∀ value out, check value = .ok out ↔ passes value ∧ result value = out)
    (values : List Value) (results : List Next) :
    values.mapM check = .ok results ↔
      (∀ value ∈ values, passes value) ∧ values.map result = results := by
  induction values generalizing results with
  | nil => simp [pure, Except.pure]
  | cons head tail inductionHypothesis =>
      simp only [List.mapM_cons, except_bind_eq_ok_iff, except_pure_eq_ok_iff, spec,
        inductionHypothesis, List.forall_mem_cons, List.map_cons]
      constructor
      · intro ran
        rcases ran with ⟨_, ⟨headPasses, rfl⟩, _, ⟨tailPasses, rfl⟩, same⟩
        exact ⟨⟨headPasses, tailPasses⟩, same⟩
      · intro passed
        exact ⟨_, ⟨passed.1.1, rfl⟩, _, ⟨passed.1.2, rfl⟩, passed.2⟩

section Fault

variable {allowed : Fault → Prop}

/-- Every fault that the check can name is an allowed one. -/
def FailsOnly (allowed : Fault → Prop) (check : Except Fault Value) : Prop :=
  ∀ fault, check = .error fault → allowed fault

theorem FailsOnly.ok (value : Value) : FailsOnly allowed (.ok value) := by
  intro fault failed
  cases failed

theorem FailsOnly.error {fault : Fault} (isAllowed : allowed fault) :
    FailsOnly allowed (.error fault : Except Fault Value) := by
  intro fault' failed
  cases failed
  exact isAllowed

theorem FailsOnly.ensure {condition : Prop} [Decidable condition] {fault : Fault}
    (isAllowed : allowed fault) : FailsOnly allowed (ensure condition fault) := by
  unfold Foundation.ensure
  split
  · exact FailsOnly.ok ()
  · exact FailsOnly.error isAllowed

theorem FailsOnly.bind {first : Except Fault Value} {next : Value → Except Fault Next}
    (head : FailsOnly allowed first)
    (tail : ∀ value, first = .ok value → FailsOnly allowed (next value)) :
    FailsOnly allowed (first >>= next) := by
  cases first with
  | error fault => exact FailsOnly.error (head fault rfl)
  | ok value => exact tail value rfl

theorem FailsOnly.map {check : Except Fault Value} (fails : FailsOnly allowed check)
    (transform : Value → Next) : FailsOnly allowed (check.map transform) := by
  cases check with
  | error fault => exact FailsOnly.error (fails fault rfl)
  | ok value => exact FailsOnly.ok _

end Fault

section State

variable {State : Type}

theorem stateT_bind_eq_ok_iff (first : StateT State (Except Fault) Value)
    (next : Value → StateT State (Except Fault) Next) (before after : State) (value : Next) :
    (first >>= next) before = .ok (value, after) ↔
      ∃ head middle, first before = .ok (head, middle) ∧ next head middle = .ok (value, after) := by
  change (first before >>= fun result => next result.1 result.2) = _ ↔ _
  rw [except_bind_eq_ok_iff, Prod.exists]

theorem stateT_pure_eq_ok_iff (value value' : Value) (before after : State) :
    (pure value : StateT State (Except Fault) Value) before = .ok (value', after) ↔
      value = value' ∧ before = after := by
  change Except.ok (value, before) = _ ↔ _
  simp

theorem stateT_throw_ne_ok (fault : Fault) (value : Value) (before after : State) :
    (throw fault : StateT State (Except Fault) Value) before ≠ .ok (value, after) := by
  change Except.error fault ≠ _
  simp

/-- A check that leaves the state alone. -/
def stateless (check : Except Fault Value) : StateT State (Except Fault) Value := fun state =>
  check.map fun value => (value, state)

theorem stateless_eq_ok_iff (check : Except Fault Value) (value : Value) (before after : State) :
    stateless check before = .ok (value, after) ↔ check = .ok value ∧ before = after := by
  cases check <;> simp [stateless, Except.map]

@[simp]
theorem stateless_ok_bind (value : Value)
    (next : Value → StateT State (Except Fault) Next) :
    stateless (.ok value) >>= next = next value := rfl

end State

section Query

variable {m : Type → Type} [Monad m]

/-- A pure check among the steps of a validator that also asks questions. -/
def settle (check : Except Fault Value) : ExceptT Fault m Value := ExceptT.mk (pure check)

/-- The outcome of a validator whose questions are answered by a function. -/
def outcome (validator : ExceptT Fault Id Value) : Except Fault Value := Id.run validator.run

theorem outcome_bind (first : ExceptT Fault Id Value) (next : Value → ExceptT Fault Id Next) :
    outcome (first >>= next) = outcome first >>= fun head => outcome (next head) := by
  simp only [outcome, ExceptT.run_bind, Id.run_bind]
  cases Id.run first.run <;> rfl

theorem outcome_bind_eq_ok_iff (first : ExceptT Fault Id Value)
    (next : Value → ExceptT Fault Id Next) (value : Next) :
    outcome (first >>= next) = .ok value ↔
      ∃ head, outcome first = .ok head ∧ outcome (next head) = .ok value := by
  rw [outcome_bind, except_bind_eq_ok_iff]

@[simp]
theorem outcome_settle (check : Except Fault Value) : outcome (settle check) = check := rfl

@[simp]
theorem outcome_lift (answer : Id Value) :
    outcome (ExceptT.lift answer : ExceptT Fault Id Value) = .ok answer.run := rfl

@[simp]
theorem outcome_pure (value : Value) :
    outcome (pure value : ExceptT Fault Id Value) = .ok value := rfl

theorem outcome_adapt {Fault' : Type} (relabel : Fault → Fault')
    (validator : ExceptT Fault Id Value) :
    outcome (validator.adapt relabel) = (outcome validator).mapError relabel := rfl

end Query

end Foundation
