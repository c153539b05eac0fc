import Mathlib.Data.List.Basic

/-!
# Programs of stack operations

An operation replaces a fixed number of values on top of a stack by a fixed number
of new ones, or fails.  A sequence of operations has no jumps, so the height of the
stack behind it decides the height before it, and values that lie deeper than that
stay as they are.
-/

namespace Foundation

variable {Value : Type}

/-- A fixed number of values. -/
abbrev Values (Value : Type) (count : Nat) := {values : List Value // values.length = count}

/-- An operation of a stack.  It sees the values that it takes and no others. -/
structure StackOperation (Value : Type) where
  taken : Nat
  given : Nat
  act : List Value → Option (List Value)
  short : ∀ stack : List Value, stack.length < taken → act stack = none
  framed : ∀ popped rest : List Value, popped.length = taken →
    act (popped ++ rest) = (act popped).map fun pushed => pushed ++ rest
  sized : ∀ popped pushed : List Value, popped.length = taken → act popped = some pushed →
    pushed.length = given

namespace StackOperation

/-- The operation that puts the given values onto the stack. -/
def nullary (given : Nat) (result : Option (Values Value given)) :
    StackOperation Value where
  taken := 0
  given := given
  act := fun stack => result.map fun pushed => pushed.val ++ stack
  short := by
    intro stack short
    exact absurd short (Nat.not_lt_zero _)
  framed := by
    intro popped rest _
    cases result <;> simp
  sized := by
    intro popped pushed length acted
    obtain ⟨values, -, rfl⟩ := Option.map_eq_some_iff.mp acted
    rw [List.length_append, length, values.property, Nat.add_zero]

@[simp]
theorem nullary_some (given : Nat) (pushed : Values Value given) (stack : List Value) :
    (nullary given (some pushed)).act stack = some (pushed.val ++ stack) := rfl

@[simp]
theorem nullary_none (given : Nat) (stack : List Value) :
    (nullary given (none : Option (Values Value given))).act stack = none := rfl

/-- The operation that replaces the value on top. -/
def unary (given : Nat) (result : Value → Option (Values Value given)) :
    StackOperation Value where
  taken := 1
  given := given
  act := fun
    | [] => none
    | item :: rest => (nullary given (result item)).act rest
  short := by
    intro stack short
    rw [List.length_eq_zero_iff.mp (Nat.lt_one_iff.mp short)]
  framed := by
    intro popped rest length
    obtain ⟨item, rfl⟩ := List.length_eq_one_iff.mp length
    exact (nullary given (result item)).framed [] rest rfl
  sized := by
    intro popped pushed length acted
    obtain ⟨item, rfl⟩ := List.length_eq_one_iff.mp length
    exact (nullary given (result item)).sized [] pushed rfl acted

@[simp]
theorem unary_nil (given : Nat) (result : Value → Option (Values Value given)) :
    (unary given result).act [] = none := rfl

@[simp]
theorem unary_cons (given : Nat) (result : Value → Option (Values Value given))
    (item : Value) (rest : List Value) :
    (unary given result).act (item :: rest) = (nullary given (result item)).act rest := rfl

/-- The operation that replaces the two values on top. -/
def binary (given : Nat) (result : Value → Value → Option (Values Value given)) :
    StackOperation Value where
  taken := 2
  given := given
  act := fun
    | first :: second :: rest => (nullary given (result first second)).act rest
    | _ => none
  short := by
    intro stack short
    match stack, short with
    | [], _ => rfl
    | [_], _ => rfl
  framed := by
    intro popped rest length
    obtain ⟨first, second, rfl⟩ := List.length_eq_two.mp length
    exact (nullary given (result first second)).framed [] rest rfl
  sized := by
    intro popped pushed length acted
    obtain ⟨first, second, rfl⟩ := List.length_eq_two.mp length
    exact (nullary given (result first second)).sized [] pushed rfl acted

@[simp]
theorem binary_nil (given : Nat) (result : Value → Value → Option (Values Value given)) :
    (binary given result).act [] = none := rfl

@[simp]
theorem binary_single (given : Nat) (result : Value → Value → Option (Values Value given))
    (item : Value) : (binary given result).act [item] = none := rfl

@[simp]
theorem binary_cons (given : Nat) (result : Value → Value → Option (Values Value given))
    (first second : Value) (rest : List Value) :
    (binary given result).act (first :: second :: rest) =
      (nullary given (result first second)).act rest := rfl

variable (operation : StackOperation Value)

/-- What an operation does, taken apart at the values that it sees. -/
theorem act_eq_some_iff (before after : List Value) :
    operation.act before = some after ↔
      ∃ popped pushed rest, before = popped ++ rest ∧ popped.length = operation.taken ∧
        operation.act popped = some pushed ∧ after = pushed ++ rest := by
  constructor
  · intro acted
    have enough : operation.taken ≤ before.length := by
      by_contra short
      rw [operation.short before (Nat.not_le.mp short)] at acted
      cases acted
    have length : (before.take operation.taken).length = operation.taken := by
      rw [List.length_take, Nat.min_eq_left enough]
    have split := before.take_append_drop operation.taken
    rw [← split, operation.framed _ _ length] at acted
    obtain ⟨pushed, seen, rfl⟩ := Option.map_eq_some_iff.mp acted
    exact ⟨_, pushed, _, split.symm, length, seen, rfl⟩
  · rintro ⟨popped, pushed, rest, rfl, length, acted, rfl⟩
    rw [operation.framed popped rest length, acted]
    rfl

theorem length_of_act {before after : List Value} (acted : operation.act before = some after) :
    operation.taken ≤ before.length ∧
      after.length + operation.taken = before.length + operation.given := by
  obtain ⟨popped, pushed, rest, rfl, length, seen, rfl⟩ :=
    (operation.act_eq_some_iff before after).mp acted
  have sized := operation.sized popped pushed length seen
  simp only [List.length_append]
  omega

/-- On top of good values the operation puts only good ones. -/
def Keeps (good : Value → Prop) (operation : StackOperation Value) : Prop :=
  ∀ before after, operation.act before = some after →
    (∀ item ∈ before, good item) → ∀ item ∈ after, good item

section Keeps

variable {good : Value → Prop} {given : Nat}

theorem Keeps.nullary {result : Option (Values Value given)}
    (pushed : ∀ values, result = some values → ∀ item ∈ values.val, good item) :
    Keeps good (nullary given result) := by
  intro before after acted start
  obtain ⟨values, isResult, rfl⟩ := Option.map_eq_some_iff.mp acted
  exact List.forall_mem_append.mpr ⟨pushed values isResult, start⟩

theorem Keeps.unary {result : Value → Option (Values Value given)}
    (pushed : ∀ item, good item → ∀ values, result item = some values →
      ∀ item ∈ values.val, good item) : Keeps good (unary given result) := by
  intro before after acted start
  match before, acted with
  | item :: rest, acted =>
      rw [List.forall_mem_cons] at start
      exact Keeps.nullary (pushed item start.1) rest after acted start.2

theorem Keeps.binary {result : Value → Value → Option (Values Value given)}
    (pushed : ∀ first second, good first → good second → ∀ values,
      result first second = some values → ∀ item ∈ values.val, good item) :
    Keeps good (binary given result) := by
  intro before after acted start
  match before, acted with
  | first :: second :: rest, acted =>
      rw [List.forall_mem_cons, List.forall_mem_cons] at start
      exact Keeps.nullary (pushed first second start.1 start.2.1) rest after acted start.2.2

end Keeps

end StackOperation

/-- The operations one after another, up to the first that fails. -/
def runStack (program : List (StackOperation Value)) (stack : List Value) :
    Option (List Value) :=
  match program with
  | [] => some stack
  | operation :: program => (operation.act stack).bind (runStack program)

@[simp]
theorem runStack_nil (stack : List Value) : runStack [] stack = some stack := rfl

@[simp]
theorem runStack_cons (operation : StackOperation Value) (program : List (StackOperation Value))
    (stack : List Value) :
    runStack (operation :: program) stack = (operation.act stack).bind (runStack program) := rfl

theorem runStack_append (first second : List (StackOperation Value)) (stack : List Value) :
    runStack (first ++ second) stack = (runStack first stack).bind (runStack second) := by
  induction first generalizing stack with
  | nil => rfl
  | cons operation program inductionHypothesis =>
      rw [List.cons_append, runStack_cons, runStack_cons, Option.bind_assoc]
      congr 1
      funext middle
      exact inductionHypothesis middle

/-- How many values an operation takes and how many it gives. -/
def StackOperation.effect (operation : StackOperation Value) : Nat × Nat :=
  (operation.taken, operation.given)

/-- The height of the stack before operations with the given effects that leave a
stack of some height. -/
def heightBefore (effects : List (Nat × Nat)) (after : Nat) : Option Nat :=
  match effects with
  | [] => some after
  | effect :: effects =>
      (heightBefore effects after).bind fun middle =>
        if effect.2 ≤ middle then some (middle - effect.2 + effect.1) else none

theorem heightBefore_cons_eq_some_iff (effect : Nat × Nat) (effects : List (Nat × Nat))
    (after before : Nat) :
    heightBefore (effect :: effects) after = some before ↔
      ∃ middle, heightBefore effects after = some middle ∧ effect.2 ≤ middle ∧
        effect.1 ≤ before ∧ before + effect.2 = middle + effect.1 := by
  rw [heightBefore, Option.bind_eq_some_iff]
  constructor
  · rintro ⟨middle, rest, height⟩
    split at height
    next enough =>
        rw [Option.some.injEq] at height
        exact ⟨middle, rest, enough, by omega, by omega⟩
    next => cases height
  · rintro ⟨middle, rest, enough, taken, balance⟩
    refine ⟨middle, rest, ?_⟩
    rw [if_pos enough, Option.some.injEq]
    omega

/-- Different heights behind operations come from different heights before them. -/
theorem heightBefore_injective {effects : List (Nat × Nat)} {left right before : Nat}
    (leftHeight : heightBefore effects left = some before)
    (rightHeight : heightBefore effects right = some before) : left = right := by
  induction effects generalizing before with
  | nil =>
      cases leftHeight
      cases rightHeight
      rfl
  | cons effect effects inductionHypothesis =>
      rw [heightBefore_cons_eq_some_iff] at leftHeight rightHeight
      obtain ⟨leftMiddle, leftRest, -, -, leftBalance⟩ := leftHeight
      obtain ⟨rightMiddle, rightRest, -, -, rightBalance⟩ := rightHeight
      have same : leftMiddle = rightMiddle := by omega
      exact inductionHypothesis leftRest (same ▸ rightRest)

/-- A program that runs to its end starts at the height that its operations tell. -/
theorem heightBefore_of_run {program : List (StackOperation Value)} {before after : List Value}
    (ran : runStack program before = some after) :
    heightBefore (program.map StackOperation.effect) after.length = some before.length := by
  induction program generalizing before with
  | nil =>
      cases ran
      rfl
  | cons operation program inductionHypothesis =>
      rw [runStack_cons, Option.bind_eq_some_iff] at ran
      obtain ⟨middle, acted, ran⟩ := ran
      have lengths := operation.length_of_act acted
      rw [List.map_cons, heightBefore_cons_eq_some_iff]
      refine ⟨middle.length, inductionHypothesis ran, ?_⟩
      simp only [StackOperation.effect]
      omega

end Foundation
