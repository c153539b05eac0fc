import Aurion.Primitives

/-!
# The script stack
-/

namespace Aurion

open Foundation

def maxStackDepth : Nat := 1024

def maxElementSize : Nat := 520

inductive ScriptError
  | stackUnderflow
  | stackOverflow (limit : Nat)
  | elementTooLarge (size max : Nat)
  | maxOpCountExceeded (limit : Nat)
  | invalidOpCode (opByte : UInt8)
  | verifyFailed
  | equalVerifyFailed
  | opReturnTriggered
  | emptyStackOnTermination
  | scriptFailed
  | arithmeticOverflow
  | unexpectedEof
  | contextUnavailable
  | indexOutOfBounds (index : Nat)
  deriving DecidableEq, Repr

def ScriptError.message : ScriptError → String
  | .stackUnderflow => "stack underflow: attempted to pop from an empty stack"
  | .stackOverflow limit =>
      "stack overflow: stack depth exceeded maximum limit (" ++ toString limit ++ ")"
  | .elementTooLarge size max =>
      "element size limit exceeded: item size " ++ toString size ++ " > max " ++ toString max
  | .maxOpCountExceeded limit => "opcode count limit exceeded: " ++ toString limit
  | .invalidOpCode opByte => "unknown or unsupported opcode: " ++ hexByte opByte
  | .verifyFailed => "OP_VERIFY failed: top stack element evaluated to false"
  | .equalVerifyFailed => "OP_EQUALVERIFY failed: elements are not equal"
  | .opReturnTriggered => "OP_RETURN executed: script explicitly marked unspendable"
  | .emptyStackOnTermination => "script evaluation completed with empty stack"
  | .scriptFailed => "script execution failed: top stack element evaluated to false"
  | .arithmeticOverflow => "arithmetic overflow during script math execution"
  | .unexpectedEof => "unexpected end of script bytes during pushdata read"
  | .contextUnavailable => "introspection context unavailable"
  | .indexOutOfBounds index => "index out of bounds: " ++ toString index

/-- A stack, its top element first.  Both limits hold by construction. -/
structure Stack where
  items : List Bytes
  depth : items.length ≤ maxStackDepth
  sizes : ∀ item ∈ items, item.length ≤ maxElementSize
  deriving DecidableEq

/-- A computation on the stack that may fail. -/
abbrev ScriptM (Value : Type) := StateT Stack (Except ScriptError) Value

namespace Stack

@[ext]
theorem ext {left right : Stack} (same : left.items = right.items) : left = right := by
  cases left
  cases right
  simpa using same

def empty : Stack := ⟨[], by simp, by simp⟩

def push (item : Bytes) : ScriptM Unit := fun stack =>
  if full : stack.items.length ≥ maxStackDepth then .error (.stackOverflow maxStackDepth)
  else if large : item.length > maxElementSize then
    .error (.elementTooLarge item.length maxElementSize)
  else
    .ok ((), {
      items := item :: stack.items
      depth := by simp only [List.length_cons]; omega
      sizes := by
        intro element membership
        rcases List.mem_cons.mp membership with rfl | below
        · omega
        · exact stack.sizes element below })

def pop : ScriptM Bytes := fun stack =>
  match found : stack.items with
  | [] => .error .stackUnderflow
  | item :: rest =>
      .ok (item, {
        items := rest
        depth := by
          have depth := stack.depth
          simp only [found, List.length_cons] at depth
          omega
        sizes := fun element membership =>
          stack.sizes element (found ▸ List.mem_cons_of_mem _ membership) })

def peek : ScriptM Bytes := fun stack =>
  match stack.items with
  | [] => .error .stackUnderflow
  | item :: _ => .ok (item, stack)

def dup : ScriptM Unit := do
  let top ← peek
  push top

def drop : ScriptM Unit := do
  let _ ← pop
  pure ()

/-- Exchange the two top elements. -/
def swap : ScriptM Unit := fun stack =>
  match found : stack.items with
  | first :: second :: rest =>
      .ok ((), {
        items := second :: first :: rest
        depth := by
          have depth := stack.depth
          simpa [found] using depth
        sizes := by
          have sizes := stack.sizes
          simp only [found, List.mem_cons, forall_eq_or_imp] at sizes ⊢
          exact ⟨sizes.2.1, sizes.1, sizes.2.2⟩ })
  | _ => .error .stackUnderflow

theorem push_eq_ok_iff (item : Bytes) (before after : Stack) (result : Unit) :
    push item before = .ok (result, after) ↔ after.items = item :: before.items := by
  have depth := after.depth
  have sizes := after.sizes
  unfold push
  constructor
  · intro pushed
    split at pushed
    · cases pushed
    · split at pushed
      · cases pushed
      · cases pushed
        rfl
  · intro shape
    simp only [shape, List.length_cons, List.mem_cons, forall_eq_or_imp] at depth sizes
    rw [dif_neg (by omega), dif_neg (by omega)]
    congr 2
    exact Stack.ext shape.symm

theorem pop_eq_ok_iff (before after : Stack) (item : Bytes) :
    pop before = .ok (item, after) ↔ before.items = item :: after.items := by
  unfold pop
  split
  next empty => simp [empty]
  next top rest found =>
      rw [Except.ok.injEq, Prod.mk.injEq, found.congr_left, List.cons.injEq, Stack.ext_iff]

theorem peek_eq_ok_iff (before after : Stack) (item : Bytes) :
    peek before = .ok (item, after) ↔ before = after ∧ ∃ rest, before.items = item :: rest := by
  unfold peek
  split
  next empty => simp [empty]
  next top rest found => simp [found, and_comm]

theorem swap_eq_ok_iff (before after : Stack) (result : Unit) :
    swap before = .ok (result, after) ↔
      ∃ first second rest, before.items = first :: second :: rest ∧
        after.items = second :: first :: rest := by
  unfold swap
  split
  next first second rest found =>
      rw [Except.ok.injEq, Prod.mk.injEq]
      constructor
      · intro same
        rcases same with ⟨-, rfl⟩
        exact ⟨first, second, rest, found, rfl⟩
      · intro exchanged
        rcases exchanged with ⟨first', second', rest', shape, result⟩
        rw [found] at shape
        cases shape
        exact ⟨rfl, Stack.ext result.symm⟩
  next few =>
      simp only [reduceCtorEq, false_iff]
      intro exchanged
      rcases exchanged with ⟨first, second, rest, shape, -⟩
      exact few first second rest shape

end Stack

section Effect

/-- On success the computation replaces `taken` elements on top by `given` ones
and leaves those below alone. -/
def Effect {Value : Type} (taken given : Nat) (program : ScriptM Value) : Prop :=
  ∀ before value after, program before = .ok (value, after) →
    ∃ popped pushed rest, before.items = popped ++ rest ∧ after.items = pushed ++ rest ∧
      popped.length = taken ∧ pushed.length = given

variable {Value Next : Type} {taken given : Nat}

theorem Effect.pure (value : Value) : Effect 0 0 (pure value : ScriptM Value) := by
  intro before value' after ran
  rw [stateT_pure_eq_ok_iff] at ran
  exact ⟨[], [], before.items, rfl, by simp [ran.2], rfl, rfl⟩

theorem Effect.throw (error : ScriptError) : Effect taken given (throw error : ScriptM Value) :=
  fun _ _ _ ran => absurd ran (stateT_throw_ne_ok _ _ _ _)

theorem Effect.push (item : Bytes) : Effect 0 1 (Stack.push item) := by
  intro before _ after ran
  rw [Stack.push_eq_ok_iff] at ran
  exact ⟨[], [item], before.items, rfl, ran, rfl, rfl⟩

theorem Effect.stateless {check : Except ScriptError Value} {next : Value → ScriptM Next}
    (rest : ∀ value, Effect taken given (next value)) :
    Effect taken given (stateless check >>= next) := by
  intro before value after ran
  simp only [stateT_bind_eq_ok_iff, stateless_eq_ok_iff] at ran
  rcases ran with ⟨head, _, ⟨-, rfl⟩, ran⟩
  exact rest head before value after ran

theorem Effect.check (check : Except ScriptError Value) :
    Effect 0 0 (Foundation.stateless check) := by
  intro before value after ran
  rw [stateless_eq_ok_iff] at ran
  exact ⟨[], [], before.items, rfl, by simp [ran.2], rfl, rfl⟩

theorem Effect.map {program : ScriptM Value} (effect : Effect taken given program)
    (result : Next) : Effect taken given (program >>= fun _ => Pure.pure result) := by
  intro before value after ran
  simp only [stateT_bind_eq_ok_iff, stateT_pure_eq_ok_iff] at ran
  rcases ran with ⟨head, _, ran, -, rfl⟩
  exact effect before head _ ran

theorem Effect.pop {next : Bytes → ScriptM Next}
    (rest : ∀ item, Effect taken given (next item)) :
    Effect (taken + 1) given (Stack.pop >>= next) := by
  intro before value after ran
  simp only [stateT_bind_eq_ok_iff, Stack.pop_eq_ok_iff] at ran
  rcases ran with ⟨item, middle, shape, ran⟩
  rcases rest item middle value after ran with
    ⟨popped, pushed, below, middleShape, afterShape, poppedLength, pushedLength⟩
  exact ⟨item :: popped, pushed, below, by rw [shape, middleShape]; rfl, afterShape,
    by simp [poppedLength], pushedLength⟩

theorem Effect.dup : Effect 0 1 Stack.dup := by
  intro before value after ran
  simp only [Stack.dup, stateT_bind_eq_ok_iff, Stack.peek_eq_ok_iff, Stack.push_eq_ok_iff] at ran
  rcases ran with ⟨top, _, ⟨rfl, -⟩, shape⟩
  exact ⟨[], [top], before.items, rfl, shape, rfl, rfl⟩

theorem Effect.swap : Effect 2 2 Stack.swap := by
  intro before value after ran
  rw [Stack.swap_eq_ok_iff] at ran
  rcases ran with ⟨first, second, rest, beforeShape, afterShape⟩
  exact ⟨[first, second], [second, first], rest, beforeShape, afterShape, rfl, rfl⟩

end Effect

end Aurion
