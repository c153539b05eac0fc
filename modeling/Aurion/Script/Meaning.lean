import Aurion.Foundation.StackProgram
import Aurion.Script.Assembly
import Aurion.Script.Limits

/-!
# What a script means

A script means a sequence of stack operations on plain lists, with no bytes to
decode, no count of operations and no bound on the stack.  The engine accepts a
contract exactly when the operations lead from the injected elements to a single
true one.
-/

namespace Aurion

open Foundation

/-- The computation and the operation succeed on the same stacks with the same
result. -/
def Denotes (program : ScriptM Unit) (act : List Bytes → Option (List Bytes)) : Prop :=
  ∀ before after : Stack,
    program before = .ok ((), after) ↔ act before.items = some after.items

namespace Denotes

variable {Value : Type} {given : Nat}

/-- The stack without the element on top. -/
def below (stack : Stack) : Stack where
  items := stack.items.tail
  depth := stack.items.length_tail.trans_le ((Nat.sub_le _ _).trans stack.depth)
  sizes := fun item membership => stack.sizes item (List.mem_of_mem_tail membership)

theorem pure : Denotes (pure ()) (StackOperation.nullary 0 (some ⟨[], rfl⟩)).act := by
  intro before after
  rw [stateT_pure_eq_ok_iff]
  simp [Stack.ext_iff]

theorem throw (error : ScriptError) :
    Denotes (throw error) (StackOperation.nullary 0 none).act := by
  intro before after
  exact iff_of_false (stateT_throw_ne_ok _ _ _ _) nofun

theorem push (item : Bytes) :
    Denotes (Stack.push item) (StackOperation.nullary 1 (some ⟨[item], rfl⟩)).act := by
  intro before after
  rw [Stack.push_eq_ok_iff]
  simp [eq_comm]

theorem check (condition : Prop) [Decidable condition] (error : ScriptError) :
    Denotes (stateless (ensure condition error))
      (StackOperation.nullary 0 (if condition then some ⟨[], rfl⟩ else none)).act := by
  intro before after
  rw [stateless_eq_ok_iff, ensure_eq_ok_iff]
  by_cases holds : condition <;> simp [holds, Stack.ext_iff]

theorem stateless {check : Except ScriptError Value} {next : Value → ScriptM Unit}
    {result : Value → Option (Values Bytes given)}
    (rest : ∀ value, Denotes (next value) (StackOperation.nullary given (result value)).act) :
    Denotes (stateless check >>= next)
      (StackOperation.nullary given (check.toOption.bind result)).act := by
  intro before after
  simp only [stateT_bind_eq_ok_iff, stateless_eq_ok_iff]
  cases check with
  | error error => simp [Except.toOption]
  | ok value =>
      rw [Except.toOption, Option.bind_some, ← rest value before after]
      simp

theorem unary {next : Bytes → ScriptM Unit} {result : Bytes → Option (Values Bytes given)}
    (rest : ∀ item, Denotes (next item) (StackOperation.nullary given (result item)).act) :
    Denotes (Stack.pop >>= next) (StackOperation.unary given result).act := by
  intro before after
  simp only [stateT_bind_eq_ok_iff, Stack.pop_eq_ok_iff]
  cases shape : before.items with
  | nil => simp
  | cons item items =>
      have popped : (below before).items = items := by simp [below, shape]
      constructor
      · rintro ⟨item', middle, same, ran⟩
        obtain ⟨rfl, rfl⟩ := List.cons.inj same
        exact (rest item middle after).mp ran
      · intro acted
        refine ⟨item, below before, by rw [popped], ?_⟩
        rw [rest item (below before) after, popped]
        exact acted

theorem binary {next : Bytes → Bytes → ScriptM Unit}
    {result : Bytes → Bytes → Option (Values Bytes given)}
    (rest : ∀ first second,
      Denotes (next first second) (StackOperation.nullary given (result first second)).act) :
    Denotes (Stack.pop >>= fun first => Stack.pop >>= next first)
      (StackOperation.binary given result).act := by
  intro before after
  simp only [stateT_bind_eq_ok_iff, Stack.pop_eq_ok_iff]
  match shape : before.items with
  | [] => simp
  | [item] =>
      simp only [StackOperation.binary_single, reduceCtorEq, iff_false]
      rintro ⟨first, middle, top, second, middle', deeper, -⟩
      rw [deeper] at top
      cases top
  | first :: second :: items =>
      have popped : (below (below before)).items = items := by simp [below, shape]
      constructor
      · rintro ⟨first', middle, top, second', middle', deeper, ran⟩
        rw [deeper] at top
        cases top
        exact (rest first second middle' after).mp ran
      · intro acted
        refine ⟨first, below before, by simp [below, shape], second, below (below before),
          by simp [below, shape], ?_⟩
        rw [rest first second (below (below before)) after, popped]
        exact acted

theorem dup :
    Denotes Stack.dup (StackOperation.unary 2 fun top => some ⟨[top, top], rfl⟩).act := by
  intro before after
  simp only [Stack.dup, stateT_bind_eq_ok_iff, Stack.peek_eq_ok_iff, Stack.push_eq_ok_iff]
  cases shape : before.items with
  | nil => simp [shape]
  | cons top items =>
      simp only [StackOperation.unary_cons, StackOperation.nullary_some, Option.some.injEq]
      constructor
      · rintro ⟨top', middle, ⟨rfl, rest, same⟩, pushed⟩
        cases same
        rw [pushed, shape]
        rfl
      · intro pushed
        exact ⟨top, before, ⟨rfl, items, rfl⟩, by rw [← pushed, shape]; rfl⟩

theorem swap :
    Denotes Stack.swap
      (StackOperation.binary 2 fun first second => some ⟨[second, first], rfl⟩).act := by
  intro before after
  rw [Stack.swap_eq_ok_iff]
  match before.items with
  | [] => simp
  | [item] => simp
  | first :: second :: items => simp [eq_comm]

end Denotes

/-- One element as the result of an operation. -/
def single (item : Bytes) : Values Bytes 1 := ⟨[item], rfl⟩

/-- No element as the result of an operation that may fail. -/
def required (condition : Prop) [Decidable condition] : Option (Values Bytes 0) :=
  if condition then some ⟨[], rfl⟩ else none

/-- Arithmetic on the two elements on top, the second operand first. -/
def arithmetic (operate : Int → Int → Int) (bBytes aBytes : Bytes) : Option (Values Bytes 1) :=
  (decodeScriptInt aBytes).toOption.bind fun aVal =>
    (decodeScriptInt bBytes).toOption.bind fun bVal =>
      (encodeScriptInt (operate aVal bVal)).toOption.bind fun result => some (single result)

/-- How many elements an instruction sees and how many it leaves in their place. -/
def Instruction.arity : Instruction → Nat × Nat
  | .push _ => (0, 1)
  | .op .opDup => (1, 2)
  | .op code => code.effect

/-- An instruction makes the stack higher by one element at most. -/
theorem Instruction.arity_le (instruction : Instruction) :
    instruction.arity.2 ≤ instruction.arity.1 + 1 := by
  cases instruction with
  | push pushed => exact Nat.le_refl _
  | op code => cases code <;> decide

namespace ScriptEngine

variable [Crypto] (engine : ScriptEngine)

/-- A number of the context, in 32 bits. -/
def counted (count : ScriptContext → Nat) : Option (Values Bytes 1) :=
  engine.context.bind fun ctx =>
    (encodeU32Count (count ctx)).toOption.bind fun bytes => some (single bytes)

/-- A part of the output with the given index. -/
def ofOutput (part : TxOutput → Bytes) (idxBytes : Bytes) : Option (Values Bytes 1) :=
  engine.context.bind fun ctx =>
    (outputAt ctx idxBytes).toOption.bind fun output => some (single (part output))

/-- What an operation code does to a stack. -/
def operation : OpCode → StackOperation Bytes
  | .opFalse => .nullary 1 (some (single []))
  | .opTrue => .nullary 1 (some (single [1]))
  | .opNop => .nullary 0 (some ⟨[], rfl⟩)
  | .opReturn => .nullary 0 none
  | .opVerify => .unary 0 fun item => required (isTruthy item = true)
  | .opDup => .unary 2 fun top => some ⟨[top, top], rfl⟩
  | .opDrop => .unary 0 fun _ => some ⟨[], rfl⟩
  | .opSwap => .binary 2 fun first second => some ⟨[second, first], rfl⟩
  | .opEqual => .binary 1 fun a b => some (single (if decide (a = b) then [1] else []))
  | .opEqualVerify => .binary 0 fun a b => required (a = b)
  | .opAdd => .binary 1 (arithmetic (· + ·))
  | .opSub => .binary 1 (arithmetic (· - ·))
  | .opHash256 => .unary 1 fun item => some (single (Hash256.digest item).asBytes)
  | .opCheckSig => .binary 1 fun pubkey sig => some (single
      (if verifyEd25519 pubkey sig engine.sighash.asBytes then [1] else []))
  | .opCheckSigVerify => .binary 0 fun pubkey sig =>
      required (verifyEd25519 pubkey sig engine.sighash.asBytes = true)
  | .opTxInputsCount => .nullary 1 (engine.counted fun ctx => ctx.tx.inputs.length)
  | .opCurrentInputIdx => .nullary 1 (engine.counted fun ctx => ctx.currentInputIndex)
  | .opTxOutputsCount => .nullary 1 (engine.counted fun ctx => ctx.tx.outputs.length)
  | .opTxOutputValue => .unary 1 (engine.ofOutput fun output => leBytes 16 output.value.raw)
  | .opTxOutputScript =>
      .unary 1 (engine.ofOutput fun output => (Hash256.digest output.lockingScript).asBytes)
  | .opTxOutputDatum => .unary 1 (engine.ofOutput fun output => datumHash output.datum)
  | .opTxLocktime => .nullary 1
      (engine.context.bind fun ctx => some (single (leBytes 8 ctx.tx.locktime.toNat)))
  | .opValidationHeight => .nullary 1
      (engine.context.bind fun ctx => some (single (leBytes 8 ctx.validationHeight.toNat)))

/-- What an instruction does to a stack. -/
def operationOf : Instruction → StackOperation Bytes
  | .push pushed => .nullary 1 (some (single pushed.data))
  | .op code => engine.operation code

/-- What a list of instructions does to a stack. -/
def meaning (program : List Instruction) (stack : List Bytes) : Option (List Bytes) :=
  runStack (program.map engine.operationOf) stack

section Denotation

variable {given : Nat}

omit [Crypto] in
theorem denotes_context {next : ScriptContext → ScriptM Unit}
    {result : ScriptContext → Option (Values Bytes given)}
    (rest : ∀ ctx, Denotes (next ctx) (StackOperation.nullary given (result ctx)).act) :
    Denotes (stateless engine.requireContext >>= next)
      (StackOperation.nullary given (engine.context.bind result)).act := by
  have known : engine.requireContext.toOption = engine.context := by
    unfold requireContext
    cases engine.context <;> rfl
  rw [← known]
  exact Denotes.stateless rest

omit [Crypto] in
/-- Without a context there is no output, whatever the stack. -/
theorem denotes_ofOutput (part : TxOutput → Bytes) :
    Denotes (stateless engine.requireContext >>= fun ctx => Stack.pop >>= fun idxBytes =>
      stateless (outputAt ctx idxBytes) >>= fun output => Stack.push (part output))
      (StackOperation.unary 1 (engine.ofOutput part)).act := by
  have outputs : ∀ ctx, Denotes (Stack.pop >>= fun idxBytes =>
      stateless (outputAt ctx idxBytes) >>= fun output => Stack.push (part output))
      (StackOperation.unary 1 fun idxBytes => (outputAt ctx idxBytes).toOption.bind
        fun output => some (single (part output))).act := by
    intro ctx
    exact Denotes.unary fun _ => Denotes.stateless fun _ => Denotes.push _
  unfold ofOutput
  cases found : engine.context with
  | none =>
      intro before after
      simp only [requireContext, found, stateT_bind_eq_ok_iff, stateless_eq_ok_iff]
      cases before.items <;> simp
  | some ctx =>
      simp only [requireContext, found, stateless_ok_bind]
      exact outputs ctx

theorem denotes_executeOp (op : OpCode) :
    Denotes (engine.executeOp op) (engine.operation op).act := by
  have arithmetic : ∀ operate : Int → Int → Int, Denotes (Stack.pop >>= fun bBytes =>
      Stack.pop >>= fun aBytes => stateless (decodeScriptInt aBytes) >>= fun aVal =>
      stateless (decodeScriptInt bBytes) >>= fun bVal =>
      stateless (encodeScriptInt (operate aVal bVal)) >>= fun result => Stack.push result)
      (StackOperation.binary 1 (arithmetic operate)).act := by
    intro operate
    exact Denotes.binary fun _ _ => Denotes.stateless fun _ => Denotes.stateless fun _ =>
      Denotes.stateless fun _ => Denotes.push _
  have counted : ∀ count : ScriptContext → Nat, Denotes (stateless engine.requireContext >>=
      fun ctx => stateless (encodeU32Count (count ctx)) >>= fun bytes => Stack.push bytes)
      (StackOperation.nullary 1 (engine.counted count)).act := by
    intro count
    exact engine.denotes_context fun _ => Denotes.stateless fun _ => Denotes.push _
  cases op with
  | opFalse | opTrue => exact Denotes.push _
  | opNop => exact Denotes.pure
  | opReturn => exact Denotes.throw _
  | opVerify => exact Denotes.unary fun _ => Denotes.check _ _
  | opDup => exact Denotes.dup
  | opDrop => exact Denotes.unary fun _ => Denotes.pure
  | opSwap => exact Denotes.swap
  | opEqual | opCheckSig => exact Denotes.binary fun _ _ => Denotes.push _
  | opEqualVerify | opCheckSigVerify => exact Denotes.binary fun _ _ => Denotes.check _ _
  | opAdd => exact arithmetic (· + ·)
  | opSub => exact arithmetic (· - ·)
  | opHash256 => exact Denotes.unary fun _ => Denotes.push _
  | opTxInputsCount | opCurrentInputIdx | opTxOutputsCount => exact counted _
  | opTxOutputValue | opTxOutputScript | opTxOutputDatum => exact engine.denotes_ofOutput _
  | opTxLocktime | opValidationHeight => exact engine.denotes_context fun _ => Denotes.push _

theorem denotes_execute (instruction : Instruction) :
    Denotes (engine.execute instruction) (engine.operationOf instruction).act := by
  cases instruction with
  | push pushed => exact Denotes.push _
  | op code => exact engine.denotes_executeOp code

end Denotation

section Room

omit [Crypto] in
theorem single_small {item : Bytes} (small : item.length ≤ maxElementSize) :
    ∀ element ∈ (single item).val, element.length ≤ maxElementSize :=
  List.forall_mem_singleton.mpr small

omit [Crypto] in
theorem required_small {condition : Prop} [Decidable condition] {values : Values Bytes 0}
    (_passed : required condition = some values) :
    ∀ element ∈ values.val, element.length ≤ maxElementSize := by
  rw [List.length_eq_zero_iff.mp values.property]
  exact List.forall_mem_nil _

omit [Crypto] in
theorem arithmetic_small {operate : Int → Int → Int} {bBytes aBytes : Bytes}
    {values : Values Bytes 1} (computed : arithmetic operate bBytes aBytes = some values) :
    ∀ element ∈ values.val, element.length ≤ maxElementSize := by
  simp only [arithmetic, Option.bind_eq_some_iff, toOption_eq_some_iff, Option.some.injEq]
    at computed
  obtain ⟨aVal, -, bVal, -, result, encoded, rfl⟩ := computed
  have length := length_of_encodeScriptInt encoded
  exact single_small (length.trans_le (by decide))

omit [Crypto] in
theorem counted_small {count : ScriptContext → Nat} {values : Values Bytes 1}
    (computed : engine.counted count = some values) :
    ∀ element ∈ values.val, element.length ≤ maxElementSize := by
  simp only [counted, Option.bind_eq_some_iff, toOption_eq_some_iff, Option.some.injEq]
    at computed
  obtain ⟨ctx, -, bytes, encoded, rfl⟩ := computed
  have length := length_of_encodeU32Count encoded
  exact single_small (length.trans_le (by decide))

omit [Crypto] in
theorem ofOutput_small {part : TxOutput → Bytes} {idxBytes : Bytes} {values : Values Bytes 1}
    (small : ∀ output, (part output).length ≤ maxElementSize)
    (computed : engine.ofOutput part idxBytes = some values) :
    ∀ element ∈ values.val, element.length ≤ maxElementSize := by
  simp only [ofOutput, Option.bind_eq_some_iff, Option.some.injEq] at computed
  obtain ⟨ctx, -, output, -, rfl⟩ := computed
  exact single_small (small output)

omit [Crypto] in
theorem ofContext_small {part : ScriptContext → Bytes} {values : Values Bytes 1}
    (small : ∀ ctx, (part ctx).length ≤ maxElementSize)
    (computed : (engine.context.bind fun ctx => some (single (part ctx))) = some values) :
    ∀ element ∈ values.val, element.length ≤ maxElementSize := by
  simp only [Option.bind_eq_some_iff, Option.some.injEq] at computed
  obtain ⟨ctx, -, rfl⟩ := computed
  exact single_small (small ctx)

/-- No operation makes an element that is too large for the stack. -/
theorem operation_keeps (op : OpCode) :
    (engine.operation op).Keeps fun item => item.length ≤ maxElementSize := by
  have flag : ∀ holds : Bool, (if holds then [1] else [] : Bytes).length ≤ maxElementSize := by
    decide
  have hash : ∀ hash : Hash256, hash.asBytes.length ≤ maxElementSize :=
    fun hash => (Hash256.size hash).trans_le (by decide)
  cases op with
  | opFalse | opTrue =>
      refine StackOperation.Keeps.nullary ?_
      rintro _ ⟨⟩
      exact single_small (by decide)
  | opNop =>
      refine StackOperation.Keeps.nullary ?_
      rintro _ ⟨⟩
      exact List.forall_mem_nil _
  | opReturn => exact StackOperation.Keeps.nullary nofun
  | opVerify => exact StackOperation.Keeps.unary fun _ _ _ passed => required_small passed
  | opDup =>
      refine StackOperation.Keeps.unary ?_
      rintro top small _ ⟨⟩
      simpa using small
  | opDrop =>
      refine StackOperation.Keeps.unary ?_
      rintro _ _ _ ⟨⟩
      exact List.forall_mem_nil _
  | opSwap =>
      refine StackOperation.Keeps.binary ?_
      rintro first second smallFirst smallSecond _ ⟨⟩
      simpa using ⟨smallSecond, smallFirst⟩
  | opEqual | opCheckSig =>
      refine StackOperation.Keeps.binary ?_
      rintro _ _ _ _ _ ⟨⟩
      exact single_small (flag _)
  | opEqualVerify | opCheckSigVerify =>
      exact StackOperation.Keeps.binary fun _ _ _ _ _ passed => required_small passed
  | opAdd | opSub =>
      exact StackOperation.Keeps.binary fun _ _ _ _ _ computed => arithmetic_small computed
  | opHash256 =>
      refine StackOperation.Keeps.unary ?_
      rintro _ _ _ ⟨⟩
      exact single_small (hash _)
  | opTxInputsCount | opCurrentInputIdx | opTxOutputsCount =>
      exact StackOperation.Keeps.nullary fun _ computed => engine.counted_small computed
  | opTxOutputValue =>
      exact StackOperation.Keeps.unary fun _ _ _ computed => engine.ofOutput_small
        (fun _ => (length_leBytes _ _).trans_le (by decide)) computed
  | opTxOutputScript =>
      exact StackOperation.Keeps.unary fun _ _ _ computed => engine.ofOutput_small
        (fun _ => hash _) computed
  | opTxOutputDatum =>
      exact StackOperation.Keeps.unary fun _ _ _ computed => engine.ofOutput_small
        (fun _ => (length_datumHash _).trans_le (by decide)) computed
  | opTxLocktime | opValidationHeight =>
      exact StackOperation.Keeps.nullary fun _ computed => engine.ofContext_small
        (fun _ => (length_leBytes _ _).trans_le (by decide)) computed

theorem operationOf_keeps (instruction : Instruction) :
    (engine.operationOf instruction).Keeps fun item => item.length ≤ maxElementSize := by
  cases instruction with
  | push pushed =>
      refine StackOperation.Keeps.nullary ?_
      rintro _ ⟨⟩
      exact single_small (pushed.short.trans (by decide))
  | op code => exact engine.operation_keeps code

theorem effect_operationOf (instruction : Instruction) :
    (engine.operationOf instruction).effect = instruction.arity := by
  cases instruction with
  | push pushed => rfl
  | op code => cases code <;> rfl

/-- What an instruction makes of a stack with room for one more element is a stack. -/
theorem exists_stack_of_act {instruction : Instruction} {before : Stack} {items : List Bytes}
    (room : before.items.length < maxStackDepth)
    (acted : (engine.operationOf instruction).act before.items = some items) :
    items.length ≤ before.items.length + 1 ∧ ∃ after : Stack, after.items = items := by
  have lengths := (engine.operationOf instruction).length_of_act acted
  have grown := instruction.arity_le
  rw [← engine.effect_operationOf instruction, StackOperation.effect] at grown
  refine ⟨by omega, ⟨items, by omega, ?_⟩, rfl⟩
  exact engine.operationOf_keeps instruction _ _ acted before.sizes

end Room

section Refinement

theorem meaning_append (first second : List Instruction) (stack : List Bytes) :
    engine.meaning (first ++ second) stack =
      (engine.meaning first stack).bind (engine.meaning second) := by
  rw [meaning, List.map_append, runStack_append]
  rfl

theorem exists_stack_of_meaning {program : List Instruction} {before : Stack} {count : Nat}
    {items : List Bytes} (shallow : before.items.length ≤ count + 2)
    (few : count + program.length ≤ maxOpsPerScript)
    (ran : engine.meaning program before.items = some items) :
    items.length ≤ before.items.length + program.length ∧
      ∃ after : Stack, after.items = items := by
  induction program generalizing before count with
  | nil =>
      cases ran
      exact ⟨Nat.le_refl _, before, rfl⟩
  | cons instruction program inductionHypothesis =>
      rw [List.length_cons] at few
      have room : before.items.length < maxStackDepth :=
        shallow.trans_lt ((Nat.add_le_add_right (Nat.le_of_lt (by omega)) 2).trans_lt
          (by decide : maxOpsPerScript + 2 < maxStackDepth))
      rw [meaning, List.map_cons, runStack_cons, Option.bind_eq_some_iff] at ran
      obtain ⟨_, acted, ran⟩ := ran
      obtain ⟨grown, middle, rfl⟩ := engine.exists_stack_of_act room acted
      have deep : middle.items.length ≤ count + 1 + 2 := by omega
      obtain ⟨higher, after⟩ := inductionHypothesis deep (by omega) ran
      exact ⟨by rw [List.length_cons]; omega, after⟩

/-- Within the limits the turns of a decoded script do to the stack what the script
means. -/
theorem runDecoded_eq_ok_iff (program : List Instruction) {count count' : Nat}
    {before after : Stack} (few : count ≤ maxOpsPerScript)
    (shallow : before.items.length ≤ count + 2) :
    engine.runDecoded program (count, before) = .ok (count', after) ↔
      count' = count + program.length ∧ count' ≤ maxOpsPerScript ∧
        engine.meaning program before.items = some after.items := by
  induction program generalizing count before with
  | nil =>
      simp only [runDecoded, meaning, Except.ok.injEq, Prod.mk.injEq, List.length_nil,
        Nat.add_zero, List.map_nil, runStack_nil, Option.some.injEq]
      constructor
      · rintro ⟨rfl, rfl⟩
        exact ⟨rfl, few, rfl⟩
      · rintro ⟨rfl, -, same⟩
        exact ⟨rfl, Stack.ext same⟩
  | cons instruction program inductionHypothesis =>
      have room : before.items.length < maxStackDepth :=
        shallow.trans_lt ((Nat.add_le_add_right few 2).trans_lt (by decide))
      change (engine.turn instruction (count, before) >>= engine.runDecoded program) = _ ↔ _
      rw [except_bind_eq_ok_iff, meaning, List.map_cons, runStack_cons, Option.bind_eq_some_iff]
      constructor
      · rintro ⟨⟨_, _⟩, turned, ran⟩
        unfold turn at turned
        split at turned
        next => cases turned
        next below =>
            obtain ⟨⟨_, middle⟩, executed, same⟩ := (except_map_eq_ok_iff _ _ _).mp turned
            cases same
            have acted := (engine.denotes_execute instruction before middle).mp executed
            have grown := (engine.exists_stack_of_act room acted).1
            have deep : middle.items.length ≤ count + 1 + 2 := by omega
            rw [inductionHypothesis (Nat.not_le.mp below) deep] at ran
            obtain ⟨counted, few', ran⟩ := ran
            exact ⟨by rw [counted, List.length_cons]; omega, few', middle.items, acted, ran⟩
      · rintro ⟨counted, few', items, acted, ran⟩
        obtain ⟨grown, middle, rfl⟩ := engine.exists_stack_of_act room acted
        rw [List.length_cons] at counted
        refine ⟨(count + 1, middle), ?_, ?_⟩
        · rw [turn, if_neg (by simp only; omega),
            (engine.denotes_execute instruction before middle).mpr acted]
          rfl
        · rw [inductionHypothesis (by omega) (by omega)]
          exact ⟨by omega, few', ran⟩

/-- Bytes run to their end exactly when they spell a program that does. -/
theorem executeBytecode_iff_meaning {bytecode : Bytes} {count : Nat} {before : Stack}
    (few : count ≤ maxOpsPerScript) (shallow : before.items.length ≤ count + 2)
    (final : Machine) :
    engine.executeBytecode ⟨bytecode, count, before⟩ = .ok final ↔
      ∃ program, bytecode = scriptCode.assemble program ∧ final.cursor = [] ∧
        final.opCount = count + program.length ∧ final.opCount ≤ maxOpsPerScript ∧
          engine.meaning program before.items = some final.stack.items := by
  rw [executeBytecode_eq_executeDecoded, executeDecoded]
  change (engine.runDecoded _ _ >>= finish _) = _ ↔ _
  rw [except_bind_eq_ok_iff]
  constructor
  · rintro ⟨⟨count', after⟩, ran, finished⟩
    cases whole : (scriptCode.disassemble bytecode).2 with
    | none =>
        rw [whole] at finished
        cases finished
        rw [engine.runDecoded_eq_ok_iff _ few shallow] at ran
        refine ⟨(scriptCode.disassemble bytecode).1, ?_, rfl, ran⟩
        rw [← scriptCode.disassemble_eq_iff, ← whole]
    | some fault =>
        rw [whole, finish] at finished
        split at finished <;> cases finished
  · rintro ⟨program, rfl, ended, ran⟩
    rw [scriptCode.disassemble_assemble]
    refine ⟨(final.opCount, final.stack),
      (engine.runDecoded_eq_ok_iff program few shallow).mpr ran, ?_⟩
    rw [finish, ← ended]

end Refinement

end ScriptEngine

end Aurion
