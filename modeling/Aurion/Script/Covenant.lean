import Aurion.Script.Execution

/-!
# A covenant on the value of an output

The locking script compares the value of one output of the spending transaction
with a constant.
-/

namespace Aurion

open Foundation

/-- Push the index, then `OP_TXOUTPUTVALUE`, push the value in 16 little-endian
bytes, then `OP_EQUAL`. -/
def outputValueCovenant (idxBytes : Bytes) (value : Quantum) : Bytes :=
  UInt8.ofNat idxBytes.length :: (idxBytes ++
    0xc3 :: 0x10 :: (leBytes 16 value.raw ++ [0x87]))

theorem leBytes_raw_injective {left right : Quantum}
    (same : leBytes 16 left.raw = leBytes 16 right.raw) : left = right := by
  have bound : ∀ amount : Quantum, amount.raw < 256 ^ 16 := Quantum.bound
  have values := congrArg leValue same
  rw [leValue_leBytes, leValue_leBytes, Nat.mod_eq_of_lt (bound left),
    Nat.mod_eq_of_lt (bound right)] at values
  exact Quantum.ext values

/-- Up to four bytes are a direct push of themselves. -/
theorem isDirectPush_ofNat {length : Nat} (positive : 1 ≤ length) (short : length ≤ 4) :
    isDirectPush (UInt8.ofNat length) = true ∧ (UInt8.ofNat length).toNat = length := by
  have cases : length = 1 ∨ length = 2 ∨ length = 3 ∨ length = 4 := by
    omega
  rcases cases with rfl | rfl | rfl | rfl <;> decide

namespace ScriptEngine

variable [Crypto] (engine : ScriptEngine)

omit [Crypto] in
theorem outputAt_eq_ok_iff (ctx : ScriptContext) (idxBytes : Bytes) (output : TxOutput) :
    outputAt ctx idxBytes = .ok output ↔
      idxBytes.length ≤ 4 ∧ ctx.tx.outputs[leValue idxBytes]? = some output := by
  unfold outputAt decodeU32Index
  split
  next long => simp [Nat.not_le.mpr long]
  next short =>
      rw [except_ok_bind, and_iff_right (Nat.le_of_not_lt short)]
      cases ctx.tx.outputs[leValue idxBytes]? <;> simp

theorem executeOp_txOutputValue_iff {ctx : ScriptContext} (context : engine.context = some ctx)
    (before after : Stack) :
    engine.executeOp .opTxOutputValue before = .ok ((), after) ↔
      ∃ idxBytes rest output, before.items = idxBytes :: rest ∧
        outputAt ctx idxBytes = .ok output ∧
        after.items = leBytes 16 output.value.raw :: rest := by
  simp only [executeOp, requireContext, context, stateless_ok_bind, stateT_bind_eq_ok_iff,
    Stack.pop_eq_ok_iff, stateless_eq_ok_iff, Stack.push_eq_ok_iff]
  constructor
  · rintro ⟨idxBytes, middle, shape, output, _, ⟨found, rfl⟩, pushed⟩
    exact ⟨idxBytes, middle.items, output, shape, found, pushed⟩
  · rintro ⟨idxBytes, rest, output, shape, found, pushed⟩
    have depth := before.depth
    have sizes := before.sizes
    rw [shape] at depth sizes
    refine ⟨idxBytes, ⟨rest, Nat.le_of_succ_le depth, (List.forall_mem_cons.mp sizes).2⟩, shape,
      output, _, ⟨found, rfl⟩, pushed⟩

theorem executeOp_equal_iff (before after : Stack) :
    engine.executeOp .opEqual before = .ok ((), after) ↔
      ∃ a b rest, before.items = a :: b :: rest ∧
        after.items = (if a = b then [1] else []) :: rest := by
  simp only [executeOp, pushFlag, stateT_bind_eq_ok_iff, Stack.pop_eq_ok_iff,
    Stack.push_eq_ok_iff, decide_eq_true_eq]
  constructor
  · rintro ⟨a, middle, shape, b, last, shape', pushed⟩
    exact ⟨a, b, last.items, by rw [shape, shape'], pushed⟩
  · rintro ⟨a, b, rest, shape, pushed⟩
    have depth := before.depth
    have sizes := before.sizes
    rw [shape] at depth sizes
    simp only [List.forall_mem_cons] at sizes
    exact ⟨a, ⟨b :: rest, Nat.le_of_succ_le depth, List.forall_mem_cons.mpr sizes.2⟩, shape, b,
      ⟨rest, Nat.le_of_succ_le (Nat.le_of_succ_le depth), sizes.2.2⟩, rfl, pushed⟩

section Run

variable {ctx : ScriptContext} {idxBytes : Bytes} {value : Quantum}

/-- The script leaves what it found below its flag. -/
theorem items_of_outputValueCovenant (context : engine.context = some ctx)
    (positive : 1 ≤ idxBytes.length) (short : idxBytes.length ≤ 4) {unlocked final : Machine}
    (ran : engine.executeBytecode { unlocked with cursor := outputValueCovenant idxBytes value } =
      .ok final) :
    ∃ output, ctx.tx.outputs[leValue idxBytes]? = some output ∧
      final.stack.items = (if value = output.value then [1] else []) :: unlocked.stack.items := by
  obtain ⟨direct, width⟩ := isDirectPush_ofNat positive short
  have isTxOutputValue : OpCode.fromU8 0xc3 = some .opTxOutputValue := by decide
  have isEqual : OpCode.fromU8 0x87 = some .opEqual := by decide
  have constantWidth : (leBytes 16 value.raw).length = UInt8.toNat 0x10 := length_leBytes _ _
  -- The index
  rw [outputValueCovenant, executeBytecode_cons_eq_ok_iff] at ran
  obtain ⟨-, cursor, indexed, executed, ran⟩ := ran
  rw [engine.executeInstruction_push_iff direct width.symm] at executed
  obtain ⟨rfl, indexItems⟩ := executed
  -- The value of the output takes its place.
  rw [executeBytecode_cons_eq_ok_iff] at ran
  obtain ⟨-, cursor, valued, executed, ran⟩ := ran
  rw [engine.executeInstruction_op_iff (by decide) isTxOutputValue,
    engine.executeOp_txOutputValue_iff context] at executed
  obtain ⟨rfl, idxBytes', below, output, shape, found, valueItems⟩ := executed
  obtain ⟨rfl, rfl⟩ := List.cons.inj (indexItems.symm.trans shape)
  -- The constant goes on top of it.
  rw [executeBytecode_cons_eq_ok_iff] at ran
  obtain ⟨-, cursor, pushed, executed, ran⟩ := ran
  rw [engine.executeInstruction_push_iff (by decide) constantWidth] at executed
  obtain ⟨rfl, pushedItems⟩ := executed
  -- The comparison takes both.
  rw [executeBytecode_cons_eq_ok_iff] at ran
  obtain ⟨-, cursor, compared, executed, ran⟩ := ran
  rw [engine.executeInstruction_op_iff (by decide) isEqual, executeOp_equal_iff] at executed
  obtain ⟨rfl, a, b, rest, shape, flag⟩ := executed
  rw [pushedItems, valueItems, List.cons.injEq, List.cons.injEq] at shape
  obtain ⟨rfl, rfl, rfl⟩ := shape
  rw [executeBytecode_nil_eq_ok_iff] at ran
  subst ran
  refine ⟨output, ((outputAt_eq_ok_iff _ _ _).mp found).2, ?_⟩
  rw [flag]
  congr 2
  exact propext ⟨leBytes_raw_injective, congrArg fun amount : Quantum => leBytes 16 amount.raw⟩

/-- On the empty stack the script runs to its end if the output is there. -/
theorem executeBytecode_outputValueCovenant (context : engine.context = some ctx)
    (positive : 1 ≤ idxBytes.length) (short : idxBytes.length ≤ 4) {output : TxOutput}
    (found : ctx.tx.outputs[leValue idxBytes]? = some output) (same : output.value = value) :
    ∃ final, engine.executeBytecode ⟨outputValueCovenant idxBytes value, 0, Stack.empty⟩ =
      .ok final ∧ final.stack.items = [[1]] := by
  obtain ⟨direct, width⟩ := isDirectPush_ofNat positive short
  have isTxOutputValue : OpCode.fromU8 0xc3 = some .opTxOutputValue := by decide
  have isEqual : OpCode.fromU8 0x87 = some .opEqual := by decide
  have constantWidth : (leBytes 16 value.raw).length = UInt8.toNat 0x10 := length_leBytes _ _
  have small : idxBytes.length ≤ maxElementSize := short.trans (by decide)
  have constant : (leBytes 16 value.raw).length ≤ maxElementSize := by
    rw [length_leBytes]
    decide
  let indexed : Stack := ⟨[idxBytes], by simp [maxStackDepth], by simpa using small⟩
  let valued : Stack := ⟨[leBytes 16 value.raw], by simp [maxStackDepth], by simpa using constant⟩
  let pushed : Stack :=
    ⟨[leBytes 16 value.raw, leBytes 16 value.raw], by simp [maxStackDepth],
      by simpa using constant⟩
  let compared : Stack := ⟨[[1]], by decide, by decide⟩
  refine ⟨⟨[], 4, compared⟩, ?_, rfl⟩
  rw [outputValueCovenant, executeBytecode_cons_eq_ok_iff]
  refine ⟨by decide, _, indexed,
    (engine.executeInstruction_push_iff direct width.symm).mpr ⟨rfl, rfl⟩, ?_⟩
  rw [executeBytecode_cons_eq_ok_iff]
  refine ⟨by decide, _, valued,
    (engine.executeInstruction_op_iff (by decide) isTxOutputValue).mpr ⟨rfl,
      (engine.executeOp_txOutputValue_iff context _ _).mpr ⟨idxBytes, [], output, rfl,
        (outputAt_eq_ok_iff _ _ _).mpr ⟨short, found⟩, by rw [same]⟩⟩, ?_⟩
  rw [executeBytecode_cons_eq_ok_iff]
  refine ⟨by decide, _, pushed,
    (engine.executeInstruction_push_iff (by decide) constantWidth).mpr ⟨rfl, rfl⟩, ?_⟩
  rw [executeBytecode_cons_eq_ok_iff]
  refine ⟨by decide, _, compared,
    (engine.executeInstruction_op_iff (by decide) isEqual).mpr ⟨rfl,
      (engine.executeOp_equal_iff _ _).mpr ⟨_, _, [], rfl, by rw [if_pos rfl]⟩⟩, ?_⟩
  rw [executeBytecode_nil_eq_ok_iff]

end Run

/-- The covenant holds against every unlocking script, datum and redeemer, and
an output that pays the value satisfies it without any. -/
theorem executeContract_outputValueCovenant (ctx : ScriptContext)
    (context : engine.context = some ctx) (idxBytes : Bytes) (positive : 1 ≤ idxBytes.length)
    (short : idxBytes.length ≤ 4) (value : Quantum) :
    (∀ unlockingScript datum redeemer,
      engine.executeContract (outputValueCovenant idxBytes value) unlockingScript datum redeemer =
        .ok true →
      ∃ output, ctx.tx.outputs[leValue idxBytes]? = some output ∧ output.value = value) ∧
    ((∃ output, ctx.tx.outputs[leValue idxBytes]? = some output ∧ output.value = value) →
      engine.executeContract (outputValueCovenant idxBytes value) [] .none none = .ok true) := by
  constructor
  · intro unlockingScript datum redeemer ran
    obtain ⟨final, top, ran, single, truthy⟩ :=
      (engine.executeContract_eq_ok_true_iff _ _ _ _).mp ran
    rw [executeScripts, except_bind_eq_ok_iff] at ran
    obtain ⟨unlocked, -, locking⟩ := ran
    obtain ⟨output, found, items⟩ :=
      engine.items_of_outputValueCovenant context positive short locking
    refine ⟨output, found, ?_⟩
    by_contra other
    rw [items, if_neg (Ne.symm other)] at single
    rw [← (List.cons.inj single).1] at truthy
    cases truthy
  · rintro ⟨output, found, same⟩
    obtain ⟨final, ran, items⟩ :=
      engine.executeBytecode_outputValueCovenant context positive short found same
    refine (engine.executeContract_eq_ok_true_iff _ _ _ _).mpr ⟨final, [1], ?_, items, by decide⟩
    have unlocking : engine.executeUnlocking [] .none none = .ok ⟨[], 0, Stack.empty⟩ :=
      (engine.executeBytecode_nil_eq_ok_iff _ _ _).mpr rfl
    rw [executeScripts, unlocking]
    exact ran

end ScriptEngine

/-- Output 0 pays the 500 that the covenant asks for. -/
theorem ScriptEngine.executeContract_outputValueCovenant_of_output :
    letI := Crypto.constant Hash256.zero
    let output : TxOutput :=
      { value := Quantum.fromRaw 500, lockingScript := [0x51], datum := .none }
    let ctx : ScriptContext :=
      { tx := { version := 1, inputs := [], outputs := [output], locktime := 0 }
        currentInputIndex := 0
        currentSpentUtxo :=
          { value := Quantum.fromRaw 1000, lockingScript := [], creationHeight := 1
            isCoinbase := false, datum := .none }
        fee := Quantum.fromRaw 500
        validationHeight := 10 }
    (ScriptEngine.new (some ctx)).executeContract
      (outputValueCovenant [0] (Quantum.fromRaw 500)) [] .none none = .ok true := by
  let crypto := Crypto.constant Hash256.zero
  intro output ctx
  have holds := (ScriptEngine.new (some ctx)).executeContract_outputValueCovenant ctx rfl [0]
    (by decide) (by decide) (Quantum.fromRaw 500)
  exact holds.2 ⟨output, rfl, rfl⟩

end Aurion
