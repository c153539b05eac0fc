import Aurion.Script.Execution

/-!
# What a contract reads of its context

An instruction sees the signature hash, the index of the input and a part of
the transaction without the inputs themselves; one of them also sees the height.
The spent output and the fee are in the context, but no instruction reads them.
-/

namespace Aurion

open Foundation

/-- The next instruction is `OP_VALIDATIONHEIGHT`. -/
def Machine.readsHeight (machine : Machine) : Bool := machine.cursor.head? == some 0xc7

theorem OpCode.eq_of_opValidationHeight {opByte : UInt8}
    (decoded : OpCode.fromU8 opByte = some .opValidationHeight) : opByte = 0xc7 := by
  unfold OpCode.fromU8 at decoded
  split at decoded <;> simp only [Option.some.injEq, reduceCtorEq] at decoded
  next byte => exact UInt8.toNat_inj.mp byte

namespace ScriptEngine

variable [Crypto] {engine engine' : ScriptEngine}

def height (engine : ScriptEngine) : Option UInt64 :=
  engine.context.map ScriptContext.validationHeight

/-- The engines are those of one input of one transaction. -/
structure AgreesWith (engine engine' : ScriptEngine) : Prop where
  sighash : engine.sighash = engine'.sighash
  input : engine.context.map (fun ctx => (ctx.tx, ctx.currentInputIndex)) =
    engine'.context.map fun ctx => (ctx.tx, ctx.currentInputIndex)

/-- The part of a context that the instructions read, the height apart. -/
def readPart (ctx : ScriptContext) : Nat × List TxOutput × UInt64 × Nat :=
  (ctx.tx.inputs.length, ctx.tx.outputs, ctx.tx.locktime, ctx.currentInputIndex)

/-- No instruction but the one for the height tells the engines apart. -/
structure ReadsAlike (engine engine' : ScriptEngine) : Prop where
  sighash : engine.sighash = engine'.sighash
  context : engine.context.map readPart = engine'.context.map readPart

omit [Crypto] in
theorem AgreesWith.readsAlike (agrees : engine.AgreesWith engine') :
    engine.ReadsAlike engine' where
  sighash := agrees.sighash
  context := by
    have parts := congrArg (Option.map fun input : Transaction × Nat =>
      (input.1.inputs.length, input.1.outputs, input.1.locktime, input.2)) agrees.input
    rwa [Option.map_map, Option.map_map] at parts

theorem ReadsAlike.executeOp (alike : engine.ReadsAlike engine') (op : OpCode)
    (heights : op = .opValidationHeight → engine.height = engine'.height) :
    engine.executeOp op = engine'.executeOp op := by
  obtain ⟨context, sighash⟩ := engine
  obtain ⟨context', sighash'⟩ := engine'
  obtain ⟨rfl, contexts⟩ := alike
  cases context with
  | none =>
      cases context' with
      | none => rfl
      | some ctx' => cases contexts
  | some ctx =>
      cases context' with
      | none => cases contexts
      | some ctx' =>
          simp only [Option.map_some, Option.some.injEq, readPart, Prod.mk.injEq] at contexts
          obtain ⟨inputs, outputs, locktime, idx⟩ := contexts
          cases op with
          | opTxInputsCount =>
              simp only [ScriptEngine.executeOp, requireContext, stateless_ok_bind, inputs]
          | opTxOutputsCount | opTxOutputValue | opTxOutputScript | opTxOutputDatum =>
              simp only [ScriptEngine.executeOp, requireContext, stateless_ok_bind, outputAt,
                outputs]
          | opTxLocktime =>
              simp only [ScriptEngine.executeOp, requireContext, stateless_ok_bind, locktime]
          | opCurrentInputIdx =>
              simp only [ScriptEngine.executeOp, requireContext, stateless_ok_bind, idx]
          | opValidationHeight =>
              have same : ctx.validationHeight = ctx'.validationHeight :=
                Option.some.inj (heights rfl)
              simp only [ScriptEngine.executeOp, requireContext, stateless_ok_bind, same]
          | _ => simp only [ScriptEngine.executeOp]

theorem ReadsAlike.step (alike : engine.ReadsAlike engine') (machine : Machine)
    (heights : machine.readsHeight = true → engine.height = engine'.height) :
    engine.step machine = engine'.step machine := by
  unfold ScriptEngine.step
  split
  · rfl
  next opByte cursor shape =>
      have instruction : engine.executeInstruction opByte cursor =
          engine'.executeInstruction opByte cursor := by
        unfold executeInstruction
        cases decoded : decodeOpCode opByte with
        | error error => rfl
        | ok op =>
            have same := alike.executeOp op fun isHeight => heights (by
              subst isHeight
              rw [decodeOpCode_eq_ok_iff] at decoded
              simp [Machine.readsHeight, shape, OpCode.eq_of_opValidationHeight decoded])
            simp only [stateless_ok_bind, same]
      rw [instruction]

theorem executeBytecode_eq (machine : Machine) :
    engine.executeBytecode machine =
      engine.step machine >>= fun next? => next?.elim (.ok machine) engine.executeBytecode := by
  rw [executeBytecode]
  split
  next error stepped => rw [stepped]; rfl
  next stepped => rw [stepped]; rfl
  next next stepped => rw [stepped]; rfl

/-- The loop visits the state in which it starts, unless it ends there. -/
theorem mem_visited (machine : Machine) (running : machine.cursor ≠ []) :
    machine ∈ engine.visited machine := by
  rw [visited]
  split
  · exact List.mem_singleton.mpr rfl
  next stepped => exact absurd ((engine.step_eq_ok_none_iff machine).mp stepped) running
  · exact List.mem_cons_self

/-- Engines that take the same turns in the states of a run make the same run. -/
theorem executeBytecode_congr {machine : Machine}
    (same : ∀ state ∈ engine.visited machine, engine.step state = engine'.step state) :
    engine.executeBytecode machine = engine'.executeBytecode machine := by
  induction size : machine.cursor.length using Nat.strongRecOn generalizing machine with
  | _ size inductionHypothesis =>
      have first : engine.step machine = engine'.step machine := by
        by_cases empty : machine.cursor = []
        · rw [(engine.step_eq_ok_none_iff machine).mpr empty,
            (engine'.step_eq_ok_none_iff machine).mpr empty]
        · exact same machine (mem_visited machine empty)
      rw [executeBytecode_eq, executeBytecode_eq, ← first]
      cases stepped : engine.step machine with
      | error error => rw [except_error_bind, except_error_bind]
      | ok next? =>
          rw [except_ok_bind, except_ok_bind]
          cases next? with
          | none => rw [Option.elim_none, Option.elim_none]
          | some next =>
              rw [engine.visited_of_step stepped, List.forall_mem_cons] at same
              exact inductionHypothesis _ (size ▸ engine.length_lt_of_step stepped) same.2 rfl

/-- The states in which a contract executes an instruction. -/
def executed (engine : ScriptEngine) (lockingScript unlockingScript : Bytes) (datum : Datum)
    (redeemer : Option Bytes) : List Machine :=
  match prepare unlockingScript datum redeemer with
  | .error _ => []
  | .ok start => engine.visited start ++
      match engine.executeBytecode start with
      | .error _ => []
      | .ok unlocked => engine.visited { unlocked with cursor := lockingScript }

theorem executeContract_congr {lockingScript unlockingScript : Bytes} {datum : Datum}
    {redeemer : Option Bytes}
    (same : ∀ state ∈ engine.executed lockingScript unlockingScript datum redeemer,
      engine.step state = engine'.step state) :
    engine.executeContract lockingScript unlockingScript datum redeemer =
      engine'.executeContract lockingScript unlockingScript datum redeemer := by
  unfold executeContract executeUnlocking
  cases prepared : prepare unlockingScript datum redeemer with
  | error error => simp only [except_error_bind]
  | ok start =>
      simp only [executed, prepared, List.forall_mem_append] at same
      rw [except_ok_bind, except_ok_bind, ← executeBytecode_congr same.1]
      cases unlocked : engine.executeBytecode start with
      | error error => rw [except_error_bind, except_error_bind]
      | ok machine =>
          rw [unlocked] at same
          rw [except_ok_bind, except_ok_bind, executeBytecode_congr same.2]

/-- Engines that read alike, the height included, run every contract alike. -/
theorem ReadsAlike.executeContract (alike : engine.ReadsAlike engine')
    (heights : engine.height = engine'.height) (lockingScript unlockingScript : Bytes)
    (datum : Datum) (redeemer : Option Bytes) :
    engine.executeContract lockingScript unlockingScript datum redeemer =
      engine'.executeContract lockingScript unlockingScript datum redeemer :=
  executeContract_congr fun state _ => alike.step state fun _ => heights

/-- At another height, too, as long as no executed instruction reads it. -/
theorem ReadsAlike.executeContract_of_unread (alike : engine.ReadsAlike engine')
    {lockingScript unlockingScript : Bytes} {datum : Datum} {redeemer : Option Bytes}
    (unread : ∀ state ∈ engine.executed lockingScript unlockingScript datum redeemer,
      state.readsHeight = false) :
    engine.executeContract lockingScript unlockingScript datum redeemer =
      engine'.executeContract lockingScript unlockingScript datum redeemer := by
  apply executeContract_congr
  intro state membership
  apply alike.step state
  intro reads
  rw [unread state membership] at reads
  cases reads

end ScriptEngine

end Aurion
