import Aurion.Foundation.Bytecode
import Aurion.Script.Execution

/-!
# Scripts as lists of instructions

A script is the spelling of a list of instructions.  The bytecode loop decodes an
instruction when it gets to it; decoding the whole script first and executing the
instructions after that gives the same result, errors included.
-/

namespace Aurion

open Foundation

def OpCode.toU8 : OpCode → UInt8
  | .opFalse => 0x00
  | .opTrue => 0x51
  | .opNop => 0x61
  | .opVerify => 0x69
  | .opReturn => 0x6a
  | .opDup => 0x73
  | .opDrop => 0x75
  | .opSwap => 0x78
  | .opEqual => 0x87
  | .opEqualVerify => 0x88
  | .opAdd => 0x93
  | .opSub => 0x94
  | .opHash256 => 0xaa
  | .opCheckSig => 0xac
  | .opCheckSigVerify => 0xad
  | .opTxInputsCount => 0xc0
  | .opCurrentInputIdx => 0xc1
  | .opTxOutputsCount => 0xc2
  | .opTxOutputValue => 0xc3
  | .opTxOutputScript => 0xc4
  | .opTxOutputDatum => 0xc5
  | .opTxLocktime => 0xc6
  | .opValidationHeight => 0xc7

theorem OpCode.fromU8_toU8 (op : OpCode) : OpCode.fromU8 op.toU8 = some op := by
  cases op <;> rfl

theorem OpCode.fromU8_eq_some_iff (byte : UInt8) (op : OpCode) :
    OpCode.fromU8 byte = some op ↔ byte = op.toU8 := by
  constructor
  · intro decoded
    apply UInt8.toNat_inj.mp
    unfold OpCode.fromU8 at decoded
    split at decoded <;> cases decoded <;> assumption
  · rintro rfl
    exact op.fromU8_toU8

/-- The bytes that one instruction can push by itself. -/
structure PushData where
  data : Bytes
  nonempty : 1 ≤ data.length
  short : data.length ≤ 75
  deriving DecidableEq

inductive Instruction
  | push (pushed : PushData)
  | op (code : OpCode)
  deriving DecidableEq

/-- The length byte of a direct push. -/
def PushData.lengthByte (pushed : PushData) : UInt8 := UInt8.ofNat pushed.data.length

theorem PushData.toNat_lengthByte (pushed : PushData) :
    pushed.lengthByte.toNat = pushed.data.length := by
  have short := pushed.short
  exact UInt8.toNat_ofNat_of_lt' (short.trans_lt (by decide))

theorem isDirectPush_iff (opByte : UInt8) :
    isDirectPush opByte = true ↔ 1 ≤ opByte.toNat ∧ opByte.toNat ≤ 75 := by
  simp [isDirectPush, UInt8.le_iff_toNat_le]

theorem isDirectPush_lengthByte (pushed : PushData) :
    isDirectPush pushed.lengthByte = true := by
  rw [isDirectPush_iff, pushed.toNat_lengthByte]
  exact ⟨pushed.nonempty, pushed.short⟩

theorem isDirectPush_toU8 (op : OpCode) : isDirectPush op.toU8 = false := by
  cases op <;> rfl

/-- The instruction at the cursor. -/
def fetchInstruction (opByte : UInt8) (cursor : Bytes) :
    Except ScriptError (Instruction × Bytes) :=
  if direct : isDirectPush opByte = true then
    if enough : opByte.toNat ≤ cursor.length then
      .ok (.push {
        data := cursor.take opByte.toNat
        nonempty := by
          rw [List.length_take, Nat.min_eq_left enough]
          exact ((isDirectPush_iff opByte).mp direct).1
        short := by
          rw [List.length_take, Nat.min_eq_left enough]
          exact ((isDirectPush_iff opByte).mp direct).2 }, cursor.drop opByte.toNat)
    else .error .unexpectedEof
  else (decodeOpCode opByte).map fun code => (.op code, cursor)

def Instruction.spell : Instruction → Bytes
  | .push pushed => pushed.lengthByte :: pushed.data
  | .op code => [code.toU8]

theorem fetchInstruction_eq_ok_iff (opByte : UInt8) (cursor : Bytes) (instruction : Instruction)
    (rest : Bytes) :
    fetchInstruction opByte cursor = .ok (instruction, rest) ↔
      opByte :: cursor = instruction.spell ++ rest := by
  cases instruction with
  | push pushed =>
      rw [Instruction.spell, List.cons_append, List.cons.injEq]
      constructor
      · intro fetched
        unfold fetchInstruction at fetched
        split at fetched
        · split at fetched
          next enough =>
              cases fetched
              constructor
              · apply UInt8.toNat_inj.mp
                rw [PushData.toNat_lengthByte, List.length_take, Nat.min_eq_left enough]
              · exact (List.take_append_drop _ _).symm
          next => cases fetched
        · obtain ⟨code, -, same⟩ := (except_map_eq_ok_iff _ _ _).mp fetched
          cases same
      · rintro ⟨rfl, rfl⟩
        unfold fetchInstruction
        rw [dif_pos (isDirectPush_lengthByte pushed)]
        simp [pushed.toNat_lengthByte]
  | op code =>
      rw [Instruction.spell, List.singleton_append, List.cons.injEq]
      constructor
      · intro fetched
        unfold fetchInstruction at fetched
        split at fetched
        · split at fetched <;> cases fetched
        · obtain ⟨code', decoded, same⟩ := (except_map_eq_ok_iff _ _ _).mp fetched
          cases same
          rw [decodeOpCode_eq_ok_iff, OpCode.fromU8_eq_some_iff] at decoded
          exact ⟨decoded, rfl⟩
      · rintro ⟨rfl, rfl⟩
        unfold fetchInstruction
        rw [dif_neg (by rw [isDirectPush_toU8]; exact Bool.false_ne_true)]
        rw [(decodeOpCode_eq_ok_iff _ _).mpr code.fromU8_toU8]
        rfl

/-- Scripts as bytecode. -/
def scriptCode : Bytecode UInt8 Instruction ScriptError where
  spell := Instruction.spell
  fetch := fetchInstruction
  spell_ne_nil := by
    intro instruction
    cases instruction with
    | push pushed => exact List.cons_ne_nil _ _
    | op code => exact List.cons_ne_nil _ _
  fetch_eq_ok_iff := fetchInstruction_eq_ok_iff

namespace ScriptEngine

variable [Crypto] (engine : ScriptEngine)

def execute : Instruction → ScriptM Unit
  | .push pushed => Stack.push pushed.data
  | .op code => engine.executeOp code

theorem executeInstruction_eq (opByte : UInt8) (cursor : Bytes) (stack : Stack) :
    engine.executeInstruction opByte cursor stack =
      (fetchInstruction opByte cursor).bind fun fetched =>
        (engine.execute fetched.1 stack).map fun result => (fetched.2, result.2) := by
  unfold executeInstruction fetchInstruction
  split
  next direct =>
      by_cases enough : opByte.toNat ≤ cursor.length
      · rw [dif_pos enough]
        simp only [ensure, if_pos enough]
        rfl
      · rw [dif_neg enough]
        simp only [ensure, if_neg enough]
        rfl
  next =>
      cases decodeOpCode opByte with
      | error error => rfl
      | ok op => rfl

/-- A turn of the loop after decoding, on the number of operations and the stack. -/
def turn (instruction : Instruction) (state : Nat × Stack) : Except ScriptError (Nat × Stack) :=
  if state.1 ≥ maxOpsPerScript then .error (.maxOpCountExceeded maxOpsPerScript)
  else (engine.execute instruction state.2).map fun result => (state.1 + 1, result.2)

/-- The instructions of a decoded script, one turn each. -/
def runDecoded (program : List Instruction) (state : Nat × Stack) :
    Except ScriptError (Nat × Stack) :=
  match program with
  | [] => .ok state
  | instruction :: program => (engine.turn instruction state).bind (runDecoded program)

/-- Behind the instructions the script is at its end or at a fault, which the limit
of operations comes before. -/
def finish (fault : Option ScriptError) (state : Nat × Stack) : Except ScriptError Machine :=
  match fault with
  | none => .ok ⟨[], state.1, state.2⟩
  | some fault =>
      if state.1 ≥ maxOpsPerScript then .error (.maxOpCountExceeded maxOpsPerScript)
      else .error fault

/-- Decode the script, then execute it. -/
def executeDecoded (bytecode : Bytes) (state : Nat × Stack) : Except ScriptError Machine :=
  (engine.runDecoded (scriptCode.disassemble bytecode).1 state).bind
    (finish (scriptCode.disassemble bytecode).2)

theorem executeBytecode_nil (opCount : Nat) (stack : Stack) :
    engine.executeBytecode ⟨[], opCount, stack⟩ = .ok ⟨[], opCount, stack⟩ :=
  (engine.executeBytecode_nil_eq_ok_iff opCount stack _).mpr rfl

theorem executeBytecode_of_step_error {machine : Machine} {error : ScriptError}
    (stepped : engine.step machine = .error error) :
    engine.executeBytecode machine = .error error := by
  rw [executeBytecode]
  split
  next error' stepped' =>
      cases stepped.symm.trans stepped'
      rfl
  next stepped' => cases stepped.symm.trans stepped'
  next stepped' => cases stepped.symm.trans stepped'

theorem executeBytecode_of_step {machine next : Machine}
    (stepped : engine.step machine = .ok (some next)) :
    engine.executeBytecode machine = engine.executeBytecode next := by
  rw [executeBytecode]
  split
  next stepped' => cases stepped.symm.trans stepped'
  next stepped' => cases stepped.symm.trans stepped'
  next stepped' =>
      cases stepped.symm.trans stepped'
      rfl

/-- One turn of the loop and the rest of it. -/
theorem executeBytecode_cons (opByte : UInt8) (cursor : Bytes) (opCount : Nat) (stack : Stack) :
    engine.executeBytecode ⟨opByte :: cursor, opCount, stack⟩ =
      if opCount ≥ maxOpsPerScript then .error (.maxOpCountExceeded maxOpsPerScript)
      else (engine.executeInstruction opByte cursor stack).bind fun result =>
        engine.executeBytecode ⟨result.1, opCount + 1, result.2⟩ := by
  split
  next many => exact engine.executeBytecode_of_step_error (if_pos many)
  next few =>
      have stepped : engine.step ⟨opByte :: cursor, opCount, stack⟩ =
          (engine.executeInstruction opByte cursor stack).map fun result =>
            some ⟨result.1, opCount + 1, result.2⟩ := if_neg few
      cases executed : engine.executeInstruction opByte cursor stack with
      | error error =>
          rw [executed] at stepped
          exact engine.executeBytecode_of_step_error stepped
      | ok result =>
          rw [executed] at stepped
          exact engine.executeBytecode_of_step stepped

/-- The loop that decodes as it executes gives the result of decoding first, with
the same error where it fails. -/
theorem executeBytecode_eq_executeDecoded (bytecode : Bytes) (opCount : Nat) (stack : Stack) :
    engine.executeBytecode ⟨bytecode, opCount, stack⟩ =
      engine.executeDecoded bytecode (opCount, stack) := by
  induction size : bytecode.length using Nat.strongRecOn generalizing bytecode opCount stack with
  | _ size inductionHypothesis =>
      cases bytecode with
      | nil =>
          rw [executeDecoded, scriptCode.disassemble_nil]
          exact engine.executeBytecode_nil opCount stack
      | cons opByte cursor =>
          rw [executeBytecode_cons, executeInstruction_eq, executeDecoded]
          cases fetched : fetchInstruction opByte cursor with
          | error fault =>
              rw [scriptCode.disassemble_of_error fetched]
              rfl
          | ok result =>
              obtain ⟨instruction, rest⟩ := result
              have shorter := scriptCode.length_lt_of_fetch fetched
              rw [scriptCode.disassemble_of_ok fetched, runDecoded, turn]
              split
              next => rfl
              next =>
                  change ((engine.execute instruction stack).map _).bind _ =
                    (((engine.execute instruction stack).map _).bind _).bind _
                  cases engine.execute instruction stack with
                  | error error => rfl
                  | ok result =>
                      exact inductionHypothesis _ (size ▸ shorter) rest (opCount + 1) result.2 rfl

/-- A script is instructions up to its end or to a place where none starts, and the
loop runs these and stops there. -/
theorem executeBytecode_spelled (bytecode : Bytes) :
    ∃ program rest fault, bytecode = scriptCode.assemble program ++ rest ∧
      (rest = [] ∧ fault = none ∨ ∃ opByte cursor error, rest = opByte :: cursor ∧
        fetchInstruction opByte cursor = .error error ∧ fault = some error) ∧
      ∀ opCount stack, engine.executeBytecode ⟨bytecode, opCount, stack⟩ =
        (engine.runDecoded program (opCount, stack)).bind (finish fault) := by
  obtain ⟨rest, spelled, stopped⟩ := scriptCode.exists_spelled bytecode
  exact ⟨_, rest, _, spelled, stopped, engine.executeBytecode_eq_executeDecoded bytecode⟩

end ScriptEngine

end Aurion
