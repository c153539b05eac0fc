import Aurion.Eutxo.Maturity
import Aurion.Script.Stack

/-!
# The script engine

Bytecode runs one instruction at a time on a machine state: the bytes left,
the number of instructions executed and the stack.
-/

namespace Aurion

open Foundation

inductive OpCode
  | opFalse
  | opTrue
  | opNop
  | opVerify
  | opReturn
  | opDup
  | opDrop
  | opSwap
  | opEqual
  | opEqualVerify
  | opAdd
  | opSub
  | opHash256
  | opCheckSig
  | opCheckSigVerify
  | opTxInputsCount
  | opCurrentInputIdx
  | opTxOutputsCount
  | opTxOutputValue
  | opTxOutputScript
  | opTxOutputDatum
  | opTxLocktime
  | opValidationHeight
  deriving DecidableEq, Repr

def OpCode.fromU8 (byte : UInt8) : Option OpCode :=
  match byte.toNat with
  | 0x00 => some .opFalse
  | 0x51 => some .opTrue
  | 0x61 => some .opNop
  | 0x69 => some .opVerify
  | 0x6a => some .opReturn
  | 0x73 => some .opDup
  | 0x75 => some .opDrop
  | 0x78 => some .opSwap
  | 0x87 => some .opEqual
  | 0x88 => some .opEqualVerify
  | 0x93 => some .opAdd
  | 0x94 => some .opSub
  | 0xaa => some .opHash256
  | 0xac => some .opCheckSig
  | 0xad => some .opCheckSigVerify
  | 0xc0 => some .opTxInputsCount
  | 0xc1 => some .opCurrentInputIdx
  | 0xc2 => some .opTxOutputsCount
  | 0xc3 => some .opTxOutputValue
  | 0xc4 => some .opTxOutputScript
  | 0xc5 => some .opTxOutputDatum
  | 0xc6 => some .opTxLocktime
  | 0xc7 => some .opValidationHeight
  | _ => none

/-- Whether the byte pushes as many of the following bytes as its value. -/
def isDirectPush (opByte : UInt8) : Bool := 0x01 ≤ opByte && opByte ≤ 0x4b

def decodeOpCode (opByte : UInt8) : Except ScriptError OpCode :=
  match OpCode.fromU8 opByte with
  | none => .error (.invalidOpCode opByte)
  | some op => .ok op

theorem decodeOpCode_eq_ok_iff (opByte : UInt8) (op : OpCode) :
    decodeOpCode opByte = .ok op ↔ OpCode.fromU8 opByte = some op := by
  unfold decodeOpCode
  cases OpCode.fromU8 opByte <;> simp

structure ScriptContext where
  tx : Transaction
  currentInputIndex : Nat
  currentSpentUtxo : ExtendedUtxo
  fee : Quantum
  validationHeight : UInt64

/-- The engine's read-only part; its stack is threaded through `ScriptM`. -/
structure ScriptEngine where
  context : Option ScriptContext
  sighash : Hash256

def ScriptEngine.new [Crypto] (context : Option ScriptContext) : ScriptEngine where
  context := context
  sighash :=
    match context with
    | none => Hash256.zero
    | some ctx =>
        if ctx.currentInputIndex < ctx.tx.inputs.length then ctx.tx.sighash ctx.currentInputIndex
        else Hash256.zero

def isTruthy (data : Bytes) : Bool := data.any fun byte => byte != 0

/-- A signed 64-bit number in little-endian order, short strings padded with
zeros, which leave a little-endian value unchanged. -/
def decodeScriptInt (bytes : Bytes) : Except ScriptError Int :=
  if bytes.length > 8 then .error .arithmeticOverflow
  else if leValue bytes < 2 ^ 63 then .ok (leValue bytes)
  else .ok (leValue bytes - 2 ^ 64)

/-- The result of a checked 64-bit operation in little-endian bytes. -/
def encodeScriptInt (value : Int) : Except ScriptError Bytes :=
  if -2 ^ 63 ≤ value ∧ value < 2 ^ 63 then .ok (leBytes 8 (value % 2 ^ 64).toNat)
  else .error .arithmeticOverflow

def decodeU32Index (bytes : Bytes) : Except ScriptError Nat :=
  if bytes.length > 4 then .error .arithmeticOverflow
  else .ok (leValue bytes)

/-- A count that must fit in 32 bits, in little-endian bytes. -/
def encodeU32Count (count : Nat) : Except ScriptError Bytes :=
  if count < 2 ^ 32 then .ok (leBytes 4 count) else .error .arithmeticOverflow

def verifyEd25519 [Crypto] (pubkeyBytes sigBytes message : Bytes) : Bool :=
  if pubkeyBytes.length ≠ 32 ∨ sigBytes.length ≠ 64 then false
  else if Crypto.verifyingKey pubkeyBytes = false then false
  else Crypto.verifyStrict pubkeyBytes message sigBytes

namespace ScriptEngine

variable [Crypto] (engine : ScriptEngine)

def requireContext : Except ScriptError ScriptContext :=
  match engine.context with
  | none => .error .contextUnavailable
  | some ctx => .ok ctx

/-- The output an introspection opcode refers to. -/
def outputAt (ctx : ScriptContext) (idxBytes : Bytes) : Except ScriptError TxOutput := do
  let idx ← decodeU32Index idxBytes
  match ctx.tx.outputs[idx]? with
  | none => .error (.indexOutOfBounds idx)
  | some output => .ok output

def datumHash (datum : Datum) : Bytes :=
  match datum with
  | .none => List.replicate 32 0
  | datum => (Hash256.digest datum.encodeCanonical).asBytes

def pushFlag (flag : Bool) : ScriptM Unit := Stack.push (if flag then [1] else [])

def executeOp : OpCode → ScriptM Unit
  | .opFalse => Stack.push []
  | .opTrue => Stack.push [1]
  | .opNop => pure ()
  | .opReturn => throw .opReturnTriggered
  | .opVerify => do
      let item ← Stack.pop
      stateless (ensure (isTruthy item = true) .verifyFailed)
  | .opDup => Stack.dup
  | .opDrop => Stack.drop
  | .opSwap => Stack.swap
  | .opEqual => do
      let a ← Stack.pop
      let b ← Stack.pop
      pushFlag (decide (a = b))
  | .opEqualVerify => do
      let a ← Stack.pop
      let b ← Stack.pop
      stateless (ensure (a = b) .equalVerifyFailed)
  | .opAdd => do
      let bBytes ← Stack.pop
      let aBytes ← Stack.pop
      let aVal ← stateless (decodeScriptInt aBytes)
      let bVal ← stateless (decodeScriptInt bBytes)
      let sum ← stateless (encodeScriptInt (aVal + bVal))
      Stack.push sum
  | .opSub => do
      let bBytes ← Stack.pop
      let aBytes ← Stack.pop
      let aVal ← stateless (decodeScriptInt aBytes)
      let bVal ← stateless (decodeScriptInt bBytes)
      let diff ← stateless (encodeScriptInt (aVal - bVal))
      Stack.push diff
  | .opHash256 => do
      let item ← Stack.pop
      Stack.push (Hash256.digest item).asBytes
  | .opCheckSig => do
      let pubkeyBytes ← Stack.pop
      let sigBytes ← Stack.pop
      pushFlag (verifyEd25519 pubkeyBytes sigBytes engine.sighash.asBytes)
  | .opCheckSigVerify => do
      let pubkeyBytes ← Stack.pop
      let sigBytes ← Stack.pop
      stateless (ensure (verifyEd25519 pubkeyBytes sigBytes engine.sighash.asBytes = true)
        .verifyFailed)
  | .opTxInputsCount => do
      let ctx ← stateless engine.requireContext
      let count ← stateless (encodeU32Count ctx.tx.inputs.length)
      Stack.push count
  | .opCurrentInputIdx => do
      let ctx ← stateless engine.requireContext
      let idx ← stateless (encodeU32Count ctx.currentInputIndex)
      Stack.push idx
  | .opTxOutputsCount => do
      let ctx ← stateless engine.requireContext
      let count ← stateless (encodeU32Count ctx.tx.outputs.length)
      Stack.push count
  | .opTxOutputValue => do
      let ctx ← stateless engine.requireContext
      let idxBytes ← Stack.pop
      let output ← stateless (outputAt ctx idxBytes)
      Stack.push (leBytes 16 output.value.raw)
  | .opTxOutputScript => do
      let ctx ← stateless engine.requireContext
      let idxBytes ← Stack.pop
      let output ← stateless (outputAt ctx idxBytes)
      Stack.push (Hash256.digest output.lockingScript).asBytes
  | .opTxOutputDatum => do
      let ctx ← stateless engine.requireContext
      let idxBytes ← Stack.pop
      let output ← stateless (outputAt ctx idxBytes)
      Stack.push (datumHash output.datum)
  | .opTxLocktime => do
      let ctx ← stateless engine.requireContext
      Stack.push (leBytes 8 ctx.tx.locktime.toNat)
  | .opValidationHeight => do
      let ctx ← stateless engine.requireContext
      Stack.push (leBytes 8 ctx.validationHeight.toNat)

/-- The body of the bytecode loop after the operation count: execute one
instruction, whose operand starts at the cursor, and return the cursor after it. -/
def executeInstruction (opByte : UInt8) (cursor : Bytes) : ScriptM Bytes :=
  if isDirectPush opByte then do
    let pushLen := opByte.toNat
    stateless (ensure (pushLen ≤ cursor.length) .unexpectedEof)
    Stack.push (cursor.take pushLen)
    pure (cursor.drop pushLen)
  else do
    let op ← stateless (decodeOpCode opByte)
    engine.executeOp op
    pure cursor

theorem length_le_of_executeInstruction {opByte : UInt8} {cursor rest : Bytes}
    {before after : Stack}
    (executed : engine.executeInstruction opByte cursor before = .ok (rest, after)) :
    rest.length ≤ cursor.length := by
  unfold executeInstruction at executed
  split at executed
  · simp only [stateT_bind_eq_ok_iff, stateT_pure_eq_ok_iff] at executed
    obtain ⟨_, _, _, _, _, _, rfl, _⟩ := executed
    simp
  · simp only [stateT_bind_eq_ok_iff, stateT_pure_eq_ok_iff] at executed
    obtain ⟨_, _, _, _, _, _, rfl, _⟩ := executed
    exact Nat.le_refl _

end ScriptEngine

def maxOpsPerScript : Nat := 201

/-- The bytes a datum puts onto the stack. -/
def Datum.bytes : Datum → Option Bytes
  | .none => .none
  | .hash commitment => some commitment.asBytes
  | .inline data => some data

/-- A state of the bytecode loop. -/
structure Machine where
  cursor : Bytes
  opCount : Nat
  stack : Stack
  deriving DecidableEq

namespace ScriptEngine

variable [Crypto] (engine : ScriptEngine)

/-- One turn of the bytecode loop; no machine is left when the cursor is empty. -/
def step (machine : Machine) : Except ScriptError (Option Machine) :=
  match machine.cursor with
  | [] => .ok none
  | opByte :: cursor =>
      if machine.opCount ≥ maxOpsPerScript then .error (.maxOpCountExceeded maxOpsPerScript)
      else
        (engine.executeInstruction opByte cursor machine.stack).map fun result =>
          some { cursor := result.1, opCount := machine.opCount + 1, stack := result.2 }

theorem step_eq_ok_some_iff (machine next : Machine) :
    engine.step machine = .ok (some next) ↔
      ∃ opByte cursor, machine.cursor = opByte :: cursor ∧ machine.opCount < maxOpsPerScript ∧
        engine.executeInstruction opByte cursor machine.stack = .ok (next.cursor, next.stack) ∧
        next.opCount = machine.opCount + 1 := by
  unfold step
  split
  next empty => simp [empty]
  next opByte cursor shape =>
      simp only [shape, List.cons.injEq, ↓existsAndEq, true_and]
      split
      next many =>
          simp only [reduceCtorEq, false_iff]
          omega
      next few =>
          rcases next with ⟨nextCursor, nextCount, nextStack⟩
          cases engine.executeInstruction opByte cursor machine.stack with
          | error error => simp [Except.map]
          | ok result =>
              simp only [Except.map, Except.ok.injEq, Option.some.injEq, Machine.mk.injEq,
                Prod.ext_iff]
              grind

theorem length_lt_of_step {machine next : Machine}
    (stepped : engine.step machine = .ok (some next)) :
    next.cursor.length < machine.cursor.length := by
  rcases (engine.step_eq_ok_some_iff machine next).mp stepped with
    ⟨opByte, cursor, shape, -, executed, -⟩
  rw [shape, List.length_cons]
  exact Nat.lt_succ_of_le (engine.length_le_of_executeInstruction executed)

/-- Run the loop to the end of the cursor. -/
def executeBytecode (machine : Machine) : Except ScriptError Machine :=
  match _stepped : engine.step machine with
  | .error error => .error error
  | .ok none => .ok machine
  | .ok (some next) => executeBytecode next
termination_by machine.cursor.length
decreasing_by exact engine.length_lt_of_step _stepped

/-- The machine states in which the loop executes an instruction. -/
def visited (machine : Machine) : List Machine :=
  match _stepped : engine.step machine with
  | .error _ => [machine]
  | .ok none => []
  | .ok (some next) => machine :: visited next
termination_by machine.cursor.length
decreasing_by exact engine.length_lt_of_step _stepped

/-- Steps a and b: the datum and then the redeemer go onto an empty stack. -/
def pushArguments (datum : Datum) (redeemer : Option Bytes) : ScriptM Unit := do
  datum.bytes.forM Stack.push
  redeemer.forM Stack.push

/-- The machine at the start of the unlocking script. -/
def prepare (unlockingScript : Bytes) (datum : Datum) (redeemer : Option Bytes) :
    Except ScriptError Machine :=
  (pushArguments datum redeemer Stack.empty).map fun result =>
    { cursor := unlockingScript, opCount := 0, stack := result.2 }

/-- Steps a to c: the machine at the end of the unlocking script. -/
def executeUnlocking (unlockingScript : Bytes) (datum : Datum) (redeemer : Option Bytes) :
    Except ScriptError Machine := do
  let start ← prepare unlockingScript datum redeemer
  engine.executeBytecode start

def executeContract (lockingScript unlockingScript : Bytes) (datum : Datum)
    (redeemer : Option Bytes) : Except ScriptError Bool := do
  let unlocked ← engine.executeUnlocking unlockingScript datum redeemer
  let final ← engine.executeBytecode { unlocked with cursor := lockingScript }
  if final.stack.items.length ≠ 1 then pure false
  else do
    let (top, _) ← Stack.pop final.stack
    pure (isTruthy top)

end ScriptEngine

end Aurion
