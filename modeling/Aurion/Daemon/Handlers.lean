import Aurion.Daemon.Service
import Aurion.Rpc.Template
import Mathlib.Data.List.Sort

/-!
# The tasks of the daemon

The remote calls and the listeners for inbound blocks and transactions, as
programs over the shared state.  Broadcasts and log entries are left out.  A
task is given the reading of the system clock, or why there is none.
-/

namespace Aurion

open Foundation

/-- The reason of a rejection is the debug text of the error kept here. -/
inductive SubmitResult
  | accepted (blockHash : Hash256) (height : UInt64)
  | rejected (reason : AuthorityError)

abbrev RpcM (Value : Type) := ExceptT String NodeM Value

/-- The clock's seconds since the epoch, or the text of its error. -/
abbrev Clock := Except String UInt64

namespace RpcHandler

def halvingIntervalBlocks : Nat := 200000

def initialSubsidyAur : Nat := 99

def quantumPerAur : Nat := 100000000

def maxBlockPayloadBytes : Nat := 2 * 1024 * 1024

def mtpWindowBlocks : Nat := 11

/-- `u128::checked_shr`. -/
def checkedShr (value shift : Nat) : Option Nat :=
  if shift < 128 then some (value >>> shift) else none

def calculateBlockSubsidy (height : UInt64) : Quantum :=
  if height.toNat / halvingIntervalBlocks ≥ 64 then Quantum.zero
  else
    let halvings := height.toNat / halvingIntervalBlocks
    let baseUnits := (checkedMul initialSubsidyAur quantumPerAur).getD 0
    Quantum.fromRaw ((checkedShr baseUnits halvings).getD 0)

def access (op : NodeOp) : NodeM op.Answer := Program.perform op

def ask (op : NodeOp) : RpcM op.Answer := ExceptT.lift (access op)

/-- A read of the database whose error becomes text. -/
def readStorage {Value : Type} (read : Except StorageError Value) : RpcM Value :=
  settle (read.mapError fun error => "storage read error: " ++ error.message)

def tip : RpcM (UInt64 × Hash256) := do
  let found ← readStorage (← ask (.engine .getTip))
  pure (found.getD (0, Hash256.zero))

/-- The loop over the blocks below a height, for as many samples as the window
still takes. -/
def collectTimestamps : Nat → UInt64 → List UInt64 → RpcM (List UInt64)
  | 0, _, samples => pure samples
  | room + 1, height, samples => do
      match ← readStorage (← ask (.getBlockByHeight height)) with
      | none => pure samples
      | some block =>
          let samples := samples ++ [block.header.timestamp]
          if height = 0 then pure samples else collectTimestamps room (height - 1) samples

/-- The middle sample in ascending order. -/
def median (samples : List UInt64) : UInt64 :=
  (samples.insertionSort (· ≤ ·)).getD (samples.length / 2) 0

def medianTimePast (tipHash : Hash256) : RpcM UInt64 := do
  let samples ← match ← readStorage (← ask (.getBlock tipHash)) with
    | none => pure []
    | some tipBlock => collectTimestamps mtpWindowBlocks tipBlock.header.height []
  pure (if samples = [] then genesisTimestamp else median samples)

/-- The target of some bits, the largest one when they are invalid. -/
def targetOf (bits : UInt32) : Except String Hash256 :=
  match compactToTarget bits with
  | .ok target => .ok target
  | .error _ =>
      (compactToTarget maxTargetBits).mapError fun error =>
        "target computation error: " ++ error.message

def nextWorkTarget (tipHash : Hash256) : RpcM Hash256 := do
  let found ← readStorage (← ask (.getBlock tipHash))
  settle (targetOf (found.elim maxTargetBits fun block => block.header.bits))

/-- `get_utxo(op).ok()??`, without coinbase metadata. -/
def viewed (read : Except StorageError (Option TxOutput)) : Option ExtendedUtxo :=
  match read with
  | .ok found => found.map fun output => ExtendedUtxo.fromOutput output 0 false
  | .error _ => none

def utxoView (op : OutPoint) : NodeM (Option ExtendedUtxo) := do
  let read ← access (.engine (.getUtxo op))
  pure (viewed read)

/-- The loop over the inputs of `calculate_tx_fee`. -/
def sumInputs : List TxInput → Quantum → ExceptT String ViewM Quantum
  | [], total => pure total
  | input :: rest, total => do
      let op := input.previousOutput
      let found ← ExceptT.lift (Program.perform op)
      let utxo ← settle (found.elim (.error ("input UTXO not in ledger: " ++ op.toText)) .ok)
      let total ← settle ((total.checkedAdd utxo.value).mapError fun _ => "input sum overflow")
      sumInputs rest total

def calculateTxFee (tx : Transaction) : ExceptT String ViewM Quantum := do
  let totalInput ← sumInputs tx.inputs Quantum.zero
  let totalOutput ← settle ((checkedSum (tx.outputs.map TxOutput.value)).mapError fun _ =>
    "output sum overflow")
  settle ((totalInput.checkedSub totalOutput).mapError fun _ =>
    "fee underflow: total outputs exceed total inputs")

/-- The loop over the selected transactions: a fee that cannot be computed is
passed over. -/
def addFees : List Transaction → Quantum → RpcM Quantum
  | [], total => pure total
  | tx :: rest, total => do
      match ← ExceptT.lift ((calculateTxFee tx).run.through utxoView) with
      | .ok fee =>
          let total ← settle ((total.checkedAdd fee).mapError fun _ => "fee accumulator overflow")
          addFees rest total
      | .error _ => addFees rest total

/-- `checked_add(1)` with the error of its overflow. -/
def successor (value : UInt64) (overflow : String) : Except String UInt64 :=
  if value.toNat + 1 < 2 ^ 64 then .ok (value + 1) else .error overflow

def readClock (clock : Clock) : Except String UInt64 :=
  clock.mapError fun error => "system time error: " ++ error

def templateTimestamp (now mtp : UInt64) : Except String UInt64 :=
  if now > mtp then .ok now else successor mtp "timestamp overflow"

def handleGetBlockTemplate (clock : Clock) : RpcM BlockTemplate := do
  let (tipHeight, tipHash) ← tip
  let nextHeight ← settle (successor tipHeight "block height overflow")
  let target ← nextWorkTarget tipHash
  let transactions ← ask (.selectTransactions maxBlockPayloadBytes)
  let totalFee ← addFees transactions Quantum.zero
  let coinbaseSubsidy := calculateBlockSubsidy nextHeight
  let now ← settle (readClock clock)
  let mtp ← medianTimePast tipHash
  let timestamp ← settle (templateTimestamp now mtp)
  pure { height := nextHeight, previousBlockHash := tipHash, target, timestamp, coinbaseSubsidy,
         totalFee, transactions }

variable [Crypto]

/-- The authority's pipeline as a part of a task. -/
def commit (block : Block) : NodeM (Except AuthorityError Unit) :=
  (processAndCommitBlock block).run.through fun op => access (.engine op)

def handleSubmitBlock (block : Block) : RpcM SubmitResult := do
  match ← ExceptT.lift (commit block) with
  | .ok () =>
      ask (.processCommittedBlock block)
      pure (.accepted block.blockHash block.header.height)
  | .error error => pure (.rejected error)

/-- `Mempool::insert` under the write lock. -/
def insertLocked (tx : Transaction) (tipHeight mtp now : UInt64) :
    NodeM (Except MempoolReject Hash256) := do
  let reserved ← access .lockMempool
  let validated ← (validateForMempool tx reserved tipHeight mtp).run.through utxoView
  access (.stage tx now validated)

def handleSendRawTx (tx : Transaction) (clock : Clock) : RpcM Hash256 := do
  let (tipHeight, tipHash) ← tip
  let mtp ← medianTimePast tipHash
  let now ← settle (readClock clock)
  let inserted ← ExceptT.lift (insertLocked tx tipHeight mtp now)
  settle (inserted.mapError MempoolReject.message)

def handleGetTipStatus : RpcM (UInt64 × Hash256 × Nat) := do
  let (height, bestBlockHash) ← tip
  let mempoolSize ← ask .mempoolLen
  pure (height, bestBlockHash, mempoolSize)

/-- One block from the listener for inbound blocks. -/
def inboundBlock (block : Block) : NodeM Unit := do
  match ← commit block with
  | .ok () => access (.processCommittedBlock block)
  | .error _ => pure ()

/-- One transaction from the listener for inbound transactions. -/
def inboundTransaction (tx : Transaction) (clock : Clock) : NodeM Unit := do
  match ← access (.engine .getTip) with
  | .error _ => pure ()
  | .ok found =>
      let (tipHeight, tipHash) := found.getD (0, Hash256.zero)
      let mtp := ((← (medianTimePast tipHash).run).toOption).getD 0
      let now := clock.toOption.getD 0
      let _ ← insertLocked tx tipHeight mtp now

end RpcHandler

inductive NodeTask
  | getBlockTemplate (clock : Clock)
  | submitBlock (decoded : DecodedBlock)
  | sendRawTx (tx : Transaction) (clock : Clock)
  | getTipStatus
  | inboundBlock (decoded : DecodedBlock)
  | inboundTransaction (tx : Transaction) (clock : Clock)

inductive NodeReply
  | template (result : Except String BlockTemplate)
  | submitted (result : Except String SubmitResult)
  | admitted (result : Except String Hash256)
  | tipStatus (result : Except String (UInt64 × Hash256 × Nat))
  | handled

namespace NodeTask

def transactions : NodeTask → List Transaction
  | .getBlockTemplate _ | .getTipStatus => []
  | .submitBlock decoded | .inboundBlock decoded => decoded.block.transactions
  | .sendRawTx tx _ | .inboundTransaction tx _ => [tx]

variable [Crypto]

def program : NodeTask → NodeM NodeReply
  | .getBlockTemplate clock => do
      return .template (← (RpcHandler.handleGetBlockTemplate clock).run)
  | .submitBlock decoded => do
      return .submitted (← (RpcHandler.handleSubmitBlock decoded.block).run)
  | .sendRawTx tx clock => do return .admitted (← (RpcHandler.handleSendRawTx tx clock).run)
  | .getTipStatus => do return .tipStatus (← RpcHandler.handleGetTipStatus.run)
  | .inboundBlock decoded => do
      RpcHandler.inboundBlock decoded.block
      return .handled
  | .inboundTransaction tx clock => do
      RpcHandler.inboundTransaction tx clock
      return .handled

end NodeTask

/-- The daemon and its tasks, each under its position in the list. -/
abbrev Daemon := Pool Nat NodeOp NodeOp.Answer NodeReply Node

namespace Daemon

variable [Crypto]

def start (maxBytes : Nat) (tasks : List NodeTask) : Daemon where
  programs task := (tasks[task]?).elim (.done .handled) NodeTask.program
  shared := .start maxBytes

/-- The state after the tasks have taken their turns in this order. -/
def after (maxBytes : Nat) (tasks : List NodeTask) (schedule : List Nat) : Daemon :=
  Steps.run (Pool.advance Node.serve) (start maxBytes tasks) schedule

omit [Crypto] in
/-- Some task has committed the block and has its cleanup still to run. -/
def Pending (daemon : Daemon) (block : Block) : Prop :=
  ∃ task resume, daemon.programs task = .request (.processCommittedBlock block) resume

end Daemon

end Aurion
