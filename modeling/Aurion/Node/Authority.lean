import Aurion.Foundation.Program
import Aurion.Node.Invariants
import Aurion.Storage.Engine

/-!
# The authority engine

The commit pipeline is a program over the engine's shared state.  Each request
is one atomic access: to the node state, to the cancel signal, or one database
transaction.  Its run on a working database is a verdict followed by a commit.
-/

namespace Aurion

open Foundation

inductive NodeFault
  | storageCommitFailure (text : String)
  | invariantViolation (text : String)
  | consensusViolation (text : String)
  | stateCorruption (text : String)
  | hardwareViolation (text : String)
  deriving DecidableEq, Repr

inductive NodeState
  | starting
  | recovering
  | running
  | stopped
  | failed (fault : NodeFault)
  deriving DecidableEq, Repr

def NodeState.isOperational : NodeState → Bool
  | .running => true
  | _ => false

inductive AuthorityError
  | nodeHalted
  | consensus (error : ConsensusError)
  | invariant (error : InvariantError)
  | storage (text : String)
  | invalidParent (expected actual : Hash256)
  deriving DecidableEq, Repr

structure AuthorityEngine where
  state : NodeState
  storage : StorageEngine
  cancelSignal : Bool

def AuthorityEngine.new (storage : StorageEngine) : AuthorityEngine :=
  { state := .starting, storage, cancelSignal := false }

inductive EngineOp
  | readState
  | writeState (state : NodeState)
  | storeCancelSignal (signal : Bool)
  | getTip
  | getUtxo (outpoint : OutPoint)
  | commitBlock (block : Block) (spentInputs : List OutPoint)
  deriving DecidableEq, Repr

abbrev EngineOp.Answer : EngineOp → Type
  | .readState => NodeState
  | .writeState _ | .storeCancelSignal _ => Unit
  | .getTip => Except StorageError (Option (UInt64 × Hash256))
  | .getUtxo _ => Except StorageError (Option TxOutput)
  | .commitBlock _ _ => Except StorageError Unit

abbrev EngineM (Value : Type) := Program EngineOp EngineOp.Answer Value

abbrev AuthorityM (Value : Type) := ExceptT AuthorityError EngineM Value

def request (op : EngineOp) : EngineM op.Answer := Program.perform op

def ask (op : EngineOp) : AuthorityM op.Answer := ExceptT.lift (request op)

def enforceOperational : AuthorityM Unit := do
  let state ← ask .readState
  settle (ensure (state.isOperational = true) .nodeHalted)

def failStop (fault : NodeFault) : EngineM Unit := do
  request (.writeState (.failed fault))
  request (.storeCancelSignal true)

/-- Enter the terminal state and return the storage error. -/
def failWith {Value : Type} (fault : String → NodeFault) (error : StorageError) :
    AuthorityM Value := do
  ExceptT.lift (failStop (fault error.message))
  throw (.storage error.message)

def initializeGenesis [Crypto] : AuthorityM Unit := do
  ask (.writeState .recovering)
  let tip ← settle ((← ask .getTip).mapError fun error => .storage error.message)
  if tip.isNone then
    settle ((← ask (.commitBlock createGenesisBlock [])).mapError fun error =>
      .storage error.message)
  ask (.writeState .running)

/-- The height and the parent that the next block must have. -/
def expectedConnection (tip : Option (UInt64 × Hash256)) :
    Except AuthorityError (UInt64 × Hash256) :=
  match tip with
  | some (height, parentHash) =>
      if height.toNat + 1 < 2 ^ 64 then .ok (height + 1, parentHash) else .error .nodeHalted
  | none => .ok (0, Hash256.zero)

/-- `get_utxo(op).unwrap_or(None)`. -/
def utxoLookup (op : OutPoint) : EngineM (Option TxOutput) := do
  match ← request (.getUtxo op) with
  | .ok found => pure found
  | .error _ => pure none

def readTip : AuthorityM (Option (UInt64 × Hash256)) := do
  match ← ask .getTip with
  | .ok tip => pure tip
  | .error error => failWith .stateCorruption error

/-- Steps 1 to 4 of the pipeline: operation, parent, structure and invariants. -/
def verifyCandidate [Crypto] (block : Block) : AuthorityM (List OutPoint) := do
  enforceOperational
  let tip ← readTip
  let expected ← settle (expectedConnection tip)
  settle (ensure (block.header.prevBlockHash = expected.2)
    (.invalidParent expected.2 block.header.prevBlockHash))
  settle ((verifyBlockStructure block expected.1).mapError .consensus)
  (verifyBlockInvariantsM block utxoLookup).adapt .invariant

def processAndCommitBlock [Crypto] (block : Block) : AuthorityM Unit := do
  let spentInputs ← verifyCandidate block
  match ← ask (.commitBlock block spentInputs) with
  | .ok () => pure ()
  | .error error => failWith .storageCommitFailure error

/-- A database whose calls succeed. -/
def working [Crypto] : Handler EngineOp EngineOp.Answer AuthorityEngine
  | .readState, engine => (engine.state, engine)
  | .writeState state, engine => ((), { engine with state })
  | .storeCancelSignal cancelSignal, engine => ((), { engine with cancelSignal })
  | .getTip, engine => (.ok engine.storage.getTip, engine)
  | .getUtxo op, engine => (engine.storage.getUtxo op, engine)
  | .commitBlock block spentInputs, engine =>
      (.ok (), { engine with storage := engine.storage.commitBlock block spentInputs })

section Run

variable [Crypto]

/-- What the pipeline's lookup returns on a database. -/
def StorageEngine.lookup (storage : StorageEngine) (op : OutPoint) : Option TxOutput :=
  match storage.getUtxo op with
  | .ok found => found
  | .error _ => none

/-- The decision on a block as a function of the engine's state. -/
def verdict (engine : AuthorityEngine) (block : Block) :
    Except AuthorityError (List OutPoint) := do
  ensure (engine.state.isOperational = true) .nodeHalted
  let expected ← expectedConnection engine.storage.getTip
  ensure (block.header.prevBlockHash = expected.2)
    (.invalidParent expected.2 block.header.prevBlockHash)
  (verifyBlockStructure block expected.1).mapError .consensus
  (verifyBlockInvariants block engine.storage.lookup).mapError .invariant

theorem settles_utxoLookup (engine : AuthorityEngine) (op : OutPoint) :
    (utxoLookup op).run working engine = (engine.storage.lookup op, engine) := by
  simp only [utxoLookup, request, Program.run_bind, Program.run_perform, working,
    StorageEngine.lookup]
  cases engine.storage.getUtxo op <;> rfl

theorem settles_collectInputs (engine : AuthorityEngine) (entries : List (TxInput × Nat))
    (collected : Collected) :
    Program.Settles working engine (collectInputs utxoLookup entries collected)
      (collectInputs (fun op => (pure (engine.storage.lookup op) : Id _)) entries collected) := by
  induction entries generalizing collected with
  | nil => exact .pure _
  | cons entry entries inductionHypothesis =>
      exact .bind (.settle _) fun _ => .bind (.lift (settles_utxoLookup engine _)) fun _ =>
        .bind (.settle _) fun _ => .bind (.settle _) fun _ => inductionHypothesis _

theorem settles_verifyTransactions (engine : AuthorityEngine) (height : UInt64)
    (txs : List Transaction) (spentSet spentInputs : List OutPoint) :
    Program.Settles working engine
      (verifyTransactions utxoLookup height txs spentSet spentInputs)
      (verifyTransactions (fun op => (pure (engine.storage.lookup op) : Id _)) height txs spentSet
        spentInputs) := by
  induction txs generalizing spentSet spentInputs with
  | nil => exact .pure _
  | cons tx txs inductionHypothesis =>
      unfold verifyTransactions
      split
      · exact inductionHypothesis _ _
      · exact .bind (.settle _) fun _ => .bind (settles_collectInputs engine _ _) fun _ =>
          .bind (.settle _) fun _ => inductionHypothesis _ _

theorem settles_verifyCandidate (engine : AuthorityEngine) (block : Block) :
    ∃ validator, Program.Settles working engine (verifyCandidate block) validator ∧
      outcome validator = verdict engine block := by
  have operational : Program.Settles working engine enforceOperational
      (settle (ensure (engine.state.isOperational = true) .nodeHalted)) := rfl
  have tip : Program.Settles working engine readTip (settle (.ok engine.storage.getTip)) := rfl
  exact ⟨_, .bind operational fun _ => .bind tip fun tip => .bind (.settle (expectedConnection tip))
    fun _ => .bind (.settle _) fun _ => .bind (.settle _) fun _ =>
      .adapt (settles_verifyTransactions engine _ _ _ _) _, by
        simp only [outcome_bind, outcome_settle, outcome_adapt]
        rfl⟩

/-- The pipeline on a working database: the verdict, then the commit. -/
theorem run_processAndCommitBlock (engine : AuthorityEngine) (block : Block) :
    (processAndCommitBlock block).run.run working engine =
      match verdict engine block with
      | .error error => (.error error, engine)
      | .ok spentInputs =>
          (.ok (), { engine with storage := engine.storage.commitBlock block spentInputs }) := by
  obtain ⟨validator, settles, decides⟩ := settles_verifyCandidate engine block
  rw [Program.Settles, decides] at settles
  rw [processAndCommitBlock, ExceptT.run_bind, Program.run_bind, settles]
  cases verdict engine block <;> rfl

end Run

end Aurion
