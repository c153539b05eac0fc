import Aurion.Foundation.Protocol
import Aurion.Mempool.Pool

/-!
# The daemon's shared state

The tasks of the daemon share the authority engine with its database and the
pool behind a read-write lock.  Every request below is one atomic access.  An
insertion holds the write lock while it reads the ledger; selections, counts and
cleanups take the lock for one access only.
-/

namespace Aurion

open Foundation

inductive NodeOp
  | engine (op : EngineOp)
  | getBlock (hash : Hash256)
  | getBlockByHeight (height : UInt64)
  | lockMempool
  | stage (tx : Transaction) (now : UInt64) (validated : Except MempoolReject Quantum)
  | selectTransactions (maxBlockBytes : Nat)
  | mempoolLen
  | processCommittedBlock (block : Block)

abbrev NodeOp.Answer : NodeOp → Type
  | .engine op => op.Answer
  | .getBlock _ | .getBlockByHeight _ => Except StorageError (Option Block)
  | .lockMempool => Table OutPoint Hash256
  | .stage _ _ _ => Except MempoolReject Hash256
  | .selectTransactions _ => List Transaction
  | .mempoolLen => Nat
  | .processCommittedBlock _ => Unit

abbrev NodeM (Value : Type) := Program NodeOp NodeOp.Answer Value

/-- What the tasks share.  The last two fields are history and never read: the
committed blocks, and those that were committed when a task last read the tip. -/
structure Node where
  engine : AuthorityEngine
  mempool : Mempool
  writer : Option Nat
  committed : List Block
  seen : Nat → List Block

namespace Node

variable [Crypto]

/-- A node after its genesis initialisation, with an empty pool. -/
def start (maxBytes : Nat) : Node where
  engine := NodeRun.start.engine
  mempool := .new maxBytes
  writer := none
  committed := NodeRun.start.committed
  seen := fun _ => []

omit [Crypto] in
/-- The pool's lock keeps a task waiting while another one holds it. -/
def ready (node : Node) (task : Nat) : NodeOp → Bool
  | .lockMempool | .selectTransactions _ | .mempoolLen | .processCommittedBlock _ =>
      node.writer.isNone
  | .stage _ _ _ => node.writer == some task
  | .engine _ | .getBlock _ | .getBlockByHeight _ => true

def answer (node : Node) : (op : NodeOp) → op.Answer
  | .engine op => (working op node.engine).1
  | .getBlock hash => node.engine.storage.getBlock hash
  | .getBlockByHeight height => node.engine.storage.getBlockByHeight height
  | .lockMempool => node.mempool.spentOutpoints
  | .stage tx now validated => (node.mempool.stage tx now validated).1
  | .selectTransactions maxBlockBytes => node.mempool.selectTransactionsForBlock maxBlockBytes
  | .mempoolLen => node.mempool.len
  | .processCommittedBlock _ => ()

omit [Crypto] in
/-- The history after a request to the engine. -/
def record (node : Node) (task : Nat) : EngineOp → Node
  | .getTip => { node with seen := Function.update node.seen task node.committed }
  | .commitBlock block _ => { node with committed := node.committed ++ [block] }
  | .readState | .writeState _ | .storeCancelSignal _ | .getUtxo _ => node

def next (node : Node) (task : Nat) : NodeOp → Node
  | .engine op => { node.record task op with engine := (working op node.engine).2 }
  | .lockMempool => { node with writer := some task }
  | .stage tx now validated =>
      { node with mempool := (node.mempool.stage tx now validated).2, writer := none }
  | .processCommittedBlock block =>
      { node with mempool := node.mempool.processCommittedBlock block }
  | .getBlock _ | .getBlockByHeight _ | .selectTransactions _ | .mempoolLen => node

def serve : Service Nat NodeOp NodeOp.Answer Node := fun task op node =>
  if node.ready task op then some (node.answer op, node.next task op) else none

theorem serve_eq_some_iff (node node' : Node) (task : Nat) (op : NodeOp) (answer : op.Answer) :
    serve task op node = some (answer, node') ↔
      node.ready task op = true ∧ answer = node.answer op ∧ node' = node.next task op := by
  unfold serve
  split
  next ready => simp [ready, eq_comm]
  next waits => simp [waits]

end Node

end Aurion
