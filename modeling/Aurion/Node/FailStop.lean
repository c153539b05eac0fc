import Aurion.Foundation.Protocol
import Aurion.Foundation.Steps
import Aurion.Ledger.Run

/-!
# Fail-stop

The public calls of the authority engine over a database whose calls may fail.
The commit pipeline does nothing in the failed state; the genesis
initialisation has no guard and leaves it.
-/

namespace Aurion

open Foundation

def NodeState.isFailed : NodeState → Bool
  | .failed _ => true
  | _ => false

section Faults

/-- What becomes of one storage call.  A late error comes after the effect of
the call. -/
inductive StorageOutcome
  | works
  | fails (error : StorageError)
  | failsLate (error : StorageError)
  deriving DecidableEq, Repr

/-- An engine and the outcomes of its next storage calls; after these all work. -/
structure FaultyEngine where
  engine : AuthorityEngine
  outcomes : List StorageOutcome

variable [Crypto]

/-- A storage call that takes the next outcome. -/
def FaultyEngine.storageCall {Value : Type} (faulty : FaultyEngine)
    (call : AuthorityEngine → Except StorageError Value × AuthorityEngine) :
    Except StorageError Value × FaultyEngine :=
  let (answer, engine) := call faulty.engine
  let outcomes := faulty.outcomes.tail
  match faulty.outcomes.headD .works with
  | .works => (answer, { engine, outcomes })
  | .fails error => (.error error, { faulty with outcomes })
  | .failsLate error => (.error error, { engine, outcomes })

/-- A database whose calls have the listed outcomes. -/
def failing : Handler EngineOp EngineOp.Answer FaultyEngine
  | .readState, faulty => (faulty.engine.state, faulty)
  | .writeState state, faulty =>
      ((), { faulty with engine := (working (.writeState state) faulty.engine).2 })
  | .storeCancelSignal signal, faulty =>
      ((), { faulty with engine := (working (.storeCancelSignal signal) faulty.engine).2 })
  | .getTip, faulty => faulty.storageCall (working .getTip)
  | .getUtxo op, faulty => faulty.storageCall (working (.getUtxo op))
  | .commitBlock block spentInputs, faulty =>
      faulty.storageCall (working (.commitBlock block spentInputs))

end Faults

section Calls

inductive AuthorityCall
  | initializeGenesis
  | processAndCommitBlock (block : Block)
  | failStop (fault : NodeFault)
  deriving DecidableEq

variable [Crypto]

/-- The engine after one call whose storage calls have these outcomes. -/
def AuthorityEngine.call (engine : AuthorityEngine) (event : AuthorityCall × List StorageOutcome) :
    AuthorityEngine :=
  let faulty : FaultyEngine := { engine, outcomes := event.2 }
  match event.1 with
  | .initializeGenesis => (initializeGenesis.run.run failing faulty).2.engine
  | .processAndCommitBlock block => ((processAndCommitBlock block).run.run failing faulty).2.engine
  | .failStop fault => ((failStop fault).run failing faulty).2.engine

/-- Once failed, the engine stays failed and its storage the same. -/
def AuthorityEngine.FailStopTerminal (engine : AuthorityEngine)
    (calls : List (AuthorityCall × List StorageOutcome)) : Prop :=
  Steps.Locks AuthorityEngine.call (fun engine => engine.state.isFailed = true)
    AuthorityEngine.storage engine calls

/-- The pipeline's first check ends a call on an engine that is not running. -/
theorem run_processAndCommitBlock_halted (faulty : FaultyEngine) (block : Block)
    (halted : faulty.engine.state.isOperational = false) :
    (processAndCommitBlock block).run.run failing faulty = (.error .nodeHalted, faulty) := by
  have refused : enforceOperational.run.run failing faulty = (.error .nodeHalted, faulty) := by
    change ((settle (ensure (faulty.engine.state.isOperational = true) _) :
      AuthorityM Unit).run.run failing faulty) = _
    rw [halted]
    rfl
  rw [processAndCommitBlock, verifyCandidate, ExceptT.run_bind, ExceptT.run_bind,
    Program.run_bind, Program.run_bind, refused]
  rfl

/-- The requests that put no engine into the failed state. -/
def EngineOp.KeepsUnfailed : EngineOp → Prop
  | .writeState state => state.isFailed = false
  | _ => True

omit [Crypto] in
theorem state_storageCall {Value : Type} (faulty : FaultyEngine)
    (call : AuthorityEngine → Except StorageError Value × AuthorityEngine)
    (keeps : (call faulty.engine).2.state = faulty.engine.state) :
    (faulty.storageCall call).2.engine.state = faulty.engine.state := by
  unfold FaultyEngine.storageCall
  cases faulty.outcomes.headD .works with
  | works | failsLate _ => exact keeps
  | fails _ => rfl

theorem unfailed_step (op : EngineOp) (faulty : FaultyEngine) (keeps : op.KeepsUnfailed)
    (unfailed : faulty.engine.state.isFailed = false) :
    (failing op faulty).2.engine.state.isFailed = false := by
  cases op with
  | readState | storeCancelSignal _ => exact unfailed
  | writeState state => exact keeps
  | getTip | getUtxo _ | commitBlock _ _ =>
      exact (congrArg NodeState.isFailed (state_storageCall faulty _ rfl)).trans unfailed

theorem only_initializeGenesis : initializeGenesis.run.Only EngineOp.KeepsUnfailed := by
  have asks : ∀ op : EngineOp, op.KeepsUnfailed → (ask op).run.Only EngineOp.KeepsUnfailed :=
    fun op keeps => .lift ⟨keeps, fun _ => trivial⟩
  refine .except_bind (asks _ rfl) fun _ => .except_bind (asks _ trivial) fun read => ?_
  refine .except_bind trivial fun tip => ?_
  split
  · exact .except_bind (asks _ trivial) fun answer => .except_bind trivial fun _ => asks _ rfl
  · exact asks _ rfl

/-- The initialisation leaves the failed state, whatever the storage does: its
first request writes another one. -/
theorem isFailed_initializeGenesis (faulty : FaultyEngine) :
    (initializeGenesis.run.run failing faulty).2.engine.state.isFailed = false := by
  let recovering : FaultyEngine :=
    { faulty with engine := { faulty.engine with state := .recovering } }
  have unfailed : recovering.engine.state.isFailed = false := rfl
  exact (only_initializeGenesis.2 ()).run_invariant unfailed_step unfailed

/-- What decides whether a call on a failed engine keeps it as it is. -/
theorem AuthorityEngine.call_keeps_iff {engine : AuthorityEngine}
    (failed : engine.state.isFailed = true) (event : AuthorityCall × List StorageOutcome) :
    ((engine.call event).state.isFailed = true ∧ (engine.call event).storage = engine.storage) ↔
      event.1 ≠ .initializeGenesis := by
  obtain ⟨call, outcomes⟩ := event
  cases call with
  | initializeGenesis =>
      have left : (engine.call (.initializeGenesis, outcomes)).state.isFailed = false :=
        isFailed_initializeGenesis { engine, outcomes }
      simp [left]
  | processAndCommitBlock block =>
      have halted : engine.state.isOperational = false := by
        cases state : engine.state with
        | failed fault => rfl
        | _ =>
            rw [state] at failed
            cases failed
      have unchanged : engine.call (.processAndCommitBlock block, outcomes) = engine :=
        congrArg (fun result => result.2.engine)
          (run_processAndCommitBlock_halted { engine, outcomes } block halted)
      simp [unchanged, failed]
  | failStop fault =>
      have stopped : engine.call (.failStop fault, outcomes) =
          { engine with state := .failed fault, cancelSignal := true } := rfl
      simp [stopped, NodeState.isFailed]

/-- Fail-stop is terminal in exactly the runs that do not initialise a failed
engine again. -/
theorem fail_stop_terminal_iff (engine : AuthorityEngine)
    (calls : List (AuthorityCall × List StorageOutcome)) :
    engine.FailStopTerminal calls ↔
      Steps.EachStep AuthorityEngine.call (fun engine event =>
        engine.state.isFailed = true → event.1 ≠ .initializeGenesis) engine calls := by
  refine Steps.locks_iff_eachStep.trans ?_
  apply forall₃_congr
  intro past next found
  exact forall_congr' fun failed => AuthorityEngine.call_keeps_iff failed next

end Calls

section Sample

attribute [local instance] Sample.crypto

/-- A fail-stop and then the initialisation on an empty database: the engine
runs again and has committed the genesis block. -/
theorem initialize_leaves_failed :
    ¬ ∀ (engine : AuthorityEngine) (calls : List (AuthorityCall × List StorageOutcome)),
      engine.FailStopTerminal calls := by
  intro claimed
  let stop : AuthorityCall × List StorageOutcome := (.failStop (.invariantViolation "fault"), [])
  let restart : AuthorityCall × List StorageOutcome := (.initializeGenesis, [])
  obtain ⟨stays, -⟩ := claimed (.new .empty) [stop, restart] [stop] [restart] List.prefix_rfl rfl
  have left := isFailed_initializeGenesis
    { engine := (AuthorityEngine.new .empty).call stop, outcomes := [] }
  exact absurd stays (Bool.not_eq_true _ ▸ left)

end Sample

end Aurion
