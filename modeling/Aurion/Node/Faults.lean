import Aurion.Foundation.Dialogue
import Aurion.Node.FailStop

/-!
# Which storage faults stop the engine

A fault of the tip read or of the commit enters the failed state.  A fault of a
lookup is taken for an absent output, and the initialisation reports its faults
without entering the failed state.
-/

namespace Aurion

open Foundation

section Definition

/-- A storage call that was answered with an error. -/
def EngineOp.isFault (op : EngineOp) : op.Answer → Bool :=
  match op with
  | .readState | .writeState _ | .storeCancelSignal _ => fun _ => false
  | .getTip | .getUtxo _ | .commitBlock _ _ => fun answer => !answer.isOk

def EngineOp.isLookup : EngineOp → Bool
  | .getUtxo _ => true
  | _ => false

abbrev EngineDialogue := List ((op : EngineOp) × op.Answer)

/-- One of the storage calls returned an error. -/
def HasFault (dialogue : EngineDialogue) : Prop :=
  ∃ exchange ∈ dialogue, exchange.1.isFault exchange.2 = true

/-- One of the lookups returned an error. -/
def HasLookupFault (dialogue : EngineDialogue) : Prop :=
  ∃ exchange ∈ dialogue, exchange.1.isFault exchange.2 = true ∧ exchange.1.isLookup = true

theorem HasLookupFault.hasFault {dialogue : EngineDialogue} (lookup : HasLookupFault dialogue) :
    HasFault dialogue := by
  obtain ⟨exchange, membership, fault, -⟩ := lookup
  exact ⟨exchange, membership, fault⟩

theorem hasFault_append_iff (first second : EngineDialogue) :
    HasFault (first ++ second) ↔ HasFault first ∨ HasFault second := by
  simp only [HasFault, List.mem_append, or_and_right, exists_or]

theorem hasLookupFault_append_iff (first second : EngineDialogue) :
    HasLookupFault (first ++ second) ↔ HasLookupFault first ∨ HasLookupFault second := by
  simp only [HasLookupFault, List.mem_append, or_and_right, exists_or]

@[simp]
theorem not_hasFault_nil : ¬ HasFault [] := by
  simp [HasFault]

theorem hasFault_cons_iff (op : EngineOp) (answer : op.Answer) (rest : EngineDialogue) :
    HasFault (⟨op, answer⟩ :: rest) ↔ op.isFault answer = true ∨ HasFault rest := by
  simp [HasFault]

theorem hasLookupFault_cons_iff (op : EngineOp) (answer : op.Answer) (rest : EngineDialogue) :
    HasLookupFault (⟨op, answer⟩ :: rest) ↔
      (op.isFault answer = true ∧ op.isLookup = true) ∨ HasLookupFault rest := by
  simp [HasLookupFault]

@[simp]
theorem hasFault_singleton_iff (op : EngineOp) (answer : op.Answer) :
    HasFault [⟨op, answer⟩] ↔ op.isFault answer = true := by
  simp [HasFault]

end Definition

section Careful

variable [Crypto] {Fault Value Next : Type}

/-- The program leaves the engine alone; only lookups fail in it, and none does
when it succeeds. -/
structure Careful (program : ExceptT Fault EngineM Value) : Prop where
  keeps : ∀ faulty, (program.run.run failing faulty).2.engine = faulty.engine
  lookups : ∀ faulty, HasFault (program.run.transcript failing faulty) →
    HasLookupFault (program.run.transcript failing faulty)
  clean : ∀ faulty value, (program.run.run failing faulty).1 = .ok value →
    ¬ HasFault (program.run.transcript failing faulty)

theorem Careful.bind {program : ExceptT Fault EngineM Value}
    {next : Value → ExceptT Fault EngineM Next} (careful : Careful program)
    (rest : ∀ value, Careful (next value)) : Careful (program >>= next) := by
  have cases := Program.except_bind_cases failing program next
  refine ⟨fun faulty => ?_, fun faulty fault => ?_, fun faulty value succeeds => ?_⟩
  · rcases cases faulty with ⟨_, -, ran, -⟩ | ⟨value, -, ran, -⟩
    · rw [ran, careful.keeps]
    · rw [ran, (rest value).keeps, careful.keeps]
  · rcases cases faulty with ⟨_, -, -, asked⟩ | ⟨value, -, -, asked⟩
    · rw [asked] at fault ⊢
      exact careful.lookups faulty fault
    · rw [asked, hasFault_append_iff] at fault
      rw [asked, hasLookupFault_append_iff]
      exact fault.imp (careful.lookups faulty) ((rest value).lookups _)
  · rcases cases faulty with ⟨_, -, ran, -⟩ | ⟨middle, first, ran, asked⟩
    · rw [ran] at succeeds
      cases succeeds
    · rw [ran] at succeeds
      rw [asked, hasFault_append_iff, not_or]
      exact ⟨careful.clean faulty middle first, (rest middle).clean _ value succeeds⟩

theorem Careful.settle (check : Except Fault Value) :
    Careful (Foundation.settle check : ExceptT Fault EngineM Value) where
  keeps _ := rfl
  lookups _ fault := absurd fault not_hasFault_nil
  clean _ _ _ := not_hasFault_nil

theorem Careful.pure (value : Value) : Careful (pure value : ExceptT Fault EngineM Value) :=
  .settle (.ok value)

theorem Careful.adapt {Fault' : Type} {program : ExceptT Fault EngineM Value}
    (careful : Careful program) (relabel : Fault → Fault') : Careful (program.adapt relabel) := by
  have asked (faulty : FaultyEngine) : (program.adapt relabel).run.transcript failing faulty =
      program.run.transcript failing faulty := by
    change (program.run >>= fun result => Pure.pure (result.mapError relabel)).transcript _ _ = _
    rw [Program.transcript_bind, Program.transcript_pure, List.append_nil]
  have ran (faulty : FaultyEngine) : (program.adapt relabel).run.run failing faulty =
      ((program.run.run failing faulty).1.mapError relabel,
        (program.run.run failing faulty).2) := by
    change (program.run >>= fun result => Pure.pure (result.mapError relabel)).run _ _ = _
    rw [Program.run_bind, Program.run_pure]
  refine ⟨fun faulty => ?_, fun faulty fault => ?_, fun faulty value succeeds => ?_⟩
  · rw [ran, careful.keeps]
  · rw [asked] at fault ⊢
    exact careful.lookups faulty fault
  · rw [ran, mapError_eq_ok_iff] at succeeds
    rw [asked]
    exact careful.clean faulty value succeeds

omit [Crypto] in
/-- A storage call that only reads leaves the engine alone. -/
theorem engine_storageCall (faulty : FaultyEngine)
    (call : AuthorityEngine → Except StorageError Value × AuthorityEngine)
    (reads : (call faulty.engine).2 = faulty.engine) :
    (faulty.storageCall call).2.engine = faulty.engine := by
  unfold FaultyEngine.storageCall
  cases faulty.outcomes.headD .works with
  | works | failsLate _ => exact reads
  | fails _ => rfl

theorem engine_getTip (faulty : FaultyEngine) : (failing .getTip faulty).2.engine = faulty.engine :=
  engine_storageCall faulty _ rfl

theorem engine_getUtxo (faulty : FaultyEngine) (op : OutPoint) :
    (failing (.getUtxo op) faulty).2.engine = faulty.engine :=
  engine_storageCall faulty _ rfl

/-- What is done with the answer to a lookup that has to find an output. -/
def demand (fault : InvariantError) (next : TxOutput → ExceptT InvariantError EngineM Next) :
    Except StorageError (Option TxOutput) → EngineM (Except InvariantError Next)
  | .ok (some utxo) => (next utxo).run
  | .ok none | .error _ => .done (.error fault)

/-- A failed lookup finds no output, so demanding one ends the program. -/
theorem Careful.lookup (op : OutPoint) (fault : InvariantError)
    {next : TxOutput → ExceptT InvariantError EngineM Next} (rest : ∀ utxo, Careful (next utxo)) :
    Careful (ExceptT.lift (utxoLookup op) >>= fun found =>
      Foundation.settle (found.elim (.error fault) .ok) >>= next) := by
  have shape : (ExceptT.lift (utxoLookup op) >>= fun found =>
      Foundation.settle (found.elim (.error fault) .ok) >>= next).run =
        .request (.getUtxo op) (demand fault next) := by
    apply congrArg (Program.request (EngineOp.getUtxo op))
    funext answer
    rcases answer with error | (_ | utxo) <;> rfl
  refine ⟨fun faulty => ?_, fun faulty failed => ?_, fun faulty value succeeds => ?_⟩
  · rw [shape, Program.run_request]
    rcases (failing (.getUtxo op) faulty).1 with error | (_ | utxo)
    · exact engine_getUtxo faulty op
    · exact engine_getUtxo faulty op
    · rw [demand, (rest utxo).keeps, engine_getUtxo]
  · rw [shape, Program.transcript] at failed ⊢
    rcases answered : (failing (.getUtxo op) faulty).1 with error | (_ | utxo)
    · exact ⟨_, List.mem_cons_self, rfl, rfl⟩
    · rw [answered, hasFault_cons_iff] at failed
      exact absurd failed (not_or.mpr ⟨nofun, not_hasFault_nil⟩)
    · rw [answered, hasFault_cons_iff] at failed
      rw [hasLookupFault_cons_iff]
      exact failed.imp (fun fault => ⟨fault, rfl⟩) ((rest utxo).lookups _)
  · rw [shape, Program.run_request] at succeeds
    rw [shape, Program.transcript, hasFault_cons_iff, not_or]
    rcases answered : (failing (.getUtxo op) faulty).1 with error | (_ | utxo)
    · rw [answered] at succeeds
      cases succeeds
    · rw [answered] at succeeds
      cases succeeds
    · rw [answered] at succeeds
      exact ⟨nofun, (rest utxo).clean _ value succeeds⟩

theorem careful_collectInputs (entries : List (TxInput × Nat)) (collected : Collected) :
    Careful (collectInputs utxoLookup entries collected) := by
  induction entries generalizing collected with
  | nil => exact .pure _
  | cons entry entries inductionHypothesis =>
      exact .bind (.settle _) fun _ => .lookup _ _ fun _ => .bind (.settle _) fun _ =>
        inductionHypothesis _

theorem careful_verifyTransactions (height : UInt64) (txs : List Transaction)
    (spentSet spentInputs : List OutPoint) :
    Careful (verifyTransactions utxoLookup height txs spentSet spentInputs) := by
  induction txs generalizing spentSet spentInputs with
  | nil => exact .pure _
  | cons tx txs inductionHypothesis =>
      unfold verifyTransactions
      split
      · exact inductionHypothesis _ _
      · exact .bind (.settle _) fun _ => .bind (careful_collectInputs _ _) fun _ =>
          .bind (.settle _) fun _ => inductionHypothesis _ _

theorem careful_enforceOperational : Careful enforceOperational := by
  have silent (faulty : FaultyEngine) :
      ¬ HasFault (enforceOperational.run.transcript failing faulty) :=
    (hasFault_singleton_iff .readState faulty.engine.state).not.mpr nofun
  exact ⟨fun _ => rfl, fun faulty fault => absurd fault (silent faulty), fun faulty _ _ =>
    silent faulty⟩

end Careful

section Pipeline

variable [Crypto] {Value Next : Type}

/-- How a stage of the pipeline that commits nothing may end. -/
inductive Ends (before : AuthorityEngine) :
    Except AuthorityError Value → AuthorityEngine → EngineDialogue → Prop
  | passed (value : Value) (dialogue : EngineDialogue) (clean : ¬ HasFault dialogue) :
      Ends before (.ok value) before dialogue
  | rejected (error : AuthorityError) (dialogue : EngineDialogue)
      (lookups : HasFault dialogue → HasLookupFault dialogue) :
      Ends before (.error error) before dialogue
  | stopped (text : String) (after : AuthorityEngine) (dialogue : EngineDialogue)
      (failed : after.state.isFailed = true) (fault : HasFault dialogue)
      (found : ¬ HasLookupFault dialogue) : Ends before (.error (.storage text)) after dialogue

omit [Crypto] in
theorem ends_ok_iff (before after : AuthorityEngine) (value : Value) (dialogue : EngineDialogue) :
    Ends before (.ok value) after dialogue ↔ after = before ∧ ¬ HasFault dialogue := by
  constructor
  · intro ended
    cases ended with
    | passed _ _ clean => exact ⟨rfl, clean⟩
  · rintro ⟨rfl, clean⟩
    exact .passed value dialogue clean

omit [Crypto] in
/-- What comes after a dialogue without faults decides how the whole ends. -/
theorem Ends.prepend {before after : AuthorityEngine} {result : Except AuthorityError Value}
    {first second : EngineDialogue} (ended : Ends before result after second)
    (clean : ¬ HasFault first) : Ends before result after (first ++ second) := by
  have later : HasFault (first ++ second) ↔ HasFault second := by
    rw [hasFault_append_iff, or_iff_right clean]
  have laterLookup : HasLookupFault (first ++ second) ↔ HasLookupFault second := by
    rw [hasLookupFault_append_iff, or_iff_right (clean ∘ HasLookupFault.hasFault)]
  cases ended with
  | passed value _ rest => exact .passed value _ (later.not.mpr rest)
  | rejected error _ lookups =>
      exact .rejected error _ fun fault => laterLookup.mpr (lookups (later.mp fault))
  | stopped text _ _ failed fault found =>
      exact .stopped text _ _ failed (later.mpr fault) (laterLookup.not.mpr found)

omit [Crypto] in
theorem Ends.relabel {before after : AuthorityEngine} {error : AuthorityError}
    {dialogue : EngineDialogue}
    (ended : Ends before (.error error : Except AuthorityError Value) after dialogue) :
    Ends before (.error error : Except AuthorityError Next) after dialogue := by
  cases ended with
  | rejected _ _ lookups => exact .rejected error _ lookups
  | stopped text _ _ failed fault found => exact .stopped text _ _ failed fault found

/-- Every run of the stage ends in one of these ways. -/
def Stage (program : AuthorityM Value) : Prop :=
  ∀ faulty, Ends faulty.engine (program.run.run failing faulty).1
    (program.run.run failing faulty).2.engine (program.run.transcript failing faulty)

theorem Careful.stage {program : AuthorityM Value} (careful : Careful program) : Stage program := by
  intro faulty
  rw [careful.keeps]
  cases result : (program.run.run failing faulty).1 with
  | ok value => exact .passed value _ (careful.clean faulty value result)
  | error error => exact .rejected error _ (careful.lookups faulty)

theorem Stage.bind {program : AuthorityM Value} {next : Value → AuthorityM Next}
    (stage : Stage program) (rest : ∀ value, Stage (next value)) : Stage (program >>= next) := by
  intro faulty
  have ended := stage faulty
  rcases Program.except_bind_cases failing program next faulty with
    ⟨fault, result, ran, asked⟩ | ⟨value, result, ran, asked⟩
  · rw [ran, asked]
    rw [result] at ended
    exact ended.relabel
  · rw [ran, asked]
    rw [result] at ended
    have continued := rest value (program.run.run failing faulty).2
    rw [ends_ok_iff] at ended
    rw [ended.1] at continued
    exact continued.prepend ended.2

/-- Failing after a faulty call that is no lookup stops the engine. -/
theorem ends_failWith (before : AuthorityEngine) {op : EngineOp} {answer : op.Answer}
    (fails : op.isFault answer = true) (other : op.isLookup = false)
    (fault : String → NodeFault) (error : StorageError) (faulty : FaultyEngine) :
    let program : AuthorityM Value := failWith fault error
    Ends before (program.run.run failing faulty).1 (program.run.run failing faulty).2.engine
      (⟨op, answer⟩ :: program.run.transcript failing faulty) := by
  refine .stopped error.message _ _ rfl (Or.inl fails |> (hasFault_cons_iff _ _ _).mpr) ?_
  have silent : ¬ HasLookupFault
      ((failWith fault error : AuthorityM Value).run.transcript failing faulty) := by
    change ¬ HasLookupFault [⟨.writeState _, ()⟩, ⟨.storeCancelSignal true, ()⟩]
    simp [HasLookupFault, EngineOp.isLookup]
  rw [hasLookupFault_cons_iff, other]
  exact not_or.mpr ⟨nofun, silent⟩

theorem stage_readTip : Stage readTip := by
  intro faulty
  obtain ⟨resume, ran, onTip, onError⟩ : ∃ resume, readTip.run = .request .getTip resume ∧
      (∀ tip, resume (.ok tip) = .done (.ok tip)) ∧
      ∀ error, resume (.error error) =
        (failWith .stateCorruption error : AuthorityM (Option (UInt64 × Hash256))).run :=
    ⟨_, rfl, fun _ => rfl, fun _ => rfl⟩
  rw [ran, Program.run_request, Program.transcript]
  cases answered : (failing .getTip faulty).1 with
  | ok tip =>
      rw [onTip]
      exact (ends_ok_iff _ _ _ _).mpr ⟨engine_getTip faulty,
        (hasFault_singleton_iff .getTip (.ok tip)).not.mpr nofun⟩
  | error error =>
      rw [onError]
      exact ends_failWith _ rfl rfl _ _ _

theorem stage_verifyCandidate (block : Block) : Stage (verifyCandidate block) :=
  careful_enforceOperational.stage.bind fun _ => stage_readTip.bind fun _ =>
    Careful.stage <| .bind (.settle _) fun _ => .bind (.settle _) fun _ => .bind (.settle _)
      fun _ => .adapt (careful_verifyTransactions _ _ _ _) _

/-- The last step of the pipeline. -/
def commitOrStop (block : Block) (spentInputs : List OutPoint) : AuthorityM Unit := do
  match ← ask (.commitBlock block spentInputs) with
  | .ok () => pure ()
  | .error error => failWith .storageCommitFailure error

theorem processAndCommitBlock_eq (block : Block) :
    processAndCommitBlock block = verifyCandidate block >>= commitOrStop block := rfl

/-- The commit ends with the block committed or with the engine stopped. -/
theorem commitOrStop_cases (faulty : FaultyEngine) (block : Block) (spentInputs : List OutPoint) :
    let final := (commitOrStop block spentInputs).run.run failing faulty
    let asked := (commitOrStop block spentInputs).run.transcript failing faulty
    (final.1 = .ok () ∧ final.2.engine.state = faulty.engine.state ∧ ¬ HasFault asked) ∨
      Ends faulty.engine final.1 final.2.engine asked := by
  obtain ⟨resume, ran, onDone, onError⟩ : ∃ resume,
      (commitOrStop block spentInputs).run = .request (.commitBlock block spentInputs) resume ∧
      (∀ done, resume (.ok done) = .done (.ok ())) ∧
      ∀ error, resume (.error error) =
        (failWith .storageCommitFailure error : AuthorityM Unit).run :=
    ⟨_, rfl, fun _ => rfl, fun _ => rfl⟩
  rw [ran, Program.run_request, Program.transcript]
  cases answered : (failing (.commitBlock block spentInputs) faulty).1 with
  | ok done =>
      have kept : (failing (.commitBlock block spentInputs) faulty).2.engine.state =
          faulty.engine.state := state_storageCall faulty _ rfl
      rw [onDone]
      exact Or.inl ⟨rfl, kept,
        (hasFault_singleton_iff (.commitBlock block spentInputs) (.ok done)).not.mpr nofun⟩
  | error error =>
      rw [onError]
      exact Or.inr (ends_failWith _ rfl rfl _ _ _)

/-- How the whole pipeline ends: with the block committed or refused without a
change of the engine, or with the engine stopped by a fault that is no lookup. -/
theorem processAndCommitBlock_cases (faulty : FaultyEngine) (block : Block) :
    let final := (processAndCommitBlock block).run.run failing faulty
    let asked := (processAndCommitBlock block).run.transcript failing faulty
    (final.1 = .ok () ∧ final.2.engine.state = faulty.engine.state ∧ ¬ HasFault asked) ∨
      Ends faulty.engine final.1 final.2.engine asked := by
  have ended := stage_verifyCandidate block faulty
  rw [processAndCommitBlock_eq]
  rcases Program.except_bind_cases failing (verifyCandidate block) (commitOrStop block) faulty with
    ⟨fault, result, ran, dialogue⟩ | ⟨spentInputs, result, ran, dialogue⟩
  · rw [ran, dialogue]
    rw [result] at ended
    exact Or.inr ended.relabel
  · rw [ran, dialogue]
    rw [result, ends_ok_iff] at ended
    have committed := commitOrStop_cases
      ((verifyCandidate block).run.run failing faulty).2 block spentInputs
    rw [ended.1] at committed
    exact committed.imp (fun done => ⟨done.1, done.2.1, by
      rw [hasFault_append_iff, not_or]
      exact ⟨ended.2, done.2.2⟩⟩) fun ends => ends.prepend ended.2

end Pipeline

section FaultsStop

variable [Crypto]

/-- The engine is failed at the end if and only if a storage call returned an
error. -/
def FaultsStop (program : AuthorityM Unit) (faulty : FaultyEngine) : Prop :=
  (program.run.run failing faulty).2.engine.state.isFailed = true ↔
    HasFault (program.run.transcript failing faulty)

/-- A block refused on these grounds is refused for what it is. -/
def AuthorityError.isRejection : AuthorityError → Bool
  | .invalidParent _ _ | .consensus _ | .invariant _ => true
  | .nodeHalted | .storage _ => false

/-- A refused block leaves ledger and state of the engine as they are. -/
def RejectionKeeps (block : Block) (faulty : FaultyEngine) : Prop :=
  ∀ error, ((processAndCommitBlock block).run.run failing faulty).1 = .error error →
    error.isRejection = true →
      ((processAndCommitBlock block).run.run failing faulty).2.engine.storage =
          faulty.engine.storage ∧
        ((processAndCommitBlock block).run.run failing faulty).2.engine.state = .running

omit [Crypto] in
theorem eq_running_of_isOperational {state : NodeState} (operational : state.isOperational = true) :
    state = .running := by
  cases state with
  | running => rfl
  | starting | recovering | stopped | failed _ => cases operational

theorem faultsStop_processAndCommitBlock_iff {faulty : FaultyEngine}
    (operational : faulty.engine.state.isOperational = true) (block : Block) :
    FaultsStop (processAndCommitBlock block) faulty ↔
      ¬ HasLookupFault ((processAndCommitBlock block).run.transcript failing faulty) := by
  have running := eq_running_of_isOperational operational
  have concluded := processAndCommitBlock_cases faulty block
  unfold FaultsStop
  generalize (processAndCommitBlock block).run.transcript failing faulty = asked at concluded ⊢
  generalize (processAndCommitBlock block).run.run failing faulty = final at concluded ⊢
  obtain ⟨result, ⟨engine, outcomes⟩⟩ := final
  rcases concluded with ⟨-, kept, clean⟩ | ended
  · have unfailed : engine.state.isFailed = false := by rw [kept, running]; rfl
    have found := mt HasLookupFault.hasFault clean
    simp [unfailed, clean, found]
  · cases ended with
    | passed _ _ clean =>
        have found := mt HasLookupFault.hasFault clean
        simp [running, NodeState.isFailed, clean, found]
    | rejected _ _ lookups =>
        have same : HasFault asked ↔ HasLookupFault asked :=
          ⟨lookups, HasLookupFault.hasFault⟩
        simp [running, NodeState.isFailed, same]
    | stopped _ _ _ failed fault found => simp [failed, fault, found]

theorem rejectionKeeps_of_operational {faulty : FaultyEngine}
    (operational : faulty.engine.state.isOperational = true) (block : Block) :
    RejectionKeeps block faulty := by
  have running := eq_running_of_isOperational operational
  intro error refused rejection
  rcases processAndCommitBlock_cases faulty block with ⟨committed, -⟩ | ended
  · cases committed.symm.trans refused
  · rw [refused] at ended
    generalize ((processAndCommitBlock block).run.run failing faulty).2.engine = engine
      at ended ⊢
    cases ended with
    | rejected _ _ _ => exact ⟨rfl, running⟩
    | stopped _ _ _ _ _ _ => cases rejection

/-- A fault stops the pipeline on an operational engine exactly in the calls in
which no lookup fails, and the initialisation on a fresh engine exactly when
nothing fails.  A refused block changes nothing. -/
theorem faults_stop_exactly (engine : AuthorityEngine)
    (operational : engine.state.isOperational = true) (block : Block) (storage : StorageEngine)
    (outcomes : List StorageOutcome) :
    (FaultsStop (processAndCommitBlock block) { engine, outcomes } ↔
      ¬ HasLookupFault ((processAndCommitBlock block).run.transcript failing
        { engine, outcomes })) ∧
    RejectionKeeps block { engine, outcomes } ∧
    (FaultsStop initializeGenesis { engine := .new storage, outcomes } ↔
      ¬ HasFault (initializeGenesis.run.transcript failing { engine := .new storage, outcomes })) :=
    by
  refine ⟨faultsStop_processAndCommitBlock_iff operational block,
    rejectionKeeps_of_operational operational block, ?_⟩
  rw [FaultsStop, isFailed_initializeGenesis]
  simp

end FaultsStop

section Sample

open Sample

attribute [local instance] Sample.crypto

/-- The commit fails: the engine stops. -/
theorem faults_stop_exactly_settled :
    FaultsStop (processAndCommitBlock settled) {
      engine := (NodeRun.after [firstDecoded]).engine
      outcomes := [.works, .works, .fails (.database "no space left")] } :=
  (faults_stop_exactly (NodeRun.after [firstDecoded]).engine (by decide +kernel) settled .empty
    [.works, .works, .fails (.database "no space left")]).1.mpr (by
      unfold HasLookupFault
      decide +kernel)

/-- The lookup of the coinbase that the block spends fails: the block is refused
and the engine goes on running. -/
theorem lookup_fault_ignored :
    ¬ ∀ (engine : AuthorityEngine) (block : Block) (storage : StorageEngine)
      (outcomes : List StorageOutcome), engine.state.isOperational = true →
      FaultsStop (processAndCommitBlock block) { engine, outcomes } ∧
        RejectionKeeps block { engine, outcomes } ∧
        FaultsStop initializeGenesis { engine := .new storage, outcomes } := by
  intro claimed
  obtain ⟨stops, -⟩ := claimed (NodeRun.after [firstDecoded]).engine settled .empty
    [.works, .fails (.database "input/output error")] (by decide +kernel)
  unfold FaultsStop HasFault at stops
  revert stops
  decide +kernel

end Sample

end Aurion
