import Aurion.Daemon.Handlers
import Aurion.Ledger.Serializability
import Aurion.Mempool.BlockValidity

/-!
# The modes of a task

What a task may still ask of the shared state: a block is committed with the
outpoints it spends and is cleaned up next, an insertion reads the ledger under
the lock and stages what the gates accept for these reads, and a template is
put together from one tip and one selection.
-/

namespace Aurion

open Foundation

section Pipeline

variable [Crypto]

omit [Crypto] in
/-- The outputs a collection ends with are those of its inputs, in order. -/
theorem collected_of_yields {utxoLookup : OutPoint → EngineM (Option TxOutput)}
    {entries : List (TxInput × Nat)} {before after : Collected}
    {dialogue : List ((op : EngineOp) × op.Answer)}
    (yields : (collectInputs utxoLookup entries before).run.Yields dialogue (.ok after)) :
    after.txSpentUtxos.map (fun spent => spent.input.previousOutput) =
      before.txSpentUtxos.map (fun spent => spent.input.previousOutput) ++
        entries.map fun entry => entry.1.previousOutput := by
  induction entries generalizing before dialogue with
  | nil =>
      obtain ⟨-, rfl⟩ := (Program.yields_ok_pure_iff _ _).mp yields
      simp
  | cons entry entries inductionHypothesis =>
      simp only [collectInputs, Program.yields_ok_settle_bind_iff] at yields
      obtain ⟨_, -, yields⟩ := yields
      obtain ⟨_, _, _, -, -, yields⟩ := (Program.yields_ok_bind_iff _ _ _).mp yields
      simp only [Program.yields_ok_settle_bind_iff] at yields
      obtain ⟨_, -, _, -, yields⟩ := yields
      rw [inductionHypothesis yields]
      simp

theorem spent_of_yields {utxoLookup : OutPoint → EngineM (Option TxOutput)} {height : UInt64}
    {txs : List Transaction} {spentSet spentInputs result : List OutPoint}
    {dialogue : List ((op : EngineOp) × op.Answer)}
    (yields : (verifyTransactions utxoLookup height txs spentSet spentInputs).run.Yields dialogue
      (.ok result)) :
    result = spentInputs ++
      (txs.filter fun tx => !tx.isCoinbase).flatMap Transaction.outPoints := by
  induction txs generalizing spentSet spentInputs dialogue with
  | nil =>
      obtain ⟨-, rfl⟩ := (Program.yields_ok_pure_iff _ _).mp yields
      simp
  | cons tx txs inductionHypothesis =>
      unfold verifyTransactions at yields
      split at yields
      next coinbase => simpa [coinbase] using inductionHypothesis yields
      next spends =>
          simp only [Program.yields_ok_settle_bind_iff] at yields
          obtain ⟨_, -, yields⟩ := yields
          obtain ⟨_, _, collected, -, collects, yields⟩ :=
            (Program.yields_ok_bind_iff _ _ _).mp yields
          simp only [Program.yields_ok_settle_bind_iff, verifySpends_eq_ok_iff] at yields
          obtain ⟨_, ⟨-, -, rfl⟩, yields⟩ := yields
          have inputs := collected_of_yields collects
          rw [map_zipIdx_fst tx fun op => op] at inputs
          rw [inductionHypothesis yields, inputs]
          simp [spends]

/-- However the database answers, a verified block spends its own inputs. -/
theorem spent_of_yields_verifyCandidate {block : Block} {spentInputs : List OutPoint}
    {dialogue : List ((op : EngineOp) × op.Answer)}
    (yields : (verifyCandidate block).run.Yields dialogue (.ok spentInputs)) :
    spentInputs = block.spentOutPoints := by
  obtain ⟨_, _, _, -, -, yields⟩ := (Program.yields_ok_bind_iff _ _ _).mp yields
  obtain ⟨_, _, _, -, -, yields⟩ := (Program.yields_ok_bind_iff _ _ _).mp yields
  simp only [Program.yields_ok_settle_bind_iff] at yields
  obtain ⟨_, -, _, -, _, -, yields⟩ := yields
  rw [Program.yields_ok_adapt_iff] at yields
  exact spent_of_yields yields

end Pipeline

section Definition

inductive TaskMode
  | idle
  | cleaning (block : Block)
  | staging (reserved : Table OutPoint Hash256) (reads : List ViewRead)
  | planning
  | templating (tip : Hash256)
  | selected (tip : Hash256) (transactions : List Transaction)

/-- The reads that no mode minds. -/
def NodeOp.Quiet : NodeOp → Prop
  | .engine (.getUtxo _) | .getBlock _ | .getBlockByHeight _ => True
  | _ => False

variable [Crypto]

namespace TaskMode

def allowed (txs : List Transaction) : TaskMode → NodeOp → Prop
  | .idle, .engine (.commitBlock block spentInputs) =>
      block.WellFormed ∧ block.transactions ⊆ txs ∧ spentInputs = block.spentOutPoints
  | .idle, .engine _ | .idle, .getBlock _ | .idle, .getBlockByHeight _ | .idle, .lockMempool
  | .idle, .mempoolLen => True
  | .cleaning block, op => op = .processCommittedBlock block
  | .staging _ _, .engine (.getUtxo _) => True
  | .staging reserved reads, .stage tx _ validated => tx ∈ txs ∧ ∀ fee, validated = .ok fee →
      ∃ utxos tipHeight mtp, reads = foundReads tx.inputs.zipIdx utxos ∧
        Admissible tx reserved tipHeight mtp utxos fee
  | .planning, .engine .getTip => True
  | .templating _, .selectTransactions _ => True
  | .templating _, op | .selected _ _, op => op.Quiet
  | _, _ => False

omit [Crypto] in
def next : TaskMode → (op : NodeOp) → op.Answer → TaskMode
  | .idle, .engine (.commitBlock block _), .ok () => .cleaning block
  | .idle, .lockMempool, reserved => .staging reserved []
  | .staging reserved reads, .engine (.getUtxo op), read =>
      .staging reserved (reads ++ [⟨op, RpcHandler.viewed read⟩])
  | .planning, .engine .getTip, .ok found => .templating (found.getD (0, Hash256.zero)).2
  | .templating tip, .selectTransactions _, transactions => .selected tip transactions
  | .cleaning _, _, _ | .staging _ _, .stage _ _ _, _ => .idle
  | mode, _, _ => mode

omit [Crypto] in
/-- What a task may return in the mode it ends in. -/
def Returns : TaskMode → NodeReply → Prop
  | .cleaning _, _ | .staging _ _, _ => False
  | .selected tip transactions, .template (.ok template) =>
      template.previousBlockHash = tip ∧ template.transactions = transactions
  | _, .template (.ok _) => False
  | _, _ => True

end TaskMode

/-- The protocol of tasks whose transactions are from the list. -/
def taskProtocol (txs : List Transaction) : Protocol TaskMode NodeOp NodeOp.Answer where
  allowed := TaskMode.allowed txs
  next := TaskMode.next

omit [Crypto] in
/-- The mode in which a task begins. -/
def NodeTask.mode : NodeTask → TaskMode
  | .getBlockTemplate _ => .planning
  | _ => .idle

end Definition

section Reads

open RpcHandler

theorem only_access {permits : NodeOp → Prop} {op : NodeOp} (permitted : permits op) :
    (access op).Only permits :=
  ⟨permitted, fun _ => trivial⟩

theorem only_utxoView (op : OutPoint) : (utxoView op).Only NodeOp.Quiet :=
  Program.Only.bind (only_access trivial) fun _ => trivial

theorem only_collectTimestamps (room : Nat) (height : UInt64) (samples : List UInt64) :
    (collectTimestamps room height samples).run.Only NodeOp.Quiet := by
  induction room generalizing height samples with
  | zero => exact trivial
  | succ room inductionHypothesis =>
      refine .except_bind (.lift (only_access trivial)) fun read => ?_
      refine .except_bind trivial fun found => ?_
      cases found with
      | none => exact trivial
      | some block =>
          dsimp only
          split
          · exact trivial
          · exact inductionHypothesis _ _

theorem only_medianTimePast (tipHash : Hash256) :
    (medianTimePast tipHash).run.Only NodeOp.Quiet := by
  refine .except_bind (.lift (only_access trivial)) fun read => ?_
  refine .except_bind trivial fun found => ?_
  cases found with
  | none => exact trivial
  | some block => exact .except_bind (only_collectTimestamps _ _ _) fun _ => trivial

theorem only_nextWorkTarget (tipHash : Hash256) :
    (nextWorkTarget tipHash).run.Only NodeOp.Quiet :=
  .except_bind (.lift (only_access trivial)) fun _ => .except_bind trivial fun _ => trivial

theorem only_addFees (txs : List Transaction) (total : Quantum) :
    (addFees txs total).run.Only NodeOp.Quiet := by
  induction txs generalizing total with
  | nil => exact trivial
  | cons tx txs inductionHypothesis =>
      refine .except_bind (.lift (.through only_utxoView _)) fun fee => ?_
      cases fee with
      | error _ => exact inductionHypothesis total
      | ok fee => exact .except_bind trivial fun _ => inductionHypothesis _

end Reads

section Conformance

open RpcHandler

variable [Crypto] {txs : List Transaction} {task : Nat}

/-- A quiet read leaves a mode alone that allows it. -/
theorem quiet_keeps (txs : List Transaction) {mode : TaskMode}
    (browses : mode = .idle ∨ (∃ tip, mode = .templating tip) ∨
      ∃ tip transactions, mode = .selected tip transactions) (op : NodeOp) (quiet : op.Quiet) :
    (taskProtocol txs).allowed mode op ∧
      ∀ answer, (taskProtocol txs).next mode op answer = mode := by
  obtain rfl | ⟨tip, rfl⟩ | ⟨tip, transactions, rfl⟩ := browses <;>
    cases op with
    | engine op => cases op <;> first | exact quiet.elim | exact ⟨trivial, fun _ => rfl⟩
    | getBlock _ | getBlockByHeight _ => exact ⟨trivial, fun _ => rfl⟩
    | _ => exact quiet.elim

/-- A part of the pipeline that commits nothing leaves an idle task idle. -/
theorem obeys_through_engine {Value : Type} {program : EngineM Value}
    (readOnly : program.ReadOnly working EngineOp.isCommit) :
    (taskProtocol txs).Obeys Node.serve task
      (fun mode value => mode = .idle ∧ ∃ dialogue, program.Yields dialogue value)
      (program.through fun op => access (.engine op)) .idle := by
  induction program with
  | done value => exact ⟨rfl, [], .done value⟩
  | request op resume inductionHypothesis =>
      obtain ⟨quiet, rest⟩ := readOnly
      apply Protocol.Obeys.bind
      refine ⟨?_, ?_⟩
      · cases op with
        | commitBlock block spentInputs => cases quiet
        | _ => exact trivial
      · intro node answer node' served
        obtain ⟨-, rfl, -⟩ := (Node.serve_eq_some_iff _ _ _ _ _).mp served
        have stays : (taskProtocol txs).next .idle (.engine op) (node.answer (.engine op)) =
            .idle := by
          cases op with
          | commitBlock block spentInputs => cases quiet
          | _ => rfl
        have continues := inductionHypothesis (node.answer (.engine op)) (rest node.engine).2
        rw [stays]
        apply Protocol.Obeys.imp continues
        intro mode value reached
        obtain ⟨idle, dialogue, yields⟩ := reached
        exact ⟨idle, _, .request yields⟩

/-- The pipeline ends with the block committed and its cleanup due, or idle. -/
theorem obeys_commit {block : Block} (wellFormed : block.WellFormed)
    (known : block.transactions ⊆ txs) :
    (taskProtocol txs).Obeys Node.serve task
      (fun mode result => mode = result.toOption.elim .idle fun _ => .cleaning block)
      (commit block) .idle := by
  refine Eq.mpr (congrArg (fun program => (taskProtocol txs).Obeys Node.serve task _ program _)
    (Program.through_bind _ (verifyCandidate block).run _)) ?_
  apply Protocol.Obeys.bind
  apply Protocol.Obeys.imp (obeys_through_engine (readOnly_verifyCandidate block))
  intro mode result reached
  obtain ⟨rfl, dialogue, yields⟩ := reached
  cases result with
  | error error => rfl
  | ok spentInputs =>
      refine ⟨⟨wellFormed, known, spent_of_yields_verifyCandidate yields⟩, ?_⟩
      intro node answer node' served
      obtain ⟨-, rfl, -⟩ := (Node.serve_eq_some_iff _ _ _ _ _).mp served
      rfl

/-- What follows the pipeline begins with the cleanup of the block, or idle. -/
theorem obeys_commit_bind {Value : Type} {block : Block} {returns : TaskMode → Value → Prop}
    {next : Except AuthorityError Unit → NodeM Value} (wellFormed : block.WellFormed)
    (known : block.transactions ⊆ txs)
    (rejected : ∀ error, (taskProtocol txs).Obeys Node.serve task returns (next (.error error))
      .idle)
    (committed : (taskProtocol txs).Obeys Node.serve task returns (next (.ok ()))
      (.cleaning block)) :
    (taskProtocol txs).Obeys Node.serve task returns (commit block >>= next) .idle := by
  apply Protocol.Obeys.bind
  apply Protocol.Obeys.imp (obeys_commit wellFormed known)
  intro mode result reached
  subst reached
  cases result with
  | error error => exact rejected error
  | ok done => exact committed

/-- An insertion returns to idle after it has staged what the gates accept. -/
theorem obeys_insertLocked {tx : Transaction} (known : tx ∈ txs) (tipHeight mtp now : UInt64) :
    (taskProtocol txs).Obeys Node.serve task (fun mode _ => mode = .idle)
      (insertLocked tx tipHeight mtp now) .idle := by
  apply Protocol.Obeys.bind
  refine ⟨trivial, fun node reserved node' _ => Protocol.Obeys.bind ?_⟩
  apply Protocol.Obeys.imp (Protocol.Obeys.through (TaskMode.staging reserved) ?_ _ [])
  · intro mode validated reached
    obtain ⟨reads, yields, rfl⟩ := reached
    refine ⟨⟨known, ?_⟩, fun _ _ _ _ => rfl⟩
    rintro fee rfl
    obtain ⟨utxos, rfl, admissible⟩ := (yields_validateForMempool_iff _ _ _ _ _ _).mp yields
    exact ⟨utxos, tipHeight, mtp, rfl, admissible⟩
  · intro reads op
    exact ⟨trivial, fun _ _ _ _ => rfl⟩

/-- The rest of a task goes on with the tip that was read. -/
theorem obeys_tip_bind {Value : Type} {mode : TaskMode}
    {returns : TaskMode → Except String Value → Prop}
    {next : UInt64 × Hash256 → RpcM Value}
    (allowed : (taskProtocol txs).allowed mode (.engine .getTip))
    (fails : ∀ error fault, returns ((taskProtocol txs).next mode (.engine .getTip) (.error error))
      (.error fault))
    (continues : ∀ found, (taskProtocol txs).Obeys Node.serve task returns
      (next (found.getD (0, Hash256.zero))).run
      ((taskProtocol txs).next mode (.engine .getTip) (.ok found))) :
    (taskProtocol txs).Obeys Node.serve task returns (tip >>= next).run mode := by
  apply Protocol.Obeys.except_bind
  refine ⟨allowed, fun node answer node' _ => ?_⟩
  cases answer with
  | error error => exact fails error _
  | ok found => exact continues found

theorem obeys_submitBlock {block : Block} (wellFormed : block.WellFormed)
    (known : block.transactions ⊆ txs) :
    (taskProtocol txs).Obeys Node.serve task (fun mode _ => mode = .idle)
      (handleSubmitBlock block).run .idle := by
  apply Protocol.Obeys.except_bind
  apply obeys_commit_bind wellFormed known
  · exact fun _ => rfl
  · exact ⟨rfl, fun _ _ _ _ => rfl⟩

theorem obeys_inboundBlock {block : Block} (wellFormed : block.WellFormed)
    (known : block.transactions ⊆ txs) :
    (taskProtocol txs).Obeys Node.serve task (fun mode _ => mode = .idle)
      (inboundBlock block) .idle := by
  apply obeys_commit_bind wellFormed known
  · exact fun _ => rfl
  · exact ⟨rfl, fun _ _ _ _ => rfl⟩

theorem obeys_sendRawTx {tx : Transaction} (known : tx ∈ txs) (clock : Clock) :
    (taskProtocol txs).Obeys Node.serve task (fun mode _ => mode = .idle)
      (handleSendRawTx tx clock).run .idle := by
  refine obeys_tip_bind ?_ (fun _ _ => ?_) fun found => ?_
  · exact trivial
  · exact rfl
  apply Protocol.Obeys.only_bind (only_medianTimePast _) (quiet_keeps txs (Or.inl rfl)) fun _ => rfl
  intro mtp
  apply Protocol.Obeys.settle_bind fun _ => rfl
  intro now
  apply Protocol.Obeys.except_bind
  apply Protocol.Obeys.bind
  apply Protocol.Obeys.imp (obeys_insertLocked known _ mtp now)
  intro mode inserted reached
  exact reached

theorem obeys_getTipStatus :
    (taskProtocol txs).Obeys Node.serve task (fun mode _ => mode = .idle)
      handleGetTipStatus.run .idle := by
  refine obeys_tip_bind ?_ (fun _ _ => ?_) fun found => ?_
  · exact trivial
  · exact rfl
  apply Protocol.Obeys.except_bind
  exact ⟨trivial, fun _ _ _ _ => rfl⟩

theorem obeys_inboundTransaction {tx : Transaction} (known : tx ∈ txs) (clock : Clock) :
    (taskProtocol txs).Obeys Node.serve task (fun mode _ => mode = .idle)
      (inboundTransaction tx clock) .idle := by
  apply Protocol.Obeys.bind
  refine ⟨trivial, fun node answer node' _ => ?_⟩
  cases answer with
  | error error => rfl
  | ok found =>
      apply Protocol.Obeys.bind
      apply Protocol.Obeys.imp
        (Protocol.Obeys.of_only (only_medianTimePast _) (quiet_keeps txs (Or.inl rfl)))
      intro mode mtp reached
      subst reached
      apply Protocol.Obeys.bind
      apply Protocol.Obeys.imp (obeys_insertLocked known _ _ _)
      intro mode inserted reached
      exact reached

/-- A template names the tip and the selection that its task has read. -/
theorem obeys_getBlockTemplate (clock : Clock) :
    (taskProtocol txs).Obeys Node.serve task (fun mode result => mode.Returns (.template result))
      (handleGetBlockTemplate clock).run .planning := by
  refine obeys_tip_bind ?_ (fun _ _ => ?_) fun found => ?_
  · exact trivial
  · exact trivial
  have templating := quiet_keeps txs
    (Or.inr (Or.inl ⟨(found.getD (0, Hash256.zero)).2, rfl⟩))
  apply Protocol.Obeys.settle_bind fun _ => trivial
  intro nextHeight
  apply Protocol.Obeys.only_bind (only_nextWorkTarget _) templating fun _ => trivial
  intro target
  apply Protocol.Obeys.except_bind
  refine ⟨trivial, fun node transactions node' _ => ?_⟩
  have selected := quiet_keeps txs
    (Or.inr (Or.inr ⟨(found.getD (0, Hash256.zero)).2, transactions, rfl⟩))
  apply Protocol.Obeys.only_bind (only_addFees _ _) selected fun _ => trivial
  intro totalFee
  apply Protocol.Obeys.settle_bind fun _ => trivial
  intro now
  apply Protocol.Obeys.only_bind (only_medianTimePast _) selected fun _ => trivial
  intro mtp
  apply Protocol.Obeys.settle_bind fun _ => trivial
  intro timestamp
  exact ⟨rfl, rfl⟩

/-- A task that ends idle replies with what the idle mode may return. -/
theorem obeys_reply {Value : Type} {program : NodeM Value} {mode : TaskMode}
    (reply : Value → NodeReply) (returns : ∀ value, TaskMode.idle.Returns (reply value))
    (obeys : (taskProtocol txs).Obeys Node.serve task (fun mode _ => mode = .idle) program mode) :
    (taskProtocol txs).Obeys Node.serve task TaskMode.Returns
      (program >>= fun value => pure (reply value)) mode := by
  apply Protocol.Obeys.bind
  apply Protocol.Obeys.imp obeys
  intro mode value idle
  subst idle
  exact returns value

/-- Every task follows the protocol from the mode in which it begins. -/
theorem NodeTask.obeys (next : NodeTask) (known : next.transactions ⊆ txs) :
    (taskProtocol txs).Obeys Node.serve task TaskMode.Returns next.program next.mode := by
  cases next with
  | getBlockTemplate clock =>
      apply Protocol.Obeys.bind
      exact obeys_getBlockTemplate clock
  | submitBlock decoded =>
      exact obeys_reply .submitted (fun _ => trivial) (obeys_submitBlock decoded.wellFormed known)
  | sendRawTx tx clock =>
      exact obeys_reply .admitted (fun _ => trivial)
        (obeys_sendRawTx (known List.mem_cons_self) clock)
  | getTipStatus => exact obeys_reply .tipStatus (fun _ => trivial) obeys_getTipStatus
  | inboundBlock decoded =>
      exact obeys_reply (fun _ => .handled) (fun _ => trivial)
        (obeys_inboundBlock decoded.wellFormed known)
  | inboundTransaction tx clock =>
      exact obeys_reply (fun _ => .handled) (fun _ => trivial)
        (obeys_inboundTransaction (known List.mem_cons_self) clock)

end Conformance

end Aurion
