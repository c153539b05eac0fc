import Aurion.Miner.Transport
import Aurion.Rpc.Client

/-!
# Templates on their way to the miner

A template that the daemon returns is well formed and small, so the miner's call
gets it unless the connection fails, and gets nothing else.
-/

namespace Aurion

open Foundation

section Origin

variable [Crypto] {txs : List Transaction}

/-- What the tasks of the daemon stage and select is from the list. -/
def Node.Listed (txs : List Transaction) (modes : Nat → TaskMode) (node : Node) : Prop :=
  node.mempool.StagedFrom txs ∧
    ∀ task tip transactions, modes task = .selected tip transactions → transactions ⊆ txs

omit [Crypto] in
theorem Mempool.StagedFrom.selected {pool : Mempool} (staged : pool.StagedFrom txs)
    (limit : Nat) : pool.selectTransactionsForBlock limit ⊆ txs := by
  intro tx selected
  obtain ⟨index, -, isStaged⟩ :=
    List.mem_filterMap.mp ((select_sublist pool limit).subset selected)
  obtain ⟨entry, found, rfl⟩ := Option.map_eq_some_iff.mp isStaged
  exact staged index.txid entry found

theorem Node.stagedFrom_next {node : Node} {mode : TaskMode} {op : NodeOp}
    (staged : node.mempool.StagedFrom txs) (allowed : (taskProtocol txs).allowed mode op)
    (task : Nat) : (node.next task op).mempool.StagedFrom txs := by
  cases op with
  | engine op => cases op <;> exact staged
  | stage tx now validated =>
      have known : tx ∈ txs := by
        cases mode with
        | staging reserved reads => exact allowed.1
        | cleaning block => cases allowed
        | _ => exact allowed.elim
      intro txid entry found
      obtain before | ⟨fee, -, rfl⟩ := Mempool.found_of_stage found
      · exact staged txid entry before
      · exact known
  | processCommittedBlock block =>
      intro txid entry found
      exact staged txid entry (Mempool.found_of_processCommittedBlock found)
  | _ => exact staged

theorem Node.Listed.step {node : Node} {modes : Nat → TaskMode} (listed : node.Listed txs modes)
    {task : Nat} {op : NodeOp} (allowed : (taskProtocol txs).allowed (modes task) op) :
    (node.next task op).Listed txs (Function.update modes task
      ((taskProtocol txs).next (modes task) op (node.answer op))) := by
  refine ⟨Node.stagedFrom_next listed.1 allowed task, ?_⟩
  intro other tip transactions selected
  obtain ⟨-, reached⟩ | ⟨-, before⟩ := update_cases selected
  · obtain ⟨-, before⟩ | ⟨-, limit, -, rfl⟩ := selected_of_next allowed reached
    · exact listed.2 task tip transactions before
    · exact listed.1.selected limit
  · exact listed.2 other tip transactions before

/-- The transactions of a template are among those of the tasks. -/
theorem Daemon.template_known (maxBytes : Nat) (tasks : List NodeTask) (schedule : List Nat)
    {task : Nat} {template : BlockTemplate}
    (returned : (Daemon.after maxBytes tasks schedule).programs task =
      .done (.template (.ok template))) :
    template.transactions ⊆ NodeTask.allTransactions tasks := by
  obtain ⟨modes, begins⟩ := Daemon.holds_start maxBytes tasks
  have unselected : (Daemon.start maxBytes tasks).shared.Listed
      (NodeTask.allTransactions tasks) modes := by
    refine ⟨begins.invariant.staged, ?_⟩
    intro task tip transactions selected
    obtain ⟨-, height, top⟩ := begins.invariant.tips task tip (Or.inr ⟨transactions, selected⟩)
    cases top
  obtain ⟨modes, obeys, listed⟩ : ∃ modes, (taskProtocol (NodeTask.allTransactions tasks)).Holds
      Node.serve (fun _ => TaskMode.Returns)
      (fun modes node => node.Listed (NodeTask.allTransactions tasks) modes) modes
      (Daemon.after maxBytes tasks schedule) := by
    have each : Steps.EachStep (Pool.advance Node.serve) (fun _ _ => True)
        (Daemon.start maxBytes tasks) schedule := fun _ _ _ => trivial
    apply Protocol.exists_holds_run ?_ ⟨begins.obeys, unselected⟩ schedule each
    intro modes daemon task op resume answer node holds _ program served
    obtain ⟨-, rfl, rfl⟩ := (Node.serve_eq_some_iff _ _ _ _ _).mp served
    exact holds.invariant.step (holds.allowed program)
  have suits := obeys task
  rw [returned] at suits
  cases mode : modes task with
  | selected tip transactions =>
      rw [mode] at suits
      rw [suits.2]
      exact listed.2 task tip transactions mode
  | _ =>
      rw [mode] at suits
      exact suits.elim

end Origin

section Delivery

/-- Every transaction takes bytes. -/
theorem Transaction.length_le_flatMap (txs : List Transaction) :
    txs.length ≤ (txs.flatMap Transaction.encodeCanonical).length := by
  induction txs with
  | nil => exact Nat.le_refl 0
  | cons tx txs inductionHypothesis =>
      have takes : 1 ≤ tx.encodeCanonical.length := by
        simp only [Transaction.encodeCanonical, List.length_append, length_u32ToBeBytes]
        omega
      rw [List.length_cons, List.flatMap_cons, List.length_append]
      omega

open RpcServer RpcClient RpcHandler

theorem RpcClient.expect_template (payoutAddress : Bytes)
    (answer : HandlerCall.Answer (.getBlockTemplate payoutAddress)) :
    expect blockTemplate? (respond (.getBlockTemplate payoutAddress) answer) =
      rejecting answer := by
  cases answer <;> rfl

variable [Crypto]

theorem Daemon.template_response_fits (maxBytes : Nat) (tasks : List NodeTask)
    (schedule : List Nat) {task : Nat} {template : BlockTemplate}
    (returned : (Daemon.after maxBytes tasks schedule).programs task =
      .done (.template (.ok template))) :
    (RpcResponse.blockTemplate template).encodeCanonical.length ≤ maxRpcFrameSize := by
  have within := Daemon.template_fits maxBytes tasks schedule returned
  have room : 117 + maxBlockPayloadBytes ≤ maxRpcFrameSize := by decide
  rw [RpcResponse.length_blockTemplate]
  exact (Nat.add_le_add_left within 117).trans room

/-- A template that a run of the daemon returns is all that a call it answers can
give to the miner: over a connection that breaks anywhere the miner gets this
template or an error of the transport, and over one that loses nothing it gets it. -/
theorem daemon_template_delivered (maxBytes : Nat) (tasks : List NodeTask) (schedule : List Nat)
    (decoded : ∀ next ∈ tasks, ∀ tx ∈ next.transactions, tx.WellFormed) {task : Nat}
    {template : BlockTemplate}
    (returned : (Daemon.after maxBytes tasks schedule).programs task =
      .done (.template (.ok template)))
    {payoutAddress : Bytes} (short : payoutAddress.length + 5 ≤ maxRpcFrameSize)
    (session : Session (RpcClient.getBlockTemplate payoutAddress))
    (answers : ∀ answer, ⟨.getBlockTemplate payoutAddress, answer⟩ ∈ session.calls →
      answer = .ok template) :
    (session.outcome = .ok template ∨
      (∃ reason, session.outcome = .error (.connectionFailed reason)) ∨
      ∃ error, session.outcome = .error (.transport error)) ∧
    (session.Lossless → session.outcome = .ok template) := by
  have fits := Daemon.template_response_fits maxBytes tasks schedule returned
  have wellFormed : template.WellFormed := by
    refine ⟨?_, ?_⟩
    · have counted := Transaction.length_le_flatMap template.transactions
      have within := Daemon.template_fits maxBytes tasks schedule returned
      have limit : maxBlockPayloadBytes < 2 ^ 32 := by decide
      omega
    · intro tx isIn
      obtain isGenesis | isTask := List.mem_append.mp
        (Daemon.template_known maxBytes tasks schedule returned isIn)
      · exact genesis_wellFormed.transactions tx isGenesis
      · obtain ⟨next, isNext, isTx⟩ := List.mem_flatMap.mp isTask
        exact decoded next isNext tx isTx
  have requestWellFormed : (RpcRequest.getBlockTemplate payoutAddress).WellFormed := by
    have limit : maxRpcFrameSize < 2 ^ 32 := by decide
    change payoutAddress.length < 2 ^ 32
    omega
  have isTemplate : ∀ answer, session.calls = [⟨.getBlockTemplate payoutAddress, answer⟩] →
      answer = .ok template := by
    intro answer called
    exact answers answer (called ▸ List.mem_singleton_self _)
  obtain ⟨result, ends, same⟩ := session.ends requestWellFormed
  constructor
  · have once := AtMostOnce.of_ends ends (fun answer called tmpl responded => by
      cases isTemplate answer called
      cases responded
      exact wellFormed) (expect_template payoutAddress)
    rw [same] at once
    obtain ⟨-, ⟨reason, failed, -⟩ | failed | ⟨answer, called, read⟩⟩ := once
    · exact Or.inr (Or.inl ⟨reason, failed⟩)
    · exact Or.inr (Or.inr failed)
    · rw [read, isTemplate answer called]
      exact Or.inl rfl
  · intro lossless
    have small : (RpcRequest.getBlockTemplate payoutAddress).encodeCanonical.length ≤
        maxRpcFrameSize := by
      simp only [RpcRequest.encodeCanonical, RpcRequest.payload, encodeVecBytes, List.length_cons,
        List.length_append, length_u32ToBeBytes]
      omega
    obtain ⟨answer, called, fitting⟩ := lossless.answered requestWellFormed small
    cases isTemplate answer called
    exact fitting fits fun tmpl responded => by cases responded; exact wellFormed

end Delivery

section Sample

open Sample RpcClient

attribute [local instance] Sample.stagingCrypto

theorem daemon_template_delivered_cheap :
    ∃ (template : BlockTemplate) (session : Session (RpcClient.getBlockTemplate [0x51])),
      template.transactions = [cheap] ∧ session.outcome = .ok template := by
  have body : (returned serialSchedule 2).map BlockTemplate.transactions = some [cheap] := by
    decide +kernel
  obtain ⟨template, isReturned, body⟩ := Option.map_eq_some_iff.mp body
  have decoded : ∀ next ∈ templateTasks, ∀ tx ∈ next.transactions, tx.WellFormed := by
    decide +kernel
  have wellFormed : ([0x51] : Bytes).length < 2 ^ 32 := by decide
  have small : (RpcRequest.getBlockTemplate [0x51]).encodeCanonical.length ≤ maxRpcFrameSize := by
    decide
  let exchange : Exchange := ⟨.getBlockTemplate [0x51], .ok template⟩
  have isAnswered : exchange.Answered := ⟨wellFormed, small, Daemon.template_response_fits 1000
    templateTasks serialSchedule (programs_of_returned isReturned)⟩
  refine ⟨template, .complete blockTemplate? exchange isAnswered, body, ?_⟩
  apply (daemon_template_delivered 1000 templateTasks serialSchedule decoded
    (programs_of_returned isReturned) (by decide)
    (.complete blockTemplate? exchange isAnswered) ?_).2
  · exact Session.lossless_complete blockTemplate? exchange isAnswered
  · intro answer called
    cases List.mem_singleton.mp called
    rfl

end Sample

end Aurion
