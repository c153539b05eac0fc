import Aurion.Daemon.TemplateParent
import Aurion.Miner.SolvedTemplate
import Aurion.Network.Frame
import Aurion.Rpc.Frame

/-!
# Templates and mined blocks on their way

A selection is limited by the sizes that the pool has recorded, a frame by the
bytes that are written.  The sizes are exact throughout every run, so a template
fits its response and the block mined from it fits its request and a network frame.
-/

namespace Aurion

open Foundation

section Selection

variable [Crypto] {pool : Mempool}

omit [Crypto] in
/-- Every entry has the size of its transaction's encoding. -/
def Mempool.SizesRecorded (pool : Mempool) : Prop :=
  ∀ txid entry, pool.byTxid.lookup txid = some entry →
    entry.sizeBytes = entry.tx.encodeCanonical.length

namespace Mempool.SizesRecorded

theorem stage (recorded : pool.SizesRecorded) (tx : Transaction) (now : UInt64)
    (validated : Except MempoolReject Quantum) :
    (pool.stage tx now validated).2.SizesRecorded := by
  intro txid entry found
  obtain before | ⟨fee, -, rfl⟩ := found_of_stage found
  · exact recorded txid entry before
  · rfl

theorem processCommittedBlock (recorded : pool.SizesRecorded) (block : Block) :
    (pool.processCommittedBlock block).SizesRecorded := by
  intro txid entry found
  exact recorded txid entry (found_of_processCommittedBlock found)

omit [Crypto] in
/-- The scan takes no more bytes than the limit leaves. -/
theorem selectFrom_fits (recorded : pool.SizesRecorded) {limit : Nat}
    (indices : List FeeRateIndex) {accumulated : Nat} (within : accumulated ≤ limit) :
    accumulated +
      ((pool.selectFrom limit indices accumulated).flatMap Transaction.encodeCanonical).length ≤
        limit := by
  induction indices generalizing accumulated with
  | nil => exact within
  | cons index rest inductionHypothesis =>
      unfold selectFrom
      cases found : pool.byTxid.lookup index.txid with
      | none => exact inductionHypothesis within
      | some entry =>
          dsimp only
          split
          next machine =>
            split
            next exceeds => exact inductionHypothesis within
            next fits =>
              have size := recorded index.txid entry found
              rw [List.flatMap_cons, List.length_append, ← size, ← Nat.add_assoc]
              exact inductionHypothesis (Nat.le_of_not_lt fits)
          next overflows => exact within

end Mempool.SizesRecorded

end Selection

section Messages

open Miner

theorem RpcResponse.length_blockTemplate (template : BlockTemplate) :
    (RpcResponse.blockTemplate template).encodeCanonical.length =
      117 + (template.transactions.flatMap Transaction.encodeCanonical).length := by
  rw [RpcResponse.encodeCanonical, List.length_cons, RpcResponse.payload,
    BlockTemplate.length_encodeCanonical]
  omega

/-- The coinbase of a miner is as long as its payout script asks. -/
theorem Miner.length_coinbase {height : UInt64} {payoutScript : Bytes} {subsidy fees : Quantum}
    {extraNonce : UInt64} {coinbase : Transaction}
    (built : buildCoinbaseTransaction height payoutScript subsidy fees extraNonce = .ok coinbase) :
    coinbase.encodeCanonical.length = 102 + payoutScript.length := by
  rw [buildCoinbaseTransaction, except_bind_eq_ok_iff] at built
  obtain ⟨totalReward, -, built⟩ := built
  cases built
  simp [Transaction.encodeCanonical, TxInput.encodeCanonical, TxOutput.encodeCanonical,
    OutPoint.encodeCanonical, Hash256.size, encodeVecBytes, bip34Push, TxInput.encodeRedeemer,
    Datum.encodeCanonical, Quantum.length_encodeCanonical]
  omega

/-- The miner assembles a block, longer than the template's transactions by its
header, its count and its coinbase. -/
theorem Miner.exists_candidate [Crypto] (template : BlockTemplate) (payoutScript : Bytes)
    (extraNonce : UInt64) :
    ∃ block, candidate template payoutScript extraNonce = .ok block ∧
      ∀ nonce, (withNonce block nonce).encodeCanonical.length = 202 + payoutScript.length +
        (template.transactions.flatMap Transaction.encodeCanonical).length := by
  obtain ⟨coinbase, built, -, -⟩ := exists_coinbase template payoutScript extraNonce
  refine ⟨_, by rw [candidate, built]; rfl, ?_⟩
  intro nonce
  rw [Block.length_encodeCanonical]
  simp only [withNonce, List.flatMap_cons, List.length_append, length_coinbase built]
  omega

end Messages

section Runs

open RpcHandler

/-- A selection keeps to its limit. -/
def NodeOp.SelectsWithin : (op : NodeOp) → op.Answer → Prop
  | .selectTransactions maxBlockBytes, transactions =>
      (transactions.flatMap Transaction.encodeCanonical).length ≤ maxBlockBytes
  | _, _ => True

/-- Whatever the reads return, a template has the transactions of one selection. -/
theorem selected_of_yields {clock : Clock} {template : BlockTemplate}
    {dialogue : List ((op : NodeOp) × op.Answer)}
    (yields : (handleGetBlockTemplate clock).run.Yields dialogue (.ok template)) :
    ⟨.selectTransactions maxBlockPayloadBytes, template.transactions⟩ ∈ dialogue := by
  obtain ⟨_, _, ⟨tipHeight, tipHash⟩, rfl, -, afterTip⟩ :=
    (Program.yields_ok_bind_iff _ _ _).mp yields
  obtain ⟨nextHeight, -, afterHeight⟩ := (Program.yields_ok_settle_bind_iff _ _ _).mp afterTip
  obtain ⟨_, _, target, rfl, -, afterTarget⟩ := (Program.yields_ok_bind_iff _ _ _).mp afterHeight
  obtain ⟨transactions, _, rfl, afterSelection⟩ :=
    (Program.yields_ok_perform_bind_iff _ _ _).mp afterTarget
  -- The steps after the selection only fill in the other fields.
  obtain ⟨_, _, totalFee, -, -, afterFees⟩ :=
    (Program.yields_ok_bind_iff _ _ _).mp afterSelection
  obtain ⟨now, -, afterClock⟩ := (Program.yields_ok_settle_bind_iff _ _ _).mp afterFees
  obtain ⟨_, _, mtp, -, -, afterMedian⟩ := (Program.yields_ok_bind_iff _ _ _).mp afterClock
  obtain ⟨timestamp, -, afterTimestamp⟩ :=
    (Program.yields_ok_settle_bind_iff _ _ _).mp afterMedian
  obtain ⟨-, rfl⟩ := (Program.yields_ok_pure_iff _ _).mp afterTimestamp
  simp only [List.mem_append, List.mem_cons, true_or, or_true]

variable [Crypto]

theorem Node.sizesRecorded_next {node : Node} (recorded : node.mempool.SizesRecorded) (task : Nat)
    (op : NodeOp) : (node.next task op).mempool.SizesRecorded := by
  cases op with
  | engine op => cases op <;> exact recorded
  | stage tx now validated => exact recorded.stage tx now validated
  | processCommittedBlock block => exact recorded.processCommittedBlock block
  | _ => exact recorded

theorem Node.selectsWithin {node : Node} (recorded : node.mempool.SizesRecorded) (op : NodeOp) :
    op.SelectsWithin (node.answer op) := by
  cases op with
  | selectTransactions maxBlockBytes =>
      have fits := recorded.selectFrom_fits node.mempool.byFeeRate.reverse
        (Nat.zero_le maxBlockBytes)
      rwa [Nat.zero_add] at fits
  | _ => exact trivial

/-- Only the template's handler returns a template. -/
theorem NodeTask.handler_of_template {next : NodeTask} {template : BlockTemplate}
    {dialogue : List ((op : NodeOp) × op.Answer)}
    (yields : next.program.Yields dialogue (.template (.ok template))) :
    ∃ clock, (handleGetBlockTemplate clock).run.Yields dialogue (.ok template) := by
  cases next with
  | getBlockTemplate clock =>
      obtain ⟨_, _, result, rfl, handled, ends⟩ := (Program.yields_bind_iff _ _ _).mp yields
      obtain ⟨rfl, same⟩ := (Program.yields_pure_iff _ _).mp ends
      cases same
      exact ⟨clock, by rwa [List.append_nil]⟩
  | _ =>
      obtain ⟨_, _, result, rfl, handled, ends⟩ := (Program.yields_bind_iff _ _ _).mp yields
      obtain ⟨-, other⟩ := (Program.yields_pure_iff _ _).mp ends
      cases other

/-- A template that some run returns keeps to the limit of a block's payload. -/
theorem Daemon.template_fits (maxBytes : Nat) (tasks : List NodeTask) (schedule : List Nat)
    {task : Nat} {template : BlockTemplate}
    (returned : (Daemon.after maxBytes tasks schedule).programs task =
      .done (.template (.ok template))) :
    (template.transactions.flatMap Transaction.encodeCanonical).length ≤
      maxBlockPayloadBytes := by
  have kept : ∀ (task : Nat) (op : NodeOp) (node : Node) (answer : op.Answer) (node' : Node),
      node.mempool.SizesRecorded → Node.serve task op node = some (answer, node') →
      op.SelectsWithin answer ∧ node'.mempool.SizesRecorded := by
    intro task op node answer node' recorded served
    obtain ⟨-, rfl, rfl⟩ := (Node.serve_eq_some_iff _ _ _ _ _).mp served
    exact ⟨Node.selectsWithin recorded op, Node.sizesRecorded_next recorded task op⟩
  have begins : (Daemon.start maxBytes tasks).shared.mempool.SizesRecorded := by
    intro txid entry found
    simp [Daemon.start, Node.start, Mempool.new] at found
  obtain ⟨dialogue, yields, within⟩ := Protocol.exists_dialogue_run kept begins schedule returned
  cases at_ : tasks[task]? with
  | none =>
      simp only [Daemon.start, at_, Option.elim_none] at yields
      obtain ⟨-, other⟩ := (Program.yields_done_iff _ _).mp yields
      cases other
  | some next =>
      simp only [Daemon.start, at_, Option.elim_some] at yields
      obtain ⟨clock, handled⟩ := next.handler_of_template yields
      exact within _ (selected_of_yields handled)

end Runs

section Transport

open Miner RpcHandler

variable [Crypto]

/-- A template that any run of the daemon returns fits its response, and a block
mined from it fits its request and a network frame. -/
theorem templates_fit_transport (maxBytes : Nat) (tasks : List NodeTask) (schedule : List Nat)
    {task : Nat} {template : BlockTemplate}
    (returned : (Daemon.after maxBytes tasks schedule).programs task =
      .done (.template (.ok template))) :
    let response := (RpcResponse.blockTemplate template).encodeCanonical
    response.length ≤ maxRpcFrameSize ∧ (∃ frame, writeFrame response = .ok frame) ∧
      ∀ (payoutScript : Bytes) (extraNonce : UInt64),
        203 + payoutScript.length + maxBlockPayloadBytes ≤ maxRpcFrameSize →
        ∃ block, candidate template payoutScript extraNonce = .ok block ∧ ∀ nonce,
          let request := (RpcRequest.submitBlock (withNonce block nonce)).encodeCanonical
          request.length ≤ maxRpcFrameSize ∧ (∃ frame, writeFrame request = .ok frame) ∧
            ∃ frame, packFrame "block" (withNonce block nonce).encodeCanonical = .ok frame := by
  intro response
  have within := Daemon.template_fits maxBytes tasks schedule returned
  have room : 117 + maxBlockPayloadBytes ≤ maxRpcFrameSize := by decide
  have small : response.length ≤ maxRpcFrameSize := by
    rw [RpcResponse.length_blockTemplate]
    exact (Nat.add_le_add_left within 117).trans room
  refine ⟨small, ⟨_, (writeFrame_eq_ok_iff _ _).mpr ⟨small, rfl⟩⟩, ?_⟩
  intro payoutScript extraNonce fits
  obtain ⟨block, assembled, size⟩ := exists_candidate template payoutScript extraNonce
  refine ⟨block, assembled, ?_⟩
  intro nonce request
  have length : request.length = (withNonce block nonce).encodeCanonical.length + 1 :=
    List.length_cons
  have fitsRequest : request.length ≤ maxRpcFrameSize := by
    rw [length, size]
    omega
  have fitsPayload : (withNonce block nonce).encodeCanonical.length ≤ maxPayloadSize := by
    have same : maxPayloadSize = maxRpcFrameSize := rfl
    omega
  exact ⟨fitsRequest, ⟨_, (writeFrame_eq_ok_iff _ _).mpr ⟨fitsRequest, rfl⟩⟩, _,
    (packFrame_eq_ok_iff _ _ _).mpr ⟨by decide +kernel, fitsPayload, rfl⟩⟩

end Transport

section Sample

open Sample Miner

attribute [local instance] Sample.stagingCrypto

/-- The template with one payment, and a block with the shortest payout script. -/
theorem templates_fit_transport_cheap :
    ∃ template, returned serialSchedule 2 = some template ∧ template.transactions = [cheap] ∧
      (∃ frame, writeFrame (RpcResponse.blockTemplate template).encodeCanonical = .ok frame) ∧
      ∃ block, candidate template [] 1 = .ok block ∧
        ∃ frame, packFrame "block" (withNonce block 7).encodeCanonical = .ok frame := by
  have body : (returned serialSchedule 2).map BlockTemplate.transactions = some [cheap] := by
    decide +kernel
  obtain ⟨template, isReturned, body⟩ := Option.map_eq_some_iff.mp body
  obtain ⟨-, response, requests⟩ := templates_fit_transport 1000 templateTasks serialSchedule
    (programs_of_returned isReturned)
  obtain ⟨block, assembled, frames⟩ := requests [] 1 (by decide)
  exact ⟨template, isReturned, body, response, block, assembled, (frames 7).2.2⟩

end Sample

end Aurion
