import Aurion.Mempool.Mineability
import Aurion.Miner.Delivery
import Aurion.Miner.Search
import Aurion.Network.Mesh

/-!
# The mining loop

A pass of the loop takes a template from the node, searches a nonce for the block
that it builds on it and submits the block.  The connection may fail before the
template or the block arrives, and the node may serve other calls meanwhile.
-/

namespace Aurion

open Foundation

section Definition

variable [Crypto]

/-- The node between two calls. -/
def StagingRun.resting (run : StagingRun) : Node where
  engine := run.node.engine
  mempool := run.mempool
  writer := none
  committed := run.node.committed
  seen := fun _ => []

/-- The node after the calls. -/
def StagingRun.after (maxBytes : Nat) (calls : List StagingCall) : StagingRun :=
  Steps.run StagingRun.call (start maxBytes) calls

namespace Miner

omit [Crypto] in
/-- The block that the node reads from a submission. -/
def received (block : Block) : Option DecodedBlock :=
  match read : RpcRequest.submittedBlock (RpcRequest.submitBlock block).encodeCanonical with
  | some block =>
      some (.ofWellFormed block ((RpcRequest.submittedBlock_eq_some_iff _ _).mp read).2.1)
  | none => none

/-- What a pass of the loop meets: the clock of the node, whether the template
arrives, how the workers move, the calls that the node serves before the submission
and whether the submission arrives. -/
structure Pass where
  clock : Clock
  fetched : Bool
  events : List (Search.Event Nat)
  meanwhile : List StagingCall
  delivered : Bool

/-- Why there is no next pass. -/
inductive Stopped
  | searching
  | failed (error : String)

/-- The calls that the node has served, and the variable of the loop. -/
structure MiningLoop where
  served : List StagingCall
  extraNonce : UInt64

variable (maxBytes : Nat) (payoutScript : Bytes)

def Pass.template (pass : Pass) (served : List StagingCall) : Option BlockTemplate :=
  if pass.fetched then ((StagingRun.after maxBytes served).resting.template pass.clock).toOption
  else none

omit [Crypto] in
def Pass.submission (pass : Pass) (block : Block) : List StagingCall :=
  if pass.delivered then (received block).toList.map StagingCall.submit else []

/-- One pass of `run_miner`. -/
def MiningLoop.pass (loop : MiningLoop) (pass : Pass) : Except Stopped MiningLoop :=
  match pass.template maxBytes loop.served with
  | none => pure { loop with served := loop.served ++ pass.meanwhile }
  | some template => do
      let extraNonce := loop.extraNonce + 1
      let block ← (candidate template payoutScript extraNonce).mapError Stopped.failed
      let header ← (solvedHeader block.header template.target pass.events).elim
        (.error .searching) .ok
      pure { served := loop.served ++ pass.meanwhile ++ pass.submission { block with header }
             extraNonce }

def runMiner (loop : MiningLoop) (passes : List Pass) : Except Stopped MiningLoop :=
  passes.foldlM (MiningLoop.pass maxBytes payoutScript) loop

/-- The block is what a pass builds on a template of the node. -/
structure Mined (run : StagingRun) (template : BlockTemplate) (block : Block) : Prop where
  returned : ∃ clock, run.resting.template clock = .ok template
  solved : ∃ extraNonce unsolved events header,
    candidate template payoutScript extraNonce = .ok unsolved ∧
      solvedHeader unsolved.header template.target events = some header ∧
      block = { unsolved with header }

end Miner

end Definition

section Runs

variable [Crypto] {txs : List Transaction} {run : StagingRun}

namespace StagingRun

/-- A call leaves the chain or extends it by one block. -/
theorem Sound.committed_call (sound : run.Sound txs) (next : StagingCall) :
    (run.call next).node.committed = run.node.committed ∨
      ∃ block, (run.call next).node.committed = run.node.committed ++ [block] := by
  cases next with
  | insert tx mtp now => exact Or.inl rfl
  | submit decoded =>
      obtain ⟨-, unchanged⟩ | ⟨-, -, extended⟩ := sound.submit_cases decoded
      · exact Or.inl (by rw [unchanged])
      · exact Or.inr ⟨decoded.block, by rw [extended]⟩

/-- What the calls preserve. -/
theorem Sound.calls (sound : run.Sound txs) (distinctIds : DistinctIds txs)
    (calls : List StagingCall) (known : calls.flatMap StagingCall.transactions ⊆ txs)
    (distinct : ∀ tx ∈ calls.flatMap StagingCall.inserted, tx.outPoints.Nodup) :
    (Steps.run StagingRun.call run calls).Sound txs ∧
      run.node.committed <+: (Steps.run StagingRun.call run calls).node.committed := by
  induction calls using List.reverseRecOn with
  | nil => exact ⟨sound, List.prefix_rfl⟩
  | append_singleton calls last inductionHypothesis =>
      rw [List.flatMap_append, List.append_subset, List.flatMap_singleton] at known
      rw [List.flatMap_append, List.forall_mem_append, List.flatMap_singleton] at distinct
      obtain ⟨before, grown⟩ := inductionHypothesis known.1 distinct.1
      rw [Steps.run_concat]
      refine ⟨(before.call distinctIds last known.2 distinct.2).1, grown.trans ?_⟩
      obtain same | ⟨block, extended⟩ := before.committed_call last
      · rw [same]
      · rw [extended]
        exact List.prefix_append _ _

theorem after_append (maxBytes : Nat) (calls later : List StagingCall) :
    after maxBytes (calls ++ later) = Steps.run StagingRun.call (after maxBytes calls) later :=
  Steps.run_append calls later

theorem after_concat (maxBytes : Nat) (calls : List StagingCall) (last : StagingCall) :
    after maxBytes (calls ++ [last]) = (after maxBytes calls).call last :=
  Steps.run_concat calls last

/-- A submission is refused and changes nothing exactly when the block is not
accepted on the chain. -/
theorem Sound.submit_iff (sound : run.Sound txs) (decoded : DecodedBlock) :
    (Accepts run.node.committed decoded.block ∧
        (run.call (.submit decoded)).node.committed = run.node.committed ++ [decoded.block] ∧
        (run.call (.submit decoded)).mempool =
          run.mempool.processCommittedBlock decoded.block) ∨
      (¬ Accepts run.node.committed decoded.block ∧ run.call (.submit decoded) = run) := by
  obtain ⟨refused, unchanged⟩ | ⟨-, accepts, extended⟩ := sound.submit_cases decoded
  · refine Or.inr ⟨fun accepts => refused ?_, unchanged⟩
    have passed := (verdict_eq_ok_iff sound.chain decoded.wellFormed false
      decoded.block.spentOutPoints).mpr ⟨accepts, rfl⟩
    rw [run_processAndCommitBlock, sound.engine, passed]
  · exact Or.inl ⟨accepts, by rw [extended], by rw [extended]⟩

end StagingRun

end Runs

section Candidates

open Miner

variable [Crypto] {txs : List Transaction} {run : StagingRun} {template : BlockTemplate}
  {payoutScript : Bytes} {block : Block}

/-- What a miner builds: its coinbase takes the subsidy and stands before the
transactions of the template. -/
structure Miner.BuiltFrom (template : BlockTemplate) (payoutScript : Bytes) (block : Block)
    (coinbase : Transaction) : Prop where
  assembled : ∃ extraNonce, buildCoinbaseTransaction template.height payoutScript
    template.coinbaseSubsidy Quantum.zero extraNonce = .ok coinbase
  transactions : block.transactions = coinbase :: template.transactions
  parent : block.header.prevBlockHash = template.previousBlockHash
  merkleRoot : block.header.merkleRoot = block.calculateMerkleRoot
  bits : block.header.bits = targetToBits template.target
  height : block.header.height = template.height
  solves : Solves block template.target

theorem Miner.solvesWith_of_solvedHeader {header solved : BlockHeader} {target : Hash256}
    {events : List (Search.Event Nat)}
    (returned : solvedHeader header target events = some solved) :
    ∃ nonce, solved = { header with nonce } ∧ SolvesWith header target nonce := by
  obtain ⟨nonce, result, rfl⟩ := Option.map_eq_some_iff.mp returned
  obtain ⟨round, ⟨offset, -, tested⟩, -⟩ := Search.result_in_first_round offsets _ events result
  exact ⟨nonce, rfl, ((probeNonce_eq_some_iff _ _ _).mp tested).2⟩

theorem Miner.Mined.built (mined : Mined payoutScript run template block) :
    ∃ coinbase, BuiltFrom template payoutScript block coinbase := by
  obtain ⟨extraNonce, unsolved, events, header, assembled, returned, rfl⟩ := mined.solved
  obtain ⟨nonce, rfl, solves⟩ := solvesWith_of_solvedHeader returned
  rw [candidate, except_bind_eq_ok_iff] at assembled
  obtain ⟨coinbase, built, assembled⟩ := assembled
  cases assembled
  exact ⟨coinbase, ⟨extraNonce, built⟩, rfl, rfl, rfl, rfl, rfl, solves⟩

omit [Crypto] in
theorem Miner.coinbase_of_built {height : UInt64} {subsidy : Quantum} {extraNonce : UInt64}
    {coinbase : Transaction}
    (built : buildCoinbaseTransaction height payoutScript subsidy Quantum.zero extraNonce =
      .ok coinbase) :
    coinbase.isCoinbase = true ∧ coinbase.outputTotal = subsidy.raw := by
  rw [buildCoinbaseTransaction, except_bind_eq_ok_iff] at built
  obtain ⟨reward, sum, built⟩ := built
  cases built
  refine ⟨rfl, ?_⟩
  have total : subsidy.raw + 0 = reward.raw :=
    (Quantum.checkedAdd_eq_ok_iff _ _ _).mp ((mapError_eq_ok_iff _ _ _).mp sum)
  simpa [Transaction.outputTotal] using total.symm

theorem Miner.BuiltFrom.spending_eq {coinbase : Transaction}
    (built : BuiltFrom template payoutScript block coinbase)
    (others : ∀ tx ∈ template.transactions, tx.isCoinbase = false) :
    block.spending = template.transactions := by
  obtain ⟨extraNonce, isBuilt⟩ := built.assembled
  rw [Block.spending, built.transactions,
    List.filter_cons_of_neg (by simp [(coinbase_of_built isBuilt).1]), List.filter_eq_self]
  intro tx isIn
  simp [others tx isIn]

/-- The transactions of a template are staged. -/
theorem StagingRun.Sound.staged_of_template (sound : run.Sound txs) {clock : Clock}
    (returned : run.resting.template clock = .ok template) :
    template.transactions.Sublist run.mempool.stagedTransactions ∧
      ∀ tx ∈ template.transactions, tx.Funded run.storage.lookup := by
  obtain ⟨_, -, -, -, -, -, selected⟩ := Node.of_template returned
  have sublist : template.transactions.Sublist run.mempool.stagedTransactions := by
    rw [selected]
    exact run.mempool.select_sublist _
  refine ⟨sublist, ?_⟩
  intro tx isIn
  obtain ⟨txid, entry, found, rfl⟩ :=
    (sound.consistent.mem_stagedTransactions_iff tx).mp (sublist.subset isIn)
  exact sound.funded txid entry found

/-- A mined block is accepted on the chain of its template exactly when the contracts
of the template's transactions accept at its height. -/
theorem StagingRun.Sound.accepts_mined_iff (sound : run.Sound txs)
    (mined : Mined payoutScript run template block) (wellFormed : block.WellFormed) :
    Accepts run.node.committed block ↔
      ∀ tx ∈ template.transactions, tx.ContractsAccept run.storage.lookup template.height := by
  obtain ⟨coinbase, built⟩ := mined.built
  obtain ⟨clock, returned⟩ := mined.returned
  obtain ⟨height, top, fits, isHeight, ⟨bits, decodes⟩, subsidy, -⟩ := Node.of_template returned
  obtain ⟨staged, funded⟩ := sound.staged_of_template returned
  obtain ⟨extraNonce, isBuilt⟩ := built.assembled
  obtain ⟨isCoinbase, reward⟩ := coinbase_of_built isBuilt
  obtain ⟨tip, last⟩ := sound.chain.exists_last
  have isTip : run.node.engine.storage.getTip = some (tip.header.height, tip.blockHash) := by
    rw [sound.engine, getTip_ledger last]
  change run.node.engine.storage.getTip.getD (0, Hash256.zero) = _ at top
  rw [isTip, Option.getD_some, Prod.mk.injEq] at top
  obtain ⟨rfl, parent⟩ := top
  have next : template.height.toNat = tip.header.height.toNat + 1 := by
    rw [isHeight, UInt64.toNat_add]
    exact Nat.mod_eq_of_lt fits
  have structured : StructureValid block block.header.height coinbase template.transactions := {
    transactions := built.transactions
    height := rfl
    work := fun _ => (checkPow_eq_ok_iff _ _).mpr ⟨template.target,
      built.bits ▸ compactToTarget_targetToBits decodes, (le_iff_toNat_le _ _).mp built.solves⟩
    merkleRoot := built.merkleRoot
    isCoinbase
    noOther := fun tx isIn => (funded tx isIn).notCoinbase
    subsidy := by
      have positive : template.height ≠ 0 := by
        intro zero
        rw [zero] at next
        exact absurd next (Nat.succ_ne_zero _).symm
      rw [reward, subsidy, built.height, RpcHandler.calculateBlockSubsidy_eq, allowedSubsidy,
        if_neg positive] }
  have spending : block.spending = template.transactions := structured.spending_eq
  have contracts : (∀ tx ∈ template.transactions,
      SpendValid run.storage.lookup template.height tx) ↔
        ∀ tx ∈ template.transactions, tx.ContractsAccept run.storage.lookup template.height :=
    forall₂_congr fun tx isIn => (funded tx isIn).spendValid_iff template.height
  have spends : verifyBlockInvariants block (ledger run.node.committed).lookup =
      .ok block.spentOutPoints ↔
        ∀ tx ∈ template.transactions, tx.ContractsAccept run.storage.lookup template.height := by
    rw [verifyBlockInvariants_eq_ok_iff, spending, built.height, ← contracts, ← sound.storage_eq]
    refine ⟨fun valid => valid.1, fun valid => ⟨valid, ?_, rfl⟩⟩
    rw [Block.spentOutPoints, spending]
    apply (staged.flatMap Transaction.outPoints).nodup
    apply sound.consistent.staged_spends_nodup
    intro tx isStaged
    obtain ⟨txid, entry, found, rfl⟩ :=
      (sound.consistent.mem_stagedTransactions_iff tx).mp isStaged
    exact (sound.funded txid entry found).distinct
  constructor
  · intro accepts
    exact spends.mp accepts.spends
  · intro accept
    exact {
      wellFormed
      connects := ⟨tip, last, built.parent.trans parent.symm, built.height ▸ next⟩
      structured := (verifyBlockStructure_eq_ok_iff _ _).mpr ⟨_, _, structured⟩
      spends := spends.mpr accept }

end Candidates

section Interleaving

open Miner

variable [Crypto]

namespace StagingRun

theorem transactionsOf_append (calls later : List StagingCall) :
    transactionsOf (calls ++ later) =
      transactionsOf calls ++ later.flatMap StagingCall.transactions := by
  rw [transactionsOf, List.flatMap_append, ← List.append_assoc]
  rfl

theorem sound_after (maxBytes : Nat) {calls : List StagingCall} {txs : List Transaction}
    (distinctIds : DistinctIds txs) (known : transactionsOf calls ⊆ txs)
    (distinct : ∀ tx ∈ calls.flatMap StagingCall.inserted, tx.outPoints.Nodup) :
    (after maxBytes calls).Sound txs := by
  obtain ⟨knownGenesis, knownCalls⟩ := List.append_subset.mp known
  exact ((sound_start maxBytes knownGenesis).calls distinctIds calls knownCalls distinct).1

end StagingRun

/-- A mined block is committed exactly when the node has committed no other one
since the template, and the contracts of the template's transactions accept at the
next height.  Otherwise the submission changes nothing. -/
theorem mined_block_committed_iff (maxBytes : Nat) (calls meanwhile : List StagingCall)
    (distinctIds : DistinctIds (transactionsOf (calls ++ meanwhile)))
    (distinct : ∀ tx ∈ (calls ++ meanwhile).flatMap StagingCall.inserted, tx.outPoints.Nodup)
    {payoutScript : Bytes} {template : BlockTemplate} (decoded : DecodedBlock)
    (mined : Mined payoutScript (StagingRun.after maxBytes calls) template decoded.block) :
    let before := StagingRun.after maxBytes calls
    let run := StagingRun.after maxBytes (calls ++ meanwhile)
    let final := run.call (.submit decoded)
    (final.node.committed = run.node.committed ++ [decoded.block] ↔
      run.node.committed = before.node.committed ∧
        ∀ tx ∈ template.transactions,
          tx.ContractsAccept before.storage.lookup template.height) ∧
    (final.node.committed ≠ run.node.committed ++ [decoded.block] → final = run) := by
  intro before run final
  rw [StagingRun.transactionsOf_append] at distinctIds
  rw [List.flatMap_append, List.forall_mem_append] at distinct
  have soundBefore : before.Sound _ :=
    StagingRun.sound_after maxBytes distinctIds (List.subset_append_left _ _) distinct.1
  obtain ⟨sound, grown⟩ := soundBefore.calls distinctIds meanwhile
    (List.subset_append_right _ _) distinct.2
  rw [← StagingRun.after_append] at sound grown
  have exactly := soundBefore.accepts_mined_iff mined decoded.wellFormed
  -- The block has the height after the template's tip.
  have unchanged : Accepts run.node.committed decoded.block →
      run.node.committed = before.node.committed := by
    intro accepts
    obtain ⟨coinbase, built⟩ := mined.built
    obtain ⟨clock, returned⟩ := mined.returned
    obtain ⟨height, top, fits, isHeight, -⟩ := Node.of_template returned
    obtain ⟨tip, last⟩ := soundBefore.chain.exists_last
    change before.node.engine.storage.getTip.getD (0, Hash256.zero) = _ at top
    rw [soundBefore.engine, getTip_ledger last, Option.getD_some, Prod.mk.injEq] at top
    have position := sound.chain.height_of_accepts accepts
    have below := soundBefore.chain.height_eq (List.getLast?_eq_getElem? ▸ last)
    have positive := soundBefore.chain.length_pos
    rw [built.height, isHeight, UInt64.toNat_add, ← top.1] at position
    rw [← top.1] at fits
    have sum : (tip.header.height.toNat + (1 : UInt64).toNat) % 2 ^ 64 =
        tip.header.height.toNat + 1 := Nat.mod_eq_of_lt fits
    rw [sum] at position
    exact (grown.eq_of_length (by omega)).symm
  have decides : Accepts run.node.committed decoded.block ↔
      run.node.committed = before.node.committed ∧
        ∀ tx ∈ template.transactions,
          tx.ContractsAccept before.storage.lookup template.height := by
    rw [← exactly]
    constructor
    · intro accepts
      have same := unchanged accepts
      exact ⟨same, same ▸ accepts⟩
    · rintro ⟨same, accepts⟩
      exact same ▸ accepts
  rw [← decides]
  obtain ⟨accepts, committed, -⟩ | ⟨refused, same⟩ := sound.submit_iff decoded
  · exact ⟨iff_of_true committed accepts, fun other => absurd committed other⟩
  · refine ⟨iff_of_false ?_ refused, fun _ => same⟩
    change run.call (.submit decoded) = run at same
    simp [final, same]

end Interleaving

section Sample

open Sample Miner

attribute [local instance] Sample.miningCrypto

def Sample.minedCalls : List StagingCall := [.submit firstDecoded, .insert cheap 0 0]

theorem Sample.template_minedCalls :
    (StagingRun.after 1000 minedCalls).resting.template (.ok 0) = .ok rewardedTemplate := by
  decide +kernel

theorem Sample.candidate_rewarded :
    Miner.candidate rewardedTemplate [0x51] 1 = .ok (rewardedBlock 0) := by
  decide +kernel

theorem Sample.wellFormed_rewardedBlock (nonce : UInt64) : (rewardedBlock nonce).WellFormed where
  transactionCount := (by decide : [rewarded, cheap].length < 2 ^ 32)
  transactions := (by decide +kernel : ∀ tx ∈ [rewarded, cheap], tx.WellFormed)

/-- Some nonce is found for the candidate. -/
theorem Sample.exists_rewarded :
    ∃ nonce, solvedHeader (rewardedBlock 0).header rewardedTemplate.target
      (Search.Stretch.all [stretch]) = some (rewardedHeader nonce) := by
  have solves : SolvesWith (rewardedBlock 0).header rewardedTemplate.target 1 := by
    unfold SolvesWith
    decide +kernel
  obtain ⟨nonce, result⟩ := exists_result solves [stretch] (by decide)
  exact ⟨nonce, by rw [solvedHeader, result, Option.map_some]; rfl⟩

/-- A transaction that comes too late for the template does not keep the block from
being committed. -/
theorem mined_block_committed_iff_rewarded :
    ∃ decoded : DecodedBlock, decoded.block.transactions = [rewarded, cheap] ∧
      let run := StagingRun.after 1000 (minedCalls ++ [.insert expiring 0 0])
      (run.call (.submit decoded)).node.committed = run.node.committed ++ [decoded.block] := by
  obtain ⟨nonce, solved⟩ := exists_rewarded
  let decoded : DecodedBlock := .ofWellFormed (rewardedBlock nonce) (wellFormed_rewardedBlock nonce)
  have mined : Mined [0x51] (StagingRun.after 1000 minedCalls) rewardedTemplate decoded.block :=
    ⟨⟨_, template_minedCalls⟩, 1, _, _, _, candidate_rewarded, solved, rfl⟩
  have unmoved : (StagingRun.after 1000 (minedCalls ++ [.insert expiring 0 0])).node.committed =
      (StagingRun.after 1000 minedCalls).node.committed := by
    decide +kernel
  have valid : verifyBlockInvariants (rewardedBlock 0)
      (StagingRun.after 1000 minedCalls).storage.lookup = .ok [coinbaseOutput] := by
    decide +kernel
  refine ⟨decoded, rfl, ?_⟩
  refine (mined_block_committed_iff 1000 minedCalls [.insert expiring 0 0] (by decide +kernel)
    (by decide +kernel) decoded mined).1.mpr ⟨unmoved, ?_⟩
  intro tx isSelected
  obtain rfl := List.mem_singleton.mp isSelected
  exact (((verifyBlockInvariants_eq_ok_iff _ _ _).mp valid).1 cheap (by decide +kernel)).authorised

end Sample

end Aurion
