import Aurion.Daemon.Handlers
import Aurion.Mempool.Selection
import Aurion.Miner.TargetBits

/-!
# The block a miner builds from a template

The miner puts its coinbase before the template's transactions and searches a
nonce.  The template, the miner and the structural check have subsidies,
encodings and layouts of their own; the last section shows that they agree.
-/

namespace Aurion

open Foundation

namespace Miner

def bip34Push (height extraNonce : UInt64) : Bytes := u64ToBeBytes height ++ u64ToBeBytes extraNonce

def buildCoinbaseTransaction (height : UInt64) (payoutScript : Bytes) (subsidy fees : Quantum)
    (extraNonce : UInt64) : Except String Transaction := do
  let totalReward ← (subsidy.checkedAdd fees).mapError fun _ => "coinbase reward overflow"
  let input : TxInput :=
    { previousOutput := { txid := Hash256.zero, vout := 0xFFFFFFFF }
      unlockingScript := bip34Push height extraNonce
      sequence := 0xFFFFFFFF
      redeemer := none }
  let output : TxOutput := { value := totalReward, lockingScript := payoutScript, datum := .none }
  pure { version := 1, inputs := [input], outputs := [output], locktime := 0 }

variable [Crypto]

/-- The candidate of one round of the mining loop, before the search. -/
def candidate (template : BlockTemplate) (payoutScript : Bytes) (extraNonce : UInt64) :
    Except String Block := do
  let coinbase ← buildCoinbaseTransaction template.height payoutScript template.coinbaseSubsidy
    Quantum.zero extraNonce
  let txs := coinbase :: template.transactions
  let header : BlockHeader :=
    { version := 1
      prevBlockHash := template.previousBlockHash
      merkleRoot := computeMerkleRoot (txs.map Transaction.txid)
      timestamp := template.timestamp
      bits := targetToBits template.target
      nonce := 0
      height := template.height }
  pure { header, transactions := txs }

omit [Crypto] in
/-- The candidate with a probed nonce. -/
def withNonce (block : Block) (nonce : UInt64) : Block :=
  { block with header := { block.header with nonce } }

/-- The comparison by which `mine_candidate` ends its search. -/
def Solves (block : Block) (target : Hash256) : Prop :=
  block.blockHash.asBytes ≤ target.asBytes

instance (block : Block) (target : Hash256) : Decidable (Solves block target) :=
  inferInstanceAs (Decidable (block.blockHash.asBytes ≤ target.asBytes))

end Miner

section Template

variable [Crypto]

/-- The node when no task is running. -/
def Node.resting (offered : List DecodedBlock) (pool : Mempool) : Node where
  engine := (NodeRun.after offered).engine
  mempool := pool
  writer := none
  committed := (NodeRun.after offered).committed
  seen := fun _ => []

/-- What the handler returns on a node that nothing else changes. -/
def Node.template (node : Node) (clock : Clock) : Except String BlockTemplate :=
  (RpcHandler.handleGetBlockTemplate clock).run.evaluate node.answer

omit [Crypto] in
theorem RpcHandler.targetOf_eq_ok {bits : UInt32} {target : Hash256}
    (found : targetOf bits = .ok target) : ∃ bits', compactToTarget bits' = .ok target := by
  unfold targetOf at found
  cases decoded : compactToTarget bits with
  | ok decoded' =>
      rw [decoded] at found
      cases found
      exact ⟨bits, decoded⟩
  | error error =>
      rw [decoded] at found
      exact ⟨maxTargetBits, (mapError_eq_ok_iff _ _ _).mp found⟩

omit [Crypto] in
/-- The service and the validator have the same schedule. -/
theorem RpcHandler.calculateBlockSubsidy_eq (height : UInt64) :
    RpcHandler.calculateBlockSubsidy height = Aurion.calculateBlockSubsidy height := by
  have units : (checkedMul RpcHandler.initialSubsidyAur RpcHandler.quantumPerAur).getD 0 =
      initialSubsidyQuanta.raw := by decide
  unfold RpcHandler.calculateBlockSubsidy Aurion.calculateBlockSubsidy
  rw [units]
  by_cases late : height.toNat / RpcHandler.halvingIntervalBlocks ≥ 64
  · rw [if_pos late]
    exact (if_pos late).symm
  · have shift : RpcHandler.checkedShr initialSubsidyQuanta.raw
        (height.toNat / RpcHandler.halvingIntervalBlocks) =
          some (initialSubsidyQuanta.raw >>> (height.toNat / RpcHandler.halvingIntervalBlocks)) :=
      if_pos (by omega)
    rw [if_neg late]
    dsimp only
    rw [shift]
    exact (if_neg late).symm

omit [Crypto] in
theorem RpcHandler.successor_eq_ok_iff (value next : UInt64) (overflow : String) :
    successor value overflow = .ok next ↔ value.toNat + 1 < 2 ^ 64 ∧ next = value + 1 := by
  unfold successor
  split
  next fits => rw [Except.ok.injEq, eq_comm, and_iff_right fits]
  next full =>
      constructor
      · intro failed
        cases failed
      · intro both
        exact absurd both.1 full

theorem Node.evaluate_tip (node : Node) :
    RpcHandler.tip.run.evaluate node.answer =
      .ok (node.engine.storage.getTip.getD (0, Hash256.zero)) := rfl

/-- The target comes from some compact bits. -/
theorem Node.of_nextWorkTarget {node : Node} {tipHash target : Hash256}
    (returned : (RpcHandler.nextWorkTarget tipHash).run.evaluate node.answer = .ok target) :
    ∃ bits, compactToTarget bits = .ok target := by
  rw [RpcHandler.nextWorkTarget, Program.evaluate_except_bind, except_bind_eq_ok_iff] at returned
  obtain ⟨answer, -, returned⟩ := returned
  rw [Program.evaluate_except_bind, except_bind_eq_ok_iff] at returned
  obtain ⟨found, -, returned⟩ := returned
  exact RpcHandler.targetOf_eq_ok returned

/-- The fields of a returned template. -/
theorem Node.of_template {node : Node} {clock : Clock} {template : BlockTemplate}
    (returned : node.template clock = .ok template) :
    ∃ height, node.engine.storage.getTip.getD (0, Hash256.zero) =
        (height, template.previousBlockHash) ∧
      height.toNat + 1 < 2 ^ 64 ∧ template.height = height + 1 ∧
      (∃ bits, compactToTarget bits = .ok template.target) ∧
      template.coinbaseSubsidy = RpcHandler.calculateBlockSubsidy template.height ∧
      template.transactions =
        node.mempool.selectTransactionsForBlock RpcHandler.maxBlockPayloadBytes := by
  unfold Node.template RpcHandler.handleGetBlockTemplate at returned
  simp only [Program.evaluate_except_bind, except_bind_eq_ok_iff] at returned
  obtain ⟨tip, isTip, nextHeight, counted, target, aimed, transactions, selected, totalFee, -, now,
    -, mtp, -, timestamp, -, built⟩ := returned
  rw [Node.evaluate_tip, Except.ok.injEq] at isTip
  obtain ⟨fits, rfl⟩ := (RpcHandler.successor_eq_ok_iff _ _ _).mp counted
  cases selected
  cases built
  exact ⟨tip.1, isTip, fits, rfl, Node.of_nextWorkTarget aimed, rfl, rfl⟩

end Template

section Agreement

variable [Crypto]

open Miner

omit [Crypto] in
/-- Without fees the miner's reward is the template's subsidy. -/
theorem Miner.exists_coinbase (template : BlockTemplate) (payoutScript : Bytes)
    (extraNonce : UInt64) :
    ∃ coinbase, buildCoinbaseTransaction template.height payoutScript template.coinbaseSubsidy
        Quantum.zero extraNonce = .ok coinbase ∧
      coinbase.isCoinbase = true ∧ coinbase.outputTotal = template.coinbaseSubsidy.raw := by
  have reward : template.coinbaseSubsidy.checkedAdd Quantum.zero = .ok template.coinbaseSubsidy :=
    (Quantum.checkedAdd_eq_ok_iff _ _ _).mpr rfl
  rw [buildCoinbaseTransaction, reward]
  exact ⟨_, rfl, by rfl, by simp [Transaction.outputTotal]⟩

omit [Crypto] in
/-- The search compares bytes, the work check numbers. -/
theorem Miner.le_iff_toNat_le (hash target : Hash256) :
    hash.asBytes ≤ target.asBytes ↔ hash.toNat ≤ target.toNat := by
  have order := lt_iff_beValue_lt (target.size.trans hash.size.symm)
  rw [← List.not_lt, order, Nat.not_lt]
  rfl

/-- Work that does not meet the target is the first fault the validator sees. -/
theorem verifyBlockStructure_of_excess {block : Block} {height : UInt64} {target : Hash256}
    (nonempty : block.transactions ≠ []) (expected : block.header.height = height)
    (positive : 0 < height) (decoded : compactToTarget block.header.bits = .ok target)
    (excess : target.asBytes < block.blockHash.asBytes) :
    verifyBlockStructure block height =
      .error (.proofOfWorkExceeded block.blockHash.toHex target.toHex) := by
  have work : checkPow block.blockHash block.header.bits =
      .error (.proofOfWorkExceeded block.blockHash.toHex target.toHex) := by
    rw [checkPow, decoded]
    exact if_pos excess
  subst expected
  unfold verifyBlockStructure
  cases body : block.transactions with
  | nil => exact absurd body nonempty
  | cons coinbase others =>
      simp only [ensure, if_true, if_pos positive, work]
      rfl

/-- On every reachable ledger and pool the miner's block passes the parent and
the structure check with a solving nonce, and no other nonce passes. -/
theorem solved_template_accepted (offered : List DecodedBlock) (maxBytes : Nat)
    (calls : List MempoolCall) (clock : Clock) (payoutScript : Bytes) (extraNonce : UInt64)
    {template : BlockTemplate}
    (returned : (Node.resting offered (Mempool.after maxBytes calls)).template clock =
      .ok template) :
    ∃ height parent block,
      (NodeRun.after offered).engine.storage.getTip = some (height, parent) ∧
      candidate template payoutScript extraNonce = .ok block ∧
      ∀ nonce,
        expectedConnection (some (height, parent)) =
          .ok (height + 1, (withNonce block nonce).header.prevBlockHash) ∧
        (Solves (withNonce block nonce) template.target →
          verifyBlockStructure (withNonce block nonce) (height + 1) = .ok ()) ∧
        (¬ Solves (withNonce block nonce) template.target →
          verifyBlockStructure (withNonce block nonce) (height + 1) =
            .error (.proofOfWorkExceeded (withNonce block nonce).blockHash.toHex
              template.target.toHex)) := by
  obtain ⟨height, top, fits, isHeight, ⟨bits, decoded⟩, subsidy, selected⟩ :=
    Node.of_template returned
  obtain ⟨coinbase, built, isCoinbase, reward⟩ :=
    Miner.exists_coinbase template payoutScript extraNonce
  have isTip : (NodeRun.after offered).engine.storage.getTip =
      some (height, template.previousBlockHash) := by
    obtain ⟨chain, engine⟩ := NodeRun.chain_after offered
    obtain ⟨tip, last⟩ := chain.exists_last
    rw [Node.resting, engine, getTip_ledger last, Option.getD_some] at top
    rw [engine, getTip_ledger last, top]
  have positive : 0 < height + 1 := by
    rw [UInt64.lt_iff_toNat_lt, UInt64.toNat_add]
    simp
    omega
  refine ⟨height, template.previousBlockHash, _, isTip, by rw [candidate, built]; rfl, ?_⟩
  intro nonce
  have target := Miner.compactToTarget_targetToBits decoded
  refine ⟨if_pos fits, ?_, ?_⟩
  · intro solves
    apply (verifyBlockStructure_eq_ok_iff _ _).mpr
    refine ⟨coinbase, template.transactions, ?_⟩
    exact {
      transactions := rfl
      height := isHeight
      work := fun _ => (checkPow_eq_ok_iff _ _).mpr
        ⟨template.target, target, (Miner.le_iff_toNat_le _ _).mp solves⟩
      merkleRoot := rfl
      isCoinbase
      noOther := by
        rw [selected]
        exact Mempool.notCoinbase_of_selected maxBytes calls _
      subsidy := by
        rw [reward, subsidy, isHeight, RpcHandler.calculateBlockSubsidy_eq, allowedSubsidy,
          if_neg (Ne.symm (UInt64.ne_of_lt positive))] }
  · intro unsolved
    exact verifyBlockStructure_of_excess (List.cons_ne_nil _ _) isHeight positive target
      (List.not_le.mp unsolved)

end Agreement

namespace Sample

/-! A template over the first block with one staged transaction, and the block
a miner builds from it, with Blake3 digests. -/

def rewarded : Transaction where
  version := 1
  inputs := [{
    previousOutput := { txid := Hash256.zero, vout := 0xFFFFFFFF }
    unlockingScript := u64ToBeBytes 2 ++ u64ToBeBytes 1
    sequence := 0xFFFFFFFF
    redeemer := none }]
  outputs := [unlocked 9900000000]
  locktime := 0

def rewardedId : Hash256 :=
  Hash256.ofNat 0x0fc9df2dc9c48a86d1d399a95f6ba9a83e4016fc20fd54a7f627b3e4f8795acd

def rewardedRoot : Hash256 :=
  Hash256.ofNat 0x3af873655e20d64d628f41749d65bdc017d0a0f0ac6253e64c5ca7cce0feab62

def rewardedHeader (nonce : UInt64) : BlockHeader :=
  header firstHash rewardedRoot 1773446461 nonce 2

def rewardedTemplate : BlockTemplate where
  height := 2
  previousBlockHash := firstHash
  target := Hash256.ofNat (0x7fffff * 256 ^ 29)
  timestamp := 1773446461
  coinbaseSubsidy := Quantum.fromRaw 9900000000
  totalFee := Quantum.fromRaw 1000
  transactions := [cheap]

def rewardedBlock (nonce : UInt64) : Block where
  header := rewardedHeader nonce
  transactions := [rewarded, cheap]

def minedDigests : List (Bytes × Hash256) := [
  (rewarded.encodeCanonical, rewardedId),
  (rewardedId.asBytes ++ cheapId.asBytes, rewardedRoot),
  ((rewardedHeader 0).encodeCanonical,
    Hash256.ofNat 0xb8ced09b88ff2b7c7ad46eef47df3deb99acf8a3cebc7ab59b82a9ea7623604e),
  ((rewardedHeader 1).encodeCanonical,
    Hash256.ofNat 0x0d33a9582433c1ac1f33ad200557e3a1771cc340e81a5c865c735a2e498aa528)]

abbrev miningCrypto : Crypto := Crypto.ofTables (digests ++ stagedDigests ++ minedDigests) []

end Sample

section Sample

open Sample Miner

attribute [local instance] Sample.miningCrypto

/-- The second nonce solves the block and the first one does not. -/
theorem solved_template_accepted_cheap :
    (Node.resting [firstDecoded] (Mempool.after 1000 [.insert cheap plenty 1 0 0])).template
      (.ok 0) = .ok rewardedTemplate ∧
    candidate rewardedTemplate [0x51] 1 = .ok (rewardedBlock 0) ∧
    verifyBlockStructure (rewardedBlock 1) 2 = .ok () ∧
    ∃ error, verifyBlockStructure (rewardedBlock 0) 2 = .error error := by
  have returned : (Node.resting [firstDecoded]
      (Mempool.after 1000 [.insert cheap plenty 1 0 0])).template (.ok 0) =
        .ok rewardedTemplate := by
    decide +kernel
  have built : candidate rewardedTemplate [0x51] 1 = .ok (rewardedBlock 0) := by decide +kernel
  obtain ⟨height, parent, block, top, isBlock, checks⟩ := solved_template_accepted [firstDecoded]
    1000 [.insert cheap plenty 1 0 0] (.ok 0) [0x51] 1 returned
  have isTip : (NodeRun.after [firstDecoded]).engine.storage.getTip = some (1, firstHash) := by
    decide +kernel
  cases top.symm.trans isTip
  cases isBlock.symm.trans built
  refine ⟨returned, built, (checks 1).2.1 (by decide +kernel), _, (checks 0).2.2 ?_⟩
  decide +kernel

end Sample

end Aurion
