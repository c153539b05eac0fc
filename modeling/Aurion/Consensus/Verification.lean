import Aurion.Consensus.Difficulty
import Aurion.Consensus.Subsidy
import Aurion.Foundation.Check

/-!
# The genesis block and the structural check of a block
-/

namespace Aurion

open Foundation

section Genesis

def genesisTimestamp : UInt64 := 1773446400

/-- "Aurion: Sovereign Monolithic Digital Asset - Pure Truth" in ASCII. -/
def genesisPayload : Bytes :=
  "Aurion: Sovereign Monolithic Digital Asset - Pure Truth".toList.map fun character =>
    UInt8.ofNat character.toNat

def genesisNonce : UInt64 := 124776

def genesisCoinbase : Transaction where
  version := 1
  inputs := [{
    previousOutput := { txid := Hash256.zero, vout := 0xFFFFFFFF }
    unlockingScript := genesisPayload
    sequence := 0xFFFFFFFF
    redeemer := none }]
  outputs := [
    { value := Quantum.fromRaw (creatorAllocationAur * quantaPerAur)
      lockingScript := [0x51]
      datum := .none },
    { value := Quantum.fromRaw (devAllocationAur * quantaPerAur)
      lockingScript := [0x51]
      datum := .none }]
  locktime := 0

def createGenesisBlock [Crypto] : Block where
  header := {
    version := 1
    prevBlockHash := Hash256.zero
    merkleRoot := genesisCoinbase.txid
    timestamp := genesisTimestamp
    bits := maxTargetBits
    nonce := genesisNonce
    height := 0 }
  transactions := [genesisCoinbase]

end Genesis

def saturatingAdd (left right : Nat) : Nat := min (left + right) (2 ^ 128 - 1)

def totalCoinbaseOutput (coinbase : Transaction) : Nat :=
  coinbase.outputs.foldl (fun total output => saturatingAdd total output.value.raw) 0

def allowedSubsidy (expectedHeight : UInt64) : Nat :=
  if expectedHeight = 0 then totalGenesisPremineQuanta.raw
  else (calculateBlockSubsidy expectedHeight).raw

def verifyBlockStructure [Crypto] (block : Block) (expectedHeight : UInt64) :
    Except ConsensusError Unit :=
  match block.transactions with
  | [] => .error .emptyBlock
  | coinbase :: others => do
      ensure (block.header.height = expectedHeight)
        (.heightMismatch block.header.height expectedHeight)
      (if block.header.height > 0 then checkPow block.blockHash block.header.bits else .ok ())
      let calculatedRoot := block.calculateMerkleRoot
      ensure (block.header.merkleRoot = calculatedRoot)
        (.merkleRootMismatch block.header.merkleRoot calculatedRoot)
      ensure (coinbase.isCoinbase = true) .missingCoinbase
      others.forM fun tx => ensure (tx.isCoinbase = false) .multipleCoinbase
      ensure (totalCoinbaseOutput coinbase ≤ allowedSubsidy expectedHeight)
        (.subsidyExceeded (allowedSubsidy expectedHeight) (totalCoinbaseOutput coinbase))

section Acceptance

/-- The sum of a transaction's output values, without any bound. -/
def Transaction.outputTotal (tx : Transaction) : Nat :=
  (tx.outputs.map fun output => output.value.raw).sum

theorem totalCoinbaseOutput_eq (coinbase : Transaction) :
    totalCoinbaseOutput coinbase = min coinbase.outputTotal (2 ^ 128 - 1) := by
  have general : ∀ (outputs : List TxOutput) (start : Nat), start ≤ 2 ^ 128 - 1 →
      outputs.foldl (fun total output => saturatingAdd total output.value.raw) start =
        min (start + (outputs.map fun output => output.value.raw).sum) (2 ^ 128 - 1) := by
    intro outputs
    induction outputs with
    | nil => intro start bound; simp; omega
    | cons output outputs inductionHypothesis =>
        intro start bound
        rw [List.foldl_cons, inductionHypothesis _ (by unfold saturatingAdd; omega),
          List.map_cons, List.sum_cons, saturatingAdd]
        omega
  simpa [totalCoinbaseOutput, Transaction.outputTotal] using general coinbase.outputs 0 (by omega)

theorem allowedSubsidy_lt (expectedHeight : UInt64) :
    allowedSubsidy expectedHeight < 2 ^ 128 - 1 := by
  unfold allowedSubsidy
  split
  · decide
  · rw [raw_calculateBlockSubsidy]
    exact Nat.lt_of_le_of_lt (Nat.div_le_self _ _) (by decide)

/-- What the structural check guarantees; the coinbase comes first and its
outputs are bounded by their true sum. -/
structure StructureValid [Crypto] (block : Block) (expectedHeight : UInt64)
    (coinbase : Transaction) (others : List Transaction) : Prop where
  transactions : block.transactions = coinbase :: others
  height : block.header.height = expectedHeight
  work : 0 < expectedHeight → checkPow block.blockHash block.header.bits = .ok ()
  merkleRoot : block.header.merkleRoot = block.calculateMerkleRoot
  isCoinbase : coinbase.isCoinbase = true
  noOther : ∀ tx ∈ others, tx.isCoinbase = false
  subsidy : coinbase.outputTotal ≤ allowedSubsidy expectedHeight

theorem verifyBlockStructure_eq_ok_iff [Crypto] (block : Block) (expectedHeight : UInt64) :
    verifyBlockStructure block expectedHeight = .ok () ↔
      ∃ coinbase others, StructureValid block expectedHeight coinbase others := by
  have bound := allowedSubsidy_lt expectedHeight
  unfold verifyBlockStructure
  cases shape : block.transactions with
  | nil =>
      simp only [reduceCtorEq, false_iff]
      intro accepted
      rcases accepted with ⟨coinbase, others, valid⟩
      exact absurd (shape.symm.trans valid.transactions) (by simp)
  | cons coinbase others =>
      simp only [check_bind_eq_ok_iff, ensure_eq_ok_iff, forM_eq_ok_iff]
      constructor
      · intro passed
        rcases passed with ⟨height, work, merkleRoot, isCoinbase, noOther, subsidy⟩
        rw [totalCoinbaseOutput_eq] at subsidy
        refine ⟨coinbase, others, shape, height, fun positive => ?_, merkleRoot, isCoinbase,
          noOther, by omega⟩
        rwa [if_pos (height ▸ positive)] at work
      · intro accepted
        rcases accepted with ⟨coinbase', others', valid⟩
        obtain ⟨rfl, rfl⟩ := List.cons.inj (shape.symm.trans valid.transactions)
        rw [totalCoinbaseOutput_eq]
        refine ⟨valid.height, ?_, valid.merkleRoot, valid.isCoinbase, valid.noOther,
          Nat.le_trans (Nat.min_le_left _ _) valid.subsidy⟩
        split
        next positive => exact valid.work (valid.height ▸ positive)
        next => rfl

end Acceptance

end Aurion
