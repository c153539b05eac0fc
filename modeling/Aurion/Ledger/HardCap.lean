import Aurion.Ledger.Run

/-!
# The hard cap

A round moves value from the outputs it spends to the outputs it creates, so
the table never holds more than the premine and the subsidies due so far.
-/

namespace Aurion

open Foundation

/-- The value of the output that a record stands for. -/
def recordValue (record : Bytes) : Nat :=
  match (decodeCanonical record : Except CodecError TxOutput) with
  | .ok output => output.value.raw
  | .error _ => 0

/-- The sum of the values of all unspent outputs. -/
def StorageEngine.totalValue (storage : StorageEngine) : Nat :=
  storage.utxos.total recordValue

theorem recordValue_encodeCanonical {output : TxOutput} (wellFormed : output.WellFormed) :
    recordValue output.encodeCanonical = output.value.raw := by
  have decoded := (StorageEngine.decodeTxOutput_eq_ok_iff output.encodeCanonical output).mpr
    ⟨wellFormed, rfl⟩
  rw [recordValue, decoded]

theorem held_recordValue (storage : StorageEngine) (op : OutPoint) :
    storage.utxos.held recordValue op.encodeCanonical = heldValue storage.lookup op := by
  simp only [Table.held, heldValue, StorageEngine.lookup, StorageEngine.getUtxo]
  cases storage.utxos.lookup op.encodeCanonical with
  | none => rfl
  | some record =>
      simp only [Option.elim_some, recordValue]
      cases (decodeCanonical record : Except CodecError TxOutput) <;> rfl

section Round

variable [Crypto]

theorem createdRecords_value {tx : Transaction} (wellFormed : tx.WellFormed) :
    ((StorageEngine.createdRecords tx).map fun binding => recordValue binding.2).sum =
      tx.outputTotal := by
  have values : (StorageEngine.createdRecords tx).map (fun binding => recordValue binding.2) =
      tx.outputs.map fun output => output.value.raw := by
    calc (StorageEngine.createdRecords tx).map (fun binding => recordValue binding.2)
        = (tx.outputs.zipIdx.map Prod.fst).map
            (fun output => recordValue output.encodeCanonical) := by
          rw [StorageEngine.createdRecords, List.map_map, List.map_map]
          rfl
      _ = tx.outputs.map fun output => output.value.raw := by
          rw [List.zipIdx_map_fst]
          apply List.map_congr_left
          intro output membership
          exact recordValue_encodeCanonical (wellFormed.outputs output membership)
  rw [values, Transaction.outputTotal]

theorem created_value {block : Block} (wellFormed : block.WellFormed) :
    (block.round.created.map fun binding => recordValue binding.2).sum =
      (block.transactions.map Transaction.outputTotal).sum := by
  have perTransaction : block.transactions.map (fun tx =>
      ((StorageEngine.createdRecords tx).map fun binding => recordValue binding.2).sum) =
      block.transactions.map Transaction.outputTotal := by
    apply List.map_congr_left
    intro tx membership
    exact createdRecords_value (wellFormed.transactions tx membership)
  rw [← perTransaction]
  exact Table.sum_map_flatMap _ _ _

/-- The spending transactions create no more than they take. -/
theorem outputTotals_le_held {storage : StorageEngine} {block : Block} {height : UInt64}
    (valid : ∀ tx ∈ block.spending, SpendValid storage.lookup height tx) :
    (block.spending.map Transaction.outputTotal).sum ≤
      (block.round.spent.map (storage.utxos.held recordValue)).sum := by
  have held : block.round.spent.map (storage.utxos.held recordValue) =
      block.spentOutPoints.map (heldValue storage.lookup) := by
    simp [Block.round, StorageEngine.utxoRound, held_recordValue]
  rw [held, Block.spentOutPoints, Table.sum_map_flatMap]
  exact List.sum_le_sum fun tx membership => (valid tx membership).conserved

/-- Committing an accepted block adds at most its subsidy. -/
theorem totalValue_commit_le {committed : List Block} {block : Block}
    (accepts : Accepts committed block) :
    (ledger (committed ++ [block])).totalValue ≤
      (ledger committed).totalValue + allowedSubsidy block.header.height := by
  obtain ⟨coinbase, valid⟩ := accepts.exists_coinbase
  obtain ⟨spends, distinct, -⟩ := (verifyBlockInvariants_eq_ok_iff _ _ _).mp accepts.spends
  have round := Table.total_applyRound_le recordValue (ledger committed).utxos block.round
    (Block.spent_nodup distinct)
  have taken := outputTotals_le_held spends
  have subsidy := valid.subsidy
  rw [created_value accepts.wellFormed, valid.transactions, List.map_cons, List.sum_cons] at round
  rw [ledger_append_singleton]
  change Table.total recordValue ((ledger committed).utxos.applyRound block.round) ≤
    (ledger committed).utxos.total recordValue + _
  omega

end Round

section Runs

variable [Crypto]

theorem totalValue_genesis_le :
    (ledger [createGenesisBlock]).totalValue ≤ totalGenesisPremineQuanta.raw := by
  have unspent : createGenesisBlock.spentOutPoints = [] := by simp [Block.spentOutPoints]
  have round := Table.total_applyRound_le recordValue ∅ createGenesisBlock.round
    (Block.spent_nodup (by simp [unspent]))
  have premine : genesisCoinbase.outputTotal = totalGenesisPremineQuanta.raw := by decide +kernel
  have empty : Table.total recordValue (∅ : Table Bytes Bytes) = 0 := rfl
  have created : (createGenesisBlock.transactions.map Transaction.outputTotal).sum =
      totalGenesisPremineQuanta.raw := by
    rw [← premine]
    exact Nat.add_zero _
  rw [created_value genesis_wellFormed, created, empty] at round
  change Table.total recordValue (Table.applyRound ∅ createGenesisBlock.round) ≤ _
  omega

theorem Chain.totalValue_le {committed : List Block} (chain : Chain committed) :
    (ledger committed).totalValue ≤
      totalGenesisPremineQuanta.raw + cumulativeSubsidy (committed.length - 1) := by
  induction chain with
  | genesis => simpa using totalValue_genesis_le
  | @extend committed block chain accepts inductionHypothesis =>
      have added := totalValue_commit_le accepts
      have height := chain.height_of_accepts accepts
      have positive := chain.length_pos
      have subsidy : allowedSubsidy block.header.height =
          (calculateBlockSubsidy (UInt64.ofNat committed.length)).raw := by
        have nonzero : block.header.height ≠ 0 := by
          intro zero
          rw [zero] at height
          exact absurd height (Nat.ne_of_lt positive)
        rw [allowedSubsidy, if_neg nonzero, ← height, UInt64.ofNat_toNat]
      have due := cumulativeSubsidy_succ (committed.length - 1)
      rw [Nat.sub_add_cancel positive] at due
      rw [List.length_append, List.length_singleton, Nat.add_sub_cancel, due, ← subsidy]
      omega

/-- In every reached state each record stands for an output, and together they
hold at most the premine and the subsidies up to the tip height, which never
exceeds the hard cap. -/
theorem supply_within_cap (offered : List DecodedBlock) :
    let storage := (NodeRun.after offered).engine.storage
    (∀ key record, storage.utxos.lookup key = some record →
      ∃ output : TxOutput, decodeCanonical record = .ok output) ∧
    ∃ height hash, storage.getTip = some (height, hash) ∧
      storage.totalValue ≤ totalGenesisPremineQuanta.raw + cumulativeSubsidy height.toNat ∧
      totalGenesisPremineQuanta.raw + cumulativeSubsidy height.toNat ≤
        maxTotalSupplyQuanta.raw := by
  obtain ⟨chain, engine⟩ := NodeRun.chain_after offered
  obtain ⟨tip, last⟩ := chain.exists_last
  have height := chain.height_eq (List.getLast?_eq_getElem? ▸ last)
  intro storage
  have reached : storage = ledger (NodeRun.after offered).committed := by
    simp only [storage, engine]
  rw [reached]
  refine ⟨?_, tip.header.height, tip.blockHash, getTip_ledger last, ?_, ?_⟩
  · intro key record found
    obtain ⟨output, encoded⟩ := chain.exists_output_of_record found
    exact ⟨output, (StorageEngine.decodeTxOutput_eq_ok_iff record output).mpr encoded⟩
  · rw [height]
    exact chain.totalValue_le
  · exact premine_add_cumulativeSubsidy_le _ tip.header.height.toNat_lt

end Runs

end Aurion
