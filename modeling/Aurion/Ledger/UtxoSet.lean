import Aurion.Ledger.Run

/-!
# The table of unspent outputs

The byte table of a run is compared with the outputs of the committed
blocks: an output is found exactly when the latest block that creates it is
followed by no block that spends it.
-/

namespace Aurion

open Foundation

section Exactness

variable [Crypto]

/-- The block has a transaction with this output under this outpoint. -/
def Block.Creates (block : Block) (op : OutPoint) (output : TxOutput) : Prop :=
  ∃ tx ∈ block.transactions, op.txid = tx.txid ∧ tx.outputs[op.vout.toNat]? = some output

/-- The latest of the blocks that create the output is followed by no spend. -/
def Unspent (committed : List Block) (op : OutPoint) (output : TxOutput) : Prop :=
  ∃ (height : Nat) (block : Block), committed[height]? = some block ∧ block.Creates op output ∧
    ∀ (later : Nat) (other : Block), height < later → committed[later]? = some other →
      ¬ other.Creates op output ∧ op ∉ other.spentOutPoints

theorem mem_created_iff {block : Block} (wellFormed : block.WellFormed) (op : OutPoint)
    (record : Bytes) :
    (op.encodeCanonical, record) ∈ block.round.created ↔
      ∃ output, block.Creates op output ∧ record = output.encodeCanonical := by
  simp only [Block.round, StorageEngine.utxoRound, List.mem_flatMap, Block.Creates]
  constructor
  · intro created
    rcases created with ⟨tx, inBlock, created⟩
    rw [StorageEngine.mem_createdRecords_iff tx op
      (wellFormed.transactions tx inBlock).outputCount] at created
    rcases created with ⟨sameTxid, output, at_, encoded⟩
    exact ⟨output, ⟨tx, inBlock, sameTxid, at_⟩, encoded⟩
  · intro created
    rcases created with ⟨output, ⟨tx, inBlock, sameTxid, at_⟩, encoded⟩
    refine ⟨tx, inBlock, ?_⟩
    rw [StorageEngine.mem_createdRecords_iff tx op
      (wellFormed.transactions tx inBlock).outputCount]
    exact ⟨sameTxid, output, at_, encoded⟩

theorem Block.Creates.wellFormed {block : Block} (blockWellFormed : block.WellFormed)
    {op : OutPoint} {output : TxOutput} (creates : block.Creates op output) :
    output.WellFormed := by
  obtain ⟨tx, inBlock, -, at_⟩ := creates
  exact (blockWellFormed.transactions tx inBlock).outputs output (List.mem_of_getElem? at_)

/-- The record of a created output determines the output. -/
theorem mem_created_encode_iff {block : Block} (wellFormed : block.WellFormed) (op : OutPoint)
    {output : TxOutput} (outputWellFormed : output.WellFormed) :
    (op.encodeCanonical, output.encodeCanonical) ∈ block.round.created ↔
      block.Creates op output := by
  rw [mem_created_iff wellFormed]
  constructor
  · intro created
    rcases created with ⟨other, creates, same⟩
    rwa [TxOutput.encodeCanonical_injective outputWellFormed (creates.wellFormed wellFormed) same]
  · exact fun creates => ⟨output, creates, rfl⟩

/-- Without collisions an outpoint names one output in all blocks of two chains. -/
theorem Chain.creates_unique {left right : List Block} (leftChain : Chain left)
    (rightChain : Chain right) {hashed : List Bytes} (free : CollisionFree hashed)
    (leftHashed : left.flatMap Block.hashed ⊆ hashed)
    (rightHashed : right.flatMap Block.hashed ⊆ hashed) {leftBlock rightBlock : Block}
    (leftIn : leftBlock ∈ left) (rightIn : rightBlock ∈ right) {op : OutPoint}
    {leftOutput rightOutput : TxOutput} (createsLeft : leftBlock.Creates op leftOutput)
    (createsRight : rightBlock.Creates op rightOutput) : leftOutput = rightOutput := by
  obtain ⟨leftTx, inLeft, leftTxid, leftAt⟩ := createsLeft
  obtain ⟨rightTx, inRight, rightTxid, rightAt⟩ := createsRight
  obtain rfl := leftChain.eq_of_txid_eq rightChain free leftHashed rightHashed leftIn rightIn
    inLeft inRight (leftTxid.symm.trans rightTxid)
  exact Option.some.inj (leftAt.symm.trans rightAt)

theorem Chain.getUtxo_eq_some_iff {committed : List Block} (chain : Chain committed)
    (free : CollisionFree (committed.flatMap Block.hashed)) (op : OutPoint) (output : TxOutput) :
    (ledger committed).getUtxo op = .ok (some output) ↔ Unspent committed op output := by
  have wellFormed := chain.wellFormed
  have agree : ∀ first ∈ committed.map Block.round, ∀ second ∈ committed.map Block.round,
      ∀ left right, (op.encodeCanonical, left) ∈ first.created →
        (op.encodeCanonical, right) ∈ second.created → left = right := by
    intro first firstIn second secondIn left right leftCreated rightCreated
    rcases List.mem_map.mp firstIn with ⟨leftBlock, leftIn, rfl⟩
    rcases List.mem_map.mp secondIn with ⟨rightBlock, rightIn, rfl⟩
    rcases (mem_created_iff (wellFormed _ leftIn) op left).mp leftCreated with
      ⟨leftOutput, createsLeft, rfl⟩
    rcases (mem_created_iff (wellFormed _ rightIn) op right).mp rightCreated with
      ⟨rightOutput, createsRight, rfl⟩
    rw [chain.creates_unique chain free (List.Subset.refl _) (List.Subset.refl _) leftIn rightIn
      createsLeft createsRight]
  rw [StorageEngine.getUtxo_eq_some_iff, utxos_ledger,
    Table.lookup_replay_eq_some_iff _ _ _ agree]
  constructor
  · intro found
    rcases found with ⟨outputWellFormed, height, round, at_, created, latest⟩
    rw [List.getElem?_map, Option.map_eq_some_iff] at at_
    rcases at_ with ⟨block, at_, rfl⟩
    refine ⟨height, block, at_, (mem_created_encode_iff (wellFormed _ (List.mem_of_getElem? at_))
      op outputWellFormed).mp created, fun later other after found => ?_⟩
    have unspent := latest later other.round after (by rw [List.getElem?_map, found]; rfl)
    rwa [mem_created_encode_iff (wellFormed _ (List.mem_of_getElem? found)) op outputWellFormed,
      Block.mem_spent_iff] at unspent
  · intro unspent
    rcases unspent with ⟨height, block, at_, creates, latest⟩
    have blockWellFormed := wellFormed _ (List.mem_of_getElem? at_)
    have outputWellFormed := creates.wellFormed blockWellFormed
    refine ⟨outputWellFormed, height, block.round, by rw [List.getElem?_map, at_]; rfl,
      (mem_created_encode_iff blockWellFormed op outputWellFormed).mpr creates,
      fun later round after found => ?_⟩
    rw [List.getElem?_map, Option.map_eq_some_iff] at found
    rcases found with ⟨other, found, rfl⟩
    rw [mem_created_encode_iff (wellFormed _ (List.mem_of_getElem? found)) op outputWellFormed,
      Block.mem_spent_iff]
    exact latest later other after found

theorem Chain.getUtxo_ok {committed : List Block} (chain : Chain committed) (op : OutPoint) :
    ∃ found, (ledger committed).getUtxo op = .ok found := by
  unfold StorageEngine.getUtxo
  cases found : (ledger committed).utxos.lookup op.encodeCanonical with
  | none => exact ⟨none, rfl⟩
  | some record =>
      obtain ⟨output, encoded⟩ := chain.exists_output_of_record found
      have decoded := (StorageEngine.decodeTxOutput_eq_ok_iff record output).mpr encoded
      exact ⟨some output, by simp only [decoded]; rfl⟩

/-- In a run without collisions the table never fails to answer, and it
returns exactly the unspent outputs of the committed blocks. -/
theorem utxo_set_exact (offered : List DecodedBlock)
    (free : CollisionFree (NodeRun.after offered).hashed) (op : OutPoint) (output : TxOutput) :
    (∃ found, (NodeRun.after offered).engine.storage.getUtxo op = .ok found) ∧
      ((NodeRun.after offered).engine.storage.getUtxo op = .ok (some output) ↔
        Unspent (NodeRun.after offered).committed op output) := by
  obtain ⟨chain, engine⟩ := NodeRun.chain_after offered
  rw [engine]
  exact ⟨chain.getUtxo_ok op, chain.getUtxo_eq_some_iff free op output⟩

end Exactness

section Sample

open Sample

attribute [local instance] Sample.crypto

/-- After a block that spends a coinbase, the new output is unspent. -/
theorem utxo_set_exact_settled :
    CollisionFree (NodeRun.after [firstDecoded, settledDecoded]).hashed ∧
      Unspent (NodeRun.after [firstDecoded, settledDecoded]).committed
        { txid := paymentId, vout := 0 } (unlocked 5000) := by
  have free : CollisionFree (NodeRun.after [firstDecoded, settledDecoded]).hashed := by
    decide +kernel
  exact ⟨free, (utxo_set_exact _ free _ _).2.mp (by decide +kernel)⟩

end Sample

end Aurion
