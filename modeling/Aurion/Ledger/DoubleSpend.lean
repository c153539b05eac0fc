import Aurion.Ledger.Run

/-!
# Spending every outpoint once

A block removes what it spends and then inserts what it creates, and nothing
makes the id of a coinbase or of a transaction without inputs new.  As long as
these do not recreate a spent outpoint, no outpoint is spent twice in a run.
-/

namespace Aurion

open Foundation

section SpentOnce

variable [Crypto]

/-- Nothing that such a transaction spends sets it apart from an earlier one. -/
def Transaction.repeatable (tx : Transaction) : Bool := tx.isCoinbase || tx.inputs.isEmpty

/-- The repeatable transactions of the block create no outpoint that an earlier
block or the block itself spends. -/
def FreshStep (committed : List Block) (block : Block) : Prop :=
  ∀ tx ∈ block.transactions, tx.repeatable = true → ∀ entry ∈ tx.created,
    ∀ spender ∈ committed ++ [block], entry.1 ∉ spender.spentOutPoints

/-- All outpoints spent by the committed blocks, as keys of the table. -/
def spentKeys (committed : List Block) : List Bytes :=
  committed.flatMap fun block => block.round.spent

theorem mem_spentKeys_iff (committed : List Block) (op : OutPoint) :
    op.encodeCanonical ∈ spentKeys committed ↔
      ∃ spender ∈ committed, op ∈ spender.spentOutPoints := by
  simp only [spentKeys, List.mem_flatMap]
  apply exists_congr
  intro spender
  exact and_congr_right fun _ => spender.mem_spent_iff op

omit [Crypto] in
theorem isSome_record_of_lookup {storage : StorageEngine} {op : OutPoint}
    (found : (storage.lookup op).isSome) : (storage.utxos.lookup op.encodeCanonical).isSome := by
  unfold StorageEngine.lookup StorageEngine.getUtxo at found
  cases record : storage.utxos.lookup op.encodeCanonical with
  | none => simp [record] at found
  | some bytes => rfl

/-- An outpoint found in the ledger belongs to a committed transaction. -/
theorem exists_creator_of_record {committed : List Block} {op : OutPoint}
    (found : ((ledger committed).utxos.lookup op.encodeCanonical).isSome) :
    ∃ block ∈ committed, ∃ tx ∈ block.transactions, tx.txid = op.txid := by
  obtain ⟨record, found⟩ := Option.isSome_iff_exists.mp found
  rw [utxos_ledger] at found
  obtain ⟨round, inRounds, created⟩ := Table.mem_created_of_lookup_replay _ found
  rcases List.mem_map.mp inRounds with ⟨block, inChain, rfl⟩
  obtain ⟨tx, inBlock, entry, inTx, binding⟩ := Block.exists_entry_of_created created
  rw [OutPoint.encodeCanonical_injective (congrArg Prod.fst binding), (of_mem_created inTx).1]
  exact ⟨block, inChain, tx, inBlock, rfl⟩

theorem Accepts.isSome_lookup {committed : List Block} {block : Block}
    (accepts : Accepts committed block) {op : OutPoint} (spent : op ∈ block.spentOutPoints) :
    ((ledger committed).lookup op).isSome := by
  obtain ⟨valid, -, -⟩ := (verifyBlockInvariants_eq_ok_iff _ _ _).mp accepts.spends
  rcases List.mem_flatMap.mp spent with ⟨tx, spends, isInput⟩
  exact (valid tx spends).found op isInput

theorem Accepts.isSome_record {committed : List Block} {block : Block}
    (accepts : Accepts committed block) {op : OutPoint} (spent : op ∈ block.spentOutPoints) :
    ((ledger committed).utxos.lookup op.encodeCanonical).isSome :=
  isSome_record_of_lookup (accepts.isSome_lookup spent)

/-- An outpoint spent in a chain belongs to a transaction before the last block. -/
theorem Chain.exists_creator_of_spent {committed : List Block} (chain : Chain committed)
    {op : OutPoint} {spender : Block} (inChain : spender ∈ committed)
    (spent : op ∈ spender.spentOutPoints) :
    ∃ block ∈ committed.dropLast, ∃ tx ∈ block.transactions, tx.txid = op.txid := by
  induction chain with
  | genesis =>
      obtain rfl := List.mem_singleton.mp inChain
      simp [Block.spentOutPoints] at spent
  | extend chain accepts inductionHypothesis =>
      rw [List.dropLast_concat]
      rcases List.mem_append.mp inChain with old | new
      · obtain ⟨block, inCommitted, created⟩ := inductionHypothesis old
        exact ⟨block, List.mem_of_mem_dropLast inCommitted, created⟩
      · obtain rfl := List.mem_singleton.mp new
        exact exists_creator_of_record (accepts.isSome_record spent)

/-- A transaction with inputs that was committed before cannot be accepted again. -/
theorem not_committed_before {committed : List Block} {block : Block}
    (accepts : Accepts committed block)
    (once : Table.SpentOnce (ledger committed).utxos (spentKeys committed)) {tx : Transaction}
    (inBlock : tx ∈ block.transactions) (unique : tx.repeatable = false) :
    ∀ earlier ∈ committed, tx ∉ earlier.transactions := by
  intro earlier inCommitted again
  simp only [Transaction.repeatable, Bool.or_eq_false_iff, List.isEmpty_eq_false_iff_exists_mem]
    at unique
  obtain ⟨notCoinbase, input, isInput⟩ := unique
  have spends : ∀ other : Block, tx ∈ other.transactions →
      input.previousOutput ∈ other.spentOutPoints := by
    intro other inOther
    refine List.mem_flatMap.mpr ⟨tx, List.mem_filter.mpr ⟨inOther, by simp [notCoinbase]⟩, ?_⟩
    exact List.mem_map_of_mem isInput
  have absent := once.absent _
    ((mem_spentKeys_iff committed _).mpr ⟨earlier, inCommitted, spends earlier again⟩)
  have present := accepts.isSome_record (spends block inBlock)
  rw [absent] at present
  cases present

theorem spentOnce_commit {committed : List Block} {block : Block} (chain : Chain committed)
    (accepts : Accepts committed block)
    (free : CollisionFree ((committed ++ [block]).flatMap Block.hashed))
    (fresh : FreshStep committed block)
    (once : Table.SpentOnce (ledger committed).utxos (spentKeys committed)) :
    Table.SpentOnce (ledger (committed ++ [block])).utxos (spentKeys (committed ++ [block])) := by
  obtain ⟨-, distinct, -⟩ := (verifyBlockInvariants_eq_ok_iff _ _ _).mp accepts.spends
  have extended := chain.extend accepts
  have keys : spentKeys (committed ++ [block]) = spentKeys committed ++ block.round.spent := by
    simp [spentKeys]
  rw [ledger_append_singleton, keys]
  apply once.applyRound block.round
  · exact Block.spent_nodup distinct
  · intro key spent
    obtain ⟨op, isSpent, rfl⟩ := List.mem_map.mp spent
    exact accepts.isSome_record isSpent
  · intro binding created spent
    obtain ⟨tx, inBlock, entry, inTx, rfl⟩ := Block.exists_entry_of_created created
    rw [← keys, mem_spentKeys_iff] at spent
    obtain ⟨spender, inChain, spent⟩ := spent
    cases unique : tx.repeatable with
    | true => exact fresh tx inBlock unique entry inTx spender inChain spent
    | false =>
        -- The spent outpoint was created by this very transaction, committed before.
        obtain ⟨earlier, inEarlier, creator, inTransactions, sameTxid⟩ :=
          extended.exists_creator_of_spent inChain spent
        rw [List.dropLast_concat] at inEarlier
        rw [(of_mem_created inTx).1] at sameTxid
        obtain rfl := extended.eq_of_txid_eq extended free (List.Subset.refl _)
          (List.Subset.refl _) (List.mem_append_left _ inEarlier)
          (List.mem_append_right _ (List.mem_singleton_self block)) inTransactions inBlock sameTxid
        exact not_committed_before accepts once inBlock unique earlier inEarlier inTransactions

theorem Chain.spentOnce {committed : List Block} (chain : Chain committed)
    (free : CollisionFree (committed.flatMap Block.hashed))
    (fresh : EveryStep FreshStep committed) :
    Table.SpentOnce (ledger committed).utxos (spentKeys committed) := by
  induction chain with
  | genesis =>
      have none : createGenesisBlock.round.spent = [] := by
        simp [Block.round, StorageEngine.utxoRound, Block.spentOutPoints]
      have keys : spentKeys [createGenesisBlock] = [] := by
        simp [spentKeys, none]
      rw [keys]
      exact ⟨List.nodup_nil, by simp⟩
  | extend chain accepts inductionHypothesis =>
      rw [everyStep_append_singleton] at fresh
      have before := inductionHypothesis (free.mono (by simp)) fresh.1
      exact spentOnce_commit chain accepts free fresh.2 before

/-- In a run without collisions whose blocks recreate no spent outpoint through
a coinbase or a transaction without inputs, no outpoint is spent twice and no
spending transaction with an input is committed twice. -/
theorem outpoints_spent_once (offered : List DecodedBlock)
    (free : CollisionFree (NodeRun.after offered).hashed)
    (fresh : EveryStep FreshStep (NodeRun.after offered).committed) :
    ((NodeRun.after offered).committed.flatMap Block.spentOutPoints).Nodup ∧
      (((NodeRun.after offered).committed.flatMap Block.spending).filter
        fun tx => !tx.inputs.isEmpty).Nodup := by
  obtain ⟨chain, -⟩ := NodeRun.chain_after offered
  have once := (chain.spentOnce free fresh).distinct
  have keys : spentKeys (NodeRun.after offered).committed =
      ((NodeRun.after offered).committed.flatMap Block.spentOutPoints).map
        OutPoint.encodeCanonical := by
    rw [List.map_flatMap]
    rfl
  rw [keys] at once
  have distinct := List.Nodup.of_map _ once
  refine ⟨distinct, ?_⟩
  have parts : (NodeRun.after offered).committed.flatMap Block.spentOutPoints =
      ((NodeRun.after offered).committed.flatMap Block.spending).flatMap
        Transaction.outPoints := by
    rw [List.flatMap_assoc]
    rfl
  rw [parts] at distinct
  apply nodup_filter_of_nodup_flatMap Transaction.outPoints _ _ distinct
  intro tx inhabited
  simpa [Transaction.outPoints] using inhabited

end SpentOnce

section Sample

open Sample

attribute [local instance] Sample.crypto

/-- A spend of a coinbase in a run without repeated coinbases. -/
theorem outpoints_spent_once_settled :
    ((NodeRun.after [firstDecoded, settledDecoded]).committed.flatMap
      Block.spentOutPoints).Nodup := by
  have free : CollisionFree (NodeRun.after [firstDecoded, settledDecoded]).hashed := by
    decide +kernel
  have fresh : EveryStep FreshStep (NodeRun.after [firstDecoded, settledDecoded]).committed := by
    unfold EveryStep FreshStep
    decide +kernel
  exact (outpoints_spent_once [firstDecoded, settledDecoded] free fresh).1

/-- A run in which the coinbase of one block is created, spent and, after it
has been created once more, spent again by the same transaction. -/
theorem outpoints_spent_twice :
    CollisionFree (NodeRun.after [firstDecoded, secondDecoded, thirdDecoded]).hashed ∧
      ¬ ((NodeRun.after [firstDecoded, secondDecoded,
        thirdDecoded]).committed.flatMap Block.spentOutPoints).Nodup ∧
      ¬ (((NodeRun.after [firstDecoded, secondDecoded,
        thirdDecoded]).committed.flatMap Block.spending).filter
          fun tx => !tx.inputs.isEmpty).Nodup := by
  refine ⟨by decide +kernel, by decide +kernel, by decide +kernel⟩

end Sample

end Aurion
