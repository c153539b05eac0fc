import Aurion.Mempool.Indices

/-!
# What a committed block takes out of the pool

The conflicts are looked up among the reservations that are left once the
confirmed entries are gone, and they are found nevertheless: an entry that stays
still holds the reservations of all its inputs.
-/

namespace Aurion

open Foundation

section Cleanup

variable [Crypto] {pool kept : Mempool}

/-- A transaction of the block has an input of the entry, too. -/
def MempoolEntry.ConflictsWith (entry : MempoolEntry) (block : Block) : Prop :=
  ∃ tx ∈ block.transactions, ∃ input ∈ tx.inputs, ∃ input' ∈ entry.tx.inputs,
    input.previousOutput = input'.previousOutput

omit [Crypto] in
theorem MempoolEntry.conflictsWith_iff (entry : MempoolEntry) (block : Block) :
    entry.ConflictsWith block ↔ ∃ op ∈ entry.tx.outPoints, op ∈ block.blockSpent := by
  simp only [ConflictsWith, Block.blockSpent, List.mem_flatMap, Transaction.outPoints,
    List.mem_map]
  constructor
  · rintro ⟨tx, inBlock, input, spends, input', spends', same⟩
    exact ⟨input'.previousOutput, ⟨input', spends', rfl⟩, tx, inBlock, input, spends, same⟩
  · rintro ⟨_, ⟨input', spends', rfl⟩, tx, inBlock, input, spends, same⟩
    exact ⟨tx, inBlock, input, spends, input', spends', same⟩

namespace Mempool.Consistent

variable (consistent : pool.Consistent) (consistent' : kept.Consistent)
  (fewer : ∀ txid entry, kept.byTxid.lookup txid = some entry →
    pool.byTxid.lookup txid = some entry)

include consistent consistent' fewer

/-- A reservation stays exactly as long as its entry. -/
theorem reserved_iff_of_fewer (op : OutPoint) (txid : Hash256) :
    kept.spentOutpoints.lookup op = some txid ↔
      pool.spentOutpoints.lookup op = some txid ∧ (kept.byTxid.lookup txid).isSome := by
  rw [consistent.reserved, consistent'.reserved, Option.isSome_iff_exists]
  constructor
  · rintro ⟨entry, found, spends⟩
    exact ⟨⟨entry, fewer txid entry found, spends⟩, entry, found⟩
  · rintro ⟨⟨entry, found, spends⟩, entry', found'⟩
    have same : entry = entry' := Option.some.inj (found.symm.trans (fewer txid entry' found'))
    exact ⟨entry, same ▸ found', spends⟩

/-- So does a fee rate. -/
theorem indexed_iff_of_fewer (index : FeeRateIndex) :
    index ∈ kept.byFeeRate ↔
      index ∈ pool.byFeeRate ∧ (kept.byTxid.lookup index.txid).isSome := by
  rw [consistent.indexed, consistent'.indexed, Option.isSome_iff_exists]
  constructor
  · rintro ⟨entry, found, same⟩
    exact ⟨⟨entry, fewer _ entry found, same⟩, entry, found⟩
  · rintro ⟨⟨entry, found, same⟩, entry', found'⟩
    have one : entry = entry' := Option.some.inj (found.symm.trans (fewer _ entry' found'))
    exact ⟨entry, one ▸ found', same⟩

end Mempool.Consistent

/-- A committed block removes exactly the entries under its own ids and those
that conflict with it.  The entries that stay are unchanged and keep their
reservations and their fee rates. -/
theorem processCommittedBlock_exact (maxBytes : Nat) (calls : List MempoolCall)
    (distinct : DistinctIds (calls.flatMap MempoolCall.inserted)) (block : Block) :
    let pool := Mempool.after maxBytes calls
    let kept := pool.processCommittedBlock block
    (∀ txid entry, kept.byTxid.lookup txid = some entry ↔
      pool.byTxid.lookup txid = some entry ∧ (¬ ∃ tx ∈ block.transactions, tx.txid = txid) ∧
        ¬ entry.ConflictsWith block) ∧
    (∀ txid entry, kept.byTxid.lookup txid = some entry →
      ∀ op ∈ entry.tx.outPoints, op ∉ block.blockSpent) ∧
    (∀ op txid, kept.spentOutpoints.lookup op = some txid ↔
      pool.spentOutpoints.lookup op = some txid ∧ (kept.byTxid.lookup txid).isSome) ∧
    (∀ index, index ∈ kept.byFeeRate ↔
      index ∈ pool.byFeeRate ∧ (kept.byTxid.lookup index.txid).isSome) ∧
    kept.totalBytes = kept.byTxid.total MempoolEntry.sizeBytes := by
  intro pool kept
  have consistent : pool.Consistent := (Mempool.consistent_after maxBytes calls distinct).1
  have consistent' : kept.Consistent := consistent.processCommittedBlock block
  have entries := consistent.lookup_processCommittedBlock block
  have fewer : ∀ txid entry, kept.byTxid.lookup txid = some entry →
      pool.byTxid.lookup txid = some entry := fun txid entry found =>
    ((entries txid entry).mp found).1
  refine ⟨?_, fun txid entry found => ((entries txid entry).mp found).2.2,
    consistent.reserved_iff_of_fewer consistent' fewer,
    consistent.indexed_iff_of_fewer consistent' fewer, consistent'.counted⟩
  intro txid entry
  rw [entries, entry.conflictsWith_iff]
  simp only [List.mem_map, not_exists, not_and]

end Cleanup

section Sample

open Sample

attribute [local instance] Sample.crypto

/-- The payment leaves the pool with the block that contains it, and a block
without it keeps it. -/
theorem processCommittedBlock_exact_payment :
    let pool := Mempool.after 1000
      [.insert payment (fun _ => some (.fromOutput (unlocked 6000) 0 false)) 1 0 0]
    (∀ entry, (pool.processCommittedBlock settled).byTxid.lookup paymentId ≠ some entry) ∧
      (pool.processCommittedBlock first).byTxid.lookup paymentId =
        some (MempoolEntry.new payment (Quantum.fromRaw 1000) 0) := by
  intro pool
  have staged : pool.byTxid.lookup paymentId =
      some (MempoolEntry.new payment (Quantum.fromRaw 1000) 0) := by
    decide +kernel
  have effect := processCommittedBlock_exact 1000
    [.insert payment (fun _ => some (.fromOutput (unlocked 6000) 0 false)) 1 0 0]
    (by decide +kernel)
  constructor
  · intro entry found
    have unconfirmed := (((effect settled).1 paymentId entry).mp found).2.1
    exact unconfirmed ⟨payment, by decide +kernel, by decide +kernel⟩
  · refine ((effect first).1 paymentId _).mpr ⟨staged, by decide +kernel, ?_⟩
    rw [MempoolEntry.conflictsWith_iff]
    decide +kernel

end Sample

end Aurion
