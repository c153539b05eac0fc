import Aurion.Mempool.Indices

/-!
# The capacity of the pool

An insertion into a full pool replaces one entry.  The byte count stays within
the capacity exactly as long as every replaced entry is large enough for the
transaction that takes its place.
-/

namespace Aurion

open Foundation

section Bytes

variable [Crypto] {pool : Mempool}

namespace Mempool

/-- The count covers the staged entries. -/
def Covers (pool : Mempool) : Prop :=
  pool.byTxid.total MempoolEntry.sizeBytes ≤ pool.totalBytes

omit [Crypto]

theorem stagedBytes_le (covers : pool.Covers) (txid : Hash256) :
    pool.stagedBytes txid ≤ pool.totalBytes := by
  have erased := Table.total_erase MempoolEntry.sizeBytes pool.byTxid txid
  unfold Covers at covers
  unfold stagedBytes
  omega

theorem totalBytes_remove (pool : Mempool) (txid : Hash256) :
    (pool.remove txid).2.totalBytes = pool.totalBytes - pool.stagedBytes txid := by
  cases found : pool.byTxid.lookup txid with
  | none => simp [remove, found, stagedBytes, Table.held]
  | some entry =>
      simp [remove, found, stagedBytes, Table.held, removeByIndex, release]

theorem totalBytes_evict (pool : Mempool) (index : FeeRateIndex) :
    (pool.evict index).totalBytes = pool.totalBytes - pool.stagedBytes index.txid := by
  cases found : pool.byTxid.lookup index.txid with
  | none => simp [evict, found, stagedBytes, Table.held, removeByIndex]
  | some entry => simp [evict, found, stagedBytes, Table.held, removeByIndex, release]

theorem maxBytes_evict (pool : Mempool) (index : FeeRateIndex) :
    (pool.evict index).maxBytes = pool.maxBytes := by
  cases found : pool.byTxid.lookup index.txid with
  | none => simp [evict, found, removeByIndex]
  | some entry => simp [evict, found, removeByIndex, release]

theorem Covers.remove (covers : pool.Covers) (txid : Hash256) :
    (pool.remove txid).2.Covers := by
  have erased := Table.total_erase MempoolEntry.sizeBytes pool.byTxid txid
  cases found : pool.byTxid.lookup txid with
  | none => rwa [remove_of_absent found]
  | some entry =>
      rw [Table.held_of_lookup MempoolEntry.sizeBytes found] at erased
      unfold Covers at covers ⊢
      simp only [Mempool.remove, found, removeByIndex, release]
      omega

theorem Covers.evict (covers : pool.Covers) (index : FeeRateIndex) :
    (pool.evict index).Covers := by
  have erased := Table.total_erase MempoolEntry.sizeBytes pool.byTxid index.txid
  unfold Covers at covers ⊢
  cases found : pool.byTxid.lookup index.txid with
  | none => simpa only [Mempool.evict, removeByIndex, found] using covers
  | some entry =>
      rw [Table.held_of_lookup MempoolEntry.sizeBytes found] at erased
      simp only [Mempool.evict, removeByIndex, found, release]
      omega

theorem totalBytes_register {entry : MempoolEntry}
    (fits : pool.totalBytes + entry.sizeBytes < 2 ^ 64) (index : FeeRateIndex) :
    (pool.register entry index).totalBytes = pool.totalBytes + entry.sizeBytes :=
  Nat.min_eq_left (by omega)

theorem Covers.register (covers : pool.Covers) {entry : MempoolEntry}
    (fits : pool.totalBytes + entry.sizeBytes < 2 ^ 64) (index : FeeRateIndex) :
    (pool.register entry index).Covers := by
  have inserted := Table.total_insert_le MempoolEntry.sizeBytes pool.byTxid entry.txid entry
  unfold Covers at covers ⊢
  rw [totalBytes_register fits]
  exact inserted.trans (Nat.add_le_add_right covers _)

end Mempool

end Bytes

section Replacement

variable [Crypto] {pool : Mempool}

namespace Mempool

/-- The insertion of the transaction with this fee replaces the cheapest entry. -/
structure Evicts (pool : Mempool) (tx : Transaction) (fee : Quantum)
    (victimIndex : FeeRateIndex) : Prop where
  fits : pool.totalBytes + tx.encodeCanonical.length < 2 ^ 64
  full : pool.maxBytes < pool.totalBytes + tx.encodeCanonical.length
  lowest : pool.byFeeRate.head? = some victimIndex
  better : (MempoolEntry.new tx fee 0).rateIndex.beats victimIndex = true

theorem Evicts.makeRoom {tx : Transaction} {fee : Quantum} {victimIndex : FeeRateIndex}
    (evicts : pool.Evicts tx fee victimIndex) (now : UInt64) :
    pool.makeRoom tx.encodeCanonical.length (MempoolEntry.new tx fee now).rateIndex =
      (.ok (), pool.evict victimIndex) := by
  have better : (MempoolEntry.new tx fee now).rateIndex.beats victimIndex = true := evicts.better
  rw [Mempool.makeRoom, if_pos evicts.fits, if_pos evicts.full, evicts.lowest]
  simp only [better, if_true]

/-- The replaced entry and the unused bytes are enough for the transaction. -/
def Frees (pool : Mempool) (tx : Transaction) (victimIndex : FeeRateIndex) : Prop :=
  pool.totalBytes + tx.encodeCanonical.length ≤
    pool.maxBytes + pool.stagedBytes victimIndex.txid

/-- What an admission does to the byte count of a pool within its capacity. -/
theorem Covers.stage (covers : pool.Covers) (within : pool.totalBytes ≤ pool.maxBytes)
    (tx : Transaction) (now : UInt64) (validated : Except MempoolReject Quantum) :
    (pool.stage tx now validated).2.Covers ∧
      (pool.stage tx now validated).2.maxBytes = pool.maxBytes ∧
      ((pool.stage tx now validated).2.totalBytes ≤ pool.maxBytes ↔
        ∀ fee victimIndex, validated = .ok fee → pool.Evicts tx fee victimIndex →
          pool.Frees tx victimIndex) := by
  rcases pool.stage_cases tx now validated with ⟨reject, refused⟩ | ⟨fee, room, passed, made, done⟩
  · -- A refused insertion evicts nothing.
    rw [refused]
    refine ⟨covers, rfl, iff_of_true within ?_⟩
    intro fee victimIndex passed evicts
    rw [passed, Mempool.stage] at refused
    have made := evicts.makeRoom now
    simp only [MempoolEntry.new] at made refused
    rw [made] at refused
    cases refused
  · rw [done]
    rcases pool.makeRoom_cases tx.encodeCanonical.length (MempoolEntry.new tx fee now).rateIndex
      with ⟨reject, refused⟩ | ⟨fits, ⟨small, kept⟩ | ⟨full, victimIndex, lowest, better, evicted⟩⟩
    · rw [refused] at made
      cases made
    · rw [kept] at made
      cases made
      refine ⟨covers.register fits _, rfl, iff_of_true ?_ ?_⟩
      · rw [totalBytes_register fits]
        exact small
      · intro fee' victimIndex _ evicts
        exact absurd small (Nat.not_le_of_lt evicts.full)
    · rw [evicted] at made
      cases made
      have less := totalBytes_evict pool victimIndex
      have bounded := stagedBytes_le covers victimIndex.txid
      have fitsAfter : (pool.evict victimIndex).totalBytes +
          (MempoolEntry.new tx fee now).sizeBytes < 2 ^ 64 := by
        change _ + tx.encodeCanonical.length < _
        omega
      refine ⟨(covers.evict victimIndex).register fitsAfter _, maxBytes_evict pool victimIndex, ?_⟩
      have total := totalBytes_register fitsAfter (MempoolEntry.new tx fee now).rateIndex
      change _ = (pool.evict victimIndex).totalBytes + tx.encodeCanonical.length at total
      dsimp only
      rw [total]
      constructor
      · intro bound fee' victimIndex' _ evicts
        obtain rfl : victimIndex' = victimIndex := Option.some.inj (evicts.lowest.symm.trans lowest)
        unfold Frees
        omega
      · intro frees
        have enough := frees fee victimIndex passed ⟨fits, full, lowest, better⟩
        unfold Frees at enough
        omega

end Mempool

end Replacement

section Calls

variable [Crypto]

/-- When the call is an insertion that replaces an entry, it frees enough bytes. -/
def MempoolCall.FreesEnough (pool : Mempool) : MempoolCall → Prop
  | .insert tx utxoView tipHeight mtp _ => ∀ fee victimIndex,
      validateAgainst tx utxoView pool.spentOutpoints tipHeight mtp = .ok fee →
        pool.Evicts tx fee victimIndex → pool.Frees tx victimIndex
  | .remove _ | .processCommittedBlock _ => True

namespace Mempool

omit [Crypto] in
/-- Removals lower the byte count. -/
theorem Covers.removeAll {pool : Mempool} (covers : pool.Covers) (txids : List Hash256) :
    (pool.removeAll txids).Covers ∧ (pool.removeAll txids).totalBytes ≤ pool.totalBytes := by
  induction txids generalizing pool with
  | nil => exact ⟨covers, Nat.le_refl _⟩
  | cons txid txids inductionHypothesis =>
      obtain ⟨coversAfter, fewer⟩ := inductionHypothesis (covers.remove txid)
      refine ⟨coversAfter, fewer.trans ?_⟩
      rw [totalBytes_remove]
      exact Nat.sub_le _ _

/-- What one call does to the byte count of a pool within its capacity. -/
theorem Covers.call {pool : Mempool} (covers : pool.Covers)
    (within : pool.totalBytes ≤ pool.maxBytes) (next : MempoolCall) :
    (pool.call next).Covers ∧ (pool.call next).maxBytes = pool.maxBytes ∧
      ((pool.call next).totalBytes ≤ pool.maxBytes ↔ next.FreesEnough pool) := by
  cases next with
  | insert tx utxoView tipHeight mtp now => exact covers.stage within tx now _
  | remove txid =>
      refine ⟨covers.remove txid, maxBytes_remove pool txid, iff_of_true ?_ trivial⟩
      rw [Mempool.call, totalBytes_remove]
      exact (Nat.sub_le _ _).trans within
  | processCommittedBlock block =>
      rw [Mempool.call, processCommittedBlock, removeConfirmed_eq]
      obtain ⟨coversConfirmed, fewer⟩ :=
        covers.removeAll (block.transactions.map Transaction.txid)
      obtain ⟨coversAfter, fewest⟩ := coversConfirmed.removeAll
        (block.blockSpent.filterMap fun op =>
          (pool.removeAll (block.transactions.map Transaction.txid)).spentOutpoints.lookup op)
      refine ⟨coversAfter, ?_, iff_of_true ((fewest.trans fewer).trans within) trivial⟩
      exact (maxBytes_removeAll _ _).trans (maxBytes_removeAll _ _)

omit [Crypto] in
/-- What every call preserves, within the capacity. -/
structure Counted (maxBytes : Nat) (pool : Mempool) : Prop where
  covers : pool.Covers
  capacity : pool.maxBytes = maxBytes

end Mempool

/-- The byte count stays within the capacity throughout a run of calls exactly
when every insertion that replaces an entry frees enough bytes. -/
theorem mempool_within_capacity (maxBytes : Nat) (calls : List MempoolCall) :
    Steps.Throughout Mempool.call (fun pool => pool.totalBytes ≤ maxBytes)
        (Mempool.new maxBytes) calls ↔
      Steps.EachStep Mempool.call (fun pool next => next.FreesEnough pool)
        (Mempool.new maxBytes) calls := by
  have holds : (Mempool.new maxBytes).Counted maxBytes := ⟨Nat.le_refl 0, rfl⟩
  apply Steps.throughout_iff_eachStep holds (Nat.zero_le maxBytes)
  intro pool next _ counted within
  obtain ⟨covers, rfl⟩ := counted
  obtain ⟨coversAfter, capacityAfter, exactly⟩ := covers.call within next
  exact ⟨⟨coversAfter, capacityAfter⟩, exactly⟩

end Calls

section Sample

open Sample

attribute [local instance] Sample.stagingCrypto

/-- A pool for 100 bytes replaces an entry of 87 bytes by one of 109 bytes. -/
theorem mempool_beyond_capacity :
    ¬ ∀ (maxBytes : Nat) (calls : List MempoolCall),
      (Mempool.after maxBytes calls).totalBytes ≤ maxBytes := by
  intro within
  have staged : (Mempool.after 100 [.insert cheap plenty 1 0 0,
      .insert bulky plenty 1 0 0]).totalBytes = 109 := by
    decide +kernel
  have bound := within 100 [.insert cheap plenty 1 0 0, .insert bulky plenty 1 0 0]
  rw [staged] at bound
  exact absurd bound (by decide)

end Sample

end Aurion
