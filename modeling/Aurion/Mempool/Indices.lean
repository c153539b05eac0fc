import Aurion.Foundation.Steps
import Aurion.Mempool.Pool

/-!
# The indices of the pool

The entries under their ids decide everything else: which fee rates are
listed, which outpoints are reserved and how many bytes are counted.  A call
removes entries or registers one whose outpoints are free.
-/

namespace Aurion

open Foundation

section Library

theorem FeeRateIndex.agrees {items : List FeeRateIndex}
    (sizes : ∀ item ∈ items, 0 < item.sizeBytes ∧ item.sizeBytes < 2 ^ 128) :
    OrderedSet.Agrees FeeRateIndex.cmp FeeRateIndex.rank items :=
  fun left leftIn right rightIn => FeeRateIndex.cmp_compares (sizes left leftIn).1
    (sizes right rightIn).1 (sizes left leftIn).2 (sizes right rightIn).2

theorem Transaction.length_encodeCanonical_pos (tx : Transaction) :
    0 < tx.encodeCanonical.length := by
  simp only [Transaction.encodeCanonical, List.length_append, length_u32ToBeBytes]
  omega

end Library

section Definition

variable [Crypto]

/-- The entry under an id is that of a transaction with this id. -/
structure MempoolEntry.Describes (entry : MempoolEntry) (txid : Hash256) : Prop where
  key : entry.txid = txid
  hash : entry.tx.txid = txid
  size : entry.sizeBytes = entry.tx.encodeCanonical.length
  small : entry.sizeBytes ≤ maxTxSizeBytes

structure Mempool.Consistent (pool : Mempool) : Prop where
  stored : ∀ txid entry, pool.byTxid.lookup txid = some entry → entry.Describes txid
  indexed : ∀ index, index ∈ pool.byFeeRate ↔
    ∃ entry, pool.byTxid.lookup index.txid = some entry ∧ entry.rateIndex = index
  ordered : OrderedSet.Ascending FeeRateIndex.rank pool.byFeeRate
  reserved : ∀ op txid, pool.spentOutpoints.lookup op = some txid ↔
    ∃ entry, pool.byTxid.lookup txid = some entry ∧ op ∈ entry.tx.outPoints
  counted : pool.totalBytes = pool.byTxid.total MempoolEntry.sizeBytes
  fits : pool.totalBytes < 2 ^ 64

end Definition

section Removal

variable [Crypto] {pool : Mempool}

theorem MempoolEntry.Describes.sizes {entry : MempoolEntry} {txid : Hash256}
    (describes : entry.Describes txid) : 0 < entry.sizeBytes ∧ entry.sizeBytes < 2 ^ 128 := by
  have small := describes.small
  have positive := entry.tx.length_encodeCanonical_pos
  rw [← describes.size] at positive
  exact ⟨positive, Nat.lt_of_le_of_lt small (by decide)⟩

namespace Mempool

omit [Crypto] in
/-- The bytes of the entry under an id, zero when there is none. -/
def stagedBytes (pool : Mempool) (txid : Hash256) : Nat :=
  pool.byTxid.held MempoolEntry.sizeBytes txid

omit [Crypto] in
theorem remove_of_absent {txid : Hash256} (absent : pool.byTxid.lookup txid = none) :
    pool.remove txid = (none, pool) := by
  simp only [remove, absent]

omit [Crypto] in
theorem lookup_remove (pool : Mempool) (txid other : Hash256) :
    (pool.remove txid).2.byTxid.lookup other =
      if other = txid then none else pool.byTxid.lookup other := by
  cases found : pool.byTxid.lookup txid with
  | none =>
      rw [remove_of_absent found]
      split
      next same => rw [same, found]
      next => rfl
  | some entry =>
      simp only [remove, found]
      exact Table.lookup_erase _ _ _

omit [Crypto] in
theorem maxBytes_remove (pool : Mempool) (txid : Hash256) :
    (pool.remove txid).2.maxBytes = pool.maxBytes := by
  unfold remove
  cases pool.byTxid.lookup txid <;> rfl

namespace Consistent

theorem index_mem (consistent : pool.Consistent) {txid : Hash256} {entry : MempoolEntry}
    (found : pool.byTxid.lookup txid = some entry) : entry.rateIndex ∈ pool.byFeeRate := by
  rw [consistent.indexed]
  have key : entry.rateIndex.txid = txid := (consistent.stored txid entry found).key
  exact ⟨entry, key ▸ found, rfl⟩

theorem sizes (consistent : pool.Consistent) :
    ∀ index ∈ pool.byFeeRate, 0 < index.sizeBytes ∧ index.sizeBytes < 2 ^ 128 := by
  intro index membership
  obtain ⟨entry, found, rfl⟩ := (consistent.indexed index).mp membership
  exact (consistent.stored _ entry found).sizes

theorem agrees (consistent : pool.Consistent) (index : FeeRateIndex)
    (sizes : 0 < index.sizeBytes ∧ index.sizeBytes < 2 ^ 128) :
    OrderedSet.Agrees FeeRateIndex.cmp FeeRateIndex.rank (index :: pool.byFeeRate) :=
  FeeRateIndex.agrees (List.forall_mem_cons.mpr ⟨sizes, consistent.sizes⟩)

/-- The index holds one fee rate for an id. -/
theorem rank_eq_iff (consistent : pool.Consistent) {txid : Hash256} {entry : MempoolEntry}
    (found : pool.byTxid.lookup txid = some entry) {index : FeeRateIndex}
    (membership : index ∈ pool.byFeeRate) :
    index.rank = entry.rateIndex.rank ↔ index.txid = txid := by
  have key : entry.rateIndex.txid = txid := (consistent.stored txid entry found).key
  constructor
  · intro same
    exact (FeeRateIndex.txid_eq_of_rank_eq same).trans key
  · intro same
    obtain ⟨other, otherFound, rfl⟩ := (consistent.indexed index).mp membership
    rw [same, found, Option.some.injEq] at otherFound
    rw [otherFound]

/-- Two entries with one input are one. -/
theorem eq_of_common_outPoint (consistent : pool.Consistent) {txid txid' : Hash256}
    {entry entry' : MempoolEntry} (found : pool.byTxid.lookup txid = some entry)
    (found' : pool.byTxid.lookup txid' = some entry') {op : OutPoint}
    (spends : op ∈ entry.tx.outPoints) (spends' : op ∈ entry'.tx.outPoints) : txid = txid' := by
  have reserved := (consistent.reserved op txid).mpr ⟨entry, found, spends⟩
  have reserved' := (consistent.reserved op txid').mpr ⟨entry', found', spends'⟩
  exact Option.some.inj (reserved.symm.trans reserved')

theorem remove (consistent : pool.Consistent) (txid : Hash256) :
    (pool.remove txid).2.Consistent := by
  cases found : pool.byTxid.lookup txid with
  | none => rwa [remove_of_absent found]
  | some entry =>
      have describes := consistent.stored txid entry found
      have entries := lookup_remove pool txid
      have listed : ∀ index, index ∈ (pool.remove txid).2.byFeeRate ↔
          index ∈ pool.byFeeRate ∧ index.txid ≠ txid := by
        intro index
        simp only [Mempool.remove, found, release, removeByIndex]
        rw [OrderedSet.mem_remove (consistent.agrees _ describes.sizes) consistent.ordered]
        exact and_congr_right fun membership => (consistent.rank_eq_iff found membership).not
      have outpoints : ∀ op, (pool.remove txid).2.spentOutpoints.lookup op =
          if op ∈ entry.tx.outPoints then none else pool.spentOutpoints.lookup op := by
        intro op
        simp only [Mempool.remove, found, release, removeByIndex]
        exact Table.lookup_eraseAll _ _ _
      have bytes : (pool.remove txid).2.totalBytes = pool.totalBytes - entry.sizeBytes := by
        simp only [Mempool.remove, found, release, removeByIndex]
      have table : (pool.remove txid).2.byTxid = pool.byTxid.erase txid := by
        simp only [Mempool.remove, found, release, removeByIndex]
      refine ⟨?_, ?_, ?_, ?_, ?_, ?_⟩
      · intro other entry' found'
        rw [entries] at found'
        split at found'
        · cases found'
        · exact consistent.stored other entry' found'
      · intro index
        rw [listed, consistent.indexed, entries]
        by_cases same : index.txid = txid <;> simp [same]
      · simp only [Mempool.remove, found, release, removeByIndex]
        exact OrderedSet.remove_ascending consistent.ordered _
      · intro op other
        rw [outpoints, entries]
        by_cases same : other = txid
        · subst same
          by_cases spends : op ∈ entry.tx.outPoints
          · simp [spends]
          · simp [spends, consistent.reserved, found]
        · by_cases spends : op ∈ entry.tx.outPoints
          · simp only [spends, same, if_true, if_false, reduceCtorEq, false_iff]
            intro reserved
            obtain ⟨entry', found', spends'⟩ := reserved
            exact same (consistent.eq_of_common_outPoint found' found spends' spends)
          · simp only [spends, same, if_false, consistent.reserved]
      · have held := Table.held_of_lookup MempoolEntry.sizeBytes found
        have erased := Table.total_erase MempoolEntry.sizeBytes pool.byTxid txid
        rw [bytes, table, consistent.counted]
        omega
      · have fits := consistent.fits
        rw [bytes]
        omega

/-- Removing by the index entry is removing by the id. -/
theorem evict_eq (consistent : pool.Consistent) {index : FeeRateIndex}
    (membership : index ∈ pool.byFeeRate) : pool.evict index = (pool.remove index.txid).2 := by
  obtain ⟨entry, found, rfl⟩ := (consistent.indexed index).mp membership
  simp only [evict, removeByIndex, found, Mempool.remove, release]

end Consistent

end Mempool

end Removal

section Registration

variable [Crypto] {pool : Mempool}

namespace Mempool

/-- The conditions under which an entry is new to the pool. -/
structure Fresh (pool : Mempool) (entry : MempoolEntry) : Prop where
  describes : entry.Describes entry.txid
  absent : pool.byTxid.lookup entry.txid = none
  unreserved : ∀ op ∈ entry.tx.outPoints, pool.spentOutpoints.lookup op = none
  fits : pool.totalBytes + entry.sizeBytes < 2 ^ 64

omit [Crypto] in
theorem lookup_register (pool : Mempool) (entry : MempoolEntry) (txid : Hash256) :
    (pool.register entry entry.rateIndex).byTxid.lookup txid =
      if txid = entry.txid then some entry else pool.byTxid.lookup txid :=
  Table.lookup_insert _ _ _ _

theorem Consistent.register (consistent : pool.Consistent) {entry : MempoolEntry}
    (fresh : pool.Fresh entry) : (pool.register entry entry.rateIndex).Consistent := by
  have entries := lookup_register pool entry
  have agrees := consistent.agrees entry.rateIndex fresh.describes.sizes
  have newRank : ∀ index ∈ pool.byFeeRate, index.rank ≠ entry.rateIndex.rank := by
    intro index membership same
    obtain ⟨other, found, -⟩ := (consistent.indexed index).mp membership
    have key : index.txid = entry.txid := FeeRateIndex.txid_eq_of_rank_eq same
    rw [key, fresh.absent] at found
    cases found
  have outpoints : ∀ op, (pool.register entry entry.rateIndex).spentOutpoints.lookup op =
      if op ∈ entry.tx.outPoints then some entry.txid else pool.spentOutpoints.lookup op :=
    fun op => Table.lookup_insertAll_const _ _ _ op
  have bytes : (pool.register entry entry.rateIndex).totalBytes =
      pool.totalBytes + entry.sizeBytes := by
    apply Nat.min_eq_left
    have fits := fresh.fits
    omega
  refine ⟨?_, ?_, OrderedSet.insert_ascending agrees consistent.ordered, ?_, ?_, ?_⟩
  · intro txid other found
    rw [entries] at found
    split at found
    next same =>
        cases found
        rw [same]
        exact fresh.describes
    next => exact consistent.stored txid other found
  · intro index
    have inserted := OrderedSet.mem_insert agrees newRank index
    rw [Mempool.register, inserted, consistent.indexed, ← Mempool.register, entries]
    by_cases same : index.txid = entry.txid
    · rw [if_pos same, same, fresh.absent]
      simp [eq_comm]
    · simp only [same, if_false, or_iff_right_iff_imp]
      intro new
      exact absurd (congrArg FeeRateIndex.txid new) same
  · intro op txid
    rw [outpoints, entries]
    by_cases spends : op ∈ entry.tx.outPoints
    · have free := fresh.unreserved op spends
      by_cases same : txid = entry.txid
      · simp [spends, same]
      · simp only [spends, same, if_true, if_false, Option.some.injEq]
        constructor
        · intro new
          exact absurd new.symm same
        · intro old
          rw [← consistent.reserved, free] at old
          cases old
    · by_cases same : txid = entry.txid
      · subst same
        simp [spends, consistent.reserved, fresh.absent]
      · simp [spends, same, consistent.reserved]
  · have absent : pool.byTxid.held MempoolEntry.sizeBytes entry.txid = 0 := by
      rw [Table.held, fresh.absent]
      rfl
    have inserted := Table.total_insert MempoolEntry.sizeBytes pool.byTxid entry.txid entry
    rw [bytes, consistent.counted]
    exact (absent ▸ inserted).symm
  · rw [bytes]
    exact fresh.fits

end Mempool

end Registration

section Admission

variable [Crypto] {pool : Mempool}

namespace Mempool

omit [Crypto] in
/-- What capacity management can do. -/
theorem makeRoom_cases (pool : Mempool) (sizeBytes : Nat) (incomingIndex : FeeRateIndex) :
    (∃ reject, pool.makeRoom sizeBytes incomingIndex = (.error reject, pool)) ∨
      pool.totalBytes + sizeBytes < 2 ^ 64 ∧
        (pool.totalBytes + sizeBytes ≤ pool.maxBytes ∧
            pool.makeRoom sizeBytes incomingIndex = (.ok (), pool) ∨
          pool.maxBytes < pool.totalBytes + sizeBytes ∧
            ∃ victimIndex, pool.byFeeRate.head? = some victimIndex ∧
              incomingIndex.beats victimIndex = true ∧
              pool.makeRoom sizeBytes incomingIndex = (.ok (), pool.evict victimIndex)) := by
  by_cases fits : pool.totalBytes + sizeBytes < 2 ^ 64
  · simp only [makeRoom, if_pos fits]
    by_cases full : pool.totalBytes + sizeBytes > pool.maxBytes
    · cases lowest : pool.byFeeRate.head? with
      | none => exact Or.inl ⟨.mempoolFull, by simp [full]⟩
      | some victimIndex =>
          by_cases better : incomingIndex.beats victimIndex = true
          · exact Or.inr ⟨fits, Or.inr ⟨full, victimIndex, rfl, better, by simp [full, better]⟩⟩
          · exact Or.inl ⟨.mempoolFull, by simp [full, better]⟩
    · exact Or.inr ⟨fits, Or.inl ⟨Nat.le_of_not_lt full, by simp [full]⟩⟩
  · exact Or.inl ⟨.arithmeticOverflow, by rw [makeRoom, if_neg fits]⟩

/-- An admission fails and changes nothing, or registers the new entry in the
room that was made. -/
theorem stage_cases (pool : Mempool) (tx : Transaction) (now : UInt64)
    (validated : Except MempoolReject Quantum) :
    (∃ reject, pool.stage tx now validated = (.error reject, pool)) ∨
      ∃ fee room, validated = .ok fee ∧
        pool.makeRoom tx.encodeCanonical.length (MempoolEntry.new tx fee now).rateIndex =
          (.ok (), room) ∧
        pool.stage tx now validated = (.ok tx.txid, room.register (MempoolEntry.new tx fee now)
          (MempoolEntry.new tx fee now).rateIndex) := by
  cases validated with
  | error reject => exact Or.inl ⟨reject, rfl⟩
  | ok fee =>
      rcases pool.makeRoom_cases tx.encodeCanonical.length
        (MempoolEntry.new tx fee now).rateIndex with ⟨reject, refused⟩ |
          ⟨-, ⟨-, made⟩ | ⟨-, victimIndex, -, -, made⟩⟩
      · exact Or.inl ⟨reject, by simp only [stage, MempoolEntry.new] at refused ⊢; rw [refused]⟩
      · refine Or.inr ⟨fee, pool, rfl, made, ?_⟩
        simp only [stage, MempoolEntry.new] at made ⊢
        rw [made]
      · refine Or.inr ⟨fee, _, rfl, made, ?_⟩
        simp only [stage, MempoolEntry.new] at made ⊢
        rw [made]

/-- Room is the pool itself or the pool without one entry. -/
theorem Consistent.room_cases (consistent : pool.Consistent) {sizeBytes : Nat}
    {incomingIndex : FeeRateIndex} {room : Mempool}
    (made : pool.makeRoom sizeBytes incomingIndex = (.ok (), room)) :
    pool.totalBytes + sizeBytes < 2 ^ 64 ∧
      (room = pool ∨ ∃ victim, room = (pool.remove victim).2) := by
  rcases pool.makeRoom_cases sizeBytes incomingIndex with ⟨reject, refused⟩ |
    ⟨fits, ⟨-, kept⟩ | ⟨-, victimIndex, lowest, -, evicted⟩⟩
  · rw [refused] at made
    cases made
  · rw [kept] at made
    cases made
    exact ⟨fits, Or.inl rfl⟩
  · rw [evicted] at made
    cases made
    exact ⟨fits, Or.inr ⟨victimIndex.txid, consistent.evict_eq (List.mem_of_head? lowest)⟩⟩

/-- A removal keeps an entry new. -/
theorem Fresh.remove (consistent : pool.Consistent) {entry : MempoolEntry}
    (fresh : pool.Fresh entry) (txid : Hash256) : (pool.remove txid).2.Fresh entry where
  describes := fresh.describes
  absent := by
    rw [lookup_remove, fresh.absent, ite_self]
  unreserved := by
    intro op spends
    rw [Option.eq_none_iff_forall_ne_some]
    intro holder reserved
    obtain ⟨other, found, spent⟩ := ((consistent.remove txid).reserved op holder).mp reserved
    rw [lookup_remove] at found
    split at found
    · cases found
    · have reservedBefore := (consistent.reserved op holder).mpr ⟨other, found, spent⟩
      rw [fresh.unreserved op spends] at reservedBefore
      cases reservedBefore
  fits := by
    have fits := fresh.fits
    have fewer : (pool.remove txid).2.totalBytes ≤ pool.totalBytes := by
      unfold Mempool.remove
      cases pool.byTxid.lookup txid with
      | none => exact Nat.le_refl _
      | some entry => exact Nat.sub_le _ _
    omega

/-- What the gates guarantee of a transaction they accept. -/
structure Gated (pool : Mempool) (tx : Transaction) : Prop where
  size : tx.encodeCanonical.length ≤ maxTxSizeBytes
  inhabited : tx.inputs ≠ []
  unreserved : ∀ op ∈ tx.outPoints, pool.spentOutpoints.lookup op = none

/-- No other staged transaction has this id. -/
def Unambiguous (pool : Mempool) (tx : Transaction) : Prop :=
  ∀ entry, pool.byTxid.lookup tx.txid = some entry → entry.tx = tx

theorem Consistent.fresh (consistent : pool.Consistent) {tx : Transaction}
    (unambiguous : pool.Unambiguous tx) (gated : pool.Gated tx) (fee : Quantum) (now : UInt64)
    (fits : pool.totalBytes + tx.encodeCanonical.length < 2 ^ 64) :
    pool.Fresh (MempoolEntry.new tx fee now) where
  describes := ⟨rfl, rfl, rfl, gated.size⟩
  absent := by
    rw [Option.eq_none_iff_forall_ne_some]
    intro entry found
    obtain ⟨input, membership⟩ := List.exists_mem_of_ne_nil _ gated.inhabited
    have spends : input.previousOutput ∈ tx.outPoints := List.mem_map_of_mem membership
    have reserved := (consistent.reserved _ _).mpr ⟨entry, found, unambiguous entry found ▸ spends⟩
    rw [gated.unreserved _ spends] at reserved
    cases reserved
  unreserved := gated.unreserved
  fits := fits

theorem Consistent.stage (consistent : pool.Consistent) {tx : Transaction}
    (unambiguous : pool.Unambiguous tx) (now : UInt64) {validated : Except MempoolReject Quantum}
    (gated : ∀ fee, validated = .ok fee → pool.Gated tx) :
    (pool.stage tx now validated).2.Consistent := by
  rcases pool.stage_cases tx now validated with ⟨reject, refused⟩ | ⟨fee, room, passed, made, done⟩
  · rwa [refused]
  · obtain ⟨fits, isRoom⟩ := consistent.room_cases made
    have fresh := consistent.fresh unambiguous (gated fee passed) fee now fits
    rw [done]
    rcases isRoom with rfl | ⟨victim, rfl⟩
    · exact consistent.register fresh
    · exact (consistent.remove victim).register (fresh.remove consistent victim)

/-- An entry after an admission was staged before or is the new one. -/
theorem Consistent.lookup_stage (consistent : pool.Consistent) {tx : Transaction} {now : UInt64}
    {validated : Except MempoolReject Quantum} {txid : Hash256} {entry : MempoolEntry}
    (found : (pool.stage tx now validated).2.byTxid.lookup txid = some entry) :
    pool.byTxid.lookup txid = some entry ∨
      ∃ fee, validated = .ok fee ∧ entry = MempoolEntry.new tx fee now := by
  rcases pool.stage_cases tx now validated with ⟨reject, refused⟩ | ⟨fee, room, passed, made, done⟩
  · rw [refused] at found
    exact Or.inl found
  · rw [done, lookup_register] at found
    split at found
    · exact Or.inr ⟨fee, passed, (Option.some.inj found).symm⟩
    · left
      rcases (consistent.room_cases made).2 with rfl | ⟨victim, rfl⟩
      · exact found
      · rw [lookup_remove] at found
        split at found
        · cases found
        · exact found

end Mempool

end Admission

section Cleanup

variable [Crypto] {pool : Mempool}

namespace Mempool

theorem removeConfirmed_eq (pool : Mempool) (txs : List Transaction) :
    pool.removeConfirmed txs = pool.removeAll (txs.map Transaction.txid) := by
  rw [removeConfirmed, removeAll, List.foldl_map]
  congr
  funext pool tx
  cases found : pool.byTxid.lookup tx.txid with
  | none => rw [remove_of_absent found, if_neg (by simp [found])]
  | some entry => rw [if_pos (by simp [found])]

theorem Consistent.removeAll (consistent : pool.Consistent) (txids : List Hash256) :
    (pool.removeAll txids).Consistent := by
  induction txids generalizing pool with
  | nil => exact consistent
  | cons txid txids inductionHypothesis => exact inductionHypothesis (consistent.remove txid)

omit [Crypto] in
theorem lookup_removeAll (pool : Mempool) (txids : List Hash256) (txid : Hash256) :
    (pool.removeAll txids).byTxid.lookup txid =
      if txid ∈ txids then none else pool.byTxid.lookup txid := by
  induction txids generalizing pool with
  | nil => simp [removeAll]
  | cons removed txids inductionHypothesis =>
      refine (inductionHypothesis (pool.remove removed).2).trans ?_
      rw [lookup_remove]
      by_cases later : txid ∈ txids <;> by_cases now : txid = removed <;> simp [later, now]

omit [Crypto] in
theorem maxBytes_removeAll (pool : Mempool) (txids : List Hash256) :
    (pool.removeAll txids).maxBytes = pool.maxBytes := by
  induction txids generalizing pool with
  | nil => rfl
  | cons removed txids inductionHypothesis =>
      exact (inductionHypothesis (pool.remove removed).2).trans (maxBytes_remove pool removed)

theorem Consistent.processCommittedBlock (consistent : pool.Consistent) (block : Block) :
    (pool.processCommittedBlock block).Consistent := by
  rw [Mempool.processCommittedBlock, removeConfirmed_eq]
  exact (consistent.removeAll _).removeAll _

/-- A block removes its own transactions and those that share an input with
one of them. -/
theorem Consistent.lookup_processCommittedBlock (consistent : pool.Consistent) (block : Block)
    (txid : Hash256) (entry : MempoolEntry) :
    (pool.processCommittedBlock block).byTxid.lookup txid = some entry ↔
      pool.byTxid.lookup txid = some entry ∧ txid ∉ block.transactions.map Transaction.txid ∧
        ∀ op ∈ entry.tx.outPoints, op ∉ block.blockSpent := by
  have middle := consistent.removeAll (block.transactions.map Transaction.txid)
  have before := lookup_removeAll pool (block.transactions.map Transaction.txid) txid
  rw [Mempool.processCommittedBlock, removeConfirmed_eq, lookup_removeAll]
  by_cases confirmed : txid ∈ block.transactions.map Transaction.txid
  · rw [before, if_pos confirmed, ite_self]
    simp [confirmed]
  · rw [if_neg confirmed] at before
    by_cases conflicts : txid ∈ block.blockSpent.filterMap fun op =>
        (pool.removeAll (block.transactions.map Transaction.txid)).spentOutpoints.lookup op
    · rw [if_pos conflicts]
      obtain ⟨op, inBlock, reserved⟩ := List.mem_filterMap.mp conflicts
      obtain ⟨other, found, spends⟩ := (middle.reserved op txid).mp reserved
      rw [before] at found
      simp only [reduceCtorEq, false_iff, not_and]
      intro same _ free
      rw [found, Option.some.injEq] at same
      exact free op (same ▸ spends) inBlock
    · rw [if_neg conflicts, before]
      simp only [confirmed, not_false_eq_true, true_and, iff_self_and]
      intro found op spends inBlock
      apply conflicts
      exact List.mem_filterMap.mpr
        ⟨op, inBlock, (middle.reserved op txid).mpr ⟨entry, before.trans found, spends⟩⟩

end Mempool

end Cleanup

section Calls

variable [Crypto]

inductive MempoolCall
  | insert (tx : Transaction) (utxoView : UtxoView) (tipHeight mtp now : UInt64)
  | remove (txid : Hash256)
  | processCommittedBlock (block : Block)

def MempoolCall.inserted : MempoolCall → List Transaction
  | .insert tx _ _ _ _ => [tx]
  | .remove _ | .processCommittedBlock _ => []

namespace Mempool

def call (pool : Mempool) : MempoolCall → Mempool
  | .insert tx utxoView tipHeight mtp now => (pool.insert tx utxoView tipHeight mtp now).2
  | .remove txid => (pool.remove txid).2
  | .processCommittedBlock block => pool.processCommittedBlock block

/-- The pool after calls on a new one. -/
def after (maxBytes : Nat) (calls : List MempoolCall) : Mempool :=
  Steps.run call (new maxBytes) calls

omit [Crypto] in
/-- Every staged transaction is one of the list. -/
def StagedFrom (pool : Mempool) (txs : List Transaction) : Prop :=
  ∀ txid entry, pool.byTxid.lookup txid = some entry → entry.tx ∈ txs

omit [Crypto] in
theorem StagedFrom.mono {pool : Mempool} {few many : List Transaction}
    (staged : pool.StagedFrom few) (subset : few ⊆ many) : pool.StagedFrom many :=
  fun txid entry found => subset (staged txid entry found)

theorem StagedFrom.unambiguous {pool : Mempool} {txs : List Transaction}
    (staged : pool.StagedFrom txs) (consistent : pool.Consistent) {tx : Transaction}
    (distinct : DistinctIds (txs ++ [tx])) : pool.Unambiguous tx := by
  intro entry found
  apply distinct _ (List.mem_append_left _ (staged _ entry found)) _ (by simp)
  exact (consistent.stored _ entry found).hash

theorem consistent_new (maxBytes : Nat) : (new maxBytes).Consistent where
  stored := by simp [new]
  indexed := by simp [new]
  ordered := List.Pairwise.nil
  reserved := by simp [new]
  counted := rfl
  fits := by simp [new]

end Mempool

theorem Admissible.gated {tx : Transaction} {pool : Mempool} {currentTipHeight mtp : UInt64}
    {utxos : List ExtendedUtxo} {fee : Quantum}
    (admissible : Admissible tx pool.spentOutpoints currentTipHeight mtp utxos fee) :
    pool.Gated tx where
  size := admissible.size
  inhabited := admissible.inhabited.1
  unreserved := admissible.unreserved

namespace Mempool

theorem gated_of_validateAgainst {pool : Mempool} {tx : Transaction} {utxoView : UtxoView}
    {tipHeight mtp : UInt64} {fee : Quantum}
    (passed : validateAgainst tx utxoView pool.spentOutpoints tipHeight mtp = .ok fee) :
    pool.Gated tx := by
  obtain ⟨utxos, -, admissible⟩ := (validateAgainst_eq_ok_iff _ _ _ _ _ _).mp passed
  exact admissible.gated

/-- What one call preserves. -/
theorem Consistent.call {pool : Mempool} (consistent : pool.Consistent) {txs : List Transaction}
    (staged : pool.StagedFrom txs) (next : MempoolCall)
    (distinct : DistinctIds (txs ++ next.inserted)) :
    (pool.call next).Consistent ∧ (pool.call next).StagedFrom (txs ++ next.inserted) := by
  cases next with
  | insert tx utxoView tipHeight mtp now =>
      refine ⟨consistent.stage (staged.unambiguous consistent distinct) now
        fun fee passed => gated_of_validateAgainst passed, ?_⟩
      intro txid entry found
      rcases consistent.lookup_stage found with old | ⟨fee, -, rfl⟩
      · exact List.mem_append_left _ (staged txid entry old)
      · exact List.mem_append_right _ (List.mem_singleton.mpr rfl)
  | remove removed =>
      refine ⟨consistent.remove removed, ?_⟩
      intro txid entry found
      rw [Mempool.call, lookup_remove] at found
      split at found
      · cases found
      · exact List.mem_append_left _ (staged txid entry found)
  | processCommittedBlock block =>
      refine ⟨consistent.processCommittedBlock block, ?_⟩
      intro txid entry found
      have kept := (consistent.lookup_processCommittedBlock block txid entry).mp found
      exact List.mem_append_left _ (staged txid entry kept.1)

theorem consistent_after (maxBytes : Nat) (calls : List MempoolCall)
    (distinct : DistinctIds (calls.flatMap MempoolCall.inserted)) :
    (after maxBytes calls).Consistent ∧
      (after maxBytes calls).StagedFrom (calls.flatMap MempoolCall.inserted) := by
  induction calls using List.reverseRecOn with
  | nil => exact ⟨consistent_new maxBytes, by simp [StagedFrom, after, new]⟩
  | append_singleton calls next inductionHypothesis =>
      rw [List.flatMap_append, List.flatMap_singleton] at distinct ⊢
      obtain ⟨consistent, staged⟩ := inductionHypothesis fun left leftIn right rightIn =>
        distinct left (List.mem_append_left _ leftIn) right (List.mem_append_left _ rightIn)
      rw [after, Steps.run_concat, ← after]
      exact consistent.call staged next distinct

theorem stage_error {pool : Mempool} {tx : Transaction} {now : UInt64}
    {validated : Except MempoolReject Quantum} {reject : MempoolReject}
    (refused : (pool.stage tx now validated).1 = .error reject) :
    (pool.stage tx now validated).2 = pool := by
  rcases pool.stage_cases tx now validated with ⟨_, unchanged⟩ | ⟨_, _, _, _, done⟩
  · rw [unchanged]
  · rw [done] at refused
    cases refused

end Mempool

/-- After any calls the indices agree with the entries, no two entries share an
input, and an insertion that fails changes nothing. -/
theorem mempool_indices_consistent (maxBytes : Nat) (calls : List MempoolCall)
    (distinct : DistinctIds (calls.flatMap MempoolCall.inserted)) :
    let pool := Mempool.after maxBytes calls
    pool.Consistent ∧ pool.byFeeRate.Nodup ∧
      (∀ txid entry txid' entry', pool.byTxid.lookup txid = some entry →
        pool.byTxid.lookup txid' = some entry' → ∀ op ∈ entry.tx.outPoints,
          op ∈ entry'.tx.outPoints → txid = txid') ∧
      ∀ tx utxoView tipHeight mtp now reject,
        (pool.insert tx utxoView tipHeight mtp now).1 = .error reject →
          (pool.insert tx utxoView tipHeight mtp now).2 = pool := by
  intro pool
  obtain ⟨consistent, -⟩ := Mempool.consistent_after maxBytes calls distinct
  refine ⟨consistent, consistent.ordered.nodup, ?_, ?_⟩
  · intro txid entry txid' entry' found found' op spends spends'
    exact consistent.eq_of_common_outPoint found found' spends spends'
  · intro tx utxoView tipHeight mtp now reject refused
    exact Mempool.stage_error refused

end Calls

section Sample

open Sample

attribute [local instance] Sample.stagingCrypto

/-- Two spends are staged and another spend of the first coinbase is refused; a block
with that spend removes the entry it conflicts with and leaves the other one. -/
theorem mempool_indices_consistent_settled :
    let pool := Mempool.after 1000 [.insert cheap plenty 1 0 0, .insert bulky plenty 1 0 0]
    let later := Mempool.after 1000 [.insert cheap plenty 1 0 0, .insert bulky plenty 1 0 0,
      .insert payment plenty 1 0 0, .processCommittedBlock settled]
    pool.byFeeRate.length = 2 ∧ (pool.insert payment plenty 1 0 0).2 = pool ∧
      later.byFeeRate.length = 1 ∧ later.spentOutpoints.lookup coinbaseOutput = none ∧
      later.spentOutpoints.lookup { txid := laterCoinbaseId, vout := 0 } = some bulky.txid := by
  intro pool later
  obtain ⟨-, -, -, frame⟩ := mempool_indices_consistent 1000
    [.insert cheap plenty 1 0 0, .insert bulky plenty 1 0 0] (by decide +kernel)
  obtain ⟨consistent, -⟩ := mempool_indices_consistent 1000
    [.insert cheap plenty 1 0 0, .insert bulky plenty 1 0 0, .insert payment plenty 1 0 0,
      .processCommittedBlock settled] (by decide +kernel)
  have refused : (pool.insert payment plenty 1 0 0).1 =
      .error (.doubleSpendConflict coinbaseOutput cheapId) := by
    decide +kernel
  have kept : later.byTxid.lookup bulky.txid =
      some (MempoolEntry.new bulky (Quantum.fromRaw 2000) 0) := by
    decide +kernel
  refine ⟨by decide +kernel, frame _ _ _ _ _ _ refused, by decide +kernel, by decide +kernel,
    (consistent.reserved _ _).mpr ⟨_, kept, ?_⟩⟩
  exact List.mem_singleton.mpr rfl

end Sample

end Aurion
