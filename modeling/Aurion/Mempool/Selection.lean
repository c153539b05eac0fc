import Aurion.Foundation.Greedy
import Aurion.Mempool.Indices

/-!
# The selection for a block

The scan takes staged transactions in descending order of fee rates and skips
those that do not fit.  What it takes is a part of the staged list, and with
room for all bytes it is the whole list.
-/

namespace Aurion

open Foundation

section Selection

variable [Crypto] {pool : Mempool}

namespace Mempool

omit [Crypto] in
/-- The transactions under the ids of these indices. -/
def transactionsAt (pool : Mempool) (indices : List FeeRateIndex) : List Transaction :=
  indices.filterMap fun index => (pool.byTxid.lookup index.txid).map MempoolEntry.tx

omit [Crypto] in
/-- All staged transactions, the highest fee rate first. -/
def stagedTransactions (pool : Mempool) : List Transaction :=
  pool.transactionsAt pool.byFeeRate.reverse

omit [Crypto] in
theorem transactionsAt_of_absent {index : FeeRateIndex} (rest : List FeeRateIndex)
    (absent : pool.byTxid.lookup index.txid = none) :
    pool.transactionsAt (index :: rest) = pool.transactionsAt rest :=
  List.filterMap_cons_none (by rw [absent, Option.map_none])

omit [Crypto] in
theorem transactionsAt_of_found {index : FeeRateIndex} (rest : List FeeRateIndex)
    {entry : MempoolEntry} (found : pool.byTxid.lookup index.txid = some entry) :
    pool.transactionsAt (index :: rest) = entry.tx :: pool.transactionsAt rest :=
  List.filterMap_cons_some (by rw [found, Option.map_some])

omit [Crypto] in
theorem selectFrom_sublist (pool : Mempool) (limit : Nat) (indices : List FeeRateIndex)
    (accumulated : Nat) :
    (pool.selectFrom limit indices accumulated).Sublist (pool.transactionsAt indices) := by
  induction indices generalizing accumulated with
  | nil => exact List.Sublist.refl _
  | cons index rest inductionHypothesis =>
      unfold selectFrom
      cases found : pool.byTxid.lookup index.txid with
      | none =>
          rw [transactionsAt_of_absent rest found]
          exact inductionHypothesis accumulated
      | some entry =>
          rw [transactionsAt_of_found rest found]
          dsimp only
          split
          · split
            · exact (inductionHypothesis accumulated).cons _
            · exact (inductionHypothesis _).cons_cons _
          · exact List.nil_sublist _

omit [Crypto] in
theorem select_sublist (pool : Mempool) (limit : Nat) :
    (pool.selectTransactionsForBlock limit).Sublist pool.stagedTransactions :=
  pool.selectFrom_sublist limit _ 0

omit [Crypto] in
/-- Nothing is skipped while all bytes fit. -/
theorem selectFrom_eq (pool : Mempool) {limit : Nat} (machine : limit < 2 ^ 64)
    (indices : List FeeRateIndex) (accumulated : Nat)
    (room : accumulated + (indices.map fun index => pool.stagedBytes index.txid).sum ≤ limit) :
    pool.selectFrom limit indices accumulated = pool.transactionsAt indices := by
  induction indices generalizing accumulated with
  | nil => rfl
  | cons index rest inductionHypothesis =>
      rw [List.map_cons, List.sum_cons] at room
      unfold selectFrom
      cases found : pool.byTxid.lookup index.txid with
      | none =>
          rw [transactionsAt_of_absent rest found]
          exact inductionHypothesis accumulated (by omega)
      | some entry =>
          have held : pool.stagedBytes index.txid = entry.sizeBytes :=
            Table.held_of_lookup _ found
          rw [held] at room
          rw [transactionsAt_of_found rest found]
          dsimp only
          rw [if_pos (by omega), if_neg (by omega), inductionHypothesis _ (by omega)]

namespace Consistent

variable (consistent : pool.Consistent)

include consistent

theorem txids_nodup : (pool.byFeeRate.map FeeRateIndex.txid).Nodup := by
  rw [List.Nodup, List.pairwise_map]
  apply consistent.ordered.imp_of_mem
  intro left right leftIn rightIn below same
  obtain ⟨entry, found, rfl⟩ := (consistent.indexed right).mp rightIn
  have rank := (consistent.rank_eq_iff found leftIn).mpr same
  exact absurd rank (ne_of_lt below)

/-- The indexed entries are not more than the counted bytes. -/
theorem indexed_le_total :
    (pool.byFeeRate.map fun index => pool.stagedBytes index.txid).sum ≤ pool.totalBytes := by
  have erased := Table.total_eraseAll MempoolEntry.sizeBytes pool.byTxid consistent.txids_nodup
  rw [List.map_map] at erased
  rw [consistent.counted, ← erased]
  exact Nat.le_add_left _ _

theorem select_eq_staged {limit : Nat} (machine : limit < 2 ^ 64)
    (room : pool.totalBytes ≤ limit) :
    pool.selectTransactionsForBlock limit = pool.stagedTransactions := by
  apply pool.selectFrom_eq machine
  have bytes := consistent.indexed_le_total
  rw [List.map_reverse, List.sum_reverse, Nat.zero_add]
  exact bytes.trans room

theorem mem_stagedTransactions_iff (tx : Transaction) :
    tx ∈ pool.stagedTransactions ↔
      ∃ txid entry, pool.byTxid.lookup txid = some entry ∧ entry.tx = tx := by
  simp only [stagedTransactions, transactionsAt, List.mem_filterMap, List.mem_reverse,
    Option.map_eq_some_iff]
  constructor
  · intro listed
    obtain ⟨index, -, entry, found, same⟩ := listed
    exact ⟨index.txid, entry, found, same⟩
  · intro staged
    obtain ⟨txid, entry, found, same⟩ := staged
    have key : entry.rateIndex.txid = txid := (consistent.stored txid entry found).key
    exact ⟨entry.rateIndex, consistent.index_mem found, entry, key ▸ found, same⟩

/-- The staged transactions spend pairwise distinct outpoints when each of them
does. -/
theorem staged_spends_nodup
    (each : ∀ tx ∈ pool.stagedTransactions, tx.outPoints.Nodup) :
    (pool.stagedTransactions.flatMap Transaction.outPoints).Nodup := by
  refine List.nodup_flatMap.mpr ⟨each, ?_⟩
  rw [stagedTransactions, transactionsAt, List.pairwise_filterMap, List.pairwise_reverse]
  have distinct := consistent.txids_nodup
  rw [List.Nodup, List.pairwise_map] at distinct
  apply distinct.imp
  intro left right different rightTx rightStaged leftTx leftStaged op rightSpends leftSpends
  obtain ⟨rightEntry, rightFound, rfl⟩ := Option.map_eq_some_iff.mp rightStaged
  obtain ⟨leftEntry, leftFound, rfl⟩ := Option.map_eq_some_iff.mp leftStaged
  exact different (consistent.eq_of_common_outPoint leftFound rightFound leftSpends rightSpends)

end Consistent

section Exactness

omit [Crypto] in
/-- The entries under the ids of these indices. -/
def entriesAt (pool : Mempool) (indices : List FeeRateIndex) : List MempoolEntry :=
  indices.filterMap fun index => pool.byTxid.lookup index.txid

omit [Crypto] in
/-- The sums of sizes that the scan forms, a last one that overflows included. -/
def scannedSums (pool : Mempool) (maxBlockBytes : Nat) : List FeeRateIndex → Nat → List Nat
  | [], _ => []
  | rateIdx :: rest, accumulated =>
      match pool.byTxid.lookup rateIdx.txid with
      | none => scannedSums pool maxBlockBytes rest accumulated
      | some entry =>
          let newSize := accumulated + entry.sizeBytes
          newSize ::
            if newSize < 2 ^ 64 then
              if newSize > maxBlockBytes then scannedSums pool maxBlockBytes rest accumulated
              else scannedSums pool maxBlockBytes rest newSize
            else []

omit [Crypto] in
theorem sum_entriesAt (pool : Mempool) (indices : List FeeRateIndex) :
    ((pool.entriesAt indices).map MempoolEntry.sizeBytes).sum =
      (indices.map fun index => pool.stagedBytes index.txid).sum := by
  induction indices with
  | nil => rfl
  | cons index rest inductionHypothesis =>
      rw [List.map_cons, List.sum_cons, ← inductionHypothesis, entriesAt, List.filterMap_cons]
      cases found : pool.byTxid.lookup index.txid with
      | none => simp [stagedBytes, Table.held, found, entriesAt]
      | some entry =>
          have held : pool.stagedBytes index.txid = entry.sizeBytes := Table.held_of_lookup _ found
          rw [held]
          rfl

omit [Crypto] in
/-- While the sizes of all entries add up on the machine, the scan packs them
greedily and forms no larger sum. -/
theorem selectFrom_eq_pack (pool : Mempool) (limit : Nat) (indices : List FeeRateIndex)
    (accumulated : Nat)
    (machine : accumulated + ((pool.entriesAt indices).map MempoolEntry.sizeBytes).sum < 2 ^ 64) :
    pool.selectFrom limit indices accumulated =
        (Greedy.pack MempoolEntry.sizeBytes limit (pool.entriesAt indices) accumulated).map
          MempoolEntry.tx ∧
      ∀ sum ∈ pool.scannedSums limit indices accumulated, sum < 2 ^ 64 := by
  induction indices generalizing accumulated with
  | nil => simp [selectFrom, entriesAt, Greedy.pack, scannedSums]
  | cons index rest inductionHypothesis =>
      unfold selectFrom scannedSums
      rw [entriesAt, List.filterMap_cons] at machine ⊢
      cases found : pool.byTxid.lookup index.txid with
      | none =>
          rw [found] at machine
          exact inductionHypothesis accumulated machine
      | some entry =>
          simp only [found, List.map_cons, List.sum_cons] at machine
          have skip := inductionHypothesis accumulated (by unfold entriesAt; omega)
          have take := inductionHypothesis (accumulated + entry.sizeBytes)
            (by unfold entriesAt; omega)
          have sum : accumulated + entry.sizeBytes < 2 ^ 64 := by omega
          simp only [Greedy.pack, if_pos sum, List.forall_mem_cons]
          by_cases fits : accumulated + entry.sizeBytes ≤ limit
          · rw [if_neg (Nat.not_lt.mpr fits), if_neg (Nat.not_lt.mpr fits), if_pos fits, take.1]
            exact ⟨rfl, sum, take.2⟩
          · rw [if_pos (Nat.lt_of_not_le fits), if_pos (Nat.lt_of_not_le fits), if_neg fits, skip.1]
            exact ⟨rfl, sum, skip.2⟩

namespace Consistent

variable (consistent : pool.Consistent)

include consistent

theorem mem_entriesAt_iff (entry : MempoolEntry) :
    entry ∈ pool.entriesAt pool.byFeeRate.reverse ↔
      pool.byTxid.lookup entry.txid = some entry := by
  simp only [entriesAt, List.mem_filterMap, List.mem_reverse]
  constructor
  · rintro ⟨index, -, found⟩
    rwa [(consistent.stored _ entry found).key]
  · intro found
    exact ⟨entry.rateIndex, consistent.index_mem found, found⟩

/-- The comparison of staged entries is that of their ranks. -/
theorem cmp_compares {txid txid' : Hash256} {entry entry' : MempoolEntry}
    (found : pool.byTxid.lookup txid = some entry)
    (found' : pool.byTxid.lookup txid' = some entry') :
    (entry.rateIndex.cmp entry'.rateIndex).Compares entry.rateIndex.rank entry'.rateIndex.rank :=
  have sizes := (consistent.stored txid entry found).sizes
  have sizes' := (consistent.stored txid' entry' found').sizes
  FeeRateIndex.cmp_compares sizes.1 sizes'.1 sizes.2 sizes'.2

theorem beats_self {txid : Hash256} {entry : MempoolEntry}
    (found : pool.byTxid.lookup txid = some entry) :
    entry.rateIndex.beats entry.rateIndex = false := by
  have equal := (consistent.cmp_compares found found).eq_eq.mpr rfl
  simp [FeeRateIndex.beats, equal]

theorem entriesAt_sorted :
    (pool.entriesAt pool.byFeeRate.reverse).Pairwise fun first second =>
      first.rateIndex.beats second.rateIndex = true ∧
        second.rateIndex.beats first.rateIndex = false := by
  rw [entriesAt, List.pairwise_filterMap, List.pairwise_reverse]
  apply consistent.ordered.imp_of_mem
  intro low high lowIn highIn below first foundFirst second foundSecond
  obtain ⟨entry, found, rfl⟩ := (consistent.indexed high).mp highIn
  obtain ⟨entry', found', rfl⟩ := (consistent.indexed low).mp lowIn
  cases found.symm.trans foundFirst
  cases found'.symm.trans foundSecond
  have higher := (consistent.cmp_compares found found').eq_gt.mpr below
  have lower := (consistent.cmp_compares found' found).eq_lt.mpr below
  simp [FeeRateIndex.beats, higher, lower]

/-- Staged entries have the sizes of their encodings. -/
theorem map_sizes {entries : List MempoolEntry}
    (staged : ∀ entry ∈ entries, pool.byTxid.lookup entry.txid = some entry) :
    entries.map (fun entry => entry.tx.encodeCanonical.length) =
      entries.map MempoolEntry.sizeBytes := by
  apply List.map_congr_left
  intro entry membership
  exact (consistent.stored _ entry (staged entry membership)).size.symm

/-- Staged entries that rank strictly below one another have different transactions. -/
theorem nodup_of_descending {entries : List MempoolEntry}
    (staged : ∀ entry ∈ entries, pool.byTxid.lookup entry.txid = some entry)
    (descending : entries.Pairwise fun first second =>
      first.rateIndex.beats second.rateIndex = true ∧
        second.rateIndex.beats first.rateIndex = false) :
    (entries.map MempoolEntry.tx).Nodup := by
  rw [List.Nodup, List.pairwise_map]
  apply descending.imp_of_mem
  rintro first second firstIn secondIn ⟨above, below⟩ same
  have ids : first.txid = second.txid := by
    rw [← (consistent.stored _ first (staged first firstIn)).hash,
      ← (consistent.stored _ second (staged second secondIn)).hash, same]
  have one : first = second := by
    have found := staged first firstIn
    rw [ids, staged second secondIn] at found
    exact (Option.some.inj found).symm
  subst one
  rw [above] at below
  cases below

end Consistent

/-- The selection takes distinct entries in strictly descending order of their
fee rates and within the limit.  An entry that is left out does not fit on top of
the selected ones that rank above it.  No sum of the scan overflows. -/
theorem selectTransactionsForBlock_exact (maxBytes : Nat) (calls : List MempoolCall)
    (distinct : DistinctIds (calls.flatMap MempoolCall.inserted)) (maxBlockBytes : Nat) :
    let pool := after maxBytes calls
    ∃ selected : List MempoolEntry,
      pool.selectTransactionsForBlock maxBlockBytes = selected.map MempoolEntry.tx ∧
      (∀ entry ∈ selected, pool.byTxid.lookup entry.txid = some entry) ∧
      (selected.map MempoolEntry.tx).Nodup ∧
      (selected.Pairwise fun first second =>
        first.rateIndex.cmp second.rateIndex = .gt) ∧
      (selected.map fun entry => entry.tx.encodeCanonical.length).sum ≤ maxBlockBytes ∧
      (∀ txid entry, pool.byTxid.lookup txid = some entry → entry ∉ selected →
        maxBlockBytes <
          ((selected.filter fun other => other.rateIndex.cmp entry.rateIndex = .gt).map
            fun other => other.tx.encodeCanonical.length).sum + entry.tx.encodeCanonical.length) ∧
      ∀ sum ∈ pool.scannedSums maxBlockBytes pool.byFeeRate.reverse 0, sum < 2 ^ 64 := by
  intro pool
  have consistent : pool.Consistent := (consistent_after maxBytes calls distinct).1
  have sorted := consistent.entriesAt_sorted
  have staged := consistent.mem_entriesAt_iff
  have total : ((pool.entriesAt pool.byFeeRate.reverse).map MempoolEntry.sizeBytes).sum ≤
      pool.totalBytes := by
    rw [sum_entriesAt, List.map_reverse, List.sum_reverse]
    exact consistent.indexed_le_total
  obtain ⟨packed, sums⟩ := pool.selectFrom_eq_pack maxBlockBytes pool.byFeeRate.reverse 0
    (by have fits := consistent.fits; omega)
  let selected := Greedy.pack MempoolEntry.sizeBytes maxBlockBytes
    (pool.entriesAt pool.byFeeRate.reverse) 0
  have part : selected.Sublist (pool.entriesAt pool.byFeeRate.reverse) :=
    Greedy.pack_sublist _ _
  have found : ∀ entry ∈ selected, pool.byTxid.lookup entry.txid = some entry :=
    fun entry membership => (staged entry).mp (part.subset membership)
  have descending := sorted.sublist part
  refine ⟨selected, packed, found, consistent.nodup_of_descending found descending, ?_, ?_, ?_,
    sums⟩
  · apply descending.imp
    rintro first second ⟨above, -⟩
    exact beq_iff_eq.mp above
  · rw [consistent.map_sizes found]
    have within : 0 + (selected.map MempoolEntry.sizeBytes).sum ≤ maxBlockBytes :=
      Greedy.pack_fits _ (Nat.zero_le _)
    rwa [Nat.zero_add] at within
  · intro txid entry stored left
    have describes := consistent.stored txid entry stored
    have key : pool.byTxid.lookup entry.txid = some entry := by rw [describes.key, stored]
    have exceeds := Greedy.exceeds_of_notMem
      (fun first second : MempoolEntry => first.rateIndex.beats second.rateIndex) sorted
      (consistent.beats_self key) ((staged entry).mpr key) left
    rw [consistent.map_sizes fun other membership => found other (List.filter_subset_self _
      membership), ← describes.size]
    rwa [Nat.zero_add] at exceeds

end Exactness

section Origin

omit [Crypto] in
theorem found_of_evict {index : FeeRateIndex} {txid : Hash256} {entry : MempoolEntry}
    (found : (pool.evict index).byTxid.lookup txid = some entry) :
    pool.byTxid.lookup txid = some entry := by
  cases victim : pool.byTxid.lookup index.txid with
  | none => simpa [evict, removeByIndex, victim] using found
  | some victimEntry =>
      simp only [evict, removeByIndex, victim, release, Table.lookup_erase] at found
      split at found
      · cases found
      · exact found

/-- An entry after an admission was there before or is the admitted one. -/
theorem found_of_stage {tx : Transaction} {now : UInt64}
    {validated : Except MempoolReject Quantum} {txid : Hash256} {entry : MempoolEntry}
    (found : (pool.stage tx now validated).2.byTxid.lookup txid = some entry) :
    pool.byTxid.lookup txid = some entry ∨
      ∃ fee, validated = .ok fee ∧ entry = .new tx fee now := by
  obtain ⟨reject, refused⟩ | ⟨fee, room, passed, made, admitted⟩ :=
    pool.stage_cases tx now validated
  · rw [refused] at found
    exact Or.inl found
  · rw [admitted, lookup_register] at found
    split at found
    · cases found
      exact Or.inr ⟨fee, passed, rfl⟩
    · obtain ⟨reject, refused⟩ | ⟨-, ⟨-, kept⟩ | ⟨-, victimIndex, -, -, evicted⟩⟩ :=
        pool.makeRoom_cases tx.encodeCanonical.length (MempoolEntry.new tx fee now).rateIndex
      · cases made.symm.trans refused
      · cases made.symm.trans kept
        exact Or.inl found
      · cases made.symm.trans evicted
        exact Or.inl (found_of_evict found)

theorem found_of_processCommittedBlock {block : Block} {txid : Hash256} {entry : MempoolEntry}
    (found : (pool.processCommittedBlock block).byTxid.lookup txid = some entry) :
    pool.byTxid.lookup txid = some entry := by
  rw [processCommittedBlock, removeConfirmed_eq, lookup_removeAll, lookup_removeAll] at found
  split at found
  · cases found
  · split at found
    · cases found
    · exact found

/-- An entry after a call was there before, or the call has let it in. -/
theorem found_of_call {next : MempoolCall} {txid : Hash256} {entry : MempoolEntry}
    (found : (pool.call next).byTxid.lookup txid = some entry) :
    pool.byTxid.lookup txid = some entry ∨
      ∃ tx utxoView tipHeight mtp now fee, next = .insert tx utxoView tipHeight mtp now ∧
        validateAgainst tx utxoView pool.spentOutpoints tipHeight mtp = .ok fee ∧
        entry = .new tx fee now := by
  cases next with
  | insert tx utxoView tipHeight mtp now =>
      obtain before | ⟨fee, passed, made⟩ := found_of_stage found
      · exact Or.inl before
      · exact Or.inr ⟨tx, utxoView, tipHeight, mtp, now, fee, rfl, passed, made⟩
  | remove removed =>
      rw [call, lookup_remove] at found
      split at found
      · cases found
      · exact Or.inl found
  | processCommittedBlock block => exact Or.inl (found_of_processCommittedBlock found)

/-- After any calls the pool holds no coinbase. -/
theorem notCoinbase_after (maxBytes : Nat) (calls : List MempoolCall) {txid : Hash256}
    {entry : MempoolEntry} (found : (after maxBytes calls).byTxid.lookup txid = some entry) :
    entry.tx.isCoinbase = false := by
  induction calls using List.reverseRecOn with
  | nil => simp [after, new] at found
  | append_singleton calls next inductionHypothesis =>
      rw [after, Steps.run_concat] at found
      obtain before | ⟨tx, utxoView, tipHeight, mtp, now, fee, -, passed, rfl⟩ :=
        found_of_call found
      · exact inductionHypothesis before
      · obtain ⟨utxos, -, admissible⟩ := (validateAgainst_eq_ok_iff _ _ _ _ _ _).mp passed
        exact admissible.notCoinbase

theorem notCoinbase_of_selected (maxBytes : Nat) (calls : List MempoolCall) (limit : Nat) :
    ∀ tx ∈ (after maxBytes calls).selectTransactionsForBlock limit, tx.isCoinbase = false := by
  intro tx selected
  obtain ⟨index, -, staged⟩ :=
    List.mem_filterMap.mp ((select_sublist (after maxBytes calls) limit).subset selected)
  obtain ⟨entry, found, rfl⟩ := Option.map_eq_some_iff.mp staged
  exact notCoinbase_after maxBytes calls found

end Origin

end Mempool

end Selection

section Sample

open Sample

attribute [local instance] Sample.stagingCrypto

/-- Of two staged spends a limit of 1000 bytes takes both, the better one first, and
a limit of 100 bytes skips the better one, which is too large. -/
theorem Mempool.selectTransactionsForBlock_exact_bulky :
    let pool := Mempool.after 1000 [.insert cheap plenty 1 0 0, .insert bulky plenty 1 0 0]
    pool.selectTransactionsForBlock 1000 = [bulky, cheap] ∧
      (pool.selectTransactionsForBlock 1000).Nodup ∧
      pool.selectTransactionsForBlock 100 = [cheap] ∧
      (∃ selected : List MempoolEntry, selected.map MempoolEntry.tx = [cheap] ∧
        100 < ((selected.filter fun other => other.rateIndex.cmp
            (MempoolEntry.new bulky (Quantum.fromRaw 2000) 0).rateIndex = .gt).map
          fun other => other.tx.encodeCanonical.length).sum + bulky.encodeCanonical.length) ∧
      ∀ sum ∈ pool.scannedSums 100 pool.byFeeRate.reverse 0, sum < 2 ^ 64 := by
  intro pool
  have exact := Mempool.selectTransactionsForBlock_exact 1000
    [.insert cheap plenty 1 0 0, .insert bulky plenty 1 0 0] (by decide +kernel)
  have both : pool.selectTransactionsForBlock 1000 = [bulky, cheap] := by decide +kernel
  have small : pool.selectTransactionsForBlock 100 = [cheap] := by decide +kernel
  have staged : pool.byTxid.lookup bulky.txid =
      some (MempoolEntry.new bulky (Quantum.fromRaw 2000) 0) := by
    decide +kernel
  obtain ⟨all, chosenAll, -, distinct, -⟩ := exact 1000
  obtain ⟨selected, chosen, -, -, -, -, maximal, sums⟩ := exact 100
  have isCheap : selected.map MempoolEntry.tx = [cheap] := chosen.symm.trans small
  refine ⟨both, chosenAll ▸ distinct, small, ⟨selected, isCheap, ?_⟩, sums⟩
  apply maximal _ _ staged
  intro isSelected
  have listed := List.mem_map_of_mem (f := MempoolEntry.tx) isSelected
  rw [isCheap] at listed
  exact absurd (List.mem_singleton.mp listed) (by decide)

end Sample

end Aurion
