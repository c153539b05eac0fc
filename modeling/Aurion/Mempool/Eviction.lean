import Aurion.Mempool.Capacity

/-!
# Which entry an insertion evicts

A full pool gives up its cheapest entry for a transaction that ranks higher.
The rank breaks ties by the transaction ids, so a transaction of the very same
fee rate evicts the entry, too, when its id is the larger one.
-/

namespace Aurion

open Foundation

namespace FeeRateIndex

variable {self other : FeeRateIndex}

/-- A fee rate beats another one of the same exact ratio through its id. -/
theorem beats_iff (selfFits : self.sizeBytes < 2 ^ 128) (otherFits : other.sizeBytes < 2 ^ 128) :
    self.beats other = true ↔
      other.fee.raw * self.sizeBytes < self.fee.raw * other.sizeBytes ∨
        self.fee.raw * other.sizeBytes = other.fee.raw * self.sizeBytes ∧
          other.txid.toNat < self.txid.toNat := by
  rw [beats, beq_iff_eq, cmp_eq selfFits otherFits]
  rcases Nat.lt_trichotomy (self.fee.raw * other.sizeBytes) (other.fee.raw * self.sizeBytes) with
    lower | same | higher
  · simp [Nat.compare_eq_lt.mpr lower, Nat.lt_asymm lower, Nat.ne_of_lt lower]
  · simp [same, Nat.compare_eq_gt]
  · simp [Nat.compare_eq_gt.mpr higher, higher]

/-- A lower rank means an exact ratio that is not higher. -/
theorem rate_le_of_rank_lt (selfPositive : 0 < self.sizeBytes) (otherPositive : 0 < other.sizeBytes)
    (below : self.rank < other.rank) :
    self.fee.raw * other.sizeBytes ≤ other.fee.raw * self.sizeBytes := by
  have selfSize : (0 : ℚ) < self.sizeBytes := Nat.cast_pos.mpr selfPositive
  have otherSize : (0 : ℚ) < other.sizeBytes := Nat.cast_pos.mpr otherPositive
  have ratio : (self.fee.raw : ℚ) / self.sizeBytes ≤ other.fee.raw / other.sizeBytes := by
    rcases Prod.Lex.toLex_lt_toLex.mp below with lower | ⟨same, -⟩
    · exact le_of_lt lower
    · exact le_of_eq same
  rw [div_le_div_iff₀ selfSize otherSize] at ratio
  exact_mod_cast ratio

end FeeRateIndex

section Replacement

variable [Crypto] {pool : Mempool}

namespace Mempool

/-- No staged entry has a lower exact ratio of fee and size. -/
def Cheapest (pool : Mempool) (entry : MempoolEntry) : Prop :=
  ∀ txid other, pool.byTxid.lookup txid = some other →
    entry.fee.raw * other.sizeBytes ≤ other.fee.raw * entry.sizeBytes

/-- The pool is full for the transaction, whose exact ratio is the lowest one of
the pool and whose id is larger than that of the first entry in order. -/
structure TiesLowest (pool : Mempool) (tx : Transaction) (fee : Quantum) : Prop where
  fits : pool.totalBytes + tx.encodeCanonical.length < 2 ^ 64
  full : pool.maxBytes < pool.totalBytes + tx.encodeCanonical.length
  tied : ∃ lowest, pool.byFeeRate.head? = some lowest ∧
    fee.raw * lowest.sizeBytes = lowest.fee.raw * tx.encodeCanonical.length ∧
    lowest.txid.toNat < tx.txid.toNat

omit [Crypto] in
theorem head_rank_lt (ordered : OrderedSet.Ascending FeeRateIndex.rank pool.byFeeRate)
    {lowest index : FeeRateIndex} (first : pool.byFeeRate.head? = some lowest)
    (membership : index ∈ pool.byFeeRate) : index = lowest ∨ lowest.rank < index.rank := by
  obtain ⟨rest, shape⟩ := List.head?_eq_some_iff.mp first
  rw [OrderedSet.Ascending, shape, List.pairwise_cons] at ordered
  rw [shape, List.mem_cons] at membership
  exact membership.imp_right (ordered.1 index)

/-- The first entry in the order of the fee rates is a cheapest one. -/
theorem Consistent.cheapest (consistent : pool.Consistent) {entry : MempoolEntry}
    (first : pool.byFeeRate.head? = some entry.rateIndex) : pool.Cheapest entry := by
  intro txid other found
  have inIndex := consistent.index_mem found
  rcases head_rank_lt consistent.ordered first inIndex with same | below
  · have fees := congrArg FeeRateIndex.fee same
    have sizes := congrArg FeeRateIndex.sizeBytes same
    simp only [MempoolEntry.rateIndex] at fees sizes
    rw [fees, sizes]
  · exact FeeRateIndex.rate_le_of_rank_lt (consistent.sizes _ (List.mem_of_head? first)).1
      (consistent.sizes _ inIndex).1 below

/-- An insertion evicts at a higher ratio or at the same one with a larger id. -/
theorem Consistent.better_iff (consistent : pool.Consistent) {tx : Transaction} {fee : Quantum}
    (gated : pool.Gated tx) {lowest : FeeRateIndex} (inIndex : lowest ∈ pool.byFeeRate) :
    (MempoolEntry.new tx fee 0).rateIndex.beats lowest = true ↔
      lowest.fee.raw * tx.encodeCanonical.length < fee.raw * lowest.sizeBytes ∨
        fee.raw * lowest.sizeBytes = lowest.fee.raw * tx.encodeCanonical.length ∧
          lowest.txid.toNat < tx.txid.toNat := by
  have small : tx.encodeCanonical.length < 2 ^ 128 :=
    Nat.lt_of_le_of_lt gated.size (by decide)
  exact FeeRateIndex.beats_iff small (consistent.sizes _ inIndex).2

theorem TiesLowest.evicts (consistent : pool.Consistent) {tx : Transaction} {fee : Quantum}
    (gated : pool.Gated tx) (ties : pool.TiesLowest tx fee) :
    ∃ victimIndex, pool.Evicts tx fee victimIndex := by
  obtain ⟨lowest, first, same, larger⟩ := ties.tied
  exact ⟨lowest, ties.fits, ties.full, first,
    (consistent.better_iff gated (List.mem_of_head? first)).mpr (Or.inr ⟨same, larger⟩)⟩

/-- An eviction is a tie unless the ratio is strictly higher. -/
theorem Evicts.higher_iff (consistent : pool.Consistent) {tx : Transaction} {fee : Quantum}
    (gated : pool.Gated tx) {victimIndex : FeeRateIndex}
    (evicts : pool.Evicts tx fee victimIndex) :
    victimIndex.fee.raw * tx.encodeCanonical.length < fee.raw * victimIndex.sizeBytes ↔
      ¬ pool.TiesLowest tx fee := by
  have better := (consistent.better_iff gated (List.mem_of_head? evicts.lowest)).mp evicts.better
  constructor
  · intro higher ties
    obtain ⟨lowest, first, same, -⟩ := ties.tied
    obtain rfl : victimIndex = lowest := Option.some.inj (evicts.lowest.symm.trans first)
    exact absurd same.symm (Nat.ne_of_lt higher)
  · intro noTie
    rcases better with higher | tie
    · exact higher
    · exact absurd ⟨evicts.fits, evicts.full, victimIndex, evicts.lowest, tie⟩ noTie

theorem stage_of_evicts {tx : Transaction} {fee : Quantum} {victimIndex : FeeRateIndex}
    (evicts : pool.Evicts tx fee victimIndex) (now : UInt64) :
    (pool.stage tx now (.ok fee)).2 = (pool.evict victimIndex).register
      (MempoolEntry.new tx fee now) (MempoolEntry.new tx fee now).rateIndex := by
  have made := evicts.makeRoom now
  simp only [stage, MempoolEntry.new] at made ⊢
  rw [made]

theorem Consistent.rateIndex_eq_iff (consistent : pool.Consistent) {txid : Hash256}
    {entry : MempoolEntry} (found : pool.byTxid.lookup txid = some entry) {index : FeeRateIndex}
    (inIndex : index ∈ pool.byFeeRate) : entry.rateIndex = index ↔ txid = index.txid := by
  constructor
  · intro same
    rw [← same]
    exact (consistent.stored txid entry found).key.symm
  · intro same
    obtain ⟨other, otherFound, rfl⟩ := (consistent.indexed index).mp inIndex
    rw [← same, found, Option.some.injEq] at otherFound
    rw [otherFound]

theorem Fresh.ne {tx : Transaction} {fee : Quantum} {now : UInt64}
    (fresh : pool.Fresh (MempoolEntry.new tx fee now)) {txid : Hash256} {entry : MempoolEntry}
    (found : pool.byTxid.lookup txid = some entry) :
    txid ≠ (MempoolEntry.new tx fee now).txid := by
  intro same
  rw [same, fresh.absent] at found
  cases found

/-- An insertion that evicts takes exactly the first entry out. -/
theorem Evicts.removed_iff (consistent : pool.Consistent) {tx : Transaction} {fee : Quantum}
    {now : UInt64} (fresh : pool.Fresh (MempoolEntry.new tx fee now))
    {victimIndex : FeeRateIndex} (evicts : pool.Evicts tx fee victimIndex) {txid : Hash256}
    {entry : MempoolEntry} (found : pool.byTxid.lookup txid = some entry) :
    (pool.stage tx now (.ok fee)).2.byTxid.lookup txid ≠ some entry ↔
      entry.rateIndex = victimIndex := by
  have inIndex := List.mem_of_head? evicts.lowest
  rw [stage_of_evicts evicts, lookup_register, if_neg (fresh.ne found),
    consistent.evict_eq inIndex, lookup_remove, consistent.rateIndex_eq_iff found inIndex]
  split
  next same => simp [same]
  next other => simp [found, other]

/-- An insertion that does not evict keeps all entries. -/
theorem Consistent.lookup_stage_of_not_evicts (consistent : pool.Consistent) {tx : Transaction}
    (unambiguous : pool.Unambiguous tx) (gated : pool.Gated tx) {fee : Quantum} {now : UInt64}
    (noEviction : ∀ victimIndex, ¬ pool.Evicts tx fee victimIndex) {txid : Hash256}
    {entry : MempoolEntry} (found : pool.byTxid.lookup txid = some entry) :
    (pool.stage tx now (.ok fee)).2.byTxid.lookup txid = some entry := by
  rcases pool.stage_cases tx now (.ok fee) with ⟨reject, refused⟩ | ⟨_, room, passed, made, done⟩
  · rwa [refused]
  · cases passed
    rcases pool.makeRoom_cases tx.encodeCanonical.length (MempoolEntry.new tx fee now).rateIndex
      with ⟨reject, refused⟩ | ⟨fits, ⟨-, kept⟩ | ⟨full, victimIndex, first, better, -⟩⟩
    · rw [refused] at made
      cases made
    · rw [kept] at made
      cases made
      have fresh := consistent.fresh unambiguous gated fee now fits
      rw [done, lookup_register, if_neg (fresh.ne found), found]
    · exact absurd ⟨fits, full, first, better⟩ (noEviction victimIndex)

/-- What an insertion evicts is a cheapest entry, and the ratio of the transaction
is strictly higher. -/
def EvictsBelow (pool : Mempool) (tx : Transaction) (validated : Except MempoolReject Quantum)
    (result : Mempool) : Prop :=
  ∀ txid entry, pool.byTxid.lookup txid = some entry →
    result.byTxid.lookup txid ≠ some entry →
    ∃ fee, validated = .ok fee ∧ pool.Cheapest entry ∧
      entry.fee.raw * tx.encodeCanonical.length < fee.raw * entry.sizeBytes

theorem Consistent.evictsBelow_iff (consistent : pool.Consistent) {tx : Transaction}
    (unambiguous : pool.Unambiguous tx) (now : UInt64) {validated : Except MempoolReject Quantum}
    (gated : ∀ fee, validated = .ok fee → pool.Gated tx) :
    pool.EvictsBelow tx validated (pool.stage tx now validated).2 ↔
      ∀ fee, validated = .ok fee → ¬ pool.TiesLowest tx fee := by
  cases validated with
  | error reject =>
      refine iff_of_true ?_ (by simp)
      intro txid entry found removed
      exact absurd found removed
  | ok fee =>
      have gated := gated fee rfl
      simp only [EvictsBelow, Except.ok.injEq, forall_eq', exists_eq_left']
      by_cases evicting : ∃ victimIndex, pool.Evicts tx fee victimIndex
      · obtain ⟨victimIndex, evicts⟩ := evicting
        have fresh := consistent.fresh unambiguous gated fee now evicts.fits
        rw [← evicts.higher_iff consistent gated]
        constructor
        · intro below
          obtain ⟨entry, found, isVictim⟩ :=
            (consistent.indexed victimIndex).mp (List.mem_of_head? evicts.lowest)
          obtain ⟨-, higher⟩ := below _ entry found
            ((evicts.removed_iff consistent fresh found).mpr isVictim)
          rwa [← isVictim]
        · intro higher txid entry found removed
          obtain rfl := (evicts.removed_iff consistent fresh found).mp removed
          exact ⟨consistent.cheapest evicts.lowest, higher⟩
      · refine iff_of_true ?_ fun ties => evicting (ties.evicts consistent gated)
        intro txid entry found removed
        rw [not_exists] at evicting
        exact absurd (consistent.lookup_stage_of_not_evicts unambiguous gated evicting found)
          removed

end Mempool

end Replacement

section Calls

variable [Crypto]

/-- After any calls, whatever an insertion evicts is a cheapest entry and has a
strictly lower ratio, unless the insertion ties the lowest ratio of a full pool
with a larger id. -/
theorem eviction_needs_higher_rate (maxBytes : Nat) (calls : List MempoolCall) (tx : Transaction)
    (utxoView : UtxoView) (tipHeight mtp now : UInt64)
    (distinct : DistinctIds (calls.flatMap MempoolCall.inserted ++ [tx])) :
    let pool := Mempool.after maxBytes calls
    let validated := validateAgainst tx utxoView pool.spentOutpoints tipHeight mtp
    pool.EvictsBelow tx validated (pool.insert tx utxoView tipHeight mtp now).2 ↔
      ∀ fee, validated = .ok fee → ¬ pool.TiesLowest tx fee := by
  intro pool validated
  obtain ⟨consistent, staged⟩ := Mempool.consistent_after maxBytes calls
    (distinct.mono (List.subset_append_left _ _))
  exact consistent.evictsBelow_iff (staged.unambiguous consistent distinct) now
    fun fee passed => Mempool.gated_of_validateAgainst passed

end Calls

section Sample

open Sample

/-- A spend of the size and the fee of the cheap one, with a larger id. -/
def Sample.equal : Transaction := spend [spending { txid := laterCoinbaseId, vout := 0 } []] [4000]

abbrev Sample.evictionCrypto : Crypto := Crypto.ofTables (digests ++ stagedDigests ++ [
  (equal.encodeCanonical,
    Hash256.ofNat 0xa0fa32d55cdb903abfc60abf9b77e6db8ec6a68361a6f5d4941e6568f70f33fc),
  (equal.sighashPreimage 0,
    Hash256.ofNat 0x42a69ce9ad7d4e3ce01ee18fcf62777a589f9e9fe64af2aab60a6d22f3175126)]) []

attribute [local instance] Sample.evictionCrypto

/-- The larger spend with twice the fee evicts the cheap one. -/
theorem eviction_needs_higher_rate_bulky :
    let pool := Mempool.after 100 [.insert cheap plenty 1 0 0]
    pool.EvictsBelow bulky (validateAgainst bulky plenty pool.spentOutpoints 1 0)
      (pool.insert bulky plenty 1 0 0).2 := by
  intro pool
  have distinct : DistinctIds [cheap, bulky] := by
    decide +kernel
  have accepted : validateAgainst bulky plenty pool.spentOutpoints 1 0 =
      .ok (Quantum.fromRaw 2000) := by
    decide +kernel
  have ordered : pool.byFeeRate.head? = some (MempoolEntry.new cheap (Quantum.fromRaw 1000)
      0).rateIndex := by
    decide +kernel
  refine (eviction_needs_higher_rate 100 [.insert cheap plenty 1 0 0] bulky plenty 1 0 0
    distinct).mpr ?_
  intro fee passed ties
  obtain rfl := Except.ok.inj (accepted.symm.trans passed)
  obtain ⟨lowest, first, same, -⟩ := ties.tied
  obtain rfl := Option.some.inj (ordered.symm.trans first)
  exact absurd same (by decide +kernel)

/-- At the same fee and size the larger id evicts. -/
theorem eviction_at_equal_rate :
    ¬ ∀ (maxBytes : Nat) (calls : List MempoolCall) (tx : Transaction) (utxoView : UtxoView)
      (tipHeight mtp now : UInt64) (txid : Hash256) (entry : MempoolEntry) (fee : Quantum),
      (Mempool.after maxBytes calls).byTxid.lookup txid = some entry →
      ((Mempool.after maxBytes calls).insert tx utxoView tipHeight mtp now).2.byTxid.lookup txid =
        none →
      validateAgainst tx utxoView (Mempool.after maxBytes calls).spentOutpoints tipHeight mtp =
        .ok fee →
      entry.fee.raw * tx.encodeCanonical.length < fee.raw * entry.sizeBytes := by
  intro claimed
  have higher := claimed 100 [.insert cheap plenty 1 0 0] equal plenty 1 0 0 cheapId
    (MempoolEntry.new cheap (Quantum.fromRaw 1000) 0) (Quantum.fromRaw 1000)
    (by decide +kernel) (by decide +kernel) (by decide +kernel)
  exact absurd higher (by decide +kernel)

end Sample

end Aurion
