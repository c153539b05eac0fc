import Aurion.Eutxo.Maturity

/-!
# Absolute and relative lock times
-/

namespace Aurion

open Foundation

def locktimeThresholdUnix : UInt64 := 500000000

def sequenceDisableFlag : UInt32 := 0x80000000

def finalSequence : UInt32 := 0xFFFFFFFF

/-- A lock time below the threshold is a height, another one a time. -/
def verifyTransactionLocktime (tx : Transaction) (blockHeight medianTimePast : UInt64) :
    Except EutxoError Unit :=
  let hasActiveLock := tx.inputs.any fun input => input.sequence != finalSequence
  if hasActiveLock = false ∨ tx.locktime = 0 then .ok ()
  else if tx.locktime < locktimeThresholdUnix then
    ensure (tx.locktime ≤ blockHeight) (.locktimeNotMet tx.locktime blockHeight)
  else ensure (tx.locktime ≤ medianTimePast) (.locktimeNotMet tx.locktime medianTimePast)

theorem verifyTransactionLocktime_eq_ok_iff (tx : Transaction)
    (blockHeight medianTimePast : UInt64) :
    verifyTransactionLocktime tx blockHeight medianTimePast = .ok () ↔
      (∀ input ∈ tx.inputs, input.sequence = finalSequence) ∨ tx.locktime = 0 ∨
        if tx.locktime < locktimeThresholdUnix then tx.locktime ≤ blockHeight
        else tx.locktime ≤ medianTimePast := by
  have inactive : (tx.inputs.any fun input => input.sequence != finalSequence) = false ↔
      ∀ input ∈ tx.inputs, input.sequence = finalSequence := by
    simp [List.any_eq_false]
  rw [← or_assoc, ← inactive, verifyTransactionLocktime]
  split
  next unlocked => exact iff_of_true rfl (Or.inl unlocked)
  next locked =>
      rw [or_iff_right locked]
      split <;> exact ensure_eq_ok_iff _ _ _

/-- A satisfied lock time stays satisfied while height and median time do not fall. -/
theorem verifyTransactionLocktime_mono {tx : Transaction}
    {height height' medianTimePast medianTimePast' : UInt64} (heights : height ≤ height')
    (times : medianTimePast ≤ medianTimePast')
    (satisfied : verifyTransactionLocktime tx height medianTimePast = .ok ()) :
    verifyTransactionLocktime tx height' medianTimePast' = .ok () := by
  rw [verifyTransactionLocktime_eq_ok_iff] at satisfied ⊢
  refine satisfied.imp_right fun later => later.imp_right fun reached => ?_
  split at reached
  next isHeight =>
      rw [if_pos isHeight]
      exact UInt64.le_trans reached heights
  next isTime =>
      rw [if_neg isTime]
      exact UInt64.le_trans reached times

/-- `u64::saturating_sub`. -/
def saturatingSub (left right : UInt64) : UInt64 := if right ≤ left then left - right else 0

def verifyRelativeSequence (inputSequence : UInt32) (utxo : ExtendedUtxo)
    (currentHeight : UInt64) (inputIndex : Nat) : Except EutxoError Unit :=
  if inputSequence &&& sequenceDisableFlag ≠ 0 then .ok ()
  else
    let requiredDelay := (inputSequence &&& 0x0000FFFF).toUInt64
    let passedBlocks := saturatingSub currentHeight utxo.creationHeight
    ensure (requiredDelay ≤ passedBlocks)
      (.relativeLocktimeNotMet inputIndex requiredDelay passedBlocks)

/-- The check passes when the lock is disabled or the output is old enough. -/
theorem verifyRelativeSequence_eq_ok_iff (inputSequence : UInt32) {utxo : ExtendedUtxo}
    {currentHeight : UInt64} (created : utxo.creationHeight ≤ currentHeight) (inputIndex : Nat) :
    verifyRelativeSequence inputSequence utxo currentHeight inputIndex = .ok () ↔
      (inputSequence &&& sequenceDisableFlag = 0 →
        utxo.creationHeight.toNat + (inputSequence &&& 0x0000FFFF).toNat ≤
          currentHeight.toNat) := by
  unfold verifyRelativeSequence
  split
  next disabled => exact iff_of_true rfl fun enabled => absurd enabled disabled
  next enabled =>
      have order := UInt64.le_iff_toNat_le.mp created
      rw [ensure_eq_ok_iff, saturatingSub, if_pos created, UInt64.le_iff_toNat_le,
        UInt64.toNat_sub_of_le _ _ created, UInt32.toNat_toUInt64,
        imp_iff_right (not_not.mp enabled)]
      omega

end Aurion
