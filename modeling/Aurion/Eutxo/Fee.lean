import Aurion.Eutxo.Maturity

/-!
# The minimum fee
-/

namespace Aurion

open Foundation

def maxTxSizeBytes : Nat := 100000

def minFeePerByteAur : Nat := 10

/-- A product of 128-bit numbers, if it has 128 bits. -/
def checkedMul (left right : Nat) : Option Nat :=
  if left * right < 2 ^ 128 then some (left * right) else none

def verifyTransactionFee (tx : Transaction) (totalInputVal totalOutputVal : Nat) :
    Except EutxoError Nat := do
  let txBytes := tx.encodeCanonical.length
  ensure (txBytes ≤ maxTxSizeBytes) (.transactionTooLarge txBytes maxTxSizeBytes)
  let requiredFee ← (checkedMul txBytes minFeePerByteAur).elim (.error .arithmeticOverflow) .ok
  ensure (totalOutputVal ≤ totalInputVal) .arithmeticOverflow
  let actualFee := totalInputVal - totalOutputVal
  ensure (requiredFee ≤ actualFee) (.insufficientFee actualFee requiredFee minFeePerByteAur)
  pure actualFee

theorem checkedMul_of_small {size : Nat} (small : size ≤ maxTxSizeBytes) :
    checkedMul size minFeePerByteAur = some (size * minFeePerByteAur) := by
  apply if_pos
  calc size * minFeePerByteAur ≤ maxTxSizeBytes * minFeePerByteAur := Nat.mul_le_mul_right _ small
    _ < 2 ^ 128 := by decide

/-- The fee is accepted when it covers the size. -/
theorem verifyTransactionFee_eq_ok_iff (tx : Transaction)
    (totalInputVal totalOutputVal actualFee : Nat) :
    verifyTransactionFee tx totalInputVal totalOutputVal = .ok actualFee ↔
      tx.encodeCanonical.length ≤ maxTxSizeBytes ∧ totalOutputVal + actualFee = totalInputVal ∧
        tx.encodeCanonical.length * minFeePerByteAur ≤ actualFee := by
  simp only [verifyTransactionFee, except_bind_eq_ok_iff, ensure_eq_ok_iff, exists_const,
    except_pure_eq_ok_iff]
  constructor
  · intro passed
    rcases passed with ⟨small, requiredFee, required, conserved, enough, rfl⟩
    rw [checkedMul_of_small small] at required
    cases required
    exact ⟨small, Nat.add_sub_of_le conserved, enough⟩
  · intro conditions
    rcases conditions with ⟨small, rfl, enough⟩
    rw [checkedMul_of_small small]
    simpa [small] using enough

end Aurion
