import Aurion.Core.Transaction

/-!
# Extended unspent outputs and coinbase maturity
-/

namespace Aurion

open Foundation

inductive EutxoError
  | immatureCoinbaseSpend (outpoint : OutPoint)
      (creationHeight spendableHeight currentHeight : UInt64)
  | locktimeNotMet (requiredLocktime currentVal : UInt64)
  | relativeLocktimeNotMet (inputIndex : Nat) (requiredDelay passedBlocks : UInt64)
  | insufficientFee (actual required feePerByte : Nat)
  | transactionTooLarge (size max : Nat)
  | arithmeticOverflow
  deriving DecidableEq, Repr

def EutxoError.message : EutxoError → String
  | .immatureCoinbaseSpend outpoint creationHeight spendableHeight currentHeight =>
      "immature coinbase spend: outpoint " ++ outpoint.toText ++ " created at height " ++
        toString creationHeight ++ ", spendable at " ++ toString spendableHeight ++
        ", current " ++ toString currentHeight
  | .locktimeNotMet requiredLocktime currentVal =>
      "absolute locktime violation: current " ++ toString currentVal ++ " < required " ++
        toString requiredLocktime
  | .relativeLocktimeNotMet inputIndex requiredDelay passedBlocks =>
      "relative sequence locktime violation for input " ++ toString inputIndex ++
        ": required " ++ toString requiredDelay ++ ", passed " ++ toString passedBlocks
  | .insufficientFee actual required feePerByte =>
      "insufficient fee: provided " ++ toString actual ++ " Aur < required " ++
        toString required ++ " Aur (" ++ toString feePerByte ++ " Aur/byte)"
  | .transactionTooLarge size max =>
      "transaction size exceeds limit: " ++ toString size ++ " > max " ++ toString max
  | .arithmeticOverflow => "arithmetic overflow during eUTXO evaluation"

/-- An output together with where it was created. -/
structure ExtendedUtxo where
  value : Quantum
  lockingScript : Bytes
  creationHeight : UInt64
  isCoinbase : Bool
  datum : Datum
  deriving DecidableEq, Repr

def ExtendedUtxo.fromOutput (output : TxOutput) (creationHeight : UInt64) (isCoinbase : Bool) :
    ExtendedUtxo where
  value := output.value
  lockingScript := output.lockingScript
  creationHeight := creationHeight
  isCoinbase := isCoinbase
  datum := output.datum

def ExtendedUtxo.toOutput (utxo : ExtendedUtxo) : TxOutput where
  value := utxo.value
  lockingScript := utxo.lockingScript
  datum := utxo.datum

def coinbaseMaturity : UInt64 := 100

def verifyCoinbaseMaturity (outpoint : OutPoint) (utxo : ExtendedUtxo) (currentHeight : UInt64) :
    Except EutxoError Unit :=
  if utxo.isCoinbase = false then .ok ()
  else if 2 ^ 64 ≤ utxo.creationHeight.toNat + coinbaseMaturity.toNat then
    .error .arithmeticOverflow
  else
    let spendableHeight := utxo.creationHeight + coinbaseMaturity
    if currentHeight < spendableHeight then
      .error (.immatureCoinbaseSpend outpoint utxo.creationHeight spendableHeight currentHeight)
    else .ok ()

theorem verifyCoinbaseMaturity_eq_ok_iff (outpoint : OutPoint) (utxo : ExtendedUtxo)
    (currentHeight : UInt64) :
    verifyCoinbaseMaturity outpoint utxo currentHeight = .ok () ↔
      (utxo.isCoinbase = true → utxo.creationHeight.toNat + 100 ≤ currentHeight.toNat) := by
  have bound := currentHeight.toNat_lt
  have maturity : coinbaseMaturity.toNat = 100 := rfl
  unfold verifyCoinbaseMaturity
  rw [maturity]
  cases utxo.isCoinbase with
  | false => simp
  | true =>
      rw [if_neg (by decide)]
      split
      next overflow => simp; omega
      next fits =>
          have sum : (utxo.creationHeight + coinbaseMaturity).toNat =
              utxo.creationHeight.toNat + 100 := by
            rw [UInt64.toNat_add, maturity]
            omega
          simp only [UInt64.lt_iff_toNat_lt, sum]
          split
          · simp; omega
          · simp; omega

end Aurion
