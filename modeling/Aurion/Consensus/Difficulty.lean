import Aurion.Core.Block
import Aurion.Foundation.Words

/-!
# Compact difficulty bits and proof of work
-/

namespace Aurion

open Foundation

inductive ConsensusError
  | proofOfWorkExceeded (hash target : String)
  | invalidCompactBits (bits : UInt32)
  | emptyBlock
  | missingCoinbase
  | multipleCoinbase
  | merkleRootMismatch (expected actual : Hash256)
  | subsidyExceeded (allowed claimed : Nat)
  | heightMismatch (headerHeight expectedHeight : UInt64)
  deriving DecidableEq, Repr

def ConsensusError.message : ConsensusError → String
  | .proofOfWorkExceeded hash target =>
      "proof of work target exceeded: hash " ++ hash ++ " > target " ++ target
  | .invalidCompactBits bits =>
      "invalid difficulty compact bits: 0x" ++
        String.ofList ((u32ToBeBytes bits).flatMap Hash256.hexDigits)
  | .emptyBlock => "empty block transactions"
  | .missingCoinbase => "first transaction in block must be coinbase"
  | .multipleCoinbase => "multiple coinbase transactions detected in block"
  | .merkleRootMismatch expected actual =>
      "merkle root mismatch: expected " ++ expected.toHex ++ ", calculated " ++ actual.toHex
  | .subsidyExceeded allowed claimed =>
      "coinbase subsidy exceeded: max allowed " ++ toString allowed ++ ", claimed " ++
        toString claimed
  | .heightMismatch headerHeight expectedHeight =>
      "block height mismatch: header height " ++ toString headerHeight ++ ", expected " ++
        toString expectedHeight

def maxTargetBits : UInt32 := 0x1f00ffff

/-- Three bytes written into 32 zero bytes from an index on. -/
def targetBytes (shiftIndex : Nat) (mantissaBytes : Bytes) : Hash256 where
  asBytes := (((List.replicate 32 0).set shiftIndex (mantissaBytes.getD 1 0)).set (shiftIndex + 1)
    (mantissaBytes.getD 2 0)).set (shiftIndex + 2) (mantissaBytes.getD 3 0)
  size := by simp

def compactToTarget (bits : UInt32) : Except ConsensusError Hash256 :=
  let exponent := (bits >>> 24).toNat
  let mantissa := bits &&& 0x007fffff
  if exponent > 32 ∨ (exponent < 3 ∧ mantissa ≠ 0) then
    .error (.invalidCompactBits bits)
  else if exponent = 0 then
    .ok Hash256.zero
  else
    let mantissaBytes := u32ToBeBytes mantissa
    let shiftIndex := 32 - exponent
    if shiftIndex + 3 > 32 then
      .error (.invalidCompactBits bits)
    else
      .ok (targetBytes shiftIndex mantissaBytes)

/-- The hash and the target are compared byte by byte. -/
def checkPow (hash : Hash256) (bits : UInt32) : Except ConsensusError Unit :=
  match compactToTarget bits with
  | .error error => .error error
  | .ok target =>
      if target.asBytes < hash.asBytes then
        .error (.proofOfWorkExceeded hash.toHex target.toHex)
      else .ok ()

theorem checkPow_eq_ok_iff (hash : Hash256) (bits : UInt32) :
    checkPow hash bits = .ok () ↔
      ∃ target, compactToTarget bits = .ok target ∧ hash.toNat ≤ target.toNat := by
  unfold checkPow
  cases compactToTarget bits with
  | error error => simp
  | ok target =>
      have order := lt_iff_beValue_lt (target.size.trans hash.size.symm)
      by_cases above : target.asBytes < hash.asBytes
      · have above' := order.mp above
        simp only [above, if_true, reduceCtorEq, false_iff, Except.ok.injEq]
        intro below
        rcases below with ⟨_, rfl, below⟩
        exact absurd above' (Nat.not_lt.mpr below)
      · have below := mt order.mpr above
        simp only [above, if_false, true_iff]
        exact ⟨target, rfl, Nat.not_lt.mp below⟩

/-- The target of the largest compact encoding the protocol names. -/
def maxTarget : Hash256 := targetBytes 1 (u32ToBeBytes 0x00ffff)

theorem compactToTarget_maxTargetBits : compactToTarget maxTargetBits = .ok maxTarget := by
  decide +kernel

section Value

def compactExponent (bits : UInt32) : Nat := bits.toNat / 2 ^ 24

def compactMantissa (bits : UInt32) : Nat := bits.toNat % 2 ^ 23

theorem toNat_shiftRight_exponent (bits : UInt32) :
    (bits >>> 24).toNat = compactExponent bits :=
  toNat_shiftRight_word bits (by decide)

theorem toNat_and_mantissa (bits : UInt32) :
    (bits &&& 0x007fffff).toNat = compactMantissa bits :=
  toNat_and_mask bits (by decide)

theorem set_three (size shift : Nat) (fits : shift + 3 ≤ size) (high middle low : UInt8) :
    (((List.replicate size 0).set shift high).set (shift + 1) middle).set (shift + 2) low =
      List.replicate shift 0 ++ [high, middle, low] ++ List.replicate (size - (shift + 3)) 0 := by
  apply List.ext_getElem
  · simp
    omega
  · intro index inLeft inRight
    grind

/-- The last three of four bytes hold a number of 24 bits. -/
theorem beValue_lastThree {mantissa : Nat} (small : mantissa < 2 ^ 24) :
    let bytes := beBytes 4 mantissa
    beValue [bytes.getD 1 0, bytes.getD 2 0, bytes.getD 3 0] = mantissa := by
  intro bytes
  have length : bytes.length = 4 := length_beBytes 4 mantissa
  have value : beValue bytes = mantissa := beValue_beBytes_of_lt (by omega)
  match bytes, length with
  | [top, high, middle, low], _ =>
      simp [beValue, leValue] at value ⊢
      omega

theorem toNat_targetBytes {shift : Nat} (fits : shift + 3 ≤ 32) {mantissa : UInt32}
    (small : mantissa.toNat < 2 ^ 24) :
    (targetBytes shift (u32ToBeBytes mantissa)).toNat =
      mantissa.toNat * 256 ^ (32 - (shift + 3)) := by
  have three := beValue_lastThree small
  change beValue (((List.replicate 32 0).set shift _).set (shift + 1) _ |>.set (shift + 2) _) = _
  rw [set_three 32 shift fits, beValue_append, beValue_append, beValue_replicate_zero,
    beValue_replicate_zero, List.length_replicate, u32ToBeBytes, three, Nat.zero_mul,
    Nat.zero_add, Nat.add_zero]

/-- A decoded target is the mantissa shifted by the exponent. -/
theorem toNat_of_compactToTarget {bits : UInt32} {target : Hash256}
    (decoded : compactToTarget bits = .ok target) :
    compactExponent bits ≤ 32 ∧
      target.toNat = compactMantissa bits * 256 ^ (compactExponent bits - 3) := by
  have small : (bits &&& 0x007fffff).toNat < 2 ^ 24 := by
    rw [toNat_and_mantissa, compactMantissa]
    omega
  simp only [compactToTarget, toNat_shiftRight_exponent] at decoded
  split at decoded
  · cases decoded
  next readable =>
      rw [not_or, not_and, not_not] at readable
      split at decoded
      next zero =>
          have noMantissa := readable.2 (by omega)
          rw [← toNat_and_mantissa, noMantissa]
          cases decoded
          refine ⟨by omega, ?_⟩
          rw [Hash256.toNat, Hash256.zero, beValue_replicate_zero]
          simp
      next =>
          split at decoded
          · cases decoded
          next fits =>
              cases decoded
              refine ⟨by omega, ?_⟩
              rw [toNat_targetBytes (by omega) small, toNat_and_mantissa]
              congr 2
              omega

theorem exists_compactToTarget {bits : UInt32} (low : 3 ≤ compactExponent bits)
    (high : compactExponent bits ≤ 32) : ∃ target, compactToTarget bits = .ok target := by
  simp only [compactToTarget, toNat_shiftRight_exponent]
  rw [if_neg (by omega), if_neg (by omega), if_neg (by omega)]
  exact ⟨_, rfl⟩

end Value

end Aurion
