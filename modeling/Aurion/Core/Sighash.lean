import Aurion.Core.Block

/-!
# What a signature hash binds

The preimage of a signature hash is a canonical encoding followed by the index
of an input.  The encoding shows where it ends, so the preimage decides both
parts, and it is never the encoding of a transaction.
-/

namespace Aurion

open Foundation

theorem u32ToBeBytes_injective {left right : UInt32}
    (same : u32ToBeBytes left = u32ToBeBytes right) : left = right := by
  rw [← u32FromBeBytes_toBeBytes left, same, u32FromBeBytes_toBeBytes]

theorem ofNat_injective_of_lt_u32 {left right : Nat} (leftFits : left < 2 ^ 32)
    (rightFits : right < 2 ^ 32) (same : UInt32.ofNat left = UInt32.ofNat right) :
    left = right := by
  rw [← toNat_ofNat_of_lt_u32 leftFits, same, toNat_ofNat_of_lt_u32 rightFits]

namespace Transaction

/-- Clearing the unlocking scripts only shortens what is written. -/
theorem WellFormed.clearUnlockingScripts {tx : Transaction} (wellFormed : tx.WellFormed) :
    tx.clearUnlockingScripts.WellFormed where
  inputCount := by
    rw [Transaction.clearUnlockingScripts, List.length_map]
    exact wellFormed.inputCount
  inputs := by
    rw [Transaction.clearUnlockingScripts, List.forall_mem_map]
    intro input isInput
    exact ⟨by simp, (wellFormed.inputs input isInput).redeemer⟩
  outputCount := wellFormed.outputCount
  outputs := wellFormed.outputs

/-- A preimage decides the transaction up to its unlocking scripts, and the index. -/
theorem sighashPreimage_eq_iff {left right : Transaction} (leftWellFormed : left.WellFormed)
    (rightWellFormed : right.WellFormed) {leftIndex rightIndex : Nat}
    (leftFits : leftIndex < 2 ^ 32) (rightFits : rightIndex < 2 ^ 32) :
    left.sighashPreimage leftIndex = right.sighashPreimage rightIndex ↔
      leftIndex = rightIndex ∧ left.clearUnlockingScripts = right.clearUnlockingScripts := by
  constructor
  · intro same
    obtain ⟨cleared, index⟩ := Transaction.canonical.append_inj
      leftWellFormed.clearUnlockingScripts rightWellFormed.clearUnlockingScripts same
    exact ⟨ofNat_injective_of_lt_u32 leftFits rightFits (u32ToBeBytes_injective index),
      cleared⟩
  · intro both
    obtain ⟨rfl, cleared⟩ := both
    rw [sighashPreimage, cleared, sighashPreimage]

/-- The index behind the encoding sets a preimage apart from every encoding. -/
theorem encodeCanonical_ne_sighashPreimage {left right : Transaction}
    (leftWellFormed : left.WellFormed) (rightWellFormed : right.WellFormed) (index : Nat) :
    left.encodeCanonical ≠ right.sighashPreimage index := by
  intro same
  rw [← List.append_nil left.encodeCanonical] at same
  obtain ⟨-, index⟩ := Transaction.canonical.append_inj leftWellFormed
    rightWellFormed.clearUnlockingScripts same
  have width := congrArg List.length index
  simp at width

theorem wellFormed_of_decoded {tx : Transaction} {bytes rest : Bytes}
    (decoded : decodeFromCursor bytes = .ok (tx, rest)) : tx.WellFormed :=
  ((Transaction.canonical.eq_ok_iff _ _ _).mp decoded).1

end Transaction

/-- A signature hash binds the index and everything but the unlocking scripts of
a decoded transaction, and it is no transaction's id. -/
theorem sighash_binding [Crypto] (left right : Transaction)
    (leftDecoded : ∃ bytes rest, Transaction.decodeFromCursor bytes = .ok (left, rest))
    (rightDecoded : ∃ bytes rest, Transaction.decodeFromCursor bytes = .ok (right, rest))
    (leftIndex rightIndex : Nat) (leftFits : leftIndex < 2 ^ 32) (rightFits : rightIndex < 2 ^ 32)
    (free : CollisionFree [left.sighashPreimage leftIndex, right.sighashPreimage rightIndex,
      left.encodeCanonical]) :
    (left.sighash leftIndex = right.sighash rightIndex ↔
        leftIndex = rightIndex ∧ left.clearUnlockingScripts = right.clearUnlockingScripts) ∧
      left.txid ≠ right.sighash rightIndex := by
  obtain ⟨_, _, leftDecoded⟩ := leftDecoded
  obtain ⟨_, _, rightDecoded⟩ := rightDecoded
  have leftWellFormed := Transaction.wellFormed_of_decoded leftDecoded
  have rightWellFormed := Transaction.wellFormed_of_decoded rightDecoded
  constructor
  · rw [← Transaction.sighashPreimage_eq_iff leftWellFormed rightWellFormed leftFits rightFits]
    constructor
    · intro same
      exact free _ (by simp) _ (by simp) same
    · intro same
      exact congrArg Hash256.digest same
  · intro same
    apply Transaction.encodeCanonical_ne_sighashPreimage leftWellFormed rightWellFormed
      rightIndex
    exact free _ (by simp) _ (by simp) same

section Sample

/-- A transaction with one input and the given unlocking script. -/
def Sample.unlockedBy (unlockingScript : Bytes) : Transaction where
  version := 1
  inputs := [{ previousOutput := { txid := Hash256.ofNat 7, vout := 0 }
               unlockingScript, sequence := 0xFFFFFFFF, redeemer := none }]
  outputs := []
  locktime := 0

abbrev Sample.unlockedCrypto : Crypto := Crypto.ofTables [
  ((Sample.unlockedBy []).sighashPreimage 0,
    Hash256.ofNat 0x3d65b8baabde5516359eaff3c1300960c6c6cd2179407670e62a862d2e75f18f),
  ((Sample.unlockedBy [0x51]).encodeCanonical,
    Hash256.ofNat 0xaf0112ab395fe7acae5307e74abd874f700364a5b6d51101d39e7bc473a85bc0)] []

theorem Sample.decoded_unlockedBy {script : Bytes} (fits : script.length < 2 ^ 32) :
    ∃ bytes rest,
      Transaction.decodeFromCursor bytes = .ok (Sample.unlockedBy script, rest) := by
  refine ⟨_, [], Transaction.canonical.decode_encode ⟨?_, ?_, ?_, ?_⟩ []⟩
  · simp [unlockedBy]
  · intro input isInput
    obtain rfl := List.mem_singleton.mp isInput
    exact ⟨fits, by simp⟩
  · simp [unlockedBy]
  · simp [unlockedBy]

attribute [local instance] Sample.unlockedCrypto

/-- Two unlocking scripts leave the signature hash the same, and it is not an id. -/
theorem sighash_binding_unlockedBy :
    (Sample.unlockedBy [0x51]).sighash 0 = (Sample.unlockedBy [0x61, 0x51]).sighash 0 ∧
      (Sample.unlockedBy [0x51]).txid ≠ (Sample.unlockedBy [0x61, 0x51]).sighash 0 := by
  have free : CollisionFree [(Sample.unlockedBy [0x51]).sighashPreimage 0,
      (Sample.unlockedBy [0x61, 0x51]).sighashPreimage 0,
      (Sample.unlockedBy [0x51]).encodeCanonical] := by
    decide +kernel
  obtain ⟨binding, noId⟩ := sighash_binding _ _
    (Sample.decoded_unlockedBy (by decide)) (Sample.decoded_unlockedBy (by decide)) 0 0
    (by decide) (by decide) free
  exact ⟨binding.mpr ⟨rfl, rfl⟩, noId⟩

end Sample

end Aurion
