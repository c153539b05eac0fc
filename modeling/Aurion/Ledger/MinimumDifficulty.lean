import Aurion.Ledger.Run

/-!
# The maximum allowable target

The structural check compares a block hash with the target of the header's
own bits.  It bounds the hash by the target of `maxTargetBits` exactly for
those bits that encode no larger target.
-/

namespace Aurion

open Foundation

/-- The bits encode no target above that of `maxTargetBits`. -/
def WithinLimit (bits : UInt32) : Prop :=
  compactExponent bits ≤ 32 →
    compactMantissa bits * 256 ^ compactExponent bits ≤ 0x00ffff * 256 ^ 31

instance (bits : UInt32) : Decidable (WithinLimit bits) :=
  inferInstanceAs (Decidable (_ → _))

theorem toNat_maxTarget : maxTarget.toNat = 0x00ffff * 256 ^ 28 :=
  (toNat_of_compactToTarget compactToTarget_maxTargetBits).2

/-- Three powers of the base separate the encoding from its target. -/
theorem shifted_le_iff {bits : UInt32} (low : 3 ≤ compactExponent bits) :
    compactMantissa bits * 256 ^ (compactExponent bits - 3) ≤ maxTarget.toNat ↔
      compactMantissa bits * 256 ^ compactExponent bits ≤ 0x00ffff * 256 ^ 31 := by
  have exponent : compactExponent bits = compactExponent bits - 3 + 3 := by omega
  rw [toNat_maxTarget, exponent, Nat.add_sub_cancel, pow_add, ← Nat.mul_assoc]
  omega

theorem withinLimit_iff (bits : UInt32) :
    WithinLimit bits ↔
      ∀ target, compactToTarget bits = .ok target → target.toNat ≤ maxTarget.toNat := by
  have mantissa : compactMantissa bits < 2 ^ 23 := Nat.mod_lt _ (by decide)
  constructor
  · intro within target decoded
    obtain ⟨high, value⟩ := toNat_of_compactToTarget decoded
    rw [value]
    by_cases low : 3 ≤ compactExponent bits
    · exact (shifted_le_iff low).mpr (within high)
    · have none : compactExponent bits - 3 = 0 := by omega
      rw [none, toNat_maxTarget]
      omega
  · intro bounded high
    by_cases low : 3 ≤ compactExponent bits
    · obtain ⟨target, decoded⟩ := exists_compactToTarget low high
      have value := (toNat_of_compactToTarget decoded).2
      rw [← shifted_le_iff low, ← value]
      exact bounded target decoded
    · have power : 256 ^ compactExponent bits ≤ 256 ^ 2 :=
        Nat.pow_le_pow_right (by decide) (by omega)
      have product := Nat.mul_le_mul mantissa.le power
      exact Nat.le_trans product (by decide)

/-- A block without outputs whose Merkle root is given. -/
def barrenBlock (bits : UInt32) (merkleRoot : Hash256) : Block where
  header := { version := 1, prevBlockHash := Hash256.zero, merkleRoot, timestamp := 0, bits
              nonce := 0, height := 1 }
  transactions := [{ genesisCoinbase with outputs := [] }]

/-- When every digest is the target, the barren block meets it exactly. -/
theorem barrenBlock_accepted {bits : UInt32} {target : Hash256}
    (decoded : compactToTarget bits = .ok target) :
    letI := Crypto.constant target
    verifyBlockStructure (barrenBlock bits target) 1 = .ok () := by
  let crypto := Crypto.constant target
  rw [verifyBlockStructure_eq_ok_iff]
  refine ⟨{ genesisCoinbase with outputs := [] }, [], rfl, rfl, fun _ => ?_, ?_, ?_, ?_, ?_⟩
  · exact (checkPow_eq_ok_iff _ _).mpr ⟨target, decoded, Nat.le_refl _⟩
  · exact (HashTree.root_singleton combineHashes Hash256.zero _).symm
  · decide
  · simp
  · exact Nat.zero_le _

section Runs

variable [Crypto]

theorem blockHash_le_of_withinLimit {block : Block} {expectedHeight : UInt64}
    (accepted : verifyBlockStructure block expectedHeight = .ok ())
    (mined : 0 < block.header.height) (within : WithinLimit block.header.bits) :
    block.blockHash.toNat ≤ maxTarget.toNat := by
  obtain ⟨coinbase, others, valid⟩ := (verifyBlockStructure_eq_ok_iff _ _).mp accepted
  obtain ⟨target, decoded, below⟩ :=
    (checkPow_eq_ok_iff _ _).mp (valid.work (valid.height ▸ mined))
  exact Nat.le_trans below ((withinLimit_iff _).mp within target decoded)

/-- Every block above genesis has passed the structural check. -/
theorem Chain.structured {committed : List Block} (chain : Chain committed) :
    ∀ block ∈ committed, 0 < block.header.height →
      verifyBlockStructure block block.header.height = .ok () := by
  induction chain with
  | genesis =>
      rw [List.forall_mem_singleton]
      intro mined
      exact absurd mined (by simp [createGenesisBlock])
  | extend chain accepts inductionHypothesis =>
      rw [List.forall_mem_append, List.forall_mem_singleton]
      exact ⟨inductionHypothesis, fun _ => accepts.structured⟩

end Runs

/-- Accepted blocks with given bits have a hash within the maximum target, under
any hash function, exactly when the bits encode no larger target; the same
holds of each block that a run commits above genesis. -/
theorem minimum_difficulty (bits : UInt32) :
    (WithinLimit bits ↔
      ∀ [Crypto] (block : Block) (expectedHeight : UInt64), block.header.bits = bits →
        0 < block.header.height → verifyBlockStructure block expectedHeight = .ok () →
        block.blockHash.toNat ≤ maxTarget.toNat) ∧
      ∀ [Crypto] (offered : List DecodedBlock), ∀ block ∈ (NodeRun.after offered).committed,
        0 < block.header.height → block.header.bits = bits → WithinLimit bits →
        block.blockHash.toNat ≤ maxTarget.toNat := by
  refine ⟨⟨?_, ?_⟩, ?_⟩
  · intro within crypto block expectedHeight same mined accepted
    subst same
    exact blockHash_le_of_withinLimit accepted mined within
  · intro bounded
    rw [withinLimit_iff]
    intro target decoded
    let crypto := Crypto.constant target
    exact bounded (barrenBlock bits target) 1 rfl (by simp [barrenBlock])
      (barrenBlock_accepted decoded)
  · intro crypto offered block committed mined same within
    subst same
    have chain := (NodeRun.chain_after offered).1
    exact blockHash_le_of_withinLimit (chain.structured block committed mined) mined within

section Sample

open Sample

attribute [local instance] Sample.crypto

/-- A committed block whose bits `0x207fffff` let its hash exceed the limit. -/
theorem minimum_difficulty_exceeded :
    first ∈ (NodeRun.after [firstDecoded]).committed ∧ 0 < first.header.height ∧
      verifyBlockStructure first 1 = .ok () ∧
      ¬ first.blockHash.toNat ≤ maxTarget.toNat := by
  decide +kernel

end Sample

end Aurion
