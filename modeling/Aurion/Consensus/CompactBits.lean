import Aurion.Consensus.Difficulty

/-!
# Compact bits against their specification

The specification takes the low 24 bits of an encoding for its mantissa and
the decoder takes 23.  The two agree on every encoding that leaves bit 23
clear, and encodings that differ in that bit alone share their target.
-/

namespace Aurion

open Foundation

/-- The mantissa that the specification names. -/
def specMantissa (bits : UInt32) : UInt32 := bits &&& 0x00ffffff

/-- The target is the whole mantissa, shifted by the exponent. -/
def MeansSpecified (bits : UInt32) (target : Hash256) : Prop :=
  (3 ≤ compactExponent bits →
    target.toNat = (specMantissa bits).toNat * 256 ^ (compactExponent bits - 3)) ∧
  (compactExponent bits = 0 → target.toNat = 0)

/-- The encodings that the decoder does not reject. -/
def Readable (bits : UInt32) : Prop :=
  compactExponent bits ≤ 32 ∧
    (3 ≤ compactExponent bits ∨ compactExponent bits = 0 ∧ compactMantissa bits = 0)

section Parts

/-- The bit between the two mantissas. -/
def topBit (bits : UInt32) : Nat := bits.toNat / 2 ^ 23 % 2

theorem toNat_specMantissa (bits : UInt32) :
    (specMantissa bits).toNat = topBit bits * 2 ^ 23 + compactMantissa bits := by
  have whole : (specMantissa bits).toNat = bits.toNat % 2 ^ 24 := toNat_and_mask bits (by decide)
  rw [whole, topBit, compactMantissa]
  omega

theorem and_topBit_eq_zero_iff (bits : UInt32) : bits &&& 0x00800000 = 0 ↔ topBit bits = 0 :=
  and_bit_eq_zero_iff bits (by decide)

/-- Two encodings differ in bit 23 alone when all their other parts are equal. -/
theorem eq_xor_topBit_iff (bits other : UInt32) :
    other = bits ^^^ 0x00800000 ↔
      compactExponent other = compactExponent bits ∧
        compactMantissa other = compactMantissa bits ∧ topBit other ≠ topBit bits := by
  have fields := eq_xor_bit_iff bits other (by decide : (0x00800000 : UInt32).toNat = 2 ^ 23)
  rw [Nat.div_div_eq_div_mul, Nat.div_div_eq_div_mul] at fields
  exact fields

end Parts

section Targets

theorem readable_of_compactToTarget {bits : UInt32} {target : Hash256}
    (decoded : compactToTarget bits = .ok target) : Readable bits := by
  have high := (toNat_of_compactToTarget decoded).1
  refine ⟨high, ?_⟩
  by_cases low : 3 ≤ compactExponent bits
  · exact Or.inl low
  · simp only [compactToTarget, toNat_shiftRight_exponent] at decoded
    split at decoded
    · cases decoded
    next readable =>
        have noMantissa : bits &&& 0x007fffff = 0 := by
          by_contra mantissa
          exact readable (Or.inr ⟨by omega, mantissa⟩)
        have none : compactMantissa bits = 0 := by
          rw [← toNat_and_mantissa, noMantissa]
          rfl
        split at decoded
        next zero => exact Or.inr ⟨zero, none⟩
        next nonzero =>
            rw [if_pos (by omega)] at decoded
            cases decoded

theorem exists_target_of_readable {bits : UInt32} (readable : Readable bits) :
    ∃ target, compactToTarget bits = .ok target := by
  obtain ⟨high, low | ⟨zero, none⟩⟩ := readable
  · exact exists_compactToTarget low high
  · have noMantissa : bits &&& 0x007fffff = 0 := by
      rw [← UInt32.toNat_inj, toNat_and_mantissa, none]
      rfl
    refine ⟨Hash256.zero, ?_⟩
    simp only [compactToTarget, toNat_shiftRight_exponent, zero, noMantissa]
    rfl

/-- The exact meaning of an encoding: its 23-bit mantissa, shifted. -/
theorem compactToTarget_eq_ok_iff (bits : UInt32) (target : Hash256) :
    compactToTarget bits = .ok target ↔
      Readable bits ∧ target.toNat = compactMantissa bits * 256 ^ (compactExponent bits - 3) := by
  constructor
  · intro decoded
    exact ⟨readable_of_compactToTarget decoded, (toNat_of_compactToTarget decoded).2⟩
  · rintro ⟨readable, value⟩
    obtain ⟨decoded, isDecoded⟩ := exists_target_of_readable readable
    rw [isDecoded, Hash256.toNat_inj.mp (value.trans (toNat_of_compactToTarget isDecoded).2.symm)]

theorem meansSpecified_iff {bits : UInt32} {target : Hash256}
    (decoded : compactToTarget bits = .ok target) :
    MeansSpecified bits target ↔ (3 ≤ compactExponent bits → topBit bits = 0) := by
  obtain ⟨⟨-, low⟩, value⟩ := (compactToTarget_eq_ok_iff bits target).mp decoded
  have power : 0 < 256 ^ (compactExponent bits - 3) := Nat.pow_pos (by decide)
  have same : target.toNat = (specMantissa bits).toNat * 256 ^ (compactExponent bits - 3) ↔
      topBit bits = 0 := by
    rw [value, toNat_specMantissa, Nat.mul_left_inj power.ne']
    omega
  rw [MeansSpecified, same, and_iff_left]
  intro zero
  obtain ⟨-, none⟩ := low.resolve_left (by omega)
  rw [value, none, Nat.zero_mul]

/-- Of two encodings with one exponent, those with one 23-bit mantissa share a target. -/
theorem same_target_iff {bits other : UInt32}
    (sameExponent : compactExponent other = compactExponent bits) :
    (∃ target, compactToTarget bits = .ok target ∧ compactToTarget other = .ok target) ↔
      Readable bits ∧ compactMantissa other = compactMantissa bits := by
  have power : 0 < 256 ^ (compactExponent bits - 3) := Nat.pow_pos (by decide)
  constructor
  · rintro ⟨target, decoded, decoded'⟩
    obtain ⟨readable, value⟩ := (compactToTarget_eq_ok_iff bits target).mp decoded
    obtain ⟨-, value'⟩ := (compactToTarget_eq_ok_iff other target).mp decoded'
    rw [value, sameExponent] at value'
    exact ⟨readable, (Nat.eq_of_mul_eq_mul_right power value').symm⟩
  · rintro ⟨readable, sameMantissa⟩
    obtain ⟨target, decoded⟩ := exists_target_of_readable readable
    refine ⟨target, decoded, ?_⟩
    rw [compactToTarget_eq_ok_iff] at decoded ⊢
    rwa [Readable, sameExponent, sameMantissa]

end Targets

/-- An accepted encoding means what the specification says exactly when bit 23
is clear or the exponent is zero, and two encodings with one exponent and
different mantissas share a target exactly when they are accepted and differ
in bit 23 alone. -/
theorem compactToTarget_as_specified (bits other : UInt32) :
    ((∀ target, compactToTarget bits = .ok target → MeansSpecified bits target) ↔
      (3 ≤ compactExponent bits → compactExponent bits ≤ 32 → bits &&& 0x00800000 = 0)) ∧
    ((compactExponent other = compactExponent bits → specMantissa other ≠ specMantissa bits →
        ¬ ∃ target, compactToTarget bits = .ok target ∧ compactToTarget other = .ok target) ↔
      (other = bits ^^^ 0x00800000 → ¬ Readable bits)) := by
  constructor
  · rw [and_topBit_eq_zero_iff]
    constructor
    · intro specified low high
      obtain ⟨target, decoded⟩ := exists_compactToTarget low high
      exact (meansSpecified_iff decoded).mp (specified target decoded) low
    · intro clear target decoded
      have high := (toNat_of_compactToTarget decoded).1
      exact (meansSpecified_iff decoded).mpr fun low => clear low high
  · have mantissas : specMantissa other ≠ specMantissa bits ↔
        ¬ (topBit other * 2 ^ 23 + compactMantissa other =
          topBit bits * 2 ^ 23 + compactMantissa bits) := by
      rw [← toNat_specMantissa, ← toNat_specMantissa, UInt32.toNat_inj]
    rw [eq_xor_topBit_iff, mantissas]
    constructor
    · rintro apart ⟨sameExponent, sameMantissa, topBits⟩ readable
      refine apart sameExponent (by omega) ?_
      exact (same_target_iff sameExponent).mpr ⟨readable, sameMantissa⟩
    · intro rejected sameExponent differ shared
      obtain ⟨readable, sameMantissa⟩ := (same_target_iff sameExponent).mp shared
      exact rejected ⟨sameExponent, sameMantissa, by omega⟩ readable

/-- `0x1d80ffff` decodes to the target of `0x1d00ffff`, its top mantissa bit dropped. -/
theorem compactToTarget_drops_topBit :
    compactExponent 0x1d80ffff = 29 ∧ compactExponent 0x1d00ffff = 29 ∧
      specMantissa 0x1d80ffff = 0x80ffff ∧ specMantissa 0x1d00ffff = 0x00ffff ∧
      ∃ target, compactToTarget 0x1d80ffff = .ok target ∧ compactToTarget 0x1d00ffff = .ok target ∧
        ¬ MeansSpecified 0x1d80ffff target := by
  refine ⟨by decide, by decide, by decide, by decide, targetBytes 3 (u32ToBeBytes 0x00ffff),
    by decide +kernel, by decide +kernel, ?_⟩
  intro specified
  have value := specified.1 (by decide)
  revert value
  decide +kernel

end Aurion
