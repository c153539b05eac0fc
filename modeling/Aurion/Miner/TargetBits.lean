import Aurion.Consensus.CompactBits

/-!
# The miner's compact encoding of a target

The encoder takes the three bytes from the first nonzero one on and moves them
by one byte when the top bit of the mantissa is set.  Every target that compact
bits can name survives the way back.
-/

namespace Aurion.Miner

open Foundation

def byteAt (target : Hash256) (idx : Nat) : UInt8 := target.asBytes.getD idx 0

/-- The index of the first nonzero byte, 32 when there is none. -/
def firstNonzero (target : Hash256) : Nat := target.asBytes.findIdx fun byte => byte ≠ 0

def mantissaOf (m0 m1 m2 : UInt8) : UInt32 :=
  (m0.toUInt32 <<< 16) ||| (m1.toUInt32 <<< 8) ||| m2.toUInt32

def pack (exponent : Nat) (mantissa : UInt32) : UInt32 :=
  (UInt32.ofNat exponent <<< 24) ||| mantissa

def targetToBits (target : Hash256) : UInt32 :=
  let hi := firstNonzero target
  if hi = 32 then 0
  else
    let exponent := 32 - hi
    let mantissa :=
      if exponent < 3 then mantissaOf (byteAt target 29) (byteAt target 30) (byteAt target 31)
      else
        let start := 32 - exponent
        mantissaOf (byteAt target start) (byteAt target (start + 1)) (byteAt target (start + 2))
    let exponent := max exponent 3
    -- the decoder drops bit 23 of a mantissa
    if mantissa &&& 0x00800000 ≠ 0 ∧ exponent < 32 then pack (exponent + 1) (mantissa >>> 8)
    else pack exponent mantissa

section Words

theorem toNat_mantissaOf (m0 m1 m2 : UInt8) :
    (mantissaOf m0 m1 m2).toNat = beValue [m0, m1, m2] := by
  have small := m0.toNat_lt
  have small' := m1.toNat_lt
  have low : ((m1.toUInt32 <<< 8) ||| m2.toUInt32).toNat = m1.toNat * 2 ^ 8 + m2.toNat :=
    toNat_shiftLeft_or 8 (by decide) (by rw [UInt8.toNat_toUInt32]; omega) m2.toNat_lt
  have small'' := m2.toNat_lt
  have all : ((m0.toUInt32 <<< 16) ||| ((m1.toUInt32 <<< 8) ||| m2.toUInt32)).toNat =
      m0.toNat * 2 ^ 16 + (m1.toNat * 2 ^ 8 + m2.toNat) := by
    rw [← low]
    exact toNat_shiftLeft_or 16 (by decide) (by rw [UInt8.toNat_toUInt32]; omega)
      (by rw [low]; omega)
  rw [mantissaOf, UInt32.or_assoc, all]
  simp [beValue, leValue]
  omega

theorem mantissaOf_lt (m0 m1 m2 : UInt8) : (mantissaOf m0 m1 m2).toNat < 2 ^ 24 := by
  have bound := beValue_lt [m0, m1, m2]
  rw [← toNat_mantissaOf] at bound
  simpa using bound

theorem le_mantissaOf {m0 : UInt8} (nonzero : m0 ≠ 0) (m1 m2 : UInt8) :
    2 ^ 16 ≤ (mantissaOf m0 m1 m2).toNat := by
  have positive : 0 < m0.toNat := by
    rw [Nat.pos_iff_ne_zero, ne_eq, ← UInt8.toNat_zero, UInt8.toNat_inj]
    exact nonzero
  rw [toNat_mantissaOf, beValue_cons]
  simp only [List.length_cons, List.length_nil]
  omega

theorem toNat_pack {exponent : Nat} {mantissa : UInt32} (high : exponent ≤ 32)
    (small : mantissa.toNat < 2 ^ 24) :
    (pack exponent mantissa).toNat = exponent * 2 ^ 24 + mantissa.toNat := by
  have value : (UInt32.ofNat exponent).toNat = exponent := by
    rw [UInt32.toNat_ofNat', Nat.mod_eq_of_lt]
    omega
  have packed := toNat_shiftLeft_or 24 (by decide)
    (by rw [value]; omega : (UInt32.ofNat exponent).toNat * 2 ^ 24 < 2 ^ 32) small
  rwa [value] at packed

theorem bit23_iff {mantissa : UInt32} (small : mantissa.toNat < 2 ^ 24) :
    mantissa &&& 0x00800000 ≠ 0 ↔ 2 ^ 23 ≤ mantissa.toNat := by
  rw [ne_eq, and_topBit_eq_zero_iff, topBit]
  omega

end Words

section Digits

theorem byteAt_eq (target : Hash256) {idx : Nat} (inRange : idx < target.asBytes.length) :
    byteAt target idx = target.asBytes[idx] :=
  List.getD_eq_getElem _ _ inRange

theorem byteAt_before_firstNonzero (target : Hash256) {idx : Nat}
    (before : idx < firstNonzero target) : byteAt target idx = 0 := by
  have inRange : idx < target.asBytes.length :=
    Nat.lt_of_lt_of_le before List.findIdx_le_length
  rw [byteAt_eq target inRange]
  simpa using List.not_of_lt_findIdx before

theorem byteAt_firstNonzero (target : Hash256) (found : firstNonzero target < 32) :
    byteAt target (firstNonzero target) ≠ 0 := by
  have inRange : firstNonzero target < target.asBytes.length := by rwa [target.size]
  rw [byteAt_eq target inRange]
  exact of_decide_eq_true (@List.findIdx_getElem _ _ _ inRange)

theorem eq_zero_of_firstNonzero (target : Hash256) (none : firstNonzero target = 32) :
    target = Hash256.zero := by
  apply Hash256.ext
  refine List.eq_replicate_iff.mpr ⟨target.size, ?_⟩
  intro byte membership
  obtain ⟨idx, inRange, rfl⟩ := List.getElem_of_mem membership
  rw [← byteAt_eq]
  apply byteAt_before_firstNonzero
  rw [none, ← target.size]
  exact inRange

/-- After leading zeros three bytes are the quotient by the place of the rest. -/
theorem toNat_div_place (target : Hash256) {start : Nat} (fits : start + 3 ≤ 32)
    (zeros : ∀ idx < start, byteAt target idx = 0) :
    target.toNat / 256 ^ (29 - start) =
      beValue [byteAt target start, byteAt target (start + 1), byteAt target (start + 2)] := by
  have size := target.size
  have leading : target.asBytes.take start = List.replicate start 0 := by
    refine List.eq_replicate_iff.mpr ⟨by simp; omega, ?_⟩
    intro byte membership
    obtain ⟨idx, inRange, rfl⟩ := List.getElem_of_mem membership
    rw [List.length_take] at inRange
    rw [List.getElem_take, ← byteAt_eq]
    exact zeros idx (by omega)
  have middle : target.asBytes.drop start =
      [byteAt target start, byteAt target (start + 1), byteAt target (start + 2)] ++
        target.asBytes.drop (start + 3) := by
    rw [List.drop_eq_getElem_cons (by omega : start < _),
      List.drop_eq_getElem_cons (by omega : start + 1 < _),
      List.drop_eq_getElem_cons (by omega : start + 2 < _), byteAt_eq, byteAt_eq, byteAt_eq]
    rfl
  have tail := beValue_lt (target.asBytes.drop (start + 3))
  have length : (target.asBytes.drop (start + 3)).length = 29 - start := by
    rw [List.length_drop]
    omega
  rw [length] at tail
  have positive : 0 < 256 ^ (29 - start) := Nat.pow_pos (by decide)
  rw [Hash256.toNat, ← List.take_append_drop start target.asBytes, leading, beValue_append,
    beValue_replicate_zero, Nat.zero_mul, Nat.zero_add, middle, beValue_append, length,
    Nat.mul_comm, Nat.mul_add_div positive, Nat.div_eq_of_lt tail, Nat.add_zero]

/-- The encoder packs the leading digits of the target. -/
theorem targetToBits_eq (target : Hash256) (found : firstNonzero target < 32) :
    ∃ (mantissa : UInt32) (place : Nat), place ≤ 29 ∧ mantissa.toNat < 2 ^ 24 ∧
      mantissa.toNat = target.toNat / 256 ^ place ∧ (0 < place → 2 ^ 16 ≤ mantissa.toNat) ∧
      targetToBits target =
        if mantissa &&& 0x00800000 ≠ 0 ∧ place + 3 < 32 then pack (place + 4) (mantissa >>> 8)
        else pack (place + 3) mantissa := by
  let start := min (firstNonzero target) 29
  let mantissa :=
    mantissaOf (byteAt target start) (byteAt target (start + 1)) (byteAt target (start + 2))
  have zeros : ∀ idx < start, byteAt target idx = 0 := fun idx before =>
    byteAt_before_firstNonzero target (by omega)
  have value : mantissa.toNat = target.toNat / 256 ^ (29 - start) := by
    rw [toNat_div_place target (by omega) zeros]
    exact toNat_mantissaOf _ _ _
  refine ⟨mantissa, 29 - start, by omega, mantissaOf_lt _ _ _, value, ?_, ?_⟩
  · intro early
    have first : start = firstNonzero target := by omega
    exact le_mantissaOf (first ▸ byteAt_firstNonzero target found) _ _
  · have notAll : firstNonzero target ≠ 32 := by omega
    have chosen : (if 32 - firstNonzero target < 3 then
          mantissaOf (byteAt target 29) (byteAt target 30) (byteAt target 31)
        else mantissaOf (byteAt target (32 - (32 - firstNonzero target)))
          (byteAt target (32 - (32 - firstNonzero target) + 1))
          (byteAt target (32 - (32 - firstNonzero target) + 2))) = mantissa := by
      split
      next late =>
          have last : start = 29 := by omega
          simp only [mantissa, last]
      next early =>
          have first : 32 - (32 - firstNonzero target) = start := by omega
          rw [first]
    have height : max (32 - firstNonzero target) 3 = 29 - start + 3 := by omega
    simp only [targetToBits, if_neg notAll, chosen, height]

end Digits

section RoundTrip

/-- When a number of 23 bits at some place is cut to three leading digits, the
cut loses nothing, and the last digit is zero if the top bit is set. -/
theorem exact_of_leading {mantissa shift place value : Nat} (small : mantissa < 2 ^ 23)
    (isValue : value = mantissa * 256 ^ shift)
    (leading : 0 < place → 2 ^ 16 ≤ value / 256 ^ place) :
    (value / 256 ^ place < 2 ^ 23 → value / 256 ^ place * 256 ^ place = value) ∧
      (2 ^ 23 ≤ value / 256 ^ place → place < shift ∧
        value / 256 ^ place / 256 * 256 ^ (place + 1) = value) := by
  have positive : 0 < 256 ^ place := Nat.pow_pos (by decide)
  have reaches : place ≤ shift := by
    by_contra beyond
    have least := leading (by omega)
    rw [Nat.le_div_iff_mul_le positive] at least
    have room : 256 ^ (shift + 1) ≤ 256 ^ place := Nat.pow_le_pow_right (by decide) (by omega)
    rw [pow_succ] at room
    have bound : mantissa * 256 ^ shift < 2 ^ 23 * 256 ^ shift :=
      Nat.mul_lt_mul_of_pos_right small (Nat.pow_pos (by decide))
    omega
  obtain ⟨rest, rfl⟩ := Nat.exists_eq_add_of_le reaches
  have scaled : value = mantissa * 256 ^ rest * 256 ^ place := by
    rw [isValue, pow_add]
    ring
  have quotient : value / 256 ^ place = mantissa * 256 ^ rest := by
    rw [scaled, Nat.mul_div_cancel _ positive]
  rw [quotient]
  refine ⟨fun _ => scaled.symm, fun large => ?_⟩
  cases rest with
  | zero => omega
  | succ rest =>
      refine ⟨by omega, ?_⟩
      have carry : mantissa * 256 ^ (rest + 1) / 256 = mantissa * 256 ^ rest := by
        rw [pow_succ, ← Nat.mul_assoc, Nat.mul_div_cancel _ (by decide)]
      rw [carry, scaled, pow_succ, pow_succ]
      ring

/-- Packed bits decode to their mantissa, without its top bit, at their place. -/
theorem exists_compactToTarget_pack {exponent : Nat} {mantissa : UInt32} (low : 3 ≤ exponent)
    (high : exponent ≤ 32) (small : mantissa.toNat < 2 ^ 24) :
    ∃ decoded, compactToTarget (pack exponent mantissa) = .ok decoded ∧
      decoded.toNat = mantissa.toNat % 2 ^ 23 * 256 ^ (exponent - 3) := by
  have packed := toNat_pack high small
  have exponentPart : compactExponent (pack exponent mantissa) = exponent := by
    rw [compactExponent, packed]
    omega
  have mantissaPart : compactMantissa (pack exponent mantissa) = mantissa.toNat % 2 ^ 23 := by
    rw [compactMantissa, packed]
    omega
  obtain ⟨decoded, isDecoded⟩ := exists_compactToTarget (exponentPart.symm ▸ low)
    (exponentPart.symm ▸ high)
  obtain ⟨-, value⟩ := toNat_of_compactToTarget isDecoded
  rw [exponentPart, mantissaPart] at value
  exact ⟨decoded, isDecoded, value⟩

/-- Bits with these parts decode to the target of their value. -/
theorem compactToTarget_pack {exponent : Nat} {mantissa : UInt32} {target : Hash256}
    (low : 3 ≤ exponent) (high : exponent ≤ 32) (small : mantissa.toNat < 2 ^ 23)
    (value : mantissa.toNat * 256 ^ (exponent - 3) = target.toNat) :
    compactToTarget (pack exponent mantissa) = .ok target := by
  obtain ⟨decoded, isDecoded, decodedValue⟩ :=
    exists_compactToTarget_pack low high (by omega : mantissa.toNat < 2 ^ 24)
  rw [Nat.mod_eq_of_lt small, value] at decodedValue
  rw [isDecoded, Hash256.toNat_inj.mp decodedValue]

/-- A target that compact bits name is the target of its own encoding. -/
theorem compactToTarget_targetToBits {bits : UInt32} {target : Hash256}
    (decoded : compactToTarget bits = .ok target) :
    compactToTarget (targetToBits target) = .ok target := by
  obtain ⟨high, isValue⟩ := toNat_of_compactToTarget decoded
  have inRange : firstNonzero target ≤ 32 := target.size ▸ List.findIdx_le_length
  by_cases none : firstNonzero target = 32
  · rw [targetToBits, if_pos none, eq_zero_of_firstNonzero target none]
    rfl
  · obtain ⟨mantissa, place, bound, small, value, leading, packed⟩ :=
      targetToBits_eq target (by omega)
    have given : compactMantissa bits < 2 ^ 23 := Nat.mod_lt _ (by decide)
    obtain ⟨exact, carried⟩ := exact_of_leading given isValue (value ▸ leading)
    rw [← value] at exact carried
    rw [packed]
    by_cases top : 2 ^ 23 ≤ mantissa.toNat
    · obtain ⟨below, shifted⟩ := carried top
      rw [if_pos ⟨(bit23_iff small).mpr top, by omega⟩]
      have quotient : (mantissa >>> 8).toNat = mantissa.toNat / 256 :=
        toNat_shiftRight_word mantissa (by decide)
      apply compactToTarget_pack (by omega) (by omega)
      · rw [quotient]
        omega
      · rw [quotient]
        exact shifted
    · rw [if_neg fun both => top ((bit23_iff small).mp both.1)]
      exact compactToTarget_pack (by omega) (by omega) (by omega) (exact (by omega))

/-- Whatever the encoding leaves out of a target makes it smaller. -/
theorem exists_le_of_targetToBits (target : Hash256) :
    ∃ target', compactToTarget (targetToBits target) = .ok target' ∧
      target'.toNat ≤ target.toNat := by
  have inRange : firstNonzero target ≤ 32 := target.size ▸ List.findIdx_le_length
  by_cases none : firstNonzero target = 32
  · refine ⟨target, ?_, Nat.le_refl _⟩
    rw [targetToBits, if_pos none, eq_zero_of_firstNonzero target none]
    rfl
  · obtain ⟨mantissa, place, bound, small, value, -, packed⟩ :=
      targetToBits_eq target (by omega)
    rw [packed]
    split
    next carried =>
        have quotient : (mantissa >>> 8).toNat = mantissa.toNat / 256 :=
          toNat_shiftRight_word mantissa (by decide)
        obtain ⟨target', decoded, isValue⟩ := exists_compactToTarget_pack
          (by omega : 3 ≤ place + 4) (by omega) (by omega : (mantissa >>> 8).toNat < 2 ^ 24)
        refine ⟨target', decoded, ?_⟩
        calc target'.toNat
            ≤ target.toNat / 256 ^ place / 256 * 256 ^ (place + 1) := by
              rw [isValue, quotient, value]
              exact Nat.mul_le_mul_right _ (Nat.mod_le _ _)
          _ = target.toNat / 256 ^ (place + 1) * 256 ^ (place + 1) := by
              rw [Nat.div_div_eq_div_mul, pow_succ]
          _ ≤ target.toNat := Nat.div_mul_le_self _ _
    next =>
        obtain ⟨target', decoded, isValue⟩ := exists_compactToTarget_pack
          (by omega : 3 ≤ place + 3) (by omega) small
        refine ⟨target', decoded, ?_⟩
        calc target'.toNat ≤ target.toNat / 256 ^ place * 256 ^ place := by
              rw [isValue, value]
              exact Nat.mul_le_mul_right _ (Nat.mod_le _ _)
          _ ≤ target.toNat := Nat.div_mul_le_self _ _

/-- The encoding never names a larger target, names the very one that compact bits
gave, and so asks for the same work as those bits. -/
theorem targetToBits_never_easier :
    (∀ target, ∃ target', compactToTarget (targetToBits target) = .ok target' ∧
      beValue target'.asBytes ≤ beValue target.asBytes) ∧
    (∀ bits target, compactToTarget bits = .ok target →
      compactToTarget (targetToBits target) = .ok target) ∧
    ∀ bits target hash, compactToTarget bits = .ok target →
      (checkPow hash (targetToBits target) = .ok () ↔ checkPow hash bits = .ok ()) := by
  refine ⟨exists_le_of_targetToBits, fun _ _ => compactToTarget_targetToBits, ?_⟩
  intro bits target hash decoded
  rw [checkPow_eq_ok_iff, checkPow_eq_ok_iff, compactToTarget_targetToBits decoded, decoded]

/-- The largest target of the network is encoded without a loss. -/
theorem targetToBits_never_easier_maxTarget :
    compactToTarget (targetToBits maxTarget) = .ok maxTarget ∧
      checkPow Hash256.zero (targetToBits maxTarget) = .ok () := by
  obtain ⟨-, exact, work⟩ := targetToBits_never_easier
  refine ⟨exact maxTargetBits maxTarget compactToTarget_maxTargetBits,
    (work maxTargetBits maxTarget Hash256.zero compactToTarget_maxTargetBits).mpr ?_⟩
  decide +kernel

example : targetToBits maxTarget = maxTargetBits := by decide +kernel

end RoundTrip

end Aurion.Miner
