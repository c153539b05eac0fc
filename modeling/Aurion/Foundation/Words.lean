import Mathlib.Data.Nat.Bitwise

/-!
# Fields of 32-bit words

Masks and shifts cut a word into fields; each lemma gives the number that a
field holds.
-/

namespace Foundation

theorem toNat_shiftRight_word (word : UInt32) {shift : UInt32} (width : shift.toNat < 32) :
    (word >>> shift).toNat = word.toNat / 2 ^ shift.toNat := by
  rw [UInt32.toNat_shiftRight, Nat.mod_eq_of_lt width, Nat.shiftRight_eq_div_pow]

theorem toNat_and_mask (word : UInt32) {mask : UInt32} {width : Nat}
    (ones : mask.toNat = 2 ^ width - 1) : (word &&& mask).toNat = word.toNat % 2 ^ width := by
  rw [UInt32.toNat_and, ones, Nat.and_two_pow_sub_one_eq_mod]

/-- A shifted number and one below it do not overlap. -/
theorem toNat_shiftLeft_or (shift : Nat) {high low : UInt32} (width : shift < 32)
    (fits : high.toNat * 2 ^ shift < 2 ^ 32) (below : low.toNat < 2 ^ shift) :
    ((high <<< UInt32.ofNat shift) ||| low).toNat = high.toNat * 2 ^ shift + low.toNat := by
  have shifts : (UInt32.ofNat shift).toNat % 32 = shift := by
    rw [UInt32.toNat_ofNat', Nat.mod_eq_of_lt (a := shift) (by omega), Nat.mod_eq_of_lt width]
  rw [UInt32.toNat_or, UInt32.toNat_shiftLeft, shifts, Nat.shiftLeft_eq, Nat.mod_eq_of_lt fits,
    ← Nat.shiftLeft_eq, ← Nat.shiftLeft_add_eq_or_of_lt below, Nat.shiftLeft_eq]

section Bit

variable {bit : UInt32} {place : Nat}

theorem and_bit_eq_zero_iff (word : UInt32) (isBit : bit.toNat = 2 ^ place) :
    word &&& bit = 0 ↔ word.toNat / 2 ^ place % 2 = 0 := by
  have value : (word &&& bit).toNat = word.toNat &&& 2 ^ place := by rw [UInt32.toNat_and, isBit]
  rw [← UInt32.toNat_inj, value, Nat.and_two_pow, Nat.toNat_testBit]
  exact Nat.mul_eq_zero.trans (or_iff_left (Nat.two_pow_pos place).ne')

/-- Numbers are equal when they agree below a place, at it and above it. -/
theorem eq_of_fields {left right : Nat} (above : left / 2 ^ place / 2 = right / 2 ^ place / 2)
    (atPlace : left / 2 ^ place % 2 = right / 2 ^ place % 2)
    (below : left % 2 ^ place = right % 2 ^ place) : left = right := by
  have quotients : left / 2 ^ place = right / 2 ^ place := by omega
  rw [← Nat.div_add_mod left (2 ^ place), ← Nat.div_add_mod right (2 ^ place), quotients, below]

/-- A word with one bit flipped is the one that differs there and nowhere else. -/
theorem eq_xor_bit_iff (word other : UInt32) (isBit : bit.toNat = 2 ^ place) :
    other = word ^^^ bit ↔
      other.toNat / 2 ^ place / 2 = word.toNat / 2 ^ place / 2 ∧
        other.toNat % 2 ^ place = word.toNat % 2 ^ place ∧
        other.toNat / 2 ^ place % 2 ≠ word.toNat / 2 ^ place % 2 := by
  have value : (word ^^^ bit).toNat = word.toNat ^^^ 2 ^ place := by rw [UInt32.toNat_xor, isBit]
  have quotient : (word.toNat ^^^ 2 ^ place) / 2 ^ place = word.toNat / 2 ^ place ^^^ 1 := by
    rw [Nat.xor_div_two_pow, Nat.div_self (Nat.two_pow_pos place)]
  have above : (word.toNat / 2 ^ place ^^^ 1) / 2 = word.toNat / 2 ^ place / 2 :=
    (Nat.xor_div_two_pow (n := 1)).trans (Nat.xor_zero _)
  have flipped : (word.toNat / 2 ^ place ^^^ 1) % 2 = (word.toNat / 2 ^ place + 1) % 2 :=
    Nat.xor_mod_two_eq
  have below : (word.toNat ^^^ 2 ^ place) % 2 ^ place = word.toNat % 2 ^ place := by
    rw [Nat.xor_mod_two_pow, Nat.mod_self, Nat.xor_zero]
  rw [← UInt32.toNat_inj, value]
  constructor
  · intro same
    rw [same, quotient, above, flipped, below]
    exact ⟨rfl, rfl, by omega⟩
  · intro fields
    obtain ⟨sameAbove, sameBelow, differ⟩ := fields
    apply eq_of_fields
    · rw [quotient, above, sameAbove]
    · rw [quotient, flipped]
      omega
    · rw [below, sameBelow]

end Bit

end Foundation
