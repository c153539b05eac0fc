import Mathlib.Data.List.Basic
import Mathlib.Tactic.Ring

/-!
# Fixed-width byte strings

Little- and big-endian digits of a natural number.  Reading a string and
writing the value back are inverse at a fixed width, and on strings of one
length the lexicographic order is the order of the big-endian values.
-/

namespace Foundation

/-- A byte string. -/
abbrev Bytes := List UInt8

/-- The `width` low base-256 digits of a number, lowest first. -/
def leBytes : Nat → Nat → Bytes
  | 0, _ => []
  | width + 1, value => UInt8.ofNat value :: leBytes width (value / 256)

/-- The number whose base-256 digits, lowest first, are the given bytes. -/
def leValue : Bytes → Nat
  | [] => 0
  | byte :: rest => byte.toNat + 256 * leValue rest

def beBytes (width value : Nat) : Bytes := (leBytes width value).reverse

def beValue (bytes : Bytes) : Nat := leValue bytes.reverse

@[simp]
theorem length_leBytes (width value : Nat) : (leBytes width value).length = width := by
  induction width generalizing value with
  | zero => rfl
  | succ width inductionHypothesis => simp [leBytes, inductionHypothesis]

@[simp]
theorem length_beBytes (width value : Nat) : (beBytes width value).length = width := by
  simp [beBytes]

theorem leValue_append (low high : Bytes) :
    leValue (low ++ high) = leValue low + 256 ^ low.length * leValue high := by
  induction low with
  | nil => simp [leValue]
  | cons byte rest inductionHypothesis =>
      simp only [List.cons_append, leValue, inductionHypothesis, List.length_cons, pow_succ]
      ring

theorem beValue_append (high low : Bytes) :
    beValue (high ++ low) = beValue high * 256 ^ low.length + beValue low := by
  rw [beValue, List.reverse_append, leValue_append, List.length_reverse]
  simp only [beValue]
  ring

theorem leValue_lt (bytes : Bytes) : leValue bytes < 256 ^ bytes.length := by
  induction bytes with
  | nil => simp [leValue]
  | cons byte rest inductionHypothesis =>
      have small := byte.toNat_lt
      simp only [leValue, List.length_cons, pow_succ]
      omega

theorem beValue_lt (bytes : Bytes) : beValue bytes < 256 ^ bytes.length := by
  simpa [beValue] using leValue_lt bytes.reverse

theorem leValue_leBytes (width value : Nat) :
    leValue (leBytes width value) = value % 256 ^ width := by
  induction width generalizing value with
  | zero => simp [leBytes, leValue, Nat.mod_one]
  | succ width inductionHypothesis =>
      have digit : (UInt8.ofNat value).toNat = value % 256 := UInt8.toNat_ofNat'
      rw [leBytes, leValue, inductionHypothesis, digit, pow_succ, mul_comm (256 ^ width) 256,
        Nat.mod_mul]

theorem beValue_beBytes (width value : Nat) :
    beValue (beBytes width value) = value % 256 ^ width := by
  simp [beValue, beBytes, leValue_leBytes]

theorem beValue_beBytes_of_lt {width value : Nat} (fits : value < 256 ^ width) :
    beValue (beBytes width value) = value := by
  rw [beValue_beBytes, Nat.mod_eq_of_lt fits]

theorem leBytes_leValue (bytes : Bytes) : leBytes bytes.length (leValue bytes) = bytes := by
  induction bytes with
  | nil => rfl
  | cons byte rest inductionHypothesis =>
      have small := byte.toNat_lt
      have digit : UInt8.ofNat (byte.toNat + 256 * leValue rest) = byte := by
        apply UInt8.toNat_inj.mp
        rw [UInt8.toNat_ofNat']
        omega
      have carry : (byte.toNat + 256 * leValue rest) / 256 = leValue rest := by omega
      simp only [List.length_cons, leValue, leBytes, digit, carry, inductionHypothesis]

theorem beBytes_beValue (bytes : Bytes) : beBytes bytes.length (beValue bytes) = bytes := by
  have digits := leBytes_leValue bytes.reverse
  rw [List.length_reverse] at digits
  rw [beBytes, beValue, digits, List.reverse_reverse]

theorem beValue_cons (byte : UInt8) (rest : Bytes) :
    beValue (byte :: rest) = byte.toNat * 256 ^ rest.length + beValue rest := by
  simpa [beValue, leValue] using beValue_append [byte] rest

@[simp]
theorem beValue_replicate_zero (count : Nat) : beValue (List.replicate count 0) = 0 := by
  induction count with
  | zero => rfl
  | succ count inductionHypothesis =>
      simp [List.replicate_succ, beValue_cons, inductionHypothesis]

/-- On strings of one length the first differing byte decides both orders. -/
theorem lt_iff_beValue_lt {left right : Bytes} (sameLength : left.length = right.length) :
    left < right ↔ beValue left < beValue right := by
  induction left generalizing right with
  | nil =>
      cases right with
      | nil => simp
      | cons byte rest => simp at sameLength
  | cons byte rest inductionHypothesis =>
      cases right with
      | nil => simp at sameLength
      | cons byte' rest' =>
          have lengths : rest.length = rest'.length := by simpa using sameLength
          have bound := beValue_lt rest
          have bound' := beValue_lt rest'
          rw [List.cons_lt_cons_iff, inductionHypothesis lengths, beValue_cons, beValue_cons,
            UInt8.lt_iff_toNat_lt, ← UInt8.toNat_inj, lengths]
          rw [lengths] at bound
          constructor
          · intro ordered
            rcases ordered with smaller | ⟨same, smaller⟩
            · have step := Nat.mul_le_mul_right (256 ^ rest'.length) smaller
              rw [Nat.succ_mul] at step
              omega
            · rw [same]
              omega
          · intro smaller
            rcases Nat.lt_trichotomy byte.toNat byte'.toNat with lower | same | higher
            · exact Or.inl lower
            · rw [same] at smaller
              exact Or.inr ⟨same, by omega⟩
            · have step := Nat.mul_le_mul_right (256 ^ rest'.length) higher
              rw [Nat.succ_mul] at step
              omega

end Foundation
