import Aurion.Foundation.Bytes
import Aurion.Foundation.Check

/-!
# Canonical decoders

A decoder reads a prefix of its cursor and returns the remaining bytes.  It is
*canonical* for an encoder when it accepts exactly the encodings of the valid
values.  Canonicity is closed under sequencing, counted repetition and length
prefixes, so a format is canonical as soon as its fields are.
-/

namespace Foundation

variable {Fault Value : Type}

/-- A decoder reads a prefix of its cursor and leaves the rest. -/
abbrev Decoder (Fault Value : Type) := StateT Bytes (Except Fault) Value

namespace Decoder

/-- Split `count` bytes off the cursor. -/
def take (eof : Fault) (count : Nat) : Decoder Fault Bytes := fun cursor =>
  if cursor.length < count then .error eof
  else .ok (cursor.take count, cursor.drop count)

/-- Run a decoder `count` times and collect the values in order. -/
def times (decode : Decoder Fault Value) : Nat → Decoder Fault (List Value)
  | 0 => pure []
  | count + 1 => do
      let head ← decode
      let tail ← decode.times count
      pure (head :: tail)

@[simp]
theorem bind_eq_ok_iff {Next : Type} (first : Decoder Fault Value)
    (next : Value → Decoder Fault Next) (cursor rest : Bytes) (value : Next) :
    (first >>= next) cursor = .ok (value, rest) ↔
      ∃ head middle, first cursor = .ok (head, middle) ∧
        next head middle = .ok (value, rest) :=
  stateT_bind_eq_ok_iff first next cursor rest value

@[simp]
theorem pure_eq_ok_iff (value value' : Value) (cursor rest : Bytes) :
    (pure value : Decoder Fault Value) cursor = .ok (value', rest) ↔
      value = value' ∧ cursor = rest :=
  stateT_pure_eq_ok_iff value value' cursor rest

@[simp]
theorem throw_ne_ok (fault : Fault) (value : Value) (cursor rest : Bytes) :
    (throw fault : Decoder Fault Value) cursor ≠ .ok (value, rest) :=
  stateT_throw_ne_ok fault value cursor rest

@[simp]
theorem take_eq_ok_iff (eof : Fault) (count : Nat) (cursor taken rest : Bytes) :
    take eof count cursor = .ok (taken, rest) ↔
      taken.length = count ∧ cursor = taken ++ rest := by
  unfold take
  split
  next short =>
      simp only [reduceCtorEq, false_iff, not_and]
      rintro length rfl
      simp only [List.length_append] at short
      omega
  next long =>
      simp only [Except.ok.injEq, Prod.mk.injEq]
      constructor
      · intro cut
        rcases cut with ⟨rfl, rfl⟩
        exact ⟨List.length_take_of_le (by omega), (List.take_append_drop count cursor).symm⟩
      · intro cut
        rcases cut with ⟨rfl, rfl⟩
        simp

end Decoder

/-- The decoder accepts exactly the encodings of the valid values, each followed
by an arbitrary rest, and returns the value and that rest. -/
structure Canonical (decode : Decoder Fault Value) (encode : Value → Bytes)
    (valid : Value → Prop) : Prop where
  eq_ok_iff : ∀ cursor value rest, decode cursor = .ok (value, rest) ↔
    valid value ∧ cursor = encode value ++ rest

namespace Canonical

variable {decode : Decoder Fault Value} {encode : Value → Bytes} {valid : Value → Prop}

theorem decode_encode (canonical : Canonical decode encode valid) {value : Value}
    (isValid : valid value) (rest : Bytes) :
    decode (encode value ++ rest) = .ok (value, rest) :=
  (canonical.eq_ok_iff _ _ _).mpr ⟨isValid, rfl⟩

/-- An encoding followed by anything decides the value and the rest. -/
theorem append_inj (canonical : Canonical decode encode valid) {left right : Value}
    {leftRest rightRest : Bytes} (leftValid : valid left) (rightValid : valid right)
    (same : encode left ++ leftRest = encode right ++ rightRest) :
    left = right ∧ leftRest = rightRest := by
  have leftRun := canonical.decode_encode leftValid leftRest
  have rightRun := canonical.decode_encode rightValid rightRest
  rw [same, rightRun] at leftRun
  simp only [Except.ok.injEq, Prod.mk.injEq] at leftRun
  exact ⟨leftRun.1.symm, leftRun.2.symm⟩

theorem encode_injective (canonical : Canonical decode encode valid) {left right : Value}
    (leftValid : valid left) (rightValid : valid right) (same : encode left = encode right) :
    left = right := by
  have padded : encode left ++ [] = encode right ++ [] := by rw [same]
  exact (canonical.append_inj leftValid rightValid padded).1

/-- No encoding of a valid value is a proper prefix of another one. -/
theorem eq_of_isPrefix (canonical : Canonical decode encode valid) {left right : Value}
    (leftValid : valid left) (rightValid : valid right)
    (isPrefix : encode left <+: encode right) : left = right := by
  rcases isPrefix with ⟨rest, same⟩
  have padded : encode left ++ rest = encode right ++ [] := by rw [same, List.append_nil]
  exact (canonical.append_inj leftValid rightValid padded).1

/-- A value built from a canonical field. -/
theorem build_eq_ok_iff (canonical : Canonical decode encode valid) {Built : Type}
    (build : Value → Built) (cursor rest : Bytes) (built : Built) :
    (do let value ← decode; pure (build value) : Decoder Fault Built) cursor =
        .ok (built, rest) ↔
      ∃ value, build value = built ∧ valid value ∧ cursor = encode value ++ rest := by
  simp only [Decoder.bind_eq_ok_iff, Decoder.pure_eq_ok_iff, canonical.eq_ok_iff]
  constructor
  · intro read
    obtain ⟨value, _, ⟨isValid, encoded⟩, built, rfl⟩ := read
    exact ⟨value, built, isValid, encoded⟩
  · intro encoded
    obtain ⟨value, built, isValid, encoded⟩ := encoded
    exact ⟨value, rest, ⟨isValid, encoded⟩, built, rfl⟩

/-- A fixed-width field read through a two-sided inverse of its writer. -/
theorem fixed {eof : Fault} {width : Nat} {read : Bytes → Value}
    (length : ∀ value, (encode value).length = width)
    (read_encode : ∀ value, read (encode value) = value)
    (encode_read : ∀ bytes, bytes.length = width → encode (read bytes) = bytes) :
    Canonical (do let bytes ← Decoder.take eof width; pure (read bytes)) encode
      (fun _ => True) where
  eq_ok_iff := by
    intro cursor value rest
    simp only [Decoder.bind_eq_ok_iff, Decoder.take_eq_ok_iff, Decoder.pure_eq_ok_iff, true_and]
    constructor
    · intro read
      rcases read with ⟨bytes, middle, ⟨width', rfl⟩, rfl, rfl⟩
      rw [encode_read bytes width']
    · rintro rfl
      exact ⟨encode value, rest, ⟨length value, rfl⟩, read_encode value, rfl⟩

/-- Counted repetition concatenates the encodings. -/
theorem times (canonical : Canonical decode encode valid) (count : Nat) :
    Canonical (decode.times count) (fun values => values.flatMap encode)
      (fun values => values.length = count ∧ ∀ value ∈ values, valid value) where
  eq_ok_iff := by
    induction count with
    | zero =>
        intro cursor values rest
        simp only [Decoder.times, Decoder.pure_eq_ok_iff]
        constructor
        · intro encoded
          rcases encoded with ⟨rfl, rfl⟩
          simp
        · intro encoded
          rcases encoded with ⟨⟨empty, -⟩, rfl⟩
          simp [List.length_eq_zero_iff.mp empty]
    | succ count inductionHypothesis =>
        intro cursor values rest
        simp only [Decoder.times, Decoder.bind_eq_ok_iff, Decoder.pure_eq_ok_iff,
          canonical.eq_ok_iff, inductionHypothesis]
        constructor
        · intro read
          rcases read with ⟨head, middle, ⟨headValid, rfl⟩, tail, _, ⟨⟨rfl, tailValid⟩, rfl⟩,
            rfl, rfl⟩
          simpa [headValid] using tailValid
        · intro encoded
          rcases encoded with ⟨⟨length, allValid⟩, rfl⟩
          cases values with
          | nil => simp at length
          | cons head tail =>
              simp only [List.mem_cons, forall_eq_or_imp] at allValid
              exact ⟨head, tail.flatMap encode ++ rest, ⟨allValid.1, by simp⟩, tail, rest,
                ⟨⟨by simpa using length, allValid.2⟩, rfl⟩, rfl, rfl⟩

end Canonical

end Foundation
