import Aurion.Foundation.Decoder

/-!
# Primitive types: codec errors, hashes and amounts

The third-party primitives, Blake3 and the strict Ed25519 verification, are
the fields of `Crypto`.  Fixed-width integers travel in big-endian order.
-/

namespace Aurion

open Foundation

inductive CodecError
  | unexpectedEof
  | trailingBytes
  | invalidData (message : String)
  deriving DecidableEq, Repr

def CodecError.message : CodecError → String
  | .unexpectedEof => "unexpected end of buffer"
  | .trailingBytes => "trailing unconsumed bytes detected"
  | .invalidData message => "invalid data representation: " ++ message

/-- The codec trait: one writer and one cursor reader for each type. -/
class CanonicalCodec (Value : Type) where
  encodeCanonical : Value → Bytes
  decodeFromCursor : Decoder CodecError Value

/-- Decode a whole byte string; bytes left over are an error. -/
def decodeCanonical {Value : Type} [CanonicalCodec Value] (bytes : Bytes) :
    Except CodecError Value :=
  match CanonicalCodec.decodeFromCursor bytes with
  | .error error => .error error
  | .ok (item, cursor) => if cursor = [] then .ok item else .error .trailingBytes

theorem decodeCanonical_iff_decodeFromCursor {Value : Type} [CanonicalCodec Value]
    (bytes : Bytes) (value : Value) :
    decodeCanonical bytes = .ok value ↔
      (CanonicalCodec.decodeFromCursor : Decoder CodecError Value) bytes = .ok (value, []) := by
  rw [decodeCanonical]
  cases (CanonicalCodec.decodeFromCursor : Decoder CodecError Value) bytes with
  | error error => simp
  | ok result =>
      rcases result with ⟨item, cursor⟩
      by_cases empty : cursor = [] <;> simp [empty]

theorem decodeCanonical_eq_ok_iff {Value : Type} [CanonicalCodec Value] {valid : Value → Prop}
    (canonical : Canonical (CanonicalCodec.decodeFromCursor : Decoder CodecError Value)
      CanonicalCodec.encodeCanonical valid) (bytes : Bytes) (value : Value) :
    decodeCanonical bytes = .ok value ↔
      valid value ∧ bytes = CanonicalCodec.encodeCanonical value := by
  rw [decodeCanonical_iff_decodeFromCursor, canonical.eq_ok_iff, List.append_nil]

section Integers

def u16ToBeBytes (value : UInt16) : Bytes := beBytes 2 value.toNat

def u16FromBeBytes (bytes : Bytes) : UInt16 := UInt16.ofNat (beValue bytes)

def u32ToBeBytes (value : UInt32) : Bytes := beBytes 4 value.toNat

def u32FromBeBytes (bytes : Bytes) : UInt32 := UInt32.ofNat (beValue bytes)

def u64ToBeBytes (value : UInt64) : Bytes := beBytes 8 value.toNat

def u64FromBeBytes (bytes : Bytes) : UInt64 := UInt64.ofNat (beValue bytes)

@[simp]
theorem length_u16ToBeBytes (value : UInt16) : (u16ToBeBytes value).length = 2 := by
  simp [u16ToBeBytes]

@[simp]
theorem length_u32ToBeBytes (value : UInt32) : (u32ToBeBytes value).length = 4 := by
  simp [u32ToBeBytes]

@[simp]
theorem length_u64ToBeBytes (value : UInt64) : (u64ToBeBytes value).length = 8 := by
  simp [u64ToBeBytes]

@[simp]
theorem u16FromBeBytes_toBeBytes (value : UInt16) :
    u16FromBeBytes (u16ToBeBytes value) = value := by
  rw [u16FromBeBytes, u16ToBeBytes, beValue_beBytes_of_lt value.toNat_lt, UInt16.ofNat_toNat]

@[simp]
theorem u32FromBeBytes_toBeBytes (value : UInt32) :
    u32FromBeBytes (u32ToBeBytes value) = value := by
  rw [u32FromBeBytes, u32ToBeBytes, beValue_beBytes_of_lt value.toNat_lt, UInt32.ofNat_toNat]

@[simp]
theorem u64FromBeBytes_toBeBytes (value : UInt64) :
    u64FromBeBytes (u64ToBeBytes value) = value := by
  rw [u64FromBeBytes, u64ToBeBytes, beValue_beBytes_of_lt value.toNat_lt, UInt64.ofNat_toNat]

theorem u16ToBeBytes_fromBeBytes {bytes : Bytes} (width : bytes.length = 2) :
    u16ToBeBytes (u16FromBeBytes bytes) = bytes := by
  have bound := beValue_lt bytes
  have digits := beBytes_beValue bytes
  rw [width] at bound digits
  rw [u16ToBeBytes, u16FromBeBytes, UInt16.toNat_ofNat_of_lt' bound, digits]

theorem u32ToBeBytes_fromBeBytes {bytes : Bytes} (width : bytes.length = 4) :
    u32ToBeBytes (u32FromBeBytes bytes) = bytes := by
  have bound := beValue_lt bytes
  have digits := beBytes_beValue bytes
  rw [width] at bound digits
  rw [u32ToBeBytes, u32FromBeBytes, UInt32.toNat_ofNat_of_lt' bound, digits]

theorem u64ToBeBytes_fromBeBytes {bytes : Bytes} (width : bytes.length = 8) :
    u64ToBeBytes (u64FromBeBytes bytes) = bytes := by
  have bound := beValue_lt bytes
  have digits := beBytes_beValue bytes
  rw [width] at bound digits
  rw [u64ToBeBytes, u64FromBeBytes, UInt64.toNat_ofNat_of_lt' bound, digits]

def decodeByte : Decoder CodecError UInt8
  | [] => .error .unexpectedEof
  | byte :: rest => .ok (byte, rest)

def decodeU16 : Decoder CodecError UInt16 := do
  let bytes ← Decoder.take .unexpectedEof 2
  pure (u16FromBeBytes bytes)

def decodeU32 : Decoder CodecError UInt32 := do
  let bytes ← Decoder.take .unexpectedEof 4
  pure (u32FromBeBytes bytes)

def decodeU64 : Decoder CodecError UInt64 := do
  let bytes ← Decoder.take .unexpectedEof 8
  pure (u64FromBeBytes bytes)

@[simp]
theorem decodeByte_eq_ok_iff (cursor rest : Bytes) (byte : UInt8) :
    decodeByte cursor = .ok (byte, rest) ↔ cursor = byte :: rest := by
  cases cursor <;> simp [decodeByte]

/-- A tag in front of a payload that the tag decides how to read. -/
theorem decodeTagged_canonical {Value : Type} {body : UInt8 → Decoder CodecError Value}
    {tag : Value → UInt8} {payload : Value → Bytes} {valid : Value → Prop}
    (exact : ∀ byte cursor value rest, body byte cursor = .ok (value, rest) ↔
      tag value = byte ∧ valid value ∧ cursor = payload value ++ rest) :
    Canonical (decodeByte >>= body) (fun value => tag value :: payload value) valid where
  eq_ok_iff := by
    intro cursor value rest
    simp only [Decoder.bind_eq_ok_iff, decodeByte_eq_ok_iff, exact, List.cons_append]
    constructor
    · intro read
      obtain ⟨byte, _, rfl, rfl, isValid, rfl⟩ := read
      exact ⟨isValid, rfl⟩
    · intro encoded
      obtain ⟨isValid, rfl⟩ := encoded
      exact ⟨_, _, rfl, rfl, isValid, rfl⟩

theorem decodeU16_canonical : Canonical decodeU16 u16ToBeBytes (fun _ => True) :=
  Canonical.fixed length_u16ToBeBytes u16FromBeBytes_toBeBytes
    fun _ => u16ToBeBytes_fromBeBytes

theorem decodeU32_canonical : Canonical decodeU32 u32ToBeBytes (fun _ => True) :=
  Canonical.fixed length_u32ToBeBytes u32FromBeBytes_toBeBytes
    fun _ => u32ToBeBytes_fromBeBytes

theorem decodeU64_canonical : Canonical decodeU64 u64ToBeBytes (fun _ => True) :=
  Canonical.fixed length_u64ToBeBytes u64FromBeBytes_toBeBytes
    fun _ => u64ToBeBytes_fromBeBytes

end Integers

section Hashes

/-- A 32-byte array. -/
structure Hash256 where
  asBytes : Bytes
  size : asBytes.length = 32
  deriving DecidableEq, Repr

namespace Hash256

@[ext]
theorem ext {left right : Hash256} (same : left.asBytes = right.asBytes) : left = right := by
  cases left
  cases right
  simpa using same

def zero : Hash256 := ⟨List.replicate 32 0, by simp⟩

/-- `copy_from_slice` into a zeroed array.  The source stops on a slice of
another length; every slice copied this way has 32 bytes. -/
def fromSlice (bytes : Bytes) : Hash256 where
  asBytes := (bytes ++ List.replicate 32 0).take 32
  size := by simp

theorem asBytes_fromSlice {bytes : Bytes} (width : bytes.length = 32) :
    (fromSlice bytes).asBytes = bytes := by
  simp [fromSlice, ← width]

@[simp]
theorem fromSlice_asBytes (hash : Hash256) : fromSlice hash.asBytes = hash :=
  Hash256.ext (asBytes_fromSlice hash.size)

/-- The hash read as a big-endian number. -/
def toNat (hash : Hash256) : Nat := beValue hash.asBytes

theorem toNat_inj {left right : Hash256} : left.toNat = right.toNat ↔ left = right := by
  constructor
  · intro same
    apply ext
    rw [← beBytes_beValue left.asBytes, ← beBytes_beValue right.asBytes, left.size, right.size]
    exact congrArg (beBytes 32) same
  · exact congrArg toNat

def encodeCanonical (hash : Hash256) : Bytes := hash.asBytes

def decodeFromCursor : Decoder CodecError Hash256 := do
  let bytes ← Decoder.take .unexpectedEof 32
  pure (fromSlice bytes)

instance : CanonicalCodec Hash256 := ⟨encodeCanonical, decodeFromCursor⟩

theorem canonical : Canonical decodeFromCursor encodeCanonical (fun _ => True) :=
  Canonical.fixed Hash256.size fromSlice_asBytes fun _ => asBytes_fromSlice

def hexDigits (byte : UInt8) : List Char :=
  [(byte.toNat / 16).digitChar, (byte.toNat % 16).digitChar]

/-- Lower-case hexadecimal, as `Display` prints it. -/
def toHex (hash : Hash256) : String := String.ofList (hash.asBytes.flatMap hexDigits)

end Hash256

/-- Two lower-case hexadecimal digits after `0x`. -/
def hexByte (byte : UInt8) : String := "0x" ++ String.ofList (Hash256.hexDigits byte)

/-- The third-party primitives: `blake3::hash`, whether `VerifyingKey::from_bytes`
accepts a key, and `verify_strict` of a key on a message and a signature. -/
class Crypto where
  blake3 : Bytes → Hash256
  verifyingKey : Bytes → Bool
  verifyStrict : Bytes → Bytes → Bytes → Bool

/-- Primitives with a single digest, under which no key and no signature is valid. -/
abbrev Crypto.constant (digest : Hash256) : Crypto where
  blake3 := fun _ => digest
  verifyingKey := fun _ => false
  verifyStrict := fun _ _ _ => false

def Hash256.ofNat (value : Nat) : Hash256 := ⟨beBytes 32 value, by simp⟩

/-- Primitives given by a table of digests and one of valid triples of a key, a
message and a signature. -/
abbrev Crypto.ofTables (digests : List (Bytes × Hash256))
    (signatures : List (Bytes × Bytes × Bytes)) : Crypto where
  blake3 := fun bytes => (digests.lookup bytes).getD Hash256.zero
  verifyingKey := fun key => signatures.any fun entry => entry.1 = key
  verifyStrict := fun key message sig => signatures.contains (key, message, sig)

def Hash256.digest [Crypto] (data : Bytes) : Hash256 := Crypto.blake3 data

/-- No two distinct byte strings of the list have the same digest. -/
def CollisionFree [Crypto] (hashed : List Bytes) : Prop :=
  ∀ left ∈ hashed, ∀ right ∈ hashed, Hash256.digest left = Hash256.digest right → left = right

instance [Crypto] (hashed : List Bytes) : Decidable (CollisionFree hashed) :=
  inferInstanceAs (Decidable (∀ left ∈ hashed, ∀ right ∈ hashed,
    Hash256.digest left = Hash256.digest right → left = right))

theorem CollisionFree.mono [Crypto] {few many : List Bytes} (free : CollisionFree many)
    (subset : few ⊆ many) : CollisionFree few :=
  fun left leftIn right rightIn => free left (subset leftIn) right (subset rightIn)

end Hashes

section Amounts

inductive QuantumError
  | overflow
  | underflow
  deriving DecidableEq, Repr

/-- An unsigned 128-bit amount. -/
structure Quantum where
  raw : Nat
  bound : raw < 2 ^ 128
  deriving DecidableEq, Repr

namespace Quantum

@[ext]
theorem ext {left right : Quantum} (same : left.raw = right.raw) : left = right := by
  cases left
  cases right
  simpa using same

/-- The low 128 bits of a number. -/
def fromRaw (value : Nat) : Quantum := ⟨value % 2 ^ 128, Nat.mod_lt _ (by decide)⟩

theorem raw_fromRaw {value : Nat} (fits : value < 2 ^ 128) : (fromRaw value).raw = value :=
  Nat.mod_eq_of_lt fits

def zero : Quantum := ⟨0, by decide⟩

def checkedAdd (left right : Quantum) : Except QuantumError Quantum :=
  if fits : left.raw + right.raw < 2 ^ 128 then .ok ⟨left.raw + right.raw, fits⟩
  else .error .overflow

def checkedSub (left right : Quantum) : Except QuantumError Quantum :=
  if right.raw ≤ left.raw then
    .ok ⟨left.raw - right.raw, Nat.lt_of_le_of_lt (Nat.sub_le _ _) left.bound⟩
  else .error .underflow

theorem checkedAdd_eq_ok_iff (left right sum : Quantum) :
    left.checkedAdd right = .ok sum ↔ left.raw + right.raw = sum.raw := by
  have bound := sum.bound
  unfold checkedAdd
  split
  · simp [Quantum.ext_iff]
  · simp only [reduceCtorEq, false_iff]
    omega

theorem checkedSub_eq_ok_iff (left right difference : Quantum) :
    left.checkedSub right = .ok difference ↔ left.raw = difference.raw + right.raw := by
  unfold checkedSub
  split
  · simp only [Except.ok.injEq, Quantum.ext_iff]
    omega
  · simp only [reduceCtorEq, false_iff]
    omega

def encodeCanonical (amount : Quantum) : Bytes := beBytes 16 amount.raw

def decodeFromCursor : Decoder CodecError Quantum := do
  let bytes ← Decoder.take .unexpectedEof 16
  pure (fromRaw (beValue bytes))

instance : CanonicalCodec Quantum := ⟨encodeCanonical, decodeFromCursor⟩

theorem length_encodeCanonical (amount : Quantum) : amount.encodeCanonical.length = 16 := by
  simp [encodeCanonical]

theorem canonical : Canonical decodeFromCursor encodeCanonical (fun _ => True) := by
  refine Canonical.fixed length_encodeCanonical (fun amount => ?_) (fun bytes width => ?_)
  · have bound : amount.raw < 256 ^ 16 := amount.bound
    ext
    rw [encodeCanonical, beValue_beBytes_of_lt bound, raw_fromRaw amount.bound]
  · have bound := beValue_lt bytes
    have digits := beBytes_beValue bytes
    rw [width] at bound digits
    rw [encodeCanonical, raw_fromRaw bound, digits]

end Quantum

end Amounts

end Aurion
