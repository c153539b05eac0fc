import Aurion.Core.Block
import Aurion.Foundation.Utf8

/-!
# Block templates and submission results on the wire

Each with its writer, its cursor reader and the proof that the reader accepts
exactly what the writer makes of well-formed values.
-/

namespace Aurion

open Foundation

structure BlockTemplate where
  height : UInt64
  previousBlockHash : Hash256
  target : Hash256
  timestamp : UInt64
  coinbaseSubsidy : Quantum
  totalFee : Quantum
  transactions : List Transaction
  deriving DecidableEq

namespace BlockTemplate

def encodeCanonical (tmpl : BlockTemplate) : Bytes :=
  u64ToBeBytes tmpl.height ++ tmpl.previousBlockHash.asBytes ++ tmpl.target.asBytes ++
    u64ToBeBytes tmpl.timestamp ++ tmpl.coinbaseSubsidy.encodeCanonical ++
    tmpl.totalFee.encodeCanonical ++ u32ToBeBytes (UInt32.ofNat tmpl.transactions.length) ++
    tmpl.transactions.flatMap Transaction.encodeCanonical

def decodeFromCursor : Decoder CodecError BlockTemplate := do
  let height ← decodeU64
  let previousBlockHash ← Hash256.decodeFromCursor
  let target ← Hash256.decodeFromCursor
  let timestamp ← decodeU64
  let coinbaseSubsidy ← Quantum.decodeFromCursor
  let totalFee ← Quantum.decodeFromCursor
  let txCount ← decodeU32
  let transactions ← Transaction.decodeFromCursor.times txCount.toNat
  pure { height, previousBlockHash, target, timestamp, coinbaseSubsidy, totalFee, transactions }

instance : CanonicalCodec BlockTemplate := ⟨encodeCanonical, decodeFromCursor⟩

theorem length_encodeCanonical (tmpl : BlockTemplate) :
    tmpl.encodeCanonical.length =
      116 + (tmpl.transactions.flatMap Transaction.encodeCanonical).length := by
  simp only [encodeCanonical, List.length_append, length_u64ToBeBytes, length_u32ToBeBytes,
    Hash256.size, Quantum.length_encodeCanonical]

structure WellFormed (tmpl : BlockTemplate) : Prop where
  transactionCount : tmpl.transactions.length < 2 ^ 32
  transactions : ∀ tx ∈ tmpl.transactions, tx.WellFormed

theorem canonical : Canonical decodeFromCursor encodeCanonical WellFormed where
  eq_ok_iff := by
    intro cursor tmpl rest
    simp only [decodeFromCursor, Decoder.bind_eq_ok_iff, Decoder.pure_eq_ok_iff,
      decodeU64_canonical.eq_ok_iff, Hash256.canonical.eq_ok_iff, Quantum.canonical.eq_ok_iff,
      decodeU32_canonical.eq_ok_iff, (Transaction.canonical.times _).eq_ok_iff, true_and]
    constructor
    · intro read
      obtain ⟨height, _, rfl, previousBlockHash, _, rfl, target, _, rfl, timestamp, _, rfl,
        coinbaseSubsidy, _, rfl, totalFee, _, rfl, txCount, _, rfl, transactions, _,
        ⟨⟨count, valid⟩, rfl⟩, rfl, rfl⟩ := read
      have bound := txCount.toNat_lt
      exact ⟨⟨count ▸ bound, valid⟩, by simp [encodeCanonical, Hash256.encodeCanonical, count]⟩
    · intro encoded
      obtain ⟨⟨count, valid⟩, rfl⟩ := encoded
      refine ⟨tmpl.height, _, ?_, tmpl.previousBlockHash, _, rfl, tmpl.target, _, rfl,
        tmpl.timestamp, _, rfl, tmpl.coinbaseSubsidy, _, rfl, tmpl.totalFee, _, rfl,
        UInt32.ofNat tmpl.transactions.length, _, rfl, tmpl.transactions, rest,
        ⟨⟨(toNat_ofNat_of_lt_u32 count).symm, valid⟩, rfl⟩, rfl, rfl⟩
      simp [encodeCanonical, Hash256.encodeCanonical]

end BlockTemplate

def encodeString (text : String) : Bytes := encodeVecBytes (utf8Bytes text)

/-- A length and as many bytes, which have to be a string. -/
def decodeString : Decoder CodecError String := do
  let bytes ← decodeVecBytes
  match utf8String? bytes with
  | some text => pure text
  | none => throw (.invalidData ("invalid UTF-8: " ++ utf8Error bytes))

theorem decodeString_canonical :
    Canonical decodeString encodeString (fun text => (utf8Bytes text).length < 2 ^ 32) where
  eq_ok_iff := by
    intro cursor text rest
    simp only [decodeString, Decoder.bind_eq_ok_iff, decodeVecBytes_canonical.eq_ok_iff]
    constructor
    · intro read
      obtain ⟨bytes, _, ⟨bound, rfl⟩, ran⟩ := read
      cases found : utf8String? bytes with
      | none =>
          rw [found] at ran
          exact absurd ran (Decoder.throw_ne_ok _ _ _ _)
      | some text' =>
          rw [found, Decoder.pure_eq_ok_iff] at ran
          obtain ⟨rfl, rfl⟩ := ran
          obtain rfl := (utf8String?_eq_some_iff _ _).mp found
          exact ⟨bound, rfl⟩
    · intro encoded
      obtain ⟨bound, rfl⟩ := encoded
      refine ⟨utf8Bytes text, rest, ⟨bound, rfl⟩, ?_⟩
      rw [(utf8String?_eq_some_iff _ text).mpr rfl]
      exact (Decoder.pure_eq_ok_iff _ _ _ _).mpr ⟨rfl, rfl⟩

namespace Rpc

/-- A submission result as it is written, with the text of the reason. -/
inductive SubmitResult
  | accepted (blockHash : Hash256) (height : UInt64)
  | rejected (reason : String)
  deriving DecidableEq

namespace SubmitResult

def tag : SubmitResult → UInt8
  | .accepted _ _ => 0x00
  | .rejected _ => 0x01

def payload : SubmitResult → Bytes
  | .accepted blockHash height => blockHash.asBytes ++ u64ToBeBytes height
  | .rejected reason => encodeString reason

def encodeCanonical (result : SubmitResult) : Bytes := result.tag :: result.payload

def decodeBody (tag : UInt8) : Decoder CodecError SubmitResult :=
  match tag with
  | 0x00 => do
      let blockHash ← Hash256.decodeFromCursor
      let height ← decodeU64
      pure (.accepted blockHash height)
  | 0x01 => do
      let reason ← decodeString
      pure (.rejected reason)
  | other => throw (.invalidData ("invalid SubmitResult tag: " ++ hexByte other))

def decodeFromCursor : Decoder CodecError SubmitResult := decodeByte >>= decodeBody

instance : CanonicalCodec SubmitResult := ⟨encodeCanonical, decodeFromCursor⟩

def WellFormed : SubmitResult → Prop
  | .accepted _ _ => True
  | .rejected reason => (utf8Bytes reason).length < 2 ^ 32

theorem canonical : Canonical decodeFromCursor encodeCanonical WellFormed := by
  apply decodeTagged_canonical
  intro byte cursor result rest
  unfold decodeBody
  split
  · simp only [Decoder.bind_eq_ok_iff, Hash256.canonical.eq_ok_iff,
      decodeU64_canonical.build_eq_ok_iff, true_and]
    cases result <;> simp [tag, payload, WellFormed, Hash256.encodeCanonical]
  · rw [decodeString_canonical.build_eq_ok_iff]
    cases result <;> simp [tag, payload, WellFormed]
  next notAccepted notRejected =>
    simp only [Decoder.throw_ne_ok, false_iff]
    rintro ⟨rfl, -⟩
    cases result <;> simp [tag] at notAccepted notRejected

end SubmitResult

end Rpc

end Aurion
