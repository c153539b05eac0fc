import Aurion.Primitives

/-!
# Transactions and their byte format

Outpoints, datums, inputs, outputs and transactions, each with its writer, its
cursor reader and the proof that the reader accepts exactly the writer's
output on well-formed values.
-/

namespace Aurion

open Foundation

def maxDatumSize : Nat := 520

def maxRedeemerSize : Nat := 520

def encodeVecBytes (bytes : Bytes) : Bytes :=
  u32ToBeBytes (UInt32.ofNat bytes.length) ++ bytes

def decodeVecBytes : Decoder CodecError Bytes := do
  let len ← decodeU32
  Decoder.take .unexpectedEof len.toNat

/-- Bytes behind a two-byte length, refused with the given text above a limit:
the payload of an inline datum and of a redeemer. -/
def encodeShortBytes (bytes : Bytes) : Bytes :=
  u16ToBeBytes (UInt16.ofNat bytes.length) ++ bytes

def decodeShortBytes (limit : Nat) (message : String) : Decoder CodecError Bytes := do
  let len ← decodeU16
  if len.toNat > limit then throw (.invalidData message)
  else Decoder.take .unexpectedEof len.toNat

structure OutPoint where
  txid : Hash256
  vout : UInt32
  deriving DecidableEq, Repr

namespace OutPoint

def encodeCanonical (outpoint : OutPoint) : Bytes :=
  outpoint.txid.asBytes ++ u32ToBeBytes outpoint.vout

def decodeFromCursor : Decoder CodecError OutPoint := do
  let txid ← Hash256.decodeFromCursor
  let vout ← decodeU32
  pure { txid, vout }

instance : CanonicalCodec OutPoint := ⟨encodeCanonical, decodeFromCursor⟩

def toText (outpoint : OutPoint) : String :=
  outpoint.txid.toHex ++ ":" ++ toString outpoint.vout

end OutPoint

inductive Datum
  | none
  | hash (commitment : Hash256)
  | inline (data : Bytes)
  deriving DecidableEq, Repr

namespace Datum

def encodeCanonical : Datum → Bytes
  | .none => [0x00]
  | .hash commitment => 0x01 :: commitment.asBytes
  | .inline data => 0x02 :: encodeShortBytes data

def decodeFromCursor : Decoder CodecError Datum := do
  let tag ← decodeByte
  if tag = 0x00 then
    pure .none
  else if tag = 0x01 then
    let commitment ← Hash256.decodeFromCursor
    pure (.hash commitment)
  else if tag = 0x02 then
    let data ← decodeShortBytes maxDatumSize "datum payload exceeds 520 bytes limit"
    pure (.inline data)
  else
    throw (.invalidData ("invalid datum tag: " ++ hexByte tag))

instance : CanonicalCodec Datum := ⟨encodeCanonical, decodeFromCursor⟩

end Datum

structure TxInput where
  previousOutput : OutPoint
  unlockingScript : Bytes
  sequence : UInt32
  redeemer : Option Bytes
  deriving DecidableEq, Repr

namespace TxInput

def encodeRedeemer : Option Bytes → Bytes
  | none => [0x00]
  | some bytes => 0x01 :: encodeShortBytes bytes

def decodeRedeemer : Decoder CodecError (Option Bytes) := do
  let tag ← decodeByte
  if tag = 0x00 then
    pure none
  else if tag = 0x01 then
    let data ← decodeShortBytes maxRedeemerSize "redeemer payload exceeds 520 bytes limit"
    pure (some data)
  else
    throw (.invalidData ("invalid redeemer tag: " ++ hexByte tag))

def encodeCanonical (input : TxInput) : Bytes :=
  input.previousOutput.encodeCanonical ++ encodeVecBytes input.unlockingScript ++
    u32ToBeBytes input.sequence ++ encodeRedeemer input.redeemer

def decodeFromCursor : Decoder CodecError TxInput := do
  let previousOutput ← OutPoint.decodeFromCursor
  let unlockingScript ← decodeVecBytes
  let sequence ← decodeU32
  let redeemer ← decodeRedeemer
  pure { previousOutput, unlockingScript, sequence, redeemer }

instance : CanonicalCodec TxInput := ⟨encodeCanonical, decodeFromCursor⟩

end TxInput

structure TxOutput where
  value : Quantum
  lockingScript : Bytes
  datum : Datum
  deriving DecidableEq, Repr

namespace TxOutput

def encodeCanonical (output : TxOutput) : Bytes :=
  output.value.encodeCanonical ++ encodeVecBytes output.lockingScript ++
    output.datum.encodeCanonical

def decodeFromCursor : Decoder CodecError TxOutput := do
  let value ← Quantum.decodeFromCursor
  let lockingScript ← decodeVecBytes
  let datum ← Datum.decodeFromCursor
  pure { value, lockingScript, datum }

instance : CanonicalCodec TxOutput := ⟨encodeCanonical, decodeFromCursor⟩

end TxOutput

structure Transaction where
  version : UInt32
  inputs : List TxInput
  outputs : List TxOutput
  locktime : UInt64
  deriving DecidableEq, Repr

namespace Transaction

def encodeCanonical (tx : Transaction) : Bytes :=
  u32ToBeBytes tx.version ++
    u32ToBeBytes (UInt32.ofNat tx.inputs.length) ++
    tx.inputs.flatMap TxInput.encodeCanonical ++
    u32ToBeBytes (UInt32.ofNat tx.outputs.length) ++
    tx.outputs.flatMap TxOutput.encodeCanonical ++
    u64ToBeBytes tx.locktime

def decodeFromCursor : Decoder CodecError Transaction := do
  let version ← decodeU32
  let inLen ← decodeU32
  let inputs ← TxInput.decodeFromCursor.times inLen.toNat
  let outLen ← decodeU32
  let outputs ← TxOutput.decodeFromCursor.times outLen.toNat
  let locktime ← decodeU64
  pure { version, inputs, outputs, locktime }

instance : CanonicalCodec Transaction := ⟨encodeCanonical, decodeFromCursor⟩

def txid [Crypto] (tx : Transaction) : Hash256 := Hash256.digest tx.encodeCanonical

/-- A coinbase has exactly one input, and that input refers to the zero hash. -/
def isCoinbase (tx : Transaction) : Bool :=
  match tx.inputs with
  | [input] => decide (input.previousOutput.txid = Hash256.zero)
  | _ => false

def clearUnlockingScripts (tx : Transaction) : Transaction :=
  { tx with inputs := tx.inputs.map fun input => { input with unlockingScript := [] } }

def sighashPreimage (tx : Transaction) (inputIndex : Nat) : Bytes :=
  tx.clearUnlockingScripts.encodeCanonical ++ u32ToBeBytes (UInt32.ofNat inputIndex)

def sighash [Crypto] (tx : Transaction) (inputIndex : Nat) : Hash256 :=
  Hash256.digest (tx.sighashPreimage inputIndex)

end Transaction

/-- No two different transactions of the list share an id. -/
def DistinctIds [Crypto] (txs : List Transaction) : Prop :=
  ∀ left ∈ txs, ∀ right ∈ txs, left.txid = right.txid → left = right

instance [Crypto] (txs : List Transaction) : Decidable (DistinctIds txs) :=
  inferInstanceAs (Decidable (∀ left ∈ txs, ∀ right ∈ txs, left.txid = right.txid → left = right))

theorem DistinctIds.mono [Crypto] {few many : List Transaction} (distinct : DistinctIds many)
    (subset : few ⊆ many) : DistinctIds few :=
  fun left leftIn right rightIn => distinct left (subset leftIn) right (subset rightIn)

section WellFormed

/-- The lengths a datum can have on the wire. -/
def Datum.WellFormed : Datum → Prop
  | .inline data => data.length ≤ maxDatumSize
  | _ => True

instance : DecidablePred Datum.WellFormed := fun datum => by
  cases datum <;> unfold Datum.WellFormed <;> infer_instance

structure TxInput.WellFormed (input : TxInput) : Prop where
  unlockingScript : input.unlockingScript.length < 2 ^ 32
  redeemer : ∀ bytes, input.redeemer = some bytes → bytes.length ≤ maxRedeemerSize

structure TxOutput.WellFormed (output : TxOutput) : Prop where
  lockingScript : output.lockingScript.length < 2 ^ 32
  datum : output.datum.WellFormed

structure Transaction.WellFormed (tx : Transaction) : Prop where
  inputCount : tx.inputs.length < 2 ^ 32
  inputs : ∀ input ∈ tx.inputs, input.WellFormed
  outputCount : tx.outputs.length < 2 ^ 32
  outputs : ∀ output ∈ tx.outputs, output.WellFormed

theorem TxInput.wellFormed_iff (input : TxInput) :
    input.WellFormed ↔ input.unlockingScript.length < 2 ^ 32 ∧
      (input.redeemer.all fun bytes => bytes.length ≤ maxRedeemerSize) = true := by
  constructor
  · intro bounds
    rcases bounds with ⟨unlockingScript, redeemer⟩
    refine ⟨unlockingScript, ?_⟩
    cases given : input.redeemer with
    | none => rfl
    | some bytes => simpa using redeemer bytes given
  · intro bounds
    rcases bounds with ⟨unlockingScript, redeemer⟩
    refine ⟨unlockingScript, fun bytes given => ?_⟩
    simpa [given] using redeemer

instance (input : TxInput) : Decidable input.WellFormed :=
  decidable_of_iff _ input.wellFormed_iff.symm

instance (output : TxOutput) : Decidable output.WellFormed :=
  decidable_of_iff (output.lockingScript.length < 2 ^ 32 ∧ output.datum.WellFormed)
    ⟨fun both => ⟨both.1, both.2⟩, fun both => ⟨both.1, both.2⟩⟩

instance (tx : Transaction) : Decidable tx.WellFormed :=
  decidable_of_iff ((tx.inputs.length < 2 ^ 32 ∧ ∀ input ∈ tx.inputs, input.WellFormed) ∧
      tx.outputs.length < 2 ^ 32 ∧ ∀ output ∈ tx.outputs, output.WellFormed)
    ⟨fun all => ⟨all.1.1, all.1.2, all.2.1, all.2.2⟩,
      fun all => ⟨⟨all.inputCount, all.inputs⟩, all.outputCount, all.outputs⟩⟩

end WellFormed

section Canonicity

theorem toNat_ofNat_of_lt_u32 {value : Nat} (fits : value < 2 ^ 32) :
    (UInt32.ofNat value).toNat = value := UInt32.toNat_ofNat_of_lt' fits

theorem decodeVecBytes_canonical :
    Canonical decodeVecBytes encodeVecBytes (fun bytes => bytes.length < 2 ^ 32) where
  eq_ok_iff := by
    intro cursor bytes rest
    simp only [decodeVecBytes, Decoder.bind_eq_ok_iff, decodeU32_canonical.eq_ok_iff,
      Decoder.take_eq_ok_iff, true_and]
    constructor
    · intro read
      rcases read with ⟨len, _, rfl, length, rfl⟩
      have bound := len.toNat_lt
      refine ⟨length ▸ bound, ?_⟩
      rw [encodeVecBytes, length, UInt32.ofNat_toNat, List.append_assoc]
    · intro encoded
      rcases encoded with ⟨bound, rfl⟩
      refine ⟨UInt32.ofNat bytes.length, bytes ++ rest, ?_, ?_, rfl⟩
      · rw [encodeVecBytes, List.append_assoc]
      · rw [toNat_ofNat_of_lt_u32 bound]

theorem decodeShortBytes_canonical (limit : Nat) (small : limit < 2 ^ 16) (message : String) :
    Canonical (decodeShortBytes limit message) encodeShortBytes
      (fun bytes => bytes.length ≤ limit) where
  eq_ok_iff := by
    intro cursor bytes rest
    simp only [decodeShortBytes, Decoder.bind_eq_ok_iff, decodeU16_canonical.eq_ok_iff, true_and]
    constructor
    · intro read
      rcases read with ⟨len, _, rfl, ran⟩
      split at ran
      · exact absurd ran (Decoder.throw_ne_ok _ _ _ _)
      · rw [Decoder.take_eq_ok_iff] at ran
        rcases ran with ⟨length, rfl⟩
        refine ⟨by omega, ?_⟩
        rw [encodeShortBytes, length, UInt16.ofNat_toNat, List.append_assoc]
    · intro encoded
      rcases encoded with ⟨bound, rfl⟩
      have width : (UInt16.ofNat bytes.length).toNat = bytes.length :=
        UInt16.toNat_ofNat_of_lt' (Nat.lt_of_le_of_lt bound small)
      refine ⟨UInt16.ofNat bytes.length, bytes ++ rest, ?_, ?_⟩
      · rw [encodeShortBytes, List.append_assoc]
      · rw [if_neg (by omega), Decoder.take_eq_ok_iff]
        exact ⟨width.symm, rfl⟩

theorem OutPoint.canonical :
    Canonical OutPoint.decodeFromCursor OutPoint.encodeCanonical (fun _ => True) where
  eq_ok_iff := by
    intro cursor outpoint rest
    simp only [OutPoint.decodeFromCursor, Decoder.bind_eq_ok_iff, Decoder.pure_eq_ok_iff,
      Hash256.canonical.eq_ok_iff, decodeU32_canonical.eq_ok_iff, true_and]
    constructor
    · intro read
      rcases read with ⟨txid, _, rfl, vout, _, rfl, rfl, rfl⟩
      simp [OutPoint.encodeCanonical, Hash256.encodeCanonical]
    · rintro rfl
      exact ⟨_, _, by rw [OutPoint.encodeCanonical, List.append_assoc]; rfl, _, _, rfl, rfl, rfl⟩

theorem Datum.canonical :
    Canonical Datum.decodeFromCursor Datum.encodeCanonical Datum.WellFormed where
  eq_ok_iff := by
    intro cursor datum rest
    have inline := decodeShortBytes_canonical maxDatumSize (by decide)
      "datum payload exceeds 520 bytes limit"
    simp only [Datum.decodeFromCursor, Decoder.bind_eq_ok_iff, decodeByte_eq_ok_iff]
    constructor
    · intro read
      rcases read with ⟨tag, middle, rfl, ran⟩
      split at ran
      next isNone =>
          rw [Decoder.pure_eq_ok_iff] at ran
          rcases ran with ⟨rfl, rfl⟩
          exact ⟨trivial, by rw [isNone]; rfl⟩
      next =>
        split at ran
        next isHash =>
            simp only [Decoder.bind_eq_ok_iff, Decoder.pure_eq_ok_iff,
              Hash256.canonical.eq_ok_iff] at ran
            rcases ran with ⟨commitment, _, ⟨-, rfl⟩, rfl, rfl⟩
            exact ⟨trivial, by rw [isHash]; rfl⟩
        next =>
          split at ran
          next isInline =>
              simp only [Decoder.bind_eq_ok_iff, Decoder.pure_eq_ok_iff, inline.eq_ok_iff] at ran
              rcases ran with ⟨data, _, ⟨bound, rfl⟩, rfl, rfl⟩
              exact ⟨bound, by rw [isInline]; rfl⟩
          next => exact absurd ran (Decoder.throw_ne_ok _ _ _ _)
    · intro encoded
      rcases encoded with ⟨wellFormed, rfl⟩
      cases datum with
      | none => exact ⟨0x00, rest, rfl, by simp⟩
      | hash commitment =>
          refine ⟨0x01, commitment.asBytes ++ rest, rfl, ?_⟩
          simp only [show (0x01 : UInt8) ≠ 0x00 by decide, if_false, if_true,
            Decoder.bind_eq_ok_iff, Decoder.pure_eq_ok_iff, Hash256.canonical.eq_ok_iff, true_and]
          exact ⟨commitment, rest, rfl, rfl, rfl⟩
      | inline data =>
          refine ⟨0x02, encodeShortBytes data ++ rest, rfl, ?_⟩
          simp only [show (0x02 : UInt8) ≠ 0x00 by decide, show (0x02 : UInt8) ≠ 0x01 by decide,
            if_false, if_true, Decoder.bind_eq_ok_iff, Decoder.pure_eq_ok_iff, inline.eq_ok_iff]
          exact ⟨data, rest, ⟨wellFormed, rfl⟩, rfl, rfl⟩

theorem TxInput.redeemer_canonical :
    Canonical TxInput.decodeRedeemer TxInput.encodeRedeemer
      (fun redeemer => ∀ bytes, redeemer = some bytes → bytes.length ≤ maxRedeemerSize) where
  eq_ok_iff := by
    intro cursor redeemer rest
    have payload := decodeShortBytes_canonical maxRedeemerSize (by decide)
      "redeemer payload exceeds 520 bytes limit"
    simp only [TxInput.decodeRedeemer, Decoder.bind_eq_ok_iff, decodeByte_eq_ok_iff]
    constructor
    · intro read
      rcases read with ⟨tag, middle, rfl, ran⟩
      split at ran
      next isNone =>
          rw [Decoder.pure_eq_ok_iff] at ran
          rcases ran with ⟨rfl, rfl⟩
          exact ⟨by simp, by rw [isNone]; rfl⟩
      next =>
        split at ran
        next isSome =>
            simp only [Decoder.bind_eq_ok_iff, Decoder.pure_eq_ok_iff, payload.eq_ok_iff] at ran
            rcases ran with ⟨data, _, ⟨bound, rfl⟩, rfl, rfl⟩
            refine ⟨?_, by rw [isSome]; rfl⟩
            rintro bytes ⟨⟩
            exact bound
        next => exact absurd ran (Decoder.throw_ne_ok _ _ _ _)
    · intro encoded
      rcases encoded with ⟨wellFormed, rfl⟩
      cases redeemer with
      | none => exact ⟨0x00, rest, rfl, by simp⟩
      | some bytes =>
          refine ⟨0x01, encodeShortBytes bytes ++ rest, rfl, ?_⟩
          simp only [show (0x01 : UInt8) ≠ 0x00 by decide, if_false, if_true,
            Decoder.bind_eq_ok_iff, Decoder.pure_eq_ok_iff, payload.eq_ok_iff]
          exact ⟨bytes, rest, ⟨wellFormed bytes rfl, rfl⟩, rfl, rfl⟩

theorem TxInput.canonical :
    Canonical TxInput.decodeFromCursor TxInput.encodeCanonical TxInput.WellFormed where
  eq_ok_iff := by
    intro cursor input rest
    simp only [TxInput.decodeFromCursor, Decoder.bind_eq_ok_iff, Decoder.pure_eq_ok_iff,
      OutPoint.canonical.eq_ok_iff, decodeVecBytes_canonical.eq_ok_iff,
      decodeU32_canonical.eq_ok_iff, TxInput.redeemer_canonical.eq_ok_iff, true_and]
    constructor
    · intro read
      rcases read with ⟨previousOutput, _, rfl, unlockingScript, _, ⟨bound, rfl⟩, sequence, _, rfl,
        redeemer, _, ⟨redeemerBound, rfl⟩, rfl, rfl⟩
      exact ⟨⟨bound, redeemerBound⟩, by simp [TxInput.encodeCanonical]⟩
    · intro encoded
      rcases encoded with ⟨⟨bound, redeemerBound⟩, rfl⟩
      refine ⟨input.previousOutput, _, ?_, input.unlockingScript, _, ⟨bound, rfl⟩,
        input.sequence, _, rfl, input.redeemer, rest, ⟨redeemerBound, rfl⟩, rfl, rfl⟩
      simp [TxInput.encodeCanonical]

theorem TxOutput.canonical :
    Canonical TxOutput.decodeFromCursor TxOutput.encodeCanonical TxOutput.WellFormed where
  eq_ok_iff := by
    intro cursor output rest
    simp only [TxOutput.decodeFromCursor, Decoder.bind_eq_ok_iff, Decoder.pure_eq_ok_iff,
      Quantum.canonical.eq_ok_iff, decodeVecBytes_canonical.eq_ok_iff,
      Datum.canonical.eq_ok_iff, true_and]
    constructor
    · intro read
      rcases read with ⟨value, _, rfl, lockingScript, _, ⟨bound, rfl⟩, datum, _, ⟨datumValid, rfl⟩,
        rfl, rfl⟩
      exact ⟨⟨bound, datumValid⟩, by simp [TxOutput.encodeCanonical]⟩
    · intro encoded
      rcases encoded with ⟨⟨bound, datumValid⟩, rfl⟩
      refine ⟨output.value, _, ?_, output.lockingScript, _, ⟨bound, rfl⟩, output.datum, rest,
        ⟨datumValid, rfl⟩, rfl, rfl⟩
      simp [TxOutput.encodeCanonical]

theorem Transaction.canonical :
    Canonical Transaction.decodeFromCursor Transaction.encodeCanonical
      Transaction.WellFormed where
  eq_ok_iff := by
    intro cursor tx rest
    simp only [Transaction.decodeFromCursor, Decoder.bind_eq_ok_iff, Decoder.pure_eq_ok_iff,
      decodeU32_canonical.eq_ok_iff, decodeU64_canonical.eq_ok_iff,
      (TxInput.canonical.times _).eq_ok_iff, (TxOutput.canonical.times _).eq_ok_iff, true_and]
    constructor
    · intro read
      rcases read with ⟨version, _, rfl, inLen, _, rfl, inputs, _, ⟨⟨inCount, inputsValid⟩, rfl⟩,
        outLen, _, rfl, outputs, _, ⟨⟨outCount, outputsValid⟩, rfl⟩, locktime, _, rfl, rfl, rfl⟩
      have inBound := inLen.toNat_lt
      have outBound := outLen.toNat_lt
      refine ⟨⟨inCount ▸ inBound, inputsValid, outCount ▸ outBound, outputsValid⟩, ?_⟩
      simp [Transaction.encodeCanonical, inCount, outCount]
    · intro encoded
      rcases encoded with ⟨⟨inCount, inputsValid, outCount, outputsValid⟩, rfl⟩
      refine ⟨tx.version, _, ?_, UInt32.ofNat tx.inputs.length, _, rfl, tx.inputs, _,
        ⟨⟨(toNat_ofNat_of_lt_u32 inCount).symm, inputsValid⟩, rfl⟩,
        UInt32.ofNat tx.outputs.length, _, rfl, tx.outputs, _,
        ⟨⟨(toNat_ofNat_of_lt_u32 outCount).symm, outputsValid⟩, rfl⟩, tx.locktime, rest, rfl,
        rfl, rfl⟩
      simp [Transaction.encodeCanonical]

end Canonicity

end Aurion
