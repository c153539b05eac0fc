import Aurion.Core.Sighash
import Aurion.Network.Frame
import Aurion.Rpc.Protocol

/-!
# Blocks and transactions in network frames

What the remote interface accepts fits into a frame and is read back from it
unchanged.  In the other direction a frame is the packed one only if it is tight.
-/

namespace Aurion

open Foundation

section Definition

variable [Crypto]

/-- Read a frame that has to carry a value under the given command. -/
def decodeFrame (command : String) {Value : Type} [CanonicalCodec Value] (raw : Bytes) :
    Except NetworkError Value := do
  let (cmd, payload) ← unpackFrame raw
  ensure (cmd = command)
    (.codecError ("expected '" ++ command ++ "' command, got '" ++ cmd ++ "'"))
  (decodeCanonical payload).mapError fun error => .codecError error.message

namespace GossipEngine

def decodeBlockFrame (raw : Bytes) : Except NetworkError Block := decodeFrame "block" raw

def decodeTxFrame (raw : Bytes) : Except NetworkError Transaction := decodeFrame "tx" raw

end GossipEngine

end Definition

section Frames

variable [Crypto] {Value : Type} [CanonicalCodec Value] {valid : Value → Prop}

theorem decodeFrame_eq_ok_iff
    (canonical : Canonical (CanonicalCodec.decodeFromCursor : Decoder CodecError Value)
      CanonicalCodec.encodeCanonical valid) (command : String) (raw : Bytes) (value : Value) :
    decodeFrame command raw = .ok value ↔
      valid value ∧ unpackFrame raw = .ok (command, CanonicalCodec.encodeCanonical value) := by
  simp only [decodeFrame, except_bind_eq_ok_iff, ensure_eq_ok_iff, exists_const,
    mapError_eq_ok_iff, decodeCanonical_eq_ok_iff canonical]
  constructor
  · intro read
    obtain ⟨⟨cmd, payload⟩, unpacked, rfl, isValid, rfl⟩ := read
    exact ⟨isValid, unpacked⟩
  · intro both
    obtain ⟨isValid, unpacked⟩ := both
    exact ⟨_, unpacked, rfl, isValid, rfl⟩

theorem decodeFrame_eq_error_of_ne {command cmd : String} {raw payload : Bytes}
    (unpacked : unpackFrame raw = .ok (cmd, payload)) (other : cmd ≠ command) :
    (decodeFrame command raw : Except NetworkError Value) =
      .error (.codecError ("expected '" ++ command ++ "' command, got '" ++ cmd ++ "'")) := by
  simp only [decodeFrame, unpacked, except_ok_bind, ensure, if_neg other, except_error_bind]

/-- The frame carries the value and no other one in its place. -/
structure CarriesUnchanged {Other : Type} (frame payload : Bytes)
    (decode : Bytes → Except NetworkError Value) (value : Value)
    (decodeOther : Bytes → Except NetworkError Other) : Prop where
  decoded : decode frame = .ok value
  rejected : ∃ error, decodeOther frame = .error error
  covered : ∀ replacement, replacement.length = payload.length → replacement ≠ payload →
    unpackFrame (frame.take headerSize ++ replacement) = .error .checksumMismatch ∨
      Hash256.digest replacement = Hash256.digest payload

/-- Replaced payload bytes are noticed unless they collide. -/
theorem unpackFrame_replaced {command : String} {payload frame replacement : Bytes}
    (packed : packFrame command payload = .ok frame)
    (noZero : ∀ byte ∈ utf8Bytes command, byte ≠ 0)
    (sameLength : replacement.length = payload.length)
    (differs : Hash256.digest replacement ≠ Hash256.digest payload) :
    unpackFrame (frame.take headerSize ++ replacement) = .error .checksumMismatch := by
  obtain ⟨short, small, rfl⟩ := (packFrame_eq_ok_iff _ _ _).mp packed
  have width := length_padCommand short
  have sized := sized_partsOf width payload replacement
  have replaced : (frameBytes (padCommand command) payload).take headerSize ++ replacement =
      (partsOf (padCommand command) payload replacement).bytes := by
    have header : (magicBytes ++ (padCommand command ++
        (u32ToBeBytes (UInt32.ofNat payload.length) ++
          (Hash256.digest payload).asBytes))).length = headerSize := by
      simp [magicBytes, width, Hash256.size, headerSize]
    have cut : frameBytes (padCommand command) payload = (magicBytes ++ (padCommand command ++
        (u32ToBeBytes (UInt32.ofNat payload.length) ++ (Hash256.digest payload).asBytes))) ++
          payload := by
      simp [frameBytes]
    rw [cut, List.take_left' header]
    simp [FrameParts.bytes, partsOf]
  rw [replaced]
  apply unpackFrame_checksumMismatch sized rfl (takeWhile_padCommand noZero)
  · rw [partsOf, length_declared small, sameLength]
  · exact sameLength.trans_le small
  · exact fun same => differs (Hash256.ext same)

/-- A value whose encoding is small enough travels unchanged. -/
theorem carriesUnchanged {Other : Type} [CanonicalCodec Other] {command other : String}
    (canonical : Canonical (CanonicalCodec.decodeFromCursor : Decoder CodecError Value)
      CanonicalCodec.encodeCanonical valid)
    (short : (utf8Bytes command).length ≤ commandSize)
    (noZero : ∀ byte ∈ utf8Bytes command, byte ≠ 0) (distinct : command ≠ other)
    {value : Value} (isValid : valid value)
    (small : (CanonicalCodec.encodeCanonical value).length ≤ maxPayloadSize) :
    ∃ frame, packFrame command (CanonicalCodec.encodeCanonical value) = .ok frame ∧
      CarriesUnchanged frame (CanonicalCodec.encodeCanonical value) (decodeFrame command) value
        (decodeFrame other : Bytes → Except NetworkError Other) := by
  have packed : packFrame command (CanonicalCodec.encodeCanonical value) =
      .ok (frameBytes (padCommand command) (CanonicalCodec.encodeCanonical value)) :=
    (packFrame_eq_ok_iff _ _ _).mpr ⟨short, small, rfl⟩
  have unpacked := unpackFrame_of_packFrame packed noZero
  refine ⟨_, packed, ?_, ⟨_, decodeFrame_eq_error_of_ne unpacked distinct⟩, ?_⟩
  · exact (decodeFrame_eq_ok_iff canonical _ _ _).mpr ⟨isValid, unpacked⟩
  · intro replacement sameLength _
    by_cases collision : Hash256.digest replacement =
        Hash256.digest (CanonicalCodec.encodeCanonical value)
    · exact Or.inr collision
    · exact Or.inl (unpackFrame_replaced packed noZero sameLength collision)

end Frames

section Gossip

variable [Crypto]

open GossipEngine

/-- Whatever the remote interface accepts as a block or a transaction travels
unchanged in a network frame. -/
theorem accepted_requests_gossip (bytes : Bytes) (fits : bytes.length ≤ maxRpcFrameSize) :
    (∀ block, decodeCanonical bytes = .ok (RpcRequest.submitBlock block) →
      ∃ frame, packFrame "block" block.encodeCanonical = .ok frame ∧
        CarriesUnchanged frame block.encodeCanonical decodeBlockFrame block decodeTxFrame) ∧
    ∀ tx, decodeCanonical bytes = .ok (RpcRequest.sendRawTransaction tx) →
      ∃ frame, packFrame "tx" tx.encodeCanonical = .ok frame ∧
        CarriesUnchanged frame tx.encodeCanonical decodeTxFrame tx decodeBlockFrame := by
  have shorter {request : RpcRequest} (encoded : bytes = request.encodeCanonical) :
      request.payload.length ≤ maxPayloadSize := by
    rw [encoded, RpcRequest.encodeCanonical, List.length_cons, maxRpcFrameSize] at fits
    rw [maxPayloadSize]
    omega
  constructor
  · intro block decoded
    obtain ⟨wellFormed, encoded⟩ :=
      (decodeCanonical_eq_ok_iff RpcRequest.canonical _ _).mp decoded
    exact carriesUnchanged Block.canonical (by decide +kernel) (by decide +kernel)
      (by decide +kernel) wellFormed (shorter encoded)
  · intro tx decoded
    obtain ⟨wellFormed, encoded⟩ :=
      (decodeCanonical_eq_ok_iff RpcRequest.canonical _ _).mp decoded
    exact carriesUnchanged Transaction.canonical (by decide +kernel) (by decide +kernel)
      (by decide +kernel) wellFormed (shorter encoded)

/-- A byte string from which a block or a transaction is read is its frame exactly
when it is tight. -/
theorem frames_canonical :
    (∀ raw block, decodeBlockFrame raw = .ok block →
      (packFrame "block" block.encodeCanonical = .ok raw ↔ Tight raw)) ∧
    ∀ raw tx, decodeTxFrame raw = .ok tx →
      (packFrame "tx" tx.encodeCanonical = .ok raw ↔ Tight raw) := by
  constructor
  · intro raw block decoded
    exact packFrame_eq_iff_tight
      ((decodeFrame_eq_ok_iff Block.canonical _ _ _).mp decoded).2
  · intro raw tx decoded
    exact packFrame_eq_iff_tight
      ((decodeFrame_eq_ok_iff Transaction.canonical _ _ _).mp decoded).2

end Gossip

section Sample

open GossipEngine

attribute [local instance] Sample.unlockedCrypto

/-- The frame of a transaction with the given bytes in its command field. -/
def Sample.txFrame (cmdBytes : Bytes) : Bytes :=
  frameBytes cmdBytes (Sample.unlockedBy [0x51]).encodeCanonical

theorem accepted_requests_gossip_unlockedBy :
    ∃ frame, packFrame "tx" (Sample.unlockedBy [0x51]).encodeCanonical = .ok frame ∧
      CarriesUnchanged frame (Sample.unlockedBy [0x51]).encodeCanonical decodeTxFrame
        (Sample.unlockedBy [0x51]) decodeBlockFrame :=
  (accepted_requests_gossip
    (RpcRequest.sendRawTransaction (Sample.unlockedBy [0x51])).encodeCanonical
    (by decide +kernel)).2 _ (by decide +kernel)

/-- A byte behind the payload and a byte behind the command's first zero are both
accepted, so a transaction has more than one frame. -/
theorem frames_malleable :
    decodeTxFrame (Sample.txFrame (padCommand "tx") ++ [0]) = .ok (Sample.unlockedBy [0x51]) ∧
      decodeTxFrame (Sample.txFrame ((padCommand "tx").take 11 ++ [1])) =
        .ok (Sample.unlockedBy [0x51]) ∧
      ¬ ∀ raw tx, decodeTxFrame raw = .ok tx → packFrame "tx" tx.encodeCanonical = .ok raw := by
  have trailing : decodeTxFrame (Sample.txFrame (padCommand "tx") ++ [0]) =
      .ok (Sample.unlockedBy [0x51]) := by
    decide +kernel
  refine ⟨trailing, by decide +kernel, fun claimed => ?_⟩
  exact absurd (claimed _ _ trailing) (by decide +kernel)

end Sample

end Aurion
