import Aurion.Rpc.Template

/-!
# Requests and responses on the wire

A message is a one-byte tag and the fields of its kind.  Both formats are exact:
the readers accept precisely what the writers make of well-formed messages.
-/

namespace Aurion

open Foundation

/-- The largest payload of an RPC frame. -/
def maxRpcFrameSize : Nat := 4 * 1024 * 1024

inductive RpcRequest
  | getBlockTemplate (payoutAddress : Bytes)
  | submitBlock (block : Block)
  | sendRawTransaction (tx : Transaction)
  | getTipStatus
  deriving DecidableEq

namespace RpcRequest

def tag : RpcRequest → UInt8
  | .getBlockTemplate _ => 0x00
  | .submitBlock _ => 0x01
  | .sendRawTransaction _ => 0x02
  | .getTipStatus => 0x03

def payload : RpcRequest → Bytes
  | .getBlockTemplate payoutAddress => encodeVecBytes payoutAddress
  | .submitBlock block => block.encodeCanonical
  | .sendRawTransaction tx => tx.encodeCanonical
  | .getTipStatus => []

def encodeCanonical (request : RpcRequest) : Bytes := request.tag :: request.payload

def decodeBody (tag : UInt8) : Decoder CodecError RpcRequest :=
  match tag with
  | 0x00 => do
      let payoutAddress ← decodeVecBytes
      pure (.getBlockTemplate payoutAddress)
  | 0x01 => do
      let block ← Block.decodeFromCursor
      pure (.submitBlock block)
  | 0x02 => do
      let tx ← Transaction.decodeFromCursor
      pure (.sendRawTransaction tx)
  | 0x03 => pure .getTipStatus
  | other => throw (.invalidData ("invalid RpcRequest tag: " ++ hexByte other))

def decodeFromCursor : Decoder CodecError RpcRequest := decodeByte >>= decodeBody

instance : CanonicalCodec RpcRequest := ⟨encodeCanonical, decodeFromCursor⟩

def WellFormed : RpcRequest → Prop
  | .getBlockTemplate payoutAddress => payoutAddress.length < 2 ^ 32
  | .submitBlock block => block.WellFormed
  | .sendRawTransaction tx => tx.WellFormed
  | .getTipStatus => True

theorem canonical : Canonical decodeFromCursor encodeCanonical WellFormed := by
  apply decodeTagged_canonical
  intro byte cursor request rest
  unfold decodeBody
  split
  · rw [decodeVecBytes_canonical.build_eq_ok_iff]
    cases request <;> simp [tag, payload, WellFormed]
  · rw [Block.canonical.build_eq_ok_iff]
    cases request <;> simp [tag, payload, WellFormed]
  · rw [Transaction.canonical.build_eq_ok_iff]
    cases request <;> simp [tag, payload, WellFormed]
  · rw [Decoder.pure_eq_ok_iff]
    cases request <;> simp [tag, payload, WellFormed]
  next other =>
    simp only [Decoder.throw_ne_ok, false_iff]
    rintro ⟨rfl, -⟩
    cases request <;> simp_all [tag]

end RpcRequest

/-- The pool's size is a machine word of 64 bits. -/
inductive RpcResponse
  | blockTemplate (tmpl : BlockTemplate)
  | submitBlock (result : Rpc.SubmitResult)
  | transactionAccepted (txid : Hash256)
  | tipStatus (height : UInt64) (bestBlockHash : Hash256) (mempoolSize : UInt64)
  | error (err : String)
  deriving DecidableEq

namespace RpcResponse

def tag : RpcResponse → UInt8
  | .blockTemplate _ => 0x00
  | .submitBlock _ => 0x01
  | .transactionAccepted _ => 0x02
  | .tipStatus _ _ _ => 0x03
  | .error _ => 0x04

def payload : RpcResponse → Bytes
  | .blockTemplate tmpl => tmpl.encodeCanonical
  | .submitBlock result => result.encodeCanonical
  | .transactionAccepted txid => txid.asBytes
  | .tipStatus height bestBlockHash mempoolSize =>
      u64ToBeBytes height ++ bestBlockHash.asBytes ++ u64ToBeBytes mempoolSize
  | .error err => encodeString err

def encodeCanonical (response : RpcResponse) : Bytes := response.tag :: response.payload

def decodeBody (tag : UInt8) : Decoder CodecError RpcResponse :=
  match tag with
  | 0x00 => do
      let tmpl ← BlockTemplate.decodeFromCursor
      pure (.blockTemplate tmpl)
  | 0x01 => do
      let result ← Rpc.SubmitResult.decodeFromCursor
      pure (.submitBlock result)
  | 0x02 => do
      let txid ← Hash256.decodeFromCursor
      pure (.transactionAccepted txid)
  | 0x03 => do
      let height ← decodeU64
      let bestBlockHash ← Hash256.decodeFromCursor
      let mempoolSize ← decodeU64
      pure (.tipStatus height bestBlockHash mempoolSize)
  | 0x04 => do
      let reason ← decodeString
      pure (.error reason)
  | other => throw (.invalidData ("invalid RpcResponse tag: " ++ hexByte other))

def decodeFromCursor : Decoder CodecError RpcResponse := decodeByte >>= decodeBody

instance : CanonicalCodec RpcResponse := ⟨encodeCanonical, decodeFromCursor⟩

def WellFormed : RpcResponse → Prop
  | .blockTemplate tmpl => tmpl.WellFormed
  | .submitBlock result => result.WellFormed
  | .transactionAccepted _ => True
  | .tipStatus _ _ _ => True
  | .error err => (utf8Bytes err).length < 2 ^ 32

theorem canonical : Canonical decodeFromCursor encodeCanonical WellFormed := by
  apply decodeTagged_canonical
  intro byte cursor response rest
  unfold decodeBody
  split
  · rw [BlockTemplate.canonical.build_eq_ok_iff]
    cases response <;> simp [tag, payload, WellFormed]
  · rw [Rpc.SubmitResult.canonical.build_eq_ok_iff]
    cases response <;> simp [tag, payload, WellFormed]
  · rw [Hash256.canonical.build_eq_ok_iff]
    cases response <;> simp [tag, payload, WellFormed, Hash256.encodeCanonical]
  · simp only [Decoder.bind_eq_ok_iff, decodeU64_canonical.eq_ok_iff, Hash256.canonical.eq_ok_iff,
      decodeU64_canonical.build_eq_ok_iff, true_and]
    cases response <;> simp [tag, payload, WellFormed, Hash256.encodeCanonical]
  · rw [decodeString_canonical.build_eq_ok_iff]
    cases response <;> simp [tag, payload, WellFormed]
  next other =>
    simp only [Decoder.throw_ne_ok, false_iff]
    rintro ⟨rfl, -⟩
    cases response <;> simp_all [tag]

end RpcResponse

/-- The formats of requests and responses are exact in both directions, for
cursors and for whole strings, and a message has one encoding. -/
theorem rpc_codec_exact :
    (∀ bytes (request : RpcRequest) rest,
        CanonicalCodec.decodeFromCursor bytes = .ok (request, rest) ↔
          request.WellFormed ∧ bytes = request.encodeCanonical ++ rest) ∧
      (∀ bytes (response : RpcResponse) rest,
        CanonicalCodec.decodeFromCursor bytes = .ok (response, rest) ↔
          response.WellFormed ∧ bytes = response.encodeCanonical ++ rest) ∧
      (∀ bytes (request : RpcRequest),
        decodeCanonical bytes = .ok request ↔
          request.WellFormed ∧ bytes = request.encodeCanonical) ∧
      (∀ bytes (response : RpcResponse),
        decodeCanonical bytes = .ok response ↔
          response.WellFormed ∧ bytes = response.encodeCanonical) ∧
      (∀ left right : RpcRequest, left.WellFormed → right.WellFormed →
        left.encodeCanonical = right.encodeCanonical → left = right) ∧
      ∀ left right : RpcResponse, left.WellFormed → right.WellFormed →
        left.encodeCanonical = right.encodeCanonical → left = right :=
  ⟨RpcRequest.canonical.eq_ok_iff, RpcResponse.canonical.eq_ok_iff,
    decodeCanonical_eq_ok_iff RpcRequest.canonical,
    decodeCanonical_eq_ok_iff RpcResponse.canonical,
    fun _ _ => RpcRequest.canonical.encode_injective,
    fun _ _ => RpcResponse.canonical.encode_injective⟩

end Aurion
