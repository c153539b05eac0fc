import Aurion.Core.Transaction
import Aurion.Foundation.HashTree

/-!
# Blocks, headers and the Merkle root
-/

namespace Aurion

open Foundation

/-- The parent of two nodes: the digest of their 64 bytes. -/
def combineHashes [Crypto] (left right : Hash256) : Hash256 :=
  Hash256.digest (left.asBytes ++ right.asBytes)

def computeMerkleRoot [Crypto] (hashes : List Hash256) : Hash256 :=
  HashTree.root combineHashes Hash256.zero hashes

structure BlockHeader where
  version : UInt32
  prevBlockHash : Hash256
  merkleRoot : Hash256
  timestamp : UInt64
  bits : UInt32
  nonce : UInt64
  height : UInt64
  deriving DecidableEq, Repr

namespace BlockHeader

/-- The last four header fields, which the reader takes in one piece. -/
def encodeTail (timestamp : UInt64) (bits : UInt32) (nonce height : UInt64) : Bytes :=
  u64ToBeBytes timestamp ++ u32ToBeBytes bits ++ u64ToBeBytes nonce ++ u64ToBeBytes height

def encodeCanonical (header : BlockHeader) : Bytes :=
  u32ToBeBytes header.version ++ header.prevBlockHash.asBytes ++ header.merkleRoot.asBytes ++
    encodeTail header.timestamp header.bits header.nonce header.height

def decodeFromCursor : Decoder CodecError BlockHeader := do
  let version ← decodeU32
  let prevBlockHash ← Hash256.decodeFromCursor
  let merkleRoot ← Hash256.decodeFromCursor
  let bytes ← Decoder.take .unexpectedEof 28
  let timestamp := u64FromBeBytes (bytes.take 8)
  let bits := u32FromBeBytes ((bytes.drop 8).take 4)
  let nonce := u64FromBeBytes (((bytes.drop 8).drop 4).take 8)
  let height := u64FromBeBytes (((bytes.drop 8).drop 4).drop 8)
  pure { version, prevBlockHash, merkleRoot, timestamp, bits, nonce, height }

instance : CanonicalCodec BlockHeader := ⟨encodeCanonical, decodeFromCursor⟩

def blockHash [Crypto] (header : BlockHeader) : Hash256 :=
  Hash256.digest header.encodeCanonical

end BlockHeader

structure Block where
  header : BlockHeader
  transactions : List Transaction
  deriving DecidableEq, Repr

namespace Block

def blockHash [Crypto] (block : Block) : Hash256 := block.header.blockHash

def calculateMerkleRoot [Crypto] (block : Block) : Hash256 :=
  computeMerkleRoot (block.transactions.map Transaction.txid)

def encodeCanonical (block : Block) : Bytes :=
  block.header.encodeCanonical ++
    u32ToBeBytes (UInt32.ofNat block.transactions.length) ++
    block.transactions.flatMap Transaction.encodeCanonical

def decodeFromCursor : Decoder CodecError Block := do
  let header ← BlockHeader.decodeFromCursor
  let txCount ← decodeU32
  let transactions ← Transaction.decodeFromCursor.times txCount.toNat
  pure { header, transactions }

instance : CanonicalCodec Block := ⟨encodeCanonical, decodeFromCursor⟩

structure WellFormed (block : Block) : Prop where
  transactionCount : block.transactions.length < 2 ^ 32
  transactions : ∀ tx ∈ block.transactions, tx.WellFormed

instance (block : Block) : Decidable block.WellFormed :=
  decidable_of_iff (block.transactions.length < 2 ^ 32 ∧
      ∀ tx ∈ block.transactions, tx.WellFormed)
    ⟨fun both => ⟨both.1, both.2⟩, fun both => ⟨both.1, both.2⟩⟩

end Block

/-- A block value that some byte string decodes to. -/
structure DecodedBlock where
  block : Block
  decoded : ∃ bytes, decodeCanonical bytes = Except.ok block

section Canonicity

/-- Cutting 28 bytes at 8, 12 and 20 and reading the pieces inverts the writer. -/
theorem BlockHeader.encodeTail_cut {bytes : Bytes} (width : bytes.length = 28) :
    BlockHeader.encodeTail (u64FromBeBytes (bytes.take 8))
      (u32FromBeBytes ((bytes.drop 8).take 4))
      (u64FromBeBytes (((bytes.drop 8).drop 4).take 8))
      (u64FromBeBytes (((bytes.drop 8).drop 4).drop 8)) = bytes := by
  rw [BlockHeader.encodeTail, u64ToBeBytes_fromBeBytes (by simp [width]),
    u32ToBeBytes_fromBeBytes (by simp [width]), u64ToBeBytes_fromBeBytes (by simp [width]),
    u64ToBeBytes_fromBeBytes (by simp [width])]
  simp only [List.append_assoc, List.take_append_drop]

theorem BlockHeader.length_encodeTail (timestamp : UInt64) (bits : UInt32)
    (nonce height : UInt64) : (BlockHeader.encodeTail timestamp bits nonce height).length = 28 := by
  simp [BlockHeader.encodeTail]

theorem BlockHeader.length_encodeCanonical (header : BlockHeader) :
    header.encodeCanonical.length = 96 := by
  simp [BlockHeader.encodeCanonical, BlockHeader.length_encodeTail, Hash256.size]

theorem Block.length_encodeCanonical (block : Block) :
    block.encodeCanonical.length =
      100 + (block.transactions.flatMap Transaction.encodeCanonical).length := by
  simp only [Block.encodeCanonical, List.length_append, length_u32ToBeBytes,
    BlockHeader.length_encodeCanonical]

theorem BlockHeader.cut_encodeTail (timestamp : UInt64) (bits : UInt32) (nonce height : UInt64) :
    let bytes := BlockHeader.encodeTail timestamp bits nonce height
    u64FromBeBytes (bytes.take 8) = timestamp ∧
      u32FromBeBytes ((bytes.drop 8).take 4) = bits ∧
      u64FromBeBytes (((bytes.drop 8).drop 4).take 8) = nonce ∧
      u64FromBeBytes (((bytes.drop 8).drop 4).drop 8) = height := by
  simp only [BlockHeader.encodeTail, List.append_assoc]
  rw [List.take_left' (length_u64ToBeBytes _), List.drop_left' (length_u64ToBeBytes _),
    List.take_left' (length_u32ToBeBytes _), List.drop_left' (length_u32ToBeBytes _),
    List.take_left' (length_u64ToBeBytes _), List.drop_left' (length_u64ToBeBytes _)]
  simp

theorem BlockHeader.canonical :
    Canonical BlockHeader.decodeFromCursor BlockHeader.encodeCanonical (fun _ => True) where
  eq_ok_iff := by
    intro cursor header rest
    simp only [BlockHeader.decodeFromCursor, Decoder.bind_eq_ok_iff, Decoder.pure_eq_ok_iff,
      decodeU32_canonical.eq_ok_iff, Hash256.canonical.eq_ok_iff, Decoder.take_eq_ok_iff, true_and]
    constructor
    · intro read
      rcases read with ⟨version, _, rfl, prevBlockHash, _, rfl, merkleRoot, _, rfl, bytes, _,
        ⟨width, rfl⟩, rfl, rfl⟩
      simp only [BlockHeader.encodeCanonical, BlockHeader.encodeTail_cut width,
        Hash256.encodeCanonical, List.append_assoc]
    · rintro rfl
      obtain ⟨timestamp, bits, nonce, height⟩ := BlockHeader.cut_encodeTail header.timestamp
        header.bits header.nonce header.height
      refine ⟨header.version, _, ?_, header.prevBlockHash, _, rfl, header.merkleRoot, _, rfl,
        BlockHeader.encodeTail header.timestamp header.bits header.nonce header.height, rest,
        ⟨BlockHeader.length_encodeTail _ _ _ _, rfl⟩, ?_, rfl⟩
      · simp [BlockHeader.encodeCanonical, Hash256.encodeCanonical]
      · rw [timestamp, bits, nonce, height]

theorem Block.canonical :
    Canonical Block.decodeFromCursor Block.encodeCanonical Block.WellFormed where
  eq_ok_iff := by
    intro cursor block rest
    simp only [Block.decodeFromCursor, Decoder.bind_eq_ok_iff, Decoder.pure_eq_ok_iff,
      BlockHeader.canonical.eq_ok_iff, decodeU32_canonical.eq_ok_iff,
      (Transaction.canonical.times _).eq_ok_iff, true_and]
    constructor
    · intro read
      rcases read with ⟨header, _, rfl, txCount, _, rfl, transactions, _, ⟨⟨count, valid⟩, rfl⟩,
        rfl, rfl⟩
      have bound := txCount.toNat_lt
      exact ⟨⟨count ▸ bound, valid⟩, by simp [Block.encodeCanonical, count]⟩
    · intro encoded
      rcases encoded with ⟨⟨count, valid⟩, rfl⟩
      refine ⟨block.header, _, ?_, UInt32.ofNat block.transactions.length, _, rfl,
        block.transactions, rest, ⟨⟨(toNat_ofNat_of_lt_u32 count).symm, valid⟩, rfl⟩, rfl, rfl⟩
      simp [Block.encodeCanonical]

theorem BlockHeader.encodeCanonical_injective {left right : BlockHeader}
    (same : left.encodeCanonical = right.encodeCanonical) : left = right :=
  BlockHeader.canonical.encode_injective trivial trivial same

theorem OutPoint.encodeCanonical_injective {left right : OutPoint}
    (same : left.encodeCanonical = right.encodeCanonical) : left = right :=
  OutPoint.canonical.encode_injective trivial trivial same

theorem TxOutput.encodeCanonical_injective {left right : TxOutput}
    (leftWellFormed : left.WellFormed) (rightWellFormed : right.WellFormed)
    (same : left.encodeCanonical = right.encodeCanonical) : left = right :=
  TxOutput.canonical.encode_injective leftWellFormed rightWellFormed same

theorem Transaction.encodeCanonical_injective {left right : Transaction}
    (leftWellFormed : left.WellFormed) (rightWellFormed : right.WellFormed)
    (same : left.encodeCanonical = right.encodeCanonical) : left = right :=
  Transaction.canonical.encode_injective leftWellFormed rightWellFormed same

theorem DecodedBlock.wellFormed (decoded : DecodedBlock) : decoded.block.WellFormed := by
  obtain ⟨bytes, accepted⟩ := decoded.decoded
  exact ((decodeCanonical_eq_ok_iff Block.canonical bytes _).mp accepted).1

/-- A well-formed block is decoded from its own encoding. -/
def DecodedBlock.ofWellFormed (block : Block) (wellFormed : block.WellFormed) : DecodedBlock where
  block := block
  decoded := ⟨block.encodeCanonical,
    (decodeCanonical_eq_ok_iff Block.canonical _ _).mpr ⟨wellFormed, rfl⟩⟩

/-- The byte format is exact in both directions: a reader accepts precisely the
encodings of well-formed values, whole strings included, and no encoding is a
proper prefix of another. -/
theorem codec_exact :
    (∀ bytes (block : Block) rest,
        CanonicalCodec.decodeFromCursor bytes = .ok (block, rest) ↔
          block.WellFormed ∧ bytes = block.encodeCanonical ++ rest) ∧
      (∀ bytes (block : Block),
        decodeCanonical bytes = .ok block ↔ block.WellFormed ∧ bytes = block.encodeCanonical) ∧
      (∀ left right : Block, left.WellFormed → right.WellFormed →
        left.encodeCanonical <+: right.encodeCanonical → left = right) ∧
      (∀ bytes (tx : Transaction) rest,
        CanonicalCodec.decodeFromCursor bytes = .ok (tx, rest) ↔
          tx.WellFormed ∧ bytes = tx.encodeCanonical ++ rest) ∧
      (∀ bytes (tx : Transaction),
        decodeCanonical bytes = .ok tx ↔ tx.WellFormed ∧ bytes = tx.encodeCanonical) ∧
      ∀ left right : Transaction, left.WellFormed → right.WellFormed →
        left.encodeCanonical <+: right.encodeCanonical → left = right :=
  ⟨Block.canonical.eq_ok_iff, decodeCanonical_eq_ok_iff Block.canonical,
    fun _ _ => Block.canonical.eq_of_isPrefix, Transaction.canonical.eq_ok_iff,
    decodeCanonical_eq_ok_iff Transaction.canonical,
    fun _ _ => Transaction.canonical.eq_of_isPrefix⟩

end Canonicity

end Aurion
