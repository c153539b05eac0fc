import Aurion.Core.Block
import Aurion.Foundation.Table

/-!
# The storage engine

The database is four keyed tables of bytes.  A committed block is one write
transaction over all of them, and a call below is one read transaction.  Only
`getBlockByHeight` reads the index and the block in two; it is one read here,
since a commit between them adds its records under a new height.
-/

namespace Aurion

open Foundation

/-- A fault of the database, with its text, or a record that does not decode. -/
inductive StorageError
  | database (text : String)
  | serialization (error : CodecError)
  deriving DecidableEq, Repr

def StorageError.message : StorageError → String
  | .database text => text
  | .serialization error => "canonical serialization failure: " ++ error.message

/-- The keys `"tip_height"` and `"tip_hash"`. -/
inductive MetadataKey
  | tipHeight
  | tipHash
  deriving DecidableEq, Repr

structure StorageEngine where
  blocks : Table Bytes Bytes
  heightIndex : Table UInt64 Bytes
  utxos : Table Bytes Bytes
  metadata : Table MetadataKey Bytes

namespace StorageEngine

/-- A new database: all tables are empty. -/
def empty : StorageEngine := ⟨∅, ∅, ∅, ∅⟩

/-- The records a transaction's outputs get. -/
def createdRecords [Crypto] (tx : Transaction) : List (Bytes × Bytes) :=
  tx.outputs.zipIdx.map fun (output, vout) =>
    let op : OutPoint := { txid := tx.txid, vout := UInt32.ofNat vout }
    (op.encodeCanonical, output.encodeCanonical)

/-- Steps 2 and 3: remove the spent records, then insert the created ones. -/
def utxoRound [Crypto] (block : Block) (spentInputs : List OutPoint) : Round Bytes Bytes where
  spent := spentInputs.map OutPoint.encodeCanonical
  created := block.transactions.flatMap createdRecords

def commitBlock [Crypto] (storage : StorageEngine) (block : Block)
    (spentInputs : List OutPoint) : StorageEngine where
  blocks := storage.blocks.insert block.blockHash.asBytes block.encodeCanonical
  heightIndex := storage.heightIndex.insert block.header.height block.blockHash.asBytes
  utxos := storage.utxos.applyRound (utxoRound block spentInputs)
  metadata := (storage.metadata.insert .tipHeight (u64ToBeBytes block.header.height)).insert
    .tipHash block.blockHash.asBytes

def getUtxo (storage : StorageEngine) (outpoint : OutPoint) :
    Except StorageError (Option TxOutput) :=
  match storage.utxos.lookup outpoint.encodeCanonical with
  | none => .ok none
  | some bytes => ((decodeCanonical bytes).mapError .serialization).map some

def getBlock (storage : StorageEngine) (hash : Hash256) : Except StorageError (Option Block) :=
  match storage.blocks.lookup hash.asBytes with
  | none => .ok none
  | some bytes => ((decodeCanonical bytes).mapError .serialization).map some

/-- The recorded hash is copied into an array of 32 bytes, as in `getTip`. -/
def getBlockByHeight (storage : StorageEngine) (height : UInt64) :
    Except StorageError (Option Block) :=
  match storage.heightIndex.lookup height with
  | none => .ok none
  | some bytes => storage.getBlock (Hash256.fromSlice bytes)

/-- The source copies the two records into arrays of 8 and 32 bytes and stops
on another length; `commitBlock` writes no other. -/
def getTip (storage : StorageEngine) : Option (UInt64 × Hash256) :=
  match storage.metadata.lookup .tipHeight, storage.metadata.lookup .tipHash with
  | some height, some hash => some (u64FromBeBytes height, Hash256.fromSlice hash)
  | _, _ => none

@[simp]
theorem getTip_commitBlock [Crypto] (storage : StorageEngine) (block : Block)
    (spentInputs : List OutPoint) :
    (storage.commitBlock block spentInputs).getTip =
      some (block.header.height, block.blockHash) := by
  have height : (storage.commitBlock block spentInputs).metadata.lookup .tipHeight =
      some (u64ToBeBytes block.header.height) := by
    simp [commitBlock]
  have hash : (storage.commitBlock block spentInputs).metadata.lookup .tipHash =
      some block.blockHash.asBytes := by
    simp [commitBlock]
  simp only [getTip, height, hash, u64FromBeBytes_toBeBytes, Hash256.fromSlice_asBytes]

theorem decodeTxOutput_eq_ok_iff (bytes : Bytes) (output : TxOutput) :
    (decodeCanonical bytes : Except CodecError TxOutput) = .ok output ↔
      output.WellFormed ∧ bytes = output.encodeCanonical :=
  decodeCanonical_eq_ok_iff TxOutput.canonical bytes output

theorem getUtxo_eq_some_iff (storage : StorageEngine) (outpoint : OutPoint)
    (output : TxOutput) :
    storage.getUtxo outpoint = .ok (some output) ↔
      output.WellFormed ∧
        storage.utxos.lookup outpoint.encodeCanonical = some output.encodeCanonical := by
  unfold getUtxo
  cases found : storage.utxos.lookup outpoint.encodeCanonical with
  | none => simp
  | some bytes =>
      simp only [except_map_eq_ok_iff, mapError_eq_ok_iff, decodeTxOutput_eq_ok_iff,
        Option.some.injEq, ↓existsAndEq, and_true]

theorem mem_createdRecords_iff [Crypto] (tx : Transaction) (outpoint : OutPoint)
    (count : tx.outputs.length < 2 ^ 32) (record : Bytes) :
    (outpoint.encodeCanonical, record) ∈ createdRecords tx ↔
      outpoint.txid = tx.txid ∧
        ∃ output, tx.outputs[outpoint.vout.toNat]? = some output ∧
          record = output.encodeCanonical := by
  simp only [createdRecords, List.mem_map, Prod.exists, List.mem_zipIdx_iff_getElem?,
    Prod.mk.injEq]
  constructor
  · intro created
    rcases created with ⟨output, vout, at_, sameKey, rfl⟩
    have bound : vout < 2 ^ 32 := Nat.lt_trans (List.getElem?_eq_some_iff.mp at_).1 count
    obtain rfl := OutPoint.encodeCanonical_injective sameKey
    exact ⟨rfl, output, by rw [toNat_ofNat_of_lt_u32 bound, at_], rfl⟩
  · intro created
    rcases created with ⟨sameTxid, output, at_, rfl⟩
    refine ⟨output, outpoint.vout.toNat, at_, ?_, rfl⟩
    rw [UInt32.ofNat_toNat, ← sameTxid]

end StorageEngine

end Aurion
