import Aurion.Ledger.Agreement

/-!
# What a header commits to

At a given length the Merkle root binds every leaf.  Two valid blocks with one
header have the same set of transactions, and those with inputs occur once in
each.  Only transactions without inputs may occur more often, and how often they
do decides whether the lists are the same.
-/

namespace Aurion

open Foundation

section Leaves

variable [Crypto]

/-- The strings of 64 bytes that are hashed while the root is computed. -/
def merkleHashed (hashes : List Hash256) : List Bytes :=
  (HashTree.combined combineHashes hashes).map fun pair => pair.1.asBytes ++ pair.2.asBytes

theorem eq_of_computeMerkleRoot_eq {left right : List Hash256}
    (lengths : left.length = right.length)
    (free : CollisionFree (merkleHashed left ++ merkleHashed right))
    (sameRoot : computeMerkleRoot left = computeMerkleRoot right) : left = right := by
  have injective : HashTree.InjectiveOn combineHashes
      (HashTree.combined combineHashes left ++ HashTree.combined combineHashes right) := by
    apply combineHashes_injectiveOn
    rwa [List.map_append]
  exact HashTree.eq_of_root_eq injective lengths (List.subset_append_left _ _)
    (List.subset_append_right _ _) sameRoot

/-- Lists of one length with one root are equal when their trees are hashed
without collisions.  So another id at any position changes the root of a block. -/
theorem merkleRoot_binds_leaves :
    (∀ left right : List Hash256, left.length = right.length →
      CollisionFree (merkleHashed left ++ merkleHashed right) →
      computeMerkleRoot left = computeMerkleRoot right → left = right) ∧
    ∀ left right : Block, left.transactions.length = right.transactions.length →
      CollisionFree (merkleHashed (left.transactions.map Transaction.txid) ++
        merkleHashed (right.transactions.map Transaction.txid)) →
      ∀ index : Nat, (left.transactions.map Transaction.txid)[index]? ≠
          (right.transactions.map Transaction.txid)[index]? →
        left.calculateMerkleRoot ≠ right.calculateMerkleRoot := by
  refine ⟨fun _ _ => eq_of_computeMerkleRoot_eq, ?_⟩
  intro left right lengths free index different sameRoot
  have txids := eq_of_computeMerkleRoot_eq (by simpa using lengths) free sameRoot
  exact different (congrArg (·[index]?) txids)

end Leaves

section Commitment

variable [Crypto]

/-- The transactions of a block without inputs. -/
def Block.inputless (block : Block) : List Transaction :=
  block.transactions.filter fun tx => tx.inputs.isEmpty

/-- The transactions of a block with inputs, the coinbase included. -/
def Block.inputful (block : Block) : List Transaction :=
  block.transactions.filter fun tx => !tx.inputs.isEmpty

omit [Crypto] in
theorem Block.length_transactions (block : Block) :
    block.transactions.length = block.inputless.length + block.inputful.length :=
  List.length_eq_length_filter_add _

/-- A transaction with inputs cannot occur twice without a double spend. -/
theorem Shaped.inputful_nodup {block : Block} {coinbase : Transaction}
    (shaped : Shaped block coinbase) (distinct : block.spentOutPoints.Nodup) :
    block.inputful.Nodup := by
  have spendingOnce : (block.spending.filter fun tx => !tx.inputs.isEmpty).Nodup := by
    apply nodup_filter_of_nodup_flatMap Transaction.outPoints _ _ distinct
    intro tx inhabited
    simpa [Transaction.outPoints] using inhabited
  rw [Block.inputful, shaped.transactions, List.filter_cons]
  split
  · refine List.nodup_cons.mpr ⟨?_, spendingOnce⟩
    intro again
    have spends := (List.mem_filter.mp (List.mem_filter.mp again).1).2
    simp [shaped.isCoinbase] at spends
  · exact spendingOnce

/-- Two valid blocks with one header have the same transaction list if and only
if they have equally many transactions without inputs. -/
theorem header_commits_to_transactions (utxoLookup : OutPoint → Option TxOutput)
    (expectedHeight : UInt64) (left right : DecodedBlock)
    (sameHeader : left.block.header = right.block.header)
    (leftStructured : verifyBlockStructure left.block expectedHeight = .ok ())
    (rightStructured : verifyBlockStructure right.block expectedHeight = .ok ())
    (leftSpends : ∃ spent, verifyBlockInvariants left.block utxoLookup = .ok spent)
    (rightSpends : ∃ spent, verifyBlockInvariants right.block utxoLookup = .ok spent)
    (free : CollisionFree (left.block.hashed ++ right.block.hashed)) :
    left.block.transactions = right.block.transactions ↔
      left.block.inputless.length = right.block.inputless.length := by
  obtain ⟨leftCoinbase, _, leftValid⟩ := (verifyBlockStructure_eq_ok_iff _ _).mp leftStructured
  obtain ⟨rightCoinbase, _, rightValid⟩ := (verifyBlockStructure_eq_ok_iff _ _).mp rightStructured
  obtain ⟨_, leftSpends⟩ := leftSpends
  obtain ⟨_, rightSpends⟩ := rightSpends
  have leftDistinct := ((verifyBlockInvariants_eq_ok_iff _ _ _).mp leftSpends).2.1
  have rightDistinct := ((verifyBlockInvariants_eq_ok_iff _ _ _).mp rightSpends).2.1
  have leftHashed := List.subset_append_left left.block.hashed right.block.hashed
  have rightHashed := List.subset_append_right left.block.hashed right.block.hashed
  have sameRoot := congrArg BlockHeader.merkleRoot sameHeader
  have sameSet := transactions_iff_of_merkleRoot_eq leftValid.shaped rightValid.shaped
    left.wellFormed right.wellFormed free leftHashed rightHashed sameRoot
  have inputful : left.block.inputful.length = right.block.inputful.length := by
    apply List.Perm.length_eq
    rw [List.perm_ext_iff_of_nodup (leftValid.shaped.inputful_nodup leftDistinct)
      (rightValid.shaped.inputful_nodup rightDistinct)]
    intro tx
    simp only [Block.inputful, List.mem_filter, sameSet]
  constructor
  · intro same
    rw [Block.inputless, Block.inputless, same]
  · intro inputless
    have lengths : left.block.transactions.length = right.block.transactions.length := by
      rw [Block.length_transactions, Block.length_transactions, inputless, inputful]
    have treesFree : CollisionFree (merkleHashed (left.block.transactions.map Transaction.txid) ++
        merkleHashed (right.block.transactions.map Transaction.txid)) := by
      apply free.mono
      have trees : ∀ block : Block,
          merkleHashed (block.transactions.map Transaction.txid) ⊆ block.hashed := fun block =>
        List.subset_cons_of_subset _ (List.subset_append_right _ _)
      exact List.append_subset.mpr
        ⟨List.Subset.trans (trees _) leftHashed, List.Subset.trans (trees _) rightHashed⟩
    rw [leftValid.merkleRoot, rightValid.merkleRoot] at sameRoot
    have txids := eq_of_computeMerkleRoot_eq (by simpa using lengths) treesFree sameRoot
    apply List.ext_getElem lengths
    intro index inLeft inRight
    apply Transaction.eq_of_txid_eq
      (left.wellFormed.transactions _ (List.getElem_mem inLeft))
      (right.wellFormed.transactions _ (List.getElem_mem inRight)) free
      (leftHashed (Block.transaction_hashed (List.getElem_mem inLeft)))
      (rightHashed (Block.transaction_hashed (List.getElem_mem inRight)))
    simpa [inLeft, inRight] using congrArg (·[index]?) txids

end Commitment

section Sample

open Sample

attribute [local instance] Sample.crypto

/-- Under one header two lists pass: a last transaction without inputs may be
written once more when the tree duplicates it anyway. -/
theorem header_commits_to_two_lists :
    ∃ left right : DecodedBlock, left.block.header = right.block.header ∧
      verifyBlockStructure left.block 1 = .ok () ∧ verifyBlockStructure right.block 1 = .ok () ∧
      verifyBlockInvariants left.block (fun _ => none) = .ok [] ∧
      verifyBlockInvariants right.block (fun _ => none) = .ok [] ∧
      CollisionFree (left.block.hashed ++ right.block.hashed) ∧
      left.block.transactions ≠ right.block.transactions :=
  ⟨oddDecoded, paddedDecoded, rfl, by decide +kernel, by decide +kernel, by decide +kernel,
    by decide +kernel, by decide +kernel, by decide +kernel⟩

/-- The root changes when the second block gets another coinbase. -/
theorem merkleRoot_binds_leaves_settled :
    second.calculateMerkleRoot ≠ settled.calculateMerkleRoot :=
  merkleRoot_binds_leaves.2 second settled rfl (by decide +kernel) 0 (by decide +kernel)

theorem header_commits_to_transactions_odd :
    oddDecoded.block.transactions = paddedDecoded.block.transactions ↔
      oddDecoded.block.inputless.length = paddedDecoded.block.inputless.length :=
  header_commits_to_transactions (fun _ => none) 1 oddDecoded paddedDecoded rfl
    (by decide +kernel) (by decide +kernel) ⟨[], by decide +kernel⟩ ⟨[], by decide +kernel⟩
    (by decide +kernel)

end Sample

end Aurion
