import Aurion.Ledger.UtxoSet

/-!
# Agreement by tip hash

Two chains with one tip hash have the same headers.  Blocks with one header
need not have the same transaction list, since the Merkle tree duplicates the
last node of an odd layer, but they have the same set of transactions, and
that set decides what a block creates and spends.
-/

namespace Aurion

open Foundation

section Coinbase

theorem TxInput.length_encodeCanonical (input : TxInput) :
    45 ≤ input.encodeCanonical.length := by
  have redeemer : 1 ≤ (TxInput.encodeRedeemer input.redeemer).length := by
    cases input.redeemer <;> simp [TxInput.encodeRedeemer]
  simp only [TxInput.encodeCanonical, OutPoint.encodeCanonical, encodeVecBytes,
    List.length_append, Hash256.size, length_u32ToBeBytes]
  omega

/-- An encoded coinbase is longer than the 64 bytes of two hashes. -/
theorem length_of_isCoinbase {tx : Transaction} (isCoinbase : tx.isCoinbase = true) :
    64 < tx.encodeCanonical.length := by
  unfold Transaction.isCoinbase at isCoinbase
  split at isCoinbase
  next input single =>
      have long := input.length_encodeCanonical
      simp only [Transaction.encodeCanonical, single, List.flatMap_cons, List.flatMap_nil,
        List.length_append, length_u32ToBeBytes, length_u64ToBeBytes]
      omega
  next => cases isCoinbase

end Coinbase

section Agreement

variable [Crypto]

theorem combineHashes_injectiveOn {pairs : List (Hash256 × Hash256)}
    (free : CollisionFree (pairs.map fun pair => pair.1.asBytes ++ pair.2.asBytes)) :
    HashTree.InjectiveOn combineHashes pairs := by
  intro left leftIn right rightIn same
  have bytes := free _ (List.mem_map_of_mem leftIn) _ (List.mem_map_of_mem rightIn) same
  obtain ⟨first, second⟩ := List.append_inj bytes (left.1.size.trans right.1.size.symm)
  exact Prod.ext (Hash256.ext first) (Hash256.ext second)

/-- A coinbase id is not an inner node of a tree hashed without collisions. -/
theorem txid_ne_combineHashes {hashed : List Bytes} (free : CollisionFree hashed)
    {tx : Transaction} (isCoinbase : tx.isCoinbase = true) (txHashed : tx.encodeCanonical ∈ hashed)
    {pair : Hash256 × Hash256} (pairHashed : pair.1.asBytes ++ pair.2.asBytes ∈ hashed) :
    tx.txid ≠ combineHashes pair.1 pair.2 := by
  intro same
  have bytes := congrArg List.length (free _ txHashed _ pairHashed same)
  have long := length_of_isCoinbase isCoinbase
  rw [List.length_append, pair.1.size, pair.2.size] at bytes
  omega

/-- The first leaf of the tree of a shaped block is no combination. -/
theorem Shaped.head_ne {block : Block} {coinbase : Transaction} (shaped : Shaped block coinbase)
    {hashed : List Bytes} (free : CollisionFree hashed) (blockHashed : block.hashed ⊆ hashed)
    {pair : Hash256 × Hash256} (pairHashed : pair.1.asBytes ++ pair.2.asBytes ∈ hashed) :
    (block.transactions.map Transaction.txid).head? ≠ some (combineHashes pair.1 pair.2) := by
  have inBlock : coinbase ∈ block.transactions := by
    rw [shaped.transactions]
    exact List.mem_cons_self
  intro head
  rw [shaped.transactions, List.map_cons, List.head?_cons, Option.some.injEq] at head
  exact txid_ne_combineHashes free shaped.isCoinbase
    (blockHashed (Block.transaction_hashed inBlock)) pairHashed head

/-- Shaped blocks with one Merkle root have the same set of transaction ids. -/
theorem txids_iff_of_merkleRoot_eq {left right : Block} {leftCoinbase rightCoinbase : Transaction}
    (leftShaped : Shaped left leftCoinbase) (rightShaped : Shaped right rightCoinbase)
    {hashed : List Bytes} (free : CollisionFree hashed) (leftHashed : left.hashed ⊆ hashed)
    (rightHashed : right.hashed ⊆ hashed)
    (same : left.header.merkleRoot = right.header.merkleRoot) (txid : Hash256) :
    txid ∈ left.transactions.map Transaction.txid ↔
      txid ∈ right.transactions.map Transaction.txid := by
  have hashedPair : ∀ pair ∈ left.merklePairs ++ right.merklePairs,
      pair.1.asBytes ++ pair.2.asBytes ∈ hashed := by
    intro pair inTrees
    rcases List.mem_append.mp inTrees with inLeft | inRight
    · exact leftHashed (Block.pair_hashed inLeft)
    · exact rightHashed (Block.pair_hashed inRight)
  have injective : HashTree.InjectiveOn combineHashes (left.merklePairs ++ right.merklePairs) := by
    apply combineHashes_injectiveOn
    apply free.mono
    intro bytes membership
    rcases List.mem_map.mp membership with ⟨pair, inTrees, rfl⟩
    exact hashedPair pair inTrees
  rw [leftShaped.merkleRoot, rightShaped.merkleRoot] at same
  rcases HashTree.leaves_iff_of_root_eq injective (by simp [leftShaped.transactions])
    (by simp [rightShaped.transactions]) (List.subset_append_left _ _)
    (List.subset_append_right _ _) same with leaves | ⟨pair, pairIn, heads⟩
  · exact leaves txid
  · have pairHashed := hashedPair pair (List.mem_append.mpr pairIn)
    rcases heads with head | head
    · exact absurd head (leftShaped.head_ne free leftHashed pairHashed)
    · exact absurd head (rightShaped.head_ne free rightHashed pairHashed)

/-- Shaped blocks with one Merkle root have the same set of transactions. -/
theorem transactions_iff_of_merkleRoot_eq {left right : Block}
    {leftCoinbase rightCoinbase : Transaction} (leftShaped : Shaped left leftCoinbase)
    (rightShaped : Shaped right rightCoinbase) (leftWellFormed : left.WellFormed)
    (rightWellFormed : right.WellFormed) {hashed : List Bytes} (free : CollisionFree hashed)
    (leftHashed : left.hashed ⊆ hashed) (rightHashed : right.hashed ⊆ hashed)
    (same : left.header.merkleRoot = right.header.merkleRoot) (tx : Transaction) :
    tx ∈ left.transactions ↔ tx ∈ right.transactions := by
  have leaves := txids_iff_of_merkleRoot_eq leftShaped rightShaped free leftHashed rightHashed same
  have unique : ∀ leftTx ∈ left.transactions, ∀ rightTx ∈ right.transactions,
      leftTx.txid = rightTx.txid → leftTx = rightTx := fun leftTx inLeft rightTx inRight =>
    Transaction.eq_of_txid_eq (leftWellFormed.transactions leftTx inLeft)
      (rightWellFormed.transactions rightTx inRight) free
      (leftHashed (Block.transaction_hashed inLeft))
      (rightHashed (Block.transaction_hashed inRight))
  constructor
  · intro inLeft
    obtain ⟨other, inRight, sameTxid⟩ :=
      List.mem_map.mp ((leaves tx.txid).mp (List.mem_map_of_mem inLeft))
    rwa [unique tx inLeft other inRight sameTxid.symm]
  · intro inRight
    obtain ⟨other, inLeft, sameTxid⟩ :=
      List.mem_map.mp ((leaves tx.txid).mpr (List.mem_map_of_mem inRight))
    rwa [← unique other inLeft tx inRight sameTxid]

/-- The blocks create and spend the same outputs. -/
structure SameEffect (left right : Block) : Prop where
  creates : ∀ op output, left.Creates op output ↔ right.Creates op output
  spent : ∀ op, op ∈ left.spentOutPoints ↔ op ∈ right.spentOutPoints

theorem SameEffect.symm {left right : Block} (same : SameEffect left right) :
    SameEffect right left where
  creates op output := (same.creates op output).symm
  spent op := (same.spent op).symm

theorem sameEffect_of_transactions {left right : Block}
    (same : ∀ tx, tx ∈ left.transactions ↔ tx ∈ right.transactions) :
    SameEffect left right where
  creates op output := by simp only [Block.Creates, same]
  spent op := by
    simp only [Block.spentOutPoints, Block.spending, List.mem_flatMap, List.mem_filter, same]

theorem header_eq_of_blockHash_eq {left right : List Block} {hashed : List Bytes}
    (free : CollisionFree hashed) (leftHashed : left.flatMap Block.hashed ⊆ hashed)
    (rightHashed : right.flatMap Block.hashed ⊆ hashed) {leftBlock rightBlock : Block}
    (leftIn : leftBlock ∈ left) (rightIn : rightBlock ∈ right)
    (same : leftBlock.blockHash = rightBlock.blockHash) : leftBlock.header = rightBlock.header := by
  apply BlockHeader.encodeCanonical_injective
  exact free _ (leftHashed (List.mem_flatMap.mpr ⟨leftBlock, leftIn, List.mem_cons_self⟩)) _
    (rightHashed (List.mem_flatMap.mpr ⟨rightBlock, rightIn, List.mem_cons_self⟩)) same

namespace Chain

theorem height_of_last {committed : List Block} (chain : Chain committed) {tip : Block}
    (last : committed.getLast? = some tip) : tip.header.height.toNat = committed.length - 1 :=
  chain.height_eq (List.getLast?_eq_getElem? ▸ last)

/-- Chains of one length that end in one block hash have the same headers. -/
theorem headers_eq_of_length_eq {left right : List Block} (leftChain : Chain left)
    (rightChain : Chain right) {hashed : List Bytes} (free : CollisionFree hashed)
    (leftHashed : left.flatMap Block.hashed ⊆ hashed)
    (rightHashed : right.flatMap Block.hashed ⊆ hashed) (lengths : left.length = right.length)
    {leftTip rightTip : Block} (leftLast : left.getLast? = some leftTip)
    (rightLast : right.getLast? = some rightTip)
    (same : leftTip.blockHash = rightTip.blockHash) :
    left.map Block.header = right.map Block.header := by
  induction leftChain generalizing right leftTip rightTip with
  | genesis =>
      cases rightChain with
      | genesis => rfl
      | extend rightChain accepts =>
          have positive := rightChain.length_pos
          simp only [List.length_append, List.length_singleton] at lengths
          omega
  | @extend left leftBlock leftChain leftAccepts inductionHypothesis =>
      cases rightChain with
      | genesis =>
          have positive := leftChain.length_pos
          simp only [List.length_append, List.length_singleton] at lengths
          omega
      | @extend right rightBlock rightChain rightAccepts =>
          obtain rfl : leftBlock = leftTip := by simpa using leftLast
          obtain rfl : rightBlock = rightTip := by simpa using rightLast
          have headers : leftBlock.header = rightBlock.header :=
            header_eq_of_blockHash_eq free leftHashed rightHashed (by simp) (by simp) same
          obtain ⟨leftParent, leftParentLast, leftConnects, -⟩ := leftAccepts.connects
          obtain ⟨rightParent, rightParentLast, rightConnects, -⟩ := rightAccepts.connects
          have parents : leftParent.blockHash = rightParent.blockHash := by
            rw [← leftConnects, ← rightConnects, headers]
          rw [List.flatMap_append, List.append_subset] at leftHashed rightHashed
          have before := inductionHypothesis rightChain leftHashed.1 rightHashed.1
            (by simpa using lengths) leftParentLast rightParentLast parents
          simp only [List.map_append, before, List.map_singleton, headers]

variable {left right : List Block} (leftChain : Chain left) (rightChain : Chain right)
  {hashed : List Bytes} (free : CollisionFree hashed)
  (leftHashed : left.flatMap Block.hashed ⊆ hashed)
  (rightHashed : right.flatMap Block.hashed ⊆ hashed)

include leftChain rightChain free leftHashed rightHashed

/-- Committed blocks with one header have the same effect. -/
theorem sameEffect_of_header_eq {leftBlock rightBlock : Block} (leftIn : leftBlock ∈ left)
    (rightIn : rightBlock ∈ right) (same : leftBlock.header = rightBlock.header) :
    SameEffect leftBlock rightBlock := by
  obtain ⟨leftCoinbase, leftShaped⟩ := leftChain.exists_shaped leftBlock leftIn
  obtain ⟨rightCoinbase, rightShaped⟩ := rightChain.exists_shaped rightBlock rightIn
  apply sameEffect_of_transactions
  exact transactions_iff_of_merkleRoot_eq leftShaped rightShaped
    (leftChain.wellFormed leftBlock leftIn) (rightChain.wellFormed rightBlock rightIn) free
    (fun _ membership => leftHashed (List.mem_flatMap.mpr ⟨leftBlock, leftIn, membership⟩))
    (fun _ membership => rightHashed (List.mem_flatMap.mpr ⟨rightBlock, rightIn, membership⟩))
    (congrArg BlockHeader.merkleRoot same)

/-- Chains that end in one block hash have the same headers. -/
theorem headers_eq {leftTip rightTip : Block} (leftLast : left.getLast? = some leftTip)
    (rightLast : right.getLast? = some rightTip)
    (same : leftTip.blockHash = rightTip.blockHash) :
    left.map Block.header = right.map Block.header := by
  have header := header_eq_of_blockHash_eq free leftHashed rightHashed
    (List.mem_of_getLast? leftLast) (List.mem_of_getLast? rightLast) same
  have leftHeight := leftChain.height_of_last leftLast
  have rightHeight := rightChain.height_of_last rightLast
  have leftPositive := leftChain.length_pos
  have rightPositive := rightChain.length_pos
  rw [header] at leftHeight
  exact headers_eq_of_length_eq leftChain rightChain free leftHashed rightHashed (by omega)
    leftLast rightLast same

theorem unspent_of_headers_eq (headers : left.map Block.header = right.map Block.header)
    {op : OutPoint} {output : TxOutput} (unspent : Unspent left op output) :
    Unspent right op output := by
  have paired : ∀ (height : Nat) (leftBlock rightBlock : Block), left[height]? = some leftBlock →
      right[height]? = some rightBlock → SameEffect leftBlock rightBlock := by
    intro height leftBlock rightBlock leftAt rightAt
    apply leftChain.sameEffect_of_header_eq rightChain free leftHashed rightHashed
      (List.mem_of_getElem? leftAt) (List.mem_of_getElem? rightAt)
    have pointwise := congrArg (·[height]?) headers
    simpa [leftAt, rightAt] using pointwise
  have lengths : left.length = right.length := by simpa using congrArg List.length headers
  obtain ⟨height, leftBlock, leftAt, creates, latest⟩ := unspent
  obtain ⟨inLeft, -⟩ := List.getElem?_eq_some_iff.mp leftAt
  have rightAt := List.getElem?_eq_getElem (lengths ▸ inLeft)
  refine ⟨height, _, rightAt, ((paired _ _ _ leftAt rightAt).creates _ _).mp creates, ?_⟩
  intro later other after found
  obtain ⟨inRight, -⟩ := List.getElem?_eq_some_iff.mp found
  have leftFound := List.getElem?_eq_getElem (lengths ▸ inRight)
  have sameEffect := paired _ _ _ leftFound found
  obtain ⟨notCreated, notSpent⟩ := latest later _ after leftFound
  exact ⟨mt (sameEffect.creates _ _).mpr notCreated, mt (sameEffect.spent _).mpr notSpent⟩

end Chain

/-- The height index of a ledger lists the hashes of the chain. -/
theorem Chain.lookup_heightIndex {committed : List Block} (chain : Chain committed)
    (height : UInt64) :
    (ledger committed).heightIndex.lookup height =
      (committed[height.toNat]?).map fun block => block.blockHash.asBytes := by
  have step : ∀ (committed : List Block) (block : Block),
      block.header.height.toNat = committed.length →
      (ledger (committed ++ [block])).heightIndex.lookup height =
        if height.toNat = committed.length then some block.blockHash.asBytes
        else (ledger committed).heightIndex.lookup height := by
    intro committed block top
    rw [ledger_append_singleton, ← top]
    simp only [UInt64.toNat_inj]
    exact Table.lookup_insert _ _ _ _
  induction chain with
  | genesis =>
      refine (step [] createGenesisBlock rfl).trans ?_
      rw [List.length_nil, List.getElem?_singleton]
      split <;> rfl
  | @extend committed block chain accepts inductionHypothesis =>
      rw [step committed block (chain.height_of_accepts accepts), inductionHypothesis]
      split
      next top => rw [top, List.getElem?_concat_length, Option.map_some]
      next below =>
          by_cases old : height.toNat < committed.length
          · rw [List.getElem?_append_left old]
          · rw [List.getElem?_eq_none (by omega), List.getElem?_eq_none (by simp; omega)]

theorem Chain.getUtxo_eq {left right : List Block} (leftChain : Chain left)
    (rightChain : Chain right) {hashed : List Bytes} (free : CollisionFree hashed)
    (leftHashed : left.flatMap Block.hashed ⊆ hashed)
    (rightHashed : right.flatMap Block.hashed ⊆ hashed)
    (headers : left.map Block.header = right.map Block.header) (op : OutPoint) :
    (ledger left).getUtxo op = (ledger right).getUtxo op := by
  obtain ⟨leftFound, leftOk⟩ := leftChain.getUtxo_ok op
  obtain ⟨rightFound, rightOk⟩ := rightChain.getUtxo_ok op
  rw [leftOk, rightOk]
  apply congrArg
  apply Option.ext
  intro output
  have leftExact := leftChain.getUtxo_eq_some_iff (free.mono leftHashed) op output
  have rightExact := rightChain.getUtxo_eq_some_iff (free.mono rightHashed) op output
  rw [leftOk, Except.ok.injEq] at leftExact
  rw [rightOk, Except.ok.injEq] at rightExact
  rw [leftExact, rightExact]
  constructor
  · exact leftChain.unspent_of_headers_eq rightChain free leftHashed rightHashed headers
  · exact rightChain.unspent_of_headers_eq leftChain free rightHashed leftHashed headers.symm

/-- Two nodes that end with the same tip hash, without collisions in their
runs, agree on the tip, on the height index and on every unspent output. -/
theorem agreement_by_tip_hash (leftOffered rightOffered : List DecodedBlock)
    (free : CollisionFree
      ((NodeRun.after leftOffered).hashed ++ (NodeRun.after rightOffered).hashed))
    (same : (NodeRun.after leftOffered).engine.storage.getTip.map Prod.snd =
      (NodeRun.after rightOffered).engine.storage.getTip.map Prod.snd) :
    let left := (NodeRun.after leftOffered).engine.storage
    let right := (NodeRun.after rightOffered).engine.storage
    left.getTip = right.getTip ∧
      (∀ height, left.heightIndex.lookup height = right.heightIndex.lookup height) ∧
      ∀ op, left.getUtxo op = right.getUtxo op := by
  obtain ⟨leftChain, leftEngine⟩ := NodeRun.chain_after leftOffered
  obtain ⟨rightChain, rightEngine⟩ := NodeRun.chain_after rightOffered
  obtain ⟨leftTip, leftLast⟩ := leftChain.exists_last
  obtain ⟨rightTip, rightLast⟩ := rightChain.exists_last
  rw [leftEngine, rightEngine] at same ⊢
  simp only [getTip_ledger leftLast, getTip_ledger rightLast, Option.map_some,
    Option.some.injEq] at same ⊢
  have leftHashed := List.subset_append_left (NodeRun.after leftOffered).hashed
    (NodeRun.after rightOffered).hashed
  have rightHashed := List.subset_append_right (NodeRun.after leftOffered).hashed
    (NodeRun.after rightOffered).hashed
  have headers := leftChain.headers_eq rightChain free leftHashed rightHashed leftLast rightLast
    same
  refine ⟨?_, ?_, leftChain.getUtxo_eq rightChain free leftHashed rightHashed headers⟩
  · rw [header_eq_of_blockHash_eq free leftHashed rightHashed (List.mem_of_getLast? leftLast)
      (List.mem_of_getLast? rightLast) same, same]
  · intro height
    rw [leftChain.lookup_heightIndex, rightChain.lookup_heightIndex]
    have pointwise := congrArg (·[height.toNat]?) headers
    simp only [List.getElem?_map] at pointwise
    have hashes := congrArg (Option.map fun header => header.blockHash.asBytes) pointwise
    simp only [Option.map_map] at hashes
    exact hashes

end Agreement

section Sample

open Sample

attribute [local instance] Sample.crypto

/-- Two nodes that committed different transaction lists under one header, one
of them after a rejected block. -/
theorem agreement_by_tip_hash_odd :
    (NodeRun.after [oddDecoded]).committed ≠
        (NodeRun.after [secondDecoded, paddedDecoded]).committed ∧
      ∀ op, (NodeRun.after [oddDecoded]).engine.storage.getUtxo op =
        (NodeRun.after [secondDecoded, paddedDecoded]).engine.storage.getUtxo op := by
  have free : CollisionFree ((NodeRun.after [oddDecoded]).hashed ++
      (NodeRun.after [secondDecoded, paddedDecoded]).hashed) := by
    decide +kernel
  have sameTip : (NodeRun.after [oddDecoded]).engine.storage.getTip.map Prod.snd =
      (NodeRun.after [secondDecoded, paddedDecoded]).engine.storage.getTip.map Prod.snd := by
    decide +kernel
  obtain ⟨-, -, utxos⟩ := agreement_by_tip_hash [oddDecoded] [secondDecoded, paddedDecoded] free
    sameTip
  exact ⟨by decide +kernel, utxos⟩

end Sample

end Aurion
