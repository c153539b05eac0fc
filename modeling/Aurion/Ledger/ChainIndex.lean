import Aurion.Ledger.Agreement

/-!
# The chain index

The database finds a block by its hash and by its height.  On the ledger of a
chain both reads return the committed block, and no read finds anything else
at a height.  Restarting the engine on the same database changes nothing.
-/

namespace Aurion

open Foundation

section Reads

variable [Crypto]

/-- The block table keeps every committed body: heights keep the hashes apart. -/
theorem Chain.lookup_blocks {committed : List Block} (chain : Chain committed)
    (free : CollisionFree (committed.flatMap Block.hashed)) {block : Block}
    (inChain : block ∈ committed) :
    (ledger committed).blocks.lookup block.blockHash.asBytes = some block.encodeCanonical := by
  induction chain with
  | genesis =>
      obtain rfl := List.mem_singleton.mp inChain
      exact Table.lookup_insert _ _ _ _ |>.trans (if_pos rfl)
  | @extend committed new chain accepts inductionHypothesis =>
      have whole := Chain.extend chain accepts
      have earlier : committed.flatMap Block.hashed ⊆
          (committed ++ [new]).flatMap Block.hashed := by
        rw [List.flatMap_append]
        exact List.subset_append_left _ _
      rw [ledger_append_singleton]
      refine (Table.lookup_insert _ _ _ _).trans ?_
      rcases List.mem_append.mp inChain with old | last
      · rw [if_neg, inductionHypothesis (free.mono earlier) old]
        intro sameHash
        have newIn := List.mem_append_right committed (List.mem_singleton_self new)
        have sameHeader := header_eq_of_blockHash_eq free (List.Subset.refl _)
          (List.Subset.refl _) inChain newIn (Hash256.ext sameHash)
        obtain ⟨index, position⟩ := List.getElem?_of_mem old
        have below := (List.getElem?_eq_some_iff.mp position).1
        have height := chain.height_eq position
        have newHeight := chain.height_of_accepts accepts
        rw [sameHeader] at height
        omega
      · obtain rfl := List.mem_singleton.mp last
        exact if_pos rfl

theorem Chain.getBlock {committed : List Block} (chain : Chain committed)
    (free : CollisionFree (committed.flatMap Block.hashed)) {block : Block}
    (inChain : block ∈ committed) :
    (ledger committed).getBlock block.blockHash = .ok (some block) := by
  have decoded : (decodeCanonical block.encodeCanonical : Except CodecError Block) = .ok block :=
    (decodeCanonical_eq_ok_iff Block.canonical _ _).mpr ⟨chain.wellFormed block inChain, rfl⟩
  rw [StorageEngine.getBlock, chain.lookup_blocks free inChain]
  simp only [decoded]
  rfl

/-- A read by height returns the committed block at this height, if there is one. -/
theorem Chain.getBlockByHeight {committed : List Block} (chain : Chain committed)
    (free : CollisionFree (committed.flatMap Block.hashed)) (height : UInt64) :
    (ledger committed).getBlockByHeight height = .ok committed[height.toNat]? := by
  rw [StorageEngine.getBlockByHeight, chain.lookup_heightIndex]
  cases at_ : committed[height.toNat]? with
  | none => rfl
  | some block =>
      simp only [Option.map_some, Hash256.fromSlice_asBytes]
      exact chain.getBlock free (List.mem_of_getElem? at_)

omit [Crypto] in
theorem toNat_pred_add_one {height : UInt64} (above : 0 < height) :
    (height - 1).toNat + 1 = height.toNat := by
  have one : (1 : UInt64) ≤ height :=
    UInt64.le_iff_toNat_le.mpr (Nat.succ_le_of_lt (UInt64.lt_iff_toNat_lt.mp above))
  rw [UInt64.toNat_sub_of_le _ _ one]
  exact Nat.sub_add_cancel (UInt64.le_iff_toNat_le.mp one)

/-- Every block above genesis names the block below it as its parent. -/
theorem Chain.exists_parent {committed : List Block} (chain : Chain committed) {index : Nat}
    {block : Block} (at_ : committed[index + 1]? = some block) :
    ∃ parent, committed[index]? = some parent ∧
      block.header.prevBlockHash = parent.blockHash := by
  induction chain with
  | genesis => simp at at_
  | @extend committed new chain accepts inductionHypothesis =>
      rcases (getElem?_concat_eq_some_iff _ _ _ _).mp at_ with older | ⟨top, rfl⟩
      · obtain ⟨parent, parentAt, connects⟩ := inductionHypothesis older
        have below := (List.getElem?_eq_some_iff.mp parentAt).1
        exact ⟨parent, by rwa [List.getElem?_append_left below], connects⟩
      · obtain ⟨tip, last, connects, -⟩ := accepts.connects
        have tipAt : committed[index]? = some tip := by
          rw [← last, List.getLast?_eq_getElem?, ← top, Nat.add_sub_cancel]
        have below := (List.getElem?_eq_some_iff.mp tipAt).1
        exact ⟨tip, by rwa [List.getElem?_append_left below], connects⟩

end Reads

section Restarts

variable [Crypto]

/-- A call on a node: the engine is built anew on the same database and
initialised, or is offered a block. -/
inductive NodeCall
  | startUp
  | offer (decoded : DecodedBlock)

def NodeRun.startUp (run : NodeRun) : NodeRun where
  engine := (initializeGenesis.run.run working (AuthorityEngine.new run.engine.storage)).2
  committed := run.committed

def NodeRun.call (run : NodeRun) : NodeCall → NodeRun
  | .startUp => run.startUp
  | .offer decoded => run.offer decoded.block

/-- The node after its first start-up on an empty database and further calls. -/
def NodeRun.afterCalls (calls : List NodeCall) : NodeRun := calls.foldl NodeRun.call start

/-- Initialisation on a database with a tip only enters the running state. -/
theorem run_initializeGenesis_of_tip {storage : StorageEngine} {tip : UInt64 × Hash256}
    (found : storage.getTip = some tip) :
    initializeGenesis.run.run working (AuthorityEngine.new storage) =
      (.ok (), { state := .running, storage, cancelSignal := false }) := by
  have afterTip : initializeGenesis.run.run working (AuthorityEngine.new storage) =
      ((if storage.getTip.isNone then do
          settle ((← ask (.commitBlock createGenesisBlock [])).mapError fun error =>
            .storage error.message)
          ask (.writeState .running)
        else ask (.writeState .running)) : AuthorityM Unit).run.run working
          { state := .recovering, storage, cancelSignal := false } := rfl
  rw [afterTip, found]
  rfl

/-- With restarts, too, every reached state is the ledger of a chain. -/
theorem NodeRun.chain_afterCalls (calls : List NodeCall) :
    Chain (afterCalls calls).committed ∧
      (afterCalls calls).engine =
        { state := .running, storage := ledger (afterCalls calls).committed,
          cancelSignal := false } := by
  induction calls using List.reverseRecOn with
  | nil => exact ⟨.genesis, rfl⟩
  | append_singleton calls call inductionHypothesis =>
      obtain ⟨chain, engine⟩ := inductionHypothesis
      have last : afterCalls (calls ++ [call]) = (afterCalls calls).call call := by
        simp [afterCalls]
      rw [last]
      cases call with
      | startUp =>
          obtain ⟨tip, atTip⟩ := chain.exists_last
          have restarted := run_initializeGenesis_of_tip (getTip_ledger atTip)
          refine ⟨chain, ?_⟩
          simp only [NodeRun.call, NodeRun.startUp, engine, restarted]
      | offer decoded =>
          rcases offer_eq chain engine decoded.block decoded.wellFormed with
            unchanged | ⟨accepts, extended⟩
          · simp only [NodeRun.call, unchanged]
            exact ⟨chain, engine⟩
          · simp only [NodeRun.call, extended]
            exact ⟨.extend chain accepts, trivial⟩

end Restarts

section Integrity

variable [Crypto]

/-- The reads of a database return these blocks at the heights up to a tip. -/
structure IndexesChain (storage : StorageEngine) (committed : List Block) (height : UInt64) :
    Prop where
  stored : ∀ k ≤ height, ∃ block, committed[k.toNat]? = some block ∧
    storage.getBlockByHeight k = .ok (some block) ∧ block.header.height = k ∧
    storage.getBlock block.blockHash = .ok (some block)
  linked : ∀ k block, 0 < k → k ≤ height → storage.getBlockByHeight k = .ok (some block) →
    ∃ parent, storage.getBlockByHeight (k - 1) = .ok (some parent) ∧
      block.header.prevBlockHash = parent.blockHash
  beyond : ∀ k, height < k →
    storage.heightIndex.lookup k = none ∧ storage.getBlockByHeight k = .ok none

theorem Chain.indexesChain {committed : List Block} (chain : Chain committed)
    (free : CollisionFree (committed.flatMap Block.hashed)) {tip : Block}
    (last : committed.getLast? = some tip) :
    IndexesChain (ledger committed) committed tip.header.height where
  stored := by
    intro k below
    have tipHeight := chain.height_of_last last
    have positive := chain.length_pos
    have inRange : k.toNat < committed.length := by
      have := UInt64.le_iff_toNat_le.mp below
      omega
    have at_ := List.getElem?_eq_getElem inRange
    refine ⟨_, at_, by rw [chain.getBlockByHeight free, at_], ?_,
      chain.getBlock free (List.getElem_mem inRange)⟩
    exact UInt64.toNat_inj.mp (chain.height_eq at_)
  linked := by
    intro k block above below found
    rw [chain.getBlockByHeight free, Except.ok.injEq, ← toNat_pred_add_one above] at found
    obtain ⟨parent, parentAt, connects⟩ := chain.exists_parent found
    exact ⟨parent, by rw [chain.getBlockByHeight free, parentAt], connects⟩
  beyond := by
    intro k above
    have tipHeight := chain.height_of_last last
    have outside : committed[k.toNat]? = none := by
      have := UInt64.lt_iff_toNat_lt.mp above
      rw [List.getElem?_eq_none]
      omega
    refine ⟨?_, by rw [chain.getBlockByHeight free, outside]⟩
    rw [chain.lookup_heightIndex, outside]
    rfl

/-- After any start-ups and offered blocks, the tip, the height index and the
block table describe one chain of the committed blocks; a start-up succeeds,
and a call that fails changes nothing. -/
theorem chain_index_integrity (calls : List NodeCall)
    (free : CollisionFree (NodeRun.afterCalls calls).hashed) :
    let run := NodeRun.afterCalls calls
    (∃ height tip, run.engine.storage.getTip = some (height, tip.blockHash) ∧
      run.engine.storage.getBlockByHeight height = .ok (some tip) ∧
      IndexesChain run.engine.storage run.committed height) ∧
    (initializeGenesis.run.run working (AuthorityEngine.new run.engine.storage)).1 = .ok () ∧
    ∀ block error, ((processAndCommitBlock block).run.run working run.engine).1 = .error error →
      ((processAndCommitBlock block).run.run working run.engine).2 = run.engine := by
  intro run
  obtain ⟨chain, engine⟩ := NodeRun.chain_afterCalls calls
  obtain ⟨tip, last⟩ := chain.exists_last
  refine ⟨⟨tip.header.height, tip, ?_⟩, ?_, ?_⟩
  · have storage : run.engine.storage = ledger run.committed :=
      congrArg AuthorityEngine.storage engine
    have indexes := chain.indexesChain free last
    have tipAt : run.committed[tip.header.height.toNat]? = some tip := by
      rw [chain.height_of_last last, ← List.getLast?_eq_getElem?]
      exact last
    rw [storage]
    exact ⟨getTip_ledger last, by rw [chain.getBlockByHeight free, tipAt], indexes⟩
  · rw [engine, run_initializeGenesis_of_tip (getTip_ledger last)]
  · intro block error failed
    rw [run_processAndCommitBlock] at failed ⊢
    cases verdicts : verdict run.engine block with
    | error _ => rfl
    | ok spentInputs =>
        rw [verdicts] at failed
        cases failed

end Integrity

section Sample

open Sample

attribute [local instance] Sample.crypto

/-- Two blocks, a restart between them and a refused block at the end. -/
theorem chain_index_integrity_restarted :
    ∃ block, (NodeRun.afterCalls [.offer firstDecoded, .startUp, .offer settledDecoded,
        .offer secondDecoded]).engine.storage.getBlockByHeight 2 = .ok (some block) ∧
      block.header.height = 2 := by
  have free : CollisionFree (NodeRun.afterCalls [.offer firstDecoded, .startUp,
      .offer settledDecoded, .offer secondDecoded]).hashed := by
    decide +kernel
  have tip : (NodeRun.afterCalls [.offer firstDecoded, .startUp, .offer settledDecoded,
      .offer secondDecoded]).engine.storage.getTip.map Prod.fst = some 2 := by
    decide +kernel
  obtain ⟨⟨height, block, found, read, indexes⟩, -⟩ := chain_index_integrity [.offer firstDecoded,
    .startUp, .offer settledDecoded, .offer secondDecoded] free
  rw [found, Option.map_some, Option.some.injEq] at tip
  obtain rfl : height = 2 := tip
  obtain ⟨stored, -, readStored, storedHeight, -⟩ := indexes.stored 2 (UInt64.le_refl 2)
  exact ⟨stored, readStored, storedHeight⟩

end Sample

end Aurion
