import Aurion.Node.Authority

/-!
# Runs of a node

A run starts on an empty database with the genesis initialisation and is then
offered decoded blocks, one call after another.  Every reached state is the
ledger replayed from a chain of accepted blocks.
-/

namespace Aurion

open Foundation

variable [Crypto]

/-- A node and the blocks it has committed, the oldest first. -/
structure NodeRun where
  engine : AuthorityEngine
  committed : List Block

namespace NodeRun

def start : NodeRun where
  engine := (initializeGenesis.run.run working (AuthorityEngine.new StorageEngine.empty)).2
  committed := [createGenesisBlock]

def offer (run : NodeRun) (block : Block) : NodeRun :=
  match (processAndCommitBlock block).run.run working run.engine with
  | (.ok (), engine) => { engine, committed := run.committed ++ [block] }
  | (.error _, engine) => { run with engine }

def after (offered : List DecodedBlock) : NodeRun :=
  offered.foldl (fun run decoded => run.offer decoded.block) start

end NodeRun

/-- The database that results from committing the blocks in order. -/
def ledger (committed : List Block) : StorageEngine :=
  committed.foldl (fun storage block => storage.commitBlock block block.spentOutPoints)
    StorageEngine.empty

@[simp]
theorem ledger_append_singleton (committed : List Block) (block : Block) :
    ledger (committed ++ [block]) =
      (ledger committed).commitBlock block block.spentOutPoints := by
  simp [ledger]

/-- The rounds of the table of unspent outputs. -/
def Block.round (block : Block) : Round Bytes Bytes :=
  StorageEngine.utxoRound block block.spentOutPoints

theorem Block.mem_spent_iff (block : Block) (op : OutPoint) :
    op.encodeCanonical ∈ block.round.spent ↔ op ∈ block.spentOutPoints :=
  List.mem_map_of_injective fun _ _ => OutPoint.encodeCanonical_injective

theorem Block.spent_nodup {block : Block} (distinct : block.spentOutPoints.Nodup) :
    block.round.spent.Nodup :=
  distinct.map fun _ _ => OutPoint.encodeCanonical_injective

/-- The outputs a transaction creates, under their outpoints. -/
def Transaction.created (tx : Transaction) : List (OutPoint × TxOutput) :=
  tx.outputs.zipIdx.map fun (output, vout) =>
    ({ txid := tx.txid, vout := UInt32.ofNat vout }, output)

theorem of_mem_created {tx : Transaction} {entry : OutPoint × TxOutput}
    (created : entry ∈ tx.created) : entry.1.txid = tx.txid ∧ entry.2 ∈ tx.outputs := by
  rcases List.mem_map.mp created with ⟨⟨output, vout⟩, isOutput, rfl⟩
  exact ⟨rfl, List.mem_of_getElem? (List.mem_zipIdx_iff_getElem?.mp isOutput)⟩

/-- A round inserts the encodings of what its transactions create. -/
theorem Block.exists_entry_of_created {block : Block} {binding : Bytes × Bytes}
    (created : binding ∈ block.round.created) :
    ∃ tx ∈ block.transactions, ∃ entry ∈ tx.created,
      binding = (entry.1.encodeCanonical, entry.2.encodeCanonical) := by
  rcases List.mem_flatMap.mp created with ⟨tx, inBlock, created⟩
  rcases List.mem_map.mp created with ⟨⟨output, vout⟩, isOutput, rfl⟩
  exact ⟨tx, inBlock, _, List.mem_map_of_mem isOutput, rfl⟩

theorem utxos_ledger (committed : List Block) :
    (ledger committed).utxos = Table.replay (committed.map Block.round) := by
  induction committed using List.reverseRecOn with
  | nil => rfl
  | append_singleton committed block inductionHypothesis =>
      rw [ledger_append_singleton, List.map_append, List.map_singleton,
        Table.replay_append_singleton, ← inductionHypothesis]
      rfl

/-- The conditions under which a block is committed on top of a chain. -/
structure Accepts (committed : List Block) (block : Block) : Prop where
  wellFormed : block.WellFormed
  connects : ∃ tip, committed.getLast? = some tip ∧
    block.header.prevBlockHash = tip.blockHash ∧
    block.header.height.toNat = tip.header.height.toNat + 1
  structured : verifyBlockStructure block block.header.height = .ok ()
  spends : verifyBlockInvariants block (ledger committed).lookup = .ok block.spentOutPoints

/-- The chains of blocks a node can have committed. -/
inductive Chain : List Block → Prop
  | genesis : Chain [createGenesisBlock]
  | extend {committed : List Block} {block : Block} (chain : Chain committed)
      (accepts : Accepts committed block) : Chain (committed ++ [block])

theorem getTip_ledger {committed : List Block} {tip : Block}
    (last : committed.getLast? = some tip) :
    (ledger committed).getTip = some (tip.header.height, tip.blockHash) := by
  rcases List.getLast?_eq_some_iff.mp last with ⟨before, rfl⟩
  rw [ledger_append_singleton, StorageEngine.getTip_commitBlock]

theorem Chain.exists_last {committed : List Block} (chain : Chain committed) :
    ∃ tip, committed.getLast? = some tip := by
  cases chain with
  | genesis => exact ⟨_, rfl⟩
  | @extend committed block => exact ⟨block, by simp⟩

omit [Crypto] in
theorem expectedConnection_eq_ok_iff (tip : UInt64 × Hash256) (expected : UInt64 × Hash256) :
    expectedConnection (some tip) = .ok expected ↔
      expected.1.toNat = tip.1.toNat + 1 ∧ expected.2 = tip.2 := by
  rcases tip with ⟨height, parentHash⟩
  rcases expected with ⟨expectedHeight, expectedParent⟩
  have bound := expectedHeight.toNat_lt
  simp only [expectedConnection]
  split
  next fits =>
      have next : (height + 1).toNat = height.toNat + 1 := by
        rw [UInt64.toNat_add]
        exact Nat.mod_eq_of_lt fits
      simp only [Except.ok.injEq, Prod.mk.injEq, ← UInt64.toNat_inj, next]
      grind
  next full =>
      simp only [reduceCtorEq, false_iff]
      omega

/-- The decision on a well-formed block against the ledger of a chain. -/
theorem verdict_eq_ok_iff {committed : List Block} (chain : Chain committed) {block : Block}
    (wellFormed : block.WellFormed) (cancelSignal : Bool) (spentInputs : List OutPoint) :
    verdict { state := .running, storage := ledger committed, cancelSignal } block =
        .ok spentInputs ↔
      Accepts committed block ∧ spentInputs = block.spentOutPoints := by
  obtain ⟨tip, last⟩ := chain.exists_last
  simp only [verdict, NodeState.isOperational, ensure_eq_ok_iff, except_bind_eq_ok_iff,
    mapError_eq_ok_iff, getTip_ledger last, expectedConnection_eq_ok_iff,
    true_and, exists_const]
  constructor
  · intro passed
    rcases passed with ⟨expected, ⟨height, parent⟩, connects, _, structured, spends⟩
    obtain ⟨_, _, valid⟩ := (verifyBlockStructure_eq_ok_iff _ _).mp structured
    have same := ((verifyBlockInvariants_eq_ok_iff _ _ _).mp spends).2.2
    refine ⟨⟨wellFormed, ⟨tip, last, connects.trans parent, ?_⟩, ?_, ?_⟩, same.symm⟩
    · rw [valid.height, height]
    · rwa [valid.height]
    · rwa [same]
  · intro accepted
    rcases accepted with ⟨accepts, rfl⟩
    obtain ⟨tip', last', connects, height⟩ := accepts.connects
    cases last.symm.trans last'
    exact ⟨(block.header.height, tip.blockHash), ⟨height, rfl⟩, connects, (),
      accepts.structured, accepts.spends⟩

/-- One call extends the chain by an accepted block or changes nothing. -/
theorem NodeRun.offer_eq {run : NodeRun} (chain : Chain run.committed)
    (engine : run.engine =
      { state := .running, storage := ledger run.committed, cancelSignal := false })
    (block : Block) (wellFormed : block.WellFormed) :
    run.offer block = run ∨
      Accepts run.committed block ∧ run.offer block = {
        engine := { state := .running, storage := ledger (run.committed ++ [block])
                    cancelSignal := false }
        committed := run.committed ++ [block] } := by
  have decision := verdict_eq_ok_iff chain wellFormed false
  rw [← engine] at decision
  rw [offer, run_processAndCommitBlock]
  cases verdicts : verdict run.engine block with
  | error error => exact Or.inl rfl
  | ok spentInputs =>
      obtain ⟨accepts, rfl⟩ := (decision spentInputs).mp verdicts
      exact Or.inr ⟨accepts, by simp [engine]⟩

theorem NodeRun.after_concat (offered : List DecodedBlock) (decoded : DecodedBlock) :
    after (offered ++ [decoded]) = (after offered).offer decoded.block := by
  simp [after]

/-- Every reached state is the ledger of a chain. -/
theorem NodeRun.chain_after (offered : List DecodedBlock) :
    Chain (after offered).committed ∧
      (after offered).engine =
        { state := .running, storage := ledger (after offered).committed,
          cancelSignal := false } := by
  induction offered using List.reverseRecOn with
  | nil => exact ⟨.genesis, rfl⟩
  | append_singleton offered decoded inductionHypothesis =>
      obtain ⟨chain, engine⟩ := inductionHypothesis
      rw [after_concat]
      rcases offer_eq chain engine decoded.block decoded.wellFormed with
        unchanged | ⟨accepts, extended⟩
      · rw [unchanged]
        exact ⟨chain, engine⟩
      · rw [extended]
        exact ⟨.extend chain accepts, rfl⟩

section Steps

/-- The condition holds of each block together with the blocks before it. -/
def EveryStep (condition : List Block → Block → Prop) (committed : List Block) : Prop :=
  ∀ step ∈ committed.zipIdx, condition (committed.take step.2) step.1

omit [Crypto] in
theorem everyStep_append_singleton (condition : List Block → Block → Prop)
    (committed : List Block) (block : Block) :
    EveryStep condition (committed ++ [block]) ↔
      EveryStep condition committed ∧ condition committed block := by
  have before : ∀ step ∈ committed.zipIdx,
      (committed ++ [block]).take step.2 = committed.take step.2 := by
    intro step membership
    have position := (List.mem_zipIdx_iff_getElem?.mp membership)
    exact List.take_append_of_le_length (List.getElem?_eq_some_iff.mp position).1.le
  have last : (committed ++ [block]).take committed.length = committed := List.take_left
  unfold EveryStep
  rw [List.zipIdx_append, List.forall_mem_append, Nat.zero_add, List.zipIdx_singleton,
    List.forall_mem_singleton, last]
  apply and_congr_left
  intro _
  constructor
  · intro every step membership
    rw [← before step membership]
    exact every step membership
  · intro every step membership
    rw [before step membership]
    exact every step membership

omit [Crypto] in
theorem everyStep_singleton (condition : List Block → Block → Prop) (block : Block) :
    EveryStep condition [block] ↔ condition [] block := by
  rw [← List.nil_append [block], everyStep_append_singleton]
  exact and_iff_right (by simp [EveryStep])

end Steps

section Shape

theorem genesis_wellFormed : createGenesisBlock.WellFormed where
  transactionCount := by simp [createGenesisBlock]
  transactions := by
    have coinbase : genesisCoinbase.WellFormed := by decide +kernel
    simpa [createGenesisBlock] using coinbase

@[simp]
theorem spending_genesis : createGenesisBlock.spending = [] := by
  have coinbase : genesisCoinbase.isCoinbase = true := by decide +kernel
  simp [Block.spending, createGenesisBlock, coinbase]

theorem Chain.wellFormed {committed : List Block} (chain : Chain committed) :
    ∀ block ∈ committed, block.WellFormed := by
  induction chain with
  | genesis => simpa using genesis_wellFormed
  | extend chain accepts inductionHypothesis =>
      simpa [or_imp, forall_and] using ⟨inductionHypothesis, accepts.wellFormed⟩

/-- Heights count the blocks from zero. -/
theorem Chain.height_eq {committed : List Block} (chain : Chain committed) {index : Nat}
    {block : Block} (at_ : committed[index]? = some block) :
    block.header.height.toNat = index := by
  induction chain generalizing index block with
  | genesis =>
      rw [List.getElem?_singleton] at at_
      split at at_
      next zero =>
          cases at_
          exact zero.symm
      next => cases at_
  | @extend committed new chain accepts inductionHypothesis =>
      rcases (getElem?_concat_eq_some_iff _ _ _ _).mp at_ with older | ⟨rfl, rfl⟩
      · exact inductionHypothesis older
      · obtain ⟨tip, last, -, height⟩ := accepts.connects
        have positive : 0 < committed.length := by
          rcases List.getLast?_eq_some_iff.mp last with ⟨before, rfl⟩
          simp
        have tipHeight := inductionHypothesis (List.getLast?_eq_getElem? ▸ last)
        omega

theorem Chain.length_pos {committed : List Block} (chain : Chain committed) :
    0 < committed.length := by
  cases chain <;> simp

/-- An accepted block's height is the number of blocks before it. -/
theorem Chain.height_of_accepts {committed : List Block} (chain : Chain committed)
    {block : Block} (accepts : Accepts committed block) :
    block.header.height.toNat = committed.length :=
  (Chain.extend chain accepts).height_eq (by simp)

/-- The height of the last marked block is the number of blocks before it. -/
theorem Chain.lastHeight_eq_some_iff {committed : List Block} (chain : Chain committed)
    (marked : Block → Bool) (height : UInt64) :
    (committed.reverse.find? marked).map (fun block => block.header.height) = some height ↔
      ∃ older last newer, committed = older ++ last :: newer ∧ older.length = height.toNat ∧
        marked last = true ∧ ∀ later ∈ newer, marked later = false := by
  have position {older newer : List Block} {last : Block}
      (split : committed = older ++ last :: newer) : last.header.height.toNat = older.length :=
    chain.height_eq (by rw [split]; simp)
  rw [Option.map_eq_some_iff]
  constructor
  · intro found
    obtain ⟨last, found, rfl⟩ := found
    obtain ⟨isMarked, newer, older, split, latest⟩ := List.find?_eq_some_iff_append.mp found
    have split' : committed = older.reverse ++ last :: newer.reverse := by
      rw [← List.reverse_reverse committed, split]
      simp
    exact ⟨older.reverse, last, newer.reverse, split', (position split').symm, isMarked,
      by simpa using latest⟩
  · intro isLast
    obtain ⟨older, last, newer, split, same, isMarked, latest⟩ := isLast
    refine ⟨last, List.find?_eq_some_iff_append.mpr ⟨isMarked, newer.reverse, older.reverse,
      by rw [split]; simp, by simpa using latest⟩, ?_⟩
    exact UInt64.toNat_inj.mp ((position split).trans same)

/-- The transactions after the coinbase are the spending ones. -/
theorem StructureValid.spending_eq {block : Block} {expectedHeight : UInt64}
    {coinbase : Transaction} {others : List Transaction}
    (valid : StructureValid block expectedHeight coinbase others) : block.spending = others := by
  have kept : others.filter (fun tx => !tx.isCoinbase) = others := by
    rw [List.filter_eq_self]
    intro tx membership
    simp [valid.noOther tx membership]
  rw [Block.spending, valid.transactions, List.filter_cons_of_neg (by simp [valid.isCoinbase]),
    kept]

/-- A committed block is a coinbase followed by spending transactions. -/
theorem Accepts.exists_coinbase {committed : List Block} {block : Block}
    (accepts : Accepts committed block) :
    ∃ coinbase, StructureValid block block.header.height coinbase block.spending := by
  obtain ⟨coinbase, others, valid⟩ := (verifyBlockStructure_eq_ok_iff _ _).mp accepts.structured
  exact ⟨coinbase, valid.spending_eq ▸ valid⟩

/-- What the structural check leaves of a committed block, genesis included. -/
structure Shaped (block : Block) (coinbase : Transaction) : Prop where
  transactions : block.transactions = coinbase :: block.spending
  isCoinbase : coinbase.isCoinbase = true
  merkleRoot : block.header.merkleRoot = block.calculateMerkleRoot

theorem StructureValid.shaped {block : Block} {expectedHeight : UInt64}
    {coinbase : Transaction} {others : List Transaction}
    (valid : StructureValid block expectedHeight coinbase others) : Shaped block coinbase where
  transactions := valid.spending_eq ▸ valid.transactions
  isCoinbase := valid.isCoinbase
  merkleRoot := valid.merkleRoot

theorem Chain.exists_shaped {committed : List Block} (chain : Chain committed) :
    ∀ block ∈ committed, ∃ coinbase, Shaped block coinbase := by
  induction chain with
  | genesis =>
      rw [List.forall_mem_singleton]
      refine ⟨genesisCoinbase, ?_, by decide +kernel, ?_⟩
      · rw [spending_genesis]
        rfl
      · exact (HashTree.root_singleton combineHashes Hash256.zero genesisCoinbase.txid).symm
  | extend chain accepts inductionHypothesis =>
      obtain ⟨coinbase, valid⟩ := accepts.exists_coinbase
      rw [List.forall_mem_append, List.forall_mem_singleton]
      exact ⟨inductionHypothesis, coinbase, valid.shaped⟩

/-- Every record of the ledger encodes a well-formed output. -/
theorem Chain.exists_output_of_record {committed : List Block} (chain : Chain committed)
    {key record : Bytes} (found : (ledger committed).utxos.lookup key = some record) :
    ∃ output : TxOutput, output.WellFormed ∧ record = output.encodeCanonical := by
  rw [utxos_ledger] at found
  rcases Table.mem_created_of_lookup_replay _ found with ⟨round, inRounds, created⟩
  rcases List.mem_map.mp inRounds with ⟨block, inChain, rfl⟩
  obtain ⟨tx, inBlock, entry, inTx, binding⟩ := Block.exists_entry_of_created created
  have wellFormed := (chain.wellFormed block inChain).transactions tx inBlock
  exact ⟨entry.2, wellFormed.outputs entry.2 (of_mem_created inTx).2, congrArg Prod.snd binding⟩

end Shape

section Hashed

/-- The pairs of hashes combined in the Merkle tree of a block. -/
def Block.merklePairs (block : Block) : List (Hash256 × Hash256) :=
  HashTree.combined combineHashes (block.transactions.map Transaction.txid)

/-- Byte strings hashed while a block is verified and committed: the header,
the transactions and the inner nodes of the Merkle tree. -/
def Block.hashed (block : Block) : List Bytes :=
  block.header.encodeCanonical :: (block.transactions.map Transaction.encodeCanonical ++
    block.merklePairs.map fun pair => pair.1.asBytes ++ pair.2.asBytes)

def NodeRun.hashed (run : NodeRun) : List Bytes := run.committed.flatMap Block.hashed

theorem Block.transaction_hashed {block : Block} {tx : Transaction}
    (inBlock : tx ∈ block.transactions) : tx.encodeCanonical ∈ block.hashed :=
  List.mem_cons_of_mem _ (List.mem_append_left _ (List.mem_map_of_mem inBlock))

theorem Block.pair_hashed {block : Block} {pair : Hash256 × Hash256}
    (inTree : pair ∈ block.merklePairs) : pair.1.asBytes ++ pair.2.asBytes ∈ block.hashed :=
  List.mem_cons_of_mem _ (List.mem_append_right _ (List.mem_map.mpr ⟨pair, inTree, rfl⟩))

theorem mem_hashed_of_transaction {blocks : List Block} {block : Block} {tx : Transaction}
    (inBlocks : block ∈ blocks) (inBlock : tx ∈ block.transactions) :
    tx.encodeCanonical ∈ blocks.flatMap Block.hashed :=
  List.mem_flatMap.mpr ⟨block, inBlocks, Block.transaction_hashed inBlock⟩

/-- Without collisions a transaction id names one transaction. -/
theorem Transaction.eq_of_txid_eq {left right : Transaction} (leftWellFormed : left.WellFormed)
    (rightWellFormed : right.WellFormed) {hashed : List Bytes} (free : CollisionFree hashed)
    (leftHashed : left.encodeCanonical ∈ hashed) (rightHashed : right.encodeCanonical ∈ hashed)
    (same : left.txid = right.txid) : left = right :=
  Transaction.encodeCanonical_injective leftWellFormed rightWellFormed
    (free _ leftHashed _ rightHashed same)

theorem Chain.eq_of_txid_eq {left right : List Block} (leftChain : Chain left)
    (rightChain : Chain right) {hashed : List Bytes} (free : CollisionFree hashed)
    (leftHashed : left.flatMap Block.hashed ⊆ hashed)
    (rightHashed : right.flatMap Block.hashed ⊆ hashed) {leftBlock rightBlock : Block}
    (leftIn : leftBlock ∈ left) (rightIn : rightBlock ∈ right) {leftTx rightTx : Transaction}
    (inLeft : leftTx ∈ leftBlock.transactions) (inRight : rightTx ∈ rightBlock.transactions)
    (same : leftTx.txid = rightTx.txid) : leftTx = rightTx :=
  Transaction.eq_of_txid_eq ((leftChain.wellFormed leftBlock leftIn).transactions leftTx inLeft)
    ((rightChain.wellFormed rightBlock rightIn).transactions rightTx inRight) free
    (leftHashed (mem_hashed_of_transaction leftIn inLeft))
    (rightHashed (mem_hashed_of_transaction rightIn inRight)) same

end Hashed

namespace Sample

/-! Short chains with their Blake3 digests, on which results about runs are evaluated. -/

def unlocked (value : Nat) : TxOutput :=
  { value := Quantum.fromRaw value, lockingScript := [0x51], datum := .none }

def coinbaseWith (unlockingScript : Bytes) : Transaction where
  version := 1
  inputs := [{
    previousOutput := { txid := Hash256.zero, vout := 0xFFFFFFFF }
    unlockingScript
    sequence := 0xFFFFFFFF
    redeemer := none }]
  outputs := [unlocked 5000]
  locktime := 0

def coinbase : Transaction := coinbaseWith []

def laterCoinbase : Transaction := coinbaseWith [0x02]

def laterCoinbaseId : Hash256 :=
  Hash256.ofNat 0x60886d507d615072e012a4be4c9055d5df3766f6cd185e6169a6e7dcf001b5bc

def coinbaseId : Hash256 :=
  Hash256.ofNat 0x700abf79bb2392ad25f6a246b3ef64b035789a5585d2a75784222ed126d7f22b

/-- A spend of the coinbase. -/
def payment : Transaction where
  version := 1
  inputs := [{
    previousOutput := { txid := coinbaseId, vout := 0 }
    unlockingScript := []
    sequence := 0xFFFFFFFF
    redeemer := none }]
  outputs := [unlocked 5000]
  locktime := 0

def paymentId : Hash256 :=
  Hash256.ofNat 0x706aa65daa7a4b3ec194b4d9f154d1837dfc9769992aed72b316735c1bba3c05

/-- A transaction without inputs. -/
def inputless : Transaction where
  version := 1
  inputs := []
  outputs := [unlocked 0]
  locktime := 0

def inputlessId : Hash256 :=
  Hash256.ofNat 0x49dcdc5578f476808d5c96369d287d49b612a6cd3e098332ce814ee762fb343d

def genesisHash : Hash256 :=
  Hash256.ofNat 0x0000b7f3ebc3f8b89ac9067a377a3f4a8d562f59511fce455632ea7af45abb55

def paymentRoot : Hash256 :=
  Hash256.ofNat 0xc549a6c119d2d0f82c39fc381b36373b78a29c5d6b529a158c83eb9236ccecb6

def header (prevBlockHash merkleRoot : Hash256) (timestamp nonce height : UInt64) :
    BlockHeader where
  version := 1
  prevBlockHash := prevBlockHash
  merkleRoot := merkleRoot
  timestamp := timestamp
  bits := 0x207fffff
  nonce := nonce
  height := height

def first : Block where
  header := header genesisHash coinbaseId 1773446460 0 1
  transactions := [coinbase]

def firstHash : Hash256 :=
  Hash256.ofNat 0x201fb9530eb22cb02ec4b55eeef8295b84e1a6841da9d3bbc3987e7187c548f5

def settledRoot : Hash256 :=
  Hash256.ofNat 0xaa1c48b339ecf18de7b6260ce22d29d75c18af581fadede47c8876279b16d5d3

/-- A new coinbase, and a spend of the one of the first block. -/
def settled : Block where
  header := header firstHash settledRoot 1773446520 4 2
  transactions := [laterCoinbase, payment]

/-- The coinbase of the first block again, and a spend of it. -/
def second : Block where
  header := header firstHash paymentRoot 1773446520 2 2
  transactions := [coinbase, payment]

def secondHash : Hash256 :=
  Hash256.ofNat 0x18507ce998f737116d5b1f6c542ba3a9a3d62bf8b82c6f08fcf529d4d96108da

/-- The transactions of the second block again. -/
def third : Block where
  header := header secondHash paymentRoot 1773446580 0 3
  transactions := [coinbase, payment]

/-- A competitor of the first block. -/
def rival : Block where
  header := header genesisHash coinbaseId 1773446461 1 1
  transactions := [coinbase]

def oddRoot : Hash256 :=
  Hash256.ofNat 0x4c8673b54176fd92892cd716a82c0f8bffd8664e3b4a8826fa1ec19722bac93c

def odd : Block where
  header := header genesisHash oddRoot 1773446460 0 1
  transactions := [coinbase, inputless, inputless]

/-- The same header over a list whose last transaction is written once more. -/
def padded : Block := { odd with transactions := odd.transactions ++ [inputless] }

def oddLayer : Hash256 × Hash256 :=
  (Hash256.ofNat 0xe1b1e010daa7d346488ba85e852992a70699b9e44b7df693cc1968c4b237fe5b,
    Hash256.ofNat 0x63ef1cfadc60e4bdf1ab6deab86cb83ea832825f2da942cb9b526298b1ff41dc)

def genesisId : Hash256 :=
  Hash256.ofNat 0x3a12fe0eb7cf3486e39a8ce83d09dcd1d7df8d41e19d66103d933ed7a99ace94

def genesisHeader : BlockHeader where
  version := 1
  prevBlockHash := Hash256.zero
  merkleRoot := genesisId
  timestamp := genesisTimestamp
  bits := maxTargetBits
  nonce := genesisNonce
  height := 0

def digests : List (Bytes × Hash256) := [
  (genesisCoinbase.encodeCanonical, genesisId),
  (coinbase.encodeCanonical, coinbaseId),
  (laterCoinbase.encodeCanonical, laterCoinbaseId),
  (payment.encodeCanonical, paymentId),
  (inputless.encodeCanonical, inputlessId),
  (payment.sighashPreimage 0,
    Hash256.ofNat 0x7f9fd8150068a027ded6081509c8089e9b932dc06529294161ffdd2b08e7f078),
  (coinbaseId.asBytes ++ paymentId.asBytes, paymentRoot),
  (laterCoinbaseId.asBytes ++ paymentId.asBytes, settledRoot),
  (coinbaseId.asBytes ++ inputlessId.asBytes, oddLayer.1),
  (inputlessId.asBytes ++ inputlessId.asBytes, oddLayer.2),
  (oddLayer.1.asBytes ++ oddLayer.2.asBytes, oddRoot),
  (genesisHeader.encodeCanonical, genesisHash),
  (first.header.encodeCanonical, firstHash),
  (settled.header.encodeCanonical,
    Hash256.ofNat 0x660b2116a6ee4d565cbb37ef95f1cd3b647047ecf56b0c08f9b84c30e3d6b52a),
  (second.header.encodeCanonical, secondHash),
  (third.header.encodeCanonical,
    Hash256.ofNat 0x195aa4239d6bc2a1f7d5e68835a585de1b603c2c4e41758c2de6d2f9c9fa7f9e),
  (rival.header.encodeCanonical,
    Hash256.ofNat 0x446aa353b0a14789f4b88e4dbb14a3e4c4026342b9f0c1355bc323dc8404ccb3),
  (odd.header.encodeCanonical,
    Hash256.ofNat 0x0887639fad70de3c54706e86b1239ae43a0f61ec4a1574fcdc3a2fbf68f92a61)]

/-- The primitives on the byte strings of these chains; no signature is checked. -/
abbrev crypto : Crypto := Crypto.ofTables digests []

def firstDecoded : DecodedBlock := .ofWellFormed first (by decide +kernel)

def settledDecoded : DecodedBlock := .ofWellFormed settled (by decide +kernel)

def secondDecoded : DecodedBlock := .ofWellFormed second (by decide +kernel)

def thirdDecoded : DecodedBlock := .ofWellFormed third (by decide +kernel)

def oddDecoded : DecodedBlock := .ofWellFormed odd (by decide +kernel)

def paddedDecoded : DecodedBlock := .ofWellFormed padded (by decide +kernel)

end Sample

end Aurion
