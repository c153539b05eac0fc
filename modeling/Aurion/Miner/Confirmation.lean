import Aurion.Miner.Loop

/-!
# Confirmations

A miner that works alone turns the pool into blocks without losing a transaction,
or it stands still for good.
-/

namespace Aurion

open Foundation

section Drain

variable [Crypto] {pool : Mempool} {block : Block} {selected : List Transaction}

namespace Mempool

/-- The block has the selected transactions of the pool and leaves the other ones. -/
structure Takes (pool : Mempool) (block : Block) (selected : List Transaction) : Prop where
  staged : selected.Sublist pool.stagedTransactions
  included : selected ⊆ block.transactions
  absent : ∀ tx ∈ pool.stagedTransactions, tx ∉ selected →
    tx.txid ∉ block.transactions.map Transaction.txid
  unspent : ∀ tx ∈ pool.stagedTransactions, tx ∉ selected →
    ∀ op ∈ tx.outPoints, op ∉ block.blockSpent

namespace Consistent

variable (consistent : pool.Consistent)

include consistent

theorem nodup_stagedTransactions : pool.stagedTransactions.Nodup := by
  have distinct := consistent.txids_nodup
  rw [List.Nodup, List.pairwise_map] at distinct
  rw [stagedTransactions, transactionsAt, List.Nodup, List.pairwise_filterMap,
    List.pairwise_reverse]
  apply distinct.imp
  intro left right different rightTx rightStaged leftTx leftStaged same
  obtain ⟨rightEntry, rightFound, rfl⟩ := Option.map_eq_some_iff.mp rightStaged
  obtain ⟨leftEntry, leftFound, rfl⟩ := Option.map_eq_some_iff.mp leftStaged
  apply different
  rw [← (consistent.stored _ _ leftFound).hash, ← (consistent.stored _ _ rightFound).hash, same]

theorem mem_staged_of_takes (takes : pool.Takes block selected) (tx : Transaction) :
    tx ∈ (pool.processCommittedBlock block).stagedTransactions ↔
      tx ∈ pool.stagedTransactions ∧ tx ∉ selected := by
  rw [(consistent.processCommittedBlock block).mem_stagedTransactions_iff]
  constructor
  · rintro ⟨txid, entry, kept, rfl⟩
    obtain ⟨found, absent, -⟩ := (consistent.lookup_processCommittedBlock block _ _).mp kept
    refine ⟨(consistent.mem_stagedTransactions_iff _).mpr ⟨txid, entry, found, rfl⟩, ?_⟩
    intro isSelected
    rw [← (consistent.stored _ _ found).hash] at absent
    exact absent (List.mem_map_of_mem (takes.included isSelected))
  · rintro ⟨staged, left⟩
    obtain ⟨txid, entry, found, rfl⟩ := (consistent.mem_stagedTransactions_iff _).mp staged
    refine ⟨txid, entry, (consistent.lookup_processCommittedBlock block _ _).mpr
      ⟨found, ?_, takes.unspent _ staged left⟩, rfl⟩
    rw [← (consistent.stored _ _ found).hash]
    exact takes.absent _ staged left

/-- What a block takes and what it leaves is what was staged. -/
theorem perm_of_takes (takes : pool.Takes block selected) :
    (selected ++ (pool.processCommittedBlock block).stagedTransactions).Perm
      pool.stagedTransactions := by
  have mem := consistent.mem_staged_of_takes takes
  have after := (consistent.processCommittedBlock block).nodup_stagedTransactions
  have before := consistent.nodup_stagedTransactions
  rw [List.perm_ext_iff_of_nodup (List.nodup_append'.mpr ⟨takes.staged.nodup before, after, ?_⟩)
    before]
  · intro tx
    rw [List.mem_append, mem]
    constructor
    · rintro (isSelected | ⟨staged, -⟩)
      · exact takes.staged.subset isSelected
      · exact staged
    · intro staged
      by_cases isSelected : tx ∈ selected
      · exact Or.inl isSelected
      · exact Or.inr ⟨staged, isSelected⟩
  · intro tx isSelected kept
    exact ((mem tx).mp kept).2 isSelected

/-- A selection for a block that has room for any transaction takes at least one. -/
theorem select_ne_nil {limit : Nat} (room : maxTxSizeBytes ≤ limit)
    (some_ : pool.stagedTransactions ≠ []) : pool.selectTransactionsForBlock limit ≠ [] := by
  have total : ((pool.entriesAt pool.byFeeRate.reverse).map MempoolEntry.sizeBytes).sum ≤
      pool.totalBytes := by
    rw [sum_entriesAt, List.map_reverse, List.sum_reverse]
    exact consistent.indexed_le_total
  obtain ⟨packed, -⟩ := pool.selectFrom_eq_pack limit pool.byFeeRate.reverse 0
    (by have fits := consistent.fits; omega)
  have entries : pool.stagedTransactions =
      (pool.entriesAt pool.byFeeRate.reverse).map MempoolEntry.tx := by
    rw [stagedTransactions, transactionsAt, entriesAt, List.map_filterMap]
  rw [selectTransactionsForBlock, packed]
  cases shape : pool.entriesAt pool.byFeeRate.reverse with
  | nil => exact absurd (entries.trans (by rw [shape]; rfl)) some_
  | cons entry rest =>
      have isEntry : entry ∈ pool.entriesAt pool.byFeeRate.reverse := by simp [shape]
      have small := (consistent.stored _ _ ((consistent.mem_entriesAt_iff entry).mp isEntry)).small
      rw [Greedy.pack, if_pos (by omega)]
      simp

end Consistent

end Mempool

end Drain

section Confirmation

open Miner

variable [Crypto] {txs : List Transaction} {run : StagingRun} {template : BlockTemplate}
  {payoutScript : Bytes} {block : Block}

omit [Crypto] in
theorem Miner.vout_of_coinbase {height extraNonce : UInt64} {subsidy fees : Quantum}
    {coinbase : Transaction}
    (built : buildCoinbaseTransaction height payoutScript subsidy fees extraNonce = .ok coinbase)
    {op : OutPoint} (spends : op ∈ coinbase.outPoints) : op.vout = 0xFFFFFFFF := by
  rw [buildCoinbaseTransaction, except_bind_eq_ok_iff] at built
  obtain ⟨reward, -, built⟩ := built
  cases built
  rw [List.mem_singleton.mp spends]

omit [Crypto] in
theorem Miner.wellFormed_coinbase {height extraNonce : UInt64} {subsidy fees : Quantum}
    {coinbase : Transaction} (short : payoutScript.length < 2 ^ 32)
    (built : buildCoinbaseTransaction height payoutScript subsidy fees extraNonce =
      .ok coinbase) : coinbase.WellFormed := by
  rw [buildCoinbaseTransaction, except_bind_eq_ok_iff] at built
  obtain ⟨reward, -, built⟩ := built
  cases built
  have push : (bip34Push height extraNonce).length < 2 ^ 32 := by simp [bip34Push]
  exact {
    inputCount := by simp
    inputs := by
      rw [List.forall_mem_singleton]
      refine ⟨push, ?_⟩
      intro bytes absent
      cases absent
    outputCount := by simp
    outputs := by
      rw [List.forall_mem_singleton]
      exact ⟨short, trivial⟩ }

namespace StagingRun.Sound

theorem of_staged (sound : run.Sound txs) {tx : Transaction}
    (staged : tx ∈ run.mempool.stagedTransactions) :
    tx ∈ txs ∧ tx.Funded run.storage.lookup := by
  obtain ⟨txid, entry, found, rfl⟩ := (sound.consistent.mem_stagedTransactions_iff tx).mp staged
  exact ⟨sound.staged txid entry found, sound.funded txid entry found⟩

/-- No output has the number that the inputs of coinbases name. -/
theorem lookup_last (sound : run.Sound txs) (distinctIds : DistinctIds txs) {op : OutPoint}
    (last : op.vout = 0xFFFFFFFF) : run.storage.lookup op = none := by
  cases found : run.storage.lookup op with
  | none => rfl
  | some output =>
      rw [sound.storage_eq] at found
      obtain ⟨block, inChain, tx, inBlock, -, position⟩ :=
        exists_creates_of_lookup (sound.wellNamed distinctIds) found
      have below := (List.getElem?_eq_some_iff.mp position).1
      have count := ((sound.chain.wellFormed block inChain).transactions tx inBlock).outputCount
      have top : (0xFFFFFFFF : UInt32).toNat = 2 ^ 32 - 1 := rfl
      rw [last, top] at below
      omega

/-- A mined block takes the transactions of its template out of the pool. -/
theorem takes_mined (sound : run.Sound txs) (distinctIds : DistinctIds txs)
    (mined : Mined payoutScript run template block) (known : block.transactions ⊆ txs) :
    run.mempool.Takes block template.transactions := by
  obtain ⟨coinbase, built⟩ := mined.built
  obtain ⟨clock, returned⟩ := mined.returned
  obtain ⟨staged, -⟩ := sound.staged_of_template returned
  obtain ⟨extraNonce, isBuilt⟩ := built.assembled
  refine ⟨staged, ?_, ?_, ?_⟩
  · rw [built.transactions]
    exact List.subset_cons_self _ _
  · intro tx isStaged left inBlock
    obtain ⟨other, isOther, same⟩ := List.mem_map.mp inBlock
    obtain ⟨isKnown, funded⟩ := sound.of_staged isStaged
    obtain rfl := distinctIds other (known isOther) tx isKnown same
    rw [built.transactions, List.mem_cons] at isOther
    obtain rfl | isSelected := isOther
    · have isCoinbase := (coinbase_of_built isBuilt).1
      rw [funded.notCoinbase] at isCoinbase
      cases isCoinbase
    · exact left isSelected
  · intro tx isStaged left op spends inBlock
    rw [Block.blockSpent, built.transactions, List.flatMap_cons, List.mem_append] at inBlock
    obtain ofCoinbase | ofSelected := inBlock
    · have held := (sound.of_staged isStaged).2.found op spends
      rw [sound.lookup_last distinctIds (vout_of_coinbase isBuilt ofCoinbase)] at held
      cases held
    · obtain ⟨other, isSelected, spends'⟩ := List.mem_flatMap.mp ofSelected
      obtain ⟨txid, entry, found, rfl⟩ :=
        (sound.consistent.mem_stagedTransactions_iff tx).mp isStaged
      obtain ⟨txid', entry', found', rfl⟩ :=
        (sound.consistent.mem_stagedTransactions_iff other).mp (staged.subset isSelected)
      obtain rfl := sound.consistent.eq_of_common_outPoint found found' spends spends'
      cases found.symm.trans found'
      exact left isSelected

/-- A block mined from well-formed transactions is well formed. -/
theorem wellFormed_mined (sound : run.Sound txs) (wellFormed : ∀ tx ∈ txs, tx.WellFormed)
    (short : payoutScript.length < 2 ^ 32) (mined : Mined payoutScript run template block) :
    block.WellFormed := by
  obtain ⟨coinbase, built⟩ := mined.built
  obtain ⟨clock, returned⟩ := mined.returned
  obtain ⟨staged, -⟩ := sound.staged_of_template returned
  obtain ⟨extraNonce, isBuilt⟩ := built.assembled
  obtain ⟨_, -, -, -, -, -, selected⟩ := Node.of_template returned
  have recorded : run.resting.mempool.SizesRecorded :=
    fun txid entry found => (sound.consistent.stored txid entry found).size
  have within : (template.transactions.flatMap Transaction.encodeCanonical).length ≤
      RpcHandler.maxBlockPayloadBytes := by
    rw [selected]
    exact Node.selectsWithin recorded (.selectTransactions RpcHandler.maxBlockPayloadBytes)
  have counted := Transaction.length_le_flatMap template.transactions
  have limit : RpcHandler.maxBlockPayloadBytes + 1 < 2 ^ 32 := by decide
  constructor
  · rw [built.transactions, List.length_cons]
    omega
  · rw [built.transactions, List.forall_mem_cons]
    exact ⟨wellFormed_coinbase short isBuilt, fun tx isSelected =>
      wellFormed tx (sound.of_staged (staged.subset isSelected)).1⟩

end StagingRun.Sound

namespace Miner

/-- The blocks carry the chain and the pool from one state to another.  What is
staged at first is in one of the blocks or still staged, and each block takes a
transaction as long as there is one. -/
structure Confirms (payoutScript : Bytes) (before after : StagingRun) (blocks : List Block) :
    Prop where
  committed : after.node.committed = before.node.committed ++ blocks
  conserved : (blocks.flatMap Block.spending ++ after.mempool.stagedTransactions).Perm
    before.mempool.stagedTransactions
  advances : after.mempool.stagedTransactions = [] ∨
    blocks.length + after.mempool.stagedTransactions.length ≤
      before.mempool.stagedTransactions.length
  rewarded : ∀ block ∈ blocks, ∃ coinbase extraNonce,
    buildCoinbaseTransaction block.header.height payoutScript
      (calculateBlockSubsidy block.header.height) Quantum.zero extraNonce = .ok coinbase ∧
    block.transactions = coinbase :: block.spending

omit [Crypto] in
theorem Confirms.refl (payoutScript : Bytes) (run : StagingRun) :
    Confirms payoutScript run run [] where
  committed := (List.append_nil _).symm
  conserved := List.Perm.refl _
  advances := Or.inr (Nat.zero_add _).le
  rewarded := List.forall_mem_nil _

omit [Crypto] in
theorem Confirms.trans {first second third : StagingRun} {blocks later : List Block}
    (confirms : Confirms payoutScript first second blocks)
    (confirmsLater : Confirms payoutScript second third later) :
    Confirms payoutScript first third (blocks ++ later) where
  committed := by
    rw [confirmsLater.committed, confirms.committed, List.append_assoc]
  conserved := by
    rw [List.flatMap_append, List.append_assoc]
    exact (confirmsLater.conserved.append_left _).trans confirms.conserved
  advances := by
    obtain empty | fewer := confirmsLater.advances
    · exact Or.inl empty
    · obtain empty | fewer' := confirms.advances
      · rw [empty, List.length_nil] at fewer
        exact Or.inl (List.length_eq_zero_iff.mp (by omega))
      · rw [List.length_append]
        exact Or.inr (by omega)
  rewarded := List.forall_mem_append.mpr ⟨confirms.rewarded, confirmsLater.rewarded⟩

end Miner

/-- A mined block that is submitted at once is refused, or it confirms its
transactions. -/
theorem StagingRun.Sound.confirms_mined (sound : run.Sound txs) (distinctIds : DistinctIds txs)
    {decoded : DecodedBlock} (mined : Mined payoutScript run template decoded.block)
    (known : decoded.block.transactions ⊆ txs) :
    run.call (.submit decoded) = run ∨
      Confirms payoutScript run (run.call (.submit decoded)) [decoded.block] := by
  obtain ⟨accepts, committed, cleaned⟩ | ⟨-, same⟩ := sound.submit_iff decoded
  · right
    obtain ⟨coinbase, built⟩ := mined.built
    obtain ⟨clock, returned⟩ := mined.returned
    obtain ⟨extraNonce, isBuilt⟩ := built.assembled
    obtain ⟨_, -, -, -, -, subsidy, selected⟩ := Node.of_template returned
    obtain ⟨-, funded⟩ := sound.staged_of_template returned
    have spending := built.spending_eq fun tx isIn => (funded tx isIn).notCoinbase
    have conserved := sound.consistent.perm_of_takes (sound.takes_mined distinctIds mined known)
    have sizes := conserved.length_eq
    rw [List.length_append] at sizes
    refine ⟨committed, ?_, ?_, ?_⟩
    · rw [cleaned, List.flatMap_singleton, spending]
      exact conserved
    · rw [cleaned]
      by_cases empty : run.mempool.stagedTransactions = []
      · rw [empty, List.length_nil] at sizes
        exact Or.inl (List.length_eq_zero_iff.mp (by omega))
      · have nonempty : template.transactions ≠ [] := by
          rw [selected]
          exact sound.consistent.select_ne_nil (by decide) empty
        have positive := List.length_pos_iff.mpr nonempty
        rw [List.length_singleton]
        exact Or.inr (by omega)
    · rw [List.forall_mem_singleton]
      refine ⟨coinbase, extraNonce, ?_, ?_⟩
      · rw [built.height, ← RpcHandler.calculateBlockSubsidy_eq, ← subsidy]
        exact isBuilt
      · rw [spending]
        exact built.transactions
  · exact Or.inl same

/-- A mined block is refused when the template has a transaction whose contract does not
accept at the next height. -/
theorem StagingRun.Sound.refuses_mined (sound : run.Sound txs) {decoded : DecodedBlock}
    (mined : Mined payoutScript run template decoded.block) {tx : Transaction}
    (selected : tx ∈ run.mempool.selectTransactionsForBlock RpcHandler.maxBlockPayloadBytes)
    (refused : ¬ tx.ContractsAccept run.storage.lookup (run.storage.tip.1 + 1)) :
    run.call (.submit decoded) = run := by
  obtain ⟨accepts, -⟩ | ⟨-, same⟩ := sound.submit_iff decoded
  · obtain ⟨clock, returned⟩ := mined.returned
    obtain ⟨height, top, -, isHeight, -, -, transactions⟩ := Node.of_template returned
    have accept := (sound.accepts_mined_iff mined decoded.wellFormed).mp accepts tx
      (transactions ▸ selected)
    have isTip : run.storage.tip.1 = height := congrArg Prod.fst top
    rw [isHeight, ← isTip] at accept
    exact absurd accept refused
  · exact same

end Confirmation

section Loop

open Miner

variable [Crypto] {maxBytes : Nat} {payoutScript : Bytes}

namespace Miner

omit [Crypto] in
/-- The node reads the block that was sent. -/
theorem block_of_received {block : Block} (wellFormed : block.WellFormed) {decoded : DecodedBlock}
    (arrived : received block = some decoded) : decoded.block = block := by
  unfold received at arrived
  split at arrived
  next other read =>
      obtain ⟨-, valid, same⟩ := (RpcRequest.submittedBlock_eq_some_iff _ _).mp read
      cases arrived
      have requests : RpcRequest.submitBlock block = RpcRequest.submitBlock other :=
        RpcRequest.canonical.encode_injective wellFormed valid same
      cases requests
      rfl
  next => cases arrived

/-- A pass without other calls submits a block mined on what it finds, or nothing. -/
theorem MiningLoop.pass_cases {loop loop' : MiningLoop} {pass : Pass}
    (quiet : pass.meanwhile = [])
    (passed : loop.pass maxBytes payoutScript pass = .ok loop') :
    loop'.served = loop.served ∨
      ∃ template block decoded,
        Mined payoutScript (StagingRun.after maxBytes loop.served) template block ∧
          received block = some decoded ∧ loop'.served = loop.served ++ [.submit decoded] := by
  unfold MiningLoop.pass at passed
  cases fetched : pass.template maxBytes loop.served with
  | none =>
      rw [fetched] at passed
      cases passed
      exact Or.inl (by rw [quiet, List.append_nil])
  | some template =>
      rw [fetched] at passed
      simp only [except_bind_eq_ok_iff, mapError_eq_ok_iff] at passed
      obtain ⟨unsolved, assembled, header, searched, passed⟩ := passed
      cases passed
      have returned : ∃ clock,
          (StagingRun.after maxBytes loop.served).resting.template clock = .ok template := by
        unfold Pass.template at fetched
        split at fetched
        next => exact ⟨pass.clock, (toOption_eq_some_iff _ _).mp fetched⟩
        next => cases fetched
      have solved : solvedHeader unsolved.header template.target pass.events = some header := by
        cases result : solvedHeader unsolved.header template.target pass.events with
        | none =>
            rw [result] at searched
            cases searched
        | some found =>
            rw [result] at searched
            cases searched
            rfl
      have mined : Mined payoutScript (StagingRun.after maxBytes loop.served) template
          { unsolved with header } :=
        ⟨returned, _, unsolved, pass.events, header, assembled, solved, rfl⟩
      simp only [quiet, List.append_nil, Pass.submission]
      split
      next =>
          cases arrived : received { unsolved with header } with
          | none => exact Or.inl (List.append_nil _)
          | some decoded => exact Or.inr ⟨template, _, decoded, mined, arrived, rfl⟩
      next => exact Or.inl (List.append_nil _)

omit [Crypto] in
theorem exists_received {block : Block} (wellFormed : block.WellFormed)
    (fits : (RpcRequest.submitBlock block).encodeCanonical.length ≤ maxRpcFrameSize) :
    ∃ decoded, received block = some decoded ∧ decoded.block = block := by
  have read : RpcRequest.submittedBlock (RpcRequest.submitBlock block).encodeCanonical =
      some block := (RpcRequest.submittedBlock_eq_some_iff _ _).mpr ⟨fits, wellFormed, rfl⟩
  cases arrived : received block with
  | none =>
      unfold received at arrived
      split at arrived
      next => cases arrived
      next missing => cases missing.symm.trans read
  | some decoded => exact ⟨decoded, rfl, block_of_received wellFormed arrived⟩

/-- A pass ends when a nonce for its block is in the rounds that the workers finish. -/
theorem MiningLoop.exists_pass {loop : MiningLoop} {pass : Pass}
    {stretches : List (Search.Stretch offsets)}
    (finished : pass.events = Search.Stretch.all stretches)
    (solvable : ∀ template unsolved,
      pass.template maxBytes loop.served = some template →
      candidate template payoutScript (loop.extraNonce + 1) = .ok unsolved →
        ∃ nonce, SolvesWith unsolved.header template.target nonce ∧
          roundOf nonce < stretches.length) :
    ∃ loop', loop.pass maxBytes payoutScript pass = .ok loop' := by
  unfold MiningLoop.pass
  cases fetched : pass.template maxBytes loop.served with
  | none => exact ⟨_, rfl⟩
  | some template =>
      obtain ⟨unsolved, assembled, -⟩ :=
        exists_candidate template payoutScript (loop.extraNonce + 1)
      obtain ⟨nonce, solves, within⟩ := solvable template unsolved fetched assembled
      obtain ⟨found, result⟩ := exists_result solves stretches within
      have solved : solvedHeader unsolved.header template.target pass.events =
          some { unsolved.header with nonce := found } := by
        rw [solvedHeader, finished, result, Option.map_some]
      simp only [except_bind_eq_ok_iff, mapError_eq_ok_iff]
      exact ⟨_, unsolved, assembled, _, by rw [solved]; rfl, rfl⟩

theorem runMiner_cons_iff (loop loop' : MiningLoop) (pass : Pass) (passes : List Pass) :
    runMiner maxBytes payoutScript loop (pass :: passes) = .ok loop' ↔
      ∃ middle, loop.pass maxBytes payoutScript pass = .ok middle ∧
        runMiner maxBytes payoutScript middle passes = .ok loop' := by
  rw [runMiner, List.foldlM_cons]
  exact except_bind_eq_ok_iff _ _ _

/-- A miner alone submits blocks and nothing else. -/
theorem exists_submissions {loop loop' : MiningLoop} {passes : List Pass}
    (quiet : ∀ pass ∈ passes, pass.meanwhile = [])
    (ran : runMiner maxBytes payoutScript loop passes = .ok loop') :
    ∃ blocks : List DecodedBlock,
      loop'.served = loop.served ++ blocks.map StagingCall.submit := by
  induction passes generalizing loop with
  | nil =>
      cases ran
      exact ⟨[], (List.append_nil _).symm⟩
  | cons pass passes inductionHypothesis =>
      rw [List.forall_mem_cons] at quiet
      obtain ⟨middle, passed, ran⟩ := (runMiner_cons_iff _ _ _ _).mp ran
      obtain ⟨blocks, served⟩ := inductionHypothesis quiet.2 ran
      obtain same | ⟨_, _, decoded, -, -, submitted⟩ := MiningLoop.pass_cases quiet.1 passed
      · exact ⟨blocks, by rw [served, same]⟩
      · exact ⟨decoded :: blocks, by rw [served, submitted]; simp⟩

/-- A miner alone whose blocks are refused leaves the node as it is. -/
theorem after_of_refused {loop loop' : MiningLoop} {passes : List Pass}
    (quiet : ∀ pass ∈ passes, pass.meanwhile = [])
    (ran : runMiner maxBytes payoutScript loop passes = .ok loop')
    (refuses : ∀ template block decoded,
      Mined payoutScript (StagingRun.after maxBytes loop.served) template block →
      received block = some decoded →
        (StagingRun.after maxBytes loop.served).call (.submit decoded) =
          StagingRun.after maxBytes loop.served) :
    StagingRun.after maxBytes loop'.served = StagingRun.after maxBytes loop.served := by
  induction passes generalizing loop with
  | nil =>
      cases ran
      rfl
  | cons pass passes inductionHypothesis =>
      rw [List.forall_mem_cons] at quiet
      obtain ⟨middle, passed, ran⟩ := (runMiner_cons_iff _ _ _ _).mp ran
      have same : StagingRun.after maxBytes middle.served =
          StagingRun.after maxBytes loop.served := by
        obtain unchanged | ⟨template, block, decoded, mined, arrived, submitted⟩ :=
          MiningLoop.pass_cases quiet.1 passed
        · rw [unchanged]
        · rw [submitted, StagingRun.after_concat]
          exact refuses template block decoded mined arrived
      rw [← same]
      apply inductionHypothesis quiet.2 ran
      rw [same]
      exact refuses

end Miner

/-- The inserted transactions of the calls are read from bytes and spend no output
twice. -/
def StagingRun.Inserts (calls : List StagingCall) : Prop :=
  ∀ tx ∈ calls.flatMap StagingCall.inserted, tx.WellFormed ∧ tx.outPoints.Nodup

instance (calls : List StagingCall) : Decidable (StagingRun.Inserts calls) :=
  inferInstanceAs (Decidable (∀ tx ∈ calls.flatMap StagingCall.inserted,
    tx.WellFormed ∧ tx.outPoints.Nodup))

namespace StagingRun.Inserts

omit [Crypto] in
theorem submissions {calls : List StagingCall} (inserts : Inserts calls)
    (blocks : List DecodedBlock) : Inserts (calls ++ blocks.map StagingCall.submit) := by
  have none : (blocks.map StagingCall.submit).flatMap StagingCall.inserted = [] := by
    rw [List.flatMap_map]
    exact List.flatMap_eq_nil_iff.mpr fun _ _ => rfl
  rw [Inserts, List.flatMap_append, none, List.append_nil]
  exact inserts

theorem wellFormed {calls : List StagingCall} (inserts : Inserts calls) :
    ∀ tx ∈ transactionsOf calls, tx.WellFormed := by
  rw [transactionsOf, List.forall_mem_append]
  refine ⟨genesis_wellFormed.transactions, ?_⟩
  intro tx inCalls
  obtain ⟨call, isCall, inCall⟩ := List.mem_flatMap.mp inCalls
  cases call with
  | insert staged mtp now =>
      exact (inserts tx (List.mem_flatMap.mpr ⟨_, isCall, inCall⟩)).1
  | submit decoded => exact decoded.wellFormed.transactions tx inCall

theorem sound {calls : List StagingCall} (inserts : Inserts calls) {txs : List Transaction}
    (distinctIds : DistinctIds txs) (known : transactionsOf calls ⊆ txs) :
    (after maxBytes calls).Sound txs :=
  sound_after maxBytes distinctIds known fun tx isInserted => (inserts tx isInserted).2

end StagingRun.Inserts

/-- While a miner works alone, its blocks conserve the staged transactions: each is
in exactly one of them or still staged, and with as many blocks as there were
transactions the pool is empty.  The coinbases pay the subsidy to the miner. -/
theorem mining_confirms (maxBytes : Nat) {payoutScript : Bytes}
    (short : payoutScript.length < 2 ^ 32) {loop loop' : MiningLoop} {passes : List Pass}
    (quiet : ∀ pass ∈ passes, pass.meanwhile = [])
    (ran : runMiner maxBytes payoutScript loop passes = .ok loop')
    (inserts : StagingRun.Inserts loop.served)
    (distinctIds : DistinctIds (transactionsOf loop'.served)) :
    ∃ blocks, Confirms payoutScript (StagingRun.after maxBytes loop.served)
      (StagingRun.after maxBytes loop'.served) blocks := by
  induction passes generalizing loop with
  | nil =>
      cases ran
      exact ⟨[], Confirms.refl _ _⟩
  | cons pass passes inductionHypothesis =>
      rw [List.forall_mem_cons] at quiet
      obtain ⟨middle, passed, ran⟩ := (runMiner_cons_iff _ _ _ _).mp ran
      obtain ⟨later, served⟩ := exists_submissions quiet.2 ran
      obtain same | ⟨template, block, decoded, mined, arrived, submitted⟩ :=
        MiningLoop.pass_cases quiet.1 passed
      · rw [← same]
        exact inductionHypothesis quiet.2 ran (same ▸ inserts)
      · obtain ⟨blocks, confirms⟩ :=
          inductionHypothesis quiet.2 ran (submitted ▸ inserts.submissions [decoded])
        rw [submitted, List.append_assoc] at served
        have wellFormed := (inserts.submissions (decoded :: later)).wellFormed
        change ∀ tx ∈ transactionsOf (loop.served ++ ([.submit decoded] ++ _)), _ at wellFormed
        rw [← served] at wellFormed
        have grown : transactionsOf loop'.served = transactionsOf loop.served ++
            (decoded.block.transactions ++
              (later.map StagingCall.submit).flatMap StagingCall.transactions) := by
          rw [served, StagingRun.transactionsOf_append, List.flatMap_append,
            List.flatMap_singleton]
          rfl
        have sound : (StagingRun.after maxBytes loop.served).Sound (transactionsOf loop'.served) :=
          inserts.sound distinctIds (grown ▸ List.subset_append_left _ _)
        obtain rfl := block_of_received (sound.wellFormed_mined wellFormed short mined) arrived
        have known : decoded.block.transactions ⊆ transactionsOf loop'.served := by
          rw [grown]
          exact fun tx isIn => List.mem_append_right _ (List.mem_append_left _ isIn)
        rw [submitted, StagingRun.after_concat] at confirms
        obtain same | first := sound.confirms_mined distinctIds mined known
        · rw [same] at confirms
          exact ⟨blocks, confirms⟩
        · exact ⟨_, first.trans confirms⟩

/-- When a selected transaction has a contract that does not accept at the next height,
a miner alone never moves the node again. -/
theorem mining_stuck (maxBytes : Nat) {payoutScript : Bytes}
    (short : payoutScript.length < 2 ^ 32) {loop loop' : MiningLoop} {passes : List Pass}
    (quiet : ∀ pass ∈ passes, pass.meanwhile = [])
    (ran : runMiner maxBytes payoutScript loop passes = .ok loop')
    (inserts : StagingRun.Inserts loop.served)
    (distinctIds : DistinctIds (transactionsOf loop.served)) {tx : Transaction}
    (selected : tx ∈ (StagingRun.after maxBytes loop.served).mempool.selectTransactionsForBlock
      RpcHandler.maxBlockPayloadBytes)
    (refused : ¬ tx.ContractsAccept (StagingRun.after maxBytes loop.served).storage.lookup
      ((StagingRun.after maxBytes loop.served).storage.tip.1 + 1)) :
    StagingRun.after maxBytes loop'.served = StagingRun.after maxBytes loop.served := by
  have sound : (StagingRun.after maxBytes loop.served).Sound _ :=
    inserts.sound distinctIds (List.Subset.refl _)
  apply after_of_refused quiet ran
  intro template block decoded mined arrived
  obtain rfl :=
    block_of_received (sound.wellFormed_mined inserts.wellFormed short mined) arrived
  exact sound.refuses_mined mined selected refused

end Loop

section Sample

open Sample Miner

/-- A pass in which everything arrives and each worker gets two turns. -/
def Sample.directPass : Pass where
  clock := .ok 0
  fetched := true
  events := Search.Stretch.all [stretch]
  meanwhile := []
  delivered := true

theorem Sample.events_directPass : directPass.events = Search.Stretch.all [stretch] := by
  rw [directPass]

theorem Sample.quiet_directPass : ∀ pass ∈ [directPass], pass.meanwhile = [] := by
  simp [directPass]

section Confirmed

attribute [local instance] Sample.miningCrypto

/-- The pass submits the rewarded block. -/
theorem Sample.exists_directPass :
    ∃ decoded : DecodedBlock, decoded.block.transactions = [rewarded, cheap] ∧
      (⟨minedCalls, 0⟩ : MiningLoop).pass 1000 [0x51] directPass =
        .ok ⟨minedCalls ++ [.submit decoded], 1⟩ := by
  obtain ⟨nonce, solved⟩ := exists_rewarded
  have template : directPass.template 1000 minedCalls = some rewardedTemplate := by
    unfold Pass.template
    rw [if_pos (by rfl), toOption_eq_some_iff]
    exact template_minedCalls
  have fits : (RpcRequest.submitBlock (rewardedBlock nonce)).encodeCanonical.length ≤
      maxRpcFrameSize := by
    rw [RpcRequest.encodeCanonical, List.length_cons, RpcRequest.payload,
      Block.length_encodeCanonical]
    exact (by decide +kernel : 96 + 4 +
      ([rewarded, cheap].flatMap Transaction.encodeCanonical).length + 1 ≤ maxRpcFrameSize)
  obtain ⟨decoded, arrived, isBlock⟩ := exists_received (wellFormed_rewardedBlock nonce) fits
  have sent : directPass.submission (rewardedBlock nonce) = [.submit decoded] := by
    rw [Pass.submission, arrived]
    rfl
  refine ⟨decoded, by rw [isBlock]; rfl, ?_⟩
  unfold MiningLoop.pass
  rw [template]
  simp only [except_bind_eq_ok_iff, mapError_eq_ok_iff]
  refine ⟨rewardedBlock 0, candidate_rewarded, rewardedHeader nonce, ?_, ?_⟩
  · rw [events_directPass, solved]
    rfl
  · change Except.ok (MiningLoop.mk (minedCalls ++ [] ++
      directPass.submission (rewardedBlock nonce)) 1) = _
    rw [sent, List.append_nil]

theorem mining_confirms_rewarded :
    ∃ loop' blocks, runMiner 1000 [0x51] ⟨minedCalls, 0⟩ [directPass] = .ok loop' ∧
      Confirms [0x51] (StagingRun.after 1000 minedCalls) (StagingRun.after 1000 loop'.served)
        blocks := by
  obtain ⟨decoded, transactions, passed⟩ := exists_directPass
  have ran : runMiner 1000 [0x51] ⟨minedCalls, 0⟩ [directPass] =
      .ok ⟨minedCalls ++ [.submit decoded], 1⟩ :=
    (runMiner_cons_iff _ _ _ _).mpr ⟨_, passed, rfl⟩
  have inserts : StagingRun.Inserts minedCalls := by decide +kernel
  have distinctIds : DistinctIds (transactionsOf (minedCalls ++ [.submit decoded])) := by
    rw [StagingRun.transactionsOf_append, List.flatMap_singleton, StagingCall.transactions,
      transactions]
    decide +kernel
  obtain ⟨blocks, confirms⟩ :=
    mining_confirms 1000 (by decide) quiet_directPass ran inserts distinctIds
  exact ⟨_, blocks, ran, confirms⟩

end Confirmed

section Stuck

attribute [local instance] Sample.stagingCrypto

/-- The contract of the staged transaction accepts in the second block only. -/
def Sample.stuckCalls : List StagingCall :=
  [.submit firstDecoded, .insert expiring 0 0, .submit quietDecoded]

theorem mining_stuck_expiring :
    ∃ loop', runMiner 1000 [0x51] ⟨stuckCalls, 0⟩ [directPass] = .ok loop' ∧
      (StagingRun.after 1000 loop'.served).mempool.stagedTransactions = [expiring] := by
  obtain ⟨loop', passed⟩ : ∃ loop', (⟨stuckCalls, 0⟩ : MiningLoop).pass 1000 [0x51] directPass =
      .ok loop' := by
    apply MiningLoop.exists_pass events_directPass
    intro template unsolved isTemplate assembled
    have solves : ((directPass.template 1000 stuckCalls).bind fun template =>
        (Miner.candidate template [0x51] 1).toOption.map fun unsolved =>
          decide (({ unsolved.header with nonce := 0 } : BlockHeader).blockHash.asBytes ≤
            template.target.asBytes)) = some true := by
      decide +kernel
    change directPass.template 1000 stuckCalls = some template at isTemplate
    change Miner.candidate template [0x51] 1 = .ok unsolved at assembled
    rw [isTemplate, Option.bind_some, assembled] at solves
    have meets : ({ unsolved.header with nonce := 0 } : BlockHeader).blockHash.asBytes ≤
        template.target.asBytes := of_decide_eq_true (Option.some.inj solves)
    exact ⟨0, meets, roundOf_zero⟩
  have ran : runMiner 1000 [0x51] ⟨stuckCalls, 0⟩ [directPass] = .ok loop' :=
    (runMiner_cons_iff _ _ _ _).mpr ⟨loop', passed, rfl⟩
  have refused : ¬ expiring.ContractsAccept (StagingRun.after 1000 stuckCalls).storage.lookup
      ((StagingRun.after 1000 stuckCalls).storage.tip.1 + 1) := by
    intro accept
    have opened := accept 0 (spending coinbaseOutput
      [0xc7, 8, 2, 0, 0, 0, 0, 0, 0, 0, 0x88]) (unlocked 5000) rfl (by decide +kernel)
    revert opened
    decide +kernel
  have inserts : StagingRun.Inserts stuckCalls := by decide +kernel
  have selected : expiring ∈ (StagingRun.after 1000 stuckCalls).mempool.selectTransactionsForBlock
      RpcHandler.maxBlockPayloadBytes := by
    decide +kernel
  have stuck := mining_stuck 1000 (by decide) quiet_directPass ran inserts (by decide +kernel)
    selected refused
  refine ⟨loop', ran, ?_⟩
  rw [stuck]
  decide +kernel

end Stuck

end Sample

end Aurion
