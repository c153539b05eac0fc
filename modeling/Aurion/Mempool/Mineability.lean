import Aurion.Ledger.Lookup
import Aurion.Mempool.BlockValidity
import Aurion.Mempool.Selection

/-!
# Mineability of staged transactions

A node takes one request after another: transactions are staged against the
current ledger, and a committed block is followed by its cleanup.  Inputs,
values and fees of a staged transaction stay what they were; its contracts need
not accept at a later height.
-/

namespace Aurion

open Foundation

section Definition

/-- The tip of the storage, height zero and the zero hash when there is none. -/
def StorageEngine.tip (storage : StorageEngine) : UInt64 × Hash256 :=
  storage.getTip.getD (0, Hash256.zero)

/-- A node with its pool. -/
structure StagingRun where
  node : NodeRun
  mempool : Mempool

inductive StagingCall
  | insert (tx : Transaction) (mtp now : UInt64)
  | submit (decoded : DecodedBlock)

def StagingCall.inserted : StagingCall → List Transaction
  | .insert tx _ _ => [tx]
  | .submit _ => []

def StagingCall.transactions : StagingCall → List Transaction
  | .insert tx _ _ => [tx]
  | .submit decoded => decoded.block.transactions

variable [Crypto]

namespace StagingRun

def storage (run : StagingRun) : StorageEngine := run.node.engine.storage

def start (maxBytes : Nat) : StagingRun := { node := .start, mempool := .new maxBytes }

/-- Insertions use the current view and tip; a committed block is cleaned up. -/
def call (run : StagingRun) : StagingCall → StagingRun
  | .insert tx mtp now =>
      { run with
        mempool := (run.mempool.insert tx run.storage.utxoView run.storage.tip.1 mtp now).2 }
  | .submit decoded =>
      match (processAndCommitBlock decoded.block).run.run working run.node.engine with
      | (.ok (), engine) =>
          { node := { engine, committed := run.node.committed ++ [decoded.block] }
            mempool := run.mempool.processCommittedBlock decoded.block }
      | (.error _, engine) => { run with node := { run.node with engine } }

/-- Every selection is accepted after a coinbase in a block on top of the tip. -/
def Mineable (run : StagingRun) : Prop :=
  ∀ (limit : Nat) (block : Block) (coinbase : Transaction), coinbase.isCoinbase = true →
    block.header.height.toNat = run.storage.tip.1.toNat + 1 →
    block.transactions = coinbase :: run.mempool.selectTransactionsForBlock limit →
    ∃ spentInputs, verifyBlockInvariants block run.storage.lookup = .ok spentInputs

end StagingRun

/-- When the call commits a block, the contracts of the entries that the block
leaves in the pool accept at the height above the block. -/
def StagingCall.KeepsContracts (run : StagingRun) : StagingCall → Prop
  | .insert _ _ _ => True
  | .submit decoded =>
      ((processAndCommitBlock decoded.block).run.run working run.node.engine).1 = .ok () →
        ∀ height : UInt64, height.toNat = decoded.block.header.height.toNat + 1 →
          ∀ txid entry, run.mempool.byTxid.lookup txid = some entry →
            txid ∉ decoded.block.transactions.map Transaction.txid →
            (∀ op ∈ entry.tx.outPoints, op ∉ decoded.block.blockSpent) →
            entry.tx.ContractsAccept run.storage.lookup height

end Definition

section Funded

variable {tx : Transaction} {lookup lookup' : OutPoint → Option TxOutput}

/-- What the block check asks of a transaction besides its contracts. -/
structure Transaction.Funded (tx : Transaction) (lookup : OutPoint → Option TxOutput) : Prop where
  notCoinbase : tx.isCoinbase = false
  distinct : tx.outPoints.Nodup
  found : ∀ op ∈ tx.outPoints, (lookup op).isSome
  fits : tx.inputTotal lookup < 2 ^ 128
  conserved : tx.outputTotal ≤ tx.inputTotal lookup

/-- The lookups agree on the inputs. -/
def Transaction.SameInputs (tx : Transaction) (lookup lookup' : OutPoint → Option TxOutput) :
    Prop :=
  ∀ op ∈ tx.outPoints, lookup' op = lookup op

namespace Transaction.SameInputs

variable (same : tx.SameInputs lookup lookup')

include same

theorem inputTotal : tx.inputTotal lookup' = tx.inputTotal lookup := by
  unfold Transaction.inputTotal
  congr 1
  apply List.map_congr_left
  intro op membership
  rw [heldValue, heldValue, same op membership]

theorem funded (funded : tx.Funded lookup) : tx.Funded lookup' where
  notCoinbase := funded.notCoinbase
  distinct := funded.distinct
  found := fun op membership => same op membership ▸ funded.found op membership
  fits := same.inputTotal ▸ funded.fits
  conserved := same.inputTotal ▸ funded.conserved

theorem contractsAccept_iff [Crypto] (height : UInt64) :
    tx.ContractsAccept lookup' height ↔ tx.ContractsAccept lookup height := by
  have fee : tx.fee lookup' = tx.fee lookup := by
    rw [Transaction.fee, Transaction.fee, same.inputTotal]
  have inputs : ∀ (index : Nat) (input : TxInput), tx.inputs[index]? = some input →
      lookup' input.previousOutput = lookup input.previousOutput := fun index input at_ =>
    same _ (List.mem_map_of_mem (List.mem_of_getElem? at_))
  unfold ContractsAccept
  rw [fee]
  constructor
  · intro accept index input utxo at_ found
    exact accept index input utxo at_ ((inputs index input at_).trans found)
  · intro accept index input utxo at_ found
    exact accept index input utxo at_ ((inputs index input at_).symm.trans found)

end Transaction.SameInputs

theorem Transaction.Funded.spendValid_iff [Crypto] (funded : tx.Funded lookup) (height : UInt64) :
    SpendValid lookup height tx ↔ tx.ContractsAccept lookup height :=
  ⟨SpendValid.authorised, fun accept =>
    { found := funded.found, fits := funded.fits, conserved := funded.conserved
      authorised := accept }⟩

end Funded

section Height

variable [Crypto] {tx : Transaction} {lookup : OutPoint → Option TxOutput} {height : UInt64}

/-- No contract of the transaction executes an instruction that reads the height. -/
def Transaction.ReadsNoHeight (tx : Transaction) (lookup : OutPoint → Option TxOutput)
    (height : UInt64) : Prop :=
  ∀ index input utxo, tx.inputs[index]? = some input →
    lookup input.previousOutput = some utxo →
    let engine := inputEngine height tx (Quantum.fromRaw (tx.fee lookup)) ⟨index, input, utxo⟩
    ∀ state ∈ engine.executed utxo.lockingScript input.unlockingScript utxo.datum input.redeemer,
      state.readsHeight = false

theorem Transaction.ContractsAccept.of_unread (accept : tx.ContractsAccept lookup height)
    (unread : tx.ReadsNoHeight lookup height) (later : UInt64) :
    tx.ContractsAccept lookup later := by
  intro index input utxo at_ found
  let engine := fun at_ : UInt64 =>
    inputEngine at_ tx (Quantum.fromRaw (tx.fee lookup)) ⟨index, input, utxo⟩
  have agrees : (engine height).AgreesWith (engine later) := ⟨rfl, rfl⟩
  rw [← accept index input utxo at_ found]
  exact (agrees.readsAlike.executeContract_of_unread (unread index input utxo at_ found)).symm

end Height

section Invariant

variable [Crypto] {txs : List Transaction} {run : StagingRun}

namespace StagingRun

/-- What every call preserves; all transactions are from the list. -/
structure Sound (txs : List Transaction) (run : StagingRun) : Prop where
  chain : Chain run.node.committed
  engine : run.node.engine =
    { state := .running, storage := ledger run.node.committed, cancelSignal := false }
  known : run.node.committed.flatMap Block.transactions ⊆ txs
  consistent : run.mempool.Consistent
  staged : run.mempool.StagedFrom txs
  funded : ∀ txid entry, run.mempool.byTxid.lookup txid = some entry →
    entry.tx.Funded run.storage.lookup

theorem Sound.storage_eq (sound : run.Sound txs) : run.storage = ledger run.node.committed :=
  congrArg AuthorityEngine.storage sound.engine

theorem Sound.wellNamed (sound : run.Sound txs) (distinct : DistinctIds txs) :
    WellNamed run.node.committed where
  wellFormed := sound.chain.wellFormed
  distinct := distinct.mono sound.known

/-- All staged entries have contracts that accept on top of the tip. -/
def ContractsHold (run : StagingRun) : Prop :=
  ∀ height : UInt64, height.toNat = run.storage.tip.1.toNat + 1 →
    ∀ txid entry, run.mempool.byTxid.lookup txid = some entry →
      entry.tx.ContractsAccept run.storage.lookup height

/-- A selection can only fail for its contracts. -/
theorem Sound.mineable_iff (sound : run.Sound txs) : run.Mineable ↔ run.ContractsHold := by
  have consistent := sound.consistent
  have funded : ∀ tx ∈ run.mempool.stagedTransactions, tx.Funded run.storage.lookup := by
    intro tx staged
    obtain ⟨txid, entry, found, rfl⟩ := (consistent.mem_stagedTransactions_iff tx).mp staged
    exact sound.funded txid entry found
  constructor
  · intro mineable height top txid entry found
    have machine : 2 ^ 64 - 1 < 2 ^ 64 := by decide
    have room : run.mempool.totalBytes ≤ 2 ^ 64 - 1 := Nat.le_of_lt_succ consistent.fits
    have all := consistent.select_eq_staged machine room
    obtain ⟨spentInputs, passed⟩ := mineable (2 ^ 64 - 1)
      { header := { createGenesisBlock.header with height }
        transactions := genesisCoinbase ::
          run.mempool.selectTransactionsForBlock (2 ^ 64 - 1) }
      genesisCoinbase (by decide +kernel) top rfl
    have valid := ((verifyBlockInvariants_eq_ok_iff _ _ _).mp passed).1 entry.tx
    have staged : entry.tx ∈ run.mempool.stagedTransactions :=
      (consistent.mem_stagedTransactions_iff entry.tx).mpr ⟨txid, entry, found, rfl⟩
    refine (valid ?_).authorised
    rw [Block.spending, List.mem_filter, all]
    exact ⟨List.mem_cons_of_mem _ staged, by rw [(funded _ staged).notCoinbase]; rfl⟩
  · intro hold limit block coinbase isCoinbase top body
    have selected := run.mempool.select_sublist limit
    have spending : block.spending = run.mempool.selectTransactionsForBlock limit := by
      rw [Block.spending, body, List.filter_cons_of_neg (by simp [isCoinbase]),
        List.filter_eq_self]
      intro tx membership
      rw [(funded tx (selected.subset membership)).notCoinbase]
      rfl
    refine ⟨block.spentOutPoints, (verifyBlockInvariants_eq_ok_iff _ _ _).mpr ⟨?_, ?_, rfl⟩⟩
    · intro tx membership
      rw [spending] at membership
      have staged := selected.subset membership
      rw [(funded tx staged).spendValid_iff]
      obtain ⟨txid, entry, found, rfl⟩ := (consistent.mem_stagedTransactions_iff tx).mp staged
      exact hold _ top txid entry found
    · rw [Block.spentOutPoints, spending]
      apply (selected.flatMap Transaction.outPoints).nodup
      exact consistent.staged_spends_nodup fun tx staged => (funded tx staged).distinct

/-- What the gates guarantee of a transaction that is staged. -/
theorem funded_of_validated {tx : Transaction} {mtp : UInt64} {fee : Quantum}
    (distinct : tx.outPoints.Nodup)
    (passed : validateAgainst tx run.storage.utxoView run.mempool.spentOutpoints
      run.storage.tip.1 mtp = .ok fee) :
    tx.Funded run.storage.lookup ∧
      tx.ContractsAccept run.storage.lookup (run.storage.tip.1 + 1) := by
  obtain ⟨utxos, resolved, admissible⟩ := (validateAgainst_eq_ok_iff _ _ _ _ _ _).mp passed
  have finds := finds_of_resolved resolved
  rw [viewLookup_utxoView] at finds
  have valid := admissible.spendValid finds
  exact ⟨⟨admissible.notCoinbase, distinct, valid.found, valid.fits, valid.conserved⟩,
    valid.authorised⟩

/-- An insertion stages what is valid on top of the tip. -/
theorem Sound.insert (sound : run.Sound txs) (distinctIds : DistinctIds txs) {tx : Transaction}
    (known : tx ∈ txs) (distinct : tx.outPoints.Nodup) (mtp now : UInt64) :
    (run.call (.insert tx mtp now)).Sound txs ∧
      (run.ContractsHold → (run.call (.insert tx mtp now)).ContractsHold) := by
  have consistent := sound.consistent
  have unambiguous : run.mempool.Unambiguous tx :=
    sound.staged.unambiguous consistent (distinctIds.mono (List.append_subset.mpr
      ⟨List.Subset.refl _, by simpa using known⟩))
  have shape : run.call (.insert tx mtp now) = { run with
      mempool := (run.mempool.insert tx run.storage.utxoView run.storage.tip.1 mtp now).2 } := rfl
  have staged : Mempool.Consistent
      (run.mempool.insert tx run.storage.utxoView run.storage.tip.1 mtp now).2 :=
    consistent.stage unambiguous now fun fee passed => Mempool.gated_of_validateAgainst passed
  have entries : ∀ txid entry,
      (run.mempool.insert tx run.storage.utxoView run.storage.tip.1 mtp now).2.byTxid.lookup
          txid = some entry →
        run.mempool.byTxid.lookup txid = some entry ∨
          entry.tx = tx ∧ tx.Funded run.storage.lookup ∧
            tx.ContractsAccept run.storage.lookup (run.storage.tip.1 + 1) := by
    intro txid entry found
    rcases consistent.lookup_stage found with old | ⟨fee, passed, rfl⟩
    · exact Or.inl old
    · exact Or.inr ⟨rfl, funded_of_validated distinct passed⟩
  rw [shape]
  generalize (run.mempool.insert tx run.storage.utxoView run.storage.tip.1 mtp now).2 = mempool
    at staged entries
  refine ⟨⟨sound.chain, sound.engine, sound.known, staged, ?_, ?_⟩, ?_⟩
  · intro txid entry found
    rcases entries txid entry found with old | ⟨rfl, -⟩
    · exact sound.staged txid entry old
    · exact known
  · intro txid entry found
    rcases entries txid entry found with old | ⟨rfl, funded, -⟩
    · exact sound.funded txid entry old
    · exact funded
  · intro hold height top txid entry found
    rcases entries txid entry found with old | ⟨rfl, -, accept⟩
    · exact hold height top txid entry old
    · have same : height = run.storage.tip.1 + 1 := by
        apply UInt64.toNat_inj.mp
        change height.toNat = run.storage.tip.1.toNat + 1 at top
        have bound := height.toNat_lt
        rw [top, UInt64.toNat_add]
        exact (Nat.mod_eq_of_lt (by simpa [top] using bound)).symm
      rw [same]
      exact accept

/-- A block is refused and nothing changes, or it extends the chain. -/
theorem Sound.submit_cases (sound : run.Sound txs) (decoded : DecodedBlock) :
    (((processAndCommitBlock decoded.block).run.run working run.node.engine).1 ≠ .ok () ∧
        run.call (.submit decoded) = run) ∨
      ((processAndCommitBlock decoded.block).run.run working run.node.engine).1 = .ok () ∧
        Accepts run.node.committed decoded.block ∧
        run.call (.submit decoded) = {
          node := {
            engine := { state := .running, cancelSignal := false
                        storage := ledger (run.node.committed ++ [decoded.block]) }
            committed := run.node.committed ++ [decoded.block] }
          mempool := run.mempool.processCommittedBlock decoded.block } := by
  have decision := verdict_eq_ok_iff sound.chain decoded.wellFormed false
  rw [← sound.engine] at decision
  simp only [StagingRun.call, run_processAndCommitBlock]
  cases verdicts : verdict run.node.engine decoded.block with
  | error error => exact Or.inl ⟨nofun, rfl⟩
  | ok spentInputs =>
      obtain ⟨accepts, rfl⟩ := (decision spentInputs).mp verdicts
      refine Or.inr ⟨rfl, accepts, ?_⟩
      rw [ledger_append_singleton, sound.engine]

theorem tip_of_chain {committed : List Block} {tip : Block}
    (last : committed.getLast? = some tip) : (ledger committed).tip.1 = tip.header.height := by
  rw [StorageEngine.tip, getTip_ledger last]
  rfl

/-- A committed block keeps the inputs of the entries that it leaves. -/
theorem Sound.submit (sound : run.Sound txs) (distinctIds : DistinctIds txs)
    (decoded : DecodedBlock) (known : decoded.block.transactions ⊆ txs) :
    (run.call (.submit decoded)).Sound txs ∧
      (run.ContractsHold → ((run.call (.submit decoded)).ContractsHold ↔
        (StagingCall.submit decoded).KeepsContracts run)) := by
  rcases sound.submit_cases decoded with ⟨refused, unchanged⟩ | ⟨committed, accepts, extended⟩
  · rw [unchanged]
    exact ⟨sound, fun hold => iff_of_true hold fun passed => absurd passed refused⟩
  · have consistent := sound.consistent
    have chain := Chain.extend sound.chain accepts
    have knownAfter : (run.node.committed ++ [decoded.block]).flatMap Block.transactions ⊆ txs := by
      rw [List.flatMap_append, List.append_subset, List.flatMap_singleton]
      exact ⟨sound.known, known⟩
    have named : WellNamed (run.node.committed ++ [decoded.block]) :=
      ⟨chain.wellFormed, distinctIds.mono knownAfter⟩
    have entries := consistent.lookup_processCommittedBlock decoded.block
    have inputs : ∀ txid entry,
        (run.mempool.processCommittedBlock decoded.block).byTxid.lookup txid = some entry →
          entry.tx.SameInputs run.storage.lookup
            (ledger (run.node.committed ++ [decoded.block])).lookup := by
      intro txid entry kept op membership
      obtain ⟨found, -, unspent⟩ := (entries txid entry).mp kept
      obtain ⟨output, before⟩ := Option.isSome_iff_exists.mp
        ((sound.funded txid entry found).found op membership)
      rw [before]
      rw [sound.storage_eq] at before
      apply lookup_of_unspent named before
      rw [List.forall_mem_singleton]
      intro spent
      apply unspent op membership
      exact (List.filter_sublist.flatMap Transaction.outPoints).subset spent
    rw [extended]
    refine ⟨⟨chain, rfl, knownAfter, consistent.processCommittedBlock decoded.block, ?_, ?_⟩, ?_⟩
    · intro txid entry kept
      exact sound.staged txid entry ((entries txid entry).mp kept).1
    · intro txid entry kept
      exact (inputs txid entry kept).funded
        (sound.funded txid entry ((entries txid entry).mp kept).1)
    · intro _
      have tip : (ledger (run.node.committed ++ [decoded.block])).tip.1 =
          decoded.block.header.height := tip_of_chain (by simp)
      constructor
      · intro hold _ height top txid entry found absent unspent
        have kept := (entries txid entry).mpr ⟨found, absent, unspent⟩
        rw [← (inputs txid entry kept).contractsAccept_iff]
        exact hold height (by rw [← tip] at top; exact top) txid entry kept
      · intro keeps height top txid entry kept
        obtain ⟨found, absent, unspent⟩ := (entries txid entry).mp kept
        change entry.tx.ContractsAccept
          (ledger (run.node.committed ++ [decoded.block])).lookup height
        rw [(inputs txid entry kept).contractsAccept_iff]
        exact keeps committed height (by rw [← tip]; exact top) txid entry found absent unspent

/-- Contracts that read no height accept above every block that leaves them. -/
theorem Sound.keepsContracts_of_unread (sound : run.Sound txs) (hold : run.ContractsHold)
    (decoded : DecodedBlock)
    (unread : ∀ txid entry, run.mempool.byTxid.lookup txid = some entry →
      entry.tx.ReadsNoHeight run.storage.lookup decoded.block.header.height) :
    (StagingCall.submit decoded).KeepsContracts run := by
  intro committed height _ txid entry found _ _
  obtain ⟨refused, -⟩ | ⟨-, accepts, -⟩ := sound.submit_cases decoded
  · exact absurd committed refused
  obtain ⟨tip, last, -, next⟩ := accepts.connects
  have top : decoded.block.header.height.toNat = run.storage.tip.1.toNat + 1 := by
    rw [sound.storage_eq, tip_of_chain last]
    exact next
  exact (hold _ top txid entry found).of_unread (unread txid entry found) height

end StagingRun

end Invariant


section Runs

variable [Crypto]

namespace StagingRun

theorem sound_start (maxBytes : Nat) {txs : List Transaction}
    (known : createGenesisBlock.transactions ⊆ txs) : (start maxBytes).Sound txs where
  chain := .genesis
  engine := rfl
  known := by simpa [start, NodeRun.start] using known
  consistent := Mempool.consistent_new maxBytes
  staged := by simp [start, Mempool.new, Mempool.StagedFrom]
  funded := by simp [start, Mempool.new]

/-- What one call preserves and when it keeps the pool mineable. -/
theorem Sound.call {txs : List Transaction} {run : StagingRun} (sound : run.Sound txs)
    (distinctIds : DistinctIds txs) (next : StagingCall) (known : next.transactions ⊆ txs)
    (distinct : ∀ tx ∈ next.inserted, tx.outPoints.Nodup) :
    (run.call next).Sound txs ∧
      (run.ContractsHold → ((run.call next).ContractsHold ↔ next.KeepsContracts run)) := by
  cases next with
  | insert tx mtp now =>
      obtain ⟨soundAfter, holdAfter⟩ := sound.insert distinctIds (known List.mem_cons_self)
        (distinct tx List.mem_cons_self) mtp now
      exact ⟨soundAfter, fun hold => iff_of_true (holdAfter hold) trivial⟩
  | submit decoded => exact sound.submit distinctIds decoded known

end StagingRun

/-- All transactions of a run, those of the genesis block included. -/
def transactionsOf (calls : List StagingCall) : List Transaction :=
  createGenesisBlock.transactions ++ calls.flatMap StagingCall.transactions

/-- Throughout a run every selection is accepted on top of the tip, exactly when
every committed block leaves entries whose contracts accept above it. -/
theorem staged_stay_mineable (maxBytes : Nat) (calls : List StagingCall)
    (distinctIds : DistinctIds (transactionsOf calls))
    (distinct : ∀ tx ∈ calls.flatMap StagingCall.inserted, tx.outPoints.Nodup) :
    Steps.Throughout StagingRun.call StagingRun.Mineable (StagingRun.start maxBytes) calls ↔
      Steps.EachStep StagingRun.call (fun run next => next.KeepsContracts run)
        (StagingRun.start maxBytes) calls := by
  have holds : (StagingRun.start maxBytes).Sound (transactionsOf calls) :=
    StagingRun.sound_start maxBytes (List.subset_append_left _ _)
  apply Steps.throughout_iff_eachStep holds
  · rw [holds.mineable_iff]
    intro height _ txid entry found
    simp [StagingRun.start, Mempool.new] at found
  · intro run next membership sound mineable
    obtain ⟨soundAfter, exactly⟩ := sound.call distinctIds next
      (fun tx inNext => List.mem_append_right _ (List.mem_flatMap.mpr ⟨next, membership, inNext⟩))
      (fun tx inNext => distinct tx (List.mem_flatMap.mpr ⟨next, membership, inNext⟩))
    rw [soundAfter.mineable_iff]
    exact ⟨soundAfter, exactly (sound.mineable_iff.mp mineable)⟩

end Runs

section Sample

open Sample

attribute [local instance] Sample.stagingCrypto

def Sample.quietDecoded : DecodedBlock := .ofWellFormed quiet (by decide +kernel)

/-- The next block after the quiet one; the check reads no more of it. -/
def Sample.candidate (transactions : List Transaction) : Block where
  header := header Hash256.zero Hash256.zero 1773446580 0 3
  transactions := transactions

theorem staged_stay_mineable_cheap :
    (Steps.run StagingRun.call (StagingRun.start 1000)
      [.submit firstDecoded, .insert cheap 0 0]).Mineable := by
  have keeps : Steps.EachStep StagingRun.call (fun run next => next.KeepsContracts run)
      (StagingRun.start 1000) [.submit firstDecoded, .insert cheap 0 0] := by
    rw [Steps.eachStep_cons_iff, Steps.eachStep_cons_iff]
    refine ⟨?_, trivial, Steps.eachStep_nil⟩
    intro _ _ _ txid entry found
    simp [StagingRun.start, Mempool.new] at found
  exact ((staged_stay_mineable 1000 [.submit firstDecoded, .insert cheap 0 0] (by decide +kernel)
    (by decide +kernel)).mpr keeps).final

/-- A contract that demands height 2 is staged for it and selected for height 3. -/
theorem staged_transaction_expires :
    ¬ ∀ (maxBytes : Nat) (calls : List StagingCall), DistinctIds (transactionsOf calls) →
      (∀ tx ∈ calls.flatMap StagingCall.inserted, tx.outPoints.Nodup) →
      (Steps.run StagingRun.call (StagingRun.start maxBytes) calls).Mineable := by
  intro claimed
  have selected : (Steps.run StagingRun.call (StagingRun.start 1000) [.submit firstDecoded,
      .insert expiring 0 0, .submit quietDecoded]).mempool.selectTransactionsForBlock 1000 =
        [expiring] := by
    decide +kernel
  obtain ⟨spentInputs, passed⟩ := claimed 1000 [.submit firstDecoded, .insert expiring 0 0,
    .submit quietDecoded] (by decide +kernel) (by decide +kernel) 1000
    (candidate [coinbase, expiring]) coinbase (by decide +kernel) (by decide +kernel)
    (by rw [selected]; rfl)
  have refused : (verifyBlockInvariants (candidate [coinbase, expiring])
      (Steps.run StagingRun.call (StagingRun.start 1000) [.submit firstDecoded,
        .insert expiring 0 0, .submit quietDecoded]).storage.lookup).isOk = false := by
    decide +kernel
  rw [passed] at refused
  cases refused

end Sample

end Aurion
