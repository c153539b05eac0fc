import Aurion.Daemon.MedianTime
import Aurion.Ledger.DoubleSpend

/-!
# Lock times over runs

The pipeline applies neither check of `Aurion.Eutxo.Locktime`; only the pool
does, and it takes zero for every creation height.  A run respects the locks of
its transactions exactly when each of its blocks would have passed both checks
with the true heights.
-/

namespace Aurion

open Foundation

section Creation

variable [Crypto]

def Block.creates (block : Block) (op : OutPoint) : Bool :=
  (block.transactions.flatMap Transaction.created).any fun entry => entry.1 == op

/-- The last of the blocks that creates the outpoint has this height. -/
def CreatedAt (committed : List Block) (op : OutPoint) (height : Nat) : Prop :=
  ∃ older creator newer, committed = older ++ creator :: newer ∧ older.length = height ∧
    creator.creates op = true ∧ ∀ later ∈ newer, later.creates op = false

/-- The height of the last block that creates the outpoint. -/
def creationHeight (committed : List Block) (op : OutPoint) : Option UInt64 :=
  (committed.reverse.find? fun block => block.creates op).map fun block => block.header.height

theorem Chain.creationHeight_eq_some_iff {committed : List Block} (chain : Chain committed)
    (op : OutPoint) (height : UInt64) :
    creationHeight committed op = some height ↔ CreatedAt committed op height.toNat :=
  chain.lastHeight_eq_some_iff (fun block => block.creates op) height

omit [Crypto] in
theorem CreatedAt.lt_length [Crypto] {committed : List Block} {op : OutPoint} {height : Nat}
    (created : CreatedAt committed op height) : height < committed.length := by
  obtain ⟨older, creator, newer, rfl, rfl, -⟩ := created
  simp

/-- A block creates the outpoints under which it inserts a record. -/
theorem Block.creates_iff (block : Block) (op : OutPoint) :
    block.creates op = true ↔ ∃ record, (op.encodeCanonical, record) ∈ block.round.created := by
  have records (tx : Transaction) : StorageEngine.createdRecords tx = tx.created.map fun entry =>
      (entry.1.encodeCanonical, entry.2.encodeCanonical) := by
    simp [StorageEngine.createdRecords, Transaction.created]
  rw [Block.creates, List.any_eq_true]
  constructor
  · intro found
    obtain ⟨entry, created, same⟩ := found
    obtain ⟨tx, inBlock, inTx⟩ := List.mem_flatMap.mp created
    obtain rfl := beq_iff_eq.mp same
    refine ⟨entry.2.encodeCanonical, List.mem_flatMap.mpr ⟨tx, inBlock, ?_⟩⟩
    rw [records]
    exact List.mem_map_of_mem inTx
  · intro found
    obtain ⟨record, inserted⟩ := found
    obtain ⟨tx, inBlock, entry, inTx, binding⟩ := Block.exists_entry_of_created inserted
    refine ⟨entry, List.mem_flatMap.mpr ⟨tx, inBlock, inTx⟩, beq_iff_eq.mpr ?_⟩
    exact (OutPoint.encodeCanonical_injective (congrArg Prod.fst binding)).symm

/-- The record of an outpoint comes from the last block that creates it. -/
theorem createdAt_of_record {committed : List Block} {op : OutPoint}
    (found : ((ledger committed).utxos.lookup op.encodeCanonical).isSome) :
    ∃ height, CreatedAt committed op height := by
  obtain ⟨record, found⟩ := Option.isSome_iff_exists.mp found
  rw [utxos_ledger] at found
  obtain ⟨olderRounds, round, newerRounds, split, created, latest⟩ :=
    Table.exists_last_creation_of_lookup_replay _ found
  obtain ⟨older, rest, rfl, -, restRounds⟩ := List.map_eq_append_iff.mp split
  obtain ⟨creator, newer, rfl, rfl, rfl⟩ := List.map_eq_cons_iff.mp restRounds
  refine ⟨older.length, older, creator, newer, rfl, rfl, ?_, ?_⟩
  · exact (creator.creates_iff op).mpr ⟨record, created⟩
  · intro later membership
    rw [Bool.eq_false_iff, ne_eq, Block.creates_iff, not_exists]
    exact latest _ (List.mem_map_of_mem membership)

end Creation

section Locks

variable [Crypto]

/-- The unspent output under an outpoint with its true creation height. -/
def extendedUtxo (committed : List Block) (op : OutPoint) : Option ExtendedUtxo := do
  let output ← (ledger committed).lookup op
  let height ← creationHeight committed op
  some (.fromOutput output height false)

/-- The spends of the block pass the pool's checks of their locks, at the height
of the block, with the median time past before it and true creation heights. -/
def PassesLocks (committed : List Block) (block : Block) : Prop :=
  ∀ tx ∈ block.spending,
    verifyTransactionLocktime tx block.header.height (medianTimeOf committed) = .ok () ∧
      ∀ entry ∈ tx.inputs.zipIdx, ∀ utxo,
        extendedUtxo committed entry.1.previousOutput = some utxo →
          verifyRelativeSequence entry.1.sequence utxo block.header.height entry.2 = .ok ()

/-- The lock times of the spends of the block hold on top of the run, and each
output spent with a relative lock is as many blocks old as the lock asks. -/
def NodeRun.LocksHold (run : NodeRun) (block : Block) : Prop :=
  ∃ mtp, run.medianTimePast = .ok mtp ∧ ∀ tx ∈ block.spending,
    verifyTransactionLocktime tx block.header.height mtp = .ok () ∧
      ∀ input ∈ tx.inputs, input.sequence &&& sequenceDisableFlag = 0 →
        ∃ height, CreatedAt run.committed input.previousOutput height ∧
          height + (input.sequence &&& 0x0000FFFF).toNat ≤ block.header.height.toNat

/-- The locks hold for every block that a call of the run commits. -/
def LocksRespected (offered : List DecodedBlock) : Prop :=
  ∀ past next, past ++ [next] <+: offered → ∀ block,
    (NodeRun.after (past ++ [next])).committed = (NodeRun.after past).committed ++ [block] →
      (NodeRun.after past).LocksHold block

/-- The check of one relative lock says how old the spent output is. -/
theorem passes_relative_lock_iff {committed : List Block} (chain : Chain committed) {block : Block}
    (accepts : Accepts committed block) {op : OutPoint} (spent : op ∈ block.spentOutPoints)
    (sequence : UInt32) (index : Nat) :
    (∀ utxo, extendedUtxo committed op = some utxo →
        verifyRelativeSequence sequence utxo block.header.height index = .ok ()) ↔
      (sequence &&& sequenceDisableFlag = 0 →
        ∃ height, CreatedAt committed op height ∧
          height + (sequence &&& 0x0000FFFF).toNat ≤ block.header.height.toNat) := by
  obtain ⟨output, found⟩ := Option.isSome_iff_exists.mp (accepts.isSome_lookup spent)
  obtain ⟨height, created⟩ := createdAt_of_record (accepts.isSome_record spent)
  have top := chain.height_of_accepts accepts
  have bounded {other : Nat} (also : CreatedAt committed op other) :
      (UInt64.ofNat other).toNat = other :=
    UInt64.toNat_ofNat_of_lt' (also.lt_length.trans (top ▸ block.header.height.toNat_lt))
  have known {other : Nat} (also : CreatedAt committed op other) :
      creationHeight committed op = some (UInt64.ofNat other) := by
    rw [chain.creationHeight_eq_some_iff, bounded also]
    exact also
  have extended : extendedUtxo committed op =
      some (.fromOutput output (UInt64.ofNat height) false) := by
    simp [extendedUtxo, found, known created]
  have unique {other : Nat} (also : CreatedAt committed op other) : other = height := by
    have same := Option.some.inj ((known also).symm.trans (known created))
    rw [← bounded also, same, bounded created]
  have before : UInt64.ofNat height ≤ block.header.height := by
    rw [UInt64.le_iff_toNat_le, bounded created, top]
    exact created.lt_length.le
  rw [extended]
  simp only [Option.some.injEq, forall_eq']
  rw [verifyRelativeSequence_eq_ok_iff sequence (by exact before)]
  refine forall_congr' fun enabled => ?_
  rw [ExtendedUtxo.fromOutput, bounded created]
  constructor
  · intro old
    exact ⟨height, created, old⟩
  · intro old
    obtain ⟨other, also, old⟩ := old
    exact unique also ▸ old

theorem locksHold_iff {run : NodeRun} (chain : Chain run.committed) {block : Block}
    (accepts : Accepts run.committed block)
    (read : run.medianTimePast = .ok (medianTimeOf run.committed)) :
    run.LocksHold block ↔ PassesLocks run.committed block := by
  simp only [NodeRun.LocksHold, PassesLocks, read, Except.ok.injEq, exists_eq_left']
  refine forall₂_congr fun tx spends => and_congr_right fun _ => ?_
  have spent {input : TxInput} (isInput : input ∈ tx.inputs) :
      input.previousOutput ∈ block.spentOutPoints :=
    List.mem_flatMap.mpr ⟨tx, spends, List.mem_map_of_mem isInput⟩
  constructor
  · intro old entry isEntry
    have isInput := List.mem_of_getElem? (List.mem_zipIdx_iff_getElem?.mp isEntry)
    exact (passes_relative_lock_iff chain accepts (spent isInput) _ _).mpr (old _ isInput)
  · intro passes input isInput
    obtain ⟨index, at_⟩ := List.getElem?_of_mem isInput
    exact (passes_relative_lock_iff chain accepts (spent isInput) _ index).mp
      (passes (input, index) (List.mem_zipIdx_iff_getElem?.mpr at_))

theorem locksRespected_iff (offered : List DecodedBlock) :
    LocksRespected offered ↔
      Steps.EachStep (fun run (decoded : DecodedBlock) => run.offer decoded.block)
        (fun run decoded => ∀ block,
          (run.offer decoded.block).committed = run.committed ++ [block] → run.LocksHold block)
        NodeRun.start offered := by
  refine forall₃_congr fun past next found => ?_
  rw [NodeRun.after_concat]
  rfl

/-- In a run without collisions the locks of all committed transactions hold
exactly when every block passes the checks. -/
theorem committed_locks_respected (offered : List DecodedBlock)
    (free : CollisionFree (NodeRun.after offered).hashed) :
    LocksRespected offered ↔ EveryStep PassesLocks (NodeRun.after offered).committed := by
  induction offered using List.reverseRecOn with
  | nil =>
      have genesis : PassesLocks [] createGenesisBlock := by
        intro tx spends
        rw [spending_genesis] at spends
        cases spends
      refine iff_of_true ?_ ((everyStep_singleton _ _).mpr genesis)
      intro past next found
      simp at found
  | append_singleton offered last inductionHypothesis =>
      have before := NodeRun.free_of_prefix free (List.prefix_append offered [last])
      obtain ⟨chain, engine⟩ := NodeRun.chain_after offered
      have reached : Steps.run (fun run (decoded : DecodedBlock) => run.offer decoded.block)
          NodeRun.start offered = NodeRun.after offered := rfl
      rw [locksRespected_iff, Steps.eachStep_concat_iff, ← locksRespected_iff, reached,
        inductionHypothesis before, NodeRun.after_concat]
      rcases NodeRun.offer_eq chain engine last.block last.wellFormed with
        same | ⟨accepts, extended⟩
      · rw [same]
        refine and_iff_left fun block grown => ?_
        exact absurd grown (by simp)
      · rw [extended, everyStep_append_singleton, ← locksHold_iff chain accepts
          (NodeRun.medianTimePast_after before)]
        simp

end Locks

section Sample

open Sample

/-- A spend of the coinbase of the first block under these locks. -/
def Sample.relativeSpend (sequence : UInt32) (locktime : UInt64) : Transaction where
  version := 1
  inputs := [{
    previousOutput := { txid := coinbaseId, vout := 0 }
    unlockingScript := []
    sequence
    redeemer := none }]
  outputs := [unlocked 5000]
  locktime

/-- Locked for five blocks and until a time to come. -/
def Sample.hastySpend : Transaction := relativeSpend 5 2000000000

/-- Locked for one block and until the timestamp of the first block. -/
def Sample.agedSpend : Transaction := relativeSpend 1 1773446460

def Sample.hastyId : Hash256 :=
  Hash256.ofNat 0xaa1f84794cedae8ae43d31f2e911b3b7dd696c89be1f7942a33ed2e698e87332

def Sample.hastyRoot : Hash256 :=
  Hash256.ofNat 0xe4677948c79293b91f84030314dc52daff9eccf15c596525f8e2e76352269196

def Sample.agedId : Hash256 :=
  Hash256.ofNat 0x3eb2f9ff863657631a75e043f1144f0b76381d5bf06d7b79101adeb2a4238972

def Sample.agedRoot : Hash256 :=
  Hash256.ofNat 0xcde4134aa6ca938ff0c5c8dac1aca2e8f18172ad3f74823a6dbcdbf101d65e0f

def Sample.hasty : Block where
  header := header firstHash hastyRoot 1773446520 0 2
  transactions := [laterCoinbase, hastySpend]

def Sample.aged : Block where
  header := header firstHash agedRoot 1773446520 3 2
  transactions := [laterCoinbase, agedSpend]

abbrev Sample.lockCrypto : Crypto := Crypto.ofTables (digests ++ [
  (hastySpend.encodeCanonical, hastyId),
  (agedSpend.encodeCanonical, agedId),
  (hastySpend.sighashPreimage 0,
    Hash256.ofNat 0x5661722e22944a5f4f37f82aec4c3566aa0922573a03f13c3b9a718384dda149),
  (agedSpend.sighashPreimage 0,
    Hash256.ofNat 0x3c6c4820c90d69951638462dfe199a34900d9116e2b5f81228221b00286cec74),
  (laterCoinbaseId.asBytes ++ hastyId.asBytes, hastyRoot),
  (laterCoinbaseId.asBytes ++ agedId.asBytes, agedRoot),
  (hasty.header.encodeCanonical,
    Hash256.ofNat 0x0722c3f3a67bbf9429cd19baca106a224514216e6f1e435c66b65c600234501b),
  (aged.header.encodeCanonical,
    Hash256.ofNat 0x7de70a0f55bf114a31bc66ebdbdba7cf0b0d8363a108107346719be597f03994)]) []

def Sample.hastyDecoded : DecodedBlock := .ofWellFormed hasty (by decide +kernel)

def Sample.agedDecoded : DecodedBlock := .ofWellFormed aged (by decide +kernel)

attribute [local instance] Sample.lockCrypto

/-- A block whose spend has both locks, and meets them. -/
theorem committed_locks_respected_aged : LocksRespected [firstDecoded, agedDecoded] := by
  have free : CollisionFree (NodeRun.after [firstDecoded, agedDecoded]).hashed := by
    decide +kernel
  refine (committed_locks_respected [firstDecoded, agedDecoded] free).mpr ?_
  unfold EveryStep PassesLocks
  decide +kernel

/-- The block at height 2 spends an output of height 1 that has to be five
blocks old. -/
theorem locks_violated :
    CollisionFree (NodeRun.after [firstDecoded, hastyDecoded]).hashed ∧
      ¬ LocksRespected [firstDecoded, hastyDecoded] := by
  refine ⟨by decide +kernel, fun respected => ?_⟩
  obtain ⟨mtp, -, hold⟩ := respected [firstDecoded] hastyDecoded List.prefix_rfl hasty
    (by decide +kernel)
  obtain ⟨-, old⟩ := hold hastySpend (by decide +kernel)
  obtain ⟨height, -, late⟩ := old _ List.mem_cons_self (by decide)
  exact absurd ((Nat.le_add_left _ _).trans late) (by decide)

end Sample

end Aurion
