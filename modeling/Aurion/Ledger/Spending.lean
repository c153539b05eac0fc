import Aurion.Ledger.DoubleSpend
import Aurion.Ledger.Lookup
import Aurion.Node.Authorization
import Aurion.Script.Locks

/-!
# What it takes to spend an output

Every input of a committed block opened the contract of the output that the ledger
held for it then.  An output whose locking script no contract can open stays in the
ledger in every run, and one that demands signatures is spent with all of them.
-/

namespace Aurion

open Foundation

section Spends

variable [Crypto]

/-- A block of a chain that spends something was accepted on top of the blocks
before it. -/
theorem Chain.accepts_of_spent {committed before later : List Block} {block : Block}
    (chain : Chain committed) (split : committed = before ++ block :: later) {op : OutPoint}
    (spent : op ∈ block.spentOutPoints) : Accepts before block := by
  induction chain generalizing later with
  | genesis =>
      have isGenesis : block ∈ [createGenesisBlock] := by
        rw [split]
        exact List.mem_append_right _ List.mem_cons_self
      rw [List.mem_singleton.mp isGenesis, Block.spentOutPoints, spending_genesis] at spent
      cases spent
  | @extend committed last chain accepts inductionHypothesis =>
      rcases List.eq_nil_or_concat later with rfl | ⟨later, block', rfl⟩
      · obtain ⟨rfl, same⟩ := List.append_inj' split rfl
        rw [List.cons.injEq] at same
        exact same.1 ▸ accepts
      · rw [List.concat_eq_append, ← List.cons_append, ← List.append_assoc] at split
        exact inductionHypothesis (List.append_inj' split rfl).1

/-- The input with the given index of a spending transaction, the output that it
spends, and what the engine is given for it. -/
structure Spend (storage : StorageEngine) (block : Block) where
  tx : Transaction
  index : Nat
  input : TxInput
  output : TxOutput
  isSpending : tx ∈ block.spending
  isInput : tx.inputs[index]? = some input
  found : storage.lookup input.previousOutput = some output

namespace Spend

variable {storage : StorageEngine} {block : Block}

def engine (spend : Spend storage block) : ScriptEngine :=
  inputEngine block.header.height spend.tx (Quantum.fromRaw (spend.tx.fee storage.lookup))
    ⟨spend.index, spend.input, spend.output⟩

theorem sighash_engine (spend : Spend storage block) :
    spend.engine.sighash = spend.tx.sighash spend.index := by
  have inRange := (List.getElem?_eq_some_iff.mp spend.isInput).1
  simp [engine, inputEngine, ScriptEngine.new, inRange]

end Spend

theorem Accepts.opened {committed : List Block} {block : Block}
    (accepts : Accepts committed block) (spend : Spend (ledger committed) block) :
    spend.engine.executeContract spend.output.lockingScript spend.input.unlockingScript
      spend.output.datum spend.input.redeemer = .ok true := by
  obtain ⟨valid, -, -⟩ := (verifyBlockInvariants_eq_ok_iff _ _ _).mp accepts.spends
  exact (valid spend.tx spend.isSpending).authorised spend.index spend.input spend.output
    spend.isInput spend.found

/-- Every outpoint that a block spends is that of an input whose output was found. -/
theorem Accepts.exists_spend {committed : List Block} {block : Block}
    (accepts : Accepts committed block) {op : OutPoint} (spent : op ∈ block.spentOutPoints) :
    ∃ spend : Spend (ledger committed) block, spend.input.previousOutput = op := by
  obtain ⟨output, found⟩ := Option.isSome_iff_exists.mp (accepts.isSome_lookup spent)
  obtain ⟨tx, isSpending, isOutPoint⟩ := List.mem_flatMap.mp spent
  obtain ⟨input, isInput, rfl⟩ := List.mem_map.mp isOutPoint
  obtain ⟨index, position⟩ := List.mem_iff_getElem?.mp isInput
  exact ⟨⟨tx, index, input, output, isSpending, position, found⟩, rfl⟩

/-- In every committed block the input that spends a lock of signatures comes with a
valid signature of the transaction for each key. -/
theorem spends_signed (offered : List DecodedBlock) {before later : List Block} {block : Block}
    (split : (NodeRun.after offered).committed = before ++ block :: later) {op : OutPoint}
    {output : TxOutput} (spent : op ∈ block.spentOutPoints)
    (found : (ledger before).lookup op = some output) {keys : List PushData}
    {rest : List Instruction}
    (locked : output.lockingScript = scriptCode.assemble (demandSignatures keys rest)) :
    ∃ spend : Spend (ledger before) block, spend.input.previousOutput = op ∧
      ∃ unlocked sigs below, spend.engine.executeUnlocking spend.input.unlockingScript
          output.datum spend.input.redeemer = .ok unlocked ∧
        unlocked.stack.items = sigs ++ below ∧
        List.Forall₂ (fun key sig =>
          verifyEd25519 key.data sig (spend.tx.sighash spend.index).asBytes = true) keys sigs := by
  have accepts := (NodeRun.chain_after offered).1.accepts_of_spent split spent
  obtain ⟨spend, rfl⟩ := accepts.exists_spend spent
  obtain rfl : output = spend.output := Option.some.inj (found.symm.trans spend.found)
  have opened := accepts.opened spend
  rw [locked] at opened
  obtain ⟨unlocked, sigs, below, unlocking, items, signed⟩ :=
    spend.engine.signatures_of_executeContract opened
  refine ⟨spend, rfl, unlocked, sigs, below, unlocking, items, ?_⟩
  rw [← spend.sighash_engine]
  exact signed

theorem Chain.wellNamed {committed : List Block} (chain : Chain committed)
    (free : CollisionFree (committed.flatMap Block.hashed)) : WellNamed committed where
  wellFormed := chain.wellFormed
  distinct := by
    intro left inLeft right inRight sameTxid
    obtain ⟨leftBlock, leftIn, inLeft⟩ := List.mem_flatMap.mp inLeft
    obtain ⟨rightBlock, rightIn, inRight⟩ := List.mem_flatMap.mp inRight
    exact chain.eq_of_txid_eq chain free (List.Subset.refl _) (List.Subset.refl _) leftIn rightIn
      inLeft inRight sameTxid

/-- A block that spends an outpoint of the ledger opens the contract of its output. -/
theorem Accepts.unlockedHeight_ne_none {committed : List Block} {block : Block}
    (accepts : Accepts committed block) {op : OutPoint} {output : TxOutput}
    (found : (ledger committed).lookup op = some output) (spent : op ∈ block.spentOutPoints) :
    ScriptEngine.unlockedHeight output.lockingScript ≠ none := by
  obtain ⟨spend, rfl⟩ := accepts.exists_spend spent
  obtain rfl : output = spend.output := Option.some.inj (found.symm.trans spend.found)
  obtain ⟨unlocked, program, top, -, spelled, few, meant⟩ :=
    spend.engine.locking_of_executeContract (accepts.opened spend)
  rw [spelled, spend.engine.unlockedHeight_of_meaning few meant]
  exact Option.some_ne_none _

/-- An output that no contract can open, once it is in the ledger, stays there. -/
theorem dead_outputs_stay (offered : List DecodedBlock)
    (free : CollisionFree (NodeRun.after offered).hashed) {before later : List Block}
    (split : (NodeRun.after offered).committed = before ++ later) {op : OutPoint}
    {output : TxOutput} (found : (ledger before).lookup op = some output)
    (dead : ScriptEngine.unlockedHeight output.lockingScript = none) :
    (∀ block ∈ later, op ∉ block.spentOutPoints) ∧
      (NodeRun.after offered).engine.storage.lookup op = some output := by
  obtain ⟨chain, engine⟩ := NodeRun.chain_after offered
  have named := chain.wellNamed free
  rw [split] at named
  have unspent : ∀ part rest, later = part ++ rest →
      ∀ block ∈ part, op ∉ block.spentOutPoints := by
    intro part
    induction part using List.reverseRecOn with
    | nil => exact fun _ _ => List.forall_mem_nil _
    | append_singleton part block inductionHypothesis =>
        rintro rest rfl
        rw [List.append_assoc] at split named inductionHypothesis
        have kept := inductionHypothesis _ rfl
        rw [List.forall_mem_append, List.forall_mem_singleton]
        refine ⟨kept, ?_⟩
        intro spent
        -- The output is still there when the block comes.
        rw [← List.append_assoc] at split named
        have still := lookup_of_unspent named.left found kept
        exact (chain.accepts_of_spent split spent).unlockedHeight_ne_none still spent dead
  have unspent := unspent later [] (List.append_nil later).symm
  refine ⟨unspent, ?_⟩
  rw [engine, split]
  exact lookup_of_unspent named found unspent

end Spends

section Sample

/-! A coinbase with a signature lock and a dead output, and a block that opens the
lock. -/

namespace Sample

def lockKey : PushData := ⟨pubkey, by decide +kernel, by decide +kernel⟩

def lockProgram : List Instruction := demandSignatures [lockKey] [.op .opTrue]

def lockOutput : TxOutput where
  value := Quantum.fromRaw 3000
  lockingScript := scriptCode.assemble lockProgram
  datum := .none

def deadOutput : TxOutput where
  value := Quantum.fromRaw 2000
  lockingScript := [0x6a]
  datum := .none

def lockingCoinbase : Transaction :=
  { coinbaseWith [0x03] with outputs := [lockOutput, deadOutput] }

def lockingCoinbaseId : Hash256 :=
  Hash256.ofNat 0xbd0034c82b911bae7fc91cfd07d5504d443be7c1d959f82c44dddfc16e76cfd9

def locking : Block where
  header := header genesisHash lockingCoinbaseId 1773446460 0 1
  transactions := [lockingCoinbase]

def lockingHash : Hash256 :=
  Hash256.ofNat 0x78dafb3c28fd6db5e2f704c9803aaa8f8485b16a529efda846ea55c8796d0f84

def opening : Transaction where
  version := 1
  inputs := [{
    previousOutput := { txid := lockingCoinbaseId, vout := 0 }
    unlockingScript := 0x40 :: beBytes 64
      (0x01437af362ed0a71271cdadf3bd1716e1be88621ce922fe622645051600cf4e6 * 2 ^ 256 +
        0xa8a11fc0746899611c8eb728567716b0cb940e008bdfb00fdcf6d6f70eed970a)
    sequence := 0xFFFFFFFF
    redeemer := none }]
  outputs := [unlocked 3000]
  locktime := 0

def openingId : Hash256 :=
  Hash256.ofNat 0x4611c891ae99e3ff818f825691281dac9b31745b0c8114bc8bac6f8083500c6b

def openedRoot : Hash256 :=
  Hash256.ofNat 0x2ba59687c5826643e8eed7a0c3d55c0c23696a6f5f1204ce888a1819d59171aa

def opened : Block where
  header := header lockingHash openedRoot 1773446520 0 2
  transactions := [laterCoinbase, opening]

def openingSighash : Hash256 :=
  Hash256.ofNat 0x8059e9d8e51bd42fc80e0844d88a320e3e7a3a5c70ebf197431434a4fbfe7388

def lockedDigests : List (Bytes × Hash256) := [
  (genesisCoinbase.encodeCanonical, genesisId),
  (genesisHeader.encodeCanonical, genesisHash),
  (lockingCoinbase.encodeCanonical, lockingCoinbaseId),
  (locking.header.encodeCanonical, lockingHash),
  (laterCoinbase.encodeCanonical, laterCoinbaseId),
  (opening.encodeCanonical, openingId),
  (opening.sighashPreimage 0, openingSighash),
  (laterCoinbaseId.asBytes ++ openingId.asBytes, openedRoot),
  (opened.header.encodeCanonical,
    Hash256.ofNat 0x3a93d77196662cec1a338071b898ad1bbec6bb0bc7771057dae1c06ca5952c08)]

abbrev lockedCrypto : Crypto := Crypto.ofTables lockedDigests
  [(pubkey, openingSighash.asBytes,
    (opening.inputs.flatMap TxInput.unlockingScript).drop 1)]

def lockedRun : List DecodedBlock :=
  [.ofWellFormed locking (by decide +kernel), .ofWellFormed opened (by decide +kernel)]

end Sample

open Sample

attribute [local instance] Sample.lockedCrypto

theorem committed_lockedRun :
    (NodeRun.after lockedRun).committed = [createGenesisBlock, locking, opened] := by
  decide +kernel

/-- The lock of the coinbase is opened with the signature in the block. -/
theorem spends_signed_opened :
    ∃ spend : Spend (ledger [createGenesisBlock, locking]) opened,
      ∃ unlocked sigs below, spend.engine.executeUnlocking spend.input.unlockingScript
          lockOutput.datum spend.input.redeemer = .ok unlocked ∧
        unlocked.stack.items = sigs ++ below ∧
        List.Forall₂ (fun key sig => verifyEd25519 key.data sig
          (spend.tx.sighash spend.index).asBytes = true) [lockKey] sigs := by
  have split : (NodeRun.after lockedRun).committed =
      [createGenesisBlock, locking] ++ opened :: [] := committed_lockedRun
  obtain ⟨spend, -, signed⟩ := spends_signed lockedRun split
    (by decide +kernel : { txid := lockingCoinbaseId, vout := 0 } ∈ opened.spentOutPoints)
    (by decide +kernel : _ = some lockOutput) rfl
  exact ⟨spend, signed⟩

/-- The dead output of the coinbase is still there after the block that spends the
other one. -/
theorem dead_outputs_stay_opened :
    (NodeRun.after lockedRun).engine.storage.lookup { txid := lockingCoinbaseId, vout := 1 } =
      some deadOutput := by
  have split : (NodeRun.after lockedRun).committed =
      [createGenesisBlock, locking] ++ [opened] := committed_lockedRun
  exact (dead_outputs_stay lockedRun (by decide +kernel) split (by decide +kernel)
    (by decide +kernel)).2

end Sample

end Aurion
