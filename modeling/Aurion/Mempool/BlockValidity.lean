import Aurion.Mempool.Pool
import Aurion.Script.Context

/-!
# From the gates to the block check

What the gates accept, the block check accepts in a block after a coinbase:
the values, the contracts and the height are the same for both.  Only the block
check asks whether the inputs are distinct.
-/

namespace Aurion

open Foundation

section Contracts

variable [Crypto]

/-- Both validators run the contract of an input alike. -/
theorem runContract_eq_runInput (height : UInt64) (tx : Transaction) (fee : Quantum)
    (spent : ResolvedInput) :
    runContract height tx fee spent =
      runInput height tx fee ⟨spent.idx, spent.input, spent.utxo.toOutput⟩ := by
  have agrees : (contractEngine height tx fee spent).AgreesWith
      (inputEngine height tx fee ⟨spent.idx, spent.input, spent.utxo.toOutput⟩) := ⟨rfl, rfl⟩
  exact agrees.readsAlike.executeContract rfl _ _ _ _

/-- The contracts of all inputs whose outputs are found accept at a height. -/
def Transaction.ContractsAccept (tx : Transaction) (lookup : OutPoint → Option TxOutput)
    (height : UInt64) : Prop :=
  ∀ index input utxo, tx.inputs[index]? = some input →
    lookup input.previousOutput = some utxo →
    runInput height tx (Quantum.fromRaw (tx.fee lookup)) ⟨index, input, utxo⟩ = .ok true

end Contracts

section Values

variable {tx : Transaction} {lookup : OutPoint → Option TxOutput}

/-- The lookup finds these outputs under the inputs of the transaction. -/
def Transaction.Finds (tx : Transaction) (lookup : OutPoint → Option TxOutput)
    (outputs : List TxOutput) : Prop :=
  tx.outPoints.map lookup = outputs.map some

namespace Transaction.Finds

variable {outputs : List TxOutput} (finds : tx.Finds lookup outputs)

include finds

theorem isSome : ∀ op ∈ tx.outPoints, (lookup op).isSome := by
  intro op membership
  have found : lookup op ∈ outputs.map some := finds ▸ List.mem_map_of_mem membership
  obtain ⟨output, -, same⟩ := List.mem_map.mp found
  rw [← same, Option.isSome_some]

theorem inputTotal_eq :
    tx.inputTotal lookup = (outputs.map fun output => output.value.raw).sum := by
  have values : tx.outPoints.map (heldValue lookup) =
      (tx.outPoints.map lookup).map fun found => found.elim 0 fun output => output.value.raw := by
    rw [List.map_map]
    rfl
  rw [inputTotal, values, finds, List.map_map]
  rfl

theorem getElem?_eq {index : Nat} {input : TxInput} {output : TxOutput}
    (at_ : tx.inputs[index]? = some input) (found : lookup input.previousOutput = some output) :
    outputs[index]? = some output := by
  have pointwise := congrArg (·[index]?) finds
  simpa [outPoints, at_, found] using pointwise.symm

end Transaction.Finds

variable [Crypto] {mempoolSpent : Table OutPoint Hash256} {tipHeight mtp : UInt64}
  {utxos : List ExtendedUtxo} {fee : Quantum}

omit [Crypto] in
theorem mem_resolved {index : Nat} {input : TxInput} {utxo : ExtendedUtxo}
    (at_ : tx.inputs[index]? = some input) (resolves : utxos[index]? = some utxo) :
    ⟨index, input, utxo⟩ ∈ tx.resolved utxos := by
  refine List.mem_map.mpr ⟨((input, index), utxo), ?_, rfl⟩
  apply List.mem_of_getElem? 
  rw [List.getElem?_zip_eq_some]
  exact ⟨by simp [at_], resolves⟩

namespace Admissible

variable (admissible : Admissible tx mempoolSpent tipHeight mtp utxos fee)
  (finds : tx.Finds lookup (utxos.map ExtendedUtxo.toOutput))

include admissible finds

theorem inputTotal_eq : tx.inputTotal lookup = tx.outputTotal + fee.raw := by
  rw [finds.inputTotal_eq, admissible.conserved, List.map_map]
  rfl

theorem fee_eq : Quantum.fromRaw (tx.fee lookup) = fee := by
  have difference : tx.fee lookup = fee.raw := by
    rw [Transaction.fee, inputTotal_eq admissible finds, Nat.add_sub_cancel_left]
  ext
  rw [difference, Quantum.raw_fromRaw fee.bound]

theorem contractsAccept : tx.ContractsAccept lookup (tipHeight + 1) := by
  intro index input output at_ found
  have resolves := finds.getElem?_eq at_ found
  rw [List.getElem?_map, Option.map_eq_some_iff] at resolves
  obtain ⟨utxo, atUtxo, rfl⟩ := resolves
  have accepts := admissible.contracts _ (mem_resolved at_ atUtxo)
  rwa [runContract_eq_runInput, ← fee_eq admissible finds] at accepts

/-- What the gates stage is valid on its own for the block check. -/
theorem spendValid : SpendValid lookup (tipHeight + 1) tx where
  found := finds.isSome
  fits := by
    have fits := admissible.fits
    rwa [← admissible.conserved, ← inputTotal_eq admissible finds] at fits
  conserved := by
    rw [inputTotal_eq admissible finds]
    exact Nat.le_add_right _ _
  authorised := contractsAccept admissible finds

end Admissible

end Values

section Blocks

variable [Crypto]

/-- Each outpoint's view entry as an output. -/
def viewLookup (utxoView : UtxoView) (op : OutPoint) : Option TxOutput :=
  (utxoView op).map ExtendedUtxo.toOutput

/-- The view that a node builds over its storage. -/
def StorageEngine.utxoView (storage : StorageEngine) : UtxoView := fun op =>
  (storage.lookup op).map fun output => ExtendedUtxo.fromOutput output 0 false

omit [Crypto] in
theorem viewLookup_utxoView (storage : StorageEngine) :
    viewLookup storage.utxoView = storage.lookup := by
  funext op
  unfold viewLookup StorageEngine.utxoView
  cases storage.lookup op <;> rfl

omit [Crypto] in
theorem finds_of_resolved {tx : Transaction} {utxoView : UtxoView} {utxos : List ExtendedUtxo}
    (resolved : tx.outPoints.map utxoView = utxos.map some) :
    tx.Finds (viewLookup utxoView) (utxos.map ExtendedUtxo.toOutput) := by
  have outputs := congrArg (List.map (Option.map ExtendedUtxo.toOutput)) resolved
  rw [List.map_map, List.map_map] at outputs
  rw [Transaction.Finds, List.map_map]
  exact outputs

omit [Crypto] in
theorem spending_of_body {block : Block} {coinbase tx : Transaction}
    (body : block.transactions = [coinbase, tx]) (isCoinbase : coinbase.isCoinbase = true)
    (spends : tx.isCoinbase = false) : block.spending = [tx] := by
  simp [Block.spending, body, isCoinbase, spends]

/-- A transaction that the gates accept is accepted by the block check, alone
after a coinbase, exactly when its inputs are distinct outpoints. -/
theorem admitted_valid_in_block (tx : Transaction) (utxoView : UtxoView)
    (mempoolSpent : Table OutPoint Hash256) (tipHeight mtp : UInt64) (fee : Quantum)
    (accepted : validateAgainst tx utxoView mempoolSpent tipHeight mtp = .ok fee)
    (block : Block) (coinbase : Transaction) (height : block.header.height = tipHeight + 1)
    (body : block.transactions = [coinbase, tx]) (isCoinbase : coinbase.isCoinbase = true) :
    (∃ spentInputs, verifyBlockInvariants block (viewLookup utxoView) = .ok spentInputs) ↔
      tx.outPoints.Nodup := by
  obtain ⟨utxos, resolved, admissible⟩ := (validateAgainst_eq_ok_iff _ _ _ _ _ _).mp accepted
  have finds := finds_of_resolved resolved
  have valid := admissible.spendValid finds
  have spending := spending_of_body body isCoinbase admissible.notCoinbase
  have spent : block.spentOutPoints = tx.outPoints := by
    simp [Block.spentOutPoints, spending]
  simp only [verifyBlockInvariants_eq_ok_iff, spending, spent, List.forall_mem_singleton, height]
  constructor
  · intro passed
    obtain ⟨_, -, distinct, -⟩ := passed
    exact distinct
  · intro distinct
    exact ⟨_, valid, distinct, rfl⟩

end Blocks

section Sample

open Sample

attribute [local instance] Sample.stagingCrypto

/-- A block at height 1 with these transactions; the check reads no more of it. -/
def Sample.blockOf (transactions : List Transaction) : Block where
  header := header genesisHash Hash256.zero 1773446460 0 1
  transactions := transactions

theorem admitted_valid_in_block_cheap :
    ∃ spentInputs, verifyBlockInvariants (blockOf [coinbase, cheap]) (viewLookup plenty) =
      .ok spentInputs := by
  have accepted : validateAgainst cheap plenty ∅ 0 0 = .ok (Quantum.fromRaw 1000) := by
    decide +kernel
  exact (admitted_valid_in_block cheap plenty ∅ 0 0 _ accepted (blockOf [coinbase, cheap]) coinbase
    rfl rfl (by decide +kernel)).mpr (by decide +kernel)

/-- The gates accept a transaction that lists an outpoint twice, and count its
value twice; the block check refuses the second spend. -/
theorem admitted_invalid_in_block :
    ¬ ∀ (tx : Transaction) (utxoView : UtxoView) (mempoolSpent : Table OutPoint Hash256)
      (tipHeight mtp : UInt64) (fee : Quantum) (block : Block) (coinbase : Transaction),
      validateAgainst tx utxoView mempoolSpent tipHeight mtp = .ok fee →
      block.header.height = tipHeight + 1 → block.transactions = [coinbase, tx] →
      coinbase.isCoinbase = true →
      ∃ spentInputs, verifyBlockInvariants block (viewLookup utxoView) = .ok spentInputs := by
  intro claimed
  have accepted : validateAgainst doubled plenty ∅ 0 0 = .ok (Quantum.fromRaw 2000) := by
    decide +kernel
  obtain ⟨spentInputs, passed⟩ := claimed doubled plenty ∅ 0 0 _ (blockOf [coinbase, doubled])
    coinbase accepted rfl rfl (by decide +kernel)
  have distinct := ((verifyBlockInvariants_eq_ok_iff _ _ _).mp passed).2.1
  exact absurd distinct (by decide +kernel)

end Sample

end Aurion
