import Aurion.Core.Sighash
import Aurion.Node.Authorization
import Aurion.Script.Context

/-!
# Ids and unlocking scripts

The id of a transaction hashes its unlocking scripts, while no contract sees
them except by running them.  An unlocking script can therefore be exchanged for
another one that the contract accepts as well, and the id changes with it.
-/

namespace Aurion

open Foundation

section Clearing

theorem map_set_eq_self {Source Target : Type} (project : Source → Target) {items : List Source}
    {index : Nat} {old : Source} (at_ : items[index]? = some old) (new : Source)
    (same : project new = project old) : (items.set index new).map project = items.map project := by
  obtain ⟨inRange, found⟩ := List.getElem?_eq_some_iff.mp at_
  rw [List.map_set, same, ← found, ← List.getElem_map project,
    List.set_getElem_self]
  simpa using inRange

namespace Transaction

/-- The unlocking scripts of the inputs, in order. -/
def unlockingScripts (tx : Transaction) : List Bytes := tx.inputs.map TxInput.unlockingScript

theorem eq_of_unlockingScripts_eq {left right : Transaction}
    (cleared : left.clearUnlockingScripts = right.clearUnlockingScripts)
    (scripts : left.unlockingScripts = right.unlockingScripts) : left = right := by
  obtain ⟨version, inputs, outputs, locktime⟩ := left
  obtain ⟨version', inputs', outputs', locktime'⟩ := right
  simp only [clearUnlockingScripts, Transaction.mk.injEq] at cleared
  obtain ⟨rfl, clearedInputs, rfl, rfl⟩ := cleared
  have paired := congrArg₂ List.zip clearedInputs scripts
  simp only [unlockingScripts, List.zip_map'] at paired
  have joined : Function.Injective fun input : TxInput =>
      ({ input with unlockingScript := [] }, input.unlockingScript) := by
    intro input input' same
    cases input
    cases input'
    simp_all
  rw [List.map_injective_iff.mpr joined paired]

/-- The transaction with another unlocking script for one input. -/
def unlockWith (tx : Transaction) (index : Nat) (input : TxInput) (unlockingScript : Bytes) :
    Transaction :=
  { tx with inputs := tx.inputs.set index { input with unlockingScript } }

variable {tx tx' : Transaction}

theorem clear_unlockWith {index : Nat} {input : TxInput} (at_ : tx.inputs[index]? = some input)
    (unlockingScript : Bytes) :
    (tx.unlockWith index input unlockingScript).clearUnlockingScripts =
      tx.clearUnlockingScripts := by
  simp only [clearUnlockingScripts, unlockWith]
  rw [map_set_eq_self _ at_ { input with unlockingScript } rfl]

theorem outPoints_eq_of_clear (cleared : tx.clearUnlockingScripts = tx'.clearUnlockingScripts) :
    tx.outPoints = tx'.outPoints := by
  have outPoints (tx : Transaction) : tx.clearUnlockingScripts.outPoints = tx.outPoints := by
    rw [Transaction.outPoints, clearUnlockingScripts, List.map_map]
    rfl
  rw [← outPoints tx, cleared, outPoints tx']

theorem outputs_eq_of_clear (cleared : tx.clearUnlockingScripts = tx'.clearUnlockingScripts) :
    tx.outputs = tx'.outputs := by
  have outputs := congrArg Transaction.outputs cleared
  exact outputs

theorem sighash_eq_of_clear [Crypto]
    (cleared : tx.clearUnlockingScripts = tx'.clearUnlockingScripts) (index : Nat) :
    tx.sighash index = tx'.sighash index := by
  rw [sighash, sighashPreimage, cleared, sighash, sighashPreimage]

theorem isCoinbase_eq_of_clear
    (cleared : tx.clearUnlockingScripts = tx'.clearUnlockingScripts) :
    tx.isCoinbase = tx'.isCoinbase := by
  have coinbase (tx : Transaction) : tx.clearUnlockingScripts.isCoinbase = tx.isCoinbase := by
    obtain ⟨version, inputs, outputs, locktime⟩ := tx
    cases inputs with
    | nil => rfl
    | cons input rest => cases rest <;> rfl
  rw [← coinbase tx, cleared, coinbase tx']

end Transaction

end Clearing

section Exchange

variable [Crypto] {lookup : OutPoint → Option TxOutput} {height : UInt64} {tx tx' : Transaction}

/-- The engines for one input of transactions that differ in unlocking scripts only. -/
theorem readsAlike_of_clear
    (cleared : tx.clearUnlockingScripts = tx'.clearUnlockingScripts) (fee : Quantum)
    (spent : SpentInput) :
    (inputEngine height tx fee spent).ReadsAlike (inputEngine height tx' fee spent) := by
  have count : tx.inputs.length = tx'.inputs.length := by
    simpa [Transaction.outPoints] using
      congrArg List.length (Transaction.outPoints_eq_of_clear cleared)
  have locktime : tx.locktime = tx'.locktime := by
    have locktimes := congrArg Transaction.locktime cleared
    exact locktimes
  constructor
  · simp only [inputEngine, ScriptEngine.new, count, Transaction.sighash_eq_of_clear cleared]
  · simp only [inputEngine, ScriptEngine.new, Option.map_some, ScriptEngine.readPart, count,
      locktime, Transaction.outputs_eq_of_clear cleared]

/-- Exchanged unlocking scripts keep a transaction valid if the contracts accept
them in the old transaction. -/
theorem SpendValid.exchange (cleared : tx.clearUnlockingScripts = tx'.clearUnlockingScripts)
    (valid : SpendValid lookup height tx)
    (accepts : ∀ index input utxo, tx'.inputs[index]? = some input →
      lookup input.previousOutput = some utxo →
      runInput height tx (Quantum.fromRaw (tx.fee lookup)) ⟨index, input, utxo⟩ = .ok true) :
    SpendValid lookup height tx' := by
  have outPoints := Transaction.outPoints_eq_of_clear cleared
  have inputTotal : tx'.inputTotal lookup = tx.inputTotal lookup := by
    rw [Transaction.inputTotal, ← outPoints, Transaction.inputTotal]
  have outputTotal : tx'.outputTotal = tx.outputTotal := by
    rw [Transaction.outputTotal, ← Transaction.outputs_eq_of_clear cleared,
      Transaction.outputTotal]
  refine ⟨outPoints ▸ valid.found, inputTotal ▸ valid.fits,
    by rw [inputTotal, outputTotal]; exact valid.conserved, ?_⟩
  intro index input utxo at_ found
  have alike : (inputEngine height tx _ _).ReadsAlike (inputEngine height tx' _ _) :=
    readsAlike_of_clear cleared (Quantum.fromRaw (tx.fee lookup)) ⟨index, input, utxo⟩
  have same := alike.executeContract rfl utxo.lockingScript input.unlockingScript utxo.datum
    input.redeemer
  rw [Transaction.fee, inputTotal, outputTotal]
  exact same.symm.trans (accepts index input utxo at_ found)

/-- A block keeps its verdict when a valid transaction takes the place of one
with the same outpoints. -/
theorem accepts_replace {block other : Block} {before after : List Transaction}
    (body : block.transactions = before ++ tx :: after)
    (otherBody : other.transactions = before ++ tx' :: after)
    (sameHeight : other.header.height = block.header.height) (spends : tx.isCoinbase = false)
    (spends' : tx'.isCoinbase = false) (outPoints : tx'.outPoints = tx.outPoints)
    (valid : SpendValid lookup block.header.height tx')
    (accepted : ∃ spentInputs, verifyBlockInvariants block lookup = .ok spentInputs) :
    ∃ spentInputs, verifyBlockInvariants other lookup = .ok spentInputs := by
  rw [verifyBlockInvariants_accepts_iff] at accepted ⊢
  simp only [Block.spentOutPoints, Block.spending, body, otherBody, List.filter_append,
    List.filter_cons, spends, spends', Bool.not_false, if_true, List.forall_mem_append,
    List.forall_mem_cons, List.flatMap_append, List.flatMap_cons, outPoints, sameHeight]
    at accepted ⊢
  obtain ⟨⟨validBefore, -, validAfter⟩, distinct⟩ := accepted
  exact ⟨⟨validBefore, valid, validAfter⟩, distinct⟩

/-- The contract of the input executes fewer instructions than it may. -/
def HasRoom (lookup : OutPoint → Option TxOutput) (height : UInt64) (tx : Transaction)
    (spent : SpentInput) : Prop :=
  ∃ final, (inputEngine height tx (Quantum.fromRaw (tx.fee lookup)) spent).executeScripts
      spent.utxo.lockingScript spent.input.unlockingScript spent.utxo.datum
      spent.input.redeemer = .ok final ∧ final.opCount < maxOpsPerScript

/-- A valid transaction stays valid with an `OP_NOP` in front of an unlocking
script whose contract has room for it. -/
theorem SpendValid.unlockWith_nop (valid : SpendValid lookup height tx) {index : Nat}
    {input : TxInput} {utxo : TxOutput} (at_ : tx.inputs[index]? = some input)
    (found : lookup input.previousOutput = some utxo)
    (room : HasRoom lookup height tx ⟨index, input, utxo⟩) :
    SpendValid lookup height (tx.unlockWith index input (0x61 :: input.unlockingScript)) := by
  obtain ⟨inRange, -⟩ := List.getElem?_eq_some_iff.mp at_
  apply valid.exchange (Transaction.clear_unlockWith at_ _).symm
  intro other input' utxo' at' found'
  by_cases same : index = other
  · subst same
    simp only [Transaction.unlockWith, List.getElem?_set_self inRange, Option.some.injEq] at at'
    subst at'
    obtain rfl : utxo = utxo' := Option.some.inj (found.symm.trans found')
    obtain ⟨final, ran, few⟩ := room
    have accepted := valid.authorised index input utxo at_ found
    rw [runInput, ScriptEngine.executeContract_eq_ok_true_iff] at accepted ⊢
    obtain ⟨final', top, ran', items, truthy⟩ := accepted
    obtain rfl : final = final' := Except.ok.inj (ran.symm.trans ran')
    exact ⟨_, top, ScriptEngine.executeScripts_nop _ ran few, items, truthy⟩
  · rw [Transaction.unlockWith, List.getElem?_set_ne same] at at'
    exact valid.authorised other input' utxo' at' found'

end Exchange

section Malleability

variable [Crypto] (lookup : OutPoint → Option TxOutput)

/-- Two accepted transactions that differ in unlocking scripts only have one id
exactly when they do not differ at all, and an accepted transaction has such a
twin as soon as the contract of one input leaves an instruction unused. -/
theorem txid_malleability (block : Block) (before after : List Transaction) (tx : Transaction)
    (body : block.transactions = before ++ tx :: after) (spends : tx.isCoinbase = false)
    (wellFormed : tx.WellFormed)
    (accepted : ∃ spentInputs, verifyBlockInvariants block lookup = .ok spentInputs) :
    (∀ (other : Block) (tx' : Transaction), other.header.height = block.header.height →
      other.transactions = before ++ tx' :: after → tx'.WellFormed →
      tx'.clearUnlockingScripts = tx.clearUnlockingScripts →
      CollisionFree [tx.encodeCanonical, tx'.encodeCanonical] →
      (∃ spentInputs, verifyBlockInvariants other lookup = .ok spentInputs) →
      (tx.txid = tx'.txid ↔ tx.unlockingScripts = tx'.unlockingScripts)) ∧
    ∀ index input utxo, tx.inputs[index]? = some input →
      lookup input.previousOutput = some utxo →
      HasRoom lookup block.header.height tx ⟨index, input, utxo⟩ →
      ∃ tx' : Transaction, tx'.clearUnlockingScripts = tx.clearUnlockingScripts ∧
        tx'.unlockingScripts ≠ tx.unlockingScripts ∧
        ∃ spentInputs, verifyBlockInvariants
          { block with transactions := before ++ tx' :: after } lookup = .ok spentInputs := by
  constructor
  · intro other tx' _ _ wellFormed' cleared free _
    constructor
    · intro sameId
      have same : tx.encodeCanonical = tx'.encodeCanonical :=
        free _ (by simp) _ (by simp) sameId
      rw [Transaction.encodeCanonical_injective wellFormed wellFormed' same]
    · intro scripts
      rw [Transaction.eq_of_unlockingScripts_eq cleared.symm scripts]
  · intro index input utxo at_ found room
    obtain ⟨inRange, -⟩ := List.getElem?_eq_some_iff.mp at_
    have cleared := Transaction.clear_unlockWith at_ (0x61 :: input.unlockingScript)
    refine ⟨tx.unlockWith index input (0x61 :: input.unlockingScript), cleared, ?_, ?_⟩
    · intro same
      have scripts := congrArg (·[index]?) same
      simp only [Transaction.unlockingScripts, Transaction.unlockWith, List.getElem?_map, at_,
        List.getElem?_set_self inRange, Option.map_some, Option.some.injEq] at scripts
      exact List.cons_ne_self _ _ scripts
    · obtain ⟨valid, -⟩ := (verifyBlockInvariants_accepts_iff lookup block).mp accepted
      have isSpending : tx ∈ block.spending :=
        List.mem_filter.mpr ⟨by simp [body], by simp [spends]⟩
      refine accepts_replace body rfl rfl spends ?_
        (Transaction.outPoints_eq_of_clear cleared)
        ((valid tx isSpending).unlockWith_nop at_ found room) accepted
      rw [Transaction.isCoinbase_eq_of_clear cleared, spends]

end Malleability

section Sample

/-- The signed spend with an `OP_NOP` that its signer did not write. -/
def Sample.paddedSpend : Transaction :=
  Sample.signedSpend.unlockWith 0 Sample.signedInput (0x61 :: Sample.signedInput.unlockingScript)

def Sample.paddedBlock : Block :=
  { Sample.signedBlock with transactions := [Sample.paddedSpend] }

abbrev Sample.padding : Crypto :=
  let sighash := Hash256.ofNat 0x3d65b8baabde5516359eaff3c1300960c6c6cd2179407670e62a862d2e75f18f
  Crypto.ofTables [
    (Sample.signedSpend.sighashPreimage 0, sighash),
    (Sample.signedSpend.encodeCanonical,
      Hash256.ofNat 0xf509a0315b3269f21ef852dbbf7d336b42d4f251ce8d0798cd86ecf1ce9bcb26),
    (Sample.paddedSpend.encodeCanonical,
      Hash256.ofNat 0xdf76b4db53cc467c8d7f5de698e39a4843526a5e0a2176094a49de2e8ac3f044)]
    [(Sample.pubkey, sighash.asBytes, Sample.signature)]

attribute [local instance] Sample.padding

theorem Sample.signedBlock_accepted :
    ∃ spentInputs, verifyBlockInvariants Sample.signedBlock (fun _ => some Sample.lockedOutput) =
      .ok spentInputs :=
  ⟨[Sample.signedInput.previousOutput], by decide +kernel⟩

theorem Sample.paddedBlock_accepted :
    ∃ spentInputs, verifyBlockInvariants Sample.paddedBlock (fun _ => some Sample.lockedOutput) =
      .ok spentInputs :=
  ⟨[Sample.signedInput.previousOutput], by decide +kernel⟩

/-- The ids of the signed spend and its padded twin differ with their scripts. -/
theorem txid_malleability_signedSpend : Sample.signedSpend.txid ≠ Sample.paddedSpend.txid := by
  have binding := (txid_malleability (fun _ => some Sample.lockedOutput) Sample.signedBlock [] []
    Sample.signedSpend rfl (by decide +kernel) (by decide +kernel)
    Sample.signedBlock_accepted).1 Sample.paddedBlock Sample.paddedSpend rfl rfl
    (by decide +kernel) rfl (by decide +kernel) Sample.paddedBlock_accepted
  rw [Ne, binding]
  decide +kernel

/-- Without a new signature the signed spend is accepted under another id. -/
theorem txid_malleable :
    ¬ ∀ (lookup : OutPoint → Option TxOutput) (block other : Block)
      (before after : List Transaction) (tx tx' : Transaction),
      block.header.height = other.header.height → block.transactions = before ++ tx :: after →
      other.transactions = before ++ tx' :: after →
      tx.isCoinbase = false → tx'.isCoinbase = false →
      tx.clearUnlockingScripts = tx'.clearUnlockingScripts →
      (∃ spentInputs, verifyBlockInvariants block lookup = .ok spentInputs) →
      (∃ spentInputs, verifyBlockInvariants other lookup = .ok spentInputs) →
      tx.txid = tx'.txid := by
  intro claimed
  have same := claimed (fun _ => some Sample.lockedOutput) Sample.signedBlock Sample.paddedBlock
    [] [] Sample.signedSpend Sample.paddedSpend rfl rfl rfl (by decide +kernel)
    (by decide +kernel) rfl Sample.signedBlock_accepted Sample.paddedBlock_accepted
  exact absurd same (by decide +kernel)

end Sample

end Aurion
