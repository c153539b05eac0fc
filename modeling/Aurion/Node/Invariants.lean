import Aurion.Consensus.Verification
import Aurion.Script.Engine

/-!
# The invariants of a block

The validator asks for one unspent output at a time.  It is written for any
monad that answers: a pure lookup here, the storage engine in the pipeline.
-/

namespace Aurion

open Foundation

inductive InvariantError
  | duplicateInputSpend (outpoint : OutPoint)
  | missingUtxo (outpoint : OutPoint)
  | scriptExecutionFailed (txid : String) (inputIndex : Nat) (error : ScriptError)
  | valueInflation (txid inputs outputs : String)
  | arithmeticOverflow
  deriving DecidableEq, Repr

section Definition

/-- An entry of `tx_spent_utxos`. -/
structure SpentInput where
  inputIdx : Nat
  input : TxInput
  utxo : TxOutput

/-- What the loop over the inputs of a transaction carries along. -/
structure Collected where
  spentSet : List OutPoint
  totalInputVal : Quantum
  txSpentUtxos : List SpentInput

def addValue (total value : Quantum) : Except InvariantError Quantum :=
  (total.checkedAdd value).mapError fun _ => .arithmeticOverflow

/-- 1. The sum of the output values. -/
def totalOutputVal (tx : Transaction) : Except InvariantError Quantum :=
  tx.outputs.foldlM (fun total output => addValue total output.value) Quantum.zero

variable {m : Type → Type} [Monad m]

/-- 2. Look up the inputs, refuse a second spend and add up the values. -/
def collectInputs (utxoLookup : OutPoint → m (Option TxOutput)) :
    List (TxInput × Nat) → Collected → ExceptT InvariantError m Collected
  | [], collected => pure collected
  | (input, inputIdx) :: rest, collected => do
      let op := input.previousOutput
      settle (ensure (op ∉ collected.spentSet) (.duplicateInputSpend op))
      let found ← ExceptT.lift (utxoLookup op)
      let utxo ← settle (found.elim (.error (.missingUtxo op)) .ok)
      let totalInputVal ← settle (addValue collected.totalInputVal utxo.value)
      collectInputs utxoLookup rest {
        spentSet := op :: collected.spentSet
        totalInputVal
        txSpentUtxos := collected.txSpentUtxos ++ [{ inputIdx, input, utxo }] }

variable [Crypto]

/-- The engine for one input, with its context. -/
def inputEngine (validationHeight : UInt64) (tx : Transaction) (fee : Quantum)
    (spent : SpentInput) : ScriptEngine :=
  let spentExtendedUtxo := ExtendedUtxo.fromOutput spent.utxo 0 false
  let ctx : ScriptContext :=
    { tx, currentInputIndex := spent.inputIdx, currentSpentUtxo := spentExtendedUtxo, fee,
      validationHeight }
  ScriptEngine.new (some ctx)

def runInput (validationHeight : UInt64) (tx : Transaction) (fee : Quantum)
    (spent : SpentInput) : Except ScriptError Bool :=
  (inputEngine validationHeight tx fee spent).executeContract spent.utxo.lockingScript
    spent.input.unlockingScript spent.utxo.datum spent.input.redeemer

/-- 4. Evaluate the contract of one input. -/
def evaluateInput (validationHeight : UInt64) (tx : Transaction) (fee : Quantum)
    (spent : SpentInput) : Except InvariantError OutPoint := do
  let failed := InvariantError.scriptExecutionFailed tx.txid.toHex spent.inputIdx
  let valid ← (runInput validationHeight tx fee spent).mapError failed
  ensure (valid = true) (failed .scriptFailed)
  pure spent.input.previousOutput

/-- 3 and 4. The conservation of value, then the contracts of all inputs. -/
def verifySpends (validationHeight : UInt64) (tx : Transaction) (totalOutput : Quantum)
    (collected : Collected) : Except InvariantError (List OutPoint) := do
  ensure (totalOutput.raw ≤ collected.totalInputVal.raw) (.valueInflation tx.txid.toHex
    (toString collected.totalInputVal.raw) (toString totalOutput.raw))
  let txFee ← (collected.totalInputVal.checkedSub totalOutput).mapError fun _ =>
    .arithmeticOverflow
  collected.txSpentUtxos.mapM (evaluateInput validationHeight tx txFee)

/-- The loop over the transactions, with the spent set and the spent inputs. -/
def verifyTransactions (utxoLookup : OutPoint → m (Option TxOutput)) (height : UInt64) :
    List Transaction → List OutPoint → List OutPoint →
      ExceptT InvariantError m (List OutPoint)
  | [], _, spentInputs => pure spentInputs
  | tx :: rest, spentSet, spentInputs =>
      if tx.isCoinbase then verifyTransactions utxoLookup height rest spentSet spentInputs
      else do
        let totalOutput ← settle (totalOutputVal tx)
        let collected ← collectInputs utxoLookup tx.inputs.zipIdx
          { spentSet, totalInputVal := Quantum.zero, txSpentUtxos := [] }
        let spent ← settle (verifySpends height tx totalOutput collected)
        verifyTransactions utxoLookup height rest collected.spentSet (spentInputs ++ spent)

def verifyBlockInvariantsM (block : Block) (utxoLookup : OutPoint → m (Option TxOutput)) :
    ExceptT InvariantError m (List OutPoint) :=
  verifyTransactions utxoLookup block.header.height block.transactions [] []

def verifyBlockInvariants (block : Block) (utxoLookup : OutPoint → Option TxOutput) :
    Except InvariantError (List OutPoint) :=
  outcome (verifyBlockInvariantsM block fun op => (pure (utxoLookup op) : Id _))

end Definition

section Acceptance

/-- The outpoints a transaction refers to. -/
def Transaction.outPoints (tx : Transaction) : List OutPoint :=
  tx.inputs.map TxInput.previousOutput

/-- The transactions of a block that are not coinbases. -/
def Block.spending (block : Block) : List Transaction :=
  block.transactions.filter fun tx => !tx.isCoinbase

/-- The outpoints a block spends, in the order of its inputs. -/
def Block.spentOutPoints (block : Block) : List OutPoint :=
  block.spending.flatMap Transaction.outPoints

variable (lookup : OutPoint → Option TxOutput)

/-- The value found under an outpoint, zero when there is none. -/
def heldValue (outpoint : OutPoint) : Nat :=
  (lookup outpoint).elim 0 fun output => output.value.raw

def Transaction.inputTotal (tx : Transaction) : Nat :=
  (tx.outPoints.map (heldValue lookup)).sum

def Transaction.fee (tx : Transaction) : Nat := tx.inputTotal lookup - tx.outputTotal

/-- The conditions on one transaction. -/
structure SpendValid [Crypto] (height : UInt64) (tx : Transaction) : Prop where
  found : ∀ op ∈ tx.outPoints, (lookup op).isSome
  fits : tx.inputTotal lookup < 2 ^ 128
  conserved : tx.outputTotal ≤ tx.inputTotal lookup
  authorised : ∀ index input utxo, tx.inputs[index]? = some input →
    lookup input.previousOutput = some utxo →
    runInput height tx (Quantum.fromRaw (tx.fee lookup)) ⟨index, input, utxo⟩ = .ok true

theorem addValue_eq_ok_iff (total value sum : Quantum) :
    addValue total value = .ok sum ↔ total.raw + value.raw = sum.raw := by
  rw [addValue, mapError_eq_ok_iff, Quantum.checkedAdd_eq_ok_iff]

theorem totalOutputVal_eq_ok_iff (tx : Transaction) (total : Quantum) :
    totalOutputVal tx = .ok total ↔ tx.outputTotal = total.raw := by
  have general : ∀ (outputs : List TxOutput) (start : Quantum),
      outputs.foldlM (fun total output => addValue total output.value) start = .ok total ↔
        start.raw + (outputs.map fun output => output.value.raw).sum = total.raw := by
    intro outputs
    induction outputs with
    | nil => intro start; simp [except_pure_eq_ok_iff, Quantum.ext_iff]
    | cons output outputs inductionHypothesis =>
        intro start
        have bound := total.bound
        simp only [List.foldlM_cons, except_bind_eq_ok_iff, inductionHypothesis,
          addValue_eq_ok_iff, List.map_cons, List.sum_cons]
        constructor
        · intro ran
          rcases ran with ⟨middle, first, rest⟩
          omega
        · intro sum
          exact ⟨⟨start.raw + output.value.raw, by omega⟩, rfl, by simp only; omega⟩
  have start := general tx.outputs Quantum.zero
  simpa [totalOutputVal, Transaction.outputTotal, Quantum.zero] using start

/-- The entry for an input whose output is found. -/
def resolve (entry : TxInput × Nat) : Option SpentInput :=
  (lookup entry.1.previousOutput).map fun utxo =>
    { inputIdx := entry.2, input := entry.1, utxo }

theorem collectInputs_cons_eq_ok_iff (input : TxInput) (inputIdx : Nat)
    (entries : List (TxInput × Nat)) (before after : Collected) :
    outcome (collectInputs (fun op => (pure (lookup op) : Id _)) ((input, inputIdx) :: entries)
        before) = .ok after ↔
      ∃ utxo total, input.previousOutput ∉ before.spentSet ∧
        lookup input.previousOutput = some utxo ∧
        before.totalInputVal.raw + utxo.value.raw = total.raw ∧
        outcome (collectInputs (fun op => (pure (lookup op) : Id _)) entries {
          spentSet := input.previousOutput :: before.spentSet
          totalInputVal := total
          txSpentUtxos := before.txSpentUtxos ++ [{ inputIdx, input, utxo }] }) = .ok after := by
  simp only [collectInputs, outcome_bind_eq_ok_iff, outcome_settle, outcome_lift,
    ensure_eq_ok_iff, addValue_eq_ok_iff, Id.run_pure, exists_const, Except.ok.injEq,
    exists_eq_left']
  cases lookup input.previousOutput with
  | none => simp
  | some utxo => simp

theorem collectInputs_eq_ok_iff (entries : List (TxInput × Nat)) (before after : Collected) :
    outcome (collectInputs (fun op => (pure (lookup op) : Id _)) entries before) = .ok after ↔
      (∀ entry ∈ entries, (lookup entry.1.previousOutput).isSome) ∧
        (entries.map fun entry => entry.1.previousOutput).Nodup ∧
        (∀ entry ∈ entries, entry.1.previousOutput ∉ before.spentSet) ∧
        after.spentSet =
          (entries.map fun entry => entry.1.previousOutput).reverse ++ before.spentSet ∧
        after.totalInputVal.raw = before.totalInputVal.raw +
          (entries.map fun entry => heldValue lookup entry.1.previousOutput).sum ∧
        after.txSpentUtxos = before.txSpentUtxos ++ entries.filterMap (resolve lookup) := by
  induction entries generalizing before with
  | nil =>
      rcases before with ⟨spentSet, total, spent⟩
      rcases after with ⟨spentSet', total', spent'⟩
      simp only [collectInputs, outcome_pure, Except.ok.injEq, Collected.mk.injEq,
        Quantum.ext_iff, List.map_nil, List.sum_nil, List.filterMap_nil, List.append_nil,
        List.reverse_nil, List.nil_append, List.nodup_nil, List.not_mem_nil, false_implies,
        implies_true, true_and, Nat.add_zero]
      grind
  | cons entry entries inductionHypothesis =>
      rcases entry with ⟨input, inputIdx⟩
      have bound := after.totalInputVal.bound
      rw [collectInputs_cons_eq_ok_iff]
      constructor
      · intro ran
        rcases ran with ⟨utxo, total, unseen, found, sum, rest⟩
        rcases (inductionHypothesis _).mp rest with
          ⟨resolved, distinct, fresh, spentSet, inputs, spent⟩
        have value : heldValue lookup input.previousOutput = utxo.value.raw := by
          simp [heldValue, found]
        refine ⟨List.forall_mem_cons.mpr ⟨by simp [found], resolved⟩, ?_, ?_, ?_, ?_, ?_⟩
        · rw [List.map_cons, List.nodup_cons]
          refine ⟨fun membership => ?_, distinct⟩
          rcases List.mem_map.mp membership with ⟨entry, entryIn, same⟩
          exact fresh entry entryIn (same ▸ List.mem_cons_self)
        · exact List.forall_mem_cons.mpr ⟨unseen, fun entry entryIn seen =>
            fresh entry entryIn (List.mem_cons_of_mem _ seen)⟩
        · simpa using spentSet
        · simp only [List.map_cons, List.sum_cons, value] at inputs ⊢
          omega
        · simp [resolve, found, spent]
      · intro conditions
        rcases conditions with ⟨resolved, distinct, fresh, spentSet, inputs, spent⟩
        rw [List.forall_mem_cons] at resolved fresh
        rw [List.map_cons, List.nodup_cons] at distinct
        simp only [List.map_cons, List.sum_cons] at inputs
        obtain ⟨utxo, found⟩ := Option.isSome_iff_exists.mp resolved.1
        have value : heldValue lookup input.previousOutput = utxo.value.raw := by
          simp [heldValue, found]
        refine ⟨utxo, ⟨before.totalInputVal.raw + utxo.value.raw, by omega⟩, fresh.1, found, rfl,
          (inductionHypothesis _).mpr ⟨resolved.2, distinct.2, ?_, ?_, ?_, ?_⟩⟩
        · intro entry entryIn seen
          rcases List.mem_cons.mp seen with same | older
          · exact distinct.1 (List.mem_map.mpr ⟨entry, entryIn, same⟩)
          · exact fresh.2 entry entryIn older
        · simpa using spentSet
        · simp only
          omega
        · simpa [resolve, found] using spent

theorem evaluateInput_eq_ok_iff [Crypto] (height : UInt64) (tx : Transaction) (fee : Quantum)
    (spent : SpentInput) (op : OutPoint) :
    evaluateInput height tx fee spent = .ok op ↔
      runInput height tx fee spent = .ok true ∧ spent.input.previousOutput = op := by
  simp only [evaluateInput, except_bind_eq_ok_iff, mapError_eq_ok_iff, ensure_eq_ok_iff,
    except_pure_eq_ok_iff, exists_const]
  constructor
  · intro ran
    rcases ran with ⟨valid, run, rfl, same⟩
    exact ⟨run, same⟩
  · intro both
    exact ⟨true, both.1, rfl, both.2⟩

theorem verifySpends_eq_ok_iff [Crypto] (height : UInt64) (tx : Transaction)
    (totalOutput : Quantum) (collected : Collected) (spent : List OutPoint) :
    verifySpends height tx totalOutput collected = .ok spent ↔
      totalOutput.raw ≤ collected.totalInputVal.raw ∧
        (∀ entry ∈ collected.txSpentUtxos, runInput height tx
          (Quantum.fromRaw (collected.totalInputVal.raw - totalOutput.raw)) entry = .ok true) ∧
        collected.txSpentUtxos.map (fun entry => entry.input.previousOutput) = spent := by
  simp only [verifySpends, ensure_eq_ok_iff, except_bind_eq_ok_iff, mapError_eq_ok_iff,
    exists_const, mapM_eq_ok_iff (evaluateInput_eq_ok_iff height tx _),
    Quantum.checkedSub_eq_ok_iff]
  have bound := collected.totalInputVal.bound
  constructor
  · intro ran
    rcases ran with ⟨conserved, txFee, fee, scripts, spends⟩
    have same : Quantum.fromRaw (collected.totalInputVal.raw - totalOutput.raw) = txFee := by
      ext
      rw [Quantum.raw_fromRaw (by omega)]
      omega
    exact ⟨conserved, by rwa [same], spends⟩
  · intro conditions
    rcases conditions with ⟨conserved, scripts, spends⟩
    refine ⟨conserved, _, ?_, scripts, spends⟩
    rw [Quantum.raw_fromRaw (by omega)]
    omega

theorem map_zipIdx_fst {Target : Type} (tx : Transaction) (project : OutPoint → Target) :
    tx.inputs.zipIdx.map (fun entry => project entry.1.previousOutput) =
      tx.outPoints.map project := by
  calc tx.inputs.zipIdx.map (fun entry => project entry.1.previousOutput)
      = (tx.inputs.zipIdx.map Prod.fst).map (project ∘ TxInput.previousOutput) := by
        rw [List.map_map]
        rfl
    _ = tx.outPoints.map project := by
        rw [List.zipIdx_map_fst, Transaction.outPoints, List.map_map]

theorem map_filterMap_resolve (entries : List (TxInput × Nat))
    (resolved : ∀ entry ∈ entries, (lookup entry.1.previousOutput).isSome) :
    (entries.filterMap (resolve lookup)).map (fun entry => entry.input.previousOutput) =
      entries.map fun entry => entry.1.previousOutput := by
  induction entries with
  | nil => rfl
  | cons entry entries inductionHypothesis =>
      rw [List.forall_mem_cons] at resolved
      obtain ⟨utxo, found⟩ := Option.isSome_iff_exists.mp resolved.1
      simp [resolve, found, ← inductionHypothesis resolved.2]

/-- One turn of the loop over the transactions. -/
theorem verifyTransactions_cons_eq_ok_iff [Crypto] (height : UInt64) (tx : Transaction)
    (rest : List Transaction) (spentSet spentInputs result : List OutPoint)
    (spends : tx.isCoinbase = false) :
    outcome (verifyTransactions (fun op => (pure (lookup op) : Id _)) height (tx :: rest)
        spentSet spentInputs) = .ok result ↔
      SpendValid lookup height tx ∧ tx.outPoints.Nodup ∧
        (∀ op ∈ tx.outPoints, op ∉ spentSet) ∧
        outcome (verifyTransactions (fun op => (pure (lookup op) : Id _)) height rest
          (tx.outPoints.reverse ++ spentSet) (spentInputs ++ tx.outPoints)) = .ok result := by
  have unindexed := map_zipIdx_fst tx id
  have values := map_zipIdx_fst tx (heldValue lookup)
  simp only [id_eq, List.map_id] at unindexed
  have perEntry (property : OutPoint → Prop) :
      (∀ entry ∈ tx.inputs.zipIdx, property entry.1.previousOutput) ↔
        ∀ op ∈ tx.outPoints, property op := by
    rw [← unindexed, List.forall_mem_map]
  simp only [verifyTransactions, spends, Bool.false_eq_true, if_false, outcome_bind_eq_ok_iff,
    outcome_settle, totalOutputVal_eq_ok_iff, collectInputs_eq_ok_iff, verifySpends_eq_ok_iff,
    unindexed, values, perEntry fun op => (lookup op).isSome, perEntry fun op => op ∉ spentSet]
  constructor
  · intro ran
    rcases ran with ⟨totalOutput, outputs, collected,
      ⟨found, distinct, fresh, spentEq, inputs, utxos⟩, _, ⟨conserved, scripts, rfl⟩, tail⟩
    have bound := collected.totalInputVal.bound
    have total : collected.totalInputVal.raw = tx.inputTotal lookup := by
      simpa [Quantum.zero, Transaction.inputTotal] using inputs
    rw [utxos, List.nil_append, map_filterMap_resolve lookup _ ((perEntry _).mpr found),
      unindexed, spentEq] at tail
    refine ⟨⟨found, by omega, by omega, ?_⟩, distinct, fresh, tail⟩
    intro index input utxo at_ foundUtxo
    rw [Transaction.fee, outputs, ← total]
    apply scripts
    rw [utxos, List.nil_append, List.mem_filterMap]
    exact ⟨(input, index), List.mem_zipIdx_iff_getElem?.mpr at_, by simp [resolve, foundUtxo]⟩
  · intro conditions
    rcases conditions with ⟨valid, distinct, fresh, tail⟩
    have fits := valid.fits
    have conserved := valid.conserved
    refine ⟨⟨tx.outputTotal, by omega⟩, rfl, ⟨_, ⟨tx.inputTotal lookup, fits⟩, _⟩,
      ⟨valid.found, distinct, fresh, rfl, by simp [Quantum.zero, Transaction.inputTotal], rfl⟩,
      _, ⟨conserved, ?_, rfl⟩, ?_⟩
    · intro entry membership
      rw [List.nil_append, List.mem_filterMap] at membership
      rcases membership with ⟨⟨input, index⟩, inputIn, resolved⟩
      simp only [resolve, Option.map_eq_some_iff] at resolved
      rcases resolved with ⟨utxo, found, rfl⟩
      exact valid.authorised index input utxo (List.mem_zipIdx_iff_getElem?.mp inputIn) found
    · rw [List.nil_append, map_filterMap_resolve lookup _ ((perEntry _).mpr valid.found),
        unindexed]
      exact tail

theorem verifyTransactions_eq_ok_iff [Crypto] (height : UInt64) (txs : List Transaction)
    (spentSet spentInputs result : List OutPoint) :
    outcome (verifyTransactions (fun op => (pure (lookup op) : Id _)) height txs spentSet
        spentInputs) = .ok result ↔
      let spending := txs.filter fun tx => !tx.isCoinbase
      (∀ tx ∈ spending, SpendValid lookup height tx) ∧
        (spending.flatMap Transaction.outPoints).Nodup ∧
        (∀ op ∈ spending.flatMap Transaction.outPoints, op ∉ spentSet) ∧
        spentInputs ++ spending.flatMap Transaction.outPoints = result := by
  induction txs generalizing spentSet spentInputs with
  | nil => simp [verifyTransactions]
  | cons tx txs inductionHypothesis =>
      cases kind : tx.isCoinbase with
      | true => simp [verifyTransactions, kind, inductionHypothesis]
      | false =>
          rw [verifyTransactions_cons_eq_ok_iff _ _ _ _ _ _ _ kind, inductionHypothesis]
          simp only [List.filter_cons, kind, Bool.not_false, if_true, List.forall_mem_cons,
            List.flatMap_cons, List.nodup_append, List.append_assoc, List.mem_append,
            List.mem_reverse, not_or]
          grind

/-- A block passes exactly when its inputs are distinct outpoints and every
spending transaction is valid on its own; the result lists the inputs. -/
theorem verifyBlockInvariants_eq_ok_iff [Crypto] (block : Block) (spentInputs : List OutPoint) :
    verifyBlockInvariants block lookup = .ok spentInputs ↔
      (∀ tx ∈ block.spending, SpendValid lookup block.header.height tx) ∧
        block.spentOutPoints.Nodup ∧ block.spentOutPoints = spentInputs := by
  rw [verifyBlockInvariants, verifyBlockInvariantsM, verifyTransactions_eq_ok_iff]
  simp [Block.spending, Block.spentOutPoints]

theorem verifyBlockInvariants_accepts_iff [Crypto] (block : Block) :
    (∃ spentInputs, verifyBlockInvariants block lookup = .ok spentInputs) ↔
      (∀ tx ∈ block.spending, SpendValid lookup block.header.height tx) ∧
        block.spentOutPoints.Nodup := by
  simp only [verifyBlockInvariants_eq_ok_iff, exists_and_left, exists_eq', and_true]

theorem Block.spending_perm {left right : Block}
    (reordered : left.transactions.Perm right.transactions) :
    left.spending.Perm right.spending :=
  reordered.filter _

theorem Block.spentOutPoints_perm {left right : Block}
    (reordered : left.transactions.Perm right.transactions) :
    left.spentOutPoints.Perm right.spentOutPoints :=
  (Block.spending_perm reordered).flatMap_right _

/-- The verdict does not depend on the order of the transactions. -/
theorem verifyBlockInvariants_perm [Crypto] {left right : Block}
    (sameHeight : left.header.height = right.header.height)
    (reordered : left.transactions.Perm right.transactions) :
    (∃ spentInputs, verifyBlockInvariants left lookup = .ok spentInputs) ↔
      ∃ spentInputs, verifyBlockInvariants right lookup = .ok spentInputs := by
  have sameSpending : ∀ tx, tx ∈ left.spending ↔ tx ∈ right.spending :=
    fun tx => (Block.spending_perm reordered).mem_iff
  have sameDistinct := (Block.spentOutPoints_perm reordered).nodup_iff
  simp only [verifyBlockInvariants_accepts_iff, sameHeight, sameSpending, sameDistinct]

/-- Whatever an accepted block spends was known before the block. -/
theorem isSome_lookup_of_spent [Crypto] {block : Block} {spentInputs : List OutPoint}
    (accepted : verifyBlockInvariants block lookup = .ok spentInputs) {op : OutPoint}
    (spent : op ∈ block.spentOutPoints) : (lookup op).isSome := by
  obtain ⟨valid, -, -⟩ := (verifyBlockInvariants_eq_ok_iff lookup block spentInputs).mp accepted
  obtain ⟨tx, spends, isInput⟩ := List.mem_flatMap.mp spent
  exact (valid tx spends).found op isInput

/-- The conditions of all spending transactions, taken apart. -/
theorem forall_spendValid_iff [Crypto] (block : Block) (height : UInt64) :
    (∀ tx ∈ block.spending, SpendValid lookup height tx) ↔
      (∀ op ∈ block.spentOutPoints, (lookup op).isSome) ∧
        ∀ tx ∈ block.spending,
          (tx.inputTotal lookup < 2 ^ 128 ∧ tx.outputTotal < 2 ^ 128 ∧
            tx.outputTotal ≤ tx.inputTotal lookup) ∧
          ∀ index input utxo, tx.inputs[index]? = some input →
            lookup input.previousOutput = some utxo →
            runInput height tx (Quantum.fromRaw (tx.fee lookup)) ⟨index, input, utxo⟩ =
              .ok true := by
  constructor
  · intro valid
    refine ⟨fun op spent => ?_, fun tx spends => ⟨?_, (valid tx spends).authorised⟩⟩
    · obtain ⟨tx, spends, isInput⟩ := List.mem_flatMap.mp spent
      exact (valid tx spends).found op isInput
    · obtain ⟨-, fits, conserved, -⟩ := valid tx spends
      exact ⟨fits, Nat.lt_of_le_of_lt conserved fits, conserved⟩
  · intro conditions
    obtain ⟨found, sound⟩ := conditions
    intro tx spends
    obtain ⟨⟨fits, -, conserved⟩, authorised⟩ := sound tx spends
    exact ⟨fun op isInput => found op (List.mem_flatMap.mpr ⟨tx, spends, isInput⟩), fits,
      conserved, authorised⟩

/-- The exact meaning of the check: which blocks pass and with what result, that
the order of the transactions does not matter, and that no output of the block
is spent in it unless the lookup already knew it. -/
theorem block_invariants_exact [Crypto] (block : Block) :
    (∀ spentInputs, verifyBlockInvariants block lookup = .ok spentInputs ↔
      (block.spentOutPoints.Nodup ∧ ∀ op ∈ block.spentOutPoints, (lookup op).isSome) ∧
        (∀ tx ∈ block.spending,
          (tx.inputTotal lookup < 2 ^ 128 ∧ tx.outputTotal < 2 ^ 128 ∧
            tx.outputTotal ≤ tx.inputTotal lookup) ∧
          ∀ index input utxo, tx.inputs[index]? = some input →
            lookup input.previousOutput = some utxo →
            runInput block.header.height tx (Quantum.fromRaw (tx.fee lookup))
              ⟨index, input, utxo⟩ = .ok true) ∧
        spentInputs = block.spentOutPoints) ∧
      (∀ other : Block, other.header = block.header →
        other.transactions.Perm block.transactions →
        ((∃ spentInputs, verifyBlockInvariants other lookup = .ok spentInputs) ↔
          ∃ spentInputs, verifyBlockInvariants block lookup = .ok spentInputs)) ∧
      ∀ spentInputs, verifyBlockInvariants block lookup = .ok spentInputs →
        ∀ tx ∈ block.transactions, ∀ vout, ⟨tx.txid, vout⟩ ∈ block.spentOutPoints →
          (lookup ⟨tx.txid, vout⟩).isSome := by
  refine ⟨fun spentInputs => ?_, fun other sameHeader reordered => ?_, ?_⟩
  · rw [verifyBlockInvariants_eq_ok_iff, forall_spendValid_iff, eq_comm (a := spentInputs)]
    constructor
    · intro passes
      obtain ⟨⟨found, sound⟩, distinct, spent⟩ := passes
      exact ⟨⟨distinct, found⟩, sound, spent⟩
    · intro conditions
      obtain ⟨⟨distinct, found⟩, sound, spent⟩ := conditions
      exact ⟨⟨found, sound⟩, distinct, spent⟩
  · exact verifyBlockInvariants_perm lookup (congrArg BlockHeader.height sameHeader) reordered
  · intro spentInputs accepted tx _ vout spent
    exact isSome_lookup_of_spent lookup accepted spent

end Acceptance

end Aurion
