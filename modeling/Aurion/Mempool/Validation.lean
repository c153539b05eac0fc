import Aurion.Eutxo.Fee
import Aurion.Eutxo.Locktime
import Aurion.Foundation.Dialogue
import Aurion.Foundation.Table
import Aurion.Node.Invariants

/-!
# The six gates of the mempool

The validator asks a view for one unspent output at a time and is written as a
program over these requests, since the ledger behind a view may change between
two of them.  An accepted dialogue lists the outputs found for the inputs, and
everything the gates check is said of that list.
-/

namespace Aurion

open Foundation

/-- An unspent output as a view returns it. -/
abbrev UtxoView := OutPoint → Option ExtendedUtxo

/-- Programs that read a view. -/
abbrev ViewM (Value : Type) := Program OutPoint (fun _ => Option ExtendedUtxo) Value

inductive MempoolReject
  | oversizedTransaction (size : Nat)
  | emptyTransaction
  | coinbaseNotAllowed
  | doubleSpendConflict (outpoint : OutPoint) (conflictingTxid : Hash256)
  | missingUtxo (outpoint : OutPoint)
  | immatureCoinbase (message : String)
  | locktimeReject (message : String)
  | sequenceReject (message : String)
  | valueConservationViolation
  | insufficientFee (message : String)
  | feeTooLow (provided required : Quantum)
  | scriptExecutionFailed (message : String)
  | contractConditionFailed (inputIndex : Nat)
  | mempoolFull
  | arithmeticOverflow
  deriving DecidableEq, Repr

def MempoolReject.message : MempoolReject → String
  | .oversizedTransaction size =>
      "transaction too large: " ++ toString size ++ " bytes exceeds 100 KB limit"
  | .emptyTransaction => "transaction has empty inputs or outputs"
  | .coinbaseNotAllowed => "coinbase transactions are not accepted by the mempool"
  | .doubleSpendConflict outpoint conflictingTxid =>
      "double-spend conflict: outpoint " ++ outpoint.toText ++ " already reserved by tx " ++
        conflictingTxid.toHex
  | .missingUtxo outpoint => "referenced UTXO not found in ledger: " ++ outpoint.toText
  | .immatureCoinbase message => "immature coinbase: " ++ message
  | .locktimeReject message => "locktime violation: " ++ message
  | .sequenceReject message => "relative sequence violation: " ++ message
  | .valueConservationViolation => "value conservation violated: outputs exceed inputs"
  | .insufficientFee message => "insufficient fee: " ++ message
  | .feeTooLow provided required =>
      "fee too low: provided " ++ toString provided.raw ++ " < required " ++ toString required.raw
  | .scriptExecutionFailed message => "script execution failed: " ++ message
  | .contractConditionFailed inputIndex =>
      "SPEC-05 contract condition failed for input index " ++ toString inputIndex
  | .mempoolFull => "mempool full: incoming transaction does not beat lowest fee-rate"
  | .arithmeticOverflow => "arithmetic overflow during mempool calculation"

section Sums

/-- The loops that add up amounts with `checked_add`. -/
def checkedSum (amounts : List Quantum) : Except QuantumError Quantum :=
  amounts.foldlM Quantum.checkedAdd Quantum.zero

theorem checkedSum_eq_ok_iff (amounts : List Quantum) (total : Quantum) :
    checkedSum amounts = .ok total ↔ (amounts.map Quantum.raw).sum = total.raw := by
  have general : ∀ (amounts : List Quantum) (start : Quantum),
      amounts.foldlM Quantum.checkedAdd start = .ok total ↔
        start.raw + (amounts.map Quantum.raw).sum = total.raw := by
    intro amounts
    induction amounts with
    | nil => intro start; simp [except_pure_eq_ok_iff, Quantum.ext_iff]
    | cons amount amounts inductionHypothesis =>
        intro start
        have bound := total.bound
        simp only [List.foldlM_cons, except_bind_eq_ok_iff, inductionHypothesis,
          Quantum.checkedAdd_eq_ok_iff, List.map_cons, List.sum_cons]
        constructor
        · intro ran
          obtain ⟨middle, first, rest⟩ := ran
          omega
        · intro sum
          exact ⟨⟨start.raw + amount.raw, by omega⟩, rfl, by simp only; omega⟩
  simpa [checkedSum, Quantum.zero] using general amounts Quantum.zero

end Sums

section Gates

/-- An entry of `spent_utxos`. -/
structure ResolvedInput where
  idx : Nat
  input : TxInput
  utxo : ExtendedUtxo

/-- Gates 1 and 2. -/
def checkStructure (tx : Transaction) : Except MempoolReject Unit := do
  let txSize := tx.encodeCanonical.length
  ensure (txSize ≤ maxTxSizeBytes) (.oversizedTransaction txSize)
  ensure (tx.inputs ≠ [] ∧ tx.outputs ≠ []) .emptyTransaction
  ensure (tx.isCoinbase = false) .coinbaseNotAllowed

/-- Gate 3 for one outpoint. -/
def checkReservation (mempoolSpent : Table OutPoint Hash256) (op : OutPoint) :
    Except MempoolReject Unit :=
  match mempoolSpent.lookup op with
  | some conflictingTxid => .error (.doubleSpendConflict op conflictingTxid)
  | none => .ok ()

def nextBlockHeight (currentTipHeight : UInt64) : Except MempoolReject UInt64 :=
  if currentTipHeight.toNat + 1 < 2 ^ 64 then .ok (currentTipHeight + 1)
  else .error .arithmeticOverflow

/-- Gate 4 for the output found for one input, with the running total. -/
def checkInput (nextHeight : UInt64) (total : Quantum) (spent : ResolvedInput) :
    Except MempoolReject Quantum := do
  (verifyCoinbaseMaturity spent.input.previousOutput spent.utxo nextHeight).mapError fun error =>
    .immatureCoinbase error.message
  (verifyRelativeSequence spent.input.sequence spent.utxo nextHeight spent.idx).mapError
    fun error => .sequenceReject error.message
  (total.checkedAdd spent.utxo.value).mapError fun _ => .arithmeticOverflow

/-- The loop of gate 4 over the inputs. -/
def resolveInputs (nextHeight : UInt64) :
    List (TxInput × Nat) → Quantum → List ResolvedInput →
      ExceptT MempoolReject ViewM (Quantum × List ResolvedInput)
  | [], total, spentUtxos => pure (total, spentUtxos)
  | (input, idx) :: rest, total, spentUtxos => do
      let op := input.previousOutput
      let found ← ExceptT.lift (Program.perform op)
      let utxo ← settle (found.elim (.error (.missingUtxo op)) .ok)
      let spent : ResolvedInput := { idx, input, utxo }
      let total ← settle (checkInput nextHeight total spent)
      resolveInputs nextHeight rest total (spentUtxos ++ [spent])

variable [Crypto]

/-- The engine of gate 5 for one input, with its context. -/
def contractEngine (nextHeight : UInt64) (tx : Transaction) (txFee : Quantum)
    (spent : ResolvedInput) : ScriptEngine :=
  let ctx : ScriptContext :=
    { tx, currentInputIndex := spent.idx, currentSpentUtxo := spent.utxo, fee := txFee
      validationHeight := nextHeight }
  ScriptEngine.new (some ctx)

def runContract (nextHeight : UInt64) (tx : Transaction) (txFee : Quantum)
    (spent : ResolvedInput) : Except ScriptError Bool :=
  (contractEngine nextHeight tx txFee spent).executeContract spent.utxo.lockingScript
    spent.input.unlockingScript spent.utxo.datum spent.input.redeemer

/-- Gate 5 for one input. -/
def checkContract (nextHeight : UInt64) (tx : Transaction) (txFee : Quantum)
    (spent : ResolvedInput) : Except MempoolReject Unit := do
  let valid ← (runContract nextHeight tx txFee spent).mapError fun error =>
    .scriptExecutionFailed error.message
  ensure (valid = true) (.contractConditionFailed spent.idx)

omit [Crypto] in
/-- Gate 6. -/
def checkFee (tx : Transaction) (txFee totalInputVal totalOutputVal : Quantum) :
    Except MempoolReject Unit := do
  let txSize := tx.encodeCanonical.length
  let product ← (checkedMul txSize minFeePerByteAur).elim (.error .arithmeticOverflow) .ok
  let requiredFee := Quantum.fromRaw product
  let _ ← (verifyTransactionFee tx totalInputVal.raw totalOutputVal.raw).mapError fun error =>
    .insufficientFee error.message
  ensure (requiredFee.raw ≤ txFee.raw) (.feeTooLow txFee requiredFee)

def validateForMempool (tx : Transaction) (mempoolSpent : Table OutPoint Hash256)
    (currentTipHeight medianTimePast : UInt64) : ExceptT MempoolReject ViewM Quantum := do
  settle (checkStructure tx)
  settle (tx.inputs.forM fun input => checkReservation mempoolSpent input.previousOutput)
  let nextHeight ← settle (nextBlockHeight currentTipHeight)
  settle ((verifyTransactionLocktime tx nextHeight medianTimePast).mapError fun error =>
    .locktimeReject error.message)
  let (totalInputVal, spentUtxos) ← resolveInputs nextHeight tx.inputs.zipIdx Quantum.zero []
  let totalOutputVal ← settle ((checkedSum (tx.outputs.map TxOutput.value)).mapError fun _ =>
    .arithmeticOverflow)
  settle (ensure (totalOutputVal.raw ≤ totalInputVal.raw) .valueConservationViolation)
  let txFee ← settle ((totalInputVal.checkedSub totalOutputVal).mapError fun _ =>
    .arithmeticOverflow)
  settle (spentUtxos.forM (checkContract nextHeight tx txFee))
  settle (checkFee tx txFee totalInputVal totalOutputVal)
  pure txFee

/-- The validator against one fixed view. -/
def validateAgainst (tx : Transaction) (utxoView : UtxoView)
    (mempoolSpent : Table OutPoint Hash256) (currentTipHeight medianTimePast : UInt64) :
    Except MempoolReject Quantum :=
  (validateForMempool tx mempoolSpent currentTipHeight medianTimePast).run.evaluate utxoView

end Gates

section Acceptance

/-- The entries for inputs whose outputs are found. -/
def resolvedEntries (entries : List (TxInput × Nat)) (utxos : List ExtendedUtxo) :
    List ResolvedInput :=
  (entries.zip utxos).map fun found => { idx := found.1.2, input := found.1.1, utxo := found.2 }

def Transaction.resolved (tx : Transaction) (utxos : List ExtendedUtxo) : List ResolvedInput :=
  resolvedEntries tx.inputs.zipIdx utxos

/-- One read of a view: the outpoint and what was found. -/
abbrev ViewRead := (_ : OutPoint) × Option ExtendedUtxo

/-- The dialogue in which each input's output is found. -/
def foundReads (entries : List (TxInput × Nat)) (utxos : List ExtendedUtxo) : List ViewRead :=
  (entries.zip utxos).map fun found => ⟨found.1.1.previousOutput, some found.2⟩

/-- The lock times of an input against its output. -/
structure Timely (nextHeight : UInt64) (spent : ResolvedInput) : Prop where
  mature : verifyCoinbaseMaturity spent.input.previousOutput spent.utxo nextHeight = .ok ()
  sequence : verifyRelativeSequence spent.input.sequence spent.utxo nextHeight spent.idx = .ok ()

/-- What the gates check of a transaction whose inputs refer to these outputs. -/
structure Admissible [Crypto] (tx : Transaction) (mempoolSpent : Table OutPoint Hash256)
    (currentTipHeight medianTimePast : UInt64) (utxos : List ExtendedUtxo) (fee : Quantum) :
    Prop where
  size : tx.encodeCanonical.length ≤ maxTxSizeBytes
  inhabited : tx.inputs ≠ [] ∧ tx.outputs ≠ []
  notCoinbase : tx.isCoinbase = false
  unreserved : ∀ op ∈ tx.outPoints, mempoolSpent.lookup op = none
  height : currentTipHeight.toNat + 1 < 2 ^ 64
  locktime : verifyTransactionLocktime tx (currentTipHeight + 1) medianTimePast = .ok ()
  found : utxos.length = tx.inputs.length
  timely : ∀ spent ∈ tx.resolved utxos, Timely (currentTipHeight + 1) spent
  fits : (utxos.map fun utxo => utxo.value.raw).sum < 2 ^ 128
  conserved : tx.outputTotal + fee.raw = (utxos.map fun utxo => utxo.value.raw).sum
  contracts : ∀ spent ∈ tx.resolved utxos,
    runContract (currentTipHeight + 1) tx fee spent = .ok true
  pays : tx.encodeCanonical.length * minFeePerByteAur ≤ fee.raw

theorem checkInput_eq_ok_iff (nextHeight : UInt64) (total total' : Quantum)
    (spent : ResolvedInput) :
    checkInput nextHeight total spent = .ok total' ↔
      Timely nextHeight spent ∧ total.raw + spent.utxo.value.raw = total'.raw := by
  rw [checkInput, check_bind_eq_ok_iff, check_bind_eq_ok_iff, mapError_eq_ok_iff,
    mapError_eq_ok_iff, mapError_eq_ok_iff, Quantum.checkedAdd_eq_ok_iff]
  constructor
  · intro passed
    obtain ⟨mature, sequence, sum⟩ := passed
    exact ⟨⟨mature, sequence⟩, sum⟩
  · intro both
    exact ⟨both.1.mature, both.1.sequence, both.2⟩

/-- The loop over the inputs succeeds when every output is found and in time. -/
theorem yields_resolveInputs_iff (nextHeight : UInt64) (entries : List (TxInput × Nat))
    (total : Quantum) (before : List ResolvedInput) (dialogue : List ViewRead)
    (result : Quantum × List ResolvedInput) :
    Program.Yields (resolveInputs nextHeight entries total before).run dialogue (.ok result) ↔
      ∃ utxos : List ExtendedUtxo, utxos.length = entries.length ∧
        dialogue = foundReads entries utxos ∧
        (∀ spent ∈ resolvedEntries entries utxos, Timely nextHeight spent) ∧
        total.raw + (utxos.map fun utxo => utxo.value.raw).sum = result.1.raw ∧
        result.2 = before ++ resolvedEntries entries utxos := by
  induction entries generalizing total before dialogue with
  | nil =>
      rw [resolveInputs, Program.yields_ok_pure_iff]
      constructor
      · intro returned
        obtain ⟨rfl, rfl⟩ := returned
        exact ⟨[], rfl, rfl, by simp [resolvedEntries], rfl, (List.append_nil _).symm⟩
      · intro found
        obtain ⟨utxos, empty, rfl, -, sum, spent⟩ := found
        obtain rfl := List.length_eq_zero_iff.mp empty
        exact ⟨rfl, Prod.ext (Quantum.ext sum) (by simpa [resolvedEntries] using spent.symm)⟩
  | cons entry entries inductionHypothesis =>
      obtain ⟨input, idx⟩ := entry
      simp only [resolveInputs, Program.yields_ok_perform_bind_iff,
        Program.yields_ok_settle_bind_iff, inductionHypothesis, checkInput_eq_ok_iff]
      constructor
      · intro ran
        obtain ⟨found, _, rfl, utxo, resolved, total', ⟨timely, sum⟩, utxos, count, rfl, timelyRest,
          sumRest, spent⟩ := ran
        obtain rfl : found = some utxo := by
          cases found with
          | none => cases resolved
          | some other =>
              cases resolved
              rfl
        refine ⟨utxo :: utxos, by simp [count], rfl, List.forall_mem_cons.mpr ⟨timely, timelyRest⟩,
          ?_, by simp [spent, resolvedEntries]⟩
        simp only [List.map_cons, List.sum_cons]
        omega
      · intro conditions
        obtain ⟨utxos, count, rfl, timely, sum, spent⟩ := conditions
        obtain ⟨utxo, utxos, rfl⟩ := List.exists_cons_of_length_eq_add_one count
        have bound := result.1.bound
        simp only [List.map_cons, List.sum_cons] at sum
        obtain ⟨timelyFirst, timelyRest⟩ := List.forall_mem_cons.mp timely
        exact ⟨some utxo, _, rfl, utxo, rfl, ⟨total.raw + utxo.value.raw, by omega⟩,
          ⟨timelyFirst, rfl⟩, utxos, by simpa using count, rfl, timelyRest,
          by simp only; omega, by simp [spent, resolvedEntries]⟩

theorem checkStructure_eq_ok_iff (tx : Transaction) :
    checkStructure tx = .ok () ↔ tx.encodeCanonical.length ≤ maxTxSizeBytes ∧
      (tx.inputs ≠ [] ∧ tx.outputs ≠ []) ∧ tx.isCoinbase = false := by
  rw [checkStructure, check_bind_eq_ok_iff, check_bind_eq_ok_iff, ensure_eq_ok_iff,
    ensure_eq_ok_iff, ensure_eq_ok_iff]

theorem checkReservation_eq_ok_iff (mempoolSpent : Table OutPoint Hash256) (op : OutPoint) :
    checkReservation mempoolSpent op = .ok () ↔ mempoolSpent.lookup op = none := by
  unfold checkReservation
  cases mempoolSpent.lookup op <;> simp

theorem nextBlockHeight_eq_ok_iff (currentTipHeight nextHeight : UInt64) :
    nextBlockHeight currentTipHeight = .ok nextHeight ↔
      currentTipHeight.toNat + 1 < 2 ^ 64 ∧ nextHeight = currentTipHeight + 1 := by
  unfold nextBlockHeight
  split
  next fits => simp only [Except.ok.injEq, fits, true_and, eq_comm]
  next full => simp only [reduceCtorEq, full, false_and]

theorem checkContract_eq_ok_iff [Crypto] (nextHeight : UInt64) (tx : Transaction)
    (txFee : Quantum) (spent : ResolvedInput) :
    checkContract nextHeight tx txFee spent = .ok () ↔
      runContract nextHeight tx txFee spent = .ok true := by
  simp only [checkContract, except_bind_eq_ok_iff, mapError_eq_ok_iff, ensure_eq_ok_iff,
    exists_eq_right]

theorem checkFee_eq_ok_iff (tx : Transaction) (txFee totalInputVal totalOutputVal : Quantum)
    (conserved : totalOutputVal.raw + txFee.raw = totalInputVal.raw) :
    checkFee tx txFee totalInputVal totalOutputVal = .ok () ↔
      tx.encodeCanonical.length ≤ maxTxSizeBytes ∧
        tx.encodeCanonical.length * minFeePerByteAur ≤ txFee.raw := by
  simp only [checkFee, except_bind_eq_ok_iff, mapError_eq_ok_iff, ensure_eq_ok_iff,
    verifyTransactionFee_eq_ok_iff]
  constructor
  · intro passed
    obtain ⟨product, required, actualFee, ⟨small, paid, enough⟩, _⟩ := passed
    exact ⟨small, by omega⟩
  · intro conditions
    obtain ⟨small, enough⟩ := conditions
    refine ⟨_, by rw [checkedMul_of_small small]; rfl, txFee.raw, ⟨small, conserved, enough⟩, ?_⟩
    exact Nat.le_trans (Nat.mod_le _ _) enough

/-- The gates accept a transaction after a dialogue exactly when it found all
outputs and the transaction is admissible with them. -/
theorem yields_validateForMempool_iff [Crypto] (tx : Transaction)
    (mempoolSpent : Table OutPoint Hash256) (currentTipHeight medianTimePast : UInt64)
    (dialogue : List ViewRead) (fee : Quantum) :
    Program.Yields (validateForMempool tx mempoolSpent currentTipHeight medianTimePast).run
        dialogue (.ok fee) ↔
      ∃ utxos, dialogue = foundReads tx.inputs.zipIdx utxos ∧
        Admissible tx mempoolSpent currentTipHeight medianTimePast utxos fee := by
  have reservations : (∀ input ∈ tx.inputs,
      checkReservation mempoolSpent input.previousOutput = .ok ()) ↔
        ∀ op ∈ tx.outPoints, mempoolSpent.lookup op = none := by
    simp only [checkReservation_eq_ok_iff, Transaction.outPoints, List.forall_mem_map]
  have fold : tx.outputTotal = ((tx.outputs.map TxOutput.value).map Quantum.raw).sum := by
    rw [List.map_map]
    rfl
  simp only [validateForMempool, ↓Program.yields_ok_settle_bind_iff, Program.yields_ok_bind_iff,
    Program.yields_settle_iff, Program.yields_ok_pure_iff, nextBlockHeight_eq_ok_iff,
    mapError_eq_ok_iff, yields_resolveInputs_iff, checkedSum_eq_ok_iff, ensure_eq_ok_iff,
    Quantum.checkedSub_eq_ok_iff]
  constructor
  · intro ran
    obtain ⟨_, _, _, rfl, ⟨rfl, structured⟩, _, unreserved, _, ⟨height, rfl⟩, _, locktime, _, _,
      ⟨totalIn, spent⟩, rfl, ⟨utxos, count, rfl, timely, inputs, rfl⟩, totalOut, outputs, _, _,
      txFee, difference, _, contracts, _, paid, rfl, rfl⟩ := ran
    obtain ⟨size, inhabited, notCoinbase⟩ := (checkStructure_eq_ok_iff tx).mp structured
    simp only [Quantum.zero, Nat.zero_add] at inputs difference
    have conserved : totalOut.raw + txFee.raw = totalIn.raw := by omega
    refine ⟨utxos, by rw [List.nil_append, List.append_nil], ?_⟩
    exact {
      size, inhabited, notCoinbase, height, locktime, timely
      unreserved := reservations.mp ((forM_eq_ok_iff _ _).mp unreserved)
      contracts := fun spent membership => (checkContract_eq_ok_iff _ _ _ _).mp
        ((forM_eq_ok_iff _ _).mp contracts spent membership)
      found := by rw [count, List.length_zipIdx]
      fits := inputs ▸ totalIn.bound
      conserved := by rw [inputs, fold, outputs, conserved]
      pays := ((checkFee_eq_ok_iff _ _ _ _ conserved).mp paid).2 }
  · intro conditions
    obtain ⟨utxos, rfl, admissible⟩ := conditions
    have conserved := admissible.conserved
    have fits := admissible.fits
    have outputsFit : tx.outputTotal < 2 ^ 128 := by omega
    refine ⟨[], _, (), rfl, ⟨rfl, (checkStructure_eq_ok_iff tx).mpr ⟨admissible.size,
      admissible.inhabited, admissible.notCoinbase⟩⟩, (), ?_, _, ⟨admissible.height, rfl⟩, (),
      admissible.locktime, _, [], (⟨_, fits⟩, tx.resolved utxos), (List.append_nil _).symm,
      ⟨utxos, by rw [admissible.found, List.length_zipIdx], rfl, admissible.timely, ?_, rfl⟩,
      ⟨tx.outputTotal, outputsFit⟩, fold.symm, (), by simp only; omega, fee,
      by simp only; omega, (), ?_, (), ?_, rfl, rfl⟩
    · rw [forM_eq_ok_iff]
      exact reservations.mpr admissible.unreserved
    · simp only [Quantum.zero, Nat.zero_add]
    · rw [forM_eq_ok_iff]
      exact fun spent membership =>
        (checkContract_eq_ok_iff _ _ _ _).mpr (admissible.contracts spent membership)
    · exact (checkFee_eq_ok_iff _ _ _ _ conserved).mpr ⟨admissible.size, admissible.pays⟩

/-- A view that answers the dialogue holds these outputs. -/
theorem foundReads_answered_iff (utxoView : UtxoView) (entries : List (TxInput × Nat))
    (utxos : List ExtendedUtxo) (count : utxos.length = entries.length) :
    (∀ read ∈ foundReads entries utxos, read.2 = utxoView read.1) ↔
      entries.map (fun entry => utxoView entry.1.previousOutput) = utxos.map some := by
  induction entries generalizing utxos with
  | nil =>
      obtain rfl := List.length_eq_zero_iff.mp count
      simp [foundReads]
  | cons entry entries inductionHypothesis =>
      obtain ⟨utxo, utxos, rfl⟩ := List.exists_cons_of_length_eq_add_one count
      have rest := inductionHypothesis utxos (by simpa using count)
      simp only [foundReads, List.zip_cons_cons, List.map_cons, List.forall_mem_cons,
        List.cons.injEq] at rest ⊢
      rw [rest, eq_comm]

/-- Against one fixed view the gates accept an admissible transaction with the
fee it pays. -/
theorem validateAgainst_eq_ok_iff [Crypto] (tx : Transaction) (utxoView : UtxoView)
    (mempoolSpent : Table OutPoint Hash256) (currentTipHeight medianTimePast : UInt64)
    (fee : Quantum) :
    validateAgainst tx utxoView mempoolSpent currentTipHeight medianTimePast = .ok fee ↔
      ∃ utxos, tx.outPoints.map utxoView = utxos.map some ∧
        Admissible tx mempoolSpent currentTipHeight medianTimePast utxos fee := by
  rw [validateAgainst, Program.evaluate_eq_iff]
  simp only [yields_validateForMempool_iff]
  have counted : ∀ utxos, Admissible tx mempoolSpent currentTipHeight medianTimePast utxos fee →
      utxos.length = tx.inputs.zipIdx.length := fun utxos admissible => by
    rw [admissible.found, List.length_zipIdx]
  constructor
  · intro accepted
    obtain ⟨_, ⟨utxos, rfl, admissible⟩, answered⟩ := accepted
    rw [foundReads_answered_iff _ _ _ (counted utxos admissible),
      map_zipIdx_fst tx utxoView] at answered
    exact ⟨utxos, answered, admissible⟩
  · intro accepted
    obtain ⟨utxos, answered, admissible⟩ := accepted
    rw [← map_zipIdx_fst tx utxoView,
      ← foundReads_answered_iff _ _ _ (counted utxos admissible)] at answered
    exact ⟨_, ⟨utxos, rfl, admissible⟩, answered⟩

end Acceptance

end Aurion
