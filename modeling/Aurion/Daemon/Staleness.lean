import Aurion.Daemon.Invariant

/-!
# No stale entries

Whatever the tasks do between the reads of an insertion or between a commit and
its cleanup, an input of a staged transaction is unspent or spent by a block
whose cleanup is still due.
-/

namespace Aurion

open Foundation

section Fee

open RpcHandler

variable {storage : StorageEngine}

theorem evaluate_sumInputs (inputs : List TxInput) (outputs : List TxOutput)
    (found : inputs.map (fun input => storage.lookup input.previousOutput) = outputs.map some)
    (total : Quantum)
    (fits : total.raw + (outputs.map fun output => output.value.raw).sum < 2 ^ 128) :
    (sumInputs inputs total).run.evaluate storage.utxoView = .ok ⟨_, fits⟩ := by
  induction inputs generalizing outputs total with
  | nil =>
      obtain rfl : outputs = [] := by simpa using found.symm
      rfl
  | cons input inputs inductionHypothesis =>
      obtain ⟨output, outputs, rfl⟩ := List.exists_cons_of_length_eq_add_one
        (by simpa using (congrArg List.length found).symm)
      simp only [List.map_cons, List.cons.injEq] at found
      simp only [List.map_cons, List.sum_cons] at fits
      have view : storage.utxoView input.previousOutput = some (.fromOutput output 0 false) := by
        rw [StorageEngine.utxoView, found.1]
        rfl
      have within : total.raw + output.value.raw < 2 ^ 128 := by omega
      have added : total.checkedAdd output.value = .ok ⟨total.raw + output.value.raw, within⟩ :=
        (Quantum.checkedAdd_eq_ok_iff _ _ _).mpr rfl
      have rest := inductionHypothesis outputs found.2 ⟨total.raw + output.value.raw, within⟩
        (by simpa only [Nat.add_assoc] using fits)
      rw [sumInputs, Program.evaluate_perform_bind, view, Program.evaluate_settle_bind]
      simp only [Option.elim_some, except_ok_bind, Program.evaluate_settle_bind]
      change (total.checkedAdd output.value).mapError _ >>= _ = _
      rw [added]
      refine rest.trans ?_
      simp only [List.map_cons, List.sum_cons, Nat.add_assoc]

/-- The fee is the value of the outputs found minus what the transaction pays out. -/
theorem evaluate_calculateTxFee {tx : Transaction} {outputs : List TxOutput}
    (found : tx.outPoints.map storage.lookup = outputs.map some)
    (fits : (outputs.map fun output => output.value.raw).sum < 2 ^ 128) {fee : Quantum}
    (pays : tx.outputTotal + fee.raw = (outputs.map fun output => output.value.raw).sum) :
    (calculateTxFee tx).run.evaluate storage.utxoView = .ok fee := by
  have inputs := evaluate_sumInputs tx.inputs outputs
    (by rwa [Transaction.outPoints, List.map_map] at found) Quantum.zero
    (by simpa [Quantum.zero] using fits)
  have outputsFit : tx.outputTotal < 2 ^ 128 := by omega
  have paidOut : checkedSum (tx.outputs.map TxOutput.value) = .ok ⟨tx.outputTotal, outputsFit⟩ := by
    rw [checkedSum_eq_ok_iff, List.map_map]
    rfl
  rw [calculateTxFee, Program.evaluate_except_bind, inputs, except_ok_bind,
    Program.evaluate_settle_bind, paidOut]
  change ((Quantum.checkedSub _ _).mapError _) = _
  rw [mapError_eq_ok_iff, Quantum.checkedSub_eq_ok_iff]
  simp only [Quantum.zero, Nat.zero_add]
  rw [← pays, Nat.add_comm]

end Fee

section Runs

variable [Crypto] {txs : List Transaction} {modes : Nat → TaskMode} {daemon : Daemon}

/-- A task in this mode has the cleanup as its next request. -/
theorem Daemon.Holds.pending (holds : daemon.Holds txs modes) {task : Nat} {block : Block}
    (cleaning : modes task = .cleaning block) : daemon.Pending block := by
  have obeys := holds.obeys task
  rw [cleaning] at obeys
  cases program : daemon.programs task with
  | done reply =>
      rw [program] at obeys
      exact obeys.elim
  | request op resume =>
      rw [program] at obeys
      obtain rfl : op = .processCommittedBlock block := obeys.1
      exact ⟨task, resume, program⟩

theorem Node.Sound.wellNamed {node : Node} (sound : node.Sound txs modes)
    (distinct : DistinctIds txs) : WellNamed node.committed where
  wellFormed := sound.wellFormed
  distinct := distinct.mono sound.known

/-- In every state, an input of an entry is unspent or spent by a committed
block whose cleanup is due; when none is due, all inputs are unspent and pay
the recorded fee. -/
theorem entries_never_stale (maxBytes : Nat) (tasks : List NodeTask) (schedule : List Nat)
    (distinct : DistinctIds (NodeTask.allTransactions tasks)) :
    let daemon := Daemon.after maxBytes tasks schedule
    let storage := daemon.shared.engine.storage
    (∀ txid entry, daemon.shared.mempool.byTxid.lookup txid = some entry →
      ∀ op ∈ entry.tx.outPoints, (storage.lookup op).isSome ∨
        ∃ block ∈ daemon.shared.committed, op ∈ block.spentOutPoints ∧ daemon.Pending block) ∧
    ((∀ block, ¬ daemon.Pending block) →
      ∀ txid entry, daemon.shared.mempool.byTxid.lookup txid = some entry →
        (∀ op ∈ entry.tx.outPoints, (storage.lookup op).isSome) ∧
          (RpcHandler.calculateTxFee entry.tx).run.evaluate storage.utxoView =
            .ok entry.fee) := by
  intro daemon storage
  obtain ⟨modes, holds⟩ := Daemon.holds_after maxBytes tasks schedule distinct
  have sound := holds.invariant
  have named := sound.wellNamed distinct
  have ledgerStorage : storage = ledger daemon.shared.committed := sound.storage
  have inputs : ∀ op output, Watched modes daemon.shared.committed op output →
      storage.lookup op = some output ∨
        ∃ block ∈ daemon.shared.committed, op ∈ block.spentOutPoints ∧ daemon.Pending block := by
    intro op output watched
    rw [ledgerStorage]
    rcases watched.found_or_pending named with found | ⟨block, membership, spends, task, cleaning⟩
    · exact Or.inl found
    · exact Or.inr ⟨block, membership, spends, holds.pending cleaning⟩
  constructor
  · intro txid entry found op membership
    obtain ⟨outputs, watched, -, -⟩ := sound.backed txid entry found
    obtain ⟨index, rfl⟩ := List.mem_iff_get.mp membership
    have watches := watched.get index.isLt (watched.length_eq ▸ index.isLt)
    rcases inputs _ _ watches with unspent | pending
    · exact Or.inl (unspent ▸ rfl)
    · exact Or.inr pending
  · intro settled txid entry found
    obtain ⟨outputs, watched, fits, pays⟩ := sound.backed txid entry found
    have unspent : entry.tx.outPoints.map storage.lookup = outputs.map some := by
      rw [← List.forall₂_eq_eq_eq, List.forall₂_map_left_iff, List.forall₂_map_right_iff]
      apply watched.imp
      intro op output watches
      rcases inputs op output watches with unspent | ⟨block, -, -, pending⟩
      · exact unspent
      · exact absurd pending (settled block)
    refine ⟨?_, evaluate_calculateTxFee unspent fits pays⟩
    intro op membership
    have isOutput : storage.lookup op ∈ outputs.map some := unspent ▸ List.mem_map_of_mem membership
    obtain ⟨output, -, same⟩ := List.mem_map.mp isOutput
    rw [← same, Option.isSome_some]

omit [Crypto] in
/-- Nothing is due when all tasks that take turns have ended. -/
theorem Daemon.not_pending {daemon : Daemon}
    (ended : ∀ task, ∃ reply, daemon.programs task = .done reply) (block : Block) :
    ¬ daemon.Pending block := by
  intro pending
  obtain ⟨task, resume, program⟩ := pending
  obtain ⟨reply, done⟩ := ended task
  rw [done] at program
  cases program

end Runs

section Sample

open Sample

attribute [local instance] Sample.stagingCrypto

def Sample.stagingTasks : List NodeTask := [.submitBlock firstDecoded, .sendRawTx cheap (.ok 0)]

/-- The cleanup has to wait for the insertion that reads the new coinbase. -/
def Sample.stagingSchedule : List Nat := [0, 0, 0, 1, 1, 1, 1, 1, 0, 1, 1, 0]

theorem entries_never_stale_cheap :
    (RpcHandler.calculateTxFee cheap).run.evaluate
      (Daemon.after 1000 stagingTasks stagingSchedule).shared.engine.storage.utxoView =
        .ok (Quantum.fromRaw 1000) := by
  have distinct : DistinctIds (NodeTask.allTransactions stagingTasks) := by decide +kernel
  have ended : ∀ task, ∃ reply,
      (Daemon.after 1000 stagingTasks stagingSchedule).programs task = .done reply := by
    intro task
    by_cases scheduled : task ∈ stagingSchedule
    · have value : ((Daemon.after 1000 stagingTasks stagingSchedule).programs
          task).value?.isSome := by
        revert task
        decide +kernel
      obtain ⟨reply, value⟩ := Option.isSome_iff_exists.mp value
      exact ⟨reply, (Program.value?_eq_some_iff _ _).mp value⟩
    · rw [Daemon.after, Pool.programs_run_of_notMem _ _ scheduled]
      match task, scheduled with
      | 0, absent | 1, absent => exact absurd (by decide) absent
      | task + 2, _ => exact ⟨.handled, rfl⟩
  have staged : (Daemon.after 1000 stagingTasks stagingSchedule).shared.mempool.byTxid.lookup
      cheapId = some (MempoolEntry.new cheap (Quantum.fromRaw 1000) 0) := by
    decide +kernel
  exact ((entries_never_stale 1000 stagingTasks stagingSchedule distinct).2
    (Daemon.not_pending ended) cheapId _ staged).2

end Sample

end Aurion
