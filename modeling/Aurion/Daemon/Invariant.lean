import Aurion.Daemon.Modes
import Aurion.Ledger.Lookup
import Aurion.Mempool.Indices

/-!
# The invariant of the daemon

The ledger is the replay of the committed blocks.  The inputs of every entry
were in the table when they were read, and whatever block has spent one since
is still to be cleaned up; the same holds for what the task with the lock has
read so far.
-/

namespace Aurion

open Foundation

section Definition

variable [Crypto]

/-- The output was in the table at some moment, and every block committed since
that spends it has its cleanup still to run. -/
def Watched (modes : Nat → TaskMode) (committed : List Block) (op : OutPoint)
    (output : TxOutput) : Prop :=
  ∃ before later, committed = before ++ later ∧ (ledger before).lookup op = some output ∧
    ∀ block ∈ later, op ∈ block.spentOutPoints → ∃ task, modes task = .cleaning block

/-- The inputs of an entry are watched outputs, whose values pay its fee. -/
def MempoolEntry.Backed (modes : Nat → TaskMode) (committed : List Block)
    (entry : MempoolEntry) : Prop :=
  ∃ outputs : List TxOutput,
    List.Forall₂ (Watched modes committed) entry.tx.outPoints outputs ∧
      (outputs.map fun output => output.value.raw).sum < 2 ^ 128 ∧
      entry.tx.outputTotal + entry.fee.raw = (outputs.map fun output => output.value.raw).sum

/-- What holds in every state; all transactions are from the list. -/
structure Node.Sound (txs : List Transaction) (modes : Nat → TaskMode) (node : Node) : Prop where
  storage : node.engine.storage = ledger node.committed
  wellFormed : ∀ block ∈ node.committed, block.WellFormed
  known : node.committed.flatMap Block.transactions ⊆ txs
  nonempty : node.committed ≠ []
  consistent : node.mempool.Consistent
  staged : node.mempool.StagedFrom txs
  backed : ∀ txid entry, node.mempool.byTxid.lookup txid = some entry →
    entry.Backed modes node.committed
  holder : ∀ task reserved reads, modes task = .staging reserved reads →
    node.writer = some task ∧ reserved = node.mempool.spentOutpoints
  reads : ∀ task reserved reads, modes task = .staging reserved reads →
    ∀ read ∈ reads, ∀ utxo, read.2 = some utxo →
      Watched modes node.committed read.1 utxo.toOutput
  tips : ∀ task tip, (modes task = .templating tip ∨
      ∃ transactions, modes task = .selected tip transactions) →
    node.seen task <+: node.committed ∧
      ∃ height, (ledger (node.seen task)).getTip = some (height, tip)

end Definition

section Watching

variable [Crypto] {modes modes' : Nat → TaskMode} {committed : List Block}

theorem Watched.mono {op : OutPoint} {output : TxOutput}
    (watched : Watched modes committed op output)
    (keeps : ∀ task block, modes task = .cleaning block → op ∈ block.spentOutPoints →
      ∃ task', modes' task' = .cleaning block) (more : List Block)
    (added : ∀ block ∈ more, op ∈ block.spentOutPoints →
      ∃ task, modes' task = .cleaning block) :
    Watched modes' (committed ++ more) op output := by
  obtain ⟨before, later, rfl, found, pending⟩ := watched
  refine ⟨before, later ++ more, List.append_assoc _ _ _, found, ?_⟩
  intro block membership spends
  rcases List.mem_append.mp membership with inLater | inMore
  · obtain ⟨task, cleaning⟩ := pending block inLater spends
    exact keeps task block cleaning spends
  · exact added block inMore spends

theorem MempoolEntry.Backed.mono {entry : MempoolEntry} (backed : entry.Backed modes committed)
    (keeps : ∀ op ∈ entry.tx.outPoints, ∀ task block, modes task = .cleaning block →
      op ∈ block.spentOutPoints → ∃ task', modes' task' = .cleaning block) (more : List Block)
    (added : ∀ op ∈ entry.tx.outPoints, ∀ block ∈ more, op ∈ block.spentOutPoints →
      ∃ task, modes' task = .cleaning block) :
    entry.Backed modes' (committed ++ more) := by
  obtain ⟨outputs, watched, fits, pays⟩ := backed
  refine ⟨outputs, ?_, fits, pays⟩
  rw [List.forall₂_iff_get] at watched ⊢
  refine ⟨watched.1, fun index inLeft inRight => ?_⟩
  have membership := List.get_mem entry.tx.outPoints ⟨index, inLeft⟩
  exact (watched.2 index inLeft inRight).mono (keeps _ membership) more (added _ membership)

omit [Crypto] in
/-- A mode found after a turn is the new one of the task or an old one. -/
theorem update_cases {task other : Nat} {mode target : TaskMode}
    (found : Function.update modes task mode other = target) :
    other = task ∧ mode = target ∨ other ≠ task ∧ modes other = target := by
  by_cases same : other = task
  · rw [same, Function.update_self] at found
    exact Or.inl ⟨same, found⟩
  · rw [Function.update_of_ne same] at found
    exact Or.inr ⟨same, found⟩

omit [Crypto] in
theorem not_cleaning {task : Nat} {mode : TaskMode} (same : modes task = mode)
    (other : ∀ block, mode ≠ .cleaning block) (block : Block) : modes task ≠ .cleaning block :=
  same ▸ other block

omit [Crypto] in
/-- A task that has read a tip after a turn into the idle or a cleaning mode had
read it before. -/
theorem made_of_update {task other : Nat} {mode : TaskMode} {tip : Hash256}
    (made : Function.update modes task mode other = .templating tip ∨
      ∃ transactions, Function.update modes task mode other = .selected tip transactions)
    (tipless : ∀ transactions, mode ≠ .templating tip ∧ mode ≠ .selected tip transactions) :
    modes other = .templating tip ∨ ∃ transactions, modes other = .selected tip transactions := by
  rcases made with templating | ⟨transactions, selected⟩
  · obtain ⟨-, same⟩ | ⟨-, before⟩ := update_cases templating
    · exact absurd same (tipless []).1
    · exact Or.inl before
  · obtain ⟨-, same⟩ | ⟨-, before⟩ := update_cases selected
    · exact absurd same (tipless transactions).2
    · exact Or.inr ⟨transactions, before⟩

omit [Crypto] in
/-- A turn of a task without a due cleanup leaves the due cleanups alone. -/
theorem cleaning_update {task task' : Nat} {mode : TaskMode} {block : Block}
    (notCleaning : ∀ block, modes task ≠ .cleaning block)
    (cleaning : modes task' = .cleaning block) :
    Function.update modes task mode task' = .cleaning block := by
  have different : task' ≠ task := by
    intro same
    exact notCleaning block (same ▸ cleaning)
  rw [Function.update_of_ne different, cleaning]

/-- A watched output is in the table or spent by a block to be cleaned up. -/
theorem Watched.found_or_pending {op : OutPoint} {output : TxOutput} (named : WellNamed committed)
    (watched : Watched modes committed op output) :
    (ledger committed).lookup op = some output ∨
      ∃ block ∈ committed, op ∈ block.spentOutPoints ∧ ∃ task, modes task = .cleaning block := by
  obtain ⟨before, later, rfl, found, pending⟩ := watched
  by_cases unspent : ∀ block ∈ later, op ∉ block.spentOutPoints
  · exact Or.inl (lookup_of_unspent named found unspent)
  · simp only [not_forall, not_not] at unspent
    obtain ⟨block, inLater, spends⟩ := unspent
    exact Or.inr ⟨block, List.mem_append_right _ inLater, spends, pending block inLater spends⟩

end Watching

section Turns

variable [Crypto] {txs : List Transaction} {modes : Nat → TaskMode} {node : Node} {task : Nat}

namespace Node.Sound

/-- A turn that changes neither the ledger nor the pool. -/
theorem quiet_turn (sound : node.Sound txs modes)
    (notCleaning : ∀ block, modes task ≠ .cleaning block) {mode : TaskMode} {node' : Node}
    (storage : node'.engine.storage = node.engine.storage)
    (committed : node'.committed = node.committed) (mempool : node'.mempool = node.mempool)
    (seen : ∀ other, other ≠ task → node'.seen other = node.seen other)
    (writer : ∀ other, other ≠ task → node.writer = some other → node'.writer = some other)
    (holder : ∀ reserved reads, mode = .staging reserved reads →
      node'.writer = some task ∧ reserved = node.mempool.spentOutpoints)
    (reads : ∀ reserved reads, mode = .staging reserved reads → ∀ read ∈ reads,
      ∀ utxo, read.2 = some utxo → Watched modes node.committed read.1 utxo.toOutput)
    (tips : ∀ tip, (mode = .templating tip ∨ ∃ transactions, mode = .selected tip transactions) →
      node'.seen task <+: node.committed ∧
        ∃ height, (ledger (node'.seen task)).getTip = some (height, tip)) :
    node'.Sound txs (Function.update modes task mode) := by
  have keeps : ∀ task' block, modes task' = .cleaning block →
      ∃ task', Function.update modes task mode task' = .cleaning block :=
    fun task' block cleaning => ⟨task', cleaning_update notCleaning cleaning⟩
  have watches : ∀ {op output}, Watched modes node.committed op output →
      Watched (Function.update modes task mode) node.committed op output := by
    intro op output watched
    simpa using watched.mono (fun task' block cleaning _ => keeps task' block cleaning) []
  refine ⟨?_, ?_, ?_, ?_, ?_, ?_, ?_, ?_, ?_, ?_⟩
  · rw [storage, committed]
    exact sound.storage
  · rw [committed]
    exact sound.wellFormed
  · rw [committed]
    exact sound.known
  · rw [committed]
    exact sound.nonempty
  · rw [mempool]
    exact sound.consistent
  · rw [mempool]
    exact sound.staged
  · rw [mempool, committed]
    intro txid entry found
    have backed := sound.backed txid entry found
    simpa using backed.mono (fun _ _ task' block cleaning _ => keeps task' block cleaning) []
  · intro other reserved found staging
    rw [mempool]
    rcases update_cases staging with ⟨rfl, entered⟩ | ⟨different, staging⟩
    · exact holder reserved found entered
    · obtain ⟨holds, rfl⟩ := sound.holder other reserved found staging
      exact ⟨writer other different holds, rfl⟩
  · intro other reserved found staging read membership utxo answered
    rw [committed]
    apply watches
    rcases update_cases staging with ⟨rfl, entered⟩ | ⟨-, staging⟩
    · exact reads reserved found entered read membership utxo answered
    · exact sound.reads other reserved found staging read membership utxo answered
  · intro other tip made
    rw [committed]
    by_cases same : other = task
    · subst same
      rw [Function.update_self] at made
      exact tips tip made
    · rw [Function.update_of_ne same] at made
      rw [seen other same]
      exact sound.tips other tip made

/-- A block is committed by a task that is to clean it up. -/
theorem commit_turn (sound : node.Sound txs modes) (idle : modes task = .idle) {block : Block}
    (wellFormed : block.WellFormed) (known : block.transactions ⊆ txs) :
    (node.next task (.engine (.commitBlock block block.spentOutPoints))).Sound txs
      (Function.update modes task (.cleaning block)) := by
  have notCleaning := not_cleaning idle nofun
  have keeps : ∀ task' other, modes task' = .cleaning other →
      ∃ task', Function.update modes task (.cleaning block) task' = .cleaning other :=
    fun task' other cleaning => ⟨task', cleaning_update notCleaning cleaning⟩
  have added : ∀ op, ∀ other ∈ [block], op ∈ other.spentOutPoints →
      ∃ task', Function.update modes task (.cleaning block) task' = .cleaning other := by
    intro op other membership _
    rw [List.mem_singleton.mp membership]
    exact ⟨task, Function.update_self _ _ _⟩
  refine ⟨?_, ?_, ?_, ?_, sound.consistent, sound.staged, ?_, ?_, ?_, ?_⟩
  · change node.engine.storage.commitBlock block block.spentOutPoints = _
    rw [sound.storage, ← ledger_append_singleton]
    rfl
  · intro other membership
    rcases List.mem_append.mp membership with old | new
    · exact sound.wellFormed other old
    · rw [List.mem_singleton.mp new]
      exact wellFormed
  · change (node.committed ++ [block]).flatMap Block.transactions ⊆ txs
    rw [List.flatMap_append, List.append_subset, List.flatMap_singleton]
    exact ⟨sound.known, known⟩
  · exact List.append_ne_nil_of_right_ne_nil _ (List.cons_ne_nil _ _)
  · intro txid entry found
    exact (sound.backed txid entry found).mono
      (fun _ _ task' other cleaning _ => keeps task' other cleaning) [block] fun op _ => added op
  · intro other reserved reads staging
    obtain ⟨-, impossible⟩ | ⟨-, staging⟩ := update_cases staging
    · cases impossible
    · exact sound.holder other reserved reads staging
  · intro other reserved reads staging read membership utxo answered
    obtain ⟨-, impossible⟩ | ⟨-, staging⟩ := update_cases staging
    · cases impossible
    · exact (sound.reads other reserved reads staging read membership utxo answered).mono
        (fun task' other cleaning _ => keeps task' other cleaning) [block] (added read.1)
  · intro other tip made
    obtain ⟨earlier, top⟩ := sound.tips other tip (made_of_update made fun _ => ⟨nofun, nofun⟩)
    exact ⟨earlier.trans (List.prefix_append _ _), top⟩

/-- What the gates accept after watched reads is backed by them. -/
theorem backed_of_admissible {committed : List Block} {tx : Transaction}
    {reserved : Table OutPoint Hash256} {tipHeight mtp now : UInt64} {utxos : List ExtendedUtxo}
    {fee : Quantum} (admissible : Admissible tx reserved tipHeight mtp utxos fee)
    (watched : ∀ read ∈ foundReads tx.inputs.zipIdx utxos, ∀ utxo, read.2 = some utxo →
      Watched modes committed read.1 utxo.toOutput) :
    (MempoolEntry.new tx fee now).Backed modes committed := by
  have values : (utxos.map ExtendedUtxo.toOutput).map (fun output => output.value.raw) =
      utxos.map fun utxo => utxo.value.raw := by
    rw [List.map_map]
    rfl
  refine ⟨utxos.map ExtendedUtxo.toOutput, ?_, values ▸ admissible.fits,
    values ▸ admissible.conserved⟩
  rw [List.forall₂_iff_get]
  refine ⟨by simp [MempoolEntry.new, Transaction.outPoints, admissible.found], ?_⟩
  intro index inLeft inRight
  have inInputs : index < tx.inputs.length := by
    simpa [MempoolEntry.new, Transaction.outPoints] using inLeft
  have inUtxos : index < utxos.length := by simpa using inRight
  have read : (⟨tx.inputs[index].previousOutput, some utxos[index]⟩ : ViewRead) ∈
      foundReads tx.inputs.zipIdx utxos := by
    refine List.mem_map.mpr ⟨((tx.inputs[index], index), utxos[index]), ?_, rfl⟩
    refine List.mem_iff_getElem?.mpr ⟨index, ?_⟩
    rw [List.getElem?_zip_eq_some]
    exact ⟨by simp [inInputs], by simp [inUtxos]⟩
  simpa [MempoolEntry.new, Transaction.outPoints] using watched _ read _ rfl

/-- An insertion ends: the lock is free and the new entry, if any, is backed. -/
theorem stage_turn (sound : node.Sound txs modes) (distinct : DistinctIds txs)
    {reserved : Table OutPoint Hash256} {reads : List ViewRead}
    (staging : modes task = .staging reserved reads) {tx : Transaction} (known : tx ∈ txs)
    (now : UInt64) {validated : Except MempoolReject Quantum}
    (accepted : ∀ fee, validated = .ok fee → ∃ utxos tipHeight mtp,
      reads = foundReads tx.inputs.zipIdx utxos ∧
        Admissible tx reserved tipHeight mtp utxos fee) :
    (node.next task (.stage tx now validated)).Sound txs (Function.update modes task .idle) := by
  have notCleaning := not_cleaning staging nofun
  have keeps : ∀ task' block, modes task' = .cleaning block →
      ∃ task', Function.update modes task .idle task' = .cleaning block :=
    fun task' block cleaning => ⟨task', cleaning_update notCleaning cleaning⟩
  have consistent := sound.consistent
  obtain ⟨holds, rfl⟩ := sound.holder task reserved reads staging
  have alone : ∀ other reserved reads,
      Function.update modes task .idle other ≠ .staging reserved reads := by
    intro other reserved reads holding
    obtain ⟨-, impossible⟩ | ⟨different, holding⟩ := update_cases holding
    · cases impossible
    · have holdsToo := (sound.holder other reserved reads holding).1
      rw [holds, Option.some.injEq] at holdsToo
      exact different holdsToo.symm
  have entries : ∀ txid entry,
      (node.mempool.stage tx now validated).2.byTxid.lookup txid = some entry →
        entry.tx ∈ txs ∧ entry.Backed modes node.committed := by
    intro txid entry found
    rcases consistent.lookup_stage found with old | ⟨fee, passed, rfl⟩
    · exact ⟨sound.staged txid entry old, sound.backed txid entry old⟩
    · obtain ⟨utxos, tipHeight, mtp, rfl, admissible⟩ := accepted fee passed
      exact ⟨known, backed_of_admissible admissible (sound.reads task _ _ staging)⟩
  refine ⟨sound.storage, sound.wellFormed, sound.known, sound.nonempty, ?_, ?_, ?_, ?_, ?_, ?_⟩
  · apply consistent.stage
    · apply sound.staged.unambiguous consistent
      apply distinct.mono
      rw [List.append_subset]
      exact ⟨List.Subset.refl _, by simpa using known⟩
    · intro fee passed
      obtain ⟨utxos, tipHeight, mtp, -, admissible⟩ := accepted fee passed
      exact admissible.gated
  · intro txid entry found
    exact (entries txid entry found).1
  · intro txid entry found
    have backed := (entries txid entry found).2.mono
      (fun _ _ task' block cleaning _ => keeps task' block cleaning) [] (by simp)
    rw [List.append_nil] at backed
    exact backed
  · intro other reserved reads holding
    exact absurd holding (alone other reserved reads)
  · intro other reserved reads holding
    exact absurd holding (alone other reserved reads)
  · intro other tip made
    exact sound.tips other tip (made_of_update made fun _ => ⟨nofun, nofun⟩)

/-- A cleanup removes every entry that the block has spent an input of. -/
theorem cleanup_turn (sound : node.Sound txs modes) {block : Block}
    (cleaning : modes task = .cleaning block) (free : node.writer = none) :
    (node.next task (.processCommittedBlock block)).Sound txs
      (Function.update modes task .idle) := by
  have consistent := sound.consistent
  have entries := consistent.lookup_processCommittedBlock block
  have nobody : ∀ other reserved reads,
      Function.update modes task .idle other ≠ .staging reserved reads := by
    intro other reserved reads holding
    obtain ⟨-, impossible⟩ | ⟨-, holding⟩ := update_cases holding
    · cases impossible
    · have holds := (sound.holder other reserved reads holding).1
      rw [free] at holds
      cases holds
  refine ⟨sound.storage, sound.wellFormed, sound.known, sound.nonempty,
    consistent.processCommittedBlock block, ?_, ?_, ?_, ?_, ?_⟩
  · intro txid entry found
    exact sound.staged txid entry ((entries txid entry).mp found).1
  · intro txid entry found
    obtain ⟨old, -, unspent⟩ := (entries txid entry).mp found
    -- A block that spends an input of a remaining entry is another one.
    have keeps : ∀ op ∈ entry.tx.outPoints, ∀ task' other, modes task' = .cleaning other →
        op ∈ other.spentOutPoints →
        ∃ task', Function.update modes task .idle task' = .cleaning other := by
      intro op membership task' other due spends
      refine ⟨task', ?_⟩
      have different : task' ≠ task := by
        intro same
        rw [same, cleaning] at due
        cases due
        exact unspent op membership
          ((List.filter_sublist.flatMap Transaction.outPoints).subset spends)
      rw [Function.update_of_ne different, due]
    have backed := (sound.backed txid entry old).mono keeps [] (by simp)
    rw [List.append_nil] at backed
    exact backed
  · intro other reserved reads holding
    exact absurd holding (nobody other reserved reads)
  · intro other reserved reads holding
    exact absurd holding (nobody other reserved reads)
  · intro other tip made
    exact sound.tips other tip (made_of_update made fun _ => ⟨nofun, nofun⟩)

/-- A turn after which the task is idle, and the ledger and the pool are the same. -/
theorem idle_turn (sound : node.Sound txs modes) (idle : modes task = .idle) {node' : Node}
    (storage : node'.engine.storage = node.engine.storage)
    (committed : node'.committed = node.committed) (mempool : node'.mempool = node.mempool)
    (seen : ∀ other, other ≠ task → node'.seen other = node.seen other)
    (writer : node'.writer = node.writer) :
    node'.Sound txs (Function.update modes task .idle) := by
  apply sound.quiet_turn (not_cleaning idle nofun) storage committed mempool seen
  · intro other _ holds
    rw [writer, holds]
  · intro reserved reads staging
    cases staging
  · intro reserved reads staging
    cases staging
  · intro tip made
    simp at made

/-- A read that changes nothing. -/
theorem unchanged (sound : node.Sound txs modes) {mode : TaskMode} (same : modes task = mode) :
    node.Sound txs (Function.update modes task mode) := by
  rw [← same, Function.update_eq_self]
  exact sound

omit [Crypto] in
theorem viewed_getUtxo (storage : StorageEngine) (op : OutPoint) :
    RpcHandler.viewed (storage.getUtxo op) = storage.utxoView op := by
  unfold RpcHandler.viewed StorageEngine.utxoView StorageEngine.lookup
  cases storage.getUtxo op <;> rfl

omit [Crypto] in
theorem lookup_of_utxoView {storage : StorageEngine} {op : OutPoint} {utxo : ExtendedUtxo}
    (found : storage.utxoView op = some utxo) : storage.lookup op = some utxo.toOutput := by
  rw [← viewLookup_utxoView, viewLookup, found]
  rfl

/-- The insertion with the lock reads an output; if found, it is watched from now on. -/
theorem read_turn (sound : node.Sound txs modes) {reserved : Table OutPoint Hash256}
    {reads : List ViewRead} (staging : modes task = .staging reserved reads) (op : OutPoint) :
    node.Sound txs (Function.update modes task
      (.staging reserved
        (reads ++ [⟨op, RpcHandler.viewed (node.engine.storage.getUtxo op)⟩]))) := by
  have holds := sound.holder task reserved reads staging
  apply sound.quiet_turn (not_cleaning staging nofun) rfl rfl rfl (fun _ _ => rfl)
    (fun _ _ same => same)
  · intro reserved' reads' same
    cases same
    exact holds
  · intro reserved' reads' same read membership utxo answered
    cases same
    rcases List.mem_append.mp membership with old | new
    · exact sound.reads task reserved reads staging read old utxo answered
    · rw [List.mem_singleton.mp new] at answered ⊢
      refine ⟨node.committed, [], (List.append_nil _).symm, ?_, by simp⟩
      rw [viewed_getUtxo] at answered
      rw [← sound.storage]
      exact lookup_of_utxoView answered
  · intro tip made
    simp at made

/-- A task reads the tip for its template. -/
theorem tip_turn (sound : node.Sound txs modes) (planning : modes task = .planning) :
    (node.next task (.engine .getTip)).Sound txs (Function.update modes task
      (.templating ((ledger node.committed).getTip.getD (0, Hash256.zero)).2)) := by
  refine sound.quiet_turn (not_cleaning planning nofun) rfl rfl rfl ?_ (fun _ _ same => same)
    ?_ ?_ ?_
  · intro other different
    exact Function.update_of_ne different _ _
  · intro reserved reads staging
    cases staging
  · intro reserved reads staging
    cases staging
  · intro tip made
    obtain ⟨last, top⟩ := List.getLast?_isSome.mpr sound.nonempty |> Option.isSome_iff_exists.mp
    have seen : (node.next task (.engine .getTip)).seen task = node.committed :=
      Function.update_self _ _ _
    rw [getTip_ledger top] at made
    simp only [Option.getD_some, TaskMode.templating.injEq, reduceCtorEq, exists_const,
      or_false] at made
    rw [seen, ← made]
    exact ⟨List.prefix_rfl, last.header.height, getTip_ledger top⟩

theorem select_turn (sound : node.Sound txs modes) {tip : Hash256}
    (templating : modes task = .templating tip) (transactions : List Transaction) :
    node.Sound txs (Function.update modes task (.selected tip transactions)) := by
  apply sound.quiet_turn (not_cleaning templating nofun) rfl rfl rfl (fun _ _ => rfl)
    (fun _ _ same => same)
  · intro reserved reads staging
    cases staging
  · intro reserved reads staging
    cases staging
  · intro tip' made
    simp only [reduceCtorEq, TaskMode.selected.injEq, exists_and_left, exists_eq', and_true,
      false_or] at made
    rw [← made]
    exact sound.tips task tip (Or.inl templating)

theorem lock_turn (sound : node.Sound txs modes) (idle : modes task = .idle)
    (free : node.writer = none) :
    (node.next task .lockMempool).Sound txs
      (Function.update modes task (.staging node.mempool.spentOutpoints [])) := by
  refine sound.quiet_turn (not_cleaning idle nofun) rfl rfl rfl (fun _ _ => rfl) ?_ ?_ ?_ ?_
  · intro other _ holds
    rw [free] at holds
    cases holds
  · intro reserved reads staging
    cases staging
    exact ⟨rfl, rfl⟩
  · intro reserved reads staging
    cases staging
    simp
  · intro tip made
    simp at made

/-- What every allowed request preserves. -/
theorem step (sound : node.Sound txs modes) (distinct : DistinctIds txs) {op : NodeOp}
    (allowed : (taskProtocol txs).allowed (modes task) op) (ready : node.ready task op = true) :
    (node.next task op).Sound txs (Function.update modes task
      ((taskProtocol txs).next (modes task) op (node.answer op))) := by
  cases mode : modes task with
  | idle =>
      rw [mode] at allowed
      cases op with
      | engine op =>
          cases op with
          | commitBlock block spentInputs =>
              obtain ⟨wellFormed, known, rfl⟩ := allowed
              exact sound.commit_turn mode wellFormed known
          | getTip =>
              refine sound.idle_turn mode rfl rfl rfl ?_ rfl
              intro other different
              exact Function.update_of_ne different _ _
          | getUtxo outpoint => exact sound.unchanged mode
          | readState | writeState _ | storeCancelSignal _ =>
              exact sound.idle_turn mode rfl rfl rfl (fun _ _ => rfl) rfl
      | getBlock _ | getBlockByHeight _ | mempoolLen => exact sound.unchanged mode
      | lockMempool => exact sound.lock_turn mode (Option.isNone_iff_eq_none.mp ready)
      | _ => exact allowed.elim
  | cleaning block =>
      rw [mode] at allowed
      obtain rfl : op = .processCommittedBlock block := allowed
      exact sound.cleanup_turn mode (Option.isNone_iff_eq_none.mp ready)
  | staging reserved reads =>
      rw [mode] at allowed
      cases op with
      | engine op =>
          cases op with
          | getUtxo outpoint => exact sound.read_turn mode outpoint
          | _ => exact allowed.elim
      | stage tx now validated => exact sound.stage_turn distinct mode allowed.1 now allowed.2
      | _ => exact allowed.elim
  | planning =>
      rw [mode] at allowed
      cases op with
      | engine op =>
          cases op with
          | getTip =>
              have turn := sound.tip_turn mode
              rw [← sound.storage] at turn
              exact turn
          | _ => exact allowed.elim
      | _ => exact allowed.elim
  | templating tip =>
      rw [mode] at allowed
      cases op with
      | engine op =>
          cases op with
          | getUtxo outpoint => exact sound.unchanged mode
          | _ => exact allowed.elim
      | getBlock _ | getBlockByHeight _ => exact sound.unchanged mode
      | selectTransactions maxBlockBytes => exact sound.select_turn mode _
      | _ => exact allowed.elim
  | selected tip transactions =>
      rw [mode] at allowed
      cases op with
      | engine op =>
          cases op with
          | getUtxo outpoint => exact sound.unchanged mode
          | _ => exact allowed.elim
      | getBlock _ | getBlockByHeight _ => exact sound.unchanged mode
      | _ => exact allowed.elim

/-- A node after its genesis initialisation. -/
theorem start {txs : List Transaction} (known : createGenesisBlock.transactions ⊆ txs)
    (maxBytes : Nat) {modes : Nat → TaskMode}
    (begins : ∀ task, modes task = .idle ∨ modes task = .planning) :
    (Node.start maxBytes).Sound txs modes := by
  have nobody : ∀ task reserved reads, modes task ≠ .staging reserved reads := by
    intro task reserved reads staging
    rcases begins task with idle | planning
    · rw [staging] at idle
      cases idle
    · rw [staging] at planning
      cases planning
  refine ⟨rfl, ?_, ?_, List.cons_ne_nil _ _, Mempool.consistent_new maxBytes, ?_, ?_, ?_, ?_, ?_⟩
  · intro block membership
    rw [List.mem_singleton.mp membership]
    exact genesis_wellFormed
  · simpa [Node.start, NodeRun.start] using known
  · simp [Node.start, Mempool.new, Mempool.StagedFrom]
  · simp [Node.start, Mempool.new]
  · intro task reserved reads staging
    exact absurd staging (nobody task reserved reads)
  · intro task reserved reads staging
    exact absurd staging (nobody task reserved reads)
  · intro task tip made
    rcases begins task with idle | planning
    · simp [idle] at made
    · simp [planning] at made

end Node.Sound

end Turns

section Runs

variable [Crypto]

/-- All transactions of a daemon, those of the genesis block included. -/
def NodeTask.allTransactions (tasks : List NodeTask) : List Transaction :=
  createGenesisBlock.transactions ++ tasks.flatMap NodeTask.transactions

/-- What holds of a daemon: its tasks keep to the protocol, its state is sound. -/
abbrev Daemon.Holds (txs : List Transaction) (modes : Nat → TaskMode) (daemon : Daemon) : Prop :=
  (taskProtocol txs).Holds Node.serve (fun _ => TaskMode.Returns)
    (fun modes node => node.Sound txs modes) modes daemon

theorem Daemon.holds_start (maxBytes : Nat) (tasks : List NodeTask) :
    ∃ modes, (Daemon.start maxBytes tasks).Holds (NodeTask.allTransactions tasks) modes := by
  refine ⟨fun task => (tasks[task]?).elim .idle NodeTask.mode, ?_, ?_⟩
  · intro task
    cases at_ : tasks[task]? with
    | none =>
        simp only [Daemon.start, at_, Option.elim_none]
        exact trivial
    | some next =>
        simp only [Daemon.start, at_, Option.elim_some]
        apply next.obeys
        intro tx membership
        apply List.mem_append_right
        exact List.mem_flatMap.mpr ⟨next, List.mem_of_getElem? at_, membership⟩
  · apply Node.Sound.start (List.subset_append_left _ _)
    intro task
    cases tasks[task]? with
    | none => exact Or.inl rfl
    | some next =>
        cases next with
        | getBlockTemplate clock => exact Or.inr rfl
        | _ => exact Or.inl rfl

/-- Every state that any schedule reaches is sound. -/
theorem Daemon.holds_after (maxBytes : Nat) (tasks : List NodeTask) (schedule : List Nat)
    (distinct : DistinctIds (NodeTask.allTransactions tasks)) :
    ∃ modes, (Daemon.after maxBytes tasks schedule).Holds (NodeTask.allTransactions tasks)
      modes := by
  obtain ⟨modes, holds⟩ := Daemon.holds_start maxBytes tasks
  have each : Steps.EachStep (Pool.advance Node.serve) (fun _ _ => True)
      (Daemon.start maxBytes tasks) schedule := fun _ _ _ => trivial
  apply Protocol.exists_holds_run ?_ holds schedule each
  intro modes daemon task op resume answer node holds _ program served
  obtain ⟨ready, rfl, rfl⟩ := (Node.serve_eq_some_iff _ _ _ _ _).mp served
  exact holds.invariant.step distinct (holds.allowed program) ready

end Runs

end Aurion
