import Aurion.Daemon.Staleness
import Aurion.Mempool.Selection

/-!
# Templates and their parent

A template names the tip that its task has read and takes the selection of a
later moment.  The two fit together as long as nothing selected spends an
output created since, or one whose spender was committed before and is still to
be cleaned up.
-/

namespace Aurion

open Foundation

section Definition

variable [Crypto]

/-- When the task selects, the inputs of the selected transactions were not
created since it read the tip, and no block it had seen by then that spends one
of them is still to be cleaned up. -/
def Daemon.SelectsSettled (daemon : Daemon) (task : Nat) : Prop :=
  ∀ maxBlockBytes resume,
    daemon.programs task = .request (.selectTransactions maxBlockBytes) resume →
    ∀ tx ∈ daemon.shared.mempool.selectTransactionsForBlock maxBlockBytes, ∀ op ∈ tx.outPoints,
      (∀ block ∈ daemon.shared.committed.drop (daemon.shared.seen task).length,
        ∀ output, ¬ block.Creates op output) ∧
      ∀ block ∈ daemon.shared.seen task, op ∈ block.spentOutPoints → ¬ daemon.Pending block

/-- Every returned template has its inputs in the ledger whose tip it names. -/
def Daemon.TemplatesFitParent (daemon : Daemon) : Prop :=
  ∀ task template, daemon.programs task = .done (.template (.ok template)) →
    ∃ base height, base <+: daemon.shared.committed ∧
      (ledger base).getTip = some (height, template.previousBlockHash) ∧
      ∀ tx ∈ template.transactions, ∀ op ∈ tx.outPoints, ((ledger base).lookup op).isSome

/-- What a task has selected was in the table when it read the tip. -/
def Node.SelectionsFit (modes : Nat → TaskMode) (node : Node) : Prop :=
  ∀ task tip transactions, modes task = .selected tip transactions →
    ∀ tx ∈ transactions, ∀ op ∈ tx.outPoints, ((ledger (node.seen task)).lookup op).isSome

end Definition

section Selections

variable [Crypto] {txs : List Transaction} {modes : Nat → TaskMode}

/-- A watched output was in an earlier table, if it was not created since and
no block up to then has a cleanup due that spends it. -/
theorem Watched.found_before {base committed : List Block} {op : OutPoint} {output : TxOutput}
    (named : WellNamed committed) (earlier : base <+: committed)
    (watched : Watched modes committed op output)
    (notCreated : ∀ block ∈ committed.drop base.length, ∀ other, ¬ block.Creates op other)
    (notDue : ∀ block ∈ base, op ∈ block.spentOutPoints → ∀ task, modes task ≠ .cleaning block) :
    (ledger base).lookup op = some output := by
  obtain ⟨before, later, split, found, pending⟩ := watched
  obtain ⟨rest, rfl⟩ := earlier
  rw [List.drop_left] at notCreated
  obtain ⟨middle, rfl, rfl⟩ | ⟨middle, rfl, rfl⟩ := List.append_eq_append_iff.mp split
  · apply lookup_of_not_created (named.mono _) found
    · intro block membership
      exact notCreated block (List.mem_append_left _ membership)
    · rw [← List.append_assoc]
      exact List.subset_append_left _ _
  · apply lookup_of_unspent named.left found
    intro block membership spends
    obtain ⟨task, cleaning⟩ := pending block (List.mem_append_left _ membership) spends
    exact notDue block (List.mem_append_right _ membership) spends task cleaning

theorem Node.seen_next (node : Node) {task other : Nat} (different : other ≠ task) (op : NodeOp) :
    (node.next task op).seen other = node.seen other := by
  cases op with
  | engine op =>
      cases op with
      | getTip => exact Function.update_of_ne different _ _
      | _ => rfl
  | _ => rfl

/-- A task that has selected reads on without a change. -/
theorem Node.next_of_quiet (node : Node) (task : Nat) {op : NodeOp} (quiet : op.Quiet) :
    node.next task op = node := by
  cases op with
  | engine op =>
      cases op with
      | getUtxo outpoint => rfl
      | _ => exact quiet.elim
  | getBlock _ | getBlockByHeight _ => rfl
  | _ => exact quiet.elim

/-- Only a selection takes a task into the mode after it. -/
theorem selected_of_next {node : Node} {mode : TaskMode} {op : NodeOp} {tip : Hash256}
    {transactions : List Transaction} (allowed : (taskProtocol txs).allowed mode op)
    (reached : (taskProtocol txs).next mode op (node.answer op) = .selected tip transactions) :
    op.Quiet ∧ mode = .selected tip transactions ∨
      mode = .templating tip ∧ ∃ maxBlockBytes, op = .selectTransactions maxBlockBytes ∧
        transactions = node.mempool.selectTransactionsForBlock maxBlockBytes := by
  cases mode with
  | idle =>
      cases op with
      | engine op => cases op <;> cases reached
      | _ => cases reached
  | cleaning block => cases reached
  | staging reserved reads =>
      cases op with
      | engine op =>
          cases op with
          | getUtxo outpoint => cases reached
          | _ => exact allowed.elim
      | stage tx now validated => cases reached
      | _ => exact allowed.elim
  | planning =>
      cases op with
      | engine op =>
          cases op with
          | getTip => cases reached
          | _ => exact allowed.elim
      | _ => exact allowed.elim
  | templating tip' =>
      cases op with
      | selectTransactions maxBlockBytes =>
          cases reached
          exact Or.inr ⟨rfl, maxBlockBytes, rfl, rfl⟩
      | engine op =>
          cases op with
          | getUtxo outpoint => cases reached
          | _ => exact allowed.elim
      | getBlock _ | getBlockByHeight _ => cases reached
      | _ => exact allowed.elim
  | selected tip' transactions' =>
      cases op with
      | engine op =>
          cases op with
          | getUtxo outpoint => exact Or.inl ⟨trivial, reached⟩
          | _ => exact allowed.elim
      | getBlock _ | getBlockByHeight _ => exact Or.inl ⟨trivial, reached⟩
      | _ => exact allowed.elim

/-- What one turn preserves when the selections meet the condition. -/
theorem selectionsFit_step {daemon : Daemon} (holds : daemon.Holds txs modes)
    (distinct : DistinctIds txs) (fit : daemon.shared.SelectionsFit modes) {task : Nat}
    {op : NodeOp} {resume : op.Answer → NodeM NodeReply}
    (program : daemon.programs task = .request op resume) (settled : daemon.SelectsSettled task) :
    (daemon.shared.next task op).SelectionsFit (Function.update modes task
      ((taskProtocol txs).next (modes task) op (daemon.shared.answer op))) := by
  have sound := holds.invariant
  intro other tip transactions selected tx membership outpoint isInput
  by_cases same : other = task
  · subst same
    rw [Function.update_self] at selected
    rcases selected_of_next (holds.allowed program) selected with
      ⟨quiet, mode⟩ | ⟨mode, maxBlockBytes, rfl, rfl⟩
    · rw [Node.next_of_quiet _ _ quiet]
      exact fit other tip transactions mode tx membership outpoint isInput
    · obtain ⟨notCreated, notDue⟩ :=
        settled maxBlockBytes resume program tx membership outpoint isInput
      obtain ⟨txid, entry, found, rfl⟩ := (sound.consistent.mem_stagedTransactions_iff tx).mp
        ((daemon.shared.mempool.select_sublist maxBlockBytes).subset membership)
      obtain ⟨outputs, watched, -, -⟩ := sound.backed txid entry found
      obtain ⟨index, rfl⟩ := List.mem_iff_get.mp isInput
      have watches := watched.get index.isLt (watched.length_eq ▸ index.isLt)
      have earlier := (sound.tips other tip (Or.inl mode)).1
      have held := watches.found_before (sound.wellNamed distinct) earlier notCreated
        fun block inSeen spends task' cleaning =>
          notDue block inSeen spends (holds.pending cleaning)
      exact Option.isSome_iff_exists.mpr ⟨_, held⟩
  · rw [Function.update_of_ne same] at selected
    rw [Node.seen_next _ same]
    exact fit other tip transactions selected tx membership outpoint isInput

end Selections

section Runs

variable [Crypto]

/-- Templates fit their parent throughout every run in which each selection
finds nothing that was created since its tip or is still to be cleaned up. -/
theorem templates_fit_parent (maxBytes : Nat) (tasks : List NodeTask) (schedule : List Nat)
    (distinct : DistinctIds (NodeTask.allTransactions tasks))
    (settled : Steps.EachStep (Pool.advance Node.serve) Daemon.SelectsSettled
      (Daemon.start maxBytes tasks) schedule) :
    Steps.Throughout (Pool.advance Node.serve) Daemon.TemplatesFitParent
      (Daemon.start maxBytes tasks) schedule := by
  intro past before
  have each : Steps.EachStep (Pool.advance Node.serve) Daemon.SelectsSettled
      (Daemon.start maxBytes tasks) past :=
    fun earlier next found => settled earlier next (found.trans before)
  obtain ⟨modes, begins⟩ := Daemon.holds_start maxBytes tasks
  have unselected : (Daemon.start maxBytes tasks).shared.SelectionsFit modes := by
    intro task tip transactions selected
    obtain ⟨-, height, top⟩ := begins.invariant.tips task tip (Or.inr ⟨transactions, selected⟩)
    cases top
  obtain ⟨modes, reached⟩ : ∃ modes, (taskProtocol (NodeTask.allTransactions tasks)).Holds
      Node.serve (fun _ => TaskMode.Returns)
      (fun modes node => node.Sound (NodeTask.allTransactions tasks) modes ∧
        node.SelectionsFit modes) modes (Daemon.after maxBytes tasks past) := by
    apply Protocol.exists_holds_run ?_ ⟨begins.obeys, begins.invariant, unselected⟩ past each
    intro modes daemon task op resume answer node holds meets program served
    obtain ⟨ready, rfl, rfl⟩ := (Node.serve_eq_some_iff _ _ _ _ _).mp served
    have sound := holds.invariant.1
    exact ⟨sound.step distinct (holds.allowed program) ready,
      selectionsFit_step ⟨holds.obeys, sound⟩ distinct holds.invariant.2 program meets⟩
  obtain ⟨obeys, sound, fit⟩ := reached
  change (Daemon.after maxBytes tasks past).TemplatesFitParent
  intro task template returned
  have suits := obeys task
  rw [returned] at suits
  cases mode : modes task with
  | selected tip transactions =>
      rw [mode] at suits
      obtain ⟨parent, body⟩ := suits
      obtain ⟨earlier, height, top⟩ := sound.tips task tip (Or.inr ⟨transactions, mode⟩)
      refine ⟨_, height, earlier, parent ▸ top, ?_⟩
      rw [body]
      exact fit task tip transactions mode
  | _ =>
      rw [mode] at suits
      exact suits.elim

end Runs

section Checks

variable [Crypto]

def NodeOp.isSelection : NodeOp → Bool
  | .selectTransactions _ => true
  | _ => false

def NodeOp.isCleanup : NodeOp → Bool
  | .processCommittedBlock _ => true
  | _ => false

/-- A turn is settled when it selects nothing, or when its task has seen the
current tip and no cleanup is due. -/
theorem Daemon.selectsSettled_of_quiet {daemon : Daemon} {task : Nat}
    (quiet : (daemon.programs task).op?.any NodeOp.isSelection = true →
      daemon.shared.committed.length ≤ (daemon.shared.seen task).length ∧
        ∀ block, ¬ daemon.Pending block) :
    daemon.SelectsSettled task := by
  intro maxBlockBytes resume program tx membership op isInput
  rw [program] at quiet
  obtain ⟨current, ended⟩ := quiet rfl
  rw [List.drop_of_length_le current]
  exact ⟨fun block absent => absurd absent List.not_mem_nil, fun block _ _ => ended block⟩

/-- No cleanup is due when none of the daemon's tasks is at one. -/
theorem Daemon.not_pending_of_ended {maxBytes : Nat} {tasks : List NodeTask} {schedule : List Nat}
    (known : ∀ task ∈ schedule, task < tasks.length)
    (ended : ∀ task < tasks.length,
      ((Daemon.after maxBytes tasks schedule).programs task).op?.any NodeOp.isCleanup = false)
    (block : Block) : ¬ (Daemon.after maxBytes tasks schedule).Pending block := by
  intro isPending
  obtain ⟨task, resume, cleaning⟩ := isPending
  by_cases isTask : task < tasks.length
  · have idle := ended task isTask
    rw [cleaning] at idle
    cases idle
  · have unscheduled : task ∉ schedule := fun turn => isTask (known task turn)
    have absent : tasks[task]? = none := List.getElem?_eq_none (Nat.le_of_not_lt isTask)
    unfold Daemon.after at cleaning
    rw [Pool.programs_run_of_notMem _ _ unscheduled] at cleaning
    simp [Daemon.start, absent] at cleaning

end Checks

section Sample

open Sample

attribute [local instance] Sample.stagingCrypto

def Sample.templateTasks : List NodeTask :=
  [.submitBlock firstDecoded, .sendRawTx cheap (.ok 0), .getBlockTemplate (.ok 0)]

/-- One task after another. -/
def Sample.serialSchedule : List Nat := [0, 0, 0, 0, 1, 1, 1, 1, 1, 1, 1, 2, 2, 2, 2, 2, 2, 2]

/-- The template's task reads the tip before all others. -/
def Sample.overtakenSchedule : List Nat := [2, 0, 0, 0, 0, 1, 1, 1, 1, 1, 1, 1, 2, 2, 2, 2, 2, 2]

def NodeReply.template? : NodeReply → Option BlockTemplate
  | .template result => result.toOption
  | _ => none

/-- The template that a task of the sample has returned. -/
def Sample.returned (schedule : List Nat) (task : Nat) : Option BlockTemplate :=
  ((Daemon.after 1000 templateTasks schedule).programs task).value?.bind NodeReply.template?

theorem Sample.programs_of_returned {schedule : List Nat} {task : Nat} {template : BlockTemplate}
    (isReturned : returned schedule task = some template) :
    (Daemon.after 1000 templateTasks schedule).programs task =
      .done (.template (.ok template)) := by
  unfold returned at isReturned
  obtain ⟨reply, value, isTemplate⟩ := Option.bind_eq_some_iff.mp isReturned
  rw [(Program.value?_eq_some_iff _ _).mp value]
  cases reply with
  | template result =>
      cases result with
      | ok other =>
          cases isTemplate
          rfl
      | error error => cases isTemplate
  | _ => cases isTemplate

/-- In the serial run the others have ended when the template's task selects. -/
theorem Sample.serial_selectsSettled :
    Steps.EachStep (Pool.advance Node.serve) Daemon.SelectsSettled
      (Daemon.start 1000 templateTasks) serialSchedule := by
  have settled : ∀ past ∈ serialSchedule.inits, ∀ next < 3,
      ((Daemon.after 1000 templateTasks past).programs next).op?.any NodeOp.isSelection = true →
        (Daemon.after 1000 templateTasks past).shared.committed.length ≤
          ((Daemon.after 1000 templateTasks past).shared.seen next).length ∧
        ∀ task < 3, ((Daemon.after 1000 templateTasks past).programs task).op?.any
          NodeOp.isCleanup = false := by
    decide +kernel
  have known : ∀ task ∈ serialSchedule, task < 3 := by decide
  intro past next found
  have earlier := (List.prefix_append past [next]).trans found
  apply Daemon.selectsSettled_of_quiet
  intro selects
  obtain ⟨current, ended⟩ := settled past ((List.mem_inits _ _).mpr earlier) next
    (known next (found.subset (by simp))) selects
  refine ⟨current, Daemon.not_pending_of_ended ?_ ended⟩
  intro task turn
  exact known task (earlier.subset turn)

theorem templates_fit_parent_cheap :
    ∃ template, returned serialSchedule 2 = some template ∧ template.transactions = [cheap] ∧
      ∃ base height, (ledger base).getTip = some (height, template.previousBlockHash) ∧
        ((ledger base).lookup coinbaseOutput).isSome := by
  have body : (returned serialSchedule 2).map BlockTemplate.transactions = some [cheap] := by
    decide +kernel
  obtain ⟨template, isReturned, body⟩ := Option.map_eq_some_iff.mp body
  have final : (Daemon.after 1000 templateTasks serialSchedule).TemplatesFitParent :=
    (templates_fit_parent 1000 templateTasks serialSchedule (by decide +kernel)
      serial_selectsSettled).final
  obtain ⟨base, height, -, top, found⟩ := final 2 template (programs_of_returned isReturned)
  refine ⟨template, isReturned, body, base, height, top, ?_⟩
  rw [body, List.forall_mem_singleton] at found
  exact found coinbaseOutput (by decide +kernel)

/-- A block and a spend of its coinbase come between the reading of the tip and
the selection: the template spends an output that its parent's ledger lacks. -/
theorem template_spends_later_output :
    ¬ ∀ (maxBytes : Nat) (tasks : List NodeTask) (schedule : List Nat),
      DistinctIds (NodeTask.allTransactions tasks) →
      (Daemon.after maxBytes tasks schedule).TemplatesFitParent := by
  intro claimed
  have parent : (returned overtakenSchedule 2).map (fun template =>
      (template.transactions, template.previousBlockHash)) = some ([cheap], genesisHash) := by
    decide +kernel
  obtain ⟨template, isReturned, fields⟩ := Option.map_eq_some_iff.mp parent
  obtain ⟨body, parent⟩ := Prod.mk.inj fields
  obtain ⟨base, height, earlier, top, found⟩ := claimed 1000 templateTasks overtakenSchedule
    (by decide +kernel) 2 template (programs_of_returned isReturned)
  rw [body, List.forall_mem_singleton] at found
  rw [parent] at top
  have committed : (Daemon.after 1000 templateTasks overtakenSchedule).shared.committed =
      [createGenesisBlock, first] := by
    decide +kernel
  rw [committed, ← List.mem_inits] at earlier
  have absent : ∀ base ∈ [createGenesisBlock, first].inits,
      (ledger base).getTip.map Prod.snd = some genesisHash →
        ((ledger base).lookup coinbaseOutput).isSome = false := by
    decide +kernel
  have missing := absent base earlier (by rw [top]; rfl)
  rw [found coinbaseOutput (by decide +kernel)] at missing
  cases missing

end Sample

end Aurion
