import Aurion.Daemon.TemplateParent
import Aurion.Foundation.Progress

/-!
# Progress of the daemon

The task that holds the lock of the pool reads the ledger and stages, and waits for
nobody; the other tasks wait for nothing but the lock.  So the daemon never gets
stuck, and under every fair schedule all its tasks end.
-/

namespace Aurion

open Foundation

section Lock

variable {txs : List Transaction} {modes : Nat → TaskMode} {node : Node} {task : Nat}
  {op : NodeOp}

def TaskMode.isStaging : TaskMode → Bool
  | .staging _ _ => true
  | _ => false

/-- The lock is held by the task that is staging, and by no other one. -/
def Node.LockHeld (modes : Nat → TaskMode) (node : Node) : Prop :=
  ∀ task, node.writer = some task ↔ (modes task).isStaging = true

def NodeOp.isLock : NodeOp → Bool
  | .lockMempool => true
  | _ => false

/-- The requests that wait for the lock. -/
def NodeOp.awaitsLock : NodeOp → Bool
  | .lockMempool | .selectTransactions _ | .mempoolLen | .processCommittedBlock _ => true
  | _ => false

def NodeOp.isStage : NodeOp → Bool
  | .stage _ _ _ => true
  | _ => false

variable [Crypto]

/-- A request and the mode it takes its task to: the lock is taken by an idle task and
given back by the request to stage. -/
theorem isStaging_next {mode : TaskMode} (allowed : (taskProtocol txs).allowed mode op)
    (answer : op.Answer) :
    (op.isStage = true → mode.isStaging = true) ∧
      (op.awaitsLock = true → mode.isStaging = false) ∧
      ((taskProtocol txs).next mode op answer).isStaging =
        (op.isLock || mode.isStaging && !op.isStage) := by
  cases mode with
  | idle =>
      cases op with
      | engine op =>
          cases op with
          | commitBlock block spentInputs => cases answer <;> exact ⟨nofun, nofun, rfl⟩
          | _ => exact ⟨nofun, nofun, rfl⟩
      | stage tx now validated => exact allowed.elim
      | lockMempool => exact ⟨nofun, fun _ => rfl, rfl⟩
      | selectTransactions maxBlockBytes => exact allowed.elim
      | mempoolLen => exact ⟨nofun, fun _ => rfl, rfl⟩
      | processCommittedBlock block => exact allowed.elim
      | _ => exact ⟨nofun, nofun, rfl⟩
  | cleaning block =>
      cases allowed
      exact ⟨nofun, fun _ => rfl, rfl⟩
  | staging reserved reads =>
      cases op with
      | engine op =>
          cases op with
          | getUtxo outpoint => exact ⟨nofun, nofun, rfl⟩
          | _ => exact allowed.elim
      | stage tx now validated => exact ⟨fun _ => rfl, nofun, rfl⟩
      | _ => exact allowed.elim
  | planning =>
      cases op with
      | engine op =>
          cases op with
          | getTip => cases answer <;> exact ⟨nofun, nofun, rfl⟩
          | _ => exact allowed.elim
      | _ => exact allowed.elim
  | templating tip =>
      cases op with
      | engine op =>
          cases op with
          | getUtxo outpoint => exact ⟨nofun, nofun, rfl⟩
          | _ => exact allowed.elim
      | selectTransactions maxBlockBytes => exact ⟨nofun, fun _ => rfl, rfl⟩
      | getBlock _ | getBlockByHeight _ => exact ⟨nofun, nofun, rfl⟩
      | _ => exact allowed.elim
  | selected tip transactions =>
      cases op with
      | engine op =>
          cases op with
          | getUtxo outpoint => exact ⟨nofun, nofun, rfl⟩
          | _ => exact allowed.elim
      | getBlock _ | getBlockByHeight _ => exact ⟨nofun, nofun, rfl⟩
      | _ => exact allowed.elim

theorem Node.writer_next (node : Node) (task : Nat) (op : NodeOp) :
    (node.next task op).writer =
      if op.isLock then some task else if op.isStage then none else node.writer := by
  cases op with
  | engine op => cases op <;> rfl
  | _ => rfl

omit [Crypto] in
/-- The lock is taken when nobody has it, and given back by the task that has it. -/
theorem Node.writer_of_ready (ready : node.ready task op = true) :
    (op.isLock = true → node.writer = none) ∧ (op.isStage = true → node.writer = some task) := by
  cases op with
  | lockMempool => exact ⟨fun _ => Option.isNone_iff_eq_none.mp ready, nofun⟩
  | stage tx now validated => exact ⟨nofun, fun _ => by simpa [Node.ready] using ready⟩
  | _ => exact ⟨nofun, nofun⟩

theorem Node.LockHeld.step (held : node.LockHeld modes)
    (allowed : (taskProtocol txs).allowed (modes task) op) (ready : node.ready task op = true) :
    (node.next task op).LockHeld (Function.update modes task
      ((taskProtocol txs).next (modes task) op (node.answer op))) := by
  obtain ⟨-, -, next⟩ := isStaging_next allowed (node.answer op)
  obtain ⟨free, own⟩ := Node.writer_of_ready ready
  intro other
  have before := held other
  rw [Node.writer_next]
  by_cases same : other = task
  · subst same
    rw [Function.update_self, next]
    cases locks : op.isLock <;> cases stages : op.isStage <;> simp [before]
  · rw [Function.update_of_ne same]
    have different : task ≠ other := Ne.symm same
    cases locks : op.isLock with
    | true =>
        rw [free locks] at before
        simpa [different] using before
    | false =>
        cases stages : op.isStage with
        | true =>
            rw [own stages] at before
            simpa [different] using before
        | false => simpa using before

/-- A task that keeps to the protocol waits for nothing but the lock. -/
theorem Node.ready_of_allowed (held : node.LockHeld modes)
    (allowed : (taskProtocol txs).allowed (modes task) op)
    (turn : node.writer = none ∨ node.writer = some task) : node.ready task op = true := by
  obtain ⟨stages, awaits, -⟩ := isStaging_next allowed (node.answer op)
  have free (waits : op.awaitsLock = true) : node.writer.isNone = true := by
    rw [Option.isNone_iff_eq_none]
    refine turn.resolve_right fun holds => ?_
    have staging := (held task).mp holds
    rw [awaits waits] at staging
    cases staging
  cases op with
  | stage tx now validated => simpa [Node.ready] using (held task).mpr (stages rfl)
  | lockMempool => exact free rfl
  | selectTransactions maxBlockBytes => exact free rfl
  | mempoolLen => exact free rfl
  | processCommittedBlock block => exact free rfl
  | _ => rfl

end Lock

section Progress

variable [Crypto]

/-- What keeps a daemon going: its tasks keep to the protocol, and the lock is held by
the one that is staging. -/
theorem Daemon.exists_lockHeld (maxBytes : Nat) (tasks : List NodeTask) (schedule : List Nat) :
    ∃ modes, (taskProtocol (NodeTask.allTransactions tasks)).Holds Node.serve
      (fun _ => TaskMode.Returns) (fun modes node => node.LockHeld modes) modes
      (Daemon.after maxBytes tasks schedule) := by
  obtain ⟨modes, begins⟩ := Daemon.holds_start maxBytes tasks
  have free : (Daemon.start maxBytes tasks).shared.LockHeld modes := by
    intro task
    constructor
    · exact nofun
    · intro staging
      cases mode : modes task with
      | staging reserved reads => exact (begins.invariant.holder task reserved reads mode).1
      | _ =>
          rw [mode] at staging
          cases staging
  have each : Steps.EachStep (Pool.advance Node.serve) (fun _ _ => True)
      (Daemon.start maxBytes tasks) schedule := fun _ _ _ => trivial
  apply Protocol.exists_holds_run ?_ ⟨begins.obeys, free⟩ schedule each
  intro modes daemon task op resume answer node holds _ program served
  obtain ⟨ready, rfl, rfl⟩ := (Node.serve_eq_some_iff _ _ _ _ _).mp served
  exact holds.invariant.step (holds.allowed program) ready

theorem Daemon.ended_of_notTask (maxBytes : Nat) (tasks : List NodeTask) {task : Nat}
    (noTask : tasks.length ≤ task) : (Daemon.start maxBytes tasks).Ended task := by
  have absent : tasks[task]? = none := List.getElem?_eq_none noTask
  exact ⟨.handled, by simp [Daemon.start, absent]⟩

theorem Daemon.lt_of_not_ended (maxBytes : Nat) (tasks : List NodeTask) (schedule : List Nat)
    {task : Nat} (unfinished : ¬ (Daemon.after maxBytes tasks schedule).Ended task) :
    task < tasks.length := by
  by_contra noTask
  obtain ⟨value, ended⟩ := Daemon.ended_of_notTask maxBytes tasks (Nat.not_lt.mp noTask)
  exact unfinished ⟨value, (Pool.Ended.run ⟨value, ended⟩ schedule).trans ended⟩

/-- A task that keeps to the protocol and has not ended moves when it need not wait. -/
theorem Daemon.moves_of_free {txs : List Transaction} {modes : Nat → TaskMode} {daemon : Daemon}
    (holds : (taskProtocol txs).Holds Node.serve (fun _ => TaskMode.Returns)
      (fun modes node => node.LockHeld modes) modes daemon) {task : Nat}
    (unfinished : ¬ daemon.Ended task)
    (turn : daemon.shared.writer = none ∨ daemon.shared.writer = some task) :
    daemon.Moves Node.serve task := by
  cases program : daemon.programs task with
  | done value => exact absurd ⟨value, program⟩ unfinished
  | request op resume =>
      have ready := Node.ready_of_allowed holds.invariant (holds.allowed program) turn
      have served := (Node.serve_eq_some_iff daemon.shared _ task op _).mpr ⟨ready, rfl, rfl⟩
      exact ⟨op, resume, program, Option.isSome_iff_exists.mpr ⟨_, served⟩⟩

/-- The task that holds the lock has not ended. -/
theorem Daemon.not_ended_of_holds {txs : List Transaction} {modes : Nat → TaskMode}
    {daemon : Daemon} (holds : (taskProtocol txs).Holds Node.serve (fun _ => TaskMode.Returns)
      (fun modes node => node.LockHeld modes) modes daemon) {task : Nat}
    (writer : daemon.shared.writer = some task) : ¬ daemon.Ended task := by
  intro ended
  obtain ⟨value, program⟩ := ended
  have staging := (holds.invariant task).mp writer
  have returns := holds.obeys task
  rw [program] at returns
  cases mode : modes task with
  | staging reserved reads =>
      rw [mode] at returns
      exact returns.elim
  | _ =>
      rw [mode] at staging
      cases staging

/-- No schedule gets the daemon stuck.  While the lock is free every task that has not
ended can move, and while it is held the task that holds it can. -/
theorem daemon_never_stuck (maxBytes : Nat) (tasks : List NodeTask) (schedule : List Nat) :
    ((Daemon.after maxBytes tasks schedule).shared.writer = none →
      ∀ task, ¬ (Daemon.after maxBytes tasks schedule).Ended task →
        (Daemon.after maxBytes tasks schedule).Moves Node.serve task) ∧
      ∀ task, (Daemon.after maxBytes tasks schedule).shared.writer = some task →
        task < tasks.length ∧ ¬ (Daemon.after maxBytes tasks schedule).Ended task ∧
          (Daemon.after maxBytes tasks schedule).Moves Node.serve task := by
  obtain ⟨modes, holds⟩ := Daemon.exists_lockHeld maxBytes tasks schedule
  constructor
  · intro free task unfinished
    exact Daemon.moves_of_free holds unfinished (Or.inl free)
  · intro task writer
    have unfinished := Daemon.not_ended_of_holds holds writer
    refine ⟨?_, unfinished, Daemon.moves_of_free holds unfinished (Or.inr writer)⟩
    exact Daemon.lt_of_not_ended maxBytes tasks schedule unfinished

/-- Under every fair schedule all tasks of the daemon end. -/
theorem every_task_ends (maxBytes : Nat) (tasks : List NodeTask) (schedule : Nat → Nat)
    (fair : ∀ task < tasks.length, ∀ time, ∃ later ≥ time, schedule later = task) :
    ∃ time, ∀ task < tasks.length,
      (Daemon.after maxBytes tasks ((List.range time).map schedule)).Ended task := by
  obtain ⟨time, ended⟩ : ∃ time, ∀ task ∈ List.range tasks.length,
      (Pool.atTime Node.serve (Daemon.start maxBytes tasks) schedule time).Ended task := by
    apply Pool.exists_all_ended
    · intro task noTask
      rw [List.mem_range, Nat.not_lt] at noTask
      exact Daemon.ended_of_notTask maxBytes tasks noTask
    · intro task isTask
      exact fair task (List.mem_range.mp isTask)
    · intro time unfinished
      obtain ⟨task, isTask, unfinished⟩ := unfinished
      obtain ⟨modes, holds⟩ :=
        Daemon.exists_lockHeld maxBytes tasks ((List.range time).map schedule)
      -- The lock's holder can move if there is one, and otherwise the task itself.
      cases writer : (Daemon.after maxBytes tasks ((List.range time).map schedule)).shared.writer
        with
      | none => exact ⟨task, isTask, Daemon.moves_of_free holds unfinished (Or.inl writer)⟩
      | some holder =>
          have working := Daemon.not_ended_of_holds holds writer
          refine ⟨holder, ?_, Daemon.moves_of_free holds working (Or.inr writer)⟩
          exact List.mem_range.mpr (Daemon.lt_of_not_ended maxBytes tasks _ working)
  exact ⟨time, fun task isTask => ended task (List.mem_range.mpr isTask)⟩

end Progress

section Sample

open Sample

attribute [local instance] Sample.stagingCrypto

/-- A block, a payment, a template and a status, in turn. -/
theorem every_task_ends_template : ∃ time, ∀ task < 4,
    (Daemon.after 1000 (templateTasks ++ [NodeTask.getTipStatus])
      ((List.range time).map (· % 4))).Ended task := by
  apply every_task_ends 1000 (templateTasks ++ [NodeTask.getTipStatus]) (· % 4)
  intro task isTask time
  have below : task < 4 := isTask
  exact ⟨4 * time + task, by omega, by omega⟩

end Sample

end Aurion
