import Aurion.Script.Engine

/-!
# Runs of the bytecode loop

Every instruction replaces a fixed number of top elements by a fixed number of
new ones.  Invariants of single turns carry over to whole runs, and an element
that no executed instruction reaches is still in place at the end.
-/

namespace Aurion

open Foundation

/-- How many elements an operation takes off the stack and how many it puts
there.  A duplicated element is read in place. -/
def OpCode.effect : OpCode → Nat × Nat
  | .opFalse | .opTrue | .opDup => (0, 1)
  | .opNop | .opReturn => (0, 0)
  | .opVerify | .opDrop => (1, 0)
  | .opSwap => (2, 2)
  | .opEqual | .opAdd | .opSub | .opCheckSig => (2, 1)
  | .opEqualVerify | .opCheckSigVerify => (2, 0)
  | .opHash256 | .opTxOutputValue | .opTxOutputScript | .opTxOutputDatum => (1, 1)
  | .opTxInputsCount | .opCurrentInputIdx | .opTxOutputsCount | .opTxLocktime
  | .opValidationHeight => (0, 1)

/-- The effect of the instruction that starts with a byte. -/
def instructionEffect (opByte : UInt8) : Nat × Nat :=
  if isDirectPush opByte then (0, 1)
  else match OpCode.fromU8 opByte with
    | none => (0, 0)
    | some op => op.effect

/-- How many elements the next instruction takes off the stack. -/
def Machine.taken (machine : Machine) : Nat :=
  match machine.cursor with
  | [] => 0
  | opByte :: _ => (instructionEffect opByte).1

namespace ScriptEngine

variable [Crypto] (engine : ScriptEngine)

theorem executeOp_effect (op : OpCode) : Effect op.effect.1 op.effect.2 (engine.executeOp op) := by
  cases op with
  | opFalse | opTrue => exact Effect.push _
  | opNop => exact Effect.pure ()
  | opReturn => exact Effect.throw _
  | opVerify => exact Effect.pop fun _ => Effect.check _
  | opDup => exact Effect.dup
  | opDrop => exact Effect.pop fun _ => Effect.pure ()
  | opSwap => exact Effect.swap
  | opEqual | opCheckSig => exact Effect.pop fun _ => Effect.pop fun _ => Effect.push _
  | opEqualVerify | opCheckSigVerify => exact Effect.pop fun _ => Effect.pop fun _ => Effect.check _
  | opAdd | opSub =>
      exact Effect.pop fun _ => Effect.pop fun _ => Effect.stateless fun _ =>
        Effect.stateless fun _ => Effect.stateless fun _ => Effect.push _
  | opHash256 => exact Effect.pop fun _ => Effect.push _
  | opTxInputsCount | opCurrentInputIdx | opTxOutputsCount =>
      exact Effect.stateless fun _ => Effect.stateless fun _ => Effect.push _
  | opTxOutputValue | opTxOutputScript | opTxOutputDatum =>
      exact Effect.stateless fun _ => Effect.pop fun _ => Effect.stateless fun _ => Effect.push _
  | opTxLocktime | opValidationHeight => exact Effect.stateless fun _ => Effect.push _

theorem executeInstruction_effect (opByte : UInt8) (cursor : Bytes) :
    Effect (instructionEffect opByte).1 (instructionEffect opByte).2
      (engine.executeInstruction opByte cursor) := by
  unfold executeInstruction instructionEffect
  split
  · exact Effect.stateless fun _ => (Effect.push _).map _
  · intro before rest after ran
    simp only [stateT_bind_eq_ok_iff, stateless_eq_ok_iff] at ran
    rcases ran with ⟨op, _, ⟨decoded, rfl⟩, ran⟩
    rw [decodeOpCode_eq_ok_iff] at decoded
    rw [decoded]
    rw [← stateT_bind_eq_ok_iff] at ran
    exact ((engine.executeOp_effect op).map cursor) before rest after ran

theorem step_eq_ok_none_iff (machine : Machine) :
    engine.step machine = .ok none ↔ machine.cursor = [] := by
  unfold step
  split
  next empty => simp [empty]
  next opByte cursor shape =>
      rw [shape]
      split
      · simp
      · cases engine.executeInstruction opByte cursor machine.stack <;> simp [Except.map]

theorem executeBytecode_eq_ok_iff (machine final : Machine) :
    engine.executeBytecode machine = .ok final ↔
      machine.cursor = [] ∧ machine = final ∨
        ∃ next, engine.step machine = .ok (some next) ∧
          engine.executeBytecode next = .ok final := by
  rw [executeBytecode, ← engine.step_eq_ok_none_iff machine]
  split
  next error stepped => simp [stepped]
  next stepped => simp [stepped]
  next next stepped => simp [stepped]

theorem visited_of_step {machine next : Machine}
    (stepped : engine.step machine = .ok (some next)) :
    engine.visited machine = machine :: engine.visited next := by
  rw [visited]
  split
  next stepped' => cases stepped.symm.trans stepped'
  next stepped' => cases stepped.symm.trans stepped'
  next stepped' =>
      cases stepped.symm.trans stepped'
      rfl

/-- What every executed instruction preserves holds at the end of a run. -/
theorem executeBytecode_invariant {motive : Machine → Prop} {machine final : Machine}
    (ran : engine.executeBytecode machine = .ok final) (start : motive machine)
    (preserved : ∀ state ∈ engine.visited machine, ∀ next,
      engine.step state = .ok (some next) → motive state → motive next) : motive final := by
  induction size : machine.cursor.length using Nat.strongRecOn generalizing machine with
  | _ size inductionHypothesis =>
      rcases (engine.executeBytecode_eq_ok_iff machine final).mp ran with
        ⟨-, rfl⟩ | ⟨next, stepped, rest⟩
      · exact start
      · have shorter := engine.length_lt_of_step stepped
        rw [engine.visited_of_step stepped, List.forall_mem_cons] at preserved
        exact inductionHypothesis _ (size ▸ shorter) rest
          (preserved.1 next stepped start) preserved.2 rfl

section Instructions

/-- A direct push takes its operand off the cursor. -/
theorem executeInstruction_push_iff {opByte : UInt8} {data rest cursor : Bytes}
    {before after : Stack} (direct : isDirectPush opByte = true)
    (length : data.length = opByte.toNat) :
    engine.executeInstruction opByte (data ++ rest) before = .ok (cursor, after) ↔
      cursor = rest ∧ after.items = data :: before.items := by
  simp only [executeInstruction, direct, if_true, stateT_bind_eq_ok_iff, stateless_eq_ok_iff,
    ensure_eq_ok_iff, stateT_pure_eq_ok_iff, Stack.push_eq_ok_iff, ← length,
    List.take_left', List.drop_left', List.length_append, Nat.le_add_right, true_and,
    exists_const, exists_eq_left']
  grind

/-- Any other byte of an operation executes it and leaves the cursor alone. -/
theorem executeInstruction_op_iff {opByte : UInt8} {op : OpCode} {rest cursor : Bytes}
    {before after : Stack} (notPush : isDirectPush opByte = false)
    (decoded : OpCode.fromU8 opByte = some op) :
    engine.executeInstruction opByte rest before = .ok (cursor, after) ↔
      cursor = rest ∧ engine.executeOp op before = .ok ((), after) := by
  simp only [executeInstruction, notPush, Bool.false_eq_true, if_false, stateT_bind_eq_ok_iff,
    stateless_eq_ok_iff, decodeOpCode_eq_ok_iff, decoded, stateT_pure_eq_ok_iff]
  grind

theorem executeBytecode_nil_eq_ok_iff (opCount : Nat) (stack : Stack) (final : Machine) :
    engine.executeBytecode ⟨[], opCount, stack⟩ = .ok final ↔ ⟨[], opCount, stack⟩ = final := by
  rw [executeBytecode_eq_ok_iff]
  constructor
  · intro ran
    rcases ran with ⟨-, same⟩ | ⟨next, stepped, -⟩
    · exact same
    · rcases (engine.step_eq_ok_some_iff _ _).mp stepped with ⟨_, _, shape, -⟩
      cases shape
  · intro same
    exact Or.inl ⟨rfl, same⟩

/-- A run over one instruction and the rest of the script. -/
theorem executeBytecode_cons_eq_ok_iff (opByte : UInt8) (cursor : Bytes) (opCount : Nat)
    (stack : Stack) (final : Machine) :
    engine.executeBytecode ⟨opByte :: cursor, opCount, stack⟩ = .ok final ↔
      opCount < maxOpsPerScript ∧ ∃ rest after,
        engine.executeInstruction opByte cursor stack = .ok (rest, after) ∧
          engine.executeBytecode ⟨rest, opCount + 1, after⟩ = .ok final := by
  rw [executeBytecode_eq_ok_iff]
  constructor
  · intro ran
    rcases ran with ⟨empty, -⟩ | ⟨next, stepped, tail⟩
    · cases empty
    · rcases (engine.step_eq_ok_some_iff _ _).mp stepped with
        ⟨_, _, shape, few, executed, count⟩
      cases shape
      rcases next with ⟨rest, nextCount, after⟩
      cases count
      exact ⟨few, rest, after, executed, tail⟩
  · intro ran
    rcases ran with ⟨few, rest, after, executed, tail⟩
    exact Or.inr ⟨_, (engine.step_eq_ok_some_iff _ _).mpr
      ⟨opByte, cursor, rfl, few, executed, rfl⟩, tail⟩

end Instructions

section Counting

theorem opCount_le_of_executeBytecode {machine final : Machine}
    (ran : engine.executeBytecode machine = .ok final) : machine.opCount ≤ final.opCount := by
  refine engine.executeBytecode_invariant
    (motive := fun state => machine.opCount ≤ state.opCount) ran (Nat.le_refl _) ?_
  intro state _ next stepped counted
  obtain ⟨_, _, _, _, _, count⟩ := (engine.step_eq_ok_some_iff state next).mp stepped
  rw [count]
  exact Nat.le_succ_of_le counted

/-- Apart from the limit, the count of a run does not matter to it. -/
theorem executeBytecode_shift (extra : Nat) {machine final : Machine}
    (ran : engine.executeBytecode machine = .ok final)
    (room : final.opCount + extra ≤ maxOpsPerScript) :
    engine.executeBytecode { machine with opCount := machine.opCount + extra } =
      .ok { final with opCount := final.opCount + extra } := by
  induction size : machine.cursor.length using Nat.strongRecOn generalizing machine with
  | _ size inductionHypothesis =>
      rw [executeBytecode_eq_ok_iff] at ran ⊢
      obtain ⟨empty, rfl⟩ | ⟨next, stepped, rest⟩ := ran
      · exact Or.inl ⟨empty, rfl⟩
      · refine Or.inr ⟨{ next with opCount := next.opCount + extra }, ?_,
          inductionHypothesis _ (size ▸ engine.length_lt_of_step stepped) rest rfl⟩
        have counted := engine.opCount_le_of_executeBytecode rest
        obtain ⟨opByte, cursor, shape, few, executed, count⟩ :=
          (engine.step_eq_ok_some_iff machine next).mp stepped
        refine (engine.step_eq_ok_some_iff _ _).mpr
          ⟨opByte, cursor, shape, ?_, executed, ?_⟩
        · simp only
          omega
        · simp only [count, Nat.add_right_comm]

/-- The machine at the end of a contract. -/
def executeScripts (lockingScript unlockingScript : Bytes) (datum : Datum)
    (redeemer : Option Bytes) : Except ScriptError Machine := do
  let unlocked ← engine.executeUnlocking unlockingScript datum redeemer
  engine.executeBytecode { unlocked with cursor := lockingScript }

theorem executeContract_eq_ok_true_iff (lockingScript unlockingScript : Bytes) (datum : Datum)
    (redeemer : Option Bytes) :
    engine.executeContract lockingScript unlockingScript datum redeemer = .ok true ↔
      ∃ final top,
        engine.executeScripts lockingScript unlockingScript datum redeemer = .ok final ∧
          final.stack.items = [top] ∧ isTruthy top = true := by
  simp only [executeContract, executeScripts, except_bind_eq_ok_iff]
  constructor
  · intro ran
    obtain ⟨unlocked, unlocking, final, locking, ran⟩ := ran
    split at ran
    · cases ran
    next single =>
        rw [except_bind_eq_ok_iff] at ran
        obtain ⟨⟨top, rest⟩, popped, truthy⟩ := ran
        rw [Stack.pop_eq_ok_iff] at popped
        have alone : rest.items = [] := by
          simpa [popped] using single
        rw [alone] at popped
        exact ⟨final, top, ⟨unlocked, unlocking, locking⟩, popped,
          (except_pure_eq_ok_iff _ _).mp truthy⟩
  · intro ran
    obtain ⟨final, top, ⟨unlocked, unlocking, locking⟩, items, truthy⟩ := ran
    refine ⟨unlocked, unlocking, final, locking, ?_⟩
    rw [if_neg (by simp [items]), except_bind_eq_ok_iff]
    exact ⟨(top, Stack.empty), (Stack.pop_eq_ok_iff _ _ _).mpr items,
      (except_pure_eq_ok_iff _ _).mpr truthy⟩

omit [Crypto] in
theorem prepare_eq_ok_iff (unlockingScript : Bytes) (datum : Datum) (redeemer : Option Bytes)
    (start : Machine) :
    prepare unlockingScript datum redeemer = .ok start ↔
      ∃ stack, pushArguments datum redeemer Stack.empty = .ok ((), stack) ∧
        ⟨unlockingScript, 0, stack⟩ = start := by
  unfold prepare
  cases pushArguments datum redeemer Stack.empty with
  | error error => simp [Except.map]
  | ok result => simp [Except.map, Prod.ext_iff]

/-- An `OP_NOP` in front of the unlocking script costs one operation and changes
nothing else. -/
theorem executeScripts_nop {lockingScript unlockingScript : Bytes} {datum : Datum}
    {redeemer : Option Bytes} {final : Machine}
    (ran : engine.executeScripts lockingScript unlockingScript datum redeemer = .ok final)
    (room : final.opCount < maxOpsPerScript) :
    engine.executeScripts lockingScript (0x61 :: unlockingScript) datum redeemer =
      .ok { final with opCount := final.opCount + 1 } := by
  simp only [executeScripts, executeUnlocking, except_bind_eq_ok_iff, prepare_eq_ok_iff]
    at ran ⊢
  obtain ⟨unlocked, ⟨_, ⟨stack, pushed, rfl⟩, unlocking⟩, locking⟩ := ran
  have unlockingCount := engine.opCount_le_of_executeBytecode unlocking
  have lockingCount := engine.opCount_le_of_executeBytecode locking
  simp only at unlockingCount lockingCount
  refine ⟨{ unlocked with opCount := unlocked.opCount + 1 }, ⟨_, ⟨stack, pushed, rfl⟩, ?_⟩,
    engine.executeBytecode_shift 1 locking room⟩
  rw [executeBytecode_cons_eq_ok_iff]
  refine ⟨by decide, unlockingScript, stack, ?_,
    engine.executeBytecode_shift 1 unlocking (by omega)⟩
  rw [engine.executeInstruction_op_iff (by decide) rfl]
  exact ⟨rfl, rfl⟩

end Counting

section Arguments

/-- The elements injected before the unlocking script, the top one first. -/
def arguments (datum : Datum) (redeemer : Option Bytes) : List Bytes :=
  redeemer.toList ++ datum.bytes.toList

omit [Crypto] in
theorem forM_push_items {item : Option Bytes} {before after : Stack} {result : Unit}
    (ran : (item.forM Stack.push : ScriptM Unit) before = .ok (result, after)) :
    after.items = item.toList ++ before.items := by
  cases item with
  | none =>
      rw [((stateT_pure_eq_ok_iff _ _ _ _).mp ran).2]
      rfl
  | some bytes => exact (Stack.push_eq_ok_iff _ _ _ _).mp ran

omit [Crypto] in
theorem pushArguments_items {datum : Datum} {redeemer : Option Bytes} {result : Unit}
    {stack : Stack}
    (pushed : pushArguments datum redeemer Stack.empty = .ok (result, stack)) :
    stack.items = arguments datum redeemer := by
  rw [pushArguments, stateT_bind_eq_ok_iff] at pushed
  rcases pushed with ⟨_, middle, datumPushed, redeemerPushed⟩
  rw [forM_push_items redeemerPushed, forM_push_items datumPushed]
  simp [arguments, Stack.empty]

/-- No instruction of the unlocking script takes an injected element off the
stack or exchanges one. -/
def sparesArguments (unlockingScript : Bytes) (datum : Datum) (redeemer : Option Bytes) : Bool :=
  match prepare unlockingScript datum redeemer with
  | .error _ => true
  | .ok start => (engine.visited start).all fun state =>
      (arguments datum redeemer).length + state.taken ≤ state.stack.items.length

/-- The injected elements are the lowest ones of the stack. -/
def SeesArguments (stack : Stack) (datum : Datum) (redeemer : Option Bytes) : Prop :=
  ∃ pushed, stack.items = pushed ++ arguments datum redeemer

/-- A turn that takes only elements above the lowest ones keeps those. -/
theorem step_keeps_base {machine next : Machine} {base : List Bytes}
    (stepped : engine.step machine = .ok (some next))
    (spared : base.length + machine.taken ≤ machine.stack.items.length)
    (above : ∃ top, machine.stack.items = top ++ base) :
    ∃ top, next.stack.items = top ++ base := by
  rcases (engine.step_eq_ok_some_iff machine next).mp stepped with
    ⟨opByte, cursor, shape, -, executed, -⟩
  rcases engine.executeInstruction_effect opByte cursor _ _ _ executed with
    ⟨popped, pushed, rest, before, after, taken, -⟩
  rcases above with ⟨top, split⟩
  simp only [Machine.taken, shape] at spared
  have short : popped.length ≤ top.length := by
    rw [split, List.length_append] at spared
    omega
  obtain ⟨kept, equality⟩ : popped <+: top :=
    List.prefix_of_prefix_length_le ⟨rest, before.symm⟩ ⟨base, split.symm⟩ short
  refine ⟨pushed ++ kept, ?_⟩
  rw [before, ← equality, List.append_assoc] at split
  rw [after, List.append_cancel_left split, List.append_assoc]

/-- The locking script starts above the committed datum and the redeemer as
long as the unlocking script does not reach them. -/
theorem sees_arguments_of_spared (unlockingScript : Bytes) (datum : Datum)
    (redeemer : Option Bytes) (unlocked : Machine)
    (ran : engine.executeUnlocking unlockingScript datum redeemer = .ok unlocked)
    (spared : engine.sparesArguments unlockingScript datum redeemer = true) :
    SeesArguments unlocked.stack datum redeemer := by
  rw [executeUnlocking, except_bind_eq_ok_iff] at ran
  rcases ran with ⟨start, prepared, ran⟩
  simp only [sparesArguments, prepared, List.all_eq_true, decide_eq_true_eq] at spared
  refine engine.executeBytecode_invariant (motive := fun machine =>
    ∃ pushed, machine.stack.items = pushed ++ arguments datum redeemer) ran ?_
    fun state membership next stepped => engine.step_keeps_base stepped (spared state membership)
  obtain ⟨stack, pushed, rfl⟩ := (prepare_eq_ok_iff _ _ _ _).mp prepared
  exact ⟨[], pushArguments_items pushed⟩

end Arguments

end ScriptEngine

/-- Above datum `0x0a` and redeemer `0x05`, a script may push and duplicate. -/
theorem ScriptEngine.sees_arguments_of_dup :
    letI := Crypto.constant Hash256.zero
    let stack : Stack := ⟨[[1], [1], [5], [10]], by decide, by decide⟩
    (ScriptEngine.mk none Hash256.zero).executeUnlocking [0x51, 0x73] (.inline [10]) (some [5]) =
        .ok ⟨[], 2, stack⟩ ∧
      SeesArguments stack (.inline [10]) (some [5]) := by
  let crypto := Crypto.constant Hash256.zero
  have ran : (ScriptEngine.mk none Hash256.zero).executeUnlocking [0x51, 0x73] (.inline [10])
      (some [5]) = .ok ⟨[], 2, ⟨[[1], [1], [5], [10]], by decide, by decide⟩⟩ := by decide +kernel
  exact ⟨ran, sees_arguments_of_spared _ _ _ _ _ ran (by decide +kernel)⟩

/-- An unlocking script that drops the committed datum `0x0a` and pushes `0x0b`
lets a locking script that demands `0x0b` succeed. -/
theorem ScriptEngine.substituted_datum :
    letI := Crypto.constant Hash256.zero
    let engine := ScriptEngine.mk none Hash256.zero
    engine.executeContract [0x01, 11, 0x87] [0x75, 0x01, 11] (.inline [10]) none = .ok true ∧
      engine.executeContract [0x01, 11, 0x87] [] (.inline [10]) none = .ok false ∧
      ¬ ∀ (unlockingScript : Bytes) (datum : Datum) (redeemer : Option Bytes)
        (unlocked : Machine), datum ≠ .none →
        engine.executeUnlocking unlockingScript datum redeemer = .ok unlocked →
        SeesArguments unlocked.stack datum redeemer := by
  let crypto := Crypto.constant Hash256.zero
  refine ⟨by decide +kernel, by decide +kernel, fun claimed => ?_⟩
  have ran : (ScriptEngine.mk none Hash256.zero).executeUnlocking [0x75, 0x01, 11] (.inline [10])
      none = .ok ⟨[], 2, ⟨[[11]], by decide, by decide⟩⟩ := by decide +kernel
  obtain ⟨pushed, items⟩ := claimed _ _ _ _ (by decide) ran
  have bottom := congrArg List.getLast? items
  simp [arguments, Datum.bytes] at bottom

end Aurion
