import Aurion.Script.Meaning

/-!
# When a contract is accepted

The engine's verdict on a contract in terms of what its scripts mean.  How many
elements the unlocking script has to leave can be read off the locking script, and
some locking scripts are accepted with no unlocking script at all.
-/

namespace Aurion

open Foundation

namespace ScriptEngine

variable [Crypto] (engine : ScriptEngine)

section Contract

omit [Crypto] in
theorem forM_push_eq_ok_iff (item : Option Bytes) (before after : Stack) :
    (item.forM Stack.push : ScriptM Unit) before = .ok ((), after) ↔
      after.items = item.toList ++ before.items := by
  cases item with
  | none =>
      refine (stateT_pure_eq_ok_iff _ _ _ _).trans ?_
      simp [Stack.ext_iff, eq_comm]
  | some bytes => exact Stack.push_eq_ok_iff _ _ _ _

omit [Crypto] in
theorem pushArguments_eq_ok_iff (datum : Datum) (redeemer : Option Bytes) (stack : Stack) :
    pushArguments datum redeemer Stack.empty = .ok ((), stack) ↔
      stack.items = arguments datum redeemer := by
  constructor
  · exact pushArguments_items
  · intro items
    have depth := stack.depth
    have sizes := stack.sizes
    rw [items, arguments] at sizes depth
    rw [List.length_append] at depth
    -- The datum alone fits wherever both elements fit.
    let middle : Stack := ⟨datum.bytes.toList, by omega, (List.forall_mem_append.mp sizes).2⟩
    rw [pushArguments, stateT_bind_eq_ok_iff]
    refine ⟨(), middle, ?_, ?_⟩
    · rw [forM_push_eq_ok_iff]
      exact (List.append_nil _).symm
    · rw [forM_push_eq_ok_iff]
      exact items

omit [Crypto] in
theorem prepare_iff (unlockingScript : Bytes) (datum : Datum) (redeemer : Option Bytes)
    (start : Machine) :
    prepare unlockingScript datum redeemer = .ok start ↔
      start.cursor = unlockingScript ∧ start.opCount = 0 ∧
        start.stack.items = arguments datum redeemer := by
  rw [prepare_eq_ok_iff]
  constructor
  · rintro ⟨stack, pushed, rfl⟩
    exact ⟨rfl, rfl, pushArguments_items pushed⟩
  · rintro ⟨rfl, count, items⟩
    exact ⟨start.stack, (pushArguments_eq_ok_iff datum redeemer _).mpr items, by rw [← count]⟩

/-- Both scripts spell instructions, and the stack goes through all of them. -/
theorem executeScripts_iff_meaning (lockingScript unlockingScript : Bytes) (datum : Datum)
    (redeemer : Option Bytes) (items : List Bytes) :
    (∃ final, engine.executeScripts lockingScript unlockingScript datum redeemer = .ok final ∧
      final.stack.items = items) ↔
      ∃ unlocking locking, unlockingScript = scriptCode.assemble unlocking ∧
        lockingScript = scriptCode.assemble locking ∧
        unlocking.length + locking.length ≤ maxOpsPerScript ∧
        (∀ item ∈ arguments datum redeemer, item.length ≤ maxElementSize) ∧
        engine.meaning (unlocking ++ locking) (arguments datum redeemer) = some items := by
  simp only [executeScripts, executeUnlocking, except_bind_eq_ok_iff, meaning_append,
    Option.bind_eq_some_iff]
  constructor
  · rintro ⟨final, ⟨unlocked, ⟨start, prepared, unlocking⟩, locking⟩, rfl⟩
    have startWithin := prepare_withinLimits prepared
    obtain ⟨cursor, count, elements⟩ := (prepare_iff _ _ _ _).mp prepared
    have unlockedWithin := engine.turnsTo_withinLimits
      (engine.turnsTo_of_executeBytecode unlocking) startWithin
    obtain ⟨first, spelledFirst, -, countFirst, -, ranFirst⟩ :=
      (engine.executeBytecode_iff_meaning startWithin.operations startWithin.depth _).mp unlocking
    obtain ⟨second, spelledSecond, -, countSecond, few, ranSecond⟩ :=
      (engine.executeBytecode_iff_meaning unlockedWithin.operations unlockedWithin.depth _).mp
        locking
    rw [elements] at ranFirst
    refine ⟨first, second, cursor.symm.trans spelledFirst, spelledSecond, by omega, ?_,
      _, ranFirst, ranSecond⟩
    rw [← elements]
    exact start.stack.sizes
  · rintro ⟨first, second, rfl, rfl, few, sizes, middle, ranFirst, ranSecond⟩
    have shallow := length_arguments_le datum redeemer
    let start : Stack := ⟨arguments datum redeemer, shallow.trans (by decide), sizes⟩
    have startShallow : start.items.length ≤ 0 + 2 := shallow
    obtain ⟨deep, unlocked, rfl⟩ :=
      engine.exists_stack_of_meaning startShallow (by omega) ranFirst
    have unlockedShallow : unlocked.items.length ≤ first.length + 2 := by omega
    obtain ⟨-, final, rfl⟩ := engine.exists_stack_of_meaning unlockedShallow few ranSecond
    refine ⟨⟨[], first.length + second.length, final⟩,
      ⟨⟨[], first.length, unlocked⟩, ⟨⟨scriptCode.assemble first, 0, start⟩, ?_, ?_⟩, ?_⟩, rfl⟩
    · exact (prepare_iff _ _ _ _).mpr ⟨rfl, rfl, rfl⟩
    · rw [engine.executeBytecode_iff_meaning (Nat.zero_le _) startShallow]
      exact ⟨first, rfl, rfl, (Nat.zero_add _).symm, Nat.le_of_add_right_le few, ranFirst⟩
    · rw [engine.executeBytecode_iff_meaning (Nat.le_of_add_right_le few) unlockedShallow]
      exact ⟨second, rfl, rfl, rfl, few, ranSecond⟩

theorem executeContract_iff_executeScripts (lockingScript unlockingScript : Bytes)
    (datum : Datum) (redeemer : Option Bytes) :
    engine.executeContract lockingScript unlockingScript datum redeemer = .ok true ↔
      ∃ top, (∃ final, engine.executeScripts lockingScript unlockingScript datum redeemer =
          .ok final ∧ final.stack.items = [top]) ∧ isTruthy top = true := by
  rw [executeContract_eq_ok_true_iff]
  constructor
  · rintro ⟨final, top, ran, items, truthy⟩
    exact ⟨top, ⟨final, ran, items⟩, truthy⟩
  · rintro ⟨top, ⟨final, ran, items⟩, truthy⟩
    exact ⟨final, top, ran, items, truthy⟩

/-- The instructions of the locking script turn what the unlocking script leaves into
a single element. -/
theorem locking_of_executeContract {lockingScript unlockingScript : Bytes} {datum : Datum}
    {redeemer : Option Bytes}
    (accepted : engine.executeContract lockingScript unlockingScript datum redeemer = .ok true) :
    ∃ unlocked program top, engine.executeUnlocking unlockingScript datum redeemer = .ok unlocked ∧
      lockingScript = scriptCode.assemble program ∧ program.length ≤ maxOpsPerScript ∧
      engine.meaning program unlocked.stack.items = some [top] := by
  obtain ⟨final, top, ran, items, -⟩ := (engine.executeContract_eq_ok_true_iff _ _ _ _).mp accepted
  rw [executeScripts, except_bind_eq_ok_iff] at ran
  obtain ⟨unlocked, unlocking, locking⟩ := ran
  have within := engine.executeUnlocking_withinLimits unlocking
  obtain ⟨program, spelled, -, counted, few, meant⟩ :=
    (engine.executeBytecode_iff_meaning within.operations within.depth _).mp locking
  rw [items] at meant
  exact ⟨unlocked, program, top, unlocking, spelled, (Nat.le_add_left _ _).trans (counted ▸ few),
    meant⟩

/-- The engine accepts a contract exactly when both scripts spell instructions, not
more than the limit together, that turn the injected elements, none of them too
large, into a single true element. -/
theorem executeContract_iff_meaning (lockingScript unlockingScript : Bytes) (datum : Datum)
    (redeemer : Option Bytes) :
    engine.executeContract lockingScript unlockingScript datum redeemer = .ok true ↔
      ∃ unlocking locking, unlockingScript = scriptCode.assemble unlocking ∧
        lockingScript = scriptCode.assemble locking ∧
        unlocking.length + locking.length ≤ maxOpsPerScript ∧
        (∀ item ∈ arguments datum redeemer, item.length ≤ maxElementSize) ∧
        ∃ top, engine.meaning (unlocking ++ locking) (arguments datum redeemer) = some [top] ∧
          isTruthy top = true := by
  rw [executeContract_iff_executeScripts]
  simp only [executeScripts_iff_meaning]
  constructor
  · rintro ⟨top, ⟨unlocking, locking, spelled, spelled', few, sizes, meant⟩, truthy⟩
    exact ⟨unlocking, locking, spelled, spelled', few, sizes, top, meant, truthy⟩
  · rintro ⟨unlocking, locking, spelled, spelled', few, sizes, top, meant, truthy⟩
    exact ⟨top, ⟨unlocking, locking, spelled, spelled', few, sizes, meant⟩, truthy⟩

end Contract

section Height

/-- How many elements the unlocking script has to leave for this locking script, if
any number of them will do. -/
def unlockedHeight (lockingScript : Bytes) : Option Nat :=
  match scriptCode.disassemble lockingScript with
  | (_, some _) => none
  | (program, none) =>
      if program.length ≤ maxOpsPerScript ∧ Instruction.op .opReturn ∉ program then
        heightBefore (program.map Instruction.arity) 1
      else none

theorem effects_of_operations (program : List Instruction) :
    (program.map engine.operationOf).map StackOperation.effect =
      program.map Instruction.arity := by
  rw [List.map_map]
  exact List.map_congr_left fun instruction _ => engine.effect_operationOf instruction

theorem heightBefore_of_meaning {program : List Instruction} {before after : List Bytes}
    (meant : engine.meaning program before = some after) :
    heightBefore (program.map Instruction.arity) after.length = some before.length := by
  rw [← engine.effects_of_operations]
  exact heightBefore_of_run meant

/-- `OP_RETURN` ends every script that has it anywhere. -/
theorem opReturn_not_mem_of_meaning {program : List Instruction} {before after : List Bytes}
    (meant : engine.meaning program before = some after) :
    Instruction.op .opReturn ∉ program := by
  induction program generalizing before with
  | nil => exact List.not_mem_nil
  | cons instruction program inductionHypothesis =>
      rw [meaning, List.map_cons, runStack_cons, Option.bind_eq_some_iff] at meant
      obtain ⟨middle, acted, meant⟩ := meant
      rintro (_ | ⟨_, later⟩)
      · cases acted
      · exact inductionHypothesis meant later

theorem unlockedHeight_of_meaning {program : List Instruction} {stack : List Bytes} {top : Bytes}
    (few : program.length ≤ maxOpsPerScript) (meant : engine.meaning program stack = some [top]) :
    unlockedHeight (scriptCode.assemble program) = some stack.length := by
  rw [unlockedHeight, scriptCode.disassemble_assemble]
  exact (if_pos ⟨few, engine.opReturn_not_mem_of_meaning meant⟩).trans
    (engine.heightBefore_of_meaning meant)

/-- The locking script alone tells how many elements the unlocking script of an
accepted contract leaves. -/
theorem executeContract_unlockedHeight {lockingScript unlockingScript : Bytes} {datum : Datum}
    {redeemer : Option Bytes}
    (accepted : engine.executeContract lockingScript unlockingScript datum redeemer = .ok true) :
    ∃ unlocked, engine.executeUnlocking unlockingScript datum redeemer = .ok unlocked ∧
      unlockedHeight lockingScript = some unlocked.stack.items.length := by
  obtain ⟨unlocked, program, top, unlocking, rfl, few, meant⟩ :=
    engine.locking_of_executeContract accepted
  exact ⟨unlocked, unlocking, engine.unlockedHeight_of_meaning few meant⟩

end Height

section Verify

def withSighash (context : Option ScriptContext) (sighash : Hash256) : ScriptEngine :=
  { context, sighash }

/-- The evaluation of two scripts alone.  The elements below the one on top may be
anything. -/
def verify (unlockingScript lockingScript : Bytes) (sighash : Hash256) :
    Except ScriptError Unit := do
  let engine := withSighash none sighash
  let unlocked ← engine.executeBytecode ⟨unlockingScript, 0, Stack.empty⟩
  let final ← engine.executeBytecode { unlocked with cursor := lockingScript }
  let (top, _) ← (Stack.pop final.stack).mapError fun _ => .emptyStackOnTermination
  ensure (isTruthy top = true) .scriptFailed

/-- Without injected elements a contract runs as the two scripts alone do. -/
theorem executeScripts_bare (lockingScript unlockingScript : Bytes) :
    engine.executeScripts lockingScript unlockingScript .none none =
      (engine.executeBytecode ⟨unlockingScript, 0, Stack.empty⟩ >>= fun unlocked =>
        engine.executeBytecode { unlocked with cursor := lockingScript }) := rfl

theorem verify_eq_ok_iff (unlockingScript lockingScript : Bytes) (sighash : Hash256) :
    verify unlockingScript lockingScript sighash = .ok () ↔
      ∃ final top rest,
        (withSighash none sighash).executeScripts lockingScript unlockingScript .none none =
          .ok final ∧ final.stack.items = top :: rest ∧ isTruthy top = true := by
  simp only [verify, executeScripts_bare, except_bind_eq_ok_iff, mapError_eq_ok_iff,
    ensure_eq_ok_iff, Prod.exists, Stack.pop_eq_ok_iff]
  constructor
  · rintro ⟨unlocked, unlocking, final, locking, top, rest, items, truthy⟩
    exact ⟨final, top, rest.items, ⟨unlocked, unlocking, locking⟩, items, truthy⟩
  · rintro ⟨final, top, rest, ⟨unlocked, unlocking, locking⟩, items, truthy⟩
    have below : (Denotes.below final.stack).items = rest := by simp [Denotes.below, items]
    exact ⟨unlocked, unlocking, final, locking, top, Denotes.below final.stack,
      by rw [items, below], truthy⟩

theorem verify_iff_meaning (unlockingScript lockingScript : Bytes) (sighash : Hash256) :
    verify unlockingScript lockingScript sighash = .ok () ↔
      ∃ unlocking locking, unlockingScript = scriptCode.assemble unlocking ∧
        lockingScript = scriptCode.assemble locking ∧
        unlocking.length + locking.length ≤ maxOpsPerScript ∧
        ∃ top rest, (withSighash none sighash).meaning (unlocking ++ locking) [] =
          some (top :: rest) ∧ isTruthy top = true := by
  rw [verify_eq_ok_iff]
  constructor
  · rintro ⟨final, top, rest, ran, items, truthy⟩
    obtain ⟨unlocking, locking, spelled, spelled', few, -, meant⟩ :=
      ((withSighash none sighash).executeScripts_iff_meaning lockingScript unlockingScript
        .none none _).mp ⟨final, ran, items⟩
    exact ⟨unlocking, locking, spelled, spelled', few, top, rest, meant, truthy⟩
  · rintro ⟨unlocking, locking, spelled, spelled', few, top, rest, meant, truthy⟩
    obtain ⟨final, ran, items⟩ :=
      ((withSighash none sighash).executeScripts_iff_meaning lockingScript unlockingScript
        .none none _).mpr
        ⟨unlocking, locking, spelled, spelled', few, List.forall_mem_nil _, meant⟩
    exact ⟨final, top, rest, ran, items, truthy⟩

end Verify

end ScriptEngine

/-- Whether the instruction reads the transaction that the script is run for. -/
def Instruction.introspects : Instruction → Bool
  | .op .opTxInputsCount | .op .opCurrentInputIdx | .op .opTxOutputsCount
  | .op .opTxOutputValue | .op .opTxOutputScript | .op .opTxOutputDatum
  | .op .opTxLocktime | .op .opValidationHeight => true
  | _ => false

/-- A script with no introspection in it. -/
def contextFree (script : Bytes) : Bool :=
  (scriptCode.disassemble script).1.all fun instruction => !instruction.introspects

/-- How many elements are on the stack before two scripts that leave a single one. -/
def heightBeforeScripts (unlockingScript lockingScript : Bytes) : Option Nat :=
  heightBefore (((scriptCode.disassemble unlockingScript).1 ++
    (scriptCode.disassemble lockingScript).1).map Instruction.arity) 1

namespace ScriptEngine

variable [Crypto] (engine : ScriptEngine)

section ContextFree

theorem operationOf_withSighash {instruction : Instruction}
    (plain : instruction.introspects = false) :
    (withSighash none engine.sighash).operationOf instruction =
      engine.operationOf instruction := by
  cases instruction with
  | push pushed => rfl
  | op code =>
      cases code with
      | opTxInputsCount | opCurrentInputIdx | opTxOutputsCount | opTxOutputValue
      | opTxOutputScript | opTxOutputDatum | opTxLocktime | opValidationHeight => cases plain
      | _ => rfl

theorem meaning_withSighash {program : List Instruction}
    (plain : ∀ instruction ∈ program, instruction.introspects = false) (stack : List Bytes) :
    (withSighash none engine.sighash).meaning program stack = engine.meaning program stack := by
  rw [meaning, meaning, List.map_congr_left fun instruction membership =>
    engine.operationOf_withSighash (plain instruction membership)]

/-- For scripts that do not look at the transaction, and without injected elements,
the two evaluations differ in one thing: a contract must leave a single element, and
whether it does can be read off the scripts. -/
theorem executeContract_iff_verify {lockingScript unlockingScript : Bytes}
    (plainUnlocking : contextFree unlockingScript = true)
    (plainLocking : contextFree lockingScript = true) :
    engine.executeContract lockingScript unlockingScript .none none = .ok true ↔
      verify unlockingScript lockingScript engine.sighash = .ok () ∧
        heightBeforeScripts unlockingScript lockingScript = some 0 := by
  simp only [contextFree, List.all_eq_true, Bool.not_eq_eq_eq_not, Bool.not_true]
    at plainUnlocking plainLocking
  have plain := List.forall_mem_append.mpr ⟨plainUnlocking, plainLocking⟩
  rw [executeContract_iff_executeScripts, verify_iff_meaning]
  simp only [executeScripts_iff_meaning]
  constructor
  · rintro ⟨top, ⟨unlocking, locking, rfl, rfl, few, -, meant⟩, truthy⟩
    simp only [heightBeforeScripts, scriptCode.disassemble_assemble] at plain ⊢
    refine ⟨⟨unlocking, locking, rfl, rfl, few, top, [], ?_, truthy⟩,
      engine.heightBefore_of_meaning meant⟩
    rw [engine.meaning_withSighash plain]
    exact meant
  · rintro ⟨⟨unlocking, locking, rfl, rfl, few, top, rest, meant, truthy⟩, height⟩
    simp only [heightBeforeScripts, scriptCode.disassemble_assemble] at plain height
    rw [engine.meaning_withSighash plain] at meant
    -- Both heights come from the empty stack.
    have single := heightBefore_injective height (engine.heightBefore_of_meaning meant)
    have alone : rest = [] := by simpa using single.symm
    exact ⟨top, ⟨unlocking, locking, rfl, rfl, few, List.forall_mem_nil _, alone ▸ meant⟩, truthy⟩

end ContextFree

end ScriptEngine

/-- A script that compares one element asks for one element, and the two evaluations
agree on it. -/
theorem ScriptEngine.executeContract_unlockedHeight_equal :
    letI := Crypto.constant Hash256.zero
    ∃ unlocked, (ScriptEngine.new none).executeUnlocking [0x01, 11] .none none = .ok unlocked ∧
      unlockedHeight [0x01, 11, 0x87] = some unlocked.stack.items.length := by
  let crypto := Crypto.constant Hash256.zero
  have accepted : (ScriptEngine.new none).executeContract [0x01, 11, 0x87] [0x01, 11] .none none =
      .ok true := by decide +kernel
  exact (ScriptEngine.new none).executeContract_unlockedHeight accepted

theorem ScriptEngine.executeContract_iff_verify_equal :
    letI := Crypto.constant Hash256.zero
    verify [0x01, 11] [0x01, 11, 0x87] (ScriptEngine.new none).sighash = .ok () ∧
      heightBeforeScripts [0x01, 11] [0x01, 11, 0x87] = some 0 := by
  let crypto := Crypto.constant Hash256.zero
  have accepted : (ScriptEngine.new none).executeContract [0x01, 11, 0x87] [0x01, 11] .none none =
      .ok true := by decide +kernel
  exact ((ScriptEngine.new none).executeContract_iff_verify (by decide +kernel)
    (by decide +kernel)).mp accepted

end Aurion
