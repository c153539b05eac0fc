import Aurion.Script.Execution
import Mathlib.Logic.Relation

/-!
# The limits of a contract

Both scripts share one count of operations.  An operation leaves at most one
element more on the stack than it finds there, so the count bounds the depth, and
the stack has room for everything that the operations put onto it.
-/

namespace Aurion

open Foundation

/-- The stack was full or the element was too large for it. -/
def ScriptError.isStackLimit : ScriptError → Bool
  | .stackOverflow _ | .elementTooLarge _ _ => true
  | _ => false

/-- The check does not fail because of a limit of the stack. -/
abbrev MeetsNoLimit {Value : Type} (check : Except ScriptError Value) : Prop :=
  FailsOnly (fun error => error.isStackLimit = false) check

section Checks

theorem decodeScriptInt_meetsNoLimit (bytes : Bytes) : MeetsNoLimit (decodeScriptInt bytes) := by
  unfold decodeScriptInt
  split
  · exact FailsOnly.error rfl
  · split <;> exact FailsOnly.ok _

theorem encodeScriptInt_meetsNoLimit (value : Int) : MeetsNoLimit (encodeScriptInt value) := by
  unfold encodeScriptInt
  split
  · exact FailsOnly.ok _
  · exact FailsOnly.error rfl

theorem length_of_encodeScriptInt {value : Int} {bytes : Bytes}
    (encoded : encodeScriptInt value = .ok bytes) : bytes.length = 8 := by
  unfold encodeScriptInt at encoded
  split at encoded
  · cases encoded
    exact length_leBytes _ _
  · cases encoded

theorem encodeU32Count_meetsNoLimit (count : Nat) : MeetsNoLimit (encodeU32Count count) := by
  unfold encodeU32Count
  split
  · exact FailsOnly.ok _
  · exact FailsOnly.error rfl

theorem length_of_encodeU32Count {count : Nat} {bytes : Bytes}
    (encoded : encodeU32Count count = .ok bytes) : bytes.length = 4 := by
  unfold encodeU32Count at encoded
  split at encoded
  · cases encoded
    exact length_leBytes _ _
  · cases encoded

theorem decodeOpCode_meetsNoLimit (opByte : UInt8) : MeetsNoLimit (decodeOpCode opByte) := by
  unfold decodeOpCode
  split
  · exact FailsOnly.error rfl
  · exact FailsOnly.ok _

theorem requireContext_meetsNoLimit (engine : ScriptEngine) :
    MeetsNoLimit engine.requireContext := by
  unfold ScriptEngine.requireContext
  split
  · exact FailsOnly.error rfl
  · exact FailsOnly.ok _

theorem outputAt_meetsNoLimit (ctx : ScriptContext) (idxBytes : Bytes) :
    MeetsNoLimit (ScriptEngine.outputAt ctx idxBytes) := by
  apply FailsOnly.bind
  · unfold decodeU32Index
    split
    · exact FailsOnly.error rfl
    · exact FailsOnly.ok _
  · intro idx _
    split
    · exact FailsOnly.error rfl
    · exact FailsOnly.ok _

end Checks

/-- On a stack with room for one more element the computation meets no limit of
the stack. -/
def Roomy {Value : Type} (program : ScriptM Value) : Prop :=
  ∀ before : Stack, before.items.length < maxStackDepth → MeetsNoLimit (program before)

namespace Roomy

variable {Value Next : Type}

theorem pure (value : Value) : Roomy (pure value : ScriptM Value) :=
  fun _ _ => FailsOnly.ok _

theorem throw {error : ScriptError} (other : error.isStackLimit = false) :
    Roomy (throw error : ScriptM Value) :=
  fun _ _ => FailsOnly.error other

theorem push {item : Bytes} (small : item.length ≤ maxElementSize) : Roomy (Stack.push item) := by
  intro before room
  unfold Stack.push
  rw [dif_neg (Nat.not_le.mpr room), dif_neg (Nat.not_lt.mpr small)]
  exact FailsOnly.ok _

theorem check {check : Except ScriptError Value} (unlimited : MeetsNoLimit check) :
    Roomy (stateless check) :=
  fun _ _ => unlimited.map _

theorem stateless {check : Except ScriptError Value} {next : Value → ScriptM Next}
    (unlimited : MeetsNoLimit check) (rest : ∀ value, check = .ok value → Roomy (next value)) :
    Roomy (stateless check >>= next) := by
  intro before room
  refine (unlimited.map _).bind ?_
  intro result ran
  obtain ⟨value, passed, rfl⟩ := (except_map_eq_ok_iff _ _ _).mp ran
  exact rest value passed before room

/-- Taking an element off the stack only adds room. -/
theorem pop {next : Bytes → ScriptM Next} (rest : ∀ item, Roomy (next item)) :
    Roomy (Stack.pop >>= next) := by
  intro before room
  apply FailsOnly.bind
  · unfold Stack.pop
    split
    · exact FailsOnly.error rfl
    · exact FailsOnly.ok _
  · rintro ⟨item, after⟩ ran
    rw [(Stack.pop_eq_ok_iff before after item).mp ran, List.length_cons] at room
    exact rest item after (Nat.lt_of_succ_lt room)

/-- The copy is as large as the element on top, which the stack holds already. -/
theorem dup : Roomy Stack.dup := by
  intro before room
  apply FailsOnly.bind
  · unfold Stack.peek
    split
    · exact FailsOnly.error rfl
    · exact FailsOnly.ok _
  · rintro ⟨top, after⟩ ran
    obtain ⟨rfl, rest, shape⟩ := (Stack.peek_eq_ok_iff before after top).mp ran
    exact push (before.sizes top (shape ▸ List.mem_cons_self)) before room

theorem swap : Roomy Stack.swap := by
  intro before _
  unfold Stack.swap
  split
  · exact FailsOnly.ok _
  · exact FailsOnly.error rfl

theorem andThen {program : ScriptM Value} (roomy : Roomy program) (result : Next) :
    Roomy (program >>= fun _ => Pure.pure result) :=
  fun before room => (roomy before room).bind fun _ _ => FailsOnly.ok _

end Roomy

/-- An instruction leaves at most one element more than it takes. -/
theorem given_le_taken_succ (opByte : UInt8) :
    (instructionEffect opByte).2 ≤ (instructionEffect opByte).1 + 1 := by
  unfold instructionEffect
  split
  · exact Nat.le_refl _
  · split
    · exact Nat.zero_le _
    next op _ => cases op <;> simp [OpCode.effect]

namespace ScriptEngine

variable [Crypto] (engine : ScriptEngine)

omit [Crypto] in
theorem pushFlag_roomy (flag : Bool) : Roomy (pushFlag flag) := by
  apply Roomy.push
  cases flag <;> simp [maxElementSize]

theorem length_datumHash (datum : Datum) : (datumHash datum).length = 32 := by
  unfold datumHash
  split
  · exact List.length_replicate
  · exact Hash256.size _

theorem executeOp_roomy (op : OpCode) : Roomy (engine.executeOp op) := by
  have context := requireContext_meetsNoLimit engine
  have sized : ∀ bytes width, bytes.length = width → width ≤ maxElementSize →
      Roomy (Stack.push bytes) := fun bytes width length small => Roomy.push (length ▸ small)
  cases op with
  | opFalse | opTrue => exact Roomy.push (by simp [maxElementSize])
  | opNop => exact Roomy.pure ()
  | opReturn => exact Roomy.throw rfl
  | opVerify => exact Roomy.pop fun _ => Roomy.check (FailsOnly.ensure rfl)
  | opDup => exact Roomy.dup
  | opDrop => exact Roomy.pop fun _ => Roomy.pure ()
  | opSwap => exact Roomy.swap
  | opEqual | opCheckSig => exact Roomy.pop fun _ => Roomy.pop fun _ => pushFlag_roomy _
  | opEqualVerify | opCheckSigVerify =>
      exact Roomy.pop fun _ => Roomy.pop fun _ => Roomy.check (FailsOnly.ensure rfl)
  | opAdd | opSub =>
      exact Roomy.pop fun _ => Roomy.pop fun _ =>
        Roomy.stateless (decodeScriptInt_meetsNoLimit _) fun _ _ =>
        Roomy.stateless (decodeScriptInt_meetsNoLimit _) fun _ _ =>
        Roomy.stateless (encodeScriptInt_meetsNoLimit _) fun _ ran =>
        sized _ 8 (length_of_encodeScriptInt ran) (by decide)
  | opHash256 => exact Roomy.pop fun _ => sized _ 32 (Hash256.size _) (by decide)
  | opTxInputsCount | opCurrentInputIdx | opTxOutputsCount =>
      exact Roomy.stateless context fun _ _ =>
        Roomy.stateless (encodeU32Count_meetsNoLimit _) fun _ ran =>
        sized _ 4 (length_of_encodeU32Count ran) (by decide)
  | opTxOutputValue =>
      exact Roomy.stateless context fun _ _ => Roomy.pop fun _ =>
        Roomy.stateless (outputAt_meetsNoLimit _ _) fun _ _ =>
        sized _ 16 (length_leBytes _ _) (by decide)
  | opTxOutputScript =>
      exact Roomy.stateless context fun _ _ => Roomy.pop fun _ =>
        Roomy.stateless (outputAt_meetsNoLimit _ _) fun _ _ =>
        sized _ 32 (Hash256.size _) (by decide)
  | opTxOutputDatum =>
      exact Roomy.stateless context fun _ _ => Roomy.pop fun _ =>
        Roomy.stateless (outputAt_meetsNoLimit _ _) fun _ _ =>
        sized _ 32 (length_datumHash _) (by decide)
  | opTxLocktime | opValidationHeight =>
      exact Roomy.stateless context fun _ _ => sized _ 8 (length_leBytes _ _) (by decide)

/-- A direct push has at most 75 bytes. -/
theorem executeInstruction_roomy (opByte : UInt8) (cursor : Bytes) :
    Roomy (engine.executeInstruction opByte cursor) := by
  unfold executeInstruction
  split
  next direct =>
      refine Roomy.stateless (FailsOnly.ensure rfl) fun _ _ => Roomy.andThen (Roomy.push ?_) _
      simp only [isDirectPush, Bool.and_eq_true, decide_eq_true_eq, UInt8.le_iff_toNat_le] at direct
      refine (List.length_take_le _ _).trans (direct.2.trans ?_)
      decide
  next =>
      refine Roomy.stateless (decodeOpCode_meetsNoLimit _) fun op _ => ?_
      exact Roomy.andThen (engine.executeOp_roomy op) _

section Run

/-- One machine leads to the other by turns of the bytecode loop. -/
def TurnsTo : Machine → Machine → Prop :=
  Relation.ReflTransGen fun machine next => engine.step machine = .ok (some next)

theorem turnsTo_of_executeBytecode {machine final : Machine}
    (ran : engine.executeBytecode machine = .ok final) : engine.TurnsTo machine final := by
  refine engine.executeBytecode_invariant (motive := engine.TurnsTo machine) ran .refl ?_
  intro state _ next stepped reached
  exact reached.tail stepped

/-- A run that fails does so in a turn of its own. -/
theorem exists_step_error_of_executeBytecode {machine : Machine} {error : ScriptError}
    (failed : engine.executeBytecode machine = .error error) :
    ∃ last, engine.TurnsTo machine last ∧ engine.step last = .error error := by
  induction size : machine.cursor.length using Nat.strongRecOn generalizing machine with
  | _ size inductionHypothesis =>
      rw [executeBytecode] at failed
      split at failed
      next error' stepped =>
          cases failed
          exact ⟨machine, .refl, stepped⟩
      next stepped => cases failed
      next next stepped =>
          have shorter := engine.length_lt_of_step stepped
          obtain ⟨last, turned, stopped⟩ :=
            inductionHypothesis _ (size ▸ shorter) failed rfl
          exact ⟨last, turned.head stepped, stopped⟩

/-- The states of a contract: before the injected elements, after the datum, and
from the start of each script up to any of its instructions. -/
inductive Passes (lockingScript unlockingScript : Bytes) (datum : Datum)
    (redeemer : Option Bytes) : Machine → Prop
  | empty : Passes lockingScript unlockingScript datum redeemer ⟨unlockingScript, 0, Stack.empty⟩
  | datum {stack : Stack} (pushed : datum.bytes.forM Stack.push Stack.empty = .ok ((), stack)) :
      Passes lockingScript unlockingScript datum redeemer ⟨unlockingScript, 0, stack⟩
  | unlocking {start machine : Machine}
      (prepared : prepare unlockingScript datum redeemer = .ok start)
      (turned : engine.TurnsTo start machine) :
      Passes lockingScript unlockingScript datum redeemer machine
  | locking {unlocked machine : Machine}
      (ran : engine.executeUnlocking unlockingScript datum redeemer = .ok unlocked)
      (turned : engine.TurnsTo { unlocked with cursor := lockingScript } machine) :
      Passes lockingScript unlockingScript datum redeemer machine

end Run

end ScriptEngine

/-- Two elements may be there before the first operation. -/
structure Machine.WithinLimits (machine : Machine) : Prop where
  operations : machine.opCount ≤ maxOpsPerScript
  depth : machine.stack.items.length ≤ machine.opCount + 2

theorem Machine.WithinLimits.load {machine : Machine} (within : machine.WithinLimits)
    (script : Bytes) : { machine with cursor := script }.WithinLimits :=
  ⟨within.operations, within.depth⟩

namespace ScriptEngine

variable [Crypto] (engine : ScriptEngine)

theorem step_withinLimits {machine next : Machine}
    (stepped : engine.step machine = .ok (some next)) (within : machine.WithinLimits) :
    next.WithinLimits := by
  obtain ⟨opByte, cursor, -, few, executed, count⟩ :=
    (engine.step_eq_ok_some_iff machine next).mp stepped
  obtain ⟨popped, pushed, rest, before, after, taken, given⟩ :=
    engine.executeInstruction_effect opByte cursor _ _ _ executed
  have growth := given_le_taken_succ opByte
  have depth := within.depth
  rw [before, List.length_append] at depth
  constructor
  · rw [count]
    exact few
  · rw [after, List.length_append, count]
    omega

theorem turnsTo_withinLimits {machine last : Machine} (turned : engine.TurnsTo machine last)
    (within : machine.WithinLimits) : last.WithinLimits := by
  induction turned with
  | refl => exact within
  | tail _ stepped inductionHypothesis => exact engine.step_withinLimits stepped inductionHypothesis

/-- Within its limits the machine has room on the stack for one more element. -/
theorem step_meetsNoLimit {machine : Machine} (within : machine.WithinLimits) :
    MeetsNoLimit (engine.step machine) := by
  have room : machine.stack.items.length < maxStackDepth :=
    within.depth.trans_lt ((Nat.add_le_add_right within.operations 2).trans_lt (by decide))
  unfold step
  split
  · exact FailsOnly.ok _
  · split
    · exact FailsOnly.error rfl
    · exact (engine.executeInstruction_roomy _ _ _ room).map _

theorem executeBytecode_meetsNoLimit {machine : Machine} (within : machine.WithinLimits) :
    MeetsNoLimit (engine.executeBytecode machine) := by
  intro error failed
  obtain ⟨last, turned, stopped⟩ := engine.exists_step_error_of_executeBytecode failed
  exact engine.step_meetsNoLimit (engine.turnsTo_withinLimits turned within) error stopped

section Arguments

omit [Crypto] in
theorem length_arguments_le (datum : Datum) (redeemer : Option Bytes) :
    (arguments datum redeemer).length ≤ 2 := by
  cases redeemer <;> cases datum <;> simp [arguments, Datum.bytes]

omit [Crypto] in
/-- An injected element that does not fit is the only one that fails. -/
theorem forM_push_failsOnly (item : Option Bytes) {before : Stack}
    (room : before.items.length < maxStackDepth) :
    FailsOnly (fun error => ∃ data, item = some data ∧ maxElementSize < data.length ∧
      error = .elementTooLarge data.length maxElementSize)
      ((item.forM Stack.push : ScriptM Unit) before) := by
  cases item with
  | none => exact FailsOnly.ok _
  | some data =>
      change FailsOnly _ (Stack.push data before)
      unfold Stack.push
      rw [dif_neg (Nat.not_le.mpr room)]
      split
      next large => exact FailsOnly.error ⟨data, rfl, large, rfl⟩
      next => exact FailsOnly.ok _

omit [Crypto] in
theorem prepare_failsOnly (unlockingScript : Bytes) (datum : Datum) (redeemer : Option Bytes) :
    FailsOnly (fun error => ∃ data ∈ arguments datum redeemer, maxElementSize < data.length ∧
      error = .elementTooLarge data.length maxElementSize)
      (prepare unlockingScript datum redeemer) := by
  refine FailsOnly.map (FailsOnly.bind ?_ ?_) _
  · intro error failed
    obtain ⟨data, isDatum, large, rfl⟩ := forM_push_failsOnly datum.bytes (by decide) error failed
    exact ⟨data, by simp [arguments, isDatum], large, rfl⟩
  · rintro ⟨result, middle⟩ pushed error failed
    have shallow : middle.items.length ≤ 1 := by
      rw [forM_push_items pushed]
      cases datum.bytes <;> simp [Stack.empty]
    obtain ⟨data, isRedeemer, large, rfl⟩ :=
      forM_push_failsOnly redeemer (shallow.trans_lt (by decide)) error failed
    exact ⟨data, by simp [arguments, isRedeemer], large, rfl⟩

omit [Crypto] in
theorem prepare_withinLimits {unlockingScript : Bytes} {datum : Datum} {redeemer : Option Bytes}
    {start : Machine} (prepared : prepare unlockingScript datum redeemer = .ok start) :
    start.WithinLimits := by
  obtain ⟨stack, pushed, rfl⟩ := (prepare_eq_ok_iff _ _ _ _).mp prepared
  refine ⟨Nat.zero_le _, ?_⟩
  rw [pushArguments_items pushed]
  exact (length_arguments_le datum redeemer).trans (Nat.le_add_left 2 _)

theorem executeUnlocking_withinLimits {unlockingScript : Bytes} {datum : Datum}
    {redeemer : Option Bytes} {unlocked : Machine}
    (ran : engine.executeUnlocking unlockingScript datum redeemer = .ok unlocked) :
    unlocked.WithinLimits := by
  rw [executeUnlocking, except_bind_eq_ok_iff] at ran
  obtain ⟨start, prepared, ran⟩ := ran
  exact engine.turnsTo_withinLimits (engine.turnsTo_of_executeBytecode ran)
    (prepare_withinLimits prepared)

theorem passes_withinLimits {lockingScript unlockingScript : Bytes} {datum : Datum}
    {redeemer : Option Bytes} {machine : Machine}
    (passes : engine.Passes lockingScript unlockingScript datum redeemer machine) :
    machine.WithinLimits := by
  cases passes with
  | empty => exact ⟨Nat.zero_le _, Nat.zero_le _⟩
  | datum pushed =>
      refine ⟨Nat.zero_le _, ?_⟩
      rw [forM_push_items pushed]
      cases datum.bytes <;> simp [Stack.empty]
  | unlocking prepared turned =>
      exact engine.turnsTo_withinLimits turned (prepare_withinLimits prepared)
  | locking ran turned =>
      have within := engine.executeUnlocking_withinLimits ran
      exact engine.turnsTo_withinLimits turned (within.load lockingScript)

/-- A contract meets a limit of the stack only while an injected element that is
too large for it is pushed. -/
theorem executeContract_failsOnly (lockingScript unlockingScript : Bytes) (datum : Datum)
    (redeemer : Option Bytes) :
    FailsOnly (fun error => error.isStackLimit = false ∨
      ∃ data ∈ arguments datum redeemer, maxElementSize < data.length ∧
        error = .elementTooLarge data.length maxElementSize)
      (engine.executeContract lockingScript unlockingScript datum redeemer) := by
  refine FailsOnly.bind (FailsOnly.bind ?_ ?_) ?_
  · intro error failed
    exact Or.inr (prepare_failsOnly unlockingScript datum redeemer error failed)
  · intro start prepared error failed
    exact Or.inl (engine.executeBytecode_meetsNoLimit (prepare_withinLimits prepared) error failed)
  · intro unlocked ran
    have within := (engine.executeUnlocking_withinLimits ran).load lockingScript
    refine FailsOnly.bind ?_ ?_
    · intro error failed
      exact Or.inl (engine.executeBytecode_meetsNoLimit within error failed)
    · intro final _
      split
      · exact FailsOnly.ok _
      · refine FailsOnly.bind ?_ fun _ _ => FailsOnly.ok _
        unfold Stack.pop
        split
        · exact FailsOnly.error (Or.inl rfl)
        · exact FailsOnly.ok _

end Arguments

/-- In every state of a contract at most 201 operations were executed, the stack
has at most two elements more than that, and none of them exceeds 520 bytes.  So
the stack never overflows, and only an injected element can be too large. -/
theorem executeContract_within_limits (lockingScript unlockingScript : Bytes) (datum : Datum)
    (redeemer : Option Bytes) :
    (∀ machine, engine.Passes lockingScript unlockingScript datum redeemer machine →
      machine.opCount ≤ 201 ∧ machine.stack.items.length ≤ machine.opCount + 2 ∧
        ∀ item ∈ machine.stack.items, item.length ≤ 520) ∧
    (∀ limit, engine.executeContract lockingScript unlockingScript datum redeemer ≠
      .error (.stackOverflow limit)) ∧
    ((∀ data, datum = .inline data → data.length ≤ 520) →
      (∀ data, redeemer = some data → data.length ≤ 520) →
      ∀ size max, engine.executeContract lockingScript unlockingScript datum redeemer ≠
        .error (.elementTooLarge size max)) := by
  have fails := engine.executeContract_failsOnly lockingScript unlockingScript datum redeemer
  refine ⟨?_, ?_, ?_⟩
  · intro machine passes
    have within := engine.passes_withinLimits passes
    exact ⟨within.operations, within.depth, machine.stack.sizes⟩
  · intro limit failed
    rcases fails _ failed with other | ⟨data, -, -, other⟩ <;> cases other
  · intro smallDatum smallRedeemer size max failed
    rcases fails _ failed with other | ⟨data, injected, large, -⟩
    · cases other
    · refine absurd large (Nat.not_lt.mpr ?_)
      simp only [arguments, List.mem_append, Option.mem_toList] at injected
      rcases injected with isRedeemer | isDatum
      · exact smallRedeemer data isRedeemer
      · cases datum with
        | none => cases isDatum
        | hash commitment =>
            cases isDatum
            simp [commitment.size, maxElementSize]
        | inline bytes =>
            cases isDatum
            exact smallDatum data rfl

end ScriptEngine

/-- A datum and a redeemer of one byte each are too large for no script. -/
theorem ScriptEngine.executeContract_within_limits_small :
    letI := Crypto.constant Hash256.zero
    ∀ size max, (ScriptEngine.new none).executeContract [0x87] [] (.inline [7]) (some [7]) ≠
      .error (.elementTooLarge size max) := by
  let crypto := Crypto.constant Hash256.zero
  apply ((ScriptEngine.new none).executeContract_within_limits [0x87] [] (.inline [7])
    (some [7])).2.2
  · rintro data ⟨⟩
    decide
  · rintro data ⟨⟩
    decide

end Aurion
