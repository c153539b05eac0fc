import Aurion.Script.Spending

/-!
# Locks that ask for signatures

A locking script may demand a signature of each of some keys before it goes on with
the rest.  Such a script is opened exactly by what opens the rest, under one valid
signature for each key in the order of the keys.
-/

namespace Aurion

open Foundation

/-- Demand a signature of each key, then go on with the rest. -/
def demandSignatures (keys : List PushData) (rest : List Instruction) : List Instruction :=
  keys.flatMap (fun key => [.push key, .op .opCheckSigVerify]) ++ rest

theorem length_demandSignatures (keys : List PushData) (rest : List Instruction) :
    (demandSignatures keys rest).length = 2 * keys.length + rest.length := by
  rw [demandSignatures, List.length_append, List.length_flatMap]
  simp [Nat.mul_comm]

namespace ScriptEngine

variable [Crypto] (engine : ScriptEngine)

/-- The element is a valid signature of the key for the engine's hash. -/
def Signs (key : PushData) (sig : Bytes) : Prop :=
  verifyEd25519 key.data sig engine.sighash.asBytes = true

/-- Each demand takes one signature off the stack. -/
theorem meaning_demandSignature_iff (key : PushData) (rest : List Instruction)
    (stack result : List Bytes) :
    engine.meaning (.push key :: .op .opCheckSigVerify :: rest) stack = some result ↔
      ∃ sig below, stack = sig :: below ∧ engine.Signs key sig ∧
        engine.meaning rest below = some result := by
  simp only [meaning, List.map_cons, runStack_cons, operationOf, operation, single,
    StackOperation.nullary_some, Option.bind_some, List.singleton_append]
  cases stack with
  | nil => simp
  | cons sig below =>
      simp only [StackOperation.binary_cons, required, List.cons.injEq, Signs]
      by_cases valid : verifyEd25519 key.data sig engine.sighash.asBytes = true
      · simp [valid]
      · simp only [valid, if_neg, not_false_eq_true, StackOperation.nullary_none,
          Option.bind_none, reduceCtorEq, false_iff]
        rintro ⟨_, _, ⟨rfl, rfl⟩, signed, -⟩
        exact valid signed

theorem meaning_demandSignatures_iff (keys : List PushData) (rest : List Instruction)
    (stack result : List Bytes) :
    engine.meaning (demandSignatures keys rest) stack = some result ↔
      ∃ sigs below, stack = sigs ++ below ∧ List.Forall₂ engine.Signs keys sigs ∧
        engine.meaning rest below = some result := by
  induction keys generalizing stack with
  | nil =>
      constructor
      · intro meant
        exact ⟨[], stack, rfl, .nil, meant⟩
      · rintro ⟨_, below, rfl, ⟨⟩, meant⟩
        exact meant
  | cons key keys inductionHypothesis =>
      change engine.meaning (.push key :: .op .opCheckSigVerify :: demandSignatures keys rest)
        stack = _ ↔ _
      rw [meaning_demandSignature_iff]
      constructor
      · rintro ⟨sig, below, rfl, signed, meant⟩
        obtain ⟨sigs, below, rfl, allSigned, meant⟩ := (inductionHypothesis below).mp meant
        exact ⟨sig :: sigs, below, rfl, .cons signed allSigned, meant⟩
      · rintro ⟨_, below, rfl, _ | ⟨signed, allSigned⟩, meant⟩
        exact ⟨_, _, rfl, signed,
          (inductionHypothesis _).mpr ⟨_, below, rfl, allSigned, meant⟩⟩

/-- A contract that demands signatures is accepted exactly when the unlocking script
leaves one valid signature for each key, in the order of the keys, on top of a stack
that the rest of the locking script accepts. -/
theorem executeContract_demandSignatures (keys : List PushData) (rest : List Instruction)
    (unlockingScript : Bytes) (datum : Datum) (redeemer : Option Bytes) :
    engine.executeContract (scriptCode.assemble (demandSignatures keys rest)) unlockingScript
        datum redeemer = .ok true ↔
      ∃ unlocking, unlockingScript = scriptCode.assemble unlocking ∧
        unlocking.length + (2 * keys.length + rest.length) ≤ maxOpsPerScript ∧
        (∀ item ∈ arguments datum redeemer, item.length ≤ maxElementSize) ∧
        ∃ sigs below,
          engine.meaning unlocking (arguments datum redeemer) = some (sigs ++ below) ∧
            List.Forall₂ engine.Signs keys sigs ∧
            ∃ top, engine.meaning rest below = some [top] ∧ isTruthy top = true := by
  rw [executeContract_iff_executeScripts]
  simp only [executeScripts_iff_meaning]
  constructor
  · rintro ⟨top, ⟨unlocking, locking, rfl, same, few, sizes, meant⟩, truthy⟩
    rw [← scriptCode.assemble_injective same, meaning_append, Option.bind_eq_some_iff] at meant
    rw [← scriptCode.assemble_injective same, length_demandSignatures] at few
    obtain ⟨stack, unlocked, meant⟩ := meant
    obtain ⟨sigs, below, rfl, signed, meant⟩ :=
      (engine.meaning_demandSignatures_iff keys rest stack _).mp meant
    exact ⟨unlocking, rfl, few, sizes, sigs, below, unlocked, signed, top, meant, truthy⟩
  · rintro ⟨unlocking, rfl, few, sizes, sigs, below, unlocked, signed, top, meant, truthy⟩
    refine ⟨top, ⟨unlocking, _, rfl, rfl, ?_, sizes, ?_⟩, truthy⟩
    · rw [length_demandSignatures]
      exact few
    · rw [meaning_append, unlocked]
      exact (engine.meaning_demandSignatures_iff keys rest _ _).mpr
        ⟨sigs, below, rfl, signed, meant⟩

/-- The signatures are what the unlocking script has left on top of the stack. -/
theorem signatures_of_executeContract {keys : List PushData} {rest : List Instruction}
    {unlockingScript : Bytes} {datum : Datum} {redeemer : Option Bytes}
    (accepted : engine.executeContract (scriptCode.assemble (demandSignatures keys rest))
      unlockingScript datum redeemer = .ok true) :
    ∃ unlocked sigs below, engine.executeUnlocking unlockingScript datum redeemer = .ok unlocked ∧
      unlocked.stack.items = sigs ++ below ∧ List.Forall₂ engine.Signs keys sigs := by
  obtain ⟨unlocked, program, top, unlocking, same, -, meant⟩ :=
    engine.locking_of_executeContract accepted
  rw [← scriptCode.assemble_injective same, meaning_demandSignatures_iff] at meant
  obtain ⟨sigs, below, stack, signed, -⟩ := meant
  exact ⟨unlocked, sigs, below, unlocking, stack, signed⟩

end ScriptEngine

end Aurion
