import Aurion.Node.Invariants
import Aurion.Script.Execution

/-!
# Spending a pay-to-public-key output
-/

namespace Aurion

open Foundation

/-- Push the key, then `OP_CHECKSIG`. -/
def payToPublicKey (pubkey : Bytes) : Bytes := 0x20 :: (pubkey ++ [0xac])

section Authorization

variable [Crypto]

theorem length_of_verifyEd25519 {pubkey sig message : Bytes}
    (valid : verifyEd25519 pubkey sig message = true) : sig.length = 64 := by
  unfold verifyEd25519 at valid
  split at valid
  · cases valid
  · omega

/-- The locking script leaves one true element only if the element on top of
the stack before it was a signature. -/
theorem ScriptEngine.signature_of_payToPublicKey (engine : ScriptEngine) {pubkey : Bytes}
    (length : pubkey.length = 32) (unlocked final : Machine)
    (ran : engine.executeBytecode { unlocked with cursor := payToPublicKey pubkey } = .ok final)
    (top : Bytes) (single : final.stack.items = [top]) (truthy : isTruthy top = true) :
    ∃ sig, unlocked.stack.items = [sig] ∧
      verifyEd25519 pubkey sig engine.sighash.asBytes = true := by
  have isCheckSig : OpCode.fromU8 0xac = some .opCheckSig := by decide
  rw [payToPublicKey, executeBytecode_cons_eq_ok_iff] at ran
  rcases ran with ⟨-, cursor, pushed, executed, ran⟩
  rw [engine.executeInstruction_push_iff (by decide) (by simpa using length)] at executed
  rcases executed with ⟨rfl, pushedItems⟩
  rw [executeBytecode_cons_eq_ok_iff] at ran
  rcases ran with ⟨-, cursor, checked, executed, ran⟩
  rw [engine.executeInstruction_op_iff (by decide) isCheckSig] at executed
  rcases executed with ⟨rfl, executed⟩
  rw [executeBytecode_nil_eq_ok_iff] at ran
  subst ran
  -- The check takes the key just pushed and the element below it.
  simp only [executeOp, pushFlag, stateT_bind_eq_ok_iff, Stack.pop_eq_ok_iff,
    Stack.push_eq_ok_iff] at executed
  rcases executed with ⟨key, keyless, keyTop, sig, rest, sigTop, flag⟩
  rw [pushedItems] at keyTop
  obtain ⟨rfl, below⟩ := List.cons.inj keyTop
  rw [flag] at single
  obtain ⟨flagTop, empty⟩ := List.cons.inj single
  refine ⟨sig, by rw [below, sigTop, empty], ?_⟩
  by_contra invalid
  rw [if_neg invalid] at flagTop
  rw [← flagTop] at truthy
  cases truthy

/-- Whoever spends a pay-to-public-key output in an accepted block has put a
valid signature of that input on top of the stack. -/
theorem signature_of_accepted_spend (block : Block) (lookup : OutPoint → Option TxOutput)
    (spentInputs : List OutPoint) (accepted : verifyBlockInvariants block lookup = .ok spentInputs)
    (tx : Transaction) (inBlock : tx ∈ block.transactions) (spends : tx.isCoinbase = false)
    (index : Nat) (input : TxInput) (output : TxOutput) (pubkey : Bytes)
    (isInput : tx.inputs[index]? = some input)
    (found : lookup input.previousOutput = some output) (length : pubkey.length = 32)
    (locked : output.lockingScript = payToPublicKey pubkey) :
    let engine := inputEngine block.header.height tx (Quantum.fromRaw (tx.fee lookup))
      ⟨index, input, output⟩
    ∃ unlocked sig, engine.executeUnlocking input.unlockingScript output.datum input.redeemer =
        .ok unlocked ∧
      unlocked.stack.items.head? = some sig ∧ sig.length = 64 ∧
      verifyEd25519 pubkey sig (tx.sighash index).asBytes = true := by
  intro engine
  have valid := ((verifyBlockInvariants_eq_ok_iff lookup block spentInputs).mp accepted).1 tx
    (List.mem_filter.mpr ⟨inBlock, by simp [spends]⟩)
  have ran := valid.authorised index input output isInput found
  have inRange : index < tx.inputs.length := (List.getElem?_eq_some_iff.mp isInput).1
  have sighash : engine.sighash = tx.sighash index := by
    simp [engine, inputEngine, ScriptEngine.new, inRange]
  rw [runInput, ScriptEngine.executeContract_eq_ok_true_iff] at ran
  obtain ⟨final, top, ran, single, truthy⟩ := ran
  rw [ScriptEngine.executeScripts, except_bind_eq_ok_iff] at ran
  obtain ⟨unlocked, unlocking, locking⟩ := ran
  rw [locked] at locking
  obtain ⟨sig, items, verified⟩ := ScriptEngine.signature_of_payToPublicKey engine length
    unlocked final locking top single truthy
  exact ⟨unlocked, sig, unlocking, by rw [items]; rfl, length_of_verifyEd25519 verified,
    by rw [← sighash]; exact verified⟩

end Authorization

section Sample

/-! One signed spend: its hash and its Ed25519 signature. -/

def Sample.pubkey : Bytes :=
  beBytes 32 0xd75a980182b10ab7d54bfed3c964073a0ee172f3daa62325af021a68f707511a

def Sample.signature : Bytes :=
  beBytes 64
    (0x7e64973bb943fec29dc677967215977aa50f001bdde135c21eeaa1c4812997e0 * 2 ^ 256 +
      0x4eb6e755fca0a910e1e853e3ef0df35afa8e2b43289363fcdddf534e49b7ee00)

def Sample.signedInput : TxInput where
  previousOutput := { txid := Hash256.ofNat 7, vout := 0 }
  unlockingScript := 0x40 :: Sample.signature
  sequence := 0xFFFFFFFF
  redeemer := none

def Sample.signedSpend : Transaction :=
  { version := 1, inputs := [Sample.signedInput], outputs := [], locktime := 0 }

def Sample.signedBlock : Block where
  header := { version := 1, prevBlockHash := Hash256.zero, merkleRoot := Hash256.zero
              timestamp := 0, bits := maxTargetBits, nonce := 0, height := 1 }
  transactions := [Sample.signedSpend]

def Sample.lockedOutput : TxOutput :=
  { value := Quantum.zero, lockingScript := payToPublicKey Sample.pubkey, datum := .none }

abbrev Sample.signing : Crypto :=
  let sighash := Hash256.ofNat 0x3d65b8baabde5516359eaff3c1300960c6c6cd2179407670e62a862d2e75f18f
  Crypto.ofTables [(Sample.signedSpend.sighashPreimage 0, sighash)]
    [(Sample.pubkey, sighash.asBytes, Sample.signature)]

attribute [local instance] Sample.signing

/-- The block with the signed spend is accepted, and the signature is found. -/
theorem signature_of_signedSpend :
    verifyBlockInvariants Sample.signedBlock (fun _ => some Sample.lockedOutput) =
        .ok [Sample.signedInput.previousOutput] ∧
      ∃ sig, sig.length = 64 ∧
        verifyEd25519 Sample.pubkey sig (Sample.signedSpend.sighash 0).asBytes = true := by
  have accepted : verifyBlockInvariants Sample.signedBlock
      (fun _ => some Sample.lockedOutput) = .ok [Sample.signedInput.previousOutput] := by
    decide +kernel
  obtain ⟨_, sig, -, -, length, verified⟩ := signature_of_accepted_spend Sample.signedBlock
    (fun _ => some Sample.lockedOutput) _ accepted Sample.signedSpend (by decide +kernel)
    (by decide +kernel) 0 Sample.signedInput Sample.lockedOutput Sample.pubkey rfl rfl
    (by decide +kernel) rfl
  exact ⟨accepted, sig, length, verified⟩

end Sample

end Aurion
