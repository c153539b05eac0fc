import Aurion.Foundation.Metered
import Aurion.Rpc.Template

/-!
# What the decoders reserve

Transactions, blocks and block templates reserve room for as many elements as
a count field claims, before they read the first one.  The metered decoders
are the plain ones with these reservations logged.  A reservation is covered
by the bytes left exactly when its count field claims no more than that.
-/

namespace Aurion

open Foundation

/-- A count field: the bytes up to its end, and the count. -/
abbrev CountPlaces := Bytes → Nat → Prop

namespace Transaction

/-- The decoder with the argument of each `with_capacity` logged. -/
def decodeMetered : Metered CodecError Transaction := do
  let version ← Metered.lift decodeU32
  let inLen ← Metered.lift decodeU32
  let inputs ← (Metered.lift TxInput.decodeFromCursor).collect inLen.toNat
  let outLen ← Metered.lift decodeU32
  let outputs ← (Metered.lift TxOutput.decodeFromCursor).collect outLen.toNat
  let locktime ← Metered.lift decodeU64
  pure { version, inputs, outputs, locktime }

/-- The count of the inputs, and that of the outputs behind the inputs. -/
inductive CountField : CountPlaces
  | inputs (version inLen : UInt32) :
      CountField (u32ToBeBytes version ++ u32ToBeBytes inLen) inLen.toNat
  | outputs (version : UInt32) (inputs : List TxInput) (outLen : UInt32) :
      inputs.length < 2 ^ 32 → (∀ input ∈ inputs, input.WellFormed) →
      CountField (u32ToBeBytes version ++ u32ToBeBytes (UInt32.ofNat inputs.length) ++
        inputs.flatMap TxInput.encodeCanonical ++ u32ToBeBytes outLen) outLen.toNat

theorem result_decodeMetered : decodeMetered.result = decodeFromCursor := by
  simp only [decodeMetered, decodeFromCursor, Metered.result_bind, Metered.result_lift,
    Metered.result_collect, Metered.result_pure]

theorem canonical_decodeMetered :
    Canonical decodeMetered.result encodeCanonical WellFormed :=
  result_decodeMetered ▸ canonical

/-- The metered decoder reserves behind its two count fields. -/
theorem reserves : decodeMetered.Reserves CountField where
  mem_iff := by
    rintro cursor ⟨claimed, remaining⟩
    simp only [decodeMetered, Metered.mem_reservations_bind, Metered.result_lift,
      Metered.result_collect, Metered.reservations_lift, Metered.reservations_pure,
      Metered.mem_reservations_collect_lift, List.not_mem_nil, false_or, or_false, and_false,
      exists_false, decodeU32_canonical.eq_ok_iff, (TxInput.canonical.times _).eq_ok_iff, true_and]
    constructor
    · intro logged
      obtain ⟨version, _, rfl, inLen, rest, rfl, atInputs | atOutputs⟩ := logged
      · cases atInputs
        exact ⟨_, rest, .inputs version inLen, (List.append_assoc _ _ _).symm, rfl⟩
      · obtain ⟨inputs, _, ⟨⟨inCount, inputsValid⟩, rfl⟩, outLen, rest, rfl, ⟨⟩⟩ := atOutputs
        have bound : inputs.length < 2 ^ 32 := inCount ▸ inLen.toNat_lt
        have same : UInt32.ofNat inputs.length = inLen := by rw [inCount, UInt32.ofNat_toNat]
        refine ⟨_, rest, .outputs version inputs outLen bound inputsValid, ?_, rfl⟩
        simp only [same, List.append_assoc]
    · intro placed
      obtain ⟨_, rest, isPlace, rfl, rfl⟩ := placed
      cases isPlace with
      | inputs version inLen =>
          exact ⟨version, _, List.append_assoc _ _ _, inLen, rest, rfl, Or.inl rfl⟩
      | outputs version inputs outLen bound inputsValid =>
          refine ⟨version, _, ?_, UInt32.ofNat inputs.length, _, rfl,
            Or.inr ⟨inputs, _, ⟨⟨(toNat_ofNat_of_lt_u32 bound).symm, inputsValid⟩, rfl⟩, outLen,
              rest, rfl, rfl⟩⟩
          simp only [List.append_assoc]

end Transaction

/-- The count of a list of transactions, and those of the transactions in it. -/
inductive TransactionsField : CountPlaces
  | count (txCount : UInt32) : TransactionsField (u32ToBeBytes txCount) txCount.toNat
  | inside (txCount : UInt32) (before : List Transaction) (front : Bytes) (claimed : Nat) :
      before.length < txCount.toNat → (∀ tx ∈ before, tx.WellFormed) →
      Transaction.CountField front claimed →
      TransactionsField (u32ToBeBytes txCount ++ before.flatMap Transaction.encodeCanonical ++
        front) claimed

/-- A count and as many transactions, whatever is built of them. -/
theorem reserves_transactions {Value : Type} (build : List Transaction → Value) :
    (do let txCount ← Metered.lift decodeU32
        let transactions ← Transaction.decodeMetered.collect txCount.toNat
        pure (build transactions) : Metered CodecError Value).Reserves TransactionsField where
  mem_iff := by
    rintro cursor ⟨claimed, remaining⟩
    simp only [Metered.mem_reservations_bind, Metered.result_lift, Metered.reservations_lift,
      Metered.reservations_pure, List.not_mem_nil, false_or, or_false, and_false, exists_false,
      decodeU32_canonical.eq_ok_iff, true_and,
      (Transaction.reserves.collect Transaction.canonical_decodeMetered _).mem_iff]
    constructor
    · intro logged
      obtain ⟨txCount, _, rfl, _, rest, atFront | inside, rfl, rfl⟩ := logged
      · obtain ⟨rfl, rfl⟩ := atFront
        exact ⟨_, rest, .count txCount, rfl, rfl⟩
      · obtain ⟨before, front, few, valid, rfl, isPlace⟩ := inside
        exact ⟨_, rest, .inside txCount before front _ few valid isPlace, by simp, rfl⟩
    · intro placed
      obtain ⟨_, rest, isPlace, rfl, rfl⟩ := placed
      cases isPlace with
      | count txCount =>
          exact ⟨txCount, rest, rfl, [], rest, Or.inl ⟨rfl, rfl⟩, rfl, rfl⟩
      | inside txCount before front _ few valid isPlace =>
          refine ⟨txCount, before.flatMap Transaction.encodeCanonical ++ front ++ rest, by simp,
            before.flatMap Transaction.encodeCanonical ++ front, rest,
            Or.inr ⟨before, front, few, valid, rfl, isPlace⟩, rfl, rfl⟩

namespace Block

def decodeMetered : Metered CodecError Block := do
  let header ← Metered.lift BlockHeader.decodeFromCursor
  let txCount ← Metered.lift decodeU32
  let transactions ← Transaction.decodeMetered.collect txCount.toNat
  pure { header, transactions }

/-- The counts behind the header. -/
def CountField : CountPlaces := fun ahead claimed =>
  ∃ (header : BlockHeader) (front : Bytes), ahead = header.encodeCanonical ++ front ∧
    TransactionsField front claimed

theorem result_decodeMetered : decodeMetered.result = decodeFromCursor := by
  simp only [decodeMetered, decodeFromCursor, Metered.result_bind, Metered.result_lift,
    Metered.result_collect, Metered.result_pure, Transaction.result_decodeMetered]

theorem reserves : decodeMetered.Reserves CountField := by
  have behind := Metered.Reserves.behind BlockHeader.canonical fun header =>
    reserves_transactions (Block.mk header)
  simp only [true_and] at behind
  exact behind

end Block

namespace BlockTemplate

def decodeMetered : Metered CodecError BlockTemplate := do
  let height ← Metered.lift decodeU64
  let previousBlockHash ← Metered.lift Hash256.decodeFromCursor
  let target ← Metered.lift Hash256.decodeFromCursor
  let timestamp ← Metered.lift decodeU64
  let coinbaseSubsidy ← Metered.lift Quantum.decodeFromCursor
  let totalFee ← Metered.lift Quantum.decodeFromCursor
  let txCount ← Metered.lift decodeU32
  let transactions ← Transaction.decodeMetered.collect txCount.toNat
  pure { height, previousBlockHash, target, timestamp, coinbaseSubsidy, totalFee, transactions }

/-- What a template writes in front of the count of its transactions. -/
def encodeFront (tmpl : BlockTemplate) : Bytes :=
  u64ToBeBytes tmpl.height ++ tmpl.previousBlockHash.asBytes ++ tmpl.target.asBytes ++
    u64ToBeBytes tmpl.timestamp ++ tmpl.coinbaseSubsidy.encodeCanonical ++
    tmpl.totalFee.encodeCanonical

/-- The counts behind the fixed fields. -/
def CountField : CountPlaces := fun ahead claimed =>
  ∃ (tmpl : BlockTemplate) (front : Bytes), ahead = tmpl.encodeFront ++ front ∧
    TransactionsField front claimed

theorem result_decodeMetered : decodeMetered.result = decodeFromCursor := by
  simp only [decodeMetered, decodeFromCursor, Metered.result_bind, Metered.result_lift,
    Metered.result_collect, Metered.result_pure, Transaction.result_decodeMetered]

theorem reserves : decodeMetered.Reserves CountField := by
  have behind := Metered.Reserves.behind decodeU64_canonical fun height =>
    .behind Hash256.canonical fun previousBlockHash =>
    .behind Hash256.canonical fun target =>
    .behind decodeU64_canonical fun timestamp =>
    .behind Quantum.canonical fun coinbaseSubsidy =>
    .behind Quantum.canonical fun totalFee =>
      reserves_transactions (BlockTemplate.mk height previousBlockHash target timestamp
        coinbaseSubsidy totalFee)
  refine Metered.Reserves.congr behind ?_
  intro ahead claimed
  constructor
  · intro field
    obtain ⟨height, _, -, rfl, previousBlockHash, _, -, rfl, target, _, -, rfl, timestamp, _, -,
      rfl, coinbaseSubsidy, _, -, rfl, totalFee, front, -, rfl, inside⟩ := field
    exact ⟨⟨height, previousBlockHash, target, timestamp, coinbaseSubsidy, totalFee, []⟩, front,
      by simp [encodeFront, Hash256.encodeCanonical], inside⟩
  · intro field
    obtain ⟨tmpl, front, rfl, inside⟩ := field
    refine ⟨tmpl.height, _, trivial, ?_, tmpl.previousBlockHash, _, trivial, rfl, tmpl.target, _,
      trivial, rfl, tmpl.timestamp, _, trivial, rfl, tmpl.coinbaseSubsidy, _, trivial, rfl,
      tmpl.totalFee, front, trivial, rfl, inside⟩
    simp [encodeFront, Hash256.encodeCanonical]

end BlockTemplate

section Sparing

open Metered

theorem TxInput.encodeCanonical_ne_nil (input : TxInput) : input.encodeCanonical ≠ [] := by
  simp [TxInput.encodeCanonical, ← List.length_pos_iff]

theorem TxOutput.encodeCanonical_ne_nil (output : TxOutput) : output.encodeCanonical ≠ [] := by
  simp [TxOutput.encodeCanonical, ← List.length_pos_iff, Quantum.length_encodeCanonical]

theorem Transaction.encodeCanonical_ne_nil (tx : Transaction) : tx.encodeCanonical ≠ [] := by
  simp [Transaction.encodeCanonical, ← List.length_pos_iff]

theorem Transaction.sparing : Transaction.decodeMetered.Sparing := by
  refine .bind (.lift _) fun version => .bind (.lift _) fun inLen => ?_
  refine .bind (.collect_lift TxInput.canonical TxInput.encodeCanonical_ne_nil _) fun inputs => ?_
  refine .bind (.lift _) fun outLen => ?_
  refine .bind (.collect_lift TxOutput.canonical TxOutput.encodeCanonical_ne_nil _)
    fun outputs => ?_
  exact .bind (.lift _) fun locktime => .pure _

theorem sparing_transactions {Value : Type} (build : List Transaction → Value) :
    (do let txCount ← lift decodeU32
        let transactions ← Transaction.decodeMetered.collect txCount.toNat
        pure (build transactions) : Metered CodecError Value).Sparing := by
  refine .bind (.lift _) fun txCount => ?_
  refine .bind (.collect Transaction.canonical_decodeMetered Transaction.encodeCanonical_ne_nil
    Transaction.sparing _) fun transactions => .pure _

theorem Block.sparing : Block.decodeMetered.Sparing :=
  .bind (.lift _) fun header => sparing_transactions (Block.mk header)

theorem BlockTemplate.sparing : BlockTemplate.decodeMetered.Sparing := by
  refine .bind (.lift _) fun height => .bind (.lift _) fun previousBlockHash => ?_
  refine .bind (.lift _) fun target => .bind (.lift _) fun timestamp => ?_
  refine .bind (.lift _) fun coinbaseSubsidy => .bind (.lift _) fun totalFee => ?_
  exact sparing_transactions (BlockTemplate.mk height previousBlockHash target timestamp
    coinbaseSubsidy totalFee)

/-- What a decoder accepts claims nowhere more elements than there are bytes left. -/
theorem covers_of_decoded (bytes rest : Bytes) :
    (∀ tx, Transaction.decodeFromCursor bytes = .ok (tx, rest) →
      Covers Transaction.CountField bytes) ∧
    (∀ block, Block.decodeFromCursor bytes = .ok (block, rest) →
      Covers Block.CountField bytes) ∧
    ∀ tmpl, BlockTemplate.decodeFromCursor bytes = .ok (tmpl, rest) →
      Covers BlockTemplate.CountField bytes := by
  rw [← Transaction.result_decodeMetered, ← Block.result_decodeMetered,
    ← BlockTemplate.result_decodeMetered]
  exact ⟨fun _ => Transaction.sparing.covers_of_accepted Transaction.reserves,
    fun _ => Block.sparing.covers_of_accepted Block.reserves,
    fun _ => BlockTemplate.sparing.covers_of_accepted BlockTemplate.reserves⟩

end Sparing

/-- Each decoder covers all that it reserves exactly when no count field of the
bytes claims more elements than there are bytes behind it. -/
theorem reservations_covered (bytes : Bytes) :
    ((∀ reservation ∈ Transaction.decodeMetered.reservations bytes, reservation.Covered) ↔
      Metered.Covers Transaction.CountField bytes) ∧
    ((∀ reservation ∈ Block.decodeMetered.reservations bytes, reservation.Covered) ↔
      Metered.Covers Block.CountField bytes) ∧
    ((∀ reservation ∈ BlockTemplate.decodeMetered.reservations bytes, reservation.Covered) ↔
      Metered.Covers BlockTemplate.CountField bytes) :=
  ⟨Transaction.reserves.covered_iff bytes, Block.reserves.covered_iff bytes,
    BlockTemplate.reserves.covered_iff bytes⟩

/-- Each decoder reserves for a count of `2 ^ 32 - 1` with nothing behind it. -/
theorem reservations_not_covered :
    let claim : Bytes := [0xff, 0xff, 0xff, 0xff]
    let reservation : Reservation := { count := 2 ^ 32 - 1, remaining := 0 }
    Transaction.decodeMetered.reservations ([0, 0, 0, 1] ++ claim) = [reservation] ∧
      Block.decodeMetered.reservations (List.replicate 96 0 ++ claim) = [reservation] ∧
      BlockTemplate.decodeMetered.reservations (List.replicate 112 0 ++ claim) = [reservation] ∧
      ¬ reservation.Covered := by
  decide +kernel

end Aurion
