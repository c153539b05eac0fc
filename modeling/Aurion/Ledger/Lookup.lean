import Aurion.Ledger.UtxoSet

/-!
# Lookups as the ledger grows

The committed blocks need not form a chain here, only be well formed and name
their transactions without ambiguity.  An output stays until a block spends it,
and one that no later block creates was there before.
-/

namespace Aurion

open Foundation

variable [Crypto]

/-- The blocks are well formed and no two of their transactions share an id. -/
structure WellNamed (committed : List Block) : Prop where
  wellFormed : ∀ block ∈ committed, block.WellFormed
  distinct : DistinctIds (committed.flatMap Block.transactions)

theorem WellNamed.mono {few many : List Block} (named : WellNamed many)
    (subset : few ⊆ many) : WellNamed few where
  wellFormed block membership := named.wellFormed block (subset membership)
  distinct := by
    apply named.distinct.mono
    intro tx membership
    obtain ⟨block, inFew, inBlock⟩ := List.mem_flatMap.mp membership
    exact List.mem_flatMap.mpr ⟨block, subset inFew, inBlock⟩

theorem WellNamed.left {before later : List Block} (named : WellNamed (before ++ later)) :
    WellNamed before :=
  named.mono (List.subset_append_left _ _)

/-- An outpoint names one output in all blocks. -/
theorem WellNamed.creates_unique {committed : List Block} (named : WellNamed committed)
    {left right : Block} (leftIn : left ∈ committed) (rightIn : right ∈ committed) {op : OutPoint}
    {leftOutput rightOutput : TxOutput} (createsLeft : left.Creates op leftOutput)
    (createsRight : right.Creates op rightOutput) : leftOutput = rightOutput := by
  obtain ⟨leftTx, inLeft, leftTxid, leftAt⟩ := createsLeft
  obtain ⟨rightTx, inRight, rightTxid, rightAt⟩ := createsRight
  obtain rfl := named.distinct leftTx (List.mem_flatMap.mpr ⟨left, leftIn, inLeft⟩) rightTx
    (List.mem_flatMap.mpr ⟨right, rightIn, inRight⟩) (leftTxid.symm.trans rightTxid)
  exact Option.some.inj (leftAt.symm.trans rightAt)

omit [Crypto] in
theorem StorageEngine.lookup_eq_some_iff (storage : StorageEngine) (op : OutPoint)
    (output : TxOutput) :
    storage.lookup op = some output ↔ storage.getUtxo op = .ok (some output) := by
  unfold StorageEngine.lookup
  cases storage.getUtxo op <;> simp

/-- The answer after one more block. -/
theorem lookup_ledger_concat {committed : List Block} {block : Block}
    (named : WellNamed (committed ++ [block])) (op : OutPoint) (output : TxOutput) :
    (ledger (committed ++ [block])).lookup op = some output ↔
      block.Creates op output ∨
        (∀ other, ¬ block.Creates op other) ∧ op ∉ block.spentOutPoints ∧
          (ledger committed).lookup op = some output := by
  have inAll : block ∈ committed ++ [block] := by simp
  have wellFormed := named.wellFormed block inAll
  have agree : ∀ left right, (op.encodeCanonical, left) ∈ block.round.created →
      (op.encodeCanonical, right) ∈ block.round.created → left = right := by
    intro left right leftCreated rightCreated
    obtain ⟨leftOutput, createsLeft, rfl⟩ := (mem_created_iff wellFormed op left).mp leftCreated
    obtain ⟨rightOutput, createsRight, rfl⟩ :=
      (mem_created_iff wellFormed op right).mp rightCreated
    rw [named.creates_unique inAll inAll createsLeft createsRight]
  have absent : (∀ record, (op.encodeCanonical, record) ∉ block.round.created) ↔
      ∀ other, ¬ block.Creates op other := by
    constructor
    · intro none other creates
      exact none _ ((mem_created_iff wellFormed op _).mpr ⟨other, creates, rfl⟩)
    · intro none record created
      obtain ⟨other, creates, -⟩ := (mem_created_iff wellFormed op record).mp created
      exact none other creates
  have records : (ledger (committed ++ [block])).utxos =
      (ledger committed).utxos.applyRound block.round := by
    rw [ledger_append_singleton]
    rfl
  rw [StorageEngine.lookup_eq_some_iff, StorageEngine.lookup_eq_some_iff,
    StorageEngine.getUtxo_eq_some_iff, StorageEngine.getUtxo_eq_some_iff, records,
    Table.lookup_applyRound_eq_some_iff _ _ _ _ agree, absent, Block.mem_spent_iff]
  constructor
  · intro found
    obtain ⟨outputWellFormed, created | ⟨notCreated, unspent, older⟩⟩ := found
    · exact Or.inl ((mem_created_encode_iff wellFormed op outputWellFormed).mp created)
    · exact Or.inr ⟨notCreated, unspent, outputWellFormed, older⟩
  · intro found
    rcases found with creates | ⟨notCreated, unspent, outputWellFormed, older⟩
    · have outputWellFormed := creates.wellFormed wellFormed
      exact ⟨outputWellFormed,
        Or.inl ((mem_created_encode_iff wellFormed op outputWellFormed).mpr creates)⟩
    · exact ⟨outputWellFormed, Or.inr ⟨notCreated, unspent, older⟩⟩

/-- An output in the table was created by a committed block. -/
theorem exists_creates_of_lookup {committed : List Block} (named : WellNamed committed)
    {op : OutPoint} {output : TxOutput} (found : (ledger committed).lookup op = some output) :
    ∃ block ∈ committed, block.Creates op output := by
  induction committed using List.reverseRecOn with
  | nil =>
      rw [StorageEngine.lookup_eq_some_iff, StorageEngine.getUtxo_eq_some_iff] at found
      simp [ledger, StorageEngine.empty] at found
  | append_singleton committed block inductionHypothesis =>
      rcases (lookup_ledger_concat named op output).mp found with creates | ⟨-, -, older⟩
      · exact ⟨block, by simp, creates⟩
      · obtain ⟨creator, inCommitted, creates⟩ := inductionHypothesis named.left older
        exact ⟨creator, List.mem_append_left _ inCommitted, creates⟩

/-- An output stays in the table until a block spends it. -/
theorem lookup_of_unspent {before later : List Block} (named : WellNamed (before ++ later))
    {op : OutPoint} {output : TxOutput} (found : (ledger before).lookup op = some output)
    (unspent : ∀ block ∈ later, op ∉ block.spentOutPoints) :
    (ledger (before ++ later)).lookup op = some output := by
  induction later using List.reverseRecOn with
  | nil => rwa [List.append_nil]
  | append_singleton later block inductionHypothesis =>
      rw [List.forall_mem_append, List.forall_mem_singleton] at unspent
      rw [← List.append_assoc] at named ⊢
      have kept := inductionHypothesis named.left unspent.1
      rw [lookup_ledger_concat named]
      by_cases creates : ∃ other, block.Creates op other
      · obtain ⟨other, creates⟩ := creates
        obtain ⟨creator, inBefore, created⟩ := exists_creates_of_lookup named.left kept
        obtain rfl := named.creates_unique (List.mem_append_left _ inBefore) (by simp) created
          creates
        exact Or.inl creates
      · exact Or.inr ⟨not_exists.mp creates, unspent.2, kept⟩

/-- An output in the table that no later block creates was there before. -/
theorem lookup_of_not_created {before later : List Block} (named : WellNamed (before ++ later))
    {op : OutPoint} {output : TxOutput}
    (found : (ledger (before ++ later)).lookup op = some output)
    (notCreated : ∀ block ∈ later, ∀ other, ¬ block.Creates op other) :
    (ledger before).lookup op = some output := by
  induction later using List.reverseRecOn with
  | nil => rwa [List.append_nil] at found
  | append_singleton later block inductionHypothesis =>
      rw [List.forall_mem_append, List.forall_mem_singleton] at notCreated
      rw [← List.append_assoc] at named found
      rcases (lookup_ledger_concat named op output).mp found with creates | ⟨-, -, older⟩
      · exact absurd creates (notCreated.2 output)
      · exact inductionHypothesis named.left older notCreated.1

end Aurion
