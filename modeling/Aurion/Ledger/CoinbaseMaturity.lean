import Aurion.Eutxo.Maturity
import Aurion.Ledger.DoubleSpend

/-!
# Coinbase maturity over runs

The pipeline builds the context of a spend with creation height zero and no
coinbase mark, so it never applies `verifyCoinbaseMaturity`.  A run keeps the
maturity rule exactly when each of its blocks would have passed that check on the
records of the ledger with the true heights, and no coinbase recreates a spent
output.
-/

namespace Aurion

open Foundation

section Maturity

variable [Crypto]

/-- The outputs of the coinbase of a block. -/
def Block.minted (block : Block) : List (OutPoint × TxOutput) :=
  (block.transactions.filter Transaction.isCoinbase).flatMap Transaction.created

def Block.mints (block : Block) (op : OutPoint) : Bool :=
  block.minted.any fun entry => entry.1 == op

theorem Block.mints_iff (block : Block) (op : OutPoint) :
    block.mints op = true ↔ ∃ entry ∈ block.minted, entry.1 = op := by
  simp [Block.mints]

/-- Whatever a block spends of a committed coinbase lies 100 blocks back. -/
def MatureSpends (committed : List Block) : Prop :=
  ∀ (spentAt mintedAt : Nat) (block earlier : Block), committed[spentAt]? = some block →
    committed[mintedAt]? = some earlier → ∀ entry ∈ earlier.minted,
      entry.1 ∈ block.spentOutPoints → mintedAt + 100 ≤ spentAt

/-- The height of the last block whose coinbase creates the outpoint. -/
def mintHeight (committed : List Block) (op : OutPoint) : Option UInt64 :=
  (committed.reverse.find? fun block => block.mints op).map fun block => block.header.height

/-- The output that the ledger holds under an outpoint, in the context that the
pipeline leaves out: marked as a coinbase's, with its height, if a coinbase
creates it. -/
def mintedUtxo (committed : List Block) (op : OutPoint) : Option ExtendedUtxo :=
  ((ledger committed).lookup op).map fun output =>
    match mintHeight committed op with
    | some height => .fromOutput output height true
    | none => .fromOutput output 0 false

/-- On top of the ledger every output that the block spends passes the maturity
check, and the block's own coinbase inserts no record under a key that a round of
the table has removed. -/
structure MatureStep (committed : List Block) (block : Block) : Prop where
  mature : ∀ op ∈ block.spentOutPoints, ∀ utxo, mintedUtxo committed op = some utxo →
    verifyCoinbaseMaturity op utxo block.header.height = .ok ()
  fresh : ∀ entry ∈ block.minted, entry.1.encodeCanonical ∉ spentKeys (committed ++ [block])

/-- The check of a record of the ledger says that each coinbase which creates the
outpoint is old enough. -/
theorem Chain.passes_maturity_iff {committed : List Block} (chain : Chain committed)
    {op : OutPoint} (held : ((ledger committed).lookup op).isSome) (currentHeight : UInt64) :
    (∀ utxo, mintedUtxo committed op = some utxo →
        verifyCoinbaseMaturity op utxo currentHeight = .ok ()) ↔
      ∀ (mintedAt : Nat) (earlier : Block), committed[mintedAt]? = some earlier →
        earlier.mints op = true → mintedAt + 100 ≤ currentHeight.toNat := by
  obtain ⟨output, found⟩ := Option.isSome_iff_exists.mp held
  rw [mintedUtxo, found, Option.map_some]
  simp only [Option.some.injEq, forall_eq']
  cases minted : mintHeight committed op with
  | none =>
      rw [mintHeight, Option.map_eq_none_iff, List.find?_eq_none] at minted
      rw [verifyCoinbaseMaturity_eq_ok_iff]
      refine iff_of_true nofun ?_
      intro mintedAt earlier at_ mints
      exact absurd mints (minted earlier (List.mem_reverse.mpr (List.mem_of_getElem? at_)))
  | some height =>
      obtain ⟨older, last, newer, rfl, same, mints, latest⟩ :=
        (chain.lastHeight_eq_some_iff (fun block => block.mints op) height).mp minted
      have atLast : (older ++ last :: newer)[height.toNat]? = some last := by
        rw [← same]
        simp
      rw [verifyCoinbaseMaturity_eq_ok_iff]
      constructor
      · intro mature mintedAt earlier at_ mintsToo
        -- No block after the last one that creates the outpoint does it too.
        have early : mintedAt ≤ height.toNat := by
          by_contra late
          rw [List.getElem?_append_right (by omega), List.getElem?_cons,
            if_neg (by omega)] at at_
          exact absurd mintsToo (by simp [latest earlier (List.mem_of_getElem? at_)])
        exact (Nat.add_le_add_right early 100).trans (mature rfl)
      · intro mature _
        exact mature _ last atLast mints

theorem Chain.matureSpends_extend_iff {committed : List Block} (chain : Chain committed)
    {block : Block} (accepts : Accepts committed block) :
    MatureSpends (committed ++ [block]) ↔
      MatureSpends committed ∧ MatureStep committed block := by
  have last : (committed ++ [block])[committed.length]? = some block :=
    List.getElem?_concat_length
  have older : ∀ {index : Nat} {other : Block}, committed[index]? = some other →
      (committed ++ [block])[index]? = some other :=
    fun found => (getElem?_concat_eq_some_iff _ _ _ _).mpr (Or.inl found)
  -- Accepted spends have records in the table, which the check is made on.
  have checked : ∀ {op : OutPoint}, op ∈ block.spentOutPoints →
      ((∀ utxo, mintedUtxo committed op = some utxo →
          verifyCoinbaseMaturity op utxo block.header.height = .ok ()) ↔
        ∀ (mintedAt : Nat) (earlier : Block), committed[mintedAt]? = some earlier →
          earlier.mints op = true → mintedAt + 100 ≤ committed.length) := by
    intro op spent
    rw [chain.passes_maturity_iff (accepts.isSome_lookup spent), chain.height_of_accepts accepts]
  constructor
  · intro mature
    refine ⟨?_, ?_, ?_⟩
    · intro spentAt mintedAt spender earlier spentFound mintedFound
      exact mature spentAt mintedAt spender earlier (older spentFound) (older mintedFound)
    · intro op spent
      rw [checked spent]
      intro mintedAt earlier found mints
      obtain ⟨entry, minted, rfl⟩ := (earlier.mints_iff op).mp mints
      exact mature _ mintedAt block earlier last (older found) entry minted spent
    · intro entry minted removed
      obtain ⟨spender, inCommitted, spent⟩ := (mem_spentKeys_iff _ _).mp removed
      obtain ⟨spentAt, found⟩ := List.mem_iff_getElem?.mp inCommitted
      have bound := (List.getElem?_eq_some_iff.mp found).1
      have late := mature spentAt _ spender block found last entry minted spent
      rw [List.length_append, List.length_singleton] at bound
      omega
  · intro both spentAt mintedAt spender earlier spentFound mintedFound entry minted spent
    obtain ⟨mature, step⟩ := both
    rcases (getElem?_concat_eq_some_iff _ _ _ _).mp mintedFound with found | ⟨rfl, rfl⟩
    · rcases (getElem?_concat_eq_some_iff _ _ _ _).mp spentFound with spentBefore | ⟨rfl, rfl⟩
      · exact mature spentAt mintedAt spender earlier spentBefore found entry minted spent
      · exact (checked spent).mp (step.mature entry.1 spent) mintedAt earlier found
          ((earlier.mints_iff entry.1).mpr ⟨entry, minted, rfl⟩)
    · exact absurd ((mem_spentKeys_iff _ _).mpr ⟨spender, List.mem_of_getElem? spentFound, spent⟩)
        (step.fresh entry minted)

theorem Chain.matureSpends_iff {committed : List Block} (chain : Chain committed) :
    MatureSpends committed ↔ EveryStep MatureStep committed := by
  induction chain with
  | genesis =>
      have nothing : createGenesisBlock.spentOutPoints = [] := by
        simp [Block.spentOutPoints]
      rw [everyStep_singleton]
      refine iff_of_true ?_ ⟨?_, ?_⟩
      · intro spentAt mintedAt spender earlier spentFound mintedFound entry minted spent
        rw [List.mem_singleton.mp (List.mem_of_getElem? spentFound), nothing] at spent
        cases spent
      · rw [nothing]
        exact List.forall_mem_nil _
      · intro entry minted removed
        obtain ⟨spender, isGenesis, spent⟩ := (mem_spentKeys_iff _ _).mp removed
        rw [List.mem_singleton.mp isGenesis, nothing] at spent
        cases spent
  | extend chain accepts inductionHypothesis =>
      rw [chain.matureSpends_extend_iff accepts, everyStep_append_singleton]
      exact and_congr inductionHypothesis Iff.rfl

/-- A run respects the maturity of coinbases exactly when every one of its
steps passes the check. -/
theorem coinbase_maturity (offered : List DecodedBlock) :
    MatureSpends (NodeRun.after offered).committed ↔
      EveryStep MatureStep (NodeRun.after offered).committed :=
  (NodeRun.chain_after offered).1.matureSpends_iff

end Maturity

section Sample

open Sample

attribute [local instance] Sample.crypto

/-- A block at height 2 spends the coinbase of the block at height 1. -/
theorem coinbase_maturity_violated :
    ¬ MatureSpends (NodeRun.after [firstDecoded, settledDecoded]).committed := by
  intro mature
  have aged := mature 2 1 settled first (by decide +kernel) (by decide +kernel)
    ({ txid := coinbaseId, vout := 0 }, unlocked 5000) (by decide +kernel) (by decide +kernel)
  exact absurd aged (by decide)

end Sample

end Aurion
