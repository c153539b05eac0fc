import Aurion.Ledger.Run

/-!
# Concurrent submissions

Nothing is held between the reads of a submission and its commit.  Two
overlapping submissions still amount to a serial run when neither one commits
between the first database read of the other and the end of the other.
-/

namespace Aurion

open Foundation

namespace EngineOp

def isCommit : EngineOp → Bool
  | .commitBlock _ _ => true
  | _ => false

/-- The requests whose answer depends on the ledger. -/
def readsLedger : EngineOp → Bool
  | .getTip | .getUtxo _ => true
  | _ => false

end EngineOp

section Calls

variable [Crypto]

/-- A commit changes only the answers that depend on the ledger. -/
theorem working_insensitive (op op' : EngineOp) (engine : AuthorityEngine)
    (commits : op.isCommit = true) (quiet : op'.readsLedger = false) :
    (working op' (working op engine).2).1 = (working op' engine).1 := by
  cases op with
  | commitBlock block spentInputs =>
      cases op' with
      | getTip => cases quiet
      | getUtxo outpoint => cases quiet
      | _ => rfl
  | _ => cases commits

theorem readOnly_utxoLookup (op : OutPoint) :
    (ExceptT.lift (utxoLookup op) : ExceptT InvariantError EngineM _).run.ReadOnly working
      EngineOp.isCommit := by
  have lookup : (utxoLookup op).ReadOnly working EngineOp.isCommit := by
    refine .bind ⟨rfl, fun engine => ⟨rfl, trivial⟩⟩ fun answer => ?_
    cases answer <;> exact trivial
  exact .bind lookup fun _ => trivial

theorem readOnly_collectInputs (entries : List (TxInput × Nat)) (collected : Collected) :
    (collectInputs utxoLookup entries collected).run.ReadOnly working EngineOp.isCommit := by
  induction entries generalizing collected with
  | nil => exact trivial
  | cons entry entries inductionHypothesis =>
      exact .except_bind trivial fun _ => .except_bind (readOnly_utxoLookup _) fun _ =>
        .except_bind trivial fun _ => .except_bind trivial fun _ => inductionHypothesis _

theorem readOnly_verifyTransactions (height : UInt64) (txs : List Transaction)
    (spentSet spentInputs : List OutPoint) :
    (verifyTransactions utxoLookup height txs spentSet spentInputs).run.ReadOnly working
      EngineOp.isCommit := by
  induction txs generalizing spentSet spentInputs with
  | nil => exact trivial
  | cons tx txs inductionHypothesis =>
      unfold verifyTransactions
      split
      · exact inductionHypothesis _ _
      · exact .except_bind trivial fun _ => .except_bind (readOnly_collectInputs _ _) fun _ =>
          .except_bind trivial fun _ => inductionHypothesis _ _

theorem readOnly_verifyCandidate (block : Block) :
    (verifyCandidate block).run.ReadOnly working EngineOp.isCommit := by
  have operational : enforceOperational.run.ReadOnly working EngineOp.isCommit := by
    refine .except_bind ⟨rfl, fun engine => ⟨rfl, trivial⟩⟩ fun _ => trivial
  have tip : readTip.run.ReadOnly working EngineOp.isCommit :=
    ⟨rfl, fun engine => ⟨rfl, trivial⟩⟩
  exact .except_bind operational fun _ => .except_bind tip fun _ => .except_bind trivial fun _ =>
    .except_bind trivial fun _ => .except_bind trivial fun _ =>
      (readOnly_verifyTransactions _ _ _ _).adapt _

/-- A submission reads, and ends with at most one commit. -/
theorem singleWrite_processAndCommitBlock (block : Block) :
    (processAndCommitBlock block).run.SingleWrite working EngineOp.isCommit := by
  apply Program.SingleWrite.except_bind (readOnly_verifyCandidate block)
  intro spentInputs engine
  exact ⟨.ok (), rfl⟩

/-- Submissions of two blocks to one node. -/
def submissions (engine : AuthorityEngine) (blocks : Party → Block) :
    Pool Party EngineOp EngineOp.Answer (Except AuthorityError Unit) AuthorityEngine where
  programs party := (processAndCommitBlock (blocks party)).run
  shared := engine

theorem verdict_connects {engine : AuthorityEngine} {block : Block} {spentInputs : List OutPoint}
    {tip : UInt64 × Hash256} (last : engine.storage.getTip = some tip)
    (passed : verdict engine block = .ok spentInputs) :
    block.header.prevBlockHash = tip.2 ∧ block.header.height.toNat = tip.1.toNat + 1 := by
  simp only [verdict, ensure_eq_ok_iff, except_bind_eq_ok_iff, mapError_eq_ok_iff, last,
    expectedConnection_eq_ok_iff, exists_const] at passed
  obtain ⟨-, expected, ⟨height, parent⟩, connects, _, structured, -⟩ := passed
  obtain ⟨_, _, valid⟩ := (verifyBlockStructure_eq_ok_iff _ _).mp structured
  exact ⟨connects.trans parent, by rw [valid.height, height]⟩

theorem ok_of_run_processAndCommitBlock {engine final : AuthorityEngine} {block : Block}
    (committed : (processAndCommitBlock block).run.run working engine = (.ok (), final)) :
    ∃ spentInputs, verdict engine block = .ok spentInputs ∧
      final = { engine with storage := engine.storage.commitBlock block spentInputs } := by
  rw [run_processAndCommitBlock] at committed
  cases passed : verdict engine block with
  | error error => simp [passed] at committed
  | ok spentInputs =>
      simp only [passed, Prod.mk.injEq, true_and] at committed
      exact ⟨spentInputs, rfl, committed.symm⟩

/-- Two blocks committed one after the other are parent and child. -/
theorem child_of_serial {engine middle final : AuthorityEngine} {first second : Block}
    (firstRun : (processAndCommitBlock first).run.run working engine = (.ok (), middle))
    (secondRun : (processAndCommitBlock second).run.run working middle = (.ok (), final)) :
    second.header.prevBlockHash = first.blockHash ∧
      second.header.height.toNat = first.header.height.toNat + 1 := by
  obtain ⟨_, -, rfl⟩ := ok_of_run_processAndCommitBlock firstRun
  obtain ⟨_, passed, -⟩ := ok_of_run_processAndCommitBlock secondRun
  exact verdict_connects (StorageEngine.getTip_commitBlock _ _ _) passed

/-- Submissions that overlap without disturbing each other end as a serial run
does; when both succeed, one block is the parent of the other. -/
theorem submissions_serializable (engine : AuthorityEngine) (blocks : Party → Block)
    (schedule : List Party)
    (finished : ∀ party, ∃ result,
      ((submissions engine blocks).run working schedule).programs party = .done result)
    (undisturbed : Pool.Undisturbed EngineOp.isCommit EngineOp.readsLedger
      (Pool.trace working schedule (submissions engine blocks))) :
    (∃ first, Pool.SerialFrom working (submissions engine blocks)
        ((submissions engine blocks).run working schedule) first) ∧
      ((∀ party, ((submissions engine blocks).run working schedule).programs party =
          .done (.ok ())) →
        ∃ first : Party, (blocks first.other).header.prevBlockHash = (blocks first).blockHash ∧
          (blocks first.other).header.height.toNat = (blocks first).header.height.toNat + 1) := by
  have serial := Pool.serial_of_undisturbed working working_insensitive (submissions engine blocks)
    (fun party => singleWrite_processAndCommitBlock (blocks party)) schedule finished undisturbed
  refine ⟨serial, fun succeeded => ?_⟩
  obtain ⟨first, firstResult, middle, secondResult, firstRun, secondRun, firstDone, secondDone⟩ :=
    serial
  rw [succeeded first] at firstDone
  rw [succeeded first.other] at secondDone
  cases firstDone
  cases secondDone
  exact ⟨first, child_of_serial firstRun secondRun⟩

end Calls

section Sample

open Sample

attribute [local instance] Sample.crypto

def Sample.competitors : Party → Block
  | .left => first
  | .right => rival

/-- One call starts first but reads the ledger after the other has committed. -/
theorem submissions_serializable_competitors :
    ∃ party, Pool.SerialFrom working (submissions NodeRun.start.engine competitors)
      ((submissions NodeRun.start.engine competitors).run working
        [.right, .left, .left, .left, .right]) party := by
  refine (submissions_serializable NodeRun.start.engine competitors
    [.right, .left, .left, .left, .right] ?_ ?_).1
  · intro party
    have value : (((submissions NodeRun.start.engine competitors).run working
        [.right, .left, .left, .left, .right]).programs party).value?.isSome := by
      cases party <;> decide +kernel
    obtain ⟨result, value⟩ := Option.isSome_iff_exists.mp value
    exact ⟨result, (Program.value?_eq_some_iff _ _).mp value⟩
  · unfold Pool.Undisturbed
    decide +kernel

/-- Both calls read the tip before either commits, and both siblings are committed. -/
theorem submissions_not_serializable :
    first ≠ rival ∧ first.header.prevBlockHash = rival.header.prevBlockHash ∧
      (∀ party, ((submissions NodeRun.start.engine competitors).run working
        [.left, .left, .right, .right, .left, .right]).programs party = .done (.ok ())) ∧
      ¬ ∃ party, Pool.SerialFrom working (submissions NodeRun.start.engine competitors)
        ((submissions NodeRun.start.engine competitors).run working
          [.left, .left, .right, .right, .left, .right]) party := by
  have succeeded : ∀ party, ((submissions NodeRun.start.engine competitors).run working
      [.left, .left, .right, .right, .left, .right]).programs party = .done (.ok ()) := by
    intro party
    rw [← Program.value?_eq_some_iff]
    cases party <;> decide +kernel
  refine ⟨by decide +kernel, rfl, succeeded, ?_⟩
  intro serial
  obtain ⟨party, firstResult, middle, secondResult, firstRun, secondRun, firstDone, secondDone⟩ :=
    serial
  rw [succeeded party] at firstDone
  rw [succeeded party.other] at secondDone
  cases firstDone
  cases secondDone
  -- Neither block is one higher than the other.
  have heights := (child_of_serial firstRun secondRun).2
  cases party <;> exact absurd heights (by decide)

end Sample

end Aurion
