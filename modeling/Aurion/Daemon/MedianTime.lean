import Aurion.Daemon.Handlers
import Aurion.Foundation.Median
import Aurion.Ledger.ChainIndex

/-!
# Median time past

The median time past of a node is the median of the timestamps of its last
eleven blocks.  The validator looks at no timestamp, so it may fall, and with it
a lock time that was satisfied.  It never falls in exactly the chains in which
every block keeps the median.
-/

namespace Aurion

open Foundation

section Evaluation

variable [Crypto]

/-- A node over the engine of a run, with an empty pool. -/
def NodeRun.node (run : NodeRun) : Node where
  engine := run.engine
  mempool := .new 0
  writer := none
  committed := run.committed
  seen := fun _ => []

/-- The tip and the median time past there, as the tasks of the daemon read them. -/
def NodeRun.medianTimePast (run : NodeRun) : Except String UInt64 :=
  (do
    let (_, tipHash) ← RpcHandler.tip
    RpcHandler.medianTimePast tipHash : RpcM UInt64).run.evaluate run.node.answer

/-- The timestamps of the last blocks, the latest first. -/
def lastTimestamps (count : Nat) (committed : List Block) : List UInt64 :=
  (committed.reverse.take count).map fun block => block.header.timestamp

omit [Crypto] in
@[simp]
theorem lastTimestamps_concat (count : Nat) (committed : List Block) (block : Block) :
    lastTimestamps (count + 1) (committed ++ [block]) =
      block.header.timestamp :: lastTimestamps count committed := by
  simp [lastTimestamps]

/-- The median time past of a chain. -/
def medianTimeOf (committed : List Block) : UInt64 :=
  let samples := lastTimestamps RpcHandler.mtpWindowBlocks committed
  if samples = [] then genesisTimestamp else RpcHandler.median samples

/-- One turn of the loop over the blocks. -/
theorem evaluate_collectTimestamps_succ (node : Node) (room : Nat) (height : UInt64)
    (samples : List UInt64) :
    (RpcHandler.collectTimestamps (room + 1) height samples).run.evaluate node.answer =
      (((node.engine.storage.getBlockByHeight height).mapError fun error =>
        "storage read error: " ++ error.message) >>= fun found =>
          found.elim (.ok samples) fun block =>
            let collected := samples ++ [block.header.timestamp]
            if height = 0 then .ok collected
            else (RpcHandler.collectTimestamps room (height - 1) collected).run.evaluate
              node.answer) := by
  rw [RpcHandler.collectTimestamps, RpcHandler.ask, RpcHandler.access,
    Program.evaluate_perform_bind, Node.answer, RpcHandler.readStorage,
    Program.evaluate_settle_bind]
  cases node.engine.storage.getBlockByHeight height with
  | error error => rfl
  | ok found =>
      cases found with
      | none => rfl
      | some block =>
          by_cases bottom : height = 0
          · simp only [bottom]
            rfl
          · simp only [bottom]
            rfl

/-- The loop reads the blocks below a height downwards. -/
theorem evaluate_collectTimestamps {committed : List Block} (chain : Chain committed)
    (free : CollisionFree (committed.flatMap Block.hashed)) (node : Node)
    (storage : node.engine.storage = ledger committed) (room : Nat) (height : UInt64)
    (inside : height.toNat < committed.length) (samples : List UInt64) :
    (RpcHandler.collectTimestamps room height samples).run.evaluate node.answer =
      .ok (samples ++ lastTimestamps room (committed.take (height.toNat + 1))) := by
  induction room generalizing height samples with
  | zero =>
      rw [lastTimestamps, List.take_zero, List.map_nil, List.append_nil]
      rfl
  | succ room inductionHypothesis =>
      obtain ⟨block, at_⟩ : ∃ block, committed[height.toNat]? = some block :=
        ⟨_, List.getElem?_eq_getElem inside⟩
      have upTo : committed.take (height.toNat + 1) = committed.take height.toNat ++ [block] := by
        rw [List.take_add_one, at_]
        rfl
      rw [evaluate_collectTimestamps_succ, storage, chain.getBlockByHeight free, at_, upTo,
        lastTimestamps_concat]
      change (if height = 0 then _ else _) = _
      by_cases bottom : height = 0
      · have nothing : lastTimestamps room (committed.take height.toNat) = [] := by
          simp [bottom, lastTimestamps]
        rw [if_pos bottom, nothing]
      · have below := toNat_pred_add_one (UInt64.pos_iff_ne_zero.mpr bottom)
        rw [if_neg bottom, inductionHypothesis _ (by omega), below, List.append_assoc,
          List.singleton_append]

/-- At the tip of a chain the loop reads the last blocks. -/
theorem evaluate_collectTimestamps_tip {committed : List Block} (chain : Chain committed)
    (free : CollisionFree (committed.flatMap Block.hashed)) (node : Node)
    (storage : node.engine.storage = ledger committed) {tip : Block}
    (last : committed.getLast? = some tip) :
    (RpcHandler.collectTimestamps RpcHandler.mtpWindowBlocks tip.header.height []).run.evaluate
      node.answer = .ok (lastTimestamps RpcHandler.mtpWindowBlocks committed) := by
  have height := chain.height_of_last last
  have positive := chain.length_pos
  rw [evaluate_collectTimestamps chain free node storage _ _ (by omega), List.nil_append,
    List.take_of_length_le (by omega)]

/-- On the ledger of a chain the median time past can be read at the tip. -/
theorem evaluate_medianTimePast {committed : List Block} (chain : Chain committed)
    (free : CollisionFree (committed.flatMap Block.hashed)) (node : Node)
    (storage : node.engine.storage = ledger committed) {tip : Block}
    (last : committed.getLast? = some tip) :
    (RpcHandler.medianTimePast tip.blockHash).run.evaluate node.answer =
      .ok (medianTimeOf committed) := by
  have blockRead : node.answer (.getBlock tip.blockHash) = .ok (some tip) := by
    change node.engine.storage.getBlock tip.blockHash = _
    rw [storage, chain.getBlock free (List.mem_of_getLast? last)]
  have atBlock : (RpcHandler.medianTimePast tip.blockHash).run.evaluate node.answer =
      (RpcHandler.collectTimestamps RpcHandler.mtpWindowBlocks tip.header.height [] >>=
        fun samples => pure (if samples = [] then genesisTimestamp else
          RpcHandler.median samples)).run.evaluate node.answer := by
    rw [RpcHandler.medianTimePast, RpcHandler.ask, RpcHandler.access,
      Program.evaluate_perform_bind, blockRead]
    rfl
  rw [atBlock, Program.evaluate_except_bind,
    evaluate_collectTimestamps_tip chain free node storage last]
  rfl

/-- On the ledger of a chain the tip and the median time past there can be read. -/
theorem NodeRun.medianTimePast_eq {run : NodeRun} (chain : Chain run.committed)
    (free : CollisionFree (run.committed.flatMap Block.hashed))
    (storage : run.engine.storage = ledger run.committed) :
    run.medianTimePast = .ok (medianTimeOf run.committed) := by
  obtain ⟨tip, last⟩ := chain.exists_last
  have tipRead : run.node.answer (.engine .getTip) =
      .ok (some (tip.header.height, tip.blockHash)) := by
    change Except.ok run.engine.storage.getTip = _
    rw [storage, getTip_ledger last]
  have atTip : run.medianTimePast =
      (RpcHandler.readStorage (run.node.answer (.engine .getTip)) >>= fun found =>
        RpcHandler.medianTimePast (found.getD (0, Hash256.zero)).2).run.evaluate
          run.node.answer := rfl
  rw [atTip, tipRead]
  exact evaluate_medianTimePast chain free run.node storage last

end Evaluation

section KeepsMedian

variable [Crypto]

/-- The timestamp of the block is at least the median time past of the chain, or
so few of the kept timestamps lie below it that one more does not lower it. -/
def KeepsMedian (committed : List Block) (block : Block) : Prop :=
  let kept := lastTimestamps (RpcHandler.mtpWindowBlocks - 1) committed
  medianTimeOf committed ≤ block.header.timestamp ∨
    countBelow kept (medianTimeOf committed) < (kept.length + 1) / 2

omit [Crypto] in
/-- A timestamp as the template has it keeps the median. -/
theorem keepsMedian_of_template {committed : List Block} {block : Block} {now : UInt64}
    (stamped : RpcHandler.templateTimestamp now (medianTimeOf committed) =
      .ok block.header.timestamp) : KeepsMedian committed block := by
  left
  unfold RpcHandler.templateTimestamp RpcHandler.successor at stamped
  split at stamped
  next later =>
      cases stamped
      exact UInt64.le_of_lt later
  next =>
      split at stamped
      next fits =>
          rw [← Except.ok.inj stamped, UInt64.le_iff_toNat_le, UInt64.toNat_add]
          exact (Nat.le_succ _).trans_eq (Nat.mod_eq_of_lt fits).symm
      next => cases stamped

omit [Crypto] in
theorem lastTimestamps_ne_nil {committed : List Block} (inhabited : committed ≠ []) :
    lastTimestamps RpcHandler.mtpWindowBlocks committed ≠ [] := by
  simp [lastTimestamps, RpcHandler.mtpWindowBlocks, inhabited]

omit [Crypto] in
theorem medianTimeOf_eq {committed : List Block} (inhabited : committed ≠ []) :
    medianTimeOf committed =
      median 0 (lastTimestamps RpcHandler.mtpWindowBlocks committed) := by
  rw [medianTimeOf, if_neg (lastTimestamps_ne_nil inhabited)]
  rfl

omit [Crypto] in
/-- A block does not lower the median time past by this condition exactly. -/
theorem medianTimeOf_le_concat_iff {committed : List Block} (inhabited : committed ≠ [])
    (block : Block) :
    medianTimeOf committed ≤ medianTimeOf (committed ++ [block]) ↔ KeepsMedian committed block := by
  have kept : (lastTimestamps (RpcHandler.mtpWindowBlocks - 1) committed).Sublist
      (lastTimestamps RpcHandler.mtpWindowBlocks committed) :=
    (List.take_sublist_take_left (Nat.sub_le _ _)).map _
  have dropsOne : (lastTimestamps RpcHandler.mtpWindowBlocks committed).length ≤
      (lastTimestamps (RpcHandler.mtpWindowBlocks - 1) committed).length + 1 := by
    simp only [lastTimestamps, List.length_map, List.length_take, RpcHandler.mtpWindowBlocks]
    omega
  have extended : lastTimestamps RpcHandler.mtpWindowBlocks (committed ++ [block]) =
      block.header.timestamp :: lastTimestamps (RpcHandler.mtpWindowBlocks - 1) committed :=
    lastTimestamps_concat _ committed block
  rw [KeepsMedian, medianTimeOf_eq inhabited, medianTimeOf_eq (by simp), extended]
  exact median_le_median_iff (lastTimestamps_ne_nil inhabited) kept dropsOne 0
    block.header.timestamp

theorem keepsMedian_genesis : KeepsMedian [] createGenesisBlock := Or.inl (UInt64.le_refl _)

end KeepsMedian

section Runs

variable [Crypto]

/-- A transaction at the tip of a node meets its lock time in the next block. -/
def NodeRun.LocktimeMet (run : NodeRun) (tx : Transaction) : Prop :=
  ∃ tipHeight tipHash nextHeight mtp,
    run.engine.storage.getTip = some (tipHeight, tipHash) ∧
      nextBlockHeight tipHeight = .ok nextHeight ∧ run.medianTimePast = .ok mtp ∧
      verifyTransactionLocktime tx nextHeight mtp = .ok ()

/-- A lock time met in some state of the run is met in every later one. -/
def LocktimesStay (offered : List DecodedBlock) : Prop :=
  ∀ earlier later, earlier ++ later <+: offered → ∀ tx,
    (NodeRun.after earlier).LocktimeMet tx → (NodeRun.after (earlier ++ later)).LocktimeMet tx

/-- The median time past does not fall from a state of the run to a later one. -/
def MedianTimeStays (offered : List DecodedBlock) : Prop :=
  ∀ earlier later, earlier ++ later <+: offered → ∃ mtp mtp',
    (NodeRun.after earlier).medianTimePast = .ok mtp ∧
      (NodeRun.after (earlier ++ later)).medianTimePast = .ok mtp' ∧ mtp ≤ mtp'

/-- The lock time of a transaction is met in the block after these. -/
def MetAfter (committed : List Block) (tx : Transaction) : Prop :=
  ∃ nextHeight : UInt64, nextHeight.toNat = committed.length ∧
    verifyTransactionLocktime tx nextHeight (medianTimeOf committed) = .ok ()

theorem NodeRun.committed_after_prefix {earlier offered : List DecodedBlock}
    (before : earlier <+: offered) : (after earlier).committed <+: (after offered).committed := by
  obtain ⟨later, rfl⟩ := before
  induction later using List.reverseRecOn with
  | nil => rw [List.append_nil]
  | append_singleton later last inductionHypothesis =>
      refine inductionHypothesis.trans ?_
      obtain ⟨chain, engine⟩ := chain_after (earlier ++ later)
      rw [← List.append_assoc, after_concat]
      rcases offer_eq chain engine last.block last.wellFormed with same | ⟨-, extended⟩
      · rw [same]
      · rw [extended]
        exact List.prefix_append _ _

omit [Crypto] in
theorem nextBlockHeight_iff (tipHeight nextHeight : UInt64) :
    nextBlockHeight tipHeight = .ok nextHeight ↔ nextHeight.toNat = tipHeight.toNat + 1 := by
  have small := nextHeight.toNat_lt
  rw [nextBlockHeight_eq_ok_iff, ← UInt64.toNat_inj, UInt64.toNat_add]
  constructor
  · intro both
    obtain ⟨fits, next⟩ := both
    exact next.trans (Nat.mod_eq_of_lt fits)
  · intro next
    have fits : tipHeight.toNat + 1 < 2 ^ 64 := next ▸ small
    exact ⟨fits, next.trans (Nat.mod_eq_of_lt fits).symm⟩

theorem NodeRun.medianTimePast_after {offered : List DecodedBlock}
    (free : CollisionFree (after offered).hashed) :
    (after offered).medianTimePast = .ok (medianTimeOf (after offered).committed) := by
  obtain ⟨chain, engine⟩ := chain_after offered
  exact medianTimePast_eq chain free (congrArg AuthorityEngine.storage engine)

theorem NodeRun.locktimeMet_iff {offered : List DecodedBlock}
    (free : CollisionFree (after offered).hashed) (tx : Transaction) :
    (after offered).LocktimeMet tx ↔ MetAfter (after offered).committed tx := by
  obtain ⟨chain, engine⟩ := chain_after offered
  obtain ⟨tip, last⟩ := chain.exists_last
  have storage : (after offered).engine.storage = ledger (after offered).committed :=
    congrArg AuthorityEngine.storage engine
  have atTip : (after offered).engine.storage.getTip =
      some (tip.header.height, tip.blockHash) := by
    rw [storage, getTip_ledger last]
  have mtp := medianTimePast_after free
  have height := chain.height_of_last last
  have positive := chain.length_pos
  constructor
  · intro met
    obtain ⟨tipHeight, tipHash, nextHeight, mtp', found, next, read, satisfied⟩ := met
    cases atTip.symm.trans found
    cases mtp.symm.trans read
    rw [nextBlockHeight_iff] at next
    exact ⟨nextHeight, by omega, satisfied⟩
  · intro met
    obtain ⟨nextHeight, next, satisfied⟩ := met
    refine ⟨_, _, nextHeight, _, atTip, ?_, mtp, satisfied⟩
    rw [nextBlockHeight_iff]
    omega

theorem NodeRun.free_of_prefix {earlier offered : List DecodedBlock}
    (free : CollisionFree (after offered).hashed) (before : earlier <+: offered) :
    CollisionFree (after earlier).hashed := by
  obtain ⟨rest, extended⟩ := committed_after_prefix before
  apply free.mono
  rw [hashed, hashed, ← extended, List.flatMap_append]
  exact List.subset_append_left _ _

/-- A preorder on chains that relates every step of a run. -/
theorem eachStep_iff_everyStep {related : List Block → List Block → Prop}
    (refl : ∀ committed, related committed committed) (offered : List DecodedBlock) :
    Steps.EachStep (fun run (decoded : DecodedBlock) => run.offer decoded.block)
        (fun run decoded => related run.committed (run.offer decoded.block).committed)
        NodeRun.start offered ↔
      EveryStep (fun before block => before ≠ [] → related before (before ++ [block]))
        (NodeRun.after offered).committed := by
  induction offered using List.reverseRecOn with
  | nil =>
      exact iff_of_true Steps.eachStep_nil
        ((everyStep_singleton _ _).mpr fun absent => absurd rfl absent)
  | append_singleton offered last inductionHypothesis =>
      obtain ⟨chain, engine⟩ := NodeRun.chain_after offered
      have reached : Steps.run (fun run (decoded : DecodedBlock) => run.offer decoded.block)
          NodeRun.start offered = NodeRun.after offered := rfl
      rw [Steps.eachStep_concat_iff, inductionHypothesis, reached, NodeRun.after_concat]
      rcases NodeRun.offer_eq chain engine last.block last.wellFormed with same | ⟨-, extended⟩
      · rw [same, and_iff_left (refl _)]
      · have inhabited := List.ne_nil_of_length_pos chain.length_pos
        rw [extended, everyStep_append_singleton, imp_iff_right inhabited]

theorem ordered_iff_everyStep (related : List Block → List Block → Prop)
    (refl : ∀ committed, related committed committed)
    (trans : ∀ {first second third}, related first second → related second third →
      related first third) (offered : List DecodedBlock) :
    (∀ earlier later, earlier ++ later <+: offered →
        related (NodeRun.after earlier).committed (NodeRun.after (earlier ++ later)).committed) ↔
      EveryStep (fun before block => before ≠ [] → related before (before ++ [block]))
        (NodeRun.after offered).committed :=
  (Steps.ordered_iff_eachStep (fun run run' : NodeRun => related run.committed run'.committed)
    (fun _ => refl _) trans).trans (eachStep_iff_everyStep refl offered)

end Runs

section Chains

variable [Crypto]

theorem Chain.everyStep_keepsMedian_iff {committed : List Block} (chain : Chain committed) :
    EveryStep (fun before block => before ≠ [] →
        medianTimeOf before ≤ medianTimeOf (before ++ [block])) committed ↔
      EveryStep KeepsMedian committed := by
  induction chain with
  | genesis =>
      rw [everyStep_singleton, everyStep_singleton]
      exact iff_of_true (fun absent => absurd rfl absent) keepsMedian_genesis
  | extend chain accepts inductionHypothesis =>
      have inhabited := List.ne_nil_of_length_pos chain.length_pos
      rw [everyStep_append_singleton, everyStep_append_singleton, inductionHypothesis,
        imp_iff_right inhabited, medianTimeOf_le_concat_iff inhabited]

/-- While every block keeps the median, it is at least the timestamp of genesis. -/
theorem Chain.genesisTimestamp_le {committed : List Block} (chain : Chain committed)
    (keeps : EveryStep KeepsMedian committed) : genesisTimestamp ≤ medianTimeOf committed := by
  induction chain with
  | genesis =>
      have only : medianTimeOf [createGenesisBlock] = genesisTimestamp := by
        simp [medianTimeOf, lastTimestamps, RpcHandler.mtpWindowBlocks, RpcHandler.median,
          createGenesisBlock]
      exact only ▸ UInt64.le_refl _
  | extend chain accepts inductionHypothesis =>
      rw [everyStep_append_singleton] at keeps
      have inhabited := List.ne_nil_of_length_pos chain.length_pos
      exact UInt64.le_trans (inductionHypothesis keeps.1)
        ((medianTimeOf_le_concat_iff inhabited _).mpr keeps.2)

omit [Crypto] in
theorem genesis_isTime : locktimeThresholdUnix ≤ genesisTimestamp := by decide

/-- A transaction whose lock time is this time. -/
def lockedUntil (time : UInt64) : Transaction where
  version := 1
  inputs := [{
    previousOutput := { txid := Hash256.zero, vout := 0 }
    unlockingScript := []
    sequence := 0
    redeemer := none }]
  outputs := []
  locktime := time

omit [Crypto] in
theorem verifyTransactionLocktime_lockedUntil {time : UInt64}
    (isTime : locktimeThresholdUnix ≤ time) (height mtp : UInt64) :
    verifyTransactionLocktime (lockedUntil time) height mtp = .ok () ↔ time ≤ mtp := by
  have active : ¬ ∀ input ∈ (lockedUntil time).inputs, input.sequence = finalSequence := by
    simp [lockedUntil, finalSequence]
  have positive : (lockedUntil time).locktime ≠ 0 := by
    rintro rfl
    exact absurd isTime (by decide)
  have later : ¬ (lockedUntil time).locktime < locktimeThresholdUnix := UInt64.not_lt.mpr isTime
  rw [verifyTransactionLocktime_eq_ok_iff, or_iff_right active, or_iff_right positive,
    if_neg later]
  rfl

omit [Crypto] in
/-- A step keeps the lock times met exactly when it keeps the median and there
is a height after it. -/
theorem metAfter_concat_iff {committed : List Block} (short : committed.length < 2 ^ 64)
    (late : locktimeThresholdUnix ≤ medianTimeOf committed) (block : Block) :
    (∀ tx, MetAfter committed tx → MetAfter (committed ++ [block]) tx) ↔
      medianTimeOf committed ≤ medianTimeOf (committed ++ [block]) ∧
        committed.length + 1 < 2 ^ 64 := by
  constructor
  · intro kept
    have now : MetAfter committed (lockedUntil (medianTimeOf committed)) :=
      ⟨UInt64.ofNat committed.length, UInt64.toNat_ofNat_of_lt' short,
        (verifyTransactionLocktime_lockedUntil late _ _).mpr (UInt64.le_refl _)⟩
    obtain ⟨nextHeight, next, satisfied⟩ := kept _ now
    rw [List.length_append, List.length_singleton] at next
    exact ⟨(verifyTransactionLocktime_lockedUntil late _ _).mp satisfied,
      next ▸ nextHeight.toNat_lt⟩
  · intro both tx met
    obtain ⟨times, fits⟩ := both
    obtain ⟨nextHeight, next, satisfied⟩ := met
    have later := UInt64.toNat_ofNat_of_lt' fits
    refine ⟨UInt64.ofNat (committed.length + 1), by rw [later]; simp,
      verifyTransactionLocktime_mono ?_ times satisfied⟩
    rw [UInt64.le_iff_toNat_le, later, next]
    exact Nat.le_succ _

theorem Chain.everyStep_metAfter_iff {committed : List Block} (chain : Chain committed) :
    EveryStep (fun before block => before ≠ [] →
        ∀ tx, MetAfter before tx → MetAfter (before ++ [block]) tx) committed ↔
      EveryStep KeepsMedian committed ∧ committed.length < 2 ^ 64 := by
  induction chain with
  | genesis =>
      rw [everyStep_singleton, everyStep_singleton]
      exact iff_of_true (fun absent => absurd rfl absent) ⟨keepsMedian_genesis, by simp⟩
  | @extend committed block chain accepts inductionHypothesis =>
      have inhabited := List.ne_nil_of_length_pos chain.length_pos
      rw [everyStep_append_singleton, everyStep_append_singleton, inductionHypothesis,
        imp_iff_right inhabited, ← medianTimeOf_le_concat_iff inhabited, List.length_append,
        List.length_singleton]
      constructor
      · intro both
        obtain ⟨⟨keeps, short⟩, met⟩ := both
        have late := UInt64.le_trans genesis_isTime (chain.genesisTimestamp_le keeps)
        obtain ⟨times, fits⟩ := (metAfter_concat_iff short late block).mp met
        exact ⟨⟨keeps, times⟩, fits⟩
      · intro both
        obtain ⟨⟨keeps, times⟩, fits⟩ := both
        have late := UInt64.le_trans genesis_isTime (chain.genesisTimestamp_le keeps)
        have short := Nat.lt_of_succ_lt fits
        exact ⟨⟨keeps, short⟩, (metAfter_concat_iff short late block).mpr ⟨times, fits⟩⟩

/-- In a run without collisions, satisfied lock times stay satisfied exactly
when every block keeps the median and the last one leaves room for a next
height.  The median time past never falls under the first condition alone. -/
theorem satisfied_locktimes_stay (offered : List DecodedBlock)
    (free : CollisionFree (NodeRun.after offered).hashed) :
    (LocktimesStay offered ↔
      EveryStep KeepsMedian (NodeRun.after offered).committed ∧
        (NodeRun.after offered).committed.length < 2 ^ 64) ∧
    (MedianTimeStays offered ↔ EveryStep KeepsMedian (NodeRun.after offered).committed) := by
  obtain ⟨chain, -⟩ := NodeRun.chain_after offered
  constructor
  · have states : LocktimesStay offered ↔ ∀ earlier later, earlier ++ later <+: offered →
        ∀ tx, MetAfter (NodeRun.after earlier).committed tx →
          MetAfter (NodeRun.after (earlier ++ later)).committed tx := by
      refine forall₂_congr fun earlier later => forall₂_congr fun found tx => ?_
      have before := (List.prefix_append earlier later).trans found
      rw [NodeRun.locktimeMet_iff (NodeRun.free_of_prefix free before),
        NodeRun.locktimeMet_iff (NodeRun.free_of_prefix free found)]
    rw [states, ← chain.everyStep_metAfter_iff]
    exact ordered_iff_everyStep (fun committed committed' =>
      ∀ tx, MetAfter committed tx → MetAfter committed' tx) (fun _ _ met => met)
        (fun first second tx met => second tx (first tx met)) offered
  · have states : MedianTimeStays offered ↔ ∀ earlier later, earlier ++ later <+: offered →
        medianTimeOf (NodeRun.after earlier).committed ≤
          medianTimeOf (NodeRun.after (earlier ++ later)).committed := by
      refine forall₃_congr fun earlier later found => ?_
      have before := (List.prefix_append earlier later).trans found
      rw [NodeRun.medianTimePast_after (NodeRun.free_of_prefix free before),
        NodeRun.medianTimePast_after (NodeRun.free_of_prefix free found)]
      simp
    rw [states, ← chain.everyStep_keepsMedian_iff]
    exact ordered_iff_everyStep (fun committed committed' =>
      medianTimeOf committed ≤ medianTimeOf committed') (fun _ => UInt64.le_refl _)
        (fun first second => UInt64.le_trans first second) offered

end Chains

section Sample

open Sample

/-- A block with the timestamp of genesis on top of the first block. -/
def Sample.early : Block where
  header := header firstHash laterCoinbaseId 1773446400 2 2
  transactions := [laterCoinbase]

abbrev Sample.medianCrypto : Crypto := Crypto.ofTables (digests ++ [
  (early.header.encodeCanonical,
    Hash256.ofNat 0x7610063aff85800c436987959f03be9ec16dcdbba62aa101a87f67b75d23d76b)]) []

def Sample.earlyDecoded : DecodedBlock := .ofWellFormed early (by decide +kernel)

attribute [local instance] Sample.medianCrypto

/-- Two blocks with ascending timestamps. -/
theorem satisfied_locktimes_stay_settled : LocktimesStay [firstDecoded, settledDecoded] := by
  have free : CollisionFree (NodeRun.after [firstDecoded, settledDecoded]).hashed := by
    decide +kernel
  refine (satisfied_locktimes_stay [firstDecoded, settledDecoded] free).1.mpr ?_
  unfold EveryStep KeepsMedian
  decide +kernel

/-- A spend locked until the timestamp of the first block can be mined on top of
this block, and no longer after the early one. -/
theorem satisfied_locktime_lost :
    CollisionFree (NodeRun.after [firstDecoded, earlyDecoded]).hashed ∧
      ¬ LocktimesStay [firstDecoded, earlyDecoded] := by
  have free : CollisionFree (NodeRun.after [firstDecoded, earlyDecoded]).hashed := by
    decide +kernel
  refine ⟨free, fun stay => ?_⟩
  have before : [firstDecoded] <+: [firstDecoded, earlyDecoded] := List.prefix_append _ [_]
  have met : (NodeRun.after [firstDecoded]).LocktimeMet (lockedUntil 1773446460) := by
    rw [NodeRun.locktimeMet_iff (NodeRun.free_of_prefix free before)]
    exact ⟨2, by decide +kernel, by decide +kernel⟩
  have kept := stay [firstDecoded] [earlyDecoded] List.prefix_rfl _ met
  rw [List.singleton_append, NodeRun.locktimeMet_iff free] at kept
  obtain ⟨nextHeight, -, satisfied⟩ := kept
  rw [verifyTransactionLocktime_lockedUntil (by decide)] at satisfied
  revert satisfied
  decide +kernel

end Sample

end Aurion
