import Aurion.Daemon.MedianTime

/-!
# The window of the median time past

The loop of the source walks down the height index until a block is missing, the
height is zero or the window is full.  On every database that a run of commits
leaves it ends, with the timestamps of the last blocks.
-/

namespace Aurion

open Foundation

/-- The turns of the loop, without a bound on their number.  A read that fails
ends the walk without a result. -/
inductive Walks (read : UInt64 → Except StorageError (Option Block)) :
    UInt64 → List UInt64 → List UInt64 → Prop
  | absent {height : UInt64} {samples : List UInt64} (found : read height = .ok none) :
      Walks read height samples samples
  | bottom {samples : List UInt64} {block : Block} (found : read 0 = .ok (some block)) :
      Walks read 0 samples (samples ++ [block.header.timestamp])
  | full {height : UInt64} {samples : List UInt64} {block : Block}
      (found : read height = .ok (some block)) (above : height ≠ 0)
      (enough : RpcHandler.mtpWindowBlocks ≤ (samples ++ [block.header.timestamp]).length) :
      Walks read height samples (samples ++ [block.header.timestamp])
  | next {height : UInt64} {samples result : List UInt64} {block : Block}
      (found : read height = .ok (some block)) (above : height ≠ 0)
      (few : (samples ++ [block.header.timestamp]).length < RpcHandler.mtpWindowBlocks)
      (rest : Walks read (height - 1) (samples ++ [block.header.timestamp]) result) :
      Walks read height samples result

section Walk

/-- One turn of the walk. -/
theorem walks_iff_turn (read : UInt64 → Except StorageError (Option Block)) (height : UInt64)
    (samples result : List UInt64) :
    Walks read height samples result ↔
      read height = .ok none ∧ samples = result ∨
        ∃ block, read height = .ok (some block) ∧
          if height = 0 ∨
              RpcHandler.mtpWindowBlocks ≤ (samples ++ [block.header.timestamp]).length then
            samples ++ [block.header.timestamp] = result
          else Walks read (height - 1) (samples ++ [block.header.timestamp]) result := by
  constructor
  · intro walks
    cases walks with
    | absent found => exact Or.inl ⟨found, rfl⟩
    | bottom found => exact Or.inr ⟨_, found, by rw [if_pos (Or.inl rfl)]⟩
    | full found above enough => exact Or.inr ⟨_, found, by rw [if_pos (Or.inr enough)]⟩
    | next found above few rest =>
        refine Or.inr ⟨_, found, ?_⟩
        rwa [if_neg (not_or.mpr ⟨above, Nat.not_le.mpr few⟩)]
  · rintro (⟨found, rfl⟩ | ⟨block, found, turn⟩)
    · exact .absent found
    · by_cases bottom : height = 0
      · subst bottom
        rw [if_pos (Or.inl rfl)] at turn
        exact turn ▸ .bottom found
      · by_cases enough :
            RpcHandler.mtpWindowBlocks ≤ (samples ++ [block.header.timestamp]).length
        · rw [if_pos (Or.inr enough)] at turn
          exact turn ▸ .full found bottom enough
        · rw [if_neg (not_or.mpr ⟨bottom, enough⟩)] at turn
          exact .next found bottom (Nat.lt_of_not_le enough) turn

variable [Crypto]

/-- The bounded loop computes the walk as soon as it does so after one more turn. -/
theorem walks_iff_of_rest (node : Node) {room : Nat} {samples : List UInt64} {height : UInt64}
    {result : List UInt64}
    (rest : height ≠ 0 → ∀ timestamp,
      ((if RpcHandler.mtpWindowBlocks ≤ (samples ++ [timestamp]).length then
          samples ++ [timestamp] = result
        else Walks node.engine.storage.getBlockByHeight (height - 1) (samples ++ [timestamp])
          result) ↔
        (RpcHandler.collectTimestamps room (height - 1) (samples ++ [timestamp])).run.evaluate
          node.answer = .ok result)) :
    Walks node.engine.storage.getBlockByHeight height samples result ↔
      (RpcHandler.collectTimestamps (room + 1) height samples).run.evaluate node.answer =
        .ok result := by
  rw [walks_iff_turn, evaluate_collectTimestamps_succ]
  cases node.engine.storage.getBlockByHeight height with
  | error error => simp [Except.mapError]
  | ok found =>
      cases found with
      | none => simp [Except.mapError]
      | some block =>
          by_cases bottom : height = 0
          · simp [Except.mapError, bottom]
          · simpa [Except.mapError, bottom] using rest bottom block.header.timestamp

/-- The bounded loop computes the walk: it stops for want of room exactly when
the window is full. -/
theorem walks_iff (node : Node) {room : Nat} {samples : List UInt64}
    (window : samples.length + (room + 1) = RpcHandler.mtpWindowBlocks) (height : UInt64)
    (result : List UInt64) :
    Walks node.engine.storage.getBlockByHeight height samples result ↔
      (RpcHandler.collectTimestamps (room + 1) height samples).run.evaluate node.answer =
        .ok result := by
  induction room generalizing height samples with
  | zero =>
      apply walks_iff_of_rest
      intro above timestamp
      have full : RpcHandler.mtpWindowBlocks ≤ (samples ++ [timestamp]).length := by
        rw [List.length_append]
        exact window.ge
      have stopped : (RpcHandler.collectTimestamps 0 (height - 1)
          (samples ++ [timestamp])).run.evaluate node.answer = .ok (samples ++ [timestamp]) := rfl
      rw [if_pos full, stopped, Except.ok.injEq]
  | succ room inductionHypothesis =>
      apply walks_iff_of_rest
      intro above timestamp
      have few : ¬ RpcHandler.mtpWindowBlocks ≤ (samples ++ [timestamp]).length := by
        rw [List.length_append, List.length_singleton]
        omega
      have deeper : (samples ++ [timestamp]).length + (room + 1) =
          RpcHandler.mtpWindowBlocks := by
        rw [List.length_append, List.length_singleton]
        omega
      rw [if_neg few]
      exact inductionHypothesis deeper (height - 1)

theorem walks_from_start_iff (node : Node) (height : UInt64) (result : List UInt64) :
    Walks node.engine.storage.getBlockByHeight height [] result ↔
      (RpcHandler.collectTimestamps RpcHandler.mtpWindowBlocks height []).run.evaluate node.answer =
        .ok result :=
  @walks_iff _ node (RpcHandler.mtpWindowBlocks - 1) [] rfl height result

end Walk

section Window

variable [Crypto]

omit [Crypto] in
theorem length_lastTimestamps (count : Nat) (committed : List Block) :
    (lastTimestamps count committed).length = min count committed.length := by
  simp [lastTimestamps]

/-- The samples are the timestamps at the heights from the tip downwards. -/
theorem Chain.lastTimestamps_at {committed : List Block} (chain : Chain committed)
    (free : CollisionFree (committed.flatMap Block.hashed)) {tip : Block}
    (last : committed.getLast? = some tip) {count index : Nat}
    (inside : index < (lastTimestamps count committed).length) :
    ∃ block, (ledger committed).getBlockByHeight (tip.header.height - UInt64.ofNat index) =
        .ok (some block) ∧
      block.header.height = tip.header.height - UInt64.ofNat index ∧
      (lastTimestamps count committed)[index]? = some block.header.timestamp := by
  have tipHeight := chain.height_of_last last
  have positive := chain.length_pos
  rw [length_lastTimestamps, Nat.lt_min] at inside
  have small := tip.header.height.toNat_lt
  have fits : index < 2 ^ 64 := by omega
  have offset : (UInt64.ofNat index).toNat = index := UInt64.toNat_ofNat_of_lt' fits
  have reaches : UInt64.ofNat index ≤ tip.header.height := by
    rw [UInt64.le_iff_toNat_le, offset]
    omega
  have below : (tip.header.height - UInt64.ofNat index).toNat = committed.length - 1 - index := by
    rw [UInt64.toNat_sub_of_le _ _ reaches, offset]
    omega
  have inChain : committed.length - 1 - index < committed.length := by omega
  have at_ := List.getElem?_eq_getElem inChain
  refine ⟨committed[committed.length - 1 - index], ?_, ?_, ?_⟩
  · rw [chain.getBlockByHeight free, below, at_]
  · apply UInt64.toNat_inj.mp
    rw [below]
    exact chain.height_eq at_
  · rw [lastTimestamps, List.getElem?_map, List.getElem?_take_of_lt inside.1,
      List.getElem?_reverse inside.2, at_, Option.map_some]

/-- On every database that a run leaves, the median time past at the tip is the
middle one of the timestamps of the last eleven blocks, or of all blocks when
there are fewer.  The walk that collects them always ends, and in no other way. -/
theorem medianTimePast_of_last_eleven (offered : List DecodedBlock)
    (free : CollisionFree (NodeRun.after offered).hashed) :
    let run := NodeRun.after offered
    let read := run.engine.storage.getBlockByHeight
    ∃ (tipHeight : UInt64) (tipHash : Hash256) (samples : List UInt64) (mtp : UInt64),
      run.engine.storage.getTip = some (tipHeight, tipHash) ∧
      (∀ result, Walks read tipHeight [] result ↔ result = samples) ∧
      samples.length = min 11 (tipHeight.toNat + 1) ∧
      (∀ index < samples.length, ∃ block,
        read (tipHeight - UInt64.ofNat index) = .ok (some block) ∧
          block.header.height = tipHeight - UInt64.ofNat index ∧
          samples[index]? = some block.header.timestamp) ∧
      (RpcHandler.medianTimePast tipHash).run.evaluate run.node.answer = .ok mtp ∧
      (∃ sorted : List UInt64, sorted.Perm samples ∧ sorted.Pairwise (· ≤ ·) ∧
        sorted[samples.length / 2]? = some mtp) ∧
      samples.length ≤ 2 * samples.countP (fun sample => mtp ≤ sample) ∧
      samples.length < 2 * samples.countP (fun sample => sample ≤ mtp) := by
  intro run read
  have chain : Chain run.committed := (NodeRun.chain_after offered).1
  have storage : run.engine.storage = ledger run.committed :=
    congrArg AuthorityEngine.storage (NodeRun.chain_after offered).2
  have window : RpcHandler.mtpWindowBlocks = 11 := rfl
  obtain ⟨tip, last⟩ := chain.exists_last
  have positive := chain.length_pos
  have height := chain.height_of_last last
  have inhabited := lastTimestamps_ne_nil (List.ne_nil_of_length_pos positive)
  obtain ⟨middle, upTo, downTo⟩ := median_spec inhabited 0
  rw [← medianTimeOf_eq (List.ne_nil_of_length_pos positive)] at middle upTo downTo
  refine ⟨tip.header.height, tip.blockHash,
    lastTimestamps RpcHandler.mtpWindowBlocks run.committed, medianTimeOf run.committed, ?_, ?_,
    ?_, ?_, evaluate_medianTimePast chain free run.node storage last,
    ⟨_, List.perm_insertionSort _ _, List.pairwise_insertionSort _ _, middle⟩, ?_, ?_⟩
  · rw [storage, getTip_ledger last]
  · intro result
    refine (walks_from_start_iff run.node tip.header.height result).trans ?_
    rw [evaluate_collectTimestamps_tip chain free run.node storage last, Except.ok.injEq, eq_comm]
  · rw [length_lastTimestamps, height, window, Nat.sub_add_cancel positive]
  · intro index inside
    have found := chain.lastTimestamps_at free last inside
    rwa [← storage] at found
  · omega
  · omega

end Window

section Sample

open Sample

attribute [local instance] Sample.crypto

/-- After one block on top of genesis the median is the later of two timestamps. -/
theorem medianTimePast_of_last_eleven_first :
    ∃ (samples : List UInt64) (mtp : UInt64), samples.length = 2 ∧
      (RpcHandler.medianTimePast firstHash).run.evaluate
        (NodeRun.after [firstDecoded]).node.answer = .ok mtp ∧
      ∀ sample ∈ samples, sample ≤ mtp := by
  have atTip : (NodeRun.after [firstDecoded]).engine.storage.getTip = some (1, firstHash) := by
    decide +kernel
  obtain ⟨tipHeight, tipHash, samples, mtp, tip, -, count, -, read, -, -, most⟩ :=
    medianTimePast_of_last_eleven [firstDecoded] (by decide +kernel)
  cases atTip.symm.trans tip
  have two : samples.length = 2 := count
  refine ⟨samples, mtp, two, read, ?_⟩
  have all : samples.countP (fun sample => sample ≤ mtp) = samples.length := by
    have atMost := List.countP_le_length (p := fun sample => decide (sample ≤ mtp)) (l := samples)
    omega
  simpa using List.countP_eq_length.mp all

end Sample

end Aurion
