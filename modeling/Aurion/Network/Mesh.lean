import Aurion.Foundation.Replication
import Aurion.Ledger.ChainIndex
import Aurion.Network.Gossip

/-!
# Nodes on the mesh

A node commits the blocks that its remote interface or its subscription gives it,
one after another, and broadcasts the submitted ones.  Frames on the topic may be
lost, repeated and reordered, and there is no other way for a block to reach a
node.  The committed chains are replicated logs.
-/

namespace Aurion

open Foundation

section Definition

/-- The nodes, and the frames that were ever put on the topic of new blocks. -/
structure Mesh (Peer : Type) where
  nodes : Peer → NodeRun
  published : List Bytes

/-- The remote interface of a peer reads a payload, its subscription a frame of the
topic.  Anyone may put a frame on the topic, and a peer may restart on its database. -/
inductive MeshEvent (Peer : Type)
  | submit (peer : Peer) (payload : Bytes)
  | deliver (peer : Peer) (raw : Bytes)
  | publish (raw : Bytes)
  | restart (peer : Peer)

variable [Crypto]

/-- The frame that `broadcast_block` puts on the topic. -/
def GossipEngine.broadcastBlock (block : Block) : Except NetworkError Bytes :=
  packFrame "block" block.encodeCanonical

/-- The block in a frame, when there is one. -/
def GossipEngine.announcedBlock (raw : Bytes) : Option Block :=
  (GossipEngine.decodeBlockFrame raw).toOption

/-- The block of a request that the remote interface can read. -/
def RpcRequest.submittedBlock (payload : Bytes) : Option Block :=
  if payload.length ≤ maxRpcFrameSize then
    match (decodeCanonical payload : Except CodecError RpcRequest) with
    | .ok (.submitBlock block) => some block
    | _ => none
  else none

namespace Mesh

variable {Peer : Type} [DecidableEq Peer]

def start : Mesh Peer := { nodes := fun _ => .start, published := [] }

/-- A committed block is broadcast; what does not fit into a frame is only logged. -/
def handleSubmitBlock (mesh : Mesh Peer) (peer : Peer) (block : Block) : Mesh Peer :=
  match (processAndCommitBlock block).run.run working (mesh.nodes peer).engine with
  | (.ok (), engine) =>
      { nodes := Function.update mesh.nodes peer
          { engine, committed := (mesh.nodes peer).committed ++ [block] }
        published := mesh.published ++ (GossipEngine.broadcastBlock block).toOption.toList }
  | (.error _, engine) =>
      { mesh with nodes := Function.update mesh.nodes peer { mesh.nodes peer with engine } }

/-- The listener for inbound blocks; it does not broadcast them again. -/
def inboundBlock (mesh : Mesh Peer) (peer : Peer) (block : Block) : Mesh Peer :=
  { mesh with nodes := Function.update mesh.nodes peer ((mesh.nodes peer).offer block) }

def step (mesh : Mesh Peer) : MeshEvent Peer → Mesh Peer
  | .submit peer payload =>
      (RpcRequest.submittedBlock payload).elim mesh (mesh.handleSubmitBlock peer)
  | .deliver peer raw =>
      if raw ∈ mesh.published then
        (GossipEngine.announcedBlock raw).elim mesh (mesh.inboundBlock peer)
      else mesh
  | .publish raw => { mesh with published := mesh.published ++ [raw] }
  | .restart peer =>
      { mesh with nodes := Function.update mesh.nodes peer (mesh.nodes peer).startUp }

def after (events : List (MeshEvent Peer)) : Mesh Peer := Steps.run step start events

/-- The blocks that a peer has committed. -/
def chain (mesh : Mesh Peer) (peer : Peer) : List Block := (mesh.nodes peer).committed

/-- The frames of the topic that come to a peer, in the order in which they come. -/
def received (peer : Peer) (events : List (MeshEvent Peer)) : List Bytes :=
  Steps.trace step (fun mesh event =>
    match event with
    | .deliver receiver raw => if receiver = peer ∧ raw ∈ mesh.published then some raw else none
    | _ => none) start events

end Mesh

/-- Blocks are submitted to one peer only, and nobody else puts frames on the topic. -/
def MeshEvent.By {Peer : Type} (writer : Peer) : MeshEvent Peer → Prop
  | .submit peer _ => peer = writer
  | .publish _ => False
  | .deliver _ _ | .restart _ => True

end Definition

section Nodes

variable [Crypto] {run : NodeRun} {block : Block}

/-- The node is the ledger of a chain. -/
def NodeRun.Sound (run : NodeRun) : Prop :=
  Chain run.committed ∧ run.engine =
    { state := .running, storage := ledger run.committed, cancelSignal := false }

namespace NodeRun.Sound

/-- The pipeline refuses a block or commits it on top of the chain. -/
theorem commit_cases (sound : run.Sound) (wellFormed : block.WellFormed) :
    (Accepts run.committed block ∧
      (processAndCommitBlock block).run.run working run.engine = (.ok (),
        { state := .running, storage := ledger (run.committed ++ [block])
          cancelSignal := false })) ∨
    ¬ Accepts run.committed block ∧ ∃ error,
      (processAndCommitBlock block).run.run working run.engine = (.error error, run.engine) := by
  obtain ⟨chain, engine⟩ := sound
  have decision := verdict_eq_ok_iff chain wellFormed false
  rw [← engine] at decision
  rw [run_processAndCommitBlock]
  cases verdicts : verdict run.engine block with
  | error error =>
      refine Or.inr ⟨fun accepts => ?_, error, rfl⟩
      cases verdicts.symm.trans ((decision _).mpr ⟨accepts, rfl⟩)
  | ok spentInputs =>
      obtain ⟨accepts, rfl⟩ := (decision spentInputs).mp verdicts
      exact Or.inl ⟨accepts, by simp [engine]⟩

theorem extend (sound : run.Sound) (accepts : Accepts run.committed block) :
    NodeRun.Sound
      { engine := { state := .running, storage := ledger (run.committed ++ [block])
                    cancelSignal := false }
        committed := run.committed ++ [block] } :=
  ⟨.extend sound.1 accepts, rfl⟩

/-- Offering a block to a node offers it to its log. -/
theorem offer (sound : run.Sound) (wellFormed : block.WellFormed) :
    (run.offer block).Sound ∧
      (run.offer block).committed = Replication.offered Accepts run.committed block := by
  obtain ⟨accepts, ran⟩ | ⟨refuses, error, ran⟩ := sound.commit_cases wellFormed
  · simp only [NodeRun.offer, ran, Replication.offered, if_pos accepts, and_true]
    exact sound.extend accepts
  · simp only [NodeRun.offer, ran, Replication.offered, if_neg refuses, and_true]
    exact sound

theorem startUp (sound : run.Sound) : run.startUp = run := by
  obtain ⟨chain, engine⟩ := sound
  obtain ⟨tip, last⟩ := chain.exists_last
  have found : run.engine.storage.getTip = some (tip.header.height, tip.blockHash) := by
    rw [engine, getTip_ledger last]
  have running : (initializeGenesis.run.run working (AuthorityEngine.new run.engine.storage)).2 =
      run.engine := by
    rw [run_initializeGenesis_of_tip found, engine]
  rw [NodeRun.startUp, running]

end NodeRun.Sound

theorem NodeRun.sound_start : NodeRun.start.Sound := NodeRun.chain_after []

theorem grown_iff_chain (committed : List Block) :
    Replication.Grown Accepts [createGenesisBlock] committed ↔ Chain committed := by
  constructor
  · intro grown
    induction grown with
    | initial => exact .genesis
    | extend _ accepted inductionHypothesis => exact .extend inductionHypothesis accepted
  · intro chain
    induction chain with
    | genesis => exact .initial
    | extend _ accepts inductionHypothesis => exact .extend inductionHypothesis accepts

/-- A block's position in a chain is its height. -/
theorem positioned_height :
    Replication.Positioned Accepts [createGenesisBlock] fun block => block.header.height.toNat where
  initial := fun _ _ found => Chain.genesis.height_eq found
  next := fun committed _ grown accepts =>
    ((grown_iff_chain committed).mp grown).height_of_accepts accepts

/-- The blocks of a chain up to a height are a chain. -/
theorem Chain.take {committed : List Block} (chain : Chain committed) (height : Nat) :
    Chain (committed.take (height + 1)) := by
  rw [← grown_iff_chain] at chain ⊢
  refine chain.of_prefix ?_ (List.take_prefix _ _)
  obtain ⟨rest, rfl⟩ := chain.start_le
  exact List.prefix_append _ _

/-- A block hash determines the headers below the block. -/
theorem Chain.header_eq_below {left right : List Block} (leftChain : Chain left)
    (rightChain : Chain right)
    (free : CollisionFree (left.flatMap Block.hashed ++ right.flatMap Block.hashed))
    {above : Nat} {leftAbove rightAbove : Block} (leftFound : left[above]? = some leftAbove)
    (rightFound : right[above]? = some rightAbove)
    (same : leftAbove.blockHash = rightAbove.blockHash) {below : Nat} (isBelow : below ≤ above) :
    left[below]?.map Block.header = right[below]?.map Block.header := by
  have last : ∀ {blocks : List Block} {block : Block}, blocks[above]? = some block →
      (blocks.take (above + 1)).getLast? = some block := by
    intro blocks block found
    rw [List.take_add_one, found]
    simp
  have covered : ∀ blocks : List Block,
      (blocks.take (above + 1)).flatMap Block.hashed ⊆ blocks.flatMap Block.hashed := fun blocks =>
    ((List.take_sublist _ blocks).flatMap Block.hashed).subset
  have headers := (leftChain.take above).headers_eq (rightChain.take above) free
    (List.Subset.trans (covered _) (List.subset_append_left _ _))
    (List.Subset.trans (covered _) (List.subset_append_right _ _))
    (last leftFound) (last rightFound) same
  have at_ := congrArg (·[below]?) headers
  simp only [List.getElem?_map] at at_
  rwa [List.getElem?_take_of_lt (Nat.lt_succ_of_le isBelow),
    List.getElem?_take_of_lt (Nat.lt_succ_of_le isBelow)] at at_

end Nodes

section Simulation

open GossipEngine RpcRequest

variable [Crypto] {Peer : Type} [DecidableEq Peer] {mesh : Mesh Peer}

omit [Crypto] in
theorem RpcRequest.submittedBlock_eq_some_iff (payload : Bytes) (block : Block) :
    submittedBlock payload = some block ↔
      payload.length ≤ maxRpcFrameSize ∧ block.WellFormed ∧
        payload = (RpcRequest.submitBlock block).encodeCanonical := by
  have decodes := decodeCanonical_eq_ok_iff RpcRequest.canonical payload (.submitBlock block)
  unfold submittedBlock
  split
  next small =>
    split
    next block' decoded =>
      rw [decoded, Except.ok.injEq, RpcRequest.submitBlock.injEq] at decodes
      rw [Option.some.injEq, and_iff_right small, decodes]
      rfl
    next other =>
      simp only [reduceCtorEq, false_iff]
      intro both
      exact other block (decodes.mpr both.2)
  next large => simp [large]

theorem GossipEngine.announcedBlock_eq_some_iff (raw : Bytes) (block : Block) :
    announcedBlock raw = some block ↔
      block.WellFormed ∧ unpackFrame raw = .ok ("block", block.encodeCanonical) := by
  refine Iff.trans ?_ (decodeFrame_eq_ok_iff Block.canonical "block" raw block)
  unfold announcedBlock decodeBlockFrame
  cases (decodeFrame "block" raw : Except NetworkError Block) <;> simp [Except.toOption]

/-- Whatever the remote interface reads is broadcast in a frame that carries it. -/
theorem GossipEngine.exists_broadcast {payload : Bytes} {block : Block}
    (submitted : submittedBlock payload = some block) :
    ∃ frame, broadcastBlock block = .ok frame ∧ announcedBlock frame = some block := by
  obtain ⟨small, wellFormed, rfl⟩ := (submittedBlock_eq_some_iff _ _).mp submitted
  have fits : block.encodeCanonical.length ≤ maxPayloadSize := by
    rw [RpcRequest.encodeCanonical, List.length_cons, maxRpcFrameSize] at small
    rw [maxPayloadSize]
    exact Nat.le_of_succ_le small
  have packed : broadcastBlock block =
      .ok (frameBytes (padCommand "block") block.encodeCanonical) :=
    (packFrame_eq_ok_iff _ _ _).mpr ⟨by decide +kernel, fits, rfl⟩
  refine ⟨_, packed, (announcedBlock_eq_some_iff _ _).mpr ⟨wellFormed, ?_⟩⟩
  exact unpackFrame_of_packFrame packed (by decide +kernel)

namespace Mesh

def Sound (mesh : Mesh Peer) : Prop := ∀ peer, (mesh.nodes peer).Sound

/-- The chains of the peers and the blocks on the topic, as replicated logs. -/
def logs (mesh : Mesh Peer) : Replication.Net Peer Block where
  log := mesh.chain
  announced := mesh.published.filterMap announcedBlock

end Mesh

/-- What an event does to the logs; most malformed data does nothing. -/
def MeshEvent.effect (mesh : Mesh Peer) : MeshEvent Peer → Option (Replication.Event Peer Block)
  | .submit peer payload => (submittedBlock payload).map (.submit peer)
  | .deliver peer raw =>
      if raw ∈ mesh.published then (announcedBlock raw).map (.deliver peer) else none
  | .publish raw => (announcedBlock raw).map .announce
  | .restart _ => none

omit [DecidableEq Peer] in
/-- Where the events of the logs come from. -/
theorem MeshEvent.effect_cases {event : MeshEvent Peer} {logEvent : Replication.Event Peer Block}
    (effected : event.effect mesh = some logEvent) :
    (∃ peer payload block, event = .submit peer payload ∧
      submittedBlock payload = some block ∧ logEvent = .submit peer block) ∨
    (∃ peer raw block, event = .deliver peer raw ∧ raw ∈ mesh.published ∧
      announcedBlock raw = some block ∧ logEvent = .deliver peer block) ∨
    ∃ raw block, event = .publish raw ∧ announcedBlock raw = some block ∧
      logEvent = .announce block := by
  cases event with
  | submit peer payload =>
      obtain ⟨block, submitted, rfl⟩ := Option.map_eq_some_iff.mp effected
      exact Or.inl ⟨peer, payload, block, rfl, submitted, rfl⟩
  | deliver peer raw =>
      simp only [MeshEvent.effect, Option.ite_none_right_eq_some, Option.map_eq_some_iff]
        at effected
      obtain ⟨published, block, announced, rfl⟩ := effected
      exact Or.inr (Or.inl ⟨peer, raw, block, rfl, published, announced, rfl⟩)
  | publish raw =>
      obtain ⟨block, announced, rfl⟩ := Option.map_eq_some_iff.mp effected
      exact Or.inr (Or.inr ⟨raw, block, rfl, announced, rfl⟩)
  | restart peer => cases effected

namespace Mesh

omit [Crypto] in
theorem chain_update (mesh : Mesh Peer) (peer : Peer) (run : NodeRun) (published : List Bytes) :
    Mesh.chain { nodes := Function.update mesh.nodes peer run, published } =
      Function.update mesh.chain peer run.committed :=
  Function.comp_update NodeRun.committed mesh.nodes peer run

theorem Sound.update (sound : mesh.Sound) {peer : Peer} {run : NodeRun} (runSound : run.Sound)
    (published : List Bytes) :
    Mesh.Sound { nodes := Function.update mesh.nodes peer run, published } := by
  intro other
  by_cases same : other = peer
  · subst same
    simpa using runSound
  · simpa [same] using sound other

theorem Sound.inboundBlock (sound : mesh.Sound) {block : Block} (wellFormed : block.WellFormed)
    (peer : Peer) :
    (mesh.inboundBlock peer block).Sound ∧
      (mesh.inboundBlock peer block).logs = mesh.logs.step Accepts (.deliver peer block) := by
  obtain ⟨offered, log⟩ := (sound peer).offer wellFormed
  refine ⟨sound.update offered _, ?_⟩
  rw [logs, Mesh.inboundBlock, chain_update, log]
  rfl

theorem Sound.handleSubmitBlock (sound : mesh.Sound) {payload : Bytes} {block : Block}
    (submitted : submittedBlock payload = some block) (peer : Peer) :
    (mesh.handleSubmitBlock peer block).Sound ∧
      (mesh.handleSubmitBlock peer block).logs = mesh.logs.step Accepts (.submit peer block) := by
  obtain ⟨frame, broadcast, announced⟩ := exists_broadcast submitted
  obtain ⟨-, wellFormed, -⟩ := (submittedBlock_eq_some_iff _ _).mp submitted
  have peerSound := sound peer
  obtain ⟨accepts, ran⟩ | ⟨refuses, error, ran⟩ := peerSound.commit_cases wellFormed
  · simp only [Mesh.handleSubmitBlock, ran, broadcast]
    refine ⟨sound.update (peerSound.extend accepts) _, ?_⟩
    have entered : mesh.logs.step Accepts (.submit peer block) =
        { log := Function.update mesh.chain peer (mesh.chain peer ++ [block])
          announced := mesh.published.filterMap announcedBlock ++ [block] } :=
      Replication.step_submit_of_accepts accepts
    rw [entered, logs, chain_update, List.filterMap_append]
    simp [Except.toOption, Option.toList, announced, Mesh.chain]
  · have same : mesh.handleSubmitBlock peer block = mesh := by
      simp only [Mesh.handleSubmitBlock, ran]
      exact congrArg (fun nodes => { mesh with nodes }) (Function.update_eq_self peer mesh.nodes)
    rw [same]
    exact ⟨sound, (Replication.step_submit_of_refuses refuses).symm⟩

/-- The nodes on the mesh simulate replicated logs. -/
theorem simulates_logs : Steps.Simulates (Mesh.step : Mesh Peer → MeshEvent Peer → Mesh Peer)
    (Replication.Net.step Accepts) Mesh.Sound Mesh.logs MeshEvent.effect := by
  have both : ∀ (mesh : Mesh Peer) (event : MeshEvent Peer), mesh.Sound →
      (mesh.step event).Sound ∧ (mesh.step event).logs =
        Steps.run (Replication.Net.step Accepts) mesh.logs (event.effect mesh).toList := by
    intro mesh event sound
    cases event with
    | submit peer payload =>
        cases submitted : submittedBlock payload with
        | none => simpa [Mesh.step, MeshEvent.effect, submitted] using sound
        | some block =>
            simpa [Mesh.step, MeshEvent.effect, submitted, Steps.run] using
              sound.handleSubmitBlock submitted peer
    | deliver peer raw =>
        by_cases published : raw ∈ mesh.published
        · cases announced : announcedBlock raw with
          | none => simpa [Mesh.step, MeshEvent.effect, published, announced] using sound
          | some block =>
              obtain ⟨wellFormed, -⟩ := (announcedBlock_eq_some_iff _ _).mp announced
              simpa [Mesh.step, MeshEvent.effect, published, announced, Steps.run] using
                sound.inboundBlock wellFormed peer
        · simpa [Mesh.step, MeshEvent.effect, published] using sound
    | publish raw =>
        refine ⟨sound, ?_⟩
        cases announced : announcedBlock raw with
        | none => simp [Mesh.step, MeshEvent.effect, logs, announced]; rfl
        | some block =>
            simp [Mesh.step, MeshEvent.effect, logs, announced, Steps.run, Replication.Net.step]
            rfl
    | restart peer =>
        have same : mesh.step (.restart peer) = mesh := by
          rw [Mesh.step, (sound peer).startUp, Function.update_eq_self]
        rw [same]
        exact ⟨sound, rfl⟩
  exact ⟨fun mesh event sound => (both mesh event sound).1,
    fun mesh event sound => (both mesh event sound).2⟩

end Mesh

end Simulation

section Runs

open GossipEngine RpcRequest

variable [Crypto] {Peer : Type} [DecidableEq Peer]

namespace Mesh

omit [DecidableEq Peer] in
theorem sound_start : (start : Mesh Peer).Sound := fun _ => NodeRun.sound_start

theorem after_concat (events : List (MeshEvent Peer)) (last : MeshEvent Peer) :
    after (events ++ [last]) = (after events).step last :=
  Steps.run_concat events last

theorem sound_after (events : List (MeshEvent Peer)) : (after events).Sound :=
  Steps.run_invariant sound_start simulates_logs.preserved events

/-- The events of the logs in a run. -/
def logEvents (events : List (MeshEvent Peer)) : List (Replication.Event Peer Block) :=
  Steps.trace step MeshEvent.effect start events

theorem logs_after (events : List (MeshEvent Peer)) :
    (after events).logs = Steps.run (Replication.Net.step Accepts)
      (Replication.Net.initial [createGenesisBlock]) (logEvents events) :=
  simulates_logs.run_trace sound_start events

theorem announced_logEvents (events : List (MeshEvent Peer)) :
    Steps.EachStep (Replication.Net.step Accepts) Replication.Announced
      (Replication.Net.initial [createGenesisBlock]) (logEvents events) := by
  refine simulates_logs.eachStep_trace sound_start ?_ events
  intro mesh event logEvent _ effected
  obtain ⟨_, _, _, -, -, rfl⟩ | ⟨_, raw, block, -, published, announced, rfl⟩ | ⟨_, _, -, -, rfl⟩ :=
    MeshEvent.effect_cases effected
  · trivial
  · exact List.mem_filterMap.mpr ⟨raw, published, announced⟩
  · trivial

theorem by_of_mem_logEvents {writer : Peer} {events : List (MeshEvent Peer)}
    (single : ∀ event ∈ events, event.By writer) {logEvent : Replication.Event Peer Block}
    (found : logEvent ∈ logEvents events) : logEvent.By writer := by
  obtain ⟨mesh, event, isEvent, effected⟩ := Steps.mem_trace found
  have byWriter := single event isEvent
  obtain ⟨_, _, _, rfl, -, rfl⟩ | ⟨_, _, _, -, -, -, rfl⟩ | ⟨_, _, rfl, -, -⟩ :=
    MeshEvent.effect_cases effected
  · exact byWriter
  · trivial
  · exact byWriter.elim

/-- With a single writer all chains follow the writer's. -/
theorem follows_after {writer : Peer} {events : List (MeshEvent Peer)}
    (single : ∀ event ∈ events, event.By writer) :
    Replication.Follows Accepts [createGenesisBlock] writer (after events).logs := by
  rw [logs_after]
  exact Replication.follows_run positioned_height (announced_logEvents events)
    fun logEvent found => by_of_mem_logEvents single found

/-- A step leaves a chain as it is or puts one block on top. -/
theorem chain_step_cases {mesh : Mesh Peer} (sound : mesh.Sound) (event : MeshEvent Peer)
    (peer : Peer) :
    (mesh.step event).chain peer = mesh.chain peer ∨
      ∃ block, (mesh.step event).chain peer = mesh.chain peer ++ [block] := by
  have simulated := simulates_logs.simulated mesh event sound
  cases effected : event.effect mesh with
  | none =>
      rw [effected] at simulated
      exact Or.inl (congrArg (fun net => net.log peer) simulated)
  | some logEvent =>
      rw [effected] at simulated
      have stepped : (mesh.step event).chain peer =
          (mesh.logs.step Accepts logEvent).log peer :=
        congrArg (fun net => net.log peer) simulated
      rw [stepped]
      exact (Replication.log_step_cases Accepts mesh.logs logEvent peer).imp id
        fun ⟨block, _, _, extended⟩ => ⟨block, extended⟩

theorem prefix_chain_after (earlier later : List (MeshEvent Peer)) (peer : Peer) :
    (after earlier).chain peer <+: (after (earlier ++ later)).chain peer := by
  induction later using List.reverseRecOn with
  | nil => rw [List.append_nil]
  | append_singleton later last inductionHypothesis =>
      rw [← List.append_assoc, after_concat]
      apply inductionHypothesis.trans
      obtain unchanged | ⟨block, extended⟩ := chain_step_cases (sound_after _) last peer
      · exact unchanged ▸ List.prefix_refl _
      · exact extended ▸ List.prefix_append _ _

omit [DecidableEq Peer] in
/-- A node is determined by its chain. -/
theorem Sound.nodes_eq {left right : Mesh Peer} (leftSound : left.Sound)
    (rightSound : right.Sound) {leftPeer rightPeer : Peer}
    (same : left.chain leftPeer = right.chain rightPeer) :
    left.nodes leftPeer = right.nodes rightPeer := by
  have engines := (leftSound leftPeer).2
  have chains : (left.nodes leftPeer).committed = (right.nodes rightPeer).committed := same
  rw [chains, ← (rightSound rightPeer).2] at engines
  exact congrArg₂ NodeRun.mk engines chains

/-- A chain has passed through all its prefixes. -/
theorem exists_past_chain (events : List (MeshEvent Peer)) (peer : Peer) {blocks : List Block}
    (begins : [createGenesisBlock] <+: blocks) (isPrefix : blocks <+: (after events).chain peer) :
    ∃ past, past <+: events ∧ (after past).chain peer = blocks := by
  induction events using List.reverseRecOn with
  | nil => exact ⟨[], List.prefix_refl _, begins.eq_of_length_le isPrefix.length_le⟩
  | append_singleton events last inductionHypothesis =>
      have earlier : blocks <+: (after events).chain peer →
          ∃ past, past <+: events ++ [last] ∧ (after past).chain peer = blocks := by
        intro before
        obtain ⟨past, isPast, reached⟩ := inductionHypothesis before
        exact ⟨past, isPast.trans (List.prefix_append _ _), reached⟩
      rw [after_concat] at isPrefix
      obtain unchanged | ⟨block, extended⟩ := chain_step_cases (sound_after events) last peer
      · exact earlier (unchanged ▸ isPrefix)
      · have cases_ := List.prefix_concat_iff.mp (extended ▸ isPrefix)
        obtain whole | before := cases_
        · refine ⟨events ++ [last], List.prefix_refl _, ?_⟩
          rw [after_concat, whole]
          exact extended
        · exact earlier before

/-- While blocks are submitted to one peer only, every other node is in a state in
which that peer was before: its chain is a part of that peer's, whatever the
network loses, repeats or exchanges and whoever restarts. -/
theorem replicas_lag {writer : Peer} {events : List (MeshEvent Peer)}
    (single : ∀ event ∈ events, event.By writer) (peer : Peer) :
    (after events).chain peer <+: (after events).chain writer ∧
      ∃ past, past <+: events ∧ (after events).nodes peer = (after past).nodes writer := by
  have follows := follows_after single
  have behind : (after events).chain peer <+: (after events).chain writer := follows.behind peer
  obtain ⟨past, isPast, reached⟩ := exists_past_chain events writer
    (follows.grown peer).start_le behind
  exact ⟨behind, past, isPast, (sound_after events).nodes_eq (sound_after past) reached.symm⟩

/-- However many peers blocks are submitted to: what a node has committed besides
the genesis block was submitted to some node that has committed it. -/
theorem blocks_originate {events : List (MeshEvent Peer)}
    (inside : ∀ raw, .publish raw ∉ events) {peer : Peer} {block : Block}
    (committed : block ∈ (after events).chain peer) :
    block = createGenesisBlock ∨ ∃ origin payload, .submit origin payload ∈ events ∧
      submittedBlock payload = some block ∧ block ∈ (after events).chain origin := by
  have announced := announced_logEvents events
  have noneAnnounced : ∀ block, .announce block ∉ logEvents events := by
    intro block found
    obtain ⟨mesh, event, isEvent, effected⟩ := Steps.mem_trace found
    obtain ⟨_, _, _, -, -, ⟨⟩⟩ | ⟨_, _, _, -, -, -, ⟨⟩⟩ | ⟨raw, _, rfl, -, -⟩ :=
      MeshEvent.effect_cases effected
    exact inside raw isEvent
  have originates : block ∈ _ → _ :=
    (Replication.originates_run announced noneAnnounced).1 peer
  rw [← logs_after] at originates
  obtain isGenesis | ⟨origin, submitted, taken⟩ := originates committed
  · exact Or.inl (List.mem_singleton.mp isGenesis)
  · obtain ⟨mesh, event, isEvent, effected⟩ := Steps.mem_trace submitted
    obtain ⟨_, payload, _, rfl, isBlock, ⟨⟩⟩ | ⟨_, _, _, -, -, -, ⟨⟩⟩ | ⟨_, _, -, -, ⟨⟩⟩ :=
      MeshEvent.effect_cases effected
    exact Or.inr ⟨origin, payload, isEvent, isBlock, taken⟩

/-- There is no way back from a fork: chains that differ at a height are kept as they
are, whatever else happens, and above that height the nodes have no block and no
block hash in common. -/
theorem forks_are_permanent (earlier later : List (MeshEvent Peer)) (left right : Peer)
    (free : CollisionFree (((after (earlier ++ later)).nodes left).hashed ++
      ((after (earlier ++ later)).nodes right).hashed))
    {height : Nat} {leftBlock rightBlock : Block}
    (leftAt : ((after earlier).chain left)[height]? = some leftBlock)
    (rightAt : ((after earlier).chain right)[height]? = some rightBlock)
    (forked : leftBlock.header ≠ rightBlock.header) :
    ((after earlier).chain left <+: (after (earlier ++ later)).chain left ∧
      (after earlier).chain right <+: (after (earlier ++ later)).chain right) ∧
    (∀ above, height ≤ above → ∀ leftAbove rightAbove,
      ((after (earlier ++ later)).chain left)[above]? = some leftAbove →
      ((after (earlier ++ later)).chain right)[above]? = some rightAbove →
      leftAbove.blockHash ≠ rightAbove.blockHash) ∧
    ∀ block ∈ (after (earlier ++ later)).chain left,
      block ∈ (after (earlier ++ later)).chain right →
      block.header.height.toNat < height := by
  have leftKept := prefix_chain_after earlier later left
  have rightKept := prefix_chain_after earlier later right
  have sound := sound_after (earlier ++ later)
  have leftChain := (sound left).1
  have rightChain := (sound right).1
  have apart : ∀ above, height ≤ above → ∀ leftAbove rightAbove,
      ((after (earlier ++ later)).chain left)[above]? = some leftAbove →
      ((after (earlier ++ later)).chain right)[above]? = some rightAbove →
      leftAbove.blockHash ≠ rightAbove.blockHash := by
    intro above aboveFork leftAbove rightAbove leftFound rightFound same
    apply forked
    have below := leftChain.header_eq_below rightChain free leftFound rightFound same aboveFork
    have kept : ∀ {before after : List Block} {block : Block}, before <+: after →
        before[height]? = some block → after[height]? = some block := by
      intro before after block isPrefix found
      obtain ⟨rest, rfl⟩ := isPrefix
      rwa [List.getElem?_append_left (List.getElem?_eq_some_iff.mp found).1]
    have leftNow := kept leftKept leftAt
    have rightNow := kept rightKept rightAt
    rw [Mesh.chain] at leftNow rightNow
    rwa [leftNow, rightNow, Option.map_some, Option.map_some, Option.some.injEq] at below
  refine ⟨⟨leftKept, rightKept⟩, apart, ?_⟩
  intro block inLeft inRight
  obtain ⟨index, leftFound⟩ := List.getElem?_of_mem inLeft
  obtain ⟨index', rightFound⟩ := List.getElem?_of_mem inRight
  have leftHeight := leftChain.height_eq leftFound
  have rightHeight := rightChain.height_eq rightFound
  apply Nat.lt_of_not_le
  intro above
  rw [← leftHeight] at leftFound
  rw [← rightHeight] at rightFound
  exact apart _ above _ _ leftFound rightFound rfl

end Mesh

end Runs

namespace Sample

/-! Two peers that exchange the frames of short chains. -/

def firstPayload : Bytes := (RpcRequest.submitBlock first).encodeCanonical

def secondPayload : Bytes := (RpcRequest.submitBlock second).encodeCanonical

def rivalPayload : Bytes := (RpcRequest.submitBlock rival).encodeCanonical

def payloadDigests : List (Bytes × Hash256) := [
  (first.encodeCanonical,
    Hash256.ofNat 0x1c12cdd324b5f865d6fe12da685926420d71aa5f0d104fb0933574779ba3f3f3),
  (second.encodeCanonical,
    Hash256.ofNat 0x244d11319913b75a0d0261f81b19be4e63f0a223cdcf4406c8b3be17576d26c8),
  (rival.encodeCanonical,
    Hash256.ofNat 0x986af8de817f489df1e0230227aec979a31b66a0021e1a58f5d280eb52d248b5)]

abbrev meshCrypto : Crypto := Crypto.ofTables (digests ++ payloadDigests) []

/-- The frame that carries a block. -/
def blockFrame [Crypto] (block : Block) : Bytes :=
  frameBytes (padCommand "block") block.encodeCanonical

end Sample

section Sample

open Sample

attribute [local instance] Sample.meshCrypto

/-- Two blocks are submitted; the second frame comes too early and the first one twice. -/
def Sample.reordered : List (MeshEvent Bool) := [
  .submit true firstPayload, .submit true secondPayload, .deliver false (blockFrame second),
  .deliver false (blockFrame first), .restart false, .deliver false (blockFrame first)]

/-- Competing blocks are submitted, and each frame comes to the other peer. -/
def Sample.competing : List (MeshEvent Bool) := [
  .submit true firstPayload, .submit false rivalPayload, .deliver false (blockFrame first),
  .deliver true (blockFrame rival)]

theorem single_reordered : ∀ event ∈ Sample.reordered, event.By true := by
  simp [Sample.reordered, MeshEvent.By]

namespace Mesh

theorem replicas_lag_reordered :
    (after Sample.reordered).chain false = [createGenesisBlock, first] ∧
      (after Sample.reordered).chain true = [createGenesisBlock, first, second] ∧
      ∃ past, past <+: Sample.reordered ∧
        (after Sample.reordered).nodes false = (after past).nodes true :=
  ⟨by decide +kernel, by decide +kernel, (replicas_lag single_reordered false).2⟩

theorem blocks_originate_competing :
    ∃ origin payload, .submit origin payload ∈ Sample.competing ∧
      RpcRequest.submittedBlock payload = some rival ∧
      rival ∈ (after Sample.competing).chain origin :=
  have committed : rival ∈ (after Sample.competing).chain false := by decide +kernel
  (blocks_originate (by simp [Sample.competing]) committed).resolve_left (by decide +kernel)

theorem forks_are_permanent_competing :
    second ∈ (after (Sample.competing ++ [.submit true secondPayload])).chain true ∧
      second ∉ (after (Sample.competing ++ [.submit true secondPayload])).chain false := by
  have firstAt : ((after Sample.competing).chain true)[1]? = some first := by decide +kernel
  have rivalAt : ((after Sample.competing).chain false)[1]? = some rival := by decide +kernel
  have committed : second ∈
      (after (Sample.competing ++ [.submit true secondPayload])).chain true := by
    decide +kernel
  refine ⟨committed, ?_⟩
  intro common
  exact absurd ((forks_are_permanent Sample.competing [.submit true secondPayload] true false
    (by decide +kernel) firstAt rivalAt (by decide +kernel)).2.2 second committed common)
    (by decide)

end Mesh

end Sample

end Aurion
