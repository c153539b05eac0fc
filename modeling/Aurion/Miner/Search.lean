import Aurion.Foundation.Search
import Aurion.Miner.SolvedTemplate

/-!
# The search for a nonce

The workers of `mine_candidate` test batches of consecutive nonces, each behind the
last one, until a header meets the target.  Which worker tests which nonce and when
is left open, and so is the choice between several nonces of a batch.
-/

namespace Aurion

open Foundation

namespace Miner

def batchSizePerRound : Nat := 500000

/-- The offsets that are handed out to the workers. -/
def offsets : List Nat := List.range batchSizePerRound

/-- The first nonce of a round; the addition wraps around. -/
def baseNonce : Nat → UInt64
  | 0 => 0
  | round + 1 => baseNonce round + UInt64.ofNat batchSizePerRound

variable [Crypto]

/-- The test of one nonce, without the look at the flag before it. -/
def probeNonce (header : BlockHeader) (target : Hash256) (batchBase : UInt64) (offset : Nat) :
    Option UInt64 :=
  let nonce := batchBase + UInt64.ofNat offset
  let probe := { header with nonce }
  let digest := Hash256.digest probe.encodeCanonical
  if digest.asBytes ≤ target.asBytes then some nonce else none

/-- The state of `mine_candidate` after the events. -/
def mineCandidate (header : BlockHeader) (target : Hash256) (events : List (Search.Event Nat)) :
    Search Nat UInt64 :=
  Steps.run (Search.step offsets fun round => probeNonce header target (baseNonce round))
    Search.start events

/-- The header that `mine_candidate` has returned. -/
def solvedHeader (header : BlockHeader) (target : Hash256) (events : List (Search.Event Nat)) :
    Option BlockHeader :=
  (mineCandidate header target events).result.map fun nonce => { header with nonce }

/-- The header meets the target with the nonce. -/
def SolvesWith (header : BlockHeader) (target : Hash256) (nonce : UInt64) : Prop :=
  ({ header with nonce } : BlockHeader).blockHash.asBytes ≤ target.asBytes

/-- The round that tests the nonce. -/
def roundOf (nonce : UInt64) : Nat := nonce.toNat / batchSizePerRound

section Rounds

variable {header : BlockHeader} {target : Hash256}

omit [Crypto] in
theorem baseNonce_eq (round : Nat) :
    baseNonce round = UInt64.ofNat (round * batchSizePerRound) := by
  induction round with
  | zero => rfl
  | succ round inductionHypothesis =>
      rw [baseNonce, inductionHypothesis, Nat.succ_mul, UInt64.ofNat_add]

theorem probeNonce_eq_some_iff (round offset : Nat) (nonce : UInt64) :
    probeNonce header target (baseNonce round) offset = some nonce ↔
      nonce = UInt64.ofNat (round * batchSizePerRound + offset) ∧
        SolvesWith header target nonce := by
  rw [UInt64.ofNat_add, ← baseNonce_eq]
  unfold probeNonce
  dsimp only
  constructor
  · intro found
    split at found
    next solves =>
      cases found
      exact ⟨rfl, solves⟩
    next => cases found
  · intro both
    obtain ⟨rfl, solves⟩ := both
    exact if_pos solves

/-- A nonce is tested in its round. -/
theorem probeNonce_roundOf {nonce : UInt64} (solves : SolvesWith header target nonce) :
    nonce.toNat % batchSizePerRound ∈ offsets ∧
      probeNonce header target (baseNonce (roundOf nonce)) (nonce.toNat % batchSizePerRound) =
        some nonce := by
  refine ⟨List.mem_range.mpr (Nat.mod_lt _ (by decide)), ?_⟩
  rw [probeNonce_eq_some_iff]
  refine ⟨?_, solves⟩
  rw [roundOf, Nat.div_add_mod', UInt64.ofNat_toNat]

/-- The rounds up to that of a solving nonce have a result. -/
theorem exists_result {nonce : UInt64} (solves : SolvesWith header target nonce)
    (stretches : List (Search.Stretch offsets)) (many : roundOf nonce < stretches.length) :
    ∃ found, (mineCandidate header target (Search.Stretch.all stretches)).result = some found := by
  obtain ⟨isOffset, found⟩ := probeNonce_roundOf solves
  exact Option.isSome_iff_exists.mp
    (Search.result_of_stretches (fun round => probeNonce header target (baseNonce round))
      isOffset found stretches many)

end Rounds

/-- Whatever the workers do, a header that is returned is the candidate with a nonce
that meets the target, and no nonce of an earlier round meets it. -/
theorem mine_candidate_sound (header : BlockHeader) (target : Hash256)
    (events : List (Search.Event Nat)) {solved : BlockHeader}
    (returned : solvedHeader header target events = some solved) :
    ∃ nonce, solved = { header with nonce } ∧ SolvesWith header target nonce ∧
      ∀ other, SolvesWith header target other → roundOf nonce ≤ roundOf other := by
  obtain ⟨nonce, result, rfl⟩ := Option.map_eq_some_iff.mp returned
  obtain ⟨round, ⟨offset, isOffset, tested⟩, earlier⟩ :=
    Search.result_in_first_round offsets _ events result
  obtain ⟨isNonce, solves⟩ := (probeNonce_eq_some_iff _ _ _).mp tested
  have first : ∀ other, SolvesWith header target other → round ≤ roundOf other := by
    intro other solvesOther
    obtain ⟨isOffset, found⟩ := probeNonce_roundOf solvesOther
    by_contra below
    have nothing := earlier _ (Nat.lt_of_not_le below) _ isOffset
    exact absurd (nothing.symm.trans found) nofun
  have within : roundOf nonce ≤ round := by
    have small : offset < batchSizePerRound := List.mem_range.mp isOffset
    have positive : 0 < batchSizePerRound := by decide
    have wrapped : nonce.toNat ≤ round * batchSizePerRound + offset := by
      rw [isNonce, UInt64.toNat_ofNat']
      exact Nat.mod_le _ _
    apply Nat.le_of_lt_succ
    apply (Nat.div_lt_iff_lt_mul positive).mpr
    rw [Nat.succ_mul]
    omega
  exact ⟨nonce, rfl, solves, fun other solvesOther => within.trans (first other solvesOther)⟩

/-- If a nonce meets the target, the search returns within the rounds up to that of the
nonce, however the workers are scheduled, as long as each nonce gets its turns. -/
theorem mine_candidate_finds (header : BlockHeader) (target : Hash256) {nonce : UInt64}
    (solves : SolvesWith header target nonce) (stretches : List (Search.Stretch offsets))
    (many : roundOf nonce < stretches.length) :
    ∃ solved, solvedHeader header target (Search.Stretch.all stretches) = some solved := by
  obtain ⟨found, result⟩ := exists_result solves stretches many
  exact ⟨{ header with nonce := found }, by rw [solvedHeader, result, Option.map_some]⟩

end Miner

section Sample

open Sample Miner

attribute [local instance] Sample.crypto

/-- The target that every hash meets. -/
def Sample.easiest : Hash256 := Hash256.ofNat (2 ^ 256 - 1)

theorem Sample.solvesWith_easiest (header : BlockHeader) (nonce : UInt64) :
    SolvesWith header easiest nonce := by
  have below (hash : Hash256) : hash.toNat < 256 ^ 32 :=
    (beValue_lt hash.asBytes).trans_eq (congrArg (256 ^ ·) hash.size)
  have top : easiest.toNat = 256 ^ 32 - 1 := by decide +kernel
  refine (le_iff_toNat_le _ _).mpr ?_
  rw [top]
  exact Nat.le_sub_one_of_lt (below _)

theorem Sample.roundOf_zero : roundOf 0 < 1 :=
  Nat.lt_of_le_of_lt (Nat.le_of_eq (Nat.zero_div _)) Nat.one_pos

/-- Two turns for each nonce of a round. -/
def Sample.workTwice : List (Search.Event Nat) := offsets.map .work ++ offsets.map .work

theorem Sample.workTwice_fair : ∀ offset ∈ offsets, 2 ≤ Search.turns workTwice offset := by
  intro offset isOffset
  have once : 1 ≤ (offsets.map Search.Event.work).count (.work offset) :=
    List.count_pos_iff.mpr (List.mem_map_of_mem isOffset)
  rw [Search.turns, workTwice, List.count_append]
  omega

def Sample.stretch : Search.Stretch offsets where
  events := workTwice
  choice := 0
  fair := workTwice_fair

theorem mine_candidate_sound_easiest :
    ∃ nonce, SolvesWith first.header easiest nonce ∧
      ∀ other, SolvesWith first.header easiest other → roundOf nonce ≤ roundOf other := by
  obtain ⟨found, result⟩ :=
    exists_result (solvesWith_easiest first.header 0) [stretch] roundOf_zero
  have returned : solvedHeader first.header easiest (Search.Stretch.all [stretch]) =
      some { first.header with nonce := found } := by
    rw [solvedHeader, result, Option.map_some]
  obtain ⟨nonce, -, solves⟩ := mine_candidate_sound first.header easiest _ returned
  exact ⟨nonce, solves⟩

theorem mine_candidate_finds_easiest :
    ∃ solved, solvedHeader first.header easiest (Search.Stretch.all [stretch]) = some solved :=
  mine_candidate_finds first.header easiest (solvesWith_easiest first.header 0) [stretch]
    roundOf_zero

end Sample

end Aurion
