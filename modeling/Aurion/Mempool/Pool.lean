import Aurion.Ledger.Run
import Aurion.Mempool.FeeRate
import Aurion.Mempool.Validation

/-!
# The pool of staged transactions

Entries are kept under their transaction ids, with an ordered index of fee
rates, a table of reserved outpoints and a byte count.  A call returns its
result and the pool it leaves; a refused insertion returns the pool it found.
-/

namespace Aurion

open Foundation

structure MempoolEntry where
  tx : Transaction
  txid : Hash256
  sizeBytes : Nat
  fee : Quantum
  addedTimestamp : UInt64
  deriving DecidableEq

namespace MempoolEntry

def new [Crypto] (tx : Transaction) (fee : Quantum) (addedTimestamp : UInt64) : MempoolEntry where
  tx := tx
  txid := tx.txid
  sizeBytes := tx.encodeCanonical.length
  fee := fee
  addedTimestamp := addedTimestamp

def rateIndex (entry : MempoolEntry) : FeeRateIndex :=
  { fee := entry.fee, sizeBytes := entry.sizeBytes, txid := entry.txid }

end MempoolEntry

structure Mempool where
  byTxid : Table Hash256 MempoolEntry
  byFeeRate : List FeeRateIndex
  spentOutpoints : Table OutPoint Hash256
  totalBytes : Nat
  maxBytes : Nat

/-- `usize::saturating_add` on a 64-bit machine. -/
def saturatingAddUsize (left right : Nat) : Nat := min (left + right) (2 ^ 64 - 1)

/-- The outpoints consumed by a block, those of coinbase inputs included. -/
def Block.blockSpent (block : Block) : List OutPoint :=
  block.transactions.flatMap Transaction.outPoints

namespace Mempool

def new (maxBytes : Nat) : Mempool := ⟨∅, [], ∅, 0, maxBytes⟩

def len (pool : Mempool) : Nat := pool.byTxid.entries.length

def removeByIndex (pool : Mempool) (index : FeeRateIndex) : Mempool :=
  { pool with byFeeRate := OrderedSet.remove FeeRateIndex.cmp index pool.byFeeRate }

/-- Give up the reservations and the bytes of an entry. -/
def release (pool : Mempool) (entry : MempoolEntry) : Mempool :=
  { pool with
    spentOutpoints := pool.spentOutpoints.eraseAll entry.tx.outPoints
    totalBytes := pool.totalBytes - entry.sizeBytes }

def evict (pool : Mempool) (victimIndex : FeeRateIndex) : Mempool :=
  let victimTxid := victimIndex.txid
  let pool := pool.removeByIndex victimIndex
  match pool.byTxid.lookup victimTxid with
  | some victimEntry =>
      { pool with byTxid := pool.byTxid.erase victimTxid }.release victimEntry
  | none => pool

/-- Capacity management: the cheapest entry makes room for a better one. -/
def makeRoom (pool : Mempool) (sizeBytes : Nat) (incomingIndex : FeeRateIndex) :
    Except MempoolReject Unit × Mempool :=
  let newTotal := pool.totalBytes + sizeBytes
  if newTotal < 2 ^ 64 then
    if newTotal > pool.maxBytes then
      match pool.byFeeRate.head? with
      | some victimIndex =>
          if incomingIndex.beats victimIndex then (.ok (), pool.evict victimIndex)
          else (.error .mempoolFull, pool)
      | none => (.error .mempoolFull, pool)
    else (.ok (), pool)
  else (.error .arithmeticOverflow, pool)

def register (pool : Mempool) (entry : MempoolEntry) (incomingIndex : FeeRateIndex) : Mempool :=
  let txid := entry.txid
  { pool with
    spentOutpoints := pool.spentOutpoints.insertAll (entry.tx.outPoints.map fun op => (op, txid))
    totalBytes := saturatingAddUsize pool.totalBytes entry.sizeBytes
    byFeeRate := OrderedSet.insert FeeRateIndex.cmp incomingIndex pool.byFeeRate
    byTxid := pool.byTxid.insert txid entry }

variable [Crypto]

/-- What an insertion does once the gates have answered. -/
def stage (pool : Mempool) (tx : Transaction) (now : UInt64)
    (validated : Except MempoolReject Quantum) : Except MempoolReject Hash256 × Mempool :=
  match validated with
  | .error reject => (.error reject, pool)
  | .ok txFee =>
      let entry := MempoolEntry.new tx txFee now
      let incomingIndex := entry.rateIndex
      match pool.makeRoom entry.sizeBytes incomingIndex with
      | (.error reject, pool) => (.error reject, pool)
      | (.ok (), pool) => (.ok entry.txid, pool.register entry incomingIndex)

def insert (pool : Mempool) (tx : Transaction) (utxoView : UtxoView)
    (tipHeight mtp now : UInt64) : Except MempoolReject Hash256 × Mempool :=
  pool.stage tx now (validateAgainst tx utxoView pool.spentOutpoints tipHeight mtp)

omit [Crypto] in
def remove (pool : Mempool) (txid : Hash256) : Option MempoolEntry × Mempool :=
  match pool.byTxid.lookup txid with
  | none => (none, pool)
  | some entry =>
      let released := { pool with byTxid := pool.byTxid.erase txid }.release entry
      (some entry, released.removeByIndex entry.rateIndex)

omit [Crypto] in
/-- The scan from the highest fee rate on, with the bytes taken so far. -/
def selectFrom (pool : Mempool) (maxBlockBytes : Nat) :
    List FeeRateIndex → Nat → List Transaction
  | [], _ => []
  | rateIdx :: rest, accumulated =>
      match pool.byTxid.lookup rateIdx.txid with
      | none => selectFrom pool maxBlockBytes rest accumulated
      | some entry =>
          let newSize := accumulated + entry.sizeBytes
          if newSize < 2 ^ 64 then
            if newSize > maxBlockBytes then selectFrom pool maxBlockBytes rest accumulated
            else entry.tx :: selectFrom pool maxBlockBytes rest newSize
          else []

omit [Crypto] in
def selectTransactionsForBlock (pool : Mempool) (maxBlockBytes : Nat) : List Transaction :=
  pool.selectFrom maxBlockBytes pool.byFeeRate.reverse 0

/-- The loop over the transactions of a block: those that are staged leave. -/
def removeConfirmed (pool : Mempool) (txs : List Transaction) : Mempool :=
  txs.foldl (fun pool tx =>
    let txid := tx.txid
    if (pool.byTxid.lookup txid).isSome then (pool.remove txid).2 else pool) pool

omit [Crypto] in
def removeAll (pool : Mempool) (txids : List Hash256) : Mempool :=
  txids.foldl (fun pool txid => (pool.remove txid).2) pool

def processCommittedBlock (pool : Mempool) (block : Block) : Mempool :=
  let pool := pool.removeConfirmed block.transactions
  let conflictingTxids := block.blockSpent.filterMap fun op => pool.spentOutpoints.lookup op
  pool.removeAll conflictingTxids

end Mempool

namespace Sample

/-! Transactions to be staged, with their Blake3 digests. -/

def spending (outpoint : OutPoint) (unlockingScript : Bytes) : TxInput where
  previousOutput := outpoint
  unlockingScript := unlockingScript
  sequence := 0xFFFFFFFF
  redeemer := none

def spend (inputs : List TxInput) (values : List Nat) : Transaction where
  version := 1
  inputs := inputs
  outputs := values.map unlocked
  locktime := 0

def coinbaseOutput : OutPoint := { txid := coinbaseId, vout := 0 }

/-- A spend of the first coinbase with a fee of 1000. -/
def cheap : Transaction := spend [spending coinbaseOutput []] [4000]

def cheapId : Hash256 :=
  Hash256.ofNat 0x37300de5391ae4d5ce58e00a0780a8bb51e1a86da4388061520123c91eafb9b9

/-- A larger spend of the other coinbase with a fee of 2000. -/
def bulky : Transaction := spend [spending { txid := laterCoinbaseId, vout := 0 } []] [1500, 1500]

/-- A spend that lists the first coinbase twice. -/
def doubled : Transaction :=
  spend [spending coinbaseOutput [], spending coinbaseOutput []] [8000]

/-- A spend whose unlocking script demands the validation height 2. -/
def expiring : Transaction :=
  spend [spending coinbaseOutput [0xc7, 8, 2, 0, 0, 0, 0, 0, 0, 0, 0x88]] [4000]

def expiringId : Hash256 :=
  Hash256.ofNat 0x56f817ca041229d8d1fd58a1dd0c4d0b72294926269e8ec303015ec029e7ed90

/-- A block after the first one that spends nothing. -/
def quiet : Block where
  header := header firstHash laterCoinbaseId 1773446520 1 2
  transactions := [laterCoinbase]

def stagedDigests : List (Bytes × Hash256) := [
  (cheap.encodeCanonical, cheapId),
  (bulky.encodeCanonical,
    Hash256.ofNat 0x49d7f889e05ba73a59efd5842b2c256ff16720508ed7caebb5e523aa58d7071d),
  (doubled.encodeCanonical,
    Hash256.ofNat 0xb5946a07b9a1aa6db690b24ab5725725e3f633c3598f5fe94d4b4f38c8d0807f),
  (expiring.encodeCanonical, expiringId),
  (cheap.sighashPreimage 0,
    Hash256.ofNat 0xcfbd431f2d81e537cbc77ab0c40a7e18847f2104c670f210c291297ce0eee7d6),
  (bulky.sighashPreimage 0,
    Hash256.ofNat 0xf568ff76ae30726c85617cbda8f5699e850d9e6537c06b47aa0b5f693aa0b553),
  (doubled.sighashPreimage 0,
    Hash256.ofNat 0x5c9c75db83613b57d89057a63b6b31cff56fd8746f23b0190e1e04e4484bd625),
  (doubled.sighashPreimage 1,
    Hash256.ofNat 0x90646d50a5a92455bb4aea1043ed36c5fadcf31a989bafff4335a07f7e1dbd38),
  (quiet.header.encodeCanonical,
    Hash256.ofNat 0x033f15ef834d2462b2abb747a67ab2696afc5f49ef68501912c9a048aa8df391)]

abbrev stagingCrypto : Crypto := Crypto.ofTables (digests ++ stagedDigests) []

/-- A view in which every outpoint holds 5000. -/
def plenty : UtxoView := fun _ => some (.fromOutput (unlocked 5000) 0 false)

end Sample

end Aurion
