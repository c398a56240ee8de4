import Zcashd.Source.ContextualCheck
import Zcashd.Source.MempoolLimit

/-!
The memory pool (`src/txmempool.{h,cpp}`): the entries by transaction id, the outpoints and
nullifiers they use, totals over them, and the collection that limits the pool's size. A
pointer to a transaction of the pool is the id of its entry; following a pointer whose entry is
gone, or an iterator that found nothing, is `none`, as is a failed assertion.

Left out: the fee estimator, the priority deltas, the list of transactions to announce, the
address and spent indexes of the pool, and the index by fee rate; nothing here reads them.
-/
namespace Zcashd.Source

open Lib

structure CTxMemPoolEntry where
  tx : CTransaction
  nFee : CAmount
  nTxSize : Nat
  nUsageSize : Nat
  spendsCoinbase : Bool
  nBranchId : Nat
deriving DecidableEq, Repr

/-- An input of a transaction of the pool. -/
structure CInPoint where
  ptx : Uint256
  n : Nat
deriving DecidableEq, Repr

/-- `mapSproutNullifiers` and `mapSaplingNullifiers` are one member indexed by the pool. -/
structure CTxMemPool where
  nCheckFrequency : Nat
  totalTxSize : UInt64
  cachedInnerUsage : UInt64
  mapTx : Uint256Map CTxMemPoolEntry
  mapNextTx : AList (fun _ : COutPoint => CInPoint)
  mapNullifiers : ShieldedType → Uint256Map Uint256
  recentlyEvicted : RecentlyEvictedList
  weightedTxTree : WeightedTxTree

namespace CTxMemPool

/-- A pool without transactions. -/
def empty (nCheckFrequency : Nat) (totalCostLimit evictionMemorySeconds : Int) : CTxMemPool where
  nCheckFrequency
  totalTxSize := 0
  cachedInnerUsage := 0
  mapTx := ∅
  mapNextTx := ∅
  mapNullifiers _ := ∅
  recentlyEvicted := ⟨EVICTION_MEMORY_ENTRIES, evictionMemorySeconds, [], []⟩
  weightedTxTree := .empty totalCostLimit

/-- The entries from `mapTx.begin()` to `mapTx.end()`, sorted by the bytes of the id. -/
def iterate (mapTx : Uint256Map CTxMemPoolEntry) : List CTxMemPoolEntry :=
  (mapTx.entries.insertionSort (fun a b => writeUint256 a.1 ≤ writeUint256 b.1)).map (·.2)

/-- `addUnchecked`; `memUsage` is what `RecursiveDynamicUsage` reports for the transaction. -/
def addUnchecked (hash : Uint256) (entry : CTxMemPoolEntry) (memUsage : Nat) (pool : CTxMemPool) :
    Option CTxMemPool := do
  let weightedTxTree := pool.weightedTxTree.add (.ofTransaction memUsage entry.tx entry.nFee)
  let mapTx := if entry.tx.hash ∈ pool.mapTx then pool.mapTx
    else pool.mapTx.insert entry.tx.hash entry
  let stored ← mapTx.lookup hash
  let tx := stored.tx
  pure { pool with
    weightedTxTree, mapTx
    mapNextTx :=
      tx.vin.zipIdx.foldl (fun map (txin, i) => map.insert txin.prevout ⟨hash, i⟩) pool.mapNextTx
    mapNullifiers := fun type => (tx.revealed type).foldl (fun map nf => map.insert nf hash)
      (pool.mapNullifiers type)
    totalTxSize := pool.totalTxSize + UInt64.ofNat entry.nTxSize
    cachedInnerUsage := pool.cachedInnerUsage + UInt64.ofNat entry.nUsageSize }

/-- The hashes of the transactions of the pool that spend the outputs of `hash`. -/
def spenders (pool : CTxMemPool) (hash : Uint256) (outputs : Nat) : Option (List Uint256) :=
  ((List.range outputs).filterMap (fun i => pool.mapNextTx.lookup ⟨hash, i⟩)).mapM
    (fun inpoint => (pool.mapTx.lookup inpoint.ptx).map (fun entry => entry.tx.hash))

theorem length_spenders {pool : CTxMemPool} {hash : Uint256} {outputs : Nat} {hit : List Uint256}
    (ran : pool.spenders hash outputs = some hit) : hit.length ≤ outputs := by
  have same := (mapM_forall₂ ran).length_eq
  have fewer := List.length_filterMap_le (fun i => pool.mapNextTx.lookup ⟨hash, i⟩)
    (List.range outputs)
  rw [List.length_range] at fewer
  omega

/-- One transaction leaves the pool, its inputs and its nullifiers. -/
def eraseEntry (hash : Uint256) (entry : CTxMemPoolEntry) (pool : CTxMemPool) : CTxMemPool :=
  { pool with
    mapNextTx := entry.tx.vin.foldl (fun map txin => map.erase txin.prevout) pool.mapNextTx
    mapNullifiers := fun type => (entry.tx.revealed type).foldl (fun map nf => map.erase nf)
      (pool.mapNullifiers type)
    totalTxSize := pool.totalTxSize - UInt64.ofNat entry.nTxSize
    cachedInnerUsage := pool.cachedInnerUsage - UInt64.ofNat entry.nUsageSize
    mapTx := pool.mapTx.erase hash }

/-- The loop of `remove` over the ids still to be removed. -/
def removeLoop (fRecursive : Bool) (txToRemove : List Uint256) (pool : CTxMemPool)
    (removed : List CTransaction) :
    Option (CTxMemPool × List CTransaction) :=
  match txToRemove with
  | [] => some (pool, removed)
  | hash :: rest =>
    match _found : pool.mapTx.lookup hash with
    | none => removeLoop fRecursive rest pool removed
    | some entry =>
      match _spent : (if fRecursive then pool.spenders hash entry.tx.vout.length else some []) with
      | none => none
      | some children =>
        removeLoop fRecursive (rest ++ children) (pool.eraseEntry hash entry)
          (removed ++ [entry.tx])
termination_by txToRemove.length + weightSum
  (fun entry : CTxMemPoolEntry => entry.tx.vout.length + 1) pool.mapTx
decreasing_by
  · simp
  · have bound : children.length ≤ entry.tx.vout.length := by
      cases fRecursive with
      | true => exact length_spenders _spent
      | false =>
        cases _spent
        exact Nat.zero_le _
    have lighter : weightSum (fun entry : CTxMemPoolEntry => entry.tx.vout.length + 1) pool.mapTx =
        _ := weightSum_erase _found
    have erased : (pool.eraseEntry hash entry).mapTx = pool.mapTx.erase hash := rfl
    rw [lighter, erased, List.length_append, List.length_cons]
    omega

/-- If a transaction that is to be removed recursively is not in the pool, what spends its
outputs there. -/
def orphans (origTx : CTransaction) (fRecursive : Bool) (pool : CTxMemPool) :
    Option (List Uint256) :=
  if fRecursive && !decide (origTx.hash ∈ pool.mapTx) then
    pool.spenders origTx.hash origTx.vout.length
  else some []

/-- `remove`: the transaction and, if asked, what spends its outputs. Every transaction in the
list the caller passed leaves the collection of weights, too. -/
def remove (origTx : CTransaction) (fRecursive : Bool) (pool : CTxMemPool)
    (removed : List CTransaction) :
    Option (CTxMemPool × List CTransaction) := do
  let children ← pool.orphans origTx fRecursive
  let (pool, removed) ← removeLoop fRecursive (origTx.hash :: children) pool removed
  let weightedTxTree ← removed.foldlM (fun tree tx => tree.remove tx.hash) pool.weightedTxTree
  pure ({ pool with weightedTxTree }, removed)

/-- Recursive removal of a list of transactions, each with a list of its own for the removed. -/
def removeEach (transactionsToRemove : List CTransaction) (pool : CTxMemPool) : Option CTxMemPool :=
  transactionsToRemove.foldlM (fun pool tx => (pool.remove tx true []).map (·.1)) pool

/-- Whether `removeForReorg` drops the entry: it is no longer final, or a coinbase it spends is
no longer mature. `none` is the assertion that its coins are there. -/
def notForReorg (checkFinalTx : CTransaction → Bool) (accessCoins : Uint256 → Option CCoins)
    (nMemPoolHeight : Nat) (pool : CTxMemPool) (entry : CTxMemPoolEntry) :
    Option Bool :=
  if !checkFinalTx entry.tx then some true
  else if entry.spendsCoinbase then
    entry.tx.vin.foldlM (fun drop txin =>
      if drop || decide (txin.prevout.hash ∈ pool.mapTx) then some drop
      else
        match accessCoins txin.prevout.hash with
        | none => if pool.nCheckFrequency ≠ 0 then none else some true
        | some coins =>
          some (coins.fCoinBase && decide
            ((nMemPoolHeight : Int) - coins.nHeight < COINBASE_MATURITY))) false
  else some false

def removeForReorg (checkFinalTx : CTransaction → Bool) (accessCoins : Uint256 → Option CCoins)
    (nMemPoolHeight : Nat) (pool : CTxMemPool) :
    Option CTxMemPool := do
  let transactionsToRemove ← (iterate pool.mapTx).filterM
      (notForReorg checkFinalTx accessCoins nMemPoolHeight pool)
  removeEach (transactionsToRemove.map (·.tx)) pool

/-- The anchors a transaction uses in one pool. -/
def anchors (tx : CTransaction) : ShieldedType → List Uint256
  | .sprout => tx.vJoinSplit.map (·.anchor)
  | .sapling => tx.vShieldedSpend.map (·.anchor)

def removeWithAnchor (invalidRoot : Uint256) (type : ShieldedType) (pool : CTxMemPool) :
    Option CTxMemPool :=
  removeEach
    (((iterate pool.mapTx).filter (fun entry => (anchors entry.tx type).contains invalidRoot)).map
    (·.tx)) pool

/-- The body of the three loops of `removeConflicts`: the transaction that was found goes, if it
is another one. -/
def removeConflict (tx : CTransaction) (found : Option Uint256)
    (state : CTxMemPool × List CTransaction) :
    Option (CTxMemPool × List CTransaction) :=
  match found with
  | none => some state
  | some ptx => do
    let txConflict ← state.1.mapTx.lookup ptx
    if txConflict.tx.hash ≠ tx.hash then state.1.remove txConflict.tx true state.2 else some state

def removeConflicts (tx : CTransaction) (pool : CTxMemPool) (removed : List CTransaction) :
    Option (CTxMemPool × List CTransaction) := do
  let state ← tx.vin.foldlM (fun state txin =>
    removeConflict tx ((state.1.mapNextTx.lookup txin.prevout).map (·.ptx)) state) (pool, removed)
  let state ← (tx.revealed .sprout).foldlM (fun state nf =>
    removeConflict tx ((state.1.mapNullifiers .sprout).lookup nf) state) state
  (tx.revealed .sapling).foldlM (fun state nf =>
    removeConflict tx ((state.1.mapNullifiers .sapling).lookup nf) state) state

def removeExpired (nBlockHeight : Nat) (pool : CTxMemPool) : Option CTxMemPool :=
  removeEach (((iterate pool.mapTx).filter (fun entry => isExpiredTx entry.tx nBlockHeight)).map
    (·.tx)) pool

/-- The transactions of a block leave, and those in conflict with them. -/
def removeForBlock (vtx : List CTransaction) (pool : CTxMemPool) (conflicts : List CTransaction) :
    Option (CTxMemPool × List CTransaction) :=
  vtx.foldlM (fun state tx => do
    let (pool, _) ← state.1.remove tx false []
    pool.removeConflicts tx state.2) (pool, conflicts)

def removeWithoutBranchId (nMemPoolBranchId : Nat) (pool : CTxMemPool) : Option CTxMemPool :=
  removeEach (((iterate pool.mapTx).filter (fun entry => entry.nBranchId != nMemPoolBranchId)).map
    (·.tx)) pool

/-- `clear`: the nullifiers and the collection of weights stay. -/
def clear (pool : CTxMemPool) : CTxMemPool :=
  { pool with mapTx := ∅, mapNextTx := ∅, totalTxSize := 0, cachedInnerUsage := 0 }

/-- The rounds of `EnsureSizeLimit`; `random` and `now` are what each of them draws. -/
def ensureSizeLimitLoop (random : Nat → Nat) (now : Nat → Int) :
    Nat → CTxMemPool → Option CTxMemPool
  | 0, _ => none
  | rounds + 1, pool => do
    let (weightedTxTree, maybeDropTxId) ← pool.weightedTxTree.maybeDropRandom (random rounds)
    match maybeDropTxId with
    | none => pure { pool with weightedTxTree }
    | some txId => do
      let recentlyEvicted := pool.recentlyEvicted.add txId (now rounds)
      let entry ← pool.mapTx.lookup txId
      let (pool, _) ← { pool with weightedTxTree, recentlyEvicted }.remove entry.tx true []
      pool.ensureSizeLimitLoop random now rounds

/-- `EnsureSizeLimit`: every round but the last drops an id from the collection. -/
def ensureSizeLimit (random : Nat → Nat) (now : Nat → Int) (pool : CTxMemPool) :
    Option CTxMemPool :=
  pool.ensureSizeLimitLoop random now (pool.weightedTxTree.size + 1)

end CTxMemPool

end Zcashd.Source
