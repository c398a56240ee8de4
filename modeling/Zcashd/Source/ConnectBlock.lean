import Zcashd.Source.TxInputs

/-!
`ConnectBlock` (`src/main.cpp:2581-2998`), without the block file, index file and statistics
code. The index entry it updates is an argument and part of the result, and so is the undo
record; they come back on success only. `DisconnectBlock` is in its own module.
-/
namespace Zcashd.Source

open Lib View

def View.ofExcept {α : Type} : Except Failure α → View α
  | .ok value => pure value
  | .error failure => fail failure

/-- The variables the loop over the transactions updates. -/
structure ConnectState where
  nFees : CAmount
  nSigOps : Nat
  vtxundo : List CTxUndo
  /-- `sprout_tree` and `sapling_tree`. -/
  trees : ShieldedType → IncrementalMerkleTree
  total_sapling_tx : Nat
  /-- Whether the script checks queued so far pass. -/
  scriptsOk : Bool

/-- `hashPrevBlock`: null for a block without a parent. -/
def prevHash (pprev : Option CBlockIndex) : Uint256 := (pprev.map CBlockIndex.hash).getD 0

/-- The view must be at the parent. -/
def checkBestBlock (pprev : Option CBlockIndex) : View Unit := do
  let best ← getBestBlock
  require (prevHash pprev == best) .aborted

/-- Reject a block that results in a negative shielded value pool balance. -/
def checkTurnstile (env : ChainEnv) (pindex : CBlockIndex) : View Unit := do
  require (!(env.fZIP209Enabled && decide (pindex.nChainSproutValue.getD 0 < 0)))
    (.invalid 100 "turnstile-violation-sprout-shielded-pool" false)
  require (!(env.fZIP209Enabled && decide (pindex.nChainSaplingValue.getD 0 < 0)))
    (.invalid 100 "turnstile-violation-sapling-shielded-pool" false)

/-- No transaction may overwrite an older one that is not completely spent. -/
def checkBIP30 : List CTransaction → View Unit
  | [] => pure ()
  | tx :: rest => do
    let coins ← accessCoins tx.getHash
    require coins.isNone (.invalid 100 "bad-txns-BIP30" false)
    checkBIP30 rest

/-- The tree of a pool at its best anchor. -/
def bestTree (type : ShieldedType) : View (Uint256 × IncrementalMerkleTree) := do
  let root ← getBestAnchor type
  let tree ← getAnchorAt type root
  match tree with
  | none => fail .aborted
  | some tree => pure (root, tree)

/-- The checks of a transaction that is no coinbase: its signature operations. -/
def checkNonCoinBase (env : ChainEnv) (tx : CTransaction) (nSigOps : Nat) : View Nat := do
  let inputs ← haveInputs tx.vin
  require inputs (.invalid 100 "bad-txns-inputs-missingorspent" false)
  let requirements ← haveShieldedRequirements (env.merkle .sprout) tx
  require requirements (.invalid 100 "bad-txns-joinsplit-requirements-not-met" false)
  let p2sh ← getP2SHSigOpCount env tx.vin
  require (decide (nSigOps + p2sh ≤ MAX_BLOCK_SIGOPS)) (.invalid 100 "bad-blk-sigops" false)
  pure (nSigOps + p2sh)

/-- `nFees += view.GetValueIn(tx) - tx.GetValueOut()` and `ContextualCheckInputs`. -/
def addFees (env : ChainEnv) (tx : CTransaction) (nSpendHeight : Nat) (fScriptChecks : Bool)
    (branchId : Nat) (nFees : CAmount) : View (CAmount × Bool) := do
  let valueIn ← getValueIn tx
  let valueOut ← getValueOut tx
  let fee ← sum valueIn (-valueOut)
  let nFees ← sum nFees fee
  let scripts ← contextualCheckInputs env tx nSpendHeight fScriptChecks branchId
  pure (nFees, scripts)

def bothTrees (sprout_tree sapling_tree : IncrementalMerkleTree) :
    ShieldedType → IncrementalMerkleTree
  | .sprout => sprout_tree
  | .sapling => sapling_tree

/-- `append` throws on a full tree. -/
def appendCommitments (env : ChainEnv) (tx : CTransaction)
    (trees : ShieldedType → IncrementalMerkleTree) :
    View (ShieldedType → IncrementalMerkleTree) :=
  match (trees .sprout).appendAll (env.merkle .sprout) (tx.commitments .sprout),
    (trees .sapling).appendAll (env.merkle .sapling) (tx.commitments .sapling) with
  | some sprout_tree, some sapling_tree => pure (bothTrees sprout_tree sapling_tree)
  | _, _ => fail .aborted

/-- One round of the loop over `block.vtx`. `coinBase` is `i == 0`. -/
def connectTransaction (env : ChainEnv) (pindex : CBlockIndex) (pprev : Option CBlockIndex)
    (fScriptChecks : Bool) (tx : CTransaction) (coinBase : Bool) (s : ConnectState) :
    View ConnectState := do
  let nSigOps := s.nSigOps + env.verifier.legacySigOpCount tx
  require (decide (nSigOps ≤ MAX_BLOCK_SIGOPS)) (.invalid 100 "bad-blk-sigops" false)
  let nSigOps ← (if tx.isCoinBase then pure nSigOps else checkNonCoinBase env tx nSigOps)
  -- `GetSpendHeight`: the view is at the parent
  let nSpendHeight := (pprev.map CBlockIndex.nHeight).getD 0 + 1
  let branchId := env.consensus.currentEpochBranchId pindex.nHeight
  let fees ← (if tx.isCoinBase then pure (s.nFees, true)
    else addFees env tx nSpendHeight fScriptChecks branchId s.nFees)
  let undo ← updateCoins tx pindex.nHeight
  let trees ← appendCommitments env tx s.trees
  pure {
    nFees := fees.1
    nSigOps := nSigOps
    vtxundo := if coinBase then s.vtxundo else s.vtxundo ++ [undo]
    trees := trees
    total_sapling_tx := s.total_sapling_tx +
      if tx.vShieldedSpend.isEmpty && tx.vShieldedOutput.isEmpty then 0 else 1
    scriptsOk := s.scriptsOk && fees.2 }

def connectTransactions (env : ChainEnv) (pindex : CBlockIndex) (pprev : Option CBlockIndex)
    (fScriptChecks : Bool) : List CTransaction → Bool → ConnectState → View ConnectState
  | [], _, s => pure s
  | tx :: rest, coinBase, s => do
    let s ← connectTransaction env pindex pprev fScriptChecks tx coinBase s
    connectTransactions env pindex pprev fScriptChecks rest false s

/-- What `block.hashLightClientRoot` has to be, by epoch. -/
def checkLightClientRoot (env : ChainEnv) (block : CBlock) (pindex : CBlockIndex)
    (saplingRoot : Uint256) :
    View Unit :=
  if env.consensus.isActivationHeight pindex.nHeight .UPGRADE_HEARTWOOD then
    require block.hashLightClientRoot.isNull (.invalid 100 "bad-heartwood-root-in-block" false)
  else if env.consensus.networkUpgradeActive pindex.nHeight .UPGRADE_HEARTWOOD then do
    let root ← getHistoryRoot (env.consensus.currentEpochBranchId (pindex.nHeight - 1))
    require (block.hashLightClientRoot == root) (.invalid 100 "bad-heartwood-root-in-block" false)
  else if env.consensus.networkUpgradeActive pindex.nHeight .UPGRADE_SAPLING then
    require (block.hashLightClientRoot == saplingRoot)
      (.invalid 100 "bad-sapling-root-in-block" false)
  else pure ()

/-- History read/write is started with the Heartwood update. -/
def pushHistory (env : ChainEnv) (block : CBlock) (pindex : CBlockIndex) (total_sapling_tx : Nat) :
    View Unit :=
  if env.consensus.networkUpgradeActive pindex.nHeight .UPGRADE_HEARTWOOD then
    pushHistoryNode (env.consensus.currentEpochBranchId pindex.nHeight)
      (newLeaf block.getHash block.nTime block.nBits pindex.hashFinalSaplingRoot
        (env.getBlockProof block.nBits) pindex.nHeight total_sapling_tx)
  else pure ()

/-- The coinbase may claim the fees and the subsidy. -/
def checkReward (env : ChainEnv) (coinbase : CTransaction) (pindex : CBlockIndex)
    (nFees : CAmount) :
    View Unit :=
  match env.consensus.getBlockSubsidy pindex.nHeight with
  | none => fail .aborted
  | some subsidy => do
    let blockReward ← sum nFees subsidy
    let valueOut ← getValueOut coinbase
    require (decide (valueOut ≤ blockReward)) (.invalid 100 "bad-cb-amount" false)

/-- `pindex` as it is after the anchors were pushed, unless it is only checked. -/
def recordRoots (env : ChainEnv) (pindex : CBlockIndex) (old_sprout_tree_root : Uint256)
    (trees : ShieldedType → IncrementalMerkleTree) : CBlockIndex :=
  { pindex with
    hashSproutAnchor := old_sprout_tree_root
    hashFinalSproutRoot := (trees .sprout).root (env.merkle .sprout)
    hashFinalSaplingRoot :=
      if env.consensus.networkUpgradeActive pindex.nHeight .UPGRADE_HEARTWOOD then
        (trees .sapling).root (env.merkle .sapling)
      else pindex.hashFinalSaplingRoot }

/-- The update of the entry once all consensus rules have been validated; nothing is left to do
for an entry with undo data that was validated before. -/
def recordValid (env : ChainEnv) (pindex : CBlockIndex) (pprev : CBlockIndex) : CBlockIndex :=
  if pindex.nStatus.haveUndo && pindex.isValid .SCRIPTS then pindex
  else
    let pindex := { pindex with nStatus := { pindex.nStatus with haveUndo := true } }
    let pindex :=
      if env.consensus.isActivationHeightForAnyUpgrade pindex.nHeight then
        { pindex with
          nStatus := { pindex.nStatus with activatesUpgrade := true }
          nCachedBranchId := some (env.consensus.currentEpochBranchId pindex.nHeight) }
      else { pindex with nCachedBranchId := pprev.nCachedBranchId }
    pindex.raiseValidity .SCRIPTS

structure ConnectResult where
  pindex : CBlockIndex
  /-- The undo data built, of a block whose transactions were connected. -/
  blockundo : Option CBlockUndo
  /-- The undo record written, unless the block had one. -/
  record : Option Bytes

/-- The genesis block: its transactions are not connected. -/
def connectGenesis (env : ChainEnv) (pindex : CBlockIndex) (fJustCheck : Bool) :
    View ConnectResult :=
  if fJustCheck then pure ⟨pindex, none, none⟩
  else do
    setBestBlock pindex.hash
    let root := IncrementalMerkleTree.empty.root (env.merkle .sprout)
    pure ⟨{ pindex with hashSproutAnchor := root, hashFinalSproutRoot := root }, none, none⟩

/-- Write undo information and make the block the view's best one. -/
def finishConnect (env : ChainEnv) (pindex : CBlockIndex) (pprev : Option CBlockIndex)
    (blockundo : CBlockUndo) : View ConnectResult :=
  match pprev with
  | none => fail .aborted
  | some pprev => do
    setBestBlock pindex.hash
    pure {
      pindex := recordValid env pindex pprev
      blockundo := some blockundo
      record := if pindex.nStatus.haveUndo then none
        else some (undoWriteToDisk env.undoLib blockundo pprev.hash) }

/-- The checks of the view before the transactions, the commitment trees and the loop over
the transactions. -/
def applyTransactions (env : ChainEnv) (block : CBlock) (pindex : CBlockIndex)
    (pprev : Option CBlockIndex) (fScriptChecks : Bool) :
    View (Uint256 × ConnectState) := do
  checkTurnstile env pindex
  checkBIP30 block.vtx
  let (old_sprout_tree_root, sprout_tree) ← bestTree .sprout
  require (sprout_tree.root (env.merkle .sprout) == old_sprout_tree_root) .aborted
  let (_, sapling_tree) ← bestTree .sapling
  let s ← connectTransactions env pindex pprev fScriptChecks block.vtx true
    ⟨0, 0, [], bothTrees sprout_tree sapling_tree, 0, true⟩
  pure (old_sprout_tree_root, s)

/-- The part of `ConnectBlock` after the anchors were pushed. -/
def finishBlock (env : ChainEnv) (block : CBlock) (pindex : CBlockIndex)
    (pprev : Option CBlockIndex) (fJustCheck : Bool) (old_sprout_tree_root : Uint256)
    (s : ConnectState) :
    View ConnectResult := do
  let pindex := if fJustCheck then pindex else recordRoots env pindex old_sprout_tree_root s.trees
  let blockundo : CBlockUndo := ⟨s.vtxundo, old_sprout_tree_root⟩
  checkLightClientRoot env block pindex ((s.trees .sapling).root (env.merkle .sapling))
  pushHistory env block pindex s.total_sapling_tx
  match block.vtx with
  | [] => fail .aborted
  | coinbase :: _ =>
    checkReward env coinbase pindex s.nFees
    -- `control.Wait()`
    require s.scriptsOk (.invalid 100 "" false)
    if fJustCheck then pure ⟨pindex, some blockundo, none⟩
    else finishConnect env pindex pprev blockundo

def connectBlock (env : ChainEnv) (block : CBlock) (pindex : CBlockIndex)
    (pprev : Option CBlockIndex) (fJustCheck : Bool) :
    View ConnectResult := do
  let fExpensiveChecks := !env.underCheckpoint pindex.hash
  ofExcept (checkBlock env.verifier env.consensus fExpensiveChecks block (!fJustCheck)
    (!fJustCheck))
  checkBestBlock pprev
  if block.getHash = env.consensus.hashGenesisBlock then connectGenesis env pindex fJustCheck
  else
    let (old_sprout_tree_root, s) ← applyTransactions env block pindex pprev fExpensiveChecks
    pushAnchor .sprout (s.trees .sprout)
    pushAnchor .sapling (s.trees .sapling)
    finishBlock env block pindex pprev fJustCheck old_sprout_tree_root s

end Zcashd.Source
