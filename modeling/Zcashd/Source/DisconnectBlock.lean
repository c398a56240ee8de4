import Zcashd.Source.ConnectBlock

/-!
`ApplyTxInUndo` and `DisconnectBlock` (`src/main.cpp:2265-2464`), without the address and
spent indexes. The undo record of the block is an argument.

Each `ModifyCoins` is a read and an assignment. Where the entry is pruned the edit starts
from a cleared `CCoins`; the source starts from what metadata the pruned entry still has,
which only shows on the path that ends `DISCONNECT_UNCLEAN`.
-/
namespace Zcashd.Source

open Lib

inductive DisconnectResult where
  | DISCONNECT_OK
  | DISCONNECT_UNCLEAN
  | DISCONNECT_FAILED
deriving DecidableEq, Repr

/-- `vout.resize(size)` when it is shorter. -/
def growTo (size : Nat) (vout : List CTxOut) : List CTxOut :=
  vout ++ List.replicate (size - vout.length) .null

/-- The entry after the undo, and whether it was as expected. -/
def restoredCoins (undo : CTxInUndo) (n : Nat) (coins : CCoins) : Bool × CCoins :=
  let fClean := if undo.nHeight ≠ 0 then coins.isPruned else !coins.isPruned
  let coins := if undo.nHeight ≠ 0 then ⟨undo.fCoinBase, [], undo.nHeight, undo.nVersion⟩ else coins
  (fClean && !coins.isAvailable n,
    { coins with vout := (growTo (n + 1) coins.vout).set n undo.txout })

def applyTxInUndo (undo : CTxInUndo) (out : COutPoint) : View Bool := do
  let coins ← View.accessCoins out.hash
  let restored := restoredCoins undo out.n (coins.getD CCoins.clear)
  View.modifyCoins out.hash (.assign restored.2)
  pure restored.1

/-- The inputs of one transaction in reverse order; the lists are reversed already. -/
def applyTxUndo : List (CTxInUndo × CTxIn) → View Bool
  | [] => pure true
  | (undo, txin) :: rest => do
    let fClean ← applyTxInUndo undo txin.prevout
    let later ← applyTxUndo rest
    pure (fClean && later)

/-- Check that all outputs are available and match the outputs in the block itself exactly, and
remove them. -/
def removeOutputs (tx : CTransaction) (nHeight : Nat) : View Bool := do
  let coins ← View.accessCoins tx.getHash
  let outs := (coins.getD CCoins.clear).clearUnspendable
  let outsBlock := CCoins.fromTx tx nHeight
  let outs := if outsBlock.nVersion < 0 then { outs with nVersion := outsBlock.nVersion } else outs
  View.modifyCoins tx.getHash (.assign CCoins.clear)
  pure (outs.equal outsBlock)

/-- One round of the loop; `none` is the return of `DISCONNECT_FAILED` on undo data of the wrong
size. The coinbase has no undo data. -/
def disconnectTransaction (tx : CTransaction) (txundo : Option CTxUndo) (nHeight : Nat) :
    View (Option Bool) := do
  let outputs ← removeOutputs tx nHeight
  View.setNullifiers tx false
  match txundo with
  | none => pure (some outputs)
  | some txundo =>
    if txundo.vprevout.length ≠ tx.vin.length then pure none
    else
      let inputs ← applyTxUndo (txundo.vprevout.zip tx.vin).reverse
      pure (some (outputs && inputs))

/-- The transactions with their undo data, last one first. -/
def disconnectTransactions (nHeight : Nat) : List (CTransaction × Option CTxUndo) →
    View (Option Bool)
  | [] => pure (some true)
  | (tx, txundo) :: rest => do
    let fClean ← disconnectTransaction tx txundo nHeight
    match fClean with
    | none => pure none
    | some fClean =>
      let later ← disconnectTransactions nHeight rest
      pure (later.map (fun later => fClean && later))

/-- The Sapling anchor of the parent. Before the activation of Sapling it is the empty root. -/
def oldSaplingRoot (env : ChainEnv) (pprev : CBlockIndex) : Uint256 :=
  if env.consensus.networkUpgradeActive pprev.nHeight .UPGRADE_SAPLING then
    pprev.hashFinalSaplingRoot
  else IncrementalMerkleTree.emptyRoot (env.merkle .sapling)

def popHistory (env : ChainEnv) (pindex : CBlockIndex) : View Unit :=
  if env.consensus.networkUpgradeActive pindex.nHeight .UPGRADE_HEARTWOOD then
    View.popHistoryNode (env.consensus.currentEpochBranchId pindex.nHeight)
  else pure ()

/-- Anchors, history and best block of the parent. -/
def restoreTip (env : ChainEnv) (pindex pprev : CBlockIndex) (old_sprout_tree_root : Uint256) :
    View Unit := do
  View.popAnchor .sprout old_sprout_tree_root
  View.popAnchor .sapling (oldSaplingRoot env pprev)
  popHistory env pindex
  View.setBestBlock pprev.hash

/-- `record` is what the undo file holds for the block, if anything. -/
def disconnectBlock (env : ChainEnv) (block : CBlock) (pindex pprev : CBlockIndex)
    (record : Option Bytes) :
    View DisconnectResult := do
  let best ← View.getBestBlock
  View.require (pindex.hash == best) .aborted
  match record.bind (fun record => undoReadFromDisk env.undoLib record pprev.hash) with
  | none => pure .DISCONNECT_FAILED
  | some blockUndo =>
    if blockUndo.vtxundo.length + 1 ≠ block.vtx.length then pure .DISCONNECT_FAILED
    else
      let fClean ← disconnectTransactions pindex.nHeight
        (block.vtx.zip (none :: blockUndo.vtxundo.map some)).reverse
      match fClean with
      | none => pure .DISCONNECT_FAILED
      | some fClean =>
        restoreTip env pindex pprev blockUndo.old_sprout_tree_root
        pure (if fClean then .DISCONNECT_OK else .DISCONNECT_UNCLEAN)

end Zcashd.Source
