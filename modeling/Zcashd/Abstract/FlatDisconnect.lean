import Zcashd.Abstract.FlatConnect
import Zcashd.Source.HistoryUndo

/-!
`DisconnectBlock` on the flat view. Its transactions run on the ledger, as those of
`ConnectBlock` do; `BlockConnected.disconnected` puts the parts together: the block comes off
cleanly and the view is the one before it.
-/
namespace Zcashd.Abstract

open Lib Source Program Ledger List Function PoolState

variable {env : ChainEnv}

/-! Transactions -/

theorem applyTxInUndo_run (undo : CTxInUndo) (out : COutPoint) (f : FlatView) :
    (applyTxInUndo undo out).run env.onFlat f =
      .ok ((f.ledger.restore undo out).1, f.withLedger (f.ledger.restore undo out).2) := rfl

theorem applyTxUndo_run (inputs : List (CTxInUndo × CTxIn)) (f : FlatView) :
    (applyTxUndo inputs).run env.onFlat f =
      .ok ((f.ledger.restoreAll inputs).1, f.withLedger (f.ledger.restoreAll inputs).2) := by
  induction inputs generalizing f with
  | nil => rfl
  | cons _ _ ih =>
    rw [applyTxUndo, run_bind, applyTxInUndo_run]
    dsimp only
    rw [run_bind, ih]
    rfl

theorem removeOutputs_run (tx : CTransaction) (nHeight : Nat) (f : FlatView) :
    (removeOutputs tx nHeight).run env.onFlat f =
      .ok ((f.ledger.remove tx nHeight).1, f.withLedger (f.ledger.remove tx nHeight).2) := rfl

variable (nHeight : Nat)

theorem disconnectTransaction_run {tx : CTransaction} {txundo : Option CTxUndo}
    (sizes : ∀ undo, txundo = some undo → undo.vprevout.length = tx.vin.length) (f : FlatView) :
    (disconnectTransaction tx txundo nHeight).run env.onFlat f =
      .ok (some (f.ledger.disconnect tx txundo nHeight).1,
        f.withLedger (f.ledger.disconnect tx txundo nHeight).2) := by
  rw [disconnectTransaction, run_bind, removeOutputs_run]
  dsimp only
  cases txundo with
  | none => rfl
  | some undo =>
    have size := sizes undo rfl
    change (if undo.vprevout.length ≠ tx.vin.length then _ else _ :
      View (Option Bool)).run env.onFlat
      (f.withLedger ((f.ledger.remove tx nHeight).2.reveal tx false)) = _
    rw [if_neg (not_not.mpr size), run_bind, applyTxUndo_run]
    rfl

theorem disconnectTransactions_run {items : List (CTransaction × Option CTxUndo)}
    (sizes : ∀ item ∈ items, ∀ undo, item.2 = some undo → undo.vprevout.length = item.1.vin.length)
    (f : FlatView) : (disconnectTransactions nHeight items).run env.onFlat f =
      .ok (some (disconnectAll nHeight items f.ledger).1,
        f.withLedger (disconnectAll nHeight items f.ledger).2) := by
  induction items generalizing f with
  | nil => rfl
  | cons item _ ih =>
    obtain ⟨tx, txundo⟩ := item
    have now : (disconnectTransaction tx txundo nHeight).run env.onFlat f = _ :=
      disconnectTransaction_run nHeight (sizes (tx, txundo) (by simp)) f
    have later := ih (fun item mem => sizes item (by simp [mem]))
      (f.withLedger (f.ledger.disconnect tx txundo nHeight).2)
    rw [disconnectTransactions, run_bind, now]
    dsimp only
    rw [run_bind, later]
    rfl

/-- The undo data of the transactions after the coinbase, as it is stored. -/
theorem zip_map_some {txs : List CTransaction} (undos : List CTxUndo)
    (others : ∀ tx ∈ txs, tx.isCoinBase = false) :
    txs.zip (undos.map some) = zipWith withUndo txs undos := by
  induction txs generalizing undos with
  | nil => rfl
  | cons tx _ ih =>
    cases undos with
    | nil => rfl
    | cons _ undos =>
      rw [map_cons, zip_cons_cons, zipWith_cons_cons,
        ih undos (fun other mem => others other (by simp [mem])), withUndo,
        others tx (by simp)]
      rfl

/-! Anchors, history and best block -/

theorem popAnchor_pushAnchor {H : MerkleHash} {p : PoolState} {tree : IncrementalMerkleTree}
    (new : p.best ≠ tree.root H → p.anchors (tree.root H) = none) :
    (p.pushAnchor H tree).popAnchor p.best = p := by
  unfold pushAnchor
  split
  · rename_i moved
    simp only [popAnchor, ne_eq, Ne.symm moved, not_false_eq_true, ↓reduceIte, update_idem]
    rw [← new moved, update_eq_self]
  · simp [popAnchor]

variable (H : MerkleHash)

theorem pushAnchor_best (p : PoolState) (tree : IncrementalMerkleTree) :
    (p.pushAnchor H tree).best = tree.root H := by
  unfold pushAnchor
  split
  · rfl
  · rename_i same
    exact not_not.mp same

/-- A pushed anchor can be popped. -/
theorem pushAnchor_poppable (p : PoolState) (tree : IncrementalMerkleTree) :
    (p.pushAnchor H tree).best = p.best ∨
    ((p.pushAnchor H tree).anchors (p.pushAnchor H tree).best).isSome := by
  unfold pushAnchor
  split
  · right
    simp
  · left
    rfl

theorem popAnchor_run {type : ShieldedType} {newrt : Uint256} {f : FlatView}
    (known : (f.pools type).best = newrt ∨ ((f.pools type).anchors (f.pools type).best).isSome) :
    (View.popAnchor type newrt).run env.onFlat f =
      .ok ((), { f with pools := update f.pools type ((f.pools type).popAnchor newrt) }) := by
  rw [View.popAnchor, run_perform]
  change (if _ then _ else _) = _
  rw [if_pos known]

section

variable {pindex : CBlockIndex} {f g : FlatView} (undoes : env.mmr.Undoes)
  (built : EpochHistory.Built env.mmr (epochOf env pindex) (f.history (epochOf env pindex)))
  (history : HistoryPushed env pindex f g)
include undoes built history

theorem popHistory_run :
    (popHistory env pindex).run env.onFlat g = .ok ((), { g with history := f.history }) := by
  unfold popHistory
  unfold HistoryPushed heartwoodActive at history
  split at history
  · rename_i active
    obtain ⟨node, h, pushed, after⟩ := history
    rw [if_pos active, View.popHistoryNode, run_perform]
    change orAbort (((g.history (epochOf env pindex)).pop env.mmr (epochOf env pindex)).map
      (fun h => { g with history := update g.history (epochOf env pindex) h })) = _
    rw [after, update_self, built.pop_push undoes pushed, Option.map_some, update_idem,
      update_eq_self]
    rfl
  · rename_i inactive
    rw [if_neg inactive, ← history]
    rfl

theorem restoreTip_run {pprev : CBlockIndex} {trees : ShieldedType → IncrementalMerkleTree}
    (new : ∀ type, (f.pools type).best ≠ (trees type).root (env.merkle type) →
      (f.pools type).anchors ((trees type).root (env.merkle type)) = none)
    (sapling : (f.pools .sapling).best = oldSaplingRoot env pprev)
    (pools : ∀ type, g.pools type = (f.pools type).pushAnchor (env.merkle type) (trees type)) :
    (restoreTip env pindex pprev (f.pools .sprout).best).run env.onFlat g =
      .ok ((), { g with pools := f.pools, history := f.history, bestBlock := pprev.hash }) := by
  have back : ∀ type, (g.pools type).popAnchor (f.pools type).best = f.pools type := fun type => by
    rw [pools]
    exact popAnchor_pushAnchor (new type)
  have poppable : ∀ type, (g.pools type).best = (f.pools type).best ∨
      ((g.pools type).anchors (g.pools type).best).isSome := fun type => by
    rw [pools]
    exact pushAnchor_poppable _ _ _
  rw [restoreTip, run_bind, popAnchor_run (poppable .sprout)]
  dsimp only
  rw [run_bind, ← sapling, popAnchor_run (by simpa using poppable .sapling)]
  dsimp only
  have both : update (update g.pools .sprout ((g.pools .sprout).popAnchor (f.pools .sprout).best))
      .sapling ((update g.pools .sprout ((g.pools .sprout).popAnchor (f.pools .sprout).best)
        .sapling).popAnchor (f.pools .sapling).best) = f.pools := by
    funext type
    cases type with
    | sprout => simp [back]
    | sapling => simp [back]
  rw [both, run_bind, popHistory_run undoes built (by exact history)]
  rfl

end

/-! The whole block -/

/-- The update of a validated entry is of its status and its branch id. -/
theorem recordValid_eq (env : ChainEnv) (pindex pprev : CBlockIndex) : ∃ status branchId,
    recordValid env pindex pprev =
      { pindex with nStatus := status, nCachedBranchId := branchId } := by
  unfold recordValid
  split
  · exact ⟨_, _, rfl⟩
  · dsimp only [CBlockIndex.raiseValidity]
    split <;> split <;> (try split) <;> exact ⟨_, _, rfl⟩

namespace BlockApplied

variable {block : CBlock} {pindex pprev : CBlockIndex} {f : FlatView} {result : ConnectResult}
  {trees : ShieldedType → IncrementalMerkleTree} {s : ConnectState} {undos : List CTxUndo}
    {l : Ledger}
  (applied : BlockApplied env block pindex pprev f result trees s undos l)
include applied

theorem blockChecked : block.Checked :=
  checkBlock_ok applied.checked

/-- Only the first transaction is a coinbase. -/
theorem wellformed
    (distinct : ∀ tx ∈ block.vtx, ∀ other ∈ block.vtx, other.getHash = tx.getHash → other = tx) :
    Ledger.Wellformed [] block.vtx := by
  have checked := applied.blockChecked
  obtain ⟨_, rest, shape, _, others⟩ := checked.coinBase
  refine ⟨fun tx mem => checked.tx mem, ?_, by simpa using distinct⟩
  intro tx mem coinBase
  have notLater : tx ∉ rest := by
    intro later
    rw [others tx later] at coinBase
    cases coinBase
  rw [shape] at mem ⊢
  rcases mem_cons.mp mem with rfl | later
  · exact ⟨not_mem_nil, rfl, notLater⟩
  · exact absurd later notLater

theorem acceptable (parsed : ∀ tx ∈ block.vtx, tx.Parsed)
    (height : 0 < pindex.nHeight ∧ pindex.nHeight < 2 ^ 31) :
    Ledger.Acceptable pindex.nHeight block.vtx :=
  ⟨fun _ mem => applied.blockChecked.tx mem, fun tx mem => (parsed tx mem).version.2, height⟩

/-- The undo data fits the record format. -/
theorem storable (acceptable : Ledger.Acceptable pindex.nHeight block.vtx)
    (sound : f.ledger.Sound) :
    CBlockUndo.Storable ⟨s.vtxundo, (f.pools .sprout).best⟩ := by
  have checked := applied.blockChecked
  obtain ⟨-, each⟩ := applied.connects.sound acceptable sound
  have limit : MAX_BLOCK_SIZE ≤ MAX_SIZE := by decide
  have held : ∀ undo ∈ s.vtxundo, ∃ tx ∈ block.vtx,
      undo.vprevout.length = (spentBy tx).length ∧ ∀ u ∈ undo.vprevout, u.Storable := by
    intro undo mem
    rw [applied.vtxundo] at mem
    obtain ⟨i, bound, rfl⟩ := mem_iff_getElem.mp (mem_of_mem_tail mem)
    have bound' : i < block.vtx.length := by rw [each.length_eq]; exact bound
    exact ⟨block.vtx[i], getElem_mem bound', each.get bound' bound⟩
  refine ⟨?_, ?_, ?_⟩
  · have length := each.length_eq
    have bound := checked.length
    rw [applied.vtxundo, length_tail]
    omega
  · intro undo mem
    obtain ⟨tx, belongs, _, -⟩ := held undo mem
    have bound := checked.inputs belongs
    have spent : (spentBy tx).length ≤ tx.vin.length := by
      unfold spentBy
      split <;> simp
    omega
  · intro undo mem
    obtain ⟨tx, -, -, fits⟩ := held undo mem
    exact fits

theorem hash_after : result.pindex.hash = pindex.hash := by
  obtain ⟨_, _, after⟩ :=
    recordValid_eq env (recordRoots env pindex (f.pools .sprout).best s.trees) pprev
  rw [applied.pindexAfter, after]
  rfl

theorem nHeight_after : result.pindex.nHeight = pindex.nHeight := by
  obtain ⟨_, _, after⟩ :=
    recordValid_eq env (recordRoots env pindex (f.pools .sprout).best s.trees) pprev
  rw [applied.pindexAfter, after]
  rfl

/-- The loop over the transactions, last one first, ends cleanly in the ledger before the block. -/
theorem transactions_back (sound : f.ledger.Sound)
    (acceptable : Ledger.Acceptable pindex.nHeight block.vtx)
    (distinct : ∀ tx ∈ block.vtx, ∀ other ∈ block.vtx, other.getHash = tx.getHash → other = tx)
    (ledger : g.ledger = l) :
    s.vtxundo.length + 1 = block.vtx.length ∧
      (disconnectTransactions pindex.nHeight
        (block.vtx.zip (none :: s.vtxundo.map some)).reverse).run
        env.onFlat g = .ok (some true, g.withLedger f.ledger) := by
  obtain ⟨-, each⟩ := applied.connects.sound acceptable sound
  -- nothing of the block is unspent before it
  have start : Ledger.Remembers {txid | ∃ tx ∈ block.vtx, tx.getHash = txid} [] f.ledger := by
    apply Ledger.Remembers.start
    rintro _ ⟨tx, mem, rfl⟩
    exact applied.absent tx mem
  obtain ⟨fresh, -⟩ := applied.connects.fresh start (fun tx mem => ⟨tx, mem, rfl⟩)
    (applied.wellformed distinct)
  have back := fresh.disconnectAll acceptable sound
  have held := applied.vtxundo
  obtain ⟨coinbase, rest, shape, isCoinBase, others⟩ := applied.blockChecked.coinBase
  rw [shape] at each back ⊢
  cases each with
  | @cons _ undo _ undos _ later =>
    have items : (coinbase :: rest).zip (none :: s.vtxundo.map some) =
        zipWith withUndo (coinbase :: rest) (undo :: undos) := by
      rw [held, tail_cons, zip_cons_cons, zipWith_cons_cons, zip_map_some undos others,
        withUndo, isCoinBase]
      rfl
    refine ⟨by rw [held, tail_cons, length_cons, later.length_eq], ?_⟩
    rw [items, disconnectTransactions_run, ledger, back]
    intro _ mem _ kept
    rw [mem_reverse, zipWith_cons_cons, mem_cons] at mem
    rcases mem with rfl | mem
    · rw [withUndo, isCoinBase] at kept
      cases kept
    · obtain ⟨i, bound, rfl⟩ := mem_iff_getElem.mp mem
      have inside : i < rest.length := by
        rw [length_zipWith] at bound
        omega
      have notCoinBase := others rest[i] (getElem_mem inside)
      rw [getElem_zipWith, withUndo, notCoinBase] at kept ⊢
      cases kept
      have size := (later.get inside (by rw [← later.length_eq]; exact inside)).1
      rw [spentBy, get_eq_getElem, get_eq_getElem, notCoinBase] at size
      exact size

end BlockApplied

namespace BlockConnected

variable {block : CBlock} {pindex pprev : CBlockIndex} {f f' : FlatView} {result : ConnectResult}
  {trees : ShieldedType → IncrementalMerkleTree} {s : ConnectState} {undos : List CTxUndo}
    {l : Ledger}
  (connected : BlockConnected env block pindex pprev f result f' trees s undos l)
include connected

theorem ledger_after : f'.ledger = l := by
  refine Ledger.ext connected.coins ?_
  funext type
  change (f'.pools type).nullifiers = _
  rw [connected.pools]

/-- `DisconnectBlock` takes the block back. -/
theorem disconnected
    (undoes : env.mmr.Undoes) (sound : f.ledger.Sound) (parsed : ∀ tx ∈ block.vtx, tx.Parsed)
    (height : 0 < pindex.nHeight ∧ pindex.nHeight < 2 ^ 31)
    (distinct : ∀ tx ∈ block.vtx, ∀ other ∈ block.vtx, other.getHash = tx.getHash → other = tx)
    (new : ∀ type, (f.pools type).best ≠ (s.trees type).root (env.merkle type) →
      (f.pools type).anchors ((s.trees type).root (env.merkle type)) = none)
    (sapling : (f.pools .sapling).best = oldSaplingRoot env pprev)
    (built : EpochHistory.Built env.mmr (epochOf env pindex) (f.history (epochOf env pindex))) :
    (disconnectBlock env block result.pindex pprev
      (some (undoWriteToDisk env.undoLib ⟨s.vtxundo, (f.pools .sprout).best⟩ pprev.hash))).run
        env.onFlat f' = .ok (.DISCONNECT_OK, f) := by
  have acceptable := connected.acceptable parsed height
  have read := undoReadFromDisk_undoWriteToDisk env.undoLib
    (connected.storable acceptable sound) pprev.hash
  obtain ⟨size, transactions⟩ :=
    connected.transactions_back sound acceptable distinct connected.ledger_after
  have sameHeight := connected.nHeight_after
  have pools : ∀ type, (f'.withLedger f.ledger).pools type =
      (f.pools type).pushAnchor (env.merkle type) (s.trees type) := by
    intro type
    change { f'.pools type with nullifiers := (f.pools type).nullifiers } = _
    rw [connected.pools]
    unfold pushAnchor
    split <;> rfl
  have tip : (restoreTip env result.pindex pprev (f.pools .sprout).best).run env.onFlat
      (f'.withLedger f.ledger) =
        .ok ((), { f'.withLedger f.ledger with
          pools := f.pools, history := f.history, bestBlock := pprev.hash }) := by
    refine restoreTip_run undoes ?_ ?_ new sapling pools
    · rw [epochOf, sameHeight]
      exact built
    · have history := connected.history
      unfold heartwoodActive epochOf at history
      unfold HistoryPushed heartwoodActive epochOf
      rw [sameHeight]
      exact history
  change run env.onFlat (View.require (result.pindex.hash == f'.bestBlock) .aborted >>= _) f' = _
  rw [connected.hash_after, connected.bestBlock, beq_self_eq_true]
  rw [run_bind, View.run_require_ok.mpr ⟨rfl, rfl⟩]
  dsimp only
  rw [Option.bind_some, read]
  dsimp only
  rw [if_neg (not_not.mpr size), run_bind, sameHeight, transactions]
  dsimp only
  rw [run_bind, tip]
  refine congrArg (fun view => Except.ok (DisconnectResult.DISCONNECT_OK, view)) ?_
  exact FlatView.ext rfl rfl connected.parent.symm rfl

end BlockConnected

end Zcashd.Abstract
