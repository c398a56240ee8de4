import Zcashd.Abstract.BlockCalls
import Zcashd.Source.ShieldedFlush

/-!
Blocks on a stack of caches, as far as the ledger goes. The loop over the transactions makes
calls that a stack answers as its flat view does; the calls around it move anchors, histories
and the best block and leave the ledger alone. So `ConnectBlock` and `DisconnectBlock` do to
the ledger of a stack what they do to that of a flat view, and nothing has to be known of its
anchors.
-/
namespace Zcashd.Abstract

open Lib Source CCoinsView Program Option CCoinsViewDB ChainEnv

/-- The ledger a stack of caches shows. -/
def ledgerAt (v : CCoinsView) : Ledger := ⟨v.coinsAt, fun type => v.nullifierAt type⟩

theorem ledger_flatten (H : ShieldedType → MerkleHash) (v : CCoinsView) :
    (flatten H v).ledger = ledgerAt v := rfl

/-! Caches -/

namespace InOrder

variable {v v' : CCoinsView}

theorem pushCache (ok : InOrder v) : InOrder (pushCache v) where
  coins := ⟨nofun, ok.coins⟩
  nullifiers := ⟨nofun, ok.nullifiers⟩
  history := ⟨nofun, ok.history⟩

variable {H : ShieldedType → MerkleHash}

theorem flushAndPop (ok : InOrder v)
    (ran : flushAndPop H v = some v') : InOrder v' ∧ ledgerAt v' = ledgerAt v := by
  match v with
  | .base _ => cases ran
  | .layer _ (.base _) =>
    cases ran
    refine ⟨⟨trivial, trivial, (batchWrite_history H ok.history).1⟩, ?_⟩
    refine Ledger.ext (batchWrite_coins H ok.coins) (funext fun type => ?_)
    exact batchWrite_nullifiers H ok.nullifiers type
  | .layer _ (.layer _ _) =>
    simp only [CCoinsView.flushAndPop, flush, bind_map, bind_eq_some_iff] at ran
    obtain ⟨merged, out, popped⟩ := ran
    cases popped
    obtain ⟨coins, foldedCoins, coinsAfter⟩ := mergeCoins_spec ok.coins
    obtain ⟨histories, foldedHistories, historyAfter⟩ := mergeHistory_spec ok.history
    obtain ⟨nullifiersOk, nullifiers⟩ := mergeNullifiers_spec ok.nullifiers out
    have fields : merged.cacheCoins = coins ∧ merged.historyCacheMap = histories := by
      simp only [CCoinsViewCache.batchWrite, foldedCoins, foldedHistories, some.injEq] at out
      rw [← out]
      exact ⟨rfl, rfl⟩
    obtain ⟨coinsOk, sameCoins⟩ := coinsAfter merged fields.1
    exact ⟨⟨coinsOk, nullifiersOk, (historyAfter merged fields.2).1⟩,
      Ledger.ext sameCoins (funext nullifiers)⟩

end InOrder

/-- A cache on top shows what the stack does; the free ids are those absent below it. -/
theorem InOrder.shows {cache : CCoinsViewCache} {base : CCoinsView}
    (ok : InOrder (.layer cache base)) :
    Shows H {txid | base.coinsAt txid = none} (.layer cache base) (flatten H (.layer cache base)) :=
  ⟨ok, rfl, ⟨cache, base, rfl⟩, fun _ absent => absent⟩

/-! Calls that keep the ledger -/

def KeepsLedger : ViewOp → Prop
  | .modifyCoins _ _ | .modifyNewCoins _ _ | .setNullifiers _ _ => False
  | _ => True

variable {env : ChainEnv} {free : Set Uint256} {v v' : CCoinsView} {f : FlatView}

/-- The stack shows some view with the given ledger. -/
def ShowsLedger (env : ChainEnv) (free : Set Uint256) (l : Ledger) (v : CCoinsView) : Prop :=
  ∃ f, Shows env.merkle free v f ∧ f.ledger = l

/-- A method that keeps to the anchors. -/
theorem Shows.anchors_step (shows' : Shows env.merkle free v f) (same : v.SameButAnchors v') :
    ShowsLedger env free f.ledger v' := by
  refine ⟨_, shows'.shielded_step same.sameBut
    (shows'.nullifiers.of_same same.sameNullifiers) rfl, ?_⟩
  refine Ledger.ext rfl (funext fun type => ?_)
  change v'.nullifierAt type = (f.pools type).nullifiers
  rw [same.sameNullifiers.nullifierAt type, ← shows'.flat]
  rfl

/-- One call; those that move no anchor do what they do on the flat view. -/
theorem Shows.kept {op : ViewOp} {answer : op.Answer} (shows' : Shows env.merkle free v f)
    (keeps : KeepsLedger op) (ran : env.onStack op v = .ok (answer, v')) :
    ShowsLedger env free f.ledger v' := by
  have ledger : LedgerCall free op →
      ∃ g, env.onFlat op f = .ok (answer, g) ∧ Shows env.merkle free v' g := by
    intro call
    have related := (simulatesLedger env.mmr free).step op v f shows' call
    rw [show ViewOp.onStack env.merkle env.mmr op v = _ from ran] at related
    exact related.ok
  have made : ∀ {result : Option CCoinsView}, orAbort result = .ok ((), v') → result = some v' := by
    intro result done
    cases result with
    | none => cases done
    | some w =>
      cases done
      rfl
  cases op with
  | modifyCoins | modifyNewCoins | setNullifiers => exact keeps.elim
  | accessCoins | getAnchorAt | getNullifier | getBestAnchor | getBestBlock
  | getHistoryRoot | sum =>
    obtain ⟨g, read, after⟩ := ledger trivial
    cases read
    exact ⟨_, after, rfl⟩
  | pushHistoryNode epochId node =>
    obtain ⟨g, pushed, after⟩ := ledger trivial
    cases history : (f.history epochId).push env.mmr epochId node with
    | none => simp [onFlat, FlatView.onFlat, history, orAbort] at pushed
    | some h =>
      simp only [onFlat, FlatView.onFlat, history, orAbort, map_some] at pushed
      cases pushed
      exact ⟨_, after, rfl⟩
  | popHistoryNode epochId =>
    obtain ⟨g, popped, after⟩ := ledger trivial
    cases history : (f.history epochId).pop env.mmr epochId with
    | none => simp [onFlat, FlatView.onFlat, history, orAbort] at popped
    | some h =>
      simp only [onFlat, FlatView.onFlat, history, orAbort, map_some] at popped
      cases popped
      exact ⟨_, after, rfl⟩
  | pushAnchor type tree =>
    exact shows'.anchors_step (pushAnchor_sameButAnchors (made ran))
  | popAnchor type newrt =>
    exact shows'.anchors_step (popAnchor_sameButAnchors (made ran))
  | setBestBlock hashBlock =>
    exact ⟨_, shows'.block_step (setBestBlock_sameBut (made ran)) rfl, rfl⟩

variable {α : Type} {p : View α} {value : α}

/-- A function that makes such calls only. -/
theorem keeps_run {l : Ledger} (only : Only KeepsLedger p)
    (shows' : ShowsLedger env free l v) (ran : p.run env.onStack v = .ok (value, v')) :
    ShowsLedger env free l v' := by
  refine only.run_invariant ?_ shows' ran
  rintro _ w _ _ keeps ⟨g, shown, rfl⟩ answered
  exact shown.kept keeps answered

theorem reads_keep (reads : p.Reads) : Only KeepsLedger p := by
  refine Only.mono (fun op read => ?_) reads
  cases op with
  | accessCoins | getAnchorAt | getNullifier | getBestAnchor | getBestBlock | getHistoryRoot
  | sum => trivial
  | modifyCoins | modifyNewCoins | pushAnchor | popAnchor | setNullifiers | setBestBlock
  | pushHistoryNode
  | popHistoryNode => exact read.elim

theorem pushAnchor_keeps {type : ShieldedType} {tree : IncrementalMerkleTree} :
    Only KeepsLedger (View.pushAnchor type tree) :=
  only_perform trivial

theorem setBestBlock_keeps (hashBlock : Uint256) : Only KeepsLedger (View.setBestBlock hashBlock) :=
  only_perform trivial

theorem pushHistory_keeps (block : CBlock) (pindex : CBlockIndex) (total_sapling_tx : Nat) :
    Only KeepsLedger (pushHistory env block pindex total_sapling_tx) := by
  unfold pushHistory
  split
  · exact only_perform trivial
  · exact only_pure _

/-- A function whose calls move no anchor succeeds on the flat view too, with the same value. -/
theorem ledger_run (shows' : Shows env.merkle free v f)
    (safe : Safe env.onFlat (fun op _ => LedgerCall free op) p f)
    (ran : p.run env.onStack v = .ok (value, v')) :
    ∃ g, p.run env.onFlat f = .ok (value, g) ∧ Shows env.merkle free v' g := by
  have related := (simulatesLedger env.mmr free).run p shows' safe
  rw [show p.run (ViewOp.onStack env.merkle env.mmr) v = _ from ran] at related
  exact related.ok

/-- A function that only reads leaves the stack showing the same view. -/
theorem reads_run (shows' : Shows env.merkle free v f) (reads : p.Reads)
    (success : p.run env.onStack v = .ok (value, v')) :
    p.run env.onFlat f = .ok (value, f) ∧ Shows env.merkle free v' f := by
  obtain ⟨g, ran, after⟩ := ledger_run shows' (reads_ledgerSafe reads f) success
  obtain rfl := reads_flat reads ran
  exact ⟨ran, after⟩

/-! `ConnectBlock` -/

variable {block : CBlock} {pindex : CBlockIndex} {l : Ledger}

theorem finishConnect_keeps (pprev : Option CBlockIndex) (blockundo : CBlockUndo) :
    Only KeepsLedger (finishConnect env pindex pprev blockundo) := by
  unfold finishConnect
  split
  · exact only_stop _
  · exact only_bind (setBestBlock_keeps _) fun _ => only_pure _

variable {result : ConnectResult}

/-- The rest of the block once its transactions were connected. -/
theorem finishBlock_stack {pprev : CBlockIndex} {root : Uint256} {s : ConnectState}
    (shown : ShowsLedger env free l v)
    (ran : (View.pushAnchor .sprout (s.trees .sprout) >>= fun _ =>
      View.pushAnchor .sapling (s.trees .sapling) >>= fun _ =>
        finishBlock env block pindex (some pprev) false root s).run env.onStack v =
          .ok (result, v')) :
    (∃ coinbase rest, block.vtx = coinbase :: rest ∧
      ∃ after after', (checkReward env coinbase pindex s.nFees).run env.onFlat after =
        .ok ((), after')) ∧
    result = ⟨recordValid env (recordRoots env pindex root s.trees) pprev, some ⟨s.vtxundo, root⟩,
      if pindex.nStatus.haveUndo then none
      else some (undoWriteToDisk env.undoLib ⟨s.vtxundo, root⟩ pprev.hash)⟩ ∧
    ShowsLedger env free l v' := by
  obtain ⟨_, _, sprout, ran⟩ := run_bind_ok.mp ran
  have shown := keeps_run pushAnchor_keeps shown sprout
  obtain ⟨_, _, sapling, ran⟩ := run_bind_ok.mp ran
  have shown := keeps_run pushAnchor_keeps shown sapling
  rw [finishBlock, run_bind_ok] at ran
  obtain ⟨_, _, lightClient, ran⟩ := ran
  have shown := keeps_run (reads_keep (checkLightClientRoot_reads _ _ _ _)) shown lightClient
  obtain ⟨_, _, history, ran⟩ := run_bind_ok.mp ran
  have shown := keeps_run (pushHistory_keeps _ _ _) shown history
  split at ran
  · cases ran
  · rename_i coinbase rest shape
    obtain ⟨_, _, reward, ran⟩ := run_bind_ok.mp ran
    have after := keeps_run (reads_keep (checkReward_reads _ _ _ _)) shown reward
    obtain ⟨g, shows', -⟩ := shown
    obtain ⟨flatReward, -⟩ := reads_run shows' (checkReward_reads _ _ _ _) reward
    obtain ⟨_, _, scripts, ran⟩ := run_bind_ok.mp ran
    obtain ⟨-, same⟩ := View.run_require_ok.mp scripts
    cases same
    simp only [Bool.false_eq_true, ↓reduceIte] at ran
    refine ⟨⟨coinbase, rest, shape, _, _, flatReward⟩, ?_,
      keeps_run (finishConnect_keeps _ _) after ran⟩
    rw [finishConnect, run_bind_ok] at ran
    obtain ⟨_, _, -, ran⟩ := ran
    cases ran
    rfl

/-- What a successful `ConnectBlock` of a block with a parent has checked and done to the ledger
of a stack. `known` is what the check of BIP 30 has to find out about the ids of the block. -/
theorem connectBlock_applied {pprev : CBlockIndex}
    (notGenesis : block.getHash ≠ env.consensus.hashGenesisBlock)
    (shows' : Shows env.merkle free v f)
    (known : ∀ tx ∈ block.vtx, f.coins tx.getHash = none → tx.getHash ∈ free)
    (ran : (connectBlock env block pindex (some pprev) false).run env.onStack v =
      .ok (result, v')) :
    ∃ trees s undos l, BlockApplied env block pindex pprev f result trees s undos l ∧
      ShowsLedger env free l v' := by
  rw [connectBlock, run_bind_ok] at ran
  obtain ⟨_, _, check, ran⟩ := ran
  obtain ⟨checked, shows'⟩ := reads_run shows' (ofExcept_reads _) check
  obtain ⟨_, _, best, ran⟩ := run_bind_ok.mp ran
  obtain ⟨parent, shows'⟩ := reads_run shows' (checkBestBlock_reads _) best
  rw [if_neg notGenesis, run_bind_ok] at ran
  obtain ⟨⟨_, s⟩, _, loop, ran⟩ := ran
  obtain ⟨g, flatLoop, shows'⟩ := ledger_run shows' (applyTransactions_safe _ _ known) loop
  obtain ⟨rfl, trees, undos, l, rfl, applied⟩ := applyTransactions_ok flatLoop
  obtain ⟨reward, rfl, shown⟩ := finishBlock_stack ⟨_, shows', rfl⟩ ran
  refine ⟨trees, s, undos, l, ?_, shown⟩
  exact {
    toTransactionsApplied := applied
    checked := ofExcept_run_ok checked
    parent := checkBestBlock_ok parent
    reward := reward
    pindexAfter := rfl
    blockundo := rfl
    record := rfl }

/-- The genesis block leaves the ledger as it was. -/
theorem connectBlock_genesis_stack {pprev : Option CBlockIndex}
    (genesis : block.getHash = env.consensus.hashGenesisBlock) (shown : ShowsLedger env free l v)
    (ran : (connectBlock env block pindex pprev false).run env.onStack v = .ok (result, v')) :
    checkBlock env.verifier env.consensus (!env.underCheckpoint pindex.hash) block true
      true = .ok () ∧
      result.pindex.nHeight = pindex.nHeight ∧ result.pindex.hash = pindex.hash ∧
      result.blockundo = none ∧ ShowsLedger env free l v' := by
  rw [connectBlock, run_bind_ok] at ran
  obtain ⟨_, _, check, ran⟩ := ran
  obtain ⟨g, shows', rfl⟩ := shown
  obtain ⟨checked, shows'⟩ := reads_run shows' (ofExcept_reads _) check
  obtain ⟨_, _, best, ran⟩ := run_bind_ok.mp ran
  obtain ⟨-, shows'⟩ := reads_run shows' (checkBestBlock_reads _) best
  rw [if_pos genesis] at ran
  simp only [connectGenesis, Bool.false_eq_true, ↓reduceIte] at ran
  obtain ⟨_, _, moved, ran⟩ := run_bind_ok.mp ran
  have shown := keeps_run (setBestBlock_keeps _) ⟨g, shows', rfl⟩ moved
  cases ran
  exact ⟨ofExcept_run_ok checked, rfl, rfl, rfl, shown⟩

/-! `DisconnectBlock` -/

theorem restoreTip_keeps (pindex pprev : CBlockIndex) (old_sprout_tree_root : Uint256) :
    Only KeepsLedger (restoreTip env pindex pprev old_sprout_tree_root) := by
  refine only_bind (only_perform trivial) fun _ =>
    only_bind (only_perform trivial) fun _ => only_bind ?_ fun _ =>
      only_perform trivial
  unfold popHistory
  split
  · exact only_perform trivial
  · exact only_pure _

namespace BlockApplied

variable {pprev : CBlockIndex} {result : ConnectResult}
  {trees : ShieldedType → IncrementalMerkleTree}
  {s : ConnectState} {undos : List CTxUndo}

/-- `DisconnectBlock` with the undo data of the block gives the ledger before it. -/
theorem disconnects (applied : BlockApplied env block pindex pprev f result trees s undos l)
    (sound : f.ledger.Sound) (acceptable : Ledger.Acceptable pindex.nHeight block.vtx)
    (distinct : ∀ tx ∈ block.vtx, ∀ other ∈ block.vtx, other.getHash = tx.getHash → other = tx)
    {outcome : DisconnectResult} (shown : ShowsLedger env free l v)
    (ran : (disconnectBlock env block result.pindex pprev
      (some (undoWriteToDisk env.undoLib ⟨s.vtxundo, (f.pools .sprout).best⟩ pprev.hash))).run
        env.onStack v =
        .ok (outcome, v')) : outcome = .DISCONNECT_OK ∧ ShowsLedger env free f.ledger v' := by
  have read := undoReadFromDisk_undoWriteToDisk env.undoLib
    (applied.storable acceptable sound) pprev.hash
  rw [disconnectBlock, run_bind_ok] at ran
  obtain ⟨_, _, answered, ran⟩ := ran
  have shown := keeps_run (reads_keep View.Reads.getBestBlock) shown answered
  obtain ⟨_, _, atTip, ran⟩ := run_bind_ok.mp ran
  obtain ⟨-, same⟩ := View.run_require_ok.mp atTip
  cases same
  obtain ⟨g, shows', ledger⟩ := shown
  obtain ⟨size, transactions⟩ := applied.transactions_back sound acceptable distinct ledger
  rw [bind_some, read] at ran
  dsimp only at ran
  rw [if_neg (not_not.mpr size), run_bind_ok] at ran
  obtain ⟨_, _, loop, ran⟩ := ran
  obtain ⟨_, flatLoop, shows'⟩ :=
    ledger_run shows' (ledgerSafe (disconnectTransactions_ledgerCalls _ _) _) loop
  rw [applied.nHeight_after, transactions] at flatLoop
  cases flatLoop
  dsimp only at ran
  obtain ⟨_, _, tip, ran⟩ := run_bind_ok.mp ran
  cases ran
  exact ⟨rfl, keeps_run (restoreTip_keeps _ _ _) ⟨_, shows', rfl⟩ tip⟩

end BlockApplied

end Zcashd.Abstract
