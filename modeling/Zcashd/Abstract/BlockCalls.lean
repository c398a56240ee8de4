import Zcashd.Abstract.ChainState

/-!
The calls block connection makes are ones a stack of caches answers rightly: new coins are
created only under ids the view has nothing for, anchors in play are pushed and existing ones
popped, and no best block is null. With this, what is known of the flat view holds of the
stack.
-/
namespace Zcashd.Abstract

open Lib Source Program View.Reads

variable {env : ChainEnv} {T : ShieldedType → Set IncrementalMerkleTree} {free : Set Uint256}

/-- Calls that are right in every state. -/
def AlwaysAdmissible (T : ShieldedType → Set IncrementalMerkleTree) (free : Set Uint256)
    (op : ViewOp) : Prop :=
  ∀ f, Admissible T free op f

variable {op : ViewOp}

theorem LedgerCall.alwaysAdmissible (call : LedgerCall free op) : AlwaysAdmissible T free op := by
  intro f
  cases op with
  | modifyNewCoins txid edit => exact call
  | pushAnchor | popAnchor | setBestBlock => exact call.elim
  | accessCoins | modifyCoins | getAnchorAt | getNullifier | getBestAnchor | setNullifiers
  | getBestBlock
  | getHistoryRoot | pushHistoryNode | popHistoryNode | sum => trivial

theorem IsRead.ledgerCall (read : op.IsRead) : LedgerCall free op := by
  cases op with
  | accessCoins | getAnchorAt | getNullifier | getBestAnchor | getBestBlock | getHistoryRoot
  | sum => trivial
  | modifyCoins | modifyNewCoins | pushAnchor | popAnchor | setNullifiers | setBestBlock
  | pushHistoryNode
  | popHistoryNode => exact read.elim

variable {α : Type} {p : View α}

theorem reads_ledgerCalls (reads : p.Reads) : Only (LedgerCall free) p :=
  Only.mono (fun _ read => IsRead.ledgerCall read) reads

section

variable (calls : Only (LedgerCall free) p)
include calls

theorem ledgerCalls_admissible : Only (AlwaysAdmissible T free) p :=
  Only.mono (fun _ call => LedgerCall.alwaysAdmissible call) calls

theorem ledgerCalls_safe (f : FlatView) : Safe env.onFlat (Admissible T free) p f :=
  Only.safe calls (fun _ f call => LedgerCall.alwaysAdmissible call f) f

theorem ledgerSafe (f : FlatView) : Safe env.onFlat (fun op _ => LedgerCall free op) p f :=
  Only.safe calls (fun _ _ call => call) f

end

theorem reads_ledgerSafe (reads : p.Reads) (f : FlatView) :
    Safe env.onFlat (fun op _ => LedgerCall free op) p f :=
  ledgerSafe (reads_ledgerCalls reads) f

theorem reads_safe (reads : p.Reads) (f : FlatView) : Safe env.onFlat (Admissible T free) p f :=
  ledgerCalls_safe (reads_ledgerCalls reads) f

theorem always_safe (only : Only (AlwaysAdmissible T free) p) (f : FlatView) :
    Safe env.onFlat (Admissible T free) p f :=
  Only.safe only (fun _ f always => always f) f

/-! `ConnectBlock` -/

theorem spendInput_ledgerCalls (txin : CTxIn) : Only (LedgerCall free) (spendInput txin) := by
  refine only_bind (reads_ledgerCalls (View.Reads.accessCoins _)) fun _ => ?_
  split
  · exact only_stop _
  · split
    · exact only_bind (only_perform trivial) fun _ => only_pure _
    · exact only_stop _

theorem spendInputs_ledgerCalls (txins : List CTxIn) :
    Only (LedgerCall free) (spendInputs txins) := by
  induction txins with
  | nil => exact only_pure _
  | cons txin _ ih =>
    exact only_bind (spendInput_ledgerCalls txin) fun _ =>
      only_bind ih fun _ => only_pure _

theorem updateCoins_ledgerCalls {tx : CTransaction} {nHeight : Nat} (known : tx.getHash ∈ free) :
    Only (LedgerCall free) (updateCoins tx nHeight) := by
  refine only_bind ?_ fun _ => only_bind (only_perform trivial) fun _ =>
    only_bind (only_perform known) fun _ => only_pure _
  split
  · exact only_pure _
  · exact spendInputs_ledgerCalls tx.vin

theorem connectTransactions_ledgerCalls (pindex : CBlockIndex) (pprev : Option CBlockIndex)
    (fScriptChecks : Bool) {txs : List CTransaction} (known : ∀ tx ∈ txs, tx.getHash ∈ free)
    (coinBase : Bool) (s : ConnectState) :
    Only (LedgerCall free) (connectTransactions env pindex pprev fScriptChecks txs coinBase s) := by
  induction txs generalizing coinBase s with
  | nil => exact only_pure _
  | cons tx _ ih =>
    refine only_bind ?_ fun s => ih (fun other mem => known other (by simp [mem])) false s
    refine only_bind (only_require _ _) fun _ => ?_
    refine only_bind (reads_ledgerCalls (ite (View.Reads.pure _) (checkNonCoinBase_reads _ _ _)))
      fun _ => ?_
    refine only_bind (reads_ledgerCalls (ite (View.Reads.pure _) (addFees_reads _ _ _ _ _ _)))
      fun _ => ?_
    refine only_bind (updateCoins_ledgerCalls (known tx (by simp))) fun _ => ?_
    exact only_bind (reads_ledgerCalls (appendCommitments_reads _ _ _)) fun _ => only_pure _

theorem pushHistory_ledgerCalls (block : CBlock) (pindex : CBlockIndex) (total_sapling_tx : Nat) :
    Only (LedgerCall free) (pushHistory env block pindex total_sapling_tx) := by
  unfold pushHistory
  split
  · exact only_perform trivial
  · exact only_pure _

variable {pindex : CBlockIndex}

/-- The part of `ConnectBlock` after the block's trees were pushed. -/
theorem finishConnect_admissible (notNull : pindex.hash ≠ 0) (pprev : Option CBlockIndex)
    (blockundo : CBlockUndo) :
    Only (AlwaysAdmissible T free) (finishConnect env pindex pprev blockundo) := by
  unfold finishConnect
  split
  · exact only_stop _
  · exact only_bind (only_perform fun _ => notNull) fun _ => only_pure _

/-- The block's trees in play: what its commitments make of the best trees. -/
def TreesAdded (env : ChainEnv) (T : ShieldedType → Set IncrementalMerkleTree) (block : CBlock)
    (f : FlatView) :
    Prop :=
  ∀ type tree tree', (f.pools type).anchors (f.pools type).best = some tree →
    tree.appendAll (env.merkle type) (block.vtx.flatMap (fun tx => tx.commitments type)) =
      some tree' →
    tree' ∈ T type

variable {block : CBlock}

theorem applyTransactions_safe (pprev : Option CBlockIndex) (fScriptChecks : Bool) {f : FlatView}
    (known : ∀ tx ∈ block.vtx, f.coins tx.getHash = none → tx.getHash ∈ free) :
    Safe env.onFlat (fun op _ => LedgerCall free op)
      (applyTransactions env block pindex pprev fScriptChecks) f := by
  refine safe_bind (reads_ledgerSafe (checkTurnstile_reads _ _) _) fun _ g turnstile => ?_
  obtain rfl := reads_flat (checkTurnstile_reads _ _) turnstile
  refine safe_bind (reads_ledgerSafe (checkBIP30_reads _) _) fun _ g absent => ?_
  obtain rfl := reads_flat (checkBIP30_reads _) absent
  refine safe_bind (reads_ledgerSafe (bestTree_reads _) _) fun _ g _ => ?_
  dsimp only
  refine safe_bind (safe_require _ _) fun _ g _ => ?_
  refine safe_bind (reads_ledgerSafe (bestTree_reads _) _) fun _ g _ => ?_
  refine safe_bind (ledgerSafe (connectTransactions_ledgerCalls _ _ _ ?_ _ _) _) fun _ _ _ =>
    safe_pure _
  exact fun tx mem => known tx mem (checkBIP30_ok absent tx mem)

/-- The part of `ConnectBlock` after the anchors were pushed. -/
theorem finishBlock_admissible (notNull : pindex.hash ≠ 0)
    {pprev : Option CBlockIndex} {fJustCheck : Bool} {root : Uint256} {s : ConnectState} :
    Only (AlwaysAdmissible T free) (finishBlock env block pindex pprev fJustCheck root s) := by
  refine only_bind
    (ledgerCalls_admissible (reads_ledgerCalls (checkLightClientRoot_reads _ _ _ _))) fun _ => ?_
  refine only_bind (ledgerCalls_admissible (pushHistory_ledgerCalls _ _ _)) fun _ => ?_
  split
  · exact only_stop _
  · refine only_bind
      (ledgerCalls_admissible (reads_ledgerCalls (checkReward_reads _ _ _ _))) fun _ => ?_
    refine only_bind (only_require _ _) fun _ => ?_
    split
    · exact only_pure _
    · apply finishConnect_admissible
      exact notNull

theorem connectBlock_safe (pprev : Option CBlockIndex) (fJustCheck : Bool)
    {f : FlatView} (known : ∀ tx ∈ block.vtx, f.coins tx.getHash = none → tx.getHash ∈ free)
    (added : TreesAdded env T block f) (notNull : pindex.hash ≠ 0) :
    Safe env.onFlat (Admissible T free) (connectBlock env block pindex pprev fJustCheck) f := by
  refine safe_bind (reads_safe (ofExcept_reads _) f) fun _ g checked => ?_
  obtain rfl := reads_flat (ofExcept_reads _) checked
  refine safe_bind (reads_safe (checkBestBlock_reads _) _) fun _ g best => ?_
  obtain rfl := reads_flat (checkBestBlock_reads _) best
  split
  · unfold connectGenesis
    split
    · exact safe_pure _
    · apply always_safe
      exact only_bind (only_perform fun _ => notNull) fun _ => only_pure _
  · refine safe_bind ((applyTransactions_safe pprev _ known).mono ?_) fun rootAndState g ran => ?_
    · exact fun _ g call => LedgerCall.alwaysAdmissible call g
    have inPlay : ∀ type, rootAndState.2.trees type ∈ T type := by
      intro type
      obtain ⟨-, _, _, l, -, applied⟩ := applyTransactions_ok ran
      exact added type _ _ (applied.best type) (applied.appended type)
    -- every call from here on is right in any state
    apply always_safe
    refine only_bind (only_perform fun _ => inPlay .sprout) fun _ => ?_
    refine only_bind (only_perform fun _ => inPlay .sapling) fun _ => ?_
    exact finishBlock_admissible notNull

/-! `DisconnectBlock` -/

theorem applyTxUndo_ledgerCalls (inputs : List (CTxInUndo × CTxIn)) :
    Only (LedgerCall free) (applyTxUndo inputs) := by
  induction inputs with
  | nil => exact only_pure _
  | cons _ _ ih =>
    refine only_bind ?_ fun _ => only_bind ih fun _ => only_pure _
    exact only_bind (reads_ledgerCalls (View.Reads.accessCoins _)) fun _ =>
      only_bind (only_perform trivial) fun _ => only_pure _

theorem disconnectTransactions_ledgerCalls (nHeight : Nat)
    (items : List (CTransaction × Option CTxUndo)) :
    Only (LedgerCall free) (disconnectTransactions nHeight items) := by
  induction items with
  | nil => exact only_pure _
  | cons _ _ ih =>
    refine only_bind ?_ fun _ => ?_
    · refine only_bind ?_ fun _ => only_bind (only_perform trivial) fun _ => ?_
      · exact only_bind (reads_ledgerCalls (View.Reads.accessCoins _)) fun _ =>
          only_bind (only_perform trivial) fun _ => only_pure _
      · split
        · exact only_pure _
        · split
          · exact only_pure _
          · exact only_bind (applyTxUndo_ledgerCalls _) fun _ => only_pure _
    · split
      · exact only_pure _
      · exact only_bind ih fun _ => only_pure _

theorem restoreTip_safe {pprev : CBlockIndex} {old_sprout_tree_root : Uint256} {g : FlatView}
    (anchored : ∀ type, ((g.pools type).anchors (g.pools type).best).isSome)
    (sprout : old_sprout_tree_root ≠ 0) (sapling : oldSaplingRoot env pprev ≠ 0)
    (notNull : pprev.hash ≠ 0) :
    Safe env.onFlat (Admissible T free) (restoreTip env pindex pprev old_sprout_tree_root) g := by
  refine safe_bind (safe_perform ⟨sprout, anchored .sprout⟩) fun _ _ popped => ?_
  have popped' := popped
  rw [popAnchor_run (.inr (anchored .sprout))] at popped'
  cases popped'
  refine safe_bind (safe_perform ⟨sapling, ?_⟩) fun _ _ _ => ?_
  · simpa using anchored .sapling
  · apply always_safe
    refine only_bind ?_ fun _ => only_perform fun _ => notNull
    unfold popHistory
    split
    · exact only_perform fun _ => trivial
    · exact only_pure _

namespace BlockConnected

variable {block : CBlock} {pindex pprev : CBlockIndex} {f f' : FlatView} {result : ConnectResult}
  {trees : ShieldedType → IncrementalMerkleTree} {s : ConnectState} {undos : List CTxUndo}
    {l : Ledger}

theorem disconnect_safe
    (connected : BlockConnected env block pindex pprev f result f' trees s undos l)
    (sound : ViewSound env f) (parsed : ∀ tx ∈ block.vtx, tx.Parsed)
    (height : 0 < pindex.nHeight ∧ pindex.nHeight < 2 ^ 31)
    (distinct : ∀ tx ∈ block.vtx, ∀ other ∈ block.vtx, other.getHash = tx.getHash → other = tx)
    (roots : ∀ type, (f.pools type).best ≠ 0)
    (sapling : (f.pools .sapling).best = oldSaplingRoot env pprev)
    (notNull : pprev.hash ≠ 0) :
    Safe env.onFlat (Admissible T free) (disconnectBlock env block result.pindex pprev
      (some (undoWriteToDisk env.undoLib ⟨s.vtxundo, (f.pools .sprout).best⟩ pprev.hash))) f' := by
  have acceptable := connected.acceptable parsed height
  have read := undoReadFromDisk_undoWriteToDisk env.undoLib
    (connected.storable acceptable sound.ledger) pprev.hash
  obtain ⟨size, transactions⟩ :=
    connected.transactions_back sound.ledger acceptable distinct connected.ledger_after
  have anchored : ∀ type, (((f'.withLedger f.ledger).pools type).anchors
      ((f'.withLedger f.ledger).pools type).best).isSome := by
    intro type
    obtain ⟨_, best, -⟩ := (connected.viewSound sound parsed height).anchors type
    exact Option.isSome_of_eq_some best
  refine safe_bind (safe_perform trivial) fun _ g best => ?_
  cases best
  refine safe_bind (safe_require _ _) fun _ g required => ?_
  obtain rfl := reads_flat (require _ _) required
  rw [Option.bind_some, read]
  dsimp only
  rw [if_neg (not_not.mpr size)]
  refine safe_bind (ledgerCalls_safe (disconnectTransactions_ledgerCalls _ _) _) fun _ g ran => ?_
  rw [connected.nHeight_after, transactions] at ran
  cases ran
  refine safe_bind ?_ fun _ _ _ => safe_pure _
  exact restoreTip_safe anchored (roots .sprout) (sapling ▸ roots .sapling) notNull

end BlockConnected

/-! On top of a chain -/

/-- The trees of a view are in play, and so are those a block adds to it. -/
structure BlockInPlay (env : ChainEnv) (T : ShieldedType → Set IncrementalMerkleTree)
    (block : CBlock) (f : FlatView) : Prop where
  play : TreesInPlay env.merkle T
  known : ∀ type rt tree, (f.pools type).anchors rt = some tree → tree ∈ T type
  added : TreesAdded env T block f

/-- A block connected to the tip of a chain can be disconnected, which gives the view before it. -/
theorem ChainState.disconnects {contextual : ContextualVerifier} {side : CBlock → FlatView → Prop}
    {chain : List (CBlock × ConnectResult)} (state : ChainState env contextual side chain f)
    (tip : tipOf chain = some pprev) (entered : Entered env block pindex (some pprev))
    (distinct : ∀ tx ∈ block.vtx, ∀ other ∈ block.vtx, other.getHash = tx.getHash → other = tx)
    (later : env.consensus.networkUpgradeActive 0 .UPGRADE_SAPLING = false)
    (undoes : env.mmr.Undoes) (inPlay : BlockInPlay env T block f)
    (ran : (connectBlock env block pindex (some pprev) false).run env.onFlat f = .ok (result, f')) :
    ∃ blockundo, result.blockundo = some blockundo ∧
      (disconnectBlock env block result.pindex pprev
        (some (undoWriteToDisk env.undoLib blockundo pprev.hash))).run env.onFlat f' =
          .ok (.DISCONNECT_OK, f) ∧
      ∀ free, Safe env.onFlat (Admissible T free) (disconnectBlock env block result.pindex pprev
        (some (undoWriteToDisk env.undoLib blockundo pprev.hash))) f' := by
  have notGenesis : block.getHash ≠ env.consensus.hashGenesisBlock :=
    fun genesis => nomatch entered.genesis.mp genesis
  obtain ⟨trees, s, _, l, connected⟩ := connectBlock_connected notGenesis ran
  have sound := state.viewSound
  have height : pindex.nHeight = pprev.nHeight + 1 := entered.height
  have bounds : 0 < pindex.nHeight ∧ pindex.nHeight < 2 ^ 31 := ⟨by omega, entered.heightBound⟩
  have sapling : (f.pools .sapling).best = oldSaplingRoot env pprev := by
    rw [state.saplingRoot later, tip]
    rfl
  have roots : ∀ type, (f.pools type).best ≠ 0 := by
    intro type
    rw [← (connected.trees_after sound type).1]
    exact inPlay.play.not_null type _ (inPlay.known type _ _ (connected.best type))
  have added : ∀ type, s.trees type ∈ T type :=
    fun type => inPlay.added type _ _ (connected.best type) (connected.appended type)
  refine ⟨_, connected.blockundo, ?_, fun free => ?_⟩
  · exact connected.disconnected undoes sound.ledger entered.parsed bounds distinct
      (connected.new_anchor sound inPlay.play inPlay.known added) sapling (sound.history _)
  · exact connected.disconnect_safe sound entered.parsed bounds distinct roots sapling
      (state.tip_hash tip)

end Zcashd.Abstract
