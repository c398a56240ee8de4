import Zcashd.Abstract.FlatView
import Zcashd.Abstract.SpendHistory
import Zcashd.Source.ViewReads

/-!
`ConnectBlock` on the flat view. Transactions act on its ledger; the anchors, the history
and the best block follow at the end. `connectBlock_connected` is the inversion: what a
successful run has checked and what it leaves.
-/
namespace Zcashd

/-- The method calls of an environment on flat views. -/
abbrev Source.ChainEnv.onFlat (env : Source.ChainEnv) :
    Lib.Handler Source.viewSignature Source.Failure Abstract.FlatView :=
  Abstract.FlatView.onFlat env.merkle env.mmr

namespace Abstract

open Lib Source Program View.Reads CCoins CoinsEdit Function

namespace FlatView

def ledger (f : FlatView) : Ledger := ⟨f.coins, fun type => (f.pools type).nullifiers⟩

def withLedger (f : FlatView) (l : Ledger) : FlatView :=
  { f with
    coins := l.coins, pools := fun type => { f.pools type with nullifiers := l.nullifiers type } }

@[simp] theorem ledger_withLedger (f : FlatView) (l : Ledger) : (f.withLedger l).ledger = l := rfl

end FlatView

variable {env : ChainEnv} {f f' : FlatView} {α : Type}

variable {p : View α} {value : α}

/-- A run that only reads leaves the flat view as it was. -/
theorem reads_flat (reads : p.Reads) (ran : p.run env.onFlat f = .ok (value, f')) : f' = f := by
  refine Only.run_state reads ?_ ran
  intro op s _ _ read answered
  cases op with
  | accessCoins | getAnchorAt | getNullifier | getBestAnchor | getBestBlock
  | getHistoryRoot | sum =>
    cases answered
    rfl
  | modifyCoins | modifyNewCoins | pushAnchor | popAnchor | setNullifiers | setBestBlock
  | pushHistoryNode
  | popHistoryNode => exact read.elim

/-- A sequence that begins with a reading function. -/
theorem reads_bind {β : Type} {rest : α → View β} {result : β × FlatView} (reads : p.Reads) :
    (p >>= rest).run env.onFlat f = .ok result ↔
      ∃ value, p.run env.onFlat f = .ok (value, f) ∧
        (rest value).run env.onFlat f = .ok result := by
  rw [run_bind_ok]
  constructor
  · rintro ⟨value, _, first, ran⟩
    have same := reads_flat reads first
    subst same
    exact ⟨value, first, ran⟩
  · rintro ⟨value, first, ran⟩
    exact ⟨value, f, first, ran⟩

theorem require_bind {β : Type} {condition : Bool} {failure : Failure} {rest : Unit → View β}
    {result : β × FlatView} :
    (View.require condition failure >>= rest).run env.onFlat f = .ok result ↔
      condition = true ∧ (rest ()).run env.onFlat f = .ok result := by
  rw [reads_bind (require _ _)]
  constructor
  · rintro ⟨_, first, ran⟩
    exact ⟨(View.run_require_ok.mp first).1, ran⟩
  · rintro ⟨yes, ran⟩
    exact ⟨(), View.run_require_ok.mpr ⟨yes, rfl⟩, ran⟩

/-! Nullifiers -/

variable {type : ShieldedType}

theorem anyNullifier_false {nfs : List Uint256}
    (ran : (anyNullifier type nfs).run env.onFlat f = .ok (false, f')) :
    ∀ nf ∈ nfs, f.ledger.nullifiers type nf = false := by
  induction nfs with
  | nil => exact nofun
  | cons nf rest ih =>
    rw [anyNullifier, reads_bind (getNullifier _ _)] at ran
    obtain ⟨_, answered, ran⟩ := ran
    cases answered
    split at ran
    · cases ran
    · grind [FlatView.ledger]

variable {H : MerkleHash}

theorem haveJoinSplits_true {joinSplits : List JSDescription}
    {intermediates : List (Uint256 × IncrementalMerkleTree)}
    (ran : (haveJoinSplits H joinSplits intermediates).run env.onFlat f = .ok (true, f')) :
    ∀ joinsplit ∈ joinSplits,
      ∀ nf ∈ joinsplit.nullifiers.toList, f.ledger.nullifiers .sprout nf = false := by
  induction joinSplits generalizing intermediates with
  | nil => exact nofun
  | cons joinsplit rest ih =>
    rw [haveJoinSplits, reads_bind (anyNullifier_reads _ _)] at ran
    obtain ⟨_, answered, ran⟩ := ran
    split at ran
    · cases ran
    · rename_i unspent
      rw [(Bool.not_eq_true _).mp unspent] at answered
      have now := anyNullifier_false answered
      rw [run_bind_ok] at ran
      obtain ⟨_, after, read, ran⟩ := ran
      have kept : after = f := by split at read <;> (cases read; rfl)
      subst kept
      split at ran
      · cases ran
      · split at ran
        · cases ran
        · grind

theorem haveSpends_true {spends : List SpendDescription}
    (ran : (haveSpends spends).run env.onFlat f = .ok (true, f')) :
    ∀ spend ∈ spends, f.ledger.nullifiers .sapling spend.nullifier = false := by
  induction spends with
  | nil => exact nofun
  | cons spend rest ih =>
    rw [haveSpends, reads_bind (getNullifier _ _)] at ran
    obtain ⟨_, answered, ran⟩ := ran
    cases answered
    split at ran
    · cases ran
    · rw [reads_bind (getAnchorAt _ _)] at ran
      obtain ⟨_, -, ran⟩ := ran
      split at ran
      · grind [FlatView.ledger]
      · cases ran

variable {tx : CTransaction}

theorem haveShieldedRequirements_true
    (ran : (haveShieldedRequirements H tx).run env.onFlat f = .ok (true, f')) :
    Ledger.Unrevealed tx f.ledger := by
  rw [haveShieldedRequirements, reads_bind (haveJoinSplits_reads _ _ _)] at ran
  obtain ⟨_, first, ran⟩ := ran
  split at ran
  · rename_i yes
    rw [yes] at first
    intro type nf mem
    cases type with
    | sprout =>
      obtain ⟨joinsplit, belongs, reveals⟩ := List.mem_flatMap.mp mem
      exact haveJoinSplits_true first joinsplit belongs nf reveals
    | sapling =>
      obtain ⟨spend, belongs, rfl⟩ := List.mem_map.mp mem
      exact haveSpends_true ran spend belongs
  · cases ran

theorem checkNonCoinBase_ok {nSigOps total : Nat}
    (ran : (checkNonCoinBase env tx nSigOps).run env.onFlat f = .ok (total, f')) :
    Ledger.Unrevealed tx f.ledger := by
  rw [checkNonCoinBase, reads_bind (haveInputs_reads _)] at ran
  obtain ⟨_, -, ran⟩ := ran
  rw [require_bind, reads_bind (haveShieldedRequirements_reads _ _)] at ran
  obtain ⟨-, _, first, ran⟩ := ran
  rw [require_bind] at ran
  rw [ran.1] at first
  exact haveShieldedRequirements_true first

/-! `UpdateCoins` -/

theorem spendInput_ok {txin : CTxIn} {undo : CTxInUndo}
    (ran : (spendInput txin).run env.onFlat f = .ok (undo, f')) :
    ∃ l, f.ledger.spend txin = some (undo, l) ∧ f' = f.withLedger l := by
  rw [spendInput, reads_bind (accessCoins _)] at ran
  obtain ⟨coins, answered, ran⟩ := ran
  cases answered
  split at ran
  · cases ran
  · rename_i c held
    split at ran
    · rename_i _ spent hit spends
      obtain ⟨_, _, modified, ran⟩ := run_bind_ok.mp ran
      cases modified
      cases ran
      refine ⟨{ f.ledger with coins := update f.coins txin.prevout.hash spent.visible }, ?_, ?_⟩
      · unfold Ledger.spend
        rw [show f.ledger.coins txin.prevout.hash = some c from held]
        simp only [hit, spends]
        rfl
      · have clean : spent.cleanup = spent := by
          rw [spend_of_output hit] at spends
          cases spends
          exact cleanup_clean _
        refine FlatView.ext ?_ rfl rfl rfl
        simp [FlatView.withLedger, onVisible, assign, clean]
    · cases ran

theorem spendInputs_ok {txins : List CTxIn} {undos : List CTxInUndo}
    (ran : (spendInputs txins).run env.onFlat f = .ok (undos, f')) :
    ∃ l, f.ledger.spendAll txins = some (undos, l) ∧ f' = f.withLedger l := by
  induction txins generalizing f undos with
  | nil =>
    cases ran
    exact ⟨_, rfl, rfl⟩
  | cons _ rest ih =>
    rw [spendInputs, run_bind_ok] at ran
    obtain ⟨_, _, first, ran⟩ := ran
    obtain ⟨_, _, after, ran⟩ := run_bind_ok.mp ran
    cases ran
    obtain ⟨l, spent, rfl⟩ := spendInput_ok first
    obtain ⟨l', rest, rfl⟩ := ih after
    refine ⟨l', ?_, rfl⟩
    rw [FlatView.ledger_withLedger] at rest
    simp [Ledger.spendAll, spent, rest]

theorem updateCoins_ok {nHeight : Nat} {undo : CTxUndo}
    (ran : (updateCoins tx nHeight).run env.onFlat f = .ok (undo, f')) :
    ∃ l, f.ledger.connect tx nHeight = some (undo, l) ∧ f' = f.withLedger l := by
  rw [updateCoins, run_bind_ok] at ran
  obtain ⟨vprevout, middle, first, ran⟩ := ran
  obtain ⟨_, _, set, ran⟩ := run_bind_ok.mp ran
  cases set
  obtain ⟨_, _, created, ran⟩ := run_bind_ok.mp ran
  cases created
  cases ran
  have spent : ∃ l, (if tx.isCoinBase then some ([], f.ledger) else f.ledger.spendAll tx.vin) =
      some (vprevout, l) ∧ middle = f.withLedger l := by
    split at first
    · cases first
      exact ⟨f.ledger, by simp_all, rfl⟩
    · simp_all [spendInputs_ok first]
  obtain ⟨l, spent, rfl⟩ := spent
  refine ⟨(l.reveal tx true).create tx nHeight, ?_, ?_⟩
  · rw [Ledger.connect, spent]
    rfl
  · have clean : (fromTx tx nHeight).cleanup = fromTx tx nHeight := cleanup_clean _
    refine FlatView.ext ?_ ?_ rfl rfl
    · simp [FlatView.withLedger, Ledger.create, Ledger.reveal, onVisible, assign, clean]
    · rfl

/-! The loop over the transactions -/

theorem appendCommitments_ok {trees trees' : ShieldedType → IncrementalMerkleTree}
    (ran : (appendCommitments env tx trees).run env.onFlat f = .ok (trees', f'))
    (type : ShieldedType) :
    (trees type).appendAll (env.merkle type) (tx.commitments type) = some (trees' type) := by
  unfold appendCommitments at ran
  split at ran
  · cases ran
    cases type <;> assumption
  · cases ran

variable {pindex : CBlockIndex} {pprev : Option CBlockIndex} {fScriptChecks : Bool}
  {coinBase : Bool} {s : ConnectState}

variable {s' : ConnectState}

theorem connectTransaction_ok
    (ran : (connectTransaction env pindex pprev fScriptChecks tx coinBase s).run env.onFlat f =
      .ok (s', f')) :
    ∃ undo l, (tx.isCoinBase = false → Ledger.Unrevealed tx f.ledger) ∧
      f.ledger.connect tx pindex.nHeight = some (undo, l) ∧ f' = f.withLedger l ∧
      s'.vtxundo = (if coinBase then s.vtxundo else s.vtxundo ++ [undo]) ∧
      ∀ type, (s.trees type).appendAll (env.merkle type) (tx.commitments type) =
        some (s'.trees type) := by
  rw [connectTransaction, require_bind] at ran
  obtain ⟨-, ran⟩ := ran
  rw [reads_bind (ite (pure _) (checkNonCoinBase_reads _ _ _))] at ran
  obtain ⟨_, checked, ran⟩ := ran
  rw [reads_bind (ite (pure _) (addFees_reads _ _ _ _ _ _))] at ran
  obtain ⟨_, -, ran⟩ := ran
  obtain ⟨undo, _, updated, ran⟩ := run_bind_ok.mp ran
  obtain ⟨l, connected, rfl⟩ := updateCoins_ok updated
  rw [reads_bind (appendCommitments_reads _ _ _)] at ran
  obtain ⟨_, appended, ran⟩ := ran
  cases ran
  refine ⟨undo, l, ?_, connected, rfl, rfl, appendCommitments_ok appended⟩
  intro other
  rw [if_neg (by simp [other])] at checked
  exact checkNonCoinBase_ok checked

theorem appendAll_append (H : MerkleHash) (t : IncrementalMerkleTree)
    (first second : List Uint256) :
    t.appendAll H (first ++ second) =
      (t.appendAll H first).bind (fun t => t.appendAll H second) := by
  induction first generalizing t with
  | nil => rfl
  | cons obj _ ih =>
    simp only [List.cons_append, IncrementalMerkleTree.appendAll]
    cases t.append H obj <;> simp [ih]

/-- The undo data kept for a run of transactions, the first of which may be the coinbase. -/
def keptUndo (coinBase : Bool) (undos : List CTxUndo) : List CTxUndo :=
  if coinBase then undos.tail else undos

variable {txs : List CTransaction}

theorem connectTransactions_ok
    (ran : (connectTransactions env pindex pprev fScriptChecks txs coinBase s).run env.onFlat f =
      .ok (s', f')) :
    ∃ undos l, Ledger.Connects (fun tx l => tx.isCoinBase = false → Ledger.Unrevealed tx l)
      pindex.nHeight txs
        f.ledger undos l ∧ f' = f.withLedger l ∧ s'.vtxundo = s.vtxundo ++ keptUndo coinBase undos ∧
      ∀ type, (s.trees type).appendAll (env.merkle type)
        (txs.flatMap (fun tx => tx.commitments type)) = some (s'.trees type) := by
  induction txs generalizing f s coinBase with
  | nil =>
    cases ran
    exact ⟨[], _, .nil _, rfl, by cases coinBase <;> simp [keptUndo], fun _ => rfl⟩
  | cons _ _ ih =>
    rw [connectTransactions, run_bind_ok] at ran
    obtain ⟨_, _, first, ran⟩ := ran
    obtain ⟨undo, l, unrevealed, connected, rfl, undoEq, trees⟩ := connectTransaction_ok first
    obtain ⟨undos, l', connects, rfl, laterEq, later⟩ := ih ran
    refine ⟨undo :: undos, l', .cons unrevealed connected connects, rfl, ?_, ?_⟩
    · rw [laterEq, undoEq]
      cases coinBase <;> simp [keptUndo]
    · intro type
      rw [List.flatMap_cons, appendAll_append, trees]
      exact later type

/-! The whole block -/

variable {tree : IncrementalMerkleTree}

theorem pushAnchor_withNullifiers {p : PoolState} {nullifiers : Uint256 → Bool} :
    ({ p with nullifiers := nullifiers } : PoolState).pushAnchor H tree =
      { p.pushAnchor H tree with nullifiers := nullifiers } := by
  unfold PoolState.pushAnchor
  split <;> rfl

def epochOf (env : ChainEnv) (pindex : CBlockIndex) : Nat :=
  env.consensus.currentEpochBranchId pindex.nHeight

def heartwoodActive (env : ChainEnv) (pindex : CBlockIndex) : Bool :=
  env.consensus.networkUpgradeActive pindex.nHeight .UPGRADE_HEARTWOOD

/-- The view before a block, the variables at the end of the loop over its transactions and
the ledger after it. -/
structure TransactionsApplied (env : ChainEnv) (block : CBlock) (pindex : CBlockIndex)
    (pprev : Option CBlockIndex) (f : FlatView) (trees : ShieldedType → IncrementalMerkleTree)
    (s : ConnectState) (undos : List CTxUndo) (l : Ledger) :
    Prop where
  turnstile : env.fZIP209Enabled = true →
    0 ≤ pindex.nChainSproutValue.getD 0 ∧ 0 ≤ pindex.nChainSaplingValue.getD 0
  absent : ∀ tx ∈ block.vtx, f.coins tx.getHash = none
  best : ∀ type, (f.pools type).anchors (f.pools type).best = some (trees type)
  loop : (connectTransactions env pindex pprev (!env.underCheckpoint pindex.hash) block.vtx true
    ⟨0, 0, [], trees, 0, true⟩).run env.onFlat f = .ok (s, f.withLedger l)
  connects : Ledger.Connects (fun tx l => tx.isCoinBase = false → Ledger.Unrevealed tx l)
    pindex.nHeight block.vtx f.ledger undos l
  vtxundo : s.vtxundo = undos.tail
  appended : ∀ type, (trees type).appendAll (env.merkle type)
    (block.vtx.flatMap (fun tx => tx.commitments type)) = some (s.trees type)

/-- The same with the outcome for the block. -/
structure BlockApplied (env : ChainEnv) (block : CBlock) (pindex pprev : CBlockIndex) (f : FlatView)
    (result : ConnectResult) (trees : ShieldedType → IncrementalMerkleTree) (s : ConnectState)
    (undos : List CTxUndo) (l : Ledger) : Prop
    extends TransactionsApplied env block pindex (some pprev) f trees s undos l where
  checked : checkBlock env.verifier env.consensus (!env.underCheckpoint pindex.hash) block true
    true = .ok ()
  parent : f.bestBlock = pprev.hash
  reward : ∃ coinbase rest, block.vtx = coinbase :: rest ∧
    ∃ after after', (checkReward env coinbase pindex s.nFees).run env.onFlat after =
      .ok ((), after')
  pindexAfter : result.pindex =
    recordValid env (recordRoots env pindex (f.pools .sprout).best s.trees) pprev
  blockundo : result.blockundo = some ⟨s.vtxundo, (f.pools .sprout).best⟩
  record : result.record = if pindex.nStatus.haveUndo then none
    else some (undoWriteToDisk env.undoLib ⟨s.vtxundo, (f.pools .sprout).best⟩ pprev.hash)

/-- And with the view after it. -/
structure BlockConnected (env : ChainEnv) (block : CBlock) (pindex pprev : CBlockIndex)
    (f : FlatView)
    (result : ConnectResult) (f' : FlatView) (trees : ShieldedType → IncrementalMerkleTree)
    (s : ConnectState) (undos : List CTxUndo) (l : Ledger) : Prop
    extends BlockApplied env block pindex pprev f result trees s undos l where
  saplingRoot : heartwoodActive env pindex = false →
    env.consensus.networkUpgradeActive pindex.nHeight .UPGRADE_SAPLING = true →
    block.hashLightClientRoot = (s.trees .sapling).root (env.merkle .sapling)
  coins : f'.coins = l.coins
  pools : ∀ type, f'.pools type =
    { (f.pools type).pushAnchor (env.merkle type) (s.trees type) with
      nullifiers := l.nullifiers type }
  bestBlock : f'.bestBlock = pindex.hash
  history : if heartwoodActive env pindex then
      ∃ node h, (f.history (epochOf env pindex)).push env.mmr (epochOf env pindex) node = some h ∧
        f'.history = update f.history (epochOf env pindex) h
    else f'.history = f.history

/-- The history has a node more, once Heartwood is active. -/
def HistoryPushed (env : ChainEnv) (pindex : CBlockIndex) (f f' : FlatView) : Prop :=
  if heartwoodActive env pindex then
    ∃ node h, (f.history (epochOf env pindex)).push env.mmr (epochOf env pindex) node = some h ∧
      f'.history = update f.history (epochOf env pindex) h
  else f'.history = f.history

theorem checkBIP30_ok
    (ran : (checkBIP30 txs).run env.onFlat f = .ok ((), f')) :
    ∀ tx ∈ txs, f.coins tx.getHash = none := by
  induction txs with
  | nil => exact nofun
  | cons tx rest ih =>
    rw [checkBIP30, reads_bind (accessCoins _)] at ran
    obtain ⟨coins, answered, ran⟩ := ran
    cases answered
    rw [require_bind] at ran
    intro other mem
    rcases List.mem_cons.mp mem with rfl | later
    · exact Option.isNone_iff_eq_none.mp ran.1
    · exact ih ran.2 other later

variable {root : Uint256}

theorem bestTree_ok (ran : (bestTree type).run env.onFlat f = .ok ((root, tree), f')) :
    root = (f.pools type).best ∧ (f.pools type).anchors (f.pools type).best = some tree := by
  rw [bestTree, reads_bind (getBestAnchor _)] at ran
  obtain ⟨_, answered, ran⟩ := ran
  cases answered
  rw [reads_bind (getAnchorAt _ _)] at ran
  obtain ⟨_, answered, ran⟩ := ran
  cases answered
  split at ran
  · cases ran
  · rename_i t read
    cases ran
    exact ⟨rfl, read⟩

theorem checkTurnstile_ok (ran : (checkTurnstile env pindex).run env.onFlat f = .ok ((), f')) :
    env.fZIP209Enabled = true → 0 ≤ pindex.nChainSproutValue.getD 0 ∧
    0 ≤ pindex.nChainSaplingValue.getD 0 := by
  intro enabled
  rw [checkTurnstile, require_bind, View.run_require_ok] at ran
  obtain ⟨sprout, sapling, -⟩ := ran
  simp only [enabled, Bool.true_and, Bool.not_eq_true', decide_eq_false_iff_not] at sprout sapling
  exact ⟨Int.not_lt.mp sprout, Int.not_lt.mp sapling⟩

variable {block : CBlock}

theorem checkLightClientRoot_sapling {saplingRoot : Uint256}
    (ran : (checkLightClientRoot env block pindex saplingRoot).run env.onFlat f = .ok ((), f'))
    (old : heartwoodActive env pindex = false)
    (active : env.consensus.networkUpgradeActive pindex.nHeight .UPGRADE_SAPLING = true) :
    block.hashLightClientRoot = saplingRoot := by
  unfold heartwoodActive at old
  have notActivation :
      env.consensus.isActivationHeight pindex.nHeight .UPGRADE_HEARTWOOD = false := by
    by_contra activation
    simp only [ConsensusParams.isActivationHeight, Bool.not_eq_false, Bool.and_eq_true, beq_iff_eq]
      at activation
    rw [ConsensusParams.networkUpgradeActive, activation.2] at old
    simp at old
  rw [checkLightClientRoot, if_neg (by simp [notActivation]), if_neg (by simp [old]), if_pos active,
    View.run_require_ok] at ran
  exact beq_iff_eq.mp ran.1

theorem pushHistory_ok {total_sapling_tx : Nat}
    (ran : (pushHistory env block pindex total_sapling_tx).run env.onFlat f = .ok ((), f')) :
    f'.coins = f.coins ∧ f'.pools = f.pools ∧ HistoryPushed env pindex f f' := by
  unfold pushHistory at ran
  split at ran
  · rename_i active
    rw [View.pushHistoryNode, run_perform] at ran
    generalize (newLeaf _ _ _ _ _ _ _) = node at ran
    change orAbort
      (((f.history (epochOf env pindex)).push env.mmr (epochOf env pindex) node).map _) = _ at ran
    cases pushed : (f.history (epochOf env pindex)).push env.mmr (epochOf env pindex) node with
    | none =>
      rw [pushed] at ran
      cases ran
    | some h =>
      rw [pushed] at ran
      cases ran
      refine ⟨rfl, rfl, ?_⟩
      rw [HistoryPushed, heartwoodActive, if_pos active]
      exact ⟨node, h, pushed, rfl⟩
  · rename_i inactive
    cases ran
    rw [HistoryPushed, heartwoodActive, if_neg inactive]
    exact ⟨rfl, rfl, rfl⟩

theorem ofExcept_run_ok {outcome : Except Failure α}
    (ran : (View.ofExcept outcome).run env.onFlat f = .ok (value, f')) : outcome = .ok value := by
  cases outcome with
  | error _ => cases ran
  | ok _ =>
    cases ran
    rfl

theorem checkBestBlock_ok {pprev : CBlockIndex}
    (ran : (checkBestBlock (some pprev)).run env.onFlat f = .ok ((), f')) :
    f.bestBlock = pprev.hash := by
  rw [checkBestBlock, run_bind_ok] at ran
  obtain ⟨_, _, answered, ran⟩ := ran
  cases answered
  rw [View.run_require_ok] at ran
  exact (beq_iff_eq.mp ran.1).symm

theorem applyTransactions_ok
    (ran : (applyTransactions env block pindex pprev (!env.underCheckpoint pindex.hash)).run
      env.onFlat f = .ok ((root, s), f')) :
    root = (f.pools .sprout).best ∧ ∃ trees undos l, f' = f.withLedger l ∧
      TransactionsApplied env block pindex pprev f trees s undos l := by
  rw [applyTransactions, reads_bind (checkTurnstile_reads _ _)] at ran
  obtain ⟨_, turnstile, ran⟩ := ran
  rw [reads_bind (checkBIP30_reads _)] at ran
  obtain ⟨_, absent, ran⟩ := ran
  rw [reads_bind (bestTree_reads _)] at ran
  obtain ⟨⟨_, sprout_tree⟩, sprout, ran⟩ := ran
  obtain ⟨rfl, sproutBest⟩ := bestTree_ok sprout
  rw [require_bind, reads_bind (bestTree_reads _)] at ran
  obtain ⟨-, ⟨_, sapling_tree⟩, sapling, ran⟩ := ran
  obtain ⟨-, saplingBest⟩ := bestTree_ok sapling
  obtain ⟨s, _, loop, ran⟩ := run_bind_ok.mp ran
  cases ran
  obtain ⟨undos, l, connects, rfl, vtxundo, appended⟩ := connectTransactions_ok loop
  refine ⟨rfl, bothTrees sprout_tree sapling_tree, undos, l, rfl, ?_⟩
  exact {
    turnstile := checkTurnstile_ok turnstile
    absent := checkBIP30_ok absent
    best := fun type => by
      cases type with
      | sprout => exact sproutBest
      | sapling => exact saplingBest
    loop := loop
    connects := connects
    vtxundo := vtxundo
    appended := appended }

variable {result : ConnectResult}

/-- What is left to do once the anchors were pushed touches the history and the best block. -/
theorem finishBlock_ok {pprev : CBlockIndex}
    (ran : (finishBlock env block pindex (some pprev) false root s).run env.onFlat f =
      .ok (result, f')) :
    (∃ coinbase rest, block.vtx = coinbase :: rest ∧
      ∃ after after', (checkReward env coinbase pindex s.nFees).run env.onFlat after =
        .ok ((), after')) ∧
    result = ⟨recordValid env (recordRoots env pindex root s.trees) pprev, some ⟨s.vtxundo, root⟩,
      if pindex.nStatus.haveUndo then none
      else some (undoWriteToDisk env.undoLib ⟨s.vtxundo, root⟩ pprev.hash)⟩ ∧
    (heartwoodActive env pindex = false →
      env.consensus.networkUpgradeActive pindex.nHeight .UPGRADE_SAPLING = true →
      block.hashLightClientRoot = (s.trees .sapling).root (env.merkle .sapling)) ∧
    f'.coins = f.coins ∧ f'.pools = f.pools ∧ f'.bestBlock = pindex.hash ∧
    HistoryPushed env pindex f f' := by
  rw [finishBlock, reads_bind (checkLightClientRoot_reads _ _ _ _)] at ran
  obtain ⟨_, lightClient, ran⟩ := ran
  obtain ⟨_, _, history, ran⟩ := run_bind_ok.mp ran
  obtain ⟨coinsEq, poolsEq, historyEq⟩ := pushHistory_ok history
  split at ran
  · cases ran
  · rename_i coinbase rest shape
    rw [reads_bind (checkReward_reads _ _ _ _)] at ran
    obtain ⟨_, reward, ran⟩ := ran
    obtain ⟨-, ran⟩ := require_bind.mp ran
    simp only [Bool.false_eq_true, ↓reduceIte, finishConnect] at ran
    obtain ⟨_, _, moved, ran⟩ := run_bind_ok.mp ran
    cases moved
    cases ran
    exact ⟨⟨coinbase, rest, shape, _, _, reward⟩, rfl, checkLightClientRoot_sapling lightClient,
      coinsEq, poolsEq, rfl, historyEq⟩

/-- What a successful `ConnectBlock` of a block with a parent has checked and done. -/
theorem connectBlock_connected {pprev : CBlockIndex}
    (notGenesis : block.getHash ≠ env.consensus.hashGenesisBlock)
    (ran : (connectBlock env block pindex (some pprev) false).run env.onFlat f = .ok (result, f')) :
    ∃ trees s undos l, BlockConnected env block pindex pprev f result f' trees s undos l := by
  rw [connectBlock, reads_bind (ofExcept_reads _)] at ran
  obtain ⟨_, checked, ran⟩ := ran
  rw [reads_bind (checkBestBlock_reads _)] at ran
  obtain ⟨_, parent, ran⟩ := ran
  rw [if_neg notGenesis, run_bind_ok] at ran
  obtain ⟨⟨_, s⟩, _, loop, ran⟩ := ran
  obtain ⟨rfl, trees, undos, l, rfl, applied⟩ := applyTransactions_ok loop
  obtain ⟨_, _, pushed, ran⟩ := run_bind_ok.mp ran
  cases pushed
  obtain ⟨_, _, pushed, ran⟩ := run_bind_ok.mp ran
  cases pushed
  obtain ⟨reward, rfl, saplingRoot, coinsEq, poolsEq, bestBlock, history⟩ := finishBlock_ok ran
  refine ⟨trees, s, undos, l, ?_⟩
  exact {
    toTransactionsApplied := applied
    checked := ofExcept_run_ok checked
    parent := checkBestBlock_ok parent
    reward := reward
    pindexAfter := rfl
    blockundo := rfl
    record := rfl
    saplingRoot := saplingRoot
    coins := coinsEq
    pools := fun type => by
      rw [poolsEq]
      cases type with
      | sprout => exact pushAnchor_withNullifiers
      | sapling => exact pushAnchor_withNullifiers
    bestBlock := bestBlock
    history := history }

end Abstract

end Zcashd
