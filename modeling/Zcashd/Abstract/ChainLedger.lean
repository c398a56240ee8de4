import Zcashd.Abstract.LedgerRun

/-!
Runs of `ConnectBlock` and `DisconnectBlock` on a stack of caches, from an empty database on.
Whatever the reorganisations, the ledger of the stack is the one that connecting the blocks
now on the chain gives: `ViewRun.ledger`.
-/
namespace Zcashd.Abstract

open Lib Source

def Ledger.empty : Ledger := ⟨fun _ => none, fun _ _ => false⟩

/-- The transactions of a chain in order. -/
def chainTxs (chain : List (CBlock × ConnectResult)) : List CTransaction :=
  chain.reverse.flatMap (fun connected => connected.1.vtx)

theorem chainTxs_cons (connected : CBlock × ConnectResult) (chain : List (CBlock × ConnectResult)) :
    chainTxs (connected :: chain) = chainTxs chain ++ connected.1.vtx := by
  simp [chainTxs]

/-- No two transactions share an id. -/
def DistinctIds (txs : List CTransaction) : Prop :=
  ∀ tx ∈ txs, ∀ other ∈ txs, other.getHash = tx.getHash → other = tx

/-- The ledger after the blocks of a chain, the last block first. The genesis block's transaction
is not connected. The transactions of the chain meet the `side` condition after each block. -/
inductive ChainLedger (env : ChainEnv) (side : List CTransaction → Prop) :
    List (CBlock × ConnectResult) → Ledger → Prop
  | empty : ChainLedger env side [] .empty
  | genesis {block : CBlock} {pindex : CBlockIndex} {result : ConnectResult}
      (entered : Entered env block pindex none) (checked : block.Checked)
      (height : result.pindex.nHeight = 0) (noUndo : result.blockundo = none) :
      ChainLedger env side [(block, result)] .empty
  | connect {chain : List (CBlock × ConnectResult)} {block : CBlock} {pindex pprev : CBlockIndex}
      {f : FlatView}
      {result : ConnectResult} {trees : ShieldedType → IncrementalMerkleTree} {s : ConnectState}
      {undos : List CTxUndo} {l : Ledger} (before : ChainLedger env side chain f.ledger)
      (tip : tipOf chain = some pprev) (entered : Entered env block pindex (some pprev))
      (applied : BlockApplied env block pindex pprev f result trees s undos l)
      (met : side (chainTxs ((block, result) :: chain))) :
        ChainLedger env side ((block, result) :: chain) l

variable {env : ChainEnv} {side : List CTransaction → Prop} {chain : List (CBlock × ConnectResult)}
  {l : Ledger}
  {block : CBlock}

variable {pindex pprev : CBlockIndex}

theorem Entered.bounds
    (entered : Entered env block pindex (some pprev)) :
    0 < pindex.nHeight ∧ pindex.nHeight < 2 ^ 31 := by
  have height : pindex.nHeight = pprev.nHeight + 1 := entered.height
  exact ⟨by omega, entered.heightBound⟩

theorem ChainLedger.sound (state : ChainLedger env side chain l) : l.Sound := by
  induction state with
  | empty => exact nofun
  | genesis => exact nofun
  | connect _ _ entered applied _ ih =>
    exact (applied.connects.sound (applied.acceptable entered.parsed entered.bounds) ih).1

/-- The genesis block is the last. -/
theorem ChainLedger.outputs (state : ChainLedger env side chain l) :
    l.output = (chainTxs chain.dropLast).foldl Ledger.enter fun _ => none := by
  induction state with
  | empty | genesis => rfl
  | connect _ tip _ applied _ ih =>
    rw [List.dropLast_cons_of_ne_nil (by rintro rfl; cases tip), chainTxs_cons,
      List.foldl_append, ← ih]
    exact applied.connects.outputs

/-- Stacks of caches reached from an empty database, with the chain connected so far. Caches are
put on top and flushed at any time. `ConnectBlock` works on a cache below which nothing is
unspent under an id of the block, as it is for a new cache after the check of BIP 30;
`DisconnectBlock` takes the last block off, with the undo data built for it. -/
inductive ViewRun (env : ChainEnv) (side : List CTransaction → Prop) :
    List (CBlock × ConnectResult) → CCoinsView → Prop
  | start : ViewRun env side [] (.base .empty)
  | pushCache {chain : List (CBlock × ConnectResult)} {v : CCoinsView}
      (before : ViewRun env side chain v) :
      ViewRun env side chain (CCoinsView.pushCache v)
  | flush {chain : List (CBlock × ConnectResult)} {v v' : CCoinsView}
      (before : ViewRun env side chain v)
      (flushed : CCoinsView.flushAndPop env.merkle v = some v') : ViewRun env side chain v'
  | connect {chain : List (CBlock × ConnectResult)} {cache : CCoinsViewCache} {base v' : CCoinsView}
      {block : CBlock} {pindex : CBlockIndex} {result : ConnectResult}
      (before : ViewRun env side chain (.layer cache base))
      (entered : Entered env block pindex (tipOf chain))
      (vacant : ∀ tx ∈ block.vtx, base.coinsAt tx.getHash = none)
      (connected : (connectBlock env block pindex (tipOf chain) false).run env.onStack
        (.layer cache base) = .ok (result, v'))
      (met : side (chainTxs ((block, result) :: chain))) :
        ViewRun env side ((block, result) :: chain) v'
  | disconnect {chain : List (CBlock × ConnectResult)} {cache : CCoinsViewCache}
      {base v' : CCoinsView}
      {block : CBlock} {result : ConnectResult} {pprev : CBlockIndex} {blockundo : CBlockUndo}
      {outcome : DisconnectResult}
        (before : ViewRun env side ((block, result) :: chain) (.layer cache base))
      (tip : tipOf chain = some pprev) (undo : result.blockundo = some blockundo)
      (disconnected : (disconnectBlock env block result.pindex pprev
        (some (undoWriteToDisk env.undoLib blockundo pprev.hash))).run env.onStack
          (.layer cache base) = .ok (outcome, v')) : ViewRun env side chain v'

variable {v v' : CCoinsView}

theorem inOrder_empty : InOrder (.base .empty) where
  coins := trivial
  nullifiers := trivial
  history := nofun

theorem ShowsLedger.inOrder {free : Set Uint256} (shown : ShowsLedger env free l v) :
    InOrder v ∧ ledgerAt v = l := by
  obtain ⟨f, shows', rfl⟩ := shown
  refine ⟨shows'.toInOrder, ?_⟩
  rw [← shows'.flat]
  rfl

variable {cache : CCoinsViewCache} {base : CCoinsView} {result : ConnectResult}

theorem ChainLedger.extend (ok : InOrder (.layer cache base))
    (state : ChainLedger env side chain (ledgerAt (.layer cache base)))
    (entered : Entered env block pindex (tipOf chain))
    (vacant : ∀ tx ∈ block.vtx, base.coinsAt tx.getHash = none)
    (connected : (connectBlock env block pindex (tipOf chain) false).run env.onStack
      (.layer cache base) = .ok (result, v')) (met : side (chainTxs ((block, result) :: chain))) :
    InOrder v' ∧ ChainLedger env side ((block, result) :: chain) (ledgerAt v') := by
  have shows' : Shows env.merkle _ (.layer cache base) _ := ok.shows
  cases last : tipOf chain with
  | none =>
    rw [last] at entered connected
    have nothing : chain = [] := by
      cases chain with
      | nil => rfl
      | cons _ _ => cases last
    subst nothing
    obtain ⟨checked, height, -, noUndo, shown⟩ :=
      connectBlock_genesis_stack (entered.genesis.mpr rfl) ⟨_, shows', rfl⟩ connected
    obtain ⟨ok', same⟩ := shown.inOrder
    have unchanged : ledgerAt (.layer cache base) = .empty := by
      generalize ledgerAt (.layer cache base) = start at state
      cases state
      rfl
    refine ⟨ok', ?_⟩
    rw [same, ledger_flatten, unchanged]
    exact .genesis entered (checkBlock_ok checked) (height.trans entered.height) noUndo
  | some _ =>
    rw [last] at entered connected
    have notGenesis : block.getHash ≠ env.consensus.hashGenesisBlock :=
      fun genesis => nomatch entered.genesis.mp genesis
    obtain ⟨_, s, _, l, applied, shown⟩ :=
      connectBlock_applied notGenesis shows' (fun tx mem _ => vacant tx mem) connected
    obtain ⟨ok', same⟩ := shown.inOrder
    refine ⟨ok', ?_⟩
    rw [same]
    rw [← ledger_flatten env.merkle] at state
    exact .connect state last entered applied met

theorem ChainLedger.retract {blockundo : CBlockUndo} {outcome : DisconnectResult}
    (ids : ∀ txs, side txs → DistinctIds txs) (ok : InOrder (.layer cache base))
    (state : ChainLedger env side ((block, result) :: chain) (ledgerAt (.layer cache base)))
    (tip : tipOf chain = some pprev) (undo : result.blockundo = some blockundo)
    (disconnected : (disconnectBlock env block result.pindex pprev
      (some (undoWriteToDisk env.undoLib blockundo pprev.hash))).run env.onStack
        (.layer cache base) =
        .ok (outcome, v')) : InOrder v' ∧ ChainLedger env side chain (ledgerAt v') := by
  have shows' : Shows env.merkle _ (.layer cache base) _ := ok.shows
  generalize now : ledgerAt (.layer cache base) = l at state
  cases state with
  | genesis => cases tip
  | connect old tip' entered applied met =>
    rw [tip] at tip'
    cases tip'
    rw [applied.blockundo] at undo
    cases undo
    have distinct : DistinctIds block.vtx := by
      intro tx mem other mem' same
      rw [chainTxs_cons] at met
      exact ids _ met tx (by simp [mem]) other (by simp [mem']) same
    obtain ⟨-, shown⟩ :=
      applied.disconnects old.sound (applied.acceptable entered.parsed entered.bounds)
      distinct ⟨_, shows', now⟩ disconnected
    obtain ⟨ok', same⟩ := shown.inOrder
    refine ⟨ok', ?_⟩
    rw [same]
    exact old

/-- The caches of a run are in order, and the stack shows the ledger of the chain. -/
theorem ViewRun.ledger (run : ViewRun env side chain v) (ids : ∀ txs, side txs → DistinctIds txs) :
    InOrder v ∧ ChainLedger env side chain (ledgerAt v) := by
  induction run with
  | start => exact ⟨inOrder_empty, .empty⟩
  | pushCache _ ih => exact ⟨ih.1.pushCache, ih.2⟩
  | flush _ flushed ih =>
    obtain ⟨ok, same⟩ := ih.1.flushAndPop flushed
    exact ⟨ok, same ▸ ih.2⟩
  | connect _ entered vacant connected met ih => exact ih.2.extend ih.1 entered vacant connected met
  | disconnect _ tip undo disconnected ih => exact ih.2.retract ids ih.1 tip undo disconnected

end Zcashd.Abstract
