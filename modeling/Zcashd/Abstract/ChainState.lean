import Zcashd.Abstract.FlatDisconnect
import Zcashd.Source.ContextualCheck

/-!
The states of the coins view along a chain: from the empty view, one accepted block after the
other is connected. `ViewSound` and `ChainState.saplingRoot` are what every such state
satisfies, so that a block on top of it can be taken back.
-/
namespace Zcashd.Abstract

open Lib Source FlatView IncrementalMerkleTree ShieldedType

/-- The view of an empty database. -/
def FlatView.empty (H : ShieldedType → MerkleHash) : FlatView where
  coins _ := none
  pools type := {
    anchors := fun rt => if rt = emptyRoot (H type) then some .empty else none
    best := emptyRoot (H type)
    nullifiers := fun _ => false }
  bestBlock := 0
  history _ := ⟨[], 0⟩

/-- A block that was read, with the entry `AddToBlockIndex` made for it. -/
structure Entered (env : ChainEnv) (block : CBlock) (pindex : CBlockIndex)
    (pprev : Option CBlockIndex) : Prop where
  parsed : ∀ tx ∈ block.vtx, tx.Parsed
  genesis : block.getHash = env.consensus.hashGenesisBlock ↔ pprev = none
  height : pindex.nHeight = (pprev.map (fun pprev => pprev.nHeight + 1)).getD 0
  /-- Heights are of type `int`. -/
  heightBound : pindex.nHeight < 2 ^ 31
  /-- `CreateGenesisBlock` puts one transaction into the block. -/
  genesisCoinBase : pprev = none → ∃ coinbase, block.vtx = [coinbase]

instance (env : ChainEnv) (block : CBlock) (pindex : CBlockIndex) (pprev : Option CBlockIndex) :
    Decidable (Entered env block pindex pprev) :=
  decidable_of_iff ((∀ tx ∈ block.vtx, tx.Parsed) ∧
      (block.getHash = env.consensus.hashGenesisBlock ↔ pprev.isNone = true) ∧
      pindex.nHeight = (pprev.map (fun pprev => pprev.nHeight + 1)).getD 0 ∧
      pindex.nHeight < 2 ^ 31 ∧
      (pprev.isNone = true → block.vtx.length = 1))
    ⟨fun ⟨parsed, genesis, height, heightBound, single⟩ =>
      ⟨parsed, genesis.trans Option.isNone_iff_eq_none, height,
        heightBound, fun first =>
          List.length_eq_one_iff.mp (single (Option.isNone_iff_eq_none.mpr first))⟩,
      fun entered =>
        ⟨entered.parsed, entered.genesis.trans Option.isNone_iff_eq_none.symm, entered.height,
        entered.heightBound, fun first => List.length_eq_one_iff.mpr
          (entered.genesisCoinBase (Option.isNone_iff_eq_none.mp first))⟩⟩

/-- What `AcceptBlock` has seen to before a block is connected: the block was read and passed
`ContextualCheckBlock`, and `AddToBlockIndex` made its entry. -/
structure Accepted (env : ChainEnv) (contextual : ContextualVerifier) (block : CBlock)
    (pindex : CBlockIndex)
    (pprev : Option CBlockIndex) : Prop extends Entered env block pindex pprev where
  contextual : contextualCheckBlock contextual env.consensus block pprev = .ok ()
  hash : pindex.hash = block.getHash
  /-- No block hashes to the null hash. -/
  notNull : block.getHash ≠ 0
  saplingRoot : pprev.isSome → heartwoodActive env pindex = false →
    pindex.hashFinalSaplingRoot = block.hashLightClientRoot

/-- The entry of the last block of a chain. -/
def tipOf (chain : List (CBlock × ConnectResult)) : Option CBlockIndex :=
  chain.head?.map (fun connected => connected.2.pindex)

/-- The view after the blocks of a chain, the last block first. Each block meets the `side`
condition, in the view it is connected to. -/
inductive ChainState (env : ChainEnv) (contextual : ContextualVerifier)
    (side : CBlock → FlatView → Prop) :
    List (CBlock × ConnectResult) → FlatView → Prop
  | empty : ChainState env contextual side [] (FlatView.empty env.merkle)
  | connect {chain : List (CBlock × ConnectResult)} {f f' : FlatView} {block : CBlock}
      {pindex : CBlockIndex}
      {result : ConnectResult} (before : ChainState env contextual side chain f)
      (accepted : Accepted env contextual block pindex (tipOf chain)) (met : side block f)
      (connected : (connectBlock env block pindex (tipOf chain) false).run env.onFlat f =
        .ok (result, f')) :
      ChainState env contextual side ((block, result) :: chain) f'

/-- Entries, trees and histories are ones that blocks make; the best tree is the largest. -/
structure ViewSound (env : ChainEnv) (f : FlatView) : Prop where
  ledger : f.ledger.Sound
  anchors : ∀ type, ∃ tree, (f.pools type).anchors (f.pools type).best = some tree ∧
    tree.Fits (env.merkle type) ∧ ∀ rt other, (f.pools type).anchors rt = some other →
      other.root (env.merkle type) = rt ∧ other.leaves ≤ tree.leaves
  history : ∀ epochId, EpochHistory.Built env.mmr epochId (f.history epochId)

variable {env : ChainEnv} {contextual : ContextualVerifier} {side : CBlock → FlatView → Prop}

theorem viewSound_empty (env : ChainEnv) : ViewSound env (empty env.merkle) where
  ledger := nofun
  anchors type := by
    refine ⟨.empty, by simp [FlatView.empty], fits_empty _, ?_⟩
    intro _ _ hit
    simp only [FlatView.empty] at hit
    split at hit
    · rename_i root
      cases hit
      exact ⟨by rw [root_empty, root], Nat.le_refl _⟩
    · cases hit
  history _ := .empty

theorem networkUpgradeActive_mono {params : ConsensusParams} {idx : UpgradeIndex} {n m : Nat}
    (le : n ≤ m) (active : params.networkUpgradeActive n idx = true) :
    params.networkUpgradeActive m idx = true := by
  unfold ConsensusParams.networkUpgradeActive at active ⊢
  split at active
  · cases active
  · simp only [decide_eq_true_eq] at active ⊢
    omega

namespace BlockConnected

variable {block : CBlock} {pindex pprev : CBlockIndex} {f f' : FlatView} {result : ConnectResult}
  {trees : ShieldedType → IncrementalMerkleTree} {s : ConnectState} {undos : List CTxUndo}
    {l : Ledger}
  (connected : BlockConnected env block pindex pprev f result f' trees s undos l)
include connected

section

variable (sound : ViewSound env f)
include sound

/-- The trees at the end of the loop: what they were, with the block's commitments added. -/
theorem trees_after (type : ShieldedType) :
    (trees type).root (env.merkle type) = (f.pools type).best ∧
    (s.trees type).Fits (env.merkle type) ∧
      (s.trees type).leaves =
        (trees type).leaves + (block.vtx.flatMap (fun tx => tx.commitments type)).length := by
  obtain ⟨_, best, fits, all⟩ := sound.anchors type
  rw [connected.best type] at best
  cases best
  exact ⟨(all _ _ (connected.best type)).1, appendAll_grows fits (connected.appended type)⟩

theorem viewSound (parsed : ∀ tx ∈ block.vtx, tx.Parsed)
    (height : 0 < pindex.nHeight ∧ pindex.nHeight < 2 ^ 31) : ViewSound env f' := by
  refine ⟨?_, ?_, ?_⟩
  · rw [connected.ledger_after]
    exact (connected.connects.sound (connected.acceptable parsed height) sound.ledger).1
  · intro type
    obtain ⟨_, _⟩ := connected.trees_after sound type
    obtain ⟨_, best, -, _⟩ := sound.anchors type
    rw [connected.best type] at best
    cases best
    rw [connected.pools type]
    dsimp only
    unfold PoolState.pushAnchor
    split
    · grind [Function.update_apply]
    · exact sound.anchors type
  · intro epochId
    have history := connected.history
    split at history
    · obtain ⟨_, h, pushed, after⟩ := history
      rw [after]
      by_cases epoch : epochId = epochOf env pindex
      · subst epoch
        rw [Function.update_self]
        exact .push (sound.history _) pushed
      · rw [Function.update_of_ne epoch]
        exact sound.history epochId
    · rw [history]
      exact sound.history epochId

/-- An anchor that is pushed was not there before: no older tree has as many leaves. -/
theorem new_anchor {T : ShieldedType → Set IncrementalMerkleTree} (play : TreesInPlay env.merkle T)
    (known : ∀ type rt tree, (f.pools type).anchors rt = some tree → tree ∈ T type)
    (added : ∀ type, s.trees type ∈ T type) (type : ShieldedType)
    (moved : (f.pools type).best ≠ (s.trees type).root (env.merkle type)) :
    (f.pools type).anchors ((s.trees type).root (env.merkle type)) = none := by
  cases hit : (f.pools type).anchors ((s.trees type).root (env.merkle type)) with
  | none => rfl
  | some other =>
    obtain ⟨root, -, _⟩ := connected.trees_after sound type
    obtain ⟨tree, best, -, all⟩ := sound.anchors type
    rw [connected.best type] at best
    cases best
    obtain ⟨sameRoot, fewer⟩ := all _ other hit
    have same : other = s.trees type := play.injective type (known _ _ _ hit) (added type) sameRoot
    have nothing : block.vtx.flatMap (fun tx => tx.commitments type) = [] := by
      rw [← List.length_eq_zero_iff]
      rw [same] at fewer
      omega
    have appended := connected.appended type
    rw [nothing] at appended
    have kept : trees type = s.trees type := Option.some.inj appended
    rw [← kept] at moved
    exact absurd root.symm moved

end

theorem best_after (type : ShieldedType) :
    (f'.pools type).best = (s.trees type).root (env.merkle type) := by
  rw [connected.pools type]
  exact pushAnchor_best _ _ _

/-- The Sapling anchor after the block is the one its entry names, when a child is disconnected. -/
theorem saplingRoot_after (sound : ViewSound env f)
    (accepted : Accepted env contextual block pindex (some pprev))
    (old : (f.pools .sapling).best = oldSaplingRoot env pprev) :
    (f'.pools .sapling).best = oldSaplingRoot env result.pindex := by
  have height : pindex.nHeight = pprev.nHeight + 1 := accepted.height
  obtain ⟨_, _, after⟩ :=
    recordValid_eq env (recordRoots env pindex (f.pools .sprout).best s.trees) pprev
  have recorded : result.pindex.hashFinalSaplingRoot = if heartwoodActive env pindex then
      (s.trees .sapling).root (env.merkle .sapling) else pindex.hashFinalSaplingRoot := by
    rw [connected.pindexAfter, after]
    rfl
  rw [connected.best_after, oldSaplingRoot, connected.nHeight_after]
  split
  · rename_i active
    rw [recorded]
    split
    · rfl
    · rename_i inactive
      have inactive := (Bool.not_eq_true _).mp inactive
      rw [accepted.saplingRoot rfl inactive, connected.saplingRoot inactive active]
  · rename_i inactive
    have inactive := (Bool.not_eq_true _).mp inactive
    have noOutputs : block.vtx.flatMap (fun tx => tx.commitments .sapling) = [] := by
      rw [List.flatMap_eq_nil_iff]
      intro tx mem
      have v4 := contextualCheckBlock_sapling accepted.contextual (height ▸ inactive) tx mem
      simp [CTransaction.commitments, ((accepted.parsed tx mem).sapling v4).2.2]
    have parentInactive :
        env.consensus.networkUpgradeActive pprev.nHeight .UPGRADE_SAPLING = false := by
      by_contra active
      have later := networkUpgradeActive_mono (show pprev.nHeight ≤ pindex.nHeight by omega)
        ((Bool.not_eq_false _).mp active)
      rw [inactive] at later
      cases later
    have appended := connected.appended .sapling
    rw [noOutputs] at appended
    have kept := Option.some.inj appended
    rw [← kept, (connected.trees_after sound .sapling).1, old, oldSaplingRoot, parentInactive]
    rfl

end BlockConnected

/-- The genesis block becomes the best block, and nothing else happens. -/
theorem connectBlock_genesis {pprev : Option CBlockIndex}
    (genesis : block.getHash = env.consensus.hashGenesisBlock)
    (ran : (connectBlock env block pindex pprev false).run env.onFlat f = .ok (result, f')) :
    f' = { f with bestBlock := pindex.hash } ∧
      result = ⟨{ pindex with
        hashSproutAnchor := empty.root (env.merkle .sprout)
        hashFinalSproutRoot := empty.root (env.merkle .sprout) }, none, none⟩ := by
  rw [connectBlock, reads_bind (ofExcept_reads _)] at ran
  obtain ⟨_, -, ran⟩ := ran
  rw [reads_bind (checkBestBlock_reads _)] at ran
  obtain ⟨_, -, ran⟩ := ran
  rw [if_pos genesis] at ran
  simp only [connectGenesis, Bool.false_eq_true, ↓reduceIte] at ran
  obtain ⟨_, _, moved, ran⟩ := Program.run_bind_ok.mp ran
  cases moved
  cases ran
  exact ⟨rfl, rfl⟩

namespace ChainState

variable {chain : List (CBlock × ConnectResult)} {f : FlatView}

/-- The last block of a chain is the genesis block or was connected to a parent. -/
theorem connect_cases
    {pprev : Option CBlockIndex} (accepted : Accepted env contextual block pindex pprev)
    (ran : (connectBlock env block pindex pprev false).run env.onFlat f = .ok (result, f')) :
    (pprev = none ∧ pindex.nHeight = 0 ∧ f' = { f with bestBlock := pindex.hash } ∧
        result.pindex.hash = pindex.hash ∧ result.pindex.nHeight = pindex.nHeight) ∨
      ∃ parent trees s undos l, pprev = some parent ∧ pindex.nHeight = parent.nHeight + 1 ∧
        BlockConnected env block pindex parent f result f' trees s undos l := by
  cases pprev with
  | none =>
    obtain ⟨state, rfl⟩ := connectBlock_genesis (accepted.genesis.mpr rfl) ran
    exact .inl ⟨rfl, accepted.height, state, rfl, rfl⟩
  | some parent =>
    have notGenesis : block.getHash ≠ env.consensus.hashGenesisBlock :=
      fun genesis => nomatch accepted.genesis.mp genesis
    obtain ⟨trees, s, undos, l, connected⟩ := connectBlock_connected notGenesis ran
    exact .inr ⟨parent, trees, s, undos, l, rfl, accepted.height, connected⟩

variable (state : ChainState env contextual side chain f)
include state

theorem viewSound : ViewSound env f := by
  induction state with
  | empty => exact viewSound_empty env
  | connect _ accepted _ connected ih =>
    rcases connect_cases accepted connected with ⟨-, -, rfl, -⟩ | ⟨_, _, s, _, l, -, _, done⟩
    · exact { ih with }
    · exact done.viewSound ih accepted.parsed ⟨by omega, accepted.heightBound⟩

theorem tip_hash {tip : CBlockIndex} (last : tipOf chain = some tip) : tip.hash ≠ 0 := by
  cases state with
  | empty => cases last
  | connect _ accepted _ connected =>
    cases last
    have hash := accepted.hash
    have notNull := accepted.notNull
    rcases connect_cases accepted connected with ⟨-, -, -, same, -⟩ | ⟨_, _, s, _, l, -, -, done⟩
    · rwa [same, hash]
    · rwa [done.hash_after, hash]

/-- The Sapling anchor is the one `DisconnectBlock` of the next block will restore. -/
theorem saplingRoot (later : env.consensus.networkUpgradeActive 0 .UPGRADE_SAPLING = false) :
    (f.pools .sapling).best =
      ((tipOf chain).map (oldSaplingRoot env)).getD (emptyRoot (env.merkle .sapling)) := by
  induction state with
  | empty => rfl
  | connect old accepted _ connected ih =>
    rcases connect_cases accepted connected with
      ⟨none, genesis, rfl, -, height⟩ | ⟨parent, trees, s, undos, l, last, height, done⟩
    · rw [none] at ih
      dsimp only
      rw [ih, tipOf, List.head?_cons, Option.map_some, Option.map_some, Option.getD_some,
        oldSaplingRoot, height, genesis, later]
      rfl
    · rw [last] at ih accepted
      exact done.saplingRoot_after old.viewSound accepted ih

end ChainState

/-! A chain for concrete runs -/

/-- A coinbase before (`overwintered = false`) or after the activation of Sapling. -/
def coinbaseTx (hash : Uint256) (overwintered : Bool) (scriptSig : CScript) (vout : List CTxOut) :
    CTransaction where
  hash := hash
  fOverwintered := overwintered
  nVersion := if overwintered then 4 else 1
  nVersionGroupId := if overwintered then CTransaction.SAPLING_VERSION_GROUP_ID else 0
  vin := [⟨⟨0, 0xFFFFFFFF⟩, scriptSig⟩]
  vout := vout
  nExpiryHeight := 0
  valueBalance := 0
  vShieldedSpend := []
  vShieldedOutput := []
  vJoinSplit := []

/-- The entry of a block whose data was received. -/
def indexEntry (hash : Uint256) (pprev : Option Uint256) (nHeight : Nat)
    (hashFinalSaplingRoot : Uint256) :
    CBlockIndex where
  hash := hash
  pprev := pprev
  nHeight := nHeight
  nChainWork := nHeight + 1
  nTx := 1
  nChainTx := nHeight + 1
  nStatus := ⟨.TRANSACTIONS, true, false, false, false, false⟩
  nCachedBranchId := none
  hashSproutAnchor := 0
  hashFinalSproutRoot := 0
  nSproutValue := some 0
  nChainSproutValue := some 0
  nSaplingValue := 0
  nChainSaplingValue := some 0
  hashFinalSaplingRoot := hashFinalSaplingRoot
  nSequenceId := 0

def genesisBlock : CBlock := ⟨1, 4, 0, 10, 0, 0, 0, [], [coinbaseTx 10 false [0, 0] [⟨0, [0x51]⟩]]⟩

def genesisIndex : CBlockIndex := indexEntry 1 none 0 0

theorem genesis_accepted : Accepted .regtest .regtest genesisBlock genesisIndex none where
  parsed tx mem := by
    obtain rfl := List.mem_singleton.mp mem
    exact ⟨by decide, by decide, by decide, by decide⟩
  contextual := by decide +kernel
  hash := rfl
  notNull := by decide
  genesis := ⟨fun _ => rfl, fun _ => rfl⟩
  height := rfl
  heightBound := by decide
  saplingRoot := by simp
  genesisCoinBase _ := ⟨_, rfl⟩

/-- The entry once the block is connected. -/
def genesisTip : CBlockIndex :=
  let root := empty.root (ShieldedType.linearHash .sprout)
  { genesisIndex with hashSproutAnchor := root, hashFinalSproutRoot := root }

theorem genesis_state (side : CBlock → FlatView → Prop)
    (met : side genesisBlock (empty linearHash)) :
    ChainState .regtest .regtest side [(genesisBlock, ⟨genesisTip, none, none⟩)]
      { empty linearHash with bestBlock := 1 } := by
  have runs : Program.finishes ((connectBlock .regtest genesisBlock genesisIndex none false).run
      ChainEnv.regtest.onFlat (empty linearHash)) (fun _ _ => true) = true := by decide +kernel
  obtain ⟨_, f, connected, -⟩ := Program.finishes_iff.mp runs
  obtain ⟨rfl, rfl⟩ := connectBlock_genesis rfl connected
  exact .connect .empty genesis_accepted met connected

end Zcashd.Abstract
