import Zcashd.Abstract.BlockCalls

/-!
# Disconnecting a block takes back what connecting it did

`ConnectBlock` on a coins view at the parent of a block, then `DisconnectBlock` with the undo
record that was written: it ends `DISCONNECT_OK` and every reader of the view answers as
before. The view is any stack of caches whose content is the state of a chain, the block any
that was read and has an entry in the block index; what `ContextualCheckBlock` found about it is
not needed.

Two conditions are needed that the call itself does not check:

* The cache `ConnectBlock` works on holds no entry for an id of the block, or a fresh one.
  `UpdateCoins` creates entries with `ModifyNewCoins`, which assumes so. A cache in which the
  block was disconnected before keeps pruned entries over unspent ones of the database; they
  show again once the entries marked fresh are dropped.
* Sapling is not active at the genesis block. The entry of the genesis block has no final
  Sapling root, and `DisconnectBlock` of its child pops the anchor to that null root.

Both are in `undo_needs_conditions`.
-/
namespace Zcashd.Guarantees.BlockUndo

open Lib Source Source.CCoinsView Abstract IncrementalMerkleTree ShieldedType ChainEnv Program

/-- Two views give the same answers: an absent entry and a pruned one are the same answer. -/
structure SameAnswers (H : ShieldedType → MerkleHash) (v w : CCoinsView) : Prop where
  coins : ∀ txid, (getCoins txid v).bind CCoins.visible = (getCoins txid w).bind CCoins.visible
  nullifiers : ∀ type nf, (getNullifier type nf v).1 = (getNullifier type nf w).1
  anchors : ∀ type rt, (getAnchorAt H type rt v).1 = (getAnchorAt H type rt w).1
  bestAnchors : ∀ type, (getBestAnchor H type v).1 = (getBestAnchor H type w).1
  bestBlock : (getBestBlock v).1 = (getBestBlock w).1
  historyLength : ∀ epochId, getHistoryLength epochId v = getHistoryLength epochId w
  historyNodes : ∀ epochId i, getHistoryAt epochId i v = getHistoryAt epochId i w
  historyRoot : ∀ epochId, getHistoryRoot epochId v = getHistoryRoot epochId w

theorem Answers.same {H : ShieldedType → MerkleHash} {v w : CCoinsView} {f : FlatView}
    (first : Answers H v f) (second : Answers H w f) :
    SameAnswers H v w where
  coins txid := (first.coins txid).trans (second.coins txid).symm
  nullifiers type nf := (first.nullifiers type nf).trans (second.nullifiers type nf).symm
  anchors type rt := (first.anchors type rt).trans (second.anchors type rt).symm
  bestAnchors type := (first.bestAnchors type).trans (second.bestAnchors type).symm
  bestBlock := first.bestBlock.trans second.bestBlock.symm
  historyLength epochId := (first.historyLength epochId).trans (second.historyLength epochId).symm
  historyNodes epochId i :=
    (first.historyNodes epochId i).trans (second.historyNodes epochId i).symm
  historyRoot epochId := (first.historyRoot epochId).trans (second.historyRoot epochId).symm

variable {env : ChainEnv} {contextual : ContextualVerifier} {side : CBlock → FlatView → Prop}
  {T : ShieldedType → Set IncrementalMerkleTree}
  {chain : List (CBlock × ConnectResult)} {block : CBlock} {pindex pprev : CBlockIndex}
  {result : ConnectResult} {cache : CCoinsViewCache} {base v' : CCoinsView}

/-- The ids for which nothing is unspent below the top cache. -/
def freeIds (base : CCoinsView) : Set Uint256 := {txid | base.coinsAt txid = none}

theorem disconnectBlock_undoes_connectBlock (play : TreesInPlay env.merkle T)
    (undoes : env.mmr.Undoes)
    (later : env.consensus.networkUpgradeActive 0 .UPGRADE_SAPLING = false)
    (coherent : Coherent env.merkle T (.layer cache base))
    (state : ChainState env contextual side chain (flatten env.merkle (.layer cache base)))
    (tip : tipOf chain = some pprev) (entered : Entered env block pindex (some pprev))
    (notNull : pindex.hash ≠ 0)
    (distinct : ∀ tx ∈ block.vtx, ∀ other ∈ block.vtx, other.getHash = tx.getHash → other = tx)
    (fresh : ∀ tx ∈ block.vtx, TopFreshOrAbsent tx.getHash (.layer cache base))
    (added : TreesAdded env T block (flatten env.merkle (.layer cache base)))
    (success : (connectBlock env block pindex (some pprev) false).run env.onStack
      (.layer cache base) = .ok (result, v')) :
    ∃ blockundo v'', result.blockundo = some blockundo ∧
      (disconnectBlock env block result.pindex pprev
        (some (undoWriteToDisk env.undoLib blockundo pprev.hash))).run env.onStack v' =
        .ok (.DISCONNECT_OK, v'') ∧ SameAnswers env.merkle v'' (.layer cache base) := by
  generalize flat : flatten env.merkle (.layer cache base) = f at state added
  have represents : Represents env.merkle T (freeIds base) (.layer cache base) f :=
    ⟨coherent, flat, ⟨cache, base, rfl⟩, fun _ member => member⟩
  have sim := simulates play env.mmr (freeIds base)
  -- what the check of BIP 30 finds absent is absent below the top cache too
  have known : ∀ tx ∈ block.vtx, f.coins tx.getHash = none → tx.getHash ∈ freeIds base := by
    intro tx member absent
    rw [← flat] at absent
    exact absent_below coherent.coins absent (fresh tx member)
  have related := sim.run _ represents (connectBlock_safe (some pprev) false known added notNull)
  rw [show (connectBlock env block pindex (some pprev) false).run
    (ViewOp.onStack env.merkle env.mmr)
    (.layer cache base) = _ from success] at related
  obtain ⟨f', connects, represents'⟩ := related.ok
  have inPlay : BlockInPlay env T block f := by
    refine ⟨play, ?_, added⟩
    intro _ _ _ found
    rw [← flat] at found
    exact (coherent.shielded.rooted found).1
  obtain ⟨blockundo, kept, back, safe⟩ :=
    state.disconnects tip entered distinct later undoes inPlay connects
  have related' := sim.run _ represents' (safe _)
  rw [show (disconnectBlock env block result.pindex pprev _).run
    (FlatView.onFlat env.merkle env.mmr) f' = _ from back] at related'
  obtain ⟨v'', disconnects, represents''⟩ := related'.ok'
  refine ⟨blockundo, v'', kept, disconnects, ?_⟩
  have after := represents''.coherent.answers
  rw [represents''.flat] at after
  have before := coherent.answers
  rw [flat] at before
  exact Answers.same after before

/-! A block that spends its own outputs -/

def emptyRootOf (type : ShieldedType) : Uint256 :=
  IncrementalMerkleTree.emptyRoot (ShieldedType.linearHash type)

/-- A Sapling transaction with the given transparent part and JoinSplits. -/
def transparentTx (hash : Uint256) (vin : List CTxIn) (vout : List CTxOut)
    (vJoinSplit : List JSDescription) :
    CTransaction where
  hash := hash
  fOverwintered := true
  nVersion := 4
  nVersionGroupId := CTransaction.SAPLING_VERSION_GROUP_ID
  vin := vin
  vout := vout
  nExpiryHeight := 0
  valueBalance := 0
  vShieldedSpend := []
  vShieldedOutput := []
  vJoinSplit := vJoinSplit

/-- Takes eleven out of the Sprout pool, into two outputs. -/
def unshieldTx : CTransaction :=
  transparentTx 12 [] [⟨5, [0x51]⟩, ⟨6, [0x52]⟩]
    [⟨0, 11, emptyRootOf .sprout, #v[100, 101], #v[102, 103]⟩]

/-- Spends both, the second one first, into an unspendable output. -/
def spendTx : CTransaction :=
  transparentTx 13 [⟨⟨12, 1⟩, []⟩, ⟨⟨12, 0⟩, []⟩] [⟨11, [OP_RETURN]⟩] []

def firstBlock : CBlock :=
  ⟨2, 4, 1, 2 * (2 * 11 + 12) + (2 * 13 + 13), emptyRootOf .sapling, 0, 0, [],
    [coinbaseTx 11 true [0x51, 0] [⟨250000000, [0x51]⟩], unshieldTx, spendTx]⟩

def firstIndex : CBlockIndex := indexEntry 2 (some 1) 1 (emptyRootOf .sapling)

def genesisDb : CCoinsViewDB := { CCoinsViewDB.empty with bestBlock := some 1 }

/-- The trees before and after the block. -/
def fewTrees : ShieldedType → Set IncrementalMerkleTree
  | .sprout => {.empty, ⟨some 102, some 103, []⟩}
  | .sapling => {.empty}

theorem fewTrees_inPlay : TreesInPlay linearHash fewTrees where
  injective type := by
    cases type with
    | sprout =>
      have ne : root (linearHash .sprout) .empty ≠
        root (linearHash .sprout) ⟨some 102, some 103, []⟩ := by decide +kernel
      rintro a (rfl | rfl) b (rfl | rfl) same
      · rfl
      · exact absurd same ne
      · exact absurd same.symm ne
      · rfl
    | sapling =>
      rintro a rfl b rfl _
      rfl
  not_null type := by
    cases type with
    | sprout =>
      rintro t (rfl | rfl)
      · decide +kernel
      · decide +kernel
    | sapling =>
      rintro t rfl
      decide +kernel
  empty_mem type := by
    cases type with
    | sprout => exact .inl rfl
    | sapling => rfl

theorem genesisDb_coherent : Coherent linearHash fewTrees (.base genesisDb) where
  coins := trivial
  shielded type rt tree hit := by
    change (if _ then _ else _) = _ at hit
    split at hit
    · rename_i root
      cases hit
      exact ⟨fewTrees_inPlay.empty_mem type, by rw [root_empty, root]⟩
    · cases hit
  history := nofun

theorem firstBlock_accepted :
    Accepted .regtest .regtest firstBlock firstIndex (some genesisTip) where
  parsed tx mem := by
    simp only [firstBlock, List.mem_cons, List.not_mem_nil, or_false] at mem
    rcases mem with rfl | rfl | rfl <;> exact ⟨by decide, by decide, by decide, by decide⟩
  contextual := by decide +kernel
  hash := rfl
  notNull := by decide
  genesis := by decide
  height := rfl
  heightBound := by decide
  saplingRoot _ _ := rfl
  genesisCoinBase := nofun

theorem firstBlock_added : TreesAdded .regtest fewTrees firstBlock
    { FlatView.empty linearHash with bestBlock := 1 } := by
  intro type tree _ best appended
  have old : tree = .empty := by
    simp only [FlatView.empty, ↓reduceIte, Option.some.injEq] at best
    exact best.symm
  subst old
  cases type with
  | sprout =>
    cases appended
    exact .inr rfl
  | sapling =>
    cases appended
    rfl

/-- The block reveals two nullifiers, grows the Sprout tree and spends both outputs of one of
its transactions, in reverse order. -/
theorem disconnectBlock_undoes_connectBlock_ownOutputs : ∃ result v' blockundo v'',
    (connectBlock .regtest firstBlock firstIndex (some genesisTip) false).run
      ChainEnv.regtest.onStack (pushCache (.base genesisDb)) = .ok (result, v') ∧
    (disconnectBlock .regtest firstBlock result.pindex genesisTip
      (some (undoWriteToDisk ChainEnv.regtest.undoLib blockundo genesisTip.hash))).run
      ChainEnv.regtest.onStack v' = .ok (.DISCONNECT_OK, v'') ∧
    SameAnswers ShieldedType.linearHash v'' (pushCache (.base genesisDb)) := by
  have runs : finishes ((connectBlock .regtest firstBlock firstIndex (some genesisTip) false).run
      regtest.onStack (pushCache (.base genesisDb))) (fun _ _ => true) = true := by decide +kernel
  obtain ⟨result, v', success, -⟩ := finishes_iff.mp runs
  obtain ⟨blockundo, v'', -, disconnects, same⟩ :=
    disconnectBlock_undoes_connectBlock fewTrees_inPlay
    MMRLibrary.counting_undoes (by decide) genesisDb_coherent.pushCache
    (genesis_state (fun _ _ => True) trivial) rfl firstBlock_accepted.toEntered (by decide)
    (by decide +kernel) nofun firstBlock_added success
  exact ⟨result, v', blockundo, v'', success, disconnects, same⟩

/-! What goes wrong without the conditions -/

/-- `ConnectBlock`, then `DisconnectBlock` with the record it wrote. -/
def connectAndDisconnect (env : ChainEnv) (block : CBlock) (pindex pprev : CBlockIndex) :
    View DisconnectResult := do
  let result ← connectBlock env block pindex (some pprev) false
  disconnectBlock env block result.pindex pprev
    (result.blockundo.map (fun blockundo => undoWriteToDisk env.undoLib blockundo pprev.hash))

def coinbaseBlock : CBlock :=
  ⟨2, 4, 1, 11, emptyRootOf .sapling, 0, 0, [],
    [coinbaseTx 11 true [0x51, 0] [⟨250000000, [0x51]⟩]]⟩

/-- The database after the block. -/
def tipDb : CCoinsViewDB :=
  { CCoinsViewDB.empty with
    coins := AList.singleton 11 ⟨true, [⟨250000000, [0x51]⟩], 1, 4⟩
    bestBlock := some 2 }

/-- Sapling active from the genesis block on. -/
def saplingGenesis : ChainEnv :=
  { ChainEnv.regtest with
    consensus := { ConsensusParams.regtest with
      nActivationHeight := fun
        | .BASE_SPROUT | .UPGRADE_OVERWINTER | .UPGRADE_SAPLING => some 0
        | _ => none } }

/-- A cache over the database after the block, in which it is disconnected, connected and
disconnected again: the coins of the block are back. And a view at a genesis block with
Sapling: the empty Sapling anchor is gone. -/
theorem undo_needs_conditions :
    (∃ v v', (disconnectBlock .regtest coinbaseBlock firstIndex genesisTip
        (some (undoWriteToDisk ChainEnv.regtest.undoLib
          ⟨[], emptyRootOf .sprout⟩ genesisTip.hash))).run
        ChainEnv.regtest.onStack (pushCache (.base tipDb)) = .ok (.DISCONNECT_OK, v) ∧
        (getBestBlock v).1 = genesisTip.hash ∧
      (connectAndDisconnect .regtest coinbaseBlock firstIndex genesisTip).run
        ChainEnv.regtest.onStack v = .ok (.DISCONNECT_OK, v') ∧
      (getCoins 11 v).bind CCoins.visible = none ∧ ((getCoins 11 v').bind CCoins.visible).isSome) ∧
    (∃ v', (connectAndDisconnect saplingGenesis coinbaseBlock firstIndex genesisTip).run
      saplingGenesis.onStack (pushCache (.base genesisDb)) = .ok (.DISCONNECT_OK, v') ∧
      (getAnchorAt ShieldedType.linearHash .sapling (emptyRootOf .sapling)
        (pushCache (.base genesisDb))).1.isSome ∧
      (getAnchorAt ShieldedType.linearHash .sapling (emptyRootOf .sapling) v').1 = none) := by
  constructor
  · have runs : finishes ((disconnectBlock .regtest coinbaseBlock firstIndex genesisTip
        (some (undoWriteToDisk regtest.undoLib ⟨[], emptyRootOf .sprout⟩ genesisTip.hash))).run
        regtest.onStack (pushCache (.base tipDb))) (fun first v => first = .DISCONNECT_OK ∧
          (getBestBlock v).1 = genesisTip.hash ∧ (getCoins 11 v).bind CCoins.visible = none ∧
          finishes ((connectAndDisconnect .regtest coinbaseBlock firstIndex genesisTip).run
            regtest.onStack v) (fun second v' => second = .DISCONNECT_OK ∧
              ((getCoins 11 v').bind CCoins.visible).isSome) = true) = true := by decide +kernel
    obtain ⟨_, v, disconnects, passed⟩ := finishes_iff.mp runs
    obtain ⟨rfl, best, absent, again⟩ := of_decide_eq_true passed
    obtain ⟨_, v', reconnects, passed⟩ := finishes_iff.mp again
    obtain ⟨rfl, back⟩ := of_decide_eq_true passed
    exact ⟨v, v', disconnects, best, reconnects, absent, back⟩
  · have runs :
        finishes ((connectAndDisconnect saplingGenesis coinbaseBlock firstIndex genesisTip).run
        saplingGenesis.onStack (pushCache (.base genesisDb)))
          (fun outcome v' => outcome = .DISCONNECT_OK ∧
          (getAnchorAt linearHash .sapling (emptyRootOf .sapling) v').1 = none) = true := by
      decide +kernel
    obtain ⟨_, v', ends, passed⟩ := finishes_iff.mp runs
    obtain ⟨rfl, gone⟩ := of_decide_eq_true passed
    exact ⟨v', ends, by decide +kernel, gone⟩

end Zcashd.Guarantees.BlockUndo
