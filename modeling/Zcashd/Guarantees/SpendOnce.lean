import Zcashd.Abstract.ChainSpends
import Zcashd.Guarantees.BlockUndo

/-!
# Nothing on the chain is spent twice

Blocks are connected to a coins view and disconnected again in any order, from an empty
database on. Over the transactions of the blocks then on the chain no nullifier is revealed
and no output spent twice, an output is spent after it was created, and `GetNullifier` answers
true for the nullifiers revealed and for no others.

BIP 30 as `ConnectBlock` enforces it is not enough for this. A coinbase may come again once
everything it created is spent, and a transaction that spent it may then come again too
(`copied_coinbase_spent_twice`). So ids of coinbases must not be used again. That is what BIP 34
is for, which `ContextualCheckBlock` enforces before a block gets this far: a coinbase begins with
the height of its block, so coinbases of blocks at different heights differ. It is a condition on
the blocks here (`UniqueIds`).
-/
namespace Zcashd.Guarantees.SpendOnce

open Lib Source Abstract BlockUndo List Option

variable {env : ChainEnv} {chain : List (CBlock × ConnectResult)} {v : CCoinsView}

theorem chain_spends_once (run : ViewRun env UniqueIds chain v) :
    (Ledger.revealedNullifiers .sprout (chainTxs chain)).Nodup ∧
    (Ledger.revealedNullifiers .sapling (chainTxs chain)).Nodup ∧
    (Ledger.spentOutpoints (chainTxs chain)).Nodup ∧
    (∀ before tx after, chainTxs chain = before ++ tx :: after → ∀ txin ∈ Ledger.spentBy tx,
      ∃ source ∈ before, source.getHash = txin.prevout.hash ∧
        (source.vout[txin.prevout.n]?).isSome) ∧
    ∀ type nf, (CCoinsView.getNullifier type nf v).1 = true ↔
      nf ∈ Ledger.revealedNullifiers type (chainTxs chain) := by
  obtain ⟨-, state⟩ := run.ledger (fun _ unique => unique.distinct)
  obtain ⟨once, nullifiers⟩ := state.spendsOnce (fun _ unique => unique)
  refine ⟨once.revealed .sprout, once.revealed .sapling, once.spent, ?_, ?_⟩
  · intro before tx after shape txin spends
    obtain ⟨_, source, member, same, found⟩ := once.sources before tx after shape txin spends
    exact ⟨source, member, same, isSome_of_eq_some found⟩
  · intro type nf
    rw [(CCoinsView.getNullifier_reads (H := env.merkle) type nf v).1]
    exact nullifiers type nf

/-- **The coins of a chain** follow from its blocks, whatever was flushed or undone. -/
theorem coins_of_chain (run : ViewRun env DistinctIds chain v) (o : COutPoint) :
    (CCoinsView.getCoins o.hash v).bind (·.output o.n) =
      (chainTxs chain.dropLast).foldl Ledger.enter (fun _ => none) o := by
  obtain ⟨ok, state⟩ := run.ledger fun _ distinct => distinct
  have shown := (CCoinsView.fetchCoins_spec o.hash v ok.coins).value
  rw [← state.outputs]
  simp [Ledger.output, ledgerAt, ← shown, bind_assoc, CCoinsView.getCoins,
    CCoins.bind_output_visible]

/-! Concrete runs -/

/-- A single cache over an empty database. -/
def overEmpty : CCoinsView → Bool
  | .layer _ (.base db) => db.coins.entries.isEmpty
  | _ => false

/-- Blocks connected one after the other to a single cache. -/
def connectAll (env : ChainEnv) : List (CBlock × CBlockIndex) → List (CBlock × ConnectResult) →
    CCoinsView → Option (List (CBlock × ConnectResult) × CCoinsView)
  | [], chain, v => some (chain, v)
  | (block, pindex) :: rest, chain, v =>
    if Entered env block pindex (tipOf chain) ∧ overEmpty v = true then
      match (connectBlock env block pindex (tipOf chain) false).run env.onStack v with
      | .ok (result, v') => connectAll env rest ((block, result) :: chain) v'
      | .error _ => none
    else none

/-- The last block taken off. -/
def disconnectLast (env : ChainEnv) : List (CBlock × ConnectResult) → CCoinsView →
    Option (List (CBlock × ConnectResult) × CCoinsView)
  | [], _ => none
  | (block, result) :: chain, v =>
    match tipOf chain, result.blockundo with
    | some pprev, some blockundo =>
      match v with
      | .base _ => none
      | .layer cache base =>
        match (disconnectBlock env block result.pindex pprev
          (some (undoWriteToDisk env.undoLib blockundo pprev.hash))).run env.onStack
            (.layer cache base) with
        | .ok (_, v') => some (chain, v')
        | .error _ => none
    | _, _ => none

theorem overEmpty_vacant (above : overEmpty v = true) :
    ∃ (cache : CCoinsViewCache) (base : CCoinsView), v = .layer cache base ∧
      ∀ txid, base.coinsAt txid = none := by
  unfold overEmpty at above
  split at above
  · rename_i cache db
    refine ⟨cache, .base db, rfl, fun txid => ?_⟩
    have empty : db.coins = ∅ := AList.ext (isEmpty_iff.mp above)
    simp [CCoinsView.coinsAt, Layers.visible, CCoinsViewDB.getCoins, empty]
  · cases above

variable {side : List CTransaction → Prop} {chain' : List (CBlock × ConnectResult)}
  {v' : CCoinsView}

/-- Blocks connected one after the other are a run, when the condition holds after each. -/
theorem connectAll_run {blocks : List (CBlock × CBlockIndex)} (old : ViewRun env side chain v)
    (finished : connectAll env blocks chain v = some (chain', v'))
    (met : ∀ count,
      side (chainTxs chain ++ (blocks.take (count + 1)).flatMap (fun item => item.1.vtx))) :
    ViewRun env side chain' v' ∧
    chain'.map Prod.fst = (blocks.map Prod.fst).reverse ++ chain.map Prod.fst := by
  induction blocks generalizing chain v with
  | nil =>
    cases finished
    exact ⟨old, by simp⟩
  | cons item _ ih =>
    obtain ⟨block, _⟩ := item
    unfold connectAll at finished
    split at finished
    · rename_i tests
      obtain ⟨_, _, rfl, vacant⟩ := overEmpty_vacant tests.2
      split at finished
      · rename_i result _ connected
        have now : side (chainTxs ((block, result) :: chain)) := by
          simpa [chainTxs_cons] using met 0
        have step := ViewRun.connect old tests.1 (fun tx _ => vacant tx.getHash) connected now
        obtain ⟨run, blocks⟩ := ih step finished (fun count => by
          simpa [chainTxs_cons, append_assoc] using met (count + 1))
        exact ⟨run, by simp [blocks]⟩
      · cases finished
    · cases finished

theorem disconnectLast_run (old : ViewRun env side chain v)
    (finished : disconnectLast env chain v = some (chain', v')) :
    ViewRun env side chain' v' ∧ chain' = chain.tail := by
  unfold disconnectLast at finished
  split at finished
  · cases finished
  · split at finished
    · rename_i _ _ tip undo
      split at finished
      · cases finished
      · split at finished
        · rename_i disconnected
          cases finished
          exact ⟨.disconnect old tip undo disconnected, rfl⟩
        · cases finished
    · cases finished

theorem chainTxs_eq (chain : List (CBlock × ConnectResult)) :
    chainTxs chain = (chain.map Prod.fst).reverse.flatMap CBlock.vtx := by
  simp [chainTxs, flatMap_map, ← map_reverse]

def newView : CCoinsView := CCoinsView.pushCache (.base .empty)

/-- The genesis block and a block that spends its own outputs are connected; that block is
disconnected and connected again. -/
def reorganised : Option (List (CBlock × ConnectResult) × CCoinsView) := do
  let (chain, v) ← connectAll .regtest
      [(genesisBlock, genesisIndex), (firstBlock, firstIndex)] [] newView
  let (chain, v) ← disconnectLast .regtest chain v
  connectAll .regtest [(firstBlock, firstIndex)] chain v

theorem chain_spends_once_reorganised : ∃ chain v, ViewRun .regtest UniqueIds chain v ∧
    Ledger.spentOutpoints (chainTxs chain) = [⟨12, 1⟩, ⟨12, 0⟩] ∧
    (Ledger.spentOutpoints (chainTxs chain)).Nodup ∧
    (CCoinsView.getNullifier .sprout 100 v).1 = true := by
  have unique : UniqueIds (genesisBlock.vtx ++ firstBlock.vtx) :=
    ⟨by decide +kernel, by decide +kernel⟩
  have first : UniqueIds genesisBlock.vtx := ⟨by decide +kernel, by decide +kernel⟩
  have finishes : reorganised.isSome = true := by decide +kernel
  obtain ⟨⟨chain, v⟩, finished⟩ := isSome_iff_exists.mp finishes
  simp only [reorganised, bind_eq_bind, bind_eq_some_iff, Prod.exists] at finished
  obtain ⟨chain₁, _, connected, _, _, disconnected, again⟩ := finished
  obtain ⟨run₁, blocks₁⟩ := connectAll_run (ViewRun.start.pushCache) connected fun count => by
    cases count with
    | zero => simpa [chainTxs] using first
    | succ _ => simpa [chainTxs] using unique
  obtain ⟨run₂, rfl⟩ := disconnectLast_run run₁ disconnected
  have blocks₂ : chain₁.tail.map Prod.fst = [genesisBlock] := by
    rw [map_tail, blocks₁]
    rfl
  obtain ⟨run, blocks⟩ := connectAll_run run₂ again fun count => by
    rw [chainTxs_eq, blocks₂]
    simpa using unique
  have txs : chainTxs chain = genesisBlock.vtx ++ firstBlock.vtx := by
    rw [chainTxs_eq, blocks, blocks₂]
    rfl
  obtain ⟨-, -, once, -, nullifiers⟩ := chain_spends_once run
  refine ⟨chain, v, run, by rw [txs]; decide +kernel, once, (nullifiers .sprout 100).mpr ?_⟩
  rw [txs]
  decide +kernel

theorem coins_of_chain_first :
    ∃ p, connectAll .regtest [(genesisBlock, genesisIndex), (firstBlock, firstIndex)] []
        newView = some p ∧
      (CCoinsView.getCoins 12 p.2).bind (·.output 0) =
        (chainTxs p.1.dropLast).foldl Ledger.enter (fun _ => none) ⟨12, 0⟩ := by
  refine Exists.imp (fun _ finished => ⟨finished, ?_⟩) (isSome_iff_exists.mp (by decide +kernel))
  refine coins_of_chain (connectAll_run ViewRun.start.pushCache finished fun count => ?_).1 ⟨12, 0⟩
  cases count <;> simp only [DistinctIds, take_succ_cons, take_nil] <;> decide +kernel

/-! A coinbase that comes twice -/

/-- The ids of different transactions that are no coinbases differ. -/
def OthersDistinct (txs : List CTransaction) : Prop :=
  ∀ tx ∈ txs, ∀ other ∈ txs, tx.isCoinBase = false → other.isCoinBase = false →
    other.getHash = tx.getHash → other = tx

def copiedTx : CTransaction := coinbaseTx 11 true [0x51, 0] [⟨5, [0x51]⟩]

/-- Spends it into an unspendable output, so that nothing of this one is ever unspent. -/
def spenderTx : CTransaction := transparentTx 12 [⟨⟨11, 0⟩, []⟩] [⟨5, [OP_RETURN]⟩] []

/-- The coinbase of the other blocks. -/
def plainTx (nHeight : Nat) : CTransaction :=
  coinbaseTx (BitVec.ofNat 256 (1000 + nHeight)) true [0x51, 0] [⟨0, [OP_RETURN]⟩]

/-- The coinbase in blocks 1 and 102, spent as soon as it is mature. -/
def copiedTxs (nHeight : Nat) : List CTransaction :=
  if nHeight = 1 ∨ nHeight = 102 then [copiedTx]
  else if nHeight = 101 ∨ nHeight = 202 then [plainTx nHeight, spenderTx]
  else [plainTx nHeight]

def copiedBlock (nHeight : Nat) : CBlock × CBlockIndex :=
  let hash := BitVec.ofNat 256 (nHeight + 1)
  let hashPrevBlock := BitVec.ofNat 256 nHeight
  let hashMerkleRoot := match copiedTxs nHeight with
    | [first, second] => 2 * first.getHash + second.getHash
    | vtx => (vtx.head?.map CTransaction.getHash).getD 0
  (⟨hash, 4, hashPrevBlock, hashMerkleRoot, emptyRootOf .sapling, 0, 0, [], copiedTxs nHeight⟩,
    indexEntry hash (some hashPrevBlock) nHeight (emptyRootOf .sapling))

def copiedChain : List (CBlock × CBlockIndex) :=
  (genesisBlock, genesisIndex) :: (List.range 202).map (fun i => copiedBlock (i + 1))

set_option maxRecDepth 10000 in
/-- The ids of the transactions that are no coinbases differ, every block is connected, and the
output of the coinbase is spent twice. -/
theorem copied_coinbase_spent_twice : ∃ chain v, ViewRun .regtest OthersDistinct chain v ∧
    ¬ (Ledger.spentOutpoints (chainTxs chain)).Nodup := by
  have finishes : (connectAll .regtest copiedChain [] newView).isSome = true := by decide +kernel
  have others : ∀ tx ∈ copiedChain.flatMap (fun item => item.1.vtx), tx.isCoinBase = false →
      tx = spenderTx := by
    decide +kernel
  obtain ⟨⟨chain, v⟩, finished⟩ := isSome_iff_exists.mp finishes
  have met : ∀ count, OthersDistinct
      ([] ++ (copiedChain.take (count + 1)).flatMap (fun item => item.1.vtx)) := by
    intro count tx member other member' plain plain' _
    have among : ∀ tx ∈ [] ++ (copiedChain.take (count + 1)).flatMap (fun item => item.1.vtx),
        tx ∈ copiedChain.flatMap (fun item => item.1.vtx) := by
      intro _ member
      obtain ⟨item, belongs, inside⟩ := mem_flatMap.mp member
      exact mem_flatMap.mpr ⟨item, mem_of_mem_take belongs, inside⟩
    rw [others tx (among tx member) plain, others other (among other member') plain']
  obtain ⟨run, blocks⟩ := connectAll_run (ViewRun.start.pushCache) finished met
  refine ⟨chain, v, run, ?_⟩
  rw [chainTxs_eq, blocks]
  decide +kernel

end Zcashd.Guarantees.SpendOnce
