import Zcashd.Lib.Layers
import Zcashd.Lib.AListFold
import Zcashd.Source.Coins
import Zcashd.Source.IncrementalMerkleTree
import Zcashd.Source.History

/-!
The stack of coins views (`src/coins.cpp`, `src/txdb.cpp:60-263`): `CCoinsViewCache`
objects, each with a `base`, over a `CCoinsViewDB`. Reads fill the caches they pass, so
every reader returns the new stack with its answer. `none` is a failed assertion, an
exception, or a call of a `CCoinsViewCache` method on a stack without a cache.

The Sprout and the Sapling members of a cache are one member indexed by the pool, and
the methods the source instantiates twice are one function with the pool as argument.
Memory accounting (`cachedCoinsUsage`) and the `hasModifier` guard are left out: a
modifier is created, used and destroyed inside one operation here.
-/
namespace Zcashd.Source

open Lib

/-- `boost::unordered_map<uint256, V>`. -/
abbrev Uint256Map (V : Type) := AList (fun _ : Uint256 => V)

/-- The bits of `flags` are two fields. -/
structure CCoinsCacheEntry where
  coins : CCoins
  dirty : Bool
  fresh : Bool
deriving DecidableEq, Repr

structure CAnchorsCacheEntry where
  entered : Bool
  tree : IncrementalMerkleTree
  dirty : Bool
deriving DecidableEq, Repr

structure CNullifiersCacheEntry where
  entered : Bool
  dirty : Bool
deriving DecidableEq, Repr

structure CCoinsViewCache where
  hashBlock : Uint256
  cacheCoins : Uint256Map CCoinsCacheEntry
  hashAnchor : ShieldedType → Uint256
  cacheAnchors : ShieldedType → Uint256Map CAnchorsCacheEntry
  cacheNullifiers : ShieldedType → Uint256Map CNullifiersCacheEntry
  historyCacheMap : AList (fun _ : Nat => HistoryCache)

/-- A cache just constructed over its base. -/
def CCoinsViewCache.empty : CCoinsViewCache := ⟨0, ∅, fun _ => 0, fun _ => ∅, fun _ => ∅, ∅⟩

/-- The records of the `chainstate` database. -/
structure CCoinsViewDB where
  coins : Uint256Map CCoins
  anchors : ShieldedType → Uint256Map IncrementalMerkleTree
  nullifiers : ShieldedType → Uint256Map Bool
  bestBlock : Option Uint256
  bestAnchor : ShieldedType → Option Uint256
  historyLength : AList (fun _ : Nat => Nat)
  historyNode : AList (fun _ : Nat × Nat => HistoryNode)
  historyRoot : AList (fun _ : Nat => Uint256)

def CCoinsViewDB.empty : CCoinsViewDB :=
  ⟨∅, fun _ => ∅, fun _ => ∅, none, fun _ => none, ∅, ∅, ∅⟩

abbrev CCoinsView := Layers CCoinsViewCache CCoinsViewDB

namespace CCoinsViewDB

/-- Deserialising a `CCoins` ends with `Cleanup`. -/
def getCoins (db : CCoinsViewDB) (txid : Uint256) : Option CCoins :=
  (db.coins.lookup txid).map CCoins.cleanup

def getAnchorAt (H : ShieldedType → MerkleHash) (db : CCoinsViewDB) (type : ShieldedType)
    (rt : Uint256) : Option IncrementalMerkleTree :=
  if rt = IncrementalMerkleTree.emptyRoot (H type) then some .empty
  else (db.anchors type).lookup rt

/-- The stored flag is read but only the presence of the record counts. -/
def getNullifier (db : CCoinsViewDB) (type : ShieldedType) (nf : Uint256) : Bool :=
  ((db.nullifiers type).lookup nf).isSome

def getBestBlock (db : CCoinsViewDB) : Uint256 := db.bestBlock.getD 0

def getBestAnchor (H : ShieldedType → MerkleHash) (db : CCoinsViewDB)
    (type : ShieldedType) : Uint256 :=
  (db.bestAnchor type).getD (IncrementalMerkleTree.emptyRoot (H type))

def getHistoryLength (db : CCoinsViewDB) (epochId : Nat) : Nat :=
  (db.historyLength.lookup epochId).getD 0

def getHistoryAt (db : CCoinsViewDB) (epochId index : Nat) : Option HistoryNode :=
  if db.getHistoryLength epochId ≤ index then none else db.historyNode.lookup (epochId, index)

def getHistoryRoot (db : CCoinsViewDB) (epochId : Nat) : Uint256 :=
  (db.historyRoot.lookup epochId).getD 0

/-- One entry of the coins map in `BatchWrite`. -/
def writeCoins (coins : Uint256Map CCoins) (txid : Uint256) (entry : CCoinsCacheEntry) :
    Uint256Map CCoins :=
  if entry.dirty then
    if entry.coins.isPruned then coins.erase txid else coins.insert txid entry.coins
  else coins

def writeAnchor (H : ShieldedType → MerkleHash) (type : ShieldedType)
    (anchors : Uint256Map IncrementalMerkleTree) (rt : Uint256) (entry : CAnchorsCacheEntry) :
    Uint256Map IncrementalMerkleTree :=
  if entry.dirty then
    if !entry.entered then anchors.erase rt
    else if rt ≠ IncrementalMerkleTree.emptyRoot (H type) then anchors.insert rt entry.tree
    else anchors
  else anchors

def writeNullifier (nullifiers : Uint256Map Bool) (nf : Uint256) (entry : CNullifiersCacheEntry) :
    Uint256Map Bool :=
  if entry.dirty then
    if !entry.entered then nullifiers.erase nf else nullifiers.insert nf true
  else nullifiers

/-- The nodes one epoch adds. The erase loop before it builds its keys from an `int`, four
bytes where a node is stored under eight, so it removes no node. -/
def writeHistoryNodes (nodes : AList (fun _ : Nat × Nat => HistoryNode)) (epochId : Nat)
    (h : HistoryCache) : AList (fun _ : Nat × Nat => HistoryNode) :=
  h.appends.entries.foldl (fun m e => m.insert (epochId, e.1) e.2) nodes

/-- `BatchWrite`: one atomic batch. -/
def batchWrite (H : ShieldedType → MerkleHash) (db : CCoinsViewDB) (child : CCoinsViewCache) :
    CCoinsViewDB where
  coins := child.cacheCoins.entries.foldl (fun m e => writeCoins m e.1 e.2) db.coins
  anchors type :=
    (child.cacheAnchors type).entries.foldl (fun m e => writeAnchor H type m e.1 e.2)
      (db.anchors type)
  nullifiers type :=
    (child.cacheNullifiers type).entries.foldl (fun m e => writeNullifier m e.1 e.2)
      (db.nullifiers type)
  bestBlock := if child.hashBlock.isNull then db.bestBlock else some child.hashBlock
  bestAnchor type :=
    if (child.hashAnchor type).isNull then db.bestAnchor type else some (child.hashAnchor type)
  historyLength :=
    child.historyCacheMap.entries.foldl (fun m e => m.insert e.1 e.2.length) db.historyLength
  historyNode :=
    child.historyCacheMap.entries.foldl (fun m e => writeHistoryNodes m e.1 e.2) db.historyNode
  historyRoot :=
    child.historyCacheMap.entries.foldl (fun m e => m.insert e.1 e.2.root) db.historyRoot

end CCoinsViewDB

namespace CCoinsViewCache

/-- One entry of the coins map in `BatchWrite`; `none` is the assertion that an unspent
entry the parent lacks is `FRESH`. -/
def writeCoins (cacheCoins : Uint256Map CCoinsCacheEntry) (txid : Uint256)
    (entry : CCoinsCacheEntry) : Option (Uint256Map CCoinsCacheEntry) :=
  if entry.dirty then
    match cacheCoins.lookup txid with
    | none =>
      if entry.coins.isPruned then some cacheCoins
      else if entry.fresh then some (cacheCoins.insert txid ⟨entry.coins, true, true⟩)
      else none
    | some us =>
      if us.fresh && entry.coins.isPruned then some (cacheCoins.erase txid)
      else some (cacheCoins.insert txid ⟨entry.coins, true, us.fresh⟩)
  else some cacheCoins

/-- `BatchWriteAnchors`: an entry the parent already has keeps the parent's tree. -/
def writeAnchor (cacheAnchors : Uint256Map CAnchorsCacheEntry) (rt : Uint256)
    (entry : CAnchorsCacheEntry) : Uint256Map CAnchorsCacheEntry :=
  if entry.dirty then
    match cacheAnchors.lookup rt with
    | none => cacheAnchors.insert rt ⟨entry.entered, entry.tree, true⟩
    | some parent =>
      if parent.entered ≠ entry.entered then
        cacheAnchors.insert rt ⟨entry.entered, parent.tree, true⟩
      else cacheAnchors
  else cacheAnchors

def writeNullifier (cacheNullifiers : Uint256Map CNullifiersCacheEntry) (nf : Uint256)
    (entry : CNullifiersCacheEntry) : Uint256Map CNullifiersCacheEntry :=
  if entry.dirty then
    match cacheNullifiers.lookup nf with
    | none => cacheNullifiers.insert nf ⟨entry.entered, true⟩
    | some parent =>
      if parent.entered ≠ entry.entered then cacheNullifiers.insert nf ⟨entry.entered, true⟩
      else cacheNullifiers
  else cacheNullifiers

/-- `historyCache.Extend(historyCacheIn.appends[i])` for `count` positions from `first` on. -/
def extendFrom (appends : AList (fun _ : Nat => HistoryNode)) (first : Nat) :
    Nat → HistoryCache → HistoryCache
  | 0, h => h
  | count + 1, h => extendFrom appends (first + 1) count (h.extend ((appends.lookup first).getD []))

/-- `BatchWriteHistory`; `none` is the assertion that the lengths match afterwards. -/
def writeHistory (historyCacheMap : AList (fun _ : Nat => HistoryCache)) (epochId : Nat)
    (historyIn : HistoryCache) : Option (AList (fun _ : Nat => HistoryCache)) :=
  match historyCacheMap.lookup epochId with
  | some history =>
    let merged := extendFrom historyIn.appends historyIn.updateDepth
      (historyIn.length - historyIn.updateDepth) (history.truncate historyIn.updateDepth)
    if merged.length = historyIn.length then
      some (historyCacheMap.insert epochId { merged with root := historyIn.root })
    else none
  | none => some (historyCacheMap.insert epochId historyIn)

/-- `BatchWrite` of a child cache into this one. -/
def batchWrite (cache child : CCoinsViewCache) : Option CCoinsViewCache :=
  match child.cacheCoins.entries.foldlM (fun m e => writeCoins m e.1 e.2) cache.cacheCoins,
    child.historyCacheMap.entries.foldlM
      (fun m e => writeHistory m e.1 e.2) cache.historyCacheMap with
  | some cacheCoins, some historyCacheMap => some {
      hashBlock := child.hashBlock
      cacheCoins := cacheCoins
      hashAnchor := child.hashAnchor
      cacheAnchors := fun type =>
        (child.cacheAnchors type).entries.foldl (fun m e => writeAnchor m e.1 e.2)
          (cache.cacheAnchors type)
      cacheNullifiers := fun type =>
        (child.cacheNullifiers type).entries.foldl (fun m e => writeNullifier m e.1 e.2)
          (cache.cacheNullifiers type)
      historyCacheMap := historyCacheMap }
  | _, _ => none

/-- What `Flush` leaves in the flushed cache: the maps are cleared, the hashes stay. -/
def clearMaps (cache : CCoinsViewCache) : CCoinsViewCache :=
  { cache with cacheCoins := ∅, cacheAnchors := fun _ => ∅, cacheNullifiers := fun _ => ∅,
               historyCacheMap := ∅ }

end CCoinsViewCache

end Zcashd.Source
