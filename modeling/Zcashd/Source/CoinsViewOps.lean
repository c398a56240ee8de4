import Zcashd.Source.CoinsView

/-!
The methods of `CCoinsViewCache` (`src/coins.cpp:115-300`, `:430-720`, `:864-882`,
`:1001-1013`) on the stack of views. A virtual call on `base` is a recursive call.
-/
namespace Zcashd.Source

open Lib

namespace CCoinsViewCache

/-- `~CCoinsModifier`: clean up the entry, drop it when it is fresh and pruned. -/
def closeModifier (cache : CCoinsViewCache) (txid : Uint256) (entry : CCoinsCacheEntry) :
    CCoinsViewCache :=
  let coins := entry.coins.cleanup
  { cache with cacheCoins :=
      if entry.fresh && coins.isPruned then cache.cacheCoins.erase txid
      else cache.cacheCoins.insert txid { entry with coins := coins } }

def setAnchor (cache : CCoinsViewCache) (type : ShieldedType) (rt : Uint256)
    (entry : CAnchorsCacheEntry) : CCoinsViewCache :=
  { cache with cacheAnchors :=
      Function.update cache.cacheAnchors type ((cache.cacheAnchors type).insert rt entry) }

def setHashAnchor (cache : CCoinsViewCache) (type : ShieldedType) (rt : Uint256) :
    CCoinsViewCache :=
  { cache with hashAnchor := Function.update cache.hashAnchor type rt }

def setNullifier (cache : CCoinsViewCache) (type : ShieldedType) (nf : Uint256)
    (entry : CNullifiersCacheEntry) : CCoinsViewCache :=
  { cache with cacheNullifiers :=
      Function.update cache.cacheNullifiers type ((cache.cacheNullifiers type).insert nf entry) }

def setNullifiers (cache : CCoinsViewCache) (tx : CTransaction) (spent : Bool) :
    CCoinsViewCache where
  __ := cache
  cacheNullifiers type :=
    (tx.revealed type).foldl (fun m nf => m.insert nf ⟨spent, true⟩) (cache.cacheNullifiers type)

def setHistory (cache : CCoinsViewCache) (epochId : Nat) (h : HistoryCache) : CCoinsViewCache :=
  { cache with historyCacheMap := cache.historyCacheMap.insert epochId h }

/-- The part of `AbstractPopAnchor` after the current anchor was brought into the cache. -/
def leaveAnchor (cache : CCoinsViewCache) (type : ShieldedType) (currentRoot newrt : Uint256) :
    CCoinsViewCache :=
  let tree :=
    (((cache.cacheAnchors type).lookup currentRoot).map CAnchorsCacheEntry.tree).getD .empty
  (cache.setAnchor type currentRoot ⟨false, tree, true⟩).setHashAnchor type newrt

end CCoinsViewCache

namespace CCoinsView

/-- A change of the members of the top cache. -/
def onTop (f : CCoinsViewCache → CCoinsViewCache) : CCoinsView → Option CCoinsView
  | .base _ => none
  | .layer cache base => some (.layer (f cache) base)

/-! Coins -/

def fetchCoins (txid : Uint256) : CCoinsView → Option CCoins × CCoinsView
  | .base db => (db.getCoins txid, .base db)
  | .layer cache base =>
    match cache.cacheCoins.lookup txid with
    | some entry => (some entry.coins, .layer cache base)
    | none =>
      match fetchCoins txid base with
      | (none, base) => (none, .layer cache base)
      | (some tmp, base) =>
        (some tmp, .layer { cache with
          cacheCoins := cache.cacheCoins.insert txid ⟨tmp, false, tmp.isPruned⟩ } base)

def getCoins (txid : Uint256) (v : CCoinsView) : Option CCoins := (fetchCoins txid v).1

/-- Like `GetCoins`, but hands out a pointer into the cache instead of a copy. -/
def accessCoins (txid : Uint256) (v : CCoinsView) : Option CCoins := (fetchCoins txid v).1

/-- A cache looks at `vout.empty()` instead of `IsPruned()`, the database at the record. -/
def haveCoins (txid : Uint256) : CCoinsView → Bool
  | .base db => (db.coins.lookup txid).isSome
  | .layer cache base =>
    match (fetchCoins txid (.layer cache base)).1 with
    | some coins => !coins.vout.isEmpty
    | none => false

/-- The entry `ModifyCoins` hands to the modifier, before it is marked dirty. -/
def entryToModify (txid : Uint256) (cache : CCoinsViewCache) (base : CCoinsView) :
    CCoinsCacheEntry × CCoinsView :=
  match cache.cacheCoins.lookup txid with
  | some entry => (entry, base)
  | none =>
    match fetchCoins txid base with
    -- The parent view does not have this entry, or only a pruned one: fresh.
    | (none, base) => (⟨.clear, false, true⟩, base)
    | (some coins, base) => (⟨coins, false, coins.isPruned⟩, base)

/-- `ModifyCoins(txid)`, the edit, and the end of the modifier's life. -/
def modifyCoins (txid : Uint256) (edit : CoinsEdit) : CCoinsView → Option CCoinsView
  | .base _ => none
  | .layer cache base =>
    let fetched := entryToModify txid cache base
    let entry := { fetched.1 with coins := edit.run fetched.1.coins, dirty := true }
    some (.layer (cache.closeModifier txid entry) fetched.2)

/-- `ModifyNewCoins(txid)`: the entry is cleared and marked fresh whatever it was. -/
def modifyNewCoins (txid : Uint256) (edit : CoinsEdit) : CCoinsView → Option CCoinsView :=
  onTop (fun cache => cache.closeModifier txid ⟨edit.run .clear, true, true⟩)

/-! Anchors and nullifiers -/

section

variable (H : ShieldedType → MerkleHash) (type : ShieldedType)

/-- `GetSproutAnchorAt` and `GetSaplingAnchorAt`. -/
def getAnchorAt (rt : Uint256) : CCoinsView → Option IncrementalMerkleTree × CCoinsView
  | .base db => (db.getAnchorAt H type rt, .base db)
  | .layer cache base =>
    match (cache.cacheAnchors type).lookup rt with
    | some entry => (if entry.entered then some entry.tree else none, .layer cache base)
    | none =>
      match getAnchorAt rt base with
      | (none, base) => (none, .layer cache base)
      | (some tree, base) => (some tree, .layer (cache.setAnchor type rt ⟨true, tree, false⟩) base)

def getNullifier (nf : Uint256) : CCoinsView → Bool × CCoinsView
  | .base db => (db.getNullifier type nf, .base db)
  | .layer cache base =>
    match (cache.cacheNullifiers type).lookup nf with
    | some entry => (entry.entered, .layer cache base)
    | none =>
      let below := getNullifier nf base
      (below.1, .layer (cache.setNullifier type nf ⟨below.1, false⟩) below.2)

def getBestAnchor : CCoinsView → Uint256 × CCoinsView
  | .base db => (db.getBestAnchor H type, .base db)
  | .layer cache base =>
    if (cache.hashAnchor type).isNull then
      let below := getBestAnchor base
      (below.1, .layer (cache.setHashAnchor type below.1) below.2)
    else (cache.hashAnchor type, .layer cache base)

/-- `AbstractPushAnchor`. -/
def pushAnchor (tree : IncrementalMerkleTree) (v : CCoinsView) : Option CCoinsView :=
  let newrt := tree.root (H type)
  let best := getBestAnchor H type v
  best.2.onTop (fun cache =>
    if best.1 ≠ newrt then (cache.setAnchor type newrt ⟨true, tree, true⟩).setHashAnchor type newrt
    else cache)

/-- `AbstractPopAnchor`; the assertion is that the current best anchor can be read. -/
def popAnchor (newrt : Uint256) (v : CCoinsView) : Option CCoinsView :=
  let best := getBestAnchor H type v
  if best.1 ≠ newrt then
    match getAnchorAt H type best.1 best.2 with
    | (none, _) => none
    | (some _, v) => v.onTop (fun cache => cache.leaveAnchor type best.1 newrt)
  else best.2.onTop id

end

def setNullifiers (tx : CTransaction) (spent : Bool) : CCoinsView → Option CCoinsView :=
  onTop (fun cache => cache.setNullifiers tx spent)

/-! Best block -/

def getBestBlock : CCoinsView → Uint256 × CCoinsView
  | .base db => (db.getBestBlock, .base db)
  | .layer cache base =>
    if cache.hashBlock.isNull then
      let below := getBestBlock base
      (below.1, .layer { cache with hashBlock := below.1 } below.2)
    else (cache.hashBlock, .layer cache base)

def setBestBlock (hashBlock : Uint256) : CCoinsView → Option CCoinsView :=
  onTop (fun cache => { cache with hashBlock := hashBlock })

/-! History tree -/

section

variable (lib : MMRLibrary) (epochId : Nat)

/-- `SelectHistoryCache`: length and root of the epoch, with an entry in every cache. -/
def selectHistoryCache : CCoinsView → (Nat × Uint256) × CCoinsView
  | .base db => ((db.getHistoryLength epochId, db.getHistoryRoot epochId), .base db)
  | .layer cache base =>
    match cache.historyCacheMap.lookup epochId with
    | some h => ((h.length, h.root), .layer cache base)
    | none =>
      let below := selectHistoryCache base
      (below.1, .layer (cache.setHistory epochId (.ofBase below.1.1 below.1.2)) below.2)

/-- `GetHistoryAt` on a stack whose caches have selected the epoch. -/
def readHistoryAt (index : Nat) : CCoinsView → Option HistoryNode
  | .base db => db.getHistoryAt epochId index
  | .layer cache base =>
    match cache.historyCacheMap.lookup epochId with
    | some h =>
      if h.length ≤ index then none
      else if h.updateDepth ≤ index then some ((h.appends.lookup index).getD [])
      else readHistoryAt index base
    | none => readHistoryAt index base

def getHistoryLength (v : CCoinsView) : Nat := (selectHistoryCache epochId v).1.1

def getHistoryRoot (v : CCoinsView) : Uint256 := (selectHistoryCache epochId v).1.2

def getHistoryAt (index : Nat) (v : CCoinsView) : Option HistoryNode :=
  readHistoryAt epochId index (selectHistoryCache epochId v).2

/-- Replace the history cache of the epoch in the top cache. -/
def updateHistory (f : HistoryCache → HistoryCache) : CCoinsView → Option CCoinsView :=
  onTop (fun cache =>
    match cache.historyCacheMap.lookup epochId with
    | some h => cache.setHistory epochId (f h)
    | none => cache)

def pushHistoryNode (node : HistoryNode) (v : CCoinsView) : Option CCoinsView :=
  let selected := selectHistoryCache epochId v
  let length := selected.1.1
  if length = 0 then
    (lib.hashNode epochId node).bind (fun root =>
      updateHistory epochId (fun h => { h.extend node with root := root }) selected.2)
  else
    (preloadHistoryTree length (fun i => readHistoryAt epochId i selected.2) false).bind
      (fun loaded =>
        let answer := lib.append epochId length loaded.2 node
        updateHistory epochId
          (fun h => { answer.2.foldl HistoryCache.extend h with root := answer.1 }) selected.2)

def popHistoryNode (v : CCoinsView) : Option CCoinsView :=
  let selected := selectHistoryCache epochId v
  let readAt := fun i => readHistoryAt epochId i selected.2
  match selected.1.1 with
  | 0 | 1 => updateHistory epochId (fun h => { h.truncate 0 with root := 0 }) selected.2
  | 2 => none
  | 3 =>
    ((readAt 0).bind (lib.hashNode epochId)).bind (fun newRoot =>
      updateHistory epochId (fun h => { h.truncate 1 with root := newRoot }) selected.2)
  | length =>
    (preloadHistoryTree length readAt true).bind (fun loaded =>
      let answer := lib.delete epochId length loaded.2 loaded.1 (loaded.2.length - loaded.1)
      updateHistory epochId
        (fun h => { h.truncate (h.length - answer.2) with root := answer.1 }) selected.2)

end

/-! The stack itself -/

/-- A new cache over the current top. -/
def pushCache (v : CCoinsView) : CCoinsView := .layer .empty v

def flush (H : ShieldedType → MerkleHash) : CCoinsView → Option CCoinsView
  | .base _ => none
  | .layer cache (.base db) => some (.layer cache.clearMaps (.base (db.batchWrite H cache)))
  | .layer cache (.layer parent base) =>
    (parent.batchWrite cache).map (fun parent => .layer cache.clearMaps (.layer parent base))

def pop : CCoinsView → Option CCoinsView
  | .base _ => none
  | .layer _ base => some base

def flushAndPop (H : ShieldedType → MerkleHash) (v : CCoinsView) : Option CCoinsView :=
  (v.flush H).bind pop

end CCoinsView

end Zcashd.Source
