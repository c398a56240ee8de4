import Zcashd.Source.CoinsViewOps

/-!
The history trees of the view stack (`src/coins.cpp:448-564`, `:776-803`,
`src/txdb.cpp:198-219`, `src/zcash/History.cpp:14-40`). A `HistoryCache` keeps the part of
an epoch's node array from `updateDepth` on and leaves the rest to its base; `nodesOver` is
the array it stands for. `history` is the array a stack stands for.
-/
namespace Zcashd.Source

open Lib CCoinsViewCache List Option AList CCoinsView

namespace HistoryCache

section

variable (h : HistoryCache)
include h

variable (leaf : HistoryNode)

@[simp] theorem length_extend :
    (h.extend leaf).length = h.length + 1 := rfl

@[simp] theorem updateDepth_extend :
    (h.extend leaf).updateDepth = h.updateDepth := rfl

@[simp] theorem appends_extend :
    (h.extend leaf).appends = h.appends.insert h.length leaf := rfl

@[simp] theorem length_truncate (newLength : Nat) :
    (h.truncate newLength).length = newLength := rfl

@[simp] theorem updateDepth_truncate (newLength : Nat) :
    (h.truncate newLength).updateDepth = min h.updateDepth newLength := rfl

end

/-- The node array: the base's nodes up to `updateDepth`, then the cached ones. -/
def nodesOver (h : HistoryCache) (below : List HistoryNode) : List HistoryNode :=
  below.take h.updateDepth ++
    (List.range' h.updateDepth (h.length - h.updateDepth)).map
      (fun i => (h.appends.lookup i).getD [])

/-- The cached positions are exactly those from `updateDepth` to the length. -/
structure Ok (h : HistoryCache) (below : List HistoryNode) : Prop where
  depth_le : h.updateDepth ≤ h.length
  depth_below : h.updateDepth ≤ below.length
  stored : ∀ i, (h.appends.lookup i).isSome ↔ h.updateDepth ≤ i ∧ i < h.length

variable {h : HistoryCache} {below : List HistoryNode}

theorem getElem?_nodesOver (ok : h.Ok below) (i : Nat) :
    (h.nodesOver below)[i]? = if h.length ≤ i then none
      else if h.updateDepth ≤ i then some ((h.appends.lookup i).getD []) else below[i]? := by
  obtain ⟨_, _, -⟩ := ok
  unfold nodesOver
  grind

theorem length_nodesOver (ok : h.Ok below) : (h.nodesOver below).length = h.length := by
  have depth := ok.depth_le
  have depthBelow := ok.depth_below
  simp only [nodesOver, length_append, length_take, length_map, length_range']
  omega

theorem ofBase_ok (below : List HistoryNode) (root : Uint256) :
    (ofBase below.length root).Ok below where
  depth_le := Nat.le_refl _
  depth_below := Nat.le_refl _
  stored i := by simp [ofBase]

theorem nodesOver_ofBase (below : List HistoryNode) (root : Uint256) :
    (ofBase below.length root).nodesOver below = below := by
  simp [nodesOver, ofBase]

theorem extend_ok (ok : h.Ok below) (leaf : HistoryNode) :
    (h.extend leaf).Ok below ∧ (h.extend leaf).nodesOver below = h.nodesOver below ++ [leaf] := by
  have extended : (h.extend leaf).Ok below := by
    obtain ⟨_, _⟩ := ok
    constructor <;> grind [length_extend, updateDepth_extend, appends_extend]
  refine ⟨extended, ext_getElem? fun i => ?_⟩
  have len := length_nodesOver ok
  rw [getElem?_nodesOver extended, length_extend, updateDepth_extend, appends_extend]
  grind [getElem?_nodesOver ok, ok.depth_le]

theorem truncate_ok (ok : h.Ok below) {newLength : Nat}
    (shorter : newLength ≤ h.length) : (h.truncate newLength).Ok below ∧
      (h.truncate newLength).nodesOver below = (h.nodesOver below).take newLength := by
  have lookups : ∀ i, (h.truncate newLength).appends.lookup i =
      if newLength ≤ i then none else h.appends.lookup i := by
    intro i
    have missing : h.length ≤ i → h.appends.lookup i = none := by
      rw [← not_isSome_iff_eq_none, ok.stored]
      omega
    simp only [truncate]
    split
    · rw [lookup_eraseFrom]
      grind
    · rw [lookup_empty, if_pos (by omega)]
  have truncated : (h.truncate newLength).Ok below := by
    obtain ⟨_, _⟩ := ok
    constructor <;> grind [length_truncate, updateDepth_truncate]
  refine ⟨truncated, ext_getElem? fun i => ?_⟩
  rw [getElem?_nodesOver truncated, lookups, getElem?_take, length_truncate, updateDepth_truncate]
  grind [getElem?_nodesOver ok]

theorem foldl_extend_ok (ok : h.Ok below) (added : List HistoryNode) :
    (added.foldl extend h).Ok below ∧
    (added.foldl extend h).nodesOver below = h.nodesOver below ++ added := by
  induction added generalizing h with
  | nil => exact ⟨ok, (append_nil _).symm⟩
  | cons leaf _ ih =>
    obtain ⟨extended, nodes⟩ := extend_ok ok leaf
    obtain ⟨restOk, restNodes⟩ := ih extended
    exact ⟨restOk, by rw [foldl_cons, restNodes, nodes, append_assoc, singleton_append]⟩

end HistoryCache

variable (appends : AList (fun _ : Nat => HistoryNode))

theorem CCoinsViewCache.extendFrom_eq (first count : Nat)
    (h : HistoryCache) : extendFrom appends first count h =
      ((range' first count).map (fun i => (appends.lookup i).getD [])).foldl
        HistoryCache.extend h := by
  induction count generalizing first h with
  | zero => rfl
  | succ _ ih => rw [extendFrom, ih, range'_succ, map_cons, foldl_cons]

/-- The flat state of one epoch: its node array and its root. -/
@[ext] structure EpochHistory where
  nodes : List HistoryNode
  root : Uint256
deriving DecidableEq, Repr

namespace EpochHistory

/-- `PushHistoryNode` on the flat state. -/
def push (lib : MMRLibrary) (epochId : Nat) (h : EpochHistory) (node : HistoryNode) :
    Option EpochHistory :=
  if h.nodes.length = 0 then (lib.hashNode epochId node).map (fun root => ⟨h.nodes ++ [node], root⟩)
  else
    (preloadHistoryTree h.nodes.length (fun i => h.nodes[i]?) false).map (fun loaded =>
      let answer := lib.append epochId h.nodes.length loaded.2 node
      ⟨h.nodes ++ answer.2, answer.1⟩)

/-- `PopHistoryNode` on the flat state. -/
def pop (lib : MMRLibrary) (epochId : Nat) (h : EpochHistory) : Option EpochHistory :=
  match h.nodes.length with
  | 0 | 1 => some ⟨[], 0⟩
  | 2 => none
  | 3 => ((h.nodes[0]?).bind (lib.hashNode epochId)).map (fun root => ⟨h.nodes.take 1, root⟩)
  | length =>
    (preloadHistoryTree length (fun i => h.nodes[i]?) true).map (fun loaded =>
      let answer := lib.delete epochId length loaded.2 loaded.1 (loaded.2.length - loaded.1)
      ⟨h.nodes.take (length - answer.2), answer.1⟩)

end EpochHistory

def CCoinsViewDB.historyNodes (db : CCoinsViewDB) (epochId : Nat) : List HistoryNode :=
  (List.range (db.getHistoryLength epochId)).map
    (fun i => (db.historyNode.lookup (epochId, i)).getD [])

/-- The node array and the root a stack of views stands for. -/
def CCoinsView.history (epochId : Nat) : CCoinsView → EpochHistory
  | .base db => ⟨db.historyNodes epochId, db.getHistoryRoot epochId⟩
  | .layer cache base =>
    match cache.historyCacheMap.lookup epochId with
    | some h => ⟨h.nodesOver (history epochId base).nodes, h.root⟩
    | none => history epochId base

def CCoinsView.HoldsHistory : CCoinsView → Nat → Prop :=
  Layers.Holds (fun cache epochId => cache.historyCacheMap.lookup epochId)

/-- A cache selects an epoch only together with every cache below it. -/
def HistoryCacheOk (cache : CCoinsViewCache) (below : CCoinsView) : Prop :=
  ∀ epochId h, cache.historyCacheMap.lookup epochId = some h →
    h.Ok (below.history epochId).nodes ∧ below.HoldsHistory epochId

def HistoryOk : CCoinsView → Prop :=
  Layers.Every HistoryCacheOk (fun db => ∀ epochId i, i < db.getHistoryLength epochId →
    (db.historyNode.lookup (epochId, i)).isSome)

structure HistoryFill (v v' : CCoinsView) : Prop where
  same : ∀ epochId, v'.history epochId = v.history epochId
  more : ∀ epochId, v.HoldsHistory epochId → v'.HoldsHistory epochId

variable {below : CCoinsView} {cache : CCoinsViewCache} {below' : CCoinsView}

theorem HistoryFill.cacheOk (fill : HistoryFill below below') (ok : HistoryCacheOk cache below) :
    HistoryCacheOk cache below' := by
  intro epochId h hit
  obtain ⟨entryOk, held⟩ := ok epochId h hit
  exact ⟨(congrArg EpochHistory.nodes (fill.same epochId)).symm ▸ entryOk, fill.more epochId held⟩

namespace CCoinsView

variable {epochId : Nat} {h : HistoryCache}

theorem history_hit
    (hit : cache.historyCacheMap.lookup epochId = some h) (below : CCoinsView) :
    history epochId (.layer cache below) = ⟨h.nodesOver (below.history epochId).nodes, h.root⟩ := by
  simp [history, hit]

theorem history_miss (miss : cache.historyCacheMap.lookup epochId = none) (below : CCoinsView) :
    history epochId (.layer cache below) = below.history epochId := by
  simp [history, miss]

theorem history_layer_congr {cache' : CCoinsViewCache}
    (same : cache'.historyCacheMap.lookup epochId = cache.historyCacheMap.lookup epochId)
    (rest : below'.history epochId = below.history epochId) :
    history epochId (.layer cache' below') = history epochId (.layer cache below) := by
  simp [history, same, rest]

theorem history_setHistory (cache : CCoinsViewCache) (below : CCoinsView) (epochId : Nat)
    (h : HistoryCache) (other : Nat) : history other (.layer (cache.setHistory epochId h) below) =
      if other = epochId then ⟨h.nodesOver (below.history epochId).nodes, h.root⟩
      else history other (.layer cache below) := by
  simp only [history, setHistory]
  grind

theorem historyCacheOk_setHistory
    (ok : HistoryCacheOk cache below) (entryOk : h.Ok (below.history epochId).nodes)
    (held : below.HoldsHistory epochId) : HistoryCacheOk (cache.setHistory epochId h) below := by
  intro _ _ hit
  simp only [setHistory] at hit
  grind [HistoryCacheOk]

structure SelectedHistory (epochId : Nat) (v : CCoinsView)
    (answer : (Nat × Uint256) × CCoinsView) : Prop where
  length : answer.1.1 = (v.history epochId).nodes.length
  root : answer.1.2 = (v.history epochId).root
  ok : HistoryOk answer.2
  fill : HistoryFill v answer.2
  held : answer.2.HoldsHistory epochId

theorem selectHistoryCache_spec (epochId : Nat) (v : CCoinsView) (ok : HistoryOk v) :
    SelectedHistory epochId v (selectHistoryCache epochId v) := by
  induction v with
  | base _ =>
    refine ⟨?_, rfl, ok, ⟨fun _ => rfl, fun _ held => held⟩, trivial⟩
    simp [selectHistoryCache, history, CCoinsViewDB.historyNodes]
  | layer cache below ih =>
    obtain ⟨cacheOk, belowOk⟩ := ok
    cases hit : cache.historyCacheMap.lookup epochId with
    | some h =>
      simp only [selectHistoryCache, hit]
      refine ⟨?_, ?_, ⟨cacheOk, belowOk⟩, ⟨fun _ => rfl, fun _ held => held⟩, ?_⟩
      · rw [history_hit hit, HistoryCache.length_nodesOver (cacheOk epochId h hit).1]
      · rw [history_hit hit]
      · simp [HoldsHistory, Layers.Holds, hit]
    | none =>
      obtain ⟨length, root, nextOk, fill, held⟩ := ih belowOk
      simp only [selectHistoryCache, hit]
      generalize selectHistoryCache epochId below = answer at *
      obtain ⟨⟨len, rt⟩, below'⟩ := answer
      simp only at length root nextOk fill held ⊢
      have missed := history_miss hit below
      have base_ok : (HistoryCache.ofBase len rt).Ok (below'.history epochId).nodes := by
        rw [length, ← fill.same]
        exact HistoryCache.ofBase_ok _ _
      have inserted : (cache.setHistory epochId (.ofBase len rt)).historyCacheMap.lookup epochId =
          some (.ofBase len rt) := lookup_insert _
      refine ⟨by rw [missed]; exact length, by rw [missed]; exact root,
        ⟨historyCacheOk_setHistory (fill.cacheOk cacheOk) base_ok held, nextOk⟩, ⟨?_, ?_⟩, ?_⟩
      · intro other
        rw [history_setHistory]
        by_cases epoch : other = epochId
        · subst epoch
          rw [if_pos rfl, missed, ← fill.same other]
          refine EpochHistory.ext ?_
            (root.trans (congrArg EpochHistory.root (fill.same other).symm))
          rw [length, ← fill.same]
          exact HistoryCache.nodesOver_ofBase _ _
        · rw [if_neg epoch]
          exact history_layer_congr rfl (fill.same other)
      · intro other heldBefore
        by_cases epoch : other = epochId
        · subst epoch
          simp [HoldsHistory, Layers.Holds, inserted]
        · simpa only [HoldsHistory, Layers.Holds, setHistory,
            lookup_insert_ne epoch] using heldBefore
      · simp [HoldsHistory, Layers.Holds, inserted]

theorem readHistoryAt_spec (epochId i : Nat) (v : CCoinsView) (ok : HistoryOk v) :
    readHistoryAt epochId i v = (v.history epochId).nodes[i]? := by
  induction v with
  | base db =>
    simp only [readHistoryAt, CCoinsViewDB.getHistoryAt, history, CCoinsViewDB.historyNodes]
    by_cases outside : db.getHistoryLength epochId ≤ i
    · rw [if_pos outside, getElem?_eq_none (by simpa using outside)]
    · have inside : i < db.getHistoryLength epochId := by omega
      obtain ⟨_, held⟩ := isSome_iff_exists.mp (ok epochId i inside)
      rw [if_neg outside, getElem?_map, getElem?_range inside]
      simp [held]
  | layer cache _ ih =>
    cases hit : cache.historyCacheMap.lookup epochId with
    | some h =>
      rw [history_hit hit, HistoryCache.getElem?_nodesOver (ok.1 epochId h hit).1]
      simp [readHistoryAt, hit, ih ok.2]
    | none =>
      rw [history_miss hit, ← ih ok.2]
      simp [readHistoryAt, hit]

/-- The outcome of an operation on one epoch: it stops where the flat operation stops, and
otherwise the stack stands for the flat result in that epoch and is unchanged elsewhere. -/
def HistoryOutcome (epochId : Nat) (v : CCoinsView) (flat : Option EpochHistory)
    (result : Option CCoinsView) : Prop :=
  match flat with
  | none => result = none
  | some target => ∃ v', result = some v' ∧ HistoryOk v' ∧
      ∀ other, history other v' = if other = epochId then target else history other v

private theorem updateHistory_outcome {v w : CCoinsView} (shape : w = .layer cache below)
    (ok : HistoryOk w) (fill : HistoryFill v w)
    (hit : cache.historyCacheMap.lookup epochId = some h) {f : HistoryCache → HistoryCache}
    {target : EpochHistory} (entryOk : (f h).Ok (below.history epochId).nodes)
    (nodes : (f h).nodesOver (below.history epochId).nodes = target.nodes)
    (root : (f h).root = target.root) :
    HistoryOutcome epochId v (some target) (updateHistory epochId f w) := by
  subst shape
  obtain ⟨cacheOk, belowOk⟩ := ok
  refine ⟨.layer (cache.setHistory epochId (f h)) below, ?_, ?_, fun _ => ?_⟩
  · simp [updateHistory, onTop, hit]
  · exact ⟨historyCacheOk_setHistory cacheOk entryOk (cacheOk epochId h hit).2, belowOk⟩
  · rw [history_setHistory, fill.same]
    split
    · exact EpochHistory.ext nodes root
    · rfl

/-- What the operations on an epoch work with once it is selected. -/
private theorem selected_layer (epochId : Nat) {v : CCoinsView} (top : v = .layer cache below)
    (ok : HistoryOk v) :
    ∃ (cache' : CCoinsViewCache) (below' : CCoinsView) (h : HistoryCache),
      (selectHistoryCache epochId v).2 = .layer cache' below' ∧
      cache'.historyCacheMap.lookup epochId = some h ∧
      h.Ok (below'.history epochId).nodes ∧
      (v.history epochId).nodes = h.nodesOver (below'.history epochId).nodes ∧
      (fun i => readHistoryAt epochId i (selectHistoryCache epochId v).2) =
        fun i => (v.history epochId).nodes[i]? := by
  obtain ⟨-, -, nextOk, fill, -⟩ := selectHistoryCache_spec epochId v ok
  have reads : (fun i => readHistoryAt epochId i (selectHistoryCache epochId v).2) =
      fun i => (v.history epochId).nodes[i]? :=
    funext fun i => by rw [readHistoryAt_spec epochId i _ nextOk, fill.same]
  obtain ⟨cache', below', h, shape, found⟩ :
      ∃ (cache' : CCoinsViewCache) (below' : CCoinsView) (h : HistoryCache),
      (selectHistoryCache epochId v).2 = .layer cache' below' ∧
        cache'.historyCacheMap.lookup epochId = some h := by
    subst top
    cases hit : cache.historyCacheMap.lookup epochId with
    | some h =>
      simp only [selectHistoryCache, hit]
      exact ⟨cache, below, h, rfl, hit⟩
    | none =>
      simp only [selectHistoryCache, hit]
      exact ⟨_, _, _, rfl, lookup_insert _⟩
  refine ⟨cache', below', h, shape, found, ?_, ?_, reads⟩
  · rw [shape] at nextOk
    exact (nextOk.1 epochId h found).1
  · rw [← fill.same, shape, history_hit found]

variable (lib : MMRLibrary)

theorem pushHistoryNode_spec (epochId : Nat) (node : HistoryNode)
    (ok : HistoryOk (.layer cache below)) :
    HistoryOutcome epochId (.layer cache below)
      ((history epochId (.layer cache below)).push lib epochId node)
      (pushHistoryNode lib epochId node (.layer cache below)) := by
  obtain ⟨length, -, nextOk, fill, -⟩ := selectHistoryCache_spec epochId _ ok
  obtain ⟨_, _, h, shape, hit, entryOk, current, reads⟩ := selected_layer epochId rfl ok
  simp only [pushHistoryNode, EpochHistory.push, reads, length]
  split
  · cases lib.hashNode epochId node with
    | none => exact (bind_none _)
    | some _ =>
      obtain ⟨extendedOk, nodes⟩ := HistoryCache.extend_ok entryOk node
      exact updateHistory_outcome shape nextOk fill hit
        { extendedOk with }
        (by rw [current]; exact nodes) rfl
  · cases preloadHistoryTree _ _ false with
    | none => exact (bind_none _)
    | some loaded =>
      obtain ⟨extendedOk, nodes⟩ := HistoryCache.foldl_extend_ok entryOk
        (lib.append epochId (history epochId (.layer cache below)).nodes.length loaded.2 node).2
      exact updateHistory_outcome shape nextOk fill hit
        { extendedOk with }
        (by rw [current] at nodes ⊢; exact nodes) rfl

theorem popHistoryNode_spec (epochId : Nat) (ok : HistoryOk (.layer cache below)) :
    HistoryOutcome epochId (.layer cache below)
      ((history epochId (.layer cache below)).pop lib epochId)
        (popHistoryNode lib epochId (.layer cache below)) := by
  obtain ⟨length, -, nextOk, fill, -⟩ := selectHistoryCache_spec epochId _ ok
  obtain ⟨_, _, h, shape, hit, entryOk, current, reads⟩ := selected_layer epochId rfl ok
  have cached : h.length = (history epochId (.layer cache below)).nodes.length := by
    rw [current, HistoryCache.length_nodesOver entryOk]
  -- Every branch cuts the array at a position inside it and stores a root.
  have cut : ∀ (newLength : Nat) (root : Uint256), newLength ≤ h.length →
      ∀ f : HistoryCache → HistoryCache, f h = { h.truncate newLength with root := root } →
      HistoryOutcome epochId (.layer cache below)
        (some ⟨(history epochId (.layer cache below)).nodes.take newLength, root⟩)
        (updateHistory epochId f (selectHistoryCache epochId (.layer cache below)).2) := by
    intro _ _ shorter f cuts
    obtain ⟨truncatedOk, nodes⟩ := HistoryCache.truncate_ok entryOk shorter
    refine updateHistory_outcome shape nextOk fill hit ?_ ?_ ?_
    · rw [cuts]
      exact { truncatedOk with }
    · rw [cuts, current]
      exact nodes
    · rw [cuts]
  simp only [popHistoryNode, EpochHistory.pop, length]
  generalize (history epochId (.layer cache below)).nodes.length = len at *
  have emptied := cut 0 0 (Nat.zero_le _) (fun h => { h.truncate 0 with root := 0 }) rfl
  rw [take_zero] at emptied
  rcases len with _ | _ | _ | _ | n
  · exact emptied
  · exact emptied
  · rfl
  · simp only [congrFun reads 0]
    cases ((history epochId (.layer cache below)).nodes[0]?).bind (lib.hashNode epochId) with
    | none => exact (bind_none _)
    | some root => exact cut 1 root (by omega) _ rfl
  · simp only [reads]
    cases preloadHistoryTree (n + 4) _ true with
    | none => exact (bind_none _)
    | some loaded =>
      simp only [bind_some, map_some]
      generalize lib.delete epochId (n + 4) loaded.2 loaded.1 (loaded.2.length - loaded.1) = answer
      exact cut (n + 4 - answer.2) answer.1 (by omega)
        (fun h => { h.truncate (h.length - answer.2) with root := answer.1 }) (by rw [cached])

end CCoinsView

/-! Writing a child's epochs into its parent -/

def CCoinsViewCache.mergedHistory (historyIn : HistoryCache) :
    Option HistoryCache → Option HistoryCache
  | some history => some { extendFrom historyIn.appends historyIn.updateDepth
      (historyIn.length - historyIn.updateDepth) (history.truncate historyIn.updateDepth) with
      root := historyIn.root }
  | none => some historyIn

private theorem length_extendFrom (first count : Nat)
    (h : HistoryCache) : (extendFrom appends first count h).length = h.length + count := by
  induction count generalizing first h with
  | zero => rfl
  | succ _ ih =>
    rw [CCoinsViewCache.extendFrom, ih, HistoryCache.length_extend]
    omega

theorem CCoinsViewCache.writeHistory_local : KeyLocalM writeHistory
    (fun historyIn _ => historyIn.updateDepth ≤ historyIn.length) (fun _ => mergedHistory) := by
  refine ⟨fun m epochId historyIn _ => ?_⟩
  unfold writeHistory mergedHistory
  cases hit : m.lookup epochId with
  | none => exact ⟨_, rfl, lookup_insert _, fun k key => lookup_insert_ne key⟩
  | some history =>
    have lengths : (extendFrom historyIn.appends historyIn.updateDepth
        (historyIn.length - historyIn.updateDepth)
        (history.truncate historyIn.updateDepth)).length = historyIn.length := by
      rw [length_extendFrom, HistoryCache.length_truncate]
      omega
    simp only [lengths, ↓reduceIte]
    exact ⟨_, rfl, lookup_insert _, fun k key => lookup_insert_ne key⟩

/-- `BatchWriteHistory` into a cache: its assertion holds and the parent afterwards stands
for what the child stood for. -/
theorem mergeHistory_spec {child parent : CCoinsViewCache} {base : CCoinsView}
    (ok : HistoryOk (.layer child (.layer parent base))) :
    ∃ merged, child.historyCacheMap.entries.foldlM
        (fun m e => writeHistory m e.1 e.2) parent.historyCacheMap = some merged ∧
      ∀ parent' : CCoinsViewCache, parent'.historyCacheMap = merged →
        HistoryOk (.layer parent' base) ∧ ∀ epochId, history epochId (.layer parent' base) =
          history epochId (.layer child (.layer parent base)) := by
  obtain ⟨childOk, parentOk, baseOk⟩ := ok
  obtain ⟨merged, folded, lookups⟩ := writeHistory_local.lookup_foldlM
    child.historyCacheMap parent.historyCacheMap
      (fun epochId h hit => (childOk epochId h hit).1.depth_le)
  refine ⟨merged, folded, fun parent' out => ?_⟩
  subst out
  -- A written epoch: the parent has it too, cut at the child's depth and extended again.
  have atEpoch : ∀ epochId hIn, child.historyCacheMap.lookup epochId = some hIn →
      ∃ h', parent'.historyCacheMap.lookup epochId = some h' ∧ h'.Ok (base.history epochId).nodes ∧
        base.HoldsHistory epochId ∧ h'.root = hIn.root ∧
        h'.nodesOver (base.history epochId).nodes =
          hIn.nodesOver (history epochId (.layer parent base)).nodes := by
    intro epochId hIn hit
    obtain ⟨inOk, held⟩ := childOk epochId hIn hit
    obtain ⟨h, selected⟩ : ∃ h, parent.historyCacheMap.lookup epochId = some h :=
      isSome_iff_exists.mp held
    obtain ⟨hOk, baseHeld⟩ := parentOk epochId h selected
    have parentNodes := history_hit selected base
    rw [parentNodes] at inOk
    have shorter : hIn.updateDepth ≤ h.length := by
      have depth := inOk.depth_below
      rwa [HistoryCache.length_nodesOver hOk] at depth
    obtain ⟨cutOk, cutNodes⟩ := HistoryCache.truncate_ok hOk shorter
    obtain ⟨grownOk, grownNodes⟩ := HistoryCache.foldl_extend_ok cutOk
      ((range' hIn.updateDepth (hIn.length - hIn.updateDepth)).map
        (fun i => (hIn.appends.lookup i).getD []))
    rw [← extendFrom_eq] at grownOk grownNodes
    refine ⟨{ extendFrom hIn.appends hIn.updateDepth (hIn.length - hIn.updateDepth)
        (h.truncate hIn.updateDepth) with root := hIn.root },
      (lookups epochId).trans ((mergedLookup_some hit).trans (by rw [selected]; rfl)),
      { grownOk with }, baseHeld, rfl, ?_⟩
    refine Eq.trans grownNodes ?_
    rw [parentNodes, cutNodes]
    rfl
  refine ⟨⟨fun epochId h' hit' => ?_, baseOk⟩, fun epochId => ?_⟩
  · cases hit : child.historyCacheMap.lookup epochId with
    | none =>
      rw [lookups, mergedLookup_none hit] at hit'
      exact parentOk epochId h' hit'
    | some hIn =>
      obtain ⟨h, stored, hOk, held, -⟩ := atEpoch epochId hIn hit
      rw [stored] at hit'
      cases hit'
      exact ⟨hOk, held⟩
  · cases hit : child.historyCacheMap.lookup epochId with
    | none =>
      rw [history_miss hit]
      exact history_layer_congr ((lookups epochId).trans (mergedLookup_none hit)) rfl
    | some hIn =>
      obtain ⟨h, stored, -, -, root, nodes⟩ := atEpoch epochId hIn hit
      rw [history_hit hit, history_hit stored]
      exact EpochHistory.ext nodes root

namespace CCoinsViewDB

theorem lookup_writeHistoryNodes (nodes : AList (fun _ : Nat × Nat => HistoryNode)) (epochId : Nat)
    (h : HistoryCache) (key : Nat × Nat) : (writeHistoryNodes nodes epochId h).lookup key =
      if key.1 = epochId then (h.appends.lookup key.2).or (nodes.lookup key)
      else nodes.lookup key := by
  unfold writeHistoryNodes
  rw [lookup_foldl_region Prod.snd (fun m i node => m.insert (epochId, i) node)
    (fun key node held => if key.1 = epochId then some node else held)]
  · cases h.appends.lookup key.2 <;> simp
  · intro m _ _
    grind
  · intro m i _ _ other
    exact lookup_insert_ne (fun same => other (congrArg Prod.snd same))

theorem insert_local {V : Type} {value : HistoryCache → V} :
    KeyLocal (fun (m : AList (fun _ : Nat => V)) k v => m.insert k (value v))
      (fun _ v _ => some (value v)) :=
  ⟨fun _ _ _ => lookup_insert _, fun _ _ _ _ key => lookup_insert_ne key⟩

section

variable (H : ShieldedType → MerkleHash) (db : CCoinsViewDB) (child : CCoinsViewCache)
  (epochId : Nat)

theorem batchWrite_historyLength : (db.batchWrite H child).getHistoryLength epochId =
    match child.historyCacheMap.lookup epochId with
    | some h => h.length
    | none => db.getHistoryLength epochId := by
  unfold getHistoryLength batchWrite
  simp only [(insert_local).lookup_foldl, mergedLookup]
  cases child.historyCacheMap.lookup epochId <;> rfl

theorem batchWrite_historyRoot : (db.batchWrite H child).getHistoryRoot epochId =
    match child.historyCacheMap.lookup epochId with
    | some h => h.root
    | none => db.getHistoryRoot epochId := by
  unfold getHistoryRoot batchWrite
  simp only [(insert_local).lookup_foldl, mergedLookup]
  cases child.historyCacheMap.lookup epochId <;> rfl

theorem batchWrite_historyNode (i : Nat) : (db.batchWrite H child).historyNode.lookup (epochId, i) =
    match child.historyCacheMap.lookup epochId with
    | some h => (h.appends.lookup i).or (db.historyNode.lookup (epochId, i))
    | none => db.historyNode.lookup (epochId, i) := by
  have out := lookup_foldl_region Prod.fst writeHistoryNodes
    (fun key h held => (h.appends.lookup key.2).or held)
    (fun m h key => by rw [lookup_writeHistoryNodes, if_pos rfl])
    (fun m e h key other => by rw [lookup_writeHistoryNodes, if_neg other])
    child.historyCacheMap db.historyNode (epochId, i)
  refine Eq.trans out ?_
  cases child.historyCacheMap.lookup epochId <;> rfl

end

theorem getElem?_historyNodes (db : CCoinsViewDB) (epochId i : Nat) :
    (db.historyNodes epochId)[i]? = if db.getHistoryLength epochId ≤ i then none
      else some ((db.historyNode.lookup (epochId, i)).getD []) := by
  unfold historyNodes
  by_cases outside : db.getHistoryLength epochId ≤ i
  · rw [if_pos outside, getElem?_eq_none (by simpa using outside)]
  · rw [if_neg outside, getElem?_map, getElem?_range (by omega)]
    rfl

theorem batchWrite_history (H : ShieldedType → MerkleHash) {child : CCoinsViewCache}
    {db : CCoinsViewDB} (ok : HistoryOk (.layer child (.base db))) :
    HistoryOk (.base (db.batchWrite H child)) ∧ ∀ epochId,
      history epochId (.base (db.batchWrite H child)) =
        history epochId (.layer child (.base db)) := by
  obtain ⟨childOk, dbOk⟩ := ok
  have cached : ∀ epochId h, child.historyCacheMap.lookup epochId = some h →
      h.Ok (db.historyNodes epochId) :=
    fun epochId h hit => (childOk epochId h hit).1
  have depth : ∀ epochId h, child.historyCacheMap.lookup epochId = some h →
      h.updateDepth ≤ db.getHistoryLength epochId := by
    intro epochId h hit
    simpa [historyNodes] using (cached epochId h hit).depth_below
  refine ⟨fun epochId i inside => ?_, fun epochId => ?_⟩
  · rw [batchWrite_historyLength] at inside
    rw [batchWrite_historyNode]
    have kept := dbOk epochId i
    cases hit : child.historyCacheMap.lookup epochId with
    | none => simp_all
    | some h =>
      grind [(cached epochId h hit).stored i]
  · refine EpochHistory.ext (ext_getElem? fun i => ?_) ?_
    · change ((db.batchWrite H child).historyNodes epochId)[i]? = _
      rw [getElem?_historyNodes, batchWrite_historyLength, batchWrite_historyNode]
      cases hit : child.historyCacheMap.lookup epochId with
      | none =>
        rw [history_miss hit]
        exact (getElem?_historyNodes db epochId i).symm
      | some h =>
        rw [history_hit hit]
        refine Eq.trans ?_ (HistoryCache.getElem?_nodesOver (cached epochId h hit) i).symm
        have held := (cached epochId h hit).stored i
        cases node : h.appends.lookup i <;> grind [getElem?_historyNodes db epochId i]
    · refine Eq.trans (batchWrite_historyRoot H db child epochId) ?_
      cases hit : child.historyCacheMap.lookup epochId with
      | none => rw [history_miss hit]; rfl
      | some h => rw [history_hit hit]

end CCoinsViewDB

end Zcashd.Source
