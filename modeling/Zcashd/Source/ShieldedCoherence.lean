import Zcashd.Source.ViewFrames

/-!
The shielded members of the view stack: anchors, best anchors and nullifiers
(`src/coins.cpp:134-203`, `:230-300`, `:566-634`). `pools` is the flat state a
stack stands for; each method is shown to act on it as the same operation acts on a plain
map, root and set.

Anchors are keyed by their tree's root, so no two trees in play may share one; `TreesInPlay`
is that assumption, restricted to the trees that occur.
-/
namespace Zcashd.Source

open Lib CCoinsViewCache Function CCoinsView

/-- One pool of the flat state: a map from root to tree, the best root and the nullifiers. -/
@[ext] structure PoolState where
  anchors : Uint256 → Option IncrementalMerkleTree
  best : Uint256
  nullifiers : Uint256 → Bool

namespace PoolState

def pushAnchor (H : MerkleHash) (s : PoolState) (tree : IncrementalMerkleTree) : PoolState :=
  if s.best ≠ tree.root H then
    { s with anchors := update s.anchors (tree.root H) (some tree), best := tree.root H }
  else s

def popAnchor (s : PoolState) (newrt : Uint256) : PoolState :=
  if s.best ≠ newrt then { s with anchors := update s.anchors s.best none, best := newrt }
  else s

def setNullifiers (s : PoolState) (nfs : List Uint256) (spent : Bool) : PoolState :=
  { s with nullifiers := fun nf => if nf ∈ nfs then spent else s.nullifiers nf }

end PoolState

/-- The trees that occur in a run: no two share a root, no root is null, and the empty
tree, which the database always knows, is one of them. -/
structure TreesInPlay (H : ShieldedType → MerkleHash)
    (T : ShieldedType → Set IncrementalMerkleTree) : Prop where
  injective : ∀ type, Set.InjOn (IncrementalMerkleTree.root (H type)) (T type)
  not_null : ∀ type, ∀ t ∈ T type, t.root (H type) ≠ 0
  empty_mem : ∀ type, IncrementalMerkleTree.empty ∈ T type

def CAnchorsCacheEntry.value (entry : CAnchorsCacheEntry) : Option IncrementalMerkleTree :=
  if entry.entered then some entry.tree else none

section

variable (H : ShieldedType → MerkleHash) (T : ShieldedType → Set IncrementalMerkleTree)

def CCoinsView.anchorAt (type : ShieldedType) :
    CCoinsView → Uint256 → Option IncrementalMerkleTree :=
  Layers.visible (fun cache rt => (cache.cacheAnchors type).lookup rt) CAnchorsCacheEntry.value
    (fun db rt => db.getAnchorAt H type rt)

def CCoinsView.nullifierAt (type : ShieldedType) : CCoinsView → Uint256 → Bool :=
  Layers.visible (fun cache nf => (cache.cacheNullifiers type).lookup nf)
    CNullifiersCacheEntry.entered (fun db nf => db.getNullifier type nf)

/-- A null hash means that the cache has not read its base yet. -/
def CCoinsView.bestAt (type : ShieldedType) : CCoinsView → Uint256
  | .base db => db.getBestAnchor H type
  | .layer cache base =>
    if (cache.hashAnchor type).isNull then bestAt type base else cache.hashAnchor type

def CCoinsView.pools (v : CCoinsView) (type : ShieldedType) : PoolState :=
  ⟨v.anchorAt H type, v.bestAt H type, v.nullifierAt type⟩

def Rooted (type : ShieldedType) (rt : Uint256) (tree : IncrementalMerkleTree) : Prop :=
  tree ∈ T type ∧ tree.root (H type) = rt

structure AnchorEntryOk (type : ShieldedType) (below : CCoinsView) (rt : Uint256)
    (entry : CAnchorsCacheEntry) : Prop where
  rooted : Rooted H T type rt entry.tree
  unchanged : entry.dirty = false → entry.value = below.anchorAt H type rt

/-- An unmodified nullifier entry is what lies below. -/
def NullifiersCacheOk (cache : CCoinsViewCache) (below : CCoinsView) : Prop :=
  ∀ type nf entry, (cache.cacheNullifiers type).lookup nf = some entry →
    entry.dirty = false → entry.entered = below.nullifierAt type nf

structure ShieldedCacheOk (cache : CCoinsViewCache) (below : CCoinsView) : Prop where
  anchors : ∀ type rt entry, (cache.cacheAnchors type).lookup rt = some entry →
    AnchorEntryOk H T type below rt entry
  nullifiers : NullifiersCacheOk cache below

def NullifiersOk : CCoinsView → Prop := Layers.Every NullifiersCacheOk (fun _ => True)

def ShieldedOk : CCoinsView → Prop :=
  Layers.Every (ShieldedCacheOk H T)
    (fun db => ∀ type rt tree, db.getAnchorAt H type rt = some tree → Rooted H T type rt tree)

end

variable {H : ShieldedType → MerkleHash} {T : ShieldedType → Set IncrementalMerkleTree}
  {cache : CCoinsViewCache} {below : CCoinsView} {below' : CCoinsView}

theorem ShieldedCacheOk.congr (ok : ShieldedCacheOk H T cache below)
    (same : below'.pools H = below.pools H) :
    ShieldedCacheOk H T cache below' where
  anchors type rt entry hit := by
    have sameAt : below'.anchorAt H type = below.anchorAt H type :=
      congrArg PoolState.anchors (congrFun same type)
    exact ⟨(ok.anchors type rt entry hit).rooted, sameAt ▸ (ok.anchors type rt entry hit).unchanged⟩
  nullifiers type nf entry hit := by
    have sameAt : below'.nullifierAt type = below.nullifierAt type :=
      congrArg PoolState.nullifiers (congrFun same type)
    exact sameAt ▸ ok.nullifiers type nf entry hit

namespace CCoinsView

variable {type : ShieldedType}

theorem anchorAt_hit {rt : Uint256}
    {entry : CAnchorsCacheEntry} (hit : (cache.cacheAnchors type).lookup rt = some entry)
    (below : CCoinsView) : anchorAt H type (.layer cache below) rt = entry.value := by
  simp [anchorAt, Layers.visible, hit]

theorem anchorAt_miss {rt : Uint256}
    (miss : (cache.cacheAnchors type).lookup rt = none) (below : CCoinsView) :
    anchorAt H type (.layer cache below) rt = below.anchorAt H type rt := by
  simp [anchorAt, Layers.visible, miss]

variable {nf : Uint256} {entry : CNullifiersCacheEntry}

theorem nullifierAt_hit
    (hit : (cache.cacheNullifiers type).lookup nf = some entry)
    (below : CCoinsView) : nullifierAt type (.layer cache below) nf = entry.entered := by
  simp [nullifierAt, Layers.visible, hit]

theorem nullifierAt_miss (miss : (cache.cacheNullifiers type).lookup nf = none)
    (below : CCoinsView) :
    nullifierAt type (.layer cache below) nf = below.nullifierAt type nf := by
  simp [nullifierAt, Layers.visible, miss]

end CCoinsView

variable {type : ShieldedType} {rt : Uint256} {v : CCoinsView} {tree : IncrementalMerkleTree}

/-- Every anchor a view shows is a tree in play, under its own root. -/
theorem ShieldedOk.rooted (ok : ShieldedOk H T v) (shown : v.anchorAt H type rt = some tree) :
    Rooted H T type rt tree := by
  induction v with
  | base _ => exact ok type rt tree shown
  | layer cache _ ih =>
    cases hit : (cache.cacheAnchors type).lookup rt with
    | none =>
      rw [anchorAt_miss hit] at shown
      exact ih ok.2 shown
    | some entry =>
      rw [anchorAt_hit hit, CAnchorsCacheEntry.value] at shown
      split at shown
      · cases shown
        exact (ok.1.anchors type rt entry hit).rooted
      · cases shown

namespace CCoinsView

theorem pools_layer_congr
    (same : below'.pools H = below.pools H) :
    pools H (.layer cache below') = pools H (.layer cache below) := by
  funext type
  have sameAt := congrFun same type
  refine PoolState.ext (funext fun rt => ?_) ?_ (funext fun nf => ?_)
  · exact Layers.visible_layer_congr rfl (congrFun (congrArg PoolState.anchors sameAt) rt)
  · have best : below'.bestAt H type = below.bestAt H type := congrArg PoolState.best sameAt
    simp [pools, bestAt, best]
  · exact Layers.visible_layer_congr rfl (congrFun (congrArg PoolState.nullifiers sameAt) nf)

/-! Changes of one member of the top cache -/

theorem pools_setAnchor (cache : CCoinsViewCache) (below : CCoinsView) (type : ShieldedType)
    (rt : Uint256) (entry : CAnchorsCacheEntry) :
    pools H (.layer (cache.setAnchor type rt entry) below) =
      update (pools H (.layer cache below)) type
        { pools H (.layer cache below) type with
          anchors := update (pools H (.layer cache below) type).anchors rt entry.value } := by
  refine eq_update_iff.mpr ⟨PoolState.ext (funext fun k => ?_) rfl rfl,
    fun other pool => PoolState.ext (funext fun k => ?_) rfl rfl⟩
  · simp only [pools, anchorAt, Layers.visible, setAnchor, update_self]
    grind [update_apply]
  · simp [pools, anchorAt, Layers.visible, setAnchor, pool]

theorem pools_setHashAnchor (cache : CCoinsViewCache) (below : CCoinsView) (type : ShieldedType)
    (rt : Uint256) :
    pools H (.layer (cache.setHashAnchor type rt) below) =
      update (pools H (.layer cache below)) type
        { pools H (.layer cache below) type with
          best := if rt.isNull then below.bestAt H type else rt } := by
  refine eq_update_iff.mpr ⟨PoolState.ext rfl ?_ rfl, fun other pool => PoolState.ext rfl ?_ rfl⟩
  · simp [pools, bestAt, setHashAnchor]
  · simp [pools, bestAt, setHashAnchor, pool]

theorem pools_setNullifier (cache : CCoinsViewCache) (below : CCoinsView) (type : ShieldedType)
    (nf : Uint256) (entry : CNullifiersCacheEntry) :
    pools H (.layer (cache.setNullifier type nf entry) below) =
      update (pools H (.layer cache below)) type
        { pools H (.layer cache below) type with
          nullifiers :=
            update (pools H (.layer cache below) type).nullifiers nf entry.entered } := by
  refine eq_update_iff.mpr ⟨PoolState.ext rfl rfl (funext fun k => ?_),
    fun other pool => PoolState.ext rfl rfl (funext fun k => ?_)⟩
  · simp only [pools, nullifierAt, Layers.visible, setNullifier, update_self]
    grind [update_apply]
  · simp [pools, nullifierAt, Layers.visible, setNullifier, pool]

theorem cacheOk_setAnchor {entry : CAnchorsCacheEntry} (ok : ShieldedCacheOk H T cache below)
    (entryOk : AnchorEntryOk H T type below rt entry) :
    ShieldedCacheOk H T (cache.setAnchor type rt entry) below := by
  refine ⟨fun _ k e hit => ?_, ok.nullifiers⟩
  simp only [setAnchor, update_apply] at hit
  grind [ok.anchors]

theorem nullifiersCacheOk_setNullifier (ok : NullifiersCacheOk cache below)
    (entryOk : entry.dirty = false → entry.entered = below.nullifierAt type nf) :
    NullifiersCacheOk (cache.setNullifier type nf entry) below := by
  intro _ k e hit
  simp only [setNullifier, update_apply] at hit
  grind [NullifiersCacheOk]

/-! Readers: what they answer does not depend on the caches being in order. -/

theorem getAnchorAt_reads (type : ShieldedType) (rt : Uint256) (v : CCoinsView) :
    (getAnchorAt H type rt v).1 = v.anchorAt H type rt ∧
    pools H (getAnchorAt H type rt v).2 = pools H v := by
  induction v with
  | base _ => exact ⟨rfl, rfl⟩
  | layer cache below ih =>
    obtain ⟨value, same⟩ := ih
    cases hit : (cache.cacheAnchors type).lookup rt with
    | some _ =>
      simp only [getAnchorAt, hit]
      exact ⟨(anchorAt_hit hit below).symm, trivial⟩
    | none =>
      simp only [getAnchorAt, hit]
      have missed : anchorAt H type (.layer cache below) rt = anchorAt H type below rt :=
        anchorAt_miss hit below
      cases answer : getAnchorAt H type rt below with
      | mk found _ =>
        rw [answer] at value same
        cases found with
        | none => exact ⟨value.trans missed.symm, pools_layer_congr same⟩
        | some tree =>
          refine ⟨value.trans missed.symm, ?_⟩
          rw [pools_setAnchor, pools_layer_congr same]
          have already : (pools H (.layer cache below) type).anchors rt = some tree :=
            missed.trans value.symm
          rw [show CAnchorsCacheEntry.value ⟨true, tree, false⟩ = some tree from rfl, ← already,
            update_eq_self, update_eq_self]

theorem getNullifier_reads (type : ShieldedType) (nf : Uint256) (v : CCoinsView) :
    (getNullifier type nf v).1 = v.nullifierAt type nf ∧
    pools H (getNullifier type nf v).2 = pools H v := by
  induction v with
  | base _ => exact ⟨rfl, rfl⟩
  | layer cache below ih =>
    obtain ⟨value, same⟩ := ih
    cases hit : (cache.cacheNullifiers type).lookup nf with
    | some _ =>
      simp only [getNullifier, hit]
      exact ⟨(nullifierAt_hit hit below).symm, trivial⟩
    | none =>
      simp only [getNullifier, hit]
      have missed := nullifierAt_miss hit below
      refine ⟨value.trans missed.symm, ?_⟩
      rw [pools_setNullifier, pools_layer_congr same]
      have already :
          (pools H (.layer cache below) type).nullifiers nf = (getNullifier type nf below).1 :=
        missed.trans value.symm
      simp [← already]

theorem getBestAnchor_reads (type : ShieldedType) (v : CCoinsView) :
    (getBestAnchor H type v).1 = v.bestAt H type ∧
    pools H (getBestAnchor H type v).2 = pools H v := by
  induction v with
  | base _ => exact ⟨rfl, rfl⟩
  | layer cache below ih =>
    obtain ⟨value, same⟩ := ih
    by_cases unread : (cache.hashAnchor type).isNull = true
    · simp only [getBestAnchor, unread, ↓reduceIte]
      have missed : bestAt H type (.layer cache below) = bestAt H type below := by
        simp [bestAt, unread]
      have best : bestAt H type (getBestAnchor H type below).2 = (getBestAnchor H type below).1 :=
        (congrArg PoolState.best (congrFun same type)).trans value.symm
      refine ⟨value.trans missed.symm, ?_⟩
      rw [pools_setHashAnchor, pools_layer_congr same, best, ite_self]
      have already : (pools H (.layer cache below) type).best = (getBestAnchor H type below).1 :=
        missed.trans value.symm
      simp [← already]
    · simp only [getBestAnchor, unread, Bool.false_eq_true, ↓reduceIte]
      refine ⟨?_, trivial⟩
      simp [bestAt, unread]

theorem getAnchorAt_ok (type : ShieldedType) (rt : Uint256) (ok : ShieldedOk H T v) :
    ShieldedOk H T (getAnchorAt H type rt v).2 := by
  induction v with
  | base _ => exact ok
  | layer cache below ih =>
    obtain ⟨cacheOk, belowOk⟩ := ok
    have nextOk := ih belowOk
    obtain ⟨value, same⟩ := getAnchorAt_reads (H := H) type rt below
    have layerOk := cacheOk.congr same
    cases hit : (cache.cacheAnchors type).lookup rt with
    | some _ =>
      simp only [getAnchorAt, hit]
      exact ⟨cacheOk, belowOk⟩
    | none =>
      simp only [getAnchorAt, hit]
      cases answer : getAnchorAt H type rt below with
      | mk found _ =>
        rw [answer] at value nextOk same layerOk
        cases found with
        | none => exact ⟨layerOk, nextOk⟩
        | some _ =>
          have shown :=
            (congrFun (congrArg PoolState.anchors (congrFun same type)) rt).trans value.symm
          exact ⟨cacheOk_setAnchor layerOk ⟨nextOk.rooted shown, fun _ => shown.symm⟩, nextOk⟩

theorem nullifiersCacheOk_read (H : ShieldedType → MerkleHash) (ok : NullifiersCacheOk cache below)
    (type : ShieldedType) (nf : Uint256) :
    NullifiersCacheOk (cache.setNullifier type nf ⟨(getNullifier type nf below).1, false⟩)
      (getNullifier type nf below).2 := by
  obtain ⟨value, same⟩ := getNullifier_reads (H := H) type nf below
  have sameAt : ∀ other, nullifierAt other (getNullifier type nf below).2 =
      nullifierAt other below :=
    fun other => congrArg PoolState.nullifiers (congrFun same other)
  apply nullifiersCacheOk_setNullifier
  · intro other k entry hit
    rw [sameAt]
    exact ok other k entry hit
  · intro _
    rw [sameAt]
    exact value

theorem getNullifier_ok (type : ShieldedType) (nf : Uint256) (ok : ShieldedOk H T v) :
    ShieldedOk H T (getNullifier type nf v).2 := by
  induction v with
  | base _ => exact ok
  | layer cache below ih =>
    obtain ⟨cacheOk, belowOk⟩ := ok
    unfold getNullifier
    split
    · exact ⟨cacheOk, belowOk⟩
    · have layerOk := cacheOk.congr (getNullifier_reads (H := H) type nf below).2
      exact ⟨⟨layerOk.anchors, nullifiersCacheOk_read H cacheOk.nullifiers type nf⟩, ih belowOk⟩

theorem getBestAnchor_ok (type : ShieldedType) (ok : ShieldedOk H T v) :
    ShieldedOk H T (getBestAnchor H type v).2 := by
  induction v with
  | base _ => exact ok
  | layer _ below ih =>
    obtain ⟨cacheOk, belowOk⟩ := ok
    simp only [getBestAnchor]
    split
    · have layerOk := cacheOk.congr (getBestAnchor_reads (H := H) type below).2
      exact ⟨{ layerOk with }, ih belowOk⟩
    · exact ⟨cacheOk, belowOk⟩

/-! Writers -/

private theorem isNull_eq_false {h : Uint256} (notNull : h ≠ 0) : h.isNull = false :=
  beq_eq_false_iff_ne.mpr notNull

theorem getBestAnchor_layer (type : ShieldedType) (cache : CCoinsViewCache) (below : CCoinsView) :
    ∃ cache' below', (getBestAnchor H type (.layer cache below)).2 = .layer cache' below' := by
  simp only [getBestAnchor]
  split
  · exact ⟨_, _, rfl⟩
  · exact ⟨_, _, rfl⟩

theorem pushAnchor_defined (type : ShieldedType) (tree : IncrementalMerkleTree)
    (cache : CCoinsViewCache) (below : CCoinsView) :
    ∃ v', pushAnchor H type tree (.layer cache below) = some v' := by
  obtain ⟨_, _, shape⟩ := getBestAnchor_layer (H := H) type cache below
  simp only [pushAnchor, shape]
  exact ⟨_, rfl⟩

variable {v' : CCoinsView}

theorem pushAnchor_spec (play : TreesInPlay H T) (mem : tree ∈ T type) (ok : ShieldedOk H T v)
    (ran : pushAnchor H type tree v = some v') : ShieldedOk H T v' ∧
      pools H v' = update (pools H v) type ((pools H v type).pushAnchor (H type) tree) := by
  obtain ⟨value, same⟩ := getBestAnchor_reads (H := H) type v
  have nextOk := getBestAnchor_ok type ok
  have best : (pools H v type).best = (getBestAnchor H type v).1 := value.symm
  simp only [pushAnchor] at ran
  cases shape : (getBestAnchor H type v).2 with
  | base _ => rw [shape] at ran; cases ran
  | layer _ below =>
    rw [shape] at ran nextOk same
    cases ran
    rw [PoolState.pushAnchor, best, ← same]
    split
    · have entryOk : AnchorEntryOk H T type below (tree.root (H type)) ⟨true, tree, true⟩ :=
        ⟨⟨mem, rfl⟩, by rintro ⟨⟩⟩
      have cacheOk := cacheOk_setAnchor nextOk.1 entryOk
      refine ⟨⟨{ cacheOk with }, nextOk.2⟩, ?_⟩
      rw [pools_setHashAnchor, pools_setAnchor, update_idem, update_self,
        isNull_eq_false (play.not_null type tree mem)]
      rfl
    · exact ⟨nextOk, (update_eq_self type _).symm⟩

/-- Reading an anchor that is there leaves it in the top cache, entered. -/
private theorem getAnchorAt_top
    (found : (getAnchorAt H type rt (.layer cache below)).1 = some tree) :
    ∃ cache' below' entry, (getAnchorAt H type rt (.layer cache below)).2 = .layer cache' below' ∧
      (cache'.cacheAnchors type).lookup rt = some entry := by
  cases hit : (cache.cacheAnchors type).lookup rt with
  | some entry =>
    simp only [getAnchorAt, hit]
    exact ⟨cache, below, entry, rfl, hit⟩
  | none =>
    simp only [getAnchorAt, hit] at found ⊢
    cases answer : getAnchorAt H type rt below with
    | mk value below' =>
      rw [answer] at found
      cases value with
      | none => cases found
      | some t =>
        refine ⟨_, below', ⟨true, t, false⟩, rfl, ?_⟩
        simp [setAnchor]

variable {newrt : Uint256}

theorem popAnchor_spec
    (notNull : newrt ≠ 0) (ok : ShieldedOk H T v) (ran : popAnchor H type newrt v = some v') :
    ShieldedOk H T v' ∧
      pools H v' = update (pools H v) type ((pools H v type).popAnchor newrt) := by
  obtain ⟨value, same⟩ := getBestAnchor_reads (H := H) type v
  have nextOk := getBestAnchor_ok type ok
  have best : (pools H v type).best = (getBestAnchor H type v).1 := value.symm
  simp only [popAnchor] at ran
  rw [PoolState.popAnchor, best]
  by_cases changed : (getBestAnchor H type v).1 ≠ newrt
  · rw [if_pos changed] at ran ⊢
    have readOk := getAnchorAt_ok type (getBestAnchor H type v).1 nextOk
    have sameRead :=
      (getAnchorAt_reads (H := H) type (getBestAnchor H type v).1 (getBestAnchor H type v).2).2
    cases shape : (getBestAnchor H type v).2 with
    | base db =>
      rw [shape] at ran
      split at ran
      · cases ran
      · rename_i w answer
        obtain rfl : Layers.base db = w := congrArg Prod.snd answer
        cases ran
    | layer _ _ =>
      rw [shape] at ran readOk sameRead same
      generalize (getBestAnchor H type v).1 = current at *
      split at ran
      · cases ran
      · rename_i tree w answer
        rw [answer] at readOk sameRead
        obtain ⟨cache', below', entry, shape', hit⟩ :=
          getAnchorAt_top (congrArg Prod.fst answer)
        obtain rfl : w = .layer cache' below' := (congrArg Prod.snd answer).symm.trans shape'
        cases ran
        have entryOk := readOk.1.anchors type current entry hit
        have left : (cache'.leaveAnchor type current newrt) =
            (cache'.setAnchor type current ⟨false, entry.tree, true⟩).setHashAnchor type newrt := by
          simp [leaveAnchor, hit]
        have left_ok : AnchorEntryOk H T type below' current ⟨false, entry.tree, true⟩ :=
          ⟨entryOk.rooted, by rintro ⟨⟩⟩
        have cacheOk := cacheOk_setAnchor readOk.1 left_ok
        dsimp only
        rw [left, pools_setHashAnchor, pools_setAnchor, update_idem, update_self,
          isNull_eq_false notNull, sameRead, same]
        exact ⟨⟨{ cacheOk with }, readOk.2⟩, rfl⟩
  · rw [if_neg changed] at ran ⊢
    cases shape : (getBestAnchor H type v).2 with
    | base _ => rw [shape] at ran; cases ran
    | layer _ _ =>
      rw [shape] at ran nextOk same
      cases ran
      exact ⟨nextOk, same.trans (update_eq_self type _).symm⟩

/-- The assertion in `PopAnchor` holds when the best anchor is one the view knows. -/
theorem popAnchor_defined (newrt : Uint256)
    (known :
    ((pools H (.layer cache below) type).anchors (pools H (.layer cache below) type).best).isSome) :
    (popAnchor H type newrt (.layer cache below)).isSome := by
  obtain ⟨value, same⟩ := getBestAnchor_reads (H := H) type (.layer cache below)
  obtain ⟨cache', below', shape⟩ := getBestAnchor_layer (H := H) type cache below
  simp only [popAnchor, shape]
  rw [shape] at same
  split
  · have read := (getAnchorAt_reads (H := H) type (getBestAnchor H type (.layer cache below)).1
      (.layer cache' below')).1
    have shown : (getAnchorAt H type (getBestAnchor H type (.layer cache below)).1
        (.layer cache' below')).1.isSome := by
      rw [read, value]
      change ((pools H (.layer cache' below') type).anchors _).isSome
      rw [same]
      exact known
    obtain ⟨_, hit⟩ := Option.isSome_iff_exists.mp shown
    obtain ⟨_, _, _, shape', -⟩ := getAnchorAt_top hit
    split
    · rename_i answer
      rw [answer] at hit
      cases hit
    · rename_i w answer
      rw [answer] at shape'
      subst shape'
      rfl
  · rfl

private theorem lookup_foldl_insert (nfs : List Uint256) (entry : CNullifiersCacheEntry)
    (m : Uint256Map CNullifiersCacheEntry) (k : Uint256) :
    (nfs.foldl (fun m nf => m.insert nf entry) m).lookup k =
      if k ∈ nfs then some entry else m.lookup k := by
  induction nfs generalizing m with
  | nil => simp
  | cons _ _ ih =>
    rw [List.foldl_cons, ih]
    grind

variable {tx : CTransaction} {spent : Bool}

theorem setNullifiers_pools (ran : setNullifiers tx spent v = some v') :
    pools H v' = fun type => (pools H v type).setNullifiers (tx.revealed type) spent := by
  cases v with
  | base _ => cases ran
  | layer _ _ =>
    cases ran
    funext type
    refine PoolState.ext rfl rfl (funext fun nf => ?_)
    simp only [pools, PoolState.setNullifiers, nullifierAt, Layers.visible,
      CCoinsViewCache.setNullifiers, lookup_foldl_insert]
    by_cases revealed : nf ∈ tx.revealed type <;> simp [revealed]

theorem nullifiersCacheOk_setNullifiers (ok : NullifiersCacheOk cache below) (tx : CTransaction)
    (spent : Bool) :
    NullifiersCacheOk (cache.setNullifiers tx spent) below := by
  intro type nf entry hit unmodified
  simp only [CCoinsViewCache.setNullifiers, lookup_foldl_insert] at hit
  split at hit
  · cases hit
    cases unmodified
  · exact ok type nf entry hit unmodified

theorem setNullifiers_ok (ok : ShieldedOk H T v) (ran : setNullifiers tx spent v = some v') :
    ShieldedOk H T v' := by
  cases v with
  | base _ => cases ran
  | layer _ _ =>
    cases ran
    exact ⟨⟨ok.1.anchors, nullifiersCacheOk_setNullifiers ok.1.nullifiers tx spent⟩, ok.2⟩

/-! The nullifiers alone: no method on the anchors touches them. -/

/-- The two stacks have the same nullifier entries in every cache. -/
def SameNullifiers : CCoinsView → CCoinsView → Prop :=
  Layers.Forall₂ (fun cache cache' => cache'.cacheNullifiers = cache.cacheNullifiers) Eq

theorem SameButAnchors.sameNullifiers (same : v.SameButAnchors v') : SameNullifiers v v' := by
  refine same.mono (fun _ _ changed => ?_) (fun _ _ equal => equal)
  rw [changed]

theorem SameNullifiers.nullifierAt (same : SameNullifiers v v') (type : ShieldedType) :
    v'.nullifierAt type = v.nullifierAt type :=
  funext (Layers.visible_congr
    (same.mono (fun _ _ equal => by rw [equal]) (fun _ _ equal => by rw [equal])))

end CCoinsView

theorem ShieldedOk.nullifiersOk (ok : ShieldedOk H T v) : NullifiersOk v := by
  induction v with
  | base _ => trivial
  | layer _ _ ih => exact ⟨ok.1.nullifiers, ih ok.2⟩

namespace NullifiersOk

theorem of_same (ok : NullifiersOk v) (same : v.SameNullifiers v') : NullifiersOk v' := by
  refine Layers.Every.of_forall₂ same (fun _ _ _ _ kept rest cacheOk => ?_)
    (fun _ _ _ _ => trivial) ok
  intro type nf entry hit
  rw [kept] at hit
  rw [CCoinsView.SameNullifiers.nullifierAt rest type]
  exact cacheOk type nf entry hit

theorem getNullifier (H : ShieldedType → MerkleHash) (type : ShieldedType) (nf : Uint256)
    (ok : NullifiersOk v) : NullifiersOk (getNullifier type nf v).2 := by
  induction v with
  | base _ => exact ok
  | layer cache below ih =>
    obtain ⟨cacheOk, belowOk⟩ := ok
    unfold CCoinsView.getNullifier
    split
    · exact ⟨cacheOk, belowOk⟩
    · exact ⟨nullifiersCacheOk_read H cacheOk type nf, ih belowOk⟩

theorem setNullifiers (ok : NullifiersOk v)
    (ran : setNullifiers tx spent v = some v') : NullifiersOk v' := by
  cases v with
  | base _ => cases ran
  | layer _ _ =>
    cases ran
    exact ⟨nullifiersCacheOk_setNullifiers ok.1 tx spent, ok.2⟩

end NullifiersOk

end Zcashd.Source
