import Zcashd.Source.ShieldedCoherence

/-!
`Flush` of the shielded members (`src/coins.cpp:693-774`): writing a child's entries into its
parent, or into the database, makes the parent show what the child showed.

`BatchWriteAnchors` keeps the parent's tree when the parent has an entry already. That is
right because entries under one root hold the same tree.
-/
namespace Zcashd.Source

open Lib CCoinsViewCache CCoinsViewDB CCoinsView IncrementalMerkleTree
  CAnchorsCacheEntry Layers Bool

variable {H : ShieldedType → MerkleHash} {T : ShieldedType → Set IncrementalMerkleTree}

def CCoinsViewCache.mergedAnchor (entry : CAnchorsCacheEntry) :
    Option CAnchorsCacheEntry → Option CAnchorsCacheEntry
  | none => if entry.dirty then some ⟨entry.entered, entry.tree, true⟩ else none
  | some parent =>
    if entry.dirty = true ∧ parent.entered ≠ entry.entered then
      some ⟨entry.entered, parent.tree, true⟩
    else some parent

def CCoinsViewCache.mergedNullifier (entry : CNullifiersCacheEntry) :
    Option CNullifiersCacheEntry → Option CNullifiersCacheEntry
  | none => if entry.dirty then some ⟨entry.entered, true⟩ else none
  | some parent =>
    if entry.dirty = true ∧ parent.entered ≠ entry.entered then some ⟨entry.entered, true⟩
      else some parent

theorem CCoinsViewCache.writeAnchor_local : KeyLocal writeAnchor (fun _ => mergedAnchor) := by
  constructor
  · intro m rt entry
    unfold writeAnchor mergedAnchor
    cases dirty : entry.dirty <;> cases hit : m.lookup rt with
    | none => simp [hit]
    | some parent =>
      by_cases differ : parent.entered = entry.entered <;> simp [hit, differ]
  · intro m _ _ k _
    unfold writeAnchor
    split
    · grind
    · rfl

theorem CCoinsViewCache.writeNullifier_local :
    KeyLocal writeNullifier (fun _ => mergedNullifier) := by
  constructor
  · intro m nf entry
    unfold writeNullifier mergedNullifier
    cases dirty : entry.dirty <;> cases hit : m.lookup nf with
    | none => simp [hit]
    | some parent =>
      by_cases differ : parent.entered = entry.entered <;> simp [hit, differ]
  · intro m _ _ k _
    unfold writeNullifier
    split
    · grind
    · rfl

theorem CCoinsViewDB.writeAnchor_local (H : ShieldedType → MerkleHash) (type : ShieldedType) :
    KeyLocal (writeAnchor H type)
      (fun rt entry held => if entry.dirty then if !entry.entered then none
        else if rt ≠ emptyRoot (H type) then some entry.tree else held else held) := by
  constructor <;> intros <;> unfold writeAnchor <;> grind

theorem CCoinsViewDB.writeNullifier_local : KeyLocal writeNullifier (fun _ entry held =>
      if entry.dirty then if !entry.entered then none else some true else held) := by
  constructor <;> intros <;> unfold writeNullifier <;> grind

variable {parent : CCoinsViewCache} {base : CCoinsView} {type : ShieldedType}

/-- One key of `BatchWriteAnchors`. The parent's own tree is the child's, having its root. -/
private theorem mergedAnchor_entryOk (play : TreesInPlay H T) {rt : Uint256}
    {entry : CAnchorsCacheEntry} (parentOk : ShieldedCacheOk H T parent base)
    (entryOk : AnchorEntryOk H T type (.layer parent base) rt entry) :
    (mergedAnchor entry ((parent.cacheAnchors type).lookup rt)).elim
      (base.anchorAt H type rt = entry.value)
      fun merged => AnchorEntryOk H T type base rt merged ∧ merged.value = entry.value := by
  cases hit : (parent.cacheAnchors type).lookup rt with
  | none =>
    cases dirty : entry.dirty with
    | false =>
      simp only [mergedAnchor, dirty, false_eq_true, ↓reduceIte, Option.elim]
      rw [entryOk.unchanged dirty, anchorAt_miss hit]
    | true =>
      simp only [mergedAnchor, dirty, ↓reduceIte]
      exact ⟨⟨entryOk.rooted, by rintro ⟨⟩⟩, rfl⟩
  | some p =>
    have pOk := parentOk.anchors type rt p hit
    have sameTree : p.tree = entry.tree := play.injective type pOk.rooted.1 entryOk.rooted.1
      (pOk.rooted.2.trans entryOk.rooted.2.symm)
    by_cases differ : entry.dirty = true ∧ p.entered ≠ entry.entered
    · simp only [mergedAnchor, if_pos differ]
      refine ⟨⟨pOk.rooted, by rintro ⟨⟩⟩, ?_⟩
      simp [value, sameTree]
    · simp only [mergedAnchor, if_neg differ]
      refine ⟨pOk, ?_⟩
      cases dirty : entry.dirty with
      | false => rw [entryOk.unchanged dirty, anchorAt_hit hit]
      | true => grind [value]

private theorem mergedNullifier_entryOk {nf : Uint256} {entry : CNullifiersCacheEntry}
    (parentOk : NullifiersCacheOk parent base)
    (entryOk : entry.dirty = false → entry.entered = nullifierAt type (.layer parent base) nf) :
    (mergedNullifier entry ((parent.cacheNullifiers type).lookup nf)).elim
      (base.nullifierAt type nf = entry.entered)
      fun merged => (merged.dirty = false → merged.entered = base.nullifierAt type nf) ∧
        merged.entered = entry.entered := by
  cases hit : (parent.cacheNullifiers type).lookup nf with
  | none =>
    cases dirty : entry.dirty with
    | false =>
      simp only [mergedNullifier, dirty, false_eq_true, ↓reduceIte, Option.elim]
      rw [entryOk dirty, nullifierAt_miss hit]
    | true =>
      simp only [mergedNullifier, dirty, ↓reduceIte]
      exact ⟨by rintro ⟨⟩, rfl⟩
  | some p =>
    by_cases differ : entry.dirty = true ∧ p.entered ≠ entry.entered
    · simp only [mergedNullifier, if_pos differ]
      exact ⟨by rintro ⟨⟩, rfl⟩
    · simp only [mergedNullifier, if_neg differ]
      refine ⟨parentOk type nf p hit, ?_⟩
      cases dirty : entry.dirty with
      | false => rw [entryOk dirty, nullifierAt_hit hit]
      | true => grind

variable {child : CCoinsViewCache} {merged : CCoinsViewCache}

/-- What `BatchWrite` of a cache into a cache does to the shielded members. -/
theorem CCoinsViewCache.batchWrite_shielded
    (out : parent.batchWrite child = some merged) : merged.hashAnchor = child.hashAnchor ∧
    (∀ type rt, (merged.cacheAnchors type).lookup rt =
      mergedLookup (fun _ => mergedAnchor) (child.cacheAnchors type)
        (parent.cacheAnchors type) rt) ∧
    (∀ type nf, (merged.cacheNullifiers type).lookup nf =
      mergedLookup (fun _ => mergedNullifier) (child.cacheNullifiers type)
        (parent.cacheNullifiers type) nf) := by
  unfold batchWrite at out
  split at out
  · cases out
    exact ⟨rfl, fun type rt => writeAnchor_local.lookup_foldl _ _ rt,
      fun type nf => writeNullifier_local.lookup_foldl _ _ nf⟩
  · cases out

/-- Flush into a cache and drop the child: the nullifiers stay. -/
theorem mergeNullifiers_spec (ok : NullifiersOk (.layer child (.layer parent base)))
    (out : parent.batchWrite child = some merged) :
    NullifiersOk (.layer merged base) ∧ ∀ type, nullifierAt type (.layer merged base) =
      nullifierAt type (.layer child (.layer parent base)) := by
  obtain ⟨childOk, parentOk, baseOk⟩ := ok
  obtain ⟨-, -, nullifiers⟩ := batchWrite_shielded out
  have flushed : ∀ type, nullifierAt type (.layer merged base) =
      nullifierAt type (.layer child (.layer parent base)) ∧
      ∀ nf entry, (merged.cacheNullifiers type).lookup nf = some entry → entry.dirty = false →
        entry.entered = base.nullifierAt type nf := fun type =>
    visible_flush (nullifiers type) (parentOk type) fun nf entry hit =>
      mergedNullifier_entryOk parentOk (childOk type nf entry hit)
  exact ⟨⟨fun type => (flushed type).2, baseOk⟩, fun type => (flushed type).1⟩

variable {db : CCoinsViewDB}

/-- `BatchWrite` of the nullifiers into the database. -/
theorem CCoinsViewDB.batchWrite_nullifiers (H : ShieldedType → MerkleHash)
    (ok : NullifiersOk (.layer child (.base db))) (type : ShieldedType) :
    nullifierAt type (.base (db.batchWrite H child)) =
      nullifierAt type (.layer child (.base db)) := by
  have out := writeNullifier_local.lookup_foldl (child.cacheNullifiers type)
    (db.nullifiers type)
  refine visible_flush_base (fun nf missing => ?_) (fun nf entry hit => ?_)
  · simp [getNullifier, batchWrite, out, mergedLookup_none missing]
  · have entryOk := ok.1 type nf entry hit
    simp only [getNullifier, batchWrite, out, mergedLookup_some hit]
    cases dirty : entry.dirty with
    | false =>
      rw [entryOk dirty]
      rfl
    | true => cases entry.entered <;> rfl

/-- Dropping a flushed cache loses no best anchor: it carries one, or its parent has none
of its own either. -/
def BestCarried (child parent : CCoinsViewCache) : Prop :=
  ∀ type, (child.hashAnchor type).isNull = true → (parent.hashAnchor type).isNull = true

/-- Flush into a cache and drop the child: the anchors and nullifiers stay; the best
anchors stay when the child carries them. -/
theorem mergeShielded_spec (play : TreesInPlay H T)
    (ok : ShieldedOk H T (.layer child (.layer parent base))) (carried : BestCarried child parent)
    (out : parent.batchWrite child = some merged) :
    ShieldedOk H T (.layer merged base) ∧
    pools H (.layer merged base) = pools H (.layer child (.layer parent base)) := by
  obtain ⟨nullifiersOk, sameNullifiers⟩ := mergeNullifiers_spec ok.nullifiersOk out
  obtain ⟨childOk, parentOk, baseOk⟩ := ok
  obtain ⟨hashes, anchors, -⟩ := batchWrite_shielded out
  have flushed : ∀ type, anchorAt H type (.layer merged base) =
      anchorAt H type (.layer child (.layer parent base)) ∧
      ∀ rt entry, (merged.cacheAnchors type).lookup rt = some entry →
        AnchorEntryOk H T type base rt entry := fun type =>
    visible_flush (anchors type) (parentOk.anchors type) fun rt entry hit =>
      mergedAnchor_entryOk play parentOk (childOk.anchors type rt entry hit)
  refine ⟨⟨⟨fun type => (flushed type).2, nullifiersOk.1⟩, baseOk⟩,
    funext fun type => PoolState.ext (flushed type).1 ?_ (sameNullifiers type)⟩
  simp only [pools, bestAt, hashes]
  by_cases unread : (child.hashAnchor type).isNull = true
  · simp [unread, carried type unread]
  · simp [unread]

/-- `BatchWrite` into the database. It has no record for the empty root and always answers
it with the empty tree, so that root has to be entered in the flushed view. -/
theorem CCoinsViewDB.batchWrite_shielded (ok : ShieldedOk H T (.layer child (.base db)))
    (emptyEntered : ∀ type, anchorAt H type (.layer child (.base db))
      (emptyRoot (H type)) = some .empty) : ShieldedOk H T (.base (db.batchWrite H child)) ∧
      pools H (.base (db.batchWrite H child)) = pools H (.layer child (.base db)) := by
  have anchorsSame : ∀ type, anchorAt H type (.base (db.batchWrite H child)) =
      anchorAt H type (.layer child (.base db)) := by
    intro type
    have out := (writeAnchor_local H type).lookup_foldl (child.cacheAnchors type)
      (db.anchors type)
    refine visible_flush_base (fun rt missing => ?_) (fun rt entry hit => ?_)
    · simp [getAnchorAt, batchWrite, out, mergedLookup_none missing]
    · have entryOk := ok.1.anchors type rt entry hit
      by_cases isEmpty : rt = emptyRoot (H type)
      · subst isEmpty
        have entered := emptyEntered type
        rw [anchorAt_hit hit] at entered
        simp [getAnchorAt, entered]
      · cases dirty : entry.dirty with
        | false =>
          rw [entryOk.unchanged dirty]
          simp [getAnchorAt, batchWrite, isEmpty, out, mergedLookup_some hit, dirty, anchorAt]
        | true =>
          simp only [getAnchorAt, batchWrite, isEmpty, ↓reduceIte, out,
            mergedLookup_some hit, dirty, ne_eq, not_false_eq_true, value]
          cases entry.entered <;> rfl
  refine ⟨fun type rt tree held => ?_, funext fun type => PoolState.ext (anchorsSame type) ?_ ?_⟩
  · have shown : anchorAt H type (.layer child (.base db)) rt = some tree :=
      (congrFun (anchorsSame type) rt).symm.trans held
    exact ok.rooted shown
  · simp only [pools, bestAt, getBestAnchor, batchWrite]
    by_cases unread : (child.hashAnchor type).isNull = true
    · simp [unread]
    · simp [unread]
  · exact batchWrite_nullifiers H ok.nullifiersOk type

end Zcashd.Source
