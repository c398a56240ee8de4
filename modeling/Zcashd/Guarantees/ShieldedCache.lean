import Zcashd.Source.ShieldedFlush

/-!
# A stack of coins caches as shielded state

Anchors, best anchors and nullifiers of a stack of `CCoinsViewCache` objects over a
`CCoinsViewDB`, worked on through the top cache, against two flat pools.

Two steps break the agreement and are excluded by `Op.Sound`:

* `CCoinsViewCache::BatchWrite` copies the child's best anchors even when they are null,
  which stands for "not read yet". Flushing a child that never read them makes the parent
  forget an anchor it had pushed (`flush_forgets_best_anchor`). `CCoinsViewDB::BatchWrite`
  guards the same assignment with `IsNull`.
* `PopAnchor` can unenter the empty root, which the database always answers as entered.
-/
namespace Zcashd.Guarantees.ShieldedCache

open Lib Source Source.CCoinsView IncrementalMerkleTree ShieldedType Function

/-- Operations on the top cache, and on the stack itself. -/
inductive Op where
  | readAnchor (type : ShieldedType) (rt : Uint256)
  | readNullifier (type : ShieldedType) (nf : Uint256)
  | readBestAnchor (type : ShieldedType)
  | pushAnchor (type : ShieldedType) (tree : IncrementalMerkleTree)
  | popAnchor (type : ShieldedType) (newrt : Uint256)
  | setNullifiers (tx : CTransaction) (spent : Bool)
  | pushCache
  | flushAndPop

abbrev Pools := ShieldedType → PoolState

variable (H : ShieldedType → MerkleHash) (T : ShieldedType → Set IncrementalMerkleTree)

namespace Op

def step : Op → CCoinsView → Option CCoinsView
  | readAnchor type rt, v => some (getAnchorAt H type rt v).2
  | readNullifier type nf, v => some (getNullifier type nf v).2
  | readBestAnchor type, v => some (getBestAnchor H type v).2
  | pushAnchor type tree, v => CCoinsView.pushAnchor H type tree v
  | popAnchor type newrt, v => CCoinsView.popAnchor H type newrt v
  | setNullifiers tx spent, v => CCoinsView.setNullifiers tx spent v
  | pushCache, v => some (CCoinsView.pushCache v)
  | flushAndPop, v => CCoinsView.flushAndPop H v

def onPools : Op → Pools → Pools
  | pushAnchor type tree, p => update p type ((p type).pushAnchor (H type) tree)
  | popAnchor type newrt, p => update p type ((p type).popAnchor newrt)
  | setNullifiers tx spent, p => fun type => (p type).setNullifiers (tx.revealed type) spent
  | _, p => p

/-- Trees pushed are among those in play, and `PopAnchor` is called with a root whose anchor
exists. -/
def Permitted (v : CCoinsView) : Op → Prop
  | pushAnchor type tree => tree ∈ T type
  | popAnchor type newrt => (getAnchorAt H type newrt v).1.isSome
  | _ => True

/-- The flushed cache has its best anchors, or its parent has none of its own; and the empty
root is not popped. -/
def Sound (v : CCoinsView) : Op → Prop
  | popAnchor type newrt =>
    (getBestAnchor H type v).1 = IncrementalMerkleTree.emptyRoot (H type) →
      (getBestAnchor H type v).1 = newrt
  | flushAndPop =>
    ∀ child parent base, v = .layer child (.layer parent base) → BestCarried child parent
  | _ => True

end Op

/-- A database as the code writes it: anchors under the roots of trees in play, and the best
anchor among them. -/
structure DbOk (db : CCoinsViewDB) : Prop where
  rooted : ∀ type rt tree, db.getAnchorAt H type rt = some tree → Rooted H T type rt tree
  best_known : ∀ type, (db.getAnchorAt H type (db.getBestAnchor H type)).isSome

/-- The stacks reached from a database, with the pools that got the same operations. -/
inductive Run (allowed : CCoinsView → Op → Prop) (db : CCoinsViewDB) : CCoinsView → Pools → Prop
  | start : Run allowed db (.base db) (pools H (.base db))
  | step {v v' : CCoinsView} {p : Pools} (op : Op) (before : Run allowed db v p)
      (permitted : allowed v op) (success : op.step H v = some v') :
        Run allowed db v' (op.onPools H p)

/-- The coins and the history of every cache are untouched. -/
def Untouched : CCoinsView → Prop :=
  Layers.Every (fun cache _ => cache.cacheCoins = ∅ ∧ cache.historyCacheMap = ∅) (fun _ => True)

/-- The best anchor exists, and the empty tree is always there. -/
structure PoolsOk (p : Pools) : Prop where
  best_known : ∀ type, ((p type).anchors (p type).best).isSome
  empty_known : ∀ type, (p type).anchors (IncrementalMerkleTree.emptyRoot (H type)) = some .empty

variable {H T} {v : CCoinsView} {v' : CCoinsView}

theorem Untouched.of_sameBut (old : Untouched v) (same : v.SameBut .shielded v') :
    Untouched v' := by
  refine Layers.Every.of_forall₂ same (fun c c' _ _ keeps _ empty => ?_)
    (fun _ _ _ _ => trivial) old
  rw [keeps]
  exact empty

theorem flushAndPop_defined {cache : CCoinsViewCache} {base : CCoinsView}
    (untouched : Untouched (.layer cache base)) : (flushAndPop H (.layer cache base)).isSome := by
  cases base with
  | base _ => rfl
  | layer _ _ =>
    simp [flushAndPop, flush, CCoinsViewCache.batchWrite, untouched.1, pop]

section

variable (play : TreesInPlay H T)
include play

theorem flushAndPop_spec (ok : ShieldedOk H T v) (untouched : Untouched v)
    (known : PoolsOk H (v.pools H))
    (carried : ∀ child parent base, v = .layer child (.layer parent base) →
      BestCarried child parent) (ran : flushAndPop H v = some v') :
    ShieldedOk H T v' ∧ Untouched v' ∧ v'.pools H = v.pools H := by
  match v with
  | .base _ => cases ran
  | .layer _ (.base _) =>
    cases ran
    obtain ⟨nextOk, same⟩ := CCoinsViewDB.batchWrite_shielded ok known.empty_known
    exact ⟨nextOk, trivial, same⟩
  | .layer cache (.layer parent base) =>
    simp only [flushAndPop, flush, Option.bind_map, Option.bind_eq_some_iff] at ran
    obtain ⟨_, out, popped⟩ := ran
    cases popped
    obtain ⟨nextOk, same⟩ := mergeShielded_spec play ok (carried cache parent base rfl) out
    refine ⟨nextOk, ⟨?_, untouched.2.2⟩, same⟩
    obtain ⟨⟨noCoins, noHistory⟩, ⟨parentCoins, parentHistory⟩, -⟩ := untouched
    simp only [CCoinsViewCache.batchWrite, noCoins, noHistory, AList.empty_entries,
      List.foldlM_nil] at out
    cases out
    exact ⟨parentCoins, parentHistory⟩

/-- The flat operations keep the best anchor and the empty tree known. -/
theorem PoolsOk.step {op : Op} (known : PoolsOk H (v.pools H)) (permitted : op.Permitted H T v)
    (sound : op.Sound H v) :
    PoolsOk H (op.onPools H (v.pools H)) := by
  cases op with
  | pushAnchor type tree =>
    constructor
    all_goals
      intro other
      by_cases pool : other = type
      swap
      · simp only [Op.onPools, update_of_ne pool]
        first | exact known.best_known other | exact known.empty_known other
      subst pool
      simp only [Op.onPools, update_self, PoolState.pushAnchor]
      split
    · simp
    · exact known.best_known other
    · by_cases isEmpty : emptyRoot (H other) = tree.root (H other)
      · have same : tree = .empty := play.injective other permitted (play.empty_mem other)
          (isEmpty.symm.trans (root_empty (H other)).symm)
        simp [isEmpty, same]
      · change update _ _ _ _ = _
        rw [update_of_ne isEmpty]
        exact known.empty_known other
    · exact known.empty_known other
  | popAnchor type newrt =>
    have hit : ((v.pools H type).anchors newrt).isSome := by
      have shown := permitted
      rwa [Op.Permitted, (getAnchorAt_reads (H := H) type newrt v).1] at shown
    have value : (getBestAnchor H type v).1 = (v.pools H type).best :=
      (getBestAnchor_reads (H := H) type v).1
    simp only [Op.Sound, value] at sound
    constructor
    all_goals
      intro other
      by_cases pool : other = type
      swap
      · simp only [Op.onPools, update_of_ne pool]
        first | exact known.best_known other | exact known.empty_known other
      subst pool
      simp only [Op.onPools, update_self, PoolState.popAnchor]
      split
    · rename_i changed
      change (update (v.pools H other).anchors (v.pools H other).best none newrt).isSome
      rw [update_of_ne (Ne.symm changed)]
      exact hit
    · exact known.best_known other
    · rename_i changed
      change update _ _ _ _ = _
      rw [update_of_ne (fun isEmpty => changed (sound isEmpty.symm))]
      exact known.empty_known other
    · exact known.empty_known other
  | readAnchor | readNullifier | readBestAnchor | setNullifiers | pushCache | flushAndPop =>
    exact { known with }

/-- One operation does to the stack's pools what it does to the flat ones. -/
theorem step_spec {op : Op} (ok : ShieldedOk H T v)
    (untouched : Untouched v) (known : PoolsOk H (v.pools H)) (permitted : op.Permitted H T v)
    (sound : op.Sound H v) (ran : op.step H v = some v') :
    ShieldedOk H T v' ∧ Untouched v' ∧ v'.pools H = op.onPools H (v.pools H) := by
  cases op with
  | readAnchor type rt =>
    cases ran
    exact ⟨getAnchorAt_ok type rt ok,
      untouched.of_sameBut (getAnchorAt_sameButAnchors H type rt v).sameBut,
      (getAnchorAt_reads type rt v).2⟩
  | readNullifier type nf =>
    cases ran
    exact ⟨getNullifier_ok type nf ok, untouched.of_sameBut (getNullifier_sameBut type nf v),
      (getNullifier_reads type nf v).2⟩
  | readBestAnchor type =>
    cases ran
    exact ⟨getBestAnchor_ok type ok,
      untouched.of_sameBut (getBestAnchor_sameButAnchors H type v).sameBut,
      (getBestAnchor_reads type v).2⟩
  | pushAnchor _ _ =>
    obtain ⟨nextOk, next⟩ := pushAnchor_spec play permitted ok ran
    exact ⟨nextOk, untouched.of_sameBut (pushAnchor_sameButAnchors ran).sameBut, next⟩
  | popAnchor type newrt =>
    have shown := permitted
    simp only [Op.Permitted, (getAnchorAt_reads (H := H) type newrt v).1] at shown
    obtain ⟨tree, hit⟩ := Option.isSome_iff_exists.mp shown
    obtain ⟨mem, root⟩ := ok.rooted hit
    have notNull : newrt ≠ 0 := root ▸ play.not_null type tree mem
    obtain ⟨nextOk, next⟩ := popAnchor_spec notNull ok ran
    exact ⟨nextOk, untouched.of_sameBut (popAnchor_sameButAnchors ran).sameBut, next⟩
  | setNullifiers _ _ =>
    exact ⟨setNullifiers_ok ok ran, untouched.of_sameBut (setNullifiers_sameBut ran),
      setNullifiers_pools ran⟩
  | pushCache =>
    cases ran
    refine ⟨⟨⟨?_, ?_⟩, ok⟩, ⟨⟨rfl, rfl⟩, untouched⟩, rfl⟩
    · rintro _ _ _ ⟨⟩
    · rintro _ _ _ ⟨⟩
  | flushAndPop => exact flushAndPop_spec play ok untouched known sound ran

theorem Run.invariant {db : CCoinsViewDB} (dbOk : DbOk H T db)
    {p : Pools} (run : Run H (fun v op => op.Permitted H T v ∧ op.Sound H v) db v p) :
    ShieldedOk H T v ∧ Untouched v ∧ v.pools H = p ∧ PoolsOk H p := by
  induction run with
  | start =>
    refine ⟨dbOk.rooted, trivial, rfl, dbOk.best_known, fun type => ?_⟩
    simp [pools, anchorAt, Layers.visible, CCoinsViewDB.getAnchorAt]
  | step _ _ allowed ran ih =>
    obtain ⟨ok, untouched, rfl, known⟩ := ih
    obtain ⟨nextOk, next, same⟩ := step_spec play ok untouched known allowed.1 allowed.2 ran
    exact ⟨nextOk, next, same, known.step play allowed.1 allowed.2⟩

end

/-- Over every run of permitted and sound operations the top of the stack (the database
itself, when no cache is left) answers anchors, nullifiers and best anchors as the flat
pools do, and neither `Flush` nor `PopAnchor` fails an assertion. -/
theorem stack_refines_pools (play : TreesInPlay H T) {db : CCoinsViewDB} (dbOk : DbOk H T db)
    {v : CCoinsView} {p : Pools}
    (run : Run H (fun v op => op.Permitted H T v ∧ op.Sound H v) db v p) :
    (∀ type, (getBestAnchor H type v).1 = (p type).best ∧
      (∀ rt, (getAnchorAt H type rt v).1 = (p type).anchors rt) ∧
      (∀ nf, (getNullifier type nf v).1 = (p type).nullifiers nf)) ∧
    (∀ cache base, v = .layer cache base → (flushAndPop H v).isSome ∧
      ∀ type newrt, (CCoinsView.popAnchor H type newrt v).isSome) := by
  obtain ⟨_, untouched, rfl, known⟩ := run.invariant play dbOk
  refine ⟨fun type =>
    ⟨(getBestAnchor_reads (H := H) type v).1, fun rt => (getAnchorAt_reads (H := H) type rt v).1,
    fun nf => (getNullifier_reads (H := H) type nf v).1⟩, ?_⟩
  rintro _ _ rfl
  exact ⟨flushAndPop_defined untouched,
    fun type newrt => popAnchor_defined newrt (known.best_known type)⟩

/-- A tree with one commitment. -/
def oneNote : IncrementalMerkleTree := ⟨some 7, none, []⟩

def notesInPlay : ShieldedType → Set IncrementalMerkleTree := fun _ => {.empty, oneNote}

theorem notesInPlay_inPlay : TreesInPlay linearHash notesInPlay where
  injective type := by
    rintro _ (rfl | rfl) _ (rfl | rfl) same
    · rfl
    · revert same
      cases type <;> decide +kernel
    · revert same
      cases type <;> decide +kernel
    · rfl
  not_null type := by
    rintro _ (rfl | rfl) <;> cases type <;> decide +kernel
  empty_mem _ := .inl rfl

theorem emptyDb_ok : DbOk linearHash notesInPlay .empty where
  rooted type rt tree hit := by
    simp only [CCoinsViewDB.getAnchorAt, CCoinsViewDB.empty] at hit
    split at hit
    · rename_i isEmpty
      cases hit
      exact ⟨.inl rfl, by rw [isEmpty, root_empty]⟩
    · cases hit
  best_known type := by cases type <;> decide +kernel

set_option maxRecDepth 4000 in
/-- A tree pushed in the upper of two caches is the best anchor of the database once both are
flushed, and popping it in a third cache brings the empty root back. -/
theorem stack_refines_pools_reorg : ∃ v p, Run linearHash
      (fun v op => op.Permitted linearHash notesInPlay v ∧ op.Sound linearHash v) .empty v p ∧
    (getBestAnchor linearHash .sapling v).1 = (p .sapling).best ∧
    (getAnchorAt linearHash .sapling (oneNote.root (sapling.linearHash)) v).1 = none := by
  have opened : Run linearHash
      (fun v op => op.Permitted linearHash notesInPlay v ∧ op.Sound linearHash v)
      .empty _ _ := .start
  have carried :
      ∀ (v : CCoinsView) (c : CCoinsViewCache) (db : CCoinsViewDB), v = .layer c (.base db) →
      Op.flushAndPop.Sound linearHash v := by
    rintro _ c _ rfl _ _ _ ⟨⟩
  have run := opened
    |>.step .pushCache ⟨trivial, trivial⟩ rfl
    |>.step .pushCache ⟨trivial, trivial⟩ rfl
    |>.step (.readBestAnchor .sprout) ⟨trivial, trivial⟩ rfl
    |>.step (.pushAnchor .sapling oneNote) ⟨.inr rfl, trivial⟩ rfl
    |>.step .flushAndPop ⟨trivial, by rintro _ _ _ ⟨⟩ type; cases type <;> decide +kernel⟩ rfl
    |>.step .flushAndPop ⟨trivial, carried _ _ _ rfl⟩ rfl
    |>.step .pushCache ⟨trivial, trivial⟩ rfl
    |>.step (.popAnchor .sapling (emptyRoot (sapling.linearHash)))
      ⟨by change Option.isSome _ = true; decide +kernel, by dsimp only [Op.Sound]; decide +kernel⟩
        rfl
  have agree := (stack_refines_pools notesInPlay_inPlay emptyDb_ok run).1 .sapling
  refine ⟨_, _, run, agree.1, ?_⟩
  rw [agree.2.1]
  decide +kernel

/-- A cache pushes an anchor; a second cache on top of it is flushed without having read the
best anchor. The stack then reports the empty root as its best anchor. -/
theorem flush_forgets_best_anchor : ∃ v p,
    Run linearHash (fun v op => op.Permitted linearHash notesInPlay v) .empty v p ∧
      (p .sapling).best = oneNote.root (sapling.linearHash) ∧
      (getBestAnchor linearHash .sapling v).1 =
        IncrementalMerkleTree.emptyRoot (sapling.linearHash) ∧
      (getBestAnchor linearHash .sapling v).1 ≠ (p .sapling).best := by
  have opened : Run linearHash
      (fun v op => op.Permitted linearHash notesInPlay v) .empty _ _ := .start
  have run := opened
    |>.step .pushCache trivial rfl
    |>.step (.pushAnchor .sapling oneNote) (.inr rfl) rfl
    |>.step .pushCache trivial rfl
    |>.step .flushAndPop trivial rfl
  exact ⟨_, _, run, by decide +kernel, by decide +kernel, by decide +kernel⟩

end Zcashd.Guarantees.ShieldedCache
