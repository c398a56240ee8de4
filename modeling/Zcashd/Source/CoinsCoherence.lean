import Zcashd.Source.CoinsViewOps

/-!
The invariant behind the `DIRTY` and `FRESH` flags of `CCoinsCacheEntry`
(`src/coins.h:278-292`) and what each method does to it. An entry of a cache is judged
against the views below it:

* an entry that is not dirty reads as what lies below it,
* a fresh entry stands over an absent or pruned one,
* an entry that is not fresh was fetched, so the cache right below has one too, and what
  was fetched is unspent there.

That the cache below has an entry is what the assertion in `BatchWrite` relies on.
-/
namespace Zcashd.Source

open Lib CCoinsView CCoins CCoinsViewCache CCoinsViewDB Option AList Function

/-- What readers of the view see under a transaction id, absent and pruned identified. -/
def CCoinsView.coinsAt : CCoinsView → Uint256 → Option CCoins :=
  Layers.visible (fun cache txid => cache.cacheCoins.lookup txid) (fun entry => entry.coins.visible)
    (fun db txid => (db.getCoins txid).bind CCoins.visible)

def CCoinsView.HoldsCoins : CCoinsView → Uint256 → Prop :=
  Layers.Holds (fun cache txid => cache.cacheCoins.lookup txid)

structure CoinsEntryOk (below : CCoinsView) (txid : Uint256) (entry : CCoinsCacheEntry) : Prop where
  clean : entry.coins.Clean
  unchanged : entry.dirty = false → entry.coins.visible = below.coinsAt txid
  fresh_absent : entry.fresh = true → below.coinsAt txid = none
  fetched : entry.fresh = false → below.HoldsCoins txid
  present : entry.fresh = false → (below.coinsAt txid).isSome

def CoinsCacheOk (cache : CCoinsViewCache) (below : CCoinsView) : Prop :=
  ∀ txid entry, cache.cacheCoins.lookup txid = some entry → CoinsEntryOk below txid entry

def CoinsOk : CCoinsView → Prop := Layers.Every CoinsCacheOk (fun _ => True)

/-- `v'` reads as `v` does and holds at least its entries: all an entry above can see. -/
structure CoinsFill (v v' : CCoinsView) : Prop where
  same : ∀ txid, v'.coinsAt txid = v.coinsAt txid
  more : ∀ txid, v.HoldsCoins txid → v'.HoldsCoins txid

namespace CoinsFill

theorem refl (v : CCoinsView) : CoinsFill v v := ⟨fun _ => rfl, fun _ held => held⟩

variable {entry : CCoinsCacheEntry}

theorem entryOk {below below' : CCoinsView} (fill : CoinsFill below below') {txid : Uint256}
    (ok : CoinsEntryOk below txid entry) : CoinsEntryOk below' txid entry where
  clean := ok.clean
  unchanged unmodified := (ok.unchanged unmodified).trans (fill.same txid).symm
  fresh_absent fresh := (fill.same txid).trans (ok.fresh_absent fresh)
  fetched notFresh := fill.more txid (ok.fetched notFresh)
  present notFresh := by rw [fill.same]; exact ok.present notFresh

theorem cacheOk {below below' : CCoinsView} (fill : CoinsFill below below')
    {cache : CCoinsViewCache} (ok : CoinsCacheOk cache below) :
    CoinsCacheOk cache below' :=
  fun txid entry hit => fill.entryOk (ok txid entry hit)

end CoinsFill

namespace CCoinsView

variable {txid : Uint256} {cache : CCoinsViewCache}

theorem coinsAt_hit (hit : cache.cacheCoins.lookup txid = some entry) (below : CCoinsView) :
    coinsAt (.layer cache below) txid = entry.coins.visible := by
  simp [coinsAt, Layers.visible, hit]

theorem coinsAt_miss (miss : cache.cacheCoins.lookup txid = none) (below : CCoinsView) :
    coinsAt (.layer cache below) txid = below.coinsAt txid := by
  simp [coinsAt, Layers.visible, miss]

variable {below : CCoinsView} {cache' : CCoinsViewCache}

theorem coinsAt_layer_congr {below' : CCoinsView}
    (same : cache'.cacheCoins.lookup txid = cache.cacheCoins.lookup txid)
    (rest : below'.coinsAt txid = below.coinsAt txid) :
    coinsAt (.layer cache' below') txid = coinsAt (.layer cache below) txid :=
  Layers.visible_layer_congr same rest

/-- What `fetchCoins` returns and what it does to the caches on its way. -/
structure FetchedCoins (txid : Uint256) (v : CCoinsView)
    (answer : Option CCoins × CCoinsView) : Prop where
  value : answer.1.bind CCoins.visible = v.coinsAt txid
  clean : ∀ coins, answer.1 = some coins → coins.Clean
  ok : CoinsOk answer.2
  fill : CoinsFill v answer.2
  held : answer.1.isSome → answer.2.HoldsCoins txid

theorem fetchCoins_spec (txid : Uint256) (v : CCoinsView) (ok : CoinsOk v) :
    FetchedCoins txid v (fetchCoins txid v) := by
  induction v with
  | base _ =>
    refine ⟨rfl, ?_, trivial, .refl _, fun _ => trivial⟩
    intro _ found
    obtain ⟨stored, -, rfl⟩ := map_eq_some_iff.mp found
    exact cleanup_clean stored
  | layer cache below ih =>
    obtain ⟨cacheOk, belowOk⟩ := ok
    have spec := ih belowOk
    cases hit : cache.cacheCoins.lookup txid with
    | some entry =>
      simp only [fetchCoins, hit]
      refine ⟨(coinsAt_hit hit below).symm, ?_, ⟨cacheOk, belowOk⟩, .refl _, fun _ => ?_⟩
      · rintro _ ⟨⟩
        exact (cacheOk txid entry hit).clean
      · simp [HoldsCoins, Layers.Holds, hit]
    | none =>
      simp only [fetchCoins, hit]
      obtain ⟨value, clean, nextOk, fill, held⟩ := spec
      cases answer : fetchCoins txid below with
      | mk found _ =>
        rw [answer] at value clean nextOk fill held
        cases found with
        | none =>
          refine ⟨value.trans (coinsAt_miss hit below).symm, clean, ⟨fill.cacheOk cacheOk, nextOk⟩,
            ⟨fun k => coinsAt_layer_congr rfl (fill.same k), fun _ held => held⟩, ?_⟩
          rintro ⟨⟩
        | some tmp =>
          have missed := coinsAt_miss hit below
          have inserted : (cache.cacheCoins.insert txid ⟨tmp, false, tmp.isPruned⟩).lookup txid =
              some ⟨tmp, false, tmp.isPruned⟩ := lookup_insert _
          refine ⟨value.trans missed.symm, clean, ⟨?_, nextOk⟩, ⟨?_, ?_⟩, fun _ => ?_⟩
          · intro k entry foundEntry
            by_cases key : k = txid
            · subst key
              rw [inserted] at foundEntry
              cases foundEntry
              refine ⟨clean tmp rfl, fun _ => value.trans (fill.same k).symm, fun fresh => ?_,
                fun _ => held rfl, fun unspent => ?_⟩
              · rw [fill.same, ← value]
                exact visible_eq_none.mpr fresh
              · rw [fill.same, ← value, bind_some, visible_of_not_pruned unspent]
                rfl
            · simp only [lookup_insert_ne key] at foundEntry
              exact fill.entryOk (cacheOk k entry foundEntry)
          · intro k
            by_cases key : k = txid
            · subst key
              rw [coinsAt_hit inserted, missed, ← value]
              rfl
            · exact coinsAt_layer_congr (lookup_insert_ne key) (fill.same k)
          · intro k heldBefore
            by_cases key : k = txid
            · subst key
              simp [HoldsCoins, Layers.Holds, inserted]
            · simpa only [HoldsCoins, Layers.Holds, lookup_insert_ne key] using heldBefore
          · simp [HoldsCoins, Layers.Holds, inserted]

/-- What a modifier may be opened on: a fresh entry over nothing, or a fetched one. -/
structure Modifiable (below : CCoinsView) (txid : Uint256) (entry : CCoinsCacheEntry) : Prop where
  fresh_absent : entry.fresh = true → below.coinsAt txid = none
  fetched : entry.fresh = false → below.HoldsCoins txid
  present : entry.fresh = false → (below.coinsAt txid).isSome

/-- A cache that differs under one key, where its entry is in order. -/
theorem layer_written {value : Option CCoins} (ok : CoinsOk (.layer cache below))
    (others : ∀ k, k ≠ txid → cache'.cacheCoins.lookup k = cache.cacheCoins.lookup k)
    (here : ∀ entry, cache'.cacheCoins.lookup txid = some entry → CoinsEntryOk below txid entry)
    (reads : coinsAt (.layer cache' below) txid = value) : CoinsOk (.layer cache' below) ∧
      coinsAt (.layer cache' below) = update (coinsAt (.layer cache below)) txid value := by
  refine ⟨⟨fun k entry hit => ?_, ok.2⟩, funext fun k => ?_⟩
  · by_cases key : k = txid
    · exact key ▸ here entry (key ▸ hit)
    · exact ok.1 k entry ((others k key).symm.trans hit)
  · by_cases key : k = txid
    · rw [key, update_self, reads]
    · rw [update_of_ne key]
      exact coinsAt_layer_congr (others k key) rfl

/-- The end of a modifier's life writes exactly one key. A fresh entry that ends up pruned
is dropped, which is right because nothing lies below it. -/
theorem closeModifier_spec (txid : Uint256)
    (entry : CCoinsCacheEntry) (ok : CoinsOk (.layer cache below)) (modified : entry.dirty = true)
    (modifiable : Modifiable below txid entry) :
    CoinsOk (.layer (cache.closeModifier txid entry) below) ∧
      coinsAt (.layer (cache.closeModifier txid entry) below) =
        update (coinsAt (.layer cache below)) txid entry.coins.cleanup.visible := by
  have others : ∀ k, k ≠ txid →
      (cache.closeModifier txid entry).cacheCoins.lookup k = cache.cacheCoins.lookup k := by
    intro k key
    unfold closeModifier
    dsimp only
    split
    · exact lookup_erase_ne key
    · exact lookup_insert_ne key
  by_cases dropped : (entry.fresh && entry.coins.cleanup.isPruned) = true
  · have here : (cache.closeModifier txid entry).cacheCoins.lookup txid = none := by
      simp only [closeModifier, dropped, ↓reduceIte, lookup_erase]
    obtain ⟨fresh, pruned⟩ := Bool.and_eq_true_iff.mp dropped
    refine layer_written ok others (fun e hit => nomatch here.symm.trans hit) ?_
    rw [coinsAt_miss here, modifiable.fresh_absent fresh, visible_eq_none.mpr pruned]
  · have here : (cache.closeModifier txid entry).cacheCoins.lookup txid =
        some { entry with coins := entry.coins.cleanup } := by
      simp only [closeModifier, dropped, Bool.false_eq_true, ↓reduceIte,
        lookup_insert]
    refine layer_written ok others (fun e hit => ?_) (coinsAt_hit here below)
    cases here.symm.trans hit
    refine ⟨cleanup_clean _, fun unmodified => ?_, modifiable.fresh_absent, modifiable.fetched,
      modifiable.present⟩
    exact absurd (modified.symm.trans unmodified) (by decide)

variable {edit : CoinsEdit} {v v' : CCoinsView}

/-- `ModifyCoins` applies the edit to what the view reads as and to nothing else. -/
theorem modifyCoins_spec (ok : CoinsOk v) (ran : modifyCoins txid edit v = some v') :
    CoinsOk v' ∧ v'.coinsAt = update v.coinsAt txid (edit.onVisible (v.coinsAt txid)) := by
  cases v with
  | base _ => cases ran
  | layer cache below =>
    cases ran
    obtain ⟨cacheOk, belowOk⟩ := ok
    cases hit : cache.cacheCoins.lookup txid with
    | some entry =>
      have entryOk := cacheOk txid entry hit
      simp only [entryToModify, hit]
      have spec :=
        closeModifier_spec txid { entry with coins := edit.run entry.coins, dirty := true }
        ⟨cacheOk, belowOk⟩ rfl { entryOk with }
      rw [coinsAt_hit hit, edit.onVisible_visible]
      exact spec
    | none =>
      have spec := fetchCoins_spec txid below belowOk
      simp only [entryToModify, hit]
      rw [coinsAt_miss hit, ← spec.value]
      cases answer : fetchCoins txid below with
      | mk found below' =>
        rw [answer] at spec
        have readSame : coinsAt (.layer cache below') = coinsAt (.layer cache below) :=
          funext fun k => coinsAt_layer_congr rfl (spec.fill.same k)
        have layerOk : CoinsOk (.layer cache below') := ⟨spec.fill.cacheOk cacheOk, spec.ok⟩
        cases found with
        | none =>
          have absent : below'.coinsAt txid = none := by
            rw [spec.fill.same, ← spec.value]
            rfl
          have closed := closeModifier_spec txid ⟨edit.run .clear, true, true⟩ layerOk rfl
            ⟨fun _ => absent, by rintro ⟨⟩, by rintro ⟨⟩⟩
          rw [readSame] at closed
          exact closed
        | some coins =>
          have closed := closeModifier_spec txid ⟨edit.run coins, true, coins.isPruned⟩ layerOk rfl
            ⟨fun pruned => by
              rw [spec.fill.same, ← spec.value]
              exact visible_eq_none.mpr pruned, fun _ => spec.held rfl, fun unspent => by
              rw [spec.fill.same, ← spec.value, bind_some, visible_of_not_pruned unspent]
              rfl⟩
          rw [readSame] at closed
          simp only [bind_some, edit.onVisible_visible]
          exact closed

/-- The view right under the top cache. -/
def under : CCoinsView → CCoinsView
  | .base db => .base db
  | .layer _ below => below

theorem fetchCoins_under (txid : Uint256) (ok : CoinsOk v) :
    coinsAt (under (fetchCoins txid v).2) = coinsAt (under v) := by
  cases v with
  | base _ => rfl
  | layer cache below =>
    have spec := fetchCoins_spec txid below ok.2
    funext k
    cases hit : cache.cacheCoins.lookup txid with
    | some _ => simp [fetchCoins, hit]
    | none =>
      simp only [fetchCoins, hit]
      cases answer : fetchCoins txid below with
      | mk found _ =>
        rw [answer] at spec
        cases found <;> exact spec.fill.same k

theorem modifyCoins_under (ok : CoinsOk v)
    (ran : modifyCoins txid edit v = some v') : coinsAt (under v') = coinsAt (under v) := by
  cases v with
  | base _ => cases ran
  | layer cache below =>
    cases ran
    have spec := fetchCoins_spec txid below ok.2
    funext k
    simp only [under, entryToModify]
    cases cache.cacheCoins.lookup txid with
    | some _ => rfl
    | none =>
      cases answer : fetchCoins txid below with
      | mk hit _ =>
        rw [answer] at spec
        cases hit <;> exact spec.fill.same k

/-- The top cache has no entry under the id, or a fresh one. -/
def TopFreshOrAbsent (txid : Uint256) : CCoinsView → Prop
  | .base _ => True
  | .layer cache _ => ∀ entry, cache.cacheCoins.lookup txid = some entry → entry.fresh = true

/-- Over an absent entry, marking a new one fresh is right. -/
theorem modifyNewCoins_over (ok : CoinsOk (.layer cache below))
    (absentBelow : below.coinsAt txid = none) (edit : CoinsEdit) :
    ∃ cache', modifyNewCoins txid edit (.layer cache below) = some (.layer cache' below) ∧
      CoinsOk (.layer cache' below) ∧ coinsAt (.layer cache' below) =
        update (coinsAt (.layer cache below)) txid (edit.onVisible none) :=
  ⟨_, rfl, closeModifier_spec txid _ ok rfl ⟨fun _ => absentBelow, by rintro ⟨⟩, by rintro ⟨⟩⟩⟩

/-- Where the top cache holds nothing but a fresh entry, an id that reads as absent is
absent below too. -/
theorem absent_below (ok : CoinsOk (.layer cache below))
    (absent : coinsAt (.layer cache below) txid = none)
    (top : TopFreshOrAbsent txid (.layer cache below)) :
    below.coinsAt txid = none := by
  cases hit : cache.cacheCoins.lookup txid with
  | none => rwa [coinsAt_miss hit] at absent
  | some entry => exact (ok.1 txid entry hit).fresh_absent (top entry hit)

theorem modifyNewCoins_spec (ok : CoinsOk v) (absent : v.coinsAt txid = none)
    (top : TopFreshOrAbsent txid v) (ran : modifyNewCoins txid edit v = some v') :
    CoinsOk v' ∧ v'.coinsAt = update v.coinsAt txid (edit.onVisible none) := by
  cases v with
  | base _ => cases ran
  | layer _ _ =>
    obtain ⟨_, made, spec⟩ := modifyNewCoins_over ok (absent_below ok absent top) edit
    rw [made] at ran
    cases ran
    exact spec

end CCoinsView

/-! Writing a child's entries into its parent -/

/-- What `BatchWrite` leaves under a key of the parent cache. -/
def CCoinsViewCache.mergedCoins (entry : CCoinsCacheEntry) :
    Option CCoinsCacheEntry → Option CCoinsCacheEntry
  | none => if entry.dirty && !entry.coins.isPruned then some ⟨entry.coins, true, true⟩ else none
  | some us =>
    if entry.dirty then
      if us.fresh && entry.coins.isPruned then none else some ⟨entry.coins, true, us.fresh⟩
    else some us

theorem CCoinsViewCache.writeCoins_local : KeyLocalM writeCoins
    (fun entry us => us = none → entry.dirty = true → entry.coins.isPruned = false →
      entry.fresh = true) (fun _ => mergedCoins) := by
  refine ⟨fun m txid entry _ => ?_⟩
  unfold writeCoins mergedCoins
  cases hit : m.lookup txid with
  | none =>
    grind
  | some _ =>
    grind

theorem CCoinsViewDB.writeCoins_local : KeyLocal writeCoins (fun _ entry held => if entry.dirty then
      if entry.coins.isPruned then none else some entry.coins else held) := by
  constructor <;> intros <;> unfold writeCoins <;> grind

variable {base : CCoinsView}

/-- One key of a flush into a cache: what is left there is in order and reads as the two
entries did together. -/
private theorem mergedCoins_entryOk
    (cacheOk : CoinsCacheOk cache base) (entryOk : CoinsEntryOk (.layer cache base) txid entry) :
    (mergedCoins entry (cache.cacheCoins.lookup txid)).elim
      (base.coinsAt txid = entry.coins.visible)
      fun merged => CoinsEntryOk base txid merged ∧ merged.coins.visible = entry.coins.visible := by
  cases hit : cache.cacheCoins.lookup txid with
  | none =>
    have same := coinsAt_miss hit base
    have freshEntry : entry.fresh = true := by
      by_contra notFresh
      have held := entryOk.fetched (by simpa using notFresh)
      simp [CCoinsView.HoldsCoins, Layers.Holds, hit] at held
    have absent : base.coinsAt txid = none := same ▸ entryOk.fresh_absent freshEntry
    unfold mergedCoins
    cases dirty : entry.dirty with
    | false => simpa [same] using (entryOk.unchanged dirty).symm
    | true =>
      cases pruned : entry.coins.isPruned with
      | true => simpa [absent] using (visible_eq_none.mpr pruned).symm
      | false =>
        exact ⟨⟨entryOk.clean, by rintro ⟨⟩, fun _ => absent, by rintro ⟨⟩, by rintro ⟨⟩⟩, rfl⟩
  | some us =>
    have usOk := cacheOk txid us hit
    unfold mergedCoins
    cases dirty : entry.dirty with
    | false =>
      refine ⟨usOk, ?_⟩
      rw [entryOk.unchanged dirty, coinsAt_hit hit]
    | true =>
      by_cases gone : (us.fresh && entry.coins.isPruned) = true
      · obtain ⟨fresh, pruned⟩ := Bool.and_eq_true_iff.mp gone
        simp only [↓reduceIte, gone, Option.elim]
        rw [usOk.fresh_absent fresh, visible_eq_none.mpr pruned]
      · simp only [↓reduceIte, gone]
        exact ⟨⟨entryOk.clean, by rintro ⟨⟩, usOk.fresh_absent, usOk.fetched, usOk.present⟩, rfl⟩

/-- `BatchWrite` into a cache: the assertion holds, and the parent afterwards reads as the
child did. -/
theorem mergeCoins_spec {child : CCoinsViewCache}
    (ok : CoinsOk (.layer child (.layer cache base))) : ∃ merged, child.cacheCoins.entries.foldlM
        (fun m e => writeCoins m e.1 e.2) cache.cacheCoins = some merged ∧
      ∀ cache' : CCoinsViewCache, cache'.cacheCoins = merged → CoinsOk (.layer cache' base) ∧
        coinsAt (.layer cache' base) = coinsAt (.layer child (.layer cache base)) := by
  obtain ⟨childOk, cacheOk, baseOk⟩ := ok
  obtain ⟨merged, folded, lookups⟩ := writeCoins_local.lookup_foldlM
    child.cacheCoins cache.cacheCoins (fun txid entry hit missing _ _ => by
      by_contra notFresh
      have held := (childOk txid entry hit).fetched (by simpa using notFresh)
      simp [CCoinsView.HoldsCoins, Layers.Holds, missing] at held)
  refine ⟨merged, folded, fun cache' out => ?_⟩
  subst out
  have flushed : coinsAt (.layer cache' base) = coinsAt (.layer child (.layer cache base)) ∧
      CoinsCacheOk cache' base :=
    Layers.visible_flush lookups cacheOk fun txid entry hit =>
      mergedCoins_entryOk cacheOk (childOk txid entry hit)
  exact ⟨⟨flushed.2, baseOk⟩, flushed.1⟩

theorem CCoinsViewDB.batchWrite_coins (H : ShieldedType → MerkleHash) {child : CCoinsViewCache}
    {db : CCoinsViewDB} (ok : CoinsOk (.layer child (.base db))) :
    coinsAt (.base (db.batchWrite H child)) = coinsAt (.layer child (.base db)) := by
  have out := writeCoins_local.lookup_foldl child.cacheCoins db.coins
  refine Layers.visible_flush_base (fun txid missing => ?_) (fun txid entry hit => ?_)
  · simp [getCoins, batchWrite, out, mergedLookup_none missing]
  · have entryOk := ok.1 txid entry hit
    simp only [getCoins, batchWrite, out, mergedLookup_some hit]
    cases dirty : entry.dirty with
    | false =>
      exact (entryOk.unchanged dirty).symm
    | true =>
      cases pruned : entry.coins.isPruned with
      | true => simpa using (visible_eq_none.mpr pruned).symm
      | false => simp [show entry.coins.cleanup = entry.coins from entryOk.clean]

end Zcashd.Source
