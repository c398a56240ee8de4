import Zcashd.Source.View
import Zcashd.Source.CoinsCoherence
import Zcashd.Source.HistoryCoherence
import Zcashd.Source.ShieldedCoherence

/-!
The state a view stands for: the unspent coins, two shielded pools, the best block and the
history trees, as plain maps. `simulates` connects it with the stack of caches: a program
over the view's operations gives the same on both.
-/
namespace Zcashd.Abstract

open Lib Source CCoinsView ViewOp Function

/-- What a view stands for: maps, sets and hashes, with no caches. -/
@[ext] structure FlatView where
  coins : Uint256 → Option CCoins
  pools : ShieldedType → PoolState
  bestBlock : Uint256
  history : Nat → EpochHistory

namespace FlatView

/-- The operations on a flat view. -/
def onFlat (H : ShieldedType → MerkleHash) (lib : MMRLibrary) :
    Handler viewSignature Failure FlatView
  | .accessCoins txid, f => .ok (f.coins txid, f)
  | .modifyCoins txid edit, f =>
    .ok ((), { f with coins := update f.coins txid (edit.onVisible (f.coins txid)) })
  | .modifyNewCoins txid edit, f =>
    .ok ((), { f with coins := update f.coins txid (edit.onVisible none) })
  | .getAnchorAt type rt, f => .ok ((f.pools type).anchors rt, f)
  | .getNullifier type nf, f => .ok ((f.pools type).nullifiers nf, f)
  | .getBestAnchor type, f => .ok ((f.pools type).best, f)
  | .pushAnchor type tree, f =>
    .ok ((), { f with pools := update f.pools type ((f.pools type).pushAnchor (H type) tree) })
  | .popAnchor type newrt, f =>
    if (f.pools type).best = newrt ∨ ((f.pools type).anchors (f.pools type).best).isSome then
      .ok ((), { f with pools := update f.pools type ((f.pools type).popAnchor newrt) })
    else .error .aborted
  | .setNullifiers tx spent, f =>
    .ok ((), { f with pools := fun type => (f.pools type).setNullifiers (tx.revealed type) spent })
  | .getBestBlock, f => .ok (f.bestBlock, f)
  | .setBestBlock hashBlock, f => .ok ((), { f with bestBlock := hashBlock })
  | .getHistoryRoot epochId, f => .ok ((f.history epochId).root, f)
  | .pushHistoryNode epochId node, f =>
    orAbort (((f.history epochId).push lib epochId node).map
      (fun h => { f with history := update f.history epochId h }))
  | .popHistoryNode epochId, f =>
    orAbort (((f.history epochId).pop lib epochId).map
      (fun h => { f with history := update f.history epochId h }))
  | .sum a b, f => .ok (wrapInt64 (a + b), f)

/-- `f` with a member of `g`. -/
def written (f : FlatView) (g : FlatView) : Member → FlatView
  | .coins => { f with coins := g.coins }
  | .shielded => { f with pools := g.pools }
  | .history => { f with history := g.history }
  | .block => { f with bestBlock := g.bestBlock }

end FlatView

/-! Components a method does not write -/

section

variable {H : ShieldedType → MerkleHash} {T : ShieldedType → Set IncrementalMerkleTree}

/-- The best block a view reports; a null hash means that the cache has not read its base. -/
def blockAt : CCoinsView → Uint256
  | .base db => db.getBestBlock
  | .layer cache base => if cache.hashBlock.isNull then blockAt base else cache.hashBlock

variable {mem : Member}

/-- What a method does not write. -/
theorem sameBut_kept {c c' : CCoinsViewCache} (changed : c.SameBut mem c') :
    (mem ≠ .coins → c'.cacheCoins = c.cacheCoins) ∧
    (mem ≠ .shielded → c'.cacheAnchors = c.cacheAnchors ∧ c'.cacheNullifiers = c.cacheNullifiers ∧
      c'.hashAnchor = c.hashAnchor) ∧
    (mem ≠ .history → c'.historyCacheMap = c.historyCacheMap) ∧
    (mem ≠ .block → c'.hashBlock = c.hashBlock) := by
  cases mem <;> (rw [changed]; simp)

section

variable {v v' : CCoinsView} (same : v.SameBut mem v')
include same

theorem coinsFill_of_sameBut (other : mem ≠ .coins) : CoinsFill v v' := by
  have kept : ∀ c c' : CCoinsViewCache, c.SameBut mem c' → c'.cacheCoins = c.cacheCoins :=
    fun _ _ changed => (sameBut_kept changed).1 other
  constructor
  · intro txid
    exact Layers.visible_congr (same.mono (fun c c' changed => by rw [kept c c' changed])
      (fun _ _ equal => by rw [equal])) txid
  · intro _ held
    cases same with
    | base _ => trivial
    | layer changed _ =>
      simpa only [CCoinsView.HoldsCoins, Layers.Holds, kept _ _ changed] using held

theorem coinsOk_of_sameBut (other : mem ≠ .coins) (ok : CoinsOk v) : CoinsOk v' := by
  refine Layers.Every.of_forall₂ same (fun c _ _ _ changed rest cacheOk => ?_)
    (fun _ _ _ _ => trivial) ok
  intro txid entry hit
  rw [(sameBut_kept changed).1 other] at hit
  exact (coinsFill_of_sameBut rest other).entryOk (cacheOk txid entry hit)

section

variable (other : mem ≠ .shielded)
include other

theorem pools_of_sameBut : v'.pools H = v.pools H := by
  induction same with
  | base equal => rw [equal]
  | @layer c _ below below' changed _ ih =>
    obtain ⟨anchors, nullifiers, best⟩ := (sameBut_kept changed).2.1 other
    funext type
    have below := congrFun ih type
    refine PoolState.ext (funext fun rt => ?_) ?_ (funext fun nf => ?_)
    · exact Layers.visible_layer_congr (by rw [anchors])
        (congrFun (congrArg PoolState.anchors below) rt)
    · have belowBest : bestAt H type below' = bestAt H type _ :=
        congrArg PoolState.best below
      simp [pools, bestAt, best, belowBest]
    · exact Layers.visible_layer_congr (by rw [nullifiers])
        (congrFun (congrArg PoolState.nullifiers below) nf)

theorem shieldedOk_of_sameBut (ok : ShieldedOk H T v) : ShieldedOk H T v' := by
  refine Layers.Every.of_forall₂ same (fun c _ _ _ changed rest cacheOk => ?_)
    (fun _ _ equal rooted => equal ▸ rooted) ok
  have kept := (sameBut_kept changed).2.1 other
  have moved := cacheOk.congr (pools_of_sameBut rest other)
  constructor
  · rw [kept.1]
    exact moved.anchors
  · unfold NullifiersCacheOk
    rw [kept.2.1]
    exact moved.nullifiers

theorem sameNullifiers_of_sameBut : v.SameNullifiers v' := by
  exact same.mono (fun c _ changed => ((sameBut_kept changed).2.1 other).2.1)
    (fun _ _ equal => equal)

end

theorem historyFill_of_sameBut (other : mem ≠ .history) : HistoryFill v v' := by
  have kept : ∀ c c' : CCoinsViewCache, c.SameBut mem c' → c'.historyCacheMap = c.historyCacheMap :=
    fun _ _ changed => (sameBut_kept changed).2.2.1 other
  constructor
  · intro _
    induction same with
    | base equal => rw [equal]
    | layer changed _ ih => exact history_layer_congr (by rw [kept _ _ changed]) ih
  · intro _ held
    cases same with
    | base _ => trivial
    | layer changed _ =>
      simpa only [CCoinsView.HoldsHistory, Layers.Holds, kept _ _ changed] using held

theorem historyOk_of_sameBut (other : mem ≠ .history) (ok : HistoryOk v) : HistoryOk v' := by
  refine Layers.Every.of_forall₂ same (fun c _ _ _ changed rest cacheOk => ?_)
    (fun _ _ equal held => equal ▸ held) ok
  intro epochId h hit
  rw [(sameBut_kept changed).2.2.1 other] at hit
  exact (historyFill_of_sameBut rest other).cacheOk cacheOk epochId h hit

theorem blockAt_of_sameBut (other : mem ≠ .block) : blockAt v' = blockAt v := by
  induction same with
  | base equal => rw [equal]
  | @layer c _ _ _ changed _ ih =>
    simp [blockAt, (sameBut_kept changed).2.2.2 other, ih]

end

theorem getBestBlock_spec :
    (getBestBlock v).1 = blockAt v ∧ blockAt (getBestBlock v).2 = blockAt v := by
  induction v with
  | base _ => exact ⟨rfl, rfl⟩
  | layer cache _ _ =>
    by_cases unread : cache.hashBlock.isNull = true
    · simp only [CCoinsView.getBestBlock, blockAt, unread, ↓reduceIte]
      grind
    · simp [CCoinsView.getBestBlock, blockAt, unread]

end

/-! The stack simulates the flat view -/

section

variable (H : ShieldedType → MerkleHash) (T : ShieldedType → Set IncrementalMerkleTree)

def flatten (v : CCoinsView) : FlatView :=
  ⟨v.coinsAt, v.pools H, blockAt v, fun epochId => v.history epochId⟩

/-- The caches of a stack agree with one another. -/
structure Coherent (v : CCoinsView) : Prop where
  coins : CoinsOk v
  shielded : ShieldedOk H T v
  history : HistoryOk v

/-- The coins, nullifiers and histories of a stack are in order; nothing is said of its anchors. -/
structure InOrder (v : CCoinsView) : Prop where
  coins : CoinsOk v
  nullifiers : NullifiersOk v
  history : HistoryOk v

/-- A stack in order with a cache on top shows a flat view. The ids in `free` are unspent in
nothing below that cache, so new entries for them may be marked fresh. -/
structure Shows (free : Set Uint256) (v : CCoinsView) (f : FlatView) : Prop extends InOrder v where
  flat : flatten H v = f
  top : ∃ cache base, v = .layer cache base
  absent : ∀ txid ∈ free, v.under.coinsAt txid = none

/-- The same of a coherent stack, which also keeps its anchors in order. -/
structure Represents (free : Set Uint256) (v : CCoinsView) (f : FlatView) : Prop where
  coherent : Coherent H T v
  flat : flatten H v = f
  top : ∃ cache base, v = .layer cache base
  absent : ∀ txid ∈ free, v.under.coinsAt txid = none

/-- What the callers of the view's methods see to. -/
def Admissible (free : Set Uint256) : ViewOp → FlatView → Prop
  | .modifyNewCoins txid _, _ => txid ∈ free
  | .pushAnchor type tree, _ => tree ∈ T type
  | .popAnchor type newrt, f => newrt ≠ 0 ∧ ((f.pools type).anchors (f.pools type).best).isSome
  | .setBestBlock hashBlock, _ => hashBlock ≠ 0
  | _, _ => True

/-- The calls that move no anchor and no best block, those made for transactions among them. -/
def LedgerCall (free : Set Uint256) : ViewOp → Prop
  | .modifyNewCoins txid _ => txid ∈ free
  | .pushAnchor _ _ | .popAnchor _ _ | .setBestBlock _ => False
  | _ => True

variable {H T} {free : Set Uint256} {v v' : CCoinsView} {f : FlatView}

theorem Represents.shows (rep : Represents H T free v f) : Shows H free v f :=
  ⟨⟨rep.coherent.coins, rep.coherent.shielded.nullifiersOk, rep.coherent.history⟩, rep.flat,
    rep.top, rep.absent⟩

namespace Shows

theorem represents (shows' : Shows H free v f) (shielded : ShieldedOk H T v) :
    Represents H T free v f :=
  ⟨⟨shows'.coins, shielded, shows'.history⟩, shows'.flat, shows'.top, shows'.absent⟩

variable {mem : Member}

theorem under_of_sameBut (other : mem ≠ .coins) (same : v.SameBut mem v') :
    v'.under.coinsAt = v.under.coinsAt := by
  cases same with
  | base equal => rw [equal]
  | layer _ rest => exact funext (coinsFill_of_sameBut rest other).same

variable (shows' : Shows H free v f)
include shows'

theorem top_of_sameBut (same : v.SameBut mem v') : ∃ cache base, v' = .layer cache base := by
  obtain ⟨_, _, rfl⟩ := shows'.top
  cases same with
  | layer _ _ => exact ⟨_, _, rfl⟩

/-- A method that keeps to one member. -/
theorem step (same : v.SameBut mem v')
    (coins : mem = .coins → CoinsOk v' ∧ v'.under.coinsAt = v.under.coinsAt)
    (nullifiers : mem = .shielded → NullifiersOk v') (history : mem = .history → HistoryOk v') :
    Shows H free v' (f.written (flatten H v') mem) where
  coins := if here : mem = .coins then (coins here).1 else coinsOk_of_sameBut same here shows'.coins
  nullifiers := if here : mem = .shielded then nullifiers here
    else shows'.nullifiers.of_same (sameNullifiers_of_sameBut same here)
  history := if here :
    mem = .history then history here else historyOk_of_sameBut same here shows'.history
  flat := by
    rw [← shows'.flat]
    have coinsKept (other : mem ≠ .coins) := funext (coinsFill_of_sameBut same other).same
    have poolsKept (other : mem ≠ .shielded) := pools_of_sameBut (H := H) same other
    have blockKept (other : mem ≠ .block) := blockAt_of_sameBut same other
    have historyKept (other : mem ≠ .history) := funext (historyFill_of_sameBut same other).same
    cases mem <;> simp_all [FlatView.written, flatten]
  top := shows'.top_of_sameBut same
  absent txid inFree := by
    by_cases here : mem = .coins
    · rw [(coins here).2]
      exact shows'.absent txid inFree
    · rw [under_of_sameBut here same]
      exact shows'.absent txid inFree

theorem coins_step {coins : Uint256 → Option CCoins} (same : v.SameBut .coins v') (ok : CoinsOk v')
    (kept : v'.under.coinsAt = v.under.coinsAt) (next : v'.coinsAt = coins) :
    Shows H free v' { f with coins } :=
  next ▸ shows'.step same (fun _ => ⟨ok, kept⟩) nofun nofun

theorem shielded_step {pools : ShieldedType → PoolState} (same : v.SameBut .shielded v')
    (ok : NullifiersOk v') (next : v'.pools H = pools) :
    Shows H free v' { f with pools } := next ▸ shows'.step same nofun (fun _ => ok) nofun

theorem history_step {history : Nat → EpochHistory} (same : v.SameBut .history v')
    (ok : HistoryOk v') (next : (fun epochId => v'.history epochId) = history) :
    Shows H free v' { f with history } :=
  next ▸ shows'.step same nofun nofun fun _ => ok

theorem block_step {bestBlock : Uint256} (same : v.SameBut .block v')
    (next : blockAt v' = bestBlock) :
    Shows H free v' { f with bestBlock } := next ▸ shows'.step same nofun nofun nofun

end Shows

variable {result : Option CCoinsView}

/-- The outcome of a history operation on the stack against the flat one. -/
private theorem history_related {epochId : Nat} {target : Option EpochHistory}
    (shows' : Shows H free v f) (outcome : CCoinsView.HistoryOutcome epochId v target result)
    (same : ∀ v', result = some v' → v.SameBut .history v') :
    Program.Related (Shows H free) (orAbort result)
      (orAbort (target.map (fun h => { f with history := update f.history epochId h }))) := by
  cases target with
  | none =>
    rw [show result = none from outcome]
    rfl
  | some h =>
    obtain ⟨v', rfl, ok, reads⟩ := outcome
    refine ⟨rfl, ?_⟩
    apply shows'.history_step (same v' rfl) ok
    rw [← shows'.flat]
    funext other
    rw [reads other]
    by_cases epoch : other = epochId
    · subst epoch
      rw [if_pos rfl, update_self]
    · rw [if_neg epoch, update_of_ne epoch]
      rfl

/-- Calls that move no anchor need nothing of the anchors of a stack. -/
theorem simulatesLedger (lib : MMRLibrary) (free : Set Uint256) :
    Program.Simulates (Shows H free) (fun op _ => LedgerCall free op) (onStack H lib)
      (FlatView.onFlat H lib) := by
  refine ⟨fun op v f shows' call => ?_⟩
  have coinsEq : v.coinsAt = f.coins := congrArg FlatView.coins shows'.flat
  have poolsEq : v.pools H = f.pools := congrArg FlatView.pools shows'.flat
  have coinsOk := shows'.coins
  obtain ⟨cache, base, rfl⟩ := shows'.top
  cases op with
  | accessCoins txid =>
    have spec := fetchCoins_spec txid _ coinsOk
    refine ⟨spec.value.trans (congrFun coinsEq txid), ?_⟩
    exact shows'.coins_step (fetchCoins_sameBut txid _) spec.ok (fetchCoins_under txid coinsOk)
      ((funext spec.fill.same).trans coinsEq)
  | modifyCoins txid edit =>
    have made : ∃ v', modifyCoins txid edit (.layer cache base) = some v' := ⟨_, rfl⟩
    obtain ⟨v', made⟩ := made
    obtain ⟨ok, next⟩ := modifyCoins_spec coinsOk made
    rw [coinsEq] at next
    simp only [onStack, made]
    exact ⟨rfl, shows'.coins_step (modifyCoins_sameBut made) ok
      (modifyCoins_under coinsOk made) next⟩
  | modifyNewCoins txid edit =>
    obtain ⟨_, made, ok, next⟩ :=
      modifyNewCoins_over coinsOk (shows'.absent txid call) edit
    rw [coinsEq] at next
    simp only [onStack, made]
    exact ⟨rfl, shows'.coins_step (modifyNewCoins_sameBut made) ok rfl next⟩
  | getAnchorAt type rt =>
    obtain ⟨value, same⟩ := getAnchorAt_reads (H := H) type rt (.layer cache base)
    have kept := getAnchorAt_sameButAnchors H type rt (.layer cache base)
    refine ⟨value.trans ?_,
      shows'.shielded_step kept.sameBut (shows'.nullifiers.of_same kept.sameNullifiers)
      (same.trans poolsEq)⟩
    exact congrFun (congrArg PoolState.anchors (congrFun poolsEq type)) rt
  | getNullifier type nf =>
    obtain ⟨value, same⟩ := getNullifier_reads (H := H) type nf (.layer cache base)
    refine ⟨value.trans ?_, shows'.shielded_step (getNullifier_sameBut type nf _)
      (shows'.nullifiers.getNullifier H type nf) (same.trans poolsEq)⟩
    exact congrFun (congrArg PoolState.nullifiers (congrFun poolsEq type)) nf
  | getBestAnchor type =>
    obtain ⟨value, same⟩ := getBestAnchor_reads (H := H) type (.layer cache base)
    have kept := getBestAnchor_sameButAnchors H type (.layer cache base)
    refine ⟨value.trans ?_,
      shows'.shielded_step kept.sameBut (shows'.nullifiers.of_same kept.sameNullifiers)
      (same.trans poolsEq)⟩
    exact congrArg PoolState.best (congrFun poolsEq type)
  | setNullifiers tx spent =>
    have made : ∃ v', setNullifiers tx spent (.layer cache base) = some v' := ⟨_, rfl⟩
    obtain ⟨v', made⟩ := made
    have next := setNullifiers_pools (H := H) made
    rw [poolsEq] at next
    simp only [onStack, made]
    exact ⟨rfl, shows'.shielded_step (setNullifiers_sameBut made)
      (shows'.nullifiers.setNullifiers made) next⟩
  | getBestBlock =>
    obtain ⟨value, same⟩ := getBestBlock_spec
    have blockEq : blockAt (.layer cache base) = f.bestBlock :=
      congrArg FlatView.bestBlock shows'.flat
    exact ⟨value.trans blockEq, shows'.block_step (getBestBlock_sameBut _) (same.trans blockEq)⟩
  | sum a b => exact ⟨rfl, shows'⟩
  | getHistoryRoot epochId =>
    obtain ⟨-, root, ok, fill, -⟩ := selectHistoryCache_spec epochId _ shows'.history
    have histories : (fun epochId => history epochId (.layer cache base)) = f.history :=
      congrArg FlatView.history shows'.flat
    refine ⟨root.trans ?_,
      shows'.history_step (selectHistoryCache_sameBut epochId (.layer cache base)) ok
      ((funext fill.same).trans histories)⟩
    exact congrArg EpochHistory.root (congrFun histories epochId)
  | pushHistoryNode epochId node =>
    have history : history epochId (.layer cache base) = f.history epochId :=
      congrFun (congrArg FlatView.history shows'.flat) epochId
    have outcome := pushHistoryNode_spec lib epochId node shows'.history
    rw [history] at outcome
    exact history_related shows' outcome (fun _ made => pushHistoryNode_sameBut made)
  | popHistoryNode epochId =>
    have history : history epochId (.layer cache base) = f.history epochId :=
      congrFun (congrArg FlatView.history shows'.flat) epochId
    have outcome := popHistoryNode_spec lib epochId shows'.history
    rw [history] at outcome
    exact history_related shows' outcome (fun _ made => popHistoryNode_sameBut made)
  | pushAnchor | popAnchor | setBestBlock => exact call.elim

/-- A call that keeps the shielded members in order keeps a stack coherent. -/
private theorem orAbort_represents {outcome : Except Failure (Unit × FlatView)}
    (ok : ∀ v', result = some v' → ShieldedOk H T v')
    (related : Program.Related (Shows H free) (orAbort result) outcome) :
    Program.Related (Represents H T free) (orAbort result) outcome := by
  cases result with
  | none =>
    cases outcome with
    | error _ => exact related
    | ok _ => exact related.elim
  | some v' =>
    obtain ⟨g, rfl, next⟩ := Program.Related.ok related
    exact ⟨rfl, next.represents (ok v' rfl)⟩

/-- Every method does to a stack what it does to the flat view the stack stands for. -/
theorem simulates (play : TreesInPlay H T) (lib : MMRLibrary) (free : Set Uint256) :
    Program.Simulates (Represents H T free) (Admissible T free) (onStack H lib)
      (FlatView.onFlat H lib) := by
  refine ⟨fun op v f rep admissible => ?_⟩
  have poolsEq : v.pools H = f.pools := congrArg FlatView.pools rep.flat
  have shieldedOk := rep.coherent.shielded
  have kept : ∀ {mem v'}, v.SameBut mem v' → mem ≠ .shielded → ShieldedOk H T v' :=
    fun same other => shieldedOk_of_sameBut same other shieldedOk
  -- for the calls of `LedgerCall` it is left to see that the stack stays coherent
  have ledger : ∀ call : LedgerCall free op, _ := (simulatesLedger lib free).step op v f rep.shows
  obtain ⟨cache, base, rfl⟩ := rep.top
  cases op with
  | accessCoins txid =>
    exact (ledger trivial).imp_right (·.represents (kept (fetchCoins_sameBut txid _) (by decide)))
  | modifyCoins txid edit =>
    exact orAbort_represents (fun _ made => kept (modifyCoins_sameBut made) (by decide))
      (ledger trivial)
  | modifyNewCoins txid edit =>
    exact orAbort_represents (fun _ made => kept (modifyNewCoins_sameBut made) (by decide))
      (ledger admissible)
  | getAnchorAt type rt =>
    exact (ledger trivial).imp_right (·.represents (getAnchorAt_ok type rt shieldedOk))
  | getNullifier type nf =>
    exact (ledger trivial).imp_right (·.represents (getNullifier_ok type nf shieldedOk))
  | getBestAnchor type =>
    exact (ledger trivial).imp_right (·.represents (getBestAnchor_ok type shieldedOk))
  | pushAnchor type tree =>
    obtain ⟨_, made⟩ := pushAnchor_defined (H := H) type tree cache base
    obtain ⟨ok, next⟩ := pushAnchor_spec play admissible shieldedOk made
    rw [poolsEq] at next
    simp only [onStack, made]
    exact ⟨rfl, (rep.shows.shielded_step (pushAnchor_sameButAnchors made).sameBut ok.nullifiersOk
      next).represents ok⟩
  | popAnchor _ newrt =>
    obtain ⟨notNull, known⟩ := admissible
    obtain ⟨_, made⟩ := Option.isSome_iff_exists.mp
      (popAnchor_defined (H := H) newrt (by rw [poolsEq]; exact known))
    obtain ⟨ok, next⟩ := popAnchor_spec notNull shieldedOk made
    rw [poolsEq] at next
    simp only [onStack, FlatView.onFlat, made, known, or_true, ↓reduceIte]
    exact ⟨rfl, (rep.shows.shielded_step (popAnchor_sameButAnchors made).sameBut ok.nullifiersOk
      next).represents ok⟩
  | setNullifiers tx spent =>
    exact orAbort_represents (fun _ made => setNullifiers_ok shieldedOk made) (ledger trivial)
  | getBestBlock =>
    exact (ledger trivial).imp_right (·.represents (kept (getBestBlock_sameBut _) (by decide)))
  | setBestBlock hashBlock =>
    have made : setBestBlock hashBlock (.layer cache base) =
      some (.layer { cache with hashBlock := hashBlock } base) := rfl
    have same := setBestBlock_sameBut made
    have reads : blockAt (.layer { cache with hashBlock := hashBlock } base) = hashBlock := by
      simp only [blockAt, Uint256.isNull, beq_eq_false_iff_ne.mpr admissible,
        Bool.false_eq_true, ↓reduceIte]
    exact ⟨rfl, (rep.shows.block_step same reads).represents (kept same (by decide))⟩
  | getHistoryRoot epochId =>
    exact (ledger trivial).imp_right
      (·.represents (kept (selectHistoryCache_sameBut epochId _) (by decide)))
  | pushHistoryNode _ _ =>
    exact orAbort_represents (fun _ made => kept (pushHistoryNode_sameBut made) (by decide))
      (ledger trivial)
  | popHistoryNode _ =>
    exact orAbort_represents (fun _ made => kept (popHistoryNode_sameBut made) (by decide))
      (ledger trivial)
  | sum a b => exact ⟨rfl, rep⟩

/-- The top of the stack answers every reader as the flat view has it. -/
structure Answers (H : ShieldedType → MerkleHash) (v : CCoinsView) (f : FlatView) : Prop where
  coins : ∀ txid, (getCoins txid v).bind CCoins.visible = f.coins txid
  anchors : ∀ type rt, (getAnchorAt H type rt v).1 = (f.pools type).anchors rt
  bestAnchors : ∀ type, (getBestAnchor H type v).1 = (f.pools type).best
  nullifiers : ∀ type nf, (getNullifier type nf v).1 = (f.pools type).nullifiers nf
  bestBlock : (getBestBlock v).1 = f.bestBlock
  historyLength : ∀ epochId, getHistoryLength epochId v = (f.history epochId).nodes.length
  historyRoot : ∀ epochId, getHistoryRoot epochId v = (f.history epochId).root
  historyNodes : ∀ epochId i, getHistoryAt epochId i v = (f.history epochId).nodes[i]?

theorem Coherent.answers (coherent : Coherent H T v) : Answers H v (flatten H v) where
  coins txid := (fetchCoins_spec txid v coherent.coins).value
  anchors type rt := (getAnchorAt_reads type rt v).1
  bestAnchors type := (getBestAnchor_reads type v).1
  nullifiers type nf := (getNullifier_reads (H := H) type nf v).1
  bestBlock := (getBestBlock_spec).1
  historyLength epochId := (selectHistoryCache_spec epochId v coherent.history).length
  historyRoot epochId := (selectHistoryCache_spec epochId v coherent.history).root
  historyNodes epochId i := by
    have selected := selectHistoryCache_spec epochId v coherent.history
    rw [getHistoryAt, readHistoryAt_spec epochId i _ selected.ok, selected.fill.same]
    rfl

/-- A new cache changes nothing that a reader sees. -/
theorem Coherent.pushCache (coherent : Coherent H T v) : Coherent H T (pushCache v) where
  coins := ⟨nofun, coherent.coins⟩
  shielded := ⟨⟨nofun, nofun⟩, coherent.shielded⟩
  history := ⟨nofun, coherent.history⟩

end

end Zcashd.Abstract
