import Zcashd.Source.CoinsCoherence
import Zcashd.Source.ViewFrames

/-!
# A stack of coins caches is a flat map

Any number of `CCoinsViewCache` objects over a database, worked on through the top cache
by `ModifyCoins`, `ModifyNewCoins`, reads, new caches and flushes, answers every
transaction id as one map would that got the same edits. The `FRESH` assertion of
`BatchWrite` never fails.

`ModifyNewCoins` needs more than its callers can see. It marks its entry fresh whatever
was there, and where the top cache holds a spent but not fresh entry, the base still has
the unspent one: the fresh mark then lets the deletion be forgotten and the spent coin
comes back (`modifyNewCoins_resurrects`). The header states the assumption that no entry
exists; `Op.Allowed` is the part of it that is needed.
-/
namespace Zcashd.Guarantees.CoinsCache

open Lib Source Source.CCoinsView

/-- Operations on the top cache, and on the stack itself. -/
inductive Op where
  | read (txid : Uint256)
  | modifyCoins (txid : Uint256) (edit : CoinsEdit)
  | modifyNewCoins (txid : Uint256) (edit : CoinsEdit)
  | pushCache
  | flushAndPop

namespace Op

def step (H : ShieldedType → MerkleHash) : Op → CCoinsView → Option CCoinsView
  | read txid, v => some (fetchCoins txid v).2
  | modifyCoins txid edit, v => CCoinsView.modifyCoins txid edit v
  | modifyNewCoins txid edit, v => CCoinsView.modifyNewCoins txid edit v
  | pushCache, v => some (CCoinsView.pushCache v)
  | flushAndPop, v => CCoinsView.flushAndPop H v

/-- The same edit on a flat map; `none` is absent or pruned. -/
def onMap : Op → (Uint256 → Option CCoins) → Uint256 → Option CCoins
  | modifyCoins txid edit, m => Function.update m txid (edit.onVisible (m txid))
  | modifyNewCoins txid edit, m => Function.update m txid (edit.onVisible none)
  | _, m => m

/-- `ModifyNewCoins` is called when the view reports the id absent or pruned. -/
def Reported (v : CCoinsView) : Op → Prop
  | modifyNewCoins txid _ => (getCoins txid v).bind CCoins.visible = none
  | _ => True

/-- And the top cache holds no entry under the id, or a fresh one. -/
def Allowed (v : CCoinsView) : Op → Prop
  | modifyNewCoins txid edit => Reported v (modifyNewCoins txid edit) ∧ TopFreshOrAbsent txid v
  | _ => True

end Op

/-- The stacks reached from a database by operations that were `allowed`, with the flat map
that got the same edits. -/
inductive Run (H : ShieldedType → MerkleHash) (allowed : CCoinsView → Op → Prop)
    (db : CCoinsViewDB) :
    CCoinsView → (Uint256 → Option CCoins) → Prop
  | start : Run H allowed db (.base db) (fun txid => (db.getCoins txid).bind CCoins.visible)
  | step {v v' : CCoinsView} {m : Uint256 → Option CCoins} (op : Op) (before : Run H allowed db v m)
      (permitted : allowed v op) (success : op.step H v = some v') :
        Run H allowed db v' (op.onMap m)

/-- No cache has selected a history epoch; the coins operations never do. -/
def NoHistory : CCoinsView → Prop :=
  Layers.Every (fun cache _ => cache.historyCacheMap = ∅) (fun _ => True)

variable {v v' : CCoinsView}

theorem NoHistory.of_sameBut (old : NoHistory v) (same : v.SameBut .coins v') : NoHistory v' := by
  refine Layers.Every.of_forall₂ same (fun c c' _ _ keeps _ empty => ?_)
    (fun _ _ _ _ => trivial) old
  rw [keeps]
  exact empty

variable {cache : CCoinsViewCache} {base : CCoinsView} (H : ShieldedType → MerkleHash)

theorem flushAndPop_spec
    (ok : CoinsOk (.layer cache base)) (noHistory : NoHistory (.layer cache base)) :
    ∃ v', flushAndPop H (.layer cache base) = some v' ∧ CoinsOk v' ∧ NoHistory v' ∧
      v'.coinsAt = coinsAt (.layer cache base) := by
  cases base with
  | base db =>
    exact ⟨.base (db.batchWrite H cache), rfl, trivial, trivial, CCoinsViewDB.batchWrite_coins H ok⟩
  | layer parent base =>
    obtain ⟨merged, folded, spec⟩ := mergeCoins_spec ok
    obtain ⟨noChild, noParent, noBase⟩ := noHistory
    have out : ∃ parent', parent.batchWrite cache = some parent' ∧ parent'.cacheCoins = merged ∧
        parent'.historyCacheMap = parent.historyCacheMap := by
      simp [CCoinsViewCache.batchWrite, folded, noChild]
    obtain ⟨parent', ran, coins, history⟩ := out
    obtain ⟨mergedOk, same⟩ := spec parent' coins
    refine ⟨.layer parent' base, ?_, mergedOk, ⟨history.trans noParent, noBase⟩, same⟩
    simp [flushAndPop, flush, ran, pop]

/-- One operation keeps the invariant and does to the visible coins what it does to the map. -/
theorem step_spec {op : Op} (ok : CoinsOk v)
    (noHistory : NoHistory v) (allowed : op.Allowed v) (ran : op.step H v = some v') :
    CoinsOk v' ∧ NoHistory v' ∧ v'.coinsAt = op.onMap v.coinsAt := by
  cases op with
  | read txid =>
    cases ran
    have spec := fetchCoins_spec txid v ok
    exact ⟨spec.ok, noHistory.of_sameBut (fetchCoins_sameBut txid v), funext spec.fill.same⟩
  | modifyCoins _ _ =>
    obtain ⟨nextOk, reads⟩ := modifyCoins_spec ok ran
    exact ⟨nextOk, noHistory.of_sameBut (modifyCoins_sameBut ran), reads⟩
  | modifyNewCoins txid _ =>
    obtain ⟨reported, top⟩ := allowed
    have absent : v.coinsAt txid = none := (fetchCoins_spec txid v ok).value.symm.trans reported
    obtain ⟨nextOk, reads⟩ := modifyNewCoins_spec ok absent top ran
    exact ⟨nextOk, noHistory.of_sameBut (modifyNewCoins_sameBut ran), reads⟩
  | pushCache =>
    cases ran
    exact ⟨⟨by rintro txid _ ⟨⟩, ok⟩, ⟨rfl, noHistory⟩, rfl⟩
  | flushAndPop =>
    cases v with
    | base _ => cases ran
    | layer cache base =>
      obtain ⟨w, flushed, nextOk, next, reads⟩ := flushAndPop_spec H ok noHistory
      rw [show Op.flushAndPop.step H (.layer cache base) = some w from flushed] at ran
      cases ran
      exact ⟨nextOk, next, reads⟩

theorem Run.invariant {H : ShieldedType → MerkleHash} {db : CCoinsViewDB}
    {m : Uint256 → Option CCoins} (run : Run H (fun v op => op.Allowed v) db v m) :
    CoinsOk v ∧ NoHistory v ∧ v.coinsAt = m := by
  induction run with
  | start => exact ⟨trivial, trivial, rfl⟩
  | step _ _ permitted ran ih =>
    obtain ⟨ok, noHistory, rfl⟩ := ih
    exact step_spec H ok noHistory permitted ran

theorem haveCoins_spec (ok : CoinsOk (.layer cache base))
    (txid : Uint256) :
    haveCoins txid (.layer cache base) = (coinsAt (.layer cache base) txid).isSome := by
  have spec := fetchCoins_spec txid _ ok
  rw [← spec.value]
  simp only [haveCoins]
  cases answer : (fetchCoins txid (.layer cache base)).1 with
  | none => rfl
  | some coins =>
    have clean := spec.clean coins answer
    simp only [clean.vout_isEmpty, Option.bind_some, CCoins.visible]
    cases coins.isPruned <;> rfl

/-- Over every run of allowed operations the top cache answers each id as the flat map does,
and the flush of the top cache fails no assertion. -/
theorem stack_refines_flat_map {H : ShieldedType → MerkleHash} {db : CCoinsViewDB} {v : CCoinsView}
    {m : Uint256 → Option CCoins} (run : Run H (fun v op => op.Allowed v) db v m) :
    (∀ txid, (getCoins txid v).bind CCoins.visible = m txid ∧
      (accessCoins txid v).bind CCoins.visible = m txid) ∧
    (∀ cache base, v = .layer cache base → (∀ txid, haveCoins txid v = (m txid).isSome) ∧
      (flushAndPop H v).isSome) := by
  obtain ⟨ok, noHistory, rfl⟩ := run.invariant
  refine ⟨fun txid => ?_, ?_⟩
  · have value := (fetchCoins_spec txid v ok).value
    exact ⟨value, value⟩
  · rintro _ _ rfl
    obtain ⟨w, flushed, -⟩ := flushAndPop_spec H ok noHistory
    exact ⟨haveCoins_spec ok, by rw [flushed]; rfl⟩

/-- One unspent output of ten coins. -/
def tenCoins : CCoins := ⟨false, [⟨10 * COIN, [0x51]⟩], 7, 4⟩

def storedCoins : CCoinsViewDB := { CCoinsViewDB.empty with coins := AList.singleton 1 tenCoins }

def spendAll : CoinsEdit := .assign .clear

/-- Two caches, a coin spent in the upper one, both flushed: the database has forgotten it. -/
theorem stack_refines_flat_map_spend :
    ∃ v m, Run ShieldedType.linearHash (fun v op => op.Allowed v) storedCoins v m ∧
      (getCoins 1 v).bind CCoins.visible = none := by
  have opened : Run ShieldedType.linearHash (fun v op => op.Allowed v) storedCoins _ _ := .start
  have run := opened
    |>.step .pushCache trivial rfl
    |>.step .pushCache trivial rfl
    |>.step (.modifyCoins 1 spendAll) trivial rfl
    |>.step .flushAndPop trivial rfl
    |>.step .flushAndPop trivial rfl
  exact ⟨_, _, run, ((stack_refines_flat_map run).1 1).1⟩

/-- With only what the view reports as the condition on `ModifyNewCoins`, a spent coin comes
back: it is spent through a cache, so the cache keeps a pruned entry that is not fresh;
`ModifyNewCoins` marks it fresh; the new coin is spent too, the fresh pruned entry is
dropped, and the base shows the first coin again. -/
theorem modifyNewCoins_resurrects :
    ∃ v m, Run ShieldedType.linearHash (fun v op => op.Reported v) storedCoins v m ∧
      m 1 = none ∧ getCoins 1 v = some tenCoins := by
  have opened : Run ShieldedType.linearHash (fun v op => op.Reported v) storedCoins _ _ := .start
  have run := opened
    |>.step .pushCache trivial rfl
    |>.step (.modifyCoins 1 spendAll) trivial rfl
    |>.step (.modifyNewCoins 1 (.assign tenCoins))
      (by change Option.bind _ _ = none; decide +kernel) rfl
    |>.step (.modifyCoins 1 spendAll) trivial rfl
  exact ⟨_, _, run, by decide +kernel, by decide +kernel⟩

end Zcashd.Guarantees.CoinsCache
