import Zcashd.Source.CoinsViewOps

/-!
What the methods of the view stack leave alone. A method on the coins changes `cacheCoins`
of the caches it passes and nothing else, a method on the shielded state only the shielded
members, and so on; no method but `Flush` touches the database.
-/
namespace Zcashd.Source

open Lib

/-- The groups of members a method may write. -/
inductive Member where
  | coins
  | shielded
  | history
  | block
deriving DecidableEq, Repr

/-- The two caches agree outside one group of members. -/
def CCoinsViewCache.SameBut : Member → CCoinsViewCache → CCoinsViewCache → Prop
  | .coins, c, c' => c' = { c with cacheCoins := c'.cacheCoins }
  | .shielded, c, c' => c' = { c with hashAnchor := c'.hashAnchor, cacheAnchors := c'.cacheAnchors,
                                      cacheNullifiers := c'.cacheNullifiers }
  | .history, c, c' => c' = { c with historyCacheMap := c'.historyCacheMap }
  | .block, c, c' => c' = { c with hashBlock := c'.hashBlock }

theorem CCoinsViewCache.SameBut.refl (member : Member) (c : CCoinsViewCache) :
    c.SameBut member c := by
  cases member <;> rfl

variable {member : Member}

theorem CCoinsViewCache.SameBut.trans (a b c : CCoinsViewCache)
    (first : a.SameBut member b) (second : b.SameBut member c) : a.SameBut member c := by
  cases member <;> (unfold SameBut at *; rw [second, first])

/-- The two stacks agree outside one group of members, with the same database. -/
def CCoinsView.SameBut (member : Member) : CCoinsView → CCoinsView → Prop :=
  Layers.Forall₂ (CCoinsViewCache.SameBut member) Eq

namespace CCoinsView

theorem SameBut.refl (member : Member) (v : CCoinsView) : v.SameBut member v :=
  Layers.Forall₂.refl (CCoinsViewCache.SameBut.refl member) (fun _ => rfl) v

theorem SameBut.trans {u v w : CCoinsView} (first : u.SameBut member v)
    (second : v.SameBut member w) : u.SameBut member w :=
  Layers.Forall₂.trans CCoinsViewCache.SameBut.trans (fun _ _ _ same same' => same.trans same')
    first second

/-- The two stacks agree outside the anchors. -/
def SameButAnchors : CCoinsView → CCoinsView → Prop :=
  Layers.Forall₂
    (fun c c' => c' = { c with hashAnchor := c'.hashAnchor, cacheAnchors := c'.cacheAnchors }) Eq

theorem SameButAnchors.refl (v : CCoinsView) : v.SameButAnchors v := by
  apply Layers.Forall₂.refl
  · exact fun _ => rfl
  · exact fun _ => rfl

theorem SameButAnchors.trans {u v w : CCoinsView} (first : u.SameButAnchors v)
    (second : v.SameButAnchors w) :
    u.SameButAnchors w :=
  Layers.Forall₂.trans (fun _ _ _ same same' => by rw [same', same])
    (fun _ _ _ same same' => same.trans same') first second

variable {v v' : CCoinsView}

theorem SameButAnchors.sameBut (same : v.SameButAnchors v') : v.SameBut .shielded v' := by
  refine same.mono (fun _ _ changed => ?_) (fun _ _ equal => equal)
  rw [changed]
  rfl

/-- A change of the top cache. -/
theorem onTop_keeps {R : CCoinsViewCache → CCoinsViewCache → Prop} (refl : ∀ c, R c c)
    {f : CCoinsViewCache → CCoinsViewCache} (ran : onTop f v = some v') (keeps : ∀ c, R c (f c)) :
    Layers.Forall₂ R Eq v v' := by
  cases v with
  | base _ => cases ran
  | layer cache below =>
    cases ran
    exact .layer (keeps cache) (.refl refl (fun _ => rfl) below)

theorem onTop_sameBut {f : CCoinsViewCache → CCoinsViewCache}
    (ran : onTop f v = some v') (keeps : ∀ c : CCoinsViewCache, c.SameBut member (f c)) :
    v.SameBut member v' :=
  onTop_keeps (CCoinsViewCache.SameBut.refl member) ran keeps

theorem fetchCoins_sameBut (txid : Uint256) (v : CCoinsView) :
    v.SameBut .coins (fetchCoins txid v).2 := by
  induction v with
  | base _ => exact SameBut.refl _ _
  | layer _ _ ih =>
    unfold fetchCoins
    split
    · exact SameBut.refl _ _
    · split <;> rename_i answer <;> rw [answer] at ih <;> exact .layer rfl ih

theorem closeModifier_sameBut {cache : CCoinsViewCache} {txid : Uint256}
    {entry : CCoinsCacheEntry} :
    cache.SameBut .coins (cache.closeModifier txid entry) := rfl

variable {txid : Uint256} {edit : CoinsEdit}

theorem modifyCoins_sameBut (ran : modifyCoins txid edit v = some v') : v.SameBut .coins v' := by
  cases v with
  | base _ => cases ran
  | layer _ below =>
    cases ran
    refine .layer (closeModifier_sameBut) ?_
    unfold entryToModify
    have fetched := fetchCoins_sameBut txid below
    split
    · exact SameBut.refl _ _
    · split <;> rename_i answer <;> rw [answer] at fetched <;> exact fetched

theorem modifyNewCoins_sameBut (ran : modifyNewCoins txid edit v = some v') : v.SameBut .coins v' :=
  onTop_sameBut ran (fun _ => closeModifier_sameBut)

section

variable (H : ShieldedType → MerkleHash) (type : ShieldedType)

theorem getAnchorAt_sameButAnchors (rt : Uint256) (v : CCoinsView) :
    v.SameButAnchors (getAnchorAt H type rt v).2 := by
  induction v with
  | base _ => exact SameButAnchors.refl _
  | layer _ _ ih =>
    unfold getAnchorAt
    split
    · exact SameButAnchors.refl _
    · split <;> rename_i answer <;> rw [answer] at ih <;> exact .layer rfl ih

theorem getNullifier_sameBut (nf : Uint256) (v : CCoinsView) :
    v.SameBut .shielded (getNullifier type nf v).2 := by
  induction v with
  | base _ => exact SameBut.refl _ _
  | layer _ _ ih =>
    unfold getNullifier
    split
    · exact SameBut.refl _ _
    · exact .layer rfl ih

theorem getBestAnchor_sameButAnchors (v : CCoinsView) :
    v.SameButAnchors (getBestAnchor H type v).2 := by
  induction v with
  | base _ => exact SameButAnchors.refl _
  | layer _ _ ih =>
    unfold getBestAnchor
    split
    · exact .layer rfl ih
    · exact SameButAnchors.refl _

variable {H type}

theorem pushAnchor_sameButAnchors {tree : IncrementalMerkleTree}
    (ran : pushAnchor H type tree v = some v') : v.SameButAnchors v' :=
  (getBestAnchor_sameButAnchors H type v).trans
    (onTop_keeps (fun _ => rfl) ran (fun _ => by split <;> exact rfl))

theorem popAnchor_sameButAnchors {newrt : Uint256}
    (ran : popAnchor H type newrt v = some v') : v.SameButAnchors v' := by
  have best := getBestAnchor_sameButAnchors H type v
  simp only [popAnchor] at ran
  split at ran
  · have read :=
      getAnchorAt_sameButAnchors H type (getBestAnchor H type v).1 (getBestAnchor H type v).2
    split at ran
    · cases ran
    · rename_i answer
      rw [answer] at read
      exact (best.trans read).trans (onTop_keeps (fun _ => rfl) ran (fun _ => rfl))
  · exact best.trans (onTop_keeps (fun _ => rfl) ran (fun _ => rfl))

theorem setNullifiers_sameBut {tx : CTransaction} {spent : Bool}
    (ran : setNullifiers tx spent v = some v') : v.SameBut .shielded v' :=
  onTop_sameBut ran (fun _ => rfl)

end

theorem getBestBlock_sameBut (v : CCoinsView) : v.SameBut .block (getBestBlock v).2 := by
  induction v with
  | base _ => exact SameBut.refl _ _
  | layer _ _ ih =>
    unfold getBestBlock
    split
    · exact .layer rfl ih
    · exact SameBut.refl _ _

theorem setBestBlock_sameBut {hashBlock : Uint256}
    (ran : setBestBlock hashBlock v = some v') : v.SameBut .block v' :=
  onTop_sameBut ran (fun _ => rfl)

section

variable (epochId : Nat)

theorem selectHistoryCache_sameBut (v : CCoinsView) :
    v.SameBut .history (selectHistoryCache epochId v).2 := by
  induction v with
  | base _ => exact SameBut.refl _ _
  | layer _ _ ih =>
    unfold selectHistoryCache
    split
    · exact SameBut.refl _ _
    · exact .layer rfl ih

theorem updateHistory_sameBut {f : HistoryCache → HistoryCache}
    (ran : updateHistory epochId f v = some v') : v.SameBut .history v' :=
  onTop_sameBut ran (fun _ => by split <;> exact rfl)

variable {epochId} {lib : MMRLibrary}

theorem pushHistoryNode_sameBut {node : HistoryNode}
    (ran : pushHistoryNode lib epochId node v = some v') : v.SameBut .history v' := by
  refine (selectHistoryCache_sameBut epochId v).trans ?_
  simp only [pushHistoryNode] at ran
  split at ran
  · obtain ⟨_, -, updated⟩ := Option.bind_eq_some_iff.mp ran
    exact updateHistory_sameBut epochId updated
  · obtain ⟨_, -, updated⟩ := Option.bind_eq_some_iff.mp ran
    exact updateHistory_sameBut epochId updated

theorem popHistoryNode_sameBut
    (ran : popHistoryNode lib epochId v = some v') : v.SameBut .history v' := by
  refine (selectHistoryCache_sameBut epochId v).trans ?_
  simp only [popHistoryNode] at ran
  split at ran
  · exact updateHistory_sameBut epochId ran
  · exact updateHistory_sameBut epochId ran
  · cases ran
  · obtain ⟨_, -, updated⟩ := Option.bind_eq_some_iff.mp ran
    exact updateHistory_sameBut epochId updated
  · obtain ⟨_, -, updated⟩ := Option.bind_eq_some_iff.mp ran
    exact updateHistory_sameBut epochId updated

end

end CCoinsView

end Zcashd.Source
