import Mathlib

/-!
A base store with a pile of caches on top of it. Each cache is consulted before
everything below it, so a key reads as the entry of the topmost cache that has
one, and as the content of the base when none has.

Nothing here fixes what a cache, a key or a value is. A development states the
invariant of one cache relative to what lies below it and gets the invariant of
the whole pile from `Every`; operations on another component of the caches leave
a reading alone by `Forall₂`.
-/
namespace Zcashd.Lib

universe u v w x y

inductive Layers (C : Type u) (B : Type v) : Type (max u v) where
  | base (store : B)
  | layer (cache : C) (below : Layers C B)

namespace Layers

variable {C : Type u} {B : Type v} {K : Type w} {E : Type x} {V : Type y}

/-- What a key reads as: the first cache with an entry answers. -/
def visible (look : C → K → Option E) (val : E → V) (content : B → K → V) :
    Layers C B → K → V
  | base store, key => content store key
  | layer cache below, key =>
    match look cache key with
    | some entry => val entry
    | none => visible look val content below key

/-- The topmost store has an entry of its own; a base store answers every key. -/
def Holds (look : C → K → Option E) : Layers C B → K → Prop
  | base _, _ => True
  | layer cache _, key => (look cache key).isSome

/-- Every cache stands in the given relation to what lies below it, and the base is in order. -/
def Every (R : C → Layers C B → Prop) (S : B → Prop) : Layers C B → Prop
  | base store => S store
  | layer cache below => R cache below ∧ Every R S below

/-- Two piles of the same height, related cache by cache and in their bases. -/
inductive Forall₂ (R : C → C → Prop) (S : B → B → Prop) : Layers C B → Layers C B → Prop
  | base {store store' : B} (related : S store store') : Forall₂ R S (base store) (base store')
  | layer {cache cache' : C} {below below' : Layers C B} (related : R cache cache')
      (rest : Forall₂ R S below below') :
      Forall₂ R S (layer cache below) (layer cache' below')

section

variable {look : C → K → Option E} {val : E → V} {content : B → K → V}

@[simp] theorem visible_base (store : B) (key : K) :
    visible look val content (base store) key = content store key := rfl

variable {cache : C} {key : K}

theorem visible_hit {entry : E} (hit : look cache key = some entry)
    (below : Layers C B) : visible look val content (layer cache below) key = val entry := by
  simp [visible, hit]

theorem visible_miss (miss : look cache key = none) (below : Layers C B) :
    visible look val content (layer cache below) key = visible look val content below key := by
  simp [visible, miss]

/-- A reading depends on the top cache at that key and on what the rest reads as. -/
theorem visible_layer_congr {cache' : C} {below below' : Layers C B}
    (same : look cache' key = look cache key)
    (rest : visible look val content below' key = visible look val content below key) :
    visible look val content (layer cache' below') key =
      visible look val content (layer cache below) key := by
  simp [visible, same, rest]

variable {v v' : Layers C B}

theorem visible_congr (related : Forall₂ (fun cache cache' => look cache' = look cache)
      (fun store store' => content store' = content store) v v') (key : K) :
    visible look val content v' key = visible look val content v key := by
  induction related with
  | base related => simp [related]
  | layer related _ ih => exact visible_layer_congr (congrFun related key) ih

/-- Dropping the top cache after its entries were merged into the cache below, key by key. -/
theorem visible_flush {child parent parent' : C} {below : Layers C B}
    {out : K → E → Option E → Option E} {Ok : K → E → Prop}
    (merged : ∀ key, look parent' key = match look child key with
      | some entry => out key entry (look parent key)
      | none => look parent key)
    (parentOk : ∀ key entry, look parent key = some entry → Ok key entry)
    (atKey : ∀ key entry, look child key = some entry → (out key entry (look parent key)).elim
      (visible look val content below key = val entry) fun left => Ok key left ∧
      val left = val entry) :
    visible look val content (layer parent' below) =
      visible look val content (layer child (layer parent below)) ∧
      ∀ key entry, look parent' key = some entry → Ok key entry := by
  refine ⟨funext fun key => ?_, fun key left kept => ?_⟩
  · have written := merged key
    cases hit : look child key with
    | none =>
      rw [hit] at written
      exact (visible_layer_congr written rfl).trans (visible_miss hit _).symm
    | some entry =>
      rw [hit] at written
      have here := atKey key entry hit
      rw [← show look parent' key = out key entry _ from written] at here
      refine Eq.trans ?_ (visible_hit hit _).symm
      cases kept : look parent' key with
      | none =>
        rw [kept] at here
        exact (visible_miss kept below).trans here
      | some _ =>
        rw [kept] at here
        exact (visible_hit kept below).trans here.2
  · have written := merged key
    cases hit : look child key with
    | none =>
      rw [hit] at written
      exact parentOk key left (written.symm.trans kept)
    | some entry =>
      rw [hit] at written
      have here := atKey key entry hit
      rw [← show look parent' key = out key entry _ from written, kept] at here
      exact here.1

/-- Dropping the only cache after its entries were written into the base. -/
theorem visible_flush_base {child : C} {store store' : B}
    (absent : ∀ key, look child key = none → content store' key = content store key)
    (present : ∀ key entry, look child key = some entry → content store' key = val entry) :
    visible look val content (base store') =
      visible look val content (layer child (base store)) := by
  funext key
  cases hit : look child key with
  | none => exact (absent key hit).trans (visible_miss hit (base store)).symm
  | some entry => exact (present key entry hit).trans (visible_hit hit (base store)).symm

end

variable {R : C → C → Prop} {S : B → B → Prop}

theorem Forall₂.refl (hR : ∀ c, R c c) (hS : ∀ b, S b b) : ∀ v : Layers C B, Forall₂ R S v v
  | .base b => .base (hS b)
  | .layer c below => .layer (hR c) (refl hR hS below)

theorem Forall₂.mono {R' : C → C → Prop} {S' : B → B → Prop}
    (related : Forall₂ R S v v') (hR : ∀ c c', R c c' → R' c c') (hS : ∀ b b', S b b' → S' b b') :
    Forall₂ R' S' v v' := by
  induction related with
  | base related => exact .base (hS _ _ related)
  | layer related _ ih => exact .layer (hR _ _ related) ih

theorem Forall₂.trans (hR : ∀ a b c, R a b → R b c → R a c) (hS : ∀ a b c, S a b → S b c → S a c)
    {u w : Layers C B} (first : Forall₂ R S u v) (second : Forall₂ R S v w) : Forall₂ R S u w := by
  induction first generalizing w with
  | base related =>
    cases second with
    | base related' => exact .base (hS _ _ _ related related')
  | layer related _ ih =>
    cases second with
    | layer related' rest' => exact .layer (hR _ _ _ related related') (ih rest')

/-- Change of every cache that keeps it in relation to what was and is below it. -/
theorem Every.of_forall₂ {P : C → Layers C B → Prop} {Q : B → Prop} (related : Forall₂ R S v v')
    (keep : ∀ c c' below below', R c c' → Forall₂ R S below below' → P c below → P c' below')
    (keepBase : ∀ b b', S b b' → Q b → Q b') (every : Every P Q v) : Every P Q v' := by
  induction related with
  | base related => exact keepBase _ _ related every
  | layer related rest ih => exact ⟨keep _ _ _ _ related rest every.1, ih every.2⟩

end Layers

end Zcashd.Lib
