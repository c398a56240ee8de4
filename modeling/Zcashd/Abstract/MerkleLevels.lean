import Zcashd.Source.Block

/-!
# Levels of a Merkle tree

`BuildMerkleTree` climbs from the transaction ids to the root and pairs an odd last node with
itself. Two trees with one root are compared from the root down: while no level ends in two
equal nodes, the pairs below equal nodes are equal, until the leaves of one tree are reached.
-/
namespace Zcashd.Abstract

open Source

/-- The pairs that are hashed for the next level. -/
def levelPairs : List Uint256 → List (Uint256 × Uint256)
  | [] => []
  | [a] => [(a, a)]
  | a :: b :: rest => (a, b) :: levelPairs rest

/-- The levels of the tree over a list of leaves. -/
inductive Level (hash : Uint256 → Uint256 → Uint256) (leaves : List Uint256) :
    List Uint256 → Prop where
  | bottom : Level hash leaves leaves
  | above {level : List Uint256} (below : Level hash leaves level) (several : 1 < level.length) :
      Level hash leaves (merkleLevel hash level).1

/-- A pair is hashed while the tree is built. -/
def Paired (hash : Uint256 → Uint256 → Uint256) (leaves : List Uint256)
    (pair : Uint256 × Uint256) : Prop :=
  ∃ level, Level hash leaves level ∧ 1 < level.length ∧ pair ∈ levelPairs level

/-- The node hash has no collision in the trees over some lists, and no leaf is an interior node. -/
structure CollisionFree (hash : Uint256 → Uint256 → Uint256)
    (lists : Set (List Uint256)) : Prop where
  pairs : ∀ l ∈ lists,
    ∀ m ∈ lists, ∀ p q, Paired hash l p → Paired hash m q → hash p.1 p.2 = hash q.1 q.2 → p = q
  leaves : ∀ l ∈ lists, ∀ m ∈ lists, ∀ p, Paired hash l p → hash p.1 p.2 ∉ m

variable {hash : Uint256 → Uint256 → Uint256} {l m x y : List Uint256} {lists : Set (List Uint256)}

theorem merkleLevel_fst (l : List Uint256) :
    (merkleLevel hash l).1 = (levelPairs l).map (fun p => hash p.1 p.2) := by
  fun_induction levelPairs l with
  | case1 => rfl
  | case2 => rfl
  | case3 a b rest _ => cases rest <;> simp_all [merkleLevel, levelPairs]

theorem merkleLevel_snd_tail {a b : Uint256} {rest : List Uint256}
    (unmutated : (merkleLevel hash (a :: b :: rest)).2 = false) :
    (merkleLevel hash rest).2 = false := by
  cases rest with
  | nil => rfl
  | cons c _ => exact unmutated

/-- Only two equal nodes at the end can be taken for an odd last node. -/
theorem levelPairs_injective (pairs : levelPairs l = levelPairs m)
    (first : (merkleLevel hash l).2 = false) (second : (merkleLevel hash m).2 = false) :
    l = m := by
  fun_induction levelPairs l generalizing m with
  | case1 => fun_cases levelPairs m <;> simp_all [levelPairs]
  | case2 a =>
    fun_cases levelPairs m with
    | case1 => simp [levelPairs] at pairs
    | case2 c => simp_all [levelPairs]
    | case3 c d rest =>
      fun_cases levelPairs rest <;> simp [levelPairs, merkleLevel] at pairs second
      exact absurd (pairs.1.symm.trans pairs.2) second
  | case3 a b rest ih =>
    fun_cases levelPairs m with
    | case1 => simp [levelPairs] at pairs
    | case2 c => fun_cases levelPairs rest <;> simp_all [levelPairs, merkleLevel]
    | case3 c d _ =>
      simp only [levelPairs, List.cons.injEq, Prod.mk.injEq] at pairs
      rw [ih pairs.2 (merkleLevel_snd_tail first) (merkleLevel_snd_tail second),
        pairs.1.1, pairs.1.2]

theorem eq_of_map_eq {α β : Type} {f : α → β} {s t : List α}
    (injective : ∀ a ∈ s, ∀ b ∈ t, f a = f b → a = b) (same : s.map f = t.map f) :
    s = t := by
  induction s generalizing t with
  | nil => simp_all
  | cons a s _ =>
    cases t with
    | nil => cases same
    | cons b t => grind

section

variable (free : CollisionFree hash lists) (memberL : l ∈ lists) (memberM : m ∈ lists)
include free memberL memberM

/-- Equal levels come from equal levels. -/
theorem CollisionFree.below (levelX : Level hash l x) (levelY : Level hash m y)
    (several : 1 < x.length) (severalY : 1 < y.length) (first : (merkleLevel hash x).2 = false)
    (second : (merkleLevel hash y).2 = false)
    (same : (merkleLevel hash x).1 = (merkleLevel hash y).1) :
    x = y := by
  rw [merkleLevel_fst, merkleLevel_fst] at same
  refine levelPairs_injective (eq_of_map_eq ?_ same) first second
  intro p inX q inY
  exact free.pairs l memberL m memberM p q ⟨x, levelX, several, inX⟩ ⟨y, levelY, severalY, inY⟩

/-- Two trees with a common level: one is part of the other. -/
theorem CollisionFree.compare
    (first : ∀ x, Level hash l x → 1 < x.length → (merkleLevel hash x).2 = false)
    (second : ∀ x, Level hash m x → 1 < x.length → (merkleLevel hash x).2 = false)
    (levelL : Level hash l x) (levelM : Level hash m x) :
    Level hash m l ∨ Level hash l m := by
  induction levelL with
  | bottom => exact .inl levelM
  | @above x below several ih =>
    generalize top : (merkleLevel hash x).1 = z at levelM
    cases levelM with
    | bottom => exact .inr (top ▸ below.above several)
    | @above y belowM severalY =>
      have same := free.below memberL memberM below belowM several severalY (first x below several)
        (second y belowM severalY) top
      exact ih (same ▸ belowM)

/-- A list of leaves is a level of no other tree. -/
theorem CollisionFree.leaves_eq (level : Level hash m l) : l = m := by
  cases level with
  | bottom => rfl
  | @above x below several =>
    obtain ⟨p, rest, pairs⟩ : ∃ p rest, levelPairs x = p :: rest := by
      fun_cases levelPairs x <;> simp_all
    have leaf := free.leaves m memberM _ memberL p ⟨x, below, several, by simp [pairs]⟩
    simp [merkleLevel_fst, pairs] at leaf

end

theorem Level.shift (several : 1 < l.length) (level : Level hash (merkleLevel hash l).1 x) :
    Level hash l x := by
  induction level with
  | bottom => exact Level.bottom.above several
  | above _ several' ih => exact ih.above several'

theorem length_merkleLevel (hash : Uint256 → Uint256 → Uint256) (l : List Uint256) :
    (merkleLevel hash l).1.length = (l.length + 1) / 2 := by
  rw [merkleLevel_fst, List.length_map]
  fun_induction levelPairs l <;> simp_all
  omega

theorem Level.bottom_or (level : Level hash l x) :
    x = l ∨ 1 < l.length ∧ Level hash (merkleLevel hash l).1 x := by
  induction level with
  | bottom => exact .inl rfl
  | above _ several ih =>
    rcases ih with rfl | ⟨severalL, rest⟩
    · exact .inr ⟨several, .bottom⟩
    · exact .inr ⟨severalL, rest.above several⟩

/-- The pairs of all levels, computed from the leaves up. -/
def treePairs (hash : Uint256 → Uint256 → Uint256) : Nat → List Uint256 → List (Uint256 × Uint256)
  | 0, _ => []
  | levels + 1, level =>
    if 1 < level.length then levelPairs level ++ treePairs hash levels (merkleLevel hash level).1
    else []

theorem Paired.mem_treePairs {levels : Nat} {pair : Uint256 × Uint256} (paired : Paired hash l pair)
    (enough : l.length ≤ levels + 1) : pair ∈ treePairs hash levels l := by
  obtain ⟨x, level, several, member⟩ := paired
  induction levels generalizing l with
  | zero => rcases level.bottom_or with rfl | ⟨severalL, -⟩ <;> omega
  | succ _ ih =>
    have size := length_merkleLevel hash l
    rw [treePairs]
    rcases level.bottom_or with rfl | ⟨severalL, higher⟩
    · rw [if_pos several]
      exact List.mem_append_left _ member
    · rw [if_pos severalL]
      exact List.mem_append_right _ (ih (by omega) higher)

/-- What `BuildMerkleTree` returns, in terms of the levels. -/
theorem merkleLevels_spec (hash : Uint256 → Uint256 → Uint256) (levels : Nat) (mutated : Bool)
    (ne : l ≠ []) (enough : l.length ≤ levels + 1) :
    Level hash l [(merkleLevels hash levels l mutated).1] ∧
      ((merkleLevels hash levels l mutated).2 = false → mutated = false ∧
        ∀ x, Level hash l x → 1 < x.length → (merkleLevel hash x).2 = false) := by
  induction levels generalizing l mutated with
  | zero =>
    obtain ⟨a, rfl⟩ :=
      List.length_eq_one_iff.mp (by have := List.length_pos_iff.mpr ne; omega : l.length = 1)
    refine ⟨.bottom, fun unmutated => ⟨unmutated, fun x level several => ?_⟩⟩
    rcases level.bottom_or with rfl | ⟨_, -⟩ <;> simp_all
  | succ _ ih =>
    match l, ne with
    | [a], _ =>
      refine ⟨.bottom, fun unmutated => ⟨unmutated, fun x level several => ?_⟩⟩
      rcases level.bottom_or with rfl | ⟨_, -⟩ <;> simp_all
    | a :: b :: rest, _ =>
      have size := length_merkleLevel hash (a :: b :: rest)
      have above : (merkleLevel hash (a :: b :: rest)).1 ≠ [] := by
        intro empty
        simp [empty] at size
        omega
      obtain ⟨root, flags⟩ := ih (mutated || (merkleLevel hash (a :: b :: rest)).2) above
        (by simp at enough size; omega)
      refine ⟨root.shift (by simp), fun unmutated => ?_⟩
      obtain ⟨here, others⟩ := flags unmutated
      rw [Bool.or_eq_false_iff] at here
      refine ⟨here.1, fun x level several => ?_⟩
      rcases level.bottom_or with rfl | ⟨-, higher⟩
      · exact here.2
      · exact others x higher several

theorem CollisionFree.root_injective (free : CollisionFree hash lists) (memberL : l ∈ lists)
    (memberM : m ∈ lists) (nonemptyL : l ≠ []) (nonemptyM : m ≠ [])
    (unmutatedL : (merkleLevels hash l.length l false).2 = false)
    (unmutatedM : (merkleLevels hash m.length m false).2 = false)
    (same : (merkleLevels hash l.length l false).1 = (merkleLevels hash m.length m false).1) :
    l = m := by
  obtain ⟨rootL, flagsL⟩ := merkleLevels_spec hash l.length false nonemptyL (Nat.le_succ _)
  obtain ⟨rootM, flagsM⟩ := merkleLevels_spec hash m.length false nonemptyM (Nat.le_succ _)
  rw [same] at rootL
  rcases free.compare memberL memberM (flagsL unmutatedL).2
    (flagsM unmutatedM).2 rootL rootM with part | part
  · exact free.leaves_eq memberL memberM part
  · exact (free.leaves_eq memberM memberL part).symm

end Zcashd.Abstract
