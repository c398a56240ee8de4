import Mathlib

/-!
Merkle trees over a sequence of leaves that fills up from the left.

`node h j` is the hash of the `j`-th subtree of height `h`. Along the way from leaf `c` to the
root, the subtree of height `h` has index `c / 2 ^ h`, and its sibling is to the left when that
is odd. The left siblings are known when the leaf comes; they are the `frontier`. The right
ones are filled by later leaves; a `filler` is a queue of those that are, lowest first, and
the others are empty.
-/
namespace Zcashd.Lib.MerkleTree

open List Nat

universe u

variable {α : Type u} (combine : α → α → Nat → α) (empty : Nat → α)

/-- The leaves below a subtree and below its left child start at the same place. -/
theorem double_mul_pow (j h : Nat) : 2 * j * 2 ^ h = j * 2 ^ (h + 1) := by
  rw [pow_succ', ← mul_assoc, mul_comm j 2]

variable {h levels : Nat}

theorem half_mul_pow_le {c : Nat} : c / 2 * 2 ^ (h + 1) ≤ c * 2 ^ h := by
  rw [← double_mul_pow]
  exact mul_le_mul_right _ (by omega)

section

variable (leaf : Nat → α)

def node : Nat → Nat → α
  | 0, j => leaf j
  | h + 1, j => combine (node h (2 * j)) (node h (2 * j + 1)) h

variable {combine empty leaf} {c : Nat}

theorem node_of_even (even : c % 2 = 0) (h : Nat) :
    combine (node combine leaf h c) (node combine leaf h (c + 1)) h =
      node combine leaf (h + 1) (c / 2) := by
  have double : 2 * (c / 2) = c := by omega
  rw [node, double]

theorem node_of_odd (odd : c % 2 = 1) (h : Nat) :
    combine (node combine leaf h (c - 1)) (node combine leaf h c) h =
      node combine leaf (h + 1) (c / 2) := by
  have double : 2 * (c / 2) = c - 1 := by omega
  have next : c - 1 + 1 = c := by omega
  rw [node, double, next]

/-- A node is made of the leaves below it. -/
theorem node_congr {leaf' : Nat → α} (h j : Nat)
    (same : ∀ i, j * 2 ^ h ≤ i → i < (j + 1) * 2 ^ h → leaf i = leaf' i) :
    node combine leaf h j = node combine leaf' h j := by
  induction h generalizing j with
  | zero => exact same j (by omega) (by omega)
  | succ h ih =>
    have start := double_mul_pow j h
    have half : (2 * j + 1) * 2 ^ h = 2 * j * 2 ^ h + 2 ^ h := succ_mul ..
    have stop : (2 * j + 1 + 1) * 2 ^ h = (j + 1) * 2 ^ (h + 1) := double_mul_pow (j + 1) h
    have whole : (2 * j + 1 + 1) * 2 ^ h = (2 * j + 1) * 2 ^ h + 2 ^ h := succ_mul ..
    have left := ih (2 * j) (fun i low high => same i (by omega) (by omega))
    have right := ih (2 * j + 1) (fun i low high => same i (by omega) (by omega))
    rw [node, node, left, right]

/-- The nodes over a part of the leaves that starts at a multiple of `2 ^ (h + k)`. -/
theorem node_shift (a k h j : Nat) :
    node combine (fun i => leaf (a * 2 ^ (h + k) + i)) h j =
      node combine leaf h (a * 2 ^ k + j) := by
  induction h generalizing j k with
  | zero =>
    rw [zero_add]
    rfl
  | succ h ih =>
    have left : 2 * (a * 2 ^ k + j) = a * 2 ^ (k + 1) + 2 * j := by
      rw [mul_add, ← mul_assoc, double_mul_pow]
    have level : h + 1 + k = h + (k + 1) := by omega
    rw [node, node, level, ih, ih, left, add_assoc]

/-- A subtree beyond the leaves in use is empty. -/
theorem node_empty (empty_succ : ∀ d, empty (d + 1) = combine (empty d) (empty d) d) (h j : Nat)
    (beyond : ∀ i, j * 2 ^ h ≤ i → leaf i = empty 0) : node combine leaf h j = empty h := by
  induction h generalizing j with
  | zero => exact beyond j (by omega)
  | succ h ih =>
    have start := double_mul_pow j h
    have half : 2 * j * 2 ^ h ≤ (2 * j + 1) * 2 ^ h := mul_le_mul_right _ (le_succ _)
    have left := ih (2 * j) (fun i low => beyond i (by omega))
    have right := ih (2 * j + 1) (fun i low => beyond i (by omega))
    rw [node, left, right, empty_succ]

end

section

variable (leaf : Nat → α)

/-- The left siblings from height `h` up, when `c` subtrees of that height lie to the left. -/
def frontier (h : Nat) : Nat → List (Option α)
  | 0 => []
  | c + 1 =>
    (if c % 2 = 0 then some (node combine leaf h c) else none) :: frontier (h + 1) ((c + 1) / 2)
termination_by c => c

variable {combine empty leaf}

@[simp] theorem frontier_zero (h : Nat) : frontier combine leaf h 0 = [] := by
  rw [frontier]

theorem frontier_of_odd (odd : c % 2 = 1) (h : Nat) :
    frontier combine leaf h c = some (node combine leaf h (c - 1)) :: frontier combine leaf (h + 1)
      (c / 2) := by
  obtain ⟨c, rfl⟩ : ∃ old, c = old + 1 := ⟨c - 1, by omega⟩
  have even : c % 2 = 0 := by omega
  rw [frontier, if_pos even]
  rfl

theorem frontier_of_even (even : c % 2 = 0) (pos : 0 < c) (h : Nat) :
    frontier combine leaf h c = none :: frontier combine leaf (h + 1) (c / 2) := by
  obtain ⟨c, rfl⟩ : ∃ old, c = old + 1 := ⟨c - 1, by omega⟩
  have odd : ¬ c % 2 = 0 := by omega
  rw [frontier, if_neg odd]

/-- Induction along the way to the root: the index is halved at every height. -/
theorem halving {motive : Nat → Nat → Prop} (zero : ∀ h, motive h 0)
    (odd : ∀ h c, c % 2 = 1 → motive (h + 1) (c / 2) → motive h c)
    (even : ∀ h c, c % 2 = 0 → 0 < c → motive (h + 1) (c / 2) → motive h c) (h c : Nat) :
    motive h c := by
  induction c using Nat.strongRecOn generalizing h with
  | ind c ih =>
    rcases Nat.eq_zero_or_pos c with rfl | pos
    · exact zero h
    · have above : motive (h + 1) (c / 2) := ih (c / 2) (by omega) (h + 1)
      rcases mod_two_eq_zero_or_one c with parity | parity
      · exact even h c parity pos above
      · exact odd h c parity above

theorem length_frontier_le (h c m : Nat) : (frontier combine leaf h c).length ≤ m ↔ c < 2 ^ m := by
  induction h, c using halving generalizing m with
  | zero h => simp
  | odd h c parity above =>
    rw [frontier_of_odd parity, length_cons]
    cases m with
    | zero =>
      rw [pow_zero]
      omega
    | succ m =>
      rw [succ_le_succ_iff, above, pow_succ]
      omega
  | even h c parity pos above =>
    rw [frontier_of_even parity pos, length_cons]
    cases m with
    | zero =>
      rw [pow_zero]
      omega
    | succ m =>
      rw [succ_le_succ_iff, above, pow_succ]
      omega

/-- `m` siblings and no gap: the next subtree completes all of them. -/
theorem frontier_full (h c m : Nat) :
    ((frontier combine leaf h c).length = m ∧ (frontier combine leaf h c).all Option.isSome) ↔
    c + 1 = 2 ^ m := by
  induction h, c using halving generalizing m with
  | zero h =>
    cases m with
    | zero => simp
    | succ m =>
      simp only [frontier_zero, length_nil]
      omega
  | odd h c parity above =>
    rw [frontier_of_odd parity, length_cons, all_cons, Option.isSome_some, Bool.true_and]
    cases m with
    | zero =>
      rw [pow_zero]
      omega
    | succ m =>
      rw [succ_inj, above, pow_succ]
      omega
  | even h c parity pos _ =>
    rw [frontier_of_even parity pos, all_cons, Option.isSome_none, Bool.false_and]
    cases m with
    | zero =>
      rw [pow_zero]
      simp
      omega
    | succ m =>
      rw [pow_succ]
      simp
      omega

/-- The last sibling is there: gaps are only below. -/
theorem frontier_last (h c : Nat) (pos : 0 < c) :
    (frontier combine leaf h c).getLast?.join.isSome := by
  induction h, c using halving with
  | zero h => exact absurd pos (lt_irrefl 0)
  | odd h c parity above =>
    rw [frontier_of_odd parity]
    rcases Nat.eq_zero_or_pos (c / 2) with zero | halfPos
    · rw [zero, frontier_zero]
      rfl
    · have last := above halfPos
      generalize frontier combine leaf (h + 1) (c / 2) = rest at last ⊢
      cases rest with
      | nil => rfl
      | cons _ _ => rwa [getLast?_cons_cons]
  | even h c parity _ above =>
    have last := above (by omega)
    rw [frontier_of_even parity pos]
    generalize frontier combine leaf (h + 1) (c / 2) = rest at last ⊢
    cases rest with
    | nil => cases last
    | cons _ _ => rwa [getLast?_cons_cons]

/-- Every list of slots with the last one set has the gaps of a frontier. -/
theorem exists_frontier (slots : List (Option α))
    (last : slots ≠ [] → slots.getLast?.join.isSome) (h : Nat) :
    ∃ c, c < 2 ^ slots.length ∧
      (frontier combine leaf h c).map Option.isSome = slots.map Option.isSome := by
  induction slots generalizing h with
  | nil => exact ⟨0, by simp, by simp⟩
  | cons slot rest ih =>
    have restLast : rest ≠ [] → rest.getLast?.join.isSome := by
      intro ne
      have whole := last (cons_ne_nil slot rest)
      cases rest with
      | nil => exact absurd rfl ne
      | cons _ _ => rwa [getLast?_cons_cons] at whole
    obtain ⟨c, _, gaps⟩ := ih restLast (h + 1)
    have room : 2 ^ (slot :: rest).length = 2 * 2 ^ rest.length := pow_succ'
    cases slot with
    | some _ =>
      have half : (2 * c + 1) / 2 = c := by omega
      refine ⟨2 * c + 1, by omega, ?_⟩
      rw [frontier_of_odd (by omega), half, map_cons, gaps]
      rfl
    | none =>
      have pos : 0 < c := by
        rcases Nat.eq_zero_or_pos c with rfl | pos
        · rw [frontier_zero, map_nil] at gaps
          obtain rfl : rest = [] := map_eq_nil_iff.mp gaps.symm
          exact absurd (last (cons_ne_nil _ _)) Bool.false_ne_true
        · exact pos
      have half : 2 * c / 2 = c := by omega
      refine ⟨2 * c, by omega, ?_⟩
      rw [frontier_of_even (by omega) (by omega), half, map_cons, gaps]
      rfl

/-- The frontier is made of the leaves to the left. -/
theorem frontier_congr {leaf' : Nat → α} (h c : Nat)
    (same : ∀ i, i < c * 2 ^ h → leaf i = leaf' i) :
    frontier combine leaf h c = frontier combine leaf' h c := by
  induction h, c using halving with
  | zero h => rw [frontier_zero, frontier_zero]
  | odd h c parity above =>
    have last : c - 1 + 1 = c := by omega
    rw [frontier_of_odd parity, frontier_of_odd parity, above, node_congr]
    · intro i _ high
      exact same i (by rwa [last] at high)
    · intro i low
      exact same i (lt_of_lt_of_le low (half_mul_pow_le))
  | even h c parity pos above =>
    rw [frontier_of_even parity pos, frontier_of_even parity pos, above]
    intro i low
    exact same i (lt_of_lt_of_le low (half_mul_pow_le))

end

section

/-- What a sibling is to the right: the next of the queue, or empty. -/
def supply (h : Nat) (filler : List α) : α := filler.headD (empty h)

/-- The siblings from height `h` up for `levels` heights, and whether they are to the left. -/
def siblings : Nat → Nat → List (Option α) → List α → List (Bool × α)
  | 0, _, _, _ => []
  | levels + 1, h, some left :: rest, filler => (true, left) :: siblings levels (h + 1) rest filler
  | levels + 1, h, none :: rest, filler =>
    (false, supply empty h filler) :: siblings levels (h + 1) rest filler.tail
  | levels + 1, h, [], filler =>
    (false, supply empty h filler) :: siblings levels (h + 1) [] filler.tail

/-- The node that a node and its siblings give. -/
def recompute : Nat → α → List (Bool × α) → α
  | _, value, [] => value
  | h, value, (true, left) :: rest => recompute (h + 1) (combine left value h) rest
  | h, value, (false, right) :: rest => recompute (h + 1) (combine value right h) rest

variable (leaf : Nat → α)

/-- The queue holds, in order, the siblings to the right of the way up from index `c`. -/
def Supplies : Nat → Nat → Nat → List α → Prop
  | 0, _, _, _ => True
  | levels + 1, h, c, filler =>
    if c % 2 = 1 then Supplies levels (h + 1) (c / 2) filler
    else supply empty h filler = node combine leaf h (c + 1) ∧
      Supplies levels (h + 1) (c / 2) filler.tail

variable {combine empty leaf}

/-- Above the known siblings all are to the right. -/
theorem siblings_add (slots : List (Option α)) (levels h : Nat) (filler : List α) :
    siblings empty (slots.length + levels) h slots filler =
      siblings empty slots.length h slots filler ++
      siblings empty levels (h + slots.length) [] (filler.drop (slots.countP Option.isNone)) := by
  induction slots generalizing h filler with
  | nil => rw [length_nil, zero_add, siblings, nil_append, countP_nil, drop_zero, add_zero]
  | cons slot rest ih =>
    have count : (slot :: rest).length + levels = rest.length + levels + 1 := by
      rw [length_cons]; omega
    have level : h + 1 + rest.length = h + (slot :: rest).length := by rw [length_cons]; omega
    cases slot with
    | some _ =>
      rw [count, siblings, ih, level, length_cons, siblings, cons_append,
        countP_cons_of_neg (by simp)]
    | none =>
      rw [count, siblings, ih, level, length_cons, siblings, cons_append,
        countP_cons_of_pos (by simp), drop_tail]

theorem recompute_append (h : Nat) (value : α) (lower upper : List (Bool × α)) :
    recompute combine h value (lower ++ upper) =
      recompute combine (h + lower.length) (recompute combine h value lower) upper := by
  induction lower generalizing h value with
  | nil => rfl
  | cons step lower ih =>
    have level : h + 1 + lower.length = h + (step :: lower).length := by rw [length_cons]; omega
    obtain ⟨side, _⟩ := step
    cases side with
    | true => rw [cons_append, recompute, recompute, ih, level]
    | false => rw [cons_append, recompute, recompute, ih, level]

@[simp] theorem length_siblings (levels h : Nat) (slots : List (Option α)) (filler : List α) :
    (siblings empty levels h slots filler).length = levels := by
  induction levels generalizing h slots filler with
  | zero => rfl
  | succ _ ih =>
    match slots with
    | some _ :: _ => rw [siblings, length_cons, ih]
    | none :: _ => rw [siblings, length_cons, ih]
    | [] => rw [siblings, length_cons, ih]

theorem siblings_frontier_of_even (even : c % 2 = 0) (levels h : Nat) (filler : List α) :
    siblings empty (levels + 1) h (frontier combine leaf h c) filler =
      (false, supply empty h filler) ::
        siblings empty levels (h + 1) (frontier combine leaf (h + 1) (c / 2)) filler.tail := by
  rcases Nat.eq_zero_or_pos c with rfl | pos
  · rw [frontier_zero, Nat.zero_div, frontier_zero, siblings]
  · rw [frontier_of_even even pos, siblings]

/-- The root from the frontier and the queue. -/
theorem recompute_siblings {filler : List α}
    (supplied : Supplies combine empty leaf levels h c filler) :
    recompute combine h (node combine leaf h c)
      (siblings empty levels h (frontier combine leaf h c) filler) =
      node combine leaf (h + levels) (c / 2 ^ levels) := by
  induction levels generalizing h c filler with
  | zero => rw [siblings, recompute, Nat.pow_zero, Nat.div_one, Nat.add_zero]
  | succ levels ih =>
    have climbed : c / 2 / 2 ^ levels = c / 2 ^ (levels + 1) := by
      rw [Nat.div_div_eq_div_mul, Nat.pow_succ']
    have level : h + 1 + levels = h + (levels + 1) := by omega
    rw [Supplies] at supplied
    split at supplied
    case isTrue odd =>
      have joined : combine (node combine leaf h (c - 1)) (node combine leaf h c) h = _ :=
        node_of_odd odd h
      rw [frontier_of_odd odd, siblings, recompute, joined, ih supplied, climbed, level]
    case isFalse parity =>
      have even : c % 2 = 0 := by omega
      obtain ⟨right, supplied⟩ := supplied
      have joined : combine (node combine leaf h c) (node combine leaf h (c + 1)) h = _ :=
        node_of_even even h
      rw [siblings_frontier_of_even even, recompute, right, joined, ih supplied, climbed, level]

/-- The sides are the binary digits of the index. -/
theorem siblings_sides (levels h c : Nat) (filler : List α) :
    (siblings empty levels h (frontier combine leaf h c) filler).map Prod.fst =
      (range levels).map c.testBit := by
  induction levels generalizing h c filler with
  | zero => rfl
  | succ levels ih =>
    have digits : (range levels).map (c / 2).testBit =
        (range levels).map (fun i => c.testBit (i + 1)) := by
      apply map_congr_left
      intro i _
      rw [testBit_succ]
    rcases mod_two_eq_zero_or_one c with even | odd
    · rw [siblings_frontier_of_even even, map_cons, ih, digits, range_succ_eq_map, map_cons]
      simp [testBit_zero, even, Function.comp_def]
    · rw [frontier_of_odd odd, siblings, map_cons, ih, digits, range_succ_eq_map, map_cons]
      simp [testBit_zero, odd, Function.comp_def]

/-- When no leaf is to the right, the empty queue will do. -/
theorem supplies_nil (empty_succ : ∀ d, empty (d + 1) = combine (empty d) (empty d) d)
    (levels : Nat) (beyond : ∀ i, (c + 1) * 2 ^ h ≤ i → leaf i = empty 0) :
    Supplies combine empty leaf levels h c [] := by
  induction levels generalizing h c with
  | zero => trivial
  | succ levels ih =>
    have above : Supplies combine empty leaf levels (h + 1) (c / 2) [] := by
      apply ih
      intro i low
      apply beyond i
      rw [← double_mul_pow] at low
      exact le_trans (mul_le_mul_right _ (by omega)) low
    rw [Supplies]
    split
    · exact above
    · exact ⟨(node_empty empty_succ h (c + 1) beyond).symm, above⟩

/-- A complete tree has no sibling to the right. -/
theorem supplies_full (full : c + 1 = 2 ^ levels) (h : Nat) (filler : List α) :
    Supplies combine empty leaf levels h c filler := by
  induction levels generalizing h c with
  | zero => trivial
  | succ _ ih =>
    rw [pow_succ] at full
    rw [Supplies, if_pos (by omega)]
    exact ih (by omega) (h + 1)

end

section

variable (leaf : Nat → α)

/-- From index `c` at height `h` upward the siblings to the right are the nodes of the list;
the next one after them is beside index `c'` at height `h'`. -/
inductive Reaches : Nat → Nat → List α → Nat → Nat → Prop
  | here {h c : Nat} (even : c % 2 = 0) : Reaches h c [] h c
  | skip {h c h' c' : Nat} {filled : List α} (odd : c % 2 = 1)
      (above : Reaches (h + 1) (c / 2) filled h' c') :
      Reaches h c filled h' c'
  | fill {h c h' c' : Nat} {filled : List α} (even : c % 2 = 0)
      (above : Reaches (h + 1) (c / 2) filled h' c') :
      Reaches h c (node combine leaf h (c + 1) :: filled) h' c'

variable {combine empty leaf}

/-- Leaves fill the subtrees in order: the first one to the right starts where the node ends. -/
theorem Reaches.first (h c : Nat) :
    ∃ h' c', Reaches combine leaf h c [] h' c' ∧ (c' + 1) * 2 ^ h' = (c + 1) * 2 ^ h := by
  induction h, c using halving with
  | zero h => exact ⟨h, 0, .here rfl, rfl⟩
  | odd h c parity above =>
    obtain ⟨h', c', reached, start⟩ := above
    refine ⟨h', c', .skip parity reached, ?_⟩
    rw [start, ← double_mul_pow]
    congr 1
    omega
  | even h c parity _ _ => exact ⟨h, c, .here parity, rfl⟩

namespace Reaches

variable {h c h' c' : Nat} {filled : List α} (reached : Reaches combine leaf h c filled h' c')
include reached

theorem even_at : c' % 2 = 0 := by
  induction reached with
  | here even => exact even
  | skip _ _ ih => exact ih
  | fill _ _ ih => exact ih

/-- One more subtree filled: the next one starts where it ends. -/
theorem next : ∃ h₁ c₁, Reaches combine leaf h c (filled ++ [node combine leaf h' (c' + 1)]) h₁ c₁ ∧
      (c₁ + 1) * 2 ^ h₁ = (c' + 2) * 2 ^ h' := by
  induction reached with
  | @here h c even =>
    obtain ⟨h₁, c₁, above, start⟩ := Reaches.first (h + 1) (c / 2)
    refine ⟨h₁, c₁, .fill even above, ?_⟩
    rw [start, ← double_mul_pow]
    congr 1
    omega
  | skip odd _ ih =>
    obtain ⟨h₁, c₁, above, start⟩ := ih
    exact ⟨h₁, c₁, .skip odd above, start⟩
  | fill even _ ih =>
    obtain ⟨h₁, c₁, above, start⟩ := ih
    exact ⟨h₁, c₁, .fill even above, start⟩

/-- The filled subtrees supply the siblings below the next one. -/
theorem supplies {filler : List α}
    (above : Supplies combine empty leaf (h + levels - h') h' c' filler) :
    Supplies combine empty leaf levels h c (filled ++ filler) := by
  induction reached generalizing levels with
  | here _ => rwa [Nat.add_sub_cancel_left] at above
  | skip odd _ ih =>
    cases levels with
    | zero => trivial
    | succ _ =>
      rw [Supplies, if_pos odd]
      apply ih
      rwa [add_right_comm, add_assoc]
  | fill _ _ ih =>
    cases levels with
    | zero => trivial
    | succ _ =>
      rw [Supplies, if_neg (by omega)]
      refine ⟨rfl, ih ?_⟩
      rwa [add_right_comm, add_assoc]

end Reaches

end

end Zcashd.Lib.MerkleTree
