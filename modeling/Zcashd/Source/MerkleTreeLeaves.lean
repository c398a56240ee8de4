import Zcashd.Source.IncrementalWitness

/-!
The note commitment tree as a function of its leaves. `left`, `right` and the parents are the
last leaf and the frontier of the path to it; `append` is one leaf more, and `root`, `path` and
`next_depth` are those of the path.
-/
namespace Zcashd.Source.IncrementalMerkleTree

open Lib Lib.MerkleTree List Option Nat

/-- The tree after `n` leaves. -/
def ofLeaves (H : MerkleHash) (leaf : Nat → Uint256) : Nat → IncrementalMerkleTree
  | 0 => empty
  | c + 1 =>
    ⟨some (leaf (c - c % 2)), if c % 2 = 1 then some (leaf c) else none,
      frontier H.combine leaf 1 (c / 2)⟩

variable {H : MerkleHash} {leaf : Nat → Uint256} {c : Nat}

theorem ofLeaves_of_even (even : c % 2 = 0) :
    ofLeaves H leaf (c + 1) = ⟨some (leaf c), none, frontier H.combine leaf 1 (c / 2)⟩ := by
  rw [ofLeaves, even, if_neg (by decide), Nat.sub_zero]

theorem ofLeaves_of_odd (odd : c % 2 = 1) :
    ofLeaves H leaf (c + 1) =
      ⟨some (leaf (c - 1)), some (leaf c), frontier H.combine leaf 1 (c / 2)⟩ := by
  rw [ofLeaves, odd, if_pos rfl]

theorem ofLeaves_congr {leaf' : Nat → Uint256} {n : Nat} (same : ∀ i, i < n → leaf i = leaf' i) :
    ofLeaves H leaf n = ofLeaves H leaf' n := by
  cases n with
  | zero => rfl
  | succ c =>
    have inner : ∀ i, i < c / 2 * 2 ^ 1 → leaf i = leaf' i := fun i low => same i (by omega)
    rw [ofLeaves, ofLeaves, frontier_congr 1 (c / 2) inner, same c (by omega),
      same (c - c % 2) (by omega)]

variable {depth : Nat}

/-- A tree is complete at a depth when it has all the leaves of that depth. -/
theorem isComplete_ofLeaves (pos : 1 ≤ depth) (n : Nat) :
    (ofLeaves H leaf n).isComplete depth = true ↔ n = 2 ^ depth := by
  obtain ⟨d, rfl⟩ : ∃ d, depth = d + 1 := ⟨depth - 1, by omega⟩
  have bits : 0 < 2 ^ d := Nat.two_pow_pos d
  cases n with
  | zero =>
    simp only [ofLeaves, isComplete, empty, isSome_none, Bool.false_and,
      Bool.false_eq_true, false_iff]
    omega
  | succ c =>
    rcases mod_two_eq_zero_or_one c with even | odd
    · rw [ofLeaves_of_even even]
      simp only [isComplete, isSome_none, Bool.and_false, Bool.false_and,
        Bool.false_eq_true, false_iff]
      omega
    · have full : (frontier H.combine leaf 1 (c / 2)).length = d ∧ _ ↔ _ :=
        frontier_full 1 (c / 2) d
      rw [ofLeaves_of_odd odd]
      simp only [isComplete, isSome_some, Bool.true_and, Nat.add_sub_cancel, Bool.and_eq_true,
        beq_iff_eq, full]
      omega

/-- The carry of `append` is the carry of the frontier: one more subtree to the left. -/
theorem propagate_frontier {steps : Nat} (room : c < 2 ^ steps) (i : Nat) :
    propagate H (steps + 1) i (node H.combine leaf (i + 1) c) (frontier H.combine leaf (i + 1) c) =
      frontier H.combine leaf (i + 1) (c + 1) := by
  induction steps generalizing i c with
  | zero =>
    obtain rfl : c = 0 := by omega
    rw [frontier_zero, propagate, frontier_of_odd (by rfl), frontier_zero]
  | succ _ ih =>
    rcases mod_two_eq_zero_or_one c with even | odd
    · have half : (c + 1) / 2 = c / 2 := by omega
      rw [frontier_of_odd (c := c + 1) (by omega), half, Nat.add_sub_cancel]
      rcases Nat.eq_zero_or_pos c with rfl | pos
      · rw [frontier_zero, propagate, frontier_zero]
      · rw [frontier_of_even even pos, propagate]
    · have half : (c + 1) / 2 = c / 2 + 1 := by omega
      have joined : H.combine (node H.combine leaf (i + 1) (c - 1))
          (node H.combine leaf (i + 1) c) (i + 1) = _ := node_of_odd odd (i + 1)
      rw [frontier_of_odd odd, propagate, joined, ih (by rw [pow_succ] at room; omega),
        frontier_of_even (c := c + 1) (by omega) (by omega), half]

theorem append_ofLeaves {n : Nat} (room : n < 2 ^ H.depth) :
    (ofLeaves H leaf n).append H (leaf n) = some (ofLeaves H leaf (n + 1)) := by
  have incomplete : (ofLeaves H leaf n).isComplete H.depth = false := by
    rw [← Bool.not_eq_true, isComplete_ofLeaves H.depth_pos]
    exact Nat.ne_of_lt room
  rw [append, incomplete, if_neg (by decide)]
  cases n with
  | zero =>
    rw [ofLeaves_of_even (by rfl), Nat.zero_div, frontier_zero]
    rfl
  | succ c =>
    rcases mod_two_eq_zero_or_one c with even | odd
    · have half : (c + 1) / 2 = c / 2 := by omega
      rw [ofLeaves_of_even even, ofLeaves_of_odd (c := c + 1) (by omega), half, Nat.add_sub_cancel]
    · have half : (c + 1) / 2 = c / 2 + 1 := by omega
      have pair : H.combine (leaf (c - 1)) (leaf c) 0 = node H.combine leaf 1 (c / 2) :=
        node_of_odd odd 0
      obtain ⟨steps, depth⟩ :
          ∃ steps, H.depth = steps + 1 := ⟨H.depth - 1, by have := H.depth_pos; omega⟩
      have inner : c / 2 < 2 ^ steps := by
        rw [depth, pow_succ] at room
        omega
      rw [ofLeaves_of_odd odd, ofLeaves_of_even (c := c + 1) (by omega), half]
      simp only [pair, depth]
      rw [propagate_frontier inner 0]

/-! The statements of `append` are `append`: no slot is read that is not set, and the
exception comes before any change. -/

variable {t : IncrementalMerkleTree}

theorem propagateM_run (steps : Nat) (combined : Uint256) (lower : List (Option Uint256))
    {rest : List (Option Uint256)} (parents : t.parents = lower ++ rest) :
    (propagateM H steps lower.length (some combined)).run t =
      .ok () { t with parents := lower ++ propagate H steps lower.length combined rest } := by
  induction steps generalizing combined t lower rest with
  | zero =>
    rw [propagateM, propagate, ← parents]
    rfl
  | succ _ ih =>
    cases rest with
    | nil => simp [propagateM, parents, propagate]
    | cons parent rest =>
      cases parent with
      | none => simp [propagateM, parents, propagate, deref]
      | some hash =>
        have emptied :
            ({ t with parents := t.parents.set lower.length none } :
            IncrementalMerkleTree).parents = (lower ++ [none]) ++ rest := by simp [parents]
        have next := ih (H.combine hash combined (lower.length + 1)) (lower ++ [none]) emptied
        simpa [propagateM, parents, propagate, deref] using next

theorem appendM_run (obj : Uint256) (t : IncrementalMerkleTree) :
    (appendM H obj).run t = match t.append H obj with
      | some t' => .ok () t'
      | none => .error .full t := by
  by_cases complete : t.isComplete H.depth
  · simp [appendM, append, complete]
  · obtain ⟨left, right, parents⟩ := t
    cases left with
    | none => simp [appendM, append, complete]
    | some l =>
      cases right with
      | none => simp [appendM, append, complete]
      | some r =>
        have carried := propagateM_run (H := H) (t := ⟨some obj, none, parents⟩) H.depth
          (H.combine l r 0) [] rfl
        simpa [appendM, append, complete, deref] using carried

/-- The leaves of a list, and uncommitted ones after it. -/
def padded (H : MerkleHash) (l : List Uint256) (i : Nat) : Uint256 := l.getD i (H.emptyRoot 0)

/-- The tree that received the leaves of a list. -/
abbrev holding (H : MerkleHash) (l : List Uint256) : IncrementalMerkleTree :=
  ofLeaves H (padded H l) l.length

variable {l : List Uint256}

theorem padded_append_left (m : List Uint256) {i : Nat} (low : i < l.length) :
    padded H l i = padded H (l ++ m) i := by
  rw [padded, padded, getD_append _ _ _ _ low]

theorem append_holding (room : l.length < 2 ^ H.depth) (obj : Uint256) :
    (holding H l).append H obj = some (holding H (l ++ [obj])) := by
  have last : padded H (l ++ [obj]) l.length = obj := by
    rw [padded, getD_append_right _ _ _ _ (Nat.le_refl _), Nat.sub_self]
    rfl
  have appended : (ofLeaves H (padded H (l ++ [obj])) l.length).append H _ = _ :=
    append_ofLeaves room
  rw [last] at appended
  rw [holding, ofLeaves_congr (fun i low => padded_append_left [obj] low), appended, holding,
    length_append, length_singleton]

theorem append_holding_full (full : l.length = 2 ^ H.depth) (obj : Uint256) :
    (holding H l).append H obj = none := by
  rw [append, if_pos ((isComplete_ofLeaves H.depth_pos _).mpr full)]

theorem appendAll_holding {m : List Uint256} (room : l.length + m.length ≤ 2 ^ H.depth) :
    (holding H l).appendAll H m = some (holding H (l ++ m)) := by
  induction m generalizing l with
  | nil => rw [appendAll, append_nil]
  | cons obj _ ih =>
    rw [length_cons] at room
    have next := append_holding (H := H) (l := l) (by omega) obj
    have further := ih (l := l ++ [obj]) (by rw [length_append, length_singleton]; omega)
    rw [appendAll, next, bind_some, further, append_assoc, singleton_append]

theorem appendAll_empty (fits : l.length ≤ 2 ^ H.depth) :
    empty.appendAll H l = some (holding H l) :=
  appendAll_holding (l := []) (by simpa using fits)

/-! The loops with a filler, as the siblings on the way up. -/

theorem next_bind {α : Type} (depth : Nat) (queue : List Uint256) (f : Uint256 → Filling α) :
    (Filling.next H depth >>= f).run queue =
      (f (supply H.emptyRoot depth queue)).run queue.tail := by
  cases queue with
  | nil => rfl
  | cons _ _ => rfl

variable (parents : List (Option Uint256))

theorem rootParents_run (d : Nat) (root : Uint256) (queue : List Uint256) :
    (rootParents H d root parents).run queue =
      .ok ((d + parents.length,
        recompute H.combine d root (siblings H.emptyRoot parents.length d parents queue)),
        queue.drop (parents.countP isNone)) := by
  induction parents generalizing d root queue with
  | nil => rfl
  | cons parent rest ih =>
    have level : d + 1 + rest.length = d + (parent :: rest).length := by rw [length_cons]; omega
    cases parent with
    | some hash =>
      change (rootParents H (d + 1) (H.combine hash root d) rest).run queue = _
      rw [ih, level, length_cons, siblings, recompute, countP_cons_of_neg (by simp)]
    | none =>
      refine (next_bind d queue fun hash =>
        rootParents H (d + 1) (H.combine root hash d) rest).trans ?_
      rw [ih, level, length_cons, siblings, recompute, countP_cons_of_pos (by simp), drop_tail]

variable (steps d : Nat)

theorem rootAncestors_run (root : Uint256) (queue : List Uint256) :
    (rootAncestors H steps d root).run queue =
      .ok (recompute H.combine d root (siblings H.emptyRoot steps d [] queue),
        queue.drop steps) := by
  induction steps generalizing d root queue with
  | zero => rfl
  | succ steps ih =>
    refine (next_bind d queue fun hash =>
      rootAncestors H steps (d + 1) (H.combine root hash d)).trans ?_
    rw [ih, siblings, recompute, drop_tail]

/-- The siblings of the last leaf that the tree knows. -/
def slots (t : IncrementalMerkleTree) : List (Option Uint256) :=
  (if t.right.isSome then t.left else none) :: t.parents

variable {parents : List (Option Uint256)}

/-- Parents first, then the ancestors without one. -/
theorem climb_run (fits : parents.length < depth) (root : Uint256) (queue : List Uint256) :
    ((rootParents H 1 root parents).run queue >>= fun p =>
      (rootAncestors H (depth - p.1.1) p.1.1 p.1.2).run p.2) =
      .ok (recompute H.combine 1 root (siblings H.emptyRoot (depth - 1) 1 parents queue), queue.drop
        (parents.countP isNone + (depth - (1 + parents.length)))) := by
  have count : depth - 1 = parents.length + (depth - (1 + parents.length)) := by omega
  rw [rootParents_run]
  change (rootAncestors H (depth - (1 + parents.length)) (1 + parents.length) _).run _ = _
  rw [rootAncestors_run, count, siblings_add, recompute_append, length_siblings, drop_drop]

/-- `root` climbs from the last leaf. -/
theorem rootFrom_climbs (fits : t.parents.length < depth)
    {last : Uint256} (left : t.left.isSome) (isLast : t.last = .ok last) (queue : List Uint256) :
    t.rootFrom H depth queue =
      .ok (recompute H.combine 0 last (siblings H.emptyRoot depth 0 t.slots queue)) := by
  obtain ⟨levels, rfl⟩ : ∃ levels, depth = levels + 1 := ⟨depth - 1, by omega⟩
  obtain ⟨_ | leftLeaf, right, parents⟩ := t
  · cases left
  · cases right with
    | some rightLeaf =>
      obtain rfl : rightLeaf = last := Except.ok.inj isLast
      exact congrArg (Prod.fst <$> ·) (climb_run fits (H.combine leftLeaf rightLeaf 0) queue)
    | none =>
      obtain rfl : leftLeaf = last := Except.ok.inj isLast
      refine (congrArg (Prod.fst <$> ·) (next_bind 0 queue fun hash =>
        rootParents H 1 (H.combine leftLeaf hash 0) parents >>= fun p =>
          rootAncestors H (levels + 1 - p.1) p.1 p.2)).trans ?_
      exact congrArg (Prod.fst <$> ·) (climb_run fits _ queue.tail)

theorem pathParents_run (d : Nat) (queue : List Uint256) :
    (pathParents H d parents).run queue =
      .ok (siblings H.emptyRoot parents.length d parents queue,
        queue.drop (parents.countP isNone)) := by
  induction parents generalizing d queue with
  | nil => rfl
  | cons parent rest ih =>
    cases parent with
    | some hash =>
      change ((pathParents H (d + 1) rest).run queue >>= fun p => pure ((true, hash) :: p.1, p.2)) =
        _
      rw [ih, length_cons, siblings, countP_cons_of_neg (by simp)]
      rfl
    | none =>
      refine (next_bind d queue fun hash => do
        pure ((false, hash) :: (← pathParents H (d + 1) rest))).trans ?_
      change ((pathParents H (d + 1) rest).run queue.tail >>= fun p => pure (_ :: p.1, p.2)) = _
      rw [ih, length_cons, siblings, countP_cons_of_pos (by simp), drop_tail]
      rfl

theorem pathAncestors_run (queue : List Uint256) :
    (pathAncestors H steps d).run queue =
      .ok (siblings H.emptyRoot steps d [] queue, queue.drop steps) := by
  induction steps generalizing d queue with
  | zero => rfl
  | succ steps ih =>
    refine (next_bind d queue fun hash => do
      pure ((false, hash) :: (← pathAncestors H steps (d + 1)))).trans ?_
    change ((pathAncestors H steps (d + 1)).run queue.tail >>= fun p => pure (_ :: p.1, p.2)) = _
    rw [ih, siblings, drop_tail]
    rfl

/-- `path` after its first step. -/
def pathRest (H : MerkleHash) (parents : List (Option Uint256)) (first : Bool × Uint256) :
    Filling (List (Bool × Uint256)) := do
  let steps ← pathParents H 1 parents
  let ancestors ← pathAncestors H (H.depth - (1 + parents.length)) (1 + parents.length)
  return first :: steps ++ ancestors

theorem pathRest_run (fits : parents.length < H.depth) (queue : List Uint256)
    (first : Bool × Uint256) :
    (pathRest H parents first).run' queue =
      .ok (first :: siblings H.emptyRoot (H.depth - 1) 1 parents queue) := by
  have count : H.depth - 1 = parents.length + (H.depth - (1 + parents.length)) := by omega
  change Prod.fst <$>
    ((pathParents H 1 parents).run queue >>= fun p => (pathAncestors H _ _).run p.2 >>= fun r =>
    (pure (first :: p.1 ++ r.1, r.2) : Except TreeError _)) = _
  rw [pathParents_run]
  change Prod.fst <$> ((pathAncestors H _ _).run (queue.drop _) >>= fun r =>
    (pure (first :: _ ++ r.1, r.2) : Except TreeError _)) = _
  rw [pathAncestors_run, count, siblings_add]
  rfl

/-- The path that the source returns for the siblings on the way up. -/
def pathOf (steps : List (Bool × Uint256)) : MerklePath :=
  ⟨(steps.map (fun step => hashBits step.2)).reverse, (steps.map Prod.fst).reverse⟩

theorem path_climbs (fits : t.parents.length < H.depth) (left : t.left.isSome)
    (queue : List Uint256) :
    t.path H queue = .ok (pathOf (siblings H.emptyRoot H.depth 0 t.slots queue)) := by
  obtain ⟨levels, depth⟩ : ∃ levels, H.depth = levels + 1 := ⟨H.depth - 1, by omega⟩
  obtain ⟨_ | leftLeaf, right, parents⟩ := t
  · cases left
  · cases right with
    | some _ =>
      refine (congrArg (Except.map pathOf) (pathRest_run fits queue (true, leftLeaf))).trans ?_
      rw [depth]
      rfl
    | none =>
      refine (congrArg (Except.map pathOf <| Prod.fst <$> ·)
        (next_bind 0 queue fun hash => pathRest H parents (false, hash))).trans ?_
      refine (congrArg (Except.map pathOf) (pathRest_run fits queue.tail (false, _))).trans ?_
      rw [depth]
      rfl

/-! `root()` has an empty queue. -/

theorem rootParents_nil (d : Nat) (root : Uint256) :
    (rootParents H d root parents).run [] = .ok (climb H d root parents, []) := by
  induction parents generalizing d root with
  | nil => rfl
  | cons parent _ ih =>
    cases parent with
    | some hash => exact ih (d + 1) (H.combine hash root d)
    | none => exact ih (d + 1) (H.combine root (fillerNext H d) d)

theorem rootAncestors_nil (root : Uint256) :
    (rootAncestors H steps d root).run [] = .ok (fillUp H steps d root, []) := by
  induction steps generalizing d root with
  | zero => rfl
  | succ _ ih => exact ih (d + 1) (H.combine root (fillerNext H d) d)

theorem rootFrom_nil (t : IncrementalMerkleTree) : t.rootFrom H H.depth [] = .ok (t.root H) := by
  have climbed : ∀ pair, Prod.fst <$> ((rootParents H 1 pair t.parents).run [] >>= fun p =>
      (rootAncestors H (H.depth - p.1.1) p.1.1 p.1.2).run p.2) =
        .ok (fillUp H (H.depth - (climb H 1 pair t.parents).1) (climb H 1 pair t.parents).1
          (climb H 1 pair t.parents).2) := by
    intro _
    rw [rootParents_nil]
    change Prod.fst <$> (rootAncestors H _ _ _).run [] = _
    rw [rootAncestors_nil]
    rfl
  obtain ⟨left, right, _⟩ := t
  cases left with
  | some l =>
    cases right with
    | some r => exact climbed (H.combine l r 0)
    | none => exact climbed (H.combine l (fillerNext H 0) 0)
  | none =>
    cases right with
    | some r => exact climbed (H.combine (fillerNext H 0) r 0)
    | none => exact climbed (H.combine (fillerNext H 0) (fillerNext H 0) 0)

/-! The tree of `c + 1` leaves on the way from leaf `c`. -/

theorem last_ofLeaves (c : Nat) : (ofLeaves H leaf (c + 1)).last = .ok (leaf c) := by
  rcases mod_two_eq_zero_or_one c with even | odd
  · rw [ofLeaves_of_even even]
    rfl
  · rw [ofLeaves_of_odd odd]
    rfl

theorem parents_fit (pos : 1 ≤ depth) (fits : c < 2 ^ depth) :
    (ofLeaves H leaf (c + 1)).parents.length < depth := by
  have inner : (frontier H.combine leaf 1 (c / 2)).length ≤ depth - 1 := by
    rw [length_frontier_le]
    obtain ⟨d, rfl⟩ : ∃ d, depth = d + 1 := ⟨depth - 1, by omega⟩
    rw [Nat.pow_succ] at fits
    rw [Nat.add_sub_cancel]
    omega
  rw [ofLeaves]
  exact lt_of_le_of_lt inner (by omega)

theorem siblings_ofLeaves (c levels : Nat) (queue : List Uint256) :
    siblings H.emptyRoot (levels + 1) 0 (ofLeaves H leaf (c + 1)).slots queue =
      siblings H.emptyRoot (levels + 1) 0 (frontier H.combine leaf 0 c) queue := by
  rcases mod_two_eq_zero_or_one c with even | odd
  · rw [siblings_frontier_of_even even, ofLeaves_of_even even]
    rfl
  · rw [frontier_of_odd odd, ofLeaves_of_odd odd]
    rfl

/-- The root from a tree and a queue with the siblings to the right. -/
theorem rootFrom_ofLeaves (pos : 1 ≤ depth) (fits : c < 2 ^ depth) {queue : List Uint256}
    (supplied : Supplies H.combine H.emptyRoot leaf depth 0 c queue) :
    (ofLeaves H leaf (c + 1)).rootFrom H depth queue = .ok (node H.combine leaf depth 0) := by
  have last : (ofLeaves H leaf (c + 1)).last = .ok (leaf c) := last_ofLeaves c
  have climbed := rootFrom_climbs (H := H) (parents_fit pos fits) rfl last queue
  obtain ⟨levels, rfl⟩ : ∃ levels, depth = levels + 1 := ⟨depth - 1, by omega⟩
  have computed := recompute_siblings supplied
  rw [div_eq_of_lt fits, zero_add] at computed
  rw [climbed, siblings_ofLeaves]
  exact congrArg Except.ok computed

/-! The number of leaves -/

/-- The sum of `size` over the slots from `parents[j]` on. The shift for slot 30 is negative. -/
theorem slots_sum {j : Nat} (low : j ≤ 30) (room : parents.length + j ≤ 31) :
    let sum : Int :=
  ((parents.zipIdx j).map fun parent => if parent.1.isSome then shiftOne (parent.2 + 1) else 0).sum
    (sum = parentLeaves (j + 1) parents ∧ parentLeaves (j + 1) parents + 2 ^ (j + 1) ≤ 2 ^ 31) ∨
      (sum = parentLeaves (j + 1) parents - 2 ^ 32 ∧ 2 ^ 31 ≤ parentLeaves (j + 1) parents) := by
  induction parents generalizing j with
  | nil =>
    exact .inl
      ⟨rfl, by simpa [parentLeaves] using Nat.pow_le_pow_right Nat.two_pos (by omega : j + 1 ≤ 31)⟩
  | cons parent rest ih =>
    rw [length_cons] at room
    rcases eq_or_lt_of_le low with rfl | below
    · obtain rfl : rest = [] := length_eq_zero_iff.mp (by omega)
      cases parent with
      | none => exact .inl ⟨rfl, by decide⟩
      | some _ => exact .inr ⟨rfl, by simp [parentLeaves]⟩
    · have further := ih (j := j + 1) below (by omega)
      have unit := Nat.two_pow_pos j
      cases parent with
      | none =>
        simp only [zipIdx_cons, map_cons, sum_cons, parentLeaves, isSome_none,
          Bool.false_eq_true, if_false]
        omega
      | some _ =>
        have shift : shiftOne (j + 1) = 2 ^ (j + 1) := if_neg (by omega)
        simp only [zipIdx_cons, map_cons, sum_cons, parentLeaves, isSome_some, if_true, shift]
        grind

/-- `size()` counts the leaves up to `2 ^ 31`; from there on it is `2 ^ 32` less, modulo
`2 ^ 64`. -/
theorem size_holding (shallow : H.depth ≤ 32) (fits : l.length ≤ 2 ^ H.depth) : (holding H l).size =
    if l.length ≤ 2 ^ 31 then l.length else (l.length + (2 ^ 64 - 2 ^ 32)) % 2 ^ 64 := by
  obtain ⟨below, count⟩ := appendAll_grows (fits_empty H) (appendAll_empty fits)
  rw [Fits] at below
  have sum := slots_sum (j := 0) (by decide) (show (holding H l).parents.length + 0 ≤ 31 by omega)
  simp only [zero_add] at sum
  cases l with
  | nil => rfl
  | cons first rest =>
    have left : (holding H (first :: rest)).left.isSome = true := rfl
    rw [show empty.leaves = 0 from rfl] at count
    simp only [leaves, left, if_true] at count
    simp only [size, left, if_true]
    split_ifs at count ⊢ <;> omega

end Zcashd.Source.IncrementalMerkleTree
