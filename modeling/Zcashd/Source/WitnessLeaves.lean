import Zcashd.Source.MerkleTreeLeaves

/-!
A witness and the leaves that came after the one it is for. The subtrees to the right of the
way up are filled in order: `filled` are those that are complete, and the cursor is the tree
of the leaves of the next one, when there are any.
-/
namespace Zcashd.Source

open Lib Lib.MerkleTree Nat

variable {H : MerkleHash} {leaf : Nat → Uint256}

namespace IncrementalMerkleTree

/-- Reading the root never fails. -/
theorem rootFrom_ok (t : IncrementalMerkleTree) (depth : Nat) (queue : List Uint256) :
    ∃ root, t.rootFrom H depth queue = .ok root := by
  have climbed :
      ∀ pair queue, ∃ root, Prod.fst <$> ((rootParents H 1 pair t.parents).run queue >>= fun p =>
      (rootAncestors H (depth - p.1.1) p.1.1 p.1.2).run p.2) = .ok root := by
    intro _ _
    rw [rootParents_run]
    change ∃ root, Prod.fst <$> (rootAncestors H _ _ _).run _ = .ok root
    rw [rootAncestors_run]
    exact ⟨_, rfl⟩
  obtain ⟨left, right, _⟩ := t
  cases left with
  | some l =>
    cases right with
    | some r => exact climbed (H.combine l r 0) queue
    | none => cases queue <;> exact climbed _ _
  | none =>
    cases right with
    | some r => cases queue <;> exact climbed _ _
    | none =>
      match queue with
      | [] => exact climbed _ []
      | [_] => exact climbed _ []
      | _ :: _ :: queue => exact climbed _ queue

variable {filled : List Uint256} {h c c' depth n : Nat}

theorem nextDepthParents_frontier {h' : Nat} (reached : Reaches H.combine leaf h c filled h' c') :
    nextDepthParents h filled.length (frontier H.combine leaf h c) = h' := by
  induction reached with
  | @here h c even =>
    rcases Nat.eq_zero_or_pos c with rfl | pos
    · rw [frontier_zero]
      rfl
    · rw [frontier_of_even even pos]
      rfl
  | skip odd _ ih =>
    rw [frontier_of_odd odd]
    exact ih
  | @fill h c _ _ _ even _ ih =>
    rcases Nat.eq_zero_or_pos c with rfl | pos
    · rw [Nat.zero_div, frontier_zero, nextDepthParents] at ih
      rw [frontier_zero, nextDepthParents, List.length_cons]
      omega
    · rw [frontier_of_even even pos]
      exact ih

/-- `next_depth` finds the height of the next subtree to fill. -/
theorem nextDepth_ofLeaves (reached : Reaches H.combine leaf 0 c filled h c') :
    (ofLeaves H leaf (c + 1)).nextDepth filled.length = h := by
  cases reached with
  | here even =>
    rw [ofLeaves_of_even even]
    rfl
  | skip odd above =>
    rw [ofLeaves_of_odd odd]
    exact nextDepthParents_frontier above
  | fill even above =>
    rw [ofLeaves_of_even even]
    exact nextDepthParents_frontier above

end IncrementalMerkleTree

namespace IncrementalWitness

open IncrementalMerkleTree

/-! What `append` does, with and without a cursor. -/

variable {w : IncrementalWitness}

theorem append_run_of_none (cursor : w.cursor = none) (obj : Uint256) : (append H obj).run w =
      let next := { w with cursorDepth := w.tree.nextDepth w.filled.length }
      if H.depth ≤ next.cursorDepth then .error .full next
      else if next.cursorDepth = 0 then .ok () { next with filled := w.filled ++ [obj] }
      else .ok () { next with cursor := some ⟨some obj, none, []⟩ } := by
  have started : (appendM H obj).run empty = .ok () ⟨some obj, none, []⟩ := appendM_run obj .empty
  simp only [append, EStateM.run_bind, EStateM.run_get, cursor, EStateM.run_modify]
  split
  · rfl
  · split
    · rfl
    · simp [appendCursor, started]

variable {obj : Uint256}

/-- A cursor that is full throws and stays. -/
theorem append_run_of_full {tree : IncrementalMerkleTree}
    (cursor : w.cursor = some tree) (full : tree.append H obj = none) :
    (append H obj).run w = .error .full w := by
  have appended := appendM_run (H := H) obj tree
  rw [full] at appended
  simp only [append, EStateM.run_bind, EStateM.run_get, cursor, appendCursor, appended,
    EStateM.run_modify, EStateM.run_throw]
  rw [← cursor]

theorem append_run_of_some {tree grown : IncrementalMerkleTree} {root : Uint256}
    (cursor : w.cursor = some tree) (grows : tree.append H obj = some grown)
    (hash : grown.rootFrom H w.cursorDepth [] = .ok root) : (append H obj).run w = .ok ()
      (if grown.isComplete w.cursorDepth then
        { w with filled := w.filled ++ [root], cursor := none }
      else { w with cursor := some grown }) := by
  have appended := appendM_run (H := H) obj tree
  rw [grows] at appended
  simp only [append, EStateM.run_bind, EStateM.run_get, cursor, appendCursor, appended,
    EStateM.run_modify, settleCursor]
  split
  · simp [hash]
  · rfl

/-- The witness for leaf `c` after leaf `c + r` of the next subtree, with `r` leaves of it in
the cursor; the subtree is beside index `c'` at height `h`. -/
structure Partway (H : MerkleHash) (leaf : Nat → Uint256) (c h c' r : Nat)
    (w : IncrementalWitness) : Prop where
  tree : w.tree = ofLeaves H leaf (c + 1)
  reached : Reaches H.combine leaf 0 c w.filled h c'
  room : r < 2 ^ h
  cursor : w.cursor = if r = 0 then none
    else some (ofLeaves H (fun i => leaf ((c' + 1) * 2 ^ h + i)) r)
  cursorDepth : r ≠ 0 → w.cursorDepth = h

/-- The witness for leaf `c` when there are `n` leaves. -/
def Follows (H : MerkleHash) (leaf : Nat → Uint256) (c n : Nat) (w : IncrementalWitness) : Prop :=
  ∃ h c' r, Partway H leaf c h c' r w ∧ n = (c' + 1) * 2 ^ h + r

theorem follows_witness (c : Nat) : Follows H leaf c (c + 1) (ofLeaves H leaf (c + 1)).witness := by
  obtain ⟨h, c', reached, start⟩ := Reaches.first 0 c
  refine ⟨h, c', 0, ⟨rfl, reached, Nat.two_pow_pos h, rfl, fun nonzero => absurd rfl nonzero⟩, ?_⟩
  rw [start]
  omega

namespace Partway

variable {c h c' r : Nat} {w : IncrementalWitness}

/-- The subtree to fill is inside the tree while there is room. -/
theorem height_lt (room : (c' + 1) * 2 ^ h + r < 2 ^ depth) : h < depth := by
  apply (Nat.pow_lt_pow_iff_right (by decide : 1 < 2)).mp
  have start : 2 ^ h ≤ (c' + 1) * 2 ^ h := Nat.le_mul_of_pos_left _ (Nat.succ_pos c')
  omega

/-- A cursor is for a subtree with more than one leaf. -/
theorem height_pos (partway : Partway H leaf c h c' r w) (pos : r ≠ 0) : 1 ≤ h := by
  rcases Nat.eq_zero_or_pos h with rfl | height
  · have room := partway.room
    rw [pow_zero] at room
    omega
  · exact height

/-- The hash of the whole subtree, from the tree of its leaves. -/
theorem node_subtree (a h : Nat) :
    node H.combine (fun i => leaf (a * 2 ^ h + i)) h 0 = node H.combine leaf h a := by
  have shifted : node H.combine (fun i => leaf (a * 2 ^ (h + 0) + i)) h 0 = _ := node_shift a 0 h 0
  rw [add_zero] at shifted
  rw [shifted, pow_zero, mul_one, add_zero]

/-- Without a cursor: a leaf fills the subtree of height 0, or starts the cursor. -/
theorem start (partway : Partway H leaf c h c' 0 w) (inside : h < H.depth)
    (isLeaf : leaf ((c' + 1) * 2 ^ h) = obj) :
    ∃ w', (append H obj).run w = .ok () w' ∧ Follows H leaf c ((c' + 1) * 2 ^ h + 1) w' := by
  have depth : w.tree.nextDepth w.filled.length = h := by
    rw [partway.tree]
    exact nextDepth_ofLeaves partway.reached
  have none : w.cursor = none := partway.cursor
  have run := append_run_of_none (H := H) none obj
  simp only [depth, if_neg (not_le.mpr inside)] at run
  by_cases bottom : h = 0
  · subst bottom
    rw [if_pos rfl] at run
    refine ⟨_, run, ?_⟩
    obtain ⟨h₁, c₁, reached, start⟩ := partway.reached.next
    have hash : node H.combine leaf 0 (c' + 1) = obj := by
      rw [← isLeaf, pow_zero, mul_one]
      rfl
    rw [hash] at reached
    refine ⟨h₁, c₁, 0,
      ⟨partway.tree, reached, Nat.two_pow_pos h₁, none, fun nonzero => absurd rfl nonzero⟩, ?_⟩
    rw [start]
    omega
  · rw [if_neg bottom] at run
    refine ⟨_, run, h, c', 1,
      ⟨partway.tree, partway.reached, Nat.one_lt_two_pow bottom, ?_, fun _ => rfl⟩, rfl⟩
    rw [if_neg Nat.one_ne_zero, ofLeaves_of_even (by rfl), Nat.zero_div, frontier_zero, ← isLeaf]
    rfl

/-- With a cursor: it grows, and is filed when the subtree is complete. -/
theorem grow (partway : Partway H leaf c h c' r w) (pos : r ≠ 0) (inside : h < H.depth)
    (isLeaf : leaf ((c' + 1) * 2 ^ h + r) = obj) :
    ∃ w', (append H obj).run w = .ok () w' ∧ Follows H leaf c ((c' + 1) * 2 ^ h + (r + 1)) w' := by
  have cursor := partway.cursor
  rw [if_neg pos] at cursor
  have depth := partway.cursorDepth pos
  have room : r < 2 ^ H.depth :=
    Nat.lt_trans partway.room (Nat.pow_lt_pow_right (by decide) inside)
  subst isLeaf
  have grows : (ofLeaves H (fun i => leaf ((c' + 1) * 2 ^ h + i)) r).append H
      (leaf ((c' + 1) * 2 ^ h + r)) = _ :=
    append_ofLeaves room
  obtain ⟨_, hash⟩ :=
    rootFrom_ok (H := H) (ofLeaves H (fun i => leaf ((c' + 1) * 2 ^ h + i)) (r + 1))
    w.cursorDepth []
  have run := append_run_of_some cursor grows hash
  have height := partway.height_pos pos
  have complete :
      (ofLeaves H (fun i => leaf ((c' + 1) * 2 ^ h + i)) (r + 1)).isComplete w.cursorDepth = true ↔
      r + 1 = 2 ^ h := by
    rw [depth]
    exact isComplete_ofLeaves height (r + 1)
  by_cases full : r + 1 = 2 ^ h
  · rw [if_pos (complete.mpr full)] at run
    refine ⟨_, run, ?_⟩
    obtain ⟨h₁, c₁, reached, start⟩ := partway.reached.next
    have computed :
        (ofLeaves H (fun i => leaf ((c' + 1) * 2 ^ h + i)) (r + 1)).rootFrom H h [] = _ :=
      rootFrom_ofLeaves height partway.room (supplies_full full 0 [])
    rw [depth, computed, node_subtree] at hash
    obtain rfl := Except.ok.inj hash
    refine ⟨h₁, c₁, 0,
      ⟨partway.tree, reached, Nat.two_pow_pos h₁, rfl, fun nonzero => absurd rfl nonzero⟩, ?_⟩
    rw [start, full, ← Nat.succ_mul]
    rfl
  · rw [if_neg (fun isFull => full (complete.mp isFull))] at run
    refine ⟨_, run, h, c', r + 1, ⟨partway.tree, partway.reached, ?_, ?_, fun _ => depth⟩, rfl⟩
    · exact lt_of_le_of_ne partway.room full
    · rw [if_neg (succ_ne_zero r)]

end Partway

theorem Follows.append (follows : Follows H leaf c n w)
    (room : n < 2 ^ H.depth) (isLeaf : leaf n = obj) :
    ∃ w', (append H obj).run w = .ok () w' ∧ Follows H leaf c (n + 1) w' := by
  obtain ⟨h, _, r, partway, rfl⟩ := follows
  have inside := Partway.height_lt room
  by_cases zero : r = 0
  · subst zero
    exact partway.start inside isLeaf
  · exact partway.grow zero inside isLeaf

/-- The leaves of a full tree fill a whole number of subtrees, an odd one of each height. -/
theorem Partway.full (even : c' % 2 = 0) (room : r < 2 ^ h)
    (total : 2 ^ depth = (c' + 1) * 2 ^ h + r) : h = depth ∧ r = 0 := by
  have low : h ≤ depth := by
    apply (Nat.pow_le_pow_iff_right (by decide : 1 < 2)).mp
    have start : 2 ^ h ≤ (c' + 1) * 2 ^ h := Nat.le_mul_of_pos_left _ (Nat.succ_pos c')
    omega
  obtain ⟨k, rfl⟩ := Nat.exists_eq_add_of_le low
  have rest : r = 0 := by
    have divides : 2 ^ h ∣ (c' + 1) * 2 ^ h + r := total ▸ pow_dvd_pow 2 (Nat.le_add_right h k)
    have remainder : 2 ^ h ∣ r := (Nat.dvd_add_right (Nat.dvd_mul_left _ _)).mp divides
    exact Nat.eq_zero_of_dvd_of_lt remainder room
  rw [rest, Nat.add_zero, Nat.pow_add, Nat.mul_comm] at total
  have power : 2 ^ k = c' + 1 := Nat.eq_of_mul_eq_mul_right (Nat.two_pow_pos h) total
  cases k with
  | zero => exact ⟨rfl, rest⟩
  | succ k =>
    rw [pow_succ] at power
    omega

/-- In a full tree there is no subtree left: the exception. -/
theorem Follows.append_full (follows : Follows H leaf c (2 ^ H.depth) w)
    (obj : Uint256) : ∃ w', (IncrementalWitness.append H obj).run w = .error .full w' := by
  obtain ⟨h, _, r, partway, total⟩ := follows
  obtain ⟨rfl, rfl⟩ := Partway.full partway.reached.even_at partway.room total
  have depth : w.tree.nextDepth w.filled.length = H.depth := by
    rw [partway.tree]
    exact nextDepth_ofLeaves partway.reached
  have run := append_run_of_none (H := H) partway.cursor obj
  simp only [depth, le_refl, if_true] at run
  exact ⟨_, run⟩

/-- The partial path supplies the siblings to the right. -/
theorem Follows.partialPath (follows : Follows H leaf c n w)
    (beyond : ∀ i, n ≤ i → leaf i = H.emptyRoot 0) :
    ∃ queue, w.partialPath H = .ok queue ∧
      Supplies H.combine H.emptyRoot leaf H.depth 0 c queue := by
  obtain ⟨h, c', r, partway, rfl⟩ := follows
  have even := partway.reached.even_at
  have stop : (c' / 2 + 1) * 2 ^ (h + 1) = (c' + 1) * 2 ^ h + 2 ^ h := by
    rw [← double_mul_pow, ← succ_mul]
    congr 1
    omega
  -- whoever is at the head of the queue, nothing is in the tree above it
  have supplied :
      ∀ queue, supply H.emptyRoot h queue = node H.combine leaf h (c' + 1) → queue.tail = [] →
      Supplies H.combine H.emptyRoot leaf H.depth 0 c (w.filled ++ queue) := by
    intro _ head tail
    apply partway.reached.supplies
    cases 0 + H.depth - h with
    | zero => trivial
    | succ levels =>
      rw [Supplies, if_neg (by omega), tail]
      refine ⟨head, supplies_nil H.emptyRoot_succ levels (fun i low => beyond i ?_)⟩
      have room := partway.room
      omega
  have cursor := partway.cursor
  by_cases zero : r = 0
  · subst zero
    refine ⟨w.filled, ?_, ?_⟩
    · rw [IncrementalWitness.partialPath, cursor]
      rfl
    · rw [← List.append_nil w.filled]
      refine supplied [] ?_ rfl
      exact (node_empty H.emptyRoot_succ h (c' + 1) beyond).symm
  · obtain ⟨old, rfl⟩ : ∃ old, r = old + 1 := ⟨r - 1, by omega⟩
    have height := partway.height_pos zero
    have root : (ofLeaves H (fun i => leaf ((c' + 1) * 2 ^ h + i)) (old + 1)).rootFrom H h [] = _ :=
      rootFrom_ofLeaves height (lt_trans (lt_succ_self old) partway.room)
        (supplies_nil H.emptyRoot_succ h (fun i low => beyond _ (by rw [pow_zero] at low; omega)))
    rw [Partway.node_subtree] at root
    refine ⟨w.filled ++ [node H.combine leaf h (c' + 1)], ?_, supplied _ rfl rfl⟩
    rw [IncrementalWitness.partialPath, cursor, if_neg zero, partway.cursorDepth zero]
    simp only [root]
    rfl

section

variable {c n : Nat} {w : IncrementalWitness} (follows : Follows H leaf c n w)
include follows

theorem Follows.tree : w.tree = ofLeaves H leaf (c + 1) := by
  obtain ⟨_, _, _, partway, -⟩ := follows
  exact partway.tree

theorem Follows.element : w.element = .ok (leaf c) := by
  rw [IncrementalWitness.element, follows.tree]
  exact last_ofLeaves c

theorem Follows.root (low : c < 2 ^ H.depth)
    (beyond : ∀ i, n ≤ i → leaf i = H.emptyRoot 0) :
    w.root H = .ok (node H.combine leaf H.depth 0) := by
  obtain ⟨_, uncles, supplied⟩ := follows.partialPath beyond
  rw [IncrementalWitness.root, uncles, follows.tree]
  exact rootFrom_ofLeaves H.depth_pos low supplied

theorem Follows.path (low : c < 2 ^ H.depth) (beyond : ∀ i, n ≤ i → leaf i = H.emptyRoot 0) :
    ∃ steps, w.path H = .ok (pathOf steps) ∧
      steps.map Prod.fst = (List.range H.depth).map c.testBit ∧
      recompute H.combine 0 (leaf c) steps = node H.combine leaf H.depth 0 := by
  obtain ⟨queue, uncles, supplied⟩ := follows.partialPath beyond
  obtain ⟨levels, depth⟩ :
      ∃ levels, H.depth = levels + 1 := ⟨H.depth - 1, by have := H.depth_pos; omega⟩
  have climbed := path_climbs (t := ofLeaves H leaf (c + 1)) (parents_fit H.depth_pos low) rfl queue
  have computed := recompute_siblings supplied
  rw [div_eq_of_lt low, zero_add] at computed
  refine ⟨siblings H.emptyRoot H.depth 0 (frontier H.combine leaf 0 c) queue, ?_,
    siblings_sides .., computed⟩
  rw [IncrementalWitness.path, uncles, follows.tree]
  rw [depth, siblings_ofLeaves, ← depth] at climbed
  exact climbed

end

end IncrementalWitness

end Zcashd.Source
