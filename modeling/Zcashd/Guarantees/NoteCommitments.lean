import Zcashd.Source.WitnessLeaves

/-!
# The note commitment tree and its witnesses

`IncrementalMerkleTree` keeps two leaves and a list of optional subtrees, and
`IncrementalWitness` a tree, filled subtrees and a cursor. Both are compared with the full
binary tree over the leaves, padded with uncommitted ones: `MerkleTree.node` of the whole
height. The hash and the depth are arbitrary.
-/
namespace Zcashd.Guarantees.NoteCommitments

open Lib Lib.MerkleTree Source Source.IncrementalMerkleTree List Nat

variable {H : MerkleHash} {l : List Uint256}

theorem padded_last {ne : l ≠ []} : padded H l (l.length - 1) = l.getLast ne := by
  have inside : l.length - 1 < l.length := sub_lt (length_pos_iff.mpr ne) one_pos
  rw [padded, getD_eq_getElem _ _ inside, getLast_eq_getElem]

theorem padded_beyond {i : Nat} (beyond : l.length ≤ i) : padded H l i = H.emptyRoot 0 :=
  getD_eq_default _ _ beyond

theorem root_holding (fits : l.length ≤ 2 ^ H.depth) :
    (holding H l).root H = node H.combine (padded H l) H.depth 0 := by
  cases l with
  | nil =>
    have none : node H.combine (padded H []) H.depth 0 = H.emptyRoot H.depth :=
      node_empty H.emptyRoot_succ H.depth 0 (fun i _ => padded_beyond (zero_le i))
    rw [none]
    exact root_empty H
  | cons first rest =>
    have supplied :
        Supplies H.combine H.emptyRoot (padded H (first :: rest)) H.depth 0 rest.length [] :=
      supplies_nil H.emptyRoot_succ H.depth (fun i low => padded_beyond (by simpa using low))
    have climbed := rootFrom_ofLeaves H.depth_pos (lt_of_lt_of_le (lt_succ_self _) fits) supplied
    exact Except.ok.inj ((rootFrom_nil _).symm.trans climbed)

/-- **The tree.** After the leaves of a list of at most `2 ^ Depth`, the root is that of the
full binary tree, `last` is the last leaf, and another `append` throws, without a change, when
the list has that length, and succeeds otherwise. -/
theorem tree_holds_leaves (H : MerkleHash) (l : List Uint256) (fits : l.length ≤ 2 ^ H.depth) :
    ∃ t, empty.appendAll H l = some t ∧ t.root H = node H.combine (padded H l) H.depth 0 ∧
      (∀ nonempty : l ≠ [], t.last = .ok (l.getLast nonempty)) ∧
      (∀ obj, l.length = 2 ^ H.depth → (appendM H obj).run t = .error .full t) ∧
      (∀ obj, l.length < 2 ^ H.depth → ∃ t', (appendM H obj).run t = .ok () t') := by
  have received := appendAll_empty fits
  refine ⟨holding H l, received, root_holding fits, ?_, ?_, ?_⟩
  · intro nonempty
    have count : l.length = l.length - 1 + 1 := by
      have := length_pos_iff.mpr nonempty
      omega
    rw [holding, count, last_ofLeaves, padded_last]
  · intro _ full
    rw [appendM_run, append_holding_full full]
  · intro _ room
    rw [appendM_run, append_holding room]
    exact ⟨_, rfl⟩

/-- Three leaves in a tree of depth 2. -/
theorem tree_holds_leaves_three :
    let H := MerkleHash.linear 2 (by decide)
    ∃ t, empty.appendAll H [5, 6, 7] = some t ∧
      t.root H = H.combine (H.combine 5 6 0) (H.combine 7 (H.emptyRoot 0) 0) 1 := by
  obtain ⟨t, received, root, -⟩ := tree_holds_leaves (.linear 2 (by decide)) [5, 6, 7] (by decide)
  exact ⟨t, received, root⟩

section

open IncrementalWitness

variable {m : List Uint256}

/-- The witness along a list of further leaves. -/
theorem follows_appends {leaf : Nat → Uint256} {c n : Nat} {w : IncrementalWitness}
    (follows : Follows H leaf c n w) (room : n + m.length ≤ 2 ^ H.depth)
    (leaves : ∀ i (inside : i < m.length), leaf (n + i) = m[i]) :
    ∃ w', (forM m (append H)).run w = .ok () w' ∧ Follows H leaf c (n + m.length) w' := by
  induction m generalizing n w with
  | nil => exact ⟨w, rfl, follows⟩
  | cons _ rest ih =>
    rw [length_cons] at room
    obtain ⟨_, first, followsNext⟩ := follows.append (by omega) (leaves 0 (by simp))
    have restLeaves : ∀ i (inside : i < rest.length), leaf (n + 1 + i) = rest[i] := by
      intro i inside
      have leaf := leaves (i + 1) (by simpa using inside)
      rwa [getElem_cons_succ, ← add_assoc, add_right_comm] at leaf
    obtain ⟨last, others, followsLast⟩ := ih followsNext (by omega) restLeaves
    refine ⟨last, ?_, ?_⟩
    · rw [forM_cons, EStateM.run_bind]
      simp only [getElem_cons_zero] at first
      rw [first]
      exact others
    · rw [length_cons, add_comm rest.length, ← add_assoc]
      exact followsLast

/-- The witness of a list of leaves after further ones. -/
theorem witness_appends (ne : l ≠ [])
    (fits : l.length + m.length ≤ 2 ^ H.depth) :
    ∃ w, (forM m (append H)).run (holding H l).witness = .ok () w ∧
      Follows H (padded H (l ++ m)) (l.length - 1) (l ++ m).length w := by
  have count : l.length - 1 + 1 = l.length := succ_pred_eq_of_pos (length_pos_iff.mpr ne)
  -- all is said about one sequence of leaves, that of the end
  have tree : ofLeaves H (padded H (l ++ m)) l.length = holding H l :=
    (ofLeaves_congr (fun i low => padded_append_left m low)).symm
  have start : Follows H (padded H (l ++ m)) (l.length - 1) (l.length - 1 + 1) _ :=
    follows_witness (l.length - 1)
  rw [count, tree] at start
  rw [length_append]
  apply follows_appends start fits
  intro i inside
  simp [padded, inside]

/-- **The witness.** Take a tree with leaves `l`, its witness, and append the leaves `m` to
both. The witness has the root of the tree and the last leaf of `l` as its element. Its path
has the binary digits of the position of that leaf as index, most significant first, and the
siblings along them give the root. It takes another leaf exactly when the tree does. -/
theorem witness_follows_tree (H : MerkleHash) (l m : List Uint256) (nonempty : l ≠ [])
    (fits : l.length + m.length ≤ 2 ^ H.depth) :
    ∃ t t' w steps, empty.appendAll H l = some t ∧ t.appendAll H m = some t' ∧
      (forM m (append H)).run t.witness = .ok () w ∧ w.root H = .ok (t'.root H) ∧
      w.element = .ok (l.getLast nonempty) ∧
      w.path H = .ok (pathOf steps) ∧
      steps.map Prod.fst = (List.range H.depth).map (l.length - 1).testBit ∧
      recompute H.combine 0 (l.getLast nonempty) steps = t'.root H ∧
      ∀ obj, (∃ thrown w', (append H obj).run w = .error thrown w') ↔ t'.append H obj = none := by
  have total : (l ++ m).length = l.length + m.length := length_append
  have low : l.length - 1 < 2 ^ H.depth := by
    have := length_pos_iff.mpr nonempty
    omega
  have received := appendAll_empty (le_of_add_right_le fits)
  have further : (holding H l).appendAll H m = _ := appendAll_holding fits
  obtain ⟨w, run, follows⟩ := witness_appends nonempty fits
  have beyond : ∀ i, (l ++ m).length ≤ i → padded H (l ++ m) i = H.emptyRoot 0 :=
    fun i => padded_beyond
  have last : padded H (l ++ m) (l.length - 1) = l.getLast nonempty := by
    rw [← padded_append_left m (sub_lt (length_pos_iff.mpr nonempty) one_pos), padded_last]
  have element := follows.element
  obtain ⟨steps, path, digits, computed⟩ := follows.path low beyond
  have root := follows.root low beyond
  rw [← root_holding (total ▸ fits)] at root computed
  rw [last] at element computed
  refine ⟨holding H l, holding H (l ++ m), w, steps, received, further, run, root, element, path,
    digits, computed, fun obj => ?_⟩
  by_cases full : (l ++ m).length = 2 ^ H.depth
  · rw [full] at follows
    obtain ⟨w', thrown⟩ := follows.append_full obj
    exact ⟨fun _ => append_holding_full full obj, fun _ => ⟨_, w', thrown⟩⟩
  · have room : (l ++ m).length < 2 ^ H.depth := lt_of_le_of_ne (total ▸ fits) full
    have one : (m ++ [obj]).length = m.length + 1 := length_append
    obtain ⟨_, runs, -⟩ := witness_appends (H := H) nonempty (m := m ++ [obj]) (by omega)
    rw [append_holding room]
    constructor
    · rintro ⟨_, _, throws⟩
      rw [forM_append, EStateM.run_bind, run] at runs
      simp [throws] at runs
    · intro absent
      cases absent

/-- The witness for the first leaf of a tree of depth 2, after two more. -/
theorem witness_follows_tree_first :
    let H := MerkleHash.linear 2 (by decide)
    ∃ t w, empty.appendAll H [5] = some t ∧ (forM [6, 7] (append H)).run t.witness = .ok () w ∧
      w.element = .ok 5 := by
  obtain ⟨t, _, w, _, received, -, run, -, element, -⟩ :=
    witness_follows_tree (.linear 2 (by decide)) [5] [6, 7] (by decide) (by decide)
  exact ⟨t, w, received, run, element⟩

/-- **The number of leaves.** In a tree of depth at most 32, `size()` is the number of leaves
and `position()` the index of the leaf of the witness exactly up to `2 ^ 31` leaves. -/
theorem size_counts_leaves (H : MerkleHash) (l : List Uint256) (shallow : H.depth ≤ 32)
    (fits : l.length ≤ 2 ^ H.depth) :
    ∃ t, empty.appendAll H l = some t ∧ (t.size = l.length ↔ l.length ≤ 2 ^ 31) ∧
      ∀ m : List Uint256, l ≠ [] → l.length + m.length ≤ 2 ^ H.depth →
        ∃ w, (forM m (append H)).run t.witness = .ok () w ∧
        (w.position = l.length - 1 ↔ l.length ≤ 2 ^ 31) := by
  have size := size_holding shallow fits
  refine ⟨holding H l, appendAll_empty fits, ?_, ?_⟩
  · split at size <;> omega
  · intro m nonempty room
    obtain ⟨w, run, follows⟩ := witness_appends nonempty room
    have pos := length_pos_iff.mpr nonempty
    have tree : w.tree = holding H l := by
      rw [follows.tree, Nat.sub_add_cancel pos]
      exact (ofLeaves_congr (fun i low => padded_append_left m low)).symm
    refine ⟨w, run, ?_⟩
    rw [position, tree]
    split at size <;> omega

/-- Three leaves in a tree of depth 2. -/
theorem size_counts_leaves_three :
    let H := MerkleHash.linear 2 (by decide)
    ∃ t, empty.appendAll H [5, 6, 7] = some t ∧ t.size = 3 := by
  obtain ⟨t, received, size, -⟩ :=
    size_counts_leaves (.linear 2 (by decide)) [5, 6, 7] (by decide) (by decide)
  exact ⟨t, received, size.mpr (by decide)⟩

/-- In the Sapling tree the count is wrong as soon as the right half has a leaf. -/
theorem size_wraps : ∃ (l : List Uint256) (t : IncrementalMerkleTree), l.length = 2 ^ 31 + 1 ∧
    empty.appendAll ShieldedType.sapling.linearHash l = some t ∧ t.size = 2 ^ 64 - 2 ^ 31 + 1 ∧
      t.witness.position = 2 ^ 64 - 2 ^ 31 := by
  obtain ⟨l, count⟩ : ∃ l : List Uint256, l.length = 2 ^ 31 + 1 :=
    ⟨List.replicate _ 0, length_replicate⟩
  have depth : ShieldedType.sapling.linearHash.depth = 32 := rfl
  have fits : l.length ≤ 2 ^ ShieldedType.sapling.linearHash.depth := by rw [depth]; omega
  have size := size_holding (Nat.le_of_eq depth) fits
  rw [if_neg (by omega), count] at size
  have position : (holding _ l).witness.position = _ :=
    congrArg (fun size => (size + (2 ^ 64 - 1)) % 2 ^ 64) size
  exact ⟨l, holding _ l, count, appendAll_empty fits, size, position⟩

end

end Zcashd.Guarantees.NoteCommitments
