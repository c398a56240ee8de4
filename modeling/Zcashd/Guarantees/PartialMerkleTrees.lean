import Zcashd.Source.PartialMerkleTree

/-!
# What a partial Merkle tree proves

The sender of a partial Merkle tree names the number of transactions, and with it the height at
which hashes are taken for transaction ids; the header root does not bind it.

When `ExtractMatches` returns the root of a block, every hash that it reports is a node of the tree
of that block (`matches_are_nodes`). It is the id of a transaction if and only if the named number
gives a tree at least as high as the block's. A tree that is lower passes interior nodes off as
transactions (`interior_node_reported`). The hash may have collisions elsewhere: what is needed of
it is `Unforgeable`, about the pairs that are hashed for this block.
-/
namespace Zcashd.Guarantees.PartialMerkleTrees

open Abstract Source CPartialMerkleTree List CTransaction

/-- No other pair has the hash of one that is hashed in the tree, and no leaf is the hash of a
pair. -/
structure Unforgeable (hash : Uint256 → Uint256 → Uint256) (leaves : List Uint256) : Prop where
  pairs : ∀ p q, Paired hash leaves q → hash p.1 p.2 = hash q.1 q.2 → p = q
  leaves : ∀ a b, hash a b ∉ leaves

variable {hash : Uint256 → Uint256 → Uint256} {leaves level : List Uint256} {a b : Uint256}

theorem mem_of_levelPairs {p : Uint256 × Uint256} (mem : p ∈ levelPairs level) :
    p.1 ∈ level ∧ p.2 ∈ level := by
  fun_induction levelPairs level with
  | case1 => cases mem
  | case2 a => simp_all
  | case3 a b _ _ => grind

/-- The children of a node are in the level below. -/
theorem Unforgeable.children (unforgeable : Unforgeable hash leaves)
    (below : Level hash leaves level) (several : 1 < level.length)
    (node : hash a b ∈ (merkleLevel hash level).1) :
    a ∈ level ∧ b ∈ level := by
  rw [merkleLevel_fst, mem_map] at node
  obtain ⟨q, mem, same⟩ := node
  cases unforgeable.pairs (a, b) q ⟨level, below, several, mem⟩ same.symm
  exact mem_of_levelPairs mem

/-- The level at a height. -/
def levelAt (hash : Uint256 → Uint256 → Uint256) (leaves : List Uint256) : Nat → List Uint256
  | 0 => leaves
  | height + 1 => (merkleLevel hash (levelAt hash leaves height)).1

theorem length_levelAt (hash : Uint256 → Uint256 → Uint256) (leaves : List Uint256) (height : Nat) :
    (levelAt hash leaves height).length = calcTreeWidth leaves.length height := by
  induction height with
  | zero => simp [levelAt, calcTreeWidth]
  | succ height ih =>
    have two : 0 < 2 ^ height := Nat.two_pow_pos height
    rw [levelAt, length_merkleLevel, ih, calcTreeWidth, calcTreeWidth, ← Nat.add_div_right _ two,
      Nat.div_div_eq_div_mul, Nat.pow_succ]
    congr 1
    omega

theorem treeHeight_spec {n rounds nHeight : Nat} (enough : n ≤ 2 ^ (nHeight + rounds))
    (old : ∀ k < nHeight, 1 < calcTreeWidth n k) :
    (∀ k < treeHeight n rounds nHeight, 1 < calcTreeWidth n k) ∧
      calcTreeWidth n (treeHeight n rounds nHeight) ≤ 1 := by
  induction rounds generalizing nHeight with
  | zero =>
    refine ⟨old, Nat.lt_succ_iff.mp (Nat.div_lt_of_lt_mul ?_)⟩
    have := Nat.two_pow_pos nHeight
    simp only [treeHeight, Nat.add_zero] at enough ⊢
    omega
  | succ _ ih =>
    unfold treeHeight
    split
    · rename_i wide
      apply ih (by rwa [Nat.add_right_comm])
      intro k below
      rcases Nat.lt_succ_iff_lt_or_eq.mp below with lower | rfl
      · exact old k lower
      · exact wide
    · exact ⟨old, by omega⟩

theorem treeHeight_bounds (n : Nat) :
    (∀ k < treeHeight n n 0, 1 < calcTreeWidth n k) ∧ calcTreeWidth n (treeHeight n n 0) ≤ 1 :=
  treeHeight_spec (by rw [Nat.zero_add]; exact Nat.le_of_lt Nat.lt_two_pow_self) (by simp)

/-- Every level is at a height of the tree. -/
theorem level_at {x : List Uint256} (level : Level hash leaves x) :
    ∃ k, x = levelAt hash leaves k ∧ ∀ j < k, 1 < calcTreeWidth leaves.length j := by
  induction level with
  | bottom => exact ⟨0, rfl, by simp⟩
  | @above x _ several ih =>
    obtain ⟨k, rfl, wide⟩ := ih
    rw [length_levelAt] at several
    refine ⟨k + 1, rfl, fun j below => ?_⟩
    rcases Nat.lt_succ_iff_lt_or_eq.mp below with lower | rfl
    · exact wide j lower
    · exact several

/-- Below the height that the loop finds there are levels of several nodes. -/
theorem level_below_root (hash : Uint256 → Uint256 → Uint256) {k : Nat}
    (inside : k < treeHeight leaves.length leaves.length 0) :
    Level hash leaves (levelAt hash leaves k) ∧ 1 < (levelAt hash leaves k).length := by
  have several : 1 < (levelAt hash leaves k).length := by
    rw [length_levelAt]
    exact (treeHeight_bounds leaves.length).1 k inside
  refine ⟨?_, several⟩
  induction k with
  | zero => exact .bottom
  | succ k ih =>
    have wide := (treeHeight_bounds leaves.length).1 k (by omega)
    rw [← length_levelAt hash] at wide
    exact (ih (by omega) wide).above wide

/-- The root is at the height that the loop finds. -/
theorem root_levelAt {root : Uint256} (level : Level hash leaves [root]) :
    root ∈ levelAt hash leaves (treeHeight leaves.length leaves.length 0) := by
  obtain ⟨k, same, wide⟩ := level_at level
  obtain ⟨lower, _⟩ := treeHeight_bounds leaves.length
  have size : calcTreeWidth leaves.length k = 1 := by
    rw [← length_levelAt hash, ← same]
    rfl
  have height : k = treeHeight leaves.length leaves.length 0 := by
    have lower := lower k
    have wide := wide (treeHeight leaves.length leaves.length 0)
    omega
  rw [← height, ← same]
  simp

/-- A node of the claimed tree, whose height counts from the claimed transactions, and the level of
the block's tree it is in. -/
def Stands (hash : Uint256 → Uint256 → Uint256) (leaves : List Uint256) (claimed height : Nat)
    (v : Uint256) : Prop :=
  ∃ k ≤ treeHeight leaves.length leaves.length 0, v ∈ levelAt hash leaves k ∧
    height + treeHeight leaves.length leaves.length 0 = k + claimed

variable {claimed : Nat}

theorem Unforgeable.stands (unforgeable : Unforgeable hash leaves) {height : Nat}
    (node : Stands hash leaves claimed (height + 1) (hash a b)) :
    Stands hash leaves claimed height a ∧ Stands hash leaves claimed height b := by
  obtain ⟨k, inside, member, same⟩ := node
  cases k with
  | zero => exact absurd member (unforgeable.leaves a b)
  | succ k =>
    obtain ⟨below, several⟩ := level_below_root hash inside
    obtain ⟨first, second⟩ := unforgeable.children below several member
    exact ⟨⟨k, by omega, first, by omega⟩, ⟨k, by omega, second, by omega⟩⟩

/-- What is reported is a transaction id if and only if the claimed tree is at least as high as the
block's: in a lower one it is the hash of a pair. -/
theorem Unforgeable.reported (unforgeable : Unforgeable hash leaves) {txid : Uint256}
    (node : Stands hash leaves claimed 0 txid) :
    (txid ∈ leaves ∨ ∃ p, Paired hash leaves p ∧ txid = hash p.1 p.2) ∧
      (txid ∈ leaves ↔ treeHeight leaves.length leaves.length 0 ≤ claimed) := by
  obtain ⟨k, inside, member, same⟩ := node
  cases k with
  | zero => exact ⟨.inl member, iff_of_true member (by omega)⟩
  | succ k =>
    obtain ⟨below, several⟩ := level_below_root hash inside
    rw [levelAt, merkleLevel_fst, mem_map] at member
    obtain ⟨p, paired, rfl⟩ := member
    exact ⟨.inr ⟨p, ⟨_, below, several, paired⟩, rfl⟩,
      iff_of_false (unforgeable.leaves _ _) (by omega)⟩

/-- No read is outside of the vectors. When the root of a block is returned, everything reported
as matched is a node of its tree: a transaction id, or an interior node. It is a transaction id if
and only if the number of transactions gives a tree at least as high as the block's. -/
theorem matches_are_nodes (hash : Uint256 → Uint256 → Uint256) (t : CPartialMerkleTree)
    (block : CBlock) :
    (t.extractMatches hash).isSome ∧
    ∀ vMatch, t.extractMatches hash = some ((block.buildMerkleTree hash).1, vMatch) →
      (block.buildMerkleTree hash).1 ≠ 0 →
      Unforgeable hash (block.vtx.map CTransaction.getHash) → ∀ txid ∈ vMatch,
        (txid ∈ block.vtx.map CTransaction.getHash ∨
          ∃ p, Paired hash (block.vtx.map CTransaction.getHash) p ∧ txid = hash p.1 p.2) ∧
        (txid ∈ block.vtx.map CTransaction.getHash ↔
          treeHeight block.vtx.length block.vtx.length 0 ≤
          treeHeight t.nTransactions.toNat t.nTransactions.toNat 0) := by
  refine ⟨extractMatches_isSome hash t, fun vMatch ran nonzero unforgeable => ?_⟩
  obtain ⟨s, _, traversed, start, rfl⟩ := extractMatches_root nonzero ran
  have length : block.vtx.length = (block.vtx.map getHash).length := by simp
  have nonempty : block.vtx.map getHash ≠ [] := by
    intro empty
    simp [CBlock.buildMerkleTree, empty, merkleLevels] at nonzero
  have root : Level hash (block.vtx.map getHash) [(block.buildMerkleTree hash).1] := by
    rw [CBlock.buildMerkleTree, length]
    exact (merkleLevels_spec hash _ false nonempty (Nat.le_succ _)).1
  rw [length]
  intro txid reported
  apply unforgeable.reported
  exact traverseAndExtract_matches (fun _ _ _ => unforgeable.stands) traversed
    ⟨_, le_rfl, root_levelAt root, Nat.add_comm ..⟩ (by simp [start]) txid reported

def listedTx (hash : Uint256) : CTransaction := ⟨hash, false, 1, 0, [], [], 0, 0, [], [], []⟩

def fourBlock : CBlock :=
  ⟨1, 4, 0, 1234, 0, 0, 0, [], [listedTx 1, listedTx 2, listedTx 3, listedTx 4]⟩

def fourHash (a b : Uint256) : Uint256 :=
  if a = 1 ∧ b = 2 then 12 else if a = 3 ∧ b = 4 then 34 else if a = 12 ∧ b = 34 then 1234 else 99

/-- The level above the transactions of the block, sent as a tree over two transactions. -/
def twoTransactions : CPartialMerkleTree :=
  ⟨2, [true, true, true, false, false, false, false, false], [12, 34], false⟩

theorem fourHash_unforgeable : Unforgeable fourHash [1, 2, 3, 4] where
  pairs p q paired same := by
    have known := paired.mem_treePairs (by decide : _ ≤ 3 + 1)
    have all : treePairs fourHash 3 [1, 2, 3, 4] = [(1, 2), (3, 4), (12, 34)] := by decide
    rw [all] at known
    simp only [mem_cons, not_mem_nil, or_false] at known
    obtain ⟨a, b⟩ := p
    unfold fourHash at same
    rcases known with rfl | rfl | rfl <;> split_ifs at same <;> simp_all
  leaves a b := by
    unfold fourHash
    split_ifs <;> decide

/-- A tree over the four transactions in which the second one is matched. -/
theorem matches_are_nodes_four :
    ∀ txid ∈ [(2 : Uint256)], txid ∈ fourBlock.vtx.map CTransaction.getHash := by
  have extracted : CPartialMerkleTree.extractMatches fourHash
      ⟨4, [true, true, false, true, false, false, false, false], [1, 2, 34], false⟩ =
        some ((fourBlock.buildMerkleTree fourHash).1, [2]) := by decide
  intro txid reported
  obtain ⟨_, matched⟩ := (matches_are_nodes fourHash _ fourBlock).2 _ extracted
    (by decide) fourHash_unforgeable txid reported
  exact matched.mpr (by decide)

/-- Two interior nodes are reported as matched transactions. -/
theorem interior_node_reported : Unforgeable fourHash (fourBlock.vtx.map CTransaction.getHash) ∧
    (fourBlock.buildMerkleTree fourHash).1 ≠ 0 ∧
    twoTransactions.extractMatches fourHash =
      some ((fourBlock.buildMerkleTree fourHash).1, [12, 34]) ∧
    (12 : Uint256) ∉ fourBlock.vtx.map CTransaction.getHash :=
  ⟨fourHash_unforgeable, by decide, by decide, by decide⟩

end Zcashd.Guarantees.PartialMerkleTrees
