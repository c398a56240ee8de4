import Zcashd.Abstract.MerkleLevels

/-!
Merkle branches (`src/primitives/block.cpp:81-110`). `GetMerkleBranch` finds the levels in the
flat vector that `BuildMerkleTree` leaves, by running offsets; `CheckMerkleBranch` climbs from a
transaction id to the root.

The vector is `merkleNodes`. `CBlock.buildMerkleTree` keeps only what `BuildMerkleTree` returns of
it, the last node and the flag (`CBlock.buildMerkleTree_root`). Sizes and offsets are natural
numbers where the source has `int`. A vector that is read has at most `MAX_SIZE` elements, so the
tree of a block has fewer than `2 ^ 27` nodes, and no offset comes near the end of an `int`.
-/
namespace Zcashd.Source

open Abstract List

/-- `vMerkleTree` after `BuildMerkleTree`: the levels one after the other. -/
def merkleNodes (hash : Uint256 → Uint256 → Uint256) : Nat → List Uint256 → List Uint256
  | 0, level => level
  | levels + 1, level =>
    if 1 < level.length then level ++ merkleNodes hash levels (merkleLevel hash level).1 else level

theorem getLast?_merkleNodes (hash : Uint256 → Uint256 → Uint256) (levels : Nat)
    {level : List Uint256} (mutated : Bool) (nonempty : level ≠ [])
    (enough : level.length ≤ levels + 1) :
    (merkleNodes hash levels level).getLast? = some (merkleLevels hash levels level mutated).1 := by
  induction levels generalizing level mutated with
  | zero =>
    obtain ⟨root, rfl⟩ :=
      length_eq_one_iff.mp (Nat.le_antisymm enough (length_pos_iff.mpr nonempty))
    rfl
  | succ levels ih =>
    rcases level with _ | ⟨a, _ | ⟨b, rest⟩⟩
    · exact absurd rfl nonempty
    · rfl
    · have size := length_merkleLevel hash (a :: b :: rest)
      rw [length_cons, length_cons] at size enough
      have more : (merkleLevel hash (a :: b :: rest)).1 ≠ [] := length_pos_iff.mp (by omega)
      have above := ih (mutated || (merkleLevel hash (a :: b :: rest)).2) more (by omega)
      rw [merkleNodes, if_pos (by simp), getLast?_append, above]
      rfl

/-- `BuildMerkleTree` returns the last node of the vector, or the null hash when it is empty. -/
theorem CBlock.buildMerkleTree_root (hash : Uint256 → Uint256 → Uint256) (block : CBlock) :
    (block.buildMerkleTree hash).1 =
      (merkleNodes hash block.vtx.length (block.vtx.map CTransaction.getHash)).getLast?.getD 0 := by
  rw [buildMerkleTree]
  rcases eq_or_ne block.vtx [] with none | some
  · rw [none]
    rfl
  · rw [getLast?_merkleNodes hash _ false (by simpa using some) (by simp), Option.getD_some]

/-- The loop of `GetMerkleBranch`, with as many rounds as there can be. -/
def merkleBranchLoop (vMerkleTree : List Uint256) : Nat → Nat → Nat → Nat → List Uint256
  | 0, _, _, _ => []
  | rounds + 1, nSize, j, nIndex =>
    if 1 < nSize then
      vMerkleTree.getD (j + min (nIndex ^^^ 1) (nSize - 1)) 0 ::
        merkleBranchLoop vMerkleTree rounds ((nSize + 1) / 2) (j + nSize) (nIndex / 2)
    else []

def CBlock.getMerkleBranch (hash : Uint256 → Uint256 → Uint256) (block : CBlock) (nIndex : Nat) :
    List Uint256 :=
  merkleBranchLoop (merkleNodes hash block.vtx.length (block.vtx.map CTransaction.getHash))
    block.vtx.length block.vtx.length 0 nIndex

/-- What one round of `CheckMerkleBranch` hashes. -/
def branchPair (nIndex : Int) (node sibling : Uint256) : Uint256 × Uint256 :=
  if nIndex % 2 = 1 then (sibling, node) else (node, sibling)

def climbMerkleBranch (hash : Uint256 → Uint256 → Uint256) : Uint256 → List Uint256 → Int → Uint256
  | node, [], _ => node
  | node, sibling :: rest, nIndex =>
    climbMerkleBranch hash
      (hash (branchPair nIndex node sibling).1 (branchPair nIndex node sibling).2) rest (nIndex / 2)

def checkMerkleBranch (hash : Uint256 → Uint256 → Uint256) (txid : Uint256)
    (vMerkleBranch : List Uint256) (nIndex : Int) :
    Uint256 :=
  if nIndex = -1 then 0 else climbMerkleBranch hash txid vMerkleBranch nIndex

/-- The pairs hashed on the way up. -/
def climbPairs (hash : Uint256 → Uint256 → Uint256) : Uint256 → List Uint256 → Int →
    List (Uint256 × Uint256)
  | _, [], _ => []
  | node, sibling :: rest, nIndex =>
    branchPair nIndex node sibling ::
      climbPairs hash (hash (branchPair nIndex node sibling).1 (branchPair nIndex node sibling).2)
        rest (nIndex / 2)

variable {hash : Uint256 → Uint256 → Uint256} {level : List Uint256} {i : Nat}

theorem levelPairs_getElem (inside : i < level.length) : (levelPairs level)[i / 2]? =
    some (level.getD (i / 2 * 2) 0, level.getD (min (i / 2 * 2 + 1) (level.length - 1)) 0) := by
  fun_induction levelPairs level generalizing i with
  | case1 => cases inside
  | case2 a => simp_all
  | case3 a b _ ih =>
    rcases Nat.lt_or_ge i 2 with here | later
    · simp [Nat.div_eq_of_lt here]
    · obtain ⟨k, rfl⟩ := Nat.exists_eq_add_of_le' later
      rw [Nat.add_div_right k (by decide), getElem?_cons_succ, ih (by simpa using inside)]
      grind

/-- One round of the climb leads to the next level. -/
theorem hash_branchPair (inside : i < level.length) :
    hash (branchPair i (level.getD i 0) (level.getD (min (i ^^^ 1) (level.length - 1)) 0)).1
        (branchPair i (level.getD i 0) (level.getD (min (i ^^^ 1) (level.length - 1)) 0)).2 =
      (merkleLevel hash level).1.getD (i / 2) 0 := by
  have next : (merkleLevel hash level).1.getD (i / 2) 0 =
      hash (level.getD (i / 2 * 2) 0) (level.getD (min (i / 2 * 2 + 1) (level.length - 1)) 0) := by
    rw [getD_eq_getElem?_getD, merkleLevel_fst, getElem?_map, levelPairs_getElem inside]
    rfl
  rw [next]
  unfold branchPair
  by_cases odd : i % 2 = 1
  · have position : i / 2 * 2 = i - 1 ∧ min (i - 1) (level.length - 1) = i - 1 ∧
        min (i - 1 + 1) (level.length - 1) = i := by
      omega
    rw [if_pos (by omega), Nat.xor_one_of_odd (Nat.odd_iff.mpr odd), position.1, position.2.1,
      position.2.2]
  · rw [if_neg (by omega), Nat.xor_one_of_even (Nat.even_iff.mpr (by omega)),
      show i / 2 * 2 = i by omega]

theorem climb_branch (hash : Uint256 → Uint256 → Uint256) (rounds : Nat) (front : List Uint256)
    (mutated : Bool) (inside : i < level.length) (enough : level.length ≤ rounds + 1) :
    climbMerkleBranch hash (level.getD i 0)
        (merkleBranchLoop (front ++ merkleNodes hash rounds level) rounds level.length
          front.length i) i = (merkleLevels hash rounds level mutated).1 := by
  induction rounds generalizing level i front mutated with
  | zero =>
    obtain ⟨a, rfl⟩ := length_eq_one_iff.mp (by omega : level.length = 1)
    simp_all [merkleBranchLoop, climbMerkleBranch, merkleLevels]
  | succ _ ih =>
    match level with
    | [a] => simp_all [merkleBranchLoop, climbMerkleBranch, merkleLevels]
    | a :: b :: rest =>
      generalize whole : a :: b :: rest = level at *
      have several : 1 < level.length := by simp [← whole]
      have size := length_merkleLevel hash level
      have sibling : min (i ^^^ 1) (level.length - 1) < level.length := by omega
      have above := @ih (merkleLevel hash level).1 (i / 2) (front ++ level)
        (mutated || (merkleLevel hash level).2) (by omega) (by omega)
      rw [← hash_branchPair inside, append_assoc, length_append, size] at above
      simp only [merkleNodes, merkleBranchLoop, if_pos several, climbMerkleBranch]
      rw [getD_append_right _ _ _ _ (by omega), Nat.add_sub_cancel_left,
        getD_append _ _ _ _ sibling]
      subst whole
      exact above

theorem climb_injective {a b : Uint256} {s t : List Uint256} {nIndex : Int}
    (lengths : s.length = t.length)
    (free : ∀ p ∈ climbPairs hash a s nIndex,
      ∀ q ∈ climbPairs hash b t nIndex, hash p.1 p.2 = hash q.1 q.2 → p = q)
    (same : climbMerkleBranch hash a s nIndex = climbMerkleBranch hash b t nIndex) :
    a = b := by
  induction s generalizing a b t nIndex with
  | nil =>
    obtain rfl := length_eq_zero_iff.mp lengths.symm
    exact same
  | cons x s ih =>
    cases t with
    | nil => cases lengths
    | cons y t =>
      have hashes :=
        ih (by simpa using lengths) (fun p inS q inT => free p (.tail _ inS) q (.tail _ inT)) same
      have pairs := free _ (.head _) _ (.head _) hashes
      unfold branchPair at pairs
      grind

end Zcashd.Source
