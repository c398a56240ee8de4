import Zcashd.Source.MerkleBranch
import Zcashd.Source.CheckBlock

/-!
# What a Merkle root binds

`BuildMerkleTree` gives different lists the same root when one repeats its end, and sets a flag
for such lists. With the flag checked, a header root has one list of transaction ids
(`merkle_root_binds`). The branch of a transaction leads to the root, and a branch of its length
leads there from no other id (`merkle_branch_checks`).

The node hash is arbitrary. Collisions are excluded only among the pairs that are hashed in the
trees in question, and no transaction id there is the hash of such a pair (`CollisionFree`).
-/
namespace Zcashd.Guarantees.MerkleRoots

open Abstract Source CTransaction

theorem checkMerkleRoot_ok {verifier : BlockVerifier} {block : CBlock}
    (passes : checkMerkleRoot verifier block = .ok ()) :
    block.hashMerkleRoot = (block.buildMerkleTree verifier.hashPair).1 ∧
      (block.buildMerkleTree verifier.hashPair).2 = false := by
  unfold checkMerkleRoot at passes
  dsimp only at passes
  split at passes
  · cases passes
  · split at passes
    · cases passes
    · simp_all

/-- Two lists with one root are the same, or one of them is flagged; so the checks of
`CheckBlock` let one list of transaction ids pass for a header root. -/
theorem merkle_root_binds (verifier : BlockVerifier) (lists : Set (List Uint256)) :
    (CollisionFree verifier.hashPair lists → ∀ l ∈ lists, ∀ m ∈ lists, l ≠ [] → m ≠ [] → l ≠ m →
      (merkleLevels verifier.hashPair l.length l false).1 =
        (merkleLevels verifier.hashPair m.length m false).1 →
      (merkleLevels verifier.hashPair l.length l false).2 = true ∨
        (merkleLevels verifier.hashPair m.length m false).2 = true) ∧
    (CollisionFree verifier.hashPair lists → ∀ first second : CBlock,
      first.vtx.map CTransaction.getHash ∈ lists → second.vtx.map CTransaction.getHash ∈ lists →
      first.vtx ≠ [] → second.vtx ≠ [] → first.hashMerkleRoot = second.hashMerkleRoot →
      checkMerkleRoot verifier first = .ok () → checkMerkleRoot verifier second = .ok () →
      first.vtx.map CTransaction.getHash = second.vtx.map CTransaction.getHash) := by
  constructor
  · intro free l memberL m memberM nonemptyL nonemptyM different same
    by_contra unflagged
    simp only [not_or, Bool.not_eq_true] at unflagged
    exact different
      (free.root_injective memberL memberM nonemptyL nonemptyM unflagged.1 unflagged.2 same)
  · intro free first second memberF memberS nonemptyF nonemptyS header passesF passesS
    obtain ⟨rootF, flagF⟩ := checkMerkleRoot_ok passesF
    obtain ⟨rootS, flagS⟩ := checkMerkleRoot_ok passesS
    have same := rootF.symm.trans (header.trans rootS)
    unfold CBlock.buildMerkleTree at same flagF flagS
    have length : ∀ block : CBlock, block.vtx.length = (block.vtx.map getHash).length := by simp
    rw [length] at same flagF flagS
    rw [length second] at same
    exact free.root_injective memberF memberS (by simpa using nonemptyF)
      (by simpa using nonemptyS) flagF flagS same

/-- Tells the pairs in the trees over `[1, 2, 3]` and `[1, 2, 3, 3]` apart. -/
def threeHash (a b : Uint256) : Uint256 :=
  if a = 1 ∧ b = 2 then 12 else if a = 3 ∧ b = 3 then 33 else if a = 12 ∧ b = 33 then 1233 else 99

theorem threeHash_collisionFree : CollisionFree threeHash {[1, 2, 3], [1, 2, 3, 3]} := by
  have known : ∀ l ∈ ({[1, 2, 3], [1, 2, 3, 3]} : Set (List Uint256)), ∀ p, Paired threeHash l p →
      p ∈ [(1, 2), (3, 3), (12, 33)] := by
    rintro _ (rfl | rfl) p paired
    · exact paired.mem_treePairs (by decide : _ ≤ 2 + 1)
    · exact paired.mem_treePairs (by decide : _ ≤ 3 + 1)
  constructor
  · intro l memberL m memberM p q pairedP pairedQ
    have apart : ∀ p ∈ [((1 : Uint256), (2 : Uint256)), (3, 3), (12, 33)],
        ∀ q ∈ [(1, 2), (3, 3), (12, 33)],
        threeHash p.1 p.2 = threeHash q.1 q.2 → p = q := by simp [threeHash]
    exact apart p (known l memberL p pairedP) q (known m memberM q pairedQ)
  · intro l memberL m memberM p paired
    have interior : ∀ p ∈ [((1 : Uint256), (2 : Uint256)), (3, 3), (12, 33)],
        threeHash p.1 p.2 ∉ [1, 2, 3] ∧ threeHash p.1 p.2 ∉ [1, 2, 3, 3] := by simp [threeHash]
    rcases memberM with rfl | rfl
    · exact (interior p (known l memberL p paired)).1
    · exact (interior p (known l memberL p paired)).2

/-- The last id repeated: one of the two lists is flagged. -/
theorem merkle_root_binds_repeated : (merkleLevels threeHash 3 [1, 2, 3] false).2 = true ∨
    (merkleLevels threeHash 4 [1, 2, 3, 3] false).2 = true :=
  (merkle_root_binds ⟨fun _ => true, fun _ _ => true, threeHash, fun _ _ => true, fun _ => 0⟩ _).1
    threeHash_collisionFree _ (.inl rfl) _ (.inr rfl) (by decide) (by decide)
      (by decide) (by decide)

/-- The branch of every transaction of a block, for every node hash; the last part is about any
branch of its length whose climb has no hash collision with this one. -/
theorem merkle_branch_checks (hash : Uint256 → Uint256 → Uint256) (block : CBlock)
    (i : Fin block.vtx.length) :
    checkMerkleBranch hash (block.vtx.get i).getHash (block.getMerkleBranch hash i) i =
      (block.buildMerkleTree hash).1 ∧
    ∀ (txid : Uint256) (branch : List Uint256),
      branch.length = (block.getMerkleBranch hash i).length →
      (∀ p ∈ climbPairs hash txid branch i,
        ∀ q ∈ climbPairs hash (block.vtx.get i).getHash (block.getMerkleBranch hash i) i,
          hash p.1 p.2 = hash q.1 q.2 → p = q) →
      checkMerkleBranch hash txid branch i = (block.buildMerkleTree hash).1 →
      txid = (block.vtx.get i).getHash := by
  have leaf : (block.vtx.map getHash).getD i 0 = (block.vtx.get i).getHash := by
    simp [List.getD_eq_getElem?_getD]
  have inside : (i : Nat) < (block.vtx.map getHash).length := by simp
  have reaches : checkMerkleBranch hash (block.vtx.get i).getHash (block.getMerkleBranch hash i) i =
      (block.buildMerkleTree hash).1 := by
    have climbed := climb_branch hash block.vtx.length [] false inside (by simp)
    rw [leaf, List.length_map] at climbed
    rw [checkMerkleBranch, if_neg (by omega)]
    exact climbed
  refine ⟨reaches, fun txid branch lengths free root => ?_⟩
  have same := root.trans reaches.symm
  rw [checkMerkleBranch, checkMerkleBranch, if_neg (by omega), if_neg (by omega)] at same
  exact climb_injective lengths free same

end Zcashd.Guarantees.MerkleRoots
