import Zcashd.Abstract.MerkleLevels
import Zcashd.Source.CheckBlock

/-!
Partial Merkle trees as they are received (`src/merkleblock.cpp:98-132`, `150-181`): a number of
transactions, and bits and hashes in depth-first order. `none` is a read outside of the two
vectors. No more than `MAX_BLOCK_SIZE / 60` transactions get as far as the traversal, so widths
and positions do not wrap around.
-/
namespace Zcashd.Source

open Abstract Option

structure CPartialMerkleTree where
  nTransactions : UInt32
  vBits : List Bool
  vHash : List Uint256
  fBad : Bool
deriving DecidableEq, Repr

def calcTreeWidth (nTransactions height : Nat) : Nat :=
  (nTransactions + 2 ^ height - 1) / 2 ^ height

/-- The loop that finds the height of the tree; it needs no more rounds than there are
transactions. -/
def treeHeight (nTransactions : Nat) : Nat → Nat → Nat
  | 0, nHeight => nHeight
  | rounds + 1, nHeight =>
    if 1 < calcTreeWidth nTransactions nHeight then treeHeight nTransactions rounds (nHeight + 1)
      else nHeight

namespace CPartialMerkleTree

/-- What `TraverseAndExtract` has used and found so far. -/
structure Extraction where
  nBitsUsed : Nat
  nHashUsed : Nat
  vMatch : List Uint256
  fBad : Bool

/-- The next of the stored hashes, which may be a matched one. -/
def storedHash (t : CPartialMerkleTree) (matched : Bool) (s : Extraction) :
    Option (Uint256 × Extraction) :=
  if t.vHash.length ≤ s.nHashUsed then some (0, { s with fBad := true })
  else do
    let hash ← t.vHash[s.nHashUsed]?
    some (hash, { s with
      nHashUsed := s.nHashUsed + 1
      vMatch := if matched then s.vMatch ++ [hash] else s.vMatch })

def traverseAndExtract (hash : Uint256 → Uint256 → Uint256) (t : CPartialMerkleTree) :
    Nat → Nat → Extraction → Option (Uint256 × Extraction)
  | 0, _, s =>
    if t.vBits.length ≤ s.nBitsUsed then some (0, { s with fBad := true })
    else do
      let fParentOfMatch ← t.vBits[s.nBitsUsed]?
      t.storedHash fParentOfMatch { s with nBitsUsed := s.nBitsUsed + 1 }
  | height + 1, pos, s =>
    if t.vBits.length ≤ s.nBitsUsed then some (0, { s with fBad := true })
    else do
      let fParentOfMatch ← t.vBits[s.nBitsUsed]?
      let s := { s with nBitsUsed := s.nBitsUsed + 1 }
      if fParentOfMatch then
        let (left, s) ← traverseAndExtract hash t height (pos * 2) s
        if pos * 2 + 1 < calcTreeWidth t.nTransactions.toNat height then
          let (right, s) ← traverseAndExtract hash t height (pos * 2 + 1) s
          -- the hashes covered by the two branches must be unique
          some (hash left right, if right = left then { s with fBad := true } else s)
        else some (hash left left, s)
      else t.storedHash false s

/-- Returns the root, or zero in case of failure, with the matches. -/
def extractMatches (hash : Uint256 → Uint256 → Uint256) (t : CPartialMerkleTree) :
    Option (Uint256 × List Uint256) :=
  let n := t.nTransactions.toNat
  if n = 0 then some (0, [])
  else if MAX_BLOCK_SIZE / 60 < n then some (0, [])
  else if n < t.vHash.length then some (0, [])
  else if t.vBits.length < t.vHash.length then some (0, [])
  else do
    let (hashMerkleRoot, s) ← t.traverseAndExtract hash (treeHeight n n 0) 0 ⟨0, 0, [], t.fBad⟩
    if s.fBad then some (0, s.vMatch)
    else if (s.nBitsUsed + 7) / 8 ≠ (t.vBits.length + 7) / 8 then some (0, s.vMatch)
    else if s.nHashUsed ≠ t.vHash.length then some (0, s.vMatch)
    else some (hashMerkleRoot, s.vMatch)

variable {hash : Uint256 → Uint256 → Uint256} {t : CPartialMerkleTree}

theorem storedHash_isSome (matched : Bool) (s : Extraction) : (t.storedHash matched s).isSome := by
  unfold storedHash
  split
  · rfl
  · simp_all

/-- No read is outside of the vectors. -/
theorem traverseAndExtract_isSome (height pos : Nat) (s : Extraction) :
    (t.traverseAndExtract hash height pos s).isSome := by
  induction height generalizing pos s with
  | zero =>
    unfold traverseAndExtract
    split
    · rfl
    · simp_all [storedHash_isSome]
  | succ _ ih =>
    unfold traverseAndExtract
    split
    · rfl
    · rename_i inside
      rw [List.getElem?_eq_getElem (by omega)]
      simp only [bind_eq_bind, bind_some]
      split
      · obtain ⟨_, ran⟩ :=
          isSome_iff_exists.mp (ih (pos * 2) { s with nBitsUsed := s.nBitsUsed + 1 })
        simp only [ran, bind_some]
        split
        · simp [isSome_bind, ih]
        · rfl
      · exact storedHash_isSome false _

theorem storedHash_vMatch {matched : Bool} {s s' : Extraction} {v : Uint256}
    (ran : t.storedHash matched s = some (v, s')) :
    s'.vMatch = s.vMatch ∨ matched = true ∧ s'.vMatch = s.vMatch ++ [v] := by
  unfold storedHash at ran
  split at ran
  · cases ran
    exact .inl rfl
  · obtain ⟨h, -, done⟩ := bind_eq_some_iff.mp ran
    cases done
    cases matched <;> simp

/-- What holds of a node and passes on to its children holds of the matches below it. -/
theorem traverseAndExtract_matches {P : Nat → Uint256 → Prop}
    (closed : ∀ height left right, P (height + 1) (hash left right) → P height left ∧
      P height right) {height pos : Nat} {s s' : Extraction} {v : Uint256}
    (ran : t.traverseAndExtract hash height pos s = some (v, s')) (node : P height v)
    (old : ∀ txid ∈ s.vMatch, P 0 txid) :
    ∀ txid ∈ s'.vMatch, P 0 txid := by
  induction height generalizing pos s s' v with
  | zero =>
    unfold traverseAndExtract at ran
    split at ran
    · cases ran
      exact old
    · obtain ⟨_, -, ran⟩ := bind_eq_some_iff.mp ran
      rcases storedHash_vMatch ran with _ | ⟨-, _⟩ <;> simp_all
      grind
  | succ height ih =>
    unfold traverseAndExtract at ran
    split at ran
    · cases ran
      exact old
    · obtain ⟨_, -, ran⟩ := bind_eq_some_iff.mp ran
      dsimp only at ran
      split at ran
      · obtain ⟨⟨left, _⟩, ranLeft, ran⟩ := bind_eq_some_iff.mp ran
        dsimp only at ran
        split at ran
        · obtain ⟨⟨right, _⟩, ranRight, ran⟩ := bind_eq_some_iff.mp ran
          cases ran
          obtain ⟨nodeLeft, nodeRight⟩ := closed height left right node
          have hit := ih ranRight nodeRight (ih ranLeft nodeLeft old)
          split <;> exact hit
        · cases ran
          exact ih ranLeft (closed height left left node).1 old
      · rcases storedHash_vMatch ran with _ | ⟨_, -⟩ <;> simp_all

/-- A root is only returned from the traversal. -/
theorem extractMatches_root {root : Uint256} {vMatch : List Uint256} (nonzero : root ≠ 0)
    (ran : t.extractMatches hash = some (root, vMatch)) :
    ∃ s s', t.traverseAndExtract hash (treeHeight t.nTransactions.toNat t.nTransactions.toNat 0) 0
      s = some (root, s') ∧ s.vMatch = [] ∧ s'.vMatch = vMatch := by
  unfold extractMatches at ran
  dsimp only at ran
  split_ifs at ran
  case neg =>
    obtain ⟨⟨v, s'⟩, traversed, ran⟩ := bind_eq_some_iff.mp ran
    dsimp only at ran
    split_ifs at ran
    case neg =>
      cases ran
      exact ⟨_, s', traversed, rfl, rfl⟩
    all_goals simp_all
  all_goals simp_all

theorem extractMatches_isSome (hash : Uint256 → Uint256 → Uint256) (t : CPartialMerkleTree) :
    (t.extractMatches hash).isSome := by
  obtain ⟨⟨v, _⟩, ran⟩ := isSome_iff_exists.mp (@traverseAndExtract_isSome hash t
    (treeHeight t.nTransactions.toNat t.nTransactions.toNat 0) 0 ⟨0, 0, [], t.fBad⟩)
  unfold extractMatches
  simp only [ran]
  split_ifs <;> simp
  split_ifs <;> rfl

end CPartialMerkleTree

end Zcashd.Source
