import Zcashd.Source.Primitives

/-!
The note commitment tree (`src/zcash/IncrementalMerkleTree.{hpp,cpp}`). The source
is a template over `Depth` and `Hash`; both are one parameter here. The hash itself
stays abstract: the model needs its values, never its algorithm.
-/
namespace Zcashd.Source

open Option

/-- The template arguments. `EmptyRoot` is a table of constants in the source; that
it holds the roots of empty subtrees is what the `emptyroots` tests check. -/
structure MerkleHash where
  depth : Nat
  combine : Uint256 → Uint256 → Nat → Uint256
  emptyRoot : Nat → Uint256
  emptyRoot_succ : ∀ d, emptyRoot (d + 1) = combine (emptyRoot d) (emptyRoot d) d
  depth_pos : 1 ≤ depth

/-- A stand-in with a computable hash, for concrete runs. -/
def MerkleHash.linear (depth : Nat) (depth_pos : 1 ≤ depth) : MerkleHash where
  depth := depth
  combine a b d := 2 * a + 3 * b + BitVec.ofNat 256 d + 1
  emptyRoot := fun d => d.rec 1 (fun d root => 2 * root + 3 * root + BitVec.ofNat 256 d + 1)
  emptyRoot_succ _ := rfl
  depth_pos := depth_pos

/-- The depths of the two trees, `src/zcash/Zcash.h`. -/
def ShieldedType.linearHash : ShieldedType → MerkleHash
  | .sprout => .linear 29 (by decide)
  | .sapling => .linear 32 (by decide)

structure IncrementalMerkleTree where
  left : Option Uint256
  right : Option Uint256
  /-- Collapsed "left" subtrees ordered toward the root of the tree. -/
  parents : List (Option Uint256)
deriving DecidableEq, Repr

namespace IncrementalMerkleTree

/-- The default constructor. -/
def empty : IncrementalMerkleTree := ⟨none, none, []⟩

def emptyRoot (H : MerkleHash) : Uint256 := H.emptyRoot H.depth

/-- `is_complete`. -/
def isComplete (depth : Nat) (t : IncrementalMerkleTree) : Bool :=
  t.left.isSome && t.right.isSome && t.parents.length == depth - 1 && t.parents.all Option.isSome

/-- The loop of `append` that carries a full pair of leaves toward the root. `steps`
counts the iterations left, `i` is the index reached in `parents`. -/
def propagate (H : MerkleHash) : Nat → Nat → Uint256 → List (Option Uint256) → List (Option Uint256)
  | 0, _, _, parents => parents
  | _ + 1, _, combined, [] => [some combined]
  | _ + 1, _, combined, none :: rest => some combined :: rest
  | steps + 1, i, combined, some parent :: rest =>
    none :: propagate H steps (i + 1) (H.combine parent combined (i + 1)) rest

/-- `none` is the exception `tree is full`. -/
def append (H : MerkleHash) (t : IncrementalMerkleTree) (obj : Uint256) :
    Option IncrementalMerkleTree :=
  if t.isComplete H.depth then none
  else
    match t.left, t.right with
    | none, _ => some { t with left := some obj }
    | some _, none => some { t with right := some obj }
    | some l, some r =>
      some ⟨some obj, none, propagate H H.depth 0 (H.combine l r 0) t.parents⟩

/-- One `append` after the other. -/
def appendAll (H : MerkleHash) : IncrementalMerkleTree → List Uint256 → Option IncrementalMerkleTree
  | t, [] => some t
  | t, obj :: rest => (t.append H obj).bind (fun t => appendAll H t rest)

/-- `PathFiller::next` on an empty queue. -/
def fillerNext (H : MerkleHash) (depth : Nat) : Uint256 := H.emptyRoot depth

/-- The climb of `root` through the stored subtrees, from depth `d`. -/
def climb (H : MerkleHash) : Nat → Uint256 → List (Option Uint256) → Nat × Uint256
  | d, root, [] => (d, root)
  | d, root, some parent :: rest => climb H (d + 1) (H.combine parent root d) rest
  | d, root, none :: rest => climb H (d + 1) (H.combine root (fillerNext H d) d) rest

/-- The climb through `n` levels that have no stored subtree. -/
def fillUp (H : MerkleHash) : Nat → Nat → Uint256 → Uint256
  | 0, _, root => root
  | n + 1, d, root => fillUp H n (d + 1) (H.combine root (fillerNext H d) d)

/-- `root()`, that is `root(Depth)` with an empty filler queue. -/
def root (H : MerkleHash) (t : IncrementalMerkleTree) : Uint256 :=
  let combineLeft := t.left.getD (fillerNext H 0)
  let combineRight := t.right.getD (fillerNext H 0)
  let climbed := climb H 1 (H.combine combineLeft combineRight 0) t.parents
  fillUp H (H.depth - climbed.1) climbed.1 climbed.2

variable (H : MerkleHash)

theorem fillUp_emptyRoot (n d : Nat) : fillUp H n d (H.emptyRoot d) = H.emptyRoot (d + n) := by
  induction n generalizing d with
  | zero => rfl
  | succ n ih =>
    rw [fillUp, fillerNext, ← H.emptyRoot_succ, ih, Nat.add_right_comm, Nat.add_assoc]

/-- The tree without leaves has the root the table gives for the whole depth. -/
theorem root_empty : root H empty = emptyRoot H := by
  have pos := H.depth_pos
  simp only [root, empty, climb, getD_none, fillerNext, ← H.emptyRoot_succ]
  rw [fillUp_emptyRoot, emptyRoot]
  congr 1
  omega

/-- Number of leaves below the stored subtrees, the first of which has height `h`. -/
def parentLeaves : Nat → List (Option Uint256) → Nat
  | _, [] => 0
  | h, none :: rest => parentLeaves (h + 1) rest
  | h, some _ :: rest => 2 ^ h + parentLeaves (h + 1) rest

/-- Number of leaves of the tree. -/
def leaves (t : IncrementalMerkleTree) : Nat :=
  (if t.left.isSome then 1 else 0) + (if t.right.isSome then 1 else 0) + parentLeaves 1 t.parents

/-- The parents fit below the root; `wfcheck` asks this of a tree it reads. -/
def Fits (H : MerkleHash) (t : IncrementalMerkleTree) : Prop := t.parents.length < H.depth

variable {steps : Nat}

/-- Carrying a pair of leaves upward adds its two leaves. -/
theorem parentLeaves_propagate (parents : List (Option Uint256))
    (room : parents.length < steps) (i h : Nat) (combined : Uint256) :
    parentLeaves h (propagate H steps i combined parents) = parentLeaves h parents + 2 ^ h := by
  induction parents generalizing steps i h combined with
  | nil =>
    obtain ⟨_, rfl⟩ := Nat.exists_eq_succ_of_ne_zero (Nat.ne_of_gt room)
    simp [propagate, parentLeaves]
  | cons parent rest ih =>
    obtain ⟨steps, rfl⟩ := Nat.exists_eq_succ_of_ne_zero (Nat.ne_of_gt (Nat.zero_lt_of_lt room))
    cases parent with
    | none =>
      simp only [propagate, parentLeaves]
      omega
    | some held =>
      have below : rest.length < steps := by simpa using room
      have further := ih below (i + 1) (h + 1) (H.combine held combined (i + 1))
      simp only [propagate, parentLeaves, further, Nat.pow_succ]
      omega

theorem length_propagate (parents : List (Option Uint256))
    (room : parents.length < steps) (i : Nat) (combined : Uint256) :
    (propagate H steps i combined parents).length =
      parents.length + if parents.all Option.isSome then 1 else 0 := by
  induction parents generalizing steps i combined with
  | nil =>
    obtain ⟨_, rfl⟩ := Nat.exists_eq_succ_of_ne_zero (Nat.ne_of_gt room)
    simp [propagate]
  | cons parent rest ih =>
    obtain ⟨steps, rfl⟩ := Nat.exists_eq_succ_of_ne_zero (Nat.ne_of_gt (Nat.zero_lt_of_lt room))
    cases parent with
    | none => simp [propagate]
    | some held =>
      have below : rest.length < steps := by simpa using room
      have further := ih below (i + 1) (H.combine held combined (i + 1))
      simp only [propagate, List.length_cons, further, List.all_cons, isSome_some, Bool.true_and]
      omega

variable {H : MerkleHash} {t t' : IncrementalMerkleTree}

/-- A leaf more, and the tree still fits. -/
theorem append_grows {obj : Uint256} (fits : t.Fits H)
    (ran : t.append H obj = some t') : t'.Fits H ∧ t'.leaves = t.leaves + 1 := by
  unfold append at ran
  split at ran
  · cases ran
  · rename_i incomplete
    split at ran
    · rename_i left
      cases ran
      refine ⟨fits, ?_⟩
      simp only [leaves, left, isSome_none, isSome_some, Bool.false_eq_true, ↓reduceIte]
      omega
    · rename_i left right
      cases ran
      refine ⟨fits, ?_⟩
      simp only [leaves, right, isSome_none, isSome_some, Bool.false_eq_true, ↓reduceIte]
      omega
    · rename_i l r left right
      cases ran
      have size := length_propagate H t.parents fits 0 (H.combine l r 0)
      constructor
      · unfold Fits at fits ⊢
        dsimp only
        rw [size]
        split
        · rename_i full
          -- a full tree would have been complete
          have notLast : t.parents.length ≠ H.depth - 1 := by
            intro last
            apply incomplete
            simp [isComplete, left, right, last, full]
          omega
        · omega
      · have carried := parentLeaves_propagate H t.parents fits 0 1 (H.combine l r 0)
        simp only [leaves, left, right, carried, isSome_none, isSome_some, Bool.false_eq_true,
          ↓reduceIte]
        omega

theorem appendAll_grows {objs : List Uint256} (fits : t.Fits H)
    (ran : t.appendAll H objs = some t') : t'.Fits H ∧ t'.leaves = t.leaves + objs.length := by
  induction objs generalizing t with
  | nil =>
    cases ran
    exact ⟨fits, rfl⟩
  | cons _ _ ih =>
    obtain ⟨_, first, after⟩ := bind_eq_some_iff.mp ran
    obtain ⟨nextFits, one⟩ := append_grows fits first
    obtain ⟨lastFits, more⟩ := ih nextFits after
    refine ⟨lastFits, ?_⟩
    rw [more, one, List.length_cons]
    omega

theorem fits_empty (H : MerkleHash) : empty.Fits H := H.depth_pos

end IncrementalMerkleTree

end Zcashd.Source
