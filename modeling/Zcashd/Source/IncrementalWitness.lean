import Zcashd.Lib.MerkleTree
import Zcashd.Source.IncrementalMerkleTree
import Zcashd.Source.Serialize

/-!
# Paths and witnesses of the note commitment tree

The rest of `src/zcash/IncrementalMerkleTree.{hpp,cpp}`: the functions that take hashes to
fill the tree with, `append` as the source's statements, and `IncrementalWitness`. Every
`*left` or `*parent` of the source is a `deref`, which fails on an empty slot.
-/
namespace Zcashd.Source

open Lib

/-- The exceptions of the tree, and `emptyOptional` for reading a `boost::optional` that is
not set. -/
inductive TreeError where
  | full
  | noCursor
  | beginning
  | emptyOptional
deriving DecidableEq, Repr

def deref {m : Type → Type} [Monad m] [MonadExceptOf TreeError m] : Option Uint256 → m Uint256
  | some hash => pure hash
  | none => throw .emptyOptional

/-- A computation with a `PathFiller`: the state is its queue. -/
abbrev Filling := StateT (List Uint256) (Except TreeError)

/-- `PathFiller::next`. -/
def Filling.next (H : MerkleHash) (depth : Nat) : Filling Uint256 := do
  match ← get with
  | hash :: queue =>
    set queue
    pure hash
  | [] => pure (H.emptyRoot depth)

/-- `convertBytesVectorToVector` of the bytes of a hash, most significant bit first. -/
def hashBits (hash : Uint256) : List Bool :=
  (writeUint256 hash).flatMap (fun c => (List.range 8).map (fun j => c.toNat.testBit (7 - j)))

structure MerklePath where
  authenticationPath : List (List Bool)
  index : List Bool
deriving DecidableEq, Repr

namespace IncrementalMerkleTree

/-- `last()`. -/
def last (t : IncrementalMerkleTree) : Except TreeError Uint256 :=
  if t.right.isSome then deref t.right
  else if t.left.isSome then deref t.left
  else throw .noCursor

section

variable (H : MerkleHash)

/-- The loop of `append`; `combined` is the source's variable of that name. -/
def propagateM : Nat → Nat → Option Uint256 → EStateM TreeError IncrementalMerkleTree Unit
  | 0, _, _ => pure ()
  | steps + 1, i, combined => do
    let parents := (← get).parents
    if i < parents.length then
      let parent := parents[i]?.join
      if parent.isSome then
        let next := H.combine (← deref parent) (← deref combined) (i + 1)
        modify (fun t => { t with parents := t.parents.set i none })
        propagateM steps (i + 1) (some next)
      else
        let stored ← deref combined
        modify (fun t => { t with parents := t.parents.set i (some stored) })
    else modify (fun t => { t with parents := t.parents ++ [combined] })

/-- `append` statement by statement. -/
def appendM (obj : Uint256) : EStateM TreeError IncrementalMerkleTree Unit := do
  let t ← get
  if t.isComplete H.depth then throw .full
  else if t.left.isNone then modify (fun t => { t with left := some obj })
  else if t.right.isNone then modify (fun t => { t with right := some obj })
  else
    let combined := H.combine (← deref t.left) (← deref t.right) 0
    modify (fun t => { t with left := some obj, right := none })
    propagateM H H.depth 0 (some combined)

end

section

variable (H : MerkleHash)

/-- The loop of `root` over the parents. -/
def rootParents : Nat → Uint256 → List (Option Uint256) → Filling (Nat × Uint256)
  | d, root, [] => pure (d, root)
  | d, root, parent :: rest => do
    if parent.isSome then rootParents (d + 1) (H.combine (← deref parent) root d) rest
    else rootParents (d + 1) (H.combine root (← Filling.next H d) d) rest

/-- The loop of `root` for the ancestors without a parent. -/
def rootAncestors : Nat → Nat → Uint256 → Filling Uint256
  | 0, _, root => pure root
  | steps + 1, d, root => do rootAncestors steps (d + 1) (H.combine root (← Filling.next H d) d)

/-- `root(depth, filler_hashes)`. -/
def rootFrom (t : IncrementalMerkleTree) (depth : Nat) (fillerHashes : List Uint256) :
    Except TreeError Uint256 :=
  let filled : Filling Uint256 := do
    let combineLeft ← if t.left.isSome then deref t.left else Filling.next H 0
    let combineRight ← if t.right.isSome then deref t.right else Filling.next H 0
    let (d, root) ← rootParents H 1 (H.combine combineLeft combineRight 0) t.parents
    rootAncestors H (depth - d) d root
  filled.run' fillerHashes

end

section

variable (H : MerkleHash)

def pathParents : Nat → List (Option Uint256) → Filling (List (Bool × Uint256))
  | _, [] => pure []
  | d, parent :: rest => do
    let step ← if parent.isSome then do pure (true, ← deref parent)
        else do pure (false, ← Filling.next H d)
    return step :: (← pathParents (d + 1) rest)

def pathAncestors : Nat → Nat → Filling (List (Bool × Uint256))
  | 0, _ => pure []
  | steps + 1, d => do
    let step := (false, ← Filling.next H d)
    return step :: (← pathAncestors steps (d + 1))

/-- `path(filler_hashes)`. The vectors `index` and `path` of the source are one list of pairs
until the end. -/
def path (t : IncrementalMerkleTree) (fillerHashes : List Uint256) : Except TreeError MerklePath :=
  if t.left.isNone then throw .beginning
  else
    let filled : Filling (List (Bool × Uint256)) := do
      let first ← if t.right.isSome then do pure (true, ← deref t.left)
          else do pure (false, ← Filling.next H 0)
      let parents ← pathParents H 1 t.parents
      let ancestors ← pathAncestors H (H.depth - (1 + t.parents.length)) (1 + t.parents.length)
      return first :: parents ++ ancestors
    (filled.run' fillerHashes).map (fun steps =>
      ⟨(steps.map (fun step => hashBits step.2)).reverse, (steps.map Prod.fst).reverse⟩)

end

/-- The loop of `next_depth` over the parents. -/
def nextDepthParents : Nat → Nat → List (Option Uint256) → Nat
  | d, skip, [] => d + skip
  | d, skip, parent :: rest =>
    if parent.isNone then
      if skip ≠ 0 then nextDepthParents (d + 1) (skip - 1) rest else d
    else nextDepthParents (d + 1) skip rest

/-- `next_depth`. -/
def nextDepth (t : IncrementalMerkleTree) (skip : Nat) : Nat :=
  if t.left.isNone ∧ skip = 0 then 0
  else
    let skip := if t.left.isNone then skip - 1 else skip
    if t.right.isNone ∧ skip = 0 then 0
    else nextDepthParents 1 (if t.right.isNone then skip - 1 else skip) t.parents

/-- `1 << i` is an `int`: its value at 31 is the least one. No instance of the template gets
beyond. -/
def shiftOne (i : Nat) : Int := if i = 31 then -2 ^ 31 else 2 ^ i

/-- `size()`, a `size_t`. -/
def size (t : IncrementalMerkleTree) : Nat :=
  let bits :=
    t.parents.zipIdx.map (fun parent => if parent.1.isSome then shiftOne (parent.2 + 1) else 0)
  ((((if t.left.isSome then 1 else 0) + (if t.right.isSome then 1 else 0) + bits.sum : Int)) %
    2 ^ 64).toNat

end IncrementalMerkleTree

structure IncrementalWitness where
  tree : IncrementalMerkleTree
  filled : List Uint256
  cursor : Option IncrementalMerkleTree
  cursorDepth : Nat
deriving DecidableEq, Repr

/-- `witness()`. -/
def IncrementalMerkleTree.witness (t : IncrementalMerkleTree) : IncrementalWitness :=
  ⟨t, [], none, 0⟩

namespace IncrementalWitness

variable (H : MerkleHash)

def partialPath (w : IncrementalWitness) : Except TreeError (List Uint256) :=
  match w.cursor with
  | some cursor => do pure (w.filled ++ [← cursor.rootFrom H w.cursorDepth []])
  | none => pure w.filled

def root (w : IncrementalWitness) : Except TreeError Uint256 := do
  w.tree.rootFrom H H.depth (← w.partialPath H)

def path (w : IncrementalWitness) : Except TreeError MerklePath := do
  w.tree.path H (← w.partialPath H)

def element (w : IncrementalWitness) : Except TreeError Uint256 := w.tree.last

/-- `position()`, a `uint64_t`. -/
def position (w : IncrementalWitness) : Nat := (w.tree.size + (2 ^ 64 - 1)) % 2 ^ 64

/-- `cursor->append(obj)`. -/
def appendCursor (cursor : IncrementalMerkleTree) (obj : Uint256) :
    EStateM TreeError IncrementalWitness Unit :=
  match (IncrementalMerkleTree.appendM H obj).run cursor with
  | .ok _ cursor => modify (fun w => { w with cursor := some cursor })
  | .error thrown cursor => do
    modify (fun w => { w with cursor := some cursor })
    throw thrown

/-- The part of `append` after the cursor grew. -/
def settleCursor : EStateM TreeError IncrementalWitness Unit := do
  let w ← get
  match w.cursor with
  | some cursor =>
    if cursor.isComplete w.cursorDepth then
      match cursor.rootFrom H w.cursorDepth [] with
      | .ok root => modify (fun w => { w with filled := w.filled ++ [root], cursor := none })
      | .error thrown => throw thrown
    else pure ()
  | none => pure ()

/-- `append`. -/
def append (obj : Uint256) : EStateM TreeError IncrementalWitness Unit := do
  match (← get).cursor with
  | some cursor =>
    appendCursor H cursor obj
    settleCursor H
  | none =>
    modify (fun w => { w with cursorDepth := w.tree.nextDepth w.filled.length })
    let cursorDepth := (← get).cursorDepth
    if H.depth ≤ cursorDepth then throw .full
    else if cursorDepth = 0 then modify (fun w => { w with filled := w.filled ++ [obj] })
    else
      modify (fun w => { w with cursor := some .empty })
      appendCursor H .empty obj

end IncrementalWitness

end Zcashd.Source
