import Zcashd.Abstract.FlatView

/-!
# The best block and the best anchors across a flush

`GetBestBlock` and `GetBestAnchor` of a cache ask the view below once and keep the answer;
null stands for "not asked yet" (`src/coins.cpp:693-719`). `BatchWrite` of a cache assigns
the three fields of the child to its own, null or not (`src/coins.cpp:857-859`). The one of
the database writes those that are not null (`src/txdb.cpp:232-238`).

`flush_keeps_pointer_iff` says for every stack and each field when the flush loses nothing.
`flush_forgets_pointers` is a flush that loses all three.
-/
namespace Zcashd.Guarantees.BestPointers

open Lib Source Source.CCoinsView Abstract ShieldedType

/-- The three fields that are fetched on demand. -/
inductive Pointer where
  | bestBlock
  | bestAnchor (type : ShieldedType)

namespace Pointer

/-- What a caller is told. -/
def read (H : ShieldedType → MerkleHash) (v : CCoinsView) : Pointer → Uint256
  | bestBlock => (getBestBlock v).1
  | bestAnchor type => (getBestAnchor H type v).1

/-- The field of one cache. -/
def own (cache : CCoinsViewCache) : Pointer → Uint256
  | bestBlock => cache.hashBlock
  | bestAnchor type => cache.hashAnchor type

/-- The cache on top has the value itself, or its parent has not: the parent's field is null, or
the same is found below it. Over the database there is nothing to lose. -/
def Carried (H : ShieldedType → MerkleHash) (pointer : Pointer) : CCoinsView → Prop
  | .layer child (.layer parent base) =>
    (pointer.own child).isNull = false ∨ (pointer.own parent).isNull = true ∨
      pointer.own parent = pointer.read H base
  | _ => True

variable {H : ShieldedType → MerkleHash} (pointer : Pointer)

/-- The value is the cache's own, unless that is null. -/
theorem read_layer (cache : CCoinsViewCache) (base : CCoinsView) :
    pointer.read H (.layer cache base) =
      if (pointer.own cache).isNull then pointer.read H base else pointer.own cache := by
  cases pointer with
  | bestBlock =>
    simp only [read, own, getBestBlock, apply_ite Prod.fst]
    rfl
  | bestAnchor _ =>
    simp only [read, own, getBestAnchor, apply_ite Prod.fst]
    rfl

/-- `BatchWrite` of a cache takes the child's fields over as they are. -/
theorem own_batchWrite {parent child merged : CCoinsViewCache}
    (out : parent.batchWrite child = some merged) : pointer.own merged = pointer.own child := by
  unfold CCoinsViewCache.batchWrite at out
  split at out
  · cases out
    cases pointer <;> rfl
  · cases out

/-- The one of the database keeps its value where the child has none. -/
theorem read_batchWrite (db : CCoinsViewDB) (child : CCoinsViewCache) :
    pointer.read H (.base (db.batchWrite H child)) =
      if (pointer.own child).isNull then pointer.read H (.base db) else pointer.own child := by
  cases pointer with
  | bestBlock =>
    simp only [read, own, getBestBlock, CCoinsViewDB.getBestBlock, CCoinsViewDB.batchWrite,
      apply_ite (fun best : Option Uint256 => best.getD 0), Option.getD_some]
    rfl
  | bestAnchor type =>
    simp only [read, own, getBestAnchor, CCoinsViewDB.getBestAnchor, CCoinsViewDB.batchWrite,
      apply_ite (fun best : Option Uint256 => best.getD (IncrementalMerkleTree.emptyRoot (H type))),
        Option.getD_some]
    rfl

end Pointer

/-- Whatever was done to the stack before: `Flush` of the top cache and dropping it keeps a
pointer exactly when the cache carries it. -/
theorem flush_keeps_pointer_iff {H : ShieldedType → MerkleHash} {v v' : CCoinsView}
    (flushed : flushAndPop H v = some v') (pointer : Pointer) :
    pointer.read H v' = pointer.read H v ↔ pointer.Carried H v := by
  match v with
  | .base _ => cases flushed
  | .layer _ (.base _) =>
    cases flushed
    rw [Pointer.read_batchWrite, Pointer.read_layer]
    exact ⟨fun _ => trivial, fun _ => rfl⟩
  | .layer child (.layer parent _) =>
    simp only [flushAndPop, flush, Option.bind_map, Option.bind_eq_some_iff] at flushed
    obtain ⟨_, written, popped⟩ := flushed
    cases popped
    rw [Pointer.read_layer, Pointer.read_layer, Pointer.read_layer, pointer.own_batchWrite written]
    dsimp only [Pointer.Carried]
    cases unread : (pointer.own child).isNull with
    | true =>
      -- the parent's field becomes null, and its readers are sent to the view below
      cases absent : (pointer.own parent).isNull with
      | true => simp
      | false => simp [eq_comm]
    | false => simp

/-- A tree with one commitment. -/
def oneCommitment : IncrementalMerkleTree := ⟨some 7, none, []⟩

/-- Calls that set the three fields. -/
def setPointers : View Unit := do
  View.setBestBlock 7
  View.pushAnchor .sprout oneCommitment
  View.pushAnchor .sapling oneCommitment

set_option maxRecDepth 4000 in
/-- A cache that set the fields; the cache on top of it has read them. -/
theorem flush_keeps_pointer_read : ∃ v v' v'',
    setPointers.run (ViewOp.onStack linearHash .counting) (pushCache (.base .empty)) = .ok ((), v) ∧
    View.getBestBlock.run (ViewOp.onStack linearHash .counting) (pushCache v) = .ok (7, v') ∧
    flushAndPop linearHash v' = some v'' ∧
    Pointer.bestBlock.read linearHash v'' = Pointer.bestBlock.read linearHash v' := by
  refine ⟨_, _, _, rfl, rfl, rfl, (flush_keeps_pointer_iff rfl .bestBlock).mpr (.inl ?_)⟩
  decide +kernel

set_option maxRecDepth 4000 in
/-- No call at all is made on the upper cache, and the flush loses the three values. -/
theorem flush_forgets_pointers : ∃ v v',
    setPointers.run (ViewOp.onStack linearHash .counting) (pushCache (.base .empty)) = .ok ((), v) ∧
    flushAndPop linearHash (pushCache v) = some v' ∧
    ∀ pointer : Pointer, pointer.read linearHash v' ≠ pointer.read linearHash (pushCache v) := by
  refine ⟨_, _, rfl, rfl, fun pointer => ?_⟩
  cases pointer with
  | bestBlock => decide +kernel
  | bestAnchor type => cases type <;> decide +kernel

end Zcashd.Guarantees.BestPointers
