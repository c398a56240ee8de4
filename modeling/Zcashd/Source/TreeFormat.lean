import Zcashd.Source.Undo
import Zcashd.Source.WitnessLeaves

/-!
# The note commitment tree on disk

`SerializationOp` of `IncrementalMerkleTree` and `IncrementalWitness`, and `wfcheck`, which
both directions call. The cursor depth of a witness is not written; reading computes it again.
-/
namespace Zcashd.Source

open Lib Option

/-! `boost::optional` (`src/serialize.h`) -/

def writeOptional {α : Type} (write : α → Bytes) : Option α → Bytes
  | some item => 0x01 :: write item
  | none => [0x00]

def readOptional {α : Type} (read : Decoder α) : Decoder (Option α) := do
  let discriminant ← Decoder.byte
  if discriminant = 0x00 then pure none
  else if discriminant = 0x01 then do pure (some (← read))
  else Decoder.fail

theorem readOptional_writeOptional {α : Type} {read : Decoder α} {write : α → Bytes}
    {item : Option α} (each : ∀ a, item = some a → Decodes read (write a) a) :
    Decodes (readOptional read) (writeOptional write item) item := by
  cases item with
  | none => exact fun _ => rfl
  | some a => exact (Decodes.byte 0x01).bind ((each a rfl).last some)

namespace IncrementalMerkleTree

/-- `wfcheck`. -/
def wfcheck (depth : Nat) (t : IncrementalMerkleTree) : Except String Unit :=
  if depth ≤ t.parents.length then .error "tree has too many parents"
  else if t.parents ≠ [] ∧ t.parents.getLast?.join.isNone then
    .error "tree has non-canonical representation of parent"
  else if t.left.isNone ∧ t.right.isSome then
    .error "tree has non-canonical representation; right should not exist"
  else if t.left.isNone ∧ 0 < t.parents.length then
    .error "tree has non-canonical representation; parents should not be unempty"
  else .ok ()

/-- What `wfcheck` lets through. -/
structure WellFormed (depth : Nat) (t : IncrementalMerkleTree) : Prop where
  fits : t.parents.length < depth
  last : t.parents ≠ [] → t.parents.getLast?.join.isSome
  right : t.left.isNone → t.right = none
  parents : t.left.isNone → t.parents = []

variable {t : IncrementalMerkleTree}

theorem wfcheck_iff {depth : Nat} : t.wfcheck depth = .ok () ↔ t.WellFormed depth := by
  unfold wfcheck
  constructor
  · intro passed
    split at passed
    · cases passed
    · split at passed
      · cases passed
      · split at passed
        · cases passed
        · split at passed
          · cases passed
          · rename_i few last right parents
            refine ⟨Nat.not_le.mp few, fun ne => ?_, fun left => ?_, fun left => ?_⟩
            · exact isSome_iff_ne_none.mpr (fun none => last ⟨ne, by rw [none]; rfl⟩)
            · exact not_isSome_iff_eq_none.mp (fun set => right ⟨left, set⟩)
            · exact List.eq_nil_of_length_eq_zero
                (Nat.eq_zero_of_not_pos (fun pos => parents ⟨left, pos⟩))
  · rintro ⟨fits, last, right, parents⟩
    rw [if_neg (Nat.not_le.mpr fits), if_neg, if_neg, if_neg]
    · rintro ⟨left, pos⟩
      rw [parents left] at pos
      exact absurd pos (Nat.lt_irrefl 0)
    · rintro ⟨left, set⟩
      rw [right left] at set
      cases set
    · rintro ⟨ne, missing⟩
      have set := last ne
      rw [isNone_iff_eq_none.mp missing] at set
      cases set

/-- `none` is the exception of `wfcheck`. -/
def serialize (H : MerkleHash) (t : IncrementalMerkleTree) : Option Bytes :=
  match t.wfcheck H.depth with
  | .ok () => some (writeOptional writeUint256 t.left ++ (writeOptional writeUint256 t.right ++
      writeVector (writeOptional writeUint256) t.parents))
  | .error _ => none

def unserialize (H : MerkleHash) : Decoder IncrementalMerkleTree := do
  let left ← readOptional readUint256
  let right ← readOptional readUint256
  let parents ← readVector (readOptional readUint256)
  let t : IncrementalMerkleTree := ⟨left, right, parents⟩
  match t.wfcheck H.depth with
  | .ok () => pure t
  | .error _ => Decoder.fail

variable {H : MerkleHash}

/-- A tree that passes the check is read back as it was. -/
theorem WellFormed.unserialize_serialize (formed : t.WellFormed H.depth)
    (short : H.depth ≤ MAX_SIZE + 1) :
    ∃ bytes, t.serialize H = some bytes ∧ Decodes (unserialize H) bytes t := by
  have passed := wfcheck_iff.mpr formed
  have hash := readUint256_writeUint256
  have slot : ∀ item, Decodes (readOptional readUint256) (writeOptional writeUint256 item) item :=
    fun item => readOptional_writeOptional (fun a _ => hash a)
  have parents := readVector_writeVector (l := t.parents) (by have := formed.fits; omega)
    (fun item _ => slot item)
  refine ⟨_, by rw [serialize, passed], ?_⟩
  refine (slot t.left).bind ((slot t.right).bind ?_)
  rw [← List.append_nil (writeVector _ _)]
  refine parents.bind ?_
  change Decodes (match t.wfcheck H.depth with | .ok () => pure t | .error _ => Decoder.fail) [] t
  rw [passed]
  exact Decodes.pure t

/-- What is read passes the check. -/
theorem unserialize_wellFormed {input rest : Bytes}
    (read : unserialize H input = some (t, rest)) : t.WellFormed H.depth := by
  obtain ⟨⟨left, _⟩, -, read⟩ := bind_eq_some_iff.mp read
  obtain ⟨⟨right, _⟩, -, read⟩ := bind_eq_some_iff.mp read
  obtain ⟨⟨parents, _⟩, -, read⟩ := bind_eq_some_iff.mp read
  cases passed : wfcheck H.depth ⟨left, right, parents⟩ with
  | ok =>
    simp only [passed] at read
    cases read
    exact wfcheck_iff.mp passed
  | error _ =>
    simp only [passed] at read
    cases read

end IncrementalMerkleTree

namespace IncrementalWitness

/-- The optional cursor, whose own check may throw. -/
def serializeCursor (H : MerkleHash) : Option IncrementalMerkleTree → Option Bytes
  | some cursor => (cursor.serialize H).map (fun bytes => 0x01 :: bytes)
  | none => some [0x00]

def serialize (H : MerkleHash) (w : IncrementalWitness) : Option Bytes := do
  let tree ← w.tree.serialize H
  let cursor ← serializeCursor H w.cursor
  pure (tree ++ (writeVector writeUint256 w.filled ++ cursor))

def unserialize (H : MerkleHash) : Decoder IncrementalWitness := do
  let tree ← IncrementalMerkleTree.unserialize H
  let filled ← readVector readUint256
  let cursor ← readOptional (IncrementalMerkleTree.unserialize H)
  pure ⟨tree, filled, cursor, tree.nextDepth filled.length⟩

/-- A witness is read back but for its cursor depth, which is computed again. -/
theorem unserialize_serialize {w : IncrementalWitness} (tree : w.tree.WellFormed H.depth)
    (cursor : ∀ t, w.cursor = some t → t.WellFormed H.depth) (filled : w.filled.length ≤ MAX_SIZE)
    (short : H.depth ≤ MAX_SIZE + 1) : ∃ bytes, w.serialize H = some bytes ∧
      Decodes (unserialize H) bytes { w with cursorDepth := w.tree.nextDepth w.filled.length } := by
  obtain ⟨treeBytes, treeWritten, treeRead⟩ := tree.unserialize_serialize short
  have filledRead := readVector_writeVector filled (fun h _ => readUint256_writeUint256 h)
  obtain ⟨cursorBytes, cursorWritten, cursorRead⟩ :
      ∃ bytes, serializeCursor H w.cursor = some bytes ∧
      Decodes (readOptional (IncrementalMerkleTree.unserialize H)) bytes w.cursor := by
    cases held : w.cursor with
    | none => exact ⟨[0x00], rfl, fun _ => rfl⟩
    | some t =>
      obtain ⟨bytes, out, read⟩ := (cursor t held).unserialize_serialize short
      exact ⟨0x01 :: bytes, by rw [serializeCursor, out]; rfl,
        (Decodes.byte 0x01).bind (read.last some)⟩
  refine ⟨treeBytes ++ (writeVector writeUint256 w.filled ++ cursorBytes), ?_, ?_⟩
  · rw [serialize, treeWritten, cursorWritten]
    rfl
  · exact treeRead.bind (filledRead.bind (cursorRead.last
      (fun cursor : Option IncrementalMerkleTree =>
        (⟨w.tree, w.filled, cursor, w.tree.nextDepth w.filled.length⟩ : IncrementalWitness))))

end IncrementalWitness

end Zcashd.Source
