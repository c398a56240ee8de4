import Zcashd.Source.Compressor

/-!
Undo data (`src/undo.h`) and its records in the undo files (`src/main.cpp:2200-2256`). A
record is the serialised `CBlockUndo` with a checksum over it and the hash of the block's
parent. `readUndo_writeUndo` is the round trip for undo data whose outputs and metadata
are in the range of their types and of `CheckTransaction`.
-/
namespace Zcashd.Source

open Lib

/-- The output before it was spent. The metadata of its entry is kept when the output was the
last unspent one, and is zero otherwise. -/
structure CTxInUndo where
  txout : CTxOut
  fCoinBase : Bool
  nHeight : Nat
  nVersion : Int
deriving DecidableEq, Repr

structure CTxUndo where
  vprevout : List CTxInUndo
deriving DecidableEq, Repr

structure CBlockUndo where
  /-- For all but the coinbase. -/
  vtxundo : List CTxUndo
  old_sprout_tree_root : Uint256
deriving DecidableEq, Repr

/-! Serialisation -/

def writeVector {α : Type} (write : α → Bytes) (l : List α) : Bytes :=
  writeCompactSize l.length ++ l.flatMap write

def readVector {α : Type} (read : Decoder α) : Decoder (List α) := readCompactSize >>= read.times

/-- `VARINT` of an `int`: the loop stops at once on a negative number. -/
def writeVarSigned (n : Int) : Bytes := writeVarInt 32 (if n < 0 then n % 128 else n).toNat

def readVarSigned : Decoder Int := do
  let n ← readVarInt 32
  pure ((n : Int).bmod (2 ^ 32))

namespace CTxInUndo

def serialize (lib : PubKeyLibrary) (undo : CTxInUndo) : Bytes :=
  writeVarInt 32 ((undo.nHeight * 2 + if undo.fCoinBase then 1 else 0) % 2 ^ 32) ++
    ((if undo.nHeight > 0 then writeVarSigned undo.nVersion else []) ++ writeTxOut lib undo.txout)

def unserialize (lib : PubKeyLibrary) : Decoder CTxInUndo := do
  let nCode ← readVarInt 32
  let nVersion ← if nCode / 2 > 0 then readVarSigned else pure 0
  let txout ← readTxOut lib
  pure ⟨txout, nCode % 2 = 1, nCode / 2, nVersion⟩

/-- What the fields of undo data for a connected block satisfy. -/
structure Storable (undo : CTxInUndo) : Prop where
  value : moneyRange undo.txout.nValue = true
  script : undo.txout.scriptPubKey.length ≤ MAX_SCRIPT_SIZE
  height : undo.nHeight < 2 ^ 31
  version : 0 ≤ undo.nVersion ∧ undo.nVersion < 2 ^ 31
  metadata : undo.nHeight = 0 → undo.nVersion = 0

end CTxInUndo

def CTxUndo.serialize (lib : PubKeyLibrary) (undo : CTxUndo) : Bytes :=
  writeVector (CTxInUndo.serialize lib) undo.vprevout

def CTxUndo.unserialize (lib : PubKeyLibrary) : Decoder CTxUndo := do
  let vprevout ← readVector (CTxInUndo.unserialize lib)
  pure ⟨vprevout⟩

def CBlockUndo.serialize (lib : PubKeyLibrary) (undo : CBlockUndo) : Bytes :=
  writeVector (CTxUndo.serialize lib) undo.vtxundo ++ writeUint256 undo.old_sprout_tree_root

def CBlockUndo.unserialize (lib : PubKeyLibrary) : Decoder CBlockUndo := do
  let vtxundo ← readVector (CTxUndo.unserialize lib)
  let old_sprout_tree_root ← readUint256
  pure ⟨vtxundo, old_sprout_tree_root⟩

/-! Records in the undo files -/

/-- Keys, and `CHashWriter::GetHash` of the bytes written to it. -/
structure UndoLibrary where
  keys : PubKeyLibrary
  getHash : Bytes → Uint256

def undoChecksum (lib : UndoLibrary) (hashBlock : Uint256) (blockundo : CBlockUndo) : Uint256 :=
  lib.getHash (writeUint256 hashBlock ++ blockundo.serialize lib.keys)

/-- The record `UndoWriteToDisk` writes, after its index header. -/
def undoWriteToDisk (lib : UndoLibrary) (blockundo : CBlockUndo) (hashBlock : Uint256) : Bytes :=
  blockundo.serialize lib.keys ++ writeUint256 (undoChecksum lib hashBlock blockundo)

def readUndoRecord (lib : UndoLibrary) : Decoder (CBlockUndo × Uint256) := do
  let blockundo ← CBlockUndo.unserialize lib.keys
  let hashChecksum ← readUint256
  pure (blockundo, hashChecksum)

/-- `UndoReadFromDisk`; `none` is an error. -/
def undoReadFromDisk (lib : UndoLibrary) (record : Bytes) (hashBlock : Uint256) :
    Option CBlockUndo :=
  match readUndoRecord lib record with
  | some ((blockundo, hashChecksum), _) =>
    if hashChecksum ≠ undoChecksum lib hashBlock blockundo then none else some blockundo
  | none => none

/-! Round trips -/

theorem readVector_writeVector {α : Type} {read : Decoder α} {write : α → Bytes} {l : List α}
    (size : l.length ≤ MAX_SIZE) (each : ∀ a ∈ l, Decodes read (write a) a) :
    Decodes (readVector read) (writeVector write l) l :=
  (readCompactSize_writeCompactSize size).bind (Decodes.times each)

theorem readVector_exact {α : Type} {read : Decoder α} {write : α → Bytes} {valid : α → Prop}
    (each : Exact read write valid) :
    Exact (readVector read) (writeVector write)
      (fun l => l.length ≤ MAX_SIZE ∧ ∀ a ∈ l, valid a) := by
  apply Exact.of_decodes
  · rintro l ⟨size, allValid⟩
    exact readVector_writeVector size (fun a mem => each.decodes (allValid a mem))
  · intro _ l _ reads
    obtain ⟨count, _, first, items⟩ := Decoder.bind_eq_some.mp reads
    obtain ⟨size, rfl⟩ := (readCompactSize_exact _ _ _).mp first
    obtain ⟨⟨rfl, allValid⟩, rfl⟩ := (each.times count _ _ _).mp items
    exact ⟨⟨size, allValid⟩, by rw [writeVector, List.append_assoc]⟩

theorem readVarSigned_writeVarSigned {n : Int} (low : 0 ≤ n) (high : n < 2 ^ 31) :
    Decodes readVarSigned (writeVarSigned n) n := by
  unfold writeVarSigned
  rw [if_neg (by omega)]
  have fits : n.toNat < 2 ^ 32 := by omega
  have value : ((n.toNat : Nat) : Int).bmod (2 ^ 32) = n := by
    rw [Int.bmod_def]
    omega
  have read : Decodes readVarSigned _ _ := (readVarInt_writeVarInt fits (by decide)).last
    (fun m : Nat => (m : Int).bmod (2 ^ 32))
  rwa [value] at read

namespace CTxInUndo

theorem unserialize_serialize {lib : PubKeyLibrary} {undo : CTxInUndo} (storable : undo.Storable) :
    Decodes (unserialize lib) (serialize lib undo) undo := by
  obtain ⟨txout, fCoinBase, nHeight, nVersion⟩ := undo
  obtain ⟨value, script, height, version, metadata⟩ := storable
  dsimp only at value script height version metadata
  have code : nHeight * 2 + (if fCoinBase then 1 else 0) < 2 ^ 32 := by
    cases fCoinBase with
    | true => simp; omega
    | false => simp; omega
  have half : (nHeight * 2 + (if fCoinBase then 1 else 0)) / 2 = nHeight := by
    cases fCoinBase with
    | true => simp; omega
    | false => simp
  have low : decide ((nHeight * 2 + (if fCoinBase then 1 else 0)) % 2 = 1) = fCoinBase := by
    cases fCoinBase <;> simp
  unfold serialize unserialize
  dsimp only
  rw [Nat.mod_eq_of_lt code]
  refine (readVarInt_writeVarInt code (by decide)).bind ?_
  have read := (readTxOut_writeTxOut lib value script).last
    (fun txout => (⟨txout, fCoinBase, nHeight, nVersion⟩ : CTxInUndo))
  simp only [half, low]
  by_cases last : nHeight > 0
  · rw [if_pos last, if_pos last]
    exact (readVarSigned_writeVarSigned version.1 version.2).bind read
  · rw [if_neg last, if_neg last]
    obtain rfl : nVersion = 0 := metadata (by omega)
    exact (Decodes.pure (0 : Int)).bind read

end CTxInUndo

theorem CTxUndo.unserialize_serialize (lib : PubKeyLibrary) {undo : CTxUndo}
    (size : undo.vprevout.length ≤ MAX_SIZE) (storable : ∀ u ∈ undo.vprevout, u.Storable) :
    Decodes (unserialize lib) (serialize lib undo) undo :=
  (readVector_writeVector size (fun u mem =>
    CTxInUndo.unserialize_serialize (storable u mem))).last CTxUndo.mk

/-- Undo data that fits the record format. -/
structure CBlockUndo.Storable (undo : CBlockUndo) : Prop where
  transactions : undo.vtxundo.length ≤ MAX_SIZE
  inputs : ∀ u ∈ undo.vtxundo, u.vprevout.length ≤ MAX_SIZE
  outputs : ∀ u ∈ undo.vtxundo, ∀ i ∈ u.vprevout, i.Storable

variable {undo : CBlockUndo}

theorem CBlockUndo.unserialize_serialize {lib : PubKeyLibrary}
    (storable : undo.Storable) : Decodes (unserialize lib) (serialize lib undo) undo := by
  have transactions := readVector_writeVector storable.transactions (fun u mem =>
    CTxUndo.unserialize_serialize lib (storable.inputs u mem) (storable.outputs u mem))
  exact transactions.bind ((readUint256_writeUint256 undo.old_sprout_tree_root).last
    (CBlockUndo.mk undo.vtxundo))

theorem undoReadFromDisk_undoWriteToDisk (lib : UndoLibrary) (storable : undo.Storable)
    (hashBlock : Uint256) :
    undoReadFromDisk lib (undoWriteToDisk lib undo hashBlock) hashBlock = some undo := by
  have record : Decodes (readUndoRecord lib) (undoWriteToDisk lib undo hashBlock)
      (undo, undoChecksum lib hashBlock undo) :=
    (CBlockUndo.unserialize_serialize storable).bind
      ((readUint256_writeUint256 _).last (fun checksum => (undo, checksum)))
  have read := record []
  rw [List.append_nil] at read
  simp [undoReadFromDisk, read]

end Zcashd.Source
