import Zcashd.Source.Undo

/-!
# Transactions on the wire

`SerializationOp` of transactions and their parts (`src/primitives/transaction.h`,
`src/zcash/Proof.hpp`), with every field. Integers have the widths of the source, so no value
is out of range. `SerializationOp` is one text for both directions; here it is `bytes` and
`unserializeInto`, which reads into an object that is already there: a field that the format
does not carry keeps its value.
-/
namespace Zcashd.Source.Wire

open Lib Decoder

/-! Integers and arrays -/

def writeUInt32 (n : UInt32) : Bytes := writeData 4 n.toNat

def readUInt32 : Decoder UInt32 := do
  let n ← readData 4
  pure (UInt32.ofNat n)

/-- `CAmount`, in two's complement. -/
def writeAmount (n : Int64) : Bytes := writeData 8 n.toUInt64.toNat

def readAmount : Decoder Int64 := do
  let n ← readData 8
  pure (UInt64.ofNat n).toInt64

/-- `std::array`: the elements, without their number. -/
def writeArray {α : Type} {n : Nat} (write : α → Bytes) (v : Vector α n) : Bytes :=
  v.toList.flatMap write

def readArray {α : Type} (read : Decoder α) : (n : Nat) → Decoder (Vector α n)
  | 0 => pure #v[]
  | n + 1 => do
    let init ← readArray read n
    let last ← read
    pure (init.push last)

abbrev Blob (n : Nat) := Vector UInt8 n

def writeBlob {n : Nat} (v : Blob n) : Bytes := writeArray (fun b => [b]) v

def readBlob (n : Nat) : Decoder (Blob n) := readArray byte n

/-- A script, and any `std::vector<unsigned char>`. -/
def writeScript (script : CScript) : Bytes := writeVector (fun b => [b]) script

def readScript : Decoder CScript := readVector byte

/-! Proofs (`src/zcash/Proof.hpp`) -/

def G1_PREFIX_MASK : UInt8 := 0x02
def G2_PREFIX_MASK : UInt8 := 0x0a

/-- The leading byte of a compressed point. -/
def writeLeadingByte (mask : UInt8) (sign : Bool) : Bytes := [if sign then mask ||| 1 else mask]

def readLeadingByte (mask : UInt8) : Decoder Bool := do
  let leadingByte ← byte
  if leadingByte &&& 0xFE ≠ mask then fail else pure (leadingByte &&& 1 == 1)

structure CompressedG1 where
  y_lsb : Bool
  x : Uint256
deriving DecidableEq, Inhabited

def CompressedG1.bytes (p : CompressedG1) : Bytes :=
  writeLeadingByte G1_PREFIX_MASK p.y_lsb ++ writeUint256 p.x

def CompressedG1.unserialize : Decoder CompressedG1 := do
  let y_lsb ← readLeadingByte G1_PREFIX_MASK
  let x ← readUint256
  pure ⟨y_lsb, x⟩

structure CompressedG2 where
  y_gt : Bool
  x : Blob 64
deriving DecidableEq, Inhabited

def CompressedG2.bytes (p : CompressedG2) : Bytes :=
  writeLeadingByte G2_PREFIX_MASK p.y_gt ++ writeBlob p.x

def CompressedG2.unserialize : Decoder CompressedG2 := do
  let y_gt ← readLeadingByte G2_PREFIX_MASK
  let x ← readBlob 64
  pure ⟨y_gt, x⟩

structure PHGRProof where
  g_A : CompressedG1
  g_A_prime : CompressedG1
  g_B : CompressedG2
  g_B_prime : CompressedG1
  g_C : CompressedG1
  g_C_prime : CompressedG1
  g_K : CompressedG1
  g_H : CompressedG1
deriving DecidableEq, Inhabited

def PHGRProof.bytes (p : PHGRProof) : Bytes :=
  p.g_A.bytes ++ (p.g_A_prime.bytes ++ (p.g_B.bytes ++ (p.g_B_prime.bytes ++ (p.g_C.bytes ++
    (p.g_C_prime.bytes ++ (p.g_K.bytes ++ p.g_H.bytes))))))

def PHGRProof.unserialize : Decoder PHGRProof := do
  let g_A ← CompressedG1.unserialize
  let g_A_prime ← CompressedG1.unserialize
  let g_B ← CompressedG2.unserialize
  let g_B_prime ← CompressedG1.unserialize
  let g_C ← CompressedG1.unserialize
  let g_C_prime ← CompressedG1.unserialize
  let g_K ← CompressedG1.unserialize
  let g_H ← CompressedG1.unserialize
  pure ⟨g_A, g_A_prime, g_B, g_B_prime, g_C, g_C_prime, g_K, g_H⟩

abbrev GrothProof := Blob 192

/-- `boost::variant<PHGRProof, GrothProof>`. -/
inductive SproutProof where
  | phgr (proof : PHGRProof)
  | groth (proof : GrothProof)
deriving DecidableEq

instance : Inhabited SproutProof := ⟨.phgr default⟩

namespace SproutProof

def bytes : SproutProof → Bytes
  | phgr proof => proof.bytes
  | groth proof => writeBlob proof

/-- `SproutProofSerializer` throws on a proof of the other kind. -/
def isFor (useGroth : Bool) : SproutProof → Bool
  | phgr _ => !useGroth
  | groth _ => useGroth

def unserialize (useGroth : Bool) : Decoder SproutProof :=
  if useGroth then readBlob 192 >>= fun proof => pure (groth proof)
  else PHGRProof.unserialize >>= fun proof => pure (phgr proof)

end SproutProof

/-! The parts of a transaction -/

structure SpendDescription where
  cv : Uint256
  anchor : Uint256
  nullifier : Uint256
  rk : Uint256
  zkproof : GrothProof
  spendAuthSig : Blob 64
deriving DecidableEq, Inhabited

def SpendDescription.bytes (d : SpendDescription) : Bytes :=
  writeUint256 d.cv ++ (writeUint256 d.anchor ++ (writeUint256 d.nullifier ++ (writeUint256 d.rk ++
    (writeBlob d.zkproof ++ writeBlob d.spendAuthSig))))

def SpendDescription.unserialize : Decoder SpendDescription := do
  let cv ← readUint256
  let anchor ← readUint256
  let nullifier ← readUint256
  let rk ← readUint256
  let zkproof ← readBlob 192
  let spendAuthSig ← readBlob 64
  pure ⟨cv, anchor, nullifier, rk, zkproof, spendAuthSig⟩

structure OutputDescription where
  cv : Uint256
  cmu : Uint256
  ephemeralKey : Uint256
  encCiphertext : Blob 580
  outCiphertext : Blob 80
  zkproof : GrothProof
deriving DecidableEq, Inhabited

def OutputDescription.bytes (d : OutputDescription) : Bytes :=
  writeUint256 d.cv ++
    (writeUint256 d.cmu ++ (writeUint256 d.ephemeralKey ++ (writeBlob d.encCiphertext ++
    (writeBlob d.outCiphertext ++ writeBlob d.zkproof))))

def OutputDescription.unserialize : Decoder OutputDescription := do
  let cv ← readUint256
  let cmu ← readUint256
  let ephemeralKey ← readUint256
  let encCiphertext ← readBlob 580
  let outCiphertext ← readBlob 80
  let zkproof ← readBlob 192
  pure ⟨cv, cmu, ephemeralKey, encCiphertext, outCiphertext, zkproof⟩

structure JSDescription where
  vpub_old : Int64
  vpub_new : Int64
  anchor : Uint256
  nullifiers : Vector Uint256 2
  commitments : Vector Uint256 2
  ephemeralKey : Uint256
  ciphertexts : Vector (Blob 601) 2
  randomSeed : Uint256
  macs : Vector Uint256 2
  proof : SproutProof
deriving DecidableEq, Inhabited

/-- The proof comes before the ciphertexts. -/
def JSDescription.bytes (d : JSDescription) : Bytes :=
  writeAmount d.vpub_old ++
    (writeAmount d.vpub_new ++ (writeUint256 d.anchor ++ (writeArray writeUint256 d.nullifiers ++
    (writeArray writeUint256 d.commitments ++
      (writeUint256 d.ephemeralKey ++ (writeUint256 d.randomSeed ++
      (writeArray writeUint256 d.macs ++
        (d.proof.bytes ++ writeArray writeBlob d.ciphertexts))))))))

def JSDescription.unserialize (useGroth : Bool) : Decoder JSDescription := do
  let vpub_old ← readAmount
  let vpub_new ← readAmount
  let anchor ← readUint256
  let nullifiers ← readArray readUint256 2
  let commitments ← readArray readUint256 2
  let ephemeralKey ← readUint256
  let randomSeed ← readUint256
  let macs ← readArray readUint256 2
  let proof ← SproutProof.unserialize useGroth
  let ciphertexts ← readArray (readBlob 601) 2
  pure ⟨vpub_old, vpub_new, anchor, nullifiers, commitments, ephemeralKey, ciphertexts, randomSeed,
    macs, proof⟩

structure COutPoint where
  hash : Uint256
  n : UInt32
deriving DecidableEq, Inhabited

def COutPoint.bytes (o : COutPoint) : Bytes := writeUint256 o.hash ++ writeUInt32 o.n

def COutPoint.unserialize : Decoder COutPoint := do
  let hash ← readUint256
  let n ← readUInt32
  pure ⟨hash, n⟩

structure CTxIn where
  prevout : COutPoint
  scriptSig : CScript
  nSequence : UInt32
deriving DecidableEq, Inhabited

def CTxIn.bytes (txin : CTxIn) : Bytes :=
  txin.prevout.bytes ++ (writeScript txin.scriptSig ++ writeUInt32 txin.nSequence)

def CTxIn.unserialize : Decoder CTxIn := do
  let prevout ← COutPoint.unserialize
  let scriptSig ← readScript
  let nSequence ← readUInt32
  pure ⟨prevout, scriptSig, nSequence⟩

structure CTxOut where
  nValue : Int64
  scriptPubKey : CScript
deriving DecidableEq, Inhabited

def CTxOut.bytes (txout : CTxOut) : Bytes :=
  writeAmount txout.nValue ++ writeScript txout.scriptPubKey

def CTxOut.unserialize : Decoder CTxOut := do
  let nValue ← readAmount
  let scriptPubKey ← readScript
  pure ⟨nValue, scriptPubKey⟩

/-! The transaction -/

def OVERWINTER_VERSION_GROUP_ID : UInt32 := 0x03C48270
def SAPLING_VERSION_GROUP_ID : UInt32 := 0x892F2085
def OVERWINTER_TX_VERSION : Int32 := 3
def SAPLING_TX_VERSION : Int32 := 4

structure CMutableTransaction where
  fOverwintered : Bool
  nVersion : Int32
  nVersionGroupId : UInt32
  vin : List CTxIn
  vout : List CTxOut
  nLockTime : UInt32
  nExpiryHeight : UInt32
  valueBalance : Int64
  vShieldedSpend : List SpendDescription
  vShieldedOutput : List OutputDescription
  vJoinSplit : List JSDescription
  joinSplitPubKey : Uint256
  joinSplitSig : Blob 64
  bindingSig : Blob 64
deriving DecidableEq

/-- The four bytes of `GetHeader`. -/
def header (fOverwintered : Bool) (nVersion : Int32) : UInt32 :=
  if fOverwintered then nVersion.toUInt32 ||| 0x80000000 else nVersion.toUInt32

def readHeader : Decoder (Bool × Int32) := do
  let header ← readUInt32
  pure (header >>> 31 != 0, (header &&& 0x7FFFFFFF).toInt32)

def isOverwinterV3 (fOverwintered : Bool) (nVersion : Int32) (nVersionGroupId : UInt32) : Bool :=
  fOverwintered && nVersionGroupId == OVERWINTER_VERSION_GROUP_ID && nVersion ==
    OVERWINTER_TX_VERSION

def isSaplingV4 (fOverwintered : Bool) (nVersion : Int32) (nVersionGroupId : UInt32) : Bool :=
  fOverwintered && nVersionGroupId == SAPLING_VERSION_GROUP_ID && nVersion == SAPLING_TX_VERSION

/-- `useGroth` of `JSDescription`, from the version of the stream, which is the header. -/
def useGroth (fOverwintered : Bool) (nVersion : Int32) : Bool :=
  fOverwintered && decide (SAPLING_TX_VERSION ≤ nVersion)

namespace CMutableTransaction

/-- The default constructor. -/
def fresh : CMutableTransaction where
  fOverwintered := false
  nVersion := 1
  nVersionGroupId := 0
  vin := []
  vout := []
  nLockTime := 0
  nExpiryHeight := 0
  valueBalance := 0
  vShieldedSpend := []
  vShieldedOutput := []
  vJoinSplit := []
  joinSplitPubKey := 0
  joinSplitSig := Vector.replicate 64 0
  bindingSig := Vector.replicate 64 0

variable (tx : CMutableTransaction)

def v3 : Bool := isOverwinterV3 tx.fOverwintered tx.nVersion tx.nVersionGroupId

def v4 : Bool := isSaplingV4 tx.fOverwintered tx.nVersion tx.nVersionGroupId

/-- "Unknown transaction format". -/
def unknownFormat : Bool := tx.fOverwintered && !(tx.v3 || tx.v4)

/-- The JoinSplits are there from version 2. -/
def hasJoinSplits : Prop := 2 ≤ tx.nVersion

instance : Decidable tx.hasJoinSplits := inferInstanceAs (Decidable (2 ≤ tx.nVersion))

/-- A key and a signature follow if there is a JoinSplit. -/
def hasJoinSplitSig : Prop := tx.hasJoinSplits ∧ 0 < tx.vJoinSplit.length

instance : Decidable tx.hasJoinSplitSig := inferInstanceAs (Decidable (_ ∧ _))

def hasBindingSig : Bool := tx.v4 && !(tx.vShieldedSpend.isEmpty && tx.vShieldedOutput.isEmpty)

/-- What is written, when nothing throws. -/
def bytes : Bytes :=
  writeUInt32 (header tx.fOverwintered tx.nVersion) ++
  ((if tx.fOverwintered then writeUInt32 tx.nVersionGroupId else []) ++
  (writeVector CTxIn.bytes tx.vin ++
  (writeVector CTxOut.bytes tx.vout ++
  (writeUInt32 tx.nLockTime ++
  ((if tx.v3 || tx.v4 then writeUInt32 tx.nExpiryHeight else []) ++
  ((if tx.v4 then writeAmount tx.valueBalance else []) ++
  ((if tx.v4 then writeVector SpendDescription.bytes tx.vShieldedSpend else []) ++
  ((if tx.v4 then writeVector OutputDescription.bytes tx.vShieldedOutput else []) ++
  ((if tx.hasJoinSplits then writeVector JSDescription.bytes tx.vJoinSplit else []) ++
  ((if tx.hasJoinSplitSig then writeUint256 tx.joinSplitPubKey else []) ++
  ((if tx.hasJoinSplitSig then writeBlob tx.joinSplitSig else []) ++
  (if tx.hasBindingSig then writeBlob tx.bindingSig else []))))))))))))

/-- Every JoinSplit that is written has a proof of the kind the format has. -/
def proofsFit : Prop :=
  tx.hasJoinSplits →
    ∀ joinsplit ∈ tx.vJoinSplit, joinsplit.proof.isFor (useGroth tx.fOverwintered tx.nVersion)

instance : Decidable tx.proofsFit := inferInstanceAs (Decidable (_ → _))

/-- Writing a transaction; `none` is an exception. -/
def serialize : Option Bytes := if ¬ tx.unknownFormat ∧ tx.proofsFit then some tx.bytes else none

/-- `GetHash()`: the hash of the serialised transaction. -/
def getHash (hash : Bytes → Uint256) : Option Uint256 := tx.serialize.map hash

end CMutableTransaction

/-- Reading a transaction into the object `o`. -/
def unserializeInto (o : CMutableTransaction) : Decoder CMutableTransaction := do
  let (fOverwintered, nVersion) ← readHeader
  let nVersionGroupId ← readIf fOverwintered readUInt32 o.nVersionGroupId
  let v3 := isOverwinterV3 fOverwintered nVersion nVersionGroupId
  let v4 := isSaplingV4 fOverwintered nVersion nVersionGroupId
  if fOverwintered && !(v3 || v4) then fail
  else do
    let vin ← readVector CTxIn.unserialize
    let vout ← readVector CTxOut.unserialize
    let nLockTime ← readUInt32
    let nExpiryHeight ← readIf (v3 || v4) readUInt32 o.nExpiryHeight
    let valueBalance ← readIf v4 readAmount o.valueBalance
    let vShieldedSpend ← readIf v4 (readVector SpendDescription.unserialize) o.vShieldedSpend
    let vShieldedOutput ← readIf v4 (readVector OutputDescription.unserialize) o.vShieldedOutput
    let vJoinSplit ← readIf (2 ≤ nVersion)
      (readVector (JSDescription.unserialize (useGroth fOverwintered nVersion))) o.vJoinSplit
    let joinSplitPubKey ← readIf (2 ≤ nVersion ∧ 0 < vJoinSplit.length) readUint256
        o.joinSplitPubKey
    let joinSplitSig ← readIf (2 ≤ nVersion ∧ 0 < vJoinSplit.length) (readBlob 64) o.joinSplitSig
    let bindingSig ← readIf (v4 && !(vShieldedSpend.isEmpty && vShieldedOutput.isEmpty))
        (readBlob 64)
      o.bindingSig
    pure ⟨fOverwintered, nVersion, nVersionGroupId, vin, vout, nLockTime, nExpiryHeight,
      valueBalance, vShieldedSpend,
      vShieldedOutput, vJoinSplit, joinSplitPubKey, joinSplitSig, bindingSig⟩

end Zcashd.Source.Wire
