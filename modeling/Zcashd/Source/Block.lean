import Zcashd.Source.Primitives

/-!
Blocks (`src/primitives/block.{h,cpp}`), their serialised sizes (`src/primitives/transaction.h`,
`src/serialize.h`) and the index entries of blocks (`src/chain.h:141-360`).

A block keeps its hash as a field, as a transaction does. An index entry is known by that
hash: `pprev` holds the hash of the entry the source points to. File positions are left out
but for whether there are any; the bits of `nStatus` are fields of their own.
-/
namespace Zcashd.Source

structure CBlock where
  hash : Uint256
  nVersion : Int
  hashPrevBlock : Uint256
  hashMerkleRoot : Uint256
  hashLightClientRoot : Uint256
  nTime : Nat
  nBits : Nat
  nSolution : List UInt8
  vtx : List CTransaction
deriving DecidableEq, Repr

def CBlock.getHash (block : CBlock) : Uint256 := block.hash

/-! Serialised sizes -/

def sizeOfCompactSize (nSize : Nat) : Nat :=
  if nSize < 253 then 1 else if nSize ≤ 0xFFFF then 3 else if nSize ≤ 0xFFFFFFFF then 5 else 9

/-- A vector: its length, then its elements. -/
def sizeOfVector {α : Type} (size : α → Nat) (l : List α) : Nat :=
  sizeOfCompactSize l.length + (l.map size).sum

def CTxIn.serializeSize (txin : CTxIn) : Nat :=
  32 + 4 + sizeOfVector (fun _ => 1) txin.scriptSig + 4

def CTxOut.serializeSize (out : CTxOut) : Nat := 8 + sizeOfVector (fun _ => 1) out.scriptPubKey

namespace CTransaction

def OVERWINTER_VERSION_GROUP_ID : Nat := 0x03C48270
def SAPLING_VERSION_GROUP_ID : Nat := 0x892F2085
def OVERWINTER_TX_VERSION : Int := 3
def SAPLING_TX_VERSION : Int := 4

def isOverwinterV3 (tx : CTransaction) : Bool :=
  tx.fOverwintered && tx.nVersionGroupId == OVERWINTER_VERSION_GROUP_ID &&
    tx.nVersion == OVERWINTER_TX_VERSION

def isSaplingV4 (tx : CTransaction) : Bool :=
  tx.fOverwintered && tx.nVersionGroupId == SAPLING_VERSION_GROUP_ID && tx.nVersion ==
    SAPLING_TX_VERSION

/-- cv, anchor, nullifier, rk, zkproof, spendAuthSig. -/
def SPEND_DESCRIPTION_SIZE : Nat := 32 + 32 + 32 + 32 + 192 + 64

/-- cv, cmu, ephemeralKey, encCiphertext, outCiphertext, zkproof. -/
def OUTPUT_DESCRIPTION_SIZE : Nat := 32 + 32 + 32 + 580 + 80 + 192

/-- `JOINSPLIT_SIZE`: Groth16 proofs from Sapling on, PHGR13 before. -/
def joinSplitSize (tx : CTransaction) : Nat :=
  if tx.fOverwintered && decide (SAPLING_TX_VERSION ≤ tx.nVersion) then 1698 else 1802

/-- `GetSerializeSize(tx, SER_NETWORK, PROTOCOL_VERSION)`, following `SerializationOp`. -/
def serializeSize (tx : CTransaction) : Nat :=
  4 + (if tx.fOverwintered then 4 else 0) + sizeOfVector CTxIn.serializeSize tx.vin +
    sizeOfVector CTxOut.serializeSize tx.vout + 4 +
    (if tx.isOverwinterV3 || tx.isSaplingV4 then 4 else 0) +
    (if tx.isSaplingV4 then
      8 + sizeOfVector (fun _ => SPEND_DESCRIPTION_SIZE) tx.vShieldedSpend +
        sizeOfVector (fun _ => OUTPUT_DESCRIPTION_SIZE) tx.vShieldedOutput
    else 0) +
    (if 2 ≤ tx.nVersion then
      sizeOfVector (fun _ => tx.joinSplitSize) tx.vJoinSplit +
        (if tx.vJoinSplit.isEmpty then 0 else 32 + 64)
    else 0) +
    (if tx.isSaplingV4 && !(tx.vShieldedSpend.isEmpty && tx.vShieldedOutput.isEmpty) then 64 else 0)

/-- What deserialising guarantees: the fields a format does not carry have their defaults. -/
structure Parsed (tx : CTransaction) : Prop where
  version : 0 ≤ tx.nVersion ∧ tx.nVersion < 2 ^ 31
  format : tx.fOverwintered = true → tx.isOverwinterV3 = true ∨ tx.isSaplingV4 = true
  sapling : tx.isSaplingV4 = false →
    tx.valueBalance = 0 ∧ tx.vShieldedSpend = [] ∧ tx.vShieldedOutput = []
  joinSplit : tx.nVersion < 2 → tx.vJoinSplit = []

instance (tx : CTransaction) : Decidable tx.Parsed :=
  decidable_of_iff ((0 ≤ tx.nVersion ∧ tx.nVersion < 2 ^ 31) ∧
      (tx.fOverwintered = true → tx.isOverwinterV3 = true ∨ tx.isSaplingV4 = true) ∧
      (tx.isSaplingV4 = false → tx.valueBalance = 0 ∧ tx.vShieldedSpend = [] ∧
        tx.vShieldedOutput = []) ∧
      (tx.nVersion < 2 → tx.vJoinSplit = []))
    ⟨fun ⟨version, format, sapling, joinSplit⟩ => ⟨version, format, sapling, joinSplit⟩,
      fun parsed => ⟨parsed.version, parsed.format, parsed.sapling, parsed.joinSplit⟩⟩

end CTransaction

/-- The header has 140 bytes before the Equihash solution. -/
def CBlock.serializeSize (block : CBlock) : Nat :=
  4 + 32 + 32 + 32 + 4 + 4 + 32 + sizeOfVector (fun _ => 1) block.nSolution +
    sizeOfVector CTransaction.serializeSize block.vtx

/-! The Merkle tree of transaction ids -/

/-- One level of `BuildMerkleTree`; the flag is set when the last two hashes of an even level
are equal. -/
def merkleLevel (hash : Uint256 → Uint256 → Uint256) : List Uint256 → List Uint256 × Bool
  | [] => ([], false)
  | [a] => ([hash a a], false)
  | [a, b] => ([hash a b], a == b)
  | a :: b :: rest =>
    let above := merkleLevel hash rest
    (hash a b :: above.1, above.2)

/-- `BuildMerkleTree` from a level on; a level has at most as many nodes as the one below. -/
def merkleLevels (hash : Uint256 → Uint256 → Uint256) : Nat → List Uint256 → Bool → Uint256 × Bool
  | _, [], mutated => (0, mutated)
  | _, [root], mutated => (root, mutated)
  | 0, a :: _, mutated => (a, mutated)
  | levels + 1, level, mutated =>
    let above := merkleLevel hash level
    merkleLevels hash levels above.1 (mutated || above.2)

def CBlock.buildMerkleTree (hash : Uint256 → Uint256 → Uint256) (block : CBlock) : Uint256 × Bool :=
  merkleLevels hash block.vtx.length (block.vtx.map CTransaction.getHash) false

/-! Index entries -/

/-- The validity levels below `BLOCK_VALID_MASK`, in their order. -/
inductive BlockValidity where
  | UNKNOWN
  | HEADER
  | TREE
  | TRANSACTIONS
  | CHAIN
  | SCRIPTS
deriving DecidableEq, Repr

def BlockValidity.level : BlockValidity → Nat
  | UNKNOWN => 0
  | HEADER => 1
  | TREE => 2
  | TRANSACTIONS => 3
  | CHAIN => 4
  | SCRIPTS => 5

structure BlockStatus where
  validity : BlockValidity
  haveData : Bool
  haveUndo : Bool
  failedValid : Bool
  failedChild : Bool
  activatesUpgrade : Bool
deriving DecidableEq, Repr

/-- `BLOCK_FAILED_MASK`. -/
def BlockStatus.failed (status : BlockStatus) : Bool := status.failedValid || status.failedChild

structure CBlockIndex where
  hash : Uint256
  pprev : Option Uint256
  nHeight : Nat
  nChainWork : Nat
  nTx : Nat
  nChainTx : Nat
  nStatus : BlockStatus
  nCachedBranchId : Option Nat
  hashSproutAnchor : Uint256
  hashFinalSproutRoot : Uint256
  nSproutValue : Option CAmount
  nChainSproutValue : Option CAmount
  nSaplingValue : CAmount
  nChainSaplingValue : Option CAmount
  hashFinalSaplingRoot : Uint256
  nSequenceId : Nat
deriving DecidableEq, Repr

namespace CBlockIndex

def isValid (pindex : CBlockIndex) (nUpTo : BlockValidity) : Bool :=
  !pindex.nStatus.failed && decide (nUpTo.level ≤ pindex.nStatus.validity.level)

def raiseValidity (pindex : CBlockIndex) (nUpTo : BlockValidity) : CBlockIndex :=
  if pindex.nStatus.failed then pindex
  else if pindex.nStatus.validity.level < nUpTo.level then
    { pindex with nStatus := { pindex.nStatus with validity := nUpTo } }
  else pindex

end CBlockIndex

end Zcashd.Source
