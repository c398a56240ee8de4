import Mathlib

/-!
Transactions as the coins code sees them (`src/primitives/transaction.h`,
`src/amount.h`, `src/script/script.h`). Proofs, signatures, keys and ciphertexts
are opaque to every function modelled here and are left out; the transaction keeps
the cached `hash` the source keeps, so no hash function is fixed.
-/
namespace Zcashd.Source

/-- `uint256`; the null hash is `0`. -/
abbrev Uint256 := BitVec 256

/-- Named once, so that membership in lists of hashes is decided in the same way everywhere. -/
instance lawfulUint256 : LawfulBEq Uint256 := inferInstance

abbrev CAmount := Int

abbrev CScript := List UInt8

def Uint256.isNull (h : Uint256) : Bool := h == 0

def COIN : CAmount := 100000000

def MAX_MONEY : CAmount := 21000000 * COIN

def moneyRange (nValue : CAmount) : Bool := decide (0 ≤ nValue) && decide (nValue ≤ MAX_MONEY)

theorem moneyRange_iff {n : Int} : moneyRange n = true ↔ 0 ≤ n ∧ n ≤ 2100000000000000 := by
  simp only [moneyRange, Bool.and_eq_true, decide_eq_true_eq]
  exact Iff.rfl

def MAX_SCRIPT_SIZE : Nat := 10000

def OP_RETURN : UInt8 := 0x6a

def CScript.isUnspendable (s : CScript) : Bool :=
  s.head? == some OP_RETURN || decide (s.length > MAX_SCRIPT_SIZE)

/-- The two shielded pools (`ShieldedType` in `src/coins.h`). -/
inductive ShieldedType where
  | sprout
  | sapling
deriving DecidableEq, Repr

structure COutPoint where
  hash : Uint256
  n : Nat
deriving DecidableEq, Repr

def COutPoint.isNull (o : COutPoint) : Bool := o.hash.isNull && o.n == 0xFFFFFFFF

structure CTxIn where
  prevout : COutPoint
  scriptSig : CScript
deriving DecidableEq, Repr

structure CTxOut where
  nValue : CAmount
  scriptPubKey : CScript
deriving DecidableEq, Repr

/-- `SetNull`, also the default constructor. -/
def CTxOut.null : CTxOut := ⟨-1, []⟩

def CTxOut.isNull (out : CTxOut) : Bool := out.nValue == -1

structure SpendDescription where
  anchor : Uint256
  nullifier : Uint256
deriving DecidableEq, Repr

structure OutputDescription where
  cmu : Uint256
deriving DecidableEq, Repr

/-- The source's arrays have length `ZC_NUM_JS_INPUTS = ZC_NUM_JS_OUTPUTS = 2`. -/
structure JSDescription where
  vpub_old : CAmount
  vpub_new : CAmount
  anchor : Uint256
  nullifiers : Vector Uint256 2
  commitments : Vector Uint256 2
deriving DecidableEq, Repr

structure CTransaction where
  hash : Uint256
  fOverwintered : Bool
  nVersion : Int
  nVersionGroupId : Nat
  vin : List CTxIn
  vout : List CTxOut
  nExpiryHeight : Nat
  valueBalance : CAmount
  vShieldedSpend : List SpendDescription
  vShieldedOutput : List OutputDescription
  vJoinSplit : List JSDescription
deriving DecidableEq, Repr

namespace CTransaction

def getHash (tx : CTransaction) : Uint256 := tx.hash

def isCoinBase (tx : CTransaction) : Bool :=
  match tx.vin with
  | [txin] => txin.prevout.isNull
  | _ => false

/-- The nullifiers a transaction reveals in one pool, in the order of its descriptions. -/
def revealed (tx : CTransaction) : ShieldedType → List Uint256
  | .sprout => tx.vJoinSplit.flatMap (fun joinsplit => joinsplit.nullifiers.toList)
  | .sapling => tx.vShieldedSpend.map (fun spend => spend.nullifier)

/-- The note commitments a transaction adds to one pool's tree. -/
def commitments (tx : CTransaction) : ShieldedType → List Uint256
  | .sprout => tx.vJoinSplit.flatMap (fun joinsplit => joinsplit.commitments.toList)
  | .sapling => tx.vShieldedOutput.map (fun output => output.cmu)

end CTransaction

end Zcashd.Source
