import Zcashd.Lib.Codec

/-!
`CBloomFilter` as far as `CRollingBloomFilter` uses it, and the latter (`src/bloom.cpp`). `vData` is
given bit by bit, a key sets one bit for each hash function; `nBits` is `vData.size() * 8`. Counters
have 32 bits.
-/
namespace Zcashd.Source

open Lib

structure CBloomFilter where
  vData : Nat → Bool
  nBits : Nat
  isFull : Bool
  isEmpty : Bool
  nHashFuncs : Nat
  nTweak : UInt32

namespace CBloomFilter

variable (murmurHash3 : UInt32 → Bytes → UInt32) (b : CBloomFilter)

def hash (nHashNum : Nat) (vDataToHash : Bytes) : Nat :=
  (murmurHash3 (UInt32.ofNat nHashNum * 0xFBA4C795 + b.nTweak) vDataToHash).toNat % b.nBits

def indexes (vKey : Bytes) : List Nat :=
  (List.range b.nHashFuncs).map fun i => b.hash murmurHash3 i vKey

def insert (vKey : Bytes) : CBloomFilter :=
  if b.isFull then b
  else { b with
    vData := (b.indexes murmurHash3 vKey).foldl
      (fun vData nIndex => Function.update vData nIndex true) b.vData
    isEmpty := false }

def contains (vKey : Bytes) : Bool :=
  b.isFull || !b.isEmpty && (b.indexes murmurHash3 vKey).all b.vData

def clear : CBloomFilter := { b with vData := fun _ => false, isFull := false, isEmpty := true }

def reset (nNewTweak : UInt32) : CBloomFilter := { b.clear with nTweak := nNewTweak }

end CBloomFilter

structure CRollingBloomFilter where
  b1 : CBloomFilter
  b2 : CBloomFilter
  nInsertions : Nat
  nBloomSize : Nat

namespace CRollingBloomFilter

variable (murmurHash3 : UInt32 → Bytes → UInt32) (s : CRollingBloomFilter)

/-- The constructor; the sizes of the filters are computed from the rate of false positives. -/
def new (nElements nBits nHashFuncs : Nat) (nTweak : UInt32) : CRollingBloomFilter :=
  let b := ⟨fun _ => false, nBits, false, true, nHashFuncs, nTweak⟩
  ⟨b, b, 0, nElements * 2 % 2 ^ 32⟩

def insert (vKey : Bytes) : CRollingBloomFilter :=
  let b1 := if s.nInsertions = 0 then s.b1.clear else s.b1
  let b2 := if s.nInsertions ≠ 0 ∧ s.nInsertions = s.nBloomSize / 2 then s.b2.clear else s.b2
  let nInsertions := (s.nInsertions + 1) % 2 ^ 32
  ⟨b1.insert murmurHash3 vKey, b2.insert murmurHash3 vKey, if nInsertions = s.nBloomSize then 0
    else nInsertions, s.nBloomSize⟩

def contains (vKey : Bytes) : Bool :=
  if s.nInsertions < s.nBloomSize / 2 then s.b2.contains murmurHash3 vKey
    else s.b1.contains murmurHash3 vKey

def reset (nNewTweak : UInt32) : CRollingBloomFilter :=
  ⟨s.b1.reset nNewTweak, s.b2.reset nNewTweak, 0, s.nBloomSize⟩

inductive Call where
  | insert (vKey : Bytes)
  | reset (nNewTweak : UInt32)

def call : CRollingBloomFilter → Call → CRollingBloomFilter
  | s, .insert vKey => s.insert murmurHash3 vKey
  | s, .reset nNewTweak => s.reset nNewTweak

end CRollingBloomFilter

end Zcashd.Source
