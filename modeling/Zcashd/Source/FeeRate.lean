import Zcashd.Source.View

/-!
Fee rates (`src/amount.cpp`), and the heap from which `CreateNewBlock` (`src/miner.cpp`) takes
transactions, with what the standard says of `std::pop_heap`: no element is ordered behind the
first.
-/
namespace Zcashd.Source

/-- `CFeeRate(nFeePaid, nSize)`. As `nSize` is a `size_t`, the product is divided as a
`uint64_t`. -/
def nSatoshisPerK (nFeePaid : Int) (nSize : Nat) : Int :=
  if nSize > 0 then wrapInt64 (wrapInt64 (nFeePaid * 1000) % 2 ^ 64 / nSize) else 0

/-- An entry of `vecPriority`, with what its fee rate is made of. `P` has the values of a
`double`. -/
structure TxPriority (P : Type) where
  dPriority : P
  nFee : Int
  nTxSize : Nat

variable {P : Type} [LinearOrder P]

def TxPriority.feeRate (tx : TxPriority P) : Int := nSatoshisPerK tx.nFee tx.nTxSize

def txPriorityCompare (byFee : Bool) (a b : TxPriority P) : Bool :=
  if byFee then if a.feeRate = b.feeRate then a.dPriority < b.dPriority else a.feeRate < b.feeRate
  else if a.dPriority = b.dPriority then a.feeRate < b.feeRate
  else a.dPriority < b.dPriority

/-- Rounds of the loop while `fSortedByFee`: what is taken, and what is left. Transactions that
waited for the one taken are pushed if it gets into the block. -/
inductive FeeSorted : List (TxPriority P) → List (TxPriority P × List (TxPriority P)) → Prop
  | stop (vecPriority) : FeeSorted vecPriority []
  | take {vecPriority front rest taken} (pushed : List (TxPriority P))
      (popped : vecPriority.Perm (front :: rest))
      (first : ∀ other ∈ rest, txPriorityCompare true front other = false)
      (later : FeeSorted (pushed ++ rest) taken) : FeeSorted vecPriority ((front, rest) :: taken)

end Zcashd.Source
