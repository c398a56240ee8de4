import Mathlib

/-!
The skip pointers of the block index (`src/chain.cpp`). A pointer is the entry it leads to, and
heights are not negative. Of `CBlockIndex` the fields are here that `GetAncestor` and `BuildSkip`
use.
-/
namespace Zcashd.Source.SkipPointers

/-- Turn the lowest '1' bit in the binary representation of a number into a '0'. -/
def invertLowestOne (n : Nat) : Nat := n &&& (n - 1)

/-- The height to jump back to with `pskip`. -/
def getSkipHeight (height : Nat) : Nat :=
  if height < 2 then 0
  else if height % 2 = 1 then invertLowestOne (invertLowestOne (height - 1)) + 1
  else invertLowestOne height

structure CBlockIndex where
  nHeight : Nat
  pprev : Option CBlockIndex
  pskip : Option CBlockIndex

/-- The test for `pskip` in the loop of `GetAncestor`. -/
def takesSkip (height heightWalk : Nat) : Bool :=
  let heightSkip := getSkipHeight heightWalk
  let heightSkipPrev := getSkipHeight (heightWalk - 1)
  heightSkip = height ∨ heightSkip > height ∧
    ¬(heightSkipPrev + 2 < heightSkip ∧ heightSkipPrev ≥ height)

namespace CBlockIndex

/-- One round of that loop; `none` is the failed assertion. -/
def follow (height heightWalk : Nat) (pindexWalk : CBlockIndex) : Option (CBlockIndex × Nat) :=
  if pindexWalk.pskip.isSome ∧ takesSkip height heightWalk then
    pindexWalk.pskip.map fun pskip => (pskip, getSkipHeight heightWalk)
  else pindexWalk.pprev.map fun pprev => (pprev, heightWalk - 1)

/-- The loop, with the number of pointers followed. Each round lowers `heightWalk`. -/
def walk (height : Nat) : Nat → CBlockIndex → Nat → Option (CBlockIndex × Nat)
  | 0, pindexWalk, _ => some (pindexWalk, 0)
  | fuel + 1, pindexWalk, heightWalk =>
    if heightWalk > height then do
      let (pindexNext, heightNext) ← pindexWalk.follow height heightWalk
      let (pindex, steps) ← walk height fuel pindexNext heightNext
      some (pindex, steps + 1)
    else some (pindexWalk, 0)

/-- `GetAncestor`, with the number of pointers it follows. -/
def getAncestor (pindex : CBlockIndex) (height : Int) : Option (CBlockIndex × Nat) :=
  if height > pindex.nHeight ∨ height < 0 then none
  else walk height.toNat pindex.nHeight pindex pindex.nHeight

def buildSkip (pindex : CBlockIndex) : CBlockIndex :=
  match pindex.pprev with
  | some pprev =>
    { pindex with pskip := (pprev.getAncestor (getSkipHeight pindex.nHeight)).map Prod.fst }
  | none => pindex

end CBlockIndex

end Zcashd.Source.SkipPointers
