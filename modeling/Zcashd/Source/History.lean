import Zcashd.Source.Serialize

/-!
The chain history tree of ZIP 221 as the coins code keeps it
(`src/zcash/History.{hpp,cpp}`, `src/coins.cpp:303-445`). The tree itself lives in
librustzcash: `append`, `delete` and `hash_node` are parameters here, what the
C++ code feeds them and does with the answers is modelled.

Positions are natural numbers, where the source has `uint32_t` in `PreloadHistoryTree` and
`uint64_t` elsewhere. A tree gets one leaf for each block, and heights are of type `int`, so there
are fewer than `2 ^ 31` leaves and fewer than `2 ^ 32 - 1` nodes. Up to there `altitude` and the
walk over the peaks are the same in words; at `2 ^ 32 - 1` nodes `floor_log2` would fail its
assertion.
-/
namespace Zcashd.Source

/-- Serialised node, `NODE_SERIALIZED_LENGTH` bytes. -/
abbrev HistoryNode := List UInt8

def NODE_SERIALIZED_LENGTH : Nat := 171

/-- `NewLeaf`: start and end of the range are the one block. The bytes after the data are not
written by the source; they are zero here. -/
def newLeaf (commitment : Uint256) (time target : Nat) (saplingRoot totalWork : Uint256)
    (height saplingTxCount : Nat) : HistoryNode :=
  let buf := writeUint256 commitment ++ writeData 4 time ++ writeData 4 time ++
    writeData 4 target ++ writeData 4 target ++ writeUint256 saplingRoot ++
    writeUint256 saplingRoot ++ writeUint256 totalWork ++
    writeCompactSize height ++ writeCompactSize height ++ writeCompactSize saplingTxCount
  buf ++ List.replicate (NODE_SERIALIZED_LENGTH - buf.length) 0

/-- `LeafToEntry` and `NodeToEntry`. -/
inductive HistoryEntry where
  | leaf (data : HistoryNode)
  | node (data : HistoryNode) (left right : Nat)
deriving DecidableEq, Repr

structure HistoryCache where
  /-- Updates to the persistent layer, by position. -/
  appends : AList (fun _ : Nat => HistoryNode)
  length : Nat
  /-- How far back into the old state the updates go. -/
  updateDepth : Nat
  root : Uint256

namespace HistoryCache

/-- The constructor used for an epoch not seen by this cache yet. -/
def ofBase (initialLength : Nat) (initialRoot : Uint256) : HistoryCache :=
  ⟨∅, initialLength, initialLength, initialRoot⟩

def extend (h : HistoryCache) (leaf : HistoryNode) : HistoryCache :=
  { h with appends := h.appends.insert h.length leaf, length := h.length + 1 }

/-- `for (idx = length; idx >= newLength; idx--) appends.erase(idx)`. -/
def eraseFrom (appends : AList (fun _ : Nat => HistoryNode)) (newLength : Nat) :
    Nat → AList (fun _ : Nat => HistoryNode)
  | 0 => appends
  | count + 1 => eraseFrom (appends.erase (newLength + count)) newLength count

def truncate (h : HistoryCache) (newLength : Nat) : HistoryCache :=
  { h with
    appends := if 0 < newLength then eraseFrom h.appends newLength (h.length + 1 - newLength) else ∅
    length := newLength
    updateDepth := min h.updateDepth newLength }

theorem lookup_eraseFrom (appends : AList (fun _ : Nat => HistoryNode)) (newLength count i : Nat) :
    (eraseFrom appends newLength count).lookup i =
      if newLength ≤ i ∧ i < newLength + count then none else appends.lookup i := by
  induction count generalizing appends with
  | zero => rw [eraseFrom, if_neg (by omega)]
  | succ count ih =>
    rw [eraseFrom, ih]
    by_cases last : i = newLength + count
    · subst last
      simp
    · rw [AList.lookup_erase_ne last]
      by_cases inside : newLength ≤ i ∧ i < newLength + count
      · rw [if_pos inside, if_pos ⟨inside.1, by omega⟩]
      · rw [if_neg inside, if_neg (by omega)]

end HistoryCache

/-- The librustzcash functions. They are handed the drafted entries with their positions.
`hashNode` answers `none` on a nonzero return code; `append` and `delete` return the new
root with the appended nodes, or with the number of deleted ones. -/
structure MMRLibrary where
  hashNode : Nat → HistoryNode → Option Uint256
  append : Nat → Nat → List (Nat × HistoryEntry) → HistoryNode → Uint256 × List HistoryNode
  delete : Nat → Nat → List (Nat × HistoryEntry) → Nat → Nat → Uint256 × Nat

/-- A stand-in for concrete runs: roots count the nodes, and only the second leaf brings an inner
node. -/
def MMRLibrary.counting : MMRLibrary where
  hashNode _ _ := some 1
  append _ length _ node :=
    if length = 1 then (3, [node, node]) else (BitVec.ofNat 256 (length + 1), [node])
  delete _ length _ _ _ := (BitVec.ofNat 256 (length - 1), 1)

/-- Altitude of the largest subtree of a tree with `n` nodes. -/
def altitude (n : Nat) : Nat := Nat.log2 (n + 1) - 1

/-- The variables of the peak collecting loop; `drafted` holds the altitude and the
position of the nodes drafted so far. -/
structure PeakWalk where
  alt : Nat
  peakPos : Nat
  lastPeakAlt : Nat
  lastPeakPos : Nat
  drafted : List (Nat × Nat)
deriving DecidableEq, Repr

namespace PeakWalk

/-- One round: go down to the left child outside the tree, take a peak inside it. -/
def round (treeLength : Nat) (w : PeakWalk) : PeakWalk :=
  let w := if treeLength ≤ w.peakPos then
      { w with peakPos := w.peakPos - 2 ^ w.alt, alt := w.alt - 1 }
    else w
  if w.peakPos < treeLength then
    { alt := w.alt
      peakPos := w.peakPos + 2 ^ (w.alt + 1) - 1
      lastPeakAlt := w.alt
      lastPeakPos := w.peakPos
      drafted := w.drafted ++ [(w.alt, w.peakPos)] }
  else w

/-- `while (alt != 0)`. -/
def loop (treeLength : Nat) : Nat → PeakWalk → PeakWalk
  | 0, w => w
  | fuel + 1, w => if w.alt = 0 then w else loop treeLength fuel (w.round treeLength)

/-- Rounds the loop may take: every round goes down one level or right inside the tree. -/
def measure (treeLength : Nat) (w : PeakWalk) : Nat :=
  w.alt * (treeLength + 1) + (treeLength - w.peakPos)

def start (treeLength : Nat) : PeakWalk :=
  ⟨altitude treeLength, 2 ^ (altitude treeLength + 1) - 2, 0, 0, []⟩

variable (treeLength : Nat)

/-- A round above the last level makes the measure smaller. -/
theorem round_measure_lt (w : PeakWalk) (above : w.alt ≠ 0) :
    (w.round treeLength).measure treeLength < w.measure treeLength := by
  obtain ⟨alt, peakPos, _⟩ := w
  obtain ⟨alt, rfl⟩ := Nat.exists_eq_succ_of_ne_zero above
  simp only [Nat.succ_eq_add_one, round, measure]
  by_cases outside : treeLength ≤ peakPos
  · simp only [outside, ↓reduceIte, Nat.add_sub_cancel]
    have level : (alt + 1) * (treeLength + 1) = alt * (treeLength + 1) + (treeLength + 1) :=
      Nat.succ_mul _ _
    split <;> simp only <;> omega
  · grind

/-- The fuel is enough: the loop stops because its condition fails. -/
theorem loop_ends (fuel : Nat) (w : PeakWalk)
    (enough : w.measure treeLength ≤ fuel) : (loop treeLength fuel w).alt = 0 := by
  induction fuel generalizing w with
  | zero =>
    rw [loop]
    by_contra above
    have := w.round_measure_lt treeLength above
    omega
  | succ fuel ih =>
    rw [loop]
    split
    · assumption
    · rename_i above
      have := w.round_measure_lt treeLength above
      exact ih _ (by omega)

end PeakWalk

/-- The extra pass over the right slope of the last peak, for deletion. -/
def rightSlope : Nat → Nat → List (Nat × Nat)
  | 0, _ => []
  | alt + 1, peakPos =>
    (alt, peakPos - 2 ^ (alt + 1)) :: (alt, peakPos - 1) :: rightSlope alt (peakPos - 1)

/-- `draftMMRNode`. `readAt` is `GetHistoryAt(epochId, _)`. -/
def draftMMRNode (readAt : Nat → Option HistoryNode) (place : Nat × Nat) :
    Option (Nat × HistoryEntry) :=
  (readAt place.2).map (fun nodeData =>
    (place.2, if place.1 = 0 then .leaf nodeData
      else .node nodeData (place.2 - 2 ^ place.1) (place.2 - 1)))

/-- `PreloadHistoryTree`: the number of peaks and the drafted entries; `none` is an
exception, of its own or of a read. -/
def preloadHistoryTree (treeLength : Nat) (readAt : Nat → Option HistoryNode) (extra : Bool) :
    Option (Nat × List (Nat × HistoryEntry)) :=
  if treeLength = 0 then none
  else if treeLength = 1 then (draftMMRNode readAt (0, 0)).map (fun entry => (1, [entry]))
  else
    let start := PeakWalk.start treeLength
    let w := PeakWalk.loop treeLength (start.measure treeLength) start
    let places := if extra then w.drafted ++ rightSlope w.lastPeakAlt w.lastPeakPos else w.drafted
    (places.mapM (draftMMRNode readAt)).map (fun entries => (w.drafted.length, entries))

end Zcashd.Source
