import Zcashd.Lib.Runs
import Zcashd.Abstract.FilePositions
import Zcashd.Source.CheckBlock

/-!
# Block files and pruning

`nUndoSize`, and the sum `nSize + nUndoSize` in the pruning code, are 32-bit numbers, and nothing
limits the undo data of the blocks in one file. As long as the numbers do not exceed 32 bits, the
ranges handed out are apart, pruning spares the blocks near the tip, and its arithmetic is exact.
Nine blocks with inputs that spend large outputs are enough for the undo data to overflow.
-/
namespace Zcashd.Guarantees.BlockStorage

open Lib Source Source.BlockFiles

theorem block_files_kept (network : Network) (s : BlockFiles)
    (reached : Reached (step network) Fits new s) :
    (∀ hash other a b, hash ≠ other → s.dataExtents hash = some a → s.dataExtents other = some b →
      a.Apart b) ∧
    (∀ hash other a b, hash ≠ other → s.undoExtents hash = some a → s.undoExtents other = some b →
      a.Apart b) ∧
    (∀ nHeight < 2 ^ 31, ∀ nPruneTarget,
      (∀ nFile ∈ (s.findFilesToPrune network (some nHeight) nPruneTarget).setFilesToPrune,
        ∀ hash block, s.mapBlockIndex hash = some block →
        block.haveData = true → block.nFile = nFile →
        block.nHeight + MIN_BLOCKS_TO_KEEP ≤ nHeight) ∧
      (∀ hash block, s.mapBlockIndex hash = some block →
        nHeight < block.nHeight + MIN_BLOCKS_TO_KEEP →
        (s.findFilesToPrune network (some nHeight) nPruneTarget).files.mapBlockIndex hash =
          some block) ∧
      (nPruneTarget ≠ 0 → network.nPruneAfterHeight < nHeight →
        (s.findFilesToPrune network (some nHeight) nPruneTarget).files.usage + nBuffer <
          nPruneTarget ∨
        ∀ nFile < s.nLastBlockFile,
          ((s.findFilesToPrune network (some nHeight) nPruneTarget).files.vinfoBlockFile
            nFile).nSize = 0 ∨
          nHeight < ((s.findFilesToPrune network (some nHeight) nPruneTarget).files.vinfoBlockFile
            nFile).nHeightLast + MIN_BLOCKS_TO_KEEP)) ∧
    (∀ nFile, (s.vinfoBlockFile nFile).bytes =
      (s.vinfoBlockFile nFile).nSize + (s.vinfoBlockFile nFile).nUndoSize) ∧
    (∀ nPruneTarget last k,
      Exact (pruneLoop nPruneTarget last (List.range k) ⟨s, s.calculateCurrentUsage, []⟩)) := by
  have kept : Kept s :=
    reached.invariant kept_new fun _ _ _ kept fits stepped => kept.step fits stepped
  refine ⟨kept.data.apart, kept.undo.apart, ?_, kept.bytes, ?_⟩
  · intro nHeight int nPruneTarget
    have pruned := findFilesToPrune_spec kept network int nPruneTarget
    exact ⟨pruned.chosen, pruned.spared, pruned.enough⟩
  · intro nPruneTarget last k
    exact (pruneLoop_spec nPruneTarget last (List.range k) kept.exact).exact

/-- A block at height 1 in the first file, with undo data, and one at height 2000 in the second. -/
def twoFiles : List Action :=
  [.acceptHeader 1 1, .acceptBlock 1 2000 0 true, .writeUndo 1 100 true, .acceptHeader 2 2000,
    .acceptKnown 2 ⟨1, 8⟩ 2000 0]

theorem block_files_kept_twoFiles : ∃ s, runAll (step .regtest) Fits twoFiles new = some s ∧
      (s.findFilesToPrune .regtest (some 2000) 1).setFilesToPrune = [0] ∧
      s.calculateCurrentUsage = s.usage ∧
      ∃ block, s.mapBlockIndex 2 = some block ∧ block.haveData = true ∧
        (s.findFilesToPrune .regtest (some 2000) 1).files.mapBlockIndex 2 = some block := by
  have ran : (runAll (step .regtest) Fits twoFiles new).isSome ∧
      ∀ s ∈ runAll (step .regtest) Fits twoFiles new,
        (s.findFilesToPrune .regtest (some 2000) 1).setFilesToPrune = [0] ∧
        s.mapBlockIndex 2 = some ⟨2000, 1, 8, 0, true, false, none, none⟩ := by
    decide +kernel
  obtain ⟨s, found⟩ := Option.isSome_iff_exists.mp ran.1
  obtain ⟨chosen, stored⟩ := ran.2 s found
  obtain ⟨_, _, pruned, _, exact⟩ := block_files_kept .regtest s (Reached.start.runAll found)
  obtain ⟨_, spared, _⟩ := pruned 2000 (by decide) 1
  exact ⟨s, found, chosen, (exact 1 0 0).usage, _, stored, rfl, spared 2 _ stored (by decide)⟩

/-- Ten blocks of the greatest size, each with 480 MB of undo data. -/
def tenBlocks : List Action :=
  (List.range 10).flatMap fun i => [.acceptHeader (BitVec.ofNat 256 i) i,
    .acceptBlock (BitVec.ofNat 256 i) MAX_BLOCK_SIZE 0 true,
      .writeUndo (BitVec.ofNat 256 i) 480000000 true]

/-- The undo data of the tenth block is given a place inside that of the first one, and the files
are thought to take far less space than they do. -/
theorem undo_ranges_overlap :
    ∃ s a b, tenBlocks.foldlM (step .regtest) new = some s ∧ s.undoExtents 0 = some a ∧
      s.undoExtents 9 = some b ∧ ¬ a.Apart b ∧ s.calculateCurrentUsage < 10 * 480000000 := by
  have ran : (tenBlocks.foldlM (step .regtest) new).isSome ∧
      ∀ s ∈ tenBlocks.foldlM (step .regtest) new, s.undoExtents 0 = some ⟨0, 0, 480000040⟩ ∧
        s.undoExtents 9 = some ⟨0, 25033064, 480000040⟩ ∧ s.calculateCurrentUsage = 525033184 := by
    decide +kernel
  obtain ⟨s, found⟩ := Option.isSome_iff_exists.mp ran.1
  obtain ⟨first, tenth, usage⟩ := ran.2 s found
  refine ⟨s, _, _, found, first, tenth, by decide, ?_⟩
  rw [usage]
  decide

end Zcashd.Guarantees.BlockStorage
