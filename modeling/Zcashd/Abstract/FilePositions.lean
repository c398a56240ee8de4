import Zcashd.Source.BlockFiles

/-!
What the files hold. `Kept` ties the per-file records to the blocks: the ranges handed out lie
apart in files of the recorded sizes, no block is higher than its file says, and the sizes are
those that 32 bits can count.
-/
namespace Zcashd.Source.BlockFiles

open Lib Function Option Nat CBlockFileInfo Finset

/-- The bytes of all files. -/
def usage (s : BlockFiles) : Nat :=
  ∑ nFile ∈ Finset.range s.nFiles,
    ((s.vinfoBlockFile nFile).nSize + (s.vinfoBlockFile nFile).nUndoSize)

def dataExtents (s : BlockFiles) (hash : Uint256) : Option Extent :=
  (s.mapBlockIndex hash).bind StoredBlock.dataExtent
def undoExtents (s : BlockFiles) (hash : Uint256) : Option Extent :=
  (s.mapBlockIndex hash).bind StoredBlock.undoExtent

/-- Blocks are smaller than files, and the sizes of a file and of its undo file together, and the
numbers of files, do not exceed what 32 bits can hold. -/
def Fits (s : BlockFiles) : Action → Prop
  | .acceptBlock _ nBlockSize _ _ => nBlockSize + 8 < MAX_BLOCKFILE_SIZE ∧
      ∀ nFile ∈ s.fileFor (nBlockSize + 8), nFile < 2 ^ 31 ∧
        (s.vinfoBlockFile nFile).nSize + (s.vinfoBlockFile nFile).nUndoSize +
          (nBlockSize + 8) < 2 ^ 32
  | .acceptKnown _ pos nBlockSize _ => pos.nFile < 2 ^ 31 ∧
      max (pos.nPos + (nBlockSize + 8)) (s.vinfoBlockFile pos.nFile).nSize +
        (s.vinfoBlockFile pos.nFile).nUndoSize < 2 ^ 32
  | .writeUndo hash nUndoSize _ => ∀ block ∈ s.mapBlockIndex hash,
      (s.vinfoBlockFile block.nFile).nSize + (s.vinfoBlockFile block.nFile).nUndoSize +
        (nUndoSize + 40) < 2 ^ 32
  | _ => True

instance (s : BlockFiles) (action : Action) : Decidable (s.Fits action) := by
  cases action <;> dsimp only [Fits] <;> infer_instance

/-- What is known of a block and the file it is in. -/
structure KeptBlock (vinfoBlockFile : Nat → CBlockFileInfo) (nFiles : Nat)
    (block : StoredBlock) : Prop where
  bare : block.haveData = false → block.prune = block
  height : block.haveData = true → block.nHeight ≤ (vinfoBlockFile block.nFile).nHeightLast
  inFile : block.haveData = true → block.nFile < nFiles
  dataFile : ∀ e ∈ block.dataExtent, e.file = block.nFile
  undoFile : ∀ e ∈ block.undoExtent, e.file = block.nFile

structure Kept (s : BlockFiles) : Prop where
  beyond : ∀ nFile, s.nFiles ≤ nFile → s.vinfoBlockFile nFile = .null
  few : s.nFiles ≤ 2 ^ 31
  small : ∀ nFile, (s.vinfoBlockFile nFile).nSize + (s.vinfoBlockFile nFile).nUndoSize < 2 ^ 32
  blocks : ∀ hash, ∀ block ∈ s.mapBlockIndex hash, KeptBlock s.vinfoBlockFile s.nFiles block
  data : Packed s.dataExtents (fun nFile => (s.vinfoBlockFile nFile).nSize)
  undo : Packed s.undoExtents (fun nFile => (s.vinfoBlockFile nFile).nUndoSize)

theorem kept_new : Kept new where
  beyond _ _ := rfl
  few := zero_le _
  small _ := show (0 : Nat) < 2 ^ 32 by decide
  blocks := nofun
  data := ⟨nofun, nofun⟩
  undo := ⟨nofun, nofun⟩

variable {s : BlockFiles} {nFile : Nat} {info : CBlockFileInfo} {hash : Uint256}
  {block : StoredBlock}

/-! Writing -/

/-- The record of a file does not forget. -/
structure Grows (old info : CBlockFileInfo) : Prop where
  nSize : old.nSize ≤ info.nSize
  nUndoSize : old.nUndoSize ≤ info.nUndoSize
  nHeightLast : old.nHeightLast ≤ info.nHeightLast

theorem Grows.setInfo (grows : Grows (s.vinfoBlockFile nFile) info) (other : Nat) :
    Grows (s.vinfoBlockFile other) ((s.setInfo nFile info).vinfoBlockFile other) := by
  by_cases here : other = nFile
  · rwa [here, setInfo_same]
  · rw [setInfo_of_ne here]
    constructor <;> rfl

theorem KeptBlock.setInfo (kept : KeptBlock s.vinfoBlockFile s.nFiles block)
    (grows : Grows (s.vinfoBlockFile nFile) info) :
    KeptBlock (s.setInfo nFile info).vinfoBlockFile (s.setInfo nFile info).nFiles block where
  bare := kept.bare
  height has := le_trans (kept.height has) (grows.setInfo block.nFile).nHeightLast
  inFile has := lt_of_lt_of_le (kept.inFile has) (le_max_left ..)
  dataFile := kept.dataFile
  undoFile := kept.undoFile

theorem extents_setBlock {extent : StoredBlock → Option Extent} :
    (fun other => ((s.setBlock hash block).mapBlockIndex other).bind extent) =
      update (fun other => (s.mapBlockIndex other).bind extent) hash (extent block) := by
  funext other
  by_cases here : other = hash
  · rw [here, setBlock_same, update_self]
    rfl
  · rw [setBlock_of_ne here, update_of_ne here]

theorem Kept.small_setInfo (kept : Kept s) (small : info.nSize + info.nUndoSize < 2 ^ 32)
    (other : Nat) :
    ((s.setInfo nFile info).vinfoBlockFile other).nSize +
      ((s.setInfo nFile info).vinfoBlockFile other).nUndoSize < 2 ^ 32 := by
  by_cases here : other = nFile
  · rw [here, setInfo_same]
    exact small
  · rw [setInfo_of_ne here]
    exact kept.small other

/-- A block is stored with the extents it then has. -/
theorem Kept.setBlock (kept : Kept s) (held : KeptBlock s.vinfoBlockFile s.nFiles block)
    (data : Packed (update s.dataExtents hash block.dataExtent)
      (fun nFile => (s.vinfoBlockFile nFile).nSize))
    (undo : Packed (update s.undoExtents hash block.undoExtent)
      (fun nFile => (s.vinfoBlockFile nFile).nUndoSize)) :
    Kept (s.setBlock hash block) := by
  have dataSame : (s.setBlock hash block).dataExtents =
      update s.dataExtents hash block.dataExtent := extents_setBlock
  have undoSame : (s.setBlock hash block).undoExtents =
      update s.undoExtents hash block.undoExtent := extents_setBlock
  refine ⟨kept.beyond, kept.few, kept.small, ?_, dataSame ▸ data, undoSame ▸ undo⟩
  intro other hit mem
  by_cases here : other = hash
  · cases setBlock_same.symm.trans (here ▸ mem)
    exact held
  · exact kept.blocks other hit ((setBlock_of_ne here).symm.trans mem)

theorem Kept.grow (kept : Kept s) (few : nFile < 2 ^ 31)
    (grows : Grows (s.vinfoBlockFile nFile) info) (small : info.nSize + info.nUndoSize < 2 ^ 32)
    (nLastBlockFile : Nat) :
    Kept { s.setInfo nFile info with nLastBlockFile := nLastBlockFile } := by
  refine ⟨?_, Nat.max_le.mpr ⟨kept.few, few⟩, kept.small_setInfo small, ?_, ?_, ?_⟩
  · intro other beyond
    obtain ⟨files, here⟩ := Nat.max_le.mp beyond
    exact (setInfo_of_ne (Nat.ne_of_gt here)).trans (kept.beyond other files)
  · intro other hit mem
    exact (kept.blocks other hit mem).setInfo grows
  · exact kept.data.keep (fun _ _ has => has) (fun _ e _ => (grows.setInfo e.file).nSize)
  · exact kept.undo.keep (fun _ _ has => has) (fun _ e _ => (grows.setInfo e.file).nUndoSize)

/-- A block without data has no extents. -/
theorem KeptBlock.no_extents {vinfoBlockFile : Nat → CBlockFileInfo} {nFiles : Nat}
    (kept : KeptBlock vinfoBlockFile nFiles block) (bare : block.haveData = false) :
    block.dataExtent = none ∧ block.undoExtent = none :=
  ⟨(congrArg StoredBlock.dataExtent (kept.bare bare)).symm,
    (congrArg StoredBlock.undoExtent (kept.bare bare)).symm⟩

theorem grows_addBlock (info : CBlockFileInfo) (nHeight nTime : Nat) {nSize : Nat}
    (larger : info.nSize ≤ nSize) :
    Grows info { info.addBlock nHeight nTime with nSize := nSize } ∧
      nHeight ≤ (info.addBlock nHeight nTime).nHeightLast := by
  constructor
  · constructor <;> grind [addBlock]
  · grind [addBlock]

/-- What is known of a block that has got its place. -/
theorem keptBlock_placed (here : block.nFile = nFile) (held : block.haveData = true)
    (height : block.nHeight ≤ info.nHeightLast) (dataFile : ∀ e ∈ block.dataExtent, e.file = nFile)
    (undoFile : ∀ e ∈ block.undoExtent, e.file = nFile) :
    KeptBlock (s.setInfo nFile info).vinfoBlockFile (s.setInfo nFile info).nFiles block := by
  subst here
  refine ⟨fun bare => (nomatch bare.symm.trans held), ?_, ?_, dataFile, undoFile⟩
  · intro _
    rwa [setInfo_same]
  · intro _
    exact lt_of_succ_le (le_max_right ..)

theorem update_dataExtents (hit : s.mapBlockIndex hash = some block) :
    update s.dataExtents hash block.dataExtent = s.dataExtents := by
  simp [dataExtents, hit]

theorem update_undoExtents (hit : s.mapBlockIndex hash = some block) :
    update s.undoExtents hash block.undoExtent = s.undoExtents := by
  simp [undoExtents, hit]

variable {nAddSize : Nat} {nTime : Nat}

section

variable (kept : Kept s) (hit : s.mapBlockIndex hash = some block)
include kept hit

/-- A block gets a place at the end of a file. -/
theorem Kept.place (bare : block.haveData = false) (few : nFile < 2 ^ 31)
    (small : (s.vinfoBlockFile nFile).nSize + (s.vinfoBlockFile nFile).nUndoSize +
      nAddSize < 2 ^ 32) :
    Kept ({ s.setInfo nFile { (s.vinfoBlockFile nFile).addBlock block.nHeight nTime with
        nSize := (s.vinfoBlockFile nFile).nSize + nAddSize } with
        nLastBlockFile := nFile }.setBlock hash { block with
      nFile := nFile, nDataPos := (s.vinfoBlockFile nFile).nSize + 8, nUndoPos := 0
      haveData := true
      dataExtent := some ⟨nFile, (s.vinfoBlockFile nFile).nSize, nAddSize⟩ }) := by
  obtain ⟨_, noUndo⟩ := (kept.blocks hash block hit).no_extents bare
  obtain ⟨grows, highest⟩ := grows_addBlock (s.vinfoBlockFile nFile) block.nHeight nTime
    (le_add_right (s.vinfoBlockFile nFile).nSize nAddSize)
  have grown := kept.grow few grows (by dsimp only [addBlock]; omega) nFile
  refine grown.setBlock (keptBlock_placed rfl rfl highest (by simp) (by simp [noUndo])) ?_ ?_
  · apply kept.data.append hash rfl
    · dsimp only
      rw [setInfo_same]
    · intro _ apart
      rw [setInfo_of_ne apart]
  · exact (update_undoExtents hit).symm ▸ grown.undo

/-- A block is at a known place in a file. -/
theorem Kept.known (bare : block.haveData = false) {nPos nDataPos : Nat} (few : nFile < 2 ^ 31)
    (small : max nPos (s.vinfoBlockFile nFile).nSize +
      (s.vinfoBlockFile nFile).nUndoSize < 2 ^ 32) :
    Kept ({ s.setInfo nFile { (s.vinfoBlockFile nFile).addBlock block.nHeight nTime with
        nSize := max nPos (s.vinfoBlockFile nFile).nSize } with
        nLastBlockFile := nFile }.setBlock hash { block with
      nFile := nFile, nDataPos := nDataPos, nUndoPos := 0, haveData := true }) := by
  obtain ⟨noData, noUndo⟩ := (kept.blocks hash block hit).no_extents bare
  obtain ⟨grows, highest⟩ := grows_addBlock (s.vinfoBlockFile nFile) block.nHeight nTime
    (le_max_right nPos (s.vinfoBlockFile nFile).nSize)
  have grown := kept.grow few grows small nFile
  refine grown.setBlock
    (keptBlock_placed rfl rfl highest (by simp [noData]) (by simp [noUndo])) ?_ ?_
  · exact (update_dataExtents hit).symm ▸ grown.data
  · exact (update_undoExtents hit).symm ▸ grown.undo

/-- Undo data gets a place at the end of the undo file. -/
theorem Kept.placeUndo (held : block.haveData = true)
    (small : (s.vinfoBlockFile block.nFile).nSize + (s.vinfoBlockFile block.nFile).nUndoSize +
      nAddSize < 2 ^ 32) :
    Kept ((s.setInfo block.nFile { s.vinfoBlockFile block.nFile with
        nUndoSize := (s.vinfoBlockFile block.nFile).nUndoSize + nAddSize }).setBlock hash
          { block with
      nUndoPos := (s.vinfoBlockFile block.nFile).nUndoSize + 8, haveUndo := true
      undoExtent := some ⟨block.nFile, (s.vinfoBlockFile block.nFile).nUndoSize, nAddSize⟩ }) := by
  have old := kept.blocks hash block hit
  have few : block.nFile < 2 ^ 31 := lt_of_lt_of_le (old.inFile held) kept.few
  have grows : Grows (s.vinfoBlockFile block.nFile) { s.vinfoBlockFile block.nFile with
      nUndoSize := (s.vinfoBlockFile block.nFile).nUndoSize + nAddSize } :=
    ⟨Nat.le_refl _, Nat.le_add_right .., Nat.le_refl _⟩
  have grown := kept.grow few grows (by dsimp only; omega) s.nLastBlockFile
  refine grown.setBlock ?_ ?_ ?_
  · have after := old.setInfo grows
    refine ⟨?_, after.height, after.inFile, after.dataFile, ?_⟩
    · intro none
      rw [show block.haveData = false from none] at held
      cases held
    · rintro e ⟨⟩
      rfl
  · exact (update_dataExtents hit).symm ▸ grown.data
  · apply kept.undo.append hash rfl
    · dsimp only
      rw [setInfo_same]
    · intro _ apart
      rw [setInfo_of_ne apart]

end

/-! Pruning -/

variable {fileNumber : Nat}

theorem pruned_info_same : (s.pruneOneBlockFile fileNumber).vinfoBlockFile fileNumber = .null :=
  update_self ..

theorem pruned_info_of_ne (apart : nFile ≠ fileNumber) :
    (s.pruneOneBlockFile fileNumber).vinfoBlockFile nFile = s.vinfoBlockFile nFile :=
  update_of_ne apart ..

/-- A block after pruning was in the file and has lost its data, or is as it was. -/
theorem pruned_cases (hit : (s.pruneOneBlockFile fileNumber).mapBlockIndex hash = some block) :
    ∃ old, s.mapBlockIndex hash = some old ∧
      (old.nFile = fileNumber ∧ block = old.prune ∨ old.nFile ≠ fileNumber ∧ block = old) := by
  obtain ⟨_, _⟩ := map_eq_some_iff.mp hit
  grind

theorem pruned_of_ne (hit : s.mapBlockIndex hash = some block) (apart : block.nFile ≠ fileNumber) :
    (s.pruneOneBlockFile fileNumber).mapBlockIndex hash = some block := by
  simp [BlockFiles.pruneOneBlockFile, hit, apart]

theorem Kept.pruneOneBlockFile (kept : Kept s) (fileNumber : Nat) :
    Kept (s.pruneOneBlockFile fileNumber) := by
  -- An extent that is left is in another file.
  have left : ∀ (extent : StoredBlock → Option Extent),
      (∀ hash, ∀ block ∈ s.mapBlockIndex hash, ∀ e ∈ extent block, e.file = block.nFile) →
      (∀ block : StoredBlock, extent block.prune = none) → ∀ hash e,
      ((s.pruneOneBlockFile fileNumber).mapBlockIndex hash).bind extent = some e →
      (s.mapBlockIndex hash).bind extent = some e ∧ e.file ≠ fileNumber := by
    intro _ inFile pruned hash e has
    obtain ⟨block, hit, has⟩ := bind_eq_some_iff.mp has
    obtain ⟨_, held, ⟨_, rfl⟩ | ⟨apart, rfl⟩⟩ := pruned_cases hit
    · rw [pruned] at has
      cases has
    · rw [held]
      exact ⟨has, fun same => apart ((inFile hash block held e has).symm.trans same)⟩
  refine ⟨?_, kept.few, ?_, ?_, ?_, ?_⟩
  · intro nFile beyond
    by_cases here : nFile = fileNumber
    · rw [here, pruned_info_same]
    · rw [pruned_info_of_ne here]
      exact kept.beyond nFile beyond
  · intro nFile
    by_cases here : nFile = fileNumber
    · rw [here, pruned_info_same]
      decide
    · rw [pruned_info_of_ne here]
      exact kept.small nFile
  · intro hash block hit
    obtain ⟨_, held, ⟨_, rfl⟩ | ⟨apart, rfl⟩⟩ := pruned_cases hit
    · exact ⟨fun _ => rfl, nofun, nofun, nofun, nofun⟩
    · have same := kept.blocks hash block held
      refine ⟨same.bare, ?_, same.inFile, same.dataFile, same.undoFile⟩
      rw [pruned_info_of_ne apart]
      exact same.height
  · have dataLeft :=
      left StoredBlock.dataExtent (fun hash block hit => (kept.blocks hash block hit).dataFile)
      (fun _ => rfl)
    refine kept.data.keep (fun hash e has => (dataLeft hash e has).1) ?_
    intro hash e has
    rw [pruned_info_of_ne (dataLeft hash e has).2]
  · have undoLeft :=
      left StoredBlock.undoExtent (fun hash block hit => (kept.blocks hash block hit).undoFile)
      (fun _ => rfl)
    refine kept.undo.keep (fun hash e has => (undoLeft hash e has).1) ?_
    intro hash e has
    rw [pruned_info_of_ne (undoLeft hash e has).2]

theorem usage_pruned (inside : fileNumber < s.nFiles) :
    (s.pruneOneBlockFile fileNumber).usage +
      ((s.vinfoBlockFile fileNumber).nSize + (s.vinfoBlockFile fileNumber).nUndoSize) =
    s.usage := by
  have mem := mem_range.mpr inside
  have others : ∑ nFile ∈ (range s.nFiles).erase fileNumber,
      (((s.pruneOneBlockFile fileNumber).vinfoBlockFile nFile).nSize +
        ((s.pruneOneBlockFile fileNumber).vinfoBlockFile nFile).nUndoSize) =
      ∑ nFile ∈ (range s.nFiles).erase fileNumber,
        ((s.vinfoBlockFile nFile).nSize + (s.vinfoBlockFile nFile).nUndoSize) := by
    apply sum_congr rfl
    intro _ other
    rw [pruned_info_of_ne (ne_of_mem_erase other)]
  unfold usage
  change ∑ nFile ∈ range s.nFiles, _ + _ = _
  rw [← sum_erase_add _ _ mem, others, ← sum_erase_add (range s.nFiles) _ mem,
    pruned_info_same]
  rfl

theorem Kept.usage_lt (kept : Kept s) : s.usage + nBuffer < 2 ^ 64 := by
  have bound : s.usage ≤ s.nFiles * 2 ^ 32 := by
    have each := sum_le_card_nsmul (range s.nFiles) _ (2 ^ 32)
      (fun nFile _ => (kept.small nFile).le)
    rwa [card_range] at each
  have few := mul_le_mul_right (2 ^ 32) kept.few
  unfold nBuffer BLOCKFILE_CHUNK_SIZE UNDOFILE_CHUNK_SIZE
  omega

theorem Kept.bytes (kept : Kept s) (nFile : Nat) :
    (s.vinfoBlockFile nFile).bytes =
      (s.vinfoBlockFile nFile).nSize + (s.vinfoBlockFile nFile).nUndoSize :=
  mod_eq_of_lt (kept.small nFile)

theorem Kept.calculateCurrentUsage (kept : Kept s) : s.calculateCurrentUsage = s.usage := by
  have sums : ∀ k ≤ s.nFiles,
      (List.range k).foldl
        (fun retval nFile => (retval + (s.vinfoBlockFile nFile).bytes) % 2 ^ 64) 0 =
        ∑ nFile ∈ range k,
          ((s.vinfoBlockFile nFile).nSize + (s.vinfoBlockFile nFile).nUndoSize) := by
    intro k
    induction k with
    | zero =>
      intro _
      rfl
    | succ k ih =>
      intro within
      have below : ∑ nFile ∈ range (k + 1),
          ((s.vinfoBlockFile nFile).nSize + (s.vinfoBlockFile nFile).nUndoSize) < 2 ^ 64 := by
        refine lt_of_le_of_lt ?_ (lt_of_le_of_lt (le_add_right _ nBuffer) kept.usage_lt)
        exact sum_le_sum_of_subset (range_mono within)
      rw [List.range_succ, List.foldl_append, ih (le_of_succ_le within), List.foldl_cons,
        List.foldl_nil, kept.bytes, ← sum_range_succ, mod_eq_of_lt below]
  exact sums s.nFiles (le_refl _)

/-- `nCurrentUsage` is what the files take. -/
structure Exact (p : Pruning) : Prop where
  kept : Kept p.files
  usage : p.nCurrentUsage = p.files.usage

theorem Exact.belowTarget_iff {p : Pruning} (exact : Exact p) {nPruneTarget : Nat} :
    p.belowTarget nPruneTarget = true ↔ p.files.usage + nBuffer < nPruneTarget := by
  unfold Pruning.belowTarget
  rw [exact.usage, mod_eq_of_lt exact.kept.usage_lt, decide_eq_true_iff]

theorem Exact.prune {p : Pruning} (exact : Exact p)
    (ne : (p.files.vinfoBlockFile fileNumber).nSize ≠ 0) :
    Exact ⟨p.files.pruneOneBlockFile fileNumber,
      (p.nCurrentUsage + (2 ^ 64 - (p.files.vinfoBlockFile fileNumber).bytes)) % 2 ^ 64,
      p.setFilesToPrune ++ [fileNumber]⟩ := by
  have inside : fileNumber < p.files.nFiles := by
    by_contra beyond
    rw [exact.kept.beyond fileNumber (Nat.le_of_not_lt beyond)] at ne
    exact ne rfl
  refine ⟨exact.kept.pruneOneBlockFile fileNumber, ?_⟩
  have freed := usage_pruned inside
  have below := exact.kept.usage_lt
  dsimp only
  rw [exact.usage, exact.kept.bytes]
  omega

/-- What the loop does to the files it looks at. -/
structure Pruned (nPruneTarget nLastBlockWeCanPrune : Nat) (files : List Nat)
    (p p' : Pruning) : Prop where
  exact : Exact p'
  infos : ∀ nFile, p'.files.vinfoBlockFile nFile = p.files.vinfoBlockFile nFile ∨
    p'.files.vinfoBlockFile nFile = .null
  spared : ∀ hash block, p.files.mapBlockIndex hash = some block →
    nLastBlockWeCanPrune < block.nHeight → p'.files.mapBlockIndex hash = some block
  chosen : ∀ nFile ∈ p'.setFilesToPrune, nFile ∈ p.setFilesToPrune ∨
    ∀ hash block, p.files.mapBlockIndex hash = some block → block.haveData = true →
      block.nFile = nFile → block.nHeight ≤ nLastBlockWeCanPrune
  enough : p'.belowTarget nPruneTarget = true ∨ ∀ nFile ∈ files,
    (p'.files.vinfoBlockFile nFile).nSize = 0 ∨
      nLastBlockWeCanPrune < (p'.files.vinfoBlockFile nFile).nHeightLast

variable {nPruneTarget nLastBlockWeCanPrune : Nat} {files : List Nat} {p p' : Pruning}

theorem Pruned.skip (pruned : Pruned nPruneTarget nLastBlockWeCanPrune files p p')
    (kept : (p.files.vinfoBlockFile fileNumber).nSize = 0 ∨
      nLastBlockWeCanPrune < (p.files.vinfoBlockFile fileNumber).nHeightLast) :
    Pruned nPruneTarget nLastBlockWeCanPrune (fileNumber :: files) p p' := by
  refine ⟨pruned.exact, pruned.infos, pruned.spared, pruned.chosen, pruned.enough.imp_right ?_⟩
  intro _ _ _
  grind [pruned.infos, null]

theorem Pruned.prune {nCurrentUsage : Nat} (exact : Exact p)
    (low : (p.files.vinfoBlockFile fileNumber).nHeightLast ≤ nLastBlockWeCanPrune)
    (pruned : Pruned nPruneTarget nLastBlockWeCanPrune files
      ⟨p.files.pruneOneBlockFile fileNumber, nCurrentUsage, p.setFilesToPrune ++ [fileNumber]⟩ p') :
    Pruned nPruneTarget nLastBlockWeCanPrune (fileNumber :: files) p p' := by
  have inFile : ∀ hash block, p.files.mapBlockIndex hash = some block → block.haveData = true →
      block.nFile = fileNumber → block.nHeight ≤ nLastBlockWeCanPrune := by
    intro hash block hit held here
    exact le_trans (here ▸ (exact.kept.blocks hash block hit).height held) low
  refine ⟨pruned.exact, ?_, ?_, ?_, pruned.enough.imp_right ?_⟩
  · intro nFile
    grind [pruned.infos, pruned_info_same, pruned_info_of_ne]
  · intro hash block hit high
    apply pruned.spared hash block _ high
    by_cases here : block.nFile = fileNumber
    · have bare : block.haveData = false := by
        by_contra held
        exact absurd (inFile hash block hit (Bool.eq_true_of_not_eq_false held) here)
          (Nat.not_le_of_lt high)
      change ((p.files.mapBlockIndex hash).map fun block =>
        if block.nFile = fileNumber then block.prune else block) = some block
      rw [hit, map_some, if_pos here, (exact.kept.blocks hash block hit).bare bare]
    · exact pruned_of_ne hit here
  · intro nFile mem
    rcases pruned.chosen nFile mem with _ | later
    · grind [update_apply]
    · refine Or.inr ?_
      intro hash block hit held here
      by_cases same : block.nFile = fileNumber
      · exact inFile hash block hit held same
      · exact later hash block (pruned_of_ne hit same) held here
  · grind [pruned.infos, pruned_info_same, null]

theorem pruneLoop_spec (nPruneTarget nLastBlockWeCanPrune : Nat) (files : List Nat)
    (exact : Exact p) :
    Pruned nPruneTarget nLastBlockWeCanPrune files p
      (pruneLoop nPruneTarget nLastBlockWeCanPrune files p) := by
  induction files generalizing p with
  | nil =>
    exact ⟨exact, fun _ => Or.inl rfl, fun _ _ hit _ => hit, fun _ mem => Or.inl mem,
      Or.inr nofun⟩
  | cons _ _ ih =>
    unfold pruneLoop
    dsimp only
    split
    case isTrue empty => exact (ih exact).skip (Or.inl empty)
    case isFalse ne =>
      split
      case isTrue below =>
        exact ⟨exact, fun _ => Or.inl rfl, fun _ _ hit _ => hit,
          fun _ mem => Or.inl mem, Or.inl below⟩
      case isFalse =>
        split
        case isTrue high => exact (ih exact).skip (Or.inr high)
        case isFalse low => exact (ih (exact.prune ne)).prune exact (Nat.le_of_not_lt low)

theorem Kept.exact (kept : Kept s) : Exact ⟨s, s.calculateCurrentUsage, []⟩ :=
  ⟨kept, kept.calculateCurrentUsage⟩

variable {nHeight : Nat} {network : Network}

/-- `nLastBlockWeCanPrune` does not wrap around, since pruning begins at a greater height. -/
theorem lastBlock_eq (high : network.nPruneAfterHeight < nHeight)
    (int : nHeight < 2 ^ 31) :
    (nHeight + (2 ^ 32 - MIN_BLOCKS_TO_KEEP)) % 2 ^ 32 = nHeight - MIN_BLOCKS_TO_KEEP ∧
      MIN_BLOCKS_TO_KEEP ≤ nHeight := by
  have enough : 1000 ≤ nHeight := by
    cases network <;> simp only [Network.nPruneAfterHeight] at high <;> omega
  unfold MIN_BLOCKS_TO_KEEP
  omega

/-- What `FindFilesToPrune` does when the active chain has the given height. -/
structure PrunedAt (network : Network) (nHeight nPruneTarget : Nat) (s : BlockFiles)
    (p : Pruning) : Prop where
  exact : Exact p
  spared : ∀ hash block, s.mapBlockIndex hash = some block →
    nHeight < block.nHeight + MIN_BLOCKS_TO_KEEP → p.files.mapBlockIndex hash = some block
  chosen : ∀ nFile ∈ p.setFilesToPrune, ∀ hash block, s.mapBlockIndex hash = some block →
    block.haveData = true → block.nFile = nFile → block.nHeight + MIN_BLOCKS_TO_KEEP ≤ nHeight
  enough : nPruneTarget ≠ 0 → network.nPruneAfterHeight < nHeight →
    p.files.usage + nBuffer < nPruneTarget ∨ ∀ nFile < s.nLastBlockFile,
      (p.files.vinfoBlockFile nFile).nSize = 0 ∨
        nHeight < (p.files.vinfoBlockFile nFile).nHeightLast + MIN_BLOCKS_TO_KEEP

theorem findFilesToPrune_spec (kept : Kept s) (network : Network) (int : nHeight < 2 ^ 31)
    (nPruneTarget : Nat) :
    PrunedAt network nHeight nPruneTarget s
      (s.findFilesToPrune network (some nHeight) nPruneTarget) := by
  have unchanged : (nPruneTarget ≠ 0 → network.nPruneAfterHeight < nHeight →
      (⟨s, s.calculateCurrentUsage, []⟩ : Pruning).belowTarget nPruneTarget = true) →
      PrunedAt network nHeight nPruneTarget s ⟨s, s.calculateCurrentUsage, []⟩ := by
    intro below
    refine ⟨kept.exact, fun _ _ hit _ => hit, nofun, ?_⟩
    intro target high
    exact Or.inl ((kept.exact.belowTarget_iff).mp (below target high))
  unfold BlockFiles.findFilesToPrune
  dsimp only
  split
  case isTrue none => exact unchanged (fun target => absurd none target)
  case isFalse =>
    split
    case isTrue low => exact unchanged (fun _ high => absurd low (Nat.not_le_of_lt high))
    case isFalse high =>
      split
      case isTrue below => exact unchanged (fun _ _ => below)
      case isFalse =>
        obtain ⟨last, _⟩ := lastBlock_eq (Nat.lt_of_not_le high) int
        rw [last]
        have pruned :=
          pruneLoop_spec nPruneTarget (nHeight - MIN_BLOCKS_TO_KEEP) (List.range s.nLastBlockFile)
          kept.exact
        refine ⟨pruned.exact, ?_, ?_, ?_⟩
        · grind [pruned.spared]
        · intro nFile mem _ _ _ _ _
          grind [pruned.chosen nFile mem]
        · intro _ _
          refine pruned.enough.imp (pruned.exact.belowTarget_iff).mp ?_
          grind

/-! Steps -/

variable {s' : BlockFiles}

theorem Kept.acceptHeader (kept : Kept s) (accepted : s.acceptHeader hash nHeight = some s') :
    Kept s' := by
  unfold BlockFiles.acceptHeader at accepted
  split at accepted
  case h_1 => cases accepted
  case h_2 =>
    cases accepted
    have fewer :
        ∀ (extents : Uint256 → Option Extent) other e, update extents hash none other = some e →
        extents other = some e := by
      intro extents other e has
      by_cases here : other = hash
      · rw [here, update_self] at has
        cases has
      · rwa [update_of_ne here] at has
    refine kept.setBlock ⟨fun _ => rfl, nofun, nofun, nofun, nofun⟩ ?_ ?_
    · exact kept.data.keep (fewer _) (fun _ _ _ => le_refl _)
    · exact kept.undo.keep (fewer _) (fun _ _ _ => le_refl _)

variable {space : Bool} {pos : Option CDiskBlockPos}

/-- With the size it should have, the file's record grows; without space on the disk there is
still no position. -/
theorem findBlockPos_cases (hit : s.findBlockPos nAddSize nHeight nTime space = some (pos, s'))
    (small : ∀ nFile ∈ s.fileFor nAddSize, (s.vinfoBlockFile nFile).nSize + nAddSize < 2 ^ 32) :
    ∃ nFile ∈ s.fileFor nAddSize,
      (pos = none ∨ pos = some ⟨nFile, (s.vinfoBlockFile nFile).nSize⟩) ∧
      s' = { s.setInfo nFile { (s.vinfoBlockFile nFile).addBlock nHeight nTime with
        nSize := (s.vinfoBlockFile nFile).nSize + nAddSize } with nLastBlockFile := nFile } := by
  obtain ⟨nFile, chosen, hit⟩ := map_eq_some_iff.mp hit
  have exact : (((s.vinfoBlockFile nFile).addBlock nHeight nTime).nSize + nAddSize) % 2 ^ 32 =
      (s.vinfoBlockFile nFile).nSize + nAddSize := mod_eq_of_lt (small nFile chosen)
  refine ⟨nFile, chosen, ?_⟩
  dsimp only at hit
  rw [exact] at hit
  split at hit
  · cases hit
    exact ⟨Or.inl rfl, rfl⟩
  · cases hit
    exact ⟨Or.inr rfl, rfl⟩

variable {nBlockSize : Nat}

theorem Kept.acceptBlock (kept : Kept s) (fits : s.Fits (.acceptBlock hash nBlockSize nTime space))
    (accepted : s.acceptBlock hash nBlockSize nTime space = some s') : Kept s' := by
  unfold BlockFiles.acceptBlock at accepted
  split at accepted
  case h_2 => cases accepted
  case h_1 block hit =>
    split at accepted
    · cases accepted
    · rename_i bare
      rw [Bool.not_eq_true] at bare
      obtain ⟨⟨_, _⟩, placed, accepted⟩ := map_eq_some_iff.mp accepted
      obtain ⟨nFile, chosen, place, rfl⟩ := findBlockPos_cases placed (fun nFile chosen => by
        have small := (fits.2 nFile chosen).2
        omega)
      obtain ⟨few, small⟩ := fits.2 nFile chosen
      rcases place with rfl | rfl
      · cases accepted
        have grows := (grows_addBlock (s.vinfoBlockFile nFile) block.nHeight nTime
          (le_add_right (s.vinfoBlockFile nFile).nSize (nBlockSize + 8))).1
        exact kept.grow few grows (by dsimp only [addBlock]; omega) nFile
      · cases accepted
        exact kept.place hit bare few small

theorem Kept.acceptKnown (kept : Kept s) {pos : CDiskBlockPos}
    (fits : s.Fits (.acceptKnown hash pos nBlockSize nTime))
    (accepted : s.acceptKnown hash pos nBlockSize nTime = some s') : Kept s' := by
  unfold BlockFiles.acceptKnown at accepted
  split at accepted
  case h_2 => cases accepted
  case h_1 block hit =>
    split at accepted
    · cases accepted
    · rename_i bare
      rw [Bool.not_eq_true] at bare
      obtain ⟨few, small⟩ := fits
      have exact : (pos.nPos + (nBlockSize + 8)) % 2 ^ 32 = pos.nPos + (nBlockSize + 8) :=
        mod_eq_of_lt (by omega)
      unfold findKnownPos at accepted
      rw [exact] at accepted
      cases accepted
      exact kept.known hit bare few small

theorem findUndoPos_cases
    (hit : s.findUndoPos nFile nAddSize space = (pos, s'))
    (small : (s.vinfoBlockFile nFile).nUndoSize + nAddSize < 2 ^ 32) :
    (pos = none ∨ pos = some ⟨nFile, (s.vinfoBlockFile nFile).nUndoSize⟩) ∧
      s' = s.setInfo nFile { s.vinfoBlockFile nFile with
        nUndoSize := (s.vinfoBlockFile nFile).nUndoSize + nAddSize } := by
  unfold findUndoPos at hit
  dsimp only at hit
  rw [mod_eq_of_lt small] at hit
  split at hit
  · cases hit
    exact ⟨Or.inl rfl, rfl⟩
  · cases hit
    exact ⟨Or.inr rfl, rfl⟩

theorem Kept.writeUndo (kept : Kept s) {nUndoSize : Nat}
    (fits : s.Fits (.writeUndo hash nUndoSize space))
    (out : s.writeUndo hash nUndoSize space = some s') :
    Kept s' := by
  unfold BlockFiles.writeUndo at out
  split at out
  case h_2 => cases out
  case h_1 block hit =>
    split at out
    case isFalse => cases out
    case isTrue held =>
      rw [Bool.and_eq_true] at held
      have small := fits block hit
      obtain ⟨⟨_, _⟩, placed⟩ :
          ∃ result, s.findUndoPos block.nFile (nUndoSize + 40) space = result := ⟨_, rfl⟩
      obtain ⟨place, rfl⟩ := findUndoPos_cases placed (by omega)
      rw [placed] at out
      rcases place with rfl | rfl
      · cases out
        have few : block.nFile < 2 ^ 31 :=
          lt_of_lt_of_le ((kept.blocks hash block hit).inFile held.1) kept.few
        have grows : Grows (s.vinfoBlockFile block.nFile) { s.vinfoBlockFile block.nFile with
            nUndoSize := (s.vinfoBlockFile block.nFile).nUndoSize + (nUndoSize + 40) } :=
          ⟨Nat.le_refl _, Nat.le_add_right .., Nat.le_refl _⟩
        exact kept.grow few grows (by dsimp only; omega) s.nLastBlockFile
      · cases out
        exact kept.placeUndo hit held.1 small

theorem Kept.findFilesToPrune (kept : Kept s) (network : Network) (tip : Option Nat)
    (nPruneTarget : Nat) :
    Kept (s.findFilesToPrune network tip nPruneTarget).files := by
  unfold BlockFiles.findFilesToPrune
  dsimp only
  split
  · exact kept
  · split
    · exact kept
    · split
      · exact kept
      · split
        · exact kept
        · exact (pruneLoop_spec nPruneTarget _ _ kept.exact).exact.kept

theorem Kept.step (kept : Kept s) {action : Action} (fits : s.Fits action)
    (stepped : s.step network action = some s') : Kept s' := by
  cases action with
  | acceptHeader _ _ => exact kept.acceptHeader stepped
  | acceptBlock _ _ _ _ => exact kept.acceptBlock fits stepped
  | acceptKnown _ _ _ _ => exact kept.acceptKnown fits stepped
  | writeUndo _ _ _ => exact kept.writeUndo fits stepped
  | prune tip nPruneTarget =>
    cases stepped
    exact kept.findFilesToPrune network tip nPruneTarget

end Zcashd.Source.BlockFiles
