import Zcashd.Lib.Extents
import Zcashd.Source.Primitives

/-!
Where blocks and their undo data are kept on disk (`FindBlockPos`, `FindUndoPos`,
`PruneOneBlockFile`, `FindFilesToPrune` in `src/main.cpp`, `CBlockFileInfo` in `src/chain.h`), with
what `AcceptBlock` and `ConnectBlock` do with the positions. `unsigned int` and `uint64_t` are
numbers with the remainder taken where the source adds or subtracts.

Whether there is space on the disk is part of a step. The dirty sets, `fCheckForPruning`,
`mapBlocksUnlinked` and the files themselves are left out.
-/
namespace Zcashd.Source

open Lib Function

def MAX_BLOCKFILE_SIZE : Nat := 0x8000000
def BLOCKFILE_CHUNK_SIZE : Nat := 0x1000000
def UNDOFILE_CHUNK_SIZE : Nat := 0x100000
def MIN_BLOCKS_TO_KEEP : Nat := 288

inductive Network where
  | main
  | testnet
  | regtest
deriving DecidableEq, Repr

def Network.nPruneAfterHeight : Network → Nat
  | main => 100000
  | testnet => 1000
  | regtest => 1000

structure CBlockFileInfo where
  nBlocks : Nat
  nSize : Nat
  nUndoSize : Nat
  nHeightFirst : Nat
  nHeightLast : Nat
  nTimeFirst : Nat
  nTimeLast : Nat
deriving DecidableEq, Repr

namespace CBlockFileInfo

def null : CBlockFileInfo := ⟨0, 0, 0, 0, 0, 0, 0⟩

/-- Does not change `nSize`. -/
def addBlock (nHeightIn nTimeIn : Nat) (info : CBlockFileInfo) : CBlockFileInfo :=
  { info with
    nHeightFirst :=
      if info.nBlocks = 0 ∨ info.nHeightFirst > nHeightIn then nHeightIn else info.nHeightFirst
    nTimeFirst := if info.nBlocks = 0 ∨ info.nTimeFirst > nTimeIn then nTimeIn else info.nTimeFirst
    nBlocks := (info.nBlocks + 1) % 2 ^ 32
    nHeightLast := if nHeightIn > info.nHeightLast then nHeightIn else info.nHeightLast
    nTimeLast := if nTimeIn > info.nTimeLast then nTimeIn else info.nTimeLast }

/-- `nSize + nUndoSize`, which the source computes in 32 bits. -/
def bytes (info : CBlockFileInfo) : Nat := (info.nSize + info.nUndoSize) % 2 ^ 32

end CBlockFileInfo

structure CDiskBlockPos where
  nFile : Nat
  nPos : Nat
deriving DecidableEq, Repr

/-- What a `CBlockIndex` says about the disk. -/
structure StoredBlock where
  nHeight : Nat
  nFile : Nat
  nDataPos : Nat
  nUndoPos : Nat
  haveData : Bool
  haveUndo : Bool
  /-- The ranges that were handed out for the block and its undo data. -/
  dataExtent : Option Extent
  undoExtent : Option Extent
deriving DecidableEq, Repr

/-- What `PruneOneBlockFile` leaves of it. -/
def StoredBlock.prune (block : StoredBlock) : StoredBlock :=
  { block with
    haveData := false, haveUndo := false, nFile := 0, nDataPos := 0, nUndoPos := 0
    dataExtent := none, undoExtent := none }

structure BlockFiles where
  /-- Entries from `nFiles` on, where the vector ends, are null, as `resize` makes them. -/
  vinfoBlockFile : Nat → CBlockFileInfo
  nFiles : Nat
  nLastBlockFile : Nat
  mapBlockIndex : Uint256 → Option StoredBlock

namespace BlockFiles

def new : BlockFiles := ⟨fun _ => .null, 0, 0, fun _ => none⟩

def setInfo (nFile : Nat) (info : CBlockFileInfo) (s : BlockFiles) : BlockFiles :=
  { s with
    vinfoBlockFile := update s.vinfoBlockFile nFile info, nFiles := max s.nFiles (nFile + 1) }

def setBlock (hash : Uint256) (block : StoredBlock) (s : BlockFiles) : BlockFiles :=
  { s with mapBlockIndex := update s.mapBlockIndex hash (some block) }

section

variable {s : BlockFiles} {nFile : Nat} {info : CBlockFileInfo} {hash : Uint256}
  {block : StoredBlock}

@[simp] theorem setInfo_same : (s.setInfo nFile info).vinfoBlockFile nFile = info := update_self ..

theorem setInfo_of_ne {other : Nat} (apart : other ≠ nFile) :
    (s.setInfo nFile info).vinfoBlockFile other = s.vinfoBlockFile other := update_of_ne apart ..

@[simp] theorem setBlock_same : (s.setBlock hash block).mapBlockIndex hash = some block :=
  update_self ..

theorem setBlock_of_ne {other : Uint256} (apart : other ≠ hash) :
    (s.setBlock hash block).mapBlockIndex other = s.mapBlockIndex other := update_of_ne apart ..

end

/-! Positions -/

/-- The loop of `FindBlockPos`. All files after the last one are empty: when a block does not fit
into one of them the loop does not end. -/
def findFile (nAddSize : Nat) (s : BlockFiles) : Nat → Nat → Option Nat
  | 0, nFile =>
    if ((s.vinfoBlockFile nFile).nSize + nAddSize) % 2 ^ 32 ≥ MAX_BLOCKFILE_SIZE then
      none else some nFile
  | filesLeft + 1, nFile =>
    if ((s.vinfoBlockFile nFile).nSize + nAddSize) % 2 ^ 32 ≥ MAX_BLOCKFILE_SIZE then
      s.findFile nAddSize filesLeft (nFile + 1)
    else some nFile

/-- The file a block goes to. -/
def fileFor (nAddSize : Nat) (s : BlockFiles) : Option Nat :=
  s.findFile nAddSize (s.nFiles - s.nLastBlockFile) s.nLastBlockFile

/-- Another chunk has to be allocated for a file that grows from `nPos` to `nNewSize`. -/
def needsChunk (chunkSize nPos nNewSize : Nat) : Bool :=
  (nNewSize + chunkSize - 1) % 2 ^ 32 / chunkSize > (nPos + chunkSize - 1) % 2 ^ 32 / chunkSize

/-- `FindBlockPos` without a known position; without enough space on the disk there is none. -/
def findBlockPos (nAddSize nHeight nTime : Nat) (space : Bool) (s : BlockFiles) :
    Option (Option CDiskBlockPos × BlockFiles) :=
  (s.fileFor nAddSize).map fun nFile =>
    let nPos := (s.vinfoBlockFile nFile).nSize
    let info := (s.vinfoBlockFile nFile).addBlock nHeight nTime
    let info := { info with nSize := (info.nSize + nAddSize) % 2 ^ 32 }
    let s := { s.setInfo nFile info with nLastBlockFile := nFile }
    if needsChunk BLOCKFILE_CHUNK_SIZE nPos info.nSize && !space then (none, s)
    else (some ⟨nFile, nPos⟩, s)

/-- `FindBlockPos` with `fKnown`. -/
def findKnownPos (pos : CDiskBlockPos) (nAddSize nHeight nTime : Nat) (s : BlockFiles) :
    BlockFiles :=
  let info := (s.vinfoBlockFile pos.nFile).addBlock nHeight nTime
  let info := { info with nSize := max ((pos.nPos + nAddSize) % 2 ^ 32) info.nSize }
  { s.setInfo pos.nFile info with nLastBlockFile := pos.nFile }

def findUndoPos (nFile nAddSize : Nat) (space : Bool) (s : BlockFiles) :
    Option CDiskBlockPos × BlockFiles :=
  let info := s.vinfoBlockFile nFile
  let nPos := info.nUndoSize
  let info := { info with nUndoSize := (info.nUndoSize + nAddSize) % 2 ^ 32 }
  let s := s.setInfo nFile info
  if needsChunk UNDOFILE_CHUNK_SIZE nPos info.nUndoSize && !space then (none, s)
  else (some ⟨nFile, nPos⟩, s)

/-! Blocks -/

/-- `AddToBlockIndex` -/
def acceptHeader (hash : Uint256) (nHeight : Nat) (s : BlockFiles) : Option BlockFiles :=
  match s.mapBlockIndex hash with
  | some _ => none
  | none => some (s.setBlock hash ⟨nHeight, 0, 0, 0, false, false, none, none⟩)

/-- `AcceptBlock` from `FindBlockPos` on. `WriteBlockToDisk` moves the position behind the header
it writes, and `ReceivedBlockTransactions` stores it. -/
def acceptBlock (hash : Uint256) (nBlockSize nTime : Nat) (space : Bool) (s : BlockFiles) :
    Option BlockFiles :=
  match s.mapBlockIndex hash with
  | some block =>
    if block.haveData then none
    else (s.findBlockPos (nBlockSize + 8) block.nHeight nTime space).map fun (pos, s) =>
      match pos with
      | none => s
      | some pos => s.setBlock hash { block with
          nFile := pos.nFile, nDataPos := pos.nPos + 8, nUndoPos := 0, haveData := true
          dataExtent := some ⟨pos.nFile, pos.nPos, nBlockSize + 8⟩ }
  | none => none

/-- `AcceptBlock` for a block that is in a file already. -/
def acceptKnown (hash : Uint256) (pos : CDiskBlockPos) (nBlockSize nTime : Nat) (s : BlockFiles) :
    Option BlockFiles :=
  match s.mapBlockIndex hash with
  | some block =>
    if block.haveData then none
    else some ((s.findKnownPos pos (nBlockSize + 8) block.nHeight nTime).setBlock hash { block with
      nFile := pos.nFile, nDataPos := pos.nPos, nUndoPos := 0, haveData := true })
  | none => none

/-- The part of `ConnectBlock` that writes undo data. -/
def writeUndo (hash : Uint256) (nUndoSize : Nat) (space : Bool) (s : BlockFiles) :
    Option BlockFiles :=
  match s.mapBlockIndex hash with
  | some block =>
    if block.haveData && !block.haveUndo then
      let (pos, s) := s.findUndoPos block.nFile (nUndoSize + 40) space
      match pos with
      | none => some s
      | some pos => some (s.setBlock hash { block with
          nUndoPos := pos.nPos + 8, haveUndo := true,
          undoExtent := some ⟨pos.nFile, pos.nPos, nUndoSize + 40⟩ })
    else none
  | none => none

/-! Pruning -/

def calculateCurrentUsage (s : BlockFiles) : Nat :=
  (List.range s.nFiles).foldl
    (fun retval nFile => (retval + (s.vinfoBlockFile nFile).bytes) % 2 ^ 64) 0

def pruneOneBlockFile (fileNumber : Nat) (s : BlockFiles) : BlockFiles :=
  { s with
    mapBlockIndex := fun hash => (s.mapBlockIndex hash).map fun block =>
      if block.nFile = fileNumber then block.prune else block
    vinfoBlockFile := update s.vinfoBlockFile fileNumber .null }

/-- The variables of `FindFilesToPrune`. -/
structure Pruning where
  files : BlockFiles
  nCurrentUsage : Nat
  setFilesToPrune : List Nat

def nBuffer : Nat := BLOCKFILE_CHUNK_SIZE + UNDOFILE_CHUNK_SIZE

def Pruning.belowTarget (nPruneTarget : Nat) (p : Pruning) : Bool :=
  (p.nCurrentUsage + nBuffer) % 2 ^ 64 < nPruneTarget

/-- The loop over the files. -/
def pruneLoop (nPruneTarget nLastBlockWeCanPrune : Nat) : List Nat → Pruning → Pruning
  | [], p => p
  | fileNumber :: rest, p =>
    let info := p.files.vinfoBlockFile fileNumber
    if info.nSize = 0 then pruneLoop nPruneTarget nLastBlockWeCanPrune rest p
    else if p.belowTarget nPruneTarget then p
    else if info.nHeightLast > nLastBlockWeCanPrune then
      pruneLoop nPruneTarget nLastBlockWeCanPrune rest p
    else pruneLoop nPruneTarget nLastBlockWeCanPrune rest
      { files := p.files.pruneOneBlockFile fileNumber
        nCurrentUsage := (p.nCurrentUsage + (2 ^ 64 - info.bytes)) % 2 ^ 64
        setFilesToPrune := p.setFilesToPrune ++ [fileNumber] }

/-- `FindFilesToPrune`; `tip` is the height of the active chain. -/
def findFilesToPrune (network : Network) (tip : Option Nat) (nPruneTarget : Nat)
    (s : BlockFiles) : Pruning :=
  let unchanged : Pruning := ⟨s, s.calculateCurrentUsage, []⟩
  match tip with
  | none => unchanged
  | some nHeight =>
    if nPruneTarget = 0 then unchanged
    else if nHeight ≤ network.nPruneAfterHeight then unchanged
    else if unchanged.belowTarget nPruneTarget then unchanged
    else pruneLoop nPruneTarget ((nHeight + (2 ^ 32 - MIN_BLOCKS_TO_KEEP)) % 2 ^ 32)
      (List.range s.nLastBlockFile) unchanged

/-! Steps -/

inductive Action where
  | acceptHeader (hash : Uint256) (nHeight : Nat)
  | acceptBlock (hash : Uint256) (nBlockSize nTime : Nat) (space : Bool)
  | acceptKnown (hash : Uint256) (pos : CDiskBlockPos) (nBlockSize nTime : Nat)
  | writeUndo (hash : Uint256) (nUndoSize : Nat) (space : Bool)
  | prune (tip : Option Nat) (nPruneTarget : Nat)

def step (network : Network) (s : BlockFiles) : Action → Option BlockFiles
  | .acceptHeader hash nHeight => s.acceptHeader hash nHeight
  | .acceptBlock hash nBlockSize nTime space => s.acceptBlock hash nBlockSize nTime space
  | .acceptKnown hash pos nBlockSize nTime => s.acceptKnown hash pos nBlockSize nTime
  | .writeUndo hash nUndoSize space => s.writeUndo hash nUndoSize space
  | .prune tip nPruneTarget => some (s.findFilesToPrune network tip nPruneTarget).files

end BlockFiles

end Zcashd.Source
