import Zcashd.Source.BlockFiles
import Zcashd.Source.CheckBlock
import Zcashd.Source.Wire

/-!
Reindexing: `LoadExternalBlockFile` (`src/main.cpp`), which reads the blocks of a file and passes
them to `ProcessNewBlock`, and the loop of `ThreadImport` (`src/init.cpp`) over the block files.
`ProcessNewBlock`, `AcceptBlock` and `AcceptBlockHeader` are modelled as far as they decide about
`mapBlockIndex`; what the checks and `ActivateBestChain` answer may depend on all of the node's
state and is a parameter.

A file is read by position. `CBufferedFile::eof`, which can only end the loop once everything has
been read, is left out: the search for the next header then fails, which ends it too.
-/
namespace Zcashd.Source.BlockImport

open Lib

/-- `pchMessageStart`. -/
def messageStart : Network → Bytes
  | .main => [0x24, 0xe9, 0x27, 0x64]
  | .testnet => [0xfa, 0x1a, 0xf9, 0xbf]
  | .regtest => [0xaa, 0xe8, 0x3f, 0x5f]

def MIN_BLOCK_VERSION : Int := 4

/-- What is read of a `CBlockIndex`: its height, `BLOCK_HAVE_DATA` and `BLOCK_FAILED_MASK`. -/
structure IndexedBlock where
  nHeight : Nat
  haveData : Bool
  failed : Bool
deriving DecidableEq, Repr

/-- The block index, and everything else the node's answers depend on. -/
structure Chainstate (W : Type) where
  mapBlockIndex : Uint256 → Option IndexedBlock
  world : W

/-- What `ActivateBestChain` does: it may mark blocks as failed, and it fails on system errors
only. -/
structure Activation (W : Type) where
  world : W
  marks : Uint256 → Bool
  ret : Bool
  isError : Bool

structure Node (W : Type) where
  network : Network
  hashGenesisBlock : Uint256
  /-- The activation height of Heartwood. -/
  heartwoodHeight : Option Nat
  unserialize : Decoder CBlock
  /-- The C++ and the Rust validator of `CheckEquihashSolution`. -/
  ehIsValidSolution : CBlock → Bool
  librustzcash_eh_isvalid : CBlock → Bool
  checkProofOfWork : CBlock → Bool
  /-- `CheckBlock` from the Merkle root on. -/
  checkBlockBody : CBlock → Bool
  /-- `ContextualCheckBlockHeader` after the Equihash solution. -/
  contextualCheckHeaderFields : Chainstate W → CBlock → IndexedBlock → Bool
  contextualCheckBlock : Chainstate W → CBlock → Bool
  /-- `FindBlockPos` and `ReceivedBlockTransactions` throw no `runtime_error`. -/
  receivedBlockTransactions : Chainstate W → CBlock → Bool
  activateBestChain : Chainstate W → CBlock → Activation W

/-- The result of a call, and the state after it. -/
structure Processed (W : Type) where
  ret : Bool
  isError : Bool
  chain : Chainstate W

/-- A call of `ProcessNewBlock`. -/
structure ProcessCall where
  block : CBlock
  ret : Bool
deriving DecidableEq, Repr

/-- Undefined behaviour, or a loop of the model that has used up its rounds. -/
inductive Fault where
  | nullBlockIndex
  | outOfRounds
deriving DecidableEq, Repr

structure Import (W : Type) where
  chain : Chainstate W
  /-- A multimap: equal keys in the order of their insertion. -/
  mapBlocksUnknownParent : List (Uint256 × CDiskBlockPos)
  /-- The calls of `ProcessNewBlock` so far. -/
  calls : List ProcessCall

namespace Chainstate

variable {W : Type}

def setEntry (hash : Uint256) (pindex : IndexedBlock) (s : Chainstate W) : Chainstate W :=
  { s with mapBlockIndex := Function.update s.mapBlockIndex hash (some pindex) }

/-- The new entry is already there when its parent is looked up. -/
def addToBlockIndex (block : CBlock) (s : Chainstate W) : Chainstate W :=
  let inserted := s.setEntry block.hash ⟨0, false, false⟩
  match inserted.mapBlockIndex block.hashPrevBlock with
  | none => inserted
  | some pprev => inserted.setEntry block.hash ⟨pprev.nHeight + 1, false, false⟩

/-- `nStatus` of an entry that exists. -/
def modifyEntry (hash : Uint256) (f : IndexedBlock → IndexedBlock) (s : Chainstate W) :
    Chainstate W :=
  match s.mapBlockIndex hash with
  | none => s
  | some pindex => s.setEntry hash (f pindex)

def activate (activation : Activation W) (s : Chainstate W) : Chainstate W where
  mapBlockIndex hash := (s.mapBlockIndex hash).map fun pindex =>
    { pindex with failed := pindex.failed || activation.marks hash }
  world := activation.world

end Chainstate

namespace Node

variable {W : Type} (node : Node W)

def networkUpgradeActive (nHeight : Nat) : Bool :=
  match node.heartwoodHeight with
  | none => false
  | some nActivationHeight => decide (nActivationHeight ≤ nHeight)

def checkEquihashSolution (block : CBlock) (nHeight : Nat) : Bool :=
  if node.networkUpgradeActive nHeight then node.librustzcash_eh_isvalid block
  else node.ehIsValidSolution block

def checkBlockHeader (block : CBlock) : Bool :=
  decide (MIN_BLOCK_VERSION ≤ block.nVersion) &&
    (block.getHash != node.hashGenesisBlock || node.checkEquihashSolution block 0) &&
    node.checkProofOfWork block

def checkBlock (block : CBlock) : Bool := node.checkBlockHeader block && node.checkBlockBody block

def contextualCheckBlockHeader (block : CBlock) (pindexPrev : IndexedBlock)
    (s : Chainstate W) : Bool :=
  node.checkEquihashSolution block (pindexPrev.nHeight + 1) && node.contextualCheckHeaderFields s
    block pindexPrev

/-- Without a result the header is refused. `ContextualCheckBlockHeader` accepts the genesis
block. -/
def acceptBlockHeader (block : CBlock) (s : Chainstate W) : Option (Chainstate W) :=
  match s.mapBlockIndex block.getHash with
  | some pindex => if pindex.failed then none else some s
  | none =>
    if !node.checkBlockHeader block then none
    else if block.getHash = node.hashGenesisBlock then some (s.addToBlockIndex block)
    else
      match s.mapBlockIndex block.hashPrevBlock with
      | none => none
      | some pindexPrev =>
        if pindexPrev.failed then none
        else if !node.contextualCheckBlockHeader block pindexPrev s then none
        else some (s.addToBlockIndex block)

def haveData (hash : Uint256) (s : Chainstate W) : Bool :=
  match s.mapBlockIndex hash with
  | none => false
  | some pindex => pindex.haveData

/-- The block is one that was asked for, and its position is known. The second call of `CheckBlock`
answers as the first one in `ProcessNewBlock` did. -/
def acceptBlock (block : CBlock) (s : Chainstate W) : Processed W :=
  match node.acceptBlockHeader block s with
  | none => ⟨false, false, s⟩
  | some s =>
    if haveData block.getHash s then ⟨true, false, s⟩
    else if !node.contextualCheckBlock s block then
      ⟨false, false, s.modifyEntry block.getHash fun pindex => { pindex with failed := true }⟩
    else if !node.receivedBlockTransactions s block then ⟨false, true, s⟩
    else ⟨true, false, s.modifyEntry block.getHash fun pindex => { pindex with haveData := true }⟩

def processNewBlock (block : CBlock) (s : Chainstate W) : Processed W :=
  if !node.checkBlock block then ⟨false, false, s⟩
  else
    let accepted := node.acceptBlock block s
    if !accepted.ret then accepted
    else
      let activation := node.activateBestChain accepted.chain block
      ⟨activation.ret, activation.isError, accepted.chain.activate activation⟩

/-- `ReadBlockFromDisk`, before the header is checked. -/
def readFromFile (disk : List Bytes) (pos : CDiskBlockPos) : Option CBlock :=
  match disk[pos.nFile]? with
  | none => none
  | some file => (node.unserialize (file.drop pos.nPos)).map Prod.fst

def readBlockFromDisk (disk : List Bytes) (pos : CDiskBlockPos) (nHeight : Nat) : Option CBlock :=
  match node.readFromFile disk pos with
  | none => none
  | some block =>
    if node.checkEquihashSolution block nHeight && node.checkProofOfWork block then some block
    else none

/-! Scanning a file -/

/-- `FindByte` from a position on. -/
def findByte (data : Bytes) (ch : UInt8) (nPos : Nat) : Option Nat :=
  ((data.drop nPos).findIdx? (· == ch)).map (nPos + ·)

inductive Scanned where
  | endOfFile
  /-- No block here: the search goes on from `nRewind`. -/
  | nothing (nRewind : Nat)
  | found (nBlockPos : Nat) (block : CBlock) (nRewind : Nat)

/-- One round of the loop up to `blkdat >> block`; reading stops at the limit. -/
def scan (data : Bytes) (nRewind : Nat) : Scanned :=
  match findByte data ((messageStart node.network).headD 0) nRewind with
  | none => .endOfFile
  | some nPos =>
    match Decoder.take 4 (data.drop nPos) with
    | none => .endOfFile
    | some (buf, rest) =>
      if buf ≠ messageStart node.network then .nothing (nPos + 1)
      else
        match Wire.readUInt32 rest with
        | none => .endOfFile
        | some (nSize, rest) =>
          if nSize.toNat < 80 ∨ nSize.toNat > MAX_BLOCK_SIZE then .nothing (nPos + 1)
          else
            let limited := rest.take nSize.toNat
            match node.unserialize limited with
            | none => .nothing (nPos + 1)
            | some (block, left) =>
              .found (nPos + 8) block (nPos + 8 + (limited.length - left.length))

/-! Passing blocks on -/

/-- Calls `ProcessNewBlock`. -/
def process (block : CBlock) (s : Import W) : Processed W × Import W :=
  let processed := node.processNewBlock block s.chain
  (processed,
    { s with
      chain := processed.chain
      calls := s.calls ++ [⟨block, processed.ret⟩] })

/-- One block of the range of `head`. `mapBlockIndex[head]` is null without an entry. The result has
what is put into the queue. -/
def releaseOne (disk : List Bytes) (head : Uint256) (pos : CDiskBlockPos) (s : Import W) :
    Except Fault (Import W × List Uint256) :=
  match s.chain.mapBlockIndex head with
  | none => .error .nullBlockIndex
  | some pindex =>
    match node.readBlockFromDisk disk pos pindex.nHeight with
    | none => .ok (s, [])
    | some block =>
      let called := node.process block s
      .ok (called.2, if called.1.ret then [block.getHash] else [])

def releaseRange (disk : List Bytes) (head : Uint256) :
    List CDiskBlockPos → Import W → Except Fault (Import W × List Uint256)
  | [], s => .ok (s, [])
  | pos :: range, s => do
    let first ← node.releaseOne disk head pos s
    let others ← releaseRange disk head range first.1
    .ok (others.1, first.2 ++ others.2)

/-- `equal_range`. -/
def waitingFor (head : Uint256) (waiting : List (Uint256 × CDiskBlockPos)) : List CDiskBlockPos :=
  (waiting.filter (·.1 == head)).map Prod.snd

/-- The loop over the queue. It takes a round for what the queue starts with and one for each
record that waits. -/
def releaseAll (disk : List Bytes) : Nat → List Uint256 → Import W → Except Fault (Import W)
  | _, [], s => .ok s
  | 0, _ :: _, _ => .error .outOfRounds
  | rounds + 1, head :: queue, s => do
    let released ← node.releaseRange disk head (waitingFor head s.mapBlocksUnknownParent) s
    releaseAll disk rounds (queue ++ released.2)
      { released.1 with
        mapBlocksUnknownParent := released.1.mapBlocksUnknownParent.filter (·.1 != head) }

/-- The parent of the block is not known. -/
def outOfOrder (block : CBlock) (s : Import W) : Bool :=
  block.getHash != node.hashGenesisBlock && (s.chain.mapBlockIndex block.hashPrevBlock).isNone

/-- A block that has been read, at a position if there is one. The flag says that the loop is
left. -/
def importBlock (disk : List Bytes) (dbp : Option CDiskBlockPos) (block : CBlock) (s : Import W) :
    Except Fault (Import W × Bool) :=
  if node.outOfOrder block s then
    match dbp with
    | none => .ok (s, false)
    | some pos =>
      .ok ({ s with
        mapBlocksUnknownParent := s.mapBlocksUnknownParent ++ [(block.hashPrevBlock, pos)] }, false)
  else if haveData block.getHash s.chain then do
    let s ← node.releaseAll disk (s.mapBlocksUnknownParent.length + 1) [block.getHash] s
    .ok (s, false)
  else
    let called := node.process block s
    if called.1.isError then .ok (called.2, true)
    else do
      let s ← node.releaseAll disk (s.mapBlocksUnknownParent.length + 1) [block.getHash] called.2
      .ok (s, false)

/-- The loop of `LoadExternalBlockFile`; `nRewind` grows in each round. -/
def loadBlocks (disk : List Bytes) (dbp : Option CDiskBlockPos) (data : Bytes) :
    Nat → Nat → Import W → Except Fault (Import W)
  | 0, _, _ => .error .outOfRounds
  | rounds + 1, nRewind, s =>
    match node.scan data nRewind with
    | .endOfFile => .ok s
    | .nothing nRewind => loadBlocks disk dbp data rounds nRewind s
    | .found nBlockPos block nRewind => do
      -- `nPos` has 32 bits
      let imported ← node.importBlock disk
          (dbp.map fun pos => { pos with nPos := nBlockPos % 2 ^ 32 }) block s
      if imported.2 then .ok imported.1 else loadBlocks disk dbp data rounds nRewind imported.1

/-- `nLoaded` counts the calls that return `true`. -/
def loadExternalBlockFile (disk : List Bytes) (fileIn : Bytes) (dbp : Option CDiskBlockPos)
    (s : Import W) :
    Except Fault (Bool × Import W) := do
  let loaded ← node.loadBlocks disk dbp fileIn (fileIn.length + 1) 0 s
  let nLoaded := (loaded.calls.drop s.calls.length).countP (·.ret)
  .ok (decide (nLoaded > 0), loaded)

/-- The loop of `ThreadImport`. -/
def reindexFrom (disk : List Bytes) : List Bytes → Nat → Import W → Except Fault (Import W)
  | [], _, s => .ok s
  | file :: files, nFile, s => do
    let loaded ← node.loadExternalBlockFile disk file (some ⟨nFile, 0⟩) s
    reindexFrom disk files (nFile + 1) loaded.2

/-- Reindexing starts without an index. -/
def start (world : W) : Import W := ⟨⟨fun _ => none, world⟩, [], []⟩

def reindex (disk : List Bytes) (world : W) : Except Fault (Import W) :=
  node.reindexFrom disk disk 0 (start world)

end Node

end Zcashd.Source.BlockImport
