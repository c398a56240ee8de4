import Zcashd.Abstract.ImportRun

/-!
# Reindexing in any storage order

The block files hold records in any order, with repetitions. When no block waits twice for its
parent, reindexing accepts the blocks that hang on the genesis block by blocks `ProcessNewBlock`
accepts, each once and after its parent, if and only if no child of a block waits that
`ProcessNewBlock` refuses without an entry in the index: the height of that block is read through a
null pointer.
-/
namespace Zcashd.Guarantees.Reindexing

open Lib Source Source.BlockImport Abstract.Reindex List BlockFile

variable {W : Type} {node : Node W}

/-- The block files. A position in a file has 32 bits. -/
structure StoredFiles (node : Node W) (serialize : CBlock → Bytes)
    (files : List BlockFile) : Prop where
  wellFormed : ∀ file ∈ files, ∀ block ∈ file.blocks, WellFormed node serialize block
  short : ∀ file ∈ files, (file.bytes node.network serialize).length < 2 ^ 32
  identify : HashesIdentify (files.flatMap blocks)

/-- A stored block that `good` accepts, as it does all its ancestors, which are stored too. -/
inductive Rooted (node : Node W) (stored : List CBlock) (good : CBlock → Prop) : CBlock → Prop
  | genesis {block : CBlock} (isGenesis : block.hash = node.hashGenesisBlock)
    (member : block ∈ stored) (isGood : good block) : Rooted node stored good block
  | child {parent block : CBlock} (rooted : Rooted node stored good parent)
      (link : block.hashPrevBlock = parent.hash)
      (member : block ∈ stored) (isGood : good block) : Rooted node stored good block

structure Reindexed (node : Node W) (stored : List CBlock) (s : Import W) : Prop where
  onlyStored : ∀ call ∈ s.calls, call.block ∈ stored
  /-- Once its parent has been accepted a block is passed to `ProcessNewBlock`, unless the same
  header has been accepted or has no valid solution and work. -/
  passed : ∀ block ∈ stored,
    (block.hash = node.hashGenesisBlock ∨ Accepted s.calls block.hashPrevBlock) →
    (∃ call ∈ s.calls, call.block = block) ∨ Accepted s.calls block.hash ∨
      validWork node block = false
  once : ∀ hash, Accepted s.calls hash → successes s.calls hash = 1
  afterParents : AfterParents node s.calls
  /-- If the answers are those of `good`, what is accepted depends on it and on what is stored
  only. -/
  verdicts : ∀ good : CBlock → Prop, (∀ call ∈ s.calls, call.ret = true ↔ good call.block) →
    (∀ block ∈ stored, good block → validWork node block = true) →
    ∀ hash, Accepted s.calls hash ↔ ∃ block, Rooted node stored good block ∧ block.hash = hash

section

variable {stored : List CBlock} {s : Import W}

/-- Blocks that are accepted after their parents hang on the genesis block. -/
theorem rooted_of_call {good : CBlock → Prop} {calls : List ProcessCall}
    (afterParents : AfterParents node calls) (onlyStored : ∀ call ∈ calls, call.block ∈ stored)
    (answers : ∀ call ∈ calls, call.ret = true ↔ good call.block) :
    ∀ n old call after, calls = old ++ call :: after → old.length < n → call.ret = true →
      Rooted node stored good call.block := by
  intro n
  induction n with
  | zero => intro _ _ _ _ bound; omega
  | succ n ih =>
    intro old call after split bound ret
    have called : call ∈ calls := by rw [split]; simp
    have isGood := (answers call called).mp ret
    rcases afterParents old call after split ret with genesis | ⟨parent, mem, accepted, link⟩
    · exact .genesis genesis (onlyStored call called) isGood
    · obtain ⟨earlier, between, parts⟩ := append_of_mem mem
      have place : calls = earlier ++ parent :: (between ++ call :: after) := by
        rw [split, parts, append_assoc, cons_append]
      have sooner : earlier.length < n := by
        rw [parts, length_append, length_cons] at bound
        omega
      exact .child (ih earlier parent _ place sooner accepted) link.symm
        (onlyStored call called) isGood

theorem reindexed_of_between {disk : List Bytes} (between : Between node disk stored s) :
    Reindexed node stored s := by
  obtain ⟨log, _, waits, settled, -⟩ := between
  have passed : ∀ block ∈ stored,
      (block.hash = node.hashGenesisBlock ∨ Accepted s.calls block.hashPrevBlock) →
      (∃ call ∈ s.calls, call.block = block) ∨ Accepted s.calls block.hash ∨
        validWork node block = false := by
    intro block mem due
    rcases settled block mem with called | accepted | invalid | ⟨r, here, rfl⟩
    · exact .inl called
    · exact .inr (.inl accepted)
    · exact .inr (.inr invalid)
    · rcases due with genesis | parent
      · exact absurd genesis (waits.notGenesis r here)
      · exact absurd (waits.parents r here ((log.data _).mpr parent)) (by simp)
  refine ⟨log.stored, passed, ?_, log.afterParents, ?_⟩
  · intro hash accepted
    have some := successes_pos.mpr accepted
    have most := log.once hash
    omega
  · intro good answers work hash
    constructor
    · rintro ⟨call, called, ret, rfl⟩
      obtain ⟨old, after, split⟩ := append_of_mem called
      exact ⟨call.block, rooted_of_call log.afterParents log.stored answers _ old call after split
        (Nat.lt_succ_self _) ret, rfl⟩
    · rintro ⟨block, rooted, rfl⟩
      -- a good block that is due has been accepted
      have accept : ∀ block ∈ stored, good block →
          (block.hash = node.hashGenesisBlock ∨ Accepted s.calls block.hashPrevBlock) →
            Accepted s.calls block.hash := by
        intro block mem isGood due
        rcases passed block mem due with ⟨call, called, rfl⟩ | accepted | invalid
        · exact ⟨call, called, (answers call called).mpr isGood, rfl⟩
        · exact accepted
        · rw [work block mem isGood] at invalid
          cases invalid
      induction rooted with
      | genesis isGenesis mem isGood => exact accept _ mem isGood (.inl isGenesis)
      | child _ link mem isGood ih =>
        rw [← link] at ih
        exact accept _ mem isGood (.inr ih)

theorem between_start (disk : List Bytes) (world : W) :
    Between node disk [] (Node.start world) where
  log := ⟨nofun, by simp [Node.start, Node.haveData, Accepted], by simp [Node.start, successes],
    by simp [AfterParents, Node.start], by simp [Node.start]⟩
  waits := ⟨[], ⟨by simp, by simp, by simp, by simp, by simp, by simp⟩, by simp, rfl⟩

theorem records_blocks (serialize : CBlock → Bytes) (files : List BlockFile) (nFile : Nat) :
    (records serialize nFile files).map Prod.snd = files.flatMap blocks := by
  have inFile : ∀ blocks nFile offset, (positions serialize nFile offset blocks).map Prod.snd =
      blocks := by
    intro blocks
    induction blocks with
    | nil => intro _ _; rfl
    | cons _ _ ih => intro nFile offset; rw [positions, map_cons, ih]
  induction files generalizing nFile with
  | nil => rfl
  | cons _ _ ih => rw [records, map_append, inFile, ih, flatMap_cons]

end

theorem reindexed_iff_no_child_left {W : Type} (node : Node W) (serialize : CBlock → Bytes)
    (files : List BlockFile) (world : W) (stored : StoredFiles node serialize files)
    (healthy : NoSystemErrors node) (agree : ValidatorsAgree node (files.flatMap blocks))
    (once : Along node (files.map (bytes node.network serialize))
      (WaitsOnce node (files.map (bytes node.network serialize)))
      (records serialize 0 files) (Node.start world)) :
    (∃ s, node.reindex (files.map (bytes node.network serialize)) world = .ok s ∧
      Reindexed node (files.flatMap blocks) s) ↔
    Along node (files.map (bytes node.network serialize)) (NoChildLeft node)
      (records serialize 0 files) (Node.start world) := by
  have blocks := records_blocks serialize files 0
  rw [Node.reindex, reindexFrom_eq healthy stored.wellFormed stored.short]
  constructor
  · rintro ⟨s, ran, -⟩
    exact along_of_importAll healthy ran
  · intro noChild
    have read : ∀ r ∈ records serialize 0 files,
        node.readFromFile (files.map (bytes node.network serialize)) r.1 = some r.2 :=
      fun r member => (records_read [] stored.wellFormed member).2
    obtain ⟨s, ran, between⟩ := (between_start _ world).importAll healthy agree stored.identify
      (by rw [blocks]; exact fun _ => id) read once noChild
    rw [nil_append, blocks] at between
    exact ⟨s, ran, reindexed_of_between between⟩

/-! Three blocks in a row, of which the second one may be refused -/

/-- The block with this hash on top of the one before. -/
def exampleBlock (n : Nat) : CBlock :=
  ⟨BitVec.ofNat 256 n, 4, BitVec.ofNat 256 (n - 1), 0, 0, 0, 0, [], []⟩

def exampleSerialize (block : CBlock) : Bytes := List.replicate 80 (UInt8.ofNat block.hash.toNat)

def exampleUnserialize : Decoder CBlock := do
  let bytes ← Decoder.take 80
  pure (exampleBlock (bytes.headD 0).toNat)

def exampleNode (refused : Uint256) : Node Unit where
  network := .regtest
  hashGenesisBlock := 1
  heartwoodHeight := none
  unserialize := exampleUnserialize
  ehIsValidSolution _ := true
  librustzcash_eh_isvalid _ := true
  checkProofOfWork _ := true
  checkBlockBody block := block.hash != refused
  contextualCheckHeaderFields _ _ _ := true
  contextualCheckBlock _ _ := true
  receivedBlockTransactions _ _ := true
  activateBestChain _ _ := ⟨(), fun _ => false, true, false⟩

variable (refused : Uint256)

theorem exampleNode_healthy : NoSystemErrors (exampleNode refused) :=
  ⟨fun _ _ => rfl, fun _ _ => ⟨rfl, rfl⟩⟩

theorem exampleBlock_wellFormed {refused : Uint256} {n : Nat} (small : n < 256) :
    WellFormed (exampleNode refused) exampleSerialize (exampleBlock n) where
  decodes := by
    have size : (exampleSerialize (exampleBlock n)).length = 80 := by simp [exampleSerialize]
    have head : ((exampleSerialize (exampleBlock n)).headD 0).toNat = n := by
      simp [exampleSerialize, exampleBlock]
      omega
    have bytes := Decodes.take (exampleSerialize (exampleBlock n))
    rw [size] at bytes
    have block := bytes.last fun bytes : Bytes => exampleBlock (bytes.headD 0).toNat
    rw [head] at block
    exact block
  atLeast := by simp [exampleSerialize]
  atMost := by simp [exampleSerialize, MAX_BLOCK_SIZE]

def exampleDisk (order : List Nat) : List Bytes :=
  [(BlockFile.mk (order.map exampleBlock) 0).bytes .regtest exampleSerialize]

theorem exampleFile_stored (order : List Nat) (few : order.length ≤ 3)
    (small : ∀ n ∈ order, n < 256) :
    StoredFiles (exampleNode refused) exampleSerialize [⟨order.map exampleBlock, 0⟩] where
  wellFormed := by
    simp only [forall_mem_singleton, forall_mem_map]
    exact fun n mem => exampleBlock_wellFormed (small n mem)
  short := by
    simp only [forall_mem_singleton, bytes, length_append, length_replicate]
    have size : ((order.map exampleBlock).flatMap (recordBytes .regtest exampleSerialize)).length =
        88 * order.length := by
      rw [length_flatMap, map_map]
      have each : (fun block => (recordBytes .regtest exampleSerialize block).length) ∘
          exampleBlock = fun _ => 88 := by
        funext n
        simp [length_recordBytes, exampleSerialize]
      rw [each]
      simp [Nat.mul_comm]
    have network : (exampleNode refused).network = .regtest := rfl
    rw [network, size]
    omega
  identify := by
    simp only [HashesIdentify, flatMap_cons, flatMap_nil, append_nil, forall_mem_map]
    intro a inA b inB same
    have same := congrArg BitVec.toNat same
    have := small a inA
    have := small b inB
    simp only [exampleBlock, BitVec.toNat_ofNat] at same
    have equal : a = b := by omega
    rw [equal]

/-- A child before its parent. -/
theorem reindexed_iff_no_child_left_child_first :
    StoredFiles (exampleNode 0) exampleSerialize [⟨[2, 1].map exampleBlock, 0⟩] ∧
    ∃ s, (exampleNode 0).reindex (exampleDisk [2, 1]) () = .ok s ∧
      Reindexed (exampleNode 0) ([2, 1].map exampleBlock) s := by
  have stored := exampleFile_stored 0 [2, 1] (by decide) (by decide)
  refine ⟨stored,
    (reindexed_iff_no_child_left (exampleNode 0) exampleSerialize
    [⟨[2, 1].map exampleBlock, 0⟩] () stored
    (exampleNode_healthy 0) (fun _ _ => rfl) ?_).mpr ?_⟩
  · refine ⟨by rintro _ _ ⟨⟩, fun imported ran => ⟨fun outOfOrder => ?_, fun _ _ => trivial⟩⟩
    simp [Node.outOfOrder, exampleNode, exampleBlock, CBlock.getHash] at outOfOrder
  · refine ⟨by rintro ⟨⟩, fun imported ran => ⟨fun _ _ absent => ?_, fun _ _ => trivial⟩⟩
    cases ran
    exact absurd absent (by decide)

/-- The second block is refused and its child is in the file before it; or a block is in the file
twice before its parent, and is accepted twice. -/
theorem child_before_refused_parent :
    StoredFiles (exampleNode 2) exampleSerialize [⟨[1, 3, 2].map exampleBlock, 0⟩] ∧
    ((exampleNode 2).reindex (exampleDisk [1, 3, 2]) ()).map Import.calls = .error .nullBlockIndex ∧
    StoredFiles (exampleNode 0) exampleSerialize [⟨[2, 2, 1].map exampleBlock, 0⟩] ∧
    ((exampleNode 0).reindex (exampleDisk [2, 2, 1]) ()).map
      (fun s => successes s.calls 2) = .ok 2 := by
  refine ⟨exampleFile_stored 2 [1, 3, 2] (by decide) (by decide), ?_,
    exampleFile_stored 0 [2, 2, 1] (by decide) (by decide), ?_⟩
  · decide +kernel
  · decide +kernel

end Zcashd.Guarantees.Reindexing
