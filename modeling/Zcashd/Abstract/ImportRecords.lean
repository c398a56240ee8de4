import Zcashd.Source.BlockImport
import Zcashd.Source.WireExact

/-!
# Block files as records

A block file holds records, each with the start of a message, a size and a block, and zeros behind
them where it has been allocated ahead. Reading the bytes of such files comes to importing the
blocks one after another, with the positions they are at (`reindex_eq`).
-/
namespace Zcashd.Abstract.Reindex

open Lib Source Source.BlockImport Node List Wire UInt32

variable {W : Type} {node : Node W} {serialize : CBlock → Bytes}

def recordBytes (network : Network) (serialize : CBlock → Bytes) (block : CBlock) : Bytes :=
  messageStart network ++
    (Wire.writeUInt32 (UInt32.ofNat (serialize block).length) ++ serialize block)

/-- Reading the record gives the block back. -/
structure WellFormed (node : Node W) (serialize : CBlock → Bytes) (block : CBlock) : Prop where
  decodes : Decodes node.unserialize (serialize block) block
  atLeast : 80 ≤ (serialize block).length
  atMost : (serialize block).length ≤ MAX_BLOCK_SIZE

structure BlockFile where
  blocks : List CBlock
  /-- The zeros behind the records. -/
  allocated : Nat

def BlockFile.bytes (network : Network) (serialize : CBlock → Bytes) (file : BlockFile) : Bytes :=
  file.blocks.flatMap (recordBytes network serialize) ++ List.replicate file.allocated 0

/-- The blocks of a file from an offset on, with their positions. -/
def positions (serialize : CBlock → Bytes) (nFile : Nat) :
    Nat → List CBlock → List (CDiskBlockPos × CBlock)
  | _, [] => []
  | offset, block :: blocks =>
    (⟨nFile, offset + 8⟩, block) :: positions serialize nFile
      (offset + 8 + (serialize block).length) blocks

def records (serialize : CBlock → Bytes) : Nat → List BlockFile → List (CDiskBlockPos × CBlock)
  | _, [] => []
  | nFile, file :: files =>
    positions serialize nFile 0 file.blocks ++ records serialize (nFile + 1) files

/-- Importing one record after another. -/
def importAll (node : Node W) (disk : List Bytes) : List (CDiskBlockPos × CBlock) → Import W →
    Except Fault (Import W)
  | [], s => .ok s
  | (pos, block) :: rest, s => do
    let imported ← node.importBlock disk (some pos) block s
    importAll node disk rest imported.1

/-- No call fails for want of space or because a file cannot be read or written. -/
structure NoSystemErrors (node : Node W) : Prop where
  received : ∀ s block, node.receivedBlockTransactions s block = true
  activated : ∀ s block, (node.activateBestChain s block).ret = true ∧
    (node.activateBestChain s block).isError = false

section

variable (network : Network)

theorem length_messageStart : (messageStart network).length = 4 := by
  cases network <;> rfl

theorem messageStart_eq {network : Network} :
    ∃ first rest, messageStart network = first :: rest ∧ (messageStart network).headD 0 = first ∧
      first ≠ 0 := by
  cases network with
  | main => exact ⟨0x24, _, rfl, rfl, by decide⟩
  | testnet => exact ⟨0xfa, _, rfl, rfl, by decide⟩
  | regtest => exact ⟨0xaa, _, rfl, rfl, by decide⟩

theorem length_writeUInt32 (n : UInt32) : (writeUInt32 n).length = 4 := by
  unfold writeUInt32
  exact length_writeData 4 n.toNat

theorem length_recordBytes (block : CBlock) :
    (recordBytes network serialize block).length = 8 + (serialize block).length := by
  simp only [recordBytes, length_append, length_messageStart, length_writeUInt32]
  omega

variable {first : UInt8}

theorem findByte_here {old after : Bytes} :
    findByte (old ++ first :: after) first old.length = some old.length := by
  simp [findByte, findIdx?_cons]

theorem findByte_none {old : Bytes} (nonzero : first ≠ 0) (n : Nat) :
    findByte (old ++ replicate n 0) first old.length = none := by
  simp only [findByte, drop_left, Option.map_eq_none_iff, findIdx?_eq_none_iff, mem_replicate]
  intro b zero
  simp [zero.2, nonzero.symm]

variable {block : CBlock}

theorem size_toNat (wellFormed : WellFormed node serialize block) :
    (ofNat (serialize block).length).toNat = (serialize block).length := by
  have atMost := wellFormed.atMost
  rw [MAX_BLOCK_SIZE] at atMost
  exact toNat_ofNat_of_lt (by simp only [size]; omega)

/-- The next record is found, and the loop goes on behind it. -/
theorem scan_record (wellFormed : WellFormed node serialize block) (old after : Bytes) :
    node.scan (old ++ (recordBytes node.network serialize block ++ after)) old.length =
      .found (old.length + 8) block (old.length + 8 + (serialize block).length) := by
  obtain ⟨first, _, start, head, -⟩ := messageStart_eq
  have hit : findByte (old ++ (recordBytes node.network serialize block ++ after)) first
      old.length = some old.length := by
    rw [recordBytes, start]
    exact findByte_here
  have buf := Decodes.take (messageStart node.network)
    ((writeUInt32 (ofNat (serialize block).length) ++ serialize block) ++ after)
  rw [length_messageStart, ← append_assoc] at buf
  have size := readUInt32_exact.decodes (a := ofNat (serialize block).length) trivial
    (serialize block ++ after)
  have body := wellFormed.decodes []
  rw [append_nil] at body
  have atLeast := wellFormed.atLeast
  have atMost := wellFormed.atMost
  unfold scan
  rw [head, hit]
  simp only [drop_left]
  rw [recordBytes, buf]
  simp only [ne_eq, not_true, if_false, append_assoc]
  rw [size]
  simp only [size_toNat wellFormed, take_left']
  rw [if_neg (by omega), body]
  simp

theorem scan_end (old : Bytes) (n : Nat) :
    node.scan (old ++ replicate n 0) old.length = .endOfFile := by
  obtain ⟨_, _, _, head, nonzero⟩ := messageStart_eq
  unfold scan
  rw [head, findByte_none nonzero]

end

section

variable {blocks : List CBlock} {nFile : Nat} {pos : CDiskBlockPos} {block : CBlock}

/-- A block can be read back from the position it is at. -/
theorem positions_read (network : Network) (old : Bytes) (n : Nat)
    (mem : (pos, block) ∈ positions serialize nFile old.length blocks) :
    block ∈ blocks ∧ pos.nFile = nFile ∧
      ∃ rest,
        (old ++ (blocks.flatMap (recordBytes network serialize) ++ replicate n 0)).drop pos.nPos =
        serialize block ++ rest := by
  induction blocks generalizing old with
  | nil => simp [positions] at mem
  | cons first blocks ih =>
    rw [positions, mem_cons] at mem
    rcases mem with same | mem
    · cases same
      refine ⟨mem_cons_self, rfl,
        blocks.flatMap (recordBytes network serialize) ++ replicate n 0, ?_⟩
      have start : old.length + 8 = (old ++ (messageStart network ++
          writeUInt32 (ofNat (serialize block).length))).length := by
        simp [length_messageStart, length_writeUInt32]
      rw [start, flatMap_cons, recordBytes]
      have split : old ++ (messageStart network ++ (writeUInt32 (ofNat (serialize block).length) ++
          serialize block) ++ blocks.flatMap (recordBytes network serialize) ++ replicate n 0) =
          old ++ (messageStart network ++ writeUInt32 (ofNat (serialize block).length)) ++
          (serialize block ++
            (blocks.flatMap (recordBytes network serialize) ++ replicate n 0)) := by
        simp
      rw [split, drop_left]
    · have next : old.length + 8 + (serialize first).length =
          (old ++ recordBytes network serialize first).length := by
        rw [length_append, length_recordBytes]
        omega
      rw [next] at mem
      obtain ⟨inside, file, rest, read⟩ := ih _ mem
      refine ⟨mem_cons_of_mem _ inside, file, rest, ?_⟩
      rw [flatMap_cons, ← read]
      simp

theorem records_read {files : List BlockFile} (earlier : List Bytes)
    (wellFormed : ∀ file ∈ files, ∀ block ∈ file.blocks, WellFormed node serialize block)
    (mem : (pos, block) ∈ records serialize earlier.length files) :
    (∃ file ∈ files, block ∈ file.blocks) ∧
      node.readFromFile (earlier ++ files.map (BlockFile.bytes node.network serialize)) pos =
        some block := by
  induction files generalizing earlier with
  | nil => simp [records] at mem
  | cons file _ ih =>
    rw [records, mem_append] at mem
    rcases mem with mem | mem
    · obtain ⟨inside, number, rest, read⟩ := positions_read node.network [] file.allocated mem
      rw [nil_append] at read
      refine ⟨⟨file, mem_cons_self, inside⟩, ?_⟩
      unfold readFromFile
      rw [number, map_cons, getElem?_append_right (Nat.le_refl _), Nat.sub_self, getElem?_cons_zero]
      simp only [BlockFile.bytes]
      rw [read, (wellFormed file mem_cons_self block inside).decodes rest]
      rfl
    · have next : earlier.length + 1 = (earlier ++ [file.bytes node.network serialize]).length := by
        simp
      rw [next] at mem
      obtain ⟨⟨other, inside, held⟩, read⟩ :=
        ih _ (fun other inside => wellFormed other (mem_cons_of_mem _ inside)) mem
      refine ⟨⟨other, mem_cons_of_mem _ inside, held⟩, ?_⟩
      rw [← read, map_cons, append_assoc, singleton_append]

end

section

variable {disk : List Bytes} {blocks : List CBlock} {s : Import W}

theorem importAll_append (first rest : List (CDiskBlockPos × CBlock)) :
    importAll node disk (first ++ rest) s =
      importAll node disk first s >>= importAll node disk rest := by
  induction first generalizing s with
  | nil => rfl
  | cons _ _ ih =>
    simp only [cons_append, importAll, bind_assoc]
    congr 1
    funext imported
    exact ih

section

variable (healthy : NoSystemErrors node)
include healthy

theorem NoSystemErrors.process_isError (block : CBlock) :
    (node.process block s).1.isError = false := by
  simp only [process, processNewBlock]
  split
  · rfl
  · split
    · unfold acceptBlock
      split
      · rfl
      · simp only [healthy.received, Bool.not_true, Bool.false_eq_true, if_false]
        split
        · rfl
        · split <;> rfl
    · exact (healthy.activated _ _).2

/-- Without system errors the loop over a file is never left. -/
theorem NoSystemErrors.continues {dbp : Option CDiskBlockPos}
    {imported : Import W × Bool} (ran : node.importBlock disk dbp block s = .ok imported) :
    imported.2 = false := by
  unfold importBlock at ran
  split at ran
  · split at ran <;> cases ran <;> rfl
  · split at ran
    · obtain ⟨_, -, done⟩ := except_bind_ok.mp ran
      cases done
      rfl
    · simp only [healthy.process_isError, Bool.false_eq_true, if_false] at ran
      obtain ⟨_, -, done⟩ := except_bind_ok.mp ran
      cases done
      rfl

theorem loadBlocks_eq (wellFormed : ∀ block ∈ blocks, WellFormed node serialize block) (old : Bytes)
    {rounds n : Nat} (enough : blocks.length < rounds)
    (short :
    (old ++ (blocks.flatMap (recordBytes node.network serialize) ++ replicate n 0)).length <
    2 ^ 32) :
    node.loadBlocks disk (some ⟨nFile, 0⟩)
        (old ++ (blocks.flatMap (recordBytes node.network serialize) ++ replicate n 0)) rounds
          old.length s = importAll node disk (positions serialize nFile old.length blocks) s := by
  induction blocks generalizing old rounds s with
  | nil =>
    obtain ⟨_, rfl⟩ := Nat.exists_eq_add_one_of_ne_zero (Nat.ne_of_gt enough)
    rw [loadBlocks, flatMap_nil, nil_append, scan_end]
    rfl
  | cons block blocks ih =>
    obtain ⟨rounds, rfl⟩ := Nat.exists_eq_add_one_of_ne_zero (by omega : rounds ≠ 0)
    have next : old.length + 8 + (serialize block).length =
        (old ++ recordBytes node.network serialize block).length := by
      rw [length_append, length_recordBytes]
      omega
    have same :
        old ++ ((block :: blocks).flatMap (recordBytes node.network serialize) ++ replicate n 0) =
        old ++ recordBytes node.network serialize block ++
          (blocks.flatMap (recordBytes node.network serialize) ++ replicate n 0) := by
      simp
    have hit := scan_record (wellFormed block mem_cons_self) old
      (blocks.flatMap (recordBytes node.network serialize) ++ replicate n 0)
    rw [← append_assoc] at hit
    rw [same] at short ⊢
    rw [loadBlocks, hit, positions, importAll]
    have position : (old.length + 8) % 2 ^ 32 = old.length + 8 := by
      rw [length_append, ← next] at short
      omega
    simp only [Option.map_some, position]
    cases ran : node.importBlock disk (some ⟨nFile, old.length + 8⟩) block s with
    | error _ => rfl
    | ok _ =>
      have goesOn := healthy.continues ran
      simp only [bind, Except.bind, goesOn, Bool.false_eq_true, if_false, next]
      exact ih (fun other mem => wellFormed other (mem_cons_of_mem _ mem)) _
        (by simp only [length_cons] at enough; omega) short

end

theorem length_blocks_le (network : Network) (serialize : CBlock → Bytes) (blocks : List CBlock) :
    blocks.length ≤ (blocks.flatMap (recordBytes network serialize)).length := by
  induction blocks with
  | nil => simp
  | cons _ _ _ =>
    rw [flatMap_cons, length_append, length_recordBytes, length_cons]
    omega

theorem reindexFrom_eq (healthy : NoSystemErrors node) {files : List BlockFile}
    (wellFormed : ∀ file ∈ files, ∀ block ∈ file.blocks, WellFormed node serialize block)
    (short : ∀ file ∈ files, (file.bytes node.network serialize).length < 2 ^ 32) (nFile : Nat) :
    node.reindexFrom disk (files.map (BlockFile.bytes node.network serialize)) nFile s =
      importAll node disk (records serialize nFile files) s := by
  induction files generalizing nFile s with
  | nil => rfl
  | cons file _ ih =>
    have enough : file.blocks.length < (file.bytes node.network serialize).length + 1 := by
      have fits := length_blocks_le node.network serialize file.blocks
      rw [BlockFile.bytes, length_append]
      omega
    have loaded : ∀ s, node.loadBlocks disk (some ⟨nFile, 0⟩) (file.bytes node.network serialize)
        ((file.bytes node.network serialize).length + 1) 0 s =
          importAll node disk (positions serialize nFile 0 file.blocks) s :=
      fun s => loadBlocks_eq healthy (wellFormed file mem_cons_self) [] enough
        (short file mem_cons_self)
    rw [map_cons, reindexFrom, records, importAll_append, loadExternalBlockFile, loaded]
    cases importAll node disk (positions serialize nFile 0 file.blocks) s with
    | error _ => rfl
    | ok _ =>
      exact ih (fun other mem => wellFormed other (mem_cons_of_mem _ mem))
        (fun other mem => short other (mem_cons_of_mem _ mem)) (nFile + 1)

end

end Zcashd.Abstract.Reindex
