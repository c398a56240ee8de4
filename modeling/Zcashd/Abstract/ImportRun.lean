import Zcashd.Abstract.ImportRecords

/-!
# Importing blocks in any order

`Log` is what holds of the index and of the calls of `ProcessNewBlock` so far, `Waiting` what holds
of the records whose parent is not known. A block is passed on when its parent has been accepted
or, if it waits, when the loop over the queue gets to its parent; the invariant of that loop is
`Waiting` with the hashes still in the queue.
-/
namespace Zcashd.Abstract.Reindex

open Lib Source Source.BlockImport List Node Chainstate CBlock

variable {W : Type} {node : Node W} {disk : List Bytes}

/-- What `ReadBlockFromDisk` asks of a header when the two validators agree. -/
def validWork (node : Node W) (block : CBlock) : Bool :=
  node.librustzcash_eh_isvalid block && node.checkProofOfWork block

section

/-- A block without its data is marked as failed. -/
def Sound (s : Chainstate W) : Prop :=
  ∀ hash pindex, s.mapBlockIndex hash = some pindex → pindex.haveData = true ∨ pindex.failed = true

/-- What a call of `ProcessNewBlock` comes to. -/
structure CallSpec (node : Node W) (block : CBlock) (s : Chainstate W)
    (r : Processed W) : Prop where
  sound : Sound r.chain
  data : ∀ hash, Node.haveData hash r.chain = true ↔
    Node.haveData hash s = true ∨ (r.ret = true ∧ hash = block.hash)
  entries : ∀ hash, (s.mapBlockIndex hash).isSome → (r.chain.mapBlockIndex hash).isSome
  parent : r.ret = true → Node.haveData block.hash s = false →
    block.hash = node.hashGenesisBlock ∨ Node.haveData block.hashPrevBlock s = true

variable {s : Chainstate W} {block : CBlock} {hash : Uint256}

theorem haveData_iff :
    haveData hash s = true ↔
    ∃ pindex, s.mapBlockIndex hash = some pindex ∧ pindex.haveData = true := by
  unfold haveData
  cases s.mapBlockIndex hash with
  | none => simp
  | some _ => simp

theorem isSome_of_haveData (data : haveData hash s = true) : (s.mapBlockIndex hash).isSome := by
  obtain ⟨_, hit, -⟩ := haveData_iff.mp data
  rw [hit]
  rfl

theorem CallSpec.refused (sound : Sound s) (isError : Bool) :
    CallSpec node block s ⟨false, isError, s⟩ where
  sound := sound
  data := by simp
  entries := fun _ => id
  parent := by simp

theorem haveData_activate (activation : Activation W) :
    haveData hash (s.activate activation) = haveData hash s := by
  simp only [haveData, activate]
  cases s.mapBlockIndex hash with
  | none => rfl
  | some _ => rfl

variable {s' : Chainstate W}

/-- Marking blocks as failed changes nothing else. -/
theorem CallSpec.activate {isError isError' : Bool} (activation : Activation W)
    (call : CallSpec node block s ⟨true, isError, s'⟩) :
    CallSpec node block s ⟨true, isError', s'.activate activation⟩ where
  sound := by
    intro hash _ hit
    obtain ⟨old, held, rfl⟩ := Option.map_eq_some_iff.mp hit
    grind [call.sound hash old held]
  data := by
    intro hash
    rw [haveData_activate]
    exact call.data hash
  entries := by
    intro hash hit
    simpa [Chainstate.activate] using call.entries hash hit
  parent := call.parent

theorem addToBlockIndex_eq :
    ∃ nHeight, s.addToBlockIndex block = s.setEntry block.hash ⟨nHeight, false, false⟩ := by
  unfold addToBlockIndex
  dsimp only
  split
  · exact ⟨0, rfl⟩
  · rename_i pprev hit
    refine ⟨pprev.nHeight + 1, ?_⟩
    simp [setEntry]

theorem haveData_setEntry {other : Uint256} {pindex : IndexedBlock} :
    haveData other (s.setEntry hash pindex) = if other = hash then pindex.haveData
      else haveData other s := by
  simp only [haveData, setEntry, Function.update_apply]
  grind

/-- A block that is new to the index gets its entry. -/
theorem CallSpec.setEntry {isError ret : Bool} {nHeight : Nat} (sound : Sound s)
    (new : s.mapBlockIndex block.hash = none)
    (parent : ret = true → block.hash = node.hashGenesisBlock ∨
      haveData block.hashPrevBlock s = true) :
    CallSpec node block s ⟨ret, isError, s.setEntry block.hash ⟨nHeight, ret, !ret⟩⟩ where
  sound := by
    intro _ _ hit
    simp only [Chainstate.setEntry, Function.update_apply] at hit
    grind [Sound]
  data := by
    intro _
    rw [haveData_setEntry]
    grind [haveData]
  entries := by
    intro _ _
    simp only [Chainstate.setEntry, Function.update_apply]
    grind
  parent := fun accepted _ => parent accepted

/-- A header is accepted if it is known and has not failed, or if it is new and its parent has not
failed. -/
theorem acceptBlockHeader_some (accepted : node.acceptBlockHeader block s = some s') :
    (∃ pindex, s.mapBlockIndex block.hash = some pindex ∧ pindex.failed = false ∧ s' = s) ∨
    (s.mapBlockIndex block.hash = none ∧ s' = s.addToBlockIndex block ∧
      (block.hash = node.hashGenesisBlock ∨
        ∃ pindexPrev, s.mapBlockIndex block.hashPrevBlock = some pindexPrev ∧
          pindexPrev.failed = false)) := by
  unfold acceptBlockHeader getHash at accepted
  grind

theorem acceptBlock_spec (healthy : NoSystemErrors node) (sound : Sound s) :
    CallSpec node block s (node.acceptBlock block s) := by
  unfold acceptBlock
  cases header : node.acceptBlockHeader block s with
  | none => exact .refused sound false
  | some s' =>
    simp only [healthy.received, Bool.not_true, Bool.false_eq_true, if_false, getHash]
    rcases acceptBlockHeader_some header with ⟨_, _, _, rfl⟩ | ⟨new, rfl, _⟩
    · -- a known block that has not failed has its data
      have data : haveData block.hash s' = true := by grind [haveData_iff, Sound]
      rw [if_pos data]
      exact ⟨sound, by simp [data], fun _ => id,
        fun _ missing => by rw [data] at missing; cases missing⟩
    · obtain ⟨nHeight, added⟩ := addToBlockIndex_eq
      have empty : haveData block.hash (s.addToBlockIndex block) = false := by
        rw [added, haveData_setEntry, if_pos rfl]
      have modified : ∀ f, (s.addToBlockIndex block).modifyEntry block.hash f =
          s.setEntry block.hash (f ⟨nHeight, false, false⟩) := by
        intro f
        rw [added]
        simp [modifyEntry, setEntry]
      rw [if_neg (by simp [empty]), modified, modified]
      split
      · exact .setEntry sound new (by simp)
      · apply CallSpec.setEntry sound new
        grind [haveData_iff, Sound]

theorem processNewBlock_spec (healthy : NoSystemErrors node) (sound : Sound s) :
    CallSpec node block s (node.processNewBlock block s) := by
  unfold processNewBlock
  split
  · exact .refused sound false
  · have accepted : CallSpec node block s (node.acceptBlock block s) :=
      acceptBlock_spec healthy sound
    dsimp only
    split
    · exact accepted
    · rename_i taken
      rw [(healthy.activated _ _).1]
      have taken : (node.acceptBlock block s).ret = true := by simpa using taken
      have same : node.acceptBlock block s =
          ⟨true, (node.acceptBlock block s).isError,
            (node.acceptBlock block s).chain⟩ := by rw [← taken]
      rw [same] at accepted
      exact accepted.activate _

end

section

/-- A block with this hash has been accepted. -/
def Accepted (calls : List ProcessCall) (hash : Uint256) : Prop :=
  ∃ call ∈ calls, call.ret = true ∧ call.block.hash = hash

def successes (calls : List ProcessCall) (hash : Uint256) : Nat :=
  calls.countP fun call => call.ret && call.block.hash == hash

/-- Blocks are accepted after their parents. -/
def AfterParents (node : Node W) (calls : List ProcessCall) : Prop :=
  ∀ before call after, calls = before ++ call :: after → call.ret = true →
    call.block.hash = node.hashGenesisBlock ∨ Accepted before call.block.hashPrevBlock

/-- The index and the calls so far, for the records `done`. -/
structure Log (node : Node W) (done : List CBlock) (s : Import W) : Prop where
  sound : Sound s.chain
  data : ∀ hash, Node.haveData hash s.chain = true ↔ Accepted s.calls hash
  once : ∀ hash, successes s.calls hash ≤ 1
  afterParents : AfterParents node s.calls
  stored : ∀ call ∈ s.calls, call.block ∈ done

variable {calls : List ProcessCall} {call : ProcessCall} {hash : Uint256} {done : List CBlock}
  {s : Import W}
  {block : CBlock}

theorem accepted_append_singleton :
    Accepted (calls ++ [call]) hash ↔ Accepted calls hash ∨
    (call.ret = true ∧ hash = call.block.hash) := by
  rw [eq_comm (a := hash)]
  simp [Accepted, or_and_right, exists_or]

theorem successes_eq_zero (none : ¬ Accepted calls hash) : successes calls hash = 0 := by
  rw [successes, countP_eq_zero]
  intro call mem
  simp only [Bool.and_eq_true, beq_iff_eq, not_and]
  intro ret same
  exact none ⟨call, mem, ret, same⟩

theorem successes_pos : 0 < successes calls hash ↔ Accepted calls hash := by
  rw [successes, countP_pos_iff]
  simp [Accepted]

theorem AfterParents.append_singleton (ordered : AfterParents node calls)
    (last : call.ret = true → call.block.hash = node.hashGenesisBlock ∨
      Accepted calls call.block.hashPrevBlock) :
    AfterParents node (calls ++ [call]) := by
  intro old other after split ret
  rcases eq_nil_or_concat after with rfl | ⟨rest, final, rfl⟩
  · obtain ⟨rfl, same⟩ := append_inj' split rfl
    cases same
    exact last ret
  · have split : calls ++ [call] = (old ++ other :: rest) ++ [final] := by simp [split]
    obtain ⟨rfl, -⟩ := append_inj' split rfl
    exact ordered old other rest rfl ret

theorem Log.mono (log : Log node done s) (next : CBlock) : Log node (done ++ [next]) s :=
  { log with stored := fun call member => mem_append_left _ (log.stored call member) }

/-- One more call, for a block that has not been accepted yet. -/
theorem Log.process (healthy : NoSystemErrors node) (log : Log node done s) (mem : block ∈ done)
    (fresh : haveData block.hash s.chain = false) : Log node done (node.process block s).2 := by
  have spec : CallSpec node block s.chain (node.processNewBlock block s.chain) :=
    processNewBlock_spec healthy log.sound
  refine ⟨spec.sound, ?_, ?_, ?_, ?_⟩
  · intro _
    simp only [Node.process]
    rw [spec.data, accepted_append_singleton, log.data]
  · intro hash
    have once := log.once hash
    have none : ¬ Accepted s.calls hash → successes s.calls hash = 0 := successes_eq_zero
    simp only [Node.process, successes, countP_append, countP_singleton] at once none ⊢
    grind [log.data]
  · apply log.afterParents.append_singleton
    grind [spec.parent, log.data]
  · intro _ called
    simp only [Node.process, mem_append, mem_singleton] at called
    grind [log.stored]

end

section

/-- The records that wait, while the hashes in `queue` are still to be gone through. -/
structure Waiting (node : Node W) (disk : List Bytes) (done : List CBlock) (queue : List Uint256)
    (waiting : List (CDiskBlockPos × CBlock)) (s : Import W) : Prop where
  onDisk : ∀ r ∈ waiting, node.readFromFile disk r.1 = some r.2
  stored : ∀ r ∈ waiting, r.2 ∈ done
  notGenesis : ∀ r ∈ waiting, r.2.hash ≠ node.hashGenesisBlock
  distinct : (waiting.map (·.2.hash)).Nodup
  fresh : ∀ r ∈ waiting, Node.haveData r.2.hash s.chain = false
  parents : ∀ r ∈ waiting, Node.haveData r.2.hashPrevBlock s.chain = true →
    r.2.hashPrevBlock ∈ queue

/-- A block that does not wait has been passed on, or need not be. -/
def Settled (node : Node W) (waiting : List (CDiskBlockPos × CBlock)) (s : Import W)
    (block : CBlock) : Prop :=
  (∃ call ∈ s.calls, call.block = block) ∨ Accepted s.calls block.hash ∨
    validWork node block = false ∨ ∃ r ∈ waiting, r.2 = block

/-- The multimap of the records that wait. -/
def keyed (waiting : List (CDiskBlockPos × CBlock)) : List (Uint256 × CDiskBlockPos) :=
  waiting.map fun r => (r.2.hashPrevBlock, r.1)

/-- The two validators of `CheckEquihashSolution` give the same answers. -/
def ValidatorsAgree (node : Node W) (blocks : List CBlock) : Prop :=
  ∀ block ∈ blocks, node.ehIsValidSolution block = node.librustzcash_eh_isvalid block

variable {done : List CBlock} {queue queue' : List Uint256}
  {waiting rest : List (CDiskBlockPos × CBlock)} {s : Import W}
  {r : CDiskBlockPos × CBlock} {head : Uint256} {block : CBlock}

section

variable (waits : Waiting node disk done queue waiting s)
include waits

theorem Waiting.sub (fewer : rest.Subperm waiting) :
    Waiting node disk done queue rest s where
  onDisk := fun r mem => waits.onDisk r (fewer.subset mem)
  stored := fun r mem => waits.stored r (fewer.subset mem)
  notGenesis := fun r mem => waits.notGenesis r (fewer.subset mem)
  distinct := by
    obtain ⟨_, same, sub⟩ := fewer
    exact (same.map _).nodup_iff.mp ((sub.map _).nodup waits.distinct)
  fresh := fun r mem => waits.fresh r (fewer.subset mem)
  parents := fun r mem => waits.parents r (fewer.subset mem)

theorem Waiting.queue_mono
    (more : ∀ r ∈ waiting, r.2.hashPrevBlock ∈ queue → r.2.hashPrevBlock ∈ queue') :
    Waiting node disk done queue' waiting s :=
  { waits with parents := fun r mem data => more r mem (waits.parents r mem data) }

theorem Waiting.done_mono (next : CBlock) :
    Waiting node disk (done ++ [next]) queue waiting s :=
  { waits with stored := fun r member => mem_append_left _ (waits.stored r member) }

end

/-- One more call. The block goes into the queue if it is accepted. -/
theorem Waiting.process (call : CallSpec node block s.chain (node.processNewBlock block s.chain))
    (waits : Waiting node disk done queue waiting s)
    (apart : (node.process block s).1.ret = true → ∀ r ∈ waiting, r.2.hash ≠ block.hash) :
    Waiting node disk done
      (queue ++ if (node.process block s).1.ret then [block.hash] else []) waiting
      (node.process block s).2 where
  onDisk := waits.onDisk
  stored := waits.stored
  notGenesis := waits.notGenesis
  distinct := waits.distinct
  fresh := by
    intro r mem
    rw [← Bool.not_eq_true]
    intro data
    rcases (call.data _).mp data with old | ⟨ret, same⟩
    · rw [waits.fresh r mem] at old
      cases old
    · exact apart ret r mem same
  parents := by
    intro r mem data
    rcases (call.data _).mp data with old | ⟨ret, same⟩
    · exact mem_append_left _ (waits.parents r mem old)
    · have ret : (node.process block s).1.ret = true := ret
      rw [if_pos ret, same]
      exact mem_append_right _ mem_cons_self

theorem Settled.process (settled : Settled node waiting s block) (other : CBlock) :
    Settled node waiting (node.process other s).2 block := by
  have more : ∀ call ∈ s.calls, call ∈ (node.process other s).2.calls :=
    fun call called => mem_append_left _ called
  rcases settled with ⟨call, called, same⟩ | ⟨call, called, accepted⟩ | invalid
  · exact .inl ⟨call, more call called, same⟩
  · exact .inr (.inl ⟨call, more call called, accepted⟩)
  · exact .inr (.inr invalid)

theorem settled_process_self : Settled node waiting (node.process block s).2 block :=
  .inl ⟨_, mem_append_right _ mem_cons_self, rfl⟩

theorem Settled.of_cons (settled : Settled node (r :: rest) s block) :
    block = r.2 ∨ Settled node rest s block := by
  grind [Settled]

theorem Settled.mono (settled : Settled node waiting s block) (more : waiting ⊆ rest) :
    Settled node rest s block := by
  grind [Settled]

theorem readBlockFromDisk_eq (read : node.readFromFile disk r.1 = some r.2)
    (agree : node.ehIsValidSolution r.2 = node.librustzcash_eh_isvalid r.2) (nHeight : Nat) :
    node.readBlockFromDisk disk r.1 nHeight = if validWork node r.2 then some r.2 else none := by
  simp only [readBlockFromDisk, read, checkEquihashSolution, agree, ite_self]
  rfl

/-- What the loops keep. -/
structure Released (node : Node W) (disk : List Bytes) (done : List CBlock) (queue : List Uint256)
    (waiting : List (CDiskBlockPos × CBlock)) (s s' : Import W) : Prop where
  log : Log node done s'
  waits : Waiting node disk done queue waiting s'
  settled : ∀ block ∈ done, Settled node waiting s' block
  map : s'.mapBlocksUnknownParent = s.mapBlocksUnknownParent
  entries : ∀ hash, (s.chain.mapBlockIndex hash).isSome → (s'.chain.mapBlockIndex hash).isSome

section

variable (healthy : NoSystemErrors node) (agree : ValidatorsAgree node done) (log : Log node done s)
include healthy agree log

theorem Waiting.releaseOne (waits : Waiting node disk done queue (r :: rest) s)
    (settled : ∀ block ∈ done, Settled node (r :: rest) s block)
    (known : (s.chain.mapBlockIndex head).isSome) :
    ∃ s' released, node.releaseOne disk head r.1 s = .ok (s', released) ∧ released.length ≤ 1 ∧
      Released node disk done (queue ++ released) rest s s' ∧
      ∀ hash ∈ released, (s'.chain.mapBlockIndex hash).isSome := by
  have held := waits.stored r mem_cons_self
  have others := waits.sub (sublist_cons_self r rest).subperm
  obtain ⟨_, hit⟩ := Option.isSome_iff_exists.mp known
  unfold Node.releaseOne
  rw [hit]
  dsimp only
  rw [readBlockFromDisk_eq (waits.onDisk r mem_cons_self) (agree _ held)]
  cases work : validWork node r.2 with
  | false =>
    refine ⟨s, [], rfl, Nat.zero_le _, ⟨log, ?_, ?_, rfl, fun _ => id⟩, by simp⟩
    · simpa using others
    · grind [Settled, Settled.of_cons]
  | true =>
    have fresh := waits.fresh r mem_cons_self
    have call : CallSpec node r.2 s.chain (node.processNewBlock r.2 s.chain) :=
      processNewBlock_spec healthy log.sound
    have apart : ∀ other ∈ rest, other.2.hash ≠ r.2.hash := by
      intro other mem same
      exact (nodup_cons.mp waits.distinct).1 (mem_map.mpr ⟨other, mem, same⟩)
    refine ⟨_, _, rfl, ?_, ⟨log.process healthy held fresh, others.process call (fun _ => apart),
      ?_, rfl, call.entries⟩, ?_⟩
    · split <;> simp
    · intro block mem
      rcases (settled block mem).of_cons with rfl | elsewhere
      · exact settled_process_self
      · exact elsewhere.process r.2
    · intro _ mem
      split at mem
      · rename_i ret
        rw [mem_singleton] at mem
        subst mem
        exact isSome_of_haveData ((call.data _).mpr (.inr ⟨ret, rfl⟩))
      · cases mem

/-- The range of `head`: its records no longer wait. -/
theorem Waiting.releaseRange {range : List (CDiskBlockPos × CBlock)}
    (waits : Waiting node disk done queue (range ++ rest) s)
    (settled : ∀ block ∈ done, Settled node (range ++ rest) s block)
    (known : range ≠ [] → (s.chain.mapBlockIndex head).isSome) :
    ∃ s' released, node.releaseRange disk head (range.map Prod.fst) s = .ok (s', released) ∧
      released.length ≤ range.length ∧ Released node disk done (queue ++ released) rest s s' ∧
      ∀ hash ∈ released, (s'.chain.mapBlockIndex hash).isSome := by
  induction range generalizing s queue with
  | nil =>
    refine ⟨s, [], rfl, Nat.le_refl _, ⟨log, ?_, settled, rfl, fun _ => id⟩, by simp⟩
    rw [append_nil]
    exact waits
  | cons r _ ih =>
    obtain ⟨_, first, ranFirst, _, one, _⟩ :=
      waits.releaseOne healthy agree log settled (known (by simp))
    obtain ⟨s', others, ranOthers, _, all, _⟩ :=
      ih one.log one.waits one.settled (fun _ => one.entries head (known (by simp)))
    refine ⟨s', first ++ others, ?_, ?_, ⟨all.log, ?_, all.settled, all.map.trans one.map, ?_⟩, ?_⟩
    · rw [map_cons, releaseRange, ranFirst]
      simp only [bind, Except.bind, ranOthers]
    · simp only [length_append, length_cons]
      omega
    · rw [← append_assoc]
      exact all.waits
    · exact fun hash hit => all.entries hash (one.entries hash hit)
    · grind [all.entries]

end

theorem waitingFor_keyed (head : Uint256) (waiting : List (CDiskBlockPos × CBlock)) :
    waitingFor head (keyed waiting) =
      (waiting.filter (·.2.hashPrevBlock == head)).map Prod.fst := by
  simp only [waitingFor, keyed, filter_map, map_map]
  rfl

theorem keyed_filter (head : Uint256) (waiting : List (CDiskBlockPos × CBlock)) :
    (keyed waiting).filter (·.1 != head) =
      keyed (waiting.filter fun r => !(r.2.hashPrevBlock == head)) := by
  simp only [keyed, filter_map]
  rfl

/-- Between two records nothing waits for a block that has been accepted. -/
structure Between (node : Node W) (disk : List Bytes) (done : List CBlock)
    (s : Import W) : Prop where
  log : Log node done s
  waits : ∃ waiting, Waiting node disk done [] waiting s ∧
    (∀ block ∈ done, Settled node waiting s block) ∧ s.mapBlocksUnknownParent = keyed waiting

/-- The loop over the queue ends within its rounds. -/
theorem Waiting.releaseAll (healthy : NoSystemErrors node) (agree : ValidatorsAgree node done)
    {rounds : Nat} (log : Log node done s) (waits : Waiting node disk done queue waiting s)
    (settled : ∀ block ∈ done, Settled node waiting s block)
    (map : s.mapBlocksUnknownParent = keyed waiting)
    (known : ∀ hash ∈ queue, (s.chain.mapBlockIndex hash).isSome ∨
      ∀ r ∈ waiting, r.2.hashPrevBlock ≠ hash) (enough : waiting.length + queue.length ≤ rounds) :
    ∃ s', node.releaseAll disk rounds queue s = .ok s' ∧ Between node disk done s' := by
  induction rounds generalizing s queue waiting with
  | zero =>
    have empty : queue = [] := length_eq_zero_iff.mp (by omega)
    subst empty
    exact ⟨s, rfl, log, waiting, waits, settled, map⟩
  | succ _ ih =>
    cases queue with
    | nil => exact ⟨s, rfl, log, waiting, waits, settled, map⟩
    | cons head queue =>
      -- the records are those of the head's range and the rest
      obtain ⟨range, isRange⟩ :
          ∃ range, waiting.filter (·.2.hashPrevBlock == head) = range := ⟨_, rfl⟩
      obtain ⟨rest, isRest⟩ :
          ∃ rest, (waiting.filter fun r => !(r.2.hashPrevBlock == head)) = rest := ⟨_, rfl⟩
      have parts : (range ++ rest).Perm waiting := by
        rw [← isRange, ← isRest]
        exact filter_append_perm _ _
      have indexed : range ≠ [] → (s.chain.mapBlockIndex head).isSome := by
        intro some
        obtain ⟨r, _⟩ := exists_mem_of_ne_nil range some
        grind
      obtain ⟨mid, released, ran, _, after, _⟩ :=
        (waits.sub parts.subperm).releaseRange healthy agree log
        (fun block mem => (settled block mem).mono parts.symm.subset) indexed
      have dropped : Waiting node disk done (queue ++ released) rest mid := by
        apply after.waits.queue_mono
        grind
      have lengths := parts.length_eq
      rw [length_append] at lengths
      rw [releaseAll, map, waitingFor_keyed, isRange, ran]
      refine ih
        (s := { mid with
          mapBlocksUnknownParent := mid.mapBlocksUnknownParent.filter (·.1 != head) })
        ⟨after.log.sound, after.log.data, after.log.once, after.log.afterParents, after.log.stored⟩
        { dropped with }
        after.settled ?_ ?_ ?_
      · rw [after.map, map, keyed_filter, isRest]
      · have inside := parts.subset
        grind [after.entries]
      · simp only [length_append, length_cons] at enough ⊢
        omega

end

section

/-- No record of the same block waits already. -/
def WaitsOnce (node : Node W) (disk : List Bytes) (s : Import W)
    (record : CDiskBlockPos × CBlock) : Prop :=
  node.outOfOrder record.2 s = true → ∀ entry ∈ s.mapBlocksUnknownParent, ∀ block,
    node.readFromFile disk entry.2 = some block → block.hash ≠ record.2.hash

/-- No child of the block waits if `ProcessNewBlock` refuses the block without an entry for it in
the index. -/
def NoChildLeft (node : Node W) (s : Import W) (record : CDiskBlockPos × CBlock) : Prop :=
  node.outOfOrder record.2 s = false → Node.haveData record.2.hash s.chain = false →
    (node.processNewBlock record.2 s.chain).chain.mapBlockIndex record.2.hash = none →
    ∀ entry ∈ s.mapBlocksUnknownParent, entry.1 ≠ record.2.hash

/-- A condition holds before each record that is imported. -/
def Along (node : Node W) (disk : List Bytes) (P : Import W → CDiskBlockPos × CBlock → Prop) :
    List (CDiskBlockPos × CBlock) → Import W → Prop
  | [], _ => True
  | record :: records, s => P s record ∧
    ∀ imported, node.importBlock disk (some record.1) record.2 s = .ok imported →
      Along node disk P records imported.1

/-- The hash of a block stands for its header. -/
def HashesIdentify (blocks : List CBlock) : Prop :=
  ∀ a ∈ blocks, ∀ b ∈ blocks, a.hash = b.hash → a.hashPrevBlock = b.hashPrevBlock

variable {done : List CBlock} {waiting : List (CDiskBlockPos × CBlock)} {s : Import W}
  {record : CDiskBlockPos × CBlock}

theorem outOfOrder_iff : node.outOfOrder record.2 s = true ↔
    record.2.hash ≠ node.hashGenesisBlock ∧
    s.chain.mapBlockIndex record.2.hashPrevBlock = none := by
  simp [outOfOrder, getHash]

/-- A block whose parent has no entry has not been accepted. -/
theorem Log.fresh_of_outOfOrder (log : Log node done s)
    (identify : HashesIdentify (done ++ [record.2])) (waits : node.outOfOrder record.2 s = true) :
    haveData record.2.hash s.chain = false := by
  obtain ⟨notGenesis, unknown⟩ := outOfOrder_iff.mp waits
  rw [← Bool.not_eq_true, log.data]
  rintro ⟨call, called, ret, same⟩
  obtain ⟨old, after, split⟩ := append_of_mem called
  rcases log.afterParents old call after split ret with genesis | ⟨parent, mem, accepted, link⟩
  · exact notGenesis (same.symm.trans genesis)
  · have prev :=
      identify call.block (mem_append_left _ (log.stored call called)) record.2 (by simp) same
    have data : haveData record.2.hashPrevBlock s.chain = true := by
      rw [log.data, ← prev]
      exact ⟨parent, by rw [split]; exact mem_append_left _ mem, accepted, link⟩
    simpa [unknown] using isSome_of_haveData data

theorem Between.wait (identify : HashesIdentify (done ++ [record.2]))
    (between : Between node disk done s) (read : node.readFromFile disk record.1 = some record.2)
    (once : WaitsOnce node disk s record) (outOfOrder : node.outOfOrder record.2 s = true) :
    Between node disk (done ++ [record.2])
      { s with
        mapBlocksUnknownParent := s.mapBlocksUnknownParent ++
          [(record.2.hashPrevBlock, record.1)] } := by
  obtain ⟨waiting, waits, settled, map⟩ := between.waits
  obtain ⟨notGenesis, _⟩ := outOfOrder_iff.mp outOfOrder
  have log := between.log.mono record.2
  have more := waits.done_mono record.2
  refine ⟨{ log with }, waiting ++ [record], ⟨?_, ?_, ?_, ?_, ?_, ?_⟩, ?_, ?_⟩
  · exact forall_mem_append.mpr ⟨more.onDisk, forall_mem_singleton.mpr read⟩
  · exact forall_mem_append.mpr ⟨more.stored, forall_mem_singleton.mpr (by simp)⟩
  · exact forall_mem_append.mpr ⟨more.notGenesis, forall_mem_singleton.mpr notGenesis⟩
  · rw [map_append, map_singleton, nodup_append]
    refine ⟨more.distinct, by simp, ?_⟩
    simp only [forall_mem_map, forall_mem_singleton]
    intro r mem
    apply once outOfOrder (r.2.hashPrevBlock, r.1)
    · rw [map]
      exact mem_map.mpr ⟨r, mem, rfl⟩
    · exact more.onDisk r mem
  · exact forall_mem_append.mpr
      ⟨more.fresh, forall_mem_singleton.mpr (between.log.fresh_of_outOfOrder identify outOfOrder)⟩
  · refine forall_mem_append.mpr ⟨more.parents, forall_mem_singleton.mpr ?_⟩
    grind [isSome_of_haveData]
  · refine forall_mem_append.mpr ⟨?_, forall_mem_singleton.mpr ?_⟩
    · exact fun block mem => (settled block mem).mono (subset_append_left ..)
    · exact .inr (.inr (.inr ⟨record, by simp, rfl⟩))
  · simp [map, keyed]

section

variable (healthy : NoSystemErrors node) (agree : ValidatorsAgree node (done ++ [record.2]))
include healthy agree

/-- A record whose block is known: it only lets the queue run. -/
theorem Between.known
    (between : Between node disk done s) (data : haveData record.2.hash s.chain = true) :
    ∃ s', node.releaseAll disk (s.mapBlocksUnknownParent.length + 1) [record.2.hash] s = .ok s' ∧
      Between node disk (done ++ [record.2]) s' := by
  obtain ⟨waiting, waits, settled, map⟩ := between.waits
  have size : s.mapBlocksUnknownParent.length = waiting.length := by rw [map, keyed, length_map]
  apply ((waits.done_mono record.2).queue_mono (by simp)).releaseAll healthy agree
    (between.log.mono record.2) _ map
  · grind [isSome_of_haveData]
  · rw [size, length_singleton]
  · refine forall_mem_append.mpr ⟨settled, forall_mem_singleton.mpr ?_⟩
    exact .inr (.inl ((between.log.data _).mp data))

/-- A record whose block is passed on. -/
theorem Between.process
    (identify : HashesIdentify (done ++ [record.2])) (between : Between node disk done s)
    (fresh : haveData record.2.hash s.chain = false)
    (noChild : (node.processNewBlock record.2 s.chain).chain.mapBlockIndex record.2.hash = none →
      ∀ entry ∈ s.mapBlocksUnknownParent, entry.1 ≠ record.2.hash) :
    ∃ s', node.releaseAll disk (s.mapBlocksUnknownParent.length + 1) [record.2.hash]
      (node.process record.2 s).2 = .ok s' ∧ Between node disk (done ++ [record.2]) s' := by
  obtain ⟨waiting, waits, settled, map⟩ := between.waits
  have size : s.mapBlocksUnknownParent.length = waiting.length := by rw [map, keyed, length_map]
  have log := between.log.mono record.2
  have mem : record.2 ∈ done ++ [record.2] := by simp
  have call : CallSpec node record.2 s.chain (node.processNewBlock record.2 s.chain) :=
    processNewBlock_spec healthy log.sound
  -- a record of the same block would wait for a parent that has been accepted
  have apart : (node.process record.2 s).1.ret = true →
      ∀ r ∈ waiting, r.2.hash ≠ record.2.hash := by
    intro ret r here same
    have prev := identify r.2 (mem_append_left _ (waits.stored r here)) record.2 mem same
    have parents := waits.parents r here
    have notGenesis := waits.notGenesis r here
    grind [call.parent ret fresh]
  have passed := (waits.done_mono record.2).process call apart
  have queued : Waiting node disk (done ++ [record.2]) [record.2.hash] waiting
      (node.process record.2 s).2 := by
    apply passed.queue_mono
    grind
  apply queued.releaseAll healthy agree (log.process healthy mem fresh) _ map
  · intro hash inside
    rw [mem_singleton] at inside
    subst inside
    cases entry : (node.processNewBlock record.2 s.chain).chain.mapBlockIndex record.2.hash with
    | some _ => exact .inl (by simp [Node.process, entry])
    | none =>
      right
      intro r here
      apply noChild entry (r.2.hashPrevBlock, r.1)
      rw [map]
      exact mem_map.mpr ⟨r, here, rfl⟩
  · rw [size, length_singleton]
  · refine forall_mem_append.mpr ⟨?_, forall_mem_singleton.mpr settled_process_self⟩
    exact fun block inside => (settled block inside).process record.2

theorem Between.importBlock
    (identify : HashesIdentify (done ++ [record.2])) (between : Between node disk done s)
    (read : node.readFromFile disk record.1 = some record.2) (once : WaitsOnce node disk s record)
    (noChild : NoChildLeft node s record) :
    ∃ s', node.importBlock disk (some record.1) record.2 s = .ok (s', false) ∧
      Between node disk (done ++ [record.2]) s' := by
  unfold Node.importBlock
  split
  · rename_i outOfOrder
    exact ⟨_, rfl, between.wait identify read once outOfOrder⟩
  · rename_i inOrder
    split
    · rename_i data
      obtain ⟨s', ran, after⟩ := between.known healthy agree data
      exact ⟨s', by simp only [getHash, ran]; rfl, after⟩
    · rename_i fresh
      have fresh : haveData record.2.hash s.chain = false := by simpa [getHash] using fresh
      obtain ⟨s', ran, after⟩ := between.process healthy agree identify fresh
        (noChild (by simpa using inOrder) fresh)
      refine ⟨s', ?_, after⟩
      simp only [healthy.process_isError, Bool.false_eq_true, if_false, getHash, ran]
      rfl

end

/-- A child that waits for a block without an entry is read with the height of a null pointer. -/
theorem importBlock_null (healthy : NoSystemErrors node) (left : ¬ NoChildLeft node s record) :
    node.importBlock disk (some record.1) record.2 s = .error .nullBlockIndex := by
  simp only [NoChildLeft, not_forall, not_not] at left
  obtain ⟨inOrder, fresh, absent, entry, waits, child⟩ := left
  obtain ⟨pos, range, isRange⟩ : ∃ pos range,
      waitingFor record.2.hash (node.process record.2 s).2.mapBlocksUnknownParent =
        pos :: range := by
    apply exists_cons_of_ne_nil
    apply ne_nil_of_mem (a := entry.2)
    exact mem_map.mpr ⟨entry, mem_filter.mpr ⟨waits, by simp [child]⟩, rfl⟩
  have null : node.releaseOne disk record.2.hash pos (node.process record.2 s).2 =
      .error .nullBlockIndex := by
    unfold releaseOne
    simp [process, absent]
  unfold importBlock
  rw [if_neg (by simp [inOrder]), if_neg (by simp [getHash, fresh])]
  simp only [healthy.process_isError, Bool.false_eq_true, if_false, getHash]
  rw [releaseAll, isRange, releaseRange, null]
  rfl

variable {records : List (CDiskBlockPos × CBlock)}

/-- The run over the records, in which nothing goes wrong. -/
theorem Between.importAll (healthy : NoSystemErrors node) {blocks : List CBlock}
    (agree : ValidatorsAgree node blocks) (identify : HashesIdentify blocks)
    (among : ∀ block ∈ done ++ records.map Prod.snd, block ∈ blocks)
    (between : Between node disk done s)
    (read : ∀ r ∈ records, node.readFromFile disk r.1 = some r.2)
    (once : Along node disk (WaitsOnce node disk) records s)
    (noChild : Along node disk (NoChildLeft node) records s) :
    ∃ s', Reindex.importAll node disk records s = .ok s' ∧
      Between node disk (done ++ records.map Prod.snd) s' := by
  induction records generalizing done s with
  | nil =>
    rw [map_nil, append_nil]
    exact ⟨s, rfl, between⟩
  | cons record _ ih =>
    rw [map_cons, append_cons] at among ⊢
    have sub : ∀ block ∈ done ++ [record.2], block ∈ blocks :=
      fun block mem => among block (mem_append_left _ mem)
    obtain ⟨_, ran, after⟩ :=
      between.importBlock healthy (fun block mem => agree block (sub block mem))
      (fun a inside b inside' => identify a (sub a inside) b (sub b inside'))
        (read record mem_cons_self) once.1 noChild.1
    rw [Reindex.importAll, ran]
    exact ih among after (fun r mem => read r (mem_cons_of_mem _ mem)) (once.2 _ ran)
      (noChild.2 _ ran)

/-- A run without a fault has left no child. -/
theorem along_of_importAll (healthy : NoSystemErrors node) {s' : Import W}
    (ran : importAll node disk records s = .ok s') :
    Along node disk (NoChildLeft node) records s := by
  induction records generalizing s with
  | nil => trivial
  | cons _ _ _ =>
    obtain ⟨_, first, _⟩ := except_bind_ok.mp ran
    constructor
    · by_contra left
      simp [importBlock_null healthy left] at first
    · grind

end

end Zcashd.Abstract.Reindex
