import Zcashd.Source.TxMemPool

/-!
The redundant members of the memory pool follow `mapTx`: what each change of one entry does to
the indexes and totals, then the loop of `remove`, then `remove` as a whole.
-/
namespace Zcashd.Source.CTxMemPool

open Lib List AList WeightedTxTree CTxMemPool

def prevouts (tx : CTransaction) : List COutPoint := tx.vin.map (·.prevout)

/-- The transaction of the pool that spends an outpoint. -/
def spender (pool : CTxMemPool) (prevout : COutPoint) : Option Uint256 :=
  (pool.mapNextTx.lookup prevout).map (·.ptx)

/-- The transaction of the pool that reveals a nullifier. -/
def revealer (pool : CTxMemPool) (type : ShieldedType) (nf : Uint256) : Option Uint256 :=
  (pool.mapNullifiers type).lookup nf

/-- Everything that is kept beside `mapTx` and does not concern the limit of the pool. -/
structure Indexed (pool : CTxMemPool) : Prop where
  key : ∀ id entry, pool.mapTx.lookup id = some entry → entry.tx.hash = id
  nextTx : IsIndex (fun entry => prevouts entry.tx) pool.mapTx pool.spender
  nullifiers : ∀ type, IsIndex (fun entry => entry.tx.revealed type) pool.mapTx (pool.revealer type)
  txSize : pool.totalTxSize = UInt64.ofNat (weightSum (·.nTxSize) pool.mapTx)
  innerUsage : pool.cachedInnerUsage = UInt64.ofNat (weightSum (·.nUsageSize) pool.mapTx)

variable {pool : CTxMemPool} {hash : Uint256} {entry : CTxMemPoolEntry}

variable (nCheckFrequency : Nat) (totalCostLimit evictionMemorySeconds : Int)

theorem indexed_empty :
    (empty nCheckFrequency totalCostLimit evictionMemorySeconds).Indexed where
  key := by
    intro _ _ held
    cases held
  nextTx := IsIndex.empty _
  nullifiers _ := IsIndex.empty _
  txSize := rfl
  innerUsage := rfl

/-- A transaction that is not in the pool and has no input and no nullifier of one in it. -/
structure Fresh (pool : CTxMemPool) (tx : CTransaction) : Prop where
  new : tx.hash ∉ pool.mapTx
  inputs : ∀ id entry, pool.mapTx.lookup id = some entry →
    ∀ prevout ∈ prevouts tx, prevout ∉ prevouts entry.tx
  nullifiers : ∀ type id entry, pool.mapTx.lookup id = some entry →
    ∀ nf ∈ tx.revealed type, nf ∉ entry.tx.revealed type

variable {tx : CTransaction}

/-- The loop over the inputs in `addUnchecked`. -/
theorem spender_addInputs {map : AList (fun _ : COutPoint => CInPoint)} {prevout : COutPoint} :
    ((tx.vin.zipIdx.foldl (fun map (txin, i) => map.insert txin.prevout ⟨hash, i⟩) map).lookup
      prevout).map (·.ptx) =
      if prevout ∈ prevouts tx then some hash else (map.lookup prevout).map (·.ptx) := by
  have keys : tx.vin.zipIdx.map (fun p => p.1.prevout) = prevouts tx := by
    have first : (fun p : CTxIn × Nat => p.1.prevout) = CTxIn.prevout ∘ Prod.fst := rfl
    rw [first, ← map_map, zipIdx_map_fst, prevouts]
  by_cases mem : prevout ∈ prevouts tx
  · rw [if_pos mem]
    obtain ⟨p, -, -, out⟩ := lookup_foldl_insert_of_mem (keys ▸ mem) map
    exact congrArg (Option.map CInPoint.ptx) out
  · rw [if_neg mem]
    exact congrArg (Option.map CInPoint.ptx) (lookup_foldl_insert_of_notMem (keys ▸ mem) map)

/-- The loops over the nullifiers in `addUnchecked`. -/
theorem revealer_addNullifiers {map : Uint256Map Uint256} {nfs : List Uint256} {nf : Uint256} :
    (nfs.foldl (fun map nf => map.insert nf hash) map).lookup nf = if nf ∈ nfs then some hash
      else map.lookup nf := by
  have keys : nfs.map id = nfs := map_id nfs
  by_cases mem : nf ∈ nfs
  · rw [if_pos mem]
    obtain ⟨_, -, -, out⟩ := lookup_foldl_insert_of_mem (keys.symm ▸ mem) map
    exact out
  · rw [if_neg mem]
    exact lookup_foldl_insert_of_notMem (keys.symm ▸ mem) map

theorem add_ofNat (a b : Nat) : UInt64.ofNat b + UInt64.ofNat a = UInt64.ofNat (a + b) := by
  rw [Nat.add_comm, UInt64.ofNat_add]

theorem sub_ofNat_add (a b : Nat) : UInt64.ofNat (a + b) - UInt64.ofNat a = UInt64.ofNat b := by
  rw [UInt64.ofNat_add, UInt64.add_comm, UInt64.add_sub_cancel]

theorem Indexed.addUnchecked (indexed : pool.Indexed) (fresh : pool.Fresh entry.tx)
    (memUsage : Nat) :
    ∃ pool', pool.addUnchecked entry.tx.hash entry memUsage = some pool' ∧ pool'.Indexed ∧
      pool'.mapTx = pool.mapTx.insert entry.tx.hash entry ∧
      pool'.weightedTxTree =
        pool.weightedTxTree.add (.ofTransaction memUsage entry.tx entry.nFee) := by
  have absent := lookup_eq_none.mpr fresh.new
  simp only [CTxMemPool.addUnchecked, if_neg fresh.new, lookup_insert, Option.bind_eq_bind,
    Option.bind_some]
  refine ⟨_, rfl, ⟨?_, ?_, ?_, ?_, ?_⟩, rfl, rfl⟩
  · grind [indexed.key]
  · refine indexed.nextTx.insert absent (fun prevout mem => ?_) (fun prevout mem => ?_)
      (fun prevout other => ?_)
    · exact indexed.nextTx.find_eq_none fun id other held => fresh.inputs id other held prevout mem
    · exact (spender_addInputs).trans (if_pos mem)
    · exact (spender_addInputs).trans (if_neg other)
  · intro type
    refine (indexed.nullifiers type).insert absent (fun nf mem => ?_) (fun nf mem => ?_)
      (fun nf other => ?_)
    · exact (indexed.nullifiers type).find_eq_none fun id other held =>
        fresh.nullifiers type id other held nf mem
    · exact (revealer_addNullifiers).trans (if_pos mem)
    · exact (revealer_addNullifiers).trans (if_neg other)
  · rw [weightSum_insert absent, indexed.txSize, add_ofNat]
  · rw [weightSum_insert absent, indexed.innerUsage, add_ofNat]

theorem Indexed.eraseEntry (indexed : pool.Indexed) (held : pool.mapTx.lookup hash = some entry) :
    (pool.eraseEntry hash entry).Indexed where
  key := by
    intro _ _ kept
    rw [CTxMemPool.eraseEntry, lookup_erase_eq] at kept
    grind [indexed.key]
  nextTx := by
    have erased : ∀ prevout, (pool.eraseEntry hash entry).spender prevout =
        (if prevout ∈ prevouts entry.tx then none else pool.mapNextTx.lookup prevout).map (·.ptx) :=
          fun prevout =>
      congrArg (Option.map CInPoint.ptx)
        (lookup_foldl_erase CTxIn.prevout entry.tx.vin pool.mapNextTx prevout)
    refine indexed.nextTx.erase held (fun prevout mem => ?_) (fun prevout other => ?_)
    · rw [erased, if_pos mem, Option.map_none]
    · rw [erased, if_neg other, spender]
  nullifiers := by
    intro type
    have erased : ∀ nf, (pool.eraseEntry hash entry).revealer type nf =
        if nf ∈ (entry.tx.revealed type).map id then none
        else (pool.mapNullifiers type).lookup nf :=
      lookup_foldl_erase id (entry.tx.revealed type) (pool.mapNullifiers type)
    simp only [map_id] at erased
    refine (indexed.nullifiers type).erase held (fun nf mem => ?_) (fun nf other => ?_)
    · rw [erased, if_pos mem]
    · rw [erased, if_neg other, revealer]
  txSize := by
    have old : weightSum (·.nTxSize) pool.mapTx = _ := weightSum_erase held
    rw [CTxMemPool.eraseEntry, indexed.txSize, old, sub_ofNat_add]
  innerUsage := by
    have old : weightSum (·.nUsageSize) pool.mapTx = _ := weightSum_erase held
    rw [CTxMemPool.eraseEntry, indexed.innerUsage, old, sub_ofNat_add]

/-- Only the members that concern the limit differ. -/
theorem Indexed.withLimit (indexed : pool.Indexed) (recentlyEvicted : RecentlyEvictedList)
    (weightedTxTree : WeightedTxTree) : { pool with recentlyEvicted, weightedTxTree }.Indexed := by
  obtain ⟨key, nextTx, nullifiers, txSize, innerUsage⟩ := indexed
  exact ⟨key, nextTx, nullifiers, txSize, innerUsage⟩

/-- The ids that a list of removed transactions stands for. -/
def hashes (txs : List CTransaction) : List Uint256 := txs.map (·.hash)

variable {id : Uint256} {txs : List CTransaction}

theorem mem_hashes_cons :
    id ∈ hashes (tx :: txs) ↔ id = tx.hash ∨ id ∈ hashes txs := mem_cons

theorem mem_hashes_append {txs' : List CTransaction} :
    id ∈ hashes (txs ++ txs') ↔ id ∈ hashes txs ∨ id ∈ hashes txs' := by
  rw [hashes, map_append, mem_append, hashes, hashes]

/-- What a removal does to the entries: those that are gone are listed, the others are as they
were, and the indexes follow. -/
structure Removal (pool pool' : CTxMemPool) (gone : List CTransaction) : Prop where
  indexed : pool'.Indexed
  kept : ∀ id entry, pool'.mapTx.lookup id = some entry ↔ pool.mapTx.lookup id = some entry ∧
    id ∉ hashes gone
  inside : ∀ id ∈ hashes gone, id ∈ pool.mapTx

theorem Removal.refl (indexed : pool.Indexed) : Removal pool pool [] where
  indexed := indexed
  kept := by simp [hashes]
  inside := by simp [hashes]

variable {pool' : CTxMemPool} {gone : List CTransaction}

theorem Removal.mem (removal : Removal pool pool' gone) (id : Uint256) :
    id ∈ pool'.mapTx ↔ id ∈ pool.mapTx ∧ id ∉ hashes gone := by
  simp [← lookup_isSome, Option.isSome_iff_exists, removal.kept]

theorem Removal.cons (indexed : pool.Indexed) (held : pool.mapTx.lookup hash = some entry)
    (rest : Removal (pool.eraseEntry hash entry) pool' gone) :
    Removal pool pool' (entry.tx :: gone) := by
  have same : entry.tx.hash = hash := indexed.key hash entry held
  have erased : (pool.eraseEntry hash entry).mapTx = pool.mapTx.erase hash := rfl
  refine ⟨rest.indexed, fun id _ => ?_, fun id mem => ?_⟩
  · rw [rest.kept, erased, mem_hashes_cons, same, not_or]
    by_cases here : id = hash
    · subst here
      simp
    · rw [lookup_erase_ne here]
      simp [here]
  · rw [mem_hashes_cons, same] at mem
    obtain rfl | later := mem
    · exact lookup_isSome.mp (by rw [held]; rfl)
    · have old := rest.inside id later
      rw [erased, mem_erase] at old
      exact old.2

/-- The pointers in `mapNextTx` can be followed. -/
theorem Indexed.spenders (indexed : pool.Indexed) (hash : Uint256) (outputs : Nat) :
    ∃ hit, pool.spenders hash outputs = some hit := by
  refine exists_mapM fun _ mem => ?_
  obtain ⟨i, -, hit⟩ := mem_filterMap.mp mem
  have points := congrArg (Option.map CInPoint.ptx) hit
  obtain ⟨entry, held, -⟩ := (indexed.nextTx _ _).mp points
  exact ⟨entry.tx.hash, by rw [held]; rfl⟩

variable {removed : List CTransaction}

/-- The loop comes to its end, with every id of its list gone. The collection of weights is not
its business. -/
theorem removeLoop_removes {fRecursive : Bool} {txToRemove : List Uint256}
    (indexed : pool.Indexed) :
    ∃ pool' gone, removeLoop fRecursive txToRemove pool removed = some (pool', removed ++ gone) ∧
      Removal pool pool' gone ∧ pool'.weightedTxTree = pool.weightedTxTree ∧
      ∀ id ∈ txToRemove, id ∉ pool'.mapTx := by
  fun_induction removeLoop fRecursive txToRemove pool removed with
  | case1 pool _ =>
    exact ⟨pool, [], by rw [append_nil], .refl indexed, rfl, by simp⟩
  | case2 _ _ _ _ _ ih =>
    obtain ⟨pool', gone, ran, removal, tree, _⟩ := ih indexed
    refine ⟨pool', gone, ran, removal, tree, fun id mem => ?_⟩
    grind [lookup_eq_none, removal.mem]
  | case3 _ _ hash _ entry _ noChildren =>
    exfalso
    cases fRecursive with
    | true =>
      obtain ⟨_, some_found⟩ := indexed.spenders hash entry.tx.vout.length
      rw [dif_pos rfl, some_found] at noChildren
      cases noChildren
    | false => cases noChildren
  | case4 _ _ _ _ entry held _ _ ih =>
    obtain ⟨pool', gone, ran, removal, tree, _⟩ := ih (indexed.eraseEntry held)
    refine ⟨pool', entry.tx :: gone, ?_, .cons indexed held removal, tree, fun id mem => ?_⟩
    · rw [ran, append_assoc, singleton_append]
    · grind [removal.mem, eraseEntry, mem_erase]

variable {tree : WeightedTxTree}

theorem removeWeights (formed : tree.WellFormed) :
    ∃ tree', txs.foldlM (fun tree tx => tree.remove tx.hash) tree = some tree' ∧ tree'.WellFormed ∧
      ∀ id, id ∈ tree'.ids ↔ id ∈ tree.ids ∧ id ∉ hashes txs := by
  obtain ⟨tree', ran, removed⟩ := formed.removedAll (hashes txs)
  rw [hashes, foldlM_map] at ran
  exact ⟨tree', ran, removed.wellFormed formed, removed.mem_ids formed⟩

/-- `remove`, recursive or not: it comes to its end; the transaction is gone, and the weights of
all that are listed. -/
theorem remove_removes (indexed : pool.Indexed) (formed : pool.weightedTxTree.WellFormed)
    (origTx : CTransaction) (fRecursive : Bool) (removed : List CTransaction) :
    ∃ pool' gone, pool.remove origTx fRecursive removed = some (pool', removed ++ gone) ∧
      Removal pool pool' gone ∧ origTx.hash ∉ pool'.mapTx ∧ pool'.weightedTxTree.WellFormed ∧
      ∀ id, id ∈ pool'.weightedTxTree.ids ↔ id ∈ pool.weightedTxTree.ids ∧
        id ∉ hashes (removed ++ gone) := by
  obtain ⟨children, spent⟩ : ∃ children, pool.orphans origTx fRecursive = some children := by
    rw [orphans]
    split
    · exact indexed.spenders _ _
    · exact ⟨[], rfl⟩
  obtain ⟨mid, gone, ran, removal, tree, all⟩ :
    ∃ mid gone, removeLoop fRecursive (origTx.hash :: children) pool removed =
      some (mid, removed ++ gone) ∧ _ ∧ _ ∧ _ :=
    removeLoop_removes indexed
  obtain ⟨tree', weights, formed', ids'⟩ := removeWeights formed
  refine ⟨{ mid with weightedTxTree := tree' }, gone, ?_, ?_, all _ mem_cons_self, formed', ids'⟩
  · rw [remove, spent]
    simp only [Option.bind_eq_bind, Option.bind_some, ran, tree, weights]
    rfl
  · exact ⟨removal.indexed.withLimit mid.recentlyEvicted tree', removal.kept, removal.inside⟩

/-- All redundant members of the pool follow `mapTx`. -/
structure Consistent (pool : CTxMemPool) : Prop where
  indexed : pool.Indexed
  formed : pool.weightedTxTree.WellFormed
  weights : ∀ id, id ∈ pool.weightedTxTree.ids ↔ id ∈ pool.mapTx

/-- None of the transactions is in the pool. -/
def Off (pool : CTxMemPool) (txs : List CTransaction) : Prop := ∀ id ∈ hashes txs, id ∉ pool.mapTx

theorem consistent_empty :
    (empty nCheckFrequency totalCostLimit evictionMemorySeconds).Consistent where
  indexed := indexed_empty _ _ _
  formed := wellFormed_empty _
  weights := by
    intro _
    simp [empty, WeightedTxTree.empty, WeightedTxTree.ids]

theorem Consistent.addUnchecked (ok : pool.Consistent) (fresh : pool.Fresh entry.tx)
    (memUsage : Nat) :
    ∃ pool', pool.addUnchecked entry.tx.hash entry memUsage = some pool' ∧ pool'.Consistent := by
  obtain ⟨pool', added, indexed, mapTx, tree⟩ := ok.indexed.addUnchecked fresh memUsage
  have new : (WeightedTxInfo.ofTransaction memUsage entry.tx entry.nFee).txId ∉
      pool.weightedTxTree.ids := fun inside =>
    fresh.new ((ok.weights _).mp inside)
  obtain ⟨formed, ids⟩ := ok.formed.add new
  refine ⟨pool', added, indexed, tree ▸ formed, fun _ => ?_⟩
  rw [tree, ids, mapTx, mem_insert, mem_append, ok.weights, mem_singleton, or_comm]
  rfl

section

/-- What a removing operation leads to: a consistent pool with fewer entries, and a list of
transactions that are not in it. -/
def Shrinks (pool : CTxMemPool) (state : CTxMemPool × List CTransaction) : Prop :=
  state.1.Consistent ∧ state.1.Off state.2 ∧ ∀ id, id ∈ state.1.mapTx → id ∈ pool.mapTx

section

variable (ok : pool.Consistent)
include ok

/-- `remove` keeps the pool consistent if nothing that was listed before is left in it; otherwise
what is left has lost its weight. -/
theorem Consistent.remove_listed (origTx : CTransaction) (fRecursive : Bool)
    (removed : List CTransaction) :
    ∃ pool' gone, pool.remove origTx fRecursive removed = some (pool', removed ++ gone) ∧
      Removal pool pool' gone ∧
      ((∀ id, id ∈ pool'.mapTx → id ∈ pool'.weightedTxTree.ids) → pool'.Off removed) ∧
      (pool'.Off removed → pool'.Consistent) := by
  obtain ⟨pool', gone, ran, removal, -, formed, _⟩ :=
    remove_removes ok.indexed ok.formed origTx fRecursive removed
  refine ⟨pool', gone, ran, removal, fun weights id _ _ => ?_,
    fun _ => ⟨removal.indexed, formed, fun id => ?_⟩⟩
  · grind [mem_hashes_append]
  · grind [ok.weights, removal.mem, mem_hashes_append, Off]

theorem Consistent.remove (off : pool.Off removed) (origTx : CTransaction) (fRecursive : Bool) :
    ∃ state, pool.remove origTx fRecursive removed = some state ∧ pool.Shrinks state := by
  obtain ⟨pool', _, ran, removal, -, ok'⟩ := ok.remove_listed origTx fRecursive removed
  have fewer : ∀ id, id ∈ pool'.mapTx → id ∈ pool.mapTx :=
    fun id inside => ((removal.mem id).mp inside).1
  refine ⟨_, ran, ok' fun id listed inside => off id listed (fewer id inside),
    fun id listed inside => ?_, fewer⟩
  rw [mem_hashes_append] at listed
  exact listed.elim (fun old => off id old (fewer id inside)) ((removal.mem id).mp inside).2

theorem Consistent.removeEach (txs : List CTransaction) :
    ∃ pool', removeEach txs pool = some pool' ∧ pool'.Consistent := by
  refine exists_foldlM Consistent (fun tx _ pool ok => ?_) ok
  have off : pool.Off [] := by simp [Off, hashes]
  obtain ⟨state, ran, shrinks⟩ := ok.remove off tx true
  exact ⟨state.1, by rw [ran]; rfl, shrinks.1⟩

end

variable {state : CTxMemPool × List CTransaction}

theorem Consistent.removeConflict (shrinks : pool.Shrinks state) (tx : CTransaction)
    {hit : Option Uint256} (points : ∀ ptx, hit = some ptx → ptx ∈ state.1.mapTx) :
    ∃ state', removeConflict tx hit state = some state' ∧ pool.Shrinks state' := by
  obtain ⟨ok, off, fewer⟩ := shrinks
  cases hit with
  | none => exact ⟨state, rfl, ok, off, fewer⟩
  | some ptx =>
    obtain ⟨txConflict, held⟩ := Option.isSome_iff_exists.mp (lookup_isSome.mpr (points ptx rfl))
    obtain ⟨state', ran, ok', off', fewer'⟩ := ok.remove off txConflict.tx true
    rw [CTxMemPool.removeConflict, held]
    by_cases other : txConflict.tx.hash ≠ tx.hash
    · exact ⟨state', by simpa [other] using ran, ok', off',
        fun id inside => fewer id (fewer' id inside)⟩
    · exact ⟨state, by simp [other], ok, off, fewer⟩

/-- One of the three loops of `removeConflicts`. -/
theorem Consistent.removeConflict_loop {A : Type} {find : CTxMemPool → A → Option Uint256}
    (tx : CTransaction)
    (points : ∀ state : CTxMemPool, state.Consistent →
      ∀ a ptx, find state a = some ptx → ptx ∈ state.mapTx)
    (l : List A) (shrinks : pool.Shrinks state) :
    ∃ state', l.foldlM (fun state a => CTxMemPool.removeConflict tx (find state.1 a) state) state =
      some state' ∧ pool.Shrinks state' :=
  exists_foldlM pool.Shrinks
    (fun a _ state shrinks => removeConflict shrinks tx (points state.1 shrinks.1 a)) shrinks

theorem Consistent.removeConflicts (ok : pool.Consistent) (off : pool.Off removed)
    (tx : CTransaction) :
    ∃ state, pool.removeConflicts tx removed = some state ∧ pool.Shrinks state := by
  have start : pool.Shrinks (pool, removed) := ⟨ok, off, fun _ inside => inside⟩
  have spends : ∀ state : CTxMemPool, state.Consistent → ∀ (txin : CTxIn) ptx,
      state.spender txin.prevout = some ptx → ptx ∈ state.mapTx := fun state ok txin ptx hit =>
    ok.indexed.nextTx.mem_store hit
  have reveals : ∀ type, ∀ state : CTxMemPool, state.Consistent → ∀ nf ptx,
      state.revealer type nf = some ptx → ptx ∈ state.mapTx := fun type state ok nf ptx hit =>
    (ok.indexed.nullifiers type).mem_store hit
  obtain ⟨_, ranInputs, shrinks⟩ := removeConflict_loop tx spends tx.vin start
  obtain ⟨sprout, ranSprout, shrinks⟩ :=
    removeConflict_loop tx (reveals .sprout) (tx.revealed .sprout) shrinks
  obtain ⟨sapling, ranSapling, shrinks⟩ :=
    removeConflict_loop tx (reveals .sapling) (tx.revealed .sapling) shrinks
  simp only [spender, revealer] at ranInputs ranSprout ranSapling
  refine ⟨sapling, ?_, shrinks⟩
  rw [CTxMemPool.removeConflicts, ranInputs]
  simp [ranSprout, ranSapling]

theorem Consistent.removeForBlock (ok : pool.Consistent) {conflicts : List CTransaction}
    (off : pool.Off conflicts) (vtx : List CTransaction) :
    ∃ state, pool.removeForBlock vtx conflicts = some state ∧ pool.Shrinks state := by
  refine exists_foldlM pool.Shrinks (fun tx _ state shrinks => ?_) ⟨ok, off, fun _ inside => inside⟩
  obtain ⟨ok, off, fewer⟩ := shrinks
  have none : state.1.Off [] := by simp [Off, hashes]
  obtain ⟨mid, ran, consistentMid, -, fewerMid⟩ := ok.remove none tx false
  have offMid : mid.1.Off state.2 := fun id listed inside => off id listed (fewerMid id inside)
  obtain ⟨state', ranConflicts, ok', off', fewer'⟩ := consistentMid.removeConflicts offMid tx
  refine ⟨state', ?_, ok', off', fun id inside => fewer id (fewerMid id (fewer' id inside))⟩
  rw [ran, Option.bind_eq_bind, Option.bind_some]
  exact ranConflicts

variable {nRand : Nat}

/-- A round of `EnsureSizeLimit` that drops an id: the id is one of the pool. -/
theorem Consistent.dropRandom (ok : pool.Consistent) {txId : Uint256}
    (dropped : pool.weightedTxTree.maybeDropRandom nRand = some (tree, some txId)) :
    txId ∈ pool.mapTx ∧ tree.WellFormed ∧ ∀ id, id ∈ tree.ids ↔ id ∈ pool.mapTx ∧ id ≠ txId := by
  rw [maybeDropRandom] at dropped
  split at dropped
  · cases dropped
  · simp only [Option.bind_eq_bind, Option.bind_eq_some_iff] at dropped
    obtain ⟨_, -, info, here, _, removed, ⟨⟩⟩ := dropped
    have mem : info.txId ∈ pool.weightedTxTree.ids := mem_map_of_mem (mem_of_getElem? here)
    obtain ⟨_, removed', formed, ids⟩ := ok.formed.remove info.txId
    rw [removed] at removed'
    cases removed'
    exact ⟨(ok.weights _).mp mem, formed, fun id => by rw [ids, ok.weights]⟩

theorem maybeDropRandom_none {tree' : WeightedTxTree}
    (kept : tree.maybeDropRandom nRand = some (tree', none)) : tree' = tree := by
  rw [maybeDropRandom] at kept
  split at kept
  · cases kept
    rfl
  · simp only [Option.bind_eq_bind, Option.bind_eq_some_iff] at kept
    obtain ⟨_, -, _, -, _, -, ⟨⟩⟩ := kept

theorem Consistent.ensureSizeLimitLoop (ok : pool.Consistent) {random : Nat → Nat} {now : Nat → Int}
    {rounds : Nat} (ran : pool.ensureSizeLimitLoop random now rounds = some pool') :
    pool'.Consistent := by
  induction rounds generalizing pool with
  | zero => cases ran
  | succ rounds ih =>
    rw [ensureSizeLimitLoop, Option.bind_eq_bind, Option.bind_eq_some_iff] at ran
    obtain ⟨⟨tree, maybeDropTxId⟩, drawn, ran⟩ := ran
    cases maybeDropTxId with
    | none =>
      cases ran
      rwa [maybeDropRandom_none drawn]
    | some txId =>
      obtain ⟨inside, formed, ids⟩ := ok.dropRandom drawn
      obtain ⟨entry, held⟩ := Option.isSome_iff_exists.mp (lookup_isSome.mpr inside)
      simp only [held, Option.bind_eq_bind, Option.bind_some, Option.bind_eq_some_iff] at ran
      obtain ⟨⟨_, _⟩, removed, ran⟩ := ran
      obtain ⟨_, _, removed', removal, left, formed', ids'⟩ :=
        remove_removes (ok.indexed.withLimit (pool.recentlyEvicted.add txId (now rounds)) tree)
          formed entry.tx true []
      rw [removed] at removed'
      cases removed'
      -- the dropped id has left the weights before, and the pool now
      rw [ok.indexed.key txId entry held] at left
      refine ih ⟨removal.indexed, formed', fun _ => ?_⟩ ran
      rw [ids', ids, nil_append, removal.mem]
      constructor
      · rintro ⟨⟨mem, -⟩, notGone⟩
        exact ⟨mem, notGone⟩
      · rintro ⟨mem, notGone⟩
        refine ⟨⟨mem, ?_⟩, notGone⟩
        rintro rfl
        exact left ((removal.mem _).mpr ⟨mem, notGone⟩)

end

end Zcashd.Source.CTxMemPool
