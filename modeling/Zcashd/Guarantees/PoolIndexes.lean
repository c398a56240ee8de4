import Zcashd.Lib.Runs
import Zcashd.Source.MempoolIndexes

/-!
# The indexes of the memory pool

`mapNextTx`, the nullifier maps, the totals and the collection of weights repeat what `mapTx`
holds. `pool_indexes_exact` follows them through every sequence of operations on the pool, and
says where they part: `clear` leaves the nullifiers and the weights behind, and `remove` takes
the weights of every transaction in the list it is given.
-/
namespace Zcashd.Guarantees.PoolIndexes

open Lib Source Source.CTxMemPool

/-- The operations, with their arguments and what they read from outside the pool. -/
inductive Op where
  | addUnchecked (hash : Uint256) (entry : CTxMemPoolEntry) (memUsage : Nat)
  | remove (tx : CTransaction) (fRecursive : Bool) (removed : List CTransaction)
  | removeForReorg (checkFinalTx : CTransaction → Bool) (accessCoins : Uint256 → Option CCoins)
      (nMemPoolHeight : Nat)
  | removeForBlock (vtx conflicts : List CTransaction)
  | removeConflicts (tx : CTransaction) (removed : List CTransaction)
  | removeWithAnchor (invalidRoot : Uint256) (type : ShieldedType)
  | removeExpired (nBlockHeight : Nat)
  | removeWithoutBranchId (nMemPoolBranchId : Nat)
  | ensureSizeLimit (random : Nat → Nat) (now : Nat → Int)
  | clear

def Op.step (pool : CTxMemPool) : Op → Option CTxMemPool
  | addUnchecked hash entry memUsage => pool.addUnchecked hash entry memUsage
  | remove tx fRecursive removed => (pool.remove tx fRecursive removed).map (·.1)
  | removeForReorg checkFinalTx accessCoins nMemPoolHeight =>
    pool.removeForReorg checkFinalTx accessCoins nMemPoolHeight
  | removeForBlock vtx conflicts => (pool.removeForBlock vtx conflicts).map (·.1)
  | removeConflicts tx removed => (pool.removeConflicts tx removed).map (·.1)
  | removeWithAnchor invalidRoot type => pool.removeWithAnchor invalidRoot type
  | removeExpired nBlockHeight => pool.removeExpired nBlockHeight
  | removeWithoutBranchId nMemPoolBranchId => pool.removeWithoutBranchId nMemPoolBranchId
  | ensureSizeLimit random now => pool.ensureSizeLimit random now
  | clear => some pool.clear

/-- What is added is new to the pool; a list for the removed transactions has none of the pool;
`clear` is only called on a pool without transactions. -/
def Op.Permitted (pool : CTxMemPool) : Op → Prop
  | addUnchecked hash entry _ => hash = entry.tx.hash ∧ pool.Fresh entry.tx
  | remove _ _ removed | removeConflicts _ removed | removeForBlock _ removed => pool.Off removed
  | clear => ∀ id, id ∉ pool.mapTx
  | _ => True

/-- The indexes hold exactly what the entries of `mapTx` imply. -/
structure Exact (pool : CTxMemPool) : Prop where
  nextTx : ∀ prevout id, (∃ n, pool.mapNextTx.lookup prevout = some ⟨id, n⟩) ↔
    ∃ entry, pool.mapTx.lookup id = some entry ∧ ∃ txin ∈ entry.tx.vin, txin.prevout = prevout
  nullifiers : ∀ type nf id, (pool.mapNullifiers type).lookup nf = some id ↔
    ∃ entry, pool.mapTx.lookup id = some entry ∧ nf ∈ entry.tx.revealed type
  totalTxSize : pool.totalTxSize.toNat =
    (pool.mapTx.entries.map (fun entry => entry.2.nTxSize)).sum % 2 ^ 64
  cachedInnerUsage : pool.cachedInnerUsage.toNat =
    (pool.mapTx.entries.map (fun entry => entry.2.nUsageSize)).sum % 2 ^ 64
  weights : ∀ id, (id ∈ pool.weightedTxTree.ids ↔ id ∈ pool.mapTx) ∧
    (id ∈ pool.weightedTxTree.txIdToIndexMap ↔ id ∈ pool.mapTx)

variable {pool : CTxMemPool}

section

variable (consistent : pool.Consistent)
include consistent

theorem exact_of_consistent : Exact pool where
  nextTx := by
    intro prevout id
    have index := consistent.indexed.nextTx prevout id
    simp only [spender, prevouts, List.mem_map, Option.map_eq_some_iff] at index
    rw [← index]
    constructor
    · rintro ⟨n, hit⟩
      exact ⟨_, hit, rfl⟩
    · rintro ⟨⟨_, n⟩, hit, rfl⟩
      exact ⟨n, hit⟩
  nullifiers type := consistent.indexed.nullifiers type
  totalTxSize := by
    rw [consistent.indexed.txSize, UInt64.toNat_ofNat']
    rfl
  cachedInnerUsage := by
    rw [consistent.indexed.innerUsage, UInt64.toNat_ofNat']
    rfl
  weights id :=
    ⟨consistent.weights id, consistent.formed.index.mem_iff.trans (consistent.weights id)⟩

theorem clear_consistent (none : ∀ id, id ∉ pool.mapTx) : pool.clear.Consistent where
  indexed :=
    { key := by
        intro _ _ held
        cases held
      nextTx := IsIndex.empty _
      nullifiers := by
        intro type _ id
        refine iff_of_false (fun hit => ?_) (by simp [CTxMemPool.clear])
        exact none id ((consistent.indexed.nullifiers type).mem_store hit)
      txSize := rfl
      innerUsage := rfl }
  formed := consistent.formed
  weights := by
    intro id
    refine iff_of_false (fun inside => none id ((consistent.weights id).mp inside)) ?_
    simp [CTxMemPool.clear]

theorem step_consistent {pool' : CTxMemPool} {op : Op} (permitted : op.Permitted pool)
    (ran : op.step pool = some pool') : pool'.Consistent := by
  have shrunk : ∀ {result : Option (CTxMemPool × List CTransaction)},
      (∃ state, result = some state ∧ pool.Shrinks state) → result.map (·.1) = some pool' →
        pool'.Consistent := by
    rintro _ ⟨_, rfl, shrinks⟩ ⟨⟩
    exact shrinks.1
  have gone : ∀ {txs : List CTransaction}, removeEach txs pool = some pool' → pool'.Consistent := by
    intro txs ran
    obtain ⟨_, ran', kept⟩ := consistent.removeEach txs
    rw [ran] at ran'
    cases ran'
    exact kept
  cases op with
  | addUnchecked _ _ memUsage =>
    obtain ⟨rfl, fresh⟩ := permitted
    obtain ⟨_, added, kept⟩ := consistent.addUnchecked fresh memUsage
    rw [Op.step, added] at ran
    cases ran
    exact kept
  | remove tx fRecursive _ => exact shrunk (consistent.remove permitted tx fRecursive) ran
  | removeForReorg _ _ _ =>
    rw [Op.step, CTxMemPool.removeForReorg, Option.bind_eq_bind, Option.bind_eq_some_iff] at ran
    obtain ⟨_, -, ran⟩ := ran
    exact gone ran
  | removeForBlock vtx _ => exact shrunk (consistent.removeForBlock permitted vtx) ran
  | removeConflicts tx _ => exact shrunk (consistent.removeConflicts permitted tx) ran
  | removeWithAnchor _ _ => exact gone ran
  | removeExpired _ => exact gone ran
  | removeWithoutBranchId _ => exact gone ran
  | ensureSizeLimit _ _ => exact consistent.ensureSizeLimitLoop ran
  | clear =>
    cases ran
    exact clear_consistent consistent permitted

end

/-- **The indexes of the pool.** In every pool reached by permitted operations they are exact.
From such a pool, `clear` keeps them exact only if there was nothing to clear, and `remove` only
if no transaction that it found in the caller's list is left in the pool. -/
theorem pool_indexes_exact {nCheckFrequency : Nat} {totalCostLimit evictionMemorySeconds : Int}
    {pool : CTxMemPool}
    (reached : Reached Op.step Op.Permitted
      (.empty nCheckFrequency totalCostLimit evictionMemorySeconds) pool) :
    Exact pool ∧ (Exact pool.clear ↔ ∀ id, id ∉ pool.mapTx) ∧
    ∀ tx fRecursive removed,
      ∃ pool' removed', pool.remove tx fRecursive removed = some (pool', removed') ∧
      (Exact pool' ↔ pool'.Off removed) := by
  have consistent : pool.Consistent := reached.invariant (consistent_empty _ _ _)
    fun _ _ _ consistent permitted ran => step_consistent consistent permitted ran
  refine ⟨exact_of_consistent consistent, ⟨fun exact id inside => ?_, fun none => ?_⟩,
    fun tx fRecursive removed => ?_⟩
  · have left := ((exact.weights id).1).mp ((consistent.weights id).mpr inside)
    simp [CTxMemPool.clear] at left
  · exact exact_of_consistent (clear_consistent consistent none)
  · obtain ⟨pool', _, ran, -, lost, consistent'⟩ := consistent.remove_listed tx fRecursive removed
    refine ⟨pool', _, ran, fun exact => lost fun id inside => ?_,
      fun off => exact_of_consistent (consistent' off)⟩
    exact ((exact.weights id).1).mpr inside

/-- A shielded transaction. -/
def spending : CTransaction :=
  { hash := 7, fOverwintered := true, nVersion := 4, nVersionGroupId := 0x892F2085,
    vin := [⟨⟨3, 0⟩, []⟩], vout := [],
    nExpiryHeight := 0, valueBalance := 0, vShieldedSpend := [⟨1, 9⟩], vShieldedOutput := [],
    vJoinSplit := [] }

/-- The pool with `spending` only. -/
def holding : Option CTxMemPool :=
  (CTxMemPool.empty 0 80000000 3600).addUnchecked 7 ⟨spending, 10000, 500, 700, false, 0⟩ 700

theorem holding_reached : ∃ pool, holding = some pool ∧
    Reached Op.step Op.Permitted (.empty 0 80000000 3600) pool := by
  have permitted : (Op.addUnchecked 7 ⟨spending, 10000, 500, 700, false, 0⟩ 700).Permitted
      (CTxMemPool.empty 0 80000000 3600) := by
    refine ⟨rfl, ?_, ?_, ?_⟩
    · simp [CTxMemPool.empty]
    · intro _ _ held
      cases held
    · intro _ _ _ held
      cases held
  exact ⟨_, rfl, .next .start permitted rfl⟩

theorem pool_indexes_exact_holding : ∃ pool, holding = some pool ∧ Exact pool := by
  obtain ⟨pool, made, reached⟩ := holding_reached
  exact ⟨pool, made, (pool_indexes_exact reached).1⟩

/-- After `clear` the nullifier of `spending` is still there and points to nothing, so
`removeConflicts` follows a pointer into a freed entry. -/
theorem clear_leaves_nullifier : ∃ pool, holding = some pool ∧
    Reached Op.step Op.Permitted (.empty 0 80000000 3600) pool ∧
    ¬ Exact pool.clear ∧ (pool.clear.mapNullifiers .sapling).lookup 9 = some 7 ∧
    7 ∉ pool.clear.mapTx ∧
    7 ∈ pool.clear.weightedTxTree.ids ∧
    pool.clear.removeConflicts { spending with hash := 8 } [] = none := by
  obtain ⟨_, made, reached⟩ := holding_reached
  cases made
  refine ⟨_, rfl, reached, fun exact => ?_, by decide, by decide, by decide, by decide⟩
  exact absurd (((exact.weights 7).1).mp (by decide)) (by decide)

end Zcashd.Guarantees.PoolIndexes
