import Zcashd.Source.MempoolRemoval
import Zcashd.Source.WeightSums

/-!
# Keeping the memory pool below its limit

`CTxMemPool::EnsureSizeLimit` draws transactions until the costs are below the limit, and removes
each of them with what descends from it, so that a round may take several ids out of the
collection it draws from. `size_limit_kept` says that it ends and what every round did, for every
pool within its limit, of which nothing is drawn, and every pool whose eviction weights sum up to
less than `2 ^ 31`. Otherwise the `int` that holds the random number can be negative, and the search
for it goes down to the left without end (`negative_draw_never_ends`); a pool that a larger limit
allows is in `crowded_pool_never_ends`.
-/
namespace Zcashd.Guarantees.SizeLimit

open Lib Lib.ArrayTree Source Source.WeightedTxTree Source.CTxMemPool WeightedTxInfo List
  Int TxWeight

variable {pool pool' mid : CTxMemPool} {entry : CTxMemPoolEntry} {tx : CTransaction}
  {gone : List CTransaction}

/-- The pools whose indexes are exact and whose collection was built by `addUnchecked` from
transactions that fit in memory. -/
structure Limited (pool : CTxMemPool) : Prop where
  consistent : pool.Consistent
  costs : pool.weightedTxTree.Summed TxWeight.cost
  evictionWeights : pool.weightedTxTree.Summed TxWeight.evictionWeight
  built : ∀ info ∈ pool.weightedTxTree.txIdAndWeights, ∃ memUsage tx fee, memUsage < 2 ^ 62 ∧
    info = WeightedTxInfo.ofTransaction memUsage tx fee
  limit : 0 ≤ pool.weightedTxTree.capacity

theorem ofTransaction_weight {memUsage : Nat} (bound : memUsage < 2 ^ 62) (tx : CTransaction)
    (fee : CAmount) :
    0 < (ofTransaction memUsage tx fee).txWeight.cost ∧
    (ofTransaction memUsage tx fee).txWeight.cost ≤
      (ofTransaction memUsage tx fee).txWeight.evictionWeight := by
  have same : wrapInt64 memUsage = memUsage := wrapInt64_eq (by omega) (by omega)
  have penalty : wrapInt64 (max (memUsage : Int) MIN_TX_COST + LOW_FEE_PENALTY) =
      max (memUsage : Int) MIN_TX_COST + LOW_FEE_PENALTY :=
    wrapInt64_eq (by simp only [MIN_TX_COST, LOW_FEE_PENALTY]; omega)
      (by simp only [MIN_TX_COST, LOW_FEE_PENALTY]; omega)
  have minimum : MIN_TX_COST = 4000 := rfl
  have low : LOW_FEE_PENALTY = 16000 := rfl
  simp only [ofTransaction, same, penalty]
  split <;> omega

theorem Limited.weights (limited : Limited pool) {info : WeightedTxInfo}
    (mem : info ∈ pool.weightedTxTree.txIdAndWeights) :
    0 < info.txWeight.cost ∧ info.txWeight.cost ≤ info.txWeight.evictionWeight := by
  obtain ⟨_, tx, fee, bound, rfl⟩ := limited.built info mem
  exact ofTransaction_weight bound tx fee

variable {infos : List WeightedTxInfo}

theorem totalCost_le
    (each : ∀ info ∈ infos, 0 < info.txWeight.cost ∧
    info.txWeight.cost ≤ info.txWeight.evictionWeight) :
    totalCost infos ≤ totalEviction infos :=
  sum_le_sum fun info mem => (each info mem).2

/-- With a small total, the sums are those of unbounded numbers. -/
theorem Limited.sound (limited : Limited pool)
    (small : totalEviction pool.weightedTxTree.txIdAndWeights < 2 ^ 31) :
    pool.weightedTxTree.Sound := by
  have less := totalCost_le fun _ mem => limited.weights mem
  have weights : ∀ info ∈ pool.weightedTxTree.txIdAndWeights, 0 < info.txWeight.cost ∧
      info.txWeight.cost ≤ info.txWeight.evictionWeight := fun _ mem => limited.weights mem
  refine ⟨limited.consistent.formed, limited.costs, limited.evictionWeights, ⟨by grind, ?_⟩,
    ⟨by grind, ?_⟩⟩
  · exact lt_of_le_of_lt less (by omega)
  · exact lt_of_lt_of_le small (by decide)

/-- Within the limit, which is an `int64_t`, nothing is drawn. -/
theorem Limited.kept (limited : Limited pool)
    (fits : totalCost pool.weightedTxTree.txIdAndWeights ≤ pool.weightedTxTree.capacity)
    (word : totalCost pool.weightedTxTree.txIdAndWeights < 2 ^ 63) (nRand : Nat) :
    pool.weightedTxTree.maybeDropRandom nRand = some (pool.weightedTxTree, none) := by
  have cost := limited.costs.getTotalWeight isComponent_cost limited.consistent.formed
    ⟨fun _ mem => le_of_lt (limited.weights mem).1, word⟩
  rw [maybeDropRandom, cost]
  exact if_pos fits

/-- Whether a transaction descends from another depends on the entries only. -/
theorem descendant_congr (same : pool'.mapTx = pool.mapTx) {id : Uint256} :
    pool'.Descendant tx id ↔ pool.Descendant tx id := by
  have spends : pool'.Spends = pool.Spends := by
    funext a b
    simp [Spends, Child, same]
  rw [descendant_iff, descendant_iff, spends]
  simp [Child, same]

theorem erased_recentlyEvicted (erased : Erased pool pool' gone) :
    pool'.recentlyEvicted = pool.recentlyEvicted := by
  induction erased with
  | nil => rfl
  | cons _ _ ih => exact ih

/-- The rounds of the loop. Each draws an id of the pool, remembers it, and takes the transaction
and its descendants out of the pool and the collection. -/
inductive Rounds (random : Nat → Nat) (now : Nat → Int) : Nat → CTxMemPool → CTxMemPool → Prop where
  | done {rounds : Nat} {pool : CTxMemPool}
      (fits : totalCost pool.weightedTxTree.txIdAndWeights ≤ pool.weightedTxTree.capacity) :
        Rounds random now rounds pool pool
  | round {rounds : Nat} {pool mid pool' : CTxMemPool} {tree : WeightedTxTree} {txId : Uint256}
      {entry : CTxMemPoolEntry}
      (drawn : pool.weightedTxTree.maybeDropRandom (random rounds) = some (tree, some txId))
      (stored : pool.mapTx.lookup txId = some entry)
      (left : ∀ id other, mid.mapTx.lookup id = some other ↔
        pool.mapTx.lookup id = some other ∧ id ≠ txId ∧ ¬ pool.Descendant entry.tx id)
      (recorded : mid.recentlyEvicted = pool.recentlyEvicted.add txId (now rounds) ∧
        txId ∈ mid.recentlyEvicted.txIdSet)
      (weights : ∀ id, id ∈ mid.weightedTxTree.ids ↔ id ∈ mid.mapTx)
      (rest : Rounds random now rounds mid pool') : Rounds random now (rounds + 1) pool pool'

theorem mem_add (evicted : RecentlyEvictedList) (txId : Uint256) (now : Int) :
    txId ∈ (evicted.add txId now).txIdSet := by
  unfold RecentlyEvictedList.add
  dsimp only
  generalize (if (evicted.pruneList now).txIdsAndTimes.length =
      (evicted.pruneList now).capacity then (evicted.pruneList now).popFront
    else evicted.pruneList now) = room
  split
  · assumption
  · exact mem_cons_self

/-- What a round leaves. -/
structure Left (pool mid : CTxMemPool) (txId : Uint256) (now : Int)
    (entry : CTxMemPoolEntry) : Prop where
  limited : Limited mid
  left : ∀ id other, mid.mapTx.lookup id = some other ↔
    pool.mapTx.lookup id = some other ∧ id ≠ txId ∧ ¬ pool.Descendant entry.tx id
  recorded : mid.recentlyEvicted = pool.recentlyEvicted.add txId now
  fewer : mid.weightedTxTree.txIdAndWeights.length < pool.weightedTxTree.txIdAndWeights.length
  lighter : totalEviction mid.weightedTxTree.txIdAndWeights ≤
    totalEviction pool.weightedTxTree.txIdAndWeights

theorem Limited.round (limited : Limited pool)
    (small : totalEviction pool.weightedTxTree.txIdAndWeights < 2 ^ 31)
    (exceeds : pool.weightedTxTree.capacity < totalCost pool.weightedTxTree.txIdAndWeights)
    (nRand : Nat) (now : Int) :
    ∃ tree txId entry mid removed, pool.weightedTxTree.maybeDropRandom nRand =
      some (tree, some txId) ∧ pool.mapTx.lookup txId = some entry ∧
      ({ pool with
        weightedTxTree := tree
        recentlyEvicted := pool.recentlyEvicted.add txId now }.remove entry.tx true []) =
        some (mid, removed) ∧ Left pool mid txId now entry := by
  have sound := limited.sound small
  have ok := limited.consistent
  have limit := limited.limit
  have less := totalCost_le fun _ mem => limited.weights mem
  obtain ⟨tree, i, info, drawn, removed, node, -⟩ :=
    sound.maybeDropRandom small exceeds (by omega) nRand
  have mem := mem_of_getElem? node
  have inside : info.txId ∈ pool.mapTx := (ok.weights _).mp (mem_map_of_mem mem)
  obtain ⟨entry, held⟩ := Option.isSome_iff_exists.mp (AList.lookup_isSome.mpr inside)
  have key : entry.tx.hash = info.txId := ok.indexed.key _ _ held
  have indexed := ok.indexed.withLimit (pool.recentlyEvicted.add info.txId now) tree
  obtain ⟨left, tree', gone, ran, erased, weights, exact⟩ :=
    remove_exact indexed (removed.wellFormed sound.formed)
    (fun other there => by rw [key] at there; cases held.symm.trans there; rfl) true []
  have removal := erased.removal indexed
  have all : RemovedAll pool.weightedTxTree (info.txId :: hashes gone) tree' :=
    .cons removed weights
  have affected : ∀ id, id ∈ hashes gone ↔ (id = info.txId ∧ id ∈ pool.mapTx) ∨
      pool.Descendant entry.tx id := by
    intro _
    rw [exact, Affected, key]
    simp only [true_and]
    refine or_congr_right ?_
    apply descendant_congr
    rfl
  have perm := all.perm sound.formed
  refine ⟨tree, info.txId, entry, _, _, drawn, held, ran, ⟨?_, ?_, ?_, ?_, ?_⟩, ?_, ?_, ?_, ?_⟩
  · refine ⟨removal.indexed.withLimit left.recentlyEvicted tree', all.wellFormed sound.formed,
      fun id => ?_⟩
    rw [all.mem_ids sound.formed, ok.weights, mem_cons, not_or]
    refine Iff.trans ?_ (removal.mem id).symm
    grind
  · exact (all.sound sound).costs
  · exact (all.sound sound).evictionWeights
  · intro other kept
    exact limited.built other (mem_of_mem_filter (perm.subset kept))
  · exact all.capacity ▸ limit
  · intro _ _
    rw [removal.kept, affected, not_or]
    grind
  · exact erased_recentlyEvicted erased
  · rw [perm.length_eq, length_filter_lt_length_iff_exists]
    exact ⟨info, mem, by simp⟩
  · rw [totalEviction, (perm.map _).sum_eq]
    exact sum_filter_le (fun info mem => by have := limited.weights mem; omega) _

/-- The loop ends within as many rounds as there are ids, and one more. -/
theorem Limited.loop (limited : Limited pool)
    (small : totalCost pool.weightedTxTree.txIdAndWeights ≤ pool.weightedTxTree.capacity ∧
      pool.weightedTxTree.capacity < 2 ^ 63 ∨
      totalEviction pool.weightedTxTree.txIdAndWeights < 2 ^ 31)
    (random : Nat → Nat) (now : Nat → Int) {rounds : Nat}
    (enough : pool.weightedTxTree.txIdAndWeights.length < rounds) :
    ∃ pool', pool.ensureSizeLimitLoop random now rounds = some pool' ∧
      Rounds random now rounds pool pool' ∧
      Limited pool' ∧
      totalCost pool'.weightedTxTree.txIdAndWeights ≤ pool'.weightedTxTree.capacity := by
  induction rounds generalizing pool with
  | zero => omega
  | succ rounds ih =>
    rw [ensureSizeLimitLoop]
    by_cases fits : totalCost pool.weightedTxTree.txIdAndWeights ≤ pool.weightedTxTree.capacity
    · have less := totalCost_le fun _ mem => limited.weights mem
      rw [limited.kept fits (by omega)]
      exact ⟨pool, rfl, .done fits, limited, fits⟩
    · have small := small.resolve_left fun within => fits within.1
      obtain ⟨_, _, _, _, _, drawn, held, ran, left⟩ :=
        limited.round small (not_le.mp fits) (random rounds) (now rounds)
      obtain ⟨pool', looped, rest, limited', fits'⟩ :=
        ih left.limited (.inr (lt_of_le_of_lt left.lighter small)) (by have := left.fewer; omega)
      refine ⟨pool', ?_, ?_, limited', fits'⟩
      · simp [drawn, held, ran, looped]
      · refine .round drawn held left.left ⟨left.recorded, ?_⟩ left.limited.consistent.weights rest
        rw [left.recorded]
        exact mem_add _ _ _

/-- **The limit is kept.** Whatever is drawn, the loop ends with the costs below the limit, every
round is as described, and the collection holds the ids of the pool. The condition is on the pool
before the call: its cost is within the limit, or its eviction weights sum up to less than
`2 ^ 31`. -/
theorem size_limit_kept (limited : Limited pool)
    (small : totalCost pool.weightedTxTree.txIdAndWeights ≤ pool.weightedTxTree.capacity ∧
      pool.weightedTxTree.capacity < 2 ^ 63 ∨
      totalEviction pool.weightedTxTree.txIdAndWeights < 2 ^ 31)
    (random : Nat → Nat) (now : Nat → Int) :
    ∃ pool', pool.ensureSizeLimit random now = some pool' ∧
      Rounds random now (pool.weightedTxTree.size + 1) pool pool' ∧
      totalCost pool'.weightedTxTree.txIdAndWeights ≤ pool'.weightedTxTree.capacity ∧
      pool'.weightedTxTree.ids.Nodup ∧ (∀ id, id ∈ pool'.weightedTxTree.ids ↔ id ∈ pool'.mapTx) ∧
      Limited pool' := by
  have enough : pool.weightedTxTree.txIdAndWeights.length < pool.weightedTxTree.size + 1 := by
    rw [limited.consistent.formed.size]
    exact Nat.lt_succ_self _
  obtain ⟨pool', ran, rounds, limited', fits⟩ := limited.loop small random now enough
  exact ⟨pool', ran, rounds, fits, limited'.consistent.formed.index.locates.nodup,
    limited'.consistent.weights, limited'⟩

theorem limited_empty (nCheckFrequency : Nat) {totalCostLimit : Int} (nonneg : 0 ≤ totalCostLimit)
    (evictionMemorySeconds : Int) :
    Limited (empty nCheckFrequency totalCostLimit evictionMemorySeconds) :=
  ⟨consistent_empty _ _ _, summed_empty _, summed_empty _, nofun, nonneg⟩

theorem Limited.addUnchecked (limited : Limited pool) (entry : CTxMemPoolEntry)
    (fresh : pool.Fresh entry.tx) (memUsage : Nat) (bound : memUsage < 2 ^ 62) :
    ∃ pool', pool.addUnchecked entry.tx.hash entry memUsage = some pool' ∧ Limited pool' ∧
      pool'.mapTx = pool.mapTx.insert entry.tx.hash entry ∧ pool'.weightedTxTree.txIdAndWeights =
        pool.weightedTxTree.txIdAndWeights ++ [ofTransaction memUsage entry.tx entry.nFee] ∧
      pool'.weightedTxTree.capacity = pool.weightedTxTree.capacity := by
  have ok := limited.consistent
  obtain ⟨pool', added, -, mapTx, tree⟩ := ok.indexed.addUnchecked fresh memUsage
  obtain ⟨_, added', ok'⟩ := ok.addUnchecked fresh memUsage
  cases added.symm.trans added'
  have new : (ofTransaction memUsage entry.tx entry.nFee).txId ∉
      pool.weightedTxTree.txIdToIndexMap :=
    fun inside => fresh.new ((ok.weights _).mp (ok.formed.index.mem_iff.mp inside))
  have infos : pool'.weightedTxTree.txIdAndWeights =
      pool.weightedTxTree.txIdAndWeights ++ [ofTransaction memUsage entry.tx entry.nFee] := by
    rw [tree, WeightedTxTree.add, if_neg new]
  have capacity : pool'.weightedTxTree.capacity = pool.weightedTxTree.capacity := by
    rw [tree, WeightedTxTree.add, if_neg new]
  refine ⟨pool', added, ⟨ok', ?_, ?_, fun info _ => ?_, capacity ▸ limited.limit⟩, mapTx,
    infos, capacity⟩
  · rw [tree]
    exact limited.costs.add isComponent_cost ok.formed _
  · rw [tree]
    exact limited.evictionWeights.add isComponent_evictionWeight ok.formed _
  · have built := limited.built info
    grind

variable {tree : WeightedTxTree}

section

variable (sizes : ∀ k, wrapInt32 (tree.getWeightAt k).evictionWeight ≠ -2 ^ 31)
include sizes

/-- The draw `2 ^ 31` is negative as an `int`, and is on the left of everything. -/
theorem negative_find_never_ends (i : Nat) : tree.findByEvictionWeight i (-2 ^ 31) = none := by
  induction m : tree.size - i using Nat.strongRecOn generalizing i with
  | ind m ih =>
    rw [findByEvictionWeight]
    split
    case isTrue inside =>
      have above : -2 ^ 31 ≤ wrapInt32 (tree.getWeightAt (i * 2 + 1)).evictionWeight := by
        have := le_bmod (x := (tree.getWeightAt (i * 2 + 1)).evictionWeight)
          (m := 2 ^ 32) (by decide)
        simpa [wrapInt32] using this
      have other := sizes (i * 2 + 1)
      rw [if_pos (by omega)]
      exact ih (tree.size - (i * 2 + 1)) (by omega) (i * 2 + 1) rfl
    case isFalse => rfl

theorem negative_draw_never_ends (exceeds : tree.capacity < tree.getTotalWeight.cost)
    (large : 2 ^ 31 < tree.getTotalWeight.evictionWeight)
    (fits : tree.getTotalWeight.evictionWeight < 2 ^ 63) :
    tree.maybeDropRandom (2 ^ 31) = none := by
  have drawn : wrapInt32
      (getRand (2 ^ 31) (tree.getTotalWeight.evictionWeight.emod (2 ^ 64)).toNat) = -2 ^ 31 := by
    have same : tree.getTotalWeight.evictionWeight.emod (2 ^ 64) =
        tree.getTotalWeight.evictionWeight :=
      emod_eq_of_lt (by omega) (by omega)
    rw [same, getRand, if_neg (by omega), Nat.mod_eq_of_lt (by omega)]
    decide
  rw [maybeDropRandom, if_neg (by omega), drawn]
  dsimp only
  rw [negative_find_never_ends sizes 0]
  rfl

end

/-- Transactions of 100 kB that pay no fee. -/
def sample (i : Nat) : CTransaction :=
  { hash := BitVec.ofNat 256 (i + 1), fOverwintered := true, nVersion := 4,
    nVersionGroupId := 0x892F2085, vin := [⟨⟨0, i⟩, []⟩], vout := [],
    nExpiryHeight := 0, valueBalance := 0, vShieldedSpend := [], vShieldedOutput := [],
    vJoinSplit := [] }

/-- A pool with the first `count` of them, under the limit that `-mempooltxcostlimit` sets. -/
theorem filled (totalCostLimit : Int) (nonneg : 0 ≤ totalCostLimit) (count : Nat)
    (bound : count < 2 ^ 32) :
    ∃ pool, Limited pool ∧ pool.weightedTxTree.capacity = totalCostLimit ∧
      pool.weightedTxTree.txIdAndWeights.length = count ∧
      (∀ info ∈ pool.weightedTxTree.txIdAndWeights, info.txWeight = ⟨100000, 116000⟩) ∧
      ∀ id entry, pool.mapTx.lookup id = some entry → ∃ j < count, entry.tx = sample j := by
  induction count with
  | zero =>
    refine ⟨empty 0 totalCostLimit 3600, limited_empty 0 nonneg 3600, rfl, rfl, nofun, ?_⟩
    intro _ _ held
    cases held
  | succ count ih =>
    obtain ⟨pool, limited, capacity, length, weights, all⟩ := ih (by omega)
    have other : ∀ j < count, (sample count).hash ≠ (sample j).hash := by
      intro j _ same
      have := congrArg BitVec.toNat same
      simp only [sample, BitVec.toNat_ofNat] at this
      omega
    have fresh : pool.Fresh (sample count) := by
      refine ⟨fun inside => ?_, fun id entry held _ mem => ?_, fun type id entry held _ mem => ?_⟩
      · obtain ⟨_, held⟩ := Option.isSome_iff_exists.mp (AList.lookup_isSome.mpr inside)
        have key := limited.consistent.indexed.key _ _ held
        grind
      · obtain ⟨j, _, same⟩ := all id entry held
        simp only [prevouts, sample, map_cons, map_nil, mem_singleton] at mem
        rw [same, mem]
        simp only [prevouts, sample, map_cons, map_nil, mem_singleton, COutPoint.mk.injEq, true_and]
        omega
      · cases type <;> cases mem
    obtain ⟨pool', -, limited', _, infos, capacity'⟩ :=
      limited.addUnchecked ⟨sample count, 0, 100000, 100000, false, 0⟩ fresh 100000 (by decide)
    refine ⟨pool', limited', capacity'.trans capacity, by simp [infos, length], fun info mem => ?_,
      fun id entry held => ?_⟩
    · rw [infos, mem_append, mem_singleton] at mem
      rcases mem with old | rfl
      · exact weights info old
      · rfl
    · grind

theorem wrapInt32_ne {n : Int} (nonneg : 0 ≤ n) (bound : n < 2 ^ 32) (other : n ≠ 2 ^ 31) :
    wrapInt32 n ≠ -2 ^ 31 := by
  simp only [wrapInt32, bmod_def, Nat.reducePow, Nat.cast_ofNat]
  split <;> omega

variable {weight : Int}

theorem sum_equal {pick : TxWeight → Int} (each : ∀ info ∈ infos, pick info.txWeight = weight) :
    (infos.map (fun info => pick info.txWeight)).sum = infos.length * weight := by
  rw [map_congr_left each, map_const', sum_replicate, nsmul_eq_mul]

theorem whole_equal (each : ∀ info ∈ infos, info.txWeight.evictionWeight = weight) (n i : Nat) :
    weight ∣ whole (nodeWeight evictionWeight infos) n i := by
  refine Finset.dvd_sum fun j _ => ?_
  rw [nodeWeight]
  cases node : infos[j]? with
  | none => exact dvd_zero weight
  | some info => exact dvd_of_eq (each info (mem_of_getElem? node)).symm

/-- Two transactions in a pool without room. -/
theorem size_limit_kept_pair :
    ∃ pool pool' : CTxMemPool, pool.weightedTxTree.txIdAndWeights.length = 2 ∧
    pool.ensureSizeLimit (fun _ => 5) (fun _ => 0) = some pool' ∧
    totalCost pool'.weightedTxTree.txIdAndWeights ≤ pool'.weightedTxTree.capacity := by
  obtain ⟨pool, limited, -, length, weights, -⟩ := filled 0 (by decide) 2 (by decide)
  have small : totalEviction pool.weightedTxTree.txIdAndWeights < 2 ^ 31 := by
    rw [totalEviction,
      sum_equal fun info member => congrArg evictionWeight (weights info member), length]
    decide
  obtain ⟨pool', ran, -, fits, -⟩ := size_limit_kept limited (.inr small) (fun _ => 5) (fun _ => 0)
  exact ⟨pool, pool', length, ran, fits⟩

/-- A pool of 22000 transactions just above its limit of 2190000000: for some draw there is no
end. -/
theorem crowded_pool_never_ends : ∃ pool, Limited pool ∧ pool.weightedTxTree.capacity = 2190000000 ∧
    pool.weightedTxTree.txIdAndWeights.length = 22000 ∧
    ∃ random : Nat → Nat, ∀ now, pool.ensureSizeLimit random now = none := by
  obtain ⟨pool, limited, capacity, length, weights, -⟩ :=
    filled 2190000000 (by decide) 22000 (by decide)
  have cost : totalCost pool.weightedTxTree.txIdAndWeights = 2200000000 := by
    rw [totalCost,
      sum_equal fun info member => congrArg TxWeight.cost (weights info member), length]
    decide
  have eviction : totalEviction pool.weightedTxTree.txIdAndWeights = 2552000000 := by
    rw [totalEviction,
      sum_equal fun info member => congrArg evictionWeight (weights info member), length]
    decide
  have sound : pool.weightedTxTree.Sound := by
    refine ⟨limited.consistent.formed, limited.costs, limited.evictionWeights,
      ⟨fun info member => ?_, ?_⟩, ⟨fun info member => ?_, ?_⟩⟩
    · rw [weights info member]
      decide
    · exact lt_of_eq_of_lt cost (by decide)
    · rw [weights info member]
      decide
    · exact lt_of_eq_of_lt eviction (by decide)
  have sizes : ∀ k, wrapInt32 (pool.weightedTxTree.getWeightAt k).evictionWeight ≠ -2 ^ 31 := by
    intro k
    have bounds := whole_bounds (n := pool.weightedTxTree.txIdAndWeights.length) (i := k)
      (nodeWeight_nonneg sound.evictionWeight.nonneg)
    rw [sum_nodeWeight] at bounds
    -- 116000 does not divide 2 ^ 31
    have multiple : (116000 : Int) ∣ _ := whole_equal
      (fun info member => congrArg evictionWeight (weights info member))
        pool.weightedTxTree.txIdAndWeights.length k
    rw [sound.evictionWeights.getWeightAt isComponent_evictionWeight sound.formed,
      sound.evictionWeight.wrap_whole]
    rw [totalEviction] at eviction
    exact wrapInt32_ne bounds.1 (by omega) (by omega)
  have total := sound.getTotalWeight
  refine ⟨pool, limited, capacity, length, fun _ => 2 ^ 31, fun now => ?_⟩
  have never := negative_draw_never_ends sizes (by rw [total, capacity, cost, eviction]; decide)
    (by rw [total, cost, eviction]; decide) (by rw [total, cost, eviction]; decide)
  rw [ensureSizeLimit, ensureSizeLimitLoop, never]
  rfl

end Zcashd.Guarantees.SizeLimit
