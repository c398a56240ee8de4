import Zcashd.Source.WeightSums

/-!
# The collection of weights behind the limit of the memory pool

`weighted_tree_exact` follows `WeightedTxTree` through every sequence of additions and removals
of weights whose totals fit in 64 bits: the map and the vector of ids are inverse, every node
knows the sum of the weights below it, and the whole is what was added and not removed. While the
eviction weights sum up to less than `2 ^ 31`, the search meets every transaction as often as its
eviction weight says, and so does the random choice. Above, the `int`s of the search lose the
upper bits, and one transaction is enough for a search without end (`heavy_transaction_lost`).
-/
namespace Zcashd.Guarantees.WeightedEviction

open Lib Lib.ArrayTree Source Source.WeightedTxTree List

variable {capacity : Int} {held : List WeightedTxInfo} {tree : WeightedTxTree}

/-- What an addition means for the collection. -/
def insert (held : List WeightedTxInfo) (info : WeightedTxInfo) : List WeightedTxInfo :=
  if info.txId ∈ held.map (·.txId) then held else held ++ [info]

/-- The runs of a collection, with what it should hold. The weights that are added are not
negative and their totals fit in 64 bits. -/
inductive Run (capacity : Int) : List WeightedTxInfo → WeightedTxTree → Prop where
  | start : Run capacity [] (.empty capacity)
  | add {held : List WeightedTxInfo} {tree : WeightedTxTree} (info : WeightedTxInfo)
      (run : Run capacity held tree) (cost : Bounded TxWeight.cost (insert held info))
      (evictionWeight : Bounded TxWeight.evictionWeight (insert held info)) :
      Run capacity (insert held info) (tree.add info)
  | remove {held : List WeightedTxInfo} {tree tree' : WeightedTxTree} (txId : Uint256)
      (run : Run capacity held tree) (ran : tree.remove txId = some tree') :
      Run capacity (held.filter (fun info => info.txId ≠ txId)) tree'

/-- The collection is what it should be. -/
structure Holds (capacity : Int) (held : List WeightedTxInfo) (tree : WeightedTxTree) : Prop where
  limit : tree.capacity = capacity
  perm : tree.txIdAndWeights.Perm held
  sound : tree.Sound

theorem add_perm (formed : tree.WellFormed) (perm : tree.txIdAndWeights.Perm held)
    (info : WeightedTxInfo) :
    (tree.add info).WellFormed ∧ (tree.add info).txIdAndWeights.Perm (insert held info) := by
  have same : info.txId ∈ held.map (·.txId) ↔ info.txId ∈ tree.ids := (perm.map _).symm.mem_iff
  by_cases inside : info.txId ∈ tree.ids
  · have known : info.txId ∈ tree.txIdToIndexMap := formed.index.mem_iff.mpr inside
    rw [WeightedTxTree.add, if_pos known, insert, if_pos (same.mpr inside)]
    exact ⟨formed, perm⟩
  · have new : info.txId ∉ tree.txIdToIndexMap := fun mem => inside (formed.index.mem_iff.mp mem)
    refine ⟨(formed.add inside).1, ?_⟩
    rw [WeightedTxTree.add, if_neg new, insert, if_neg fun mem => inside (same.mp mem)]
    exact perm.append_right [info]

theorem add_capacity (tree : WeightedTxTree) (info : WeightedTxInfo) :
    (tree.add info).capacity = tree.capacity := by
  unfold WeightedTxTree.add
  split <;> rfl

theorem Holds.run (run : Run capacity held tree) : Holds capacity held tree := by
  induction run with
  | start => exact ⟨rfl, .nil, sound_empty _⟩
  | @add _ _ info _ cost evictionWeight ih =>
    obtain ⟨formed, perm⟩ := add_perm ih.sound.formed ih.perm info
    exact ⟨(add_capacity _ _).trans ih.limit, perm, formed,
      ih.sound.costs.add isComponent_cost ih.sound.formed info,
      ih.sound.evictionWeights.add isComponent_evictionWeight ih.sound.formed info, cost.perm perm,
        evictionWeight.perm perm⟩
  | remove txId _ ran ih =>
    obtain ⟨_, ran', gone⟩ := ih.sound.formed.removed txId
    cases ran.symm.trans ran'
    exact ⟨gone.capacity.trans ih.limit, (gone.perm ih.sound.formed).trans (ih.perm.filter _),
      gone.sound ih.sound⟩

/-- The transaction that `maybeDropRandom` evicts. -/
def evicted (tree : WeightedTxTree) (nRand : Nat) : Option Uint256 :=
  (tree.maybeDropRandom nRand).bind (·.2)

/-- The collection after every run. The numbers `w` and `r` run over all that are below the total
eviction weight; `GetRand` draws them with the same probability. -/
theorem weighted_tree_exact (run : Run capacity held tree) :
    tree.txIdAndWeights.Perm held ∧ tree.size = held.length ∧
    (∀ txId i, tree.txIdToIndexMap.lookup txId = some i ↔
      (tree.txIdAndWeights.map (·.txId))[i]? = some txId) ∧
    (∀ i < tree.size, tree.childWeights[i]? = some
      ⟨∑ j ∈ Finset.range tree.size with i ∈ ancestors j,
        nodeWeight TxWeight.cost tree.txIdAndWeights j,
        ∑ j ∈ Finset.range tree.size with i ∈ ancestors j,
          nodeWeight TxWeight.evictionWeight tree.txIdAndWeights j⟩) ∧
    tree.getTotalWeight = ⟨totalCost held, totalEviction held⟩ ∧
    (∀ txId, ∃ tree', tree.remove txId = some tree') ∧
    (totalEviction held < 2 ^ 31 →
      (∀ (i : Nat) info, tree.txIdAndWeights[i]? = some info →
        (((List.range (totalEviction held).toNat).countP
          (fun w : Nat => tree.findByEvictionWeight 0 w = some i) : Nat) : Int) =
          info.txWeight.evictionWeight) ∧
      (capacity < totalCost held → ∀ info ∈ held,
        (((List.range (totalEviction held).toNat).countP
          (fun r => evicted tree r = some info.txId) : Nat) : Int) =
          info.txWeight.evictionWeight)) := by
  obtain ⟨limit, perm, sound⟩ := Holds.run run
  have size := sound.formed.size
  have cost : totalCost tree.txIdAndWeights = totalCost held := (perm.map _).sum_eq
  have eviction : totalEviction tree.txIdAndWeights = totalEviction held := (perm.map _).sum_eq
  refine ⟨perm, size.trans perm.length_eq, sound.formed.index, fun i inside => ?_, ?_,
    fun txId => ?_, fun small => ⟨fun i info node => ?_, fun exceeds info member => ?_⟩⟩
  · obtain ⟨child, node⟩ : ∃ child, tree.childWeights[i]? = some child :=
      ⟨_, getElem?_eq_getElem (by rw [sound.formed.children, ← size]; exact inside)⟩
    have first := (sound.costs i child node).trans (sound.cost.wrap_below i)
    have second := (sound.evictionWeights i child node).trans (sound.evictionWeight.wrap_below i)
    rw [← size, below] at first second
    rw [node, ← first, ← second]
  · rw [sound.getTotalWeight, cost, eviction]
  · obtain ⟨tree', ran, -⟩ := sound.formed.removed txId
    exact ⟨tree', ran⟩
  · rw [← sound.count node, ← eviction]
    refine congrArg Nat.cast (countP_congr fun x bound => ?_)
    rw [sound.find (eviction ▸ small) (mem_range.mp bound)]
  · obtain ⟨i, node⟩ := mem_iff_getElem?.mp (perm.symm.subset member)
    rw [← sound.count node, ← eviction]
    refine congrArg Nat.cast (countP_congr fun r bound => ?_)
    rw [mem_range] at bound
    obtain ⟨_, k, other, dropped, -, there, found⟩ :=
      sound.maybeDropRandom (eviction ▸ small) (by rw [limit, cost]; exact exceeds) (by omega) r
    rw [Nat.mod_eq_of_lt bound] at found
    rw [evicted, dropped, found]
    -- the ids are distinct, so the id tells the node
    have here : tree.ids[i]? = some info.txId := by rw [ids, getElem?_map, node, Option.map_some]
    have position : tree.ids[k]? = some other.txId := by
      rw [ids, getElem?_map, there, Option.map_some]
    simp only [Option.bind_some, Option.some.injEq, decide_eq_true_eq]
    constructor
    · intro same
      rw [same] at position
      exact Option.some.inj
        (((sound.formed.index _ _).mpr position).symm.trans ((sound.formed.index _ _).mpr here))
    · rintro rfl
      rw [node] at there
      rw [Option.some.inj there]

/-- Two transactions in a collection without room. -/
theorem weighted_tree_exact_pair : ∃ tree, Run 0 [⟨1, 4000, 4000⟩, ⟨2, 4000, 20000⟩] tree ∧
    (((List.range 24000).countP (fun r => evicted tree r = some 2) : Nat) : Int) = 20000 := by
  have run : Run 0 [⟨1, 4000, 4000⟩, ⟨2, 4000, 20000⟩] _ :=
    .add ⟨2, 4000, 20000⟩
      (.add ⟨1, 4000, 4000⟩ .start ⟨by decide, by decide⟩ ⟨by decide, by decide⟩)
      ⟨by decide, by decide⟩ ⟨by decide, by decide⟩
  obtain ⟨-, -, -, -, -, -, proportional⟩ := weighted_tree_exact run
  exact ⟨_, run, (proportional (by decide)).2 (by decide) ⟨2, 4000, 20000⟩ (by decide)⟩

/-- A collection with one transaction of eviction weight `2 ^ 31`. -/
def heavy : WeightedTxTree := (empty 0).add ⟨1, 4000, 2 ^ 31⟩

theorem heavy_getWeightAt :
    heavy.getWeightAt 0 = ⟨4000, 2 ^ 31⟩ ∧ heavy.getWeightAt 1 = ZERO_WEIGHT ∧
    heavy.getWeightAt 2 = ZERO_WEIGHT := by
  have children : heavy.childWeights = [ZERO_WEIGHT] := by
    simp [heavy, WeightedTxTree.add, empty, backPropagate]
  refine ⟨?_, rfl, rfl⟩
  rw [getWeightAt, children]
  rfl

theorem heavy_find (w : Nat) : heavy.findByEvictionWeight 0 w = none := by
  obtain ⟨root, left, right⟩ := heavy_getWeightAt
  have size : heavy.size = 1 := rfl
  rw [findByEvictionWeight, size, if_pos Nat.one_pos]
  dsimp only
  rw [root, left, right]
  have leftWeight : wrapInt32 ZERO_WEIGHT.evictionWeight = 0 := by decide
  have rightWeight :
      wrapInt32 (wrapInt64 ((2 : Int) ^ 31 - ZERO_WEIGHT.evictionWeight)) = -2 ^ 31 := by decide
  rw [leftWeight, rightWeight, if_neg (by omega), if_neg (by omega), findByEvictionWeight, size,
    if_neg (by decide)]

/-- The weight `2 ^ 31` is negative as an `int`: no number is mapped to the only transaction, and
the search for one to evict does not end. -/
theorem heavy_transaction_lost :
    ∃ tree, Run 0 [⟨1, 4000, 2 ^ 31⟩] tree ∧ tree.txIdAndWeights = [⟨1, 4000, 2 ^ 31⟩] ∧
    (List.range (2 ^ 31)).countP (fun w : Nat => tree.findByEvictionWeight 0 w = some 0) = 0 ∧
    ∀ r : Nat, r < 2 ^ 31 → tree.maybeDropRandom r = none := by
  have run : Run 0 [⟨1, 4000, 2 ^ 31⟩] heavy :=
    .add ⟨1, 4000, 2 ^ 31⟩ .start ⟨by decide, by decide⟩ ⟨by decide, by decide⟩
  refine ⟨heavy, run, rfl, ?_, fun r bound => ?_⟩
  · rw [countP_eq_zero]
    intro w _
    simp [heavy_find]
  · obtain ⟨root, -⟩ := heavy_getWeightAt
    have random : wrapInt32 (getRand r 2147483648) = r := by
      rw [getRand, if_neg (by decide), Nat.mod_eq_of_lt (by omega),
        wrapInt32_eq (by omega) (by omega)]
    have total : (((2 : Int) ^ 31).emod (2 ^ 64)).toNat = 2147483648 := by decide
    have exceeds : ¬ (4000 : Int) ≤ heavy.capacity := by decide
    rw [maybeDropRandom, getTotalWeight, root, if_neg exceeds]
    dsimp only
    rw [total, random, heavy_find]
    rfl

end Zcashd.Guarantees.WeightedEviction
