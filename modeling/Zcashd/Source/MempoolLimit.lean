import Zcashd.Lib.InvertedIndex
import Zcashd.Source.View

/-!
The limit on the memory pool (`src/mempool_limit.{h,cpp}`): the collection of transaction ids
with their weights, a complete binary tree in two vectors in which every node knows the weight
below it, and the list of recently evicted ids. `none` is an access outside a vector or a
recursion without end.
-/
namespace Zcashd.Source

open Lib List

def DEFAULT_FEE : CAmount := 10000
def MIN_TX_COST : Int := 4000
def LOW_FEE_PENALTY : Int := 16000

/-- The conversion from 64 bits to `int`. -/
def wrapInt32 (n : Int) : Int := n.bmod (2 ^ 32)

structure TxWeight where
  cost : Int
  evictionWeight : Int
deriving DecidableEq, Repr

def TxWeight.add (w other : TxWeight) : TxWeight :=
  ⟨wrapInt64 (w.cost + other.cost), wrapInt64 (w.evictionWeight + other.evictionWeight)⟩

def TxWeight.negate (w : TxWeight) : TxWeight :=
  ⟨wrapInt64 (-w.cost), wrapInt64 (-w.evictionWeight)⟩

def ZERO_WEIGHT : TxWeight := ⟨0, 0⟩

structure WeightedTxInfo where
  txId : Uint256
  txWeight : TxWeight
deriving DecidableEq, Repr

/-- `WeightedTxInfo::from`, with the memory that `RecursiveDynamicUsage` reports. -/
def WeightedTxInfo.ofTransaction (memUsage : Nat) (tx : CTransaction) (fee : CAmount) :
    WeightedTxInfo :=
  let cost := max (wrapInt64 memUsage) MIN_TX_COST
  let evictionWeight := if fee < DEFAULT_FEE then wrapInt64 (cost + LOW_FEE_PENALTY) else cost
  ⟨tx.hash, cost, evictionWeight⟩

structure WeightedTxTree where
  capacity : Int
  size : Nat
  txIdAndWeights : List WeightedTxInfo
  childWeights : List TxWeight
  txIdToIndexMap : Uint256Map Nat

/-- Every ancestor of a node gets the change of its weight. -/
def backPropagate (childWeights : List TxWeight) (fromIndex : Nat) (weightDelta : TxWeight) :
    List TxWeight :=
  if fromIndex = 0 then childWeights
  else
    let parent := (fromIndex - 1) / 2
    backPropagate (childWeights.modify parent (fun w => w.add weightDelta)) parent weightDelta
termination_by fromIndex

namespace WeightedTxTree

variable (tree : WeightedTxTree)

/-- A tree just constructed. -/
def empty (capacity : Int) : WeightedTxTree := ⟨capacity, 0, [], [], ∅⟩

def getWeightAt (index : Nat) : TxWeight :=
  if index < tree.size then
    ((tree.txIdAndWeights[index]?).elim ZERO_WEIGHT WeightedTxInfo.txWeight).add
      (tree.childWeights[index]?.getD ZERO_WEIGHT)
  else ZERO_WEIGHT

/-- The node that a weight falls on. The weights are cut to `int` on the way. Below the last
node there is nothing to find, and the source goes down without end. -/
def findByEvictionWeight (fromIndex : Nat) (weightToFind : Int) : Option Nat :=
  if fromIndex < tree.size then
    let leftWeight := wrapInt32 (tree.getWeightAt (fromIndex * 2 + 1)).evictionWeight
    let rightWeight := wrapInt32
      (wrapInt64 ((tree.getWeightAt fromIndex).evictionWeight -
        (tree.getWeightAt (fromIndex * 2 + 2)).evictionWeight))
    if weightToFind < leftWeight then findByEvictionWeight (fromIndex * 2 + 1) weightToFind
    else if weightToFind < rightWeight then some fromIndex
    else findByEvictionWeight (fromIndex * 2 + 2) (wrapInt64 (weightToFind - rightWeight))
  else none
termination_by tree.size - fromIndex

def getTotalWeight : TxWeight := tree.getWeightAt 0

def add (weightedTxInfo : WeightedTxInfo) : WeightedTxTree :=
  if weightedTxInfo.txId ∈ tree.txIdToIndexMap then tree
  else
    { tree with
      txIdAndWeights := tree.txIdAndWeights ++ [weightedTxInfo]
      childWeights :=
        backPropagate (tree.childWeights ++ [ZERO_WEIGHT]) tree.size weightedTxInfo.txWeight
      txIdToIndexMap := tree.txIdToIndexMap.insert weightedTxInfo.txId tree.size
      size := tree.size + 1 }

/-- The last node takes the place of the removed one. -/
def remove (txId : Uint256) : Option WeightedTxTree :=
  match tree.txIdToIndexMap.lookup txId with
  | none => some tree
  | some removeIndex => do
    let size := tree.size - 1
    let last ← tree.txIdAndWeights[size]?
    let childWeights := backPropagate tree.childWeights size last.txWeight.negate
    if removeIndex < size then do
      let removed ← tree.txIdAndWeights[removeIndex]?
      let weightDelta := last.txWeight.add removed.txWeight.negate
      pure { tree with
        size
        txIdAndWeights := (tree.txIdAndWeights.set removeIndex last).dropLast
        childWeights := (backPropagate childWeights removeIndex weightDelta).dropLast
        txIdToIndexMap := (tree.txIdToIndexMap.insert last.txId removeIndex).erase txId }
    else
      pure { tree with
        size
        txIdAndWeights := tree.txIdAndWeights.dropLast
        childWeights := childWeights.dropLast
        txIdToIndexMap := tree.txIdToIndexMap.erase txId }

/-- `GetRand(nMax)`, from what the random source gave. -/
def getRand (nRand nMax : Nat) : Nat := if nMax = 0 then 0 else nRand % nMax

/-- `maybeDropRandom`: the id that was dropped, if the collection is over its capacity. -/
def maybeDropRandom (nRand : Nat) : Option (WeightedTxTree × Option Uint256) :=
  if tree.getTotalWeight.cost ≤ tree.capacity then some (tree, none)
  else do
    let randomWeight :=
      wrapInt32 (getRand nRand (tree.getTotalWeight.evictionWeight.emod (2 ^ 64)).toNat)
    let index ← tree.findByEvictionWeight 0 randomWeight
    let drop ← tree.txIdAndWeights[index]?
    let tree ← tree.remove drop.txId
    pure (tree, some drop.txId)

/-- The ids in the collection, in the order of the nodes. -/
def ids : List Uint256 := tree.txIdAndWeights.map (·.txId)

/-- The vectors have the recorded size, and the map tells the position of every id. -/
structure WellFormed : Prop where
  size : tree.size = tree.txIdAndWeights.length
  children : tree.childWeights.length = tree.txIdAndWeights.length
  index : Positions tree.txIdToIndexMap tree.ids

variable {tree}

theorem wellFormed_empty (capacity : Int) : (empty capacity).WellFormed := ⟨rfl, rfl, Positions.nil⟩

theorem length_backPropagate (childWeights : List TxWeight) (fromIndex : Nat)
    (weightDelta : TxWeight) :
    (backPropagate childWeights fromIndex weightDelta).length = childWeights.length := by
  fun_induction backPropagate childWeights fromIndex weightDelta with
  | case1 => rfl
  | case2 _ _ _ _ ih => rw [ih, length_modify]

variable {info : WeightedTxInfo}

theorem WellFormed.add (formed : tree.WellFormed) (new : info.txId ∉ tree.ids) :
    (tree.add info).WellFormed ∧ (tree.add info).ids = tree.ids ++ [info.txId] := by
  have absent : info.txId ∉ tree.txIdToIndexMap :=
    fun inside => new (formed.index.mem_iff.mp inside)
  have grown : (tree.add info).ids = tree.ids ++ [info.txId] := by
    simp [WeightedTxTree.add, absent, ids]
  refine ⟨⟨?_, ?_, ?_⟩, grown⟩
  · simp [WeightedTxTree.add, absent, formed.size]
  · simp [WeightedTxTree.add, absent, length_backPropagate, formed.children]
  · have length : tree.size = tree.ids.length := by rw [formed.size, ids, length_map]
    rw [grown, WeightedTxTree.add, if_neg absent, length]
    exact formed.index.append new

variable {txId : Uint256}

/-- What is removed is in the vector, so there is a last node. -/
theorem WellFormed.last (formed : tree.WellFormed) {i : Nat}
    (hit : tree.txIdToIndexMap.lookup txId = some i) :
    ∃ front last, tree.txIdAndWeights = front ++ [last] ∧ tree.size - 1 = front.length ∧
      i ≤ front.length := by
  have here := (formed.index txId i).mp hit
  have inside : i < tree.txIdAndWeights.length := by
    have bound := (List.getElem?_eq_some_iff.mp here).1
    rwa [ids, List.length_map] at bound
  obtain empty | ⟨front, last, split⟩ := tree.txIdAndWeights.eq_nil_or_concat
  · rw [empty] at inside
    exact absurd inside (Nat.not_lt_zero i)
  · rw [concat_eq_append] at split
    rw [split, length_append, length_singleton] at inside
    refine ⟨front, last, split, ?_, by omega⟩
    rw [formed.size, split, length_append, length_singleton, Nat.add_sub_cancel]

/-- What a removal does to the vectors and the map. -/
inductive Removed (tree : WeightedTxTree) (txId : Uint256) : WeightedTxTree → Prop where
  | absent (absent : txId ∉ tree.ids) : Removed tree txId tree
  | inner {front : List WeightedTxInfo} {last removed : WeightedTxInfo} {i : Nat}
      (split : tree.txIdAndWeights = front ++ [last]) (there : front[i]? = some removed)
        (id : removed.txId = txId) :
      Removed tree txId { tree with
        size := front.length
        txIdAndWeights := front.set i last
        childWeights :=
          (backPropagate (backPropagate tree.childWeights front.length last.txWeight.negate) i
          (last.txWeight.add removed.txWeight.negate)).dropLast
        txIdToIndexMap := (tree.txIdToIndexMap.insert last.txId i).erase txId }
  | last {front : List WeightedTxInfo} {last : WeightedTxInfo}
      (split : tree.txIdAndWeights = front ++ [last]) (id : last.txId = txId) :
      Removed tree txId { tree with
        size := front.length
        txIdAndWeights := front
        childWeights := (backPropagate tree.childWeights front.length last.txWeight.negate).dropLast
        txIdToIndexMap := tree.txIdToIndexMap.erase txId }

theorem WellFormed.removed (formed : tree.WellFormed) (txId : Uint256) :
    ∃ tree', tree.remove txId = some tree' ∧ Removed tree txId tree' := by
  cases hit : tree.txIdToIndexMap.lookup txId with
  | none =>
    have absent : txId ∉ tree.ids := fun inside =>
      AList.lookup_eq_none.mp hit (formed.index.mem_iff.mpr inside)
    exact ⟨tree, by rw [WeightedTxTree.remove, hit], .absent absent⟩
  | some i =>
    obtain ⟨front, last, split, size, _⟩ := formed.last hit
    have here := (formed.index txId i).mp hit
    rw [ids, split, getElem?_map] at here
    have lastNode : tree.txIdAndWeights[tree.size - 1]? = some last := by simp [split, size]
    rw [WeightedTxTree.remove, hit]
    simp only [lastNode, Option.bind_eq_bind, Option.bind_some]
    by_cases inner : i < tree.size - 1
    · have inside : i < front.length := by omega
      obtain ⟨removed, there⟩ :
          ∃ removed, front[i]? = some removed := ⟨_, getElem?_eq_getElem inside⟩
      rw [getElem?_append_left inside, there] at here
      have removedNode : tree.txIdAndWeights[i]? = some removed := by
        rw [split, getElem?_append_left inside, there]
      have nodes : (tree.txIdAndWeights.set i last).dropLast = front.set i last := by
        rw [split, set_append_left _ _ inside, dropLast_concat]
      rw [if_pos inner, removedNode]
      simp only [Option.bind_some, size, nodes]
      exact ⟨_, rfl, .inner split there (Option.some.inj here)⟩
    · have atEnd : i = front.length := by omega
      have nodes : tree.txIdAndWeights.dropLast = front := by rw [split, dropLast_concat]
      have same : last.txId = txId := by simpa [atEnd] using here
      rw [if_neg inner]
      simp only [size, nodes]
      exact ⟨_, rfl, .last split same⟩

variable {tree' : WeightedTxTree}

theorem Removed.wellFormed (removed : Removed tree txId tree') (formed : tree.WellFormed) :
    tree'.WellFormed := by
  have children := formed.children
  have index := formed.index
  cases removed with
  | absent => exact formed
  | inner split there id =>
    rw [ids, split, map_append, map_singleton] at index
    refine ⟨by simp, by simp [length_backPropagate, children, split], ?_⟩
    rw [ids, map_set]
    exact index.swapPop (by rw [getElem?_map, there, Option.map_some, id])
  | last split id =>
    rw [ids, split, map_append, map_singleton, id] at index
    exact ⟨rfl, by simp [length_backPropagate, children, split], index.pop⟩

theorem Removed.capacity (removed : Removed tree txId tree') : tree'.capacity = tree.capacity := by
  cases removed <;> rfl

/-- With distinct ids, what is left beside one of the nodes are those with another id. -/
theorem perm_others {infos rest : List WeightedTxInfo} (perm : infos.Perm (info :: rest))
    (distinct : (infos.map (·.txId)).Nodup) :
    rest.Perm (infos.filter (fun other => other.txId ≠ info.txId)) := by
  rw [(perm.map _).nodup_iff, map_cons, nodup_cons] at distinct
  have others : rest.filter (fun other => decide (other.txId ≠ info.txId)) = rest := by
    rw [filter_eq_self]
    grind
  have filtered := perm.filter (fun other => decide (other.txId ≠ info.txId))
  rw [filter_cons_of_neg (by simp), others] at filtered
  exact filtered.symm

/-- The other nodes stay, in another order. -/
theorem Removed.perm (removed : Removed tree txId tree') (formed : tree.WellFormed) :
    tree'.txIdAndWeights.Perm (tree.txIdAndWeights.filter (fun info => info.txId ≠ txId)) := by
  have distinct := formed.index.locates.nodup
  cases removed with
  | absent absent =>
    rw [filter_eq_self.mpr]
    unfold ids at absent
    grind
  | @inner front last _ i split there id =>
    obtain ⟨inside, rfl⟩ := List.getElem?_eq_some_iff.mp there
    rw [← id]
    refine perm_others ?_ distinct
    calc tree.txIdAndWeights.Perm (last :: front) := split ▸ perm_append_singleton last front
      _ |>.Perm (last :: front[i] :: front.eraseIdx i) :=
        (getElem_cons_eraseIdx_perm inside).symm.cons last
      _ |>.Perm (front[i] :: last :: front.eraseIdx i) := .swap ..
      _ |>.Perm (front[i] :: front.set i last) := ((set_perm_cons_eraseIdx inside last).symm).cons _
  | last split id =>
    rw [← id]
    exact perm_others (split ▸ perm_append_singleton _ _) distinct

/-- Removals one after the other. -/
inductive RemovedAll : WeightedTxTree → List Uint256 → WeightedTxTree → Prop where
  | nil {tree : WeightedTxTree} : RemovedAll tree [] tree
  | cons {tree mid tree' : WeightedTxTree} {txId : Uint256} {txIds : List Uint256}
      (first : Removed tree txId mid)
      (rest : RemovedAll mid txIds tree') : RemovedAll tree (txId :: txIds) tree'

variable {txIds : List Uint256} {tree : WeightedTxTree}

section

variable (removed : RemovedAll tree txIds tree')
include removed

theorem RemovedAll.capacity :
    tree'.capacity = tree.capacity := by
  induction removed with
  | nil => rfl
  | cons first _ ih => exact ih.trans first.capacity

theorem RemovedAll.wellFormed
    (formed : tree.WellFormed) : tree'.WellFormed := by
  induction removed with
  | nil => exact formed
  | cons first _ ih => exact ih (first.wellFormed formed)

theorem RemovedAll.perm (formed : tree.WellFormed) :
    tree'.txIdAndWeights.Perm (tree.txIdAndWeights.filter (fun info => info.txId ∉ txIds)) := by
  induction removed with
  | nil => simp
  | cons first _ ih =>
    refine (ih (first.wellFormed formed)).trans (((first.perm formed).filter _).trans (.of_eq ?_))
    rw [filter_filter]
    refine filter_congr fun info _ => ?_
    simp only [mem_cons, not_or, ← Bool.decide_and, and_comm]

end

theorem WellFormed.removedAll (formed : tree.WellFormed) (txIds : List Uint256) :
    ∃ tree', txIds.foldlM WeightedTxTree.remove tree = some tree' ∧
      RemovedAll tree txIds tree' := by
  induction txIds generalizing tree with
  | nil => exact ⟨tree, rfl, .nil⟩
  | cons txId _ ih =>
    obtain ⟨_, ran, first⟩ := formed.removed txId
    obtain ⟨tree', others, rest⟩ := ih (first.wellFormed formed)
    exact ⟨tree', by rw [foldlM_cons, ran, Option.bind_eq_bind, Option.bind_some, others],
      .cons first rest⟩

theorem RemovedAll.mem_ids (removed : RemovedAll tree txIds tree')
    (formed : tree.WellFormed) (id : Uint256) : id ∈ tree'.ids ↔ id ∈ tree.ids ∧ id ∉ txIds := by
  rw [ids, ids, ((removed.perm formed).map _).mem_iff]
  simp only [mem_map, mem_filter, decide_eq_true_eq]
  grind

/-- Removing an id, which may be one the collection does not have. -/
theorem WellFormed.remove (formed : tree.WellFormed) (txId : Uint256) :
    ∃ tree', tree.remove txId = some tree' ∧ tree'.WellFormed ∧
      ∀ id, id ∈ tree'.ids ↔ id ∈ tree.ids ∧ id ≠ txId := by
  obtain ⟨tree', ran, removed⟩ := formed.removed txId
  refine ⟨tree', ran, removed.wellFormed formed, fun id => ?_⟩
  rw [(RemovedAll.cons removed .nil).mem_ids formed, mem_singleton]

end WeightedTxTree

def EVICTION_MEMORY_ENTRIES : Nat := 40000

/-- `RecentlyEvictedList`, the ids with the times of their eviction. -/
structure RecentlyEvictedList where
  capacity : Nat
  timeToKeep : Int
  txIdsAndTimes : List (Uint256 × Int)
  txIdSet : List Uint256

namespace RecentlyEvictedList

variable (evicted : RecentlyEvictedList)

def popFront : RecentlyEvictedList :=
  match evicted.txIdsAndTimes with
  | [] => evicted
  | (txId, _) :: rest =>
    { evicted with txIdsAndTimes := rest, txIdSet := evicted.txIdSet.filter (fun id => id ≠ txId) }

/-- The ids whose time is over leave the front of the queue. -/
def pruneList (now : Int) : RecentlyEvictedList :=
  if evicted.txIdSet.isEmpty then evicted
  else
    (evicted.txIdsAndTimes.takeWhile
      (fun entry => decide (now - entry.2 > evicted.timeToKeep))).foldl
      (fun list _ => list.popFront) evicted

def add (txId : Uint256) (now : Int) : RecentlyEvictedList :=
  let pruned := evicted.pruneList now
  let room := if pruned.txIdsAndTimes.length = pruned.capacity then pruned.popFront else pruned
  { room with
    txIdsAndTimes := room.txIdsAndTimes ++ [(txId, now)]
    txIdSet := if txId ∈ room.txIdSet then room.txIdSet else txId :: room.txIdSet }

/-- `contains` prunes the list before it answers. -/
def contains (txId : Uint256) (now : Int) : RecentlyEvictedList × Bool :=
  let pruned := evicted.pruneList now
  (pruned, pruned.txIdSet.contains txId)

end RecentlyEvictedList

end Zcashd.Source
