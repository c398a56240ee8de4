import Zcashd.Lib.ArrayTree
import Zcashd.Source.MempoolLimit

/-!
The sums in the collection of transaction ids with weights (`src/mempool_limit.cpp`): every
change keeps `childWeights` at the sums over the nodes below, and the search by weight is the
search in a complete binary tree as long as the weights fit in an `int`.
-/
namespace Zcashd.Source

open Lib Lib.ArrayTree List Option Int

theorem wrapInt64_eq {n : Int} (low : -2 ^ 63 ≤ n) (high : n < 2 ^ 63) : wrapInt64 n = n :=
  bmod_eq_of_le (by omega) (by omega)

theorem wrapInt32_eq {n : Int} (low : -2 ^ 31 ≤ n) (high : n < 2 ^ 31) : wrapInt32 n = n :=
  bmod_eq_of_le (by omega) (by omega)

theorem wrapInt64_add (a b : Int) : wrapInt64 (wrapInt64 a + b) = wrapInt64 (a + b) := by
  simp [wrapInt64]

theorem wrapInt64_wrapInt64 (a : Int) : wrapInt64 (wrapInt64 a) = wrapInt64 a := by
  simp [wrapInt64]

theorem wrapInt64_add_congr {a b b' : Int} (same : wrapInt64 b = wrapInt64 b') :
    wrapInt64 (a + b) = wrapInt64 (a + b') := by
  rw [add_comm, ← wrapInt64_add, same, wrapInt64_add, add_comm]

/-- One of the two numbers of a weight. -/
structure IsComponent (pick : TxWeight → Int) : Prop where
  add : ∀ a b : TxWeight, pick (a.add b) = wrapInt64 (pick a + pick b)
  negate : ∀ a : TxWeight, pick a.negate = wrapInt64 (-pick a)
  zero : pick ZERO_WEIGHT = 0

theorem isComponent_cost : IsComponent TxWeight.cost := ⟨fun _ _ => rfl, fun _ => rfl, rfl⟩

theorem isComponent_evictionWeight : IsComponent TxWeight.evictionWeight :=
  ⟨fun _ _ => rfl, fun _ => rfl, rfl⟩

/-- Every node above gets the change, and gets it once. -/
theorem getElem?_backPropagate (childWeights : List TxWeight) (fromIndex : Nat)
    (weightDelta : TxWeight) (i : Nat) :
    (backPropagate childWeights fromIndex weightDelta)[i]? =
      (childWeights[i]?).map
        (fun w => if i ∈ ancestors fromIndex then w.add weightDelta else w) := by
  fun_induction backPropagate childWeights fromIndex weightDelta with
  | case1 => simp [ancestors_zero]
  | case2 childWeights fromIndex pos parent ih =>
    rw [ih, ancestors_pos pos, getElem?_modify]
    by_cases here : parent = i
    · have notAbove : i ∉ ancestors parent :=
        fun above => by have := lt_of_mem_ancestors above; omega
      subst here
      cases childWeights[parent]? <;> simp [notAbove, parent]
    · have other : ¬ i = (fromIndex - 1) / 2 := fun same => here same.symm
      cases childWeights[i]? <;> simp [other, parent, here]

/-- The weights below the nodes are these numbers, in 64 bits. -/
def SumsTo (pick : TxWeight → Int) (childWeights : List TxWeight) (sum : Nat → Int) : Prop :=
  ∀ i w, childWeights[i]? = some w → pick w = wrapInt64 (sum i)

variable {pick : TxWeight → Int} {childWeights : List TxWeight} {sum : Nat → Int}

theorem SumsTo.congr (sums : SumsTo pick childWeights sum) {sum' : Nat → Int}
    (same : ∀ i < childWeights.length, sum i = sum' i) : SumsTo pick childWeights sum' := by
  intro i w here
  rw [← same i (List.getElem?_eq_some_iff.mp here).1]
  exact sums i w here

theorem SumsTo.dropLast (sums : SumsTo pick childWeights sum) :
    SumsTo pick childWeights.dropLast sum := by
  intro i w here
  rw [getElem?_dropLast] at here
  split at here
  · exact sums i w here
  · cases here

theorem SumsTo.backPropagate (component : IsComponent pick) (sums : SumsTo pick childWeights sum)
    (fromIndex : Nat) {weightDelta : TxWeight} {delta : Int}
    (change : wrapInt64 (pick weightDelta) = wrapInt64 delta) :
    SumsTo pick (backPropagate childWeights fromIndex weightDelta)
      (fun i => sum i + if i ∈ ancestors fromIndex then delta else 0) := by
  intro i w here
  rw [getElem?_backPropagate, map_eq_some_iff] at here
  obtain ⟨old, there, rfl⟩ := here
  by_cases above : i ∈ ancestors fromIndex
  · simp only [if_pos above]
    rw [component.add, sums i old there, wrapInt64_add, wrapInt64_add_congr change]
  · simp only [if_neg above]
    rw [sums i old there, add_zero]

/-- The weight of a node in the vector. -/
def nodeWeight (pick : TxWeight → Int) (infos : List WeightedTxInfo) (j : Nat) : Int :=
  (infos[j]?).elim 0 (fun info => pick info.txWeight)

variable {infos front : List WeightedTxInfo} {info last : WeightedTxInfo}

theorem nodeWeight_append {j : Nat} (inside : j < front.length) :
    nodeWeight pick (front ++ [last]) j = nodeWeight pick front j := by
  rw [nodeWeight, getElem?_append_left inside, nodeWeight]

theorem nodeWeight_last : nodeWeight pick (front ++ [last]) front.length = pick last.txWeight := by
  simp [nodeWeight]

theorem nodeWeight_set {k : Nat} (inside : k < front.length) :
    nodeWeight pick (front.set k last) = Function.update (nodeWeight pick front) k
      (pick last.txWeight) := by
  funext j
  by_cases same : j = k
  · subst same
    simp [nodeWeight, inside]
  · rw [Function.update_of_ne same, nodeWeight, getElem?_set_ne (Ne.symm same), nodeWeight]

theorem below_append (i : Nat) :
    below (nodeWeight pick (front ++ [last])) (front ++ [last]).length i =
      below (nodeWeight pick front) front.length i + if i ∈ ancestors front.length then
        pick last.txWeight
      else 0 := by
  rw [length_append, length_singleton, below_succ, nodeWeight_last,
    below_congr fun j inside => nodeWeight_append inside]

theorem sum_nodeWeight (infos : List WeightedTxInfo) :
    ∑ j ∈ Finset.range infos.length,
      nodeWeight pick infos j = (infos.map (fun info => pick info.txWeight)).sum := by
  induction infos using reverseRecOn with
  | nil => rfl
  | append_singleton _ _ ih =>
    rw [length_append, length_singleton, Finset.sum_range_succ, nodeWeight_last,
      Finset.sum_congr rfl fun j inside => nodeWeight_append (Finset.mem_range.mp inside),
      ih, map_append, sum_append, map_singleton, sum_singleton]

namespace WeightedTxTree

variable {tree tree' : WeightedTxTree}

/-- Every node knows the sum of the weights below it. -/
def Summed (pick : TxWeight → Int) (tree : WeightedTxTree) : Prop :=
  SumsTo pick tree.childWeights
    (below (nodeWeight pick tree.txIdAndWeights) tree.txIdAndWeights.length)

theorem summed_empty (capacity : Int) : (empty capacity).Summed pick := by
  intro i w here
  cases here

section

variable (component : IsComponent pick) (summed : tree.Summed pick)
include component summed

theorem Summed.add (formed : tree.WellFormed)
    (info : WeightedTxInfo) : (tree.add info).Summed pick := by
  unfold WeightedTxTree.add
  split
  case isTrue => exact summed
  case isFalse =>
    have grown : SumsTo pick (tree.childWeights ++ [ZERO_WEIGHT])
        (below (nodeWeight pick tree.txIdAndWeights) tree.txIdAndWeights.length) := by
      intro i w here
      rw [getElem?_append] at here
      split at here
      · exact summed i w here
      · -- nothing is below the new node
        rw [mem_singleton.mp (mem_of_getElem? here), component.zero, below_of_le]
        · rfl
        · rw [← formed.children]
          omega
    refine (grown.backPropagate component tree.size rfl).congr fun i _ => ?_
    rw [below_append, formed.size]

/-- The weight of the last node is taken away. -/
theorem Summed.withoutLast
    (split : tree.txIdAndWeights = front ++ [last]) :
    SumsTo pick (backPropagate tree.childWeights front.length last.txWeight.negate)
      (below (nodeWeight pick front) front.length) := by
  have change : wrapInt64 (pick last.txWeight.negate) = wrapInt64 (-pick last.txWeight) := by
    rw [component.negate, wrapInt64_wrapInt64]
  refine (SumsTo.backPropagate component summed front.length change).congr fun i _ => ?_
  rw [split, below_append]
  split <;> omega

variable {txId : Uint256}

/-- A removal takes the weight of the last node away, and then changes that of the node it moved
to. -/
theorem Removed.sums (gone : Removed tree txId tree') : tree'.Summed pick := by
  cases gone with
  | absent => exact summed
  | @inner front last _ i split there =>
    obtain ⟨inside, rfl⟩ := List.getElem?_eq_some_iff.mp there
    have change : wrapInt64 (pick (last.txWeight.add (front[i].txWeight.negate))) =
        wrapInt64 (pick last.txWeight - pick front[i].txWeight) := by
      rw [component.add, wrapInt64_wrapInt64, component.negate, sub_eq_add_neg]
      exact wrapInt64_add_congr (wrapInt64_wrapInt64 _)
    refine ((summed.withoutLast component split).backPropagate component i change).dropLast.congr
      fun k _ => ?_
    rw [length_set, nodeWeight_set inside, below_update inside]
    simp [nodeWeight, inside]
  | last split => exact (summed.withoutLast component split).dropLast

/-- The weight of a node and all below it. -/
theorem Summed.getWeightAt (formed : tree.WellFormed) (i : Nat) :
    pick (tree.getWeightAt i) =
      wrapInt64 (whole (nodeWeight pick tree.txIdAndWeights) tree.txIdAndWeights.length i) := by
  rw [WeightedTxTree.getWeightAt, formed.size]
  split
  case isTrue inside =>
    obtain ⟨info, node⟩ : ∃ info, tree.txIdAndWeights[i]? = some info :=
      ⟨_, getElem?_eq_getElem inside⟩
    obtain ⟨child, below⟩ : ∃ child, tree.childWeights[i]? = some child :=
      ⟨_, getElem?_eq_getElem (formed.children ▸ inside)⟩
    rw [node, below, elim_some, getD_some, component.add, summed i child below, add_comm,
      wrapInt64_add, add_comm, whole_eq inside, nodeWeight, node, elim_some]
  case isFalse outside =>
    rw [whole_of_le (by omega), component.zero]
    rfl

end

/-- A number of the weights that is not negative and whose sum fits in 64 bits. -/
structure Bounded (pick : TxWeight → Int) (infos : List WeightedTxInfo) : Prop where
  nonneg : ∀ info ∈ infos, 0 ≤ pick info.txWeight
  total : (infos.map (fun info => pick info.txWeight)).sum < 2 ^ 63

theorem nodeWeight_nonneg (nonneg : ∀ info ∈ infos, 0 ≤ pick info.txWeight) (j : Nat) :
    0 ≤ nodeWeight pick infos j := by
  rw [nodeWeight]
  cases node : infos[j]? with
  | none => exact le_refl 0
  | some info => exact nonneg info (mem_of_getElem? node)

theorem Bounded.wrap_below (bounded : Bounded pick infos) (i : Nat) :
    wrapInt64 (below (nodeWeight pick infos) infos.length i) =
      below (nodeWeight pick infos) infos.length i := by
  have bounds := below_bounds (n := infos.length) (i := i) (nodeWeight_nonneg bounded.nonneg)
  have total := bounded.total
  rw [← sum_nodeWeight] at total
  exact wrapInt64_eq (by omega) (by omega)

theorem Bounded.wrap_whole (bounded : Bounded pick infos) (i : Nat) :
    wrapInt64 (whole (nodeWeight pick infos) infos.length i) =
      whole (nodeWeight pick infos) infos.length i := by
  have bounds := whole_bounds (n := infos.length) (i := i) (nodeWeight_nonneg bounded.nonneg)
  have total := bounded.total
  rw [← sum_nodeWeight] at total
  exact wrapInt64_eq (by omega) (by omega)

theorem Summed.getTotalWeight (component : IsComponent pick) (summed : tree.Summed pick)
    (formed : tree.WellFormed) (bounded : Bounded pick tree.txIdAndWeights) :
    pick tree.getTotalWeight = (tree.txIdAndWeights.map (fun info => pick info.txWeight)).sum := by
  rw [WeightedTxTree.getTotalWeight, summed.getWeightAt component formed, bounded.wrap_whole,
    whole_zero, sum_nodeWeight]

/-- The eviction weight of a node as a number that is not negative. -/
def nodeEviction (infos : List WeightedTxInfo) (j : Nat) : Nat :=
  (nodeWeight TxWeight.evictionWeight infos j).toNat

theorem whole_nodeEviction (nonneg : ∀ info ∈ infos, 0 ≤ info.txWeight.evictionWeight) (i : Nat) :
    ((whole (nodeEviction infos) infos.length i : Nat) : Int) =
      whole (nodeWeight TxWeight.evictionWeight infos) infos.length i := by
  rw [whole, whole, Nat.cast_sum]
  exact Finset.sum_congr rfl fun j _ => toNat_of_nonneg (nodeWeight_nonneg nonneg j)

/-- While the eviction weights fit in an `int`, the source's search is the one in the tree. -/
theorem findByEvictionWeight_eq (summed : tree.Summed TxWeight.evictionWeight)
    (formed : tree.WellFormed)
    (nonneg : ∀ info ∈ tree.txIdAndWeights, 0 ≤ info.txWeight.evictionWeight)
    (total : (tree.txIdAndWeights.map (fun info => info.txWeight.evictionWeight)).sum < 2 ^ 31)
    (i x : Nat)
    (bound : x < whole (nodeEviction tree.txIdAndWeights) tree.txIdAndWeights.length i) :
    tree.findByEvictionWeight i x =
      descend (nodeEviction tree.txIdAndWeights) tree.txIdAndWeights.length i x := by
  have bounded : Bounded TxWeight.evictionWeight tree.txIdAndWeights := ⟨nonneg, by omega⟩
  have small : ∀ k, whole (nodeEviction tree.txIdAndWeights) tree.txIdAndWeights.length k <
      2 ^ 31 := by
    intro k
    have bounds :=
      whole_bounds (n := tree.txIdAndWeights.length) (i := k) (nodeWeight_nonneg nonneg)
    rw [← whole_nodeEviction nonneg, sum_nodeWeight] at bounds
    omega
  have weightAt : ∀ k, (tree.getWeightAt k).evictionWeight =
      ((whole (nodeEviction tree.txIdAndWeights) tree.txIdAndWeights.length k : Nat) : Int) := by
    intro k
    rw [summed.getWeightAt isComponent_evictionWeight formed, bounded.wrap_whole,
      whole_nodeEviction nonneg]
  -- the two weights the source compares with, in terms of the parts of the tree
  have left : ∀ k, wrapInt32 (tree.getWeightAt (k * 2 + 1)).evictionWeight =
      ((whole (nodeEviction tree.txIdAndWeights) tree.txIdAndWeights.length (2 * k + 1) : Nat) :
        Int) := by
    intro k
    have := small (k * 2 + 1)
    rw [weightAt, wrapInt32_eq (by omega) (by omega), Nat.mul_comm]
  have right : ∀ k < tree.txIdAndWeights.length,
      wrapInt32 (wrapInt64
        ((tree.getWeightAt k).evictionWeight - (tree.getWeightAt (k * 2 + 2)).evictionWeight)) =
      ((whole (nodeEviction tree.txIdAndWeights) tree.txIdAndWeights.length (2 * k + 1) +
        nodeEviction tree.txIdAndWeights k : Nat) : Int) := by
    intro k inside
    have := small k
    have parts := whole_parts (w := nodeEviction tree.txIdAndWeights) inside
    rw [weightAt, weightAt, Nat.mul_comm k 2, wrapInt64_eq (by omega) (by omega),
      wrapInt32_eq (by omega) (by omega)]
    omega
  fun_induction descend (nodeEviction tree.txIdAndWeights) tree.txIdAndWeights.length i x with
  | case1 i x inside goLeft ih =>
    rw [findByEvictionWeight, formed.size, if_pos inside]
    rw [left, if_pos (by omega), Nat.mul_comm]
    exact ih goLeft
  | case2 i x inside _ _ =>
    rw [findByEvictionWeight, formed.size, if_pos inside]
    rw [left, right i inside, if_neg (by omega), if_pos (by omega)]
  | case3 i x inside _ _ ih =>
    have rest := ih (by rw [whole_parts inside] at bound; omega)
    have := small i
    rw [findByEvictionWeight, formed.size, if_pos inside]
    rw [left, right i inside, if_neg (by omega), if_neg (by omega),
      wrapInt64_eq (by omega) (by omega), Nat.mul_comm, ← rest]
    congr 1
    omega
  | case4 i x _ =>
    rw [whole_of_le (by omega)] at bound
    omega

theorem bounded_nil (pick : TxWeight → Int) : Bounded pick [] :=
  ⟨nofun, by rw [map_nil, sum_nil]; decide⟩

/-- The bound does not depend on the order. -/
theorem Bounded.perm (bounded : Bounded pick infos) {infos' : List WeightedTxInfo}
    (perm : infos'.Perm infos) :
    Bounded pick infos' := by
  refine ⟨fun info mem => bounded.nonneg info (perm.subset mem), ?_⟩
  rw [(perm.map _).sum_eq]
  exact bounded.total

/-- Without negative weights, what is left does not weigh more. -/
theorem sum_filter_le (nonneg : ∀ info ∈ infos, 0 ≤ pick info.txWeight)
    (p : WeightedTxInfo → Bool) :
    ((infos.filter p).map (fun info => pick info.txWeight)).sum ≤
      (infos.map (fun info => pick info.txWeight)).sum := by
  refine List.Sublist.sum_le_sum (filter_sublist.map _) ?_
  intro _ picked
  obtain ⟨info, mem, rfl⟩ := mem_map.mp picked
  exact nonneg info mem

theorem Bounded.filter (bounded : Bounded pick infos) (p : WeightedTxInfo → Bool) :
    Bounded pick (infos.filter p) :=
  ⟨fun info mem => bounded.nonneg info (mem_of_mem_filter mem),
    lt_of_le_of_lt (sum_filter_le bounded.nonneg p) bounded.total⟩

/-- The vectors and the map fit together, and every node knows the sums below it. -/
structure Sound (tree : WeightedTxTree) : Prop where
  formed : tree.WellFormed
  costs : tree.Summed TxWeight.cost
  evictionWeights : tree.Summed TxWeight.evictionWeight
  cost : Bounded TxWeight.cost tree.txIdAndWeights
  evictionWeight : Bounded TxWeight.evictionWeight tree.txIdAndWeights

theorem sound_empty (capacity : Int) : (empty capacity).Sound :=
  ⟨wellFormed_empty _, summed_empty _, summed_empty _, bounded_nil _, bounded_nil _⟩

theorem Removed.sound (gone : Removed tree txId tree') (sound : tree.Sound) : tree'.Sound where
  formed := gone.wellFormed sound.formed
  costs := gone.sums isComponent_cost sound.costs
  evictionWeights := gone.sums isComponent_evictionWeight sound.evictionWeights
  cost := (sound.cost.filter _).perm (gone.perm sound.formed)
  evictionWeight := (sound.evictionWeight.filter _).perm (gone.perm sound.formed)

theorem RemovedAll.sound {txIds : List Uint256} (gone : RemovedAll tree txIds tree')
    (sound : tree.Sound) :
    tree'.Sound := by
  induction gone with
  | nil => exact sound
  | cons first _ ih => exact ih (first.sound sound)

/-- The sum of the eviction weights. -/
def totalEviction (infos : List WeightedTxInfo) : Int :=
  (infos.map (fun info => info.txWeight.evictionWeight)).sum

/-- The sum of the costs. -/
def totalCost (infos : List WeightedTxInfo) : Int :=
  (infos.map (fun info => info.txWeight.cost)).sum

variable (sound : tree.Sound)
include sound

theorem Sound.getTotalWeight :
    tree.getTotalWeight = ⟨totalCost tree.txIdAndWeights, totalEviction tree.txIdAndWeights⟩ := by
  have first := sound.costs.getTotalWeight isComponent_cost sound.formed sound.cost
  have second := sound.evictionWeights.getTotalWeight isComponent_evictionWeight sound.formed
    sound.evictionWeight
  rw [totalCost, totalEviction, ← first, ← second]

theorem Sound.total_whole : whole (nodeEviction tree.txIdAndWeights) tree.txIdAndWeights.length 0 =
      (totalEviction tree.txIdAndWeights).toNat := by
  have cast := whole_nodeEviction sound.evictionWeight.nonneg 0
  rw [whole_zero, whole_zero, sum_nodeWeight] at cast
  rw [whole_zero, totalEviction, ← cast, toNat_natCast]

/-- The search on the numbers below the total. -/
theorem Sound.find (small : totalEviction tree.txIdAndWeights < 2 ^ 31) {x : Nat}
    (bound : x < (totalEviction tree.txIdAndWeights).toNat) :
    tree.findByEvictionWeight 0 x =
      descend (nodeEviction tree.txIdAndWeights) tree.txIdAndWeights.length 0 x :=
  findByEvictionWeight_eq sound.evictionWeights sound.formed sound.evictionWeight.nonneg small 0 x
    (sound.total_whole ▸ bound)

/-- As many numbers lead to a node as its eviction weight says. -/
theorem Sound.count {i : Nat}
    (node : tree.txIdAndWeights[i]? = some info) :
    (((List.range (totalEviction tree.txIdAndWeights).toNat).countP
      (fun x => descend (nodeEviction tree.txIdAndWeights) tree.txIdAndWeights.length 0 x =
        some i) : Nat) : Int) = info.txWeight.evictionWeight := by
  have inside := (List.getElem?_eq_some_iff.mp node).1
  have nonneg := sound.evictionWeight.nonneg info (mem_of_getElem? node)
  rw [← sound.total_whole, countP_descend, if_pos ⟨under_zero i, inside⟩, nodeEviction,
    nodeWeight, node, elim_some, toNat_of_nonneg nonneg]

/-- The choice of `maybeDropRandom` is the search with the random number. -/
theorem Sound.maybeDropRandom (small : totalEviction tree.txIdAndWeights < 2 ^ 31)
    (exceeds : tree.capacity < totalCost tree.txIdAndWeights)
    (pos : 0 < totalEviction tree.txIdAndWeights) (nRand : Nat) :
    ∃ tree' i info, tree.maybeDropRandom nRand = some (tree', some info.txId) ∧
      Removed tree info.txId tree' ∧
      tree.txIdAndWeights[i]? = some info ∧
      descend (nodeEviction tree.txIdAndWeights) tree.txIdAndWeights.length 0
        (nRand % (totalEviction tree.txIdAndWeights).toNat) = some i := by
  have total := sound.getTotalWeight
  obtain ⟨r, bound, random⟩ : ∃ r, r < (totalEviction tree.txIdAndWeights).toNat ∧
      nRand % (totalEviction tree.txIdAndWeights).toNat = r := ⟨_, Nat.mod_lt _ (by omega), rfl⟩
  obtain ⟨i, inside, hit⟩ := descend_eq_some (sound.total_whole ▸ bound)
  have node := getElem?_eq_getElem inside
  obtain ⟨tree', ran, gone⟩ := sound.formed.removed tree.txIdAndWeights[i].txId
  have drawn :
      wrapInt32 (getRand nRand (tree.getTotalWeight.evictionWeight.emod (2 ^ 64)).toNat) = r := by
    have fits : (totalEviction tree.txIdAndWeights).emod (2 ^ 64) =
        totalEviction tree.txIdAndWeights :=
      emod_eq_of_lt (by omega) (by omega)
    rw [total, fits, getRand, if_neg (by omega), random, wrapInt32_eq (by omega) (by omega)]
  refine ⟨tree', i, _, ?_, gone, node, by rw [random, hit]⟩
  rw [WeightedTxTree.maybeDropRandom, drawn, total, if_neg (not_le.mpr exceeds)]
  dsimp only
  rw [sound.find small bound, hit]
  simp only [bind_eq_bind, bind_some, node, ran]
  rfl

end WeightedTxTree

end Zcashd.Source
