import Mathlib

/-!
A complete binary tree in an array: the children of node `i` are the nodes `2 * i + 1` and
`2 * i + 2`. Sums over the part of the tree below a node, how they change with one weight, and
the search for the node that a number falls on when the nodes are laid out from left to right.
-/
namespace Zcashd.Lib.ArrayTree

open List Function

/-- The nodes above a node. -/
def ancestors (j : Nat) : List Nat := if j = 0 then [] else (j - 1) / 2 :: ancestors ((j - 1) / 2)
termination_by j

/-- The node `j` is `i` or one below it. -/
def Under (i j : Nat) : Prop := j = i ∨ i ∈ ancestors j

instance (i j : Nat) : Decidable (Under i j) := inferInstanceAs (Decidable (_ ∨ _))

theorem ancestors_zero : ancestors 0 = [] := by rw [ancestors, if_pos rfl]

theorem ancestors_pos {j : Nat} (pos : j ≠ 0) :
    ancestors j = (j - 1) / 2 :: ancestors ((j - 1) / 2) := by
  rw [ancestors, if_neg pos]

variable {i j : Nat}

theorem mem_ancestors : i ∈ ancestors j ↔ j ≠ 0 ∧ Under i ((j - 1) / 2) := by
  by_cases pos : j = 0
  · simp [pos, ancestors_zero]
  · simp only [ancestors_pos, mem_cons, Under, ne_eq, pos, not_false_eq_true, true_and, eq_comm]

theorem under_parent (pos : j ≠ 0) : Under i j ↔ j = i ∨ Under i ((j - 1) / 2) := by
  rw [Under, mem_ancestors, and_iff_right pos]

theorem lt_of_mem_ancestors (above : i ∈ ancestors j) : i < j := by
  induction j using Nat.strongRecOn with
  | ind j ih =>
    obtain ⟨_, _ | higher⟩ := mem_ancestors.mp above
    · omega
    · have := ih ((j - 1) / 2) (by omega) higher
      omega

theorem Under.le (under : Under i j) : i ≤ j := by
  obtain rfl | above := under
  · exact Nat.le_refl _
  · exact Nat.le_of_lt (lt_of_mem_ancestors above)

theorem under_zero (j : Nat) : Under 0 j := by
  induction j using Nat.strongRecOn with
  | ind j ih =>
    by_cases pos : j = 0
    · exact .inl pos
    · exact .inr (mem_ancestors.mpr ⟨pos, ih ((j - 1) / 2) (by omega)⟩)

/-- The nodes above one node form a chain. -/
theorem Under.total {a b : Nat} (underA : Under a j) (underB : Under b j) :
    Under a b ∨ Under b a := by
  induction j using Nat.strongRecOn with
  | ind j ih =>
    obtain rfl | aboveA := underA
    · exact .inr underB
    · obtain rfl | aboveB := underB
      · exact .inl (.inr aboveA)
      · obtain ⟨_, higherA⟩ := mem_ancestors.mp aboveA
        exact ih ((j - 1) / 2) (by omega) higherA (mem_ancestors.mp aboveB).2

/-- What is below a node is its left child or below it, or its right child or below it. -/
theorem mem_ancestors_iff : i ∈ ancestors j ↔ Under (2 * i + 1) j ∨ Under (2 * i + 2) j := by
  induction j using Nat.strongRecOn with
  | ind j ih =>
    by_cases pos : j = 0
    · simp [pos, ancestors_zero, Under]
    · have parent : (j - 1) / 2 = i ↔ j = 2 * i + 1 ∨ j = 2 * i + 2 := by omega
      have higher := ih ((j - 1) / 2) (by omega)
      rw [mem_ancestors, and_iff_right pos, Under, parent, higher, under_parent pos,
        under_parent pos]
      tauto

theorem under_iff : Under i j ↔ j = i ∨ Under (2 * i + 1) j ∨ Under (2 * i + 2) j := by
  rw [Under, mem_ancestors_iff]

theorem not_under_both (left : Under (2 * i + 1) j) : ¬ Under (2 * i + 2) j := by
  intro right
  have down : ¬ Under (2 * i + 2) (2 * i + 1) := fun under => by have := under.le; omega
  have across : ¬ Under (2 * i + 1) (2 * i + 2) := by
    rintro (_ | above)
    · omega
    · have up := (mem_ancestors.mp above).2.le
      omega
  exact (left.total right).elim across down

section

variable {M : Type*} [AddCommMonoid M] {w : Nat → M} {n i : Nat}

/-- The sum over the nodes below `i` in a tree of `n` nodes. -/
def below (w : Nat → M) (n i : Nat) : M := ∑ j ∈ Finset.range n with i ∈ ancestors j, w j

/-- The sum over `i` and the nodes below it. -/
def whole (w : Nat → M) (n i : Nat) : M := ∑ j ∈ Finset.range n with Under i j, w j

theorem below_succ : below w (n + 1) i = below w n i + if i ∈ ancestors n then w n else 0 := by
  simp [below, Finset.sum_filter, Finset.sum_range_succ]

theorem below_congr {w' : Nat → M} (same : ∀ j < n, w j = w' j) : below w n i = below w' n i := by
  refine Finset.sum_congr rfl fun j mem => same j ?_
  simp only [Finset.mem_filter, Finset.mem_range] at mem
  exact mem.1

theorem below_of_le (outside : n ≤ i + 1) : below w n i = 0 := by
  rw [below, Finset.filter_false_of_mem, Finset.sum_empty]
  intro j mem above
  have := lt_of_mem_ancestors above
  rw [Finset.mem_range] at mem
  omega

theorem whole_zero : whole w n 0 = ∑ j ∈ Finset.range n, w j := by
  rw [whole, Finset.filter_true_of_mem fun j _ => under_zero j]

theorem whole_of_le (outside : n ≤ i) : whole w n i = 0 := by
  rw [whole, Finset.filter_false_of_mem, Finset.sum_empty]
  intro j mem under
  have := under.le
  rw [Finset.mem_range] at mem
  omega

theorem whole_eq (inside : i < n) : whole w n i = w i + below w n i := by
  have split : ∀ j ∈ Finset.range n, (if Under i j then w j else 0) =
      (if i = j then w j else 0) + if i ∈ ancestors j then w j else 0 := by
    intro j _
    by_cases same : i = j
    · subst same
      have notAbove : i ∉ ancestors i := fun above => Nat.lt_irrefl i (lt_of_mem_ancestors above)
      simp [Under, notAbove]
    · have other : ¬ j = i := fun eq => same eq.symm
      simp [Under, same, other]
  rw [whole, below, Finset.sum_filter, Finset.sum_filter, Finset.sum_congr rfl split,
    Finset.sum_add_distrib, Finset.sum_ite_eq, if_pos (Finset.mem_range.mpr inside)]

theorem below_eq : below w n i = whole w n (2 * i + 1) + whole w n (2 * i + 2) := by
  have split : ∀ j ∈ Finset.range n, (if i ∈ ancestors j then w j else 0) =
      (if Under (2 * i + 1) j then w j else 0) + if Under (2 * i + 2) j then w j else 0 := by
    intro j _
    by_cases left : Under (2 * i + 1) j
    · simp [mem_ancestors_iff, left, not_under_both]
    · simp [mem_ancestors_iff, left]
  rw [below, whole, whole, Finset.sum_filter, Finset.sum_filter, Finset.sum_filter,
    Finset.sum_congr rfl split, Finset.sum_add_distrib]

variable [PartialOrder M] [IsOrderedAddMonoid M]

/-- Without negative weights, no part of the tree weighs more than the tree. -/
theorem below_bounds (nonneg : ∀ j, 0 ≤ w j) :
    0 ≤ below w n i ∧ below w n i ≤ ∑ j ∈ Finset.range n, w j :=
  ⟨Finset.sum_nonneg fun j _ => nonneg j,
    Finset.sum_le_sum_of_subset_of_nonneg (Finset.filter_subset _ _) fun j _ _ => nonneg j⟩

theorem whole_bounds (nonneg : ∀ j, 0 ≤ w j) :
    0 ≤ whole w n i ∧ whole w n i ≤ ∑ j ∈ Finset.range n, w j :=
  ⟨Finset.sum_nonneg fun j _ => nonneg j,
    Finset.sum_le_sum_of_subset_of_nonneg (Finset.filter_subset _ _) fun j _ _ => nonneg j⟩

end

theorem below_update [AddCommGroup M] {k : Nat} (inside : k < n) (x : M) :
    below (update w k x) n i = below w n i + if i ∈ ancestors k then x - w k else 0 := by
  have split : ∀ j ∈ Finset.range n, (if i ∈ ancestors j then update w k x j else 0) =
      (if i ∈ ancestors j then w j else 0) + if k = j then
        (if i ∈ ancestors k then x - w k else 0) else 0 := by
    intro j _
    by_cases same : j = k
    · subst same
      by_cases above : i ∈ ancestors j <;> simp [above]
    · have other : ¬ k = j := fun eq => same eq.symm
      simp [update_of_ne same, other]
  rw [below, below, Finset.sum_filter, Finset.sum_filter, Finset.sum_congr rfl split,
    Finset.sum_add_distrib, Finset.sum_ite_eq, if_pos (Finset.mem_range.mpr inside)]

section

variable {w : Nat → Nat} {n : Nat}

/-- The node a number falls on: the left part first, then the node, then the right part. -/
def descend (w : Nat → Nat) (n i x : Nat) : Option Nat :=
  if i < n then
    if x < whole w n (2 * i + 1) then descend w n (2 * i + 1) x
    else if x < whole w n (2 * i + 1) + w i then some i
    else descend w n (2 * i + 2) (x - (whole w n (2 * i + 1) + w i))
  else none
termination_by n - i

theorem whole_parts (inside : i < n) :
    whole w n i = whole w n (2 * i + 1) + w i + whole w n (2 * i + 2) := by
  rw [whole_eq inside, below_eq]
  omega

/-- A number below the weight of a part falls on a node of the array. -/
theorem descend_eq_some {x : Nat} (bound : x < whole w n i) :
    ∃ k < n, descend w n i x = some k := by
  fun_induction descend w n i x with
  | case1 i x _ left ih => exact ih left
  | case2 i x inside _ _ => exact ⟨i, inside, rfl⟩
  | case3 i x inside _ _ ih =>
    rw [whole_parts inside] at bound
    exact ih (by omega)
  | case4 i x outside =>
    rw [whole_of_le (by omega)] at bound
    exact absurd bound (Nat.not_lt_zero x)

/-- As many numbers fall on a node as its weight says. -/
theorem countP_descend (k i : Nat) :
    (range (whole w n i)).countP (fun x => descend w n i x = some k) = if Under i k ∧ k < n then w k
      else 0 := by
  induction m : n - i using Nat.strongRecOn generalizing i with
  | ind m ih =>
    by_cases inside : i < n
    · have left := ih (n - (2 * i + 1)) (by omega) (2 * i + 1) rfl
      have right := ih (n - (2 * i + 2)) (by omega) (2 * i + 2) rfl
      have inLeft : (range (whole w n (2 * i + 1))).countP (fun x => descend w n i x = some k) =
          (range (whole w n (2 * i + 1))).countP (fun x => descend w n (2 * i + 1) x = some k) := by
        refine countP_congr fun x mem => ?_
        rw [descend, if_pos inside, if_pos (mem_range.mp mem)]
      have atNode : (range (w i)).countP
          (fun x => descend w n i (whole w n (2 * i + 1) + x) = some k) =
          if i = k then w i else 0 := by
        have here : ∀ x ∈ range (w i), descend w n i (whole w n (2 * i + 1) + x) = some i := by
          intro x mem
          rw [mem_range] at mem
          rw [descend, if_pos inside, if_neg (by omega), if_pos (by omega)]
        rw [countP_congr fun x mem => by rw [here x mem]]
        by_cases same : i = k
        · simp [same]
        · simp [same]
      have inRight : (range (whole w n (2 * i + 2))).countP
          (fun x => descend w n i (whole w n (2 * i + 1) + w i + x) = some k) =
          (range (whole w n (2 * i + 2))).countP (fun x => descend w n (2 * i + 2) x = some k) := by
        refine countP_congr fun x _ => ?_
        rw [descend, if_pos inside, if_neg (by omega), if_neg (by omega), Nat.add_sub_cancel_left]
      rw [whole_parts inside, range_add, range_add, countP_append, countP_append, countP_map,
        countP_map]
      simp only [comp_def, inLeft, left, atNode, inRight, right]
      -- the three parts of the tree exclude each other
      by_cases same : k = i
      · subst same
        have notLeft : ¬ Under (2 * k + 1) k := fun under => by have := under.le; omega
        have notRight : ¬ Under (2 * k + 2) k := fun under => by have := under.le; omega
        simp [under_iff (i := k), notLeft, notRight, inside]
      · have other : ¬ i = k := fun eq => same eq.symm
        by_cases under : Under (2 * i + 1) k
        · simp [under_iff (i := i), same, other, under, not_under_both under]
        · simp [under_iff (i := i), same, other, under]
    · rw [whole_of_le (by omega)]
      have none : ¬ (Under i k ∧ k < n) := by
        rintro ⟨under, _⟩
        have := under.le
        omega
      simp [none]

end

end Zcashd.Lib.ArrayTree
